/-!
# Base64 text

Decoding base64 text leniently, as YAML binary scalars are decoded: every
character outside the alphabet `A`–`Z`, `a`–`z`, `0`–`9`, `+`, `/` and the
pad `=` is skipped.  Four alphabet characters make three bytes; the decoding
ends at the first pad that completes a group (a pad counts only after two
characters of a group).  A group left incomplete at the end is a failure: a
single character is one too many, two or three lack their padding.
-/

namespace Firewall
namespace Base64

/-- The value of a character of the alphabet. -/
def digit (c : Char) : Option Nat :=
  if 'A' ≤ c && c ≤ 'Z' then some (c.toNat - 'A'.toNat)
  else if 'a' ≤ c && c ≤ 'z' then some (c.toNat - 'a'.toNat + 26)
  else if '0' ≤ c && c ≤ '9' then some (c.toNat - '0'.toNat + 52)
  else if c == '+' then some 62
  else if c == '/' then some 63
  else none

/-- Why a base64 text does not decode. -/
inductive Failure where
  /-- one character stands alone at the end, after `bytes` decoded bytes -/
  | oneTooMany (bytes : Nat)
  /-- two or three characters end without their padding -/
  | padding
deriving Repr, DecidableEq

/-- The text of a failure. -/
def Failure.message : Failure → String
  | .oneTooMany n =>
    "Invalid base64-encoded string: number of data characters (" ++ toString (n / 3 * 4 + 1) ++
      ") cannot be 1 more than a multiple of 4"
  | .padding => "Incorrect padding"

/-- The state of decoding: the position in the group, the bits left over
from its characters, the pads met since the last character, and the bytes
decoded, last first. -/
structure State where
  quad : Nat
  left : Nat
  pads : Nat
  out : List UInt8

/-- Take one alphabet character of value `d`. -/
def State.take (st : State) (d : Nat) : State :=
  match st.quad with
  | 0 => ⟨1, d, 0, st.out⟩
  | 1 => ⟨2, d % 16, 0, (st.left * 4 + d / 16).toUInt8 :: st.out⟩
  | 2 => ⟨3, d % 4, 0, (st.left * 16 + d / 4).toUInt8 :: st.out⟩
  | _ => ⟨0, 0, 0, (st.left * 64 + d).toUInt8 :: st.out⟩

/-- The end of the text: the bytes, unless a group is incomplete. -/
def State.finish (st : State) : Except Failure (List UInt8) :=
  if st.quad == 0 then .ok st.out.reverse
  else if st.quad == 1 then .error (.oneTooMany st.out.length)
  else .error .padding

/-- Decode the rest of a text from a state. -/
def run (st : State) : List Char → Except Failure (List UInt8)
  | [] => st.finish
  | c :: rest =>
    if c == '=' then
      if st.quad ≥ 2 then
        if st.quad + st.pads + 1 ≥ 4 then .ok st.out.reverse
        else run { st with pads := st.pads + 1 } rest
      else run st rest
    else
      match digit c with
      | some d => run (st.take d) rest
      | none => run st rest

/-- The bytes of a base64 text. -/
def decode (cs : List Char) : Except Failure (List UInt8) := run ⟨0, 0, 0, []⟩ cs

@[simp] theorem decode_nil : decode [] = .ok [] := rfl

end Base64
end Firewall
