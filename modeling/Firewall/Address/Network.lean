import Firewall.Value.Text
import Firewall.Fault

/-!
# Network addresses

The text of an IPv4 or IPv6 network: an address, optionally followed by `/`
and a mask.

- IPv4 addresses are four dot-separated decimal octets of at most three ASCII
  digits, without leading zeros, each at most 255.  IPv6 addresses are eight
  colon-separated groups of at most four hex digits, with at most one `::`
  standing for one or more zero groups, optionally ending in an IPv4 address,
  optionally followed by `%` and a nonempty zone name.
- The mask is a prefix length in ASCII digits up to the address width; an IPv4
  mask may also be a dotted netmask (ones, then zeros) or hostmask (zeros, then
  ones).  An integer stands for the address with that number.
- The network must have no bits set below its prefix.

`Network.classify` tells whether a value is a network of a family.  A text
that is no address of the family is simply not one; a bad mask or bits below
the prefix are faults.
-/

namespace Firewall
namespace Address

/-- The two address families. -/
inductive Family where
  | v4
  | v6
deriving Repr, DecidableEq

/-- Address width in bits. -/
def Family.width : Family → Nat
  | .v4 => 32
  | .v6 => 128

/-- The mask with the first `p` of `w` bits set. -/
def maskOf (w p : Nat) : Nat := (Nat.pow 2 w - 1) - (Nat.pow 2 (w - p) - 1)

/-- The prefix length of a mask of the form ones-then-zeros, if it has that form. -/
def prefixOfMask (w n : Nat) : Option Nat :=
  (List.range (w + 1)).find? (fun p => maskOf w p == n)

/-- The pieces of a text between the occurrences of a separator character. -/
def fields (sep : Char) (s : String) : List String :=
  (s.toList.splitOn sep).map String.ofList

/-- Whether every character is an ASCII decimal digit, and there is one. -/
def allDigits (s : String) : Bool := !s.isEmpty && s.toList.all Char.isDigit

/-- The value of ASCII decimal digits. -/
def digitValue (s : String) : Nat :=
  s.toList.foldl (fun n c => n * 10 + (c.toNat - '0'.toNat)) 0

/-- A decimal octet: one to three digits, no leading zero, at most 255. -/
def parseOctet (s : String) : Option Nat :=
  if !allDigits s then none
  else if s.length > 3 then none
  else if s != "0" && s.front == '0' then none
  else
    let n := digitValue s
    if n > 255 then none else some n

/-- A dotted IPv4 address as a number. -/
def parseV4 (s : String) : Option Nat :=
  match fields '.' s with
  | [a, b, c, d] => do
    let a ← parseOctet a; let b ← parseOctet b; let c ← parseOctet c; let d ← parseOctet d
    pure (((a * 256 + b) * 256 + c) * 256 + d)
  | _ => none

/-- The value of a hex digit. -/
def hexDigit (c : Char) : Option Nat :=
  if '0' ≤ c ∧ c ≤ '9' then some (c.toNat - '0'.toNat)
  else if 'a' ≤ c ∧ c ≤ 'f' then some (c.toNat - 'a'.toNat + 10)
  else if 'A' ≤ c ∧ c ≤ 'F' then some (c.toNat - 'A'.toNat + 10)
  else none

/-- A group of one to four hex digits. -/
def parseGroup (s : String) : Option Nat :=
  if s.isEmpty || s.length > 4 then none
  else s.toList.foldlM (fun n c => (hexDigit c).map (n * 16 + ·)) 0

/-- Groups as one number, the first group most significant. -/
def groupsValue (gs : List Nat) : Nat := gs.foldl (fun n g => n * 65536 + g) 0

/-- The groups of an IPv6 address text without zone: a final IPv4 address
becomes two groups; `::` stands for the missing zero groups. -/
def parseV6Groups (s : String) : Option (List Nat) := do
  if s.isEmpty then none
  let parts := fields ':' s
  if parts.length < 3 then none
  let parts ← match parts.getLast? with
    | some last =>
      if last.toList.contains '.' then do
        let v ← parseV4 last
        pure (parts.dropLast ++ [String.ofList (Nat.toDigits 16 (v / 65536)),
          String.ofList (Nat.toDigits 16 (v % 65536))])
      else pure parts
    | none => none
  if parts.length > 9 then none
  let n := parts.length
  let inner := (List.range n).filter (fun i => 0 < i ∧ i < n - 1 ∧ (parts.getD i "").isEmpty)
  match inner with
  | [] =>
    if n != 8 then none
    let gs ← parts.mapM parseGroup
    pure gs
  | [skip] =>
    let hiCount := if (parts.getD 0 "").isEmpty then skip - 1 else skip
    let loCount := if (parts.getD (n - 1) "").isEmpty then n - skip - 2 else n - skip - 1
    if (parts.getD 0 "").isEmpty && hiCount != 0 then none
    if (parts.getD (n - 1) "").isEmpty && loCount != 0 then none
    if hiCount + loCount > 7 then none
    let hi ← (parts.take hiCount).mapM parseGroup
    let lo ← (parts.drop (n - loCount)).mapM parseGroup
    pure (hi ++ List.replicate (8 - hiCount - loCount) 0 ++ lo)
  | _ => none

/-- An IPv6 address text, with an optional `%zone`, as a number and the zone. -/
def parseV6 (s : String) : Option (Nat × Option String) :=
  match fields '%' s with
  | [a] => (parseV6Groups a).map (fun gs => (groupsValue gs, none))
  | [a, z] => if z.isEmpty then none else (parseV6Groups a).map (fun gs => (groupsValue gs, some z))
  | _ => none

/-- Dotted decimal text of an IPv4 address. -/
def v4Text (n : Nat) : String :=
  ".".intercalate ([n / 16777216 % 256, n / 65536 % 256, n / 256 % 256, n % 256].map toString)

/-- The eight groups of an IPv6 address. -/
def v6Groups (n : Nat) : List Nat :=
  (List.range 8).map (fun i => n / Nat.pow 65536 (7 - i) % 65536)

/-- The longest run of zero groups (the first of equal length): start and length. -/
def longestZeroRun (gs : List Nat) : Nat × Nat :=
  let step := fun (acc : (Nat × Nat) × (Nat × Nat) × Nat) (g : Nat) =>
    let ((bestStart, bestLen), (curStart, curLen), i) := acc
    if g == 0 then
      let cur := if curLen == 0 then (i, 1) else (curStart, curLen + 1)
      let best := if cur.2 > bestLen then cur else (bestStart, bestLen)
      (best, cur, i + 1)
    else ((bestStart, bestLen), (0, 0), i + 1)
  (gs.foldl step ((0, 0), (0, 0), 0)).1

/-- Compressed IPv6 text: lower-case groups without leading zeros, the longest
run of two or more zero groups written `::`. -/
def v6Text (n : Nat) : String :=
  let gs := v6Groups n
  let hex := fun g => String.ofList (Nat.toDigits 16 g)
  let (start, len) := longestZeroRun gs
  if len < 2 then ":".intercalate (gs.map hex)
  else
    let before := (gs.take start).map hex
    let after := (gs.drop (start + len)).map hex
    ":".intercalate before ++ "::" ++ ":".intercalate after

/-- A network: family, address, zone and prefix length. -/
structure Network where
  family : Family
  address : Nat
  zone : Option String
  prefixLen : Nat
deriving Repr, DecidableEq

/-- The text of a network: address, zone, prefix length. -/
def Network.text (n : Network) : String :=
  let addr := match n.family with
    | .v4 => v4Text n.address
    | .v6 => v6Text n.address
  let zone := match n.zone with
    | some z => "%" ++ z
    | none => ""
  addr ++ zone ++ "/" ++ toString n.prefixLen

/-- The prefix length of a mask text: decimal digits, or for IPv4 a dotted
netmask or hostmask. -/
def maskPrefix (fam : Family) (mask : String) : Except Fault Nat :=
  let w := fam.width
  if allDigits mask && digitValue mask ≤ w then .ok (digitValue mask)
  else match fam with
    | .v6 => .error (.badNetmask (Text.quote mask))
    | .v4 =>
      match parseV4 mask with
      | none => .error (.badNetmask (Text.quote mask))
      | some m =>
        match prefixOfMask w m with
        | some p => .ok p
        | none =>
          -- a hostmask stands for the prefix of its complement
          match prefixOfMask w ((Nat.pow 2 w - 1) - m) with
          | some p => .ok p
          | none => .error (.badNetmask (Text.quote mask))

/-- The address part of a network text, if it is an address of the family. -/
def parseAddress (fam : Family) (s : String) : Option (Nat × Option String) :=
  match fam with
  | .v4 => (parseV4 s).map (·, none)
  | .v6 => parseV6 s

/-- The address of the family a value denotes, with its zone: an integer by
its number, a byte string of the family's width by its bytes (the first the
highest), anything else by its text, which must hold no `/`. -/
def addressOf (fam : Family) (v : Value) : Option (Nat × Option String) :=
  let w := fam.width
  match v with
  | .int n => if n < 0 ∨ n ≥ Int.pow 2 w then none else some (n.toNat, none)
  | .bool b => some (if b then 1 else 0, none)
  | .bytes bs => if bs.length * 8 == w then some (bs.foldl (fun acc b => acc * 256 + b.toNat) 0, none) else none
  | _ =>
    let t := v.text
    if t.toList.contains '/' then none else parseAddress fam t

/-- The prefix length a mask value gives: an integer up to the address width,
or a mask text; a mask of another kind has no text to read. -/
def maskOfValue (fam : Family) (m : Value) : Except Fault Nat :=
  match m with
  | .int p => if 0 ≤ p ∧ p ≤ (fam.width : Int) then .ok p.toNat else .error (.badNetmask (toString p))
  | .bool b => .ok (if b then 1 else 0)
  | .str s => maskPrefix fam s
  | _ =>
    match m.unhashable? with
    | some kind => .error (.unhashable kind)
    | none => .error (.noAttribute m.typeName "isascii")

/-- The address and the optional mask of a network value: an integer or byte
string alone, a tuple of an address and an optional mask, or else the text
split at its `/`, of which there may be one.  `none` when the text has more. -/
def networkParts (v : Value) : Except Fault (Option (Value × Option Value)) :=
  match v.unfold with
  | .int _ | .bool _ | .bytes _ => .ok (some (v, none))
  | .tuple [] => .error .tupleIndexRange
  | .tuple [a] => .ok (some (a, none))
  | .tuple [a, m] => .ok (some (a, some m))
  | .tuple _ => .error .tooManyValues
  | _ =>
    match fields '/' v.text with
    | [a] => .ok (some (.str a, none))
    | [a, m] => .ok (some (.str a, some (.str m)))
    | _ => .ok none

/-- Read a value as a network of a family: `none` when it is no address of the
family, a fault for a bad mask or for bits set below the prefix. -/
def Network.ofValue (fam : Family) (v : Value) : Except Fault (Option Network) := do
  let w := fam.width
  match ← networkParts v with
  | none => pure none
  | some (a, m) =>
    match addressOf fam a with
    | none => pure none
    | some (n, z) =>
      let p ← match m with
        | none => pure w
        | some mask => maskOfValue fam mask
      let net : Network := ⟨fam, n, z, p⟩
      if n % Nat.pow 2 (w - p) != 0 then throw (.hostBits net.text) else pure (some net)

/-- Whether a value is a network of the family; see `Network.ofValue`. -/
def classify (fam : Family) (v : Value) : Except Fault Bool :=
  (Network.ofValue fam v).map Option.isSome

theorem maskOf_zero (w : Nat) : maskOf w 0 = 0 := by
  simp [maskOf]

end Address
end Firewall
