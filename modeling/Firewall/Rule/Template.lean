import Firewall.Value.Basic
import Firewall.Fault

/-!
# References in rule texts

A rule text refers to a named object as `${name}` and to a zone's interfaces
as `%{name}`.  Only one-line texts hold references (a single line break at the
very end is allowed, and is not part of the text after the reference).  The
reference found is the leftmost opening `${` (or `%{`) that some closing `}`
follows with at least one character between; the name runs to the first such
closing brace, so it may itself contain an opening brace or start with a
closing one.

Main definitions:

- `Reference.find?`: the leftmost reference with the given sigil.
- `Reference.fill`: the text with the reference replaced.
-/

namespace Firewall
namespace Rule

/-- A reference inside a rule text: what comes before it, the name, and what
comes after it. -/
structure Reference where
  before : List Char
  name : List Char
  after : List Char
deriving Repr, DecidableEq

/-- The text without one final line break. -/
def lineBody (cs : List Char) : List Char :=
  if cs.getLast? == some '\n' then cs.dropLast else cs

/-- The characters of a line: the text without one final line break, or
nothing when another line break remains. -/
def lineOf (cs : List Char) : Option (List Char) :=
  if (lineBody cs).contains '\n' then none else some (lineBody cs)

/-- Split at the first closing brace after at least one character: the name
and the rest after the brace. -/
def closeAfterFirst : List Char → Option (List Char × List Char)
  | [] => none
  | c :: rest =>
    let name := rest.takeWhile (· != '}')
    match rest.drop name.length with
    | '}' :: after => some (c :: name, after)
    | _ => none

/-- The leftmost reference opened by `sigil` and `{`, in a line. -/
def scan (sigil : Char) : List Char → List Char → Option Reference
  | _, [] => none
  | acc, c :: rest =>
    if c == sigil then
      match rest with
      | '{' :: inner =>
        match closeAfterFirst inner with
        | some (name, after) => some ⟨acc.reverse, name, after⟩
        | none => scan sigil (c :: acc) rest
      | _ => scan sigil (c :: acc) rest
    else scan sigil (c :: acc) rest

/-- The leftmost reference with the sigil in a rule text, if the text is one
line and has one. -/
def Reference.find? (sigil : Char) (s : String) : Option Reference :=
  (lineOf s.toList).bind (scan sigil [])

/-- The referenced name. -/
def Reference.key (r : Reference) : String := String.ofList r.name

/-- The rule text with the reference replaced by a value's text. -/
def Reference.fill (r : Reference) (text : String) : String :=
  String.ofList r.before ++ text ++ String.ofList r.after

/-- The reference in a value that must be a text. -/
def Reference.findIn (sigil : Char) : Value → Except Fault (Option Reference)
  | .str s => .ok (Reference.find? sigil s)
  | v => .error (.notText v.typeName)

/-- Dropping the longest prefix that satisfies `p`, by its length. -/
theorem drop_length_takeWhile {α : Type} {p : α → Bool} :
    ∀ l : List α, l.drop (l.takeWhile p).length = l.dropWhile p
  | [] => rfl
  | a :: l => by
    by_cases ha : p a
    · simp [List.takeWhile_cons_of_pos ha, List.dropWhile_cons_of_pos ha, drop_length_takeWhile l]
    · simp [List.takeWhile_cons_of_neg ha, List.dropWhile_cons_of_neg ha]

theorem scan_eq_none_of_not_mem (sigil : Char) :
    ∀ (acc cs : List Char), sigil ∉ cs → scan sigil acc cs = none
  | _, [], _ => rfl
  | acc, c :: rest, h => by
    have hc : (c == sigil) = false := by
      have : c ≠ sigil := fun e => h (e ▸ List.mem_cons_self)
      simpa using this
    simp only [scan, hc, Bool.false_eq_true, if_false]
    exact scan_eq_none_of_not_mem sigil _ rest (fun hm => h (List.mem_cons_of_mem _ hm))

theorem lineBody_subset (cs : List Char) : ∀ x ∈ lineBody cs, x ∈ cs := by
  intro x hx
  unfold lineBody at hx
  split at hx
  · exact List.dropLast_subset cs hx
  · exact hx

theorem lineBody_of_no_feed {cs : List Char} (h : '\n' ∉ cs) : lineBody cs = cs := by
  unfold lineBody
  rw [if_neg]
  intro hlast
  exact h (List.mem_of_getLast? (by simpa using hlast))

theorem lineOf_subset {cs body : List Char} (h : lineOf cs = some body) : ∀ x ∈ body, x ∈ cs := by
  unfold lineOf at h
  split at h
  · contradiction
  · cases h
    exact lineBody_subset cs

/-- A text without the sigil has no reference. -/
theorem find?_eq_none_of_not_mem (sigil : Char) (s : String) (h : sigil ∉ s.toList) :
    Reference.find? sigil s = none := by
  unfold Reference.find?
  cases hl : lineOf s.toList with
  | none => rfl
  | some body =>
    exact scan_eq_none_of_not_mem sigil [] body (fun hm => h (lineOf_subset hl _ hm))

end Rule
end Firewall
