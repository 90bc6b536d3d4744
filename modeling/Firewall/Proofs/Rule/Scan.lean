import Firewall.Proofs.Rule.Zones

/-!
# Reading references across filled values

Expansion fills the leftmost reference of a rule with a value and reads the
result again from its start.  What it reads next depends on the value: a value
can reach past its own ends and make a reference with the text around it that
neither had alone (`{b}` after a `$` reads as `${b}`).

A value is `Sealed` when it cannot: it is not empty, starts with no `{`, ends
with no sigil, and closes every reference it opens (`Closes`).  Then the names
read in the filled text are the names of the value followed by those of the
text after the reference, or none at all when a line feed in the value ends
the reading (`keysOf_fill`).  Names are read as expansion
reads them, leftmost first, each in the text after the one before (`keysOf`),
and each name read stands in its text between the sigil and braces
(`infix_of_mem_keysOf`).

The sigils of rules are `$` and `%`; the lemmas hold for any sigil that is no
opening brace.
-/

namespace Firewall
namespace Rule

section Scanning

variable {σ : Char}

/-- Every `σ{` in the characters is closed after it by a `}`, with at least one
character between. -/
def Closes (σ : Char) (cs : List Char) : Prop :=
  ∀ p b, cs = p ++ σ :: '{' :: b → '}' ∈ b.drop 1

theorem Closes.suffix {q cs : List Char} (h : Closes σ (q ++ cs)) : Closes σ cs :=
  fun p b hcs => h (q ++ p) b (by rw [hcs, List.append_assoc])

/-- A check, from left to right, that every `σ{` is closed. -/
def closesCheck (σ : Char) : List Char → Bool
  | [] => true
  | c :: rest =>
    (c != σ || match rest with
      | '{' :: b => (b.drop 1).contains '}'
      | _ => true) && closesCheck σ rest

theorem closes_of_check : ∀ {cs : List Char}, closesCheck σ cs = true → Closes σ cs
  | [], _ => fun p b h => by simp at h
  | c :: rest, h => by
    simp only [closesCheck, Bool.and_eq_true] at h
    intro p b hcs
    cases p with
    | nil =>
      -- the `σ{` opens at `c`
      obtain ⟨rfl, rfl⟩ := List.cons.inj hcs
      simpa using h.1
    | cons e p => exact closes_of_check h.2 p b (List.cons.inj hcs).2

/-- Either no `σ{` occurs, or there is a first one, with no `σ{` before it. -/
theorem inert_or_open : ∀ cs : List Char, Inert σ cs ∨ ∃ p b, cs = p ++ σ :: '{' :: b ∧ Inert σ p
  | [] => .inl trivial
  | [_] => .inl trivial
  | c :: d :: rest => by
    by_cases hopen : c = σ ∧ d = '{'
    · obtain ⟨rfl, rfl⟩ := hopen
      exact .inr ⟨[], rest, rfl, trivial⟩
    · have hcd : c = σ → d ≠ '{' := fun hc hd => hopen ⟨hc, hd⟩
      rcases inert_or_open (d :: rest) with hinert | ⟨p, b, hsplit, hp⟩
      · exact .inl ⟨hcd, hinert⟩
      · refine .inr ⟨c :: p, b, by rw [hsplit, List.cons_append], ?_⟩
        cases p with
        | nil => trivial
        | cons e p =>
          obtain ⟨rfl, -⟩ := List.cons.inj hsplit
          exact ⟨hcd, hp⟩

theorem closeAfterFirst_name {inner name after : List Char}
    (h : closeAfterFirst inner = some (name, after)) : ∃ c rest, name = c :: rest ∧ '}' ∉ rest := by
  cases inner with
  | nil => cases h
  | cons c rest =>
    unfold closeAfterFirst at h
    dsimp only at h
    split at h
    · obtain ⟨rfl, -⟩ := Prod.mk.inj (Option.some.inj h)
      refine ⟨c, _, rfl, fun hmem => ?_⟩
      simpa using List.all_eq_true.1 List.all_takeWhile _ hmem
    · cases h

/-- The name read runs from its first character to the first closing brace
after it. -/
theorem scan_name : ∀ {acc cs : List Char} {r : Reference}, scan σ acc cs = some r →
    ∃ c rest, r.name = c :: rest ∧ '}' ∉ rest
  | _, [], _, h => by cases h
  | acc, c :: rest, r, h => by
    unfold scan at h
    split at h
    · split at h
      · split at h
        · rename_i hclose
          obtain rfl := Option.some.inj h
          exact closeAfterFirst_name hclose
        · exact scan_name h
      · exact scan_name h
    · exact scan_name h

/-- Reading passes over text with no `σ{` in it, when what follows does not
make one with its last character. -/
theorem scan_append_inert {w cs : List Char} (hw : Inert σ w)
    (hjoin : w.getLast? = some σ → cs.head? ≠ some '{') (acc : List Char) :
    scan σ acc (w ++ cs) = scan σ (w.reverse ++ acc) cs := by
  induction w generalizing acc with
  | nil => rfl
  | cons c w ih =>
    have ih := ih (inert_cons hw) (fun hlast => hjoin (by cases w <;> simp_all)) (c :: acc)
    rw [List.reverse_cons, List.append_assoc, List.singleton_append, ← ih, List.cons_append]
    -- after a `σ` the next character, in `w` or after it, is no `{`
    have hnext : c = σ → (w ++ cs).head? ≠ some '{' := by
      intro hc
      cases w with
      | nil => simpa [hc] using hjoin
      | cons d rest => simpa using hw.1 hc
    conv => lhs; unfold scan
    split
    · rename_i hc
      split
      · rename_i inner heq
        exact absurd (by rw [heq]; rfl) (hnext (by simpa using hc))
      · rfl
    · rfl

variable (hσ : σ ≠ '{')
include hσ

/-- Reading stops at a reference behind text that opens none of its own, and
reads the name to the first closing brace. -/
theorem scan_split {pre name after : List Char} {c : Char} (hpre : Inert σ pre)
    (hname : '}' ∉ name) (acc : List Char) :
    scan σ acc (pre ++ σ :: '{' :: c :: (name ++ '}' :: after)) =
      some ⟨acc.reverse ++ pre, c :: name, after⟩ := by
  have hjoin : pre.getLast? = some σ →
      (σ :: '{' :: c :: (name ++ '}' :: after)).head? ≠ some '{' :=
    fun _ => by simpa using hσ
  rw [scan_append_inert hpre hjoin]
  have htake : (name ++ '}' :: after).takeWhile (· != '}') = name := by
    rw [List.takeWhile_append_of_pos (fun x hx => by simpa using ne_of_mem_of_not_mem hx hname)]
    simp
  unfold scan
  simp [closeAfterFirst, htake]

/-- A reference read in a text is read in any continuation of it, which then
follows it. -/
theorem scan_append_of_some {acc cs : List Char} {r : Reference} (h : scan σ acc cs = some r)
    (ds : List Char) : scan σ acc (cs ++ ds) = some { r with after := r.after ++ ds } := by
  obtain ⟨pre, hcs, hbefore, hpre⟩ := scan_some h
  obtain ⟨c, name, hname, hclose⟩ := scan_name h
  have hcs' : cs ++ ds = pre ++ σ :: '{' :: c :: (name ++ '}' :: (r.after ++ ds)) := by
    rw [hcs, hname]
    simp
  rw [hcs', scan_split hσ hpre hclose acc, ← hbefore, ← hname]

/-- Text that closes every reference it opens, and in which none is read,
holds no `σ{` at all. -/
theorem inert_of_closes {cs : List Char} (hc : Closes σ cs) (hnone : scan σ [] cs = none) :
    Inert σ cs := by
  rcases inert_or_open cs with hinert | ⟨p, b, hsplit, hp⟩
  · exact hinert
  · exfalso
    have hclosed := hc p b hsplit
    cases b with
    | nil => cases hclosed
    | cons c rest =>
      -- the first brace of `rest` closes the reference
      obtain ⟨after, hafter⟩ := dropWhile_close (by simpa using hclosed)
      have hrest : rest = rest.takeWhile (· != '}') ++ '}' :: after := by
        rw [← hafter, List.takeWhile_append_dropWhile]
      have hname : '}' ∉ rest.takeWhile (· != '}') := fun hmem => by
        simpa using List.all_eq_true.1 List.all_takeWhile _ hmem
      rw [hsplit, hrest, scan_split hσ hp hname] at hnone
      cases hnone

end Scanning

section Finding

variable {σ : Char}

/-- A reference is read only in a line, so the text around it holds no line feed. -/
theorem find?_no_feed {s : String} {r : Reference} (h : Reference.find? σ s = some r) :
    '\n' ∉ r.before ∧ '\n' ∉ r.after := by
  have hbody : '\n' ∉ lineBody s.toList := by
    unfold Reference.find? lineOf at h
    split at h
    · cases h
    · rename_i hfeed
      simpa using hfeed
  rw [(find?_split h).1] at hbody
  simp only [List.mem_append, List.mem_cons, not_or] at hbody
  exact ⟨hbody.1.1, hbody.2.2⟩

/-- In front of a line, text with no `σ{` that makes none with what follows
leaves the reference read as it is, with the text before it extended. -/
theorem find?_append_inert {w a : String} (hw : Inert σ w.toList)
    (hjoin : w.toList.getLast? = some σ → a.toList.head? ≠ some '{')
    (hline : '\n' ∉ (w ++ a).toList) :
    Reference.find? σ (w ++ a) =
      (Reference.find? σ a).map fun r => { r with before := w.toList ++ r.before } := by
  have ha : '\n' ∉ a.toList := fun h => hline (by simp [String.toList_append, h])
  unfold Reference.find?
  rw [lineOf_of_no_feed hline, lineOf_of_no_feed ha, Option.bind_some, Option.bind_some,
    String.toList_append, scan_append_inert hw hjoin, List.append_nil, scan_shift]
  simp

variable (hσ : σ ≠ '{')
include hσ

/-- A reference read in a text is read in the text continued on the same line. -/
theorem find?_append_of_some {x y : String} {r : Reference} (h : Reference.find? σ x = some r)
    (hline : '\n' ∉ (x ++ y).toList) :
    Reference.find? σ (x ++ y) = some { r with after := r.after ++ y.toList } := by
  have hx : '\n' ∉ x.toList := fun h => hline (by simp [String.toList_append, h])
  unfold Reference.find? at h ⊢
  rw [lineOf_of_no_feed hx, Option.bind_some] at h
  rw [lineOf_of_no_feed hline, Option.bind_some, String.toList_append,
    scan_append_of_some hσ h]

end Finding

section Keys

variable (σ : Char)

/-- The names a text refers to by `σ`, leftmost first, as expansion reads them. -/
def keysOf (s : String) : List String := (refsOf σ s).map Reference.key

variable {σ}

theorem keysOf_of_none {s : String} (h : Reference.find? σ s = none) : keysOf σ s = [] := by
  rw [keysOf, refsOf_of_none h, List.map_nil]

theorem keysOf_of_some {s : String} {r : Reference} (h : Reference.find? σ s = some r) :
    keysOf σ s = r.key :: keysOf σ (String.ofList r.after) := by
  rw [keysOf, refsOf_of_some h, List.map_cons, keysOf]

/-- Every name read stands in the text between its sigil and braces. -/
theorem infix_of_mem_keysOf {m s : String} (hm : m ∈ keysOf σ s) :
    (σ :: '{' :: m.toList ++ ['}']) <:+: s.toList := by
  cases hr : Reference.find? σ s with
  | none => simp [keysOf_of_none hr] at hm
  | some r =>
    -- the line holds the reference, and the text after it holds the later ones
    have hline : lineBody s.toList <+: s.toList := by
      unfold lineBody
      split
      · exact List.dropLast_prefix _
      · exact List.prefix_refl _
    have hbody := (find?_split hr).1
    rw [keysOf_of_some hr, List.mem_cons] at hm
    rcases hm with rfl | hm
    · refine List.IsInfix.trans ?_ hline.isInfix
      rw [hbody]
      exact ⟨r.before, r.after, by simp [Reference.key]⟩
    · have hafter : r.after <:+: s.toList := by
        refine List.IsInfix.trans ?_ hline.isInfix
        rw [hbody]
        exact ⟨r.before ++ σ :: '{' :: r.name ++ ['}'], [], by simp⟩
      have hlater := infix_of_mem_keysOf hm
      rw [String.toList_ofList] at hlater
      exact hlater.trans hafter
termination_by s.length
decreasing_by exact after_length_lt hr

/-- Texts whose first references differ only in what stands before them read
the same names. -/
theorem keysOf_of_shift {x y : String} {p : List Char}
    (h : Reference.find? σ x = (Reference.find? σ y).map fun r => { r with before := p ++ r.before }) :
    keysOf σ x = keysOf σ y := by
  cases hr : Reference.find? σ y with
  | none => rw [keysOf_of_none (by rw [h, hr]; rfl), keysOf_of_none hr]
  | some r =>
    rw [keysOf_of_some (by rw [h, hr]; rfl), keysOf_of_some hr]
    rfl

/-- In front of a line, text with no `σ{` that makes none with what follows adds
no name. -/
theorem keysOf_append_inert {w a : String} (hw : Inert σ w.toList)
    (hjoin : w.toList.getLast? = some σ → a.toList.head? ≠ some '{')
    (hline : '\n' ∉ (w ++ a).toList) : keysOf σ (w ++ a) = keysOf σ a :=
  keysOf_of_shift (find?_append_inert hw hjoin hline)

theorem lineBody_append_plain {w cs : List Char} (hw : '\n' ∉ w) :
    lineBody (w ++ cs) = w ++ lineBody cs := by
  unfold lineBody
  by_cases hcs : cs = []
  · subst hcs
    have hlast : w.getLast? ≠ some '\n' := fun h => hw (List.mem_of_getLast? h)
    simp [hlast]
  · rw [List.getLast?_append, List.getLast?_eq_some_getLast hcs, Option.some_or,
      List.dropLast_append_of_ne_nil hcs]
    split <;> rfl

theorem lineOf_append_plain {w cs : List Char} (hw : '\n' ∉ w) :
    lineOf (w ++ cs) = (lineOf cs).map (w ++ ·) := by
  unfold lineOf
  rw [lineBody_append_plain hw]
  by_cases h : '\n' ∈ lineBody cs
  · simp [h]
  · simp [h, hw]

/-- Text without the sigil or a line feed in front of any text adds no name. -/
theorem keysOf_append_plain {w a : String} (hw : σ ∉ w.toList) (hfeed : '\n' ∉ w.toList) :
    keysOf σ (w ++ a) = keysOf σ a := by
  refine keysOf_of_shift (p := w.toList) ?_
  unfold Reference.find?
  rw [String.toList_append, lineOf_append_plain hfeed]
  cases lineOf a.toList with
  | none => rfl
  | some body =>
    rw [Option.map_some, Option.bind_some, Option.bind_some, scan_append_noOpen (noOpen_of_not_mem hw),
      List.append_nil, scan_shift]
    simp

variable (hσ : σ ≠ '{')
include hσ

/-- Text that closes every reference it opens and ends with no sigil is read
apart from what follows it. -/
theorem keysOf_append_closed {x y : String} (hc : Closes σ x.toList)
    (hlast : x.toList.getLast? ≠ some σ) (hline : '\n' ∉ (x ++ y).toList) :
    keysOf σ (x ++ y) = keysOf σ x ++ keysOf σ y := by
  have hx : '\n' ∉ x.toList := fun h => hline (by simp [String.toList_append, h])
  cases hr : Reference.find? σ x with
  | none =>
    -- nothing is read in `x`, so it holds no `σ{` at all
    have hnone : scan σ [] x.toList = none := by
      unfold Reference.find? at hr
      rwa [lineOf_of_no_feed hx, Option.bind_some] at hr
    have hinert := inert_of_closes hσ hc hnone
    rw [keysOf_append_inert hinert (fun h => absurd h hlast) hline, keysOf_of_none hr,
      List.nil_append]
  | some r =>
    -- the first name is read in `x`; the rest of `x` is read apart from `y` again
    have hsplit := find?_split_line hx hr
    have hsuffix : x.toList = (r.before ++ σ :: '{' :: r.name ++ ['}']) ++ r.after := by
      simp [hsplit]
    have hafter : '\n' ∉ (String.ofList r.after ++ y).toList := fun h => hline (by
      simp only [String.toList_append, String.toList_ofList, List.mem_append] at h ⊢
      rcases h with h | h
      · exact .inl (by rw [hsplit]; simp [h])
      · exact .inr h)
    have hlast' : (String.ofList r.after).toList.getLast? ≠ some σ := by
      rw [String.toList_ofList]
      cases hnil : r.after.getLast? with
      | none => simp
      | some e =>
        intro he
        apply hlast
        rw [hsuffix, List.getLast?_append, hnil]
        simpa using he
    have hrest := keysOf_append_closed
      (by rw [String.toList_ofList]; exact (hsuffix ▸ hc).suffix) hlast' hafter
    rw [keysOf_of_some (find?_append_of_some hσ hr hline), keysOf_of_some hr,
      List.cons_append, ← hrest]
    simp [Reference.key, String.ofList_append]
termination_by x.length
decreasing_by exact after_length_lt hr

end Keys

section Sealed

/-- A value that fills a reference without reaching past its ends: not empty,
starting with no `{`, ending with no `σ`, and closing every reference it
opens. -/
structure Sealed (σ : Char) (v : String) : Prop where
  nonempty : v.toList ≠ []
  head : v.toList.head? ≠ some '{'
  last : v.toList.getLast? ≠ some σ
  closes : Closes σ v.toList

variable {σ : Char}

/-- A check of what `Sealed` asks of a value. -/
def sealedCheck (σ : Char) (v : String) : Bool :=
  !v.toList.isEmpty && v.toList.head? != some '{' && v.toList.getLast? != some σ &&
    closesCheck σ v.toList

theorem sealed_of_check {v : String} (h : sealedCheck σ v = true) : Sealed σ v := by
  simp only [sealedCheck, Bool.and_eq_true, Bool.not_eq_true', bne_iff_ne, ne_eq] at h
  obtain ⟨⟨⟨hempty, hhead⟩, hlast⟩, hcloses⟩ := h
  exact ⟨by simpa using hempty, hhead, hlast, closes_of_check hcloses⟩

theorem Sealed.head_ne {v : String} (hv : Sealed σ v) (rest : List Char) :
    (v.toList ++ rest).head? ≠ some '{' := by
  obtain ⟨c, cs, hcs⟩ := List.exists_cons_of_ne_nil hv.nonempty
  have hc := hv.head
  rw [hcs] at hc ⊢
  simpa using hc

/-- A value with a line feed fills in as part of a line only at the end of the
line, with the feed last: nothing follows the reference, and the line is the
text before it and the value without its feed. -/
theorem fill_of_feed {s v : String} {r : Reference} (hr : Reference.find? σ s = some r)
    (hv : '\n' ∈ v.toList) {body : List Char} (hbody : lineOf (r.fill v).toList = some body) :
    r.after = [] ∧ lineOf v.toList = some v.toList.dropLast ∧
      body = r.before ++ v.toList.dropLast := by
  obtain ⟨hbefore, hafter⟩ := find?_no_feed hr
  have hcs : (r.fill v).toList = r.before ++ v.toList ++ r.after := by
    simp [Reference.fill, String.toList_append]
  unfold lineOf at hbody
  split at hbody
  · cases hbody
  · rename_i hnot
    obtain rfl := Option.some.inj hbody
    have hnot : '\n' ∉ lineBody (r.fill v).toList := by simpa using hnot
    -- the feed of the value is dropped, so it ends the text
    have hlast : (r.fill v).toList.getLast? = some '\n' := by
      by_cases hne : (r.fill v).toList.getLast? = some '\n'
      · exact hne
      · exfalso
        apply hnot
        unfold lineBody
        rw [if_neg (by simpa using hne), hcs]
        simp [hv]
    have hnil : r.after = [] := by
      rcases r.after.eq_nil_or_concat with h | ⟨a, c, h⟩
      · exact h
      · rw [hcs, h, List.concat_eq_append, ← List.append_assoc, List.getLast?_concat] at hlast
        have hc : c = '\n' := Option.some.inj hlast
        exact absurd (by rw [h, List.concat_eq_append, ← hc]; exact List.mem_concat_self) hafter
    rw [hcs, hnil, List.append_nil] at hlast hnot
    have hvlast : v.toList.getLast? = some '\n' := by
      rw [List.getLast?_append] at hlast
      cases hvl : v.toList.getLast? with
      | none => simp at hvl; simp [hvl] at hv
      | some c => rw [hvl] at hlast; simpa using hlast
    have hdrop : lineBody (r.before ++ v.toList) = r.before ++ v.toList.dropLast := by
      unfold lineBody
      rw [if_pos (by simpa using hlast), List.dropLast_append_of_ne_nil (List.ne_nil_of_mem hv)]
    rw [hdrop] at hnot
    have hvbody : '\n' ∉ v.toList.dropLast := fun h => hnot (List.mem_append_right _ h)
    have hvdrop : lineBody v.toList = v.toList.dropLast := by
      unfold lineBody
      rw [if_pos (by simpa using hvlast)]
    refine ⟨hnil, ?_, by rw [hcs, hnil, List.append_nil, hdrop]⟩
    unfold lineOf
    rw [hvdrop, if_neg (by simpa using hvbody)]

variable (hσ : σ ≠ '{')
include hσ

/-- Filling the reference read with a sealed value puts the value's names in
its place, before the names after it, unless a line feed it brings stops the
reading altogether. -/
theorem keysOf_fill {s v : String} {r : Reference} (hr : Reference.find? σ s = some r)
    (hv : Sealed σ v) :
    keysOf σ (r.fill v) = keysOf σ v ++ keysOf σ (String.ofList r.after) ∨
      keysOf σ (r.fill v) = [] := by
  obtain ⟨hbefore, hafter⟩ := find?_no_feed hr
  have hinert : Inert σ r.before := (find?_split hr).2
  by_cases hfeed : '\n' ∈ v.toList
  · cases hl : lineOf (r.fill v).toList with
    | none => exact .inr (keysOf_of_none (by unfold Reference.find?; rw [hl]; rfl))
    | some body =>
      -- the value ends the line: the names are those of the value
      obtain ⟨hnil, hv', rfl⟩ := fill_of_feed hr hfeed hl
      refine .inl ?_
      have hjoin : r.before.getLast? = some σ → v.toList.dropLast.head? ≠ some '{' := fun _ => by
        rw [List.head?_dropLast]
        split
        · exact hv.head
        · simp
      rw [hnil, String.ofList_nil, keysOf_of_none (s := "") (by simp [Reference.find?, lineOf, lineBody, scan]),
        List.append_nil]
      refine keysOf_of_shift (p := r.before) ?_
      unfold Reference.find?
      rw [hl, hv', Option.bind_some, Option.bind_some, scan_append_inert hinert hjoin,
        List.append_nil, scan_shift]
      simp
  · refine .inl ?_
    have hline : '\n' ∉ (String.ofList r.before ++ (v ++ String.ofList r.after)).toList := by
      simp [String.toList_append, hbefore, hfeed, hafter]
    have hjoin : (String.ofList r.before).toList.getLast? = some σ →
        (v ++ String.ofList r.after).toList.head? ≠ some '{' := fun _ => by
      simpa [String.toList_append] using hv.head_ne (String.ofList r.after).toList
    rw [Reference.fill, String.append_assoc,
      keysOf_append_inert (by rwa [String.toList_ofList]) hjoin hline]
    exact keysOf_append_closed hσ hv.closes hv.last (fun h => hline (by
      simp only [String.toList_append, List.mem_append] at h ⊢
      exact .inr h))

/-- Whatever the weights of the names, those left after filling a reference
with a sealed value weigh no more than the value's names and the names after
the reference. -/
theorem sum_keysOf_fill_le (d : String → Nat) {s v : String} {r : Reference}
    (hr : Reference.find? σ s = some r) (hv : Sealed σ v) :
    ((keysOf σ (r.fill v)).map d).sum ≤
      ((keysOf σ v).map d).sum + ((keysOf σ (String.ofList r.after)).map d).sum := by
  rcases keysOf_fill hσ hr hv with h | h
  · exact Nat.le_of_eq (by rw [h, List.map_append, List.sum_append])
  · rw [h]
    exact Nat.zero_le _

end Sealed

end Rule
end Firewall
