import Firewall.Rule.Expand

/-!
# Expanding object references

The expansion of a rule text replaces its leftmost reference `${name}` by each
value of the object in turn and expands the result again; an address value
restricts the rule to its family, and the decision is made on the text as it
stands after each substitution.  Read statically, the same expansion is a
product: the references of the rule text are found once, left to right
(`readRefs`); each choice of one value per reference, the leftmost varying
slowest (`choicesOver`), fills them (`fillOver`); and a choice is dropped when
its addresses clash with each other or with the family options of the rule,
and otherwise prefixed with the family of its addresses when the rule does not
carry that option already (`outcome`).

Main statement: `expandObjects_eq_expansion`.  The two readings agree on rule
texts that are `Expandable`: one line, values that start with a character
other than `{` for a reference right after a `$`, fewer references than the
nesting limit, values that are texts without `$` or line
feeds whose address reading raises nothing, and substitutions that never add
or remove a family option (`SteadyFrom`).  A value can carry such an option
itself: the scoped IPv6 address `fe80::1% -4 x` makes the rule it fills look
restricted to IPv4, and the rule is dropped (`scopedAddress_drops_rule`).

The proof follows the recursion, with `Filling` as its invariant between the
text filled so far and the rest.  A text that opens no reference (`NoOpen`)
can stand in front of the rest without changing which reference is found next
(`find?_append`); the text already filled is such a text, so after each
substitution the next reference is the next one of the rule (`Filling.next`).
-/

namespace Firewall
namespace Rule

section Reading

variable (σ : Char)

/-- No `σ` in the characters is followed by `{`. -/
def Inert : List Char → Prop
  | c :: d :: rest => (c = σ → d ≠ '{') ∧ Inert (d :: rest)
  | _ => True

/-- The characters open no reference, whatever follows them: no `σ{` inside,
and no `σ` at the end. -/
def NoOpen (cs : List Char) : Prop := Inert σ cs ∧ cs.getLast? ≠ some σ

variable {σ}

theorem inert_cons {c : Char} {cs : List Char} (h : Inert σ (c :: cs)) : Inert σ cs := by
  cases cs with
  | nil => trivial
  | cons d rest => exact h.2

theorem noOpen_nil : NoOpen σ [] := ⟨trivial, by simp⟩

theorem noOpen_cons {c : Char} {cs : List Char} (h : NoOpen σ (c :: cs)) : NoOpen σ cs := by
  refine ⟨inert_cons h.1, ?_⟩
  cases cs with
  | nil => simp
  | cons d rest => simpa using h.2

/-- Characters with no `σ{` inside keep none when more are put behind them,
as long as a `σ` at the end is not followed by a `{`. -/
theorem inert_append {u v : List Char} (hu : Inert σ u) (hv : Inert σ v)
    (hjoin : u.getLast? = some σ → v.head? ≠ some '{') : Inert σ (u ++ v) := by
  induction u with
  | nil => simpa using hv
  | cons c u ih =>
    cases u with
    | nil =>
      cases v with
      | nil => trivial
      | cons d rest => exact ⟨fun hc hd => hjoin (by simp [hc]) (by simp [hd]), hv⟩
    | cons d rest =>
      exact ⟨hu.1, ih hu.2 fun h => hjoin (by rwa [List.getLast?_cons_cons])⟩

/-- Characters with no `σ{` inside open no reference in front of characters
that open none, unless they end in a `σ` that is left last or followed by a
`{`. -/
theorem noOpen_append_inert {u v : List Char} (hu : Inert σ u) (hv : NoOpen σ v)
    (hjoin : u.getLast? = some σ → v.head? ≠ none ∧ v.head? ≠ some '{') : NoOpen σ (u ++ v) := by
  refine ⟨inert_append hu hv.1 fun h => (hjoin h).2, ?_⟩
  rcases v.eq_nil_or_concat with rfl | ⟨w, x, rfl⟩
  · -- with nothing behind it, `u` cannot end in `σ`
    rw [List.append_nil]
    exact fun h => (hjoin h).1 rfl
  · have hx : x ≠ σ := by simpa using hv.2
    rw [List.concat_eq_append, ← List.append_assoc, List.getLast?_concat]
    simpa using hx

theorem noOpen_append {u v : List Char} (hu : NoOpen σ u) (hv : NoOpen σ v) :
    NoOpen σ (u ++ v) :=
  noOpen_append_inert hu.1 hv fun h => absurd h hu.2

theorem noOpen_of_not_mem {cs : List Char} (h : σ ∉ cs) : NoOpen σ cs := by
  induction cs with
  | nil => exact noOpen_nil
  | cons c cs ih =>
    have hc : c ≠ σ := fun e => h (e ▸ List.mem_cons_self)
    have ih := ih (fun hm => h (List.mem_cons_of_mem _ hm))
    refine ⟨?_, ?_⟩
    · cases cs with
      | nil => trivial
      | cons d rest => exact ⟨fun e => absurd e hc, ih.1⟩
    · cases cs with
      | nil => simpa using hc
      | cons d rest => simpa using ih.2

/-- Reading from a later start only adds the skipped characters to the text
before the reference. -/
theorem scan_shift : ∀ (acc cs : List Char),
    scan σ acc cs = (scan σ [] cs).map fun r => { r with before := acc.reverse ++ r.before }
  | _, [] => rfl
  | acc, c :: rest => by
    -- every branch that reads on compares the two accumulators after `c`
    have hstep : scan σ (c :: acc) rest =
        (scan σ [c] rest).map fun r => { r with before := acc.reverse ++ r.before } := by
      rw [scan_shift (c :: acc) rest, scan_shift [c] rest, Option.map_map]
      congr 1
      funext r
      simp
    unfold scan
    split
    · split
      · split
        · simp
        · exact hstep
      · exact hstep
    · exact hstep

/-- Characters that open no reference are read through. -/
theorem scan_append_noOpen {u : List Char} (hu : NoOpen σ u) (acc w : List Char) :
    scan σ acc (u ++ w) = scan σ (u.reverse ++ acc) w := by
  induction u generalizing acc with
  | nil => rfl
  | cons c u ih =>
    have ih := ih (noOpen_cons hu) (c :: acc)
    rw [List.reverse_cons, List.append_assoc, List.singleton_append, ← ih, List.cons_append]
    by_cases hc : c = σ
    · -- the character after `c` is the first of `u`, and it is no `{`
      cases u with
      | nil => exact absurd (by simpa using hc) (by simpa using hu.2)
      | cons d rest =>
        have hd : d ≠ '{' := hu.1.1 hc
        rw [List.cons_append]
        conv => lhs; unfold scan
        rw [if_pos (by simpa using hc)]
        split
        · rename_i heq
          exact absurd (List.cons.inj heq).1 hd
        · rfl
    · conv => lhs; unfold scan
      rw [if_neg (by simpa using hc)]

theorem closeAfterFirst_some {inner name after : List Char}
    (h : closeAfterFirst inner = some (name, after)) :
    inner = name ++ '}' :: after := by
  cases inner with
  | nil => cases h
  | cons c rest =>
    unfold closeAfterFirst at h
    dsimp only at h
    split at h
    · rename_i after' hdrop
      obtain ⟨rfl, rfl⟩ := Prod.mk.inj (Option.some.inj h)
      have hsplit := List.takeWhile_append_dropWhile (p := (· != '}')) (l := rest)
      rw [← drop_length_takeWhile, hdrop] at hsplit
      simp [hsplit]
    · cases h

/-- The first closing brace is where the characters up to one stop. -/
theorem dropWhile_close {rest : List Char} (hmem : '}' ∈ rest) :
    ∃ after, rest.dropWhile (· != '}') = '}' :: after := by
  induction rest with
  | nil => cases hmem
  | cons d rest ih =>
    by_cases hd : d = '}'
    · exact ⟨rest, by simp [hd]⟩
    · rw [List.dropWhile_cons_of_pos (by simpa using hd)]
      exact ih (by simpa [Ne.symm hd] using hmem)

theorem closeAfterFirst_none {c : Char} {rest : List Char}
    (h : closeAfterFirst (c :: rest) = none) : '}' ∉ rest := by
  intro hmem
  obtain ⟨after, hafter⟩ := dropWhile_close hmem
  unfold closeAfterFirst at h
  dsimp only at h
  rw [drop_length_takeWhile, hafter] at h
  cases h

/-- Reading finds a reference after text in which no `σ{` opens. -/
theorem scan_some : ∀ {acc cs : List Char} {r : Reference}, scan σ acc cs = some r →
    ∃ pre, cs = pre ++ σ :: '{' :: r.name ++ '}' :: r.after ∧ r.before = acc.reverse ++ pre ∧
      Inert σ pre
  | _, [], _, h => by cases h
  | acc, c :: rest, r, h => by
    unfold scan at h
    split at h
    · rename_i hc
      have hc : c = σ := by simpa using hc
      split at h
      · rename_i inner
        split at h
        · rename_i name after hclose
          obtain rfl := Option.some.inj h
          refine ⟨[], ?_, by simp, trivial⟩
          simp [hc, closeAfterFirst_some hclose]
        · rename_i hclose
          -- a later reference would close this one: its brace lies ahead
          obtain ⟨pre, hpre, -, -⟩ := scan_some h
          exfalso
          cases inner with
          | nil =>
            have hlength := congrArg List.length hpre
            simp at hlength
            omega
          | cons x rest' =>
            apply closeAfterFirst_none hclose
            rcases pre with _ | ⟨y, _ | ⟨z, pre⟩⟩
            · simp only [List.nil_append, List.cons_append, List.cons.injEq] at hpre
              rw [hpre.2.2]
              simp
            · simp only [List.cons_append, List.nil_append, List.cons.injEq] at hpre
              rw [hpre.2.2]
              simp
            · simp only [List.cons_append, List.cons.injEq] at hpre
              rw [hpre.2.2]
              simp
      · rename_i hnot
        obtain ⟨pre, hpre, hbefore, hinert⟩ := scan_some h
        refine ⟨c :: pre, by simp [hpre], by simp [hbefore], ?_⟩
        cases pre with
        | nil => trivial
        | cons d pre =>
          refine ⟨fun _ hd => ?_, hinert⟩
          exact hnot (pre ++ σ :: '{' :: r.name ++ '}' :: r.after) (by simp [hpre, hd])
    · rename_i hc
      obtain ⟨pre, hpre, hbefore, hinert⟩ := scan_some h
      refine ⟨c :: pre, by simp [hpre], by simp [hbefore], ?_⟩
      cases pre with
      | nil => trivial
      | cons d pre => exact ⟨fun e => absurd e (by simpa using hc), hinert⟩

theorem lineOf_of_no_feed {cs : List Char} (h : '\n' ∉ cs) : lineOf cs = some cs := by
  unfold lineOf
  rw [lineBody_of_no_feed h, if_neg (by simpa using h)]

/-- In front of a line, text that opens no reference leaves the reference
found as it is, with the text before it extended. -/
theorem find?_append {w a : String} (hw : NoOpen σ w.toList) (hline : '\n' ∉ (w ++ a).toList) :
    Reference.find? σ (w ++ a) =
      (Reference.find? σ a).map fun r => { r with before := w.toList ++ r.before } := by
  have ha : '\n' ∉ a.toList := fun h => hline (by simp [String.toList_append, h])
  unfold Reference.find?
  rw [lineOf_of_no_feed hline, lineOf_of_no_feed ha, Option.bind_some, Option.bind_some,
    String.toList_append, scan_append_noOpen hw, List.append_nil, scan_shift]
  simp

/-- The reference found splits the line around it. -/
theorem find?_split {s : String} {r : Reference} (h : Reference.find? σ s = some r) :
    lineBody s.toList = r.before ++ σ :: '{' :: r.name ++ '}' :: r.after ∧ Inert σ r.before := by
  unfold Reference.find? at h
  cases hline : lineOf s.toList with
  | none => rw [hline] at h; cases h
  | some body =>
    rw [hline, Option.bind_some] at h
    obtain ⟨pre, hpre, hbefore, hinert⟩ := scan_some h
    have hbody : lineBody s.toList = body := by
      unfold lineOf at hline
      split at hline
      · cases hline
      · exact Option.some.inj hline
    simp only [List.reverse_nil, List.nil_append] at hbefore
    subst hbefore
    exact ⟨hbody.trans hpre, hinert⟩

/-- On one line, the reference found splits the whole text around it. -/
theorem find?_split_line {s : String} {r : Reference} (hline : '\n' ∉ s.toList)
    (h : Reference.find? σ s = some r) :
    s.toList = r.before ++ σ :: '{' :: r.name ++ '}' :: r.after := by
  rw [← lineBody_of_no_feed hline]
  exact (find?_split h).1

/-- Filling the reference found with a value keeps a text that opens no
reference from opening one, when the value holds no `σ` and, after a `σ` that
ends the text before the reference, starts with a character other than `{`. -/
theorem noOpen_fill {u a v : String} {r : Reference} (hu : NoOpen σ u.toList)
    (hr : Reference.find? σ a = some r) (hv : σ ∉ v.toList)
    (hjoin : r.before.getLast? = some σ → v.toList.head? ≠ none ∧ v.toList.head? ≠ some '{') :
    NoOpen σ (u ++ String.ofList r.before ++ v).toList := by
  rw [String.toList_append, String.toList_append, String.toList_ofList, List.append_assoc]
  exact noOpen_append hu (noOpen_append_inert (find?_split hr).2 (noOpen_of_not_mem hv) hjoin)

theorem length_lineBody_le (cs : List Char) : (lineBody cs).length ≤ cs.length := by
  unfold lineBody
  split
  · simp
  · exact Nat.le_refl _

/-- The text after a reference is shorter than the line. -/
theorem after_length_lt {s : String} {r : Reference} (h : Reference.find? σ s = some r) :
    (String.ofList r.after).length < s.length := by
  have hsplit := congrArg List.length (find?_split h).1
  have hle := length_lineBody_le s.toList
  simp only [List.length_append, List.length_cons] at hsplit
  rw [String.length_toList] at hle
  rw [String.length_ofList]
  omega

end Reading

section Template

/-- The references of a rule text, leftmost first, each read in the text after
the one before, at most `fuel` of them. -/
def readRefsWith : Nat → String → List Reference
  | 0, _ => []
  | fuel + 1, s =>
    match Reference.find? '$' s with
    | none => []
    | some r => r :: readRefsWith fuel (String.ofList r.after)

/-- The references of a rule text; each is shorter than the last, so the
length of the text bounds how many there are. -/
def readRefs (s : String) : List Reference := readRefsWith (s.length + 1) s

theorem readRefsWith_eq : ∀ {n m : Nat} {s : String}, s.length < n → s.length < m →
    readRefsWith n s = readRefsWith m s
  | 0, _, _, hn, _ => absurd hn (Nat.not_lt_zero _)
  | _, 0, _, _, hm => absurd hm (Nat.not_lt_zero _)
  | n + 1, m + 1, s, hn, hm => by
    unfold readRefsWith
    cases hr : Reference.find? '$' s with
    | none => rfl
    | some r =>
      have hlt := after_length_lt hr
      dsimp only
      rw [readRefsWith_eq (m := m) (by omega) (by omega)]

theorem readRefs_of_none {s : String} (h : Reference.find? '$' s = none) : readRefs s = [] := by
  rw [readRefs, readRefsWith, h]

theorem readRefs_of_some {s : String} {r : Reference} (h : Reference.find? '$' s = some r) :
    readRefs s = r :: readRefs (String.ofList r.after) := by
  have hlt := after_length_lt h
  rw [readRefs, readRefsWith, h, readRefs, readRefsWith_eq (by omega) (by omega)]

variable (objects : String → List String)

/-- The choices of one value for each reference, the leftmost varying slowest. -/
def choicesOver : List Reference → List (List String)
  | [] => [[]]
  | r :: rs => (objects r.key).flatMap fun v => (choicesOver rs).map (v :: ·)

/-- The rule text `rest`, whose references are `refs`, with as many of them
filled, leftmost first, as there are values. -/
def fillOver : List Reference → List String → String → String
  | r :: rs, v :: vs, _ => String.ofList r.before ++ v ++ fillOver rs vs (String.ofList r.after)
  | _, _, rest => rest

@[simp] theorem fillOver_nil (refs : List Reference) (rest : String) :
    fillOver refs [] rest = rest := by
  cases refs <;> rfl

end Template

section Families

/-- The value is an IPv4 network. -/
def isV4 (v : String) : Bool := (Address.classify .v4 (.str v)).toOption == some true

/-- The value is an IPv6 network and no IPv4 one. -/
def isV6 (v : String) : Bool :=
  !isV4 v && (Address.classify .v6 (.str v)).toOption == some true

/-- The family options a rule carries. -/
def marks (rule : String) : Bool × Bool := (markedV4 rule, markedV6 rule)

/-- Values of the families `a4` and `a6` clash with each other or with a rule
that carries the options `m4` and `m6`. -/
def clashes (m4 m6 a4 a6 : Bool) : Bool := a4 && a6 || a4 && m6 || a6 && m4

/-- The option a rule is prefixed with for the family of its values, when it
does not carry that option already. -/
def familyPrefix (m4 m6 a4 a6 : Bool) : String :=
  if a4 && !m4 then "-4 " else if a6 && !m6 then "-6 " else ""

/-- A filled rule is dropped on a clash, and otherwise prefixed with the family
of its values. -/
def outcome (m4 m6 a4 a6 : Bool) (body : String) : Option String :=
  if clashes m4 m6 a4 a6 then none else some (familyPrefix m4 m6 a4 a6 ++ body)

/-- A family prefix opens no reference and ends no line. -/
theorem familyPrefix_plain (m4 m6 a4 a6 : Bool) :
    '$' ∉ (familyPrefix m4 m6 a4 a6).toList ∧ '\n' ∉ (familyPrefix m4 m6 a4 a6).toList := by
  unfold familyPrefix
  split
  · simp
  · split <;> simp

theorem clashes_or {m4 m6 a4 a6 : Bool} (h : clashes m4 m6 a4 a6 = true) (b4 b6 : Bool) :
    clashes m4 m6 (a4 || b4) (a6 || b6) = true := by
  cases a4 <;> cases a6 <;> cases b4 <;> cases b6 <;> simp_all [clashes]

theorem outcome_of_not_clashes {m4 m6 a4 a6 : Bool} (h : clashes m4 m6 a4 a6 = false)
    (body : String) : outcome m4 m6 a4 a6 body = some (familyPrefix m4 m6 a4 a6 ++ body) := by
  simp [outcome, h]

theorem outcome_of_clashes {m4 m6 a4 a6 : Bool} (h : clashes m4 m6 a4 a6 = true) (body : String) :
    outcome m4 m6 a4 a6 body = none := by
  simp [outcome, h]

/-- A rule behind its family prefix carries the options of its values, as long
as neither option adds the other. -/
theorem marks_familyPrefix {m4 m6 f4 f6 : Bool} {y : String} (hc : clashes m4 m6 f4 f6 = false)
    (hy : marks y = (m4, m6)) (h4 : marks ("-4 " ++ y) = (true, m6))
    (h6 : marks ("-6 " ++ y) = (m4, true)) :
    marks (familyPrefix m4 m6 f4 f6 ++ y) = (m4 || f4, m6 || f6) := by
  unfold familyPrefix
  cases m4 <;> cases m6 <;> cases f4 <;> cases f6 <;> simp_all [clashes]

theorem classify_str_ok {fam : Address.Family} {v : String}
    (h : (Address.classify fam (.str v)).toOption.isSome) :
    ∃ b, Address.classify fam (.str v) = .ok b := by
  cases hv : Address.classify fam (.str v) with
  | error f => rw [hv] at h; cases h
  | ok b => exact ⟨b, rfl⟩

/-- Restricting a rule behind its family prefix to the family of one more
value is the outcome of that value added to the prefix's own. -/
theorem restrictFamily_familyPrefix {m4 m6 f4 f6 : Bool} {v y : String}
    (h4 : (Address.classify .v4 (.str v)).toOption.isSome)
    (h6 : (Address.classify .v6 (.str v)).toOption.isSome) (hc : clashes m4 m6 f4 f6 = false)
    (hmarks : marks (familyPrefix m4 m6 f4 f6 ++ y) = (m4 || f4, m6 || f6)) :
    restrictFamily (.str v) (familyPrefix m4 m6 f4 f6 ++ y) =
      .ok (outcome m4 m6 (f4 || isV4 v) (f6 || isV6 v) y) := by
  obtain ⟨b4, hb4⟩ := classify_str_ok h4
  obtain ⟨b6, hb6⟩ := classify_str_ok h6
  simp only [marks, Prod.mk.injEq] at hmarks
  unfold restrictFamily isV6 isV4
  rw [hb4, hb6, hmarks.1, hmarks.2]
  unfold outcome familyPrefix
  cases b4 <;> cases b6 <;> cases m4 <;> cases m6 <;> cases f4 <;> cases f6 <;>
    simp_all [clashes, Except.toOption, bind, Except.bind, pure, Except.pure]

end Families

section Expansion

/-- Feeding texts that each produce a list without fault produces the lists
one after another. -/
theorem feed_map_str {f : Value → Run String} {g : String → List String} :
    ∀ {vs : List String}, (∀ v ∈ vs, f (.str v) = Run.ofList (g v)) →
      Run.feed f (vs.map .str) = Run.ofList (vs.flatMap g)
  | [], _ => rfl
  | v :: vs, h => by
    have hrest := feed_map_str (fun w hw => h w (List.mem_cons_of_mem _ hw))
    simp [Run.feed, h v List.mem_cons_self, hrest, Run.ofList]

/-- The text a value is, if it is one. -/
def textOf? : Value → Option String
  | .str t => some t
  | _ => none

theorem eq_str_of_textOf? {x : Value} {t : String} (h : textOf? x = some t) : x = .str t := by
  unfold textOf? at h
  split at h
  · cases h; rfl
  · cases h

theorem eq_map_str_of_mapM : ∀ {xs : List Value} {ts : List String},
    xs.mapM textOf? = some ts → xs = ts.map .str
  | [], ts, h => by
    simp only [List.mapM_nil, pure, Option.some.injEq] at h
    simp [← h]
  | x :: xs, ts, h => by
    simp only [List.mapM_cons, bind, Option.bind_eq_some_iff, pure, Option.some.injEq] at h
    obtain ⟨t, ht, rest, hrest, rfl⟩ := h
    simp [eq_str_of_textOf? ht, eq_map_str_of_mapM hrest]

variable (tree : Value) (objects : String → List String)

/-- The texts the tree lists under an object, when it lists only texts. -/
def objectTexts (key : String) : Option (List String) :=
  (tree.path ["objects", key]).toOption.bind fun v => v.asList.mapM textOf?

variable {tree} in
theorem path_of_objectTexts {key : String} {ts : List String} (h : objectTexts tree key = some ts) :
    ∃ v, tree.path ["objects", key] = .ok v ∧ v.asList = ts.map .str := by
  unfold objectTexts at h
  cases hv : tree.path ["objects", key] with
  | error f => simp [hv, Except.toOption] at h
  | ok v =>
    simp only [hv, Except.toOption, Option.bind_some] at h
    exact ⟨v, rfl, eq_map_str_of_mapM h⟩

/-- A value that fills a reference plainly: a text with no `$` and no line
feed, whose reading as an IPv4 or an IPv6 network raises nothing. -/
def Settled (v : String) : Prop :=
  '$' ∉ v.toList ∧ '\n' ∉ v.toList ∧ (Address.classify .v4 (.str v)).toOption.isSome ∧
    (Address.classify .v6 (.str v)).toOption.isSome

instance (v : String) : Decidable (Settled v) :=
  inferInstanceAs (Decidable (_ ∧ _ ∧ _ ∧ _))

/-- From the text `u` filled so far, at every stage of filling the references
of the rest `a`, the rule carries the options `m4` and `m6`, and either
prefix adds its own option and nothing else. -/
def SteadyFrom (m4 m6 : Bool) (u a : String) : Prop :=
  ∀ j ≤ (readRefs a).length, ∀ c ∈ choicesOver objects ((readRefs a).take j),
    marks (u ++ fillOver (readRefs a) c a) = (m4, m6) ∧
      marks ("-4 " ++ (u ++ fillOver (readRefs a) c a)) = (true, m6) ∧
      marks ("-6 " ++ (u ++ fillOver (readRefs a) c a)) = (m4, true)

instance (m4 m6 : Bool) (u a : String) : Decidable (SteadyFrom objects m4 m6 u a) :=
  inferInstanceAs (Decidable (∀ j ≤ _, _))

/-- What holds at each stage of expanding a rule, between the text `u` filled
so far and the rest `a`: one line, no reference opened by `u`, values that
start with a character other than `{` for a reference right after a `$` in
`a`, every object listed as texts that fill plainly, and family options that
stay as they are. -/
structure Filling (m4 m6 : Bool) (u a : String) : Prop where
  oneLine : '\n' ∉ (u ++ a).toList
  noOpen : NoOpen '$' u.toList
  apart : ∀ r ∈ readRefs a, r.before.getLast? = some '$' →
    ∀ v ∈ objects r.key, v.toList.head? ≠ none ∧ v.toList.head? ≠ some '{'
  values : ∀ r ∈ readRefs a, objectTexts tree r.key = some (objects r.key)
  settled : ∀ r ∈ readRefs a, ∀ v ∈ objects r.key, Settled v
  steady : SteadyFrom objects m4 m6 u a

namespace Filling

variable {tree : Value} {objects : String → List String} {m4 m6 : Bool} {u a : String}

/-- The rule as it stands carries the options `m4` and `m6`, and either prefix
adds its own. -/
theorem marks_now (h : Filling tree objects m4 m6 u a) :
    marks (u ++ a) = (m4, m6) ∧ marks ("-4 " ++ (u ++ a)) = (true, m6) ∧
      marks ("-6 " ++ (u ++ a)) = (m4, true) := by
  simpa using h.steady 0 (Nat.zero_le _) [] (by simp [choicesOver])

theorem no_feed (h : Filling tree objects m4 m6 u a) : '\n' ∉ u.toList ∧ '\n' ∉ a.toList := by
  simpa [String.toList_append, not_or] using h.oneLine

/-- Filling the next reference with one of its values keeps the invariant. -/
theorem next (h : Filling tree objects m4 m6 u a) {r : Reference}
    (hr : Reference.find? '$' a = some r) {v : String} (hv : v ∈ objects r.key) :
    Filling tree objects m4 m6 (u ++ String.ofList r.before ++ v) (String.ofList r.after) := by
  have hrefs := readRefs_of_some hr
  have hmem : r ∈ readRefs a := hrefs ▸ List.mem_cons_self
  have htail : ∀ r' ∈ readRefs (String.ofList r.after), r' ∈ readRefs a :=
    fun r' h' => hrefs ▸ List.mem_cons_of_mem _ h'
  obtain ⟨hdollar, hfeed, -, -⟩ := h.settled r hmem v hv
  obtain ⟨hu, ha⟩ := h.no_feed
  have hsplit := find?_split_line ha hr
  refine ⟨?_, ?_, fun r' h' => h.apart r' (htail r' h'), fun r' h' => h.values r' (htail r' h'),
    fun r' h' => h.settled r' (htail r' h'), ?_⟩
  · have hbefore : '\n' ∉ r.before := fun hm => ha (by simp [hsplit, hm])
    have hafter : '\n' ∉ r.after := fun hm => ha (by simp [hsplit, hm])
    simp [String.toList_append, hu, hbefore, hfeed, hafter]
  · exact noOpen_fill h.noOpen hr hdollar fun hlast => h.apart r hmem hlast v hv
  · -- a stage from here is a stage from `a` that chose `v` first
    intro j hj c hc
    have hstage := h.steady (j + 1) (by rw [hrefs, List.length_cons]; omega) (v :: c)
      (by rw [hrefs, List.take_succ_cons, choicesOver, List.mem_flatMap]
          exact ⟨v, hv, List.mem_map_of_mem hc⟩)
    rw [hrefs] at hstage
    simpa only [fillOver, String.append_assoc] using hstage

end Filling

variable {tree objects} {m4 m6 : Bool}

/-- From any stage the invariant holds at, behind a family prefix that does
not clash, expansion is the static expansion of the rest. -/
theorem expandObjectsWith_filling :
    ∀ (fuel : Nat) {u a : String} {f4 f6 : Bool}, Filling tree objects m4 m6 u a →
      (readRefs a).length < fuel → clashes m4 m6 f4 f6 = false →
      expandObjectsWith tree fuel .iptables (familyPrefix m4 m6 f4 f6 ++ u ++ a) =
        Run.ofList ((choicesOver objects (readRefs a)).filterMap fun c =>
          outcome m4 m6 (f4 || c.any isV4) (f6 || c.any isV6) (u ++ fillOver (readRefs a) c a))
  | 0, _, _, _, _, _, hfuel, _ => absurd hfuel (Nat.not_lt_zero _)
  | fuel + 1, u, a, f4, f6, h, hfuel, hc => by
    have hw : NoOpen '$' (familyPrefix m4 m6 f4 f6 ++ u).toList := by
      rw [String.toList_append]
      exact noOpen_append (noOpen_of_not_mem (familyPrefix_plain m4 m6 f4 f6).1) h.noOpen
    have hline : '\n' ∉ (familyPrefix m4 m6 f4 f6 ++ u ++ a).toList := by
      obtain ⟨hu, ha⟩ := h.no_feed
      simp [String.toList_append, (familyPrefix_plain m4 m6 f4 f6).2, hu, ha]
    unfold expandObjectsWith
    rw [find?_append hw hline]
    cases hr : Reference.find? '$' a with
    | none =>
      simp [readRefs_of_none hr, choicesOver, outcome, hc, String.append_assoc]
    | some r =>
      have hrefs := readRefs_of_some hr
      obtain ⟨val, hpath, hlist⟩ :=
        path_of_objectTexts (h.values r (hrefs ▸ List.mem_cons_self))
      have hfuel' : (readRefs (String.ofList r.after)).length < fuel := by
        rw [hrefs, List.length_cons] at hfuel
        omega
      have hkey : ({ r with before := (familyPrefix m4 m6 f4 f6 ++ u).toList ++ r.before }).key =
        r.key := rfl
      simp only [Option.map_some]
      rw [hkey, hpath]
      dsimp only
      rw [hlist, hrefs, choicesOver, List.filterMap_flatMap]
      apply feed_map_str
      intro v hv
      -- the value fills the reference behind the prefix, then decides the family
      have hnext := h.next hr hv
      obtain ⟨hm0, hm4, hm6⟩ := hnext.marks_now
      obtain ⟨-, -, h4, h6⟩ := h.settled r (hrefs ▸ List.mem_cons_self) v hv
      have hfill : ({ r with before := (familyPrefix m4 m6 f4 f6 ++ u).toList ++ r.before }).fill
          (Value.str v).text =
          familyPrefix m4 m6 f4 f6 ++ (u ++ String.ofList r.before ++ v ++ String.ofList r.after) := by
        simp [Reference.fill, String.ofList_append, String.append_assoc]
      rw [hfill, restrictFamily_familyPrefix h4 h6 hc (marks_familyPrefix hc hm0 hm4 hm6)]
      cases hc' : clashes m4 m6 (f4 || isV4 v) (f6 || isV6 v) with
      | true =>
        -- the clash stays whatever the later references take
        rw [outcome_of_clashes hc']
        refine (congrArg Run.ofList (List.filterMap_eq_nil_iff.mpr fun c hc => ?_)).symm
        obtain ⟨c', -, rfl⟩ := List.mem_map.mp hc
        apply outcome_of_clashes
        simpa [Bool.or_assoc] using clashes_or hc' (c'.any isV4) (c'.any isV6)
      | false =>
        rw [outcome_of_not_clashes hc', ← String.append_assoc]
        dsimp only
        rw [expandObjectsWith_filling fuel hnext hfuel' hc', List.filterMap_map]
        congr 2
        funext c
        simp only [Function.comp_apply, List.any_cons, fillOver, Bool.or_assoc, String.append_assoc]

end Expansion

section Statement

variable (tree : Value) (objects : String → List String)

/-- The expansion of a rule read statically: every choice of one value per
reference, the leftmost varying slowest, filled in, then dropped or prefixed
by the families of its values. -/
def expansion (s : String) : List String :=
  (choicesOver objects (readRefs s)).filterMap fun c =>
    outcome (markedV4 s) (markedV6 s) (c.any isV4) (c.any isV6) (fillOver (readRefs s) c s)

/-- A rule text whose expansion is the product of its objects' values: one
line, values that start with a character other than `{` for a reference right
after a `$`, fewer references than the nesting limit, every object listed as
texts that fill plainly, and substitutions that never add or remove a family
option. -/
structure Expandable (s : String) : Prop where
  oneLine : '\n' ∉ s.toList
  apart : ∀ r ∈ readRefs s, r.before.getLast? = some '$' →
    ∀ v ∈ objects r.key, v.toList.head? ≠ none ∧ v.toList.head? ≠ some '{'
  shallow : (readRefs s).length < depthLimit
  values : ∀ r ∈ readRefs s, objectTexts tree r.key = some (objects r.key)
  settled : ∀ r ∈ readRefs s, ∀ v ∈ objects r.key, Settled v
  steady : SteadyFrom objects (markedV4 s) (markedV6 s) "" s

variable {tree objects}

theorem Expandable.filling {s : String} (h : Expandable tree objects s) :
    Filling tree objects (markedV4 s) (markedV6 s) "" s :=
  ⟨by simpa using h.oneLine, noOpen_nil, h.apart, h.values, h.settled, h.steady⟩

/-- Expanding the object references of an iptables rule yields one rule for
every choice of one value per reference, the leftmost varying slowest: the
rule filled with the values, dropped when an IPv4 and an IPv6 value meet or
when a value's family is the one the rule is not marked for, and otherwise
prefixed with the option of its values' family unless the rule carries it. -/
theorem expandObjects_eq_expansion {s : String} (h : Expandable tree objects s) :
    expandObjects tree .iptables (.str s) = Run.ofList (expansion objects s) := by
  have hrun := @expandObjectsWith_filling tree objects _ _ depthLimit _ _ false false h.filling
    h.shallow (by simp [clashes])
  simp only [familyPrefix, Bool.false_and, Bool.false_eq_true, if_false, String.empty_append,
    Bool.false_or] at hrun
  exact hrun

/-- The objects of the example rule of the configuration documentation. -/
def serverObjects : Value :=
  .dict [(.str "objects", .dict [
    (.str "dns_server", .list [.str "10.0.10.10", .str "fd33::10"]),
    (.str "syslog", .list [.str "10.0.10.2", .str "fd33::11"])])]

/-- The texts of each object of `serverObjects`. -/
def serverTexts (key : String) : List String := (objectTexts serverObjects key).getD []

theorem serverRule_expands :
    Expandable serverObjects serverTexts "-s ${dns_server} -d ${syslog} -j ACCEPT" ∧
      expandObjects serverObjects .iptables (.str "-s ${dns_server} -d ${syslog} -j ACCEPT") =
        Run.ofList ["-4 -s 10.0.10.10 -d 10.0.10.2 -j ACCEPT",
          "-6 -s fd33::10 -d fd33::11 -j ACCEPT"] := by
  have h : Expandable serverObjects serverTexts "-s ${dns_server} -d ${syslog} -j ACCEPT" :=
    ⟨by decide +kernel, by decide +kernel, by decide +kernel, by decide +kernel, by decide +kernel,
      by decide +kernel⟩
  exact ⟨h, (expandObjects_eq_expansion h).trans (by decide +kernel)⟩

/-- One object holding a scoped IPv6 address whose zone reads ` -4 x`. -/
def scopedObjects : Value :=
  .dict [(.str "objects", .dict [(.str "v", .str "fe80::1% -4 x")])]

/-- The zone of a scoped IPv6 address can carry the option `-4`: the rule the
address fills then reads as restricted to IPv4 and is dropped, where the
address alone would restrict it to IPv6. -/
theorem scopedAddress_drops_rule :
    isV6 "fe80::1% -4 x" = true ∧ markedV4 "-s ${v}" = false ∧
      expandObjects scopedObjects .iptables (.str "-s ${v}") = Run.ofList [] := by
  decide +kernel

-- A line feed in a value ends the line, and the references after it stay as they are.
example : expandObjects (.dict [(.str "objects", .dict [(.str "a", .str "x\ny"), (.str "b", .str "z")])])
    .iptables (.str "${a} ${b}") = Run.ofList ["x\ny ${b}"] := by
  decide +kernel

end Statement

end Rule
end Firewall
