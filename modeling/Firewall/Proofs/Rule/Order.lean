import Mathlib.Logic.Relation
import Mathlib.Data.List.Nodup
import Firewall.Rule.Line

/-!
# Declaring chains before using them

A table section declares new chains (`:C -`) and uses chains: it appends rules
to them, sets their policies, and jumps from one to another.  `ChainOrder`
says that every chain is declared at most once, that a line using a declared
chain comes after the declaration, and that a chain jumps only to declared
chains declared after it, so that jumps between declared chains form no loop
(`ChainOrder.no_loop`).

**Some chains of a section.**  `ChainsOrdered cs` says the same of the chains
`cs` only, in lines that may declare and use others as well.  Lines in chain
order keep all their chains so (`ChainOrder.ordered`), and lines that jump
nowhere and name none of `cs` may be put in front (`ChainsOrdered.prepend`):
so a section is checked for the chains one part of it declares.

**Reading lines one by one.**  `Scoped p D ls` reads the lines after the
chains `D` were declared, the last one first, and keeps to the chains that `p`
picks: a declaration declares such a chain; a jump leaves such a chain only
once it is declared, and enters one only right after declaring it, from
another chain; any other line uses only declared ones.  It splits at every
point (`scoped_append`), so each piece of a generated section is checked on
its own, and a section read so from no declarations, which declares no chain
twice, is in chain order (`Scoped.chainOrder`).
-/

namespace Firewall
namespace Rule

/-- The chain a line declares. -/
def Line.declared? : Line → Option String
  | .declare c => some c
  | _ => none

/-- The chains a line uses: the chain it adds to or sets the policy of, and the
chain it jumps to. -/
def Line.uses : Line → List String
  | .policy c _ => [c]
  | .declare _ => []
  | .jump c _ _ t => [c, t]
  | .append c _ => [c]

/-- The chains that lines declare, in order. -/
def declarations (ls : List Line) : List String := ls.filterMap Line.declared?

/-- The lines of one table, in order. -/
def inTable (ls : List TableLine) (table : String) : List Line :=
  ls.filterMap fun (t, l) => if t == .str table then some l else none

/-- Chains are declared once and before use, and jumps between declared chains
go from the one declared first to the one declared later. -/
structure ChainOrder (ls : List Line) : Prop where
  /-- Every chain is declared at most once. -/
  nodup : (declarations ls).Nodup
  /-- A line that uses a declared chain comes after the declaration. -/
  declared_before : ∀ pre l post, ls = pre ++ l :: post →
    ∀ c ∈ l.uses, c ∈ declarations ls → c ∈ declarations pre
  /-- A chain that jumps to a declared chain was declared before it. -/
  jumps_forward : ∀ pre t post, ls = pre ++ .declare t :: post →
    ∀ c g cm, .jump c g cm t ∈ ls → c ∈ declarations ls → c ∈ declarations pre

section Declarations

variable {ls pre post : List Line} {c : String}

@[simp] theorem declarations_nil : declarations [] = [] := rfl

@[simp] theorem declarations_append (ls ls' : List Line) :
    declarations (ls ++ ls') = declarations ls ++ declarations ls' :=
  List.filterMap_append

@[simp] theorem declarations_cons (l : Line) (ls : List Line) :
    declarations (l :: ls) = l.declared?.toList ++ declarations ls := by
  cases h : l.declared? <;> simp [declarations, h]

@[simp] theorem declared?_declare (c : String) : (Line.declare c).declared? = some c := rfl

@[simp] theorem declared?_jump (c : String) (g : Option Guard) (cm : Option String) (t : String) :
    (Line.jump c g cm t).declared? = none := rfl

@[simp] theorem declared?_append (c r : String) : (Line.append c r).declared? = none := rfl

@[simp] theorem inTable_nil (table : String) : inTable [] table = [] := rfl

@[simp] theorem inTable_append (ls ls' : List TableLine) (table : String) :
    inTable (ls ++ ls') table = inTable ls table ++ inTable ls' table :=
  List.filterMap_append

/-- Lines all of one table are the lines of that table, and of no other. -/
theorem inTable_of_tagged {ls : List TableLine} {tb : Value} (h : ∀ l ∈ ls, l.1 = tb)
    (table : String) : inTable ls table = if tb == .str table then ls.map (·.2) else [] := by
  induction ls with
  | nil => simp
  | cons l ls ih =>
      obtain ⟨t, l⟩ := l
      obtain rfl : t = tb := h _ List.mem_cons_self
      rw [show (t, l) :: ls = [(t, l)] ++ ls from rfl, inTable_append,
        ih fun l hl => h l (List.mem_cons_of_mem _ hl)]
      cases ht : t == .str table <;> simp [inTable, ht]

theorem mem_declarations_iff : c ∈ declarations ls ↔ .declare c ∈ ls := by
  simp only [declarations, List.mem_filterMap]
  constructor
  · rintro ⟨l, hl, hd⟩
    cases l <;> simp only [Line.declared?, reduceCtorEq, Option.some.injEq] at hd
    exact hd ▸ hl
  · exact fun h => ⟨_, h, rfl⟩

/-- A chain declared at most once is declared at one place. -/
theorem split_unique (hc : (declarations ls).count c ≤ 1) {pre' post' : List Line}
    (h : ls = pre ++ .declare c :: post) (h' : ls = pre' ++ .declare c :: post') :
    pre = pre' ∧ post = post' := by
  subst h
  rcases List.append_eq_append_iff.mp h' with ⟨m, rfl, hm⟩ | ⟨m, rfl, hm⟩
  · cases m with
    | nil => simp_all
    | cons x m =>
        obtain ⟨rfl, rfl⟩ := List.cons.inj hm
        -- `c` would be declared twice
        simp [List.count_append] at hc
        omega
  · cases m with
    | nil => simp_all
    | cons x m =>
        obtain ⟨rfl, rfl⟩ := List.cons.inj hm.symm
        simp [List.count_append] at hc
        omega

/-- A line of `O ++ Z` is a line of `O`, or splits `Z` after all of `O`. -/
theorem mem_or_split_right {O Z pre post : List Line} {l : Line} (h : O ++ Z = pre ++ l :: post) :
    l ∈ O ∨ ∃ a, pre = O ++ a ∧ Z = a ++ l :: post := by
  rcases List.append_eq_append_iff.mp h with ⟨a, hpre, hz⟩ | ⟨m, ho, hm⟩
  · exact .inr ⟨a, hpre, hz⟩
  · cases m with
    | nil => exact .inr ⟨[], by simp [ho], by simpa using hm.symm⟩
    | cons x m =>
        obtain ⟨rfl, -⟩ := List.cons.inj hm
        exact .inl (ho ▸ by simp)

/-- The last declaration of a list of lines splits it there. -/
theorem split_last_declaration {t : String} :
    ∀ {pre : List Line}, (declarations pre).getLast? = some t →
      ∃ a b, pre = a ++ .declare t :: b ∧ declarations b = []
  | [], h => by cases h
  | l :: rest, h => by
      rw [declarations_cons, List.getLast?_append] at h
      cases hr : (declarations rest).getLast? with
      | some t' =>
          rw [hr, Option.some_or] at h
          obtain ⟨a, b, rfl, hb⟩ := split_last_declaration (hr.trans h)
          exact ⟨l :: a, b, rfl, hb⟩
      | none =>
          -- the first line is the last declaration
          rw [hr, Option.none_or] at h
          cases l <;> simp only [Line.declared?, Option.toList_none, Option.toList_some,
            List.getLast?_nil, List.getLast?_singleton, reduceCtorEq, Option.some.injEq] at h
          subst h
          exact ⟨[], rest, rfl, List.getLast?_eq_none_iff.mp hr⟩

end Declarations

section Scoped

/-- One line read after the chains `D` were declared, the last one first, for
the chains that `p` picks: a declaration declares such a chain; a jump leaves
such a chain only if it is declared, and enters one only if it was declared
last, from another chain; any other line uses only declared ones. -/
def Line.ScopedAfter (p : String → Prop) (D : List String) : Line → Prop
  | .declare c => p c
  | .jump c _ _ t => (p c → c ∈ D) ∧ (p t → D.head? = some t ∧ c ≠ t)
  | .policy c _ => p c → c ∈ D
  | .append c _ => p c → c ∈ D

/-- Lines read one after another from the declared chains `D`. -/
def Scoped (p : String → Prop) : List String → List Line → Prop
  | _, [] => True
  | D, l :: ls => l.ScopedAfter p D ∧ Scoped p (l.declared?.toList ++ D) ls

variable {p : String → Prop} {D : List String}

@[simp] theorem scoped_nil : Scoped p D [] := trivial

@[simp] theorem scoped_cons (l : Line) (ls : List Line) :
    Scoped p D (l :: ls) ↔ l.ScopedAfter p D ∧ Scoped p (l.declared?.toList ++ D) ls := Iff.rfl

/-- Reading two pieces one after the other. -/
theorem scoped_append {ls ls' : List Line} :
    Scoped p D (ls ++ ls') ↔ Scoped p D ls ∧ Scoped p ((declarations ls).reverse ++ D) ls' := by
  induction ls generalizing D with
  | nil => simp
  | cons l ls ih =>
      cases h : l.declared? <;> simp [ih, h, and_assoc]

/-- Each line of a scoped piece is scoped after the declarations before it. -/
theorem Scoped.at {ls pre post : List Line} {l : Line} (h : Scoped p D ls)
    (hs : ls = pre ++ l :: post) : l.ScopedAfter p ((declarations pre).reverse ++ D) := by
  subst hs
  exact (scoped_cons l post).mp (scoped_append.mp h).2 |>.1

theorem Scoped.declared {ls : List Line} (h : Scoped p D ls) : ∀ c ∈ declarations ls, p c := by
  intro c hc
  obtain ⟨pre, post, hs⟩ := List.append_of_mem (mem_declarations_iff.mp hc)
  exact h.at hs

/-- A declaration followed by jumps into the new chain, each from a chain
other than it that is declared if `p` picks it. -/
theorem scoped_declare_jumps {t : String} {js : List Line} (ht : p t)
    (hjs : ∀ l ∈ js, ∃ c g cm, l = .jump c g cm t ∧ (p c → c ∈ D) ∧ c ≠ t) :
    Scoped p D (.declare t :: js) := by
  rw [scoped_cons]
  refine ⟨ht, ?_⟩
  -- jumps declare nothing, so `t` stays the last declaration
  induction js with
  | nil => trivial
  | cons l js ih =>
      obtain ⟨c, g, cm, rfl, hc, hne⟩ := hjs l List.mem_cons_self
      rw [scoped_cons]
      refine ⟨?_, ih fun l hl => hjs l (List.mem_cons_of_mem _ hl)⟩
      simp only [Line.ScopedAfter, declared?_declare, Option.toList_some, List.singleton_append,
        List.mem_cons, List.head?_cons, true_and]
      exact ⟨fun h => .inr (hc h), fun _ => hne⟩

/-- Rules appended to one chain, declared if `p` picks it. -/
theorem scoped_appends {c : String} {ls : List Line} (hc : p c → c ∈ D)
    (h : ∀ l ∈ ls, ∃ r, l = .append c r) : Scoped p D ls := by
  induction ls with
  | nil => trivial
  | cons l ls ih =>
      obtain ⟨r, rfl⟩ := h l List.mem_cons_self
      exact (scoped_cons _ _).mpr ⟨hc, ih fun l hl => h l (List.mem_cons_of_mem _ hl)⟩

/-- Two pieces, each scoped after any declarations that `S` accepts, where `S`
is kept by declaring more, are scoped one after the other. -/
theorem scoped_append_of {S : List String → Prop} (hS : ∀ D E, S D → S (E ++ D))
    {ls ls' : List Line} (h : ∀ D, S D → Scoped p D ls) (h' : ∀ D, S D → Scoped p D ls') :
    ∀ D, S D → Scoped p D (ls ++ ls') :=
  fun D hD => scoped_append.mpr ⟨h D hD, h' _ (hS D _ hD)⟩

/-- A chain that `p` picks and a line uses is declared before the line. -/
theorem Scoped.used_before {ls pre post : List Line} {l : Line} {c : String} (h : Scoped p [] ls)
    (hs : ls = pre ++ l :: post) (hc : c ∈ l.uses) (hp : p c) : c ∈ declarations pre := by
  have hl := h.at hs
  cases l with
  | declare => cases hc
  | jump a _ _ b =>
      simp only [Line.ScopedAfter, List.append_nil, List.mem_reverse, List.head?_reverse] at hl
      simp only [Line.uses, List.mem_cons, List.not_mem_nil, or_false] at hc
      rcases hc with rfl | rfl
      · exact hl.1 hp
      · exact List.mem_of_getLast? (hl.2 hp).1
  | policy a _ =>
      simp only [Line.ScopedAfter, List.append_nil, List.mem_reverse] at hl
      simp only [Line.uses, List.mem_singleton] at hc
      exact hc ▸ hl (hc ▸ hp)
  | append a _ =>
      simp only [Line.ScopedAfter, List.append_nil, List.mem_reverse] at hl
      simp only [Line.uses, List.mem_singleton] at hc
      exact hc ▸ hl (hc ▸ hp)

/-- In a piece read from no declarations, every chain that `p` picks and a line
uses is declared. -/
theorem Scoped.used_declared {ls : List Line} (h : Scoped p [] ls) :
    ∀ l ∈ ls, ∀ c ∈ l.uses, p c → c ∈ declarations ls := by
  intro l hl c hc hp
  obtain ⟨pre, post, hs⟩ := List.append_of_mem hl
  have := h.used_before hs hc hp
  rw [hs, declarations_append]
  exact List.mem_append_left _ this

/-- A piece read from no declarations, which declares no chain twice, is in
chain order. -/
theorem Scoped.chainOrder {ls : List Line} (h : Scoped p [] ls) (hnd : (declarations ls).Nodup) :
    ChainOrder ls where
  nodup := hnd
  declared_before := fun _ _ _ hs c hc hd => h.used_before hs hc (h.declared c hd)
  jumps_forward := by
    intro pre t post hs c g cm hj hc
    obtain ⟨pre', post', hs'⟩ := List.append_of_mem hj
    have hl := h.at hs'
    simp only [Line.ScopedAfter, List.append_nil, List.head?_reverse] at hl
    have ht := h.declared t (mem_declarations_iff.mpr (hs ▸ by simp))
    obtain ⟨hlast, hne⟩ := hl.2 ht
    -- the jump comes after the last declaration before it, which declares `t`
    obtain ⟨a, b, rfl, hb⟩ := split_last_declaration hlast
    have hsplit : ls = a ++ .declare t :: (b ++ .jump c g cm t :: post') := by simp [hs']
    obtain ⟨rfl, -⟩ := split_unique (List.nodup_iff_count_le_one.mp hnd t) hs hsplit
    have hca : c = t ∨ c ∈ declarations pre := by
      simpa [hb] using hl.1 (h.declared c hc)
    exact hca.resolve_left hne

end Scoped

section Loops

variable {cs : List String} {ls : List Line}

/-- Chains `cs` of lines that may declare and use other chains too: each chain
of `cs` is declared exactly once, a line that uses one comes after its
declaration, and a chain of `cs` that jumps to another was declared before it. -/
structure ChainsOrdered (cs : List String) (ls : List Line) : Prop where
  /-- Each chain of `cs` is declared exactly once. -/
  once : ∀ c ∈ cs, (declarations ls).count c = 1
  /-- A line that uses a chain of `cs` comes after its declaration. -/
  declared_before : ∀ pre l post, ls = pre ++ l :: post →
    ∀ c ∈ l.uses, c ∈ cs → c ∈ declarations pre
  /-- A chain of `cs` that jumps to another was declared before it. -/
  jumps_forward : ∀ pre t post, ls = pre ++ .declare t :: post → t ∈ cs →
    ∀ c g cm, .jump c g cm t ∈ ls → c ∈ cs → c ∈ declarations pre

/-- A jump between two chains of `cs`. -/
def JumpWithin (cs : List String) (ls : List Line) (c t : String) : Prop :=
  (∃ g cm, .jump c g cm t ∈ ls) ∧ c ∈ cs ∧ t ∈ cs

/-- A jump between two declared chains. -/
def DeclaredJump (ls : List Line) (c t : String) : Prop :=
  (∃ g cm, .jump c g cm t ∈ ls) ∧ c ∈ declarations ls ∧ t ∈ declarations ls

/-- Lines in chain order keep all the chains they declare in order. -/
theorem ChainOrder.ordered (h : ChainOrder ls) : ChainsOrdered (declarations ls) ls where
  once := fun _ hc => List.count_eq_one_of_mem h.nodup hc
  declared_before := h.declared_before
  jumps_forward := fun pre t post hs _ => h.jumps_forward pre t post hs

theorem ChainsOrdered.declared (h : ChainsOrdered cs ls) {c : String} (hc : c ∈ cs) :
    .declare c ∈ ls := by
  have := h.once c hc
  exact mem_declarations_iff.mp (List.count_pos_iff.mp (by omega))

theorem ChainsOrdered.declared_earlier (h : ChainsOrdered cs ls) {c t : String}
    (hj : JumpWithin cs ls c t) {pc pt post post' : List Line} (hc : ls = pc ++ .declare c :: post)
    (ht : ls = pt ++ .declare t :: post') : pc.length < pt.length := by
  obtain ⟨⟨g, cm, hj⟩, hcs, hts⟩ := hj
  have hin := h.jumps_forward pt t post' ht hts c g cm hj hcs
  obtain ⟨a, b, rfl⟩ := List.append_of_mem (mem_declarations_iff.mp hin)
  have hsplit : ls = a ++ .declare c :: (b ++ .declare t :: post') := by simp [ht]
  obtain ⟨rfl, -⟩ := split_unique (Nat.le_of_eq (h.once c hcs)) hc hsplit
  simp

/-- Jumps between the ordered chains form no loop. -/
theorem ChainsOrdered.no_loop (h : ChainsOrdered cs ls) (c : String) :
    ¬ Relation.TransGen (JumpWithin cs ls) c c := by
  -- every step of a path goes to a chain declared later
  have step : ∀ {a b}, Relation.TransGen (JumpWithin cs ls) a b →
      ∀ {pa pb post post'}, ls = pa ++ .declare a :: post → ls = pb ++ .declare b :: post' →
        pa.length < pb.length := by
    intro a b hab
    induction hab with
    | single hj => exact h.declared_earlier hj
    | tail _ hj ih =>
        intro pa pb post post' ha hb
        obtain ⟨pm, qm, hm⟩ := List.append_of_mem (h.declared hj.2.1)
        exact Nat.lt_trans (ih ha hm) (h.declared_earlier hj hm hb)
  intro hc
  obtain ⟨pc, qc, hs⟩ := List.append_of_mem (h.declared
    (match hc with
     | .single hj => hj.2.1
     | .tail _ hj => hj.2.2))
  exact absurd (step hc hs hs) (Nat.lt_irrefl _)

/-- Jumps between declared chains form no loop. -/
theorem ChainOrder.no_loop (h : ChainOrder ls) (c : String) :
    ¬ Relation.TransGen (DeclaredJump ls) c c :=
  h.ordered.no_loop c

/-- Whether a line jumps to another chain. -/
def Line.jumps : Line → Bool
  | .jump .. => true
  | _ => false

/-- A line that jumps nowhere uses only its own chain. -/
theorem uses_of_not_jumps {l : Line} (h : l.jumps = false) : ∀ c ∈ l.uses, c = l.chain := by
  cases l <;> simp_all [Line.uses, Line.chain, Line.jumps]

theorem declared?_chain {l : Line} {c : String} (h : l.declared? = some c) : c = l.chain := by
  cases l <;> simp_all [Line.declared?, Line.chain]

/-- Lines that jump nowhere and name none of the chains `cs`, put in front,
leave `cs` in order. -/
theorem ChainsOrdered.prepend {O : List Line} (h : ChainsOrdered cs ls)
    (hj : ∀ l ∈ O, l.jumps = false) (hO : ∀ l ∈ O, l.chain ∉ cs) : ChainsOrdered cs (O ++ ls) where
  once := by
    intro c hc
    -- no declaration in front is one of `cs`
    have h0 : (declarations O).count c = 0 := by
      refine List.count_eq_zero.mpr fun hd => ?_
      obtain ⟨l, hl, hdl⟩ := List.mem_filterMap.mp hd
      exact hO l hl (declared?_chain hdl ▸ hc)
    rw [declarations_append, List.count_append, h0, h.once c hc]
  declared_before := by
    intro pre l post hs c hu hc
    rcases mem_or_split_right hs with hl | ⟨a, rfl, hz⟩
    · exact absurd (uses_of_not_jumps (hj l hl) c hu ▸ hc) (hO l hl)
    · rw [declarations_append]
      exact List.mem_append_right _ (h.declared_before a l post hz c hu hc)
  jumps_forward := by
    intro pre t post hs ht c g cm hjump hc
    rcases mem_or_split_right hs with hl | ⟨a, rfl, hz⟩
    · exact absurd ht (hO _ hl)
    · -- the jump is not in front, where nothing jumps
      have hjz : .jump c g cm t ∈ ls := by
        rcases List.mem_append.mp hjump with hjo | hjz
        · exact absurd (hj _ hjo) (by simp [Line.jumps])
        · exact hjz
      rw [declarations_append]
      exact List.mem_append_right _ (h.jumps_forward a t post hz ht c g cm hjz hc)

end Loops

end Rule
end Firewall
