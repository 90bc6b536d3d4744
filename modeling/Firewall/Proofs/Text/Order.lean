import Firewall.Text.CodePoint

/-!
# The code point order

Texts are compared code point by code point (`Text.codeOrder`, which is
`Text.codesLe` on their code points), as the program's sorting compares them.
The order is transitive and total, so sorting by it gives a sorted
permutation (`pairwise_mergeSort_codeOrder`).

A text as the program holds it is *whole* (`Text.Whole`): writing its code
points back gives it again, so no lead or trail stands alone.  Whole texts
are told apart by their code points, so on them the order is antisymmetric
and a sort by it, either way round, gives one result for all permutations
of a list (`mergeSort_eq_of_perm`).  Texts of characters below the
surrogates are whole (`whole_of_lt`).
-/

namespace Firewall
namespace Text

/-- A text as the program holds it: writing its code points back, each as
`unitChars` writes it, gives the text again, so no lead or trail stands
alone. -/
def Whole (s : String) : Prop := (codePoints s).flatMap unitChars = s.toList

instance (s : String) : Decidable (Whole s) := inferInstanceAs (Decidable (_ = _))

/-- Whole texts are told apart by their code points. -/
theorem Whole.eq_of_codePoints_eq {a b : String} (ha : Whole a) (hb : Whole b)
    (h : codePoints a = codePoints b) : a = b := by
  rw [← String.toList_inj, ← ha, ← hb, h]

/-! ### The order of code point lists -/

theorem codesLe_refl : ∀ x : List Nat, codesLe x x = true
  | [] => rfl
  | a :: x => by simp [codesLe, codesLe_refl x]

theorem codesLe_trans : ∀ {x y z : List Nat}, codesLe x y = true → codesLe y z = true →
    codesLe x z = true
  | [], _, _, _, _ => rfl
  | _ :: _, [], _, hxy, _ => by simp [codesLe] at hxy
  | _ :: _, _ :: _, [], _, hyz => by simp [codesLe] at hyz
  | a :: x, b :: y, c :: z, hxy, hyz => by
    simp only [codesLe, Bool.or_eq_true, Bool.and_eq_true, Nat.blt_eq, Nat.beq_eq] at hxy hyz ⊢
    -- at each place: smaller, or equal and the rest in order
    rcases hxy with hab | ⟨rfl, hxy⟩ <;> rcases hyz with hbc | ⟨rfl, hyz⟩
    · exact .inl (Nat.lt_trans hab hbc)
    · exact .inl hab
    · exact .inl hbc
    · exact .inr ⟨rfl, codesLe_trans hxy hyz⟩

theorem codesLe_total : ∀ x y : List Nat, (codesLe x y || codesLe y x) = true
  | [], _ => rfl
  | _ :: _, [] => by simp [codesLe]
  | a :: x, b :: y => by
    simp only [codesLe, Bool.or_eq_true, Bool.and_eq_true, Nat.blt_eq, Nat.beq_eq]
    rcases Nat.lt_trichotomy a b with h | rfl | h
    · exact .inl (.inl h)
    · simpa using codesLe_total x y
    · exact .inr (.inl h)

theorem codesLe_antisymm : ∀ {x y : List Nat}, codesLe x y = true → codesLe y x = true → x = y
  | [], [], _, _ => rfl
  | [], _ :: _, _, hyx => by simp [codesLe] at hyx
  | _ :: _, [], hxy, _ => by simp [codesLe] at hxy
  | a :: x, b :: y, hxy, hyx => by
    simp only [codesLe, Bool.or_eq_true, Bool.and_eq_true, Nat.blt_eq, Nat.beq_eq] at hxy hyx
    rcases hxy with hab | ⟨rfl, hxy⟩
    · rcases hyx with hba | ⟨rfl, _⟩ <;> omega
    · rcases hyx with hba | ⟨_, hyx⟩
      · omega
      · rw [codesLe_antisymm hxy hyx]

/-! ### The order of texts -/

theorem codeOrder_trans {a b c : String} (hab : codeOrder a b) (hbc : codeOrder b c) :
    codeOrder a c :=
  codesLe_trans hab hbc

theorem codeOrder_total (a b : String) : (codeOrder a b || codeOrder b a) = true :=
  codesLe_total _ _

/-- On whole texts the code point order is antisymmetric. -/
theorem Whole.eq_of_codeOrder {a b : String} (ha : Whole a) (hb : Whole b)
    (hab : codeOrder a b) (hba : codeOrder b a) : a = b :=
  ha.eq_of_codePoints_eq hb (codesLe_antisymm hab hba)

/-- Between distinct whole texts the code point order is strict: the first
does not come after the second. -/
theorem codeOrder_eq_false_of_codeOrder {a b : String} (ha : Whole a) (hb : Whole b)
    (h : codeOrder a b) (hne : a ≠ b) : codeOrder b a = false := by
  cases hba : codeOrder b a with
  | false => rfl
  | true => exact absurd (ha.eq_of_codeOrder hb h hba) hne

theorem pairwise_mergeSort_codeOrder (r : List String) :
    (r.mergeSort codeOrder).Pairwise fun a b => codeOrder a b = true :=
  @List.pairwise_mergeSort String codeOrder (fun _ _ _ => codeOrder_trans) codeOrder_total r

/-- A sort by an order that is transitive, total, and antisymmetric on whole
texts gives one result for all permutations of a list of whole texts. -/
theorem mergeSort_eq_of_perm {le : String → String → Bool}
    (trans : ∀ a b c, le a b → le b c → le a c) (total : ∀ a b, (le a b || le b a) = true)
    (antisymm : ∀ a b, Whole a → Whole b → le a b → le b a → a = b)
    {r r' : List String} (hw : ∀ a ∈ r, Whole a) (h : r.Perm r') :
    r.mergeSort le = r'.mergeSort le := by
  refine List.Perm.eq_of_pairwise ?_ (List.pairwise_mergeSort trans total r)
    (List.pairwise_mergeSort trans total r')
    ((List.mergeSort_perm r _).trans (h.trans (List.mergeSort_perm r' _).symm))
  intro a b ha hb hab hba
  have ha' : a ∈ r := List.mem_mergeSort.mp ha
  have hb' : b ∈ r := h.mem_iff.mpr (List.mem_mergeSort.mp hb)
  exact antisymm a b (hw a ha') (hw b hb') hab hba

/-- Permutations of one another, if their texts are whole, sort alike. -/
theorem mergeSort_codeOrder_eq_of_perm {r r' : List String} (hw : ∀ a ∈ r, Whole a)
    (h : r.Perm r') : r.mergeSort codeOrder = r'.mergeSort codeOrder :=
  @mergeSort_eq_of_perm codeOrder (fun _ _ _ => codeOrder_trans) codeOrder_total
    (fun _ _ ha hb => ha.eq_of_codeOrder hb) _ _ hw h

/-- Characters below the surrogates are each their own code point. -/
theorem codePointsOf_of_lt : ∀ cs : List Char, (∀ c ∈ cs, c.toNat < 0xD800) →
    codePointsOf cs = cs.map Char.toNat
  | [], _ => rfl
  | [_], _ => rfl
  | a :: b :: rest, h => by
    have ha : isLead a.toNat = false := by
      have hlow : ¬ (1101824 ≤ a.toNat) := by
        have := h a List.mem_cons_self
        omega
      unfold isLead leadFirst
      simp [hlow]
    rw [codePointsOf, if_neg (by simp [ha]),
      codePointsOf_of_lt (b :: rest) fun c hc => h c (List.mem_cons_of_mem _ hc)]
    rfl

/-- Characters below the surrogates are each written as themselves. -/
theorem flatMap_unitChars_of_lt : ∀ cs : List Char, (∀ c ∈ cs, c.toNat < 0xD800) →
    (cs.map Char.toNat).flatMap unitChars = cs
  | [], _ => rfl
  | c :: cs, h => by
    rw [List.map_cons, List.flatMap_cons, unitChars_low _ (h c List.mem_cons_self), Char.ofNat_toNat,
      flatMap_unitChars_of_lt cs fun d hd => h d (List.mem_cons_of_mem _ hd)]
    rfl

/-- A text of characters below the surrogates is whole. -/
theorem whole_of_lt {s : String} (h : ∀ c ∈ s.toList, c.toNat < 0xD800) : Whole s := by
  unfold Whole codePoints
  rw [codePointsOf_of_lt _ h, flatMap_unitChars_of_lt _ h]

end Text
end Firewall
