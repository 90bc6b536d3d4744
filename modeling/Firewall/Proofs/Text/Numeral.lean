import Firewall.Text.Integer

/-!
# Reading back the text of a number

The text of a natural number is its decimal digits, and reading a text as an
integer (`Text.integer?`) gives the number back, as long as the text is no
longer than `Text.digitLimit` (`integer?_toString`).

The reading is followed through the text: an ASCII digit is no blank and no
sign, a decimal text has no base prefix, the run of digits is read whole
(`digitRunIn_ten_of_isDigit`), and the digits folded as integers are those
folded as a natural number (`foldl_digit_values`), which is the number the
digits write (`Nat.ofDigitChars`).
-/

namespace Firewall
namespace Text

variable {c : Char}

theorem decimalValue_of_isDigit (h : c.isDigit = true) : decimalValue c = some (c.toNat - 48) := by
  have hc := Char.isDigit_iff_toNat.mp h
  simp only [Char.reduceToNat] at hc
  -- the ASCII block comes first among the blocks of digits
  have hzeros : digitZeros = 48 :: digitZeros.tail := rfl
  have hlt : c.toNat < 58 := by omega
  simp only [decimalValue]
  rw [hzeros]
  simp [hc.1, hlt]

theorem digitIn_ten_of_isDigit (h : c.isDigit = true) : digitIn 10 c = some (c.toNat - 48) := by
  have hc := Char.isDigit_iff_toNat.mp h
  simp only [Char.reduceToNat] at hc
  simp [digitIn, decimalValue_of_isDigit h]
  omega

theorem isNumberBlank_of_isDigit (h : c.isDigit = true) : isNumberBlank c = false := by
  have hc := Char.isDigit_iff_toNat.mp h
  simp only [Char.reduceToNat] at hc
  have hlt : c.toNat < 127 := by omega
  have hval : c.val.toNat = c.toNat := rfl
  simp only [isNumberBlank, hlt, if_true]
  simp [Char.le_def, ← Char.toNat_inj, UInt32.le_iff_toNat_le, hval]
  omega

/-- Decimal texts have no base prefix. -/
@[simp] theorem basePrefix_ten (cs : List Char) : basePrefix 10 cs = none := by
  unfold basePrefix
  split <;> simp

/-- A run of ASCII digits is read whole, digit by digit. -/
theorem digitRunIn_ten_of_isDigit :
    ∀ cs : List Char, (∀ c ∈ cs, c.isDigit = true) →
      digitRunIn 10 cs = (cs.map (·.toNat - 48), true, [])
  | [], _ => rfl
  | c :: cs, h => by
    simp only [digitRunIn, digitIn_ten_of_isDigit (h c List.mem_cons_self),
      digitRunIn_ten_of_isDigit cs fun d hd => h d (List.mem_cons_of_mem _ hd), List.map_cons]

/-- Folding digit values as integers is folding the digits as a natural number. -/
theorem foldl_digit_values (cs : List Char) (init : Nat) :
    (cs.map (·.toNat - 48)).foldl (fun (acc : Int) (d : Nat) => acc * 10 + d) (init : Int) =
      (Nat.ofDigitChars 10 cs init : Nat) := by
  induction cs generalizing init with
  | nil => rfl
  | cons c cs ih =>
    rw [List.map_cons, List.foldl_cons, Nat.ofDigitChars_cons, ← ih]
    congr 1
    simp only [Char.reduceToNat]
    omega

/-- A text of ASCII digits, not too many, denotes the number they write. -/
theorem integer?_of_isDigit {cs : List Char} (hne : cs ≠ []) (hd : ∀ c ∈ cs, c.isDigit = true)
    (hlen : cs.length ≤ digitLimit) :
    integer? (String.ofList cs) = some ((Nat.ofDigitChars 10 cs 0 : Nat) : Int) := by
  obtain ⟨c, rest, rfl⟩ := List.exists_cons_of_ne_nil hne
  have hc := hd c List.mem_cons_self
  have hminus : c ≠ '-' := by rintro rfl; exact absurd hc (by decide)
  have hplus : c ≠ '+' := by rintro rfl; exact absurd hc (by decide)
  have hunder : c ≠ '_' := by rintro rfl; exact absurd hc (by decide)
  have hdrop : (c :: rest).dropWhile isNumberBlank = c :: rest :=
    List.dropWhile_cons_of_neg (by simp [isNumberBlank_of_isDigit hc])
  simp only [integer?, integerIn?, integerIn, String.toList_ofList, hdrop]
  -- the text opens with a digit, so with no sign
  split
  · rename_i heq
    simp at heq
    exact absurd heq.1 hminus
  · rename_i heq
    simp at heq
    exact absurd heq.1 hplus
  · have hrun := digitRunIn_ten_of_isDigit (c :: rest) hd
    have hshort : ¬ (rest.length + 1 > digitLimit) := by simpa using hlen
    have hfold := foldl_digit_values (c :: rest) 0
    simp only [basePrefix_ten, Option.getD_none, hrun, List.head?_cons, binaryBase_ten]
    simp [hunder, hshort] at hfold ⊢
    rw [hfold]
    rfl

/-- The text of a natural number, unless too long, reads back as that number. -/
theorem integer?_toString (n : Nat) (h : (toString n).length ≤ digitLimit) :
    integer? (toString n) = some (n : Int) := by
  have hcs : (toString n).toList = Nat.toDigits 10 n := Nat.toList_repr
  have hne : Nat.toDigits 10 n ≠ [] := by
    rw [Nat.toDigits_eq_if (by decide)]
    split <;> simp
  have hdigits : ∀ c ∈ Nat.toDigits 10 n, c.isDigit = true :=
    fun c hc => Nat.isDigit_of_mem_toDigits (by decide) (by decide) hc
  have hlen : (Nat.toDigits 10 n).length ≤ digitLimit := by
    rw [← hcs, String.length_toList]
    exact h
  have hs : toString n = String.ofList (Nat.toDigits 10 n) := by
    rw [← hcs, String.ofList_toList]
  rw [hs, integer?_of_isDigit hne hdigits hlen, Nat.ofDigitChars_ten_toDigits]

example : integer? (toString 407) = some 407 := by decide

end Text
end Firewall
