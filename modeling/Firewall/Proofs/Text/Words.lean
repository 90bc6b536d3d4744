import Firewall.Text.Lines

/-!
# Words and lines of texts without separators

The kernel reads a script line by its words and a script text by its lines.
This module computes both readings for the texts that scripts are built
from.

**Definitions.**
* `Text.IsWord`: a text that is not empty and holds no white space.
* `Text.OneLine`: a text without line boundaries.
* `Text.normal`: the words of a text, joined by single spaces.

**Results.**
* `words_word_space`: the words of `w ++ " " ++ rest` are `w` and the words
  of `rest`, for a word `w`.
* `lines_intercalate_feed`: lines without boundaries, joined and ended by
  line feeds, read back as the same lines.
* `isWord_of_mem_words`: every word of a text is a word.
-/

namespace Firewall
namespace Text

/-- A text is a single word: it is not empty and holds no white space. -/
def IsWord (s : String) : Prop := s ≠ "" ∧ ∀ c ∈ s.toList, isSpace c = false

/-- A text that holds no line boundary. -/
def OneLine (s : String) : Prop := ∀ c ∈ s.toList, isLineBreak c = false

instance (s : String) : Decidable (OneLine s) :=
  List.decidableBAll (fun c => isLineBreak c = false) s.toList

instance (s : String) : Decidable (IsWord s) :=
  haveI := List.decidableBAll (fun c => isSpace c = false) s.toList
  inferInstanceAs (Decidable (s ≠ "" ∧ ∀ c ∈ s.toList, isSpace c = false))

/-- The words of a text, joined by single spaces. -/
def normal (s : String) : String := " ".intercalate (words s)

theorem isSpace_of_isLineBreak {c : Char} (h : isLineBreak c = true) : isSpace c = true := by
  simp [isSpace, h]

/-- A word is one line. -/
theorem IsWord.oneLine {s : String} (h : IsWord s) : OneLine s := by
  intro c hc
  cases hb : isLineBreak c with
  | false => rfl
  | true => simpa [isSpace_of_isLineBreak hb] using h.2 c hc

theorem IsWord.toList_ne_nil {s : String} (h : IsWord s) : s.toList ≠ [] := by
  simpa [String.toList_eq_nil_iff] using h.1

theorem IsWord.space_not_mem {s : String} (h : IsWord s) : ' ' ∉ s.toList :=
  fun hm => absurd (h.2 ' ' hm) (by decide)

theorem OneLine.append {a b : String} (ha : OneLine a) (hb : OneLine b) : OneLine (a ++ b) := by
  intro c hc
  rw [String.toList_append, List.mem_append] at hc
  rcases hc with hc | hc
  · exact ha c hc
  · exact hb c hc

section Words

/-- Characters without white space extend the current word. -/
theorem wordsFrom_solid :
    ∀ (cur w rest : List Char), (∀ c ∈ w, isSpace c = false) →
      wordsFrom cur (w ++ rest) = wordsFrom (w.reverse ++ cur) rest
  | _, [], _, _ => rfl
  | cur, c :: w, rest, h => by
      have hc : isSpace c = false := h c List.mem_cons_self
      have ih := wordsFrom_solid (c :: cur) w rest (fun x hx => h x (List.mem_cons_of_mem _ hx))
      simp only [List.cons_append, wordsFrom, hc, Bool.false_eq_true, if_false, ih]
      simp

/-- White space closes a current word that is not empty. -/
theorem wordsFrom_space_of_ne_nil {cur : List Char} (hcur : cur ≠ []) {c : Char}
    (hc : isSpace c = true) (rest : List Char) :
    wordsFrom cur (c :: rest) = cur.reverse :: wordsFrom [] rest := by
  simp [wordsFrom, hc, hcur]

/-- The words of a word followed by a space and a rest. -/
theorem words_word_space {w : String} (hw : IsWord w) (rest : String) :
    words (w ++ " " ++ rest) = w :: words rest := by
  have hne : w.toList.reverse ≠ [] := by
    simpa [String.toList_eq_nil_iff] using hw.1
  have hsplit : (w ++ " " ++ rest).toList = w.toList ++ ' ' :: rest.toList := by
    simp [String.toList_append]
  unfold words
  rw [hsplit, wordsFrom_solid [] w.toList _ hw.2, List.append_nil,
    wordsFrom_space_of_ne_nil hne (by decide)]
  simp [String.ofList_toList]

/-- A word is its only word. -/
theorem words_word {w : String} (hw : IsWord w) : words w = [w] := by
  have hne : w.toList.reverse ≠ [] := by
    simpa [String.toList_eq_nil_iff] using hw.1
  have hsolid := wordsFrom_solid [] w.toList [] hw.2
  rw [List.append_nil, List.append_nil] at hsolid
  unfold words
  rw [hsolid]
  simp [wordsFrom, hw.1]

/-- Every word that `wordsFrom` gives is a word, when the current word holds
no white space. -/
theorem isWord_of_mem_wordsFrom :
    ∀ (cur cs : List Char), (∀ c ∈ cur, isSpace c = false) →
      ∀ x ∈ wordsFrom cur cs, x ≠ [] ∧ ∀ c ∈ x, isSpace c = false
  | cur, [], hcur, x, hx => by
      by_cases he : cur = []
      · simp [wordsFrom, he] at hx
      · simp only [wordsFrom, List.isEmpty_iff, he, if_false, List.mem_singleton] at hx
        subst hx
        exact ⟨by simpa using he, fun c hc => hcur c (List.mem_reverse.mp hc)⟩
  | cur, c :: cs, hcur, x, hx => by
      by_cases hc : isSpace c = true
      · by_cases he : cur = []
        · simp only [wordsFrom, hc, if_true, List.isEmpty_iff, he] at hx
          exact isWord_of_mem_wordsFrom [] cs (by simp) x hx
        · simp only [wordsFrom, hc, if_true, List.isEmpty_iff, he, if_false,
            List.mem_cons] at hx
          rcases hx with rfl | hx
          · exact ⟨by simpa using he, fun c hc => hcur c (List.mem_reverse.mp hc)⟩
          · exact isWord_of_mem_wordsFrom [] cs (by simp) x hx
      · have hc' : isSpace c = false := by simpa using hc
        simp only [wordsFrom, hc', Bool.false_eq_true, if_false] at hx
        refine isWord_of_mem_wordsFrom (c :: cur) cs ?_ x hx
        intro d hd
        rcases List.mem_cons.mp hd with rfl | hd
        · exact hc'
        · exact hcur d hd

/-- Every word of a text is a word. -/
theorem isWord_of_mem_words {s x : String} (hx : x ∈ words s) : IsWord x := by
  unfold words at hx
  obtain ⟨cs, hcs, rfl⟩ := List.mem_map.mp hx
  obtain ⟨hne, hsp⟩ := isWord_of_mem_wordsFrom [] s.toList (by simp) cs hcs
  refine ⟨?_, ?_⟩
  · intro he
    apply hne
    simpa using congrArg String.toList he
  · simpa [String.toList_ofList] using hsp

/-- Words joined by single spaces hold no line boundary. -/
theorem oneLine_intercalate_space : ∀ ws : List String, (∀ w ∈ ws, OneLine w) →
    OneLine (" ".intercalate ws)
  | [], _ => by simp [OneLine]
  | [w], h => by
      rw [String.intercalate_singleton]
      exact h w List.mem_cons_self
  | w :: v :: rest, h => by
      rw [String.intercalate_cons_cons]
      exact ((h w List.mem_cons_self).append (by decide)).append
        (oneLine_intercalate_space (v :: rest) fun x hx => h x (List.mem_cons_of_mem _ hx))

theorem oneLine_normal (s : String) : OneLine (normal s) :=
  oneLine_intercalate_space _ fun _ hw => (isWord_of_mem_words hw).oneLine

/-- A text in normal form that has a word ends in a word. -/
theorem normal_eq_append_word {s : String} (h : words s ≠ []) :
    ∃ p w, normal s = p ++ w ∧ IsWord w := by
  rcases List.eq_nil_or_concat (words s) with h0 | ⟨ws, w, hws⟩
  · exact absurd h0 h
  rw [List.concat_eq_append] at hws
  have hw : IsWord w := isWord_of_mem_words (by rw [hws]; exact List.mem_append_right ws List.mem_cons_self)
  unfold normal
  rw [hws]
  by_cases hne : ws = []
  · subst hne
    exact ⟨"", w, by simp [String.intercalate_singleton], hw⟩
  · refine ⟨" ".intercalate ws ++ " ", w, ?_, hw⟩
    rw [String.intercalate_append_of_ne_nil hne (List.cons_ne_nil w []),
      String.intercalate_singleton]

/-- A text that ends in a word has no trailing white space to strip. -/
theorem stripEnd_append_word {p w : String} (hw : IsWord w) : stripEnd (p ++ w) = p ++ w := by
  obtain ⟨c, cs, hc⟩ := List.exists_cons_of_ne_nil (List.reverse_ne_nil_iff.mpr hw.toList_ne_nil)
  have hsp : isSpace c = false := hw.2 c (List.mem_reverse.mp (hc ▸ List.mem_cons_self))
  unfold stripEnd
  rw [String.toList_append, List.reverse_append, hc, List.cons_append,
    List.dropWhile_cons_of_neg (by simp [hsp]), ← List.cons_append, ← hc, ← List.reverse_append,
    List.reverse_reverse, ← String.toList_append, String.ofList_toList]

end Words

section Lines

/-- Past a character other than a carriage return, the current line goes on or
ends at that character. -/
theorem linesFrom_cons_of_ne_cr {c : Char} (hr : c ≠ '\r') (keepEnds : Bool)
    (cur rest : List Char) :
    linesFrom keepEnds cur (c :: rest) =
      if isLineBreak c then
        (if keepEnds then cur.reverse ++ [c] else cur.reverse) :: linesFrom keepEnds [] rest
      else linesFrom keepEnds (c :: cur) rest := by
  -- through the unfolding: the equations of the third case, whose side
  -- conditions are on characters, take long to derive
  rw [linesFrom.eq_def]
  split
  · next h => cases h
  · next h =>
      cases h
      exact absurd rfl hr
  · next h =>
      cases h
      rfl

/-- Characters without line boundaries extend the current line. -/
theorem linesFrom_oneLine (keepEnds : Bool) :
    ∀ (cur w rest : List Char), (∀ c ∈ w, isLineBreak c = false) →
      linesFrom keepEnds cur (w ++ rest) = linesFrom keepEnds (w.reverse ++ cur) rest
  | _, [], _, _ => rfl
  | cur, c :: w, rest, h => by
      have hc : isLineBreak c = false := h c List.mem_cons_self
      have hr : c ≠ '\r' := by
        rintro rfl
        exact absurd hc (by decide)
      have ih := linesFrom_oneLine keepEnds (c :: cur) w rest
        (fun x hx => h x (List.mem_cons_of_mem _ hx))
      rw [List.cons_append, linesFrom_cons_of_ne_cr hr, hc]
      simp only [Bool.false_eq_true, if_false, ih]
      simp

/-- A line without boundaries followed by a line feed is the first line. -/
theorem lines_oneLine_feed {l : String} (hl : OneLine l) (rest : String) :
    lines (l ++ "\n" ++ rest) = l :: lines rest := by
  have hsplit : (l ++ "\n" ++ rest).toList = l.toList ++ '\n' :: rest.toList := by
    simp [String.toList_append]
  unfold lines linesOf
  rw [hsplit, linesFrom_oneLine false [] l.toList _ hl, List.append_nil]
  simp [linesFrom_cons_of_ne_cr (by decide : '\n' ≠ '\r'), isLineBreak, String.ofList_toList]

/-- Lines without boundaries, joined and ended by line feeds, read back as
themselves. -/
theorem lines_intercalate_feed :
    ∀ (ls : List String), ls ≠ [] → (∀ l ∈ ls, OneLine l) →
      lines ("\n".intercalate ls ++ "\n") = ls
  | [], hne, _ => absurd rfl hne
  | [l], _, h => by
      have hl := h l List.mem_cons_self
      simpa using lines_oneLine_feed hl ""
  | l :: m :: ls, _, h => by
      have hl := h l List.mem_cons_self
      have ih := lines_intercalate_feed (m :: ls) (List.cons_ne_nil m ls)
        (fun x hx => h x (List.mem_cons_of_mem _ hx))
      rw [String.intercalate_cons_cons, String.append_assoc,
        lines_oneLine_feed hl, ih]

end Lines

end Text
end Firewall
