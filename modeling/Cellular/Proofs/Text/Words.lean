import Cellular.Proofs.Text.Lines
import Cellular.Text.Blank
import Cellular.Text.Letter
import Mathlib.Data.List.Induction

/-!
# Blanks around and between words

Trimming leaves a text alone that neither starts nor ends with a blank, and takes
the carriage return at the end of a line for a blank.  A text of words with one
blank after each but the last has just these words (`words_intercalate`).
-/

namespace Cellular.Text

variable {c : Char} {text word rest : List Char} {others : List (List Char)}

theorem isBlank_of_isNameChar (h : isNameChar c = true) : isBlank c = false := by
  rw [isNameChar_iff] at h
  simp only [isBlank, blankRanges, List.any_cons, List.any_nil, Bool.or_false,
    Bool.or_eq_false_iff, Bool.and_eq_false_iff, decide_eq_false_iff_not]
  omega

/-! ## Trimming -/

theorem trimStart_cons (h : isBlank c = false) : trimStart (c :: rest) = c :: rest := by
  rw [trimStart, List.dropWhile_cons_of_neg (by simp [h])]

theorem trimEnd_concat (h : isBlank c = false) : trimEnd (text ++ [c]) = text ++ [c] := by
  rw [trimEnd, List.reverse_append, List.reverse_singleton, List.singleton_append,
    List.dropWhile_cons_of_neg (by simp [h]), List.reverse_cons, List.reverse_reverse]

theorem trimEnd_concat_blank (h : isBlank c = true) :
    trimEnd (text ++ [c]) = trimEnd text := by
  rw [trimEnd, List.reverse_append, List.reverse_singleton, List.singleton_append,
    List.dropWhile_cons_of_pos h, trimEnd]

theorem trim_concat_blank (h : isBlank c = true) : trim (text ++ [c]) = trim text := by
  rw [trim, trim, trimStart, trimStart, List.dropWhile_append]
  split
  · rename_i hempty
    rw [List.isEmpty_iff.mp hempty, List.dropWhile_cons_of_pos h, List.dropWhile_nil]
  · exact trimEnd_concat_blank h

theorem trim_stripReturn (line : List Char) : trim (stripReturn line) = trim line := by
  rcases eq_stripReturn_or line with hline | hline
  · rw [← hline]
  · have hblank : isBlank '\r' = true := by decide
    exact (trim_concat_blank hblank).symm.trans (congrArg trim hline.symm)

theorem head?_trim (h : isBlank c = false) : (trim (c :: rest)).head? = some c := by
  rw [trim, trimStart_cons h, trimEnd, List.reverse_cons, List.dropWhile_append]
  split
  · rw [List.dropWhile_cons_of_neg (by simp [h])]
    rfl
  · simp

theorem trim_eq_self {last : Char} (hfirst : ∀ c ∈ text.head?, isBlank c = false)
    (hlast : isBlank last = false) : trim (text ++ [last]) = text ++ [last] := by
  cases text with
  | nil => rw [List.nil_append, trim, trimStart_cons hlast, ← List.nil_append [last],
      trimEnd_concat hlast]
  | cons c text =>
      rw [trim, List.cons_append, trimStart_cons (hfirst c rfl), ← List.cons_append,
        trimEnd_concat hlast]

theorem trim_append (hrest : isAllBlank rest = true) : trim (text ++ rest) = trim text := by
  induction rest using List.reverseRecOn with
  | nil => rw [List.append_nil]
  | append_singleton rest c ih =>
      rw [isAllBlank, List.all_append, Bool.and_eq_true] at hrest
      rw [← List.append_assoc, trim_concat_blank (by simpa using hrest.2), ih hrest.1]

theorem trim_append_left {indent : List Char} (hindent : isAllBlank indent = true) :
    trim (indent ++ text) = trim text := by
  rw [trim, trimStart, List.dropWhile_append_of_pos fun _ => List.all_eq_true.mp hindent _]
  rfl

theorem exists_eq_append_trim (text : List Char) :
    ∃ indent rest, isAllBlank indent = true ∧ isAllBlank rest = true ∧
      text = indent ++ (trim text ++ rest) := by
  refine ⟨text.takeWhile isBlank, ((trimStart text).reverse.takeWhile isBlank).reverse,
    List.all_takeWhile, ?_, ?_⟩
  · rw [isAllBlank, List.all_reverse]
    exact List.all_takeWhile
  · rw [trim, trimEnd, ← List.reverse_append, List.takeWhile_append_dropWhile,
      List.reverse_reverse, trimStart, List.takeWhile_append_dropWhile]

/-! ## Words -/

structure IsWord (word : List Char) : Prop where
  ne_nil : word ≠ []
  solid : ∀ c ∈ word, isBlank c = false

theorem IsWord.cons (h : IsWord word) (hc : isBlank c = false) : IsWord (c :: word) :=
  ⟨List.cons_ne_nil _ _, List.forall_mem_cons.mpr ⟨hc, h.solid⟩⟩

theorem IsWord.unbroken (h : IsWord word) : Unbroken word :=
  ⟨fun hmem => absurd (h.solid _ hmem) (by decide),
    fun hmem => absurd (h.solid _ hmem) (by decide)⟩

theorem IsWord.head (h : IsWord word) :
    ∃ c rest, word = c :: rest ∧ isBlank c = false := by
  obtain ⟨c, rest, rfl⟩ := List.exists_cons_of_ne_nil h.ne_nil
  exact ⟨c, rest, rfl, h.solid c List.mem_cons_self⟩

theorem IsWord.isAllBlank_append (h : IsWord word) :
    isAllBlank (word ++ rest) = false := by
  obtain ⟨c, letters, rfl, hblank⟩ := h.head
  simp [isAllBlank, hblank]

theorem trim_word (h : IsWord word) : trim word = word := by
  obtain ⟨text, last, rfl⟩ := List.eq_nil_or_concat' word |>.resolve_left h.ne_nil
  exact trim_eq_self (fun c hc => h.solid c (List.mem_append_left _
    (List.mem_of_mem_head? hc))) (h.solid last (by simp))

theorem words_append (h : IsWord word) (hrest : rest.head?.map isBlank ≠ some false) :
    words (word ++ rest) = word :: words rest := by
  obtain ⟨hsome, hsolid⟩ := h
  induction word with
  | nil => exact absurd rfl hsome
  | cons c word ih =>
      rw [List.forall_mem_cons] at hsolid
      rw [List.cons_append, words, if_neg (by simp [hsolid.1])]
      cases word with
      | nil =>
          rw [List.nil_append]
          split
          · rename_i hhead _
            exact absurd hhead hrest
          · rfl
      | cons next word =>
          have hnext : isBlank next = false := hsolid.2 next List.mem_cons_self
          rw [ih (by simp) hsolid.2]
          simp [hnext]

theorem words_intercalate {written : List (List Char)}
    (h : ∀ word ∈ written, IsWord word) :
    words ([' '].intercalate written) = written := by
  induction written with
  | nil => rfl
  | cons word written ih =>
      rw [List.forall_mem_cons] at h
      cases written with
      | nil =>
          rw [List.intercalate_singleton]
          have hword : words (word ++ []) = [word] := words_append h.1 (by simp)
          rwa [List.append_nil] at hword
      | cons next written =>
          rw [List.intercalate_cons_of_ne_nil (by simp), List.append_assoc,
            words_append h.1 (by simp; decide), List.singleton_append, words,
            if_pos (by decide), ih h.2]

theorem words_append_left {gap : List Char} (hgap : isAllBlank gap = true) :
    words (gap ++ rest) = words rest := by
  induction gap with
  | nil => rfl
  | cons c gap ih =>
      rw [isAllBlank, List.all_cons, Bool.and_eq_true] at hgap
      rw [List.cons_append, words, if_pos hgap.1, ih hgap.2]

theorem words_eq_nil_iff : words text = [] ↔ isAllBlank text = true := by
  constructor
  · intro h
    induction text with
    | nil => rfl
    | cons c rest ih =>
        rw [words] at h
        split at h
        · rename_i hc
          rw [isAllBlank, List.all_cons, hc, Bool.true_and]
          exact ih h
        · split at h <;> cases h
  · intro h
    have hwords : words (text ++ []) = words [] := words_append_left h
    rwa [List.append_nil] at hwords

structure IsGap (gap : List Char) : Prop where
  ne_nil : gap ≠ []
  isAllBlank : isAllBlank gap = true

theorem head?_map_isBlank_ne (h : isAllBlank text = true) :
    text.head?.map isBlank ≠ some false := by
  cases text with
  | nil => simp
  | cons c text =>
      rw [isAllBlank, List.all_cons, Bool.and_eq_true] at h
      simp [h.1]

theorem IsGap.words_append {gap : List Char} (hgap : IsGap gap) (h : IsWord word) :
    words (word ++ (gap ++ rest)) = word :: words rest := by
  have hstop : (gap ++ rest).head?.map isBlank ≠ some false := by
    rw [List.head?_append_of_ne_nil _ hgap.ne_nil]
    exact head?_map_isBlank_ne hgap.isAllBlank
  rw [Text.words_append h hstop, words_append_left hgap.isAllBlank]

theorem exists_of_words_eq_cons (h : words text = word :: others) :
    ∃ gap rest, text = gap ++ (word ++ rest) ∧ isAllBlank gap = true ∧ IsWord word ∧
      rest.head?.map isBlank ≠ some false ∧ words rest = others := by
  induction text generalizing word others with
  | nil => cases h
  | cons c text ih =>
      rw [words] at h
      split at h
      · rename_i hc
        obtain ⟨gap, rest, rfl, hgap, hword, hrest, hothers⟩ := ih h
        refine ⟨c :: gap, rest, rfl, ?_, hword, hrest, hothers⟩
        rw [isAllBlank, List.all_cons, hc, Bool.true_and]
        exact hgap
      · rename_i hc
        have hc : isBlank c = false := by simpa using hc
        split at h
        · rename_i letters later hhead hwords
          cases h
          obtain ⟨gap, rest, rfl, hgap, hword, hrest, hothers⟩ := ih hwords
          cases gap with
          | nil => exact ⟨[], rest, rfl, rfl, hword.cons hc, hrest, hothers⟩
          | cons d gap =>
              rw [isAllBlank, List.all_cons, Bool.and_eq_true] at hgap
              simp [hgap.1] at hhead
        · rename_i hsplit
          cases h
          refine ⟨[], text, rfl, rfl, ⟨by simp, by simpa using hc⟩, ?_, rfl⟩
          intro hhead
          cases hwords : words text with
          | nil =>
              rw [words_eq_nil_iff] at hwords
              cases text with
              | nil => cases hhead
              | cons d text =>
                  rw [isAllBlank, List.all_cons, Bool.and_eq_true] at hwords
                  simp [hwords.1] at hhead
          | cons letters later => exact hsplit _ _ hhead hwords

theorem exists_gap_of_words_eq_cons (htext : text.head?.map isBlank ≠ some false)
    (h : words text = word :: others) :
    ∃ gap rest, text = gap ++ (word ++ rest) ∧ IsGap gap ∧ IsWord word ∧
      rest.head?.map isBlank ≠ some false ∧ words rest = others := by
  obtain ⟨gap, rest, rfl, hgap, hword, hrest, hothers⟩ := exists_of_words_eq_cons h
  refine ⟨gap, rest, rfl, ⟨?_, hgap⟩, hword, hrest, hothers⟩
  rintro rfl
  obtain ⟨c, letters, rfl, hc⟩ := hword.head
  exact htext (by simp [hc])

end Cellular.Text
