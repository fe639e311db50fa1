import Cellular.Proofs.Rule.Scanning

/-!
# Characters outside comments

A comment is open behind a text if a comment mark stands in its last line
(`inComment_iff`).  The tokens that are no words are the characters outside comments
that are neither blank nor part of a word (`mem_scan_iff`); so the illegal tokens are
the illegal characters outside comments, and the semicolons are the semicolons outside
comments (`countP_semicolon`).
-/

namespace Cellular.Token

open Text

variable {comment : Bool} {offset place length : Nat} {text : List Char} {c : Char}
  {kind : TokenKind} {tokens : List Token}

/-- A comment mark stands in the last line of the text. -/
def InComment (text : List Char) : Prop :=
  commentMark ∈ text.rtakeWhile fun c => c != '\n'

instance (text : List Char) : Decidable (InComment text) :=
  inferInstanceAs (Decidable (commentMark ∈ _))

theorem inComment_iff : InComment text ↔ commentAfter false text = true := by
  induction text using List.reverseRecOn with
  | nil => simp [InComment]
  | append_singleton text c ih =>
      have hmark : commentMark ≠ '\n' := by decide
      have hlast : commentAfter false (text ++ [c]) =
          if commentAfter false text then c != '\n' else c = commentMark := by
        rw [commentAfter_append]
        rfl
      rw [hlast, InComment, List.rtakeWhile_concat]
      rw [InComment] at ih
      by_cases hline : c = '\n'
      · subst hline
        simp [hmark.symm]
      · rw [if_pos (by simpa using hline), List.mem_append, ih]
        by_cases hopen : commentAfter false text = true
        · simp [hopen, hline]
        · simp [hopen, eq_comm]

structure IsStray (c : Char) : Prop where
  blank : isBlank c = false
  name : isNameChar c = false
  mark : c ≠ commentMark
  symbol : c ∉ symbols

def kindAlone? (c : Char) : Option TokenKind :=
  if c = commentMark ∨ isBlank c ∨ isNameChar c then none
  else some (if c ∈ symbols then .symbol c else .illegal c)

theorem mem_consLetter_iff {letter : Char} (hkind : ∀ letters, kind ≠ .word letters) :
    ⟨kind, place, length⟩ ∈ consLetter offset letter tokens ↔
      ⟨kind, place, length⟩ ∈ tokens := by
  have hword : ∀ letters start size,
      (⟨kind, place, length⟩ : Token) ≠ ⟨.word letters, start, size⟩ := by
    intro letters start size heq
    exact hkind letters (Token.mk.inj heq).1
  unfold consLetter
  split
  · split <;> simp [hword]
  · simp [hword]

theorem mem_scanFrom_cons_iff (hkind : ∀ letters, kind ≠ .word letters) :
    ⟨kind, place, length⟩ ∈ scanFrom comment offset (c :: text) ↔
      (comment = false ∧ kindAlone? c = some kind ∧ place = offset ∧ length = 1) ∨
        ⟨kind, place, length⟩ ∈
          scanFrom (if comment then c != '\n' else c = commentMark) (offset + 1) text := by
  rw [scanFrom]
  by_cases hcomment : comment = true
  · simp [hcomment]
  · by_cases hmark : c = commentMark
    · simp [hcomment, hmark, kindAlone?]
    · by_cases hblank : isBlank c = true
      · simp [hcomment, hmark, hblank, kindAlone?]
      · by_cases hname : isNameChar c = true
        · simp [hcomment, hmark, hblank, hname, kindAlone?, mem_consLetter_iff hkind]
        · simp [hcomment, hmark, hblank, hname, kindAlone?, eq_comm]

theorem mem_scanFrom_iff (hkind : ∀ letters, kind ≠ .word letters) :
    ⟨kind, place, length⟩ ∈ scanFrom comment offset text ↔
      ∃ index, commentAfter comment (text.take index) = false ∧
        (∃ c, text[index]? = some c ∧ kindAlone? c = some kind) ∧
        place = offset + index ∧ length = 1 := by
  induction text generalizing comment offset with
  | nil => simp [scanFrom]
  | cons c rest ih =>
      rw [mem_scanFrom_cons_iff hkind, ih]
      conv_rhs => rw [← Nat.or_exists_add_one]
      simp [commentAfter_cons, Nat.add_assoc, Nat.add_comm 1]

theorem mem_scan_iff (hkind : ∀ letters, kind ≠ .word letters) :
    ⟨kind, place, length⟩ ∈ scan text ↔
      ¬InComment (text.take place) ∧
        (∃ c, text[place]? = some c ∧ kindAlone? c = some kind) ∧ length = 1 := by
  rw [scan, mem_scanFrom_iff hkind, inComment_iff]
  simp only [Bool.not_eq_true, Nat.zero_add]
  constructor
  · rintro ⟨_, houtside, halone, rfl, hlength⟩
    exact ⟨houtside, halone, hlength⟩
  · rintro ⟨houtside, halone, hlength⟩
    exact ⟨place, houtside, halone, rfl, hlength⟩

theorem kindAlone?_eq_illegal_iff {character : Char} :
    kindAlone? c = some (.illegal character) ↔ c = character ∧ IsStray c := by
  rw [kindAlone?]
  constructor
  · intro h
    split at h
    · cases h
    · rename_i hplain
      split at h
      · cases h
      · rename_i hsymbol
        cases h
        exact ⟨rfl, by simp_all, by simp_all, by simp_all, hsymbol⟩
  · rintro ⟨rfl, hblank, hname, hmark, hsymbol⟩
    simp [hblank, hname, hmark, hsymbol]

theorem kindAlone?_eq_semicolon_iff :
    kindAlone? c = some (.symbol ';') ↔ c = ';' := by
  constructor
  · intro h
    rw [kindAlone?] at h
    split at h
    · cases h
    · split at h <;> cases h
      rfl
  · rintro rfl
    decide

/-! ## Illegal characters and semicolons -/

theorem mem_illegalities_iff {diagnostic : Diagnostic} :
    diagnostic ∈ (scan text).filterMap illegality? ↔
      ∃ c, diagnostic.kind = .illegalCharacter c ∧
        text[diagnostic.offset]? = some c ∧
        ¬InComment (text.take diagnostic.offset) ∧ IsStray c := by
  have htoken : ∀ token : Token, token.illegality? = some diagnostic ↔
      ∃ c, token = ⟨.illegal c, diagnostic.offset, token.length⟩ ∧
        diagnostic.kind = .illegalCharacter c := by
    rintro ⟨kind, offset, length⟩
    obtain ⟨place, complaint⟩ := diagnostic
    cases kind <;> simp [illegality?, and_comm, eq_comm]
  simp only [List.mem_filterMap, htoken]
  constructor
  · rintro ⟨token, hmem, c, htoken, hkind⟩
    rw [htoken, mem_scan_iff (by simp)] at hmem
    obtain ⟨houtside, ⟨other, hother, halone⟩, -⟩ := hmem
    obtain ⟨rfl, hstray⟩ := kindAlone?_eq_illegal_iff.mp halone
    exact ⟨other, hkind, hother, houtside, hstray⟩
  · rintro ⟨c, hkind, hc, houtside, hstray⟩
    refine ⟨⟨.illegal c, diagnostic.offset, 1⟩, ?_, c, rfl, hkind⟩
    rw [mem_scan_iff (by simp)]
    exact ⟨houtside, ⟨c, hc, kindAlone?_eq_illegal_iff.mpr ⟨rfl, hstray⟩⟩, rfl⟩

def IsSemicolonAt (text : List Char) (place : Nat) : Prop :=
  text[place]? = some ';' ∧ ¬InComment (text.take place)

instance (text : List Char) (place : Nat) : Decidable (IsSemicolonAt text place) :=
  inferInstanceAs (Decidable (_ ∧ _))

theorem exists_semicolon_iff :
    (∃ token ∈ scan text, token.isSymbol ';' = true ∧ token.offset = place) ↔
      IsSemicolonAt text place := by
  constructor
  · rintro ⟨⟨kind, offset, length⟩, hmem, hkind, rfl⟩
    obtain rfl : kind = .symbol ';' := by simpa [isSymbol] using hkind
    obtain ⟨houtside, ⟨c, hc, halone⟩, -⟩ := (mem_scan_iff (by simp)).mp hmem
    exact ⟨kindAlone?_eq_semicolon_iff.mp halone ▸ hc, houtside⟩
  · rintro ⟨hc, houtside⟩
    refine ⟨⟨.symbol ';', place, 1⟩, ?_, by simp [isSymbol], rfl⟩
    rw [mem_scan_iff (by simp)]
    exact ⟨houtside, ⟨';', hc, kindAlone?_eq_semicolon_iff.mpr rfl⟩, rfl⟩

theorem countP_semicolon (text : List Char) :
    (scan text).countP (·.isSymbol ';') =
      (List.range text.length).countP (IsSemicolonAt text) := by
  have hplaces : (((scan text).filter (·.isSymbol ';')).map offset).Perm
      ((List.range text.length).filter (IsSemicolonAt text)) := by
    rw [List.perm_ext_iff_of_nodup]
    · intro place
      have hinside : IsSemicolonAt text place → place < text.length := by
        rintro ⟨hc, -⟩
        exact (List.getElem?_eq_some_iff.mp hc).1
      simp only [List.mem_map, List.mem_filter, and_assoc, exists_semicolon_iff,
        List.mem_range, decide_eq_true_eq]
      exact (and_iff_right_of_imp hinside).symm
    · have hsorted := (pairwise_scan text).filter (·.isSymbol ';')
      exact List.pairwise_map.mpr (hsorted.imp Nat.ne_of_lt)
    · exact List.nodup_range.filter _
  rw [List.countP_eq_length_filter, List.countP_eq_length_filter, ← hplaces.length_eq,
    List.length_map]

end Cellular.Token
