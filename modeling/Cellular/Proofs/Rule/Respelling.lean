import Cellular.Proofs.Rule.Comments
import Mathlib.Logic.Relation

/-!
# Other spellings of the same tokens

Outside comments a letter may be written in the other case, and where no word goes on a
blank or a whole comment may be put in or taken out (`Edit`).  A text respells another if
such edits lead from one to the other.  The scanner then finds the same kinds of tokens
in both, in the same order (`Respells.map_kind_scan`).
-/

namespace Cellular

open Text

theorem Text.eq_or_isNameChar_of_toUpper_eq {c d : Char} (h : c.toUpper = d.toUpper) :
    c = d ∨ isNameChar c = true ∧ isNameChar d = true := by
  have hcode := congrArg Char.toNat h
  rw [toNat_toUpper, toNat_toUpper] at hcode
  rw [isNameChar_iff, isNameChar_iff, ← Char.toNat_inj]
  split at hcode <;> split at hcode <;> omega

namespace Token

variable {comment : Bool} {offset : Nat} {first second front back filler : List Char}

/-! ## What stands between tokens -/

inductive Filler : List Char → Prop
  | blank {c : Char} (h : isBlank c = true) : Filler [c]
  | comment {text : List Char} (h : '\n' ∉ text) :
      Filler (commentMark :: (text ++ ['\n']))

theorem Filler.apart_append (h : Filler filler) (back : List Char) :
    Apart (filler ++ back) := by
  cases h with
  | blank hblank =>
      refine apart_cons ?_
      by_contra hname
      simp [isBlank_of_isNameChar (by simpa using hname)] at hblank
  | comment => exact apart_cons (by decide)

theorem scanFrom_comment {text : List Char} (h : '\n' ∉ text) (offset : Nat)
    (back : List Char) :
    scanFrom true offset (text ++ '\n' :: back) =
      scanFrom false (offset + text.length + 1) back := by
  induction text generalizing offset with
  | nil => rfl
  | cons c rest ih =>
      rw [List.mem_cons, not_or] at h
      have hopen : (c != '\n') = true := by simpa using Ne.symm h.1
      rw [List.cons_append, scanFrom, if_pos rfl, hopen, ih h.2, List.length_cons]
      congr 1
      omega

theorem Filler.scanFrom_append (h : Filler filler) (offset : Nat) (back : List Char) :
    scanFrom false offset (filler ++ back) =
      scanFrom false (offset + filler.length) back := by
  cases h with
  | blank hblank =>
      refine scanFrom_blank hblank ?_ offset back
      rintro rfl
      exact absurd hblank (by decide)
  | @comment text hline =>
      have hmark : commentMark :: (text ++ ['\n']) ++ back =
          commentMark :: (text ++ '\n' :: back) := by simp
      rw [hmark, scanFrom, if_neg (by decide), if_pos rfl, scanFrom_comment hline]
      congr 1
      simp only [List.length_cons, List.length_append, List.length_nil]
      omega

/-! ## Cuts that split no word -/

/-- No word goes on from the first text to the second. -/
def Uncut (front back : List Char) : Prop :=
  (∀ c ∈ front.getLast?, isNameChar c = false) ∨ Apart back

theorem scanFrom_cons_of_not_name {c : Char} (h : isNameChar c = false)
    (comment : Bool) (offset : Nat) (back : List Char) :
    scanFrom comment offset (c :: back) =
      scanFrom comment offset [c] ++
        scanFrom (commentAfter comment [c]) (offset + 1) back := by
  rw [commentAfter_cons, commentAfter_nil, scanFrom, scanFrom]
  by_cases hcomment : comment = true
  · simp [hcomment, scanFrom]
  · by_cases hmark : c = commentMark
    · simp [hcomment, hmark, scanFrom]
    · by_cases hblank : isBlank c = true
      · simp [hcomment, hmark, hblank, scanFrom]
      · simp [hcomment, hmark, hblank, h, scanFrom]

theorem scanFrom_append_of_uncut (h : Uncut front back) (comment : Bool) (offset : Nat) :
    scanFrom comment offset (front ++ back) =
      scanFrom comment offset front ++
        scanFrom (commentAfter comment front) (offset + front.length) back := by
  rcases h with hlast | hapart
  · cases front using List.reverseRecOn with
    | nil => rfl
    | append_singleton front c =>
        have hname : isNameChar c = false := hlast c (by simp)
        -- The last character of the front is no part of a word, so cut before it too.
        rw [List.append_assoc, List.singleton_append,
          scanFrom_append (apart_cons hname), scanFrom_cons_of_not_name hname,
          scanFrom_append (apart_cons hname), commentAfter_append, List.length_append,
          List.append_assoc]
        rfl
  · exact scanFrom_append hapart comment offset front

/-! ## Letter case -/

theorem scanFrom_recase {c d : Char} (hcase : c.toUpper = d.toUpper)
    (houtside : commentAfter comment front = false) (offset : Nat) (back : List Char) :
    scanFrom comment offset (front ++ c :: back) =
      scanFrom comment offset (front ++ d :: back) := by
  rcases eq_or_isNameChar_of_toUpper_eq hcase with rfl | ⟨hc, hd⟩
  · rfl
  · induction front generalizing comment offset with
    | nil =>
        rw [commentAfter_nil] at houtside
        subst houtside
        simp only [List.nil_append, scanFrom_letter hc, scanFrom_letter hd, consLetter,
          hcase]
    | cons first rest ih =>
        rw [commentAfter_cons] at houtside
        rw [List.cons_append, List.cons_append, scanFrom, scanFrom]
        by_cases hcomment : comment = true
        · simp only [hcomment, if_true] at houtside ⊢
          exact ih houtside _
        · by_cases hmark : first = commentMark
          · simp only [hcomment, hmark, if_true, decide_true] at houtside ⊢
            exact ih houtside _
          · simp only [hcomment, hmark, decide_false, Bool.false_eq_true, if_false]
              at houtside ⊢
            rw [ih houtside]

/-! ## Edits -/

/-- A change of a text that leaves its tokens as they are: a letter in the other case, or
one more blank or comment. -/
inductive Edit : List Char → List Char → Prop
  | recase (front back : List Char) {c d : Char} (houtside : ¬InComment front)
      (hcase : c.toUpper = d.toUpper) : Edit (front ++ c :: back) (front ++ d :: back)
  | insert (front back : List Char) {filler : List Char} (houtside : ¬InComment front)
      (hfiller : Filler filler) (huncut : Uncut front back) :
      Edit (front ++ back) (front ++ (filler ++ back))

theorem Edit.map_kind_scan (h : Edit first second) :
    (scan first).map kind = (scan second).map kind := by
  cases h with
  | recase front back houtside hcase =>
      rw [inComment_iff, Bool.not_eq_true] at houtside
      rw [scan, scan, scanFrom_recase hcase houtside]
  | @insert front back filler houtside hfiller huncut =>
      rw [inComment_iff, Bool.not_eq_true] at houtside
      have hsecond : scan (front ++ (filler ++ back)) =
          scanFrom false 0 front ++
            (scanFrom false (0 + front.length) back).map
              (relocate (· + filler.length)) := by
        rw [scan, Token.scanFrom_append (hfiller.apart_append back), houtside,
          hfiller.scanFrom_append, scanFrom_shift]
      rw [hsecond, scan, scanFrom_append_of_uncut huncut, houtside, List.map_append,
        List.map_append, List.map_map]
      rfl

/-- Edits in a row, done or undone, lead from one text to the other. -/
def Respells (first second : List Char) : Prop :=
  Relation.EqvGen Edit first second

theorem Respells.map_kind_scan (h : Respells first second) :
    (scan first).map kind = (scan second).map kind := by
  induction h with
  | rel _ _ hedit => exact hedit.map_kind_scan
  | refl => rfl
  | symm _ _ _ ih => exact ih.symm
  | trans _ _ _ _ _ hfirst hsecond => exact hfirst.trans hsecond

end Token

end Cellular
