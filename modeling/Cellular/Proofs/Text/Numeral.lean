import Cellular.Proofs.Text.Words
import Cellular.Text.Numeral
import Mathlib.Algebra.Group.Nat.Defs

/-!
# Numerals that are written and read

A digit string is read as the number it writes, and a number is read back from
its decimal digits, with a minus sign in front of them if it is negative
(`unsigned?_toString`, `signed?_toString`).
-/

namespace Cellular.Text

theorem digits?_eq_some_iff {letters : List Char} {number : Nat} :
    digits? letters = some number ↔
      letters ≠ [] ∧ (∀ c ∈ letters, c.isDigit = true) ∧
        number = digitsValue letters := by
  rw [digits?]
  split
  · rename_i h
    simp only [Bool.or_eq_true, List.isEmpty_iff, Bool.not_eq_true',
      List.all_eq_false] at h
    simp only [reduceCtorEq, false_iff, not_and]
    rintro hne hdigits
    rcases h with rfl | ⟨c, hc, hnot⟩
    · exact absurd rfl hne
    · exact absurd (hdigits c hc) hnot
  · rename_i h
    simp only [Bool.or_eq_true, List.isEmpty_iff, Bool.not_eq_true',
      List.all_eq_false, not_or, not_exists, not_and, not_not] at h
    simp only [Option.some.injEq]
    exact ⟨fun heq => ⟨h.1, h.2, heq.symm⟩, fun heq => heq.2.2.symm⟩

theorem digits?_toString (n : Nat) : digits? (toString n).toList = some n := by
  rw [digits?_eq_some_iff, Nat.toString_eq_repr, Nat.toList_repr]
  refine ⟨Nat.toDigits_ne_nil, ?_, ?_⟩
  · intro c hmem
    exact Nat.isDigit_of_mem_toDigits (by decide) (by decide) hmem
  · have hfold := Nat.ofDigitChars_ten_toDigits (n := n)
    rw [Nat.ofDigitChars_eq_foldl] at hfold
    exact hfold.symm

theorem isDigit_of_mem_toString {n : Nat} {c : Char} (h : c ∈ (toString n).toList) :
    c.isDigit = true :=
  (digits?_eq_some_iff.mp (digits?_toString n)).2.1 c h

theorem isNameChar_of_isDigit {c : Char} (h : c.isDigit = true) :
    isNameChar c = true :=
  isNameChar_iff.mpr (.inr (.inr (.inl (Char.isDigit_iff_toNat.mp h))))

theorem isWord_toString_nat (n : Nat) : IsWord (toString n).toList :=
  ⟨(digits?_eq_some_iff.mp (digits?_toString n)).1, fun _ hmem =>
    isBlank_of_isNameChar (isNameChar_of_isDigit (isDigit_of_mem_toString hmem))⟩

theorem unsigned?_toString {limit n : Nat} (h : n ≤ limit) :
    unsigned? limit (toString n).toList = some n := by
  have hplus : ∀ rest, (toString n).toList ≠ '+' :: rest := fun rest heq =>
    absurd (isDigit_of_mem_toString (heq ▸ List.mem_cons_self)) (by decide)
  simp only [unsigned?, digits?_toString, Option.filter_some]
  rw [if_pos (by simpa using h)]

theorem toString_negSucc (n : Nat) :
    (toString (Int.negSucc n)).toList = '-' :: (toString (n + 1)).toList := by
  simp [toString, Int.repr]

theorem toString_ofNat (n : Nat) :
    toString (n : Int) = toString n := rfl

theorem isWord_toString_int (value : Int) : IsWord (toString value).toList := by
  cases value with
  | ofNat n => exact toString_ofNat n ▸ isWord_toString_nat n
  | negSucc n =>
      rw [toString_negSucc]
      exact (isWord_toString_nat (n + 1)).cons (by decide)

theorem eq_minus_or_isDigit_of_mem_toString {value : Int} {c : Char}
    (h : c ∈ (toString value).toList) : c = '-' ∨ c.isDigit = true := by
  cases value with
  | ofNat n => exact .inr (isDigit_of_mem_toString h)
  | negSucc n =>
      rw [toString_negSucc, List.mem_cons] at h
      exact h.imp_right isDigit_of_mem_toString

theorem signed?_toString {limit : Nat} {value : Int}
    (hlower : -(limit + 1 : Nat) ≤ value) (hupper : value ≤ limit) :
    signed? limit (toString value).toList = some value := by
  cases value with
  | ofNat n =>
      have hminus : ∀ rest, (toString n).toList ≠ '-' :: rest := fun rest heq =>
        absurd (isDigit_of_mem_toString (heq ▸ List.mem_cons_self)) (by decide)
      rw [Int.ofNat_eq_natCast] at hupper ⊢
      rw [toString_ofNat]
      simp only [signed?]
      rw [unsigned?_toString (by omega)]
      rfl
  | negSucc n =>
      rw [toString_negSucc, signed?, digits?_toString, Option.filter_some,
        if_pos (by simp; omega)]
      rfl

theorem digitValue_le_of_isDigit {c : Char} (h : c.isDigit = true) : digitValue c ≤ 9 := by
  obtain ⟨-, hupper⟩ := Char.isDigit_iff_toNat.mp h
  have hzero : '0'.toNat = 48 := rfl
  have hnine : '9'.toNat = 57 := rfl
  unfold digitValue
  omega

theorem digitsValue_lt {letters : List Char}
    (h : ∀ c ∈ letters, c.isDigit = true) : digitsValue letters < 10 ^ letters.length := by
  -- The value so far is shifted by a place for every letter that is to come.
  have hfold : ∀ value, letters.foldl (fun value c => 10 * value + digitValue c) value <
      (value + 1) * 10 ^ letters.length := by
    induction letters with
    | nil => simp
    | cons c letters ih =>
        intro value
        rw [List.forall_mem_cons] at h
        have hdigit := digitValue_le_of_isDigit h.1
        calc letters.foldl (fun value c => 10 * value + digitValue c)
              (10 * value + digitValue c)
            < (10 * value + digitValue c + 1) * 10 ^ letters.length := ih h.2 _
          _ ≤ (10 * (value + 1)) * 10 ^ letters.length :=
              Nat.mul_le_mul_right _ (by omega)
          _ = (value + 1) * 10 ^ (letters.length + 1) := by
              rw [Nat.pow_succ]
              ac_rfl
  simpa [digitsValue] using hfold 0

theorem length_toString_digitsValue_le {letters : List Char} (hsome : letters ≠ [])
    (h : ∀ c ∈ letters, c.isDigit = true) :
    (toString (digitsValue letters)).toList.length ≤ letters.length := by
  rw [Nat.toString_eq_repr, Nat.toList_repr]
  exact (Nat.length_toDigits_le_iff (by decide) (List.length_pos_iff.mpr hsome)).mpr
    (digitsValue_lt h)

/-! ## Numerals with a sign -/

/-- A numeral with a sign or without one, and its value: at most `limit`, and at least
`-(limit + 1)`. -/
inductive IsNumeral (limit : Nat) : List Char → Int → Prop
  | plain {digits : List Char} (hsome : digits ≠ [])
      (hdigits : ∀ c ∈ digits, c.isDigit = true) (hvalue : digitsValue digits ≤ limit) :
      IsNumeral limit digits (digitsValue digits)
  | plus {digits : List Char} (hsome : digits ≠ [])
      (hdigits : ∀ c ∈ digits, c.isDigit = true) (hvalue : digitsValue digits ≤ limit) :
      IsNumeral limit ('+' :: digits) (digitsValue digits)
  | minus {digits : List Char} (hsome : digits ≠ [])
      (hdigits : ∀ c ∈ digits, c.isDigit = true) (hvalue : digitsValue digits ≤ limit + 1) :
      IsNumeral limit ('-' :: digits) (-(digitsValue digits : Int))

variable {limit : Nat} {letters word : List Char} {value : Int}

theorem filter_digits?_eq_some_iff {number : Nat} :
    (digits? letters).filter (· ≤ limit) = some number ↔
      letters ≠ [] ∧ (∀ c ∈ letters, c.isDigit = true) ∧ digitsValue letters ≤ limit ∧
        number = digitsValue letters := by
  rw [Option.filter_eq_some_iff, digits?_eq_some_iff, decide_eq_true_iff]
  constructor
  · rintro ⟨⟨hsome, hdigits, rfl⟩, hle⟩
    exact ⟨hsome, hdigits, hle, rfl⟩
  · rintro ⟨hsome, hdigits, hle, rfl⟩
    exact ⟨⟨hsome, hdigits, rfl⟩, hle⟩

theorem IsNumeral.isWord (h : IsNumeral limit word value) : IsWord word := by
  have hsolid : ∀ {digits : List Char}, (∀ c ∈ digits, c.isDigit = true) →
      ∀ c ∈ digits, isBlank c = false :=
    fun hdigits c hmem => isBlank_of_isNameChar (isNameChar_of_isDigit (hdigits c hmem))
  cases h with
  | plain hsome hdigits => exact ⟨hsome, hsolid hdigits⟩
  | plus hsome hdigits => exact .cons ⟨hsome, hsolid hdigits⟩ (by decide)
  | minus hsome hdigits => exact .cons ⟨hsome, hsolid hdigits⟩ (by decide)

theorem IsNumeral.bounds (h : IsNumeral limit word value) :
    -(limit + 1 : Int) ≤ value ∧ value ≤ limit := by
  cases h with
  | plain => omega
  | plus => omega
  | minus => omega

theorem isNumeral_of_signed? (h : signed? limit word = some value) :
    IsNumeral limit word value := by
  rw [signed?.eq_def] at h
  split at h
  · obtain ⟨number, hnumber, rfl⟩ := Option.map_eq_some_iff.mp h
    obtain ⟨digits, hdigits, hcast⟩ := Option.bind_eq_some_iff.mp hnumber
    obtain ⟨hsome, hdigit, hle, rfl⟩ := filter_digits?_eq_some_iff.mp hdigits
    cases hcast
    exact .minus hsome hdigit hle
  · obtain ⟨number, hnumber, rfl⟩ := Option.map_eq_some_iff.mp h
    obtain ⟨digits, hdigits, hcast⟩ := Option.bind_eq_some_iff.mp hnumber
    cases hcast
    rw [unsigned?.eq_def] at hdigits
    split at hdigits
    · obtain ⟨hsome, hdigit, hle, rfl⟩ := filter_digits?_eq_some_iff.mp hdigits
      exact .plus hsome hdigit hle
    · obtain ⟨hsome, hdigit, hle, rfl⟩ := filter_digits?_eq_some_iff.mp hdigits
      exact .plain hsome hdigit hle

theorem IsNumeral.signed?_eq (h : IsNumeral limit word value) :
    signed? limit word = some value := by
  cases h with
  | plain hsome hdigits hvalue =>
      have hnumber := filter_digits?_eq_some_iff.mpr ⟨hsome, hdigits, hvalue, rfl⟩
      -- No sign is a digit, so the letters are read as they stand.
      have hsign : ∀ sign ∈ ['-', '+'], ∀ rest, word ≠ sign :: rest := by
        rintro sign hsign rest rfl
        have hdigit := hdigits sign List.mem_cons_self
        simp only [List.mem_cons, List.not_mem_nil, or_false] at hsign
        rcases hsign with rfl | rfl <;> exact absurd hdigit (by decide)
      rw [signed?.eq_def]
      split
      · exact absurd rfl (hsign '-' (by simp) _)
      · rw [unsigned?.eq_def]
        split
        · exact absurd rfl (hsign '+' (by simp) _)
        · rw [hnumber]
          rfl
  | plus hsome hdigits hvalue =>
      have hnumber := filter_digits?_eq_some_iff.mpr ⟨hsome, hdigits, hvalue, rfl⟩
      simp [signed?, unsigned?, hnumber]
  | minus hsome hdigits hvalue =>
      have hnumber := filter_digits?_eq_some_iff.mpr ⟨hsome, hdigits, hvalue, rfl⟩
      simp [signed?, hnumber]

theorem signed?_eq_some_iff :
    signed? limit word = some value ↔ IsNumeral limit word value :=
  ⟨isNumeral_of_signed?, IsNumeral.signed?_eq⟩

end Cellular.Text
