/-!
# Letters of names

Names are made of ASCII letters, digits and underscores, and the case of a
letter never matters: names are compared in upper case.  Characters outside
ASCII have no case here.
-/

namespace Cellular.Text

def isNameChar (c : Char) : Bool := c.isAlphanum || c = '_'

def upperCase (text : String) : String := text.map Char.toUpper

theorem isNameChar_iff {c : Char} :
    isNameChar c = true ↔
      (65 ≤ c.toNat ∧ c.toNat ≤ 90) ∨ (97 ≤ c.toNat ∧ c.toNat ≤ 122) ∨
        (48 ≤ c.toNat ∧ c.toNat ≤ 57) ∨ c.toNat = 95 := by
  have hupper : c.isUpper = true ↔ 65 ≤ c.toNat ∧ c.toNat ≤ 90 :=
    decide_eq_true_iff.trans
      (and_congr UInt32.le_iff_toNat_le UInt32.le_iff_toNat_le)
  have hlower : c.isLower = true ↔ 97 ≤ c.toNat ∧ c.toNat ≤ 122 :=
    (Bool.and_eq_true_iff.trans
      (and_congr decide_eq_true_iff decide_eq_true_iff)).trans
      (and_congr UInt32.le_iff_toNat_le UInt32.le_iff_toNat_le)
  have hdigit : c.isDigit = true ↔ 48 ≤ c.toNat ∧ c.toNat ≤ 57 :=
    Char.isDigit_iff_toNat
  have hunderscore : c = '_' ↔ c.toNat = 95 := Char.toNat_inj.symm
  change (((c.isUpper || c.isLower) || c.isDigit) || decide (c = '_')) = true ↔ _
  rw [Bool.or_eq_true, Bool.or_eq_true, Bool.or_eq_true, hupper, hlower, hdigit,
    decide_eq_true_iff, hunderscore, or_assoc, or_assoc]

theorem toNat_toUpper (c : Char) :
    c.toUpper.toNat =
      if 97 ≤ c.toNat ∧ c.toNat ≤ 122 then c.toNat - 32 else c.toNat := by
  have hlower : 'a'.val ≤ c.val ∧ c.val ≤ 'z'.val ↔
      97 ≤ c.toNat ∧ c.toNat ≤ 122 :=
    and_congr UInt32.le_iff_toNat_le UInt32.le_iff_toNat_le
  split
  · rename_i h
    have hupper : c.toUpper.val = c.val + ('A'.val - 'a'.val) := by
      delta Char.toUpper
      rw [dif_pos (hlower.mpr h)]
    have hshift : ('A'.val - 'a'.val).toNat = 4294967264 := by decide
    rw [← Char.toNat_val, hupper, UInt32.toNat_add, hshift, Char.toNat_val]
    omega
  · rename_i h
    delta Char.toUpper
    rw [dif_neg (mt hlower.mp h)]

theorem toUpper_toUpper (c : Char) : c.toUpper.toUpper = c.toUpper := by
  have hupper : ¬(97 ≤ c.toUpper.toNat ∧ c.toUpper.toNat ≤ 122) := by
    rw [toNat_toUpper]
    split <;> omega
  rw [← Char.toNat_inj, toNat_toUpper c.toUpper, if_neg hupper]

theorem isNameChar_toUpper {c : Char} (h : isNameChar c = true) :
    isNameChar c.toUpper = true := by
  rw [isNameChar_iff] at h ⊢
  rw [toNat_toUpper]
  split <;> omega

end Cellular.Text
