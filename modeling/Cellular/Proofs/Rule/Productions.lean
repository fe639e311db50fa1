import Cellular.Proofs.Rule.Cursor
import Cellular.Proofs.Rule.Grammar
import Cellular.Proofs.State.Names
import Cellular.Proofs.Text.Numeral

/-!
# Productions without lists

The parser of a state, a direction, a sign, a number and a count condition reads
the relation of the grammar.  A sign and a number may be missing, so what stands
ahead decides about them.
-/

namespace Cellular

open Text

namespace Compiler

variable {compiler : Compiler} {before after : Cursor}

theorem reads_state (invalid : String → DiagnosticKind) :
    Reads compiler.limits (compiler.state invalid) (Grammar.State compiler) := by
  intro before name after
  constructor
  · intro h
    rw [state] at h
    cases hword : before.word? with
    | none => simp [hword, Cursor.fault] at h
    | some letters =>
        have hkind := Cursor.word?_eq_some_iff.mp hword
        simp only [hword] at h
        split at h
        · rename_i known hknown
          obtain ⟨hname, hdeclared⟩ :=
            StateUniverse.bind_name?_id?_eq_some_iff.mp hknown
          split at h
          · rename_i hlength
            obtain ⟨rfl, hpasses⟩ := (Cursor.take_bind_eq_ok_iff hkind).mp h
            exact ⟨_, hpasses, .word hname hdeclared hlength⟩
          · cases h
        · cases h
  · rintro ⟨_, hpasses, ⟨hname, hdeclared, hlength⟩⟩
    have hword := Cursor.word?_eq_some_iff.mpr hpasses.kind?
    have hknown := StateUniverse.bind_name?_id?_eq_some_iff.mpr
      ⟨hname, hdeclared⟩
    simp only [state, hword, hknown, hlength, if_true]
    exact (Cursor.take_bind_eq_ok_iff hpasses.kind?).mpr ⟨rfl, hpasses⟩

theorem reads_direction (what : Expected) :
    Reads compiler.limits (compiler.direction what)
      (Grammar.Toward compiler) := by
  intro before direction after
  constructor
  · intro h
    rw [Compiler.direction] at h
    cases hword : before.word? with
    | none => simp [hword, Cursor.unexpected, Cursor.fault] at h
    | some letters =>
        have hkind := Cursor.word?_eq_some_iff.mp hword
        simp only [hword] at h
        split at h
        · rename_i read hparse
          split at h
          · rename_i hconfigured
            obtain ⟨rfl, hpasses⟩ := (Cursor.take_bind_eq_ok_iff hkind).mp h
            have hname := Direction.parse?_eq_some_iff.mp hparse
            rw [String.toList_ofList] at hname
            exact ⟨_, hpasses, .word hname hconfigured⟩
          · cases h
        · split at h <;> cases h
  · rintro ⟨_, hpasses, @⟨letters, _, hname, hconfigured⟩⟩
    have hword := Cursor.word?_eq_some_iff.mpr hpasses.kind?
    have hparse : Direction.parse? (String.ofList letters) = some direction := by
      rw [Direction.parse?_eq_some_iff, String.toList_ofList, hname]
    simp only [Compiler.direction, hword, hparse, hconfigured, if_true]
    exact (Cursor.take_bind_eq_ok_iff hpasses.kind?).mpr ⟨rfl, hpasses⟩

theorem comparator_eq_ok_iff {comparator : Comparator} :
    compiler.comparator before = .ok (comparator, after) ↔
      ∃ kinds, before.Passes compiler.limits kinds after ∧
        Grammar.Sign kinds comparator ∧
        (kinds = [] → before.kind? ≠ some (.symbol '+') ∧
          before.kind? ≠ some (.symbol '-')) := by
  rw [Compiler.comparator]
  constructor
  · intro h
    split at h
    · rename_i hplus
      have hkind := Cursor.atSymbol_iff.mp hplus
      obtain ⟨rfl, hpasses⟩ := (Cursor.take_bind_eq_ok_iff hkind).mp h
      exact ⟨_, hpasses, .plus, by simp⟩
    · rename_i hplus
      split at h
      · rename_i hminus
        have hkind := Cursor.atSymbol_iff.mp hminus
        obtain ⟨rfl, hpasses⟩ := (Cursor.take_bind_eq_ok_iff hkind).mp h
        exact ⟨_, hpasses, .minus, by simp⟩
      · rename_i hminus
        cases h
        rw [Cursor.atSymbol_iff] at hplus hminus
        exact ⟨[], Cursor.passes_nil_iff.mpr rfl, .none, fun _ => ⟨hplus, hminus⟩⟩
  · rintro ⟨_, hpasses, hsign, hbare⟩
    cases hsign with
    | none =>
        obtain ⟨hplus, hminus⟩ := hbare rfl
        rw [Ne, ← Cursor.atSymbol_iff] at hplus hminus
        rw [Cursor.passes_nil_iff] at hpasses
        rw [if_neg hplus, if_neg hminus, hpasses]
    | plus =>
        rw [if_pos (Cursor.atSymbol_iff.mpr hpasses.kind?)]
        exact (Cursor.take_bind_eq_ok_iff hpasses.kind?).mpr ⟨rfl, hpasses⟩
    | minus =>
        have hplus : ¬before.atSymbol '+' = true := by
          rw [Cursor.atSymbol_iff, hpasses.kind?]
          simp
        rw [if_neg hplus, if_pos (Cursor.atSymbol_iff.mpr hpasses.kind?)]
        exact (Cursor.take_bind_eq_ok_iff hpasses.kind?).mpr ⟨rfl, hpasses⟩

theorem count_eq_ok_iff {number : Nat} :
    compiler.count before = .ok (number, after) ↔
      ∃ kinds, before.Passes compiler.limits kinds after ∧
        Grammar.Count kinds number ∧
        (kinds = [] → before.kind? = some (.symbol '#')) := by
  rw [Compiler.count]
  constructor
  · intro h
    cases hword : before.word? with
    | none =>
        simp only [hword] at h
        split at h
        · rename_i hhash
          cases h
          exact ⟨[], Cursor.passes_nil_iff.mpr rfl, .bare,
            fun _ => Cursor.atSymbol_iff.mp hhash⟩
        · cases h
    | some letters =>
        have hkind := Cursor.word?_eq_some_iff.mp hword
        simp only [hword] at h
        split at h
        · rename_i value hdigits
          obtain ⟨hne, hall, rfl⟩ := digits?_eq_some_iff.mp hdigits
          split at h
          · rename_i hbound
            obtain ⟨rfl, hpasses⟩ := (Cursor.take_bind_eq_ok_iff hkind).mp h
            exact ⟨_, hpasses, .digits hne hall hbound, by simp⟩
          · cases h
        · cases h
  · rintro ⟨_, hpasses, hcount, hbare⟩
    cases hcount with
    | bare =>
        have hhash := hbare rfl
        have hword : before.word? = none := by
          rw [Option.eq_none_iff_forall_ne_some]
          intro letters hletters
          rw [Cursor.word?_eq_some_iff, hhash] at hletters
          cases hletters
        rw [Cursor.passes_nil_iff] at hpasses
        rw [hword]
        simp only [Cursor.atSymbol_iff.mpr hhash, if_true, hpasses]
    | @digits letters hne hall hbound =>
        have hword := Cursor.word?_eq_some_iff.mpr hpasses.kind?
        have hdigits := digits?_eq_some_iff.mpr ⟨hne, hall, rfl⟩
        simp only [hword, hdigits, hbound, if_true]
        exact (Cursor.take_bind_eq_ok_iff hpasses.kind?).mpr ⟨rfl, hpasses⟩

theorem reads_condition :
    Reads compiler.limits compiler.condition (Grammar.Condition compiler) := by
  intro before value after
  simp only [condition, bind_eq_ok_iff, Prod.exists]
  constructor
  · rintro ⟨comparator, afterSign, hsign, number, afterCount, hcount,
      afterHash, hhash, name, last, hstate, hlast⟩
    cases hlast
    obtain ⟨signs, hsigns, hsign, -⟩ := comparator_eq_ok_iff.mp hsign
    obtain ⟨numbers, hnumbers, hcount, -⟩ := count_eq_ok_iff.mp hcount
    rw [Cursor.takeSymbol_eq_ok_iff] at hhash
    obtain ⟨names, hnames, hname⟩ := (reads_state _ _ _ _).mp hstate
    have hcounted := Cursor.passes_append_iff.mpr
      ⟨_, hnumbers, Cursor.passes_cons_iff.mpr ⟨_, hhash, hnames⟩⟩
    exact ⟨_, Cursor.passes_append_iff.mpr ⟨_, hsigns, hcounted⟩,
      .mk hsign hcount hname⟩
  · rintro ⟨_, hpasses, @⟨signs, numbers, names, comparator, number, name,
      hsign, hcount, hname⟩⟩
    obtain ⟨afterSign, hsigns, hcounted⟩ := Cursor.passes_append_iff.mp hpasses
    obtain ⟨afterCount, hnumbers, hrest⟩ := Cursor.passes_append_iff.mp hcounted
    obtain ⟨afterHash, hhash, hnames⟩ := Cursor.passes_cons_iff.mp hrest
    -- What follows a sign is a number or the hash, and neither is a sign.
    have hbareSign : signs = [] → before.kind? ≠ some (.symbol '+') ∧
        before.kind? ≠ some (.symbol '-') := by
      rintro rfl
      rw [Cursor.passes_nil_iff.mp hsigns] at hcounted
      cases hcount with
      | bare => simp [hcounted.kind?]
      | digits => simp [hcounted.kind?]
    have hbareCount : numbers = [] →
        afterSign.kind? = some (.symbol '#') := by
      rintro rfl
      exact hcounted.kind?
    exact ⟨_, _, comparator_eq_ok_iff.mpr ⟨_, hsigns, hsign, hbareSign⟩,
      _, _, count_eq_ok_iff.mpr ⟨_, hnumbers, hcount, hbareCount⟩,
      _, Cursor.takeSymbol_eq_ok_iff.mpr hhash,
      _, _, (reads_state _ _ _ _).mpr ⟨_, hnames, hname⟩, rfl⟩

end Compiler

end Cellular
