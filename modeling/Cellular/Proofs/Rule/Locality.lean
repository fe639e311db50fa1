import Cellular.Proofs.Rule.Relocation

/-!
# Locality of the productions

Every production does in other surroundings what it does in its own.  The loops
over lists are inductions on the fuel, which covers the tokens left in both.  A
rule is read alike wherever its tokens stand and whatever follows its semicolon
(`mirrors_rule`).
-/

namespace Cellular.Compiler

variable {compiler : Compiler} {surroundings : Surroundings} {before : Cursor}

/-! ## Productions without lists -/

theorem mirrors_state (hfits : surroundings.Fits before)
    {invalid : String → DiagnosticKind}
    (hinvalid : ∀ text character, invalid text ≠ .illegalCharacter character) :
    Mirrors surroundings before (SameProgress surroundings before)
      (compiler.state invalid before)
      (compiler.state invalid (before.relocate surroundings)) := by
  simp only [Compiler.state, hfits.word?_relocate, hfits.text_relocate]
  cases hword : before.word? with
  | none => exact .fault hfits (.refl _) (hinvalid _)
  | some letters =>
      have hkind : before.atSymbol ';' = false :=
        Cursor.atSymbol_eq_false_of_kind? (Cursor.word?_eq_some_iff.mp hword)
      simp only
      split
      · split
        · exact .take hfits (.refl _) hkind fun after hafter _ => .ok ⟨rfl, hafter⟩
        · exact .fault hfits (.refl _) (hinvalid _)
      · exact .fault hfits (.refl _) (hinvalid _)

theorem mirrors_direction (hfits : surroundings.Fits before) (what : Expected) :
    Mirrors surroundings before (SameProgress surroundings before)
      (compiler.direction what before)
      (compiler.direction what (before.relocate surroundings)) := by
  simp only [Compiler.direction, hfits.word?_relocate]
  cases hword : before.word? with
  | none => exact .unexpected hfits (.refl _) what
  | some letters =>
      have hkind : before.atSymbol ';' = false :=
        Cursor.atSymbol_eq_false_of_kind? (Cursor.word?_eq_some_iff.mp hword)
      simp only
      split
      · split
        · exact .take hfits (.refl _) hkind fun after hafter _ => .ok ⟨rfl, hafter⟩
        · exact .fault hfits (.refl _) (by simp)
      · split
        · exact .fault hfits (.refl _) (by simp)
        · exact .unexpected hfits (.refl _) what

theorem mirrors_comparator (hfits : surroundings.Fits before) :
    Mirrors surroundings before (SameProgress surroundings before)
      (compiler.comparator before)
      (compiler.comparator (before.relocate surroundings)) := by
  simp only [Compiler.comparator, hfits.atSymbol_relocate]
  split
  · rename_i hplus
    exact .take hfits (.refl _) (Cursor.atSymbol_eq_false_of_ne hplus (by decide))
      fun after hafter _ => .ok ⟨rfl, hafter⟩
  · split
    · rename_i hminus
      exact .take hfits (.refl _)
        (Cursor.atSymbol_eq_false_of_ne hminus (by decide))
        fun after hafter _ => .ok ⟨rfl, hafter⟩
    · exact .ok ⟨rfl, .refl _⟩

theorem mirrors_count (hfits : surroundings.Fits before) :
    Mirrors surroundings before (SameProgress surroundings before)
      (compiler.count before)
      (compiler.count (before.relocate surroundings)) := by
  simp only [Compiler.count, hfits.word?_relocate, hfits.atSymbol_relocate]
  cases hword : before.word? with
  | none =>
      simp only
      split
      · exact .ok ⟨rfl, .refl _⟩
      · exact .unexpected hfits (.refl _) _
  | some letters =>
      have hkind : before.atSymbol ';' = false :=
        Cursor.atSymbol_eq_false_of_kind? (Cursor.word?_eq_some_iff.mp hword)
      simp only
      split
      · split
        · exact .take hfits (.refl _) hkind fun after hafter _ => .ok ⟨rfl, hafter⟩
        · exact .fault hfits (.refl _) (by simp)
      · exact .unexpected hfits (.refl _) _

theorem mirrors_condition (hfits : surroundings.Fits before) :
    Mirrors surroundings before (SameProgress surroundings before)
      (compiler.condition before)
      (compiler.condition (before.relocate surroundings)) := by
  rw [Compiler.condition, Compiler.condition]
  refine .bind (.refl _) (mirrors_comparator hfits) fun comparator afterSign hsign =>
    .bind hsign (mirrors_count (hfits.of_precedes hsign))
      fun count afterCount hcount =>
        .takeSymbol hfits hcount (by decide) fun afterHash hhash =>
          .bind hhash (mirrors_state (hfits.of_precedes hhash) (by simp))
            fun name after hafter => .ok ⟨rfl, hafter⟩

/-! ## Lists -/

theorem directionList_of_rest_eq_nil (h : before.rest = []) (fuel : Nat)
    (seen : List Direction) :
    compiler.directionList fuel seen before = before.unexpected .direction := by
  cases fuel with
  | zero => rfl
  | succ fuel => simp [directionList, Compiler.direction, Cursor.word?, h,
      Cursor.unexpected, Cursor.fault, bind, Except.bind]

theorem mirrors_directionList {fuel fuel' : Nat} (seen : List Direction)
    (hfits : surroundings.Fits before) (hfuel : before.rest.length ≤ fuel)
    (hfuel' : (before.relocate surroundings).rest.length ≤ fuel') :
    Mirrors surroundings before (SameProgress surroundings before)
      (compiler.directionList fuel seen before)
      (compiler.directionList fuel' seen (before.relocate surroundings)) := by
  induction hleft : before.rest.length using Nat.strong_induction_on
    generalizing before seen fuel fuel' with
  | h left ih =>
      by_cases hrest : before.rest = []
      · have hcopy := hfits.rest_relocate_eq_nil hrest
        rw [directionList_of_rest_eq_nil hcopy, directionList_of_rest_eq_nil hrest]
        exact .unexpected hfits (.refl _) _
      · have hsome := List.length_pos_iff.mpr hrest
        rw [Cursor.length_rest_relocate] at hfuel'
        obtain ⟨fuel, rfl⟩ : ∃ smaller, fuel = smaller + 1 :=
          Nat.exists_eq_add_of_le' (by omega)
        obtain ⟨fuel', rfl⟩ : ∃ smaller, fuel' = smaller + 1 :=
          Nat.exists_eq_add_of_le' (by omega)
        rw [directionList, directionList]
        refine .bind (.refl _) (mirrors_direction hfits _) ?_
        intro direction next hnext
        simp only [(hfits.of_precedes hnext).atSymbol_relocate]
        split
        · exact .fault hfits (.refl _) (by simp)
        · split
          · rename_i hcomma
            refine .take hfits hnext
              (Cursor.atSymbol_eq_false_of_ne hcomma (by decide)) ?_
            intro after hafter hshorter
            have hlater := hnext.rest.length_le
            have hat := List.length_pos_iff.mpr
              (Cursor.rest_ne_nil_of_atSymbol hcomma)
            have htail := congrArg List.length hshorter
            rw [List.length_tail] at htail
            have hfuelAfter : (after.relocate surroundings).rest.length ≤ fuel' := by
              rw [Cursor.length_rest_relocate]
              omega
            have hlisted : Mirrors surroundings after _
                (compiler.directionList fuel (seen ++ [direction]) after) _ :=
              ih _ (by omega) _ (hfits.of_precedes hafter) (by omega) hfuelAfter rfl
            refine hlisted.mono hafter ?_
            rintro result image ⟨hsame, hprogress⟩
            exact ⟨hsame, hafter.trans hprogress⟩
          · split
            · rename_i hclosing
              exact .take hfits hnext
                (Cursor.atSymbol_eq_false_of_ne hclosing (by decide))
                fun after hafter _ => .ok ⟨rfl, hafter⟩
            · exact .unexpected hfits hnext _

section

variable {α : Type} {closing : Char} {what : Expected}
  {term : Cursor → Except Diagnostic (α × Cursor)}

theorem terms_of_rest_eq_nil (h : before.rest = []) (fuel : Nat) :
    compiler.terms closing what term fuel before = before.unexpected what := by
  cases fuel with
  | zero => rfl
  | succ fuel => simp [terms, Cursor.atSymbol, Cursor.connective?, Cursor.atWord, h]

theorem mirrors_terms
    (hterm : ∀ cursor, surroundings.Fits cursor →
      Mirrors surroundings cursor (SameProgress surroundings cursor) (term cursor)
        (term (cursor.relocate surroundings)))
    {fuel fuel' : Nat} (hfits : surroundings.Fits before)
    (hfuel : before.rest.length ≤ fuel)
    (hfuel' : (before.relocate surroundings).rest.length ≤ fuel') :
    Mirrors surroundings before (SameList surroundings closing before)
      (compiler.terms closing what term fuel before)
      (compiler.terms closing what term fuel' (before.relocate surroundings)) := by
  induction hleft : before.rest.length using Nat.strong_induction_on
    generalizing before fuel fuel' with
  | h left ih =>
      by_cases hrest : before.rest = []
      · have hcopy := hfits.rest_relocate_eq_nil hrest
        rw [terms_of_rest_eq_nil hcopy, terms_of_rest_eq_nil hrest]
        exact .unexpected hfits (.refl _) _
      · have hsome := List.length_pos_iff.mpr hrest
        rw [Cursor.length_rest_relocate] at hfuel'
        obtain ⟨fuel, rfl⟩ : ∃ smaller, fuel = smaller + 1 :=
          Nat.exists_eq_add_of_le' (by omega)
        obtain ⟨fuel', rfl⟩ : ∃ smaller, fuel' = smaller + 1 :=
          Nat.exists_eq_add_of_le' (by omega)
        rw [terms, terms, hfits.atSymbol_relocate, hfits.connective?_relocate]
        split
        · rename_i hclosing
          exact .take_closing hfits hclosing _
        · split
          · exact .unexpected hfits (.refl _) _
          · rename_i connective hconnective
            refine .take hfits (.refl _)
              (Cursor.atSymbol_eq_false_of_connective? hconnective) ?_
            intro afterMark hmark hshorter
            refine (hterm _ (hfits.of_precedes hmark)).andThen hmark ?_
            rintro ⟨value, afterTerm⟩ _ ⟨rfl, hafter⟩
            dsimp only at hafter ⊢
            have hprogress := hmark.trans hafter
            have hlater := hafter.rest.length_le
            have htail := congrArg List.length hshorter
            rw [List.length_tail] at htail
            have hfuelAfter :
                (afterTerm.relocate surroundings).rest.length ≤ fuel' := by
              rw [Cursor.length_rest_relocate]
              omega
            have hothers : Mirrors surroundings afterTerm _
                (compiler.terms closing what term fuel afterTerm) _ :=
              ih _ (by omega) (hfits.of_precedes hprogress) (by omega) hfuelAfter rfl
            refine hothers.andThen hprogress ?_
            rintro ⟨others, last⟩ _ ⟨rfl, hlast⟩
            exact .ok ⟨rfl, fun hne => hprogress.trans (hlast hne)⟩

theorem mirrors_formula
    (hterm : ∀ cursor, surroundings.Fits cursor →
      Mirrors surroundings cursor (SameProgress surroundings cursor) (term cursor)
        (term (cursor.relocate surroundings)))
    (hfits : surroundings.Fits before) :
    Mirrors surroundings before (SameList surroundings closing before)
      (compiler.formula closing what term before)
      (compiler.formula closing what term (before.relocate surroundings)) := by
  rw [Compiler.formula, Compiler.formula]
  refine .bind (.refl _) (hterm before hfits) fun first afterFirst hfirst => ?_
  refine .andThen hfirst (mirrors_terms hterm (hfits.of_precedes hfirst)
    (Nat.le_refl _) (Nat.le_refl _)) ?_
  rintro ⟨others, last⟩ _ ⟨rfl, hlast⟩
  exact .ok ⟨rfl, fun hne => hfirst.trans (hlast hne)⟩

end

/-! ## Clauses and rules -/

theorem mirrors_scope (hfits : surroundings.Fits before) :
    Mirrors surroundings before (SameProgress surroundings before)
      (compiler.scope before)
      (compiler.scope (before.relocate surroundings)) := by
  simp only [Compiler.scope, hfits.atWord_relocate, hfits.atSymbol_relocate]
  split
  · rename_i hall
    exact .take hfits (.refl _)
      (Cursor.atSymbol_eq_false_of_kind? (Cursor.atWord_iff.mp hall))
      fun after hafter _ => .ok ⟨rfl, hafter⟩
  · split
    · rename_i hopen
      refine .take hfits (.refl _) (Cursor.atSymbol_eq_false_of_ne hopen (by decide))
        fun afterOpen hopened _ => ?_
      refine .bind hopened (mirrors_directionList [] (hfits.of_precedes hopened)
        (Nat.le_refl _) (Nat.le_refl _)) fun listed after hafter => .ok ⟨rfl, hafter⟩
    · exact .bind (.refl _) (mirrors_direction hfits _)
        fun direction after hafter => .ok ⟨rfl, hafter⟩

theorem mirrors_equalsSign {middle : Cursor} {ρ : Type} {relation : ρ → ρ → Prop}
    {f g : Cursor → Except Diagnostic ρ} (hfits : surroundings.Fits before)
    (hahead : before.Precedes middle)
    (hnext : ∀ after, before.Precedes after →
      Mirrors surroundings before relation (f after)
        (g (after.relocate surroundings))) :
    Mirrors surroundings before relation (compiler.equalsSign middle >>= f)
      (compiler.equalsSign (middle.relocate surroundings) >>= g) := by
  rw [equalsSign, equalsSign]
  simp only [(hfits.of_precedes hahead).atSymbol_relocate]
  split
  · exact hnext middle hahead
  · exact .takeSymbol hfits hahead (by decide) hnext

theorem mirrors_clause (hfits : surroundings.Fits before) :
    Mirrors surroundings before (SameProgress surroundings before)
      (compiler.clause before)
      (compiler.clause (before.relocate surroundings)) := by
  rw [Compiler.clause, Compiler.clause]
  refine .takeSymbol hfits (.refl _) (by decide) fun afterOpen hopen => ?_
  refine .bind hopen (mirrors_scope (hfits.of_precedes hopen))
    fun scope afterScope hscope => ?_
  refine .takeSymbol hfits hscope (by decide) fun afterAt hat => ?_
  refine mirrors_equalsSign hfits hat fun afterEquals hequals => ?_
  refine .andThen hequals (mirrors_formula (fun _ => mirrors_condition)
    (hfits.of_precedes hequals)) ?_
  rintro ⟨condition, after⟩ _ ⟨rfl, hafter⟩
  exact .ok ⟨rfl, hequals.trans (hafter (by decide))⟩

theorem mirrors_ruleCondition (hfits : surroundings.Fits before) :
    Mirrors surroundings before (SameReading surroundings)
      (compiler.ruleCondition before)
      (compiler.ruleCondition (before.relocate surroundings)) := by
  simp only [Compiler.ruleCondition, hfits.atSymbol_relocate]
  split
  · rename_i hend
    exact (Mirrors.take_closing hfits hend none).mono (.refl _)
      fun _ _ hlist => hlist.1
  · split
    · rename_i hcolon
      refine .take hfits (.refl _)
        (Cursor.atSymbol_eq_false_of_ne hcolon (by decide)) fun afterColon hahead _ => ?_
      refine .andThen hahead (mirrors_formula (fun _ => mirrors_clause)
        (hfits.of_precedes hahead)) ?_
      rintro ⟨condition, after⟩ _ ⟨rfl, -⟩
      exact .ok rfl
    · exact .unexpected hfits (.refl _) _

def Reading.relocate (surroundings : Surroundings) (reading : Reading) : Reading :=
  ⟨reading.rule.relocate surroundings.move,
    surroundings.move reading.targetOffset, reading.rest.relocate surroundings⟩

theorem mirrors_rule (hfits : surroundings.Fits before) :
    Mirrors surroundings before
      (fun reading image => image = reading.relocate surroundings)
      (compiler.rule before) (compiler.rule (before.relocate surroundings)) := by
  rw [Compiler.rule, Compiler.rule]
  refine .bind (.refl _) (mirrors_state hfits (by simp))
    fun source afterSource hsource => ?_
  refine .takeSymbol hfits hsource (by decide) fun beforeTarget hslash => ?_
  have hfits' := hfits.of_precedes hslash
  refine .bind hslash (mirrors_state hfits' (by simp))
    fun target afterTarget htarget => ?_
  dsimp only
  split
  · exact .fault hfits hslash (by simp)
  · refine (mirrors_ruleCondition (hfits.of_precedes htarget)).andThen htarget ?_
    rintro ⟨condition, rest⟩ _ rfl
    refine .ok ?_
    rw [hfits.offset_relocate, hfits'.offset_relocate]
    rfl

end Cellular.Compiler
