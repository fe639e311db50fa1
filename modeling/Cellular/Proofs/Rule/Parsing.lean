import Cellular.Proofs.Rule.Lists

/-!
# Clauses and conditions of a rule

The parser of a scope, of a clause and of what follows the two states of a rule
reads the relation of the grammar (`reads_ruleCondition`).
-/

namespace Cellular.Compiler

variable {compiler : Compiler} {before after : Cursor}

theorem not_toward_all {direction : Direction} :
    ¬Grammar.Toward compiler [.word "ALL".toList] direction := by
  rintro ⟨hname, -⟩
  have hparse : Direction.parse? "ALL" = some direction :=
    Direction.parse?_eq_some_iff.mpr hname
  have hnone : Direction.parse? "ALL" = none := by decide +kernel
  rw [hnone] at hparse
  cases hparse

theorem reads_scope :
    Reads compiler.limits compiler.scope (Grammar.Within compiler) := by
  intro before value after
  rw [Compiler.scope]
  constructor
  · intro h
    split at h
    · rename_i hall
      have hkind := Cursor.atWord_iff.mp hall
      obtain ⟨rfl, hpasses⟩ := (Cursor.take_bind_eq_ok_iff hkind).mp h
      exact ⟨_, hpasses, .all⟩
    · split at h
      · rename_i hopen
        have hkind := Cursor.atSymbol_iff.mp hopen
        simp only [bind_eq_ok_iff, Prod.exists] at h
        obtain ⟨afterOpen, htake, listed, last, hlist, hlast⟩ := h
        cases hlast
        have hopened := (Cursor.take_eq_ok_iff hkind).mp htake
        obtain ⟨kinds, more, hkinds, hjoined, rfl, hnodup⟩ :=
          (directionList_eq_ok_iff (Nat.le_refl _) List.nodup_nil).mp hlist
        exact ⟨_, Cursor.passes_cons_iff.mpr ⟨_, hopened, hkinds⟩,
          .listed hjoined hnodup⟩
      · simp only [bind_eq_ok_iff, Prod.exists] at h
        obtain ⟨direction, last, hdirection, hlast⟩ := h
        cases hlast
        obtain ⟨kinds, hkinds, htoward⟩ :=
          (reads_direction _ _ _ _).mp hdirection
        exact ⟨_, hkinds, .single htoward⟩
  · rintro ⟨_, hpasses, hwithin⟩
    cases hwithin with
    | all =>
        rw [if_pos (Cursor.atWord_iff.mpr hpasses.kind?)]
        exact (Cursor.take_bind_eq_ok_iff hpasses.kind?).mpr ⟨rfl, hpasses⟩
    | single htoward =>
        have hkind : ∃ letters, before.kind? = some (.word letters) ∧
            letters ≠ "ALL".toList := by
          cases htoward with
          | word hname hconfigured =>
              refine ⟨_, hpasses.kind?, ?_⟩
              rintro rfl
              exact not_toward_all (.word hname hconfigured)
        obtain ⟨letters, hkind, hne⟩ := hkind
        have hall : ¬before.atWord "ALL" = true := by
          rw [Cursor.atWord_iff, hkind]
          simpa using hne
        have hopen : ¬before.atSymbol '[' = true := by
          simp [Cursor.atSymbol_iff, hkind]
        have hdirection :=
          (reads_direction .neighborhood _ _ _).mpr ⟨_, hpasses, htoward⟩
        rw [if_neg hall, if_neg hopen, hdirection]
        rfl
    | listed hjoined hnodup =>
        obtain ⟨afterOpen, hopened, hkinds⟩ := Cursor.passes_cons_iff.mp hpasses
        have hall : ¬before.atWord "ALL" = true := by
          rw [Cursor.atWord_iff, hpasses.kind?]
          simp
        have hopen := Cursor.atSymbol_iff.mpr hpasses.kind?
        have htake := (Cursor.take_eq_ok_iff hopened.kind?).mpr hopened
        have hlist := (directionList_eq_ok_iff (Nat.le_refl _) List.nodup_nil).mpr
          ⟨_, _, hkinds, hjoined, rfl, hnodup⟩
        rw [if_neg hall, if_pos hopen, htake]
        simp only [hlist, bind, Except.bind, List.nil_append]

theorem equalsSign_eq_ok_iff :
    compiler.equalsSign before = .ok after ↔
      (before.kind? = some (.symbol '+') ∨ before.kind? = some (.symbol '-')) ∧
          after = before ∨
        before.Passes compiler.limits [.symbol '='] after := by
  rw [equalsSign]
  split
  · rename_i hsign
    rw [Bool.or_eq_true, Cursor.atSymbol_iff, Cursor.atSymbol_iff] at hsign
    have hother : ¬before.Passes compiler.limits [.symbol '='] after := by
      intro hpasses
      simp [hpasses.kind?] at hsign
    simp [hsign, hother, eq_comm]
  · rename_i hsign
    rw [Bool.or_eq_true, Cursor.atSymbol_iff, Cursor.atSymbol_iff] at hsign
    simp [hsign, Cursor.takeSymbol_eq_ok_iff]

theorem sign_ahead_iff {kinds : List TokenKind}
    (h : before.Passes compiler.limits (kinds ++ [.symbol ')']) after) :
    (before.kind? = some (.symbol '+') ∨ before.kind? = some (.symbol '-')) ↔
      kinds.head? = some (.symbol '+') ∨ kinds.head? = some (.symbol '-') := by
  cases kinds with
  | nil => simp [h.kind?]
  | cons kind kinds =>
      rw [List.cons_append] at h
      rw [h.kind?, List.head?_cons]

theorem reads_clause :
    Reads compiler.limits compiler.clause (Grammar.Clause compiler) := by
  intro before value after
  simp only [clause, bind_eq_ok_iff, Prod.exists, Cursor.takeSymbol_eq_ok_iff]
  constructor
  · rintro ⟨afterOpen, hopened, scope, afterScope, hscope, afterAt, hat,
      afterEquals, hequals, formula, last, hformula, hlast⟩
    cases hlast
    obtain ⟨places, hplaces, hwithin⟩ := (reads_scope _ _ _).mp hscope
    obtain ⟨kinds, hkinds, hterms⟩ :=
      (formula_eq_ok_iff reads_condition (by decide) (by decide)).mp hformula
    have hequalled : ∃ equals, afterAt.Passes compiler.limits equals afterEquals ∧
        Grammar.Equals kinds equals := by
      rcases equalsSign_eq_ok_iff.mp hequals with ⟨hsign, rfl⟩ | hwritten
      · refine ⟨[], Cursor.passes_nil_iff.mpr rfl, .omitted ?_⟩
        exact (sign_ahead_iff hkinds).mp hsign
      · exact ⟨_, hwritten, .written⟩
    obtain ⟨equals, hequals, hmeaning⟩ := hequalled
    refine ⟨_, ?_, .mk hwithin hmeaning hterms⟩
    refine Cursor.passes_cons_iff.mpr ⟨_, hopened, ?_⟩
    refine Cursor.passes_append_iff.mpr ⟨_, hplaces, ?_⟩
    refine Cursor.passes_cons_iff.mpr ⟨_, hat, ?_⟩
    exact Cursor.passes_append_iff.mpr ⟨_, hequals, hkinds⟩
  · rintro ⟨_, hpasses, @⟨places, equals, kinds, scope, formula, hwithin,
      hequals, hterms⟩⟩
    obtain ⟨afterOpen, hopened, hpasses⟩ := Cursor.passes_cons_iff.mp hpasses
    obtain ⟨afterScope, hplaces, hpasses⟩ := Cursor.passes_append_iff.mp hpasses
    obtain ⟨afterAt, hat, hpasses⟩ := Cursor.passes_cons_iff.mp hpasses
    obtain ⟨afterEquals, hequalled, hkinds⟩ :=
      Cursor.passes_append_iff.mp hpasses
    have hread : compiler.equalsSign afterAt = .ok afterEquals := by
      rw [equalsSign_eq_ok_iff]
      cases hequals with
      | written => exact .inr hequalled
      | omitted hsign =>
          rw [Cursor.passes_nil_iff] at hequalled
          have hahead := (sign_ahead_iff hkinds).mpr hsign
          exact .inl ⟨hequalled ▸ hahead, hequalled⟩
    exact ⟨_, hopened, _, _, (reads_scope _ _ _).mpr ⟨_, hplaces, hwithin⟩,
      _, hat, _, hread, _, _,
      (formula_eq_ok_iff reads_condition (by decide) (by decide)).mpr
        ⟨_, hkinds, hterms⟩, rfl⟩

/-! ## Rules -/

theorem reads_ruleCondition :
    Reads compiler.limits compiler.ruleCondition (Grammar.Ending compiler) := by
  intro before value after
  rw [ruleCondition]
  constructor
  · intro h
    split at h
    · rename_i hend
      have hkind := Cursor.atSymbol_iff.mp hend
      obtain ⟨rfl, hpasses⟩ := (Cursor.take_bind_eq_ok_iff hkind).mp h
      exact ⟨_, hpasses, .always⟩
    · split at h
      · rename_i hcolon
        have hkind := Cursor.atSymbol_iff.mp hcolon
        simp only [bind_eq_ok_iff, Prod.exists] at h
        obtain ⟨afterColon, htake, formula, last, hformula, hlast⟩ := h
        cases hlast
        have hopened := (Cursor.take_eq_ok_iff hkind).mp htake
        obtain ⟨kinds, hkinds, hterms⟩ :=
          (formula_eq_ok_iff reads_clause (by decide) (by decide)).mp hformula
        exact ⟨_, Cursor.passes_cons_iff.mpr ⟨_, hopened, hkinds⟩,
          .conditional hterms⟩
      · cases h
  · rintro ⟨_, hpasses, hending⟩
    cases hending with
    | always =>
        rw [if_pos (Cursor.atSymbol_iff.mpr hpasses.kind?)]
        exact (Cursor.take_bind_eq_ok_iff hpasses.kind?).mpr ⟨rfl, hpasses⟩
    | @conditional kinds condition hterms =>
        obtain ⟨afterColon, hopened, hkinds⟩ := Cursor.passes_cons_iff.mp hpasses
        have hend : ¬before.atSymbol ';' = true := by
          rw [Cursor.atSymbol_iff, hpasses.kind?]
          simp
        have hcolon := Cursor.atSymbol_iff.mpr hpasses.kind?
        have htake := (Cursor.take_eq_ok_iff hopened.kind?).mpr hopened
        have hformula : compiler.formula ';' .connectiveOrSemicolon
            compiler.clause afterColon = .ok (condition, after) :=
          (formula_eq_ok_iff reads_clause (by decide) (by decide)).mpr
            ⟨_, hkinds, hterms⟩
        rw [if_neg hend, if_pos hcolon, htake]
        simp only [hformula, bind, Except.bind]

end Cellular.Compiler
