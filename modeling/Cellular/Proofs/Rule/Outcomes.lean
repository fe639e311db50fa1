import Cellular.Proofs.Rule.Division
import Cellular.Proofs.Rule.Locality
import Cellular.Proofs.Rule.Statement

/-!
# Outcomes of statements

A statement that gives a rule has no illegal token and ends with its semicolon, and
the rule stands at its first token.  A statement that gives a diagnostic has no
illegal token either, and the diagnostic stands in it.  Elsewhere in a text, or in
another text, a statement that a semicolon ends has the same outcome, moved along
(`outcomes_relocate`).
-/

namespace Cellular

theorem isStatement_of_rule {compiler : Compiler} {tokens : List Token}
    {source target : String} {condition : Option (Formula Clause)}
    (h : Grammar.Rule compiler (tokens.map Token.kind) source target condition) :
    IsStatement tokens := by
  obtain ⟨inner, hkinds, hinner⟩ := h.semicolon_last
  obtain ⟨body, final, rfl, hbody, hfinal⟩ := List.map_eq_append_iff.mp hkinds
  obtain ⟨last, rfl, hlast⟩ := List.map_eq_singleton_iff.mp hfinal
  have htokens : ∀ token ∈ body, token.kind ≠ .symbol ';' ∧
      ∀ character, token.kind ≠ .illegal character := by
    intro token hmem
    exact hinner _ (hbody ▸ List.mem_map_of_mem hmem)
  refine ⟨fun token hmem => ?_, body, last, rfl, hlast,
    fun token hmem => (htokens token hmem).1⟩
  rcases List.mem_append.mp hmem with hfirst | hend
  · unfold Token.isIllegal
    split
    · rename_i character hkind
      exact absurd hkind ((htokens token hfirst).2 character)
    · rfl
  · rw [List.mem_singleton.mp hend, Token.isIllegal, hlast]

def Outcome.relocate (move : Nat → Nat) : Outcome → Outcome
  | .rule read place => .rule (read.relocate move) (move place)
  | .fault diagnostic => .fault (diagnostic.relocate move)
  | .tainted => .tainted

theorem Outcome.relocate_id : Outcome.relocate id = id := by
  funext outcome
  cases outcome <;> rfl

namespace Compiler

variable {compiler : Compiler} {ending : Nat} {statement tokens : List Token}
  {move : Nat → Nat}

/-! ## Faults -/

theorem mirrors_statement (compiler : Compiler) {ending' : Nat}
    (h : (∃ token ∈ statement, token.kind = .symbol ';') ∨ ending' = move ending) :
    Mirrors ⟨move, [], ending'⟩ ⟨statement, ending, 0⟩
      (fun reading image => image = reading.relocate ⟨move, [], ending'⟩)
      (compiler.rule ⟨statement, ending, 0⟩)
      (compiler.rule ⟨statement.map (Token.relocate move), ending', 0⟩) := by
  have hfits : Surroundings.Fits ⟨move, [], ending'⟩ ⟨statement, ending, 0⟩ := by
    rcases h with ⟨token, hmem, hkind⟩ | hending
    · exact .inl ⟨token, hmem, Token.isSymbol_iff.mpr hkind⟩
    · exact .inr ⟨rfl, hending⟩
  have hcopy : Cursor.relocate ⟨move, [], ending'⟩ ⟨statement, ending, 0⟩ =
      ⟨statement.map (Token.relocate move), ending', 0⟩ := by
    simp [Cursor.relocate]
  rw [← hcopy]
  exact mirrors_rule hfits

theorem standsIn_of_rule_error {diagnostic : Diagnostic}
    (h : compiler.rule ⟨statement, ending, 0⟩ = .error diagnostic) :
    StandsIn ending statement diagnostic.offset ∧
      ∀ character, diagnostic.kind ≠ .illegalCharacter character := by
  have hhere : (∃ token ∈ statement, token.kind = .symbol ';') ∨
      ending = id ending := .inr rfl
  have hmirrors := mirrors_statement compiler hhere
  rw [h] at hmirrors
  obtain ⟨hplace, hkind⟩ := hmirrors.of_error.1
  refine ⟨?_, hkind⟩
  rcases hplace with hplace | ⟨hopen, hend⟩
  · exact .inl hplace
  · refine .inr ⟨fun token hmem hkind => ?_, hend⟩
    exact hopen ⟨token, hmem, Token.isSymbol_iff.mpr hkind⟩

theorem readStatement_eq_fault {diagnostic : Diagnostic}
    (h : compiler.readStatement ending statement = .fault diagnostic) :
    (∀ token ∈ statement, token.isIllegal = false) ∧
      StandsIn ending statement diagnostic.offset ∧
      ∀ character, diagnostic.kind ≠ .illegalCharacter character := by
  rw [readStatement] at h
  split at h
  · cases h
  · rename_i other hother
    split at h
    · cases h
    · rename_i hlegal
      obtain rfl := Outcome.fault.inj h
      exact ⟨by simpa using hlegal, standsIn_of_rule_error hother⟩

theorem readStatement_eq_tainted
    (h : compiler.readStatement ending statement = .tainted) :
    ∃ token ∈ statement, token.isIllegal = true := by
  rw [readStatement] at h
  split at h
  · cases h
  · split at h
    · rename_i hillegal
      exact List.any_eq_true.mp hillegal
    · cases h

/-! ## Rules -/

theorem IsRun.rest_eq_nil (hrun : IsRun statement) {reading : Reading}
    (h : compiler.rule ⟨statement, ending, 0⟩ = .ok reading) :
    IsStatement statement ∧ reading.rest.rest = [] ∧ 3 ≤ statement.length := by
  obtain ⟨kinds, source, target, condition, ⟨⟨taken, rfl, hrest, -⟩, -⟩, hrule, -⟩ :=
    rule_eq_ok_iff.mp h
  simp only at hrest
  have hlength := three_le_length hrule
  have hstatement := isStatement_of_rule hrule
  obtain ⟨front, final, hfront, hfinal, hinner⟩ := hstatement.semicolon
  have hnil : reading.rest.rest = [] := by
    rcases hrun with ⟨body, last, heq, hlast, hbody⟩ | hopen
    · have hboth : front ++ final :: reading.rest.rest = body ++ last :: [] := by
        rw [← heq, hrest, hfront]
        simp
      exact (eq_of_semicolon hfinal hlast hinner hbody hboth).2
    · exact absurd hfinal (hopen final (by simp [hrest, hfront]))
  rw [hnil, List.append_nil] at hrest
  rw [List.length_map] at hlength
  exact hrest ▸ ⟨hstatement, hnil, hlength⟩

theorem readStatement_eq_rule (hrun : IsRun statement) {rule : Rule} {place : Nat}
    (h : compiler.readStatement ending statement = .rule rule place) :
    IsStatement statement ∧ ∃ first slash second others,
      statement = first :: slash :: second :: others ∧
        rule.offset = first.offset ∧ place = second.offset := by
  rw [readStatement] at h
  split at h
  · rename_i reading hreading
    obtain ⟨rfl, rfl⟩ := Outcome.rule.inj h
    obtain ⟨hstatement, -, hlength⟩ := IsRun.rest_eq_nil hrun hreading
    obtain ⟨kinds, source, target, condition, -, -, hread, hplace⟩ :=
      rule_eq_ok_iff.mp hreading
    match statement, hlength with
    | first :: slash :: second :: others, _ =>
        exact ⟨hstatement, first, slash, second, others, rfl, by rw [hread]; rfl, hplace⟩
  · split at h <;> cases h

theorem readStatement_of_illegal (compiler : Compiler) (ending : Nat)
    (hrun : IsRun statement) (hillegal : ∃ token ∈ statement, token.isIllegal = true) :
    compiler.readStatement ending statement = .tainted := by
  obtain ⟨token, hmem, hillegal⟩ := hillegal
  have hnot : ¬∀ token ∈ statement, token.isIllegal = false := by
    intro hlegal
    rw [hlegal token hmem] at hillegal
    cases hillegal
  cases hread : compiler.readStatement ending statement with
  | rule rule place => exact absurd (readStatement_eq_rule hrun hread).1.legal hnot
  | fault diagnostic => exact absurd (readStatement_eq_fault hread).1 hnot
  | tainted => rfl

/-! ## Statements elsewhere -/

theorem readStatement_relocate (compiler : Compiler) {ending' : Nat}
    (h : (∃ token ∈ statement, token.kind = .symbol ';') ∨ ending' = move ending) :
    compiler.readStatement ending' (statement.map (Token.relocate move)) =
      (compiler.readStatement ending statement).relocate move := by
  have hmirrors := mirrors_statement compiler h
  have hany : (statement.map (Token.relocate move)).any Token.isIllegal =
      statement.any Token.isIllegal := by
    rw [List.any_map]
    rfl
  rw [readStatement, readStatement, hany]
  cases hread : compiler.rule ⟨statement, ending, 0⟩ with
  | ok reading =>
      rw [hread] at hmirrors
      obtain ⟨image, himage, rfl⟩ := hmirrors.of_ok
      rw [himage]
      rfl
  | error diagnostic =>
      rw [hread] at hmirrors
      rw [hmirrors.of_error.2]
      simp only
      split <;> rfl

def outcomes (compiler : Compiler) (ending : Nat) (tokens : List Token) :
    List Outcome :=
  (statements tokens).map (compiler.readStatement ending)

theorem outcomes_illegal {token : Token} (h : token.isIllegal = true)
    (compiler : Compiler) (ending : Nat) (tokens : List Token) :
    compiler.outcomes ending (token :: tokens) = compiler.outcomes ending tokens := by
  rw [outcomes, statements_illegal h]
  rfl

theorem outcomes_append {first : List Token} (h : Closed first) (compiler : Compiler)
    (ending : Nat) (second : List Token) :
    compiler.outcomes ending (first ++ second) =
      compiler.outcomes ending first ++ compiler.outcomes ending second := by
  simp only [outcomes, statements_append_of_closed h, List.map_append]

theorem outcomes_relocate (compiler : Compiler) (move : Nat → Nat) {ending' : Nat}
    (h : Closed tokens ∨ ending' = move ending) :
    compiler.outcomes ending' (tokens.map (Token.relocate move)) =
      (compiler.outcomes ending tokens).map (Outcome.relocate move) := by
  simp only [outcomes, statements_relocate, List.map_map]
  refine List.map_congr_left fun statement hmem => readStatement_relocate compiler ?_
  exact h.imp_left fun hclosed =>
    (divided_statements tokens).exists_semicolon hclosed statement hmem

/-- Where the text ends does not matter to statements that end before. -/
theorem outcomes_of_closed (h : Closed tokens) (compiler : Compiler)
    (ending ending' : Nat) :
    compiler.outcomes ending tokens = compiler.outcomes ending' tokens := by
  have htokens : Token.relocate id = id := rfl
  calc compiler.outcomes ending tokens
      = compiler.outcomes ending (tokens.map (Token.relocate id)) := by
        rw [htokens, List.map_id]
    _ = (compiler.outcomes ending' tokens).map (Outcome.relocate id) :=
        outcomes_relocate compiler id (.inl h)
    _ = compiler.outcomes ending' tokens := by
        rw [Outcome.relocate_id, List.map_id]

end Compiler

end Cellular
