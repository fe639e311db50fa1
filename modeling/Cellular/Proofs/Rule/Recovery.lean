import Cellular.Proofs.Rule.Outcomes

/-!
# Recovery from faults

Rules can also be read off the stream of all tokens: after a fault the reader goes on
behind the next semicolon.  No production passes over a semicolon and fails later, so
this finds the same statements as splitting the tokens first, with the same outcomes
(`recover_eq_outcomes`).
-/

namespace Cellular.Compiler

/-- Reads rules off a stream of tokens.  Illegal tokens where a rule might start are
passed over.  After a fault the tokens up to the next semicolon are skipped, and an
illegal one among them takes the blame. -/
def recover (compiler : Compiler) (ending : Nat) (tokens : List Token) :
    List Outcome :=
  match tokens with
  | [] => []
  | token :: rest =>
      if token.isIllegal then compiler.recover ending rest
      else
        match _hread : compiler.rule ⟨token :: rest, ending, 0⟩ with
        | .ok reading =>
            .rule reading.rule reading.targetOffset ::
              compiler.recover ending reading.rest.rest
        | .error diagnostic =>
            let skipped := (token :: rest).takeWhile fun token => !token.isSymbol ';'
            (if skipped.any Token.isIllegal then .tainted else .fault diagnostic) ::
              compiler.recover ending (rest.drop skipped.length)
termination_by tokens.length
decreasing_by
  · simp
  · obtain ⟨kinds, _, _, _, hpasses, hrule, -⟩ := rule_eq_ok_iff.mp _hread
    have hlength := hpasses.length
    have hkinds := three_le_length hrule
    simp only at hlength
    omega
  · simp only [List.length_drop, List.length_cons]
    omega

variable {compiler : Compiler} {ending : Nat} {statement following : List Token}

theorem rule_append (compiler : Compiler) (ending : Nat)
    (h : (∃ token ∈ statement, token.kind = .symbol ';') ∨ following = []) :
    Mirrors ⟨id, following, ending⟩ ⟨statement, ending, 0⟩
      (fun reading image => image = reading.relocate ⟨id, following, ending⟩)
      (compiler.rule ⟨statement, ending, 0⟩)
      (compiler.rule ⟨statement ++ following, ending, 0⟩) := by
  have hfits : Surroundings.Fits ⟨id, following, ending⟩ ⟨statement, ending, 0⟩ := by
    rcases h with ⟨token, hmem, hkind⟩ | hnil
    · exact .inl ⟨token, hmem, Token.isSymbol_iff.mpr hkind⟩
    · exact .inr ⟨hnil, rfl⟩
  have hcopy : Cursor.relocate ⟨id, following, ending⟩ ⟨statement, ending, 0⟩ =
      ⟨statement ++ following, ending, 0⟩ := by
    have hsame : Token.relocate id = id := rfl
    simp [Cursor.relocate, hsame]
  rw [← hcopy]
  exact mirrors_rule hfits

theorem IsRun.skipped (hrun : IsRun statement)
    (h : (∃ token ∈ statement, token.kind = .symbol ';') ∨ following = []) :
    ((statement ++ following).takeWhile fun token => !token.isSymbol ';').any
        Token.isIllegal = statement.any Token.isIllegal ∧
      (statement ++ following).drop (((statement ++ following).takeWhile
        fun token => !token.isSymbol ';').length + 1) = following := by
  rcases hrun with ⟨body, last, rfl, hlast, hbody⟩ | hopen
  · have hskipped : (body ++ [last] ++ following).takeWhile
        (fun token => !token.isSymbol ';') = body := by
      rw [List.append_assoc, List.takeWhile_append_of_pos]
      · simp [Token.isSymbol, hlast]
      · intro token hmem
        simpa [Token.isSymbol] using hbody token hmem
    have hlegal : last.isIllegal = false := by simp [Token.isIllegal, hlast]
    rw [hskipped]
    simp [hlegal]
  · obtain rfl : following = [] := by
      rcases h with hsemicolon | hnil
      · obtain ⟨token, hmem, hkind⟩ := hsemicolon
        exact absurd hkind (hopen token hmem)
      · exact hnil
    have hskipped : (statement ++ []).takeWhile (fun token => !token.isSymbol ';') =
        statement := by
      rw [List.append_nil, List.takeWhile_eq_self_iff]
      intro token hmem
      simpa [Token.isSymbol] using hopen token hmem
    rw [hskipped]
    simp

theorem recover_append (hrun : IsRun statement)
    (hlegal : ∃ token ∈ statement.head?, token.isIllegal = false)
    (h : (∃ token ∈ statement, token.kind = .symbol ';') ∨ following = []) :
    compiler.recover ending (statement ++ following) =
      compiler.readStatement ending statement :: compiler.recover ending following := by
  have hmirrors := rule_append compiler ending h
  obtain ⟨htaint, hdrop⟩ := IsRun.skipped hrun h
  obtain ⟨token, hhead, hlegal⟩ := hlegal
  cases statement with
  | nil => cases hhead
  | cons first others =>
      obtain rfl : first = token := by simpa using hhead
      rw [List.cons_append] at hmirrors htaint hdrop ⊢
      rw [List.drop_succ_cons] at hdrop
      rw [recover, if_neg (by simp [hlegal]), readStatement]
      cases hread : compiler.rule ⟨first :: others, ending, 0⟩ with
      | ok reading =>
          rw [hread] at hmirrors
          obtain ⟨image, himage, rfl⟩ := hmirrors.of_ok
          obtain ⟨-, hrest, -⟩ := IsRun.rest_eq_nil hrun hread
          split
          · rename_i other hother
            obtain rfl := Except.ok.inj (himage.symm.trans hother)
            have hnext : (reading.relocate ⟨id, following, ending⟩).rest.rest =
                following := by
              simp [Reading.relocate, Cursor.relocate, hrest]
            rw [hnext]
            rfl
          · rename_i other hother
            cases himage.symm.trans hother
      | error diagnostic =>
          rw [hread] at hmirrors
          have himage := hmirrors.of_error.2
          split
          · rename_i other hother
            cases himage.symm.trans hother
          · rename_i other hother
            obtain rfl := Except.error.inj (himage.symm.trans hother)
            simp only [htaint, hdrop]
            rfl

/-- Reading rules off the stream gives what the statements give one by one. -/
theorem recover_eq_outcomes (compiler : Compiler) (ending : Nat)
    (tokens : List Token) :
    compiler.recover ending tokens = compiler.outcomes ending tokens := by
  have hdivided := divided_statements tokens
  rw [outcomes]
  generalize statements tokens = parts at hdivided
  induction hdivided with
  | nil => rw [recover, List.map_nil]
  | illegal htoken hrest ih => rw [recover, if_pos htoken, ih]
  | @closed body last tokens parts hlegal hbody hlast hrest ih =>
      have hrun : IsRun (body ++ [last]) := .inl ⟨body, last, rfl, hlast, hbody⟩
      have hfront : ∃ token ∈ (body ++ [last]).head?, token.isIllegal = false := by
        cases body with
        | nil => exact ⟨last, rfl, by simp [Token.isIllegal, hlast]⟩
        | cons token body => exact ⟨token, rfl, hlegal token rfl⟩
      rw [List.append_cons, recover_append hrun hfront
        (.inl ⟨last, by simp, hlast⟩), ih, List.map_cons]
  | @opened token tokens hlegal hopen =>
      rw [← List.append_nil (token :: tokens), recover_append (.inr hopen)
        ⟨token, rfl, hlegal⟩ (.inr rfl), recover, List.append_nil, List.map_singleton]

end Cellular.Compiler
