import Cellular.Proofs.Rule.Parsing

/-!
# Statements and rules

A statement is a run of tokens up to its only semicolon.  It is read as a rule
exactly if its kinds derive from the grammar and its tokens fit the limit on the
length of a rule, and then it is read to its end, whatever tokens follow
(`rule_eq_ok_iff_grammar`).
-/

namespace Cellular

/-- No token is illegal, and the last one is the only semicolon. -/
structure IsStatement (tokens : List Token) : Prop where
  legal : ∀ token ∈ tokens, token.isIllegal = false
  semicolon : ∃ body last, tokens = body ++ [last] ∧
    last.kind = .symbol ';' ∧ ∀ token ∈ body, token.kind ≠ .symbol ';'

theorem eq_of_semicolon {first second rest following : List Token}
    {last last' : Token} (hlast : last.kind = .symbol ';')
    (hlast' : last'.kind = .symbol ';')
    (hfirst : ∀ token ∈ first, token.kind ≠ .symbol ';')
    (hsecond : ∀ token ∈ second, token.kind ≠ .symbol ';')
    (h : first ++ last :: rest = second ++ last' :: following) :
    first ++ [last] = second ++ [last'] ∧ rest = following := by
  induction first generalizing second with
  | nil =>
      cases second with
      | nil => simpa using h
      | cons token second =>
          obtain ⟨rfl, -⟩ := List.cons_eq_cons.mp h
          exact absurd hlast (hsecond last (by simp))
  | cons token first ih =>
      cases second with
      | nil =>
          obtain ⟨rfl, -⟩ := List.cons_eq_cons.mp h
          exact absurd hlast' (hfirst token (by simp))
      | cons token' second =>
          obtain ⟨rfl, htail⟩ := List.cons_eq_cons.mp h
          have hrest := ih (fun other hmem => hfirst other (by simp [hmem]))
            (fun other hmem => hsecond other (by simp [hmem])) htail
          exact ⟨by rw [List.cons_append, hrest.1]; rfl, hrest.2⟩

namespace Cursor

def skip (cursor : Cursor) (count : Nat) : Cursor :=
  { cursor with rest := cursor.rest.drop count }

theorem Passes.offset_eq_skip {limits : Limits} {before after : Cursor}
    {kinds : List TokenKind} (h : before.Passes limits kinds after) :
    after.offset = (before.skip kinds.length).offset := by
  obtain ⟨⟨taken, rfl, hrest, -⟩, hending, -⟩ := h
  simp [offset, skip, hrest, hending]

end Cursor

namespace Compiler

variable {compiler : Compiler}

/-- A rule is read by passing over its kinds.  It starts at the first token, and
its second state is the third one. -/
theorem rule_eq_ok_iff {before : Cursor} {reading : Reading} :
    compiler.rule before = .ok reading ↔
      ∃ kinds source target condition,
        before.Passes compiler.limits kinds reading.rest ∧
          Grammar.Rule compiler kinds source target condition ∧
          reading.rule = Rule.ofParts source target condition before.offset ∧
          reading.targetOffset = (before.skip 2).offset := by
  have hskip : ∀ {sources middle next source}, Grammar.State compiler sources source →
      before.Passes compiler.limits sources middle →
      middle.Passes compiler.limits [.symbol '/'] next →
      next.offset = (before.skip 2).offset := by
    rintro _ middle next _ ⟨⟩ hsource hslash
    have hpasses := Cursor.passes_append_iff.mpr ⟨_, hsource, hslash⟩
    exact hpasses.offset_eq_skip
  simp only [Compiler.rule, bind_eq_ok_iff, Prod.exists,
    Cursor.takeSymbol_eq_ok_iff]
  constructor
  · rintro ⟨source, afterSource, hsource, beforeTarget, hslash, target,
      afterTarget, htarget, h⟩
    obtain ⟨sources, hsources, hsource⟩ := (reads_state _ _ _ _).mp hsource
    obtain ⟨targets, htargets, htarget⟩ := (reads_state _ _ _ _).mp htarget
    split at h
    · cases h
    · rename_i hne
      simp only [bind_eq_ok_iff, Prod.exists] at h
      obtain ⟨condition, rest, hcondition, hreading⟩ := h
      obtain ⟨kinds, hkinds, hending⟩ :=
        (reads_ruleCondition _ _ _).mp hcondition
      cases hreading
      refine ⟨_, source, target, condition, ?_,
        .mk hsource htarget hne hending, rfl, hskip hsource hsources hslash⟩
      refine Cursor.passes_append_iff.mpr ⟨_, hsources, ?_⟩
      refine Cursor.passes_cons_iff.mpr ⟨_, hslash, ?_⟩
      exact Cursor.passes_append_iff.mpr ⟨_, htargets, hkinds⟩
  · rintro ⟨_, source, target, condition, hpasses, hrule, hread, htargetOffset⟩
    obtain ⟨hsource, htarget, hne, hending⟩ := hrule
    obtain ⟨afterSource, hsources, hpasses⟩ := Cursor.passes_append_iff.mp hpasses
    obtain ⟨beforeTarget, hslash, hpasses⟩ := Cursor.passes_cons_iff.mp hpasses
    obtain ⟨afterTarget, htargets, hkinds⟩ := Cursor.passes_append_iff.mp hpasses
    refine ⟨source, afterSource, (reads_state _ _ _ _).mpr ⟨_, hsources, hsource⟩,
      beforeTarget, hslash, target, afterTarget,
      (reads_state _ _ _ _).mpr ⟨_, htargets, htarget⟩, ?_⟩
    have hcondition := (reads_ruleCondition _ _ _).mpr ⟨_, hkinds, hending⟩
    rw [if_neg hne, hcondition]
    obtain ⟨rule, targetOffset, rest⟩ := reading
    simp only at hread htargetOffset
    rw [hread, htargetOffset, ← hskip hsource hsources hslash]
    rfl

theorem three_le_length {kinds : List TokenKind} {source target : String}
    {condition : Option (Formula Clause)}
    (h : Grammar.Rule compiler kinds source target condition) :
    3 ≤ kinds.length := by
  obtain ⟨⟨⟩, ⟨⟩, -, -⟩ := h
  simp

theorem passes_statement_iff {statement following : List Token}
    (hstatement : IsStatement statement) {ending : Nat} {after : Cursor}
    {kinds : List TokenKind} {source target : String}
    {condition : Option (Formula Clause)}
    (hrule : Grammar.Rule compiler kinds source target condition) :
    Cursor.Passes compiler.limits ⟨statement ++ following, ending, 0⟩ kinds after ↔
      kinds = statement.map Token.kind ∧
        total (statement.map Token.length) ≤ compiler.limits.ruleCharsMax ∧
        after = ⟨following, ending, total (statement.map Token.length)⟩ := by
  have hne : kinds ≠ [] := by
    intro hnil
    have hlength := three_le_length hrule
    simp [hnil] at hlength
  constructor
  · rintro ⟨⟨taken, htaken, hrest, hused⟩, hending, hfits⟩
    obtain ⟨body, last, rfl, hlast, hbody⟩ := hstatement.semicolon
    obtain ⟨inner, rfl, hinner⟩ := hrule.semicolon_last
    obtain ⟨front, final, rfl, hfront, hfinal⟩ := List.map_eq_append_iff.mp htaken
    obtain ⟨token, rfl, htoken⟩ := List.map_eq_singleton_iff.mp hfinal
    have hbefore : ∀ token ∈ front, token.kind ≠ .symbol ';' := by
      intro token hmem
      exact (hinner _ (hfront ▸ List.mem_map_of_mem hmem)).1
    rw [List.append_assoc, List.append_assoc] at hrest
    obtain ⟨heq, hfollowing⟩ :=
      eq_of_semicolon hlast htoken hbody hbefore hrest
    rw [← heq] at hused htaken
    rw [Nat.zero_add] at hused
    refine ⟨htaken.symm, hused ▸ hfits hne, ?_⟩
    obtain ⟨rest, ending', used⟩ := after
    simp_all
  · rintro ⟨rfl, hfits, rfl⟩
    exact ⟨⟨statement, rfl, rfl, by simp⟩, rfl, fun _ => hfits⟩

/-- The parser accepts the statements of the grammar that are not too long, and
reads from them what the grammar means. -/
theorem rule_eq_ok_iff_grammar {statement : List Token}
    (hstatement : IsStatement statement) (following : List Token)
    (ending : Nat) (reading : Reading) :
    compiler.rule ⟨statement ++ following, ending, 0⟩ = .ok reading ↔
      total (statement.map Token.length) ≤ compiler.limits.ruleCharsMax ∧
        ∃ source target condition,
          Grammar.Rule compiler (statement.map Token.kind)
            source target condition ∧
          reading = ⟨
            Rule.ofParts source target condition
              (Cursor.offset ⟨statement, ending, 0⟩),
            Cursor.offset ⟨statement.drop 2, ending, 0⟩,
            ⟨following, ending, total (statement.map Token.length)⟩⟩ := by
  have hoffsets : 3 ≤ statement.length →
      Cursor.offset ⟨statement ++ following, ending, 0⟩ =
          Cursor.offset ⟨statement, ending, 0⟩ ∧
        (Cursor.skip ⟨statement ++ following, ending, 0⟩ 2).offset =
          Cursor.offset ⟨statement.drop 2, ending, 0⟩ := by
    intro hlength
    match statement, hlength with
    | first :: slash :: second :: others, _ => exact ⟨rfl, rfl⟩
  rw [rule_eq_ok_iff]
  constructor
  · rintro ⟨kinds, source, target, condition, hpasses, hrule, hread, htarget⟩
    obtain ⟨rfl, hfits, hrest⟩ :=
      (passes_statement_iff hstatement hrule).mp hpasses
    have hlength := three_le_length hrule
    rw [List.length_map] at hlength
    obtain ⟨hstart, hsecond⟩ := hoffsets hlength
    refine ⟨hfits, source, target, condition, hrule, ?_⟩
    rw [← hstart, ← hsecond, ← hread, ← htarget, ← hrest]
  · rintro ⟨hfits, source, target, condition, hrule, rfl⟩
    have hlength := three_le_length hrule
    rw [List.length_map] at hlength
    obtain ⟨hstart, hsecond⟩ := hoffsets hlength
    exact ⟨_, source, target, condition,
      (passes_statement_iff hstatement hrule).mpr ⟨rfl, hfits, rfl⟩, hrule,
      by rw [hstart], hsecond.symm⟩

def wordStates : StateUniverse where
  userNames := ["AND", "3"]
  canonical := by
    intro name hmem
    rcases List.mem_pair.mp hmem with rfl | rfl
    · exact isCanonicalName_of_all (by decide) (by decide) (by decide)
    · exact isCanonicalName_of_all (by decide) (by decide) (by decide)
  distinct := by decide
  free_notMem := by decide
  length_le := by decide

def wordStatement : List Token :=
  Token.scan "and/3:(all@=#and and +2#3|3#free)or([n,SE]@-1#3);".toList

theorem rule_eq_ok_iff_grammar_words :
    IsStatement wordStatement ∧
      ∃ source target condition,
        Grammar.Rule ⟨wordStates, .moore, .standard⟩
          (wordStatement.map Token.kind) source target condition := by
  have hstatement : IsStatement wordStatement := by
    refine ⟨by decide, wordStatement.dropLast, ⟨.symbol ';', 48, 1⟩, ?_, rfl, ?_⟩
    · decide
    · decide
  have hok : ((Compiler.mk wordStates .moore .standard).rule
      ⟨wordStatement ++ [], 49, 0⟩).isOk = true := by decide +kernel
  obtain ⟨reading, hreading⟩ := exists_ok_of_isOk hok
  obtain ⟨-, source, target, condition, hrule, -⟩ :=
    (rule_eq_ok_iff_grammar hstatement [] 49 reading).mp hreading
  exact ⟨hstatement, source, target, condition, hrule⟩

end Compiler

end Cellular
