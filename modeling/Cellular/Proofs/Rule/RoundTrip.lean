import Cellular.Proofs.Rule.Rendering
import Cellular.Proofs.Rule.Settlement
import Mathlib.Data.List.Forall2

/-!
# Compiling a rendered table

The text of a canonical table is one statement per line.  Every statement is read
as the rule that the line was made from, at the place where the line starts, and
no diagnostic comes up (`compile_render`).
-/

namespace Cellular

/-! ## Statements in a row -/

theorem statements_append {statement more : List Token}
    (h : IsStatement statement) :
    statements (statement ++ more) = statement :: statements more := by
  obtain ⟨body, last, rfl, hlast, hbody⟩ := h.semicolon
  have hlegal : ∀ token ∈ body.head?, token.isIllegal = false := fun token hmem =>
    h.legal token (List.mem_append_left _ (List.mem_of_mem_head? hmem))
  rw [List.append_assoc]
  exact (Divided.closed hlegal hbody hlast (divided_statements more)).eq_statements.symm

theorem Compiler.collect_eq {rules : List Rule} {outcomes : List Outcome}
    (houtcomes : List.Forall₂
      (fun rule outcome => ∃ place, outcome = Outcome.rule rule place)
      rules outcomes)
    (hnodup : (rules.map Rule.signature).Nodup) {seen : List (String × String)}
    (hseen : ∀ rule ∈ rules, rule.signature ∉ seen) :
    collect seen outcomes = (rules, []) := by
  have hread : outcomes.filterMap Outcome.rule? = rules ∧
      ∀ diagnostic, .fault diagnostic ∉ outcomes := by
    clear hnodup hseen
    induction houtcomes with
    | nil => exact ⟨rfl, nofun⟩
    | cons houtcome _ ih =>
        obtain ⟨place, rfl⟩ := houtcome
        exact ⟨congrArg (_ :: ·) ih.1, by simpa using ih.2⟩
  obtain ⟨rfl, hfaults⟩ := hread
  exact collect_eq_rules hfaults hnodup hseen

theorem readStatement_eq {compiler : Compiler} {tokens : List Token}
    {source target : String} {condition : Option (Formula Clause)}
    (h : Grammar.Rule compiler (tokens.map Token.kind) source target condition)
    (hfits : total (tokens.map Token.length) ≤ compiler.limits.ruleCharsMax)
    (ending : Nat) :
    ∃ place, compiler.readStatement ending tokens =
      .rule (.ofParts source target condition
        (Cursor.offset ⟨tokens, ending, 0⟩)) place := by
  have hpasses : Cursor.Passes compiler.limits ⟨tokens, ending, 0⟩
      (tokens.map Token.kind) ⟨[], ending, total (tokens.map Token.length)⟩ :=
    ⟨⟨tokens, rfl, by simp, by simp⟩, rfl, fun _ => hfits⟩
  let reading : Compiler.Reading :=
    ⟨.ofParts source target condition (Cursor.offset ⟨tokens, ending, 0⟩),
      (Cursor.skip ⟨tokens, ending, 0⟩ 2).offset,
      ⟨[], ending, total (tokens.map Token.length)⟩⟩
  have hread : compiler.rule ⟨tokens, ending, 0⟩ = .ok reading :=
    Compiler.rule_eq_ok_iff.mpr
      ⟨_, source, target, condition, hpasses, h, rfl, rfl⟩
  exact ⟨reading.targetOffset, by rw [Compiler.readStatement, hread]⟩

/-! ## Lines -/

theorem illegality?_eq_none {token : Token} (h : token.isIllegal = false) :
    token.illegality? = none :=
  Token.illegality?_eq_none_iff.mpr h

theorem total_length_eq {tokens : List Token}
    (h : ∀ token ∈ tokens, token.length = token.kind.length) :
    total (tokens.map Token.length) =
      total ((tokens.map Token.kind).map TokenKind.length) := by
  rw [List.map_map, List.map_congr_left h]
  rfl

theorem total_length_of_scanFrom {comment : Bool} {offset : Nat} {text : List Char}
    {tokens others : List Token}
    (h : Token.scanFrom comment offset text = tokens ++ others) :
    total (tokens.map Token.length) =
      total ((tokens.map Token.kind).map TokenKind.length) :=
  total_length_eq fun _ hmem =>
    Token.length_eq_of_mem_scanFrom (h ▸ List.mem_append_left _ hmem)

theorem Spells.map_kind_scan {text : List Char} {kinds : List TokenKind}
    (h : Spells text kinds) : (Token.scan text).map Token.kind = kinds := by
  obtain ⟨tokens, hkinds, hscan⟩ := h 0 [] Token.apart_nil
  rw [List.append_nil, Token.scanFrom, List.append_nil] at hscan
  rw [Token.scan, hscan, hkinds]

theorem Spells.total_length {text : List Char} {kinds : List TokenKind}
    (h : Spells text kinds) :
    total ((Token.scan text).map Token.length) =
      total (kinds.map TokenKind.length) := by
  have hscan : Token.scanFrom false 0 text = Token.scan text ++ [] :=
    (List.append_nil _).symm
  rw [total_length_of_scanFrom hscan, h.map_kind_scan]

/-! ## Reading the line of a rule -/

inductive Compiler.Reads (compiler : Compiler) (rule : Rule) : Outcome → Prop
  | rule (place : Nat) (hfits : rule.chars ≤ compiler.limits.ruleCharsMax) :
      compiler.Reads rule (.rule rule place)
  | fault (diagnostic : Diagnostic)
      (hlong : compiler.limits.ruleCharsMax < rule.chars) :
      compiler.Reads rule (.fault diagnostic)

section

variable {compiler : Compiler} {rule : Rule}

theorem Compiler.Reads.eq_rule {outcome : Outcome} (h : compiler.Reads rule outcome)
    (hfits : rule.chars ≤ compiler.limits.ruleCharsMax) :
    ∃ place, outcome = .rule rule place := by
  cases h with
  | rule place _ => exact ⟨place, rfl⟩
  | fault diagnostic hlong => exact absurd hfits (Nat.not_le.mpr hlong)

theorem reads_statement {tokens : List Token}
    (h : Grammar.Rule compiler (tokens.map Token.kind) rule.source rule.target
      rule.condition)
    (hchars : total (tokens.map Token.length) = rule.chars) (ending : Nat) :
    compiler.Reads
      (.ofParts rule.source rule.target rule.condition
        (Cursor.offset ⟨tokens, ending, 0⟩))
      (compiler.readStatement ending tokens) := by
  rcases Nat.lt_or_ge compiler.limits.ruleCharsMax rule.chars with hlong | hfits
  · have hstatement := isStatement_of_rule h
    have hlegal : tokens.any Token.isIllegal = false := by
      simpa using hstatement.legal
    rw [Compiler.readStatement]
    cases hread : compiler.rule ⟨tokens, ending, 0⟩ with
    | ok reading =>
        obtain ⟨kinds, source, target, condition, hpasses, hrule, -⟩ :=
          Compiler.rule_eq_ok_iff.mp hread
        rw [← List.append_nil tokens] at hpasses
        obtain ⟨-, hfits, -⟩ :=
          (Compiler.passes_statement_iff hstatement hrule).mp hpasses
        exact absurd (hchars ▸ hfits) (Nat.not_le.mpr hlong)
    | error diagnostic =>
        simp only [hlegal, Bool.false_eq_true, if_false]
        exact .fault diagnostic hlong
  · obtain ⟨place, hread⟩ := readStatement_eq h (hchars ▸ hfits) ending
    rw [hread]
    exact .rule place hfits

theorem Rule.IsPrintable.exists_letter (h : rule.IsPrintable compiler) :
    ∃ c rest, rule.render.toList = c :: rest ∧ Text.isNameChar c = true := by
  have hname := StateUniverse.isCanonicalName_of_mem h.source.1
  have htext : ∃ rest, rule.render.toList = rule.source.toList ++ rest := by
    cases hcondition : rule.condition <;> simp [render, hcondition]
  obtain ⟨rest, hrest⟩ := htext
  cases hsource : rule.source.toList with
  | nil =>
      have hlength := hname.length_ge
      simp [hsource, stateCharsMin] at hlength
  | cons c letters =>
      exact ⟨c, letters ++ rest, by rw [hrest, hsource]; rfl,
        (hname.chars c (by simp [hsource])).1⟩

theorem Rule.IsPrintable.scan_line (h : rule.IsPrintable compiler)
    (ending offset : Nat) (rest : List Char) :
    ∃ statement,
      Token.scanFrom false offset (rule.render.toList ++ '\n' :: rest) =
        statement ++ Token.scanFrom false (offset + rule.render.length + 1) rest ∧
      IsStatement statement ∧
      compiler.Reads (.ofParts rule.source rule.target rule.condition offset)
        (compiler.readStatement ending statement) := by
  obtain ⟨kinds, hspells, hrule⟩ := prints_rule h
  obtain ⟨statement, hkinds, hscan⟩ := hspells offset ('\n' :: rest)
    (Token.apart_cons (by decide))
  rw [← hkinds] at hrule
  have hstatement := isStatement_of_rule hrule
  have hchars : total (statement.map Token.length) = rule.chars := by
    rw [total_length_of_scanFrom hscan, hkinds, Rule.chars, hspells.total_length]
  have hread := reads_statement hrule hchars ending
  rw [Token.scanFrom_blank (by decide) (by decide), String.length_toList] at hscan
  have hstart : Cursor.offset ⟨statement, ending, 0⟩ = offset := by
    obtain ⟨c, text, htext, hletter⟩ := h.exists_letter
    obtain ⟨letters, length, others, hword, -⟩ := Token.offset_consLetter offset c
      (Token.scanFrom false (offset + 1) (text ++ '\n' :: rest))
    rw [htext, List.cons_append, Token.scanFrom_letter hletter, hword] at hscan
    obtain ⟨body, last, rfl, -⟩ := hstatement.semicolon
    cases body with
    | nil =>
        obtain ⟨rfl, -⟩ := List.cons_eq_cons.mp hscan
        rfl
    | cons token body =>
        obtain ⟨rfl, -⟩ := List.cons_eq_cons.mp hscan
        rfl
  rw [hstart] at hread
  exact ⟨statement, hscan, hstatement, hread⟩

end

namespace RuleTable

/-- No two rules have the same pair of states, and there are not too many. -/
structure IsCanonical (compiler : Compiler) (table : RuleTable) : Prop where
  rules : ∀ rule ∈ table.rules, rule.IsCanonical compiler
  signatures : (table.rules.map Rule.signature).Nodup
  size : table.size ≤ compiler.limits.rulesMax

theorem render_cons (rule : Rule) (rules : List Rule) :
    (RuleTable.mk (rule :: rules)).render =
      rule.render ++ "\n" ++ (RuleTable.mk rules).render := by
  simp [render, String.join_cons]

/-- The rules as they come out of their text, which starts at `offset`: every
rule stands where the lines before it end, with the computed hint. -/
def placed (table : RuleTable) (offset : Nat) : List Rule :=
  table.rules.mapIdx fun index rule =>
    .ofParts rule.source rule.target rule.condition
      (offset + (RuleTable.mk (table.rules.take index)).render.length)

theorem placed_cons (rule : Rule) (rules : List Rule) (offset : Nat) :
    (RuleTable.mk (rule :: rules)).placed offset =
      .ofParts rule.source rule.target rule.condition offset ::
        (RuleTable.mk rules).placed (offset + rule.render.length + 1) := by
  have hline : ∀ index, offset +
      (RuleTable.mk ((rule :: rules).take (index + 1))).render.length =
        offset + rule.render.length + 1 +
          (RuleTable.mk (rules.take index)).render.length := by
    intro index
    rw [List.take_succ_cons, render_cons, String.length_append,
      String.length_append]
    have hnewline : "\n".length = 1 := rfl
    omega
  have hstart : offset + (RuleTable.mk ((rule :: rules).take 0)).render.length =
      offset := rfl
  simp only [placed, List.mapIdx_cons, hline, hstart]

theorem map_placed {β : Type} {f : Rule → β}
    (hf : ∀ rule offset,
      f (.ofParts rule.source rule.target rule.condition offset) = f rule)
    (rules : List Rule) (offset : Nat) :
    ((RuleTable.mk rules).placed offset).map f = rules.map f := by
  induction rules generalizing offset with
  | nil => rfl
  | cons rule rules ih => rw [placed_cons, List.map_cons, List.map_cons, ih, hf]

theorem signatures_placed (rules : List Rule) (offset : Nat) :
    ((RuleTable.mk rules).placed offset).map Rule.signature =
      rules.map Rule.signature :=
  map_placed (fun _ _ => rfl) rules offset

theorem forall_chars_placed (rules : List Rule) (offset most : Nat) :
    (∀ rule ∈ (RuleTable.mk rules).placed offset, rule.chars ≤ most) ↔
      ∀ rule ∈ rules, rule.chars ≤ most := by
  have hchars : ∀ list : List Rule, (∀ rule ∈ list, rule.chars ≤ most) ↔
      ∀ chars ∈ list.map Rule.chars, chars ≤ most := fun list => by
    rw [List.forall_mem_map]
  rw [hchars, hchars, map_placed fun _ _ => rfl]

theorem reads_render {compiler : Compiler} {rules : List Rule}
    (h : ∀ rule ∈ rules, rule.IsPrintable compiler) (ending offset : Nat) :
    (∀ token ∈ Token.scanFrom false offset (RuleTable.mk rules).render.toList,
        token.isIllegal = false) ∧
      List.Forall₂ compiler.Reads ((RuleTable.mk rules).placed offset)
        ((statements (Token.scanFrom false offset
          (RuleTable.mk rules).render.toList)).map
            (compiler.readStatement ending)) := by
  -- The scanner is outside a word and a comment wherever a line starts.
  induction rules generalizing offset with
  | nil => exact ⟨nofun, .nil⟩
  | cons rule rules ih =>
      obtain ⟨statement, hscan, hstatement, hread⟩ :=
        (h rule List.mem_cons_self).scan_line ending offset
          (RuleTable.mk rules).render.toList
      obtain ⟨hlegal, houtcomes⟩ :=
        ih (fun other hmem => h other (List.mem_cons_of_mem _ hmem))
          (offset + rule.render.length + 1)
      have htext : (RuleTable.mk (rule :: rules)).render.toList =
          rule.render.toList ++ '\n' :: (RuleTable.mk rules).render.toList := by
        rw [render_cons, String.toList_append, String.toList_append,
          List.append_assoc]
        rfl
      rw [htext, hscan, statements_append hstatement, placed_cons, List.map_cons]
      refine ⟨fun token hmem => ?_, .cons hread houtcomes⟩
      rcases List.mem_append.mp hmem with hfirst | hlater
      · exact hstatement.legal token hfirst
      · exact hlegal token hlater

theorem outcomes_render {compiler : Compiler} {rules : List Rule}
    (h : ∀ rule ∈ rules, rule.IsCanonical compiler) (ending offset : Nat) :
    (∀ token ∈ Token.scanFrom false offset (RuleTable.mk rules).render.toList,
        token.isIllegal = false) ∧
      List.Forall₂ (fun rule outcome => ∃ place, outcome = Outcome.rule rule place)
        ((RuleTable.mk rules).placed offset)
        ((statements (Token.scanFrom false offset
          (RuleTable.mk rules).render.toList)).map
            (compiler.readStatement ending)) := by
  obtain ⟨hlegal, houtcomes⟩ :=
    reads_render (fun rule hmem => (h rule hmem).isPrintable) ending offset
  have hfits := (forall_chars_placed rules offset _).mpr fun rule hmem => (h rule hmem).fits
  refine ⟨hlegal, ((List.forall₂_and_left _ _).mpr ⟨hfits, houtcomes⟩).imp ?_⟩
  rintro rule outcome ⟨hfits, hread⟩
  exact hread.eq_rule hfits

/-- The compiler gives back the table whose text it reads.  Every rule has its
states, its condition and the computed hint, and stands where its line starts. -/
theorem compile_render {compiler : Compiler} {table : RuleTable}
    (h : table.IsCanonical compiler) :
    compiler.compile table.render =
      ⟨⟨table.rules.mapIdx fun index rule =>
        .ofParts rule.source rule.target rule.condition
          (RuleTable.mk (table.rules.take index)).render.length⟩, []⟩ := by
  have hplaced : table.placed 0 = table.rules.mapIdx fun index rule =>
      .ofParts rule.source rule.target rule.condition
        (RuleTable.mk (table.rules.take index)).render.length := by
    simp only [placed, Nat.zero_add]
  obtain ⟨hlegal, houtcomes⟩ :=
    outcomes_render h.rules table.render.toList.length 0
  have hnodup : ((table.placed 0).map Rule.signature).Nodup := by
    rw [signatures_placed]
    exact h.signatures
  have hread : compiler.readTokens table.render.toList.length
      (Token.scan table.render.toList) = (table.placed 0, []) :=
    Compiler.collect_eq houtcomes hnodup (by simp)
  have hnone : (Token.scan table.render.toList).filterMap Token.illegality? =
      [] := by
    rw [List.filterMap_eq_nil_iff]
    exact fun token hmem => illegality?_eq_none (hlegal token hmem)
  have hsize : ¬compiler.limits.rulesMax < (table.placed 0).length := by
    rw [placed, List.length_mapIdx]
    exact Nat.not_lt.mpr h.size
  simp only [Compiler.compile, Compiler.compileChars, hread, hnone,
    List.append_nil, List.mergeSort_nil]
  rw [if_neg hsize, hplaced]

def wordCompiler : Compiler := ⟨Compiler.wordStates, .moore, .standard⟩

def wordTable : RuleTable := ⟨[
  .ofParts "AND" "3" (some (.any [
    .leaf ⟨.all, .any [
      .all [.leaf ⟨1, .equal, "AND"⟩, .leaf ⟨2, .more, "3"⟩],
      .leaf ⟨3, .equal, "FREE"⟩]⟩,
    .leaf ⟨.directions [.north, .southEast], .leaf ⟨1, .less, "3"⟩⟩])) 0,
  .ofParts "3" "FREE" none 0]⟩

theorem wordTable_isCanonical : wordTable.IsCanonical wordCompiler := by
  have hand : wordCompiler.Admits "AND" := ⟨by decide, by decide⟩
  have hthree : wordCompiler.Admits "3" := ⟨by decide, by decide⟩
  have hfree : wordCompiler.Admits "FREE" := ⟨by decide, by decide⟩
  refine ⟨?_, by decide, by decide⟩
  intro rule hmem
  have hcases : rule ∈ [_, _] := hmem
  rcases List.mem_pair.mp hcases with rfl | rfl
  · refine ⟨hand, hthree, by decide, ?_, by decide +kernel⟩
    rintro formula ⟨⟩
    refine ⟨[[⟨.all, _⟩], [⟨.directions _, _⟩]], rfl, ?_⟩
    simp only [List.forall_mem_cons, List.not_mem_nil, false_implies, implies_true,
      and_true]
    refine ⟨⟨trivial, [[⟨1, .equal, "AND"⟩, ⟨2, .more, "3"⟩],
      [⟨3, .equal, "FREE"⟩]], rfl, ?_⟩, ⟨⟨by decide, by decide, by decide⟩,
      [[⟨1, .less, "3"⟩]], rfl, ?_⟩⟩
    · simp only [List.forall_mem_cons, List.not_mem_nil, false_implies,
        implies_true, and_true]
      exact ⟨⟨⟨hand, by decide⟩, ⟨hthree, by decide⟩⟩, ⟨hfree, by decide⟩⟩
    · simp only [List.forall_mem_cons, List.not_mem_nil, false_implies,
        implies_true, and_true]
      exact ⟨hthree, by decide⟩
  · exact ⟨hthree, hfree, by decide, nofun, by decide +kernel⟩

theorem compile_render_words :
    wordTable.IsCanonical wordCompiler ∧
      (wordCompiler.compile wordTable.render).diagnostics = [] ∧
      (wordCompiler.compile wordTable.render).table.rules.map Rule.offset =
        [0, 68] := by
  have hcanonical := wordTable_isCanonical
  rw [compile_render hcanonical]
  exact ⟨hcanonical, rfl, by decide +kernel⟩

end RuleTable

end Cellular
