import Cellular.Proofs.Rule.Extents
import Cellular.Proofs.Rule.Recovery
import Mathlib.Data.List.Perm.Subperm

/-!
# Texts in a row

A text that closes its statements has no say in how the text on the next lines is read.
All that crosses over are the pairs of states that have a rule already
(`compile_append_line`).
-/

namespace Cellular.Compiler

variable {compiler : Compiler} {first second : String}

theorem scan_append_line (first second : String) :
    Token.scan (first ++ "\n" ++ second).toList =
      Token.scan first.toList ++ (Token.scan second.toList).map
        (Token.relocate (· + (first.length + 1))) := by
  have htext : (first ++ "\n" ++ second).toList =
      first.toList ++ '\n' :: second.toList := by simp
  have hline : ∀ comment, Token.scanFrom comment first.length ('\n' :: second.toList) =
      Token.scanFrom false (0 + (first.length + 1)) second.toList := by
    intro comment
    rw [Nat.zero_add]
    cases comment <;> rfl
  rw [htext, Token.scan, Token.scanFrom_append (Token.apart_cons (by decide)),
    Nat.zero_add, String.length_toList, hline, Token.scanFrom_shift]
  rfl

theorem textOutcomes_append_line (h : Closed (Token.scan first.toList))
    (compiler : Compiler) (second : String) :
    compiler.textOutcomes (first ++ "\n" ++ second) =
      compiler.textOutcomes first ++ (compiler.textOutcomes second).map
        (Outcome.relocate (· + (first.length + 1))) := by
  have hlength : (first ++ "\n" ++ second).length =
      second.length + (first.length + 1) := by
    have hline : "\n".length = 1 := rfl
    rw [String.length_append, String.length_append]
    omega
  rw [textOutcomes, scan_append_line, outcomes_append h,
    outcomes_relocate compiler (· + (first.length + 1)) (.inr hlength),
    outcomes_of_closed h compiler _ first.length]
  rfl

theorem illegalities_append_line (first second : String) :
    (Token.scan (first ++ "\n" ++ second).toList).filterMap Token.illegality? =
      (Token.scan first.toList).filterMap Token.illegality? ++
        ((Token.scan second.toList).filterMap Token.illegality?).map
          (Diagnostic.relocate (· + (first.length + 1))) := by
  rw [scan_append_line, List.filterMap_append, illegalities_relocate]

/-- The diagnostics for the rules of a text whose pair of states is known already. -/
def duplicates (known : List Rule) (text : String) (rules : List Rule) :
    List Diagnostic :=
  (rules.filter fun rule => (known.map Rule.signature).contains rule.signature).map
    fun rule => ⟨rule.targetPlace text, .duplicateRule⟩

section

variable (hclosed : Closed (Token.scan first.toList))

include hclosed

theorem rules_append_line (compiler : Compiler) (second : String) :
    (compiler.compile (first ++ "\n" ++ second)).table.rules =
      (compiler.compile first).table.rules ++
        ((compiler.compile second).table.rules.filter fun rule =>
          rule.signature ∉ (compiler.compile first).table.rules.map Rule.signature).map
            (Rule.relocate (· + (first.length + 1))) := by
  simp only [rules_eq_collect, textOutcomes_append_line hclosed, collect_append,
    collect_relocate, List.append_nil]
  rw [← List.nil_append (((collect [] (compiler.textOutcomes first)).1).map _),
    rules_collect_append, List.nil_append]

theorem faults_append_line (compiler : Compiler) (second : String) :
    (collect [] (compiler.textOutcomes (first ++ "\n" ++ second))).2.Perm
      ((collect [] (compiler.textOutcomes first)).2 ++
        ((collect [] (compiler.textOutcomes second)).2 ++
          duplicates (compiler.compile first).table.rules second
            (compiler.compile second).table.rules).map
              (Diagnostic.relocate (· + (first.length + 1)))) := by
  have hplaces : ∀ rule place, .rule rule place ∈ compiler.textOutcomes second →
      place = rule.targetPlace second := fun _ _ => targetPlace_eq
  have hseen := faults_collect_append hplaces []
    ((compiler.compile first).table.rules.map Rule.signature)
  simp only [textOutcomes_append_line hclosed, collect_append, collect_relocate,
    List.append_nil]
  refine List.Perm.append_left _ (List.Perm.map _ ?_)
  rw [rules_eq_collect] at hseen ⊢
  simp only [duplicates, rules_eq_collect, List.contains_eq_mem]
  exact hseen

variable (hsize : (compiler.compile (first ++ "\n" ++ second)).table.size ≤
  compiler.limits.rulesMax)

include hsize

theorem size_le_append_line :
    (compiler.compile first).table.size ≤ compiler.limits.rulesMax ∧
      (compiler.compile second).table.size ≤ compiler.limits.rulesMax := by
  have hnodup := nodup_signatures_compile compiler second
  have hknown : ((compiler.compile second).table.rules.filter fun rule =>
      rule.signature ∈ (compiler.compile first).table.rules.map Rule.signature).length ≤
        (compiler.compile first).table.size := by
    have hsubset : ∀ pair ∈ ((compiler.compile second).table.rules.filter fun rule =>
        rule.signature ∈ (compiler.compile first).table.rules.map Rule.signature).map
          Rule.signature, pair ∈ (compiler.compile first).table.rules.map Rule.signature := by
      intro pair hmem
      obtain ⟨rule, hrule, rfl⟩ := List.mem_map.mp hmem
      simpa using (List.mem_filter.mp hrule).2
    have hshared := (hnodup.sublist (List.filter_sublist.map _)).subperm hsubset
    simpa only [List.length_map, RuleTable.size] using hshared.length_le
  have hparts := List.length_eq_length_filter_add
    (l := (compiler.compile second).table.rules) fun rule =>
      rule.signature ∈ (compiler.compile first).table.rules.map Rule.signature
  rw [RuleTable.size, rules_append_line hclosed, List.length_append,
    List.length_map] at hsize
  simp only [RuleTable.size] at hknown ⊢
  simp only [decide_not] at hsize
  omega

/-- A text that closes its statements does not change how the text behind it is read.
Of the rules of the second text only those are dropped whose pair of states has a rule in
the first, and each of them leaves one diagnostic at its second state. -/
theorem compile_append_line :
    let one := compiler.compile first
    let two := compiler.compile second
    let both := compiler.compile (first ++ "\n" ++ second)
    let move := (· + (first.length + 1))
    compiler.recover (first ++ "\n" ++ second).length
        (Token.scan (first ++ "\n" ++ second).toList) =
      compiler.recover first.length (Token.scan first.toList) ++
        (compiler.recover second.length (Token.scan second.toList)).map
          (Outcome.relocate move) ∧
    both.table.rules = one.table.rules ++
      (two.table.rules.filter fun rule =>
        rule.signature ∉ one.table.rules.map Rule.signature).map (Rule.relocate move) ∧
    both.diagnostics.Perm (one.diagnostics ++
      (two.diagnostics ++ duplicates one.table.rules second two.table.rules).map
        (Diagnostic.relocate move)) ∧
    both.diagnostics.Pairwise (·.offset < ·.offset) := by
  obtain ⟨hone, htwo⟩ := size_le_append_line hclosed hsize
  refine ⟨?_, rules_append_line hclosed compiler second, ?_,
    pairwise_diagnostics_compile hsize⟩
  · simp only [recover_eq_outcomes]
    exact textOutcomes_append_line hclosed compiler second
  · refine (perm_diagnostics_compile hsize).trans ?_
    rw [illegalities_append_line]
    have hfirst := perm_diagnostics_compile hone
    have hsecond := (perm_diagnostics_compile htwo).append_right
      (duplicates (compiler.compile first).table.rules second
        (compiler.compile second).table.rules)
    refine .trans ?_ (hfirst.symm.append (hsecond.symm.map _))
    refine ((faults_append_line hclosed compiler second).append_left _).trans ?_
    simp only [List.map_append, List.append_assoc]
    refine List.Perm.append_left _ ?_
    exact List.perm_append_comm_assoc _ _ _

end

/-- A rule, two statements without a rule and an illegal character behind them. -/
def closedText : String := "and/3; $3/ ; 3/$ ;$ "

def openText : String := "! ;\nand/3; 3/and:(; free/3; 3/free;and/"

theorem compile_append_line_words :
    Closed (Token.scan closedText.toList) ∧
      (wordCompiler.compile (closedText ++ "\n" ++ openText)).table.size ≤
        wordCompiler.limits.rulesMax ∧
      (wordCompiler.compile (closedText ++ "\n" ++ openText)).table.rules.map
        Rule.offset = [0, 41, 49] ∧
      (wordCompiler.compile (closedText ++ "\n" ++ openText)).diagnostics.Pairwise
        (·.offset < ·.offset) := by
  have hclosed : Closed (Token.scan closedText.toList) := by decide
  have hsize : (wordCompiler.compile (closedText ++ "\n" ++ openText)).table.size ≤
      wordCompiler.limits.rulesMax := by decide +kernel
  obtain ⟨-, hrules, -, hordered⟩ := compile_append_line hclosed hsize
  refine ⟨hclosed, hsize, ?_, hordered⟩
  rw [hrules]
  decide +kernel

end Cellular.Compiler
