import Cellular.Proofs.Rule.Compiled
import Cellular.Proofs.Rule.RoundTrip

/-!
# Compiling compiled rules

A compiled rule is canonical but for the length of its text, since the text spells
out what its statement may leave out, such as a count of one.  A compiler of the same
states and directions, but with any limit on the length of a rule, reads the text of a
compiled table as the rules of the table that are not too long
(`rules_compile_render`).  It has something to report exactly if there are others, or
too many of them (`isOk_compile_render_iff`).
-/

namespace Cellular

open Text

variable {compiler printer : Compiler} {kinds : List TokenKind}

/-! ## What the productions stand for -/

namespace Grammar

theorem State.admits {name : String} (h : State compiler kinds name) :
    compiler.Admits name := by
  cases h with
  | word hname hdeclared hlength =>
      refine ⟨hdeclared, ?_⟩
      rwa [← hname, upperCase, String.length_map, String.length_ofList]

theorem Count.le_countMax {number : Nat} (h : Count kinds number) :
    number ≤ Compiler.countMax := by
  cases h with
  | bare => decide
  | digits _ _ hbound => exact hbound

theorem Condition.isCanonical {condition : CountCondition String}
    (h : Condition compiler kinds condition) : condition.IsCanonical compiler := by
  cases h with
  | mk _ hcount hstate => exact ⟨hstate.admits, hcount.le_countMax⟩

theorem Within.isCanonical {scope : Scope} (h : Within compiler kinds scope) :
    scope.IsCanonical compiler := by
  have hcontains := @Within.contains compiler kinds
  cases h with
  | all => trivial
  | single hdirection =>
      exact ⟨by simp, List.nodup_singleton _, hcontains (.single hdirection)⟩
  | listed hlisted hnodup =>
      exact ⟨hlisted.ne_nil, hnodup, hcontains (.listed hlisted hnodup)⟩

theorem Terms.isGrouped {α : Type} {item : List TokenKind → α → Prop}
    {property : α → Prop} {formula : Formula α} (h : Terms item kinds formula)
    (hitem : ∀ kinds value, item kinds value → property value) :
    formula.IsGrouped property := by
  obtain ⟨groups, hgroups, rfl⟩ := h
  have hgroup : ∀ group ∈ groups, ∃ kinds, Joined item IsAnd kinds group :=
    fun group hmem => hgroups.exists_item hmem
  have hsome : ∀ group ∈ groups, group ≠ [] := by
    intro group hmem
    obtain ⟨kinds, hjoined⟩ := hgroup group hmem
    exact hjoined.ne_nil
  refine ⟨groups, ofGroups_eq_treeOf hgroups.ne_nil hsome, ?_⟩
  intro group hmem value hvalue
  obtain ⟨kinds, hjoined⟩ := hgroup group hmem
  obtain ⟨kinds, hvalue⟩ := hjoined.exists_item hvalue
  exact hitem kinds value hvalue

theorem Clause.isCanonical {clause : Cellular.Clause}
    (h : Clause compiler kinds clause) : clause.IsCanonical compiler := by
  cases h with
  | mk hscope _ hcondition =>
      exact ⟨hscope.isCanonical,
        hcondition.isGrouped fun _ _ hcount => hcount.isCanonical⟩

theorem Rule.isPrintable {source target : String}
    {condition : Option (Formula Cellular.Clause)}
    (h : Rule compiler kinds source target condition) (offset : Nat) :
    (Cellular.Rule.ofParts source target condition offset).IsPrintable compiler := by
  obtain ⟨hsource, htarget, hne, hending⟩ := h
  refine ⟨hsource.admits, htarget.admits, hne, ?_⟩
  rintro formula ⟨⟩
  cases hending with
  | conditional hclauses =>
      exact hclauses.isGrouped fun _ _ hclause => hclause.isCanonical

end Grammar

/-! ## Printing for another compiler -/

namespace Compiler

/-- What may be written for one compiler may be written for the other. -/
structure Covers (printer compiler : Compiler) : Prop where
  names : ∀ name, compiler.Admits name → printer.Admits name
  directions : ∀ direction, compiler.neighborhood.contains direction = true →
    printer.neighborhood.contains direction = true

theorem admits_standard {states : StateUniverse} (neighborhood : Neighborhood)
    {name : String} (h : name ∈ states.names) :
    Admits ⟨states, neighborhood, .standard⟩ name := by
  have hname := StateUniverse.isCanonicalName_of_mem h
  refine ⟨h, ?_⟩
  rw [Limits.admitsLength, Bool.and_eq_true, decide_eq_true_eq, decide_eq_true_eq,
    ← String.length_toList]
  exact ⟨hname.length_ge, hname.length_le⟩

theorem covers_standard (compiler : Compiler) :
    Covers ⟨compiler.states, compiler.neighborhood, .standard⟩ compiler where
  names _ h := admits_standard compiler.neighborhood h.1
  directions _ h := h

end Compiler

theorem Formula.IsGrouped.mono {α : Type} {first second : α → Prop}
    {formula : Formula α} (h : formula.IsGrouped first)
    (himp : ∀ value, first value → second value) : formula.IsGrouped second := by
  obtain ⟨groups, hformula, hproperty⟩ := h
  exact ⟨groups, hformula, fun group hgroup value hvalue =>
    himp value (hproperty group hgroup value hvalue)⟩

theorem Scope.IsCanonical.mono {scope : Scope} (h : scope.IsCanonical compiler)
    (hcovers : printer.Covers compiler) : scope.IsCanonical printer := by
  cases scope with
  | all => trivial
  | directions listed =>
      obtain ⟨hsome, hnodup, hcontains⟩ := h
      exact ⟨hsome, hnodup, fun direction hmem =>
        hcovers.directions direction (hcontains direction hmem)⟩

theorem Clause.IsCanonical.mono {clause : Clause} (h : clause.IsCanonical compiler)
    (hcovers : printer.Covers compiler) : clause.IsCanonical printer where
  scope := h.scope.mono hcovers
  condition := h.condition.mono fun _ hcount =>
    ⟨hcovers.names _ hcount.state, hcount.count⟩

theorem Rule.IsPrintable.mono {rule : Rule} (h : rule.IsPrintable compiler)
    (hcovers : printer.Covers compiler) : rule.IsPrintable printer where
  source := hcovers.names _ h.source
  target := hcovers.names _ h.target
  source_ne_target := h.source_ne_target
  condition formula hformula :=
    (h.condition formula hformula).mono fun _ hclause => hclause.mono hcovers

theorem Compiler.exists_source_of_mem_compile {text : String} {rule : Rule}
    (h : rule ∈ (compiler.compile text).table.rules) :
    ∃ kinds source target condition offset,
      Grammar.Rule compiler kinds source target condition ∧
        rule = .ofParts source target condition offset ∧
        total (kinds.map TokenKind.length) ≤ compiler.limits.ruleCharsMax := by
  rw [rules_compile] at h
  obtain ⟨place, hmem⟩ := mem_collect h
  obtain ⟨statement, hpart, hstatement⟩ := List.mem_map.mp hmem
  have hlengths : ∀ token ∈ statement, token.length = token.kind.length := by
    have hwithin := ((divided_statements _).isRun statement hpart).2
    exact fun token htoken => Token.length_eq_of_mem_scanFrom (hwithin.subset htoken)
  rw [readStatement] at hstatement
  split at hstatement
  · rename_i reading hreading
    obtain ⟨kinds, source, target, condition, hpasses, hrule, hread, -⟩ :=
      rule_eq_ok_iff.mp hreading
    obtain ⟨rfl, -⟩ := Outcome.rule.inj hstatement
    refine ⟨kinds, source, target, condition, _, hrule, hread, ?_⟩
    obtain ⟨⟨taken, rfl, htaken, hused⟩, -, hfits⟩ := hpasses
    dsimp only at htaken hused
    have hsome : taken.map Token.kind ≠ [] := by
      have hlength := three_le_length hrule
      intro hnil
      rw [hnil] at hlength
      exact absurd hlength (by decide)
    have htokens : ∀ token ∈ taken, token.length = token.kind.length :=
      fun token htoken => hlengths token (htaken ▸ List.mem_append_left _ htoken)
    rw [← total_length_eq htokens]
    have hlimit := hfits hsome
    omega
  · split at hstatement <;> cases hstatement

theorem Compiler.isPrintable_of_mem_compile {text : String} {rule : Rule}
    (h : rule ∈ (compiler.compile text).table.rules) : rule.IsPrintable compiler := by
  obtain ⟨kinds, source, target, condition, offset, hrule, rfl, -⟩ :=
    exists_source_of_mem_compile h
  exact hrule.isPrintable offset

/-! ## Tables -/

def Rule.transition (rule : Rule) :
    String × String × Option (Formula Clause) × Bool :=
  (rule.source, rule.target, rule.condition, rule.matchesAll)

def Rule.Fits (limits : Limits) (rule : Rule) : Prop :=
  rule.chars ≤ limits.ruleCharsMax

instance (limits : Limits) (rule : Rule) : Decidable (rule.Fits limits) :=
  inferInstanceAs (Decidable (_ ≤ _))

theorem Compiler.collect_reads {rules : List Rule} {outcomes : List Outcome}
    (h : List.Forall₂ compiler.Reads rules outcomes)
    (hnodup : (rules.map Rule.signature).Nodup) {seen : List (String × String)}
    (hseen : ∀ rule ∈ rules, rule.signature ∉ seen) :
    (collect seen outcomes).1 = rules.filter (Rule.Fits compiler.limits) ∧
      ((collect seen outcomes).2 = [] ↔ ∀ rule ∈ rules, rule.Fits compiler.limits) := by
  -- A rule that is too long does not take its pair of states.
  induction h generalizing seen with
  | nil => simp [collect]
  | @cons rule outcome rules outcomes hread _ ih =>
      rw [List.map_cons, List.nodup_cons] at hnodup
      rw [List.forall_mem_cons] at hseen
      cases hread with
      | rule place hfits =>
          have hnew : ∀ other ∈ rules, other.signature ∉ rule.signature :: seen := by
            intro other hmem hsignature
            rcases List.mem_cons.mp hsignature with heq | hold
            · exact hnodup.1 (heq ▸ List.mem_map_of_mem hmem)
            · exact hseen.2 other hmem hold
          obtain ⟨hrules, hfaults⟩ := ih hnodup.2 hnew
          have hkept : rule.Fits compiler.limits := hfits
          rw [collect, if_neg hseen.1, List.filter_cons_of_pos (by simpa),
            List.forall_mem_cons, ← hrules]
          exact ⟨rfl, hfaults.trans (and_iff_right hkept).symm⟩
      | fault diagnostic hlong =>
          obtain ⟨hrules, -⟩ := ih hnodup.2 hseen.2
          have hlost : ¬rule.Fits compiler.limits := Nat.not_le.mpr hlong
          rw [collect, List.filter_cons_of_neg (by simpa), List.forall_mem_cons]
          exact ⟨hrules, by simp [hlost]⟩

namespace RuleTable

variable {table : RuleTable}

structure Fits (limits : Limits) (table : RuleTable) : Prop where
  size : table.size ≤ limits.rulesMax
  rules : ∀ rule ∈ table.rules, rule.Fits limits

instance (limits : Limits) (table : RuleTable) : Decidable (table.Fits limits) :=
  decidable_of_iff (table.size ≤ limits.rulesMax ∧
    ∀ rule ∈ table.rules, rule.Fits limits) ⟨fun h => ⟨h.1, h.2⟩, fun h => ⟨h.1, h.2⟩⟩

/-- Every rule is canonical but for the length of its text and has the computed hint,
and no two have the same pair of states. -/
structure IsPrintable (compiler : Compiler) (table : RuleTable) : Prop where
  rules : ∀ rule ∈ table.rules, rule.IsPrintable compiler
  hints : ∀ rule ∈ table.rules, rule.matchesAll = Rule.mayMatchAll rule.condition
  signatures : (table.rules.map Rule.signature).Nodup

theorem isPrintable_compile (hcovers : printer.Covers compiler) (text : String) :
    (compiler.compile text).table.IsPrintable printer where
  rules _ hmem := (Compiler.isPrintable_of_mem_compile hmem).mono hcovers
  hints _ hmem := (Compiler.isSound_of_mem_compile hmem).hint
  signatures := Compiler.nodup_signatures_compile compiler text

theorem map_filter_placed {rules : List Rule}
    (hhints : ∀ rule ∈ rules, rule.matchesAll = Rule.mayMatchAll rule.condition)
    (offset : Nat) :
    (((RuleTable.mk rules).placed offset).filter (Rule.Fits compiler.limits)).map
        Rule.transition =
      (rules.filter (Rule.Fits compiler.limits)).map Rule.transition := by
  induction rules generalizing offset with
  | nil => rfl
  | cons rule rules ih =>
      rw [List.forall_mem_cons] at hhints
      have hsame : (Rule.ofParts rule.source rule.target rule.condition
          offset).transition = rule.transition := by
        rw [Rule.transition, Rule.transition, hhints.1]
        rfl
      have hfits : (Rule.ofParts rule.source rule.target rule.condition
          offset).Fits compiler.limits ↔ rule.Fits compiler.limits := Iff.rfl
      rw [placed_cons, List.filter_cons, List.filter_cons]
      by_cases hrule : rule.Fits compiler.limits
      · simp [hfits, hrule, hsame, ih hhints.2]
      · simp [hfits, hrule, ih hhints.2]

theorem readTokens_render (h : table.IsPrintable compiler) (ending : Nat) :
    (compiler.readTokens ending (Token.scan table.render.toList)).1 =
        (table.placed 0).filter (Rule.Fits compiler.limits) ∧
      ((compiler.readTokens ending (Token.scan table.render.toList)).2 = [] ↔
        ∀ rule ∈ table.rules, rule.Fits compiler.limits) := by
  have hnodup : ((table.placed 0).map Rule.signature).Nodup := by
    rw [signatures_placed]
    exact h.signatures
  obtain ⟨hrules, hfaults⟩ := Compiler.collect_reads
    (reads_render h.rules ending 0).2 hnodup fun _ _ => List.not_mem_nil
  exact ⟨hrules, hfaults.trans (forall_chars_placed _ _ _)⟩

theorem rules_compile_render (h : table.IsPrintable compiler) :
    (compiler.compile table.render).table.rules.map Rule.transition =
      (table.rules.filter (Rule.Fits compiler.limits)).map Rule.transition := by
  rw [Compiler.rules_compile, (readTokens_render h _).1]
  exact map_filter_placed h.hints 0

theorem isOk_compile_render_iff (h : table.IsPrintable compiler) :
    (compiler.compile table.render).isOk = true ↔ table.Fits compiler.limits := by
  have hnone : (Token.scan table.render.toList).filterMap Token.illegality? = [] := by
    rw [List.filterMap_eq_nil_iff]
    exact fun token hmem =>
      illegality?_eq_none ((reads_render h.rules 0 0).1 token hmem)
  obtain ⟨hrules, hfaults⟩ := readTokens_render h table.render.toList.length
  have hsize : (∀ rule ∈ table.rules, rule.Fits compiler.limits) →
      ((table.placed 0).filter (Rule.Fits compiler.limits)).length = table.size := by
    intro hfits
    have hall : table.rules.filter (Rule.Fits compiler.limits) = table.rules := by
      rw [List.filter_eq_self]
      simpa using hfits
    have hkept := congrArg List.length (@map_filter_placed compiler _ h.hints 0)
    rwa [List.length_map, List.length_map, hall] at hkept
  -- There are as many rules as in the table only if none is missing.
  rw [Compilation.isOk, List.isEmpty_iff, Compiler.compile, Compiler.compileChars]
  simp only [hnone, hrules, List.nil_append]
  split
  · rename_i hmany
    simp only [List.cons_ne_nil, false_iff]
    rintro ⟨hfew, hfits⟩
    exact absurd (hsize hfits ▸ hfew) (Nat.not_le.mpr hmany)
  · rename_i hfew
    rw [← List.length_eq_zero_iff, List.length_mergeSort, List.length_eq_zero_iff,
      hfaults]
    exact ⟨fun hfits => ⟨hsize hfits ▸ Nat.not_lt.mp hfew, hfits⟩, Fits.rules⟩

end RuleTable

end Cellular
