import Cellular.Proofs.Rule.Statement
import Cellular.Rule.Compilation

/-!
# Compiled rules

Whatever a text is like, each rule of the compiled table was read from one of its
statements.  Such a rule uses declared states and configured directions only, its
formulas have terms in every node, and its hint is the computed one
(`isSound_of_mem_compile`).  No two rules of the table have the same pair of
states (`nodup_signatures_compile`).
-/

namespace Cellular

/-! ## Sound rules -/

/-- A clause over declared states and configured directions, with terms in every
node of its formula. -/
structure Clause.IsSound (states : StateUniverse) (neighborhood : Neighborhood)
    (clause : Clause) : Prop where
  directions : ∀ listed, clause.scope = .directions listed →
    ∀ direction ∈ listed, neighborhood.contains direction = true
  condition : clause.condition.NoEmptyNode
  states : ∀ count ∈ clause.condition.leaves, count.state ∈ states.names

/-- A rule between two declared states with the computed hint, with terms in
every node of its condition and sound clauses. -/
structure Rule.IsSound (states : StateUniverse) (neighborhood : Neighborhood)
    (rule : Rule) : Prop where
  source : rule.source ∈ states.names
  target : rule.target ∈ states.names
  ne : rule.source ≠ rule.target
  hint : rule.matchesAll = mayMatchAll rule.condition
  condition : ∀ formula, rule.condition = some formula → formula.NoEmptyNode
  clauses : ∀ formula, rule.condition = some formula →
    ∀ clause ∈ formula.leaves, clause.IsSound states neighborhood

/-! ## Soundness of the productions -/

namespace Grammar

variable {compiler : Compiler} {kinds : List TokenKind}

theorem State.mem_names {name : String} (h : State compiler kinds name) :
    name ∈ compiler.states.names := by
  cases h with
  | word _ hdeclared _ => exact hdeclared

theorem Condition.mem_names {condition : CountCondition String}
    (h : Condition compiler kinds condition) :
    condition.state ∈ compiler.states.names := by
  cases h with
  | mk _ _ hstate => exact hstate.mem_names

theorem Toward.contains {direction : Direction}
    (h : Toward compiler kinds direction) :
    compiler.neighborhood.contains direction = true := by
  cases h with
  | word _ hconfigured => exact hconfigured

theorem Within.contains {listed : List Direction}
    (h : Within compiler kinds (.directions listed)) :
    ∀ direction ∈ listed, compiler.neighborhood.contains direction = true := by
  intro direction hmem
  cases h with
  | single hdirection =>
      rw [List.mem_singleton.mp hmem]
      exact hdirection.contains
  | listed hlisted _ =>
      obtain ⟨kinds, hdirection⟩ := hlisted.exists_item hmem
      exact hdirection.contains

theorem Clause.isSound {clause : Cellular.Clause}
    (h : Clause compiler kinds clause) :
    clause.IsSound compiler.states compiler.neighborhood := by
  cases h with
  | mk hscope _ hcondition =>
      refine ⟨?_, hcondition.noEmptyNode, fun count hmem => ?_⟩
      · rintro listed rfl
        exact hscope.contains
      · obtain ⟨kinds, hcount⟩ := hcondition.exists_item hmem
        exact hcount.mem_names

theorem Rule.isSound {source target : String}
    {condition : Option (Formula Cellular.Clause)}
    (h : Rule compiler kinds source target condition) (offset : Nat) :
    (Cellular.Rule.ofParts source target condition offset).IsSound
      compiler.states compiler.neighborhood := by
  obtain ⟨hsource, htarget, hne, hending⟩ := h
  cases hending with
  | always => exact ⟨hsource.mem_names, htarget.mem_names, hne, rfl, nofun, nofun⟩
  | conditional hclauses =>
      refine ⟨hsource.mem_names, htarget.mem_names, hne, rfl, ?_, ?_⟩
      · rintro formula ⟨⟩
        exact hclauses.noEmptyNode
      · rintro formula ⟨⟩ clause hmem
        obtain ⟨kinds, hclause⟩ := hclauses.exists_item hmem
        exact hclause.isSound

end Grammar

/-! ## The compiled table -/

namespace Compiler

variable {compiler : Compiler} {text : String} {rule : Rule}
  {seen : List (String × String)} {outcomes : List Outcome}

theorem mem_collect (h : rule ∈ (collect seen outcomes).1) :
    ∃ targetOffset, .rule rule targetOffset ∈ outcomes := by
  induction outcomes generalizing seen with
  | nil => cases h
  | cons outcome outcomes ih =>
      cases outcome with
      | tainted =>
          obtain ⟨targetOffset, hmem⟩ := ih h
          exact ⟨targetOffset, List.mem_cons_of_mem _ hmem⟩
      | fault diagnostic =>
          obtain ⟨targetOffset, hmem⟩ := ih h
          exact ⟨targetOffset, List.mem_cons_of_mem _ hmem⟩
      | rule first place =>
          rw [collect] at h
          split at h
          · obtain ⟨targetOffset, hmem⟩ := ih h
            exact ⟨targetOffset, List.mem_cons_of_mem _ hmem⟩
          · rcases List.mem_cons.mp h with rfl | hlater
            · exact ⟨place, List.mem_cons_self⟩
            · obtain ⟨targetOffset, hmem⟩ := ih hlater
              exact ⟨targetOffset, List.mem_cons_of_mem _ hmem⟩

theorem nodup_signatures_collect :
    ((collect seen outcomes).1.map Rule.signature).Nodup ∧
      ∀ pair ∈ (collect seen outcomes).1.map Rule.signature, pair ∉ seen := by
  induction outcomes generalizing seen with
  | nil => simp [collect]
  | cons outcome outcomes ih =>
      cases outcome with
      | tainted => exact ih
      | fault diagnostic => exact ih
      | rule first place =>
          rw [collect]
          split
          · exact ih
          · rename_i hnew
            obtain ⟨hnodup, hfresh⟩ := @ih (first.signature :: seen)
            rw [List.map_cons, List.nodup_cons, List.forall_mem_cons]
            refine ⟨⟨?_, hnodup⟩, hnew, ?_⟩
            · intro hmem
              exact hfresh _ hmem List.mem_cons_self
            · intro pair hmem hold
              exact hfresh pair hmem (List.mem_cons_of_mem _ hold)

theorem rules_compile :
    (compiler.compile text).table.rules =
      (compiler.readTokens text.toList.length (Token.scan text.toList)).1 := by
  simp only [compile, compileChars]
  split <;> rfl

theorem isSound_of_readStatement {ending : Nat} {statement : List Token}
    {targetOffset : Nat}
    (h : compiler.readStatement ending statement = .rule rule targetOffset) :
    rule.IsSound compiler.states compiler.neighborhood := by
  rw [readStatement] at h
  split at h
  · rename_i reading hreading
    obtain ⟨kinds, source, target, condition, -, hrule, hread, -⟩ :=
      rule_eq_ok_iff.mp hreading
    obtain ⟨rfl, -⟩ := Outcome.rule.inj h
    rw [hread]
    exact hrule.isSound _
  · split at h <;> cases h

theorem isSound_of_mem_compile
    (h : rule ∈ (compiler.compile text).table.rules) :
    rule.IsSound compiler.states compiler.neighborhood := by
  rw [rules_compile] at h
  obtain ⟨targetOffset, hmem⟩ := mem_collect h
  obtain ⟨statement, -, hstatement⟩ := List.mem_map.mp hmem
  exact isSound_of_readStatement hstatement

theorem nodup_signatures_compile (compiler : Compiler) (text : String) :
    ((compiler.compile text).table.rules.map Rule.signature).Nodup := by
  rw [rules_compile]
  exact nodup_signatures_collect.1

end Compiler

end Cellular
