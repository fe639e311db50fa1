import Cellular.Proofs.Rule.Compiled
import Cellular.Proofs.Rule.Outcomes

/-!
# Settling outcomes

Outcomes are sorted one by one, and only the pairs of states seen before are carried
along.  So every statement has a verdict of its own (`settles_statements`), outcomes
are sorted in parts (`collect_append`), and rules seen before only turn later ones into
diagnostics (`rules_collect_append`, `faults_collect_append`).
-/

namespace Cellular

inductive Verdict where
  | rule (rule : Rule)
  | fault (diagnostic : Diagnostic)
  | silent

namespace Verdict

@[simp] def rule? : Verdict → Option Rule
  | .rule accepted => some accepted
  | _ => none

@[simp] def fault? : Verdict → Option Diagnostic
  | .fault diagnostic => some diagnostic
  | _ => none

end Verdict

def Outcome.rule? : Outcome → Option Rule
  | .rule read _ => some read
  | _ => none

theorem Outcome.exists_of_mem_rules {outcomes : List Outcome} {rule : Rule}
    (h : rule ∈ outcomes.filterMap Outcome.rule?) :
    ∃ place, .rule rule place ∈ outcomes := by
  obtain ⟨outcome, houtcome, hrule⟩ := List.mem_filterMap.mp h
  cases outcome with
  | fault => cases hrule
  | tainted => cases hrule
  | rule read place =>
      obtain rfl : read = rule := Option.some.inj hrule
      exact ⟨place, houtcome⟩

theorem Rule.signature_relocate (move : Nat → Nat) (rule : Rule) :
    (rule.relocate move).signature = rule.signature := rfl

/-- The verdicts that a statement may have. -/
inductive Settles (ending : Nat) (statement : List Token) : Verdict → Prop
  | rule {rule : Rule} (hstatement : IsStatement statement)
      (hplace : ∃ first ∈ statement.head?, rule.offset = first.offset) :
      Settles ending statement (.rule rule)
  | fault {diagnostic : Diagnostic}
      (hlegal : ∀ token ∈ statement, token.isIllegal = false)
      (hplace : StandsIn ending statement diagnostic.offset)
      (hkind : ∀ character, diagnostic.kind ≠ .illegalCharacter character) :
      Settles ending statement (.fault diagnostic)
  | silent (hillegal : ∃ token ∈ statement, token.isIllegal = true) :
      Settles ending statement .silent

namespace Compiler

variable {compiler : Compiler} {seen known : List (String × String)}
  {outcomes : List Outcome}

/-! ## One verdict for each statement -/

def settle (seen : List (String × String)) : List Outcome → List Verdict
  | [] => []
  | .tainted :: outcomes => .silent :: settle seen outcomes
  | .fault diagnostic :: outcomes => .fault diagnostic :: settle seen outcomes
  | .rule rule targetOffset :: outcomes =>
      if seen.contains rule.signature then
        .fault ⟨targetOffset, .duplicateRule⟩ :: settle seen outcomes
      else .rule rule :: settle (rule.signature :: seen) outcomes

theorem collect_eq_settle (seen : List (String × String)) (outcomes : List Outcome) :
    collect seen outcomes =
      ((settle seen outcomes).filterMap Verdict.rule?,
        (settle seen outcomes).filterMap Verdict.fault?) := by
  induction outcomes generalizing seen with
  | nil => rfl
  | cons outcome outcomes ih =>
      cases outcome with
      | tainted => simp [collect, settle, ih, List.filterMap_cons]
      | fault diagnostic => simp [collect, settle, ih, List.filterMap_cons]
      | rule first place =>
          simp only [collect, settle, List.contains_iff_mem]
          split <;> simp [ih, List.filterMap_cons]

theorem settles_statements {ending : Nat} {parts : List (List Token)}
    (hparts : ∀ part ∈ parts, IsRun part) (seen : List (String × String)) :
    List.Forall₂ (Settles ending) parts
      (settle seen (parts.map (compiler.readStatement ending))) := by
  induction parts generalizing seen with
  | nil => exact .nil
  | cons part parts ih =>
      rw [List.forall_mem_cons] at hparts
      rw [List.map_cons]
      cases hread : compiler.readStatement ending part with
      | tainted => exact .cons (.silent (readStatement_eq_tainted hread)) (ih hparts.2 _)
      | fault diagnostic =>
          obtain ⟨hlegal, hplace, hkind⟩ := readStatement_eq_fault hread
          exact .cons (.fault hlegal hplace hkind) (ih hparts.2 _)
      | rule rule place =>
          obtain ⟨hstatement, first, slash, second, others, rfl, hrule, hsecond⟩ :=
            readStatement_eq_rule hparts.1 hread
          rw [settle]
          split
          · refine .cons (.fault hstatement.legal ?_ (by simp)) (ih hparts.2 _)
            exact .inl ⟨second, by simp, hsecond⟩
          · exact .cons (.rule hstatement ⟨first, rfl, hrule⟩) (ih hparts.2 _)

/-! ## Outcomes in parts -/

theorem collect_congr {seen' : List (String × String)}
    (h : ∀ pair, pair ∈ seen ↔ pair ∈ seen') (outcomes : List Outcome) :
    collect seen outcomes = collect seen' outcomes := by
  induction outcomes generalizing seen seen' with
  | nil => rfl
  | cons outcome outcomes ih =>
      cases outcome with
      | tainted => exact ih h
      | fault diagnostic => rw [collect, collect, ih h]
      | rule first place =>
          have hcons : ∀ pair,
              pair ∈ first.signature :: seen ↔ pair ∈ first.signature :: seen' := by
            simp [h]
          simp only [collect, h, ih h, ih hcons]

theorem collect_append (seen : List (String × String)) (outcomes more : List Outcome) :
    collect seen (outcomes ++ more) =
      ((collect seen outcomes).1 ++
          (collect ((collect seen outcomes).1.map Rule.signature ++ seen) more).1,
        (collect seen outcomes).2 ++
          (collect ((collect seen outcomes).1.map Rule.signature ++ seen) more).2) := by
  induction outcomes generalizing seen with
  | nil => rfl
  | cons outcome outcomes ih =>
      cases outcome with
      | tainted => exact ih seen
      | fault diagnostic => simp only [List.cons_append, collect, ih]
      | rule first place =>
          rw [List.cons_append, collect, collect]
          split
          · simp only [ih, List.cons_append]
          · simp only [ih, List.map_cons, List.cons_append]
            rw [collect_congr _ more]
            simp [or_left_comm]

theorem collect_cons_of_mem {rule : Rule} (h : rule.signature ∈ seen)
    (known : List (String × String)) (outcomes : List Outcome) :
    collect (known ++ seen) outcomes =
      collect (rule.signature :: known ++ seen) outcomes :=
  collect_congr (by simp [h]) outcomes

theorem rules_collect_append (known seen : List (String × String))
    (outcomes : List Outcome) :
    (collect (known ++ seen) outcomes).1 =
      (collect known outcomes).1.filter fun rule => rule.signature ∉ seen := by
  induction outcomes generalizing known with
  | nil => rfl
  | cons outcome outcomes ih =>
      cases outcome with
      | tainted => exact ih known
      | fault diagnostic => exact ih known
      | rule first place =>
          by_cases hknown : first.signature ∈ known
          · simp only [collect, hknown, List.mem_append, true_or, if_true, ih]
          · by_cases hseen : first.signature ∈ seen
            · rw [collect, collect, if_pos (List.mem_append_right _ hseen),
                if_neg hknown, collect_cons_of_mem hseen]
              simpa [hseen] using ih (first.signature :: known)
            · simp only [collect, hknown, hseen, List.mem_append, or_self, if_false]
              rw [← List.cons_append, ih]
              simp [hseen]

theorem faults_collect_append {placeOf : Rule → Nat}
    (hplaces : ∀ rule place, .rule rule place ∈ outcomes → place = placeOf rule)
    (known seen : List (String × String)) :
    (collect (known ++ seen) outcomes).2.Perm
      ((collect known outcomes).2 ++
        ((collect known outcomes).1.filter (·.signature ∈ seen)).map
          fun rule => ⟨placeOf rule, .duplicateRule⟩) := by
  induction outcomes generalizing known with
  | nil => exact .refl _
  | cons outcome outcomes ih =>
      have hlater : ∀ rule place, .rule rule place ∈ outcomes → place = placeOf rule :=
        fun rule place hmem => hplaces rule place (List.mem_cons_of_mem _ hmem)
      cases outcome with
      | tainted => exact ih hlater known
      | fault diagnostic => exact (ih hlater known).cons diagnostic
      | rule first place =>
          by_cases hknown : first.signature ∈ known
          · simp only [collect, hknown, List.mem_append, true_or, if_true]
            exact (ih hlater known).cons _
          · by_cases hseen : first.signature ∈ seen
            · obtain rfl := hplaces first place List.mem_cons_self
              rw [collect, collect, if_pos (List.mem_append_right _ hseen),
                if_neg hknown, collect_cons_of_mem hseen]
              simp only [List.filter_cons, hseen, decide_true, if_true, List.map_cons]
              exact ((ih hlater (first.signature :: known)).cons _).trans
                List.perm_middle.symm
            · have hrest := ih hlater (first.signature :: known)
              simpa [collect, hknown, hseen] using hrest

theorem collect_relocate (move : Nat → Nat) (seen : List (String × String))
    (outcomes : List Outcome) :
    collect seen (outcomes.map (Outcome.relocate move)) =
      ((collect seen outcomes).1.map (Rule.relocate move),
        (collect seen outcomes).2.map (Diagnostic.relocate move)) := by
  induction outcomes generalizing seen with
  | nil => rfl
  | cons outcome outcomes ih =>
      cases outcome with
      | tainted => exact ih seen
      | fault diagnostic => simp only [List.map_cons, Outcome.relocate, collect, ih]
      | rule first place =>
          simp only [List.map_cons, Outcome.relocate, collect, ih,
            Rule.signature_relocate]
          split <;> rfl

/-! ## Outcomes without faults -/

theorem collect_eq_rules (hfaults : ∀ diagnostic, .fault diagnostic ∉ outcomes)
    (hnodup : ((outcomes.filterMap Outcome.rule?).map Rule.signature).Nodup)
    (hseen : ∀ rule ∈ outcomes.filterMap Outcome.rule?, rule.signature ∉ seen) :
    collect seen outcomes = (outcomes.filterMap Outcome.rule?, []) := by
  induction outcomes generalizing seen with
  | nil => rfl
  | cons outcome outcomes ih =>
      have hlater : ∀ diagnostic, .fault diagnostic ∉ outcomes :=
        fun diagnostic hmem => hfaults diagnostic (List.mem_cons_of_mem _ hmem)
      cases outcome with
      | tainted => exact ih hlater hnodup hseen
      | fault diagnostic => exact absurd List.mem_cons_self (hfaults diagnostic)
      | rule first place =>
          have hcons : (Outcome.rule first place :: outcomes).filterMap Outcome.rule? =
              first :: outcomes.filterMap Outcome.rule? := rfl
          rw [hcons, List.map_cons, List.nodup_cons] at hnodup
          rw [hcons, List.forall_mem_cons] at hseen
          have hnew : ∀ rule ∈ outcomes.filterMap Outcome.rule?,
              rule.signature ∉ first.signature :: seen := by
            intro rule hmem hsignature
            rcases List.mem_cons.mp hsignature with heq | hold
            · exact hnodup.1 (heq ▸ List.mem_map_of_mem hmem)
            · exact hseen.2 rule hmem hold
          rw [collect, if_neg hseen.1, ih hlater hnodup.2 hnew, hcons]

theorem of_collect_eq_nil (h : (collect seen outcomes).2 = []) :
    (∀ diagnostic, .fault diagnostic ∉ outcomes) ∧
      (collect seen outcomes).1 = outcomes.filterMap Outcome.rule? := by
  induction outcomes generalizing seen with
  | nil => exact ⟨nofun, rfl⟩
  | cons outcome outcomes ih =>
      cases outcome with
      | tainted =>
          obtain ⟨hfaults, hrules⟩ := ih h
          exact ⟨by simpa using hfaults, hrules⟩
      | fault diagnostic => cases h
      | rule first place =>
          rw [collect] at h ⊢
          split at h
          · cases h
          · rename_i hnew
            obtain ⟨hfaults, hrules⟩ := ih h
            rw [if_neg hnew]
            exact ⟨by simpa using hfaults, congrArg (first :: ·) hrules⟩

end Compiler

end Cellular
