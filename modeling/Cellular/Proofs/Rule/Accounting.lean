import Cellular.Proofs.Rule.Comments
import Cellular.Proofs.Rule.Settlement

/-!
# What becomes of a text

As long as there are not too many rules, the diagnostics are the illegal characters and
what the statements are blamed for, in the order of their places, and no place is blamed
twice (`pairwise_diagnostics_compile`).  Every statement is accounted for: it gives one
rule, or one diagnostic, or has an illegal character (`accountsFor_compile`).
-/

namespace Cellular

namespace Diagnostic

def isIllegality (diagnostic : Diagnostic) : Bool :=
  match diagnostic.kind with
  | .illegalCharacter _ => true
  | _ => false

theorem isIllegality_eq_false_iff {diagnostic : Diagnostic} :
    diagnostic.isIllegality = false ↔
      ∀ character, diagnostic.kind ≠ .illegalCharacter character := by
  obtain ⟨offset, kind⟩ := diagnostic
  cases kind <;> simp [isIllegality]

theorem isIllegality_of_mem {tokens : List Token} {diagnostic : Diagnostic}
    (h : diagnostic ∈ tokens.filterMap Token.illegality?) :
    diagnostic.isIllegality = true ∧
      ∃ token ∈ tokens, token.isIllegal = true ∧ diagnostic.offset = token.offset := by
  obtain ⟨⟨kind, offset, length⟩, hmem, htoken⟩ := List.mem_filterMap.mp h
  cases kind with
  | illegal character =>
      cases htoken
      exact ⟨rfl, _, hmem, rfl, rfl⟩
  | word letters => cases htoken
  | symbol character => cases htoken

end Diagnostic

namespace Verdict

def place? : Verdict → Option Nat
  | .rule accepted => some accepted.offset
  | .fault diagnostic => some diagnostic.offset
  | .silent => none

theorem place?_of_rule? {verdict : Verdict} {rule : Rule} (h : verdict.rule? = some rule) :
    verdict.place? = some rule.offset := by
  cases verdict <;> cases h
  rfl

theorem place?_of_fault? {verdict : Verdict} {diagnostic : Diagnostic}
    (h : verdict.fault? = some diagnostic) :
    verdict.place? = some diagnostic.offset := by
  cases verdict <;> cases h
  rfl

end Verdict

theorem Settles.standsIn {ending : Nat} {part : List Token} {verdict : Verdict}
    (h : Settles ending part verdict) : ∀ offset ∈ verdict.place?,
      StandsIn ending part offset := by
  cases h with
  | rule _ hplace =>
      obtain ⟨first, hfirst, hplace⟩ := hplace
      rintro _ ⟨⟩
      exact .inl ⟨first, List.mem_of_mem_head? hfirst, hplace⟩
  | fault _ hplace _ =>
      rintro _ ⟨⟩
      exact hplace
  | silent => nofun

namespace Compiler

variable {compiler : Compiler} {text : String} {ending : Nat} {tokens : List Token}
  {settled : List Verdict}

/-! ## Places of diagnostics -/

theorem pairwise_illegalities (h : tokens.Pairwise (·.offset < ·.offset)) :
    (tokens.filterMap Token.illegality?).Pairwise (·.offset < ·.offset) := by
  refine List.pairwise_filterMap.mpr (h.imp ?_)
  intro token later hlt first hfirst second hsecond
  have hplace : ∀ {token : Token} {diagnostic : Diagnostic},
      token.illegality? = some diagnostic → diagnostic.offset = token.offset := by
    rintro ⟨kind, offset, length⟩ diagnostic h
    cases kind <;> cases h
    rfl
  rw [hplace hfirst, hplace hsecond]
  exact hlt

theorem illegalities_relocate (move : Nat → Nat) (tokens : List Token) :
    (tokens.map (Token.relocate move)).filterMap Token.illegality? =
      (tokens.filterMap Token.illegality?).map (Diagnostic.relocate move) := by
  rw [List.filterMap_map, List.map_filterMap]
  congr 1
  funext token
  obtain ⟨kind, offset, length⟩ := token
  cases kind <;> rfl

section

variable (hsorted : tokens.Pairwise (·.offset < ·.offset))
  (hending : ∀ token ∈ tokens, token.offset < ending)
  (h : List.Forall₂ (Settles ending) (statements tokens) settled)

include hsorted hending h

theorem pairwise_verdicts :
    settled.Pairwise fun verdict later =>
      ∀ offset ∈ verdict.place?, ∀ offset' ∈ later.place?, offset < offset' :=
  (divided_statements tokens).pairwise_places hsorted hending
    (h.imp fun _ _ => Settles.standsIn)

theorem pairwise_faults :
    (settled.filterMap Verdict.fault?).Pairwise (·.offset < ·.offset) := by
  refine List.pairwise_filterMap.mpr ((pairwise_verdicts hsorted hending h).imp ?_)
  intro verdict later hlt first hfirst second hsecond
  exact hlt _ (Verdict.place?_of_fault? hfirst) _ (Verdict.place?_of_fault? hsecond)

theorem pairwise_rules :
    (settled.filterMap Verdict.rule?).Pairwise (·.offset < ·.offset) := by
  refine List.pairwise_filterMap.mpr ((pairwise_verdicts hsorted hending h).imp ?_)
  intro verdict later hlt first hfirst second hsecond
  exact hlt _ (Verdict.place?_of_rule? hfirst) _ (Verdict.place?_of_rule? hsecond)

omit hsorted hending in
theorem rule_place {rule : Rule} (hmem : rule ∈ settled.filterMap Verdict.rule?) :
    ∃ token ∈ tokens, rule.offset = token.offset := by
  obtain ⟨verdict, hverdict, hrule⟩ := List.mem_filterMap.mp hmem
  obtain ⟨part, hpart, hsettles⟩ := exists_mem_of_forall₂ h.flip hverdict
  obtain ⟨first, hfirst, hplace⟩ : ∃ first ∈ part.head?, rule.offset = first.offset := by
    cases hsettles with
    | fault => cases hrule
    | silent => cases hrule
    | rule _ hplace => exact Option.some.inj hrule ▸ hplace
  have hwithin := ((divided_statements tokens).isRun part hpart).2
  exact ⟨first, hwithin.subset (List.mem_of_mem_head? hfirst), hplace⟩

theorem fault_place {diagnostic : Diagnostic}
    (hmem : diagnostic ∈ settled.filterMap Verdict.fault?) :
    diagnostic.isIllegality = false ∧
      ((∃ token ∈ tokens, diagnostic.offset = token.offset) ∨
        diagnostic.offset = ending) ∧
      ∀ token ∈ tokens, token.isIllegal = true → token.offset ≠ diagnostic.offset := by
  obtain ⟨verdict, hverdict, hfault⟩ := List.mem_filterMap.mp hmem
  obtain ⟨part, hpart, hsettles⟩ := exists_mem_of_forall₂ h.flip hverdict
  cases hsettles with
  | rule => cases hfault
  | silent => cases hfault
  | @fault blamed hlegal hplace hkind =>
      obtain rfl : blamed = diagnostic := by simpa using hfault
      have hwithin := ((divided_statements tokens).isRun part hpart).2
      refine ⟨Diagnostic.isIllegality_eq_false_iff.mpr hkind, ?_, ?_⟩
      · refine hplace.imp ?_ And.right
        rintro ⟨token, htoken, heq⟩
        exact ⟨token, hwithin.subset htoken, heq⟩
      · intro token htoken hillegal heq
        rcases hplace with ⟨other, hother, hplace⟩ | ⟨-, hend⟩
        · have hnodup := List.pairwise_map.mpr (hsorted.imp Nat.ne_of_lt)
          obtain rfl := List.inj_on_of_nodup_map hnodup htoken (hwithin.subset hother)
            (heq.trans hplace)
          rw [hlegal token hother] at hillegal
          cases hillegal
        · have hlt := hending token htoken
          omega

end

/-! ## The compiled text -/

def textOutcomes (compiler : Compiler) (text : String) : List Outcome :=
  compiler.outcomes text.length (Token.scan text.toList)

def verdicts (compiler : Compiler) (text : String) : List Verdict :=
  settle [] (compiler.textOutcomes text)

theorem settles_verdicts (compiler : Compiler) (text : String) :
    List.Forall₂ (Settles text.length) (statements (Token.scan text.toList))
      (compiler.verdicts text) :=
  settles_statements
    (fun part hmem => ((divided_statements _).isRun part hmem).1) []

theorem collect_textOutcomes (compiler : Compiler) (text : String) :
    collect [] (compiler.textOutcomes text) =
      ((compiler.verdicts text).filterMap Verdict.rule?,
        (compiler.verdicts text).filterMap Verdict.fault?) :=
  collect_eq_settle _ _

theorem offset_lt_length {token : Token} (h : token ∈ Token.scan text.toList) :
    token.offset < text.length := by
  simpa [String.length_toList] using Token.offset_lt_of_mem_scanFrom h

theorem rules_eq_collect (compiler : Compiler) (text : String) :
    (compiler.compile text).table.rules =
      (collect [] (compiler.textOutcomes text)).1 := by
  rw [rules_compile, readTokens, String.length_toList]
  rfl

theorem rules_eq_verdicts (compiler : Compiler) (text : String) :
    (compiler.compile text).table.rules =
      (compiler.verdicts text).filterMap Verdict.rule? := by
  rw [rules_eq_collect, collect_textOutcomes]

theorem diagnostics_compile_of_lt
    (h : compiler.limits.rulesMax < (compiler.compile text).table.size) :
    (compiler.compile text).diagnostics =
      [⟨0, .ruleCountExceeded compiler.limits.rulesMax⟩] := by
  rw [RuleTable.size, rules_compile] at h
  simp only [compile, compileChars]
  rw [if_pos h]

theorem size_le_of_isOk (h : (compiler.compile text).isOk = true) :
    (compiler.compile text).table.size ≤ compiler.limits.rulesMax := by
  refine Nat.le_of_not_lt fun hmany => ?_
  rw [Compilation.isOk, diagnostics_compile_of_lt hmany] at h
  cases h

variable (h : (compiler.compile text).table.size ≤ compiler.limits.rulesMax)

include h

theorem diagnostics_compile :
    (compiler.compile text).diagnostics =
      ((Token.scan text.toList).filterMap Token.illegality? ++
        (collect [] (compiler.textOutcomes text)).2).mergeSort
          fun first second => first.offset ≤ second.offset := by
  have hread : compiler.readTokens text.toList.length (Token.scan text.toList) =
      collect [] (compiler.textOutcomes text) := by
    rw [readTokens, String.length_toList]
    rfl
  rw [RuleTable.size, rules_eq_collect] at h
  simp only [compile, compileChars, hread]
  rw [if_neg (Nat.not_lt.mpr h)]

theorem perm_diagnostics_compile :
    (compiler.compile text).diagnostics.Perm
      ((Token.scan text.toList).filterMap Token.illegality? ++
        (collect [] (compiler.textOutcomes text)).2) := by
  rw [diagnostics_compile h]
  exact List.mergeSort_perm _ _

theorem pairwise_diagnostics_compile :
    (compiler.compile text).diagnostics.Pairwise (·.offset < ·.offset) := by
  have hsorted : (compiler.compile text).diagnostics.Pairwise (·.offset ≤ ·.offset) := by
    rw [diagnostics_compile h]
    refine (List.pairwise_mergeSort ?_ ?_ _).imp of_decide_eq_true
    · simp only [decide_eq_true_eq]
      exact fun _ _ _ => Nat.le_trans
    · intro first second
      simpa using Nat.le_total first.offset second.offset
  have hnodup : (compiler.compile text).diagnostics.Pairwise (·.offset ≠ ·.offset) := by
    have htokens := Token.pairwise_scan text.toList
    have hplaces : ∀ token ∈ Token.scan text.toList, token.offset < text.length :=
      fun _ => offset_lt_length
    rw [(perm_diagnostics_compile h).pairwise_iff Ne.symm, collect_textOutcomes,
      List.pairwise_append]
    refine ⟨(pairwise_illegalities htokens).imp Nat.ne_of_lt,
      (pairwise_faults htokens hplaces (settles_verdicts compiler text)).imp Nat.ne_of_lt,
      ?_⟩
    intro first hfirst second hsecond heq
    obtain ⟨-, token, hmem, hillegal, hplace⟩ := Diagnostic.isIllegality_of_mem hfirst
    obtain ⟨-, -, hapart⟩ :=
      fault_place htokens hplaces (settles_verdicts compiler text) hsecond
    exact hapart token hmem hillegal (hplace.symm.trans heq)
  exact (hsorted.and hnodup).imp fun ⟨hle, hne⟩ => Nat.lt_of_le_of_ne hle hne

theorem diagnostic_place {diagnostic : Diagnostic}
    (hmem : diagnostic ∈ (compiler.compile text).diagnostics) :
    (∃ token ∈ Token.scan text.toList, diagnostic.offset = token.offset) ∨
      diagnostic.offset = text.length := by
  rw [(perm_diagnostics_compile h).mem_iff, collect_textOutcomes, List.mem_append] at hmem
  rcases hmem with hillegal | hfault
  · obtain ⟨-, token, htoken, -, hplace⟩ := Diagnostic.isIllegality_of_mem hillegal
    exact .inl ⟨token, htoken, hplace⟩
  · exact (fault_place (Token.pairwise_scan _) (fun _ => offset_lt_length)
      (settles_verdicts compiler text) hfault).2.1

theorem size_compile_of_diagnostics_eq_nil
    (hnone : (compiler.compile text).diagnostics = []) :
    (compiler.compile text).table.size =
      (List.range text.length).countP (Token.IsSemicolonAt text.toList) := by
  have hdivided := divided_statements (Token.scan text.toList)
  have hsettles := settles_verdicts compiler text
  have hperm := perm_diagnostics_compile h
  rw [collect_textOutcomes, hnone, List.nil_perm, List.append_eq_nil_iff] at hperm
  obtain ⟨hlegal, hfaults⟩ := hperm
  rw [List.filterMap_eq_nil_iff] at hlegal hfaults
  have hruled : ∀ part ∈ statements (Token.scan text.toList),
      ∀ verdict ∈ compiler.verdicts text, Settles text.length part verdict →
        IsStatement part ∧ verdict.rule?.isSome = true := by
    intro part hpart verdict hverdict hsettles
    cases hsettles with
    | rule hstatement _ => exact ⟨hstatement, rfl⟩
    | fault => cases hfaults _ hverdict
    | silent hillegal =>
        obtain ⟨token, hmem, hillegal⟩ := hillegal
        have hnot := hlegal token ((hdivided.isRun part hpart).2.subset hmem)
        rw [Token.illegality?_eq_none_iff, hillegal] at hnot
        cases hnot
  have hterminated : ∀ part ∈ statements (Token.scan text.toList),
      ∃ token ∈ part, token.kind = .symbol ';' := by
    intro part hpart
    obtain ⟨verdict, hverdict, hsettle⟩ := exists_mem_of_forall₂ hsettles hpart
    obtain ⟨body, last, rfl, hlast, -⟩ :=
      (hruled part hpart verdict hverdict hsettle).1.semicolon
    exact ⟨last, by simp, hlast⟩
  have hsome : ∀ verdict ∈ compiler.verdicts text, verdict.rule?.isSome = true := by
    intro verdict hverdict
    obtain ⟨part, hpart, hsettle⟩ := exists_mem_of_forall₂ hsettles.flip hverdict
    exact (hruled part hpart verdict hverdict hsettle).2
  rw [RuleTable.size, rules_eq_verdicts, List.filterMap_length_eq_length.mpr hsome,
    ← hsettles.length_eq, ← hdivided.countP_semicolon hterminated,
    Token.countP_semicolon, String.length_toList]

end Compiler

/-- What the diagnostics and the rules of a compilation say about the text. -/
structure AccountsFor (text : String) (compilation : Compilation) : Prop where
  ordered : compilation.diagnostics.Pairwise (·.offset < ·.offset)
  placed : ∀ diagnostic ∈ compilation.diagnostics,
    (∃ token ∈ Token.scan text.toList, diagnostic.offset = token.offset) ∨
      diagnostic.offset = text.length
  illegal : ∀ place character,
    ⟨place, .illegalCharacter character⟩ ∈ compilation.diagnostics ↔
      text.toList[place]? = some character ∧
        ¬Token.InComment (text.toList.take place) ∧ Token.IsStray character
  /-- Every statement has one verdict. -/
  settled : ∃ parts verdicts, Divided (Token.scan text.toList) parts ∧
    List.Forall₂ (Settles text.length) parts verdicts ∧
    compilation.table.rules = verdicts.filterMap Verdict.rule? ∧
    compilation.diagnostics.filter (fun diagnostic => !diagnostic.isIllegality) =
      verdicts.filterMap Verdict.fault?
  rules : compilation.table.rules.Pairwise (·.offset < ·.offset)
  /-- Without diagnostics every semicolon outside comments ends a rule. -/
  complete : compilation.diagnostics = [] →
    compilation.table.size =
      (List.range text.length).countP (Token.IsSemicolonAt text.toList)

namespace Compiler

theorem accountsFor_compile {compiler : Compiler} {text : String}
    (h : (compiler.compile text).table.size ≤ compiler.limits.rulesMax) :
    AccountsFor text (compiler.compile text) := by
  have hsorted := Token.pairwise_scan text.toList
  have hending : ∀ token ∈ Token.scan text.toList, token.offset < text.length :=
    fun _ => offset_lt_length
  have hsettles := settles_verdicts compiler text
  have hperm := perm_diagnostics_compile h
  rw [collect_textOutcomes] at hperm
  have hordered := pairwise_diagnostics_compile h
  have hmem : ∀ diagnostic, diagnostic ∈ (compiler.compile text).diagnostics ↔
      diagnostic ∈ (Token.scan text.toList).filterMap Token.illegality? ∨
        diagnostic ∈ (compiler.verdicts text).filterMap Verdict.fault? := by
    intro diagnostic
    rw [hperm.mem_iff, List.mem_append]
  refine ⟨hordered, ?placed, ?illegal, ⟨_, _, divided_statements _, hsettles,
    rules_eq_verdicts compiler text, ?faults⟩, ?rules,
    size_compile_of_diagnostics_eq_nil h⟩
  case placed =>
    intro diagnostic hdiagnostic
    rcases (hmem diagnostic).mp hdiagnostic with hillegal | hfault
    · obtain ⟨-, token, htoken, -, hplace⟩ := Diagnostic.isIllegality_of_mem hillegal
      exact .inl ⟨token, htoken, hplace⟩
    · exact (fault_place hsorted hending hsettles hfault).2.1
  case illegal =>
    intro place character
    have hnot : ⟨place, .illegalCharacter character⟩ ∉
        (compiler.verdicts text).filterMap Verdict.fault? := by
      intro hfault
      have hkind := (fault_place hsorted hending hsettles hfault).1
      cases hkind
    rw [hmem, or_iff_left hnot, Token.mem_illegalities_iff]
    simp
  case faults =>
    have hkept := hperm.filter fun diagnostic => !diagnostic.isIllegality
    have hnone : ((Token.scan text.toList).filterMap Token.illegality?).filter
        (fun diagnostic => !diagnostic.isIllegality) = [] := by
      rw [List.filter_eq_nil_iff]
      intro diagnostic hillegal
      simp [(Diagnostic.isIllegality_of_mem hillegal).1]
    have hall : ((compiler.verdicts text).filterMap Verdict.fault?).filter
        (fun diagnostic => !diagnostic.isIllegality) =
          (compiler.verdicts text).filterMap Verdict.fault? := by
      rw [List.filter_eq_self]
      intro diagnostic hfault
      simp [(fault_place hsorted hending hsettles hfault).1]
    rw [List.filter_append, hnone, hall, List.nil_append] at hkept
    -- Both are in the order of their places, and no place comes twice.
    exact hkept.eq_of_pairwise
      (fun first second _ _ hlt hgt => absurd hlt (Nat.lt_asymm hgt))
      (hordered.filter _) (pairwise_faults hsorted hending hsettles)
  case rules =>
    rw [rules_eq_verdicts]
    exact pairwise_rules hsorted hending hsettles

def wordCompiler : Compiler := ⟨wordStates, .moore, .standard⟩

/-- Two rules, a duplicate, a fault, two illegal characters, a comment and a statement
without an end. -/
def mixedText : String := "and/3;and/3;$ and/;3/$and; !;$\n 3/free;and/"

theorem accountsFor_compile_words :
    (wordCompiler.compile mixedText).table.size ≤ wordCompiler.limits.rulesMax ∧
      (wordCompiler.compile mixedText).table.rules.map Rule.offset = [0, 32] ∧
      AccountsFor mixedText (wordCompiler.compile mixedText) := by
  have hsize : (wordCompiler.compile mixedText).table.size ≤
      wordCompiler.limits.rulesMax := by decide +kernel
  exact ⟨hsize, by decide +kernel, accountsFor_compile hsize⟩

end Compiler

end Cellular
