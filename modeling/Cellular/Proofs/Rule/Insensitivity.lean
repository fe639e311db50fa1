import Cellular.Proofs.Rule.Accounting
import Cellular.Proofs.Rule.Respelling

/-!
# Layout and letter case

Texts with the same kinds of tokens differ in nothing but places, and one motion takes
the places of the first text to those of the second (`exists_moves`).  The statements
come out alike and their places move along, in the same order.  So a text that respells
another has the same rules and the same diagnostics, each at the same token
(`compile_respelled`).
-/

namespace Cellular

open Token (scan)

variable {first second : String} {move : Nat → Nat} {place place' : Nat}

/-! ## Places of two texts -/

/-- The places are those of one token in the two texts, or the ends of the texts. -/
inductive Corresponds (first second : String) : Nat → Nat → Prop
  | token {index : Nat} {token image : Token}
      (hfirst : (scan first.toList)[index]? = some token)
      (hsecond : (scan second.toList)[index]? = some image)
      (hkind : image.kind = token.kind) :
      Corresponds first second token.offset image.offset
  | ending : Corresponds first second first.length second.length

def IsPlace (text : String) (place : Nat) : Prop :=
  (∃ token ∈ scan text.toList, place = token.offset) ∨ place = text.length

/-- The motion takes the tokens and the end of one text to those of another. -/
structure Moves (move : Nat → Nat) (first second : String) : Prop where
  tokens : scan second.toList = (scan first.toList).map (Token.relocate move)
  ending : second.length = move first.length

/-- Tokens in a row and the end behind them can be taken to any tokens of the same kinds
and to any end. -/
theorem exists_relocate {tokens images : List Token} {ending : Nat} (ending' : Nat)
    (hkinds : tokens.map Token.kind = images.map Token.kind)
    (htokens : ∀ token ∈ tokens, token.length = token.kind.length)
    (himages : ∀ image ∈ images, image.length = image.kind.length)
    (hsorted : tokens.Pairwise (·.offset < ·.offset))
    (hending : ∀ token ∈ tokens, token.offset < ending) :
    ∃ move, images = tokens.map (Token.relocate move) ∧ ending' = move ending := by
  induction tokens generalizing images with
  | nil =>
      obtain rfl : images = [] := by simpa using hkinds
      exact ⟨fun _ => ending', rfl, rfl⟩
  | cons token tokens ih =>
      obtain ⟨image, images, rfl⟩ : ∃ image rest, images = image :: rest := by
        cases images with
        | nil => cases hkinds
        | cons image rest => exact ⟨image, rest, rfl⟩
      simp only [List.map_cons, List.cons.injEq] at hkinds
      rw [List.forall_mem_cons] at htokens himages hending
      rw [List.pairwise_cons] at hsorted
      obtain ⟨move, himage, hend⟩ :=
        ih hkinds.2 htokens.2 himages.2 hsorted.2 hending.2
      -- The later places are greater, so the first one is free to go anywhere.
      refine ⟨fun place => if place = token.offset then image.offset else move place,
        ?_, ?_⟩
      · rw [List.map_cons, himage, List.cons.injEq]
        constructor
        · obtain ⟨kind, offset, length⟩ := image
          obtain rfl : token.kind = kind := hkinds.1
          simp only [Token.relocate, if_true, htokens.1]
          exact congrArg (Token.mk token.kind offset) himages.1
        · refine List.map_congr_left fun later hmem => ?_
          rw [Token.relocate, Token.relocate,
            if_neg (Nat.ne_of_gt (hsorted.1 later hmem))]
      · exact hend.trans (if_neg (Nat.ne_of_gt hending.1)).symm

theorem exists_moves
    (h : (scan first.toList).map Token.kind = (scan second.toList).map Token.kind) :
    ∃ move, Moves move first second := by
  obtain ⟨move, htokens, hending⟩ := exists_relocate second.length h
    (fun _ => Token.length_eq_of_mem_scanFrom) (fun _ => Token.length_eq_of_mem_scanFrom)
    (Token.pairwise_scan first.toList) (fun _ => Compiler.offset_lt_length)
  exact ⟨move, htokens, hending⟩

namespace Moves

variable (h : Moves move first second)

include h

theorem corresponds (hplace : IsPlace first place) :
    Corresponds first second place (move place) := by
  rcases hplace with ⟨token, hmem, rfl⟩ | rfl
  · obtain ⟨index, hindex⟩ := List.mem_iff_getElem?.mp hmem
    have himage : (scan second.toList)[index]? = some (token.relocate move) := by
      rw [h.tokens, List.getElem?_map, hindex]
      rfl
    exact .token hindex himage rfl
  · rw [← h.ending]
    exact .ending

theorem lt_of_lt (hplace : IsPlace first place) (hplace' : IsPlace first place')
    (hlt : place < place') : move place < move place' := by
  have hsorted := Token.pairwise_scan first.toList
  have hmoved := Token.pairwise_scan second.toList
  rw [h.tokens, List.pairwise_map] at hmoved
  rw [List.pairwise_iff_getElem] at hsorted hmoved
  rcases hplace with ⟨token, hmem, rfl⟩ | rfl
  · rcases hplace' with ⟨token', hmem', rfl⟩ | rfl
    · obtain ⟨index, hindex, rfl⟩ := List.mem_iff_getElem.mp hmem
      obtain ⟨index', hindex', rfl⟩ := List.mem_iff_getElem.mp hmem'
      rcases Nat.lt_trichotomy index index' with hbefore | rfl | hbehind
      · exact hmoved index index' hindex hindex' hbefore
      · exact absurd hlt (Nat.lt_irrefl _)
      · exact absurd (hsorted index' index hindex' hindex hbehind) (Nat.lt_asymm hlt)
    · have himage : token.relocate move ∈ scan second.toList :=
        h.tokens ▸ List.mem_map_of_mem hmem
      rw [← h.ending]
      exact Compiler.offset_lt_length himage
  · rcases hplace' with ⟨token', hmem', rfl⟩ | rfl
    · exact absurd (Compiler.offset_lt_length hmem') (Nat.lt_asymm hlt)
    · exact absurd hlt (Nat.lt_irrefl _)

/-! ## Compilation in motion -/

theorem textOutcomes (compiler : Compiler) :
    compiler.textOutcomes second =
      (compiler.textOutcomes first).map (Outcome.relocate move) := by
  rw [Compiler.textOutcomes, h.tokens,
    Compiler.outcomes_relocate compiler move (.inr h.ending)]
  rfl

theorem rules (compiler : Compiler) :
    (compiler.compile second).table.rules =
      (compiler.compile first).table.rules.map (Rule.relocate move) := by
  rw [Compiler.rules_eq_collect, Compiler.rules_eq_collect, h.textOutcomes,
    Compiler.collect_relocate]

theorem size (compiler : Compiler) :
    (compiler.compile second).table.size = (compiler.compile first).table.size := by
  rw [RuleTable.size, h.rules, List.length_map]
  rfl

theorem diagnostics {compiler : Compiler}
    (hsize : (compiler.compile first).table.size ≤ compiler.limits.rulesMax) :
    (compiler.compile second).diagnostics =
      (compiler.compile first).diagnostics.map (Diagnostic.relocate move) := by
  have hsize' : (compiler.compile second).table.size ≤ compiler.limits.rulesMax := by
    rw [h.size]
    exact hsize
  have hperm : (compiler.compile second).diagnostics.Perm
      ((compiler.compile first).diagnostics.map (Diagnostic.relocate move)) := by
    refine (Compiler.perm_diagnostics_compile hsize').trans ?_
    refine .trans ?_ ((Compiler.perm_diagnostics_compile hsize).map _).symm
    rw [h.tokens, Compiler.illegalities_relocate, h.textOutcomes,
      Compiler.collect_relocate, List.map_append]
  -- Both lists are in the order of their places, and no place comes twice.
  refine hperm.eq_of_pairwise
    (fun _ _ _ _ hlt hgt => absurd hlt (Nat.lt_asymm hgt))
    (Compiler.pairwise_diagnostics_compile hsize') ?_
  refine List.pairwise_map.mpr
    ((Compiler.pairwise_diagnostics_compile hsize).imp_of_mem ?_)
  intro diagnostic later hmem hmem' hlt
  exact h.lt_of_lt (Compiler.diagnostic_place hsize hmem)
    (Compiler.diagnostic_place hsize hmem') hlt

theorem forall₂_rules (compiler : Compiler) :
    List.Forall₂ (fun rule image => image = { rule with offset := image.offset } ∧
        Corresponds first second rule.offset image.offset)
      (compiler.compile first).table.rules (compiler.compile second).table.rules := by
  rw [h.rules, List.forall₂_map_right_iff, List.forall₂_same]
  intro rule hmem
  rw [Compiler.rules_eq_verdicts] at hmem
  have hplace := Compiler.rule_place (Compiler.settles_verdicts compiler first) hmem
  exact ⟨rfl, h.corresponds (.inl hplace)⟩

theorem forall₂_diagnostics {compiler : Compiler}
    (hsize : (compiler.compile first).table.size ≤ compiler.limits.rulesMax) :
    List.Forall₂ (fun diagnostic image => image.kind = diagnostic.kind ∧
        Corresponds first second diagnostic.offset image.offset)
      (compiler.compile first).diagnostics (compiler.compile second).diagnostics := by
  rw [h.diagnostics hsize, List.forall₂_map_right_iff, List.forall₂_same]
  exact fun diagnostic hmem =>
    ⟨rfl, h.corresponds (Compiler.diagnostic_place hsize hmem)⟩

end Moves

/-! ## Texts that respell each other -/

namespace Compiler

/-- Neither layout nor letter case has a say in what a text means: the rules are the same,
and so are the diagnostics and their order, each at the same token.  Only the complaint
about too many rules stands at the start of both texts. -/
theorem compile_respelled (compiler : Compiler)
    (h : Token.Respells first.toList second.toList) :
    List.Forall₂ (fun rule image => image = { rule with offset := image.offset } ∧
        Corresponds first second rule.offset image.offset)
      (compiler.compile first).table.rules (compiler.compile second).table.rules ∧
    if compiler.limits.rulesMax < (compiler.compile first).table.size then
      (compiler.compile first).diagnostics =
          [⟨0, .ruleCountExceeded compiler.limits.rulesMax⟩] ∧
        (compiler.compile second).diagnostics =
          [⟨0, .ruleCountExceeded compiler.limits.rulesMax⟩]
    else
      List.Forall₂ (fun diagnostic image => image.kind = diagnostic.kind ∧
          Corresponds first second diagnostic.offset image.offset)
        (compiler.compile first).diagnostics (compiler.compile second).diagnostics := by
  obtain ⟨move, hmoves⟩ := exists_moves h.map_kind_scan
  have hrules := hmoves.forall₂_rules compiler
  rcases Nat.lt_or_ge compiler.limits.rulesMax (compiler.compile first).table.size with
    hmany | hfew
  · rw [if_pos hmany]
    refine ⟨hrules, diagnostics_compile_of_lt hmany, diagnostics_compile_of_lt ?_⟩
    rw [hmoves.size]
    exact hmany
  · rw [if_neg (Nat.not_lt.mpr hfew)]
    exact ⟨hrules, hmoves.forall₂_diagnostics hfew⟩

/-- A rule, an illegal character, a rule that leads nowhere, a duplicate and a statement
without an end. -/
def looseText : String := "and/3;$ 3/3;And/3;and/3"

def tightText : String := "and/3;!;\n$3/3;and/3;and/3"

theorem compile_respelled_words :
    Token.Respells looseText.toList tightText.toList ∧
      (wordCompiler.compile looseText).diagnostics.map Diagnostic.offset =
        [6, 10, 16, 23] ∧
      List.Forall₂ (fun diagnostic image => image.kind = diagnostic.kind ∧
          Corresponds looseText tightText diagnostic.offset image.offset)
        (wordCompiler.compile looseText).diagnostics
        (wordCompiler.compile tightText).diagnostics := by
  have hcase : Token.Edit looseText.toList "and/3;$ 3/3;and/3;and/3".toList :=
    .recase "and/3;$ 3/3;".toList "nd/3;and/3".toList (by decide) (by decide)
  have hcomment : Token.Edit "and/3;$ 3/3;and/3;and/3".toList
      "and/3;!;\n$ 3/3;and/3;and/3".toList :=
    .insert "and/3;".toList "$ 3/3;and/3;and/3".toList (by decide)
      (.comment (by decide : '\n' ∉ [';'])) (.inr (Token.apart_cons (by decide)))
  have hblank : Token.Edit tightText.toList "and/3;!;\n$ 3/3;and/3;and/3".toList := by
    refine .insert "and/3;!;\n$".toList "3/3;and/3;and/3".toList (by decide)
      (.blank (by decide : Text.isBlank ' ' = true)) (.inl ?_)
    rintro _ ⟨⟩
    decide
  have hrespells : Token.Respells looseText.toList tightText.toList := by
    refine .trans _ _ _ (.rel _ _ hcase) ?_
    refine .trans _ _ _ (.rel _ _ hcomment) ?_
    exact .symm _ _ (.rel _ _ hblank)
  have hfew : (wordCompiler.compile looseText).table.size ≤
      wordCompiler.limits.rulesMax := by decide +kernel
  have hplaces : (wordCompiler.compile looseText).diagnostics.map Diagnostic.offset =
      [6, 10, 16, 23] := by
    rw [diagnostics_compile hfew, List.mergeSort_of_pairwise (by decide +kernel)]
    decide +kernel
  obtain ⟨-, hdiagnostics⟩ := compile_respelled wordCompiler hrespells
  rw [if_neg (Nat.not_lt.mpr hfew)] at hdiagnostics
  exact ⟨hrespells, hplaces, hdiagnostics⟩

end Compiler

end Cellular
