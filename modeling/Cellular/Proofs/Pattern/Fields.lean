import Cellular.Pattern.Parser
import Cellular.Pattern.Printer
import Cellular.Proofs.Pattern.Section
import Cellular.Proofs.Rule.Layout
import Cellular.Proofs.Success
import Mathlib.Data.List.TakeWhile

/-!
# States, rules, neighborhood and size in a file

Every one of these sections is written in plain lines, and read alone it gives
back what it was written from.
-/

namespace Cellular

open Text

/-! ## Names and numbers in front of a line -/

theorem IsCanonicalName.bracket_notMem {name : String} (h : IsCanonicalName name) :
    '[' ∉ name.toList := fun hmem => absurd (h.chars _ hmem).1 (by decide)

theorem Text.bracket_notMem_toString (n : Nat) : '[' ∉ (toString n).toList :=
  fun hmem => absurd (isDigit_of_mem_toString hmem) (by decide)

theorem IsCanonicalName.isMarker_append {name : String} (h : IsCanonicalName name)
    (rest : List Char) : Section.isMarker (name.toList ++ rest) = false :=
  Section.isMarker_append h.isWord h.bracket_notMem

theorem Neighborhood.toList_render (neighborhood : Neighborhood) :
    neighborhood.render.toList =
      [' '].intercalate (neighborhood.names.map String.toList) :=
  String.toList_intercalate

namespace Pattern

variable {pattern : Pattern} {body : List NumberedLine} {line : List Char}

/-! ## States -/

theorem isPlain_stateLine (h : line ∈ pattern.stateLines) : Section.IsPlain line := by
  obtain ⟨name, hname, rfl⟩ := List.mem_map.mp h
  have hname := pattern.states.canonical name hname
  rw [String.toList_append]
  exact ⟨unbroken_append.mpr ⟨hname.isWord.unbroken, by decide⟩,
    hname.isMarker_append _⟩

theorem stateName_eq {name : String} (hname : IsCanonicalName name) (number : Nat) :
    stateName ⟨number, (name ++ ";").toList⟩ = name.toList := by
  have htext : (name ++ ";").toList = name.toList ++ [';'] := String.toList_append
  have hfirst : ∀ c ∈ name.toList.head?, isBlank c = false := fun c hc =>
    hname.isWord.solid c (List.mem_of_mem_head? hc)
  have hlast : name.toList.reverse.dropWhile (· = ';') = name.toList.reverse := by
    refine List.dropWhile_eq_self_iff.mpr fun hlength heq => ?_
    have hmem : name.toList.reverse[0] ∈ name.toList :=
      List.mem_reverse.mp (List.getElem_mem _)
    rw [of_decide_eq_true heq] at hmem
    exact absurd (hname.chars _ hmem).1 (by decide)
  have hsemicolon : isBlank ';' = false := by decide
  rw [stateName, htext, trim_eq_self hfirst hsemicolon, List.reverse_append,
    List.reverse_singleton, List.singleton_append,
    List.dropWhile_cons_of_pos (by decide), hlast, List.reverse_reverse,
    trim_word hname.isWord]

theorem map_stateName (h : body.map NumberedLine.text = pattern.stateLines) :
    body.map stateName = pattern.states.userNames.map String.toList := by
  have htexts : body.map stateName =
      (body.map NumberedLine.text).map fun text => stateName ⟨0, text⟩ := by
    rw [List.map_map]
    rfl
  rw [htexts, h, stateLines, List.map_map]
  refine List.map_congr_left fun name hmem => ?_
  rw [Function.comp_apply, stateName_eq (pattern.states.canonical name hmem)]

theorem readStates_eq_ok (h : body.map NumberedLine.text = pattern.stateLines) :
    readStates body = .ok pattern.states := by
  have hsome : ∀ name ∈ pattern.states.userNames.map String.toList,
      (!name.isEmpty) = true := by
    intro letters hmem
    obtain ⟨name, hname, rfl⟩ := List.mem_map.mp hmem
    simpa using (pattern.states.canonical name hname).isWord.ne_nil
  simp only [readStates, map_stateName h]
  rw [List.filter_eq_self.mpr hsome, List.map_map]
  simp [StateUniverse.ofNames_userNames, Except.mapError]

/-! ## Rules -/

section Rules

variable {neighborhood : Neighborhood} {table : RuleTable}

theorem ruleLines_eq (hrules : pattern.rules = table.render)
    (hsound : ∀ rule ∈ table.rules, rule.IsSound pattern.states neighborhood) :
    pattern.ruleLines = table.rules.map fun rule => rule.render.toList := by
  rw [ruleLines, hrules, RuleTable.lines_render hsound, List.filter_eq_self]
  intro line hmem
  obtain ⟨rule, hrule, rfl⟩ := List.mem_map.mp hmem
  have hname := StateUniverse.isCanonicalName_of_mem (hsound rule hrule).source
  obtain ⟨rest, hrest⟩ := rule.exists_render_eq_append
  rw [hrest, hname.isWord.isAllBlank_append]
  rfl

theorem isPlain_ruleLine (hrules : pattern.rules = table.render)
    (hsound : ∀ rule ∈ table.rules, rule.IsSound pattern.states neighborhood)
    (h : line ∈ pattern.ruleLines) : Section.IsPlain line := by
  rw [ruleLines_eq hrules hsound] at h
  obtain ⟨rule, hrule, rfl⟩ := List.mem_map.mp h
  have hname := StateUniverse.isCanonicalName_of_mem (hsound rule hrule).source
  obtain ⟨rest, hrest⟩ := rule.exists_render_eq_append
  exact ⟨(hsound rule hrule).unbroken_render, hrest ▸ hname.isMarker_append rest⟩

theorem rules_eq_unlines (hrules : pattern.rules = table.render)
    (hsound : ∀ rule ∈ table.rules, rule.IsSound pattern.states neighborhood) :
    pattern.rules.toList = unlines pattern.ruleLines := by
  rw [ruleLines_eq hrules hsound, hrules, RuleTable.toList_render]

end Rules

theorem readRules_eq (hrules : pattern.rules.toList = unlines pattern.ruleLines)
    (h : body.map NumberedLine.text = pattern.ruleLines) :
    readRules body = pattern.rules := by
  have hbody : (body.filter fun line => !line.isBlank).map NumberedLine.text =
      (body.map NumberedLine.text).filter fun line => !isAllBlank line := by
    rw [List.filter_map]
    rfl
  have hfilter : pattern.ruleLines.filter (fun line => !isAllBlank line) =
      pattern.ruleLines := by
    rw [ruleLines, List.filter_filter]
    simp only [Bool.and_self]
  rw [readRules, hbody, h, hfilter, ← hrules, String.ofList_toList]

/-! ## Neighborhood -/

theorem isPlain_neighborhoodLine (neighborhood : Neighborhood) :
    Section.IsPlain neighborhood.render.toList := by
  have hnames : ∀ name ∈ neighborhood.names, IsCanonicalName name := by
    intro name hmem
    obtain ⟨direction, -, rfl⟩ := List.mem_map.mp hmem
    exact direction.isCanonicalName_name
  rw [Neighborhood.toList_render]
  refine ⟨unbroken_intercalate (by decide) ?_, ?_⟩
  · simpa using fun name hmem => (hnames name hmem).isWord.unbroken
  · cases hlist : neighborhood.names with
    | nil => decide
    | cons name names =>
        have hname := hnames name (hlist ▸ List.mem_cons_self)
        cases names with
        | nil => simpa using hname.isMarker_append []
        | cons next names =>
            rw [List.map_cons, List.intercalate_cons_of_ne_nil (by simp),
              List.append_assoc]
            exact hname.isMarker_append _

theorem readNeighborhood_eq_ok
    (h : body.map NumberedLine.text = [pattern.neighborhood.render.toList]) :
    readNeighborhood body = .ok pattern.neighborhood := by
  obtain ⟨line, rfl, hline⟩ := List.map_eq_singleton_iff.mp h
  have hwords : words line.text = pattern.neighborhood.names.map String.toList := by
    rw [hline, Neighborhood.toList_render, words_intercalate]
    intro word hmem
    obtain ⟨_, hname, rfl⟩ := List.mem_map.mp hmem
    obtain ⟨direction, -, rfl⟩ := List.mem_map.mp hname
    exact direction.isCanonicalName_name.isWord
  have hread : readDirections line = .ok pattern.neighborhood.toList := by
    rw [readDirections, hwords, Neighborhood.names, List.map_map, mapM_eq_ok_iff,
      List.forall₂_map_left_iff, List.forall₂_same]
    intro direction _
    simp [Direction.parse?_name]
  simp [readNeighborhood, hread, Neighborhood.ofList_toList, bind, Except.bind, pure,
    Except.pure]

/-! ## Size -/

theorem toList_sizeLine (pattern : Pattern) :
    pattern.sizeLine = [' '].intercalate
      [(toString pattern.grid.height).toList, (toString pattern.grid.width).toList] := by
  simp [sizeLine, List.intercalate_cons_cons]

theorem isPlain_sizeLine (pattern : Pattern) : Section.IsPlain pattern.sizeLine := by
  have hheight := isWord_toString_nat pattern.grid.height
  have hwidth := isWord_toString_nat pattern.grid.width
  rw [sizeLine, String.toList_append, String.toList_append, List.append_assoc]
  refine ⟨?_, Section.isMarker_append hheight (bracket_notMem_toString _)⟩
  simp only [unbroken_append]
  exact ⟨hheight.unbroken, by decide, hwidth.unbroken⟩

theorem readSize_eq_ok (hwidth : 0 < pattern.grid.width)
    (hheight : 0 < pattern.grid.height) (hwidth' : pattern.grid.width < Word.modulus)
    (hheight' : pattern.grid.height < Word.modulus)
    (h : body.map NumberedLine.text = [pattern.sizeLine]) :
    readSize body = .ok (pattern.grid.height, pattern.grid.width) := by
  obtain ⟨line, rfl, hline⟩ := List.map_eq_singleton_iff.mp h
  have hwords : words line.text =
      [(toString pattern.grid.height).toList, (toString pattern.grid.width).toList] := by
    rw [hline, toList_sizeLine, words_intercalate]
    simp only [List.forall_mem_cons, isWord_toString_nat, true_and]
    nofun
  have hnumbers : (words line.text).mapM (unsigned? (Word.modulus - 1)) =
      some [pattern.grid.height, pattern.grid.width] := by
    rw [hwords, List.mapM_cons, unsigned?_toString (Nat.le_sub_one_of_lt hheight'),
      List.mapM_cons, unsigned?_toString (Nat.le_sub_one_of_lt hwidth')]
    rfl
  have hsize : sizeOfLine? line.text =
      some (pattern.grid.height, pattern.grid.width) := by
    rw [sizeOfLine?, hnumbers]
    exact if_pos ⟨hheight, hwidth⟩
  have hsome : line.isBlank = false := by
    rw [NumberedLine.isBlank, hline, sizeLine, String.toList_append,
      String.toList_append, List.append_assoc]
    exact (isWord_toString_nat _).isAllBlank_append
  simp [readSize, hsome, hsize]

end Pattern

end Cellular
