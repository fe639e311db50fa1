import Cellular.Direction
import Cellular.Proofs.Text.Words
import Cellular.State.Universe
import Mathlib.Data.List.Nodup

/-!
# Names of states

Every name of a universe is canonical, so it is a word that is its own upper case,
and a word names the state that is its upper case
(`bind_name?_id?_eq_some_iff`).  The names of directions are canonical, too.
-/

namespace Cellular

open Text

theorem Text.upperCase_upperCase (text : String) :
    upperCase (upperCase text) = upperCase text := by
  rw [← String.toList_inj, upperCase, upperCase, String.toList_map, String.toList_map,
    List.map_map]
  exact List.map_congr_left fun c _ => toUpper_toUpper c

theorem isCanonicalName_of_all {name : String}
    (hlower : stateCharsMin ≤ name.toList.length)
    (hupper : name.toList.length ≤ stateCharsMax)
    (hchars : (name.toList.all fun c => isNameChar c && c.toUpper == c) = true) :
    IsCanonicalName name := by
  refine ⟨hlower, hupper, fun c hmem => ?_⟩
  have hc := List.all_eq_true.mp hchars c hmem
  rw [Bool.and_eq_true, beq_iff_eq] at hc
  exact hc

theorem IsCanonicalName.map_toUpper {name : String} (h : IsCanonicalName name) :
    name.toList.map Char.toUpper = name.toList := by
  rw [List.map_congr_left fun c hmem => (h.chars c hmem).2, List.map_id']

theorem IsCanonicalName.upperCase_eq {name : String} (h : IsCanonicalName name) :
    upperCase name = name := by
  rw [← String.toList_inj, upperCase, String.toList_map, h.map_toUpper]

theorem IsCanonicalName.isWord {name : String} (h : IsCanonicalName name) :
    IsWord name.toList := by
  refine ⟨?_, fun c hmem => isBlank_of_isNameChar (h.chars c hmem).1⟩
  intro hnil
  have hlength := h.length_ge
  simp [hnil, stateCharsMin] at hlength

theorem Direction.isCanonicalName_name (direction : Direction) :
    IsCanonicalName direction.name := by
  cases direction <;>
    exact isCanonicalName_of_all (by decide) (by decide) (by decide)

theorem Direction.parse?_eq_some_iff {word : String} {direction : Direction} :
    Direction.parse? word = some direction ↔
      upperCase (String.ofList (trim word.toList)) = direction.name := by
  rw [parse?]
  constructor
  · intro h
    simpa [eq_comm] using List.find?_some h
  · intro h
    rw [h, ofName?_name]

theorem Direction.parse?_name (direction : Direction) :
    parse? direction.name = some direction := by
  have hname := direction.isCanonicalName_name
  rw [parse?_eq_some_iff, trim_word hname.isWord, String.ofList_toList,
    hname.upperCase_eq]

theorem normalizeName_eq_ok {name : String} (h : IsCanonicalName name) :
    normalizeName name = .ok name := by
  have hchars : (name.toList.all isNameChar) = true :=
    List.all_eq_true.mpr fun c hmem => (h.chars c hmem).1
  simp only [normalizeName, trim_word h.isWord]
  rw [if_pos ⟨h.length_ge, h.length_le⟩, if_pos hchars, h.map_toUpper,
    String.ofList_toList]

namespace StateUniverse

variable {states : StateUniverse} {name word : String}

theorem isCanonicalName_of_mem (h : name ∈ states.names) :
    IsCanonicalName name := by
  rcases List.mem_cons.mp h with rfl | hdeclared
  · exact isCanonicalName_of_all (by decide) (by decide) (by decide)
  · exact states.canonical name hdeclared

theorem idxOf?_names_lt {index : Nat}
    (h : states.names.idxOf? name = some index) :
    states.names[index]? = some name ∧ index < 65536 := by
  obtain ⟨hlt, hget, -⟩ := List.idxOf?_eq_some_iff.mp h
  have hlength := states.length_le
  simp only [names, List.length_cons, declaredStatesMax] at hlt hlength
  exact ⟨by rw [List.getElem?_eq_getElem hlt, hget], by omega⟩

theorem exists_id?_of_mem (h : name ∈ states.names) :
    ∃ state, states.id? name = some state := by
  obtain ⟨index, hindex⟩ := Option.isSome_iff_exists.mp
    (List.isSome_idxOf?.mpr h)
  exact ⟨.ofIndex index, by
    rw [id?, (isCanonicalName_of_mem h).upperCase_eq, hindex, Option.map_some]⟩

theorem bind_name?_id?_eq_some_iff :
    (do
      let state ← states.id? word
      states.name? state) = some name ↔
      upperCase word = name ∧ name ∈ states.names := by
  rw [id?, Option.bind_eq_bind]
  cases hindex : states.names.idxOf? (upperCase word) with
  | none =>
      rw [List.idxOf?_eq_none_iff] at hindex
      constructor
      · intro h
        cases h
      · rintro ⟨rfl, hmem⟩
        exact absurd hmem hindex
  | some index =>
      obtain ⟨hget, hlt⟩ := idxOf?_names_lt hindex
      simp only [Option.map_some, Option.bind_some, name?,
        StateId.index_ofIndex hlt, hget, Option.some.injEq]
      constructor
      · rintro rfl
        exact ⟨rfl, List.mem_of_getElem? hget⟩
      · exact And.left

theorem exists_name?_of_id? {state : StateId} (h : states.id? word = some state) :
    ∃ name, states.name? state = some name := by
  obtain ⟨index, hindex, rfl⟩ := Option.map_eq_some_iff.mp h
  obtain ⟨hget, hlt⟩ := idxOf?_names_lt hindex
  exact ⟨_, by rw [name?, StateId.index_ofIndex hlt, hget]⟩

/-! ## Declaring the names of a universe -/

theorem exists_declare (hname : IsCanonicalName name) (hfree : name ≠ freeName)
    (hnew : name ∉ states.userNames)
    (hroom : states.userNames.length < declaredStatesMax) :
    ∃ after, states.declare name = .ok after ∧
      after.userNames = states.userNames ++ [name] := by
  unfold declare
  split
  · rename_i error herror
    rw [normalizeName_eq_ok hname] at herror
    cases herror
  · rename_i canonical hcanonical
    rw [normalizeName_eq_ok hname, Except.ok.injEq] at hcanonical
    subst hcanonical
    rw [dif_neg hfree, dif_neg hnew, dif_neg (Nat.not_le.mpr hroom)]
    exact ⟨_, rfl, rfl⟩

/-- Names that make up a universe after the ones before can be declared in turn. -/
theorem foldlM_declare {later : StateUniverse} {names : List String}
    (h : later.userNames = states.userNames ++ names) :
    names.foldlM declare states = .ok later := by
  induction names generalizing states with
  | nil =>
      rw [List.append_nil] at h
      exact congrArg Except.ok (ext h.symm)
  | cons name names ih =>
      have hmem : name ∈ later.userNames := by simp [h]
      have hnodup := later.distinct
      have hroom := later.length_le
      rw [h, List.nodup_append] at hnodup
      rw [h, List.length_append, List.length_cons] at hroom
      obtain ⟨after, hafter, hnames⟩ := exists_declare (later.canonical name hmem)
        (fun heq => later.free_notMem (heq ▸ hmem))
        (fun hold => hnodup.2.2 name hold name List.mem_cons_self rfl)
        (by omega : states.userNames.length < declaredStatesMax)
      rw [List.foldlM_cons, hafter]
      exact ih (by rw [h, hnames, List.append_assoc, List.singleton_append])

theorem ofNames_userNames (states : StateUniverse) :
    ofNames states.userNames = .ok states :=
  foldlM_declare rfl

/-! ## Names and identifiers -/

theorem nodup_names (states : StateUniverse) : states.names.Nodup :=
  List.nodup_cons.mpr ⟨states.free_notMem, states.distinct⟩

theorem id?_of_name? {state : StateId} (h : states.name? state = some name) :
    states.id? name = some state := by
  have hmem : name ∈ states.names := List.mem_of_getElem? h
  obtain ⟨hlt, hget⟩ := List.getElem?_eq_some_iff.mp h
  have hindex : states.names.idxOf? name = some state.index := by
    rw [List.idxOf?_eq_some_iff]
    refine ⟨hlt, hget, fun index hindex heq => ?_⟩
    have hsame := (List.Nodup.getElem_inj_iff states.nodup_names).mp
      (heq.trans hget.symm)
    exact absurd hsame (Nat.ne_of_lt hindex)
  rw [id?, (isCanonicalName_of_mem hmem).upperCase_eq, hindex, Option.map_some,
    StateId.ofIndex_index]

theorem id?_eq_some_iff {state : StateId} :
    states.id? word = some state ↔ states.name? state = some (upperCase word) := by
  constructor
  · intro h
    obtain ⟨name, hname⟩ := exists_name?_of_id? h
    have hbind : (do states.name? (← states.id? word)) = some name := by
      rw [h, Option.bind_eq_bind, Option.bind_some, hname]
    rw [(bind_name?_id?_eq_some_iff.mp hbind).1, hname]
  · intro h
    have hid := id?_of_name? h
    rwa [id?, upperCase_upperCase, ← id?] at hid

end StateUniverse

end Cellular
