import Cellular.Config.Format
import Cellular.Proofs.State.Names
import Cellular.Proofs.Success
import Mathlib.Data.List.Induction
import Std.Data.HashMap.Lemmas

/-!
# Names and identifiers of a universe

Names can be declared just if each is valid, none is the name of `FREE`, no two are the
same and there is room for all of them (`AreDeclarable`); otherwise the first name that
offends gives the fault.  In the universe that is declared, names and identifiers find each
other (`ofNames_isInterned`).  A universe that is built as a list of names with a hash index
beside it (`Registry`) gives the same faults and the same answers.
-/

namespace Cellular

open Text

/-! ## One name -/

def canonicalName (name : String) : String :=
  upperCase (String.ofList (trim name.toList))

def HasNameLength (name : String) : Prop :=
  stateCharsMin ≤ (trim name.toList).length ∧ (trim name.toList).length ≤ stateCharsMax

/-- Between blanks there are letters, digits and underscores, neither too few nor too
many. -/
structure IsDeclarableName (name : String) : Prop where
  length : HasNameLength name
  chars : ∀ c ∈ trim name.toList, isNameChar c = true

theorem canonicalName_eq (name : String) :
    canonicalName name = String.ofList ((trim name.toList).map Char.toUpper) := by
  rw [← String.toList_inj, canonicalName, upperCase, String.toList_map, String.toList_ofList,
    String.toList_ofList]

theorem IsDeclarableName.normalizeName_eq {name : String} (h : IsDeclarableName name) :
    normalizeName name = .ok (canonicalName name) := by
  have hchars : (trim name.toList).all isNameChar = true := List.all_eq_true.mpr h.chars
  rw [canonicalName_eq]
  exact (if_pos h.length).trans (if_pos hchars)

theorem normalizeName_of_length {name : String} (h : ¬HasNameLength name) :
    normalizeName name = .error
      (.invalidLength (String.ofList (trim name.toList)) stateCharsMin stateCharsMax) :=
  if_neg h

theorem normalizeName_of_chars {name : String} (hlength : HasNameLength name)
    (hchars : ∃ c ∈ trim name.toList, isNameChar c = false) :
    normalizeName name = .error (.illegalCharacters (String.ofList (trim name.toList))) := by
  have hall : ¬(trim name.toList).all isNameChar = true := by simpa using hchars
  exact (if_pos hlength).trans (if_neg hall)

namespace StateUniverse

variable {states later : StateUniverse} {name word : String} {state : StateId}
  {names taken : List String} {error : StateError}

/-- Why a name cannot be declared behind the names that are taken.  What is looked at first
is stated first. -/
inductive Offends (taken : List String) (name : String) : StateError → Prop
  | length (hlength : ¬HasNameLength name) :
      Offends taken name
        (.invalidLength (String.ofList (trim name.toList)) stateCharsMin stateCharsMax)
  | characters (hlength : HasNameLength name)
      (hchars : ∃ c ∈ trim name.toList, isNameChar c = false) :
      Offends taken name (.illegalCharacters (String.ofList (trim name.toList)))
  | reserved (hname : IsDeclarableName name) (hfree : canonicalName name = freeName) :
      Offends taken name .reservedName
  | duplicate (hname : IsDeclarableName name) (hfree : canonicalName name ≠ freeName)
      (htaken : canonicalName name ∈ taken) :
      Offends taken name (.duplicate (canonicalName name))
  | tooMany (hname : IsDeclarableName name) (hfree : canonicalName name ≠ freeName)
      (hnew : canonicalName name ∉ taken) (hfull : declaredStatesMax ≤ taken.length) :
      Offends taken name (.tooMany declaredStatesMax)

structure IsOpen (taken : List String) (name : String) : Prop where
  valid : IsDeclarableName name
  notFree : canonicalName name ≠ freeName
  new : canonicalName name ∉ taken
  room : taken.length < declaredStatesMax

theorem isOpen_or_offends (taken : List String) (name : String) :
    IsOpen taken name ∨ ∃ error, Offends taken name error := by
  by_cases hlength : HasNameLength name
  · by_cases hchars : ∀ c ∈ trim name.toList, isNameChar c = true
    · have hname : IsDeclarableName name := ⟨hlength, hchars⟩
      by_cases hfree : canonicalName name = freeName
      · exact .inr ⟨_, .reserved hname hfree⟩
      · by_cases hnew : canonicalName name ∈ taken
        · exact .inr ⟨_, .duplicate hname hfree hnew⟩
        · by_cases hroom : taken.length < declaredStatesMax
          · exact .inl ⟨hname, hfree, hnew, hroom⟩
          · exact .inr ⟨_, .tooMany hname hfree hnew (Nat.le_of_not_lt hroom)⟩
    · exact .inr ⟨_, .characters hlength (by simpa using hchars)⟩
  · exact .inr ⟨_, .length hlength⟩

theorem declare_of_error (h : normalizeName name = .error error) :
    states.declare name = .error error := by
  unfold declare
  split
  · rename_i other hother
    obtain rfl := Except.error.inj (h.symm.trans hother)
    rfl
  · rename_i canonical hcanonical
    rw [h] at hcanonical
    cases hcanonical

/-- What declaring a valid name does, check by check. -/
theorem declare_spec (hname : IsDeclarableName name) :
    (canonicalName name = freeName → states.declare name = .error .reservedName) ∧
      (canonicalName name ≠ freeName → canonicalName name ∈ states.userNames →
        states.declare name = .error (.duplicate (canonicalName name))) ∧
      (canonicalName name ≠ freeName → canonicalName name ∉ states.userNames →
        declaredStatesMax ≤ states.userNames.length →
          states.declare name = .error (.tooMany declaredStatesMax)) ∧
      (IsOpen states.userNames name →
        ∃ after, states.declare name = .ok after ∧
          after.userNames = states.userNames ++ [canonicalName name]) := by
  unfold declare
  split
  · rename_i hother
    rw [hname.normalizeName_eq] at hother
    cases hother
  · rename_i canonical hcanonical
    obtain rfl : canonicalName name = canonical :=
      Except.ok.inj (hname.normalizeName_eq.symm.trans hcanonical)
    refine ⟨fun hfree => dif_pos hfree, fun hfree htaken => ?_, fun hfree hnew hfull => ?_,
      fun hopen => ?_⟩
    · rw [dif_neg hfree, dif_pos htaken]
    · rw [dif_neg hfree, dif_neg hnew, dif_pos hfull]
    · rw [dif_neg hopen.notFree, dif_neg hopen.new, dif_neg (Nat.not_le.mpr hopen.room)]
      exact ⟨_, rfl, rfl⟩

theorem Offends.declare_eq (h : Offends states.userNames name error) :
    states.declare name = .error error := by
  cases h with
  | length hlength => exact declare_of_error (normalizeName_of_length hlength)
  | characters hlength hchars => exact declare_of_error (normalizeName_of_chars hlength hchars)
  | reserved hname hfree => exact (declare_spec hname).1 hfree
  | duplicate hname hfree htaken => exact (declare_spec hname).2.1 hfree htaken
  | tooMany hname hfree hnew hfull => exact (declare_spec hname).2.2.1 hfree hnew hfull

theorem declare_eq_error_iff :
    states.declare name = .error error ↔ Offends states.userNames name error := by
  refine ⟨fun h => ?_, Offends.declare_eq⟩
  rcases isOpen_or_offends states.userNames name with hopen | ⟨other, hother⟩
  · obtain ⟨after, hafter, -⟩ := (declare_spec hopen.valid).2.2.2 hopen
    rw [hafter] at h
    cases h
  · rw [hother.declare_eq] at h
    cases h
    exact hother

theorem declare_eq_ok_iff :
    states.declare name = .ok later ↔
      IsOpen states.userNames name ∧
        later.userNames = states.userNames ++ [canonicalName name] := by
  constructor
  · intro h
    rcases isOpen_or_offends states.userNames name with hopen | ⟨error, herror⟩
    · obtain ⟨after, hafter, hnames⟩ := (declare_spec hopen.valid).2.2.2 hopen
      rw [hafter] at h
      cases h
      exact ⟨hopen, hnames⟩
    · rw [herror.declare_eq] at h
      cases h
  · rintro ⟨hopen, hlater⟩
    obtain ⟨after, hafter, hnames⟩ := (declare_spec hopen.valid).2.2.2 hopen
    rw [hafter, ext (hlater.trans hnames.symm)]

/-! ## All names -/

structure AreDeclarable (names : List String) : Prop where
  valid : ∀ name ∈ names, IsDeclarableName name
  notFree : ∀ name ∈ names, canonicalName name ≠ freeName
  distinct : (names.map canonicalName).Nodup
  length_le : names.length ≤ declaredStatesMax

def AreDeclarable.universe (h : AreDeclarable names) : StateUniverse where
  userNames := names.map canonicalName
  canonical := by
    intro canonical hmem
    obtain ⟨name, hname, rfl⟩ := List.mem_map.mp hmem
    exact isCanonicalName_of_normalizeName (h.valid name hname).normalizeName_eq
  distinct := h.distinct
  free_notMem := by
    intro hmem
    obtain ⟨name, hname, hfree⟩ := List.mem_map.mp hmem
    exact h.notFree name hname hfree
  length_le := by
    rw [List.length_map]
    exact h.length_le

theorem areDeclarable_concat_iff :
    AreDeclarable (names ++ [name]) ↔
      AreDeclarable names ∧ IsOpen (names.map canonicalName) name := by
  have hlength : (names.map canonicalName).length = names.length := List.length_map _
  constructor
  · rintro ⟨hvalid, hfree, hdistinct, hle⟩
    rw [List.forall_mem_append, List.forall_mem_singleton] at hvalid hfree
    rw [List.map_append, List.map_singleton, List.nodup_append] at hdistinct
    rw [List.length_append, List.length_singleton] at hle
    refine ⟨⟨hvalid.1, hfree.1, hdistinct.1, Nat.le_of_succ_le hle⟩, hvalid.2, hfree.2, ?_,
      hlength ▸ hle⟩
    exact fun hmem => hdistinct.2.2 _ hmem _ (List.mem_singleton_self _) rfl
  · rintro ⟨⟨hvalid, hfree, hdistinct, hle⟩, hname, hnotFree, hnew, hroom⟩
    refine ⟨?_, ?_, ?_, ?_⟩
    · rw [List.forall_mem_append, List.forall_mem_singleton]
      exact ⟨hvalid, hname⟩
    · rw [List.forall_mem_append, List.forall_mem_singleton]
      exact ⟨hfree, hnotFree⟩
    · rw [List.map_append, List.map_singleton]
      simpa using hdistinct.concat hnew
    · rw [List.length_append, List.length_singleton]
      exact hlength ▸ hroom

theorem ofNames_concat (names : List String) (name : String) :
    ofNames (names ++ [name]) = ofNames names >>= fun states => states.declare name := by
  simp only [ofNames, List.foldlM_append, List.foldlM_cons, List.foldlM_nil, bind_pure]

theorem ofNames_eq_ok_iff :
    ofNames names = .ok states ↔
      AreDeclarable names ∧ states.userNames = names.map canonicalName := by
  -- The last name is declared behind all others.
  induction names using List.reverseRecOn generalizing states with
  | nil =>
      have hnone : AreDeclarable [] := ⟨nofun, nofun, List.nodup_nil, Nat.zero_le _⟩
      constructor
      · intro h
        cases h
        exact ⟨hnone, rfl⟩
      · rintro ⟨-, hnames⟩
        exact congrArg Except.ok (ext hnames.symm)
  | append_singleton names name ih =>
      rw [ofNames_concat, bind_eq_ok_iff, areDeclarable_concat_iff, List.map_append,
        List.map_singleton]
      constructor
      · rintro ⟨before, hbefore, hname⟩
        obtain ⟨hnames, huser⟩ := ih.mp hbefore
        obtain ⟨hopen, hstates⟩ := declare_eq_ok_iff.mp hname
        rw [huser] at hopen hstates
        exact ⟨⟨hnames, hopen⟩, hstates⟩
      · rintro ⟨⟨hnames, hopen⟩, hstates⟩
        exact ⟨hnames.universe, ih.mpr ⟨hnames, rfl⟩, declare_eq_ok_iff.mpr ⟨hopen, hstates⟩⟩

theorem exists_ofNames_iff : (∃ states, ofNames names = .ok states) ↔ AreDeclarable names := by
  constructor
  · rintro ⟨states, h⟩
    exact (ofNames_eq_ok_iff.mp h).1
  · intro h
    exact ⟨h.universe, ofNames_eq_ok_iff.mpr ⟨h, rfl⟩⟩

theorem ofNames_eq_error_iff :
    ofNames names = .error error ↔
      ∃ before name after, names = before ++ name :: after ∧ AreDeclarable before ∧
        Offends (before.map canonicalName) name error := by
  rw [ofNames, foldlM_eq_error_iff]
  constructor
  · rintro ⟨before, name, after, states, rfl, hbefore, hname⟩
    obtain ⟨hnames, huser⟩ := ofNames_eq_ok_iff.mp hbefore
    exact ⟨before, name, after, rfl, hnames, huser ▸ declare_eq_error_iff.mp hname⟩
  · rintro ⟨before, name, after, rfl, hnames, hname⟩
    exact ⟨before, name, after, hnames.universe, rfl, ofNames_eq_ok_iff.mpr ⟨hnames, rfl⟩,
      declare_eq_error_iff.mpr hname⟩

end StateUniverse

/-! ## A list with a hash index -/

/-- Names in their order of declaration, and beside them the identifier of every name. -/
structure Registry where
  names : List String
  index : Std.HashMap String StateId

namespace Registry

open StateUniverse

def freeOnly : Registry := ⟨[freeName], (∅ : Std.HashMap String StateId).insert freeName .free⟩

def declare (registry : Registry) (name : String) : Except StateError Registry := do
  let name ← normalizeName name
  if name = freeName then .error .reservedName
  else if registry.index.contains name then .error (.duplicate name)
  else if declaredStatesMax + 1 ≤ registry.names.length then .error (.tooMany declaredStatesMax)
  else
    .ok ⟨registry.names ++ [name],
      registry.index.insert name (.ofIndex registry.names.length)⟩

def ofNames (names : List String) : Except StateError Registry :=
  names.foldlM declare freeOnly

/-- Looks a name up as it is written, and then in upper case. -/
def id? (registry : Registry) (name : String) : Option StateId :=
  registry.index[name]?.or registry.index[upperCase name]?

def name? (registry : Registry) (state : StateId) : Option String :=
  registry.names[state.index]?

variable {registry : Registry} {states : StateUniverse} {name word : String} {state : StateId}
  {names : List String} {error : StateError} {index : Std.HashMap String StateId}

def Finds (index : Std.HashMap String StateId) (names : List String) : Prop :=
  ∀ (word : String) (state : StateId),
    index[word]? = some state ↔ names[state.index]? = some word

theorem finds_empty : Finds ∅ [] := by simp [Finds]

theorem getElem?_concat_eq_some_iff {place : Nat} :
    (names ++ [name])[place]? = some word ↔
      names[place]? = some word ∨ place = names.length ∧ name = word := by
  rcases Nat.lt_trichotomy place names.length with hlt | rfl | hlt
  · rw [List.getElem?_append_left hlt]
    simp [Nat.ne_of_lt hlt]
  · simp
  · rw [List.getElem?_eq_none (by simpa using Nat.succ_le_of_lt hlt),
      List.getElem?_eq_none (Nat.le_of_lt hlt)]
    simp [Nat.ne_of_gt hlt]

theorem Finds.insert (h : Finds index names) (hnew : name ∉ names)
    (hlength : names.length < 65536) :
    Finds (index.insert name (.ofIndex names.length)) (names ++ [name]) := by
  intro word state
  rw [Std.HashMap.getElem?_insert, getElem?_concat_eq_some_iff]
  by_cases hword : name = word
  · have hnone : names[state.index]? ≠ some word :=
      fun hget => hnew (hword ▸ List.mem_of_getElem? hget)
    rw [if_pos (beq_iff_eq.mpr hword), Option.some.injEq, or_iff_right hnone, and_iff_left hword]
    constructor
    · rintro rfl
      exact StateId.index_ofIndex hlength
    · intro hindex
      rw [← hindex, StateId.ofIndex_index]
  · rw [if_neg (by simpa using hword), h word state, or_iff_left fun hlast => hword hlast.2]

structure Holds (registry : Registry) (states : StateUniverse) : Prop where
  names : registry.names = states.names
  finds : Finds registry.index registry.names

theorem holds_freeOnly : freeOnly.Holds .freeOnly where
  names := rfl
  finds := finds_empty.insert (by simp) (by decide)

theorem Holds.index_iff (h : registry.Holds states) :
    registry.index[word]? = some state ↔ states.name? state = some word := by
  rw [h.finds word state, h.names, StateUniverse.name?]

theorem Holds.contains_iff (h : registry.Holds states) :
    registry.index.contains word = true ↔ word ∈ states.names := by
  rw [Std.HashMap.contains_eq_isSome_getElem?, Option.isSome_iff_exists]
  constructor
  · rintro ⟨state, hstate⟩
    exact List.mem_of_getElem? (h.index_iff.mp hstate)
  · intro hmem
    obtain ⟨state, hstate⟩ := exists_id?_of_mem hmem
    rw [id?_eq_some_iff, (isCanonicalName_of_mem hmem).upperCase_eq] at hstate
    exact ⟨state, h.index_iff.mpr hstate⟩

theorem Holds.name?_eq (h : registry.Holds states) (state : StateId) :
    registry.name? state = states.name? state := by
  rw [name?, h.names, StateUniverse.name?]

theorem Holds.id?_eq (h : registry.Holds states) (word : String) :
    registry.id? word = states.id? word := by
  ext state
  rw [id?, id?_eq_some_iff]
  cases hword : registry.index[word]? with
  | none => rw [Option.none_or, h.index_iff]
  | some found =>
      have hname := h.index_iff.mp hword
      have hcanonical := isCanonicalName_of_mem (List.mem_of_getElem? hname)
      rw [Option.some_or, ← hword, h.index_iff, hcanonical.upperCase_eq]

/-- Both ways to declare fail alike, or give the same names and identifiers. -/
inductive Agrees : Except StateError Registry → Except StateError StateUniverse → Prop
  | error (error : StateError) : Agrees (.error error) (.error error)
  | ok {registry : Registry} {states : StateUniverse} (h : registry.Holds states) :
      Agrees (.ok registry) (.ok states)

theorem Holds.length_names (h : registry.Holds states) :
    registry.names.length = states.userNames.length + 1 := by
  rw [h.names, StateUniverse.names, List.length_cons]

theorem Holds.contains_canonicalName_iff (h : registry.Holds states)
    (hfree : canonicalName name ≠ freeName) :
    registry.index.contains (canonicalName name) = true ↔
      canonicalName name ∈ states.userNames := by
  rw [h.contains_iff, StateUniverse.names, List.mem_cons, or_iff_right hfree]

theorem declare_of_valid (hname : IsDeclarableName name) :
    registry.declare name =
      if canonicalName name = freeName then .error .reservedName
      else if registry.index.contains (canonicalName name) then
        .error (.duplicate (canonicalName name))
      else if declaredStatesMax + 1 ≤ registry.names.length then
        .error (.tooMany declaredStatesMax)
      else
        .ok ⟨registry.names ++ [canonicalName name],
          registry.index.insert (canonicalName name) (.ofIndex registry.names.length)⟩ := by
  rw [declare, hname.normalizeName_eq]
  rfl

theorem declare_of_error (h : normalizeName name = .error error) :
    registry.declare name = .error error := by
  rw [declare, h]
  rfl

theorem Holds.declare_eq_error (h : registry.Holds states)
    (herror : Offends states.userNames name error) : registry.declare name = .error error := by
  cases herror with
  | length hlength => exact declare_of_error (normalizeName_of_length hlength)
  | characters hlength hchars => exact declare_of_error (normalizeName_of_chars hlength hchars)
  | reserved hname hfree => rw [declare_of_valid hname, if_pos hfree]
  | duplicate hname hfree htaken =>
      rw [declare_of_valid hname, if_neg hfree,
        if_pos ((h.contains_canonicalName_iff hfree).mpr htaken)]
  | tooMany hname hfree hnew hfull =>
      rw [declare_of_valid hname, if_neg hfree,
        if_neg (mt (h.contains_canonicalName_iff hfree).mp hnew), h.length_names,
        if_pos (Nat.succ_le_succ hfull)]

theorem Holds.exists_declare (h : registry.Holds states) {after : StateUniverse}
    (hopen : IsOpen states.userNames name)
    (hafter : after.userNames = states.userNames ++ [canonicalName name]) :
    ∃ next, registry.declare name = .ok next ∧ next.Holds after := by
  obtain ⟨hname, hfree, hnew, hroom⟩ := hopen
  have hlength := h.length_names
  have hunknown : canonicalName name ∉ registry.names := by
    rw [h.names, StateUniverse.names, List.mem_cons, not_or]
    exact ⟨hfree, hnew⟩
  rw [declare_of_valid hname, if_neg hfree,
    if_neg (mt (h.contains_canonicalName_iff hfree).mp hnew), if_neg (by omega)]
  refine ⟨_, rfl, ?_, h.finds.insert hunknown ?_⟩
  · rw [h.names, StateUniverse.names, StateUniverse.names, hafter, List.cons_append]
  · unfold declaredStatesMax at hroom
    omega

theorem Holds.agrees_declare (h : registry.Holds states) (name : String) :
    Agrees (registry.declare name) (states.declare name) := by
  rcases isOpen_or_offends states.userNames name with hopen | ⟨error, herror⟩
  · obtain ⟨after, hafter, huser⟩ := (declare_spec hopen.valid).2.2.2 hopen
    obtain ⟨next, hnext, hholds⟩ := h.exists_declare hopen huser
    rw [hafter, hnext]
    exact .ok hholds
  · rw [herror.declare_eq, h.declare_eq_error herror]
    exact .error error

theorem Holds.agrees_foldlM (h : registry.Holds states) (names : List String) :
    Agrees (names.foldlM declare registry) (names.foldlM StateUniverse.declare states) := by
  induction names generalizing registry states with
  | nil => exact .ok h
  | cons name names ih =>
      rw [List.foldlM_cons, List.foldlM_cons]
      have hname := h.agrees_declare name
      generalize registry.declare name = first at hname ⊢
      generalize states.declare name = second at hname ⊢
      cases hname with
      | error error => exact .error error
      | ok hnext => exact ih hnext

theorem agrees_ofNames (names : List String) :
    Agrees (ofNames names) (StateUniverse.ofNames names) :=
  holds_freeOnly.agrees_foldlM names

theorem ofNames_eq_error_iff :
    ofNames names = .error error ↔ StateUniverse.ofNames names = .error error := by
  have h := agrees_ofNames names
  generalize ofNames names = first at h ⊢
  generalize StateUniverse.ofNames names = second at h ⊢
  cases h with
  | error other => rw [Except.error.injEq, Except.error.injEq]
  | ok => exact ⟨nofun, nofun⟩

theorem exists_ofNames (h : StateUniverse.ofNames names = .ok states) :
    ∃ registry, ofNames names = .ok registry ∧ registry.Holds states := by
  have hagrees := agrees_ofNames names
  rw [h] at hagrees
  generalize ofNames names = first at hagrees ⊢
  cases hagrees with
  | ok hholds => exact ⟨_, rfl, hholds⟩

end Registry

/-! ## Names and identifiers -/

namespace StateUniverse

variable {states : StateUniverse} {names : List String} {name word : String} {place : Nat}

/-- How the names of a universe and its identifiers belong together. -/
structure IsInterned (names : List String) (states : StateUniverse) : Prop where
  userNames : states.userNames = names.map canonicalName
  /-- The identifiers with a name are those from 0 on, below the size. -/
  identifiers : ∀ state, (∃ name, states.name? state = some name) ↔ state.index < states.size
  places : ∀ place < states.size, (StateId.ofIndex place).index = place
  inverse : ∀ state name,
    states.name? state = some name ↔ states.id? name = some state ∧ name ∈ states.names
  free : states.id? freeName = some .free ∧ states.name? .free = some freeName
  /-- `FREE` comes first, so the identifiers of the declared names start at 1. -/
  declared : ∀ place name, names[place]? = some name →
    states.id? (canonicalName name) = some (.ofIndex (place + 1)) ∧
      states.name? (.ofIndex (place + 1)) = some (canonicalName name)
  variants : ∀ word, (∃ state, states.id? word = some state) ↔
    ∃ name ∈ states.names, upperCase word = upperCase name
  stored : ∀ name ∈ states.names, normalizeName name = .ok name
  rebuilt : ofNames states.userNames = .ok states
  converted : ofJson? states.toJson = some states
  /-- The list with the hash index gives the same answers. -/
  registry : ∃ registry, Registry.ofNames names = .ok registry ∧
    (∀ word, registry.id? word = states.id? word) ∧
      ∀ state, registry.name? state = states.name? state

theorem size_le (states : StateUniverse) : states.size ≤ declaredStatesMax + 1 := by
  rw [size, StateUniverse.names, List.length_cons]
  exact Nat.succ_le_succ states.length_le

theorem name?_eq_some_iff {state : StateId} :
    states.name? state = some name ↔ states.id? name = some state ∧ name ∈ states.names := by
  constructor
  · intro h
    exact ⟨id?_of_name? h, List.mem_of_getElem? h⟩
  · rintro ⟨hid, hmem⟩
    rwa [id?_eq_some_iff, (isCanonicalName_of_mem hmem).upperCase_eq] at hid

theorem mapM_text? (names : List String) :
    (names.map Json.ofString).mapM Json.text? = some names := by
  induction names with
  | nil => rfl
  | cons name names ih =>
      rw [List.map_cons, List.mapM_cons, ih]
      rfl

theorem ofJson?_toJson (states : StateUniverse) : ofJson? states.toJson = some states := by
  have hnames : states.toJson.list? Json.text? = some states.userNames := mapM_text? _
  rw [ofJson?, hnames, Option.bind_eq_bind, Option.bind_some, ofNames_userNames]
  rfl

theorem exists_name?_iff {state : StateId} :
    (∃ name, states.name? state = some name) ↔ state.index < states.size := by
  simp only [name?, size, List.getElem?_eq_some_iff]
  constructor
  · rintro ⟨_, hlt, -⟩
    exact hlt
  · intro hlt
    exact ⟨_, hlt, rfl⟩

theorem index_ofIndex (h : place < states.size) : (StateId.ofIndex place).index = place := by
  have hsize := states.size_le
  refine StateId.index_ofIndex ?_
  unfold declaredStatesMax at hsize
  omega

theorem exists_id?_iff : (∃ state, states.id? word = some state) ↔
    ∃ name ∈ states.names, upperCase word = upperCase name := by
  simp only [id?_eq_some_iff]
  constructor
  · rintro ⟨state, hstate⟩
    exact ⟨_, List.mem_of_getElem? hstate, (upperCase_upperCase word).symm⟩
  · rintro ⟨name, hmem, hword⟩
    obtain ⟨state, hstate⟩ := exists_id?_of_mem hmem
    rw [id?_eq_some_iff] at hstate
    exact ⟨state, hword ▸ hstate⟩

theorem name?_ofIndex_succ (h : states.userNames = names.map canonicalName)
    (hname : names[place]? = some name) :
    states.name? (.ofIndex (place + 1)) = some (canonicalName name) := by
  obtain ⟨hlt, -⟩ := List.getElem?_eq_some_iff.mp hname
  have hplace : place + 1 < states.size := by
    rw [size, StateUniverse.names, h, List.length_cons, List.length_map]
    exact Nat.succ_lt_succ hlt
  rw [name?, index_ofIndex hplace, StateUniverse.names, h, List.getElem?_cons_succ,
    List.getElem?_map, hname, Option.map_some]

theorem isInterned_of_ofNames (h : ofNames names = .ok states) : IsInterned names states where
  userNames := (ofNames_eq_ok_iff.mp h).2
  identifiers _ := exists_name?_iff
  places _ := index_ofIndex
  inverse _ _ := name?_eq_some_iff
  free := ⟨id?_of_name? rfl, rfl⟩
  declared _ _ hname := by
    have hstored := name?_ofIndex_succ (ofNames_eq_ok_iff.mp h).2 hname
    exact ⟨id?_of_name? hstored, hstored⟩
  variants _ := exists_id?_iff
  stored _ hmem := normalizeName_eq_ok (isCanonicalName_of_mem hmem)
  rebuilt := ofNames_userNames states
  converted := ofJson?_toJson states
  registry := by
    obtain ⟨registry, hregistry, hholds⟩ := Registry.exists_ofNames h
    exact ⟨registry, hregistry, hholds.id?_eq, hholds.name?_eq⟩

/-- Names make a universe just if they can be declared, in the list with the hash index as
well, and the fault is that of the first name that offends.  In the universe, names and
identifiers belong together. -/
theorem ofNames_isInterned (names : List String) :
    ((∃ states, ofNames names = .ok states) ↔ AreDeclarable names) ∧
      (∀ error, ofNames names = .error error ↔
        ∃ before name after, names = before ++ name :: after ∧ AreDeclarable before ∧
          Offends (before.map canonicalName) name error) ∧
      (∀ error, Registry.ofNames names = .error error ↔ ofNames names = .error error) ∧
      ∀ states, ofNames names = .ok states → IsInterned names states :=
  ⟨exists_ofNames_iff, fun _ => ofNames_eq_error_iff, fun _ => Registry.ofNames_eq_error_iff,
    fun _ => isInterned_of_ofNames⟩

end StateUniverse

end Cellular
