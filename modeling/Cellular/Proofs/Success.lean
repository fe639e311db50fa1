import Mathlib.Data.List.Forall2

/-!
# Success of composed computations

A sequence of steps that may fail succeeds exactly if every step does, and a
list is mapped successfully exactly if all of its elements are.  Otherwise the
first failure is what is returned.
-/

namespace Cellular

variable {ε α β : Type}

theorem bind_eq_ok_iff {first : Except ε α} {next : α → Except ε β}
    {result : β} :
    (first >>= next) = .ok result ↔
      ∃ value, first = .ok value ∧ next value = .ok result := by
  cases first <;> simp [bind, Except.bind]

theorem bind_eq_error_iff {first : Except ε α} {next : α → Except ε β} {error : ε} :
    (first >>= next) = .error error ↔
      first = .error error ∨ ∃ value, first = .ok value ∧ next value = .error error := by
  cases first <;> simp [bind, Except.bind]

theorem foldlM_eq_error_iff {step : β → α → Except ε β} {items : List α} {start : β}
    {error : ε} :
    items.foldlM step start = .error error ↔
      ∃ before item after middle, items = before ++ item :: after ∧
        before.foldlM step start = .ok middle ∧ step middle item = .error error := by
  constructor
  · intro h
    induction items generalizing start with
    | nil => cases h
    | cons item items ih =>
        rw [List.foldlM_cons, bind_eq_error_iff] at h
        rcases h with hitem | ⟨next, hitem, hitems⟩
        · exact ⟨[], item, items, start, rfl, rfl, hitem⟩
        · obtain ⟨before, other, after, middle, rfl, hbefore, hother⟩ := ih hitems
          refine ⟨item :: before, other, after, middle, rfl, ?_, hother⟩
          rw [List.foldlM_cons, bind_eq_ok_iff]
          exact ⟨next, hitem, hbefore⟩
  · rintro ⟨before, item, after, middle, rfl, hbefore, hitem⟩
    rw [List.foldlM_append, hbefore]
    exact bind_eq_error_iff.mpr (.inr ⟨middle, rfl, bind_eq_error_iff.mpr (.inl hitem)⟩)

theorem exists_ok_of_isOk {result : Except ε α} (h : result.isOk = true) :
    ∃ value, result = .ok value := by
  cases result with
  | error error => cases h
  | ok value => exact ⟨value, rfl⟩

theorem exists_ok_of_map_eq_ok {result : Except ε α} {f : α → β} {image : β}
    (h : result.map f = .ok image) : ∃ value, result = .ok value ∧ f value = image := by
  cases result with
  | error error => cases h
  | ok value => exact ⟨value, rfl, Except.ok.inj h⟩

theorem map_eq_error_iff {result : Except ε α} {f : α → β} {error : ε} :
    result.map f = .error error ↔ result = .error error := by
  cases result <;> simp [Except.map]

theorem mapM_eq_ok_iff {f : α → Except ε β} {items : List α}
    {images : List β} :
    items.mapM f = .ok images ↔
      List.Forall₂ (fun item image => f item = .ok image) items images := by
  induction items generalizing images with
  | nil => simp [pure, Except.pure, eq_comm]
  | cons item items ih =>
      rw [List.mapM_cons, List.forall₂_cons_left_iff]
      simp only [bind_eq_ok_iff, ih, pure, Except.pure, Except.ok.injEq]
      constructor
      · rintro ⟨image, hitem, images, hitems, rfl⟩
        exact ⟨image, images, hitem, hitems, rfl⟩
      · rintro ⟨image, images, hitem, hitems, rfl⟩
        exact ⟨image, hitem, images, hitems, rfl⟩

theorem exists_of_mem_of_mapM_eq_some {f : α → Option β} {items : List α}
    {images : List β} (h : items.mapM f = some images) {image : β}
    (hmem : image ∈ images) : ∃ item ∈ items, f item = some image := by
  induction items generalizing images with
  | nil =>
      cases h
      cases hmem
  | cons item items ih =>
      rw [List.mapM_cons] at h
      obtain ⟨first, hfirst, h⟩ := Option.bind_eq_some_iff.mp h
      obtain ⟨rest, hrest, h⟩ := Option.bind_eq_some_iff.mp h
      cases h
      rcases List.mem_cons.mp hmem with rfl | hlater
      · exact ⟨item, List.mem_cons_self, hfirst⟩
      · obtain ⟨other, hother, himage⟩ := ih hrest hlater
        exact ⟨other, List.mem_cons_of_mem _ hother, himage⟩

theorem bind_of_eq_some {first : Option α} {value : α} (h : first = some value)
    (next : α → Option β) : (first >>= next) = next value := by
  rw [h]
  rfl

theorem mapM_eq_some_map {f : α → Option β} {g : α → β} {items : List α}
    (h : ∀ item ∈ items, f item = some (g item)) :
    items.mapM f = some (items.map g) := by
  induction items with
  | nil => rfl
  | cons item items ih =>
      rw [List.forall_mem_cons] at h
      rw [List.mapM_cons, h.1, ih h.2]
      rfl

theorem filterM_eq_some_filter {test? : α → Option Bool} {test : α → Bool}
    {items : List α} (h : ∀ item ∈ items, test? item = some (test item)) :
    items.filterM test? = some (items.filter test) := by
  -- The items that pass are collected in front of the earlier ones.
  have hcollect : ∀ kept : List α,
      items.filterAuxM test? kept = some ((items.filter test).reverse ++ kept) := by
    induction items with
    | nil => exact fun _ => rfl
    | cons item items ih =>
        intro kept
        obtain ⟨hitem, hitems⟩ := List.forall_mem_cons.mp h
        rw [List.filterAuxM, bind_of_eq_some hitem, ih hitems]
        cases hpass : test item <;> simp [hpass]
  rw [List.filterM, bind_of_eq_some (hcollect []), List.append_nil, List.reverse_reverse]
  rfl

theorem mem_of_filterM_eq_some {test? : α → Option Bool} {items kept : List α}
    (h : items.filterM test? = some kept) {item : α} (hmem : item ∈ kept) :
    item ∈ items := by
  have hcollect : ∀ before after : List α, items.filterAuxM test? before = some after →
      item ∈ after → item ∈ items ∨ item ∈ before := by
    clear h
    induction items with
    | nil =>
        rintro before after ⟨⟩ hafter
        exact Or.inr hafter
    | cons first items ih =>
        intro before after h hafter
        obtain ⟨passes, -, h⟩ := Option.bind_eq_some_iff.mp h
        rcases ih _ _ h hafter with hlater | hbefore
        · exact Or.inl (List.mem_cons_of_mem _ hlater)
        · cases passes with
          | false => exact Or.inr hbefore
          | true =>
              rcases List.mem_cons.mp hbefore with rfl | hearlier
              · exact Or.inl List.mem_cons_self
              · exact Or.inr hearlier
  obtain ⟨after, hafter, h⟩ := Option.bind_eq_some_iff.mp h
  cases h
  exact (hcollect [] after hafter (List.mem_reverse.mp hmem)).resolve_right List.not_mem_nil

theorem exists_forall₂ {relation : α → β → Prop} {items : List α}
    (h : ∀ item ∈ items, ∃ image, relation item image) :
    ∃ images, List.Forall₂ relation items images := by
  induction items with
  | nil => exact ⟨[], .nil⟩
  | cons item items ih =>
      obtain ⟨image, hitem⟩ := h item List.mem_cons_self
      obtain ⟨images, himages⟩ :=
        ih fun other hmem => h other (List.mem_cons_of_mem _ hmem)
      exact ⟨image :: images, .cons hitem himages⟩

theorem exists_mapM_eq_ok {f : α → Except ε β} {items : List α}
    (h : ∀ item ∈ items, ∃ image, f item = .ok image) :
    ∃ images, items.mapM f = .ok images := by
  simpa only [mapM_eq_ok_iff] using exists_forall₂ h

theorem exists_mem_of_forall₂ {relation : α → β → Prop} {items : List α}
    {images : List β} (h : List.Forall₂ relation items images) {item : α}
    (hmem : item ∈ items) : ∃ image ∈ images, relation item image := by
  induction h with
  | nil => cases hmem
  | cons hhead _ ih =>
      rcases List.mem_cons.mp hmem with rfl | hrest
      · exact ⟨_, List.mem_cons_self, hhead⟩
      · obtain ⟨image, himage, hrelated⟩ := ih hrest
        exact ⟨image, List.mem_cons_of_mem _ himage, hrelated⟩

end Cellular
