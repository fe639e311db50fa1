import Cellular.Formula
import Cellular.Proofs.Success

/-!
# The truth of a formula

`Satisfied` is the plain reading of a formula over propositions.  The Boolean
reading computes it, also after a traversal that has replaced the leaves
(`holds_traverse_iff`).  Where no conjunction is empty a true formula has a true
leaf (`Satisfied.exists_leaf`).
-/

namespace Cellular.Formula

variable {α β ε : Type}

inductive Satisfied (truth : α → Prop) : Formula α → Prop
  | leaf {value : α} : truth value → Satisfied truth (.leaf value)
  | all {terms : List (Formula α)} :
      (∀ term ∈ terms, Satisfied truth term) → Satisfied truth (.all terms)
  | any {terms : List (Formula α)} (term : Formula α) :
      term ∈ terms → Satisfied truth term → Satisfied truth (.any terms)

inductive NoEmptyAll : Formula α → Prop
  | leaf (value : α) : NoEmptyAll (.leaf value)
  | all {terms : List (Formula α)} :
      terms ≠ [] → (∀ term ∈ terms, NoEmptyAll term) → NoEmptyAll (.all terms)
  | any {terms : List (Formula α)} :
      (∀ term ∈ terms, NoEmptyAll term) → NoEmptyAll (.any terms)

inductive NoEmptyNode : Formula α → Prop
  | leaf (value : α) : NoEmptyNode (.leaf value)
  | all {terms : List (Formula α)} :
      terms ≠ [] → (∀ term ∈ terms, NoEmptyNode term) → NoEmptyNode (.all terms)
  | any {terms : List (Formula α)} :
      terms ≠ [] → (∀ term ∈ terms, NoEmptyNode term) → NoEmptyNode (.any terms)

variable {truth : α → Prop} {formula : Formula α} {terms : List (Formula α)}

@[simp] theorem satisfied_leaf {value : α} :
    (Formula.leaf value).Satisfied truth ↔ truth value := by
  constructor
  · rintro (h | -)
    exact h
  · exact .leaf

@[simp] theorem satisfied_all :
    (Formula.all terms).Satisfied truth ↔
      ∀ term ∈ terms, term.Satisfied truth := by
  constructor
  · intro h
    cases h with
    | all hterms => exact hterms
  · exact .all

@[simp] theorem satisfied_any :
    (Formula.any terms).Satisfied truth ↔
      ∃ term ∈ terms, term.Satisfied truth := by
  constructor
  · intro h
    cases h with
    | any term hmem hterm => exact ⟨term, hmem, hterm⟩
  · rintro ⟨term, hmem, hterm⟩
    exact .any term hmem hterm

theorem NoEmptyNode.noEmptyAll (h : formula.NoEmptyNode) : formula.NoEmptyAll := by
  induction h with
  | leaf value => exact .leaf value
  | all hsome _ ih => exact .all hsome ih
  | any _ _ ih => exact .any ih

theorem Satisfied.exists_leaf (h : formula.Satisfied truth)
    (hsolid : formula.NoEmptyAll) : ∃ value ∈ formula.leaves, truth value := by
  induction h with
  | leaf hvalue => exact ⟨_, by simp, hvalue⟩
  | all hterms ih =>
      cases hsolid with
      | all hne hsolid =>
          obtain ⟨term, hmem⟩ := List.exists_mem_of_ne_nil _ hne
          obtain ⟨value, hvalue, htruth⟩ := ih term hmem (hsolid term hmem)
          exact ⟨value, by simpa using ⟨term, hmem, hvalue⟩, htruth⟩
  | any term hmem hterm ih =>
      cases hsolid with
      | any hsolid =>
          obtain ⟨value, hvalue, htruth⟩ := ih (hsolid term hmem)
          exact ⟨value, by simpa using ⟨term, hmem, hvalue⟩, htruth⟩

/-! ## Traversal -/

theorem traverseList_eq {m : Type → Type} [Monad m] [LawfulMonad m]
    (f : α → m β) (terms : List (Formula α)) :
    traverseList f terms = terms.mapM (traverse f) := by
  induction terms with
  | nil => simp [traverseList]
  | cons term terms ih => simp [traverseList, ih]

variable {f : α → Except ε β} {image : Formula β}

theorem traverse_leaf_eq_ok {value : α} :
    (Formula.leaf value).traverse f = .ok image ↔
      ∃ result, f value = .ok result ∧ .leaf result = image := by
  simp [traverse, bind_eq_ok_iff, pure, Except.pure]

theorem traverse_all_eq_ok :
    (Formula.all terms).traverse f = .ok image ↔
      ∃ images, List.Forall₂ (fun term image => term.traverse f = .ok image)
        terms images ∧ .all images = image := by
  simp [traverse, traverseList_eq, bind_eq_ok_iff, mapM_eq_ok_iff, pure,
    Except.pure]

theorem traverse_any_eq_ok :
    (Formula.any terms).traverse f = .ok image ↔
      ∃ images, List.Forall₂ (fun term image => term.traverse f = .ok image)
        terms images ∧ .any images = image := by
  simp [traverse, traverseList_eq, bind_eq_ok_iff, mapM_eq_ok_iff, pure,
    Except.pure]

theorem exists_traverse_eq_ok
    (h : ∀ value ∈ formula.leaves, ∃ result, f value = .ok result) :
    ∃ image, formula.traverse f = .ok image := by
  induction formula with
  | leaf value =>
      obtain ⟨result, hresult⟩ := h value (by simp)
      exact ⟨.leaf result, traverse_leaf_eq_ok.mpr ⟨result, hresult, rfl⟩⟩
  | all terms ih =>
      obtain ⟨images, himages⟩ := exists_forall₂ fun term hmem =>
        ih term hmem fun value hvalue => h value (by simpa using ⟨term, hmem, hvalue⟩)
      exact ⟨.all images, traverse_all_eq_ok.mpr ⟨images, himages, rfl⟩⟩
  | any terms ih =>
      obtain ⟨images, himages⟩ := exists_forall₂ fun term hmem =>
        ih term hmem fun value hvalue => h value (by simpa using ⟨term, hmem, hvalue⟩)
      exact ⟨.any images, traverse_any_eq_ok.mpr ⟨images, himages, rfl⟩⟩

private theorem forall_mem_iff_of_forall₂ {relation : α → β → Prop}
    {first : α → Prop} {second : β → Prop} {items : List α} {images : List β}
    (himages : List.Forall₂ relation items images)
    (h : ∀ item ∈ items, ∀ image, relation item image →
      (second image ↔ first item)) :
    (∀ image ∈ images, second image) ↔ ∀ item ∈ items, first item := by
  induction himages with
  | nil => simp
  | cons hhead _ ih =>
      rw [List.forall_mem_cons, List.forall_mem_cons,
        h _ List.mem_cons_self _ hhead,
        ih fun item hmem => h item (List.mem_cons_of_mem _ hmem)]

private theorem exists_mem_iff_of_forall₂ {relation : α → β → Prop}
    {first : α → Prop} {second : β → Prop} {items : List α} {images : List β}
    (himages : List.Forall₂ relation items images)
    (h : ∀ item ∈ items, ∀ image, relation item image →
      (second image ↔ first item)) :
    (∃ image ∈ images, second image) ↔ ∃ item ∈ items, first item := by
  induction himages with
  | nil => simp
  | cons hhead _ ih =>
      rw [List.exists_mem_cons_iff, List.exists_mem_cons_iff,
        h _ List.mem_cons_self _ hhead,
        ih fun item hmem => h item (List.mem_cons_of_mem _ hmem)]

theorem holds_traverse_iff {test : β → Bool}
    (himage : formula.traverse f = .ok image)
    (h : ∀ value ∈ formula.leaves, ∀ result, f value = .ok result →
      (test result = true ↔ truth value)) :
    image.holds test = true ↔ formula.Satisfied truth := by
  induction formula generalizing image with
  | leaf value =>
      obtain ⟨result, hresult, rfl⟩ := traverse_leaf_eq_ok.mp himage
      simpa using h value (by simp) result hresult
  | all terms ih =>
      obtain ⟨images, himages, rfl⟩ := traverse_all_eq_ok.mp himage
      rw [holds_all, List.all_eq_true, satisfied_all]
      refine forall_mem_iff_of_forall₂ himages ?_
      intro term hmem image himage
      refine ih term hmem himage fun value hvalue => h value ?_
      simpa using ⟨term, hmem, hvalue⟩
  | any terms ih =>
      obtain ⟨images, himages, rfl⟩ := traverse_any_eq_ok.mp himage
      rw [holds_any, List.any_eq_true, satisfied_any]
      refine exists_mem_iff_of_forall₂ himages ?_
      intro term hmem image himage
      refine ih term hmem himage fun value hvalue => h value ?_
      simpa using ⟨term, hmem, hvalue⟩

end Cellular.Formula
