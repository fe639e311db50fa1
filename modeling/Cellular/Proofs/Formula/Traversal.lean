import Cellular.Formula
import Mathlib.Data.List.Forall2

/-!
# Traversals that stop at the first failure

A function that keeps a state and may fail is called on the leaves of a formula from
left to right.  If all of the calls succeed (`CallsAll`), the traversal gives a formula of
the same shape with their results as its leaves.  If one fails (`CallsUpTo`), its error is
what the traversal gives, and no leaf behind it is called on (`tryMap_follows_leaves`).
-/

namespace Cellular

variable {α β γ ε σ : Type} {f : α → ExceptT ε (StateM σ) β}
  {items others called : List α} {images : List β} {state after : σ} {error : ε}

/-! ## One call after the other -/

/-- Every call succeeds, each in the state that the call before it left. -/
inductive CallsAll (f : α → ExceptT ε (StateM σ) β) : List α → σ → List β → σ → Prop
  | nil (state : σ) : CallsAll f [] state [] state
  | cons {item : α} {items : List α} {image : β} {images : List β} {state next after : σ}
      (hitem : (f item).run.run state = (.ok image, next))
      (hitems : CallsAll f items next images after) :
      CallsAll f (item :: items) state (image :: images) after

/-- The last of the items that are called on fails, and the calls before it succeed. -/
inductive CallsUpTo (f : α → ExceptT ε (StateM σ) β) :
    List α → σ → List α → ε → σ → Prop
  | here {item : α} {items : List α} {state after : σ} {error : ε}
      (hitem : (f item).run.run state = (.error error, after)) :
      CallsUpTo f (item :: items) state [item] error after
  | later {item : α} {items called : List α} {image : β} {state next after : σ}
      {error : ε} (hitem : (f item).run.run state = (.ok image, next))
      (hitems : CallsUpTo f items next called error after) :
      CallsUpTo f (item :: items) state (item :: called) error after

theorem callsAll_or_callsUpTo (f : α → ExceptT ε (StateM σ) β) (items : List α) (state : σ) :
    (∃ images after, CallsAll f items state images after) ∨
      ∃ called error after, CallsUpTo f items state called error after := by
  induction items generalizing state with
  | nil => exact .inl ⟨[], state, .nil state⟩
  | cons item items ih =>
      match hitem : (f item).run.run state with
      | (.error error, next) => exact .inr ⟨[item], error, next, .here hitem⟩
      | (.ok image, next) =>
          rcases ih next with ⟨images, after, h⟩ | ⟨called, error, after, h⟩
          · exact .inl ⟨image :: images, after, .cons hitem h⟩
          · exact .inr ⟨item :: called, error, after, .later hitem h⟩

theorem CallsAll.of_append (h : CallsAll f (items ++ others) state images after) :
    ∃ firsts middle rest, images = firsts ++ rest ∧
      CallsAll f items state firsts middle ∧ CallsAll f others middle rest after := by
  induction items generalizing state images with
  | nil => exact ⟨[], state, images, rfl, .nil state, h⟩
  | cons item items ih =>
      cases h with
      | cons hitem hitems =>
          obtain ⟨firsts, middle, rest, rfl, hfirsts, hrest⟩ := ih hitems
          exact ⟨_ :: firsts, middle, rest, rfl, .cons hitem hfirsts, hrest⟩

theorem CallsUpTo.of_append (h : CallsUpTo f (items ++ others) state called error after) :
    CallsUpTo f items state called error after ∨
      ∃ firsts middle rest, called = items ++ rest ∧
        CallsAll f items state firsts middle ∧ CallsUpTo f others middle rest error after := by
  induction items generalizing state called with
  | nil => exact .inr ⟨[], state, called, rfl, .nil state, h⟩
  | cons item items ih =>
      cases h with
      | here hitem => exact .inl (.here hitem)
      | later hitem hitems =>
          rcases ih hitems with hfails | ⟨firsts, middle, rest, rfl, hfirsts, hrest⟩
          · exact .inl (.later hitem hfails)
          · exact .inr ⟨_ :: firsts, middle, rest, rfl, .cons hitem hfirsts, hrest⟩

/-- The calls stop at the first item that fails, in the state that the calls on the
items before it have left. -/
theorem callsUpTo_iff :
    CallsUpTo f items state called error after ↔
      ∃ before item later images middle, items = before ++ item :: later ∧
        called = before ++ [item] ∧ CallsAll f before state images middle ∧
        (f item).run.run middle = (.error error, after) := by
  constructor
  · intro h
    induction h with
    | here hitem => exact ⟨[], _, _, [], _, rfl, rfl, .nil _, hitem⟩
    | later hitem _ ih =>
        obtain ⟨before, item, later, images, middle, rfl, rfl, hbefore, hlast⟩ := ih
        exact ⟨_ :: before, item, later, _ :: images, middle, rfl, rfl,
          .cons hitem hbefore, hlast⟩
  · rintro ⟨before, item, later, images, middle, rfl, rfl, hbefore, hlast⟩
    induction hbefore with
    | nil => exact .here hlast
    | cons hitem _ ih => exact .later hitem (ih hlast)

/-! ## Calls on record -/

def logged (f : α → ExceptT ε (StateM σ) β) (item : α) :
    ExceptT ε (StateM (σ × List α)) β :=
  ExceptT.mk fun (state, log) =>
    let (outcome, after) := (f item).run.run state
    (outcome, (after, log ++ [item]))

theorem run_logged {item : α} {outcome : Except ε β}
    (h : (f item).run.run state = (outcome, after)) (log : List α) :
    (logged f item).run.run (state, log) = (outcome, (after, log ++ [item])) := by
  have hrun : (logged f item).run.run (state, log) =
      (((f item).run.run state).1, ((f item).run.run state).2, log ++ [item]) := rfl
  rw [hrun, h]

theorem callsAll_logged (h : CallsAll f items state images after) (log : List α) :
    CallsAll (logged f) items (state, log) images (after, log ++ items) := by
  induction h generalizing log with
  | nil state => simpa using CallsAll.nil (f := logged f) (state, log)
  | cons hitem _ ih => simpa using CallsAll.cons (run_logged hitem log) (ih _)

theorem callsUpTo_logged (h : CallsUpTo f items state called error after) (log : List α) :
    CallsUpTo (logged f) items (state, log) called error (after, log ++ called) := by
  induction h generalizing log with
  | here hitem => exact .here (run_logged hitem log)
  | later hitem _ ih => simpa using CallsUpTo.later (run_logged hitem log) (ih _)

/-! ## Steps in sequence -/

theorem run_bind_of_ok {first : ExceptT ε (StateM σ) β} {image : β} {next : σ}
    (h : first.run.run state = (.ok image, next)) (rest : β → ExceptT ε (StateM σ) γ) :
    (first >>= rest).run.run state = (rest image).run.run next := by
  rw [ExceptT.run_bind, StateT.run_bind, h]
  rfl

theorem run_bind_of_error {first : ExceptT ε (StateM σ) β}
    (h : first.run.run state = (.error error, after))
    (rest : β → ExceptT ε (StateM σ) γ) :
    (first >>= rest).run.run state = (.error error, after) := by
  rw [ExceptT.run_bind, StateT.run_bind, h]
  rfl

namespace Formula

variable {formula : Formula α} {terms : List (Formula α)}

/-- The same nodes in the same places, with any leaves. -/
inductive SameShape : Formula α → Formula β → Prop
  | leaf (value : α) (image : β) : SameShape (.leaf value) (.leaf image)
  | all {terms : List (Formula α)} {images : List (Formula β)}
      (h : List.Forall₂ SameShape terms images) : SameShape (.all terms) (.all images)
  | any {terms : List (Formula α)} {images : List (Formula β)}
      (h : List.Forall₂ SameShape terms images) : SameShape (.any terms) (.any images)

/-- Formulas of this shape can be read off a row of leaves in one way only, whatever
comes behind them in the row. -/
def Delimited (β : Type) (formula : Formula α) : Prop :=
  ∀ (first second : Formula β) (rest rest' : List β),
    SameShape formula first → SameShape formula second →
    first.leaves ++ rest = second.leaves ++ rest' → first = second ∧ rest = rest'

theorem eq_of_flatMap_leaves_append {trees trees' : List (Formula β)} {rest rest' : List β}
    (hterms : ∀ term ∈ terms, term.Delimited β)
    (hfirst : List.Forall₂ SameShape terms trees)
    (hsecond : List.Forall₂ SameShape terms trees')
    (h : trees.flatMap leaves ++ rest = trees'.flatMap leaves ++ rest') :
    trees = trees' ∧ rest = rest' := by
  induction hfirst generalizing trees' with
  | nil =>
      cases hsecond
      exact ⟨rfl, h⟩
  | cons htree _ ih =>
      cases hsecond with
      | cons htree' htrees' =>
          rw [List.forall_mem_cons] at hterms
          rw [List.flatMap_cons, List.flatMap_cons, List.append_assoc,
            List.append_assoc] at h
          obtain ⟨rfl, hrest⟩ := hterms.1 _ _ _ _ htree htree' h
          obtain ⟨rfl, hend⟩ := ih hterms.2 htrees' hrest
          exact ⟨rfl, hend⟩

theorem delimited (β : Type) (formula : Formula α) : formula.Delimited β := by
  induction formula with
  | leaf value =>
      rintro _ _ rest rest' ⟨⟩ ⟨⟩ h
      obtain ⟨rfl, hrest⟩ := List.cons.inj h
      exact ⟨rfl, hrest⟩
  | all terms ih =>
      rintro _ _ rest rest' (_ | hfirst | _) (_ | hsecond | _) h
      rw [leaves_all, leaves_all] at h
      obtain ⟨rfl, hrest⟩ := eq_of_flatMap_leaves_append ih hfirst hsecond h
      exact ⟨rfl, hrest⟩
  | any terms ih =>
      rintro _ _ rest rest' (_ | _ | hfirst) (_ | _ | hsecond) h
      rw [leaves_any, leaves_any] at h
      obtain ⟨rfl, hrest⟩ := eq_of_flatMap_leaves_append ih hfirst hsecond h
      exact ⟨rfl, hrest⟩

/-- The shape and the leaves in order make a formula. -/
theorem SameShape.eq_of_leaves_eq {first second : Formula β}
    (hfirst : SameShape formula first) (hsecond : SameShape formula second)
    (h : first.leaves = second.leaves) : first = second :=
  (formula.delimited β first second [] [] hfirst hsecond (by rw [h])).1

/-! ## Traversals in which all calls succeed -/

/-- Where all calls on the leaves succeed, their results take the places of the leaves. -/
def Refills (f : α → ExceptT ε (StateM σ) β) (formula : Formula α) : Prop :=
  ∀ state images after, CallsAll f formula.leaves state images after →
    ∃ image : Formula β, SameShape formula image ∧ image.leaves = images ∧
      (formula.traverse f).run.run state = (.ok image, after)

theorem exists_run_traverseList (hterms : ∀ term ∈ terms, term.Refills f)
    (h : CallsAll f (terms.flatMap leaves) state images after) :
    ∃ trees : List (Formula β), List.Forall₂ SameShape terms trees ∧
      trees.flatMap leaves = images ∧
      (traverseList f terms).run.run state = (.ok trees, after) := by
  induction terms generalizing state images with
  | nil =>
      cases h
      exact ⟨[], .nil, rfl, rfl⟩
  | cons term terms ih =>
      rw [List.forall_mem_cons] at hterms
      rw [List.flatMap_cons] at h
      obtain ⟨firsts, middle, rest, rfl, hfirsts, hrest⟩ := h.of_append
      obtain ⟨tree, hshape, rfl, htree⟩ := hterms.1 _ _ _ hfirsts
      obtain ⟨trees, hshapes, rfl, htrees⟩ := ih hterms.2 hrest
      refine ⟨tree :: trees, .cons hshape hshapes, rfl, ?_⟩
      rw [traverseList, run_bind_of_ok htree, run_bind_of_ok htrees]
      rfl

theorem refills (f : α → ExceptT ε (StateM σ) β) (formula : Formula α) :
    formula.Refills f := by
  induction formula with
  | leaf value =>
      intro state images after h
      cases h with
      | @cons _ _ image _ _ _ _ hvalue hnone =>
          cases hnone
          refine ⟨.leaf image, .leaf value image, rfl, ?_⟩
          rw [traverse, run_bind_of_ok hvalue]
          rfl
  | all terms ih =>
      intro state images after h
      rw [leaves_all] at h
      obtain ⟨trees, hshapes, rfl, htrees⟩ := exists_run_traverseList ih h
      refine ⟨.all trees, .all hshapes, leaves_all trees, ?_⟩
      rw [traverse, run_bind_of_ok htrees]
      rfl
  | any terms ih =>
      intro state images after h
      rw [leaves_any] at h
      obtain ⟨trees, hshapes, rfl, htrees⟩ := exists_run_traverseList ih h
      refine ⟨.any trees, .any hshapes, leaves_any trees, ?_⟩
      rw [traverse, run_bind_of_ok htrees]
      rfl

/-! ## Traversals that fail -/

/-- Where a call on a leaf fails, the traversal fails with the error of that call. -/
def Breaks (f : α → ExceptT ε (StateM σ) β) (formula : Formula α) : Prop :=
  ∀ state called error after, CallsUpTo f formula.leaves state called error after →
    (formula.traverse f).run.run state = (.error error, after)

theorem run_traverseList_of_callsUpTo (hterms : ∀ term ∈ terms, term.Breaks f)
    (h : CallsUpTo f (terms.flatMap leaves) state called error after) :
    (traverseList f terms).run.run state = (.error error, after) := by
  induction terms generalizing state called with
  | nil => cases h
  | cons term terms ih =>
      rw [List.forall_mem_cons] at hterms
      rw [List.flatMap_cons] at h
      rw [traverseList]
      rcases h.of_append with hhere | ⟨firsts, middle, rest, -, hfirsts, hrest⟩
      · exact run_bind_of_error (hterms.1 _ _ _ _ hhere) _
      · obtain ⟨tree, -, -, htree⟩ := term.refills f _ _ _ hfirsts
        rw [run_bind_of_ok htree]
        exact run_bind_of_error (ih hterms.2 hrest) _

theorem breaks (f : α → ExceptT ε (StateM σ) β) (formula : Formula α) :
    formula.Breaks f := by
  induction formula with
  | leaf value =>
      intro state called error after h
      cases h with
      | here hvalue => exact run_bind_of_error hvalue _
      | later _ hnone => cases hnone
  | all terms ih =>
      intro state called error after h
      rw [leaves_all] at h
      exact run_bind_of_error (run_traverseList_of_callsUpTo ih h) _
  | any terms ih =>
      intro state called error after h
      rw [leaves_any] at h
      exact run_bind_of_error (run_traverseList_of_callsUpTo ih h) _

/-! ## Functions without a state -/

def stateless (g : α → Except ε β) (value : α) : ExceptT ε (StateM σ) β :=
  ExceptT.mk (pure (g value))

theorem run_bind_of_run_eq {first : ExceptT ε (StateM σ) β} {outcome : Except ε β}
    (h : first.run.run state = (outcome, state)) {rest : β → ExceptT ε (StateM σ) γ}
    {next : β → Except ε γ}
    (hrest : ∀ value, (rest value).run.run state = (next value, state)) :
    (first >>= rest).run.run state = (outcome >>= next, state) := by
  cases outcome with
  | error error => exact run_bind_of_error h rest
  | ok value => rw [run_bind_of_ok h, hrest]; rfl

theorem run_traverseList_stateless {g : α → Except ε β}
    (h : ∀ term ∈ terms,
      (term.traverse (stateless g)).run.run state = (term.traverse g, state)) :
    (traverseList (stateless g) terms).run.run state = (traverseList g terms, state) := by
  induction terms with
  | nil => rfl
  | cons term terms ih =>
      rw [List.forall_mem_cons] at h
      refine run_bind_of_run_eq h.1 fun tree => ?_
      exact run_bind_of_run_eq (ih h.2) fun trees => rfl

theorem run_traverse_stateless (g : α → Except ε β) (formula : Formula α) (state : σ) :
    (formula.traverse (stateless g)).run.run state = (formula.traverse g, state) := by
  induction formula with
  | leaf value => exact run_bind_of_run_eq rfl fun image => rfl
  | all terms ih =>
      exact run_bind_of_run_eq (run_traverseList_stateless ih) fun trees => rfl
  | any terms ih =>
      exact run_bind_of_run_eq (run_traverseList_stateless ih) fun trees => rfl

/-! ## The traversal and the leaves in order -/

/-- If the calls on all leaves succeed, there is one for each leaf, in order, and the
traversal gives a formula of the same shape whose leaves are the results.  Otherwise it
gives the error of the first leaf that fails, and that leaf is the last one called on.
One of the two is always so.  For a function that keeps no state it is the traversal by
which the names in a condition are resolved. -/
theorem tryMap_follows_leaves (f : α → ExceptT ε (StateM σ) β) (formula : Formula α)
    (state : σ) :
    (∀ images after, CallsAll f formula.leaves state images after →
      ∃ image : Formula β, SameShape formula image ∧ image.leaves = images ∧
        (formula.tryMap f).run.run state = (.ok image, after) ∧
        (formula.tryMap (logged f)).run.run (state, []) =
          (.ok image, (after, formula.leaves))) ∧
      (∀ before value later images middle error after,
        formula.leaves = before ++ value :: later → CallsAll f before state images middle →
        (f value).run.run middle = (.error error, after) →
        (formula.tryMap f).run.run state = (.error error, after) ∧
          (formula.tryMap (logged f)).run.run (state, []) =
            (.error error, (after, before ++ [value]))) ∧
      ((∃ images after, CallsAll f formula.leaves state images after) ∨
        ∃ before value later images middle error after,
          formula.leaves = before ++ value :: later ∧ CallsAll f before state images middle ∧
          (f value).run.run middle = (.error error, after)) ∧
      ∀ g : α → Except ε β,
        (formula.tryMap (stateless g)).run.run state = (formula.traverse g, state) := by
  refine ⟨?succeeds, ?fails, ?total, fun g => run_traverse_stateless g formula state⟩
  case succeeds =>
    intro images after h
    obtain ⟨image, hshape, hleaves, hrun⟩ := formula.refills f _ _ _ h
    obtain ⟨recorded, hsame, hrecorded, hlogged⟩ :=
      formula.refills (logged f) _ _ _ (callsAll_logged h [])
    obtain rfl := hshape.eq_of_leaves_eq hsame (hleaves.trans hrecorded.symm)
    exact ⟨image, hshape, hleaves, hrun, hlogged⟩
  case fails =>
    intro before value later images middle error after hleaves hbefore hvalue
    have h : CallsUpTo f formula.leaves state (before ++ [value]) error after :=
      callsUpTo_iff.mpr ⟨before, value, later, images, middle, hleaves, rfl, hbefore, hvalue⟩
    exact ⟨formula.breaks f _ _ _ _ h,
      formula.breaks (logged f) _ _ _ _ (callsUpTo_logged h [])⟩
  case total =>
    rcases callsAll_or_callsUpTo f formula.leaves state with h | ⟨called, error, after, h⟩
    · exact .inl h
    · obtain ⟨before, value, later, images, middle, hleaves, -, hbefore, hvalue⟩ :=
        callsUpTo_iff.mp h
      exact .inr ⟨before, value, later, images, middle, error, after, hleaves, hbefore,
        hvalue⟩

def spend (price : Nat) : ExceptT Nat (StateM Nat) Nat := do
  let left ← get
  if left < price then throw price
  set (left - price)
  pure (left - price)

def prices : Formula Nat :=
  .any [.all [.leaf 2, .leaf 3], .all [], .any [.leaf 4, .any []], .leaf 1]

/-- What is left in the end would do for the last price, which is not asked for. -/
theorem tryMap_follows_leaves_prices :
    (∃ image : Formula Nat, SameShape prices image ∧ image.leaves = [8, 5, 1, 0] ∧
      (prices.tryMap spend).run.run 10 = (.ok image, 0)) ∧
      prices.leaves = [2, 3] ++ 4 :: [1] ∧ (spend 4).run.run 1 = (.error 4, 1) ∧
      (prices.tryMap (logged spend)).run.run (6, []) = (.error 4, (1, [2, 3, 4])) := by
  obtain ⟨hsucceeds, -, -, -⟩ := tryMap_follows_leaves spend prices 10
  obtain ⟨-, hfails, -, -⟩ := tryMap_follows_leaves spend prices 6
  have hall : CallsAll spend prices.leaves 10 [8, 5, 1, 0] 0 :=
    .cons rfl (.cons rfl (.cons rfl (.cons rfl (.nil 0))))
  have hbefore : CallsAll spend [2, 3] 6 [4, 1] 1 := .cons rfl (.cons rfl (.nil 1))
  have hleaves : prices.leaves = [2, 3] ++ 4 :: [1] := rfl
  obtain ⟨image, hshape, himage, hrun, -⟩ := hsucceeds _ _ hall
  exact ⟨⟨image, hshape, himage, hrun⟩, hleaves, rfl,
    (hfails [2, 3] 4 [1] _ _ _ _ hleaves hbefore rfl).2⟩

end Formula

end Cellular
