/-!
# Totals

The sum of a list of natural numbers.
-/

namespace Cellular

def total : List Nat → Nat
  | [] => 0
  | number :: numbers => number + total numbers

@[simp] theorem total_nil : total [] = 0 := rfl

@[simp] theorem total_cons (number : Nat) (numbers : List Nat) :
    total (number :: numbers) = number + total numbers := rfl

@[simp] theorem total_append (first second : List Nat) :
    total (first ++ second) = total first + total second := by
  induction first with
  | nil => rw [List.nil_append, total_nil, Nat.zero_add]
  | cons number first ih =>
      rw [List.cons_append, total_cons, total_cons, ih, Nat.add_assoc]

theorem length_flatMap_eq_total {α β : Type} (f : α → List β) (items : List α) :
    (items.flatMap f).length = total (items.map fun item => (f item).length) := by
  induction items with
  | nil => rfl
  | cons item items ih =>
      rw [List.flatMap_cons, List.length_append, ih, List.map_cons, total_cons]

end Cellular
