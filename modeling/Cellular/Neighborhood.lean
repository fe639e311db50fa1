import Cellular.Direction

/-!
# Neighborhoods

A neighborhood is a set of directions, kept as nine bits.  Two neighborhoods
with the same members are equal (`ext`).
-/

namespace Cellular

structure Neighborhood where
  mask : BitVec 9
  deriving DecidableEq, Repr

namespace Neighborhood

def contains (neighborhood : Neighborhood) (direction : Direction) : Bool :=
  neighborhood.mask.getLsb direction.index

@[ext] theorem ext {first second : Neighborhood}
    (h : ∀ direction, first.contains direction = second.contains direction) :
    first = second := by
  cases first with
  | mk firstMask =>
      cases second with
      | mk secondMask =>
          congr 1
          apply BitVec.eq_of_getLsbD_eq
          intro i hi
          have covered : ∃ direction : Direction, direction.index = ⟨i, hi⟩ := by
            match i, hi with
            | 0, _ => exact ⟨.northWest, rfl⟩
            | 1, _ => exact ⟨.north, rfl⟩
            | 2, _ => exact ⟨.northEast, rfl⟩
            | 3, _ => exact ⟨.west, rfl⟩
            | 4, _ => exact ⟨.center, rfl⟩
            | 5, _ => exact ⟨.east, rfl⟩
            | 6, _ => exact ⟨.southWest, rfl⟩
            | 7, _ => exact ⟨.south, rfl⟩
            | 8, _ => exact ⟨.southEast, rfl⟩
          obtain ⟨direction, hindex⟩ := covered
          have hbit := h direction
          simp only [contains, hindex] at hbit
          exact hbit

def singleton (direction : Direction) : Neighborhood :=
  ⟨BitVec.twoPow 9 direction.index⟩

def empty : Neighborhood := ⟨0⟩

def full : Neighborhood := ⟨BitVec.allOnes 9⟩

def insert (neighborhood : Neighborhood) (direction : Direction) : Neighborhood :=
  ⟨neighborhood.mask ||| (singleton direction).mask⟩

def erase (neighborhood : Neighborhood) (direction : Direction) : Neighborhood :=
  ⟨neighborhood.mask &&& ~~~(singleton direction).mask⟩

def toList (neighborhood : Neighborhood) : List Direction :=
  Direction.all.filter neighborhood.contains

def ofList (directions : List Direction) : Neighborhood :=
  directions.foldl insert empty

def moore : Neighborhood := full.erase .center

def vonNeumann : Neighborhood := ofList [.north, .west, .east, .south]

def size (neighborhood : Neighborhood) : Nat := neighborhood.toList.length

def isEmpty (neighborhood : Neighborhood) : Bool := neighborhood = empty

def includes (neighborhood other : Neighborhood) : Bool :=
  other.toList.all neighborhood.contains

def names (neighborhood : Neighborhood) : List String :=
  neighborhood.toList.map Direction.name

def render (neighborhood : Neighborhood) : String :=
  " ".intercalate neighborhood.names

@[simp] theorem contains_empty (direction : Direction) :
    empty.contains direction = false := by
  cases direction <;> decide

@[simp] theorem contains_full (direction : Direction) :
    full.contains direction = true := by
  cases direction <;> decide

@[simp] theorem contains_insert (neighborhood : Neighborhood)
    (direction other : Direction) :
    (neighborhood.insert direction).contains other =
      (neighborhood.contains other || decide (direction = other)) := by
  have hbit : (singleton direction).contains other =
      decide (direction = other) := by
    cases direction <;> cases other <;> decide
  simp only [contains, insert] at hbit ⊢
  rw [← hbit]
  exact BitVec.getLsbD_or

@[simp] theorem contains_erase (neighborhood : Neighborhood)
    (direction other : Direction) :
    (neighborhood.erase direction).contains other =
      (neighborhood.contains other && !decide (direction = other)) := by
  have hbit : (singleton direction).contains other =
      decide (direction = other) := by
    cases direction <;> cases other <;> decide
  simp only [contains, erase] at hbit ⊢
  rw [← hbit]
  have hall := BitVec.getLsbD_and
    (i := other.index.val) (x := neighborhood.mask)
    (y := ~~~(singleton direction).mask)
  simp only [BitVec.getLsbD_not, other.index.isLt, decide_true,
    Bool.true_and] at hall
  exact hall

@[simp] theorem mem_toList {neighborhood : Neighborhood}
    {direction : Direction} :
    direction ∈ neighborhood.toList ↔
      neighborhood.contains direction = true := by
  simp [toList, Direction.mem_all]

theorem contains_foldl_insert (directions : List Direction)
    (neighborhood : Neighborhood) (direction : Direction) :
    (directions.foldl insert neighborhood).contains direction =
      (neighborhood.contains direction || decide (direction ∈ directions)) := by
  induction directions generalizing neighborhood with
  | nil => simp
  | cons head tail ih =>
      rw [List.foldl_cons, ih, contains_insert, Bool.or_assoc]
      congr 1
      by_cases h : head = direction
      · simp [h]
      · have h' : ¬direction = head := fun heq => h heq.symm
        simp [h, h']

@[simp] theorem contains_ofList (directions : List Direction)
    (direction : Direction) :
    (ofList directions).contains direction = decide (direction ∈ directions) := by
  simp [ofList, contains_foldl_insert]

theorem ofList_toList (neighborhood : Neighborhood) :
    ofList neighborhood.toList = neighborhood := by
  ext direction
  simp

end Neighborhood

end Cellular
