import Std.Data.TreeMap
import Std.Data.TreeSet
import ThreeAddress.Machine.Fault

set_option autoImplicit false

/-! # The store

Named cells. Declared variables, temporaries and bound functions share one space of names; which
names are declared variables is recorded beside the cells, because only those can be assigned. -/

namespace ThreeAddress

/-- The cells of a running program, and the names that are declared. -/
structure Store where
  cells : Std.TreeMap String Value
  allocated : Std.TreeSet String

namespace Store

/-- The store without cells. -/
def empty : Store := ⟨∅, ∅⟩

/-- The value of a cell. -/
def get? (s : Store) (name : String) : Option Value := s.cells[name]?

/-- Whether a name is declared. -/
def isAllocated (s : Store) (name : String) : Bool := s.allocated.contains name

/-- The number of cells. -/
def size (s : Store) : Nat := s.cells.size

/-- All cells in the order of their names. -/
def toList (s : Store) : List (String × Value) := s.cells.toList

/-- Write a cell. -/
def set (s : Store) (name : String) (v : Value) : Store :=
  { s with cells := s.cells.insert name v }

/-- Declare a variable and give it the zero value of its type. -/
def allocate (s : Store) (name : String) (type : ScalarType) : Store where
  cells := s.cells.insert name (.scalar (.zero type))
  allocated := s.allocated.insert name

/-- Write a declared variable. -/
def assign (s : Store) (name : String) (v : Value) : Except Fault Store :=
  if s.isAllocated name then .ok (s.set name v) else .error (.unallocatedVariable name)

/-- The value of a cell, which must exist. -/
def read (s : Store) (name : String) : Except Fault Value :=
  match s.get? name with
  | some v => .ok v
  | none => .error (.unboundVariable name)

/-- The constant in a cell, which must have the given type. -/
def readTyped (s : Store) (name : String) (type : ScalarType) : Except Fault Constant := do
  match ← s.read name with
  | .scalar c => if c.type = type then .ok c else .error (.typeMismatch name type (.scalar c.type))
  | .function _ => .error (.typeMismatch name type .function)

/-! ## What the operations do to cells and declarations -/

@[simp] theorem get?_empty (name : String) : empty.get? name = none := by
  simp [get?, empty]

@[simp] theorem isAllocated_empty (name : String) : empty.isAllocated name = false := by
  simp [isAllocated, empty]

theorem get?_set (s : Store) (name other : String) (v : Value) :
    (s.set name v).get? other = if name = other then some v else s.get? other := by
  simp [get?, set, Std.TreeMap.getElem?_insert]

@[simp] theorem get?_set_self (s : Store) (name : String) (v : Value) :
    (s.set name v).get? name = some v := by
  simp [get?_set]

theorem get?_set_of_ne (s : Store) {name other : String} (v : Value) (h : name ≠ other) :
    (s.set name v).get? other = s.get? other := by
  simp [get?_set, h]

@[simp] theorem allocated_set (s : Store) (name : String) (v : Value) :
    (s.set name v).allocated = s.allocated := rfl

theorem get?_allocate (s : Store) (name other : String) (type : ScalarType) :
    (s.allocate name type).get? other
      = if name = other then some (.scalar (.zero type)) else s.get? other := by
  simp [get?, allocate, Std.TreeMap.getElem?_insert]

theorem isAllocated_allocate (s : Store) (name other : String) (type : ScalarType) :
    (s.allocate name type).isAllocated other = (decide (name = other) || s.isAllocated other) := by
  simp [isAllocated, allocate, Std.TreeSet.contains_insert]
  grind

end Store

end ThreeAddress
