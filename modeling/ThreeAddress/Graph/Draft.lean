import ThreeAddress.Graph.Basic

set_option autoImplicit false

/-! # Graphs under construction

A `Draft` is a block graph that is being built: instructions go to its current block, and every
computed value gets a fresh temporary, numbered per type. References between blocks are checked
when they are set, so a draft never refers to a block that it does not have; a refused change
leaves the draft as it was. -/

namespace ThreeAddress

/-- A reference to a block that the draft does not have. -/
structure UnknownBlock where
  id : BlockId
deriving DecidableEq, Repr

/-- The wording of a refused reference. -/
def UnknownBlock.message (e : UnknownBlock) : String :=
  s!"block {e.id} was not allocated by this builder"

/-! ## Temporaries -/

/-- How many temporaries of each type there are. Of each type there are assumed to be fewer than
    `2 ^ 32`, so that a count takes 32 bits; nothing here enforces it. -/
structure Temporaries where
  int : Nat := 0
  float : Nat := 0
  string : Nat := 0
  bool : Nat := 0
deriving DecidableEq, Repr

namespace Temporaries

/-- The number of temporaries of a type. -/
def count (t : Temporaries) : ScalarType → Nat
  | .int => t.int
  | .float => t.float
  | .string => t.string
  | .bool => t.bool

/-- One more temporary of a type. -/
def bump (t : Temporaries) : ScalarType → Temporaries
  | .int => { t with int := t.int + 1 }
  | .float => { t with float := t.float + 1 }
  | .string => { t with string := t.string + 1 }
  | .bool => { t with bool := t.bool + 1 }

@[simp] theorem count_bump_self (t : Temporaries) (type : ScalarType) :
    (t.bump type).count type = t.count type + 1 := by
  cases type <;> rfl

theorem count_bump_of_ne (t : Temporaries) {type other : ScalarType} (h : other ≠ type) :
    (t.bump type).count other = t.count other := by
  cases type <;> cases other <;> first | rfl | exact absurd rfl h

/-- The name of the `n`-th temporary of a type. -/
def name (type : ScalarType) (n : Nat) : String := "__" ++ type.name ++ "_" ++ toString n

end Temporaries

/-! ## Drafts -/

/-- A graph under construction. -/
structure Draft where
  graph : BlockGraph
  current : BlockId
  temporaries : Temporaries
deriving DecidableEq, Repr

namespace Draft

/-- The draft of one empty block, which is the current one. -/
def empty : Draft := ⟨.initial, 0, {}⟩

/-- A fresh temporary. -/
def fresh (d : Draft) (type : ScalarType) : String × Draft :=
  (Temporaries.name type (d.temporaries.count type),
   { d with temporaries := d.temporaries.bump type })

/-- A fresh block. The current block stays the same. -/
def newBlock (d : Draft) : BlockId × Draft :=
  (d.graph.size, { d with graph := d.graph.addBlock })

/-! ### Changes that may be refused -/

/-- A change of a draft in place: what it yields or why it is refused, and the draft afterwards.
    Whatever has been done before a refusal stays done. -/
abbrev Change (α : Type) : Type := ExceptT UnknownBlock (StateM Draft) α

namespace Change

/-- What a change of the draft `d` yields, and the draft afterwards. -/
def on {α : Type} (c : Change α) (d : Draft) : Except UnknownBlock α × Draft := (c.run.run d).run

/-- The draft after a change of `d`, unless the change is refused. -/
def apply (c : Change Unit) (d : Draft) : Except UnknownBlock Draft :=
  match c.on d with
  | (.ok (), d) => .ok d
  | (.error e, _) => .error e

/-- Go on only if the block exists. -/
def require (id : BlockId) : Change Unit := do
  if id < (← get).graph.size then return () else throw ⟨id⟩

/-- Change the draft by `f`, for which the given blocks must exist. -/
def checked (ids : List BlockId) (f : Draft → Draft) : Change Unit := do
  ids.forM require
  modify f

/-- What follows a check is done to the draft as it was, or not at all. -/
theorem on_require_bind {α : Type} (id : BlockId) (c : Change α) (d : Draft) :
    (require id >>= fun _ => c).on d =
      if id < d.graph.size then c.on d else (.error ⟨id⟩, d) := by
  have hget : (require id >>= fun _ => c).on d =
      ((if id < d.graph.size then pure () else throw ⟨id⟩ : Change Unit) >>= fun _ => c).on d := rfl
  rw [hget]
  split <;> rfl

/-- The first of the blocks that does not exist is the reason of the refusal. -/
theorem on_checked (ids : List BlockId) (f : Draft → Draft) (d : Draft) :
    (checked ids f).on d =
      match ids.find? (fun id => !decide (id < d.graph.size)) with
      | some id => (.error ⟨id⟩, d)
      | none => (.ok (), f d) := by
  induction ids with
  | nil => rfl
  | cons id ids ih =>
      have hcons : checked (id :: ids) f = require id >>= fun _ => checked ids f := by
        simp [checked]
      rw [hcons, on_require_bind, ih]
      by_cases h : id < d.graph.size
      · simp [h]
      · simp [h]

theorem apply_checked {ids : List BlockId} {d : Draft} (h : ∀ id ∈ ids, id < d.graph.size)
    (f : Draft → Draft) : (checked ids f).apply d = .ok (f d) := by
  have hnone : ids.find? (fun id => !decide (id < d.graph.size)) = none := by simpa using h
  rw [apply, on_checked, hnone]

/-- Make a block the current one. -/
def moveTo (id : BlockId) : Change Unit := checked [id] fun d => { d with current := id }

/-- Set the successor of a block. -/
def setNext (source successor : BlockId) : Change Unit :=
  checked [successor, source] fun d =>
    { d with graph := d.graph.modify source fun b => { b with next := some successor } }

/-- Set the kind of a block. Every block that it refers to must exist. -/
def setKind (id : BlockId) (kind : BlockKind) : Change Unit :=
  checked (kind.branches ++ [id]) fun d =>
    { d with graph := d.graph.modify id fun b => { b with kind := kind } }

end Change

/-- Make a block the current one. -/
def moveTo (d : Draft) (id : BlockId) : Except UnknownBlock Draft := (Change.moveTo id).apply d

/-- Set the successor of a block. -/
def setNext (d : Draft) (source successor : BlockId) : Except UnknownBlock Draft :=
  (Change.setNext source successor).apply d

/-- Set the kind of a block. -/
def setKind (d : Draft) (id : BlockId) (kind : BlockKind) : Except UnknownBlock Draft :=
  (Change.setKind id kind).apply d

/-! ### Instructions -/

/-- Append an instruction to the current block. -/
def append (d : Draft) (i : Instr) : Draft :=
  { d with graph := d.graph.modify d.current fun b => { b with code := b.code.push i } }

/-- Append an instruction that computes a value of the given type into a fresh temporary. -/
def compute (d : Draft) (type : ScalarType) (instr : String → Instr) : String × Draft :=
  let (target, d) := d.fresh type
  (target, d.append (instr target))

/-- Put a constant into a temporary. -/
def literal (value : Constant) (d : Draft) : String × Draft :=
  d.compute value.type (.literal value.type value)

/-- Copy a variable into a temporary. -/
def load (type : ScalarType) (name : String) (d : Draft) : String × Draft :=
  d.compute type (.load type name)

/-- Combine two cells. -/
def binary (op : ArithOp) (type : ScalarType) (left right : String) (d : Draft) : String × Draft :=
  d.compute type (.binary op type left right)

/-- Apply a unary operator to a cell. -/
def unary (op : UnaryOp) (type : ScalarType) (source : String) (d : Draft) : String × Draft :=
  d.compute type (.unary op type source)

/-- Compare two cells of the given type; the result is a truth value. -/
def compare (op : CompareOp) (type : ScalarType) (left right : String) (d : Draft) :
    String × Draft :=
  d.compute .bool (.compare op type left right)

/-- Call a bound function. -/
def call (function : String) (args : List String) (returnType : ScalarType) (d : Draft) :
    String × Draft :=
  d.compute returnType (.call function args)

end Draft

end ThreeAddress
