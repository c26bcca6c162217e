import ThreeAddress.Graph.Basic
import ThreeAddress.Program

set_option autoImplicit false

/-! # Layout of block graphs

A block graph becomes a program in two passes. The first places the blocks one after another,
starting from the start block and going along the successors; the arms of a conditional and the
body of a loop are placed right behind the branch that enters them, each closed by a jump out of the
region. The second resolves the jumps that the first has added, now that every start is known.

A block that is met twice has no single place, so the layout is refused; so is one with a
reference to nowhere, or with a conditional or a loop that has nothing behind it. -/

namespace ThreeAddress

/-! ## Errors -/

/-- Why a graph has no layout. -/
inductive LinkError where
  | unknownBlock (id : BlockId)
  | blockRevisited (id : BlockId)
  | missingSuccessor (id : BlockId) (kind : BlockKind)
  | unresolvedTarget (address : Nat) (id : BlockId)
deriving DecidableEq, Repr

/-- The wording of a refused layout. -/
def LinkError.message : LinkError → String
  | unknownBlock id => s!"block {id} does not exist in the graph"
  | blockRevisited id => s!"block {id} is reached twice by the traversal"
  | missingSuccessor id kind => s!"{kind.name} block {id} has no successor block"
  | unresolvedTarget address id =>
    s!"instruction {address} jumps to block {id}, which was never laid out"

/-! ## Placing blocks -/

/-- One place of the code: an instruction of a block, or a jump that the layout has added and that
    still leads to a block. -/
inductive Slot where
  | instr (i : Instr)
  | jump (target : BlockId)
  | branch (test : String) (ifTrue ifFalse : BlockId)
deriving DecidableEq, Repr

/-- Work that is left to do: place a block and what follows it, or add a jump. -/
inductive Task where
  | chain (first : BlockId)
  | jump (target : BlockId)
deriving DecidableEq, Repr

/-- The slot that closes a block, and the work that it leaves. -/
def Block.closing (b : Block) (id : BlockId) : Except LinkError (List Slot × List Task) :=
  match b.kind, b.next with
  | .straight, none => .ok ([], [])
  | .straight, some next => .ok ([.jump next], [.chain next])
  | .conditional test thenBlock none, some merge =>
    .ok ([.branch test thenBlock merge], [.chain thenBlock, .jump merge, .chain merge])
  | .conditional test thenBlock (some elseBlock), some merge =>
    .ok ([.branch test thenBlock elseBlock],
      [.chain thenBlock, .jump merge, .chain elseBlock, .jump merge, .chain merge])
  | .loop test body, some exit =>
    .ok ([.branch test body exit], [.chain body, .jump id, .chain exit])
  | kind, none => .error (.missingSuccessor id kind)

/-- The blocks placed so far with their start addresses, in the order of placement, and the code. -/
structure Layout where
  starts : Array (BlockId × Nat)
  slots : Array Slot
deriving DecidableEq, Repr

namespace Layout

/-- Nothing is placed yet. -/
def empty : Layout := ⟨#[], #[]⟩

/-- The start address of a block. -/
def start? (l : Layout) (id : BlockId) : Option Nat :=
  (l.starts.find? (fun s => s.1 == id)).map Prod.snd

/-- Whether a block has been placed. -/
def placed (l : Layout) (id : BlockId) : Bool := (l.start? id).isSome

/-- Add slots at the end. -/
def append (l : Layout) (slots : List Slot) : Layout := { l with slots := l.slots ++ slots }

/-- Place the instructions of a block at the end. -/
def place (l : Layout) (id : BlockId) (b : Block) : Layout where
  starts := l.starts.push (id, l.slots.size)
  slots := l.slots ++ b.code.map .instr

/-- Do the work of `tasks` in order. Each block is placed once and leaves at most five tasks, which
    bounds the number of rounds. The layout is what has been placed, also if there is an error. -/
def run (g : BlockGraph) : Nat → List Task → Layout → Layout × Except LinkError Unit
  | _, [], l => (l, .ok ())
  | 0, .chain id :: _, l => (l, .error (.blockRevisited id))
  | 0, .jump id :: _, l => (l, .error (.blockRevisited id))
  | fuel + 1, .jump target :: tasks, l => run g fuel tasks (l.append [.jump target])
  | fuel + 1, .chain id :: tasks, l =>
    match g.block? id with
    | none => (l, .error (.unknownBlock id))
    | some b =>
      if l.placed id then (l, .error (.blockRevisited id))
      else
        match b.closing id with
        | .error e => (l.place id b, .error e)
        | .ok (slots, work) => run g fuel (work ++ tasks) ((l.place id b).append slots)

/-! ## Resolving jumps -/

/-- The address of a block that the slot at `address` leads to. -/
def target (l : Layout) (address : Nat) (id : BlockId) : Except LinkError Label :=
  match l.start? id with
  | some start => .ok (.address start)
  | none => .error (.unresolvedTarget address id)

/-- The instruction of the slot at `address`. Instructions of blocks are taken as they are. -/
def resolve (l : Layout) (address : Nat) : Slot → Except LinkError Instr
  | .instr i => .ok i
  | .jump id => do return .jump (← l.target address id)
  | .branch test ifTrue ifFalse => do
    return .branch test (← l.target address ifTrue) (← l.target address ifFalse)

/-- The program of a layout. -/
def program (l : Layout) : Except LinkError Program := do
  let code ← l.slots.toList.zipIdx.mapM fun (slot, address) => l.resolve address slot
  return ⟨code.toArray⟩

end Layout

/-! ## Linking -/

namespace BlockGraph

/-- Place all blocks that can be reached from the start. -/
def layout (g : BlockGraph) : Layout × Except LinkError Unit :=
  Layout.run g (5 * g.size + 1) [.chain g.start] .empty

/-- The program of a graph. -/
def link (g : BlockGraph) : Except LinkError Program := do
  g.layout.2
  g.layout.1.program

/-- The start address of a block in the layout of a graph, which may have been refused halfway. -/
def blockStart? (g : BlockGraph) (id : BlockId) : Option Nat := g.layout.1.start? id

end BlockGraph

end ThreeAddress
