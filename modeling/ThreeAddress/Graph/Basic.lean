import ThreeAddress.Instr

set_option autoImplicit false

/-! # Block graphs

Code before it is laid out: basic blocks that refer to one another by their position. A block runs
its instructions in order and then, as its kind says,

* goes on to its successor (`straight`), or returns to the region around it if it has none;
* enters one of two arms and meets its successor behind them (`conditional`);
* enters its body and comes back, or leaves for its successor (`loop`).

Nothing in the type keeps references from dangling, or blocks from being shared. -/

namespace ThreeAddress

/-- What a block does after its instructions. -/
inductive BlockKind where
  | straight
  | conditional (test : String) (thenBlock : BlockId) (elseBlock : Option BlockId)
  | loop (test : String) (body : BlockId)
deriving DecidableEq, Repr

namespace BlockKind

/-- The name of a kind in dumps. -/
def name : BlockKind → String
  | straight => "straight"
  | conditional _ _ _ => "conditional"
  | loop _ _ => "loop"

/-- The blocks that the kind itself refers to: the arms of a conditional, the body of a loop. -/
def branches : BlockKind → List BlockId
  | straight => []
  | conditional _ thenBlock elseBlock => thenBlock :: elseBlock.toList
  | loop _ body => [body]

end BlockKind

/-- A basic block. -/
structure Block where
  id : BlockId
  code : Array Instr := #[]
  kind : BlockKind := .straight
  next : Option BlockId := none
deriving DecidableEq, Repr

/-- The blocks that a block refers to, in the order in which they are laid out. -/
def Block.successors (b : Block) : List BlockId := b.kind.branches ++ b.next.toList

/-- Blocks by position, and the block where execution starts. -/
structure BlockGraph where
  blocks : Array Block
  start : BlockId := 0
deriving DecidableEq, Repr

namespace BlockGraph

/-- The graph of one empty block. -/
def initial : BlockGraph where
  blocks := #[⟨0, #[], .straight, none⟩]

/-- The number of blocks. -/
def size (g : BlockGraph) : Nat := g.blocks.size

/-- The block at a position. -/
def block? (g : BlockGraph) (id : BlockId) : Option Block := g.blocks[id]?

/-- Change the block at a position, if there is one. -/
def modify (g : BlockGraph) (id : BlockId) (f : Block → Block) : BlockGraph :=
  { g with blocks := g.blocks.modify id f }

/-- Add an empty straight block. -/
def addBlock (g : BlockGraph) : BlockGraph :=
  { g with blocks := g.blocks.push ⟨g.size, #[], .straight, none⟩ }

end BlockGraph

end ThreeAddress
