import ThreeAddress.Graph.Basic
import ThreeAddress.Wire

set_option autoImplicit false

/-! # Dumps of block graphs

A dump shows every block that can be reached from the start, once, in the order in which blocks are
laid out: a block, then its arms or its body with all that follows from them, then its successor.
A reference to a block that does not exist is noted where it is met. -/

namespace ThreeAddress

/-- An entry of a dump. -/
inductive DumpEntry where
  | block (id : BlockId) (block : Block)
  | missing (id : BlockId)
deriving DecidableEq, Repr

/-- What a block's kind and successor look like in its header. -/
def Block.links (b : Block) : String :=
  let kind :=
    match b.kind with
    | .straight => ""
    | .conditional test thenBlock none => s!" test={test} then={thenBlock}"
    | .conditional test thenBlock (some elseBlock) =>
      s!" test={test} then={thenBlock} else={elseBlock}"
    | .loop test body => s!" test={test} body={body}"
  match b.next with
  | none => kind
  | some next => kind ++ s!" next={next}"

namespace DumpEntry

/-- The lines of an entry: a header, then the instructions of the block. -/
def render : DumpEntry → String
  | missing id => s!"block {id}: <missing>\n"
  | block id b =>
    let header := s!"block {id} ({b.kind.name})" ++ b.links ++ "\n"
    header ++ String.join (b.code.toList.map fun i => "    " ++ i.render ++ "\n")

end DumpEntry

namespace BlockGraph

/-- The entries for the blocks in `work` and all that can be reached from them, without the blocks
    in `seen`. Each block is expanded once and adds at most three references, which bounds the
    number of rounds. -/
def entriesWithin (g : BlockGraph) : Nat → List BlockId → List BlockId → List DumpEntry
  | 0, _, _ => []
  | _ + 1, [], _ => []
  | fuel + 1, id :: work, seen =>
    match g.block? id with
    | none => .missing id :: entriesWithin g fuel work seen
    | some b =>
      if seen.contains id then entriesWithin g fuel work seen
      else .block id b :: entriesWithin g fuel (b.successors ++ work) (id :: seen)

/-- The entries of a dump. -/
def entries (g : BlockGraph) : List DumpEntry :=
  g.entriesWithin (3 * g.size + 2) [g.start] []

/-- The text of a dump. -/
def dump (g : BlockGraph) : String := String.join (g.entries.map DumpEntry.render)

end BlockGraph

end ThreeAddress
