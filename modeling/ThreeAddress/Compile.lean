import ThreeAddress.Failure
import ThreeAddress.Graph.Layout
import ThreeAddress.Source.Lower

set_option autoImplicit false

/-! # Compilation

From a source tree to a program: lowering to a block graph, then linking. -/

namespace ThreeAddress

/-- A lowering error as a failure. -/
def Source.LowerError.toFailure (e : Source.LowerError) : Failure := ⟨.lowering, e.message⟩

/-- A refused layout as a failure. -/
def LinkError.toFailure (e : LinkError) : Failure := ⟨.linking, e.message⟩

/-- Link a graph. -/
def linkGraph (g : BlockGraph) : Except Failure Program := g.link.mapError LinkError.toFailure

/-- The block graph of a source program. -/
def Source.Program.graph (p : Source.Program) : Except Failure BlockGraph :=
  p.lower.mapError Source.LowerError.toFailure

/-- Compile a source program. -/
def Source.Program.compile (p : Source.Program) : Except Failure ThreeAddress.Program := do
  linkGraph (← p.graph)

end ThreeAddress
