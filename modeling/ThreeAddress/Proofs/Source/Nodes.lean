import ThreeAddress.Proofs.Lowering.Emission

set_option autoImplicit false

/-! # The nodes of a program

All that needs a type in a program, in the order of the source: each statement comes before the
statements inside it, and each expression before its parts. A node goes with the statement that it
belongs to, which is the innermost one around it. -/

namespace ThreeAddress.Source

/-- What an expression is called if nothing else asks for its type before it does itself. -/
def Expr.construct : Expr → Construct
  | .literal _ _ => .literal
  | .binary _ _ _ _ => .arithmetic
  | .relational _ _ _ _ => .comparison
  | .unary _ _ _ => .unary
  | .load _ _ => .location
  | .group _ _ => .group
  | .call _ _ _ => .call

/-- Something that needs a type. -/
inductive Node where
  /-- An expression, with the construct that is named if it has no type. -/
  | expr (construct : Construct) (e : Expr)
  /-- A variable that is declared without an initial value, with its declared type. -/
  | uninitialized (name : String) (type : Option ScalarType)

mutual

/-- All expressions inside an expression: each before its own parts, and from left to right. The
    operand that decides about the type of an operation is named as such. -/
def Expr.parts : Expr → List Node
  | .literal _ _ => []
  | .binary _ _ left right =>
    (.expr .arithmeticOperand left :: left.parts) ++ (.expr right.construct right :: right.parts)
  | .relational _ _ left right =>
    (.expr .comparisonOperand left :: left.parts) ++ (.expr right.construct right :: right.parts)
  | .unary _ _ operand => .expr .unaryOperand operand :: operand.parts
  | .load _ _ => []
  | .group _ inner => .expr inner.construct inner :: inner.parts
  | .call _ _ args => partsOfArgs args

/-- The arguments of a call, each before its own parts. -/
def partsOfArgs : List Expr → List Node
  | [] => []
  | e :: rest => (.expr e.construct e :: e.parts) ++ partsOfArgs rest

end

/-- An expression, under the given name, before its parts. -/
def Expr.nodes (construct : Construct) (e : Expr) : List Node := .expr construct e :: e.parts

/-- The nodes of a statement itself, without those of the statements inside it. A declaration asks
    for the type of its initial value only if it has none of its own. -/
def Stmt.nodes : Stmt → List Node
  | .constDecl _ _ none value => value.nodes .constDecl
  | .constDecl _ _ (some _) value => value.nodes value.construct
  | .varDecl _ _ none (some value) => value.nodes .varDecl
  | .varDecl _ _ (some _) (some value) => value.nodes value.construct
  | .varDecl _ name type none => [.uninitialized name type]
  | .assign _ _ value => value.nodes .assigned
  | .print _ value => value.nodes .printed
  | .cond _ condition _ _ => condition.nodes .condition
  | .loop _ condition _ => condition.nodes .loopCondition
  | .declare _ _ => []
  | .eval _ value => value.nodes value.construct

/-- All nodes of a program in the order of the source, each with the innermost statement around
    it. -/
def Program.nodes (p : Program) : List (Stmt × Node) :=
  (withinAll p.statements).flatMap fun s => s.nodes.map fun node => (s, node)

theorem mem_nodes_iff {p : Program} {s : Stmt} {node : Node} :
    (s, node) ∈ p.nodes ↔ s ∈ withinAll p.statements ∧ node ∈ s.nodes := by
  simp [Program.nodes]

mutual

theorem Expr.uninitialized_notMem_parts (name : String) (type : Option ScalarType) :
    (e : Expr) → .uninitialized name type ∉ e.parts
  | .literal _ _ => by simp [Expr.parts]
  | .binary _ _ left right => by
      simp [Expr.parts, left.uninitialized_notMem_parts, right.uninitialized_notMem_parts]
  | .relational _ _ left right => by
      simp [Expr.parts, left.uninitialized_notMem_parts, right.uninitialized_notMem_parts]
  | .unary _ _ operand => by simp [Expr.parts, operand.uninitialized_notMem_parts]
  | .load _ _ => by simp [Expr.parts]
  | .group _ inner => by simp [Expr.parts, inner.uninitialized_notMem_parts]
  | .call _ _ args => by simp [Expr.parts, uninitialized_notMem_partsOfArgs name type args]

theorem uninitialized_notMem_partsOfArgs (name : String) (type : Option ScalarType) :
    (args : List Expr) → .uninitialized name type ∉ partsOfArgs args
  | [] => by simp [partsOfArgs]
  | e :: rest => by
      simp [partsOfArgs, e.uninitialized_notMem_parts,
        uninitialized_notMem_partsOfArgs name type rest]

end

theorem Stmt.uninitialized_mem_nodes_iff {s : Stmt} {name : String} {type : Option ScalarType} :
    .uninitialized name type ∈ s.nodes ↔ ∃ line, s = .varDecl line name type none := by
  have hnotMem (construct : Construct) (e : Expr) :
      .uninitialized name type ∉ e.nodes construct := by
    simp [Expr.nodes, e.uninitialized_notMem_parts]
  cases s with
  | varDecl line name' type' value =>
      cases value with
      | none => simp [Stmt.nodes, eq_comm]
      | some value => cases type' <;> simp [Stmt.nodes, hnotMem]
  | constDecl line name' type' value => cases type' <;> simp [Stmt.nodes, hnotMem]
  | _ => simp [Stmt.nodes, hnotMem]

end ThreeAddress.Source
