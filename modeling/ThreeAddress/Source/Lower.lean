import ThreeAddress.Graph.Draft
import ThreeAddress.Source.Tree

set_option autoImplicit false

/-! # Lowering source trees to block graphs

Expressions become instructions of the current block, with a temporary for every value. A
conditional or a loop opens new blocks: one for its test, one for each arm or the body, and one
behind it in which lowering goes on.

Lowering relies on the types in the tree and fails at the first node that lacks one that is needed,
or at a literal whose type contradicts its value. The error bears the line of the statement that
lowering turned to last, which is kept beside the graph (`Progress`). -/

namespace ThreeAddress.Source

/-! ## Errors -/

/-- The part of a program for which a type is needed. -/
inductive Construct where
  | literal
  | arithmetic
  | arithmeticOperand
  | comparison
  | comparisonOperand
  | unary
  | unaryOperand
  | location
  | group
  | call
  | constDecl
  | varDecl
  | uninitialized (name : String)
  | assigned
  | printed
  | condition
  | loopCondition
deriving DecidableEq, Repr

/-- A construct in words. -/
def Construct.render : Construct → String
  | literal => "literal"
  | arithmetic => "arithmetic expression"
  | arithmeticOperand => "arithmetic operand"
  | comparison => "comparison"
  | comparisonOperand => "comparison operand"
  | unary => "unary expression"
  | unaryOperand => "unary operand"
  | location => "location"
  | group => "grouped expression"
  | call => "function call"
  | constDecl => "const declaration"
  | varDecl => "var declaration"
  | uninitialized name => s!"var '{name}'"
  | assigned => "assigned value"
  | printed => "printed expression"
  | condition => "if condition"
  | loopCondition => "while condition"

/-- Why a tree cannot be lowered. -/
inductive LowerError where
  | missingType (construct : Construct) (line : UInt64)
  | literalMismatch (declared found : ScalarType) (line : UInt64)
  | build (error : UnknownBlock)
deriving DecidableEq, Repr

/-- The wording of a lowering error. -/
def LowerError.message : LowerError → String
  | missingType construct line => s!"{construct.render} at line {line} has no resolved type"
  | literalMismatch declared found line =>
    s!"literal at line {line} is typed {declared.name} but holds a {found.name} value"
  | build error => error.message

/-! ## The state of lowering -/

/-- What there is of the graph, and the line of the statement that was turned to last. Errors are
    reported there. -/
structure Progress where
  draft : Draft
  line : UInt64 := 0

/-- Lowering makes progress, or fails. -/
abbrev Lowering (α : Type) : Type := StateT Progress (Except LowerError) α

namespace Lowering

/-- Turn to the statement on the given line. -/
def turnTo (line : UInt64) : Lowering Unit := fun s => .ok ((), { s with line })

/-- Take a step that always succeeds. -/
def emit {α : Type} (step : Draft → α × Draft) : Lowering α := fun s =>
  let (a, draft) := step s.draft
  .ok (a, { s with draft })

/-- Append an instruction. -/
def append (i : Instr) : Lowering Unit := emit fun d => ((), d.append i)

/-- Take a step that the draft may refuse. -/
@[irreducible] def attempt (step : Draft → Except UnknownBlock Draft) : Lowering Unit := fun s =>
  match step s.draft with
  | .ok draft => .ok ((), { s with draft })
  | .error e => .error (.build e)

/-- The type that a construct needs. -/
def need (construct : Construct) : Option ScalarType → Lowering ScalarType
  | some type => fun s => .ok (type, s)
  | none => fun s => .error (.missingType construct s.line)

/-- Refuse a literal, whose type contradicts its value. -/
def refuse {α : Type} (declared found : ScalarType) : Lowering α := fun s =>
  .error (.literalMismatch declared found s.line)

/-- Open a new block. -/
def newBlock : Lowering BlockId := emit Draft.newBlock

/-- Go on in another block. -/
def moveTo (id : BlockId) : Lowering Unit := attempt (fun d => d.moveTo id)

/-- Set the successor of a block. -/
def setNext (source successor : BlockId) : Lowering Unit :=
  attempt (fun d => d.setNext source successor)

/-- Set the kind of a block. -/
def setKind (id : BlockId) (kind : BlockKind) : Lowering Unit :=
  attempt (fun d => d.setKind id kind)

/-- Open a block behind the current one and go on in it. -/
def enterNext : Lowering BlockId := do
  let block ← newBlock
  let current ← emit fun d => (d.current, d)
  setNext current block
  moveTo block
  return block

/-- Open a block and go on in it. -/
def enterNew : Lowering BlockId := do
  let block ← newBlock
  moveTo block
  return block

/-- Open the block behind a conditional or a loop and go on in it. -/
def leave (block : BlockId) : Lowering Unit := do
  let next ← newBlock
  setNext block next
  moveTo next

end Lowering

open Lowering

/-! ## Expressions -/

mutual

/-- Lower an expression; yields the temporary that holds its value. -/
def Expr.lower : Expr → Lowering String
  | .literal type value => do
    let type ← need .literal type
    if value.type = type then emit (Draft.literal value)
    else refuse type value.type
  | .binary type op left right => do
    let _ ← need .arithmetic type
    let operandType ← need .arithmeticOperand left.type?
    let l ← left.lower
    let r ← right.lower
    emit (Draft.binary op operandType l r)
  | .relational type op left right => do
    let _ ← need .comparison type
    let operandType ← need .comparisonOperand left.type?
    let l ← left.lower
    let r ← right.lower
    emit (Draft.compare op operandType l r)
  | .unary type op operand => do
    let _ ← need .unary type
    let operandType ← need .unaryOperand operand.type?
    let source ← operand.lower
    emit (Draft.unary op operandType source)
  | .load type name => do
    let type ← need .location type
    emit (Draft.load type name)
  | .group type inner => do
    let _ ← need .group type
    inner.lower
  | .call type name args => do
    let type ← need .call type
    let temporaries ← lowerArgs args
    emit (Draft.call name temporaries type)

/-- Lower the arguments of a call from left to right. -/
def lowerArgs : List Expr → Lowering (List String)
  | [] => return []
  | e :: rest => do
    let first ← e.lower
    let others ← lowerArgs rest
    return first :: others

end

/-! ## Statements -/

/-- Evaluate an expression and store it in a variable. -/
def lowerStore (type : ScalarType) (name : String) (value : Expr) : Lowering Unit := do
  let source ← value.lower
  append (.store type source name)

/-- The type of a declared variable: as declared, or else that of its initial value. -/
def needVarType (name : String) (type : Option ScalarType) (value : Option Expr) :
    Lowering ScalarType :=
  match type, value with
  | some type, _ => need .varDecl (some type)
  | none, some value => need .varDecl value.type?
  | none, none => need (.uninitialized name) none

mutual

/-- Lower a statement. -/
def Stmt.lower (s : Stmt) : Lowering Unit := do
  turnTo s.line
  match s with
  | .constDecl _ name type value =>
    let type ← need .constDecl (type <|> value.type?)
    append (.alloc type name)
    lowerStore type name value
  | .varDecl _ name type value =>
    let type ← needVarType name type value
    append (.alloc type name)
    match value with
    | some value => lowerStore type name value
    | none => return
  | .assign _ location value =>
    let type ← need .assigned value.type?
    lowerStore type location value
  | .print _ value =>
    let type ← need .printed value.type?
    let source ← value.lower
    append (.print type source)
  | .cond _ condition thenBranch elseBranch =>
    let header ← enterNext
    let _ ← need .condition condition.type?
    let test ← condition.lower
    let thenBlock ← enterNew
    lowerAll thenBranch
    match elseBranch with
    | none => setKind header (.conditional test thenBlock none)
    | some elseBranch =>
      let elseBlock ← enterNew
      lowerAll elseBranch
      setKind header (.conditional test thenBlock (some elseBlock))
    leave header
  | .loop _ condition body =>
    let header ← enterNext
    let _ ← need .loopCondition condition.type?
    let test ← condition.lower
    let bodyBlock ← enterNew
    lowerAll body
    setKind header (.loop test bodyBlock)
    leave header
  | .declare _ prototype =>
    append (.bind prototype.name prototype.returnType (prototype.params.map Param.type))
  | .eval _ value =>
    let _ ← value.lower

/-- Lower statements in order. -/
def lowerAll : List Stmt → Lowering Unit
  | [] => return
  | s :: rest => do
    s.lower
    lowerAll rest

end

/-- The block graph of a program. -/
def Program.lower (p : Program) : Except LowerError BlockGraph := do
  let (_, s) ← lowerAll p.statements { draft := .empty }
  return s.draft.graph

end ThreeAddress.Source
