import ThreeAddress.Json.Shape
import ThreeAddress.Json.Writer
import ThreeAddress.Source.Tree

set_option autoImplicit false

/-! # Source trees in JSON

The JSON form of a source tree. Writing gives every field, in a fixed order; reading accepts every
shape that `Json.record?` and its companions do, so that fields with a default may be missing.

Reading descends with a bound on the height of the tree, which is the height itself: every part of a
tree is lower than the tree. -/

namespace ThreeAddress

/-! ## Types, constants and operators -/

/-- A type is written as its name. -/
def ScalarType.toJson (t : ScalarType) : Json := .string t.name

/-- The type that a JSON value names. -/
def ScalarType.ofJson? (v : Json) : Option ScalarType := v.tag?.bind ScalarType.ofName?

/-- A constant is written under the name of its type. -/
def Constant.toJson (c : Constant) : Json :=
  let value : Json :=
    match c with
    | .int v => .int v.toInt
    | .float v => .float v
    | .string v => .string v
    | .bool v => .bool v
  .object [(c.type.name, value)]

/-- The constant that a JSON value holds. -/
def Constant.ofJson? (v : Json) : Option Constant := do
  let (name, value) ← v.variant?
  match ← ScalarType.ofName? name with
  | .int => value.int64?.map .int
  | .float => value.float?.map .float
  | .string => value.text?.map .string
  | .bool => value.bool?.map .bool

namespace Source

/-! ## Expressions -/

/-- The record of an expression of the given variant. -/
def exprRecord (type : Option ScalarType) (variant : String) (data : Json) : Json :=
  .object [("kind", .object [(variant, data)]), ("type", Json.ofOption ScalarType.toJson type)]

mutual

/-- The JSON form of an expression. -/
def Expr.toJson : Expr → Json
  | .literal type value => exprRecord type "Literal" value.toJson
  | .binary type op left right =>
    exprRecord type "Binary" (.object
      [("op", .string op.symbol), ("left", left.toJson), ("right", right.toJson)])
  | .relational type op left right =>
    exprRecord type "Relational" (.object
      [("op", .string op.symbol), ("left", left.toJson), ("right", right.toJson)])
  | .unary type op operand =>
    exprRecord type "Unary" (.object [("op", .string op.symbol), ("operand", operand.toJson)])
  | .load type name => exprRecord type "Load" (.string name)
  | .group type inner => exprRecord type "Group" inner.toJson
  | .call type name args =>
    exprRecord type "Call" (.object [("name", .string name), ("args", .array (exprsToJson args))])

/-- The JSON forms of expressions. -/
def exprsToJson : List Expr → List Json
  | [] => []
  | e :: rest => e.toJson :: exprsToJson rest

end

/-- The expression of a JSON value no higher than `bound`. -/
def exprWithin : Nat → Json → Option Expr
  | 0, _ => none
  | bound + 1, v => do
    let fields ← v.record? ["kind", "type"]
    let type ← Json.optional? ScalarType.ofJson? (fields.lookup "type")
    let (variant, data) ← (← fields.lookup "kind").variant?
    match variant with
    | "Literal" => return .literal type (← Constant.ofJson? data)
    | "Binary" => do
      let parts ← data.record? ["op", "left", "right"]
      let op ← ArithOp.ofSymbol? (← (← parts.lookup "op").tag?)
      let left ← exprWithin bound (← parts.lookup "left")
      let right ← exprWithin bound (← parts.lookup "right")
      return .binary type op left right
    | "Relational" => do
      let parts ← data.record? ["op", "left", "right"]
      let op ← CompareOp.ofSymbol? (← (← parts.lookup "op").tag?)
      let left ← exprWithin bound (← parts.lookup "left")
      let right ← exprWithin bound (← parts.lookup "right")
      return .relational type op left right
    | "Unary" => do
      let parts ← data.record? ["op", "operand"]
      let op ← UnaryOp.ofSymbol? (← (← parts.lookup "op").tag?)
      let operand ← exprWithin bound (← parts.lookup "operand")
      return .unary type op operand
    | "Load" => return .load type (← data.text?)
    | "Group" => return .group type (← exprWithin bound data)
    | "Call" => do
      let parts ← data.record? ["name", "args"]
      let name ← (← parts.lookup "name").text?
      let args ← (← (← parts.lookup "args").items?).mapM (exprWithin bound)
      return .call type name args
    | _ => none

/-- The expression of a JSON value. -/
def Expr.ofJson? (v : Json) : Option Expr := exprWithin v.height v

/-! ## Declarations of functions -/

/-- The JSON form of a parameter. -/
def Param.toJson (p : Param) : Json := .object [("name", .string p.name), ("type", p.type.toJson)]

/-- The parameter of a JSON value. -/
def Param.ofJson? (v : Json) : Option Param := do
  let fields ← v.record? ["name", "type"]
  let name ← (← fields.lookup "name").text?
  let type ← ScalarType.ofJson? (← fields.lookup "type")
  return ⟨name, type⟩

/-- The JSON form of a declared function. -/
def Prototype.toJson (p : Prototype) : Json :=
  .object [("name", .string p.name), ("params", .array (p.params.map Param.toJson)),
    ("return_type", p.returnType.toJson)]

/-- The parameters of a JSON array. -/
def Param.listOfJson? (v : Json) : Option (List Param) :=
  v.items?.bind (fun items => items.mapM Param.ofJson?)

/-- The declared function of a JSON value. -/
def Prototype.ofJson? (v : Json) : Option Prototype := do
  let fields ← v.record? ["name", "params", "return_type"]
  let name ← (← fields.lookup "name").text?
  let params ← Json.orDefault? Param.listOfJson? [] (fields.lookup "params")
  let returnType ← ScalarType.ofJson? (← fields.lookup "return_type")
  return ⟨name, params, returnType⟩

/-! ## Statements -/

/-- The record of a statement of the given variant. -/
def stmtRecord (line : UInt64) (variant : String) (data : Json) : Json :=
  .object [("kind", .object [(variant, data)]), ("line", .int line.toNat)]

mutual

/-- The JSON form of a statement. -/
def Stmt.toJson : Stmt → Json
  | .constDecl line name type value =>
    stmtRecord line "ConstDecl" (.object [("name", .string name),
      ("decl_type", Json.ofOption ScalarType.toJson type), ("value", value.toJson)])
  | .varDecl line name type value =>
    stmtRecord line "VarDecl" (.object [("name", .string name),
      ("decl_type", Json.ofOption ScalarType.toJson type),
      ("value", Json.ofOption Expr.toJson value)])
  | .assign line location value =>
    stmtRecord line "Assign" (.object [("location", .string location), ("value", value.toJson)])
  | .print line value => stmtRecord line "Print" value.toJson
  | .cond line condition thenBranch none =>
    stmtRecord line "If" (.object [("condition", condition.toJson),
      ("then_branch", .array (stmtsToJson thenBranch)), ("else_branch", .null)])
  | .cond line condition thenBranch (some elseBranch) =>
    stmtRecord line "If" (.object [("condition", condition.toJson),
      ("then_branch", .array (stmtsToJson thenBranch)),
      ("else_branch", .array (stmtsToJson elseBranch))])
  | .loop line condition body =>
    stmtRecord line "While" (.object [("condition", condition.toJson),
      ("body", .array (stmtsToJson body))])
  | .declare line prototype => stmtRecord line "Extern" prototype.toJson
  | .eval line value => stmtRecord line "Expression" value.toJson

/-- The JSON forms of statements. -/
def stmtsToJson : List Stmt → List Json
  | [] => []
  | s :: rest => s.toJson :: stmtsToJson rest

end

/-- The statement of a JSON value no higher than `bound`. -/
def stmtWithin : Nat → Json → Option Stmt
  | 0, _ => none
  | bound + 1, v => do
    let statements : Json → Option (List Stmt) :=
      fun v => v.items?.bind (fun items => items.mapM (stmtWithin bound))
    let fields ← v.record? ["kind", "line"]
    let line ← Json.orDefault? Json.uint64? 0 (fields.lookup "line")
    let (variant, data) ← (← fields.lookup "kind").variant?
    match variant with
    | "ConstDecl" => do
      let parts ← data.record? ["name", "decl_type", "value"]
      let name ← (← parts.lookup "name").text?
      let type ← Json.optional? ScalarType.ofJson? (parts.lookup "decl_type")
      let value ← Expr.ofJson? (← parts.lookup "value")
      return .constDecl line name type value
    | "VarDecl" => do
      let parts ← data.record? ["name", "decl_type", "value"]
      let name ← (← parts.lookup "name").text?
      let type ← Json.optional? ScalarType.ofJson? (parts.lookup "decl_type")
      let value ← Json.optional? Expr.ofJson? (parts.lookup "value")
      return .varDecl line name type value
    | "Assign" => do
      let parts ← data.record? ["location", "value"]
      let location ← (← parts.lookup "location").text?
      let value ← Expr.ofJson? (← parts.lookup "value")
      return .assign line location value
    | "Print" => return .print line (← Expr.ofJson? data)
    | "If" => do
      let parts ← data.record? ["condition", "then_branch", "else_branch"]
      let condition ← Expr.ofJson? (← parts.lookup "condition")
      let thenBranch ← statements (← parts.lookup "then_branch")
      let elseBranch ← Json.optional? statements (parts.lookup "else_branch")
      return .cond line condition thenBranch elseBranch
    | "While" => do
      let parts ← data.record? ["condition", "body"]
      let condition ← Expr.ofJson? (← parts.lookup "condition")
      let body ← statements (← parts.lookup "body")
      return .loop line condition body
    | "Extern" => return .declare line (← Prototype.ofJson? data)
    | "Expression" => return .eval line (← Expr.ofJson? data)
    | _ => none

/-- The statement of a JSON value. -/
def Stmt.ofJson? (v : Json) : Option Stmt := stmtWithin v.height v

/-! ## Programs -/

namespace Program

/-- The JSON form of a program. -/
def toJson (p : Program) : Json := .object [("statements", .array (stmtsToJson p.statements))]

/-- The program of a JSON value. -/
def ofJson? (v : Json) : Option Program := do
  let fields ← v.record? ["statements"]
  let statements ← (← (← fields.lookup "statements").items?).mapM Stmt.ofJson?
  return ⟨statements⟩

/-- The program that a JSON text holds. -/
def read? (text : String) : Option Program := Json.read? ofJson? text

end Program

end Source

end ThreeAddress
