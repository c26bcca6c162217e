import ThreeAddress.Operator
import ThreeAddress.Scalar

set_option autoImplicit false

/-! # Source trees

The decorated syntax tree that a type checker hands over. Every expression carries the type that was
resolved for it, if any, and every statement the line it starts on. -/

namespace ThreeAddress.Source

/-- An expression with its resolved type. -/
inductive Expr where
  | literal (type : Option ScalarType) (value : Constant)
  /-- Arithmetic on two operands of the same type. -/
  | binary (type : Option ScalarType) (op : ArithOp) (left right : Expr)
  /-- A comparison, or a logical connective that evaluates both sides. -/
  | relational (type : Option ScalarType) (op : CompareOp) (left right : Expr)
  | unary (type : Option ScalarType) (op : UnaryOp) (operand : Expr)
  /-- The value of a variable. -/
  | load (type : Option ScalarType) (name : String)
  /-- An expression in parentheses. -/
  | group (type : Option ScalarType) (inner : Expr)
  /-- A call of a function of the host. -/
  | call (type : Option ScalarType) (name : String) (args : List Expr)
deriving Inhabited, Repr

namespace Expr

/-- The resolved type of an expression. -/
def type? : Expr → Option ScalarType
  | literal type _ => type
  | binary type _ _ _ => type
  | relational type _ _ _ => type
  | unary type _ _ => type
  | load type _ => type
  | group type _ => type
  | call type _ _ => type

/-- The same expression with another resolved type. -/
def withType (type : Option ScalarType) : Expr → Expr
  | literal _ value => literal type value
  | binary _ op left right => binary type op left right
  | relational _ op left right => relational type op left right
  | unary _ op operand => unary type op operand
  | load _ name => load type name
  | group _ inner => group type inner
  | call _ name args => call type name args

/-! The types that follow from the parts: a literal has the type of its value, arithmetic that of
its left operand, a comparison is a truth value, and signs and parentheses change nothing. -/

/-- A literal. -/
def ofConstant (value : Constant) : Expr := literal (some value.type) value

/-- An arithmetic expression. -/
def arith (op : ArithOp) (left right : Expr) : Expr := binary left.type? op left right

/-- A comparison. -/
def comparison (op : CompareOp) (left right : Expr) : Expr := relational (some .bool) op left right

/-- A unary expression. -/
def prefixed (op : UnaryOp) (operand : Expr) : Expr := unary operand.type? op operand

/-- An expression in parentheses. -/
def parenthesized (inner : Expr) : Expr := group inner.type? inner

end Expr

/-- A parameter of a declared function. -/
structure Param where
  name : String
  type : ScalarType
deriving DecidableEq, Repr

/-- The declaration of a function of the host. -/
structure Prototype where
  name : String
  params : List Param
  returnType : ScalarType
deriving DecidableEq, Repr

/-- A statement with its line. -/
inductive Stmt where
  | constDecl (line : UInt64) (name : String) (type : Option ScalarType) (value : Expr)
  | varDecl (line : UInt64) (name : String) (type : Option ScalarType) (value : Option Expr)
  | assign (line : UInt64) (location : String) (value : Expr)
  | print (line : UInt64) (value : Expr)
  | cond (line : UInt64) (condition : Expr) (thenBranch : List Stmt)
      (elseBranch : Option (List Stmt))
  | loop (line : UInt64) (condition : Expr) (body : List Stmt)
  /-- Make a function of the host known. -/
  | declare (line : UInt64) (prototype : Prototype)
  /-- An expression that is evaluated for its effect. -/
  | eval (line : UInt64) (value : Expr)
deriving Inhabited, Repr

namespace Stmt

/-- The line of a statement. -/
def line : Stmt → UInt64
  | constDecl line _ _ _ => line
  | varDecl line _ _ _ => line
  | assign line _ _ => line
  | print line _ => line
  | cond line _ _ _ => line
  | loop line _ _ => line
  | declare line _ => line
  | eval line _ => line

/-- The same statement on another line. -/
def atLine (line : UInt64) : Stmt → Stmt
  | constDecl _ name type value => constDecl line name type value
  | varDecl _ name type value => varDecl line name type value
  | assign _ location value => assign line location value
  | print _ value => print line value
  | cond _ condition thenBranch elseBranch => cond line condition thenBranch elseBranch
  | loop _ condition body => loop line condition body
  | declare _ prototype => declare line prototype
  | eval _ value => eval line value

/-- The declaration of a constant; its type is that of its value. -/
def constant (name : String) (value : Expr) : Stmt := constDecl 0 name value.type? value

end Stmt

/-- A program: statements in order. -/
structure Program where
  statements : List Stmt
deriving Inhabited, Repr

end ThreeAddress.Source
