import ThreeAddress.Operator
import ThreeAddress.Scalar

set_option autoImplicit false

/-! # Instructions

The three-address instruction set. Operands are names of cells; every instruction that computes a
value names the cell that receives it last. Jump targets are labels: blocks while the code is still
a graph, addresses once it has been laid out. -/

namespace ThreeAddress

/-- A block of a graph, by its position. A graph is assumed to have fewer than `2 ^ 32` blocks, so
    that a position takes 32 bits; nothing here enforces it. -/
abbrev BlockId := Nat

/-- Where a jump leads: to a block, or to an address of a laid-out program. -/
inductive Label where
  | block (id : BlockId)
  | address (value : Nat)
deriving DecidableEq, Repr

/-- The text of a label. -/
def Label.render : Label → String
  | .block id => "@block" ++ toString id
  | .address a => toString a

/-- One element of an instruction's wire form. -/
inductive Operand where
  | int (value : Int64)
  | float (value : Float)
  | bool (value : Bool)
  | text (value : String)
deriving DecidableEq, BEq, Repr

/-- The text of an operand; strings are not quoted. -/
def Operand.render : Operand → String
  | .int v => (Constant.int v).print
  | .float v => (Constant.float v).print
  | .bool v => (Constant.bool v).print
  | .text v => v

/-- An instruction. -/
inductive Instr where
  /-- Declare a variable and give it the zero value of its type. -/
  | alloc (type : ScalarType) (name : String)
  /-- Put a constant into `target`. -/
  | literal (type : ScalarType) (value : Constant) (target : String)
  /-- Copy a variable into `target`. -/
  | load (type : ScalarType) (name target : String)
  /-- Copy a cell into a declared variable. -/
  | store (type : ScalarType) (source name : String)
  /-- Combine two cells. -/
  | binary (op : ArithOp) (type : ScalarType) (left right target : String)
  /-- Apply a unary operator to a cell. -/
  | unary (op : UnaryOp) (type : ScalarType) (source target : String)
  /-- Compare two cells; the result is a truth value. -/
  | compare (op : CompareOp) (type : ScalarType) (left right target : String)
  /-- Print a cell on a line of its own. -/
  | print (type : ScalarType) (source : String)
  /-- Continue at a label. -/
  | jump (label : Label)
  /-- Continue at one of two labels, as a truth value says. -/
  | branch (test : String) (ifTrue ifFalse : Label)
  /-- Bind a function of the host under its name, with its declared signature. -/
  | bind (name : String) (returnType : ScalarType) (paramTypes : List ScalarType)
  /-- Call a bound function. -/
  | call (function : String) (args : List String) (target : String)
  /-- An instruction outside the instruction set, kept as it is. -/
  | unknown (opcode : String) (operands : List Operand)
deriving DecidableEq, BEq, Repr

/-! ## Opcodes -/

/-- What an opcode with a type suffix does. -/
inductive Family where
  | alloc
  | literal
  | load
  | store
  | print
  | compare
  | binary (op : ArithOp)
  | unary (op : UnaryOp)
deriving DecidableEq, Repr

namespace Family

/-- Every family. -/
def all : List Family :=
  [alloc, literal, load, store, print, compare] ++ ArithOp.all.map binary ++ UnaryOp.all.map unary

/-- The part of an opcode in front of its type. -/
def name : Family → String
  | alloc => "alloc"
  | literal => "literal"
  | load => "load"
  | store => "store"
  | print => "print"
  | compare => "cmp"
  | binary op => op.name
  | unary op => op.name

end Family

/-- An opcode of the instruction set. -/
inductive Opcode where
  | jump
  | branch
  | bind
  | call
  | typed (family : Family) (type : ScalarType)
deriving DecidableEq, Repr

namespace Opcode

/-- Every opcode. -/
def all : List Opcode :=
  [jump, branch, bind, call] ++ Family.all.flatMap (fun f => ScalarType.all.map (typed f))

/-- The spelling of an opcode. -/
def name : Opcode → String
  | jump => "jump"
  | branch => "cbranch"
  | bind => "extern_func"
  | call => "call_func"
  | typed family type => family.name ++ "_" ++ type.name

/-- The opcode with the given spelling. -/
def ofName? (s : String) : Option Opcode := all.find? (fun op => op.name == s)

end Opcode

namespace Instr

/-- The opcode of an instruction, spelled out. -/
def opcode : Instr → String
  | alloc type _ => (Opcode.typed .alloc type).name
  | literal type _ _ => (Opcode.typed .literal type).name
  | load type _ _ => (Opcode.typed .load type).name
  | store type _ _ => (Opcode.typed .store type).name
  | binary op type _ _ _ => (Opcode.typed (.binary op) type).name
  | unary op type _ _ => (Opcode.typed (.unary op) type).name
  | compare _ type _ _ _ => (Opcode.typed .compare type).name
  | print type _ => (Opcode.typed .print type).name
  | jump _ => Opcode.jump.name
  | branch _ _ _ => Opcode.branch.name
  | bind _ _ _ => Opcode.bind.name
  | call _ _ _ => Opcode.call.name
  | unknown opcode _ => opcode

/-- The cell that receives a computed value. -/
def target? : Instr → Option String
  | literal _ _ target => some target
  | load _ _ target => some target
  | binary _ _ _ _ target => some target
  | unary _ _ _ target => some target
  | compare _ _ _ _ target => some target
  | call _ _ target => some target
  | _ => none

/-- The labels that an instruction may continue at. -/
def labels : Instr → List Label
  | jump label => [label]
  | branch _ ifTrue ifFalse => [ifTrue, ifFalse]
  | _ => []

end Instr

end ThreeAddress
