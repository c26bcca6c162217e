import ThreeAddress.Json.Shape
import ThreeAddress.Json.Writer
import ThreeAddress.Wire

set_option autoImplicit false

/-! # Programs

A program is laid-out code: instructions by address. It is listed one instruction a line, and stored
as a JSON array of tuples. -/

namespace ThreeAddress

/-- Instructions by address. -/
structure Program where
  code : Array Instr
deriving DecidableEq, BEq, Repr

/-- The JSON form of an operand. -/
def Operand.toJson : Operand → Json
  | .int v => .int v.toInt
  | .float v => .float v
  | .bool v => .bool v
  | .text v => .string v

/-- The operand of a JSON value: an integer of 64 bits with a sign if it is one, else a float, a
    truth value or a text. -/
def Operand.ofJson? : Json → Option Operand
  | .bool v => some (.bool v)
  | .string v => some (.text v)
  | v =>
    match v.int64? with
    | some n => some (.int n)
    | none => v.float?.map .float

/-- The operands of a JSON array. -/
def Operand.listOfJson? (v : Json) : Option (List Operand) :=
  v.items?.bind (fun items => items.mapM Operand.ofJson?)

/-- The JSON form of an instruction is its tuple. -/
def Instr.toJson (i : Instr) : Json := .array (i.toTuple.map Operand.toJson)

/-- The instruction of a JSON tuple. -/
def Instr.ofJson? (v : Json) : Option Instr := do
  let tuple ← Operand.listOfJson? v
  (Instr.ofTuple tuple).toOption

namespace Program

/-- The number of instructions. -/
def size (p : Program) : Nat := p.code.size

/-- One line of a listing. -/
def listingLine (i : Instr) (address : Nat) : String :=
  toString address ++ " : " ++ i.render ++ "\n"

/-- All instructions with their addresses, one a line. -/
def listing (p : Program) : String :=
  String.join (p.code.toList.zipIdx.map fun (i, address) => listingLine i address)

/-- The JSON form of a program. -/
def toJson (p : Program) : Json := .array (p.code.toList.map Instr.toJson)

/-- The program of a JSON array of tuples. -/
def ofJson? (v : Json) : Option Program := do
  let items ← v.items?
  let code ← items.mapM Instr.ofJson?
  return ⟨code.toArray⟩

/-- The program that a JSON text holds. -/
def read? (text : String) : Option Program := Json.read? ofJson? text

end Program

end ThreeAddress
