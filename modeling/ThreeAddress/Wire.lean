import ThreeAddress.Instr

set_option autoImplicit false

/-! # The wire form of instructions

On disk an instruction is a tuple: its opcode, then its operands. `Instr.toTuple` writes it and
`Instr.ofTuple` reads it back. A tuple with an opcode outside the instruction set is kept as it is;
one with a known opcode must have operands of the right number and kinds.

Two spellings are normalised on the way in: an integer given for a float literal becomes that float,
and a block label may carry a plus sign or leading zeros. -/

namespace ThreeAddress

/-! ## Errors -/

/-- How many operands an opcode takes. -/
inductive Arity where
  | exactly (count : Nat)
  | atLeast (count : Nat)
deriving DecidableEq, Repr

namespace Arity

/-- Whether `count` operands are acceptable. -/
def admits : Arity → Nat → Bool
  | exactly n, count => count == n
  | atLeast n, count => decide (n ≤ count)

/-- The number of operands in words. -/
def render : Arity → String
  | exactly n => toString n
  | atLeast n => "at least " ++ toString n

end Arity

/-- What an operand has to be. -/
inductive OperandKind where
  | name
  | typeName
  | target
  | literal
  | comparison
deriving DecidableEq, Repr

/-- The kind of an operand in words. -/
def OperandKind.render : OperandKind → String
  | name => "a name"
  | typeName => "a type name"
  | target => "a jump target"
  | literal => "a literal of the opcode's type"
  | comparison => "a comparison subop"

/-- Why a tuple is not an instruction. -/
inductive DecodeError where
  | empty
  | missingOpcode
  | wrongArity (opcode : String) (expected : Arity) (found : Nat)
  | badOperand (opcode : String) (position : Nat) (expected : OperandKind)
deriving DecidableEq, Repr

/-- The wording of a decoding error. -/
def DecodeError.message : DecodeError → String
  | empty => "empty instruction tuple"
  | missingOpcode => "instruction tuple must start with an opcode string"
  | wrongArity opcode expected found =>
    s!"'{opcode}' expects {expected.render} operands, found {found}"
  | badOperand opcode position expected =>
    s!"'{opcode}' operand {position} must be {expected.render}"

/-! ## Labels -/

/-- A number below `2 ^ 32` in decimal digits, of which the leading ones may be zeros. -/
def blockDigits? (cs : List Char) : Option BlockId :=
  if cs.isEmpty || !cs.all Char.isDigit then none
  else
    let id := Nat.ofDigitChars 10 cs 0
    if id < UInt32.size then some id else none

/-- The number of a block, perhaps behind a plus sign. -/
def blockNumber? : List Char → Option BlockId
  | '+' :: rest => blockDigits? rest
  | cs => blockDigits? cs

namespace Label

/-- The block that a text names. -/
def ofText? (s : String) : Option Label :=
  match s.toList with
  | '@' :: 'b' :: 'l' :: 'o' :: 'c' :: 'k' :: rest => (blockNumber? rest).map .block
  | _ => none

/-- The label that an operand stands for. -/
def ofOperand? : Operand → Option Label
  | .int v => if 0 ≤ v.toInt then some (.address v.toInt.toNat) else none
  | .text s => ofText? s
  | _ => none

/-- The operand of a label. Addresses are written as signed 64-bit integers, so those from `2 ^ 63`
    on come out negative. -/
def toOperand : Label → Operand
  | .address a => .int (Int64.ofNat a)
  | .block id => .text (Label.block id).render

end Label

/-! ## Encoding -/

/-- The operand of a constant. -/
def Constant.toOperand : Constant → Operand
  | .int v => .int v
  | .float v => .float v
  | .string v => .text v
  | .bool v => .bool v

namespace Instr

/-- The operands of an instruction, without its opcode. -/
def operands : Instr → List Operand
  | alloc _ name => [.text name]
  | literal _ value target => [value.toOperand, .text target]
  | load _ name target => [.text name, .text target]
  | store _ source name => [.text source, .text name]
  | binary _ _ left right target => [.text left, .text right, .text target]
  | unary _ _ source target => [.text source, .text target]
  | compare op _ left right target => [.text op.name, .text left, .text right, .text target]
  | print _ source => [.text source]
  | jump label => [label.toOperand]
  | branch test ifTrue ifFalse => [.text test, ifTrue.toOperand, ifFalse.toOperand]
  | bind name returnType paramTypes =>
    .text name :: .text returnType.name :: paramTypes.map (fun t => .text t.name)
  | call function args target => .text function :: (args.map .text ++ [.text target])
  | unknown _ operands => operands

/-- The wire form: the opcode, then the operands. -/
def toTuple (i : Instr) : List Operand := .text i.opcode :: i.operands

/-- The instruction in a listing. Only a literal's string is quoted. -/
def render (i : Instr) : String :=
  match i with
  | literal _ value target => i.opcode ++ " " ++ value.render ++ " " ++ target
  | _ => " ".intercalate (i.toTuple.map Operand.render)

end Instr

/-! ## Decoding -/

/-- The operands of a tuple, with its opcode for messages. -/
structure Operands where
  opcode : String
  args : List Operand

namespace Operands

/-- The operand at `position`, of which `read?` makes the wanted kind of thing. -/
def get {α : Type} (o : Operands) (kind : OperandKind) (read? : Operand → Option α)
    (position : Nat) : Except DecodeError α :=
  match o.args[position]?.bind read? with
  | some a => .ok a
  | none => .error (.badOperand o.opcode position kind)

/-- The text of an operand. -/
def text? : Operand → Option String
  | .text s => some s
  | _ => none

/-- The constant of the given type that an operand holds. -/
def constant? : ScalarType → Operand → Option Constant
  | .int, .int v => some (.int v)
  | .float, .float v => some (.float v)
  | .float, .int v => some (.float v.toFloat)
  | .string, .text v => some (.string v)
  | .bool, .bool v => some (.bool v)
  | _, _ => none

/-- The name at `position`. -/
def name (o : Operands) (position : Nat) : Except DecodeError String :=
  o.get .name text? position

/-- The type at `position`. -/
def type (o : Operands) (position : Nat) : Except DecodeError ScalarType :=
  o.get .typeName (fun a => (text? a).bind ScalarType.ofName?) position

/-- The label at `position`. -/
def label (o : Operands) (position : Nat) : Except DecodeError Label :=
  o.get .target Label.ofOperand? position

/-- The constant of the given type at `position`. -/
def constant (o : Operands) (t : ScalarType) (position : Nat) : Except DecodeError Constant :=
  o.get .literal (constant? t) position

/-- The comparison at `position`: a name first, then one of the comparisons. -/
def comparison (o : Operands) (position : Nat) : Except DecodeError CompareOp := do
  let name ← o.name position
  match CompareOp.ofName? name with
  | some op => .ok op
  | none => .error (.badOperand o.opcode position .comparison)

/-- The operands must be as many as the opcode takes. -/
def require (o : Operands) (arity : Arity) : Except DecodeError Unit :=
  if arity.admits o.args.length then .ok ()
  else .error (.wrongArity o.opcode arity o.args.length)

/-- The positions from `first` up to but not including `last`. -/
def positions (first last : Nat) : List Nat := (List.range (last - first)).map (first + ·)

/-- The instruction of a family and a type with these operands. -/
def typed (o : Operands) (t : ScalarType) : Family → Except DecodeError Instr
  | .alloc => do
    o.require (.exactly 1)
    return .alloc t (← o.name 0)
  | .literal => do
    o.require (.exactly 2)
    return .literal t (← o.constant t 0) (← o.name 1)
  | .load => do
    o.require (.exactly 2)
    return .load t (← o.name 0) (← o.name 1)
  | .store => do
    o.require (.exactly 2)
    return .store t (← o.name 0) (← o.name 1)
  | .print => do
    o.require (.exactly 1)
    return .print t (← o.name 0)
  | .compare => do
    o.require (.exactly 4)
    return .compare (← o.comparison 0) t (← o.name 1) (← o.name 2) (← o.name 3)
  | .binary op => do
    o.require (.exactly 3)
    return .binary op t (← o.name 0) (← o.name 1) (← o.name 2)
  | .unary op => do
    o.require (.exactly 2)
    return .unary op t (← o.name 0) (← o.name 1)

/-- The instruction of an opcode with these operands. The middle operands of a binding and of a call
    are looked at before the outer ones. -/
def decode (o : Operands) : Opcode → Except DecodeError Instr
  | .jump => do
    o.require (.exactly 1)
    return .jump (← o.label 0)
  | .branch => do
    o.require (.exactly 3)
    return .branch (← o.name 0) (← o.label 1) (← o.label 2)
  | .bind => do
    o.require (.atLeast 2)
    let paramTypes ← (positions 2 o.args.length).mapM o.type
    return .bind (← o.name 0) (← o.type 1) paramTypes
  | .call => do
    o.require (.atLeast 2)
    let last := o.args.length - 1
    let args ← (positions 1 last).mapM o.name
    return .call (← o.name 0) args (← o.name last)
  | .typed family t => o.typed t family

end Operands

/-- The instruction of a tuple. -/
def Instr.ofTuple : List Operand → Except DecodeError Instr
  | [] => .error .empty
  | .text opcode :: args =>
    match Opcode.ofName? opcode with
    | some op => Operands.decode ⟨opcode, args⟩ op
    | none => .ok (.unknown opcode args)
  | _ :: _ => .error .missingOpcode

end ThreeAddress
