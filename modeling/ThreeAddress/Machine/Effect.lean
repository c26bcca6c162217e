import ThreeAddress.Machine.Operation
import ThreeAddress.Machine.Settings
import ThreeAddress.Machine.Store

set_option autoImplicit false

/-! # Effects of instructions

What an instruction does is decided before anything is changed: from the store, the capabilities and
the settings follows one `Effect`, or a fault. All checks of an instruction are made here; carrying
out an effect is a single change, to one cell, to the output or to the place where execution goes
on. -/

namespace ThreeAddress

/-- The single change that an instruction makes. -/
inductive Effect where
  /-- Nothing but going on with the next instruction. -/
  | skip
  /-- Write a cell. -/
  | write (name : String) (value : Value)
  /-- Declare a variable. -/
  | allocate (name : String) (type : ScalarType)
  /-- Print a line. -/
  | output (line : String)
  /-- Go on elsewhere. -/
  | goto (address : Nat)

/-- The address of a label. -/
def Label.address? : Label → Except Fault Nat
  | .address a => .ok a
  | .block id => .error (.unresolvedLabel id)

/-- What a binding makes of a declared function: the first function of that name in the
    capabilities, if it takes as many arguments as declared. -/
def bindFunction (capabilities : List Capability) (name : String) (returnType : ScalarType)
    (paramTypes : List ScalarType) : Except Fault BoundFunction :=
  match Capability.find? capabilities name with
  | none => .error (.functionNotFound name)
  | some (space, native) =>
    if native.arity = paramTypes.length then
      .ok { name, space, native, returnType, paramTypes }
    else .error (.arityMismatch name native.arity paramTypes.length)

/-- The arguments of a call: each cell is read and converted to the type of its parameter. -/
def readArgs (s : Store) : List (String × ScalarType) → Except Fault (List Constant)
  | [] => .ok []
  | (name, type) :: rest => do
    let c ← coerce name (← s.read name) type
    return c :: (← readArgs s rest)

/-- The function bound in a cell. -/
def readFunction (s : Store) (name : String) : Except Fault BoundFunction := do
  match ← s.read name with
  | .function f => .ok f
  | .scalar _ => .error (.notCallable name)

/-- The result of calling the function bound in a cell. -/
def callFunction (s : Store) (function : String) (args : List String) :
    Except Fault Constant := do
  let f ← readFunction s function
  if args.length = f.paramTypes.length then
    let values ← readArgs s (args.zip f.paramTypes)
    match f.native.invoke (values.map .scalar) with
    | .ok result => coerce function (.scalar result) f.returnType
    | .error reason => .error (.callFailed function reason)
  else .error (.arityMismatch function f.paramTypes.length args.length)

/-- The effect of the instruction at `address`. -/
def Instr.effect (capabilities : List Capability) (policy : UnknownPolicy) (address : Nat)
    (s : Store) : Instr → Except Fault Effect
  | .alloc type name => .ok (.allocate name type)
  | .literal type value target => do
    let c ← coerce target (.scalar value) type
    return .write target (.scalar c)
  | .load type name target => do
    let c ← s.readTyped name type
    return .write target (.scalar c)
  | .store type source name => do
    let c ← s.readTyped source type
    if s.isAllocated name then
      -- a variable keeps the type it was declared with
      let _ ← s.readTyped name type
      return .write name (.scalar c)
    else .error (.unallocatedVariable name)
  | .binary op type left right target => do
    let l ← s.readTyped left type
    let r ← s.readTyped right type
    let c ← op.apply type l r
    return .write target (.scalar c)
  | .unary op type source target => do
    let a ← s.readTyped source type
    let c ← op.apply type a
    return .write target (.scalar c)
  | .compare op type left right target => do
    let l ← s.readTyped left type
    let r ← s.readTyped right type
    let b ← op.apply type l r
    return .write target (.scalar (.bool b))
  | .print type source => do
    let c ← s.readTyped source type
    return .output c.print
  | .jump label => do
    return .goto (← label.address?)
  | .branch test ifTrue ifFalse => do
    let c ← s.readTyped test .bool
    let label := if c = .bool true then ifTrue else ifFalse
    return .goto (← label.address?)
  | .bind name returnType paramTypes => do
    let f ← bindFunction capabilities name returnType paramTypes
    return .write name (.function f)
  | .call function args target => do
    let c ← callFunction s function args
    return .write target (.scalar c)
  | .unknown opcode _ =>
    match policy with
    | .fatal => .error (.unknownOpcode opcode address)
    | .warn => .ok .skip

end ThreeAddress
