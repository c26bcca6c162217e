import ThreeAddress.Failure
import ThreeAddress.Instr
import ThreeAddress.Machine.Value

set_option autoImplicit false

/-! # Faults

Everything that can stop a running program, with the cause of each and its wording. -/

namespace ThreeAddress

/-- Why a program stops. -/
inductive Fault where
  /-- A step was taken before the machine was started. -/
  | notStarted
  | unboundVariable (name : String)
  | unallocatedVariable (name : String)
  | typeMismatch (name : String) (expected : ScalarType) (found : ValueKind)
  /-- No namespace has a host function of this name. -/
  | functionNotFound (name : String)
  | unknownCapability (space : String)
  | arityMismatch (function : String) (expected found : Nat)
  | notCallable (name : String)
  /-- The host function itself reports an error. -/
  | callFailed (function reason : String)
  | unknownOpcode (opcode : String) (address : Nat)
  | addressOutOfRange (address size : Nat)
  | unresolvedLabel (block : BlockId)
  | divisionByZero
  /-- The operation is not defined on operands of these types. -/
  | unsupported (operation : String) (operands : List ScalarType)
  | stepLimitExceeded (limit : UInt64)
  /-- The output refuses a text. -/
  | output (reason : String)
deriving DecidableEq, Repr

/-- The wording of a fault. -/
def Fault.message : Fault → String
  | notStarted => "interpreter has not been started"
  | unboundVariable name => s!"unbound variable '{name}'"
  | unallocatedVariable name => s!"store to unallocated variable '{name}'"
  | typeMismatch name expected found =>
    s!"'{name}' holds a {found.name} value, expected {expected.name}"
  | functionNotFound name => s!"extern function '{name}' not found in any capability namespace"
  | unknownCapability space => s!"unknown capability namespace '{space}'"
  | arityMismatch function expected found =>
    s!"'{function}' expects {expected} arguments, found {found}"
  | notCallable name => s!"'{name}' is not a bound extern function"
  | callFailed function reason => s!"extern function '{function}' failed: {reason}"
  | unknownOpcode opcode address => s!"no handler for opcode '{opcode}' at {address}"
  | addressOutOfRange address size => s!"wrong PC {address}: program has {size} instructions"
  | unresolvedLabel block => s!"jump to unlinked block {block}"
  | divisionByZero => "integer division by zero"
  | unsupported operation operands =>
    s!"'{operation}' is not supported on " ++ " and ".intercalate (operands.map ScalarType.name)
  | stepLimitExceeded limit => s!"step limit of {limit} instructions exceeded"
  | output reason => s!"output error: {reason}"

/-- A fault as a failure of the execution. -/
def Fault.toFailure (f : Fault) : Failure := ⟨.execution, f.message⟩

end ThreeAddress
