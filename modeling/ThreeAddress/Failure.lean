set_option autoImplicit false

/-! # Failures

Whatever goes wrong between a source text and the end of a run is reported as a `Failure`: the phase
it belongs to and the message of its cause. -/

namespace ThreeAddress

/-- Where a failure comes from. -/
inductive Phase where
  | lowering
  | linking
  | execution
  | files
  | serialization
  | internal
deriving DecidableEq, Repr

/-- The words that introduce a failure of a phase. -/
def Phase.label : Phase → String
  | lowering => "Code generation error"
  | linking => "Link error"
  | execution => "Runtime error"
  | files => "IO error"
  | serialization => "Serialization error"
  | internal => "Internal compiler error"

/-- A failure with its message. -/
structure Failure where
  phase : Phase
  message : String
deriving DecidableEq, Repr

/-- The text of a failure. -/
def Failure.render (f : Failure) : String := f.phase.label ++ ": " ++ f.message

/-- A text that is not JSON of the expected shape. -/
def Failure.malformed (what : String) : Failure := ⟨.serialization, "malformed " ++ what⟩

end ThreeAddress
