import ThreeAddress.Host.Capability
import ThreeAddress.Json.Shape
import ThreeAddress.Json.Writer

set_option autoImplicit false

/-! # Settings of a machine

What to do with unknown instructions, how many instructions a run may execute, and which
capabilities it has. Settings are stored as JSON, where every field may be missing. -/

namespace ThreeAddress

/-- What a machine does with an instruction outside the instruction set. -/
inductive UnknownPolicy where
  /-- Stop with a fault. -/
  | fatal
  /-- Skip the instruction. -/
  | warn
deriving DecidableEq, Repr

namespace UnknownPolicy

/-- The name of a policy. -/
def name : UnknownPolicy → String
  | fatal => "fatal"
  | warn => "warn"

/-- The policy with the given name. -/
def ofName? (s : String) : Option UnknownPolicy := [fatal, warn].find? (fun p => p.name == s)

end UnknownPolicy

/-- The settings of a machine. Without a step limit a run may go on forever. -/
structure Settings where
  unknownOpcode : UnknownPolicy := .fatal
  stepLimit : Option UInt64 := none
  capabilities : List String := ["math", "os"]
deriving DecidableEq, Repr

namespace Settings

/-- The JSON form of settings. -/
def toJson (s : Settings) : Json :=
  .object [("unknown_opcode", .string s.unknownOpcode.name),
    ("step_limit", Json.ofOption (fun n => .int n.toNat) s.stepLimit),
    ("capabilities", .array (s.capabilities.map .string))]

/-- The policy of a JSON value. -/
def policyOfJson? (v : Json) : Option UnknownPolicy := v.tag?.bind UnknownPolicy.ofName?

/-- The namespaces of a JSON value. -/
def namespacesOfJson? (v : Json) : Option (List String) :=
  v.items?.bind (fun items => items.mapM Json.text?)

/-- The settings of a JSON value; what is missing is as usual. -/
def ofJson? (v : Json) : Option Settings := do
  let usual : Settings := {}
  let fields ← v.record? ["unknown_opcode", "step_limit", "capabilities"]
  let unknownOpcode ←
    Json.orDefault? policyOfJson? usual.unknownOpcode (fields.lookup "unknown_opcode")
  let stepLimit ← Json.optional? Json.uint64? (fields.lookup "step_limit")
  let capabilities ←
    Json.orDefault? namespacesOfJson? usual.capabilities (fields.lookup "capabilities")
  return { unknownOpcode, stepLimit, capabilities }

/-- The settings that a JSON text holds. -/
def read? (text : String) : Option Settings := Json.read? ofJson? text

/-- The capabilities that the settings name. -/
def capabilityList (s : Settings) (host : HostInfo) : Except Fault (List Capability) :=
  s.capabilities.mapM fun space =>
    match Capability.ofName? host space with
    | some c => .ok c
    | none => .error (.unknownCapability space)

end Settings

end ThreeAddress
