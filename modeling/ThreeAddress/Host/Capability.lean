import ThreeAddress.Host.Hypotenuse
import ThreeAddress.Machine.Fault

set_option autoImplicit false

/-! # Capabilities

A program can only call host functions that some capability offers. A capability is a namespace of
functions; a name is looked up in the capabilities of a machine in order, and the first that has it
wins. Two capabilities are built in: `math`, the elementary functions in double precision, and `os`,
which asks the host about the surroundings of the program. -/

namespace ThreeAddress

/-- A namespace of host functions, and what it has under each name. -/
structure Capability where
  space : String
  lookup? : String → Option NativeFunction

namespace Capability

/-- The capability that has the functions of a table. -/
def ofTable (space : String) (functions : List (String × NativeFunction)) : Capability where
  space
  lookup? := fun name => functions.lookup name

/-- The first capability that has a function of the given name: its namespace and the function. -/
def find? (capabilities : List Capability) (name : String) : Option (String × NativeFunction) :=
  capabilities.findSome? fun c => (c.lookup? name).map fun f => (c.space, f)

/-- The elementary functions. -/
def math : Capability :=
  .ofTable "math"
    [("sin", .unary Float.sin), ("cos", .unary Float.cos), ("tan", .unary Float.tan),
     ("asin", .unary Float.asin), ("acos", .unary Float.acos), ("atan", .unary Float.atan),
     ("sqrt", .unary Float.sqrt), ("exp", .unary Float.exp), ("log", .unary Float.log),
     ("log10", .unary Float.log10), ("fabs", .unary Float.abs), ("floor", .unary Float.floor),
     ("ceil", .unary Float.ceil), ("atan2", .binary Float.atan2), ("pow", .binary Float.pow),
     ("hypot", .binary Host.hypotenuse)]

end Capability

/-! ## Queries to the host -/

/-- What the host tells a program about its surroundings. -/
structure HostInfo where
  pid : Int64
  directory : Except String String
  environment : String → Option String

/-- A host that tells nothing. -/
def HostInfo.bare : HostInfo where
  pid := 0
  directory := .ok "/"
  environment := fun _ => none

namespace Capability

/-- The value of an environment variable; one that is not set reads as the empty string. -/
def getenv (host : HostInfo) (args : List Argument) : Except String Constant :=
  match args.head? with
  | some (.scalar (.string key)) => .ok (.string ((host.environment key).getD ""))
  | some arg => .error s!"argument 0 must be a string, got {arg.kind.name}"
  | none => .error "missing argument 0"

/-- Queries to the host. -/
def os (host : HostInfo) : Capability :=
  .ofTable "os"
    [("getpid", ⟨0, fun _ => .ok (.int host.pid)⟩),
     ("getcwd", ⟨0, fun _ => host.directory.map .string⟩),
     ("getenv", ⟨1, getenv host⟩)]

/-- The built-in capabilities, in their usual order. -/
def builtin (host : HostInfo) : List Capability := [math, os host]

/-- The built-in capability with the given namespace. -/
def ofName? (host : HostInfo) (space : String) : Option Capability :=
  (builtin host).find? (fun c => c.space == space)

end Capability

end ThreeAddress
