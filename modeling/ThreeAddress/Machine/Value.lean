import ThreeAddress.Scalar

set_option autoImplicit false

/-! # Values of a running program

A cell of the store holds a constant or a bound function of the host. Functions cannot be computed
with: to everything but a call they are only something that is not a constant, and that is all a
host function sees of one among its arguments (`Argument`). -/

namespace ThreeAddress

/-- What kind of thing a value is. -/
inductive ValueKind where
  | scalar (type : ScalarType)
  | function
deriving DecidableEq, Repr

/-- The name of a kind in messages. -/
def ValueKind.name : ValueKind → String
  | scalar type => type.name
  | function => "func"

/-! ## Functions of the host -/

/-- A value as a host function sees it. -/
inductive Argument where
  | scalar (value : Constant)
  | function
deriving DecidableEq, Repr

namespace Argument

/-- What kind of thing an argument is. -/
def kind : Argument → ValueKind
  | scalar value => .scalar value.type
  | function => .function

/-- The numeric value of an argument. -/
def toFloat? : Argument → Option Float
  | scalar value => value.toFloat?
  | function => none

end Argument

/-- A function of the host: how many arguments it takes, and what it makes of them. The error is the
    reason why a call fails. Only functions that answer with a constant are considered; one that
    answered with a bound function could not be called with success, since no declared type is that
    of a function. -/
structure NativeFunction where
  arity : Nat
  apply : List Argument → Except String Constant

namespace NativeFunction

/-- Call a function, which must be given as many arguments as it takes. -/
def invoke (f : NativeFunction) (args : List Argument) : Except String Constant :=
  if args.length = f.arity then f.apply args
  else .error s!"takes {f.arity} arguments, {args.length} given"

/-- The numeric argument at `index`. -/
def numeric (args : List Argument) (index : Nat) : Except String Float :=
  match args[index]? with
  | none => .error s!"missing argument {index}"
  | some arg =>
    match arg.toFloat? with
    | some x => .ok x
    | none => .error s!"argument {index} must be numeric, got {arg.kind.name}"

/-- A numeric function of one argument. -/
def unary (f : Float → Float) : NativeFunction where
  arity := 1
  apply := fun args => do return .float (f (← numeric args 0))

/-- A numeric function of two arguments. -/
def binary (f : Float → Float → Float) : NativeFunction where
  arity := 2
  apply := fun args => do return .float (f (← numeric args 0) (← numeric args 1))

end NativeFunction

/-- A function of the host with the namespace it was found in and the signature it was declared
    with. -/
structure BoundFunction where
  name : String
  space : String
  native : NativeFunction
  returnType : ScalarType
  paramTypes : List ScalarType

/-! ## Values -/

/-- What a cell of the store holds. -/
inductive Value where
  | scalar (value : Constant)
  | function (value : BoundFunction)

namespace Value

/-- What kind of thing a value is. -/
def kind : Value → ValueKind
  | scalar value => .scalar value.type
  | function _ => .function

/-- The type of a value that is not a function. -/
def type? : Value → Option ScalarType
  | scalar value => some value.type
  | function _ => none

/-- Whether a value is the truth. -/
def isTrue : Value → Bool
  | scalar (.bool b) => b
  | _ => false

/-- The numeric value. -/
def toFloat? : Value → Option Float
  | scalar value => value.toFloat?
  | function _ => none

/-- The value as a host function sees it. -/
def toArgument : Value → Argument
  | scalar value => .scalar value
  | function _ => .function

/-- The text that printing a value would write. -/
def print : Value → String
  | scalar value => value.print
  | function f => "<extern " ++ f.space ++ "." ++ f.name ++ ">"

/-- Whether two values are equal: floats as numbers, functions by name and namespace. -/
def same : Value → Value → Bool
  | scalar a, scalar b => a == b
  | function f, function g => f.name == g.name && f.space == g.space
  | _, _ => false

end Value

end ThreeAddress
