import ThreeAddress.Machine.Effect
import ThreeAddress.Source.Tree

set_option autoImplicit false

/-! # Direct evaluation of source trees

What a source tree means, without blocks, addresses and temporaries: expressions are evaluated from
left to right on one store, statements change the store and add to the output. Operations and host
functions are those of the machine. A loop may go on forever, so that evaluation takes fuel, which
bounds the number of rounds of each loop; without enough fuel there is no outcome. -/

namespace ThreeAddress.Source

/-! ## Outcomes -/

/-- The store, and the text that has been printed. -/
structure World where
  store : Store
  output : String

/-- Nothing is declared and nothing has been printed. -/
def World.initial : World := ⟨.empty, ""⟩

/-- How something that changes the world ends. -/
inductive Outcome (ε : Type) where
  | done (world : World)
  /-- The world is the one in which it had to stop. -/
  | stopped (world : World) (why : ε)

/-- Why evaluation stops. -/
inductive Stop where
  | fault (fault : Fault)
  /-- The value of an expression has not the type that is expected of it. -/
  | operand (expected found : ScalarType)
  /-- An expression has no type where one is needed. -/
  | untyped
deriving DecidableEq, Repr

/-- Stop at a fault. -/
def orFault {α : Type} (x : Except Fault α) : Except Stop α := x.mapError .fault

/-- The type of an expression or a declaration. -/
def resolve (type : Option ScalarType) : Except Stop ScalarType :=
  match type with
  | some type => .ok type
  | none => .error .untyped

/-- The value of an expression where one of the given type is expected. -/
def expect (type : ScalarType) (c : Constant) : Except Stop Constant :=
  if c.type = type then .ok c else .error (.operand type c.type)

/-! ## Expressions -/

/-- The value of an argument as an element of the type of its parameter. -/
def convert (type : ScalarType) (c : Constant) : Except Stop Constant :=
  match c.convert? type with
  | some c => .ok c
  | none => .error (.operand type c.type)

/-- The values of all arguments as the parameters want them. -/
def convertArgs : List (Constant × ScalarType) → Except Stop (List Constant)
  | [] => .ok []
  | (c, type) :: rest => do
    let c ← convert type c
    return c :: (← convertArgs rest)

/-- Call the function bound under a name. -/
def invoke (s : Store) (name : String) (values : List Constant) : Except Stop Constant := do
  let f ← orFault (readFunction s name)
  if values.length = f.paramTypes.length then
    let args ← convertArgs (values.zip f.paramTypes)
    match f.native.invoke (args.map .scalar) with
    | .ok result => orFault (coerce name (.scalar result) f.returnType)
    | .error reason => .error (.fault (.callFailed name reason))
  else .error (.fault (.arityMismatch name f.paramTypes.length values.length))

mutual

/-- The value of an expression. -/
def Expr.eval (s : Store) : Expr → Except Stop Constant
  | .literal _ value => .ok value
  | .binary _ op left right => do
    let type ← resolve left.type?
    let l ← left.eval s
    let r ← right.eval s
    orFault (op.apply type (← expect type l) (← expect type r))
  | .relational _ op left right => do
    let type ← resolve left.type?
    let l ← left.eval s
    let r ← right.eval s
    let b ← orFault (op.apply type (← expect type l) (← expect type r))
    return .bool b
  | .unary _ op operand => do
    let type ← resolve operand.type?
    let c ← operand.eval s
    orFault (op.apply type (← expect type c))
  | .load type name => do
    orFault (s.readTyped name (← resolve type))
  | .group _ inner => inner.eval s
  | .call _ name args => do
    invoke s name (← evalArgs s args)

/-- The values of the arguments of a call. -/
def evalArgs (s : Store) : List Expr → Except Stop (List Constant)
  | [] => .ok []
  | e :: rest => do
    let first ← e.eval s
    return first :: (← evalArgs s rest)

end

/-! ## Statements -/

/-- What a variable gets if it is given the value `c`. It must be declared, with the type that is
    expected of the value. -/
def assigned (s : Store) (type : ScalarType) (name : String) (c : Constant) :
    Except Stop Constant := do
  let c ← expect type c
  if s.isAllocated name then
    let _ ← orFault (s.readTyped name type)
    return c
  else .error (.fault (.unallocatedVariable name))

/-- Whether a condition holds. -/
def Expr.test (s : Store) (e : Expr) : Except Stop Bool := do
  let c ← e.eval s
  return (← expect .bool c) = .bool true

namespace World

/-- Go on with a result, or stop in the world as it is. -/
def proceed {α : Type} (w : World) (x : Except Stop α) (next : α → Outcome Stop) : Outcome Stop :=
  match x with
  | .ok a => next a
  | .error why => .stopped w why

/-- Declare a variable. -/
def declare (w : World) (name : String) (type : ScalarType) : World :=
  { w with store := w.store.allocate name type }

/-- Write a cell. -/
def set (w : World) (name : String) (value : Value) : World :=
  { w with store := w.store.set name value }

/-- Print a line. -/
def print (w : World) (line : String) : World := { w with output := w.output ++ line ++ "\n" }

end World

/-- Evaluate an expression and store it in a variable. -/
def execStore (w : World) (type : ScalarType) (name : String) (value : Expr) : Outcome Stop :=
  w.proceed (value.eval w.store) fun c =>
    w.proceed (assigned w.store type name c) fun c => .done (w.set name (.scalar c))

/-- The type of a declared variable: as declared, or else that of its initial value. -/
def variableType (type : Option ScalarType) (value : Option Expr) : Except Stop ScalarType :=
  resolve (type <|> value.bind Expr.type?)

/-- Declare a variable with its zero value, and then give it its initial value. -/
def execDecl (w : World) (name : String) (type : Option ScalarType) (value : Option Expr) :
    Outcome Stop :=
  w.proceed (variableType type value) fun type =>
    match value with
    | none => .done (w.declare name type)
    | some value => execStore (w.declare name type) type name value

/-- Print the value of an expression. -/
def execPrint (w : World) (value : Expr) : Outcome Stop :=
  w.proceed (resolve value.type?) fun type =>
    w.proceed (value.eval w.store) fun c =>
      w.proceed (expect type c) fun c => .done (w.print c.print)

/-- Bind a function of the host. -/
def execBind (capabilities : List Capability) (w : World) (prototype : Prototype) : Outcome Stop :=
  let types := prototype.params.map Param.type
  w.proceed (orFault (bindFunction capabilities prototype.name prototype.returnType types)) fun f =>
    .done (w.set prototype.name (.function f))

/-- Rounds of a loop, as long as the test holds. -/
def iterate (test : World → Except Stop Bool) (body : World → Option (Outcome Stop)) :
    Nat → World → Option (Outcome Stop)
  | 0, _ => none
  | fuel + 1, w =>
    match test w with
    | .error why => some (.stopped w why)
    | .ok true =>
      match body w with
      | some (.done w) => iterate test body fuel w
      | stopped => stopped
    | .ok false => some (.done w)

mutual

/-- Execute a statement. -/
def Stmt.exec (capabilities : List Capability) (fuel : Nat) :
    Stmt → World → Option (Outcome Stop)
  | .constDecl _ name type value, w => some (execDecl w name type (some value))
  | .varDecl _ name type value, w => some (execDecl w name type value)
  | .assign _ name value, w =>
    some (w.proceed (resolve value.type?) fun type => execStore w type name value)
  | .print _ value, w => some (execPrint w value)
  | .cond _ condition thenBranch elseBranch, w =>
    match condition.test w.store with
    | .error why => some (.stopped w why)
    | .ok true => execAll capabilities fuel thenBranch w
    | .ok false =>
      match elseBranch with
      | some elseBranch => execAll capabilities fuel elseBranch w
      | none => some (.done w)
  | .loop _ condition body, w =>
    iterate (fun w => condition.test w.store) (execAll capabilities fuel body) fuel w
  | .declare _ prototype, w => some (execBind capabilities w prototype)
  | .eval _ value, w => some (w.proceed (value.eval w.store) fun _ => .done w)

/-- Execute statements in order. -/
def execAll (capabilities : List Capability) (fuel : Nat) :
    List Stmt → World → Option (Outcome Stop)
  | [], w => some (.done w)
  | s :: rest, w =>
    match s.exec capabilities fuel w with
    | some (.done w) => execAll capabilities fuel rest w
    | stopped => stopped

end

/-- Execute a program. -/
def Program.exec (capabilities : List Capability) (fuel : Nat) (p : Program) :
    Option (Outcome Stop) :=
  execAll capabilities fuel p.statements .initial

end ThreeAddress.Source
