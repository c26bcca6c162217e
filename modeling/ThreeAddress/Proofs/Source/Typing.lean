import ThreeAddress.Proofs.Lowering.Emission

set_option autoImplicit false

/-! # Well-typed programs

A signature says what each name stands for throughout a program: a variable of one type, or a
function of the host with one list of parameters and one result. A program is well typed under a
signature if every expression carries the type that its parts give it, and if every name is
declared before it is used. All that lowering asks of a program is that its trees are decorated, and
those of well-typed programs are (`WellTyped.decoratedAll`). -/

namespace ThreeAddress

/-! ## Operators and types -/

namespace ScalarType

/-- Whether a type is one of numbers. -/
def isNumeric : ScalarType → Bool
  | int | float => true
  | string | bool => false

/-- Whether a value of the first type may be passed for a parameter of the second. -/
def fits (type param : ScalarType) : Bool :=
  type == param || type.isNumeric && param.isNumeric

end ScalarType

/-- The types that an arithmetic operator combines. -/
def ArithOp.allows : ArithOp → ScalarType → Bool
  | _, .int | _, .float | .add, .string => true
  | _, _ => false

/-- The types that a comparison or a connective takes. -/
def CompareOp.allows : CompareOp → ScalarType → Bool
  | .land, type | .lor, type => type == .bool
  | _, _ => true

/-- The types that a unary operator takes. -/
def UnaryOp.allows : UnaryOp → ScalarType → Bool
  | .uadd, type | .usub, type => type.isNumeric
  | .lnot, type => type == .bool

namespace Source

/-! ## Typing rules -/

/-- What a name stands for. -/
inductive Entry where
  | cell (type : ScalarType)
  | function (params : List ScalarType) (result : ScalarType)
deriving DecidableEq, Repr

/-- What each name stands for throughout a program. -/
abbrev Signature := String → Option Entry

mutual

/-- The expression has the given type if the names of `declared` are declared. -/
inductive HasType (sig : Signature) (declared : List String) : Expr → ScalarType → Prop
  | literal (c : Constant) : HasType sig declared (.literal (some c.type) c) c.type
  | binary {type : ScalarType} {op : ArithOp} {left right : Expr} (hop : op.allows type = true)
      (hleft : HasType sig declared left type) (hright : HasType sig declared right type) :
      HasType sig declared (.binary (some type) op left right) type
  | relational {type : ScalarType} {op : CompareOp} {left right : Expr}
      (hop : op.allows type = true) (hleft : HasType sig declared left type)
      (hright : HasType sig declared right type) :
      HasType sig declared (.relational (some .bool) op left right) .bool
  | unary {type : ScalarType} {op : UnaryOp} {operand : Expr} (hop : op.allows type = true)
      (hoperand : HasType sig declared operand type) :
      HasType sig declared (.unary (some type) op operand) type
  | load {type : ScalarType} {name : String} (hname : sig name = some (.cell type))
      (hdeclared : name ∈ declared) : HasType sig declared (.load (some type) name) type
  | group {type : ScalarType} {inner : Expr} (hinner : HasType sig declared inner type) :
      HasType sig declared (.group (some type) inner) type
  | call {type : ScalarType} {params : List ScalarType} {name : String} {args : List Expr}
      (hname : sig name = some (.function params type)) (hdeclared : name ∈ declared)
      (hargs : HasTypes sig declared args params) :
      HasType sig declared (.call (some type) name args) type

/-- Each argument may be passed for its parameter, and there are as many of them. -/
inductive HasTypes (sig : Signature) (declared : List String) :
    List Expr → List ScalarType → Prop
  | nil : HasTypes sig declared [] []
  | cons {e : Expr} {rest : List Expr} {type param : ScalarType} {params : List ScalarType}
      (he : HasType sig declared e type) (hfits : type.fits param = true)
      (hrest : HasTypes sig declared rest params) :
      HasTypes sig declared (e :: rest) (param :: params)

end

/-- The statements are well typed if the names of `declared` are declared in front of them. A
    declaration counts for its own initial value and for all that follows in the same branch. -/
inductive WellTyped (sig : Signature) : List String → List Stmt → Prop
  | nil {declared : List String} : WellTyped sig declared []
  | constDecl {declared : List String} {line : UInt64} {name : String} {type : Option ScalarType}
      {t : ScalarType} {value : Expr} {rest : List Stmt} (hname : sig name = some (.cell t))
      (htype : type.getD t = t) (hvalue : HasType sig (name :: declared) value t)
      (hrest : WellTyped sig (name :: declared) rest) :
      WellTyped sig declared (.constDecl line name type value :: rest)
  | varDecl {declared : List String} {line : UInt64} {name : String} {type : Option ScalarType}
      {t : ScalarType} {value : Expr} {rest : List Stmt} (hname : sig name = some (.cell t))
      (htype : type.getD t = t) (hvalue : HasType sig (name :: declared) value t)
      (hrest : WellTyped sig (name :: declared) rest) :
      WellTyped sig declared (.varDecl line name type (some value) :: rest)
  | varZero {declared : List String} {line : UInt64} {name : String} {t : ScalarType}
      {rest : List Stmt} (hname : sig name = some (.cell t))
      (hrest : WellTyped sig (name :: declared) rest) :
      WellTyped sig declared (.varDecl line name (some t) none :: rest)
  | assign {declared : List String} {line : UInt64} {name : String} {t : ScalarType}
      {value : Expr} {rest : List Stmt} (hname : sig name = some (.cell t))
      (hdeclared : name ∈ declared) (hvalue : HasType sig declared value t)
      (hrest : WellTyped sig declared rest) :
      WellTyped sig declared (.assign line name value :: rest)
  | print {declared : List String} {line : UInt64} {t : ScalarType} {value : Expr}
      {rest : List Stmt} (hvalue : HasType sig declared value t)
      (hrest : WellTyped sig declared rest) :
      WellTyped sig declared (.print line value :: rest)
  | cond {declared : List String} {line : UInt64} {condition : Expr}
      {thenBranch rest : List Stmt} (hcondition : HasType sig declared condition .bool)
      (hthen : WellTyped sig declared thenBranch) (hrest : WellTyped sig declared rest) :
      WellTyped sig declared (.cond line condition thenBranch none :: rest)
  | condElse {declared : List String} {line : UInt64} {condition : Expr}
      {thenBranch elseBranch rest : List Stmt} (hcondition : HasType sig declared condition .bool)
      (hthen : WellTyped sig declared thenBranch) (helse : WellTyped sig declared elseBranch)
      (hrest : WellTyped sig declared rest) :
      WellTyped sig declared (.cond line condition thenBranch (some elseBranch) :: rest)
  | loop {declared : List String} {line : UInt64} {condition : Expr} {body rest : List Stmt}
      (hcondition : HasType sig declared condition .bool) (hbody : WellTyped sig declared body)
      (hrest : WellTyped sig declared rest) :
      WellTyped sig declared (.loop line condition body :: rest)
  | declare {declared : List String} {line : UInt64} {prototype : Prototype} {rest : List Stmt}
      (hname : sig prototype.name =
        some (.function (prototype.params.map Param.type) prototype.returnType))
      (hrest : WellTyped sig (prototype.name :: declared) rest) :
      WellTyped sig declared (.declare line prototype :: rest)
  | eval {declared : List String} {line : UInt64} {t : ScalarType} {value : Expr}
      {rest : List Stmt} (hvalue : HasType sig declared value t)
      (hrest : WellTyped sig declared rest) :
      WellTyped sig declared (.eval line value :: rest)

/-! ## Well-typed trees are decorated -/

section Decorated

variable {sig : Signature} {declared : List String}

theorem HasType.type?_eq {e : Expr} {type : ScalarType} (h : HasType sig declared e type) :
    e.type? = some type := by
  cases h <;> rfl

mutual

theorem HasType.decorated {e : Expr} {type : ScalarType} (h : HasType sig declared e type) :
    e.decorated = true := by
  cases h with
  | literal c => exact beq_self_eq_true _
  | binary hop hleft hright =>
      rw [Expr.decorated, hleft.decorated, hright.decorated]
      rfl
  | relational hop hleft hright =>
      rw [Expr.decorated, hleft.decorated, hright.decorated]
      rfl
  | unary hop hoperand =>
      rw [Expr.decorated, hoperand.decorated]
      rfl
  | load hname hdeclared => rfl
  | group hinner =>
      rw [Expr.decorated, hinner.decorated]
      rfl
  | call hname hdeclared hargs =>
      rw [Expr.decorated, hargs.decoratedArgs]
      rfl

theorem HasTypes.decoratedArgs {args : List Expr} {params : List ScalarType}
    (h : HasTypes sig declared args params) : decoratedArgs args = true := by
  cases h with
  | nil => rfl
  | cons he hfits hrest =>
      rw [Source.decoratedArgs, he.decorated, hrest.decoratedArgs]
      rfl

end

theorem WellTyped.decoratedAll {stmts : List Stmt} (h : WellTyped sig declared stmts) :
    decoratedAll stmts = true := by
  induction h with
  | nil => rfl
  | constDecl hname htype hvalue hrest ih =>
      simp [Source.decoratedAll, Stmt.decorated, hvalue.decorated, ih]
  | varDecl hname htype hvalue hrest ih =>
      simp [Source.decoratedAll, Stmt.decorated, hvalue.decorated, ih]
  | varZero hname hrest ih => simp [Source.decoratedAll, Stmt.decorated, ih]
  | assign hname hdeclared hvalue hrest ih =>
      simp [Source.decoratedAll, Stmt.decorated, hvalue.decorated, ih]
  | print hvalue hrest ih =>
      simp [Source.decoratedAll, Stmt.decorated, hvalue.decorated, ih]
  | cond hcondition hthen hrest ihthen ih =>
      simp [Source.decoratedAll, Stmt.decorated, hcondition.decorated, ihthen, ih]
  | condElse hcondition hthen helse hrest ihthen ihelse ih =>
      simp [Source.decoratedAll, Stmt.decorated, hcondition.decorated, ihthen, ihelse, ih]
  | loop hcondition hbody hrest ihbody ih =>
      simp [Source.decoratedAll, Stmt.decorated, hcondition.decorated, ihbody, ih]
  | declare hname hrest ih => simp [Source.decoratedAll, Stmt.decorated, ih]
  | eval hvalue hrest ih =>
      simp [Source.decoratedAll, Stmt.decorated, hvalue.decorated, ih]

end Decorated

end Source

end ThreeAddress
