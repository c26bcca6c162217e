import ThreeAddress.Machine.Effect
import ThreeAddress.Proofs.Sequencing

set_option autoImplicit false

/-! # What instructions read

An instruction first looks at the cells it reads: they have to exist and to hold what it expects.
All that can go wrong there is a fault of operands. A call gets past it with a function and a
constant for each of its parameters (`Invokes`); from there on only the function decides
(`callFunction_cases`). -/

namespace ThreeAddress

/-! ## Faults of operands -/

/-- Whether a fault is about what the operands of an instruction are. -/
def Fault.isOperand : Fault → Bool
  | .unboundVariable _ | .typeMismatch _ _ _ | .notCallable _ | .arityMismatch _ _ _ => true
  | _ => false

/-- A fault about what the operands of an instruction are. -/
def Fault.IsOperand (fault : Fault) : Prop := fault.isOperand = true

theorem Store.read_raises (s : Store) (name : String) : Raises Fault.IsOperand (s.read name) := by
  unfold Store.read
  split
  · exact Raises.ok _
  · exact Raises.error rfl

theorem Store.readTyped_raises (s : Store) (name : String) (type : ScalarType) :
    Raises Fault.IsOperand (s.readTyped name type) := by
  refine (s.read_raises name).bind fun v _ => ?_
  split
  · split
    · exact Raises.ok _
    · exact Raises.error rfl
  · exact Raises.error rfl

theorem coerce_raises (name : String) (v : Value) (type : ScalarType) :
    Raises Fault.IsOperand (coerce name v type) := by
  unfold coerce
  split
  · exact Raises.error rfl
  · split
    · exact Raises.ok _
    · exact Raises.error rfl

theorem readArgs_raises (s : Store) (args : List (String × ScalarType)) :
    Raises Fault.IsOperand (readArgs s args) := by
  induction args with
  | nil => exact Raises.ok _
  | cons arg rest ih =>
      refine (s.read_raises arg.1).bind fun v _ => (coerce_raises arg.1 v arg.2).bind fun c _ => ?_
      exact ih.bind fun _ _ => Raises.ok _

/-! ## What is read -/

theorem Store.readTyped_eq_ok_iff {s : Store} {name : String} {type : ScalarType} {c : Constant} :
    s.readTyped name type = .ok c ↔ s.get? name = some (.scalar c) ∧ c.type = type := by
  unfold Store.readTyped Store.read
  cases s.get? name with
  | none => simp
  | some v =>
      cases v with
      | function f => simp
      | scalar a =>
          simp only [ok_bind]
          split
          · next htype => grind
          · next htype => grind

theorem type_of_coerce {name : String} {v : Value} {type : ScalarType} {c : Constant}
    (h : coerce name v type = .ok c) : c.type = type := by
  unfold coerce at h
  split at h
  · cases h
  · split at h
    · next hconvert =>
        cases h
        exact Constant.type_of_convert? hconvert
    · cases h

/-- Every argument of a call is read. -/
theorem length_of_readArgs {s : Store} {args : List (String × ScalarType)} {values : List Constant}
    (h : readArgs s args = .ok values) : values.length = args.length := by
  induction args generalizing values with
  | nil =>
      cases h
      rfl
  | cons arg rest ih =>
      obtain ⟨v, -, h⟩ := bind_eq_ok_iff.1 h
      obtain ⟨c, -, h⟩ := bind_eq_ok_iff.1 h
      obtain ⟨others, hothers, h⟩ := bind_eq_ok_iff.1 h
      cases h
      rw [List.length_cons, List.length_cons, ih hothers]

/-! ## Calls -/

/-- A call of `function` with the cells `args` comes to invoking `f` on `values`. -/
structure Invokes (s : Store) (function : String) (args : List String) (f : BoundFunction)
    (values : List Constant) : Prop where
  bound : s.get? function = some (.function f)
  length : args.length = f.paramTypes.length
  read : readArgs s (args.zip f.paramTypes) = .ok values

/-- A function is invoked on as many values as it has parameters. -/
theorem Invokes.length_values {s : Store} {function : String} {args : List String}
    {f : BoundFunction} {values : List Constant} (h : Invokes s function args f values) :
    values.length = f.paramTypes.length := by
  rw [length_of_readArgs h.read, List.length_zip, h.length, Nat.min_self]

/-- What a call makes of the outcome of its function. -/
def BoundFunction.conclude (f : BoundFunction) (function : String) :
    Except String Constant → Except Fault Constant
  | .ok result => coerce function (.scalar result) f.returnType
  | .error reason => .error (.callFailed function reason)

/-- Only the function itself can make a call fail for a reason of its own. -/
theorem BoundFunction.of_conclude_eq_callFailed {f : BoundFunction} {function name reason : String}
    {outcome : Except String Constant}
    (h : f.conclude function outcome = .error (.callFailed name reason)) :
    outcome = .error reason := by
  cases outcome with
  | error reason' =>
      cases h
      rfl
  | ok result =>
      have hfault := coerce_raises function (.scalar result) f.returnType _ h
      cases hfault

/-- A call fails because of its operands, or its function is invoked. -/
theorem callFunction_cases (s : Store) (function : String) (args : List String) :
    (∃ fault, callFunction s function args = .error fault ∧ fault.IsOperand) ∨
      ∃ f values, Invokes s function args f values ∧
        callFunction s function args
          = f.conclude function (f.native.invoke (values.map .scalar)) := by
  unfold callFunction readFunction Store.read
  cases hget : s.get? function with
  | none => exact .inl ⟨_, rfl, rfl⟩
  | some v =>
      cases v with
      | scalar c => exact .inl ⟨_, rfl, rfl⟩
      | function f =>
          simp only [ok_bind]
          split
          · next hlength =>
              cases hread : readArgs s (args.zip f.paramTypes) with
              | error fault => exact .inl ⟨fault, rfl, readArgs_raises _ _ fault hread⟩
              | ok values =>
                  refine .inr ⟨f, values, ⟨hget, hlength, hread⟩, ?_⟩
                  rw [ok_bind]
                  unfold BoundFunction.conclude
                  split <;> simp_all
          · exact .inl ⟨_, rfl, rfl⟩

end ThreeAddress
