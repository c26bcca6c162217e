import ThreeAddress.Proofs.Source.Eval
import ThreeAddress.Proofs.Source.Typing

set_option autoImplicit false

/-! # Well-typed programs are safe

Direct execution of a well-typed program never stops for a reason that lies in the program itself,
but for a division by zero (`WellTyped.execAll_safe`). The invariant is that every declared name is
what the signature says (`AsDeclared`): each expression that has a type then evaluates to a constant
of that type, and each statement leaves the store as declared. -/

namespace ThreeAddress.Source

/-! ## What may still go wrong -/

/-- A function that the host offers under the given name. -/
def Offers (capabilities : List Capability) (name : String) (native : NativeFunction) : Prop :=
  ∃ space, Capability.find? capabilities name = some (space, native)

/-- A call of the host's function, with arguments of the declared types, has the given outcome. -/
def Called (capabilities : List Capability) (sig : Signature) (name : String) (type : ScalarType)
    (outcome : Except String Constant) : Prop :=
  ∃ (args : List Constant) (native : NativeFunction),
    sig name = some (.function (args.map Constant.type) type) ∧
      Offers capabilities name native ∧ native.arity = args.length ∧
      native.apply (args.map .scalar) = outcome

/-- The faults that no type can rule out: a division by zero, and what lies with the host. For a
    declared function the host may lack one of that name, or have one with another number of
    parameters; and a call with arguments of the declared types may fail, or have a result that
    cannot be converted to the declared one. -/
def Permitted (capabilities : List Capability) (sig : Signature) : Fault → Prop
  | .divisionByZero => True
  | .functionNotFound name =>
    ∃ params type, sig name = some (.function params type) ∧
      Capability.find? capabilities name = none
  | .arityMismatch name expected found =>
    ∃ params type native, sig name = some (.function params type) ∧
      Offers capabilities name native ∧ native.arity = expected ∧ params.length = found ∧
      expected ≠ found
  | .callFailed name reason => ∃ type, Called capabilities sig name type (.error reason)
  | .typeMismatch name expected found =>
    ∃ result, Called capabilities sig name expected (.ok result) ∧
      result.convert? expected = none ∧ found = .scalar result.type
  | _ => False

/-- Evaluation yields a result that satisfies `P`, or stops with a permitted fault. -/
def Safe {α : Type} (capabilities : List Capability) (sig : Signature) (P : α → Prop)
    (x : Except Stop α) : Prop :=
  match x with
  | .ok a => P a
  | .error why => ∃ fault, why = .fault fault ∧ Permitted capabilities sig fault

namespace Safe

variable {α β : Type} {capabilities : List Capability} {sig : Signature} {P : α → Prop}
  {Q : β → Prop}

theorem bind {x : Except Stop α} {f : α → Except Stop β} (hx : Safe capabilities sig P x)
    (hf : ∀ a, P a → Safe capabilities sig Q (f a)) : Safe capabilities sig Q (x >>= f) := by
  cases x with
  | ok a => exact hf a hx
  | error why => exact hx

theorem fault {fault : Fault} (h : Permitted capabilities sig fault) :
    Safe capabilities sig P (.error (.fault fault) : Except Stop α) := ⟨fault, rfl, h⟩

end Safe

section Operations

variable {capabilities : List Capability} {sig : Signature} {type : ScalarType}

theorem safe_expect {c : Constant} (h : c.type = type) :
    Safe capabilities sig (fun a => a = c) (expect type c) := by
  rw [expect, if_pos h]
  exact rfl

theorem safe_floorDiv (a b : Int64) :
    Safe capabilities sig (fun _ => True) (orFault (floorDiv a b)) := by
  unfold floorDiv
  split
  · exact Safe.fault trivial
  · dsimp only
    split <;> exact trivial

theorem safe_arith {op : ArithOp} (hop : op.allows type = true) {l r : Constant}
    (hl : l.type = type) (hr : r.type = type) :
    Safe capabilities sig (fun c => c.type = type) (orFault (op.apply type l r)) := by
  subst hl
  cases l with
  | int a =>
      cases r with
      | int b =>
          have hint : Safe capabilities sig (fun _ => True) (orFault (op.onInt a b)) := by
            cases op with
            | div => exact safe_floorDiv a b
            | _ => exact trivial
          -- only the division of integers can fail
          unfold ArithOp.apply
          dsimp only
          cases hresult : op.onInt a b with
          | ok n => rfl
          | error reason =>
              rw [hresult] at hint
              exact hint
      | _ => cases hr
  | float a =>
      cases r with
      | float b => cases op <;> exact rfl
      | _ => cases hr
  | string a =>
      cases r with
      | string b =>
          cases op with
          | add => exact rfl
          | _ => cases hop
      | _ => cases hr
  | bool a => cases op <;> cases hop

theorem safe_unary {op : UnaryOp} (hop : op.allows type = true) {c : Constant}
    (hc : c.type = type) :
    Safe capabilities sig (fun c => c.type = type) (orFault (op.apply type c)) := by
  subst hc
  cases op <;> cases c <;> first | exact rfl | cases hop

/-- Constants of one type can be compared. -/
theorem exists_order {l r : Constant} (h : r.type = l.type) : ∃ o, l.order? r = some o := by
  cases l <;> cases r <;> first | exact ⟨_, rfl⟩ | cases h

theorem safe_compare {op : CompareOp} (hop : op.allows type = true) {l r : Constant}
    (hl : l.type = type) (hr : r.type = type) :
    Safe capabilities sig (fun _ => True) (orFault (op.apply type l r)) := by
  subst hl
  have hconnective (h : l.type = .bool) : ∃ a b, l = .bool a ∧ r = .bool b := by
    rw [h] at hr
    cases l <;> cases h
    cases r <;> cases hr
    exact ⟨_, _, rfl, rfl⟩
  cases op with
  | land =>
      obtain ⟨a, b, rfl, rfl⟩ := hconnective (beq_iff_eq.1 hop)
      exact trivial
  | lor =>
      obtain ⟨a, b, rfl, rfl⟩ := hconnective (beq_iff_eq.1 hop)
      exact trivial
  | _ =>
      obtain ⟨o, ho⟩ := exists_order hr
      simp only [CompareOp.apply, ho]
      exact trivial

end Operations

/-! ## Stores that are as declared -/

/-- The cell of a name holds what the name stands for. -/
def StandsFor (capabilities : List Capability) (s : Store) (name : String) : Entry → Prop
  | .cell type =>
    s.isAllocated name = true ∧ ∃ c, s.get? name = some (.scalar c) ∧ c.type = type
  | .function params result =>
    ∃ f, s.get? name = some (.function f) ∧ f.paramTypes = params ∧ f.returnType = result ∧
      f.native.arity = params.length ∧ Offers capabilities name f.native

/-- All declared names are what the signature says. -/
def AsDeclared (capabilities : List Capability) (sig : Signature) (declared : List String)
    (s : Store) : Prop :=
  ∀ name ∈ declared, ∀ entry, sig name = some entry → StandsFor capabilities s name entry

section Stores

variable {capabilities : List Capability} {sig : Signature} {declared declared' : List String}
  {s s' : Store} {name : String}

theorem AsDeclared.mono (h : AsDeclared capabilities sig declared' s)
    (hsubset : ∀ name ∈ declared, name ∈ declared') : AsDeclared capabilities sig declared s :=
  fun name hname => h name (hsubset name hname)

/-- Whatever changes one cell only, and makes it what its name stands for, declares the name. -/
theorem AsDeclared.declare (h : AsDeclared capabilities sig declared s)
    (hother : ∀ other, name ≠ other → s'.get? other = s.get? other)
    (hallocated : ∀ other, s.isAllocated other = true → s'.isAllocated other = true)
    (hname : ∀ entry, sig name = some entry → StandsFor capabilities s' name entry) :
    AsDeclared capabilities sig (name :: declared) s' := by
  intro other hmem entry hentry
  by_cases heq : name = other
  · subst heq
    exact hname entry hentry
  · have hmeets := h other ((List.mem_cons.1 hmem).resolve_left (Ne.symm heq)) entry hentry
    cases entry with
    | cell type =>
        obtain ⟨hall, c, hget, htype⟩ := hmeets
        exact ⟨hallocated other hall, c, (hother other heq).trans hget, htype⟩
    | function params result =>
        obtain ⟨f, hget, hf⟩ := hmeets
        exact ⟨f, (hother other heq).trans hget, hf⟩

theorem AsDeclared.allocate (h : AsDeclared capabilities sig declared s) {type : ScalarType}
    (hname : sig name = some (.cell type)) :
    AsDeclared capabilities sig (name :: declared) (s.allocate name type) := by
  refine h.declare (fun other hne => ?_) (fun other hall => ?_) fun entry hentry => ?_
  · rw [Store.get?_allocate, if_neg hne]
  · rw [Store.isAllocated_allocate, hall, Bool.or_true]
  · rw [hname] at hentry
    cases hentry
    refine ⟨?_, .zero type, ?_, Constant.type_zero type⟩
    · rw [Store.isAllocated_allocate, decide_eq_true rfl, Bool.true_or]
    · rw [Store.get?_allocate, if_pos rfl]

theorem AsDeclared.set (h : AsDeclared capabilities sig declared s) {v : Value}
    (hname : ∀ entry, sig name = some entry → StandsFor capabilities (s.set name v) name entry) :
    AsDeclared capabilities sig (name :: declared) (s.set name v) :=
  h.declare (fun _ hne => Store.get?_set_of_ne s v hne) (fun _ hall => hall) hname

end Stores

/-! ## Expressions -/

section Expressions

variable {capabilities : List Capability} {sig : Signature} {declared : List String} {s : Store}

theorem AsDeclared.readTyped (hs : AsDeclared capabilities sig declared s) {name : String}
    {type : ScalarType} (hname : sig name = some (.cell type)) (hdeclared : name ∈ declared) :
    ∃ c, s.readTyped name type = .ok c ∧ c.type = type := by
  obtain ⟨-, c, hget, htype⟩ := hs name hdeclared _ hname
  refine ⟨c, ?_, htype⟩
  simp [Store.readTyped, Store.read, hget, htype]

/-- An argument that fits its parameter can be converted to it. -/
theorem exists_convert? {c : Constant} {param : ScalarType} (h : c.type.fits param = true) :
    ∃ c', c.convert? param = some c' := by
  cases c <;> cases param <;> first | exact ⟨_, rfl⟩ | cases h

theorem safe_convertArgs (pairs : List (Constant × ScalarType))
    (h : ∀ pair ∈ pairs, pair.1.type.fits pair.2 = true) :
    Safe capabilities sig (fun args => args.map Constant.type = pairs.map Prod.snd)
      (convertArgs pairs) := by
  induction pairs with
  | nil => rfl
  | cons pair rest ih =>
      obtain ⟨c, hc⟩ := exists_convert? (h pair List.mem_cons_self)
      have hrest := ih fun pair hpair => h pair (List.mem_cons_of_mem _ hpair)
      have hfirst : convert pair.2 pair.1 = .ok c := by rw [convert, hc]
      rw [convertArgs, hfirst, ok_bind]
      refine hrest.bind fun args hargs => ?_
      change c.type :: args.map Constant.type = pair.2 :: rest.map Prod.snd
      rw [Constant.type_of_convert? hc, hargs]

/-- What can still go wrong in a call lies with the host. -/
theorem AsDeclared.invoke_safe (hs : AsDeclared capabilities sig declared s) {name : String}
    {params : List ScalarType} {type : ScalarType}
    (hname : sig name = some (.function params type)) (hdeclared : name ∈ declared)
    {values : List Constant} (hlength : values.length = params.length)
    (hfits : ∀ pair ∈ values.zip params, pair.1.type.fits pair.2 = true) :
    Safe capabilities sig (fun c => c.type = type) (invoke s name values) := by
  obtain ⟨f, hget, rfl, rfl, harity, hoffers⟩ := hs name hdeclared _ hname
  have hread : readFunction s name = .ok f := by
    simp [readFunction, Store.read, hget]
  rw [invoke, hread]
  change Safe capabilities sig _ (ite _ _ _)
  rw [if_pos hlength]
  refine (safe_convertArgs _ hfits).bind fun args hargs => ?_
  rw [List.map_snd_zip (Nat.le_of_eq hlength.symm)] at hargs
  rw [← hargs, List.length_map] at harity
  rw [← hargs] at hname
  have hcount : (args.map Argument.scalar).length = f.native.arity := by
    rw [List.length_map, harity]
  have hcalled : Called capabilities sig name f.returnType (f.native.apply (args.map .scalar)) :=
    ⟨args, f.native, hname, hoffers, harity, rfl⟩
  rw [NativeFunction.invoke, if_pos hcount]
  -- from here on it is up to the host
  cases happly : f.native.apply (args.map .scalar) with
  | error reason =>
      rw [happly] at hcalled
      exact Safe.fault ⟨f.returnType, hcalled⟩
  | ok result =>
      rw [happly] at hcalled
      cases hconvert : result.convert? f.returnType with
      | some c =>
          simp only [coerce, hconvert]
          exact Constant.type_of_convert? hconvert
      | none =>
          simp only [coerce, hconvert]
          exact Safe.fault ⟨result, hcalled, hconvert, rfl⟩

mutual

/-- An expression evaluates to a constant of its type. -/
theorem HasType.eval_safe {e : Expr} {type : ScalarType} (h : HasType sig declared e type)
    (hs : AsDeclared capabilities sig declared s) :
    Safe capabilities sig (fun c => c.type = type) (e.eval s) := by
  cases h with
  | literal c => rfl
  | binary hop hleft hright =>
      rw [Expr.eval, hleft.type?_eq, resolve, ok_bind]
      refine (hleft.eval_safe hs).bind fun l hl => (hright.eval_safe hs).bind fun r hr => ?_
      refine (safe_expect hl).bind fun _ h => (safe_expect hr).bind fun _ h' => ?_
      subst h h'
      exact safe_arith hop hl hr
  | relational hop hleft hright =>
      rw [Expr.eval, hleft.type?_eq, resolve, ok_bind]
      refine (hleft.eval_safe hs).bind fun l hl => (hright.eval_safe hs).bind fun r hr => ?_
      refine (safe_expect hl).bind fun _ h => (safe_expect hr).bind fun _ h' => ?_
      subst h h'
      exact (safe_compare hop hl hr).bind fun _ _ => rfl
  | unary hop hoperand =>
      rw [Expr.eval, hoperand.type?_eq, resolve, ok_bind]
      refine (hoperand.eval_safe hs).bind fun c hc => (safe_expect hc).bind fun _ h => ?_
      subst h
      exact safe_unary hop hc
  | load hname hdeclared =>
      obtain ⟨c, hread, hc⟩ := hs.readTyped hname hdeclared
      rw [Expr.eval, resolve, ok_bind, hread]
      exact hc
  | group hinner =>
      rw [Expr.eval]
      exact hinner.eval_safe hs
  | call hname hdeclared hargs =>
      rw [Expr.eval]
      refine (hargs.evalArgs_safe hs).bind fun values hvalues => ?_
      exact hs.invoke_safe hname hdeclared hvalues.1 hvalues.2

theorem HasTypes.evalArgs_safe {args : List Expr} {params : List ScalarType}
    (h : HasTypes sig declared args params) (hs : AsDeclared capabilities sig declared s) :
    Safe capabilities sig (fun values => values.length = params.length ∧
      ∀ pair ∈ values.zip params, pair.1.type.fits pair.2 = true) (evalArgs s args) := by
  cases h with
  | nil =>
      rw [evalArgs]
      exact ⟨rfl, by simp⟩
  | cons he hfits hrest =>
      rw [evalArgs]
      refine (he.eval_safe hs).bind fun c hc => ?_
      refine (hrest.evalArgs_safe hs).bind fun values hvalues => ?_
      obtain ⟨hlength, hall⟩ := hvalues
      refine ⟨congrArg (· + 1) hlength, ?_⟩
      rw [List.zip_cons_cons]
      exact List.forall_mem_cons.2 ⟨hc ▸ hfits, hall⟩

end

/-- A condition has a truth value. -/
theorem HasType.test_safe {e : Expr} (h : HasType sig declared e .bool)
    (hs : AsDeclared capabilities sig declared s) :
    Safe capabilities sig (fun _ => True) (e.test s) := by
  rw [Expr.test]
  refine (h.eval_safe hs).bind fun c hc => (safe_expect hc).bind fun _ _ => trivial

end Expressions

/-! ## Statements -/

/-- Execution leaves the store as declared, or stops with a permitted fault. -/
def EndsSafely (capabilities : List Capability) (sig : Signature) (declared : List String) :
    Option (Outcome Stop) → Prop
  | none => True
  | some (.done w) => AsDeclared capabilities sig declared w.store
  | some (.stopped _ why) => ∃ fault, why = .fault fault ∧ Permitted capabilities sig fault

section Statements

variable {capabilities : List Capability} {sig : Signature} {declared declared' : List String}
  {w : World}

theorem EndsSafely.mono {o : Option (Outcome Stop)} (h : EndsSafely capabilities sig declared' o)
    (hsubset : ∀ name ∈ declared, name ∈ declared') : EndsSafely capabilities sig declared o :=
  match o with
  | none => trivial
  | some (.done _) => AsDeclared.mono h hsubset
  | some (.stopped _ _) => h

theorem Safe.proceed {α : Type} {P : α → Prop} {x : Except Stop α} {next : α → Outcome Stop}
    (hx : Safe capabilities sig P x)
    (hnext : ∀ a, P a → EndsSafely capabilities sig declared (some (next a))) :
    EndsSafely capabilities sig declared (some (w.proceed x next)) := by
  cases x with
  | ok a => exact hnext a hx
  | error why => exact hx

/-- Storing a value of the right type keeps all declarations. -/
theorem execStore_safe {name : String} {type : ScalarType} {value : Expr}
    (hname : sig name = some (.cell type)) (hdeclared : name ∈ declared)
    (hvalue : HasType sig declared value type) (hw : AsDeclared capabilities sig declared w.store) :
    EndsSafely capabilities sig declared (some (execStore w type name value)) := by
  obtain ⟨hallocated, -⟩ := hw name hdeclared _ hname
  obtain ⟨old, hread, -⟩ := hw.readTyped hname hdeclared
  refine (hvalue.eval_safe hw).proceed fun c hc => ?_
  -- the variable is declared with the type of the value, so that the store is accepted
  have hassigned : assigned w.store type name c = .ok c := by
    rw [assigned, expect, if_pos hc, ok_bind, if_pos hallocated, hread]
    rfl
  rw [hassigned]
  have hset : AsDeclared capabilities sig (name :: declared) (w.store.set name (.scalar c)) := by
    refine hw.set fun entry hentry => ?_
    rw [hname] at hentry
    cases hentry
    exact ⟨hallocated, c, Store.get?_set_self _ _ _, hc⟩
  exact hset.mono fun _ => List.mem_cons_of_mem _

theorem execDecl_safe {name : String} {type : Option ScalarType} {t : ScalarType} {value : Expr}
    (hname : sig name = some (.cell t)) (htype : type.getD t = t)
    (hvalue : HasType sig (name :: declared) value t)
    (hw : AsDeclared capabilities sig declared w.store) :
    EndsSafely capabilities sig (name :: declared)
      (some (execDecl w name type (some value))) := by
  have hresolved : variableType type (some value) = .ok t := by
    cases type with
    | none =>
        change resolve value.type? = _
        rw [hvalue.type?_eq]
        rfl
    | some type =>
        change Except.ok type = _
        exact congrArg _ htype
  rw [execDecl, hresolved]
  exact execStore_safe hname List.mem_cons_self hvalue (hw.allocate hname)

/-- A function that is bound is one of the host, and takes as many arguments as declared. -/
theorem safe_bindFunction {name : String} {params : List ScalarType} {result : ScalarType}
    (hname : sig name = some (.function params result)) :
    Safe capabilities sig (fun f => f.paramTypes = params ∧ f.returnType = result ∧
        f.native.arity = params.length ∧ Offers capabilities name f.native)
      (orFault (bindFunction capabilities name result params)) := by
  unfold bindFunction
  cases hfind : Capability.find? capabilities name with
  | none => exact Safe.fault ⟨params, result, hname, hfind⟩
  | some found =>
      obtain ⟨space, native⟩ := found
      dsimp only
      split
      · next harity => exact ⟨rfl, rfl, harity, space, hfind⟩
      · next harity =>
          exact Safe.fault ⟨params, result, native, hname, ⟨space, hfind⟩, rfl, rfl, harity⟩

theorem execBind_safe {prototype : Prototype}
    (hname : sig prototype.name =
      some (.function (prototype.params.map Param.type) prototype.returnType))
    (hw : AsDeclared capabilities sig declared w.store) :
    EndsSafely capabilities sig (prototype.name :: declared)
      (some (execBind capabilities w prototype)) := by
  refine (safe_bindFunction hname).proceed fun f hf => ?_
  refine hw.set fun entry hentry => ?_
  rw [hname] at hentry
  cases hentry
  exact ⟨f, Store.get?_set_self _ _ _, hf⟩

/-- Every round of a loop keeps the declarations that there are in front of it. -/
theorem iterate_safe {test : World → Except Stop Bool} {body : World → Option (Outcome Stop)}
    (htest : ∀ w, AsDeclared capabilities sig declared w.store →
      Safe capabilities sig (fun _ => True) (test w))
    (hbody : ∀ w, AsDeclared capabilities sig declared w.store →
      EndsSafely capabilities sig declared (body w)) (rounds : Nat) (w : World)
    (hw : AsDeclared capabilities sig declared w.store) :
    EndsSafely capabilities sig declared (iterate test body rounds w) := by
  induction rounds generalizing w with
  | zero => exact trivial
  | succ rounds ih =>
      have htested := htest w hw
      rw [iterate]
      match htest : test w with
      | .error why =>
          rw [htest] at htested
          exact htested
      | .ok false => exact hw
      | .ok true =>
          have hround := hbody w hw
          match hbody : body w with
          | none => exact trivial
          | some (.stopped w' why) =>
              rw [hbody] at hround
              exact hround
          | some (.done w') =>
              rw [hbody] at hround
              exact ih w' hround

/-- If a statement ends safely, so does all from there on. -/
theorem EndsSafely.andThen {fuel : Nat} {stmt : Stmt} {rest : List Stmt}
    (h : EndsSafely capabilities sig declared' (stmt.exec capabilities fuel w))
    (hrest : ∀ w, AsDeclared capabilities sig declared' w.store →
      EndsSafely capabilities sig declared (execAll capabilities fuel rest w)) :
    EndsSafely capabilities sig declared (execAll capabilities fuel (stmt :: rest) w) := by
  rw [execAll]
  match hexec : stmt.exec capabilities fuel w with
  | none => exact trivial
  | some (.done w') =>
      rw [hexec] at h
      exact hrest w' h
  | some (.stopped w' why) =>
      rw [hexec] at h
      exact h

/-- **Well-typed programs are safe.** In a store where the declared names are what the signature
    says, well-typed statements stop with permitted faults only, and leave the store so. -/
theorem WellTyped.execAll_safe {stmts : List Stmt} (h : WellTyped sig declared stmts) (fuel : Nat)
    (hw : AsDeclared capabilities sig declared w.store) :
    EndsSafely capabilities sig declared (execAll capabilities fuel stmts w) := by
  induction h generalizing w with
  | nil =>
      rw [execAll]
      exact hw
  | constDecl hname htype hvalue hrest ih =>
      refine EndsSafely.andThen (execDecl_safe hname htype hvalue hw) fun w hw => ?_
      exact (ih hw).mono fun _ => List.mem_cons_of_mem _
  | varDecl hname htype hvalue hrest ih =>
      refine EndsSafely.andThen (execDecl_safe hname htype hvalue hw) fun w hw => ?_
      exact (ih hw).mono fun _ => List.mem_cons_of_mem _
  | varZero hname hrest ih =>
      refine EndsSafely.andThen (hw.allocate hname) fun w hw => ?_
      exact (ih hw).mono fun _ => List.mem_cons_of_mem _
  | assign hname hdeclared hvalue hrest ih =>
      refine EndsSafely.andThen ?_ fun w hw => ih hw
      rw [Stmt.exec, hvalue.type?_eq]
      exact execStore_safe hname hdeclared hvalue hw
  | print hvalue hrest ih =>
      refine EndsSafely.andThen ?_ fun w hw => ih hw
      rw [Stmt.exec, execPrint, hvalue.type?_eq]
      exact (hvalue.eval_safe hw).proceed fun c hc => (safe_expect hc).proceed fun _ _ => hw
  | cond hcondition hthen hrest ihthen ih =>
      refine EndsSafely.andThen ?_ fun w hw => ih hw
      have htested := hcondition.test_safe hw
      rw [Stmt.exec]
      split
      · rename_i why hwhy
        rw [hwhy] at htested
        exact htested
      · exact ihthen hw
      · exact hw
  | condElse hcondition hthen helse hrest ihthen ihelse ih =>
      refine EndsSafely.andThen ?_ fun w hw => ih hw
      have htested := hcondition.test_safe hw
      rw [Stmt.exec]
      split
      · rename_i why hwhy
        rw [hwhy] at htested
        exact htested
      · exact ihthen hw
      · exact ihelse hw
  | loop hcondition hbody hrest ihbody ih =>
      refine EndsSafely.andThen ?_ fun w hw => ih hw
      rw [Stmt.exec]
      exact iterate_safe (fun w hw => hcondition.test_safe hw) (fun w hw => ihbody hw) fuel _ hw
  | declare hname hrest ih =>
      refine EndsSafely.andThen (execBind_safe hname hw) fun w hw => ?_
      exact (ih hw).mono fun _ => List.mem_cons_of_mem _
  | eval hvalue hrest ih =>
      refine EndsSafely.andThen ?_ fun w hw => ih hw
      rw [Stmt.exec]
      exact (hvalue.eval_safe hw).proceed fun _ _ => hw

end Statements

end ThreeAddress.Source
