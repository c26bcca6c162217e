import ThreeAddress.Proofs.Machine.Footprint

set_option autoImplicit false

/-! # Programs have no functions but those they were given

A function gets into the store by a binding alone, which takes it from the capabilities of the
machine. No instruction copies it: whatever else is written is a constant. So the function in a cell
is the one that the capabilities offer under the name of the cell (`Store.Confined`), whatever the
program is.

A call reads its arguments by the signature of the bound function, which has as many parameters as
the function takes. What the built-in functions say about a wrong number of arguments or a missing
one is therefore never heard. -/

namespace ThreeAddress

/-! ## Functions in the store -/

/-- The first capability that has a function of the given name is that of the namespace `space`,
    and `native` is that function. -/
def Capability.FirstMatch (capabilities : List Capability) (name space : String)
    (native : NativeFunction) : Prop :=
  ∃ (before : List Capability) (c : Capability) (after : List Capability),
    capabilities = before ++ c :: after ∧ c.space = space ∧ c.lookup? name = some native ∧
      ∀ earlier ∈ before, earlier.lookup? name = none

theorem Capability.firstMatch_of_find? {capabilities : List Capability} {name space : String}
    {native : NativeFunction} (h : find? capabilities name = some (space, native)) :
    FirstMatch capabilities name space native := by
  obtain ⟨before, c, after, hsplit, hc, hbefore⟩ := List.findSome?_eq_some_iff.1 h
  obtain ⟨native', hlookup, heq⟩ := Option.map_eq_some_iff.1 hc
  obtain ⟨rfl, rfl⟩ := Prod.mk.inj heq
  refine ⟨before, c, after, hsplit, rfl, hlookup, ?_⟩
  intro earlier hearlier
  exact Option.map_eq_none_iff.1 (hbefore earlier hearlier)

/-- The function is the one that the capabilities offer under the name, bound to that name with as
    many parameters as it takes. -/
structure BoundFunction.Confined (capabilities : List Capability) (name : String)
    (f : BoundFunction) : Prop where
  name_eq : f.name = name
  firstMatch : Capability.FirstMatch capabilities name f.space f.native
  arity : f.paramTypes.length = f.native.arity

/-- Every function in the store is the one that the capabilities offer under the name of its
    cell. -/
def Store.Confined (capabilities : List Capability) (s : Store) : Prop :=
  ∀ name f, s.get? name = some (.function f) → f.Confined capabilities name

/-- Without capabilities there are no functions. -/
theorem Store.Confined.get?_ne_function {s : Store} (h : s.Confined []) (name : String)
    (f : BoundFunction) : s.get? name ≠ some (.function f) := by
  intro hget
  obtain ⟨before, c, after, hnil, -⟩ := (h name f hget).firstMatch
  simp at hnil

theorem confined_of_bindFunction {capabilities : List Capability} {name : String}
    {returnType : ScalarType} {paramTypes : List ScalarType} {f : BoundFunction}
    (h : bindFunction capabilities name returnType paramTypes = .ok f) :
    f.Confined capabilities name := by
  unfold bindFunction at h
  split at h
  · cases h
  · next space native hfind =>
      split at h
      · next harity =>
          cases h
          exact ⟨rfl, Capability.firstMatch_of_find? hfind, harity.symm⟩
      · cases h

/-- Writing keeps a store confined if what is written is. -/
theorem Store.Confined.set {capabilities : List Capability} {s : Store} {name : String} {v : Value}
    (h : s.Confined capabilities) (hv : ∀ f, v = .function f → f.Confined capabilities name) :
    (s.set name v).Confined capabilities := by
  intro other f hget
  rw [get?_set] at hget
  split at hget
  · next heq =>
      subst heq
      exact hv f (Option.some.inj hget)
  · exact h other f hget

/-- An instruction keeps the store confined. -/
theorem Instr.Updates.confined {capabilities : List Capability} {s s' : Store} {i : Instr}
    (h : i.Updates capabilities s s') (hs : s.Confined capabilities) :
    s'.Confined capabilities := by
  cases h with
  | same hi => exact hs
  | allocate type name =>
      intro other f hget
      rw [Store.get?_allocate] at hget
      split at hget
      · cases hget
      · exact hs other f hget
  | result htarget htype => exact hs.set (by simp)
  | store hallocated hget hold hc => exact hs.set (by simp)
  | bind hf =>
      refine hs.set ?_
      rintro _ ⟨⟩
      exact confined_of_bindFunction hf

/-- Every function in the store of a machine that can be reached was taken from its capabilities. -/
theorem Machine.Reached.confined {program : Program} {capabilities : List Capability}
    {settings : Settings} {sink : Sink} {history : List Instr} {m : Machine}
    (h : Reached program capabilities settings sink history m) : m.store.Confined capabilities := by
  refine h.store_invariant (I := fun _ s => s.Confined capabilities) ?_ ?_
  · intro name f hget
    simp at hget
  · intro history s s' i _ hs hupdates
    exact hupdates.confined hs

/-! ## What built-in functions complain about -/

/-- A complaint about how many arguments a function was given. -/
def IsCountComplaint (reason : String) : Prop :=
  (∃ expected found : Nat, reason = s!"takes {expected} arguments, {found} given") ∨
    ∃ index : Nat, reason = s!"missing argument {index}"

/-- A complaint about what an argument is. -/
def IsKindComplaint (reason : String) : Prop := ∃ rest, reason = "argument " ++ rest

theorem IsKindComplaint.not_isCountComplaint {reason : String} (h : IsKindComplaint reason) :
    ¬ IsCountComplaint reason := by
  obtain ⟨rest, rfl⟩ := h
  -- the first letters differ
  rintro (⟨expected, found, heq⟩ | ⟨index, heq⟩)
  · have hhead := congrArg (fun s : String => s.toList.head?) heq
    simp [toString] at hhead
  · have hhead := congrArg (fun s : String => s.toList.head?) heq
    simp [toString] at hhead

namespace NativeFunction

/-- Given as many arguments as it takes, the function fails for no reason but those in `P`. -/
def FailsOnly (P : String → Prop) (f : NativeFunction) : Prop :=
  ∀ args : List Argument, args.length = f.arity → Raises P (f.apply args)

theorem FailsOnly.mono {P Q : String → Prop} {f : NativeFunction} (h : f.FailsOnly P)
    (hPQ : ∀ reason, P reason → Q reason) : f.FailsOnly Q :=
  fun args hargs => (h args hargs).mono hPQ

theorem FailsOnly.invoke {P : String → Prop} {f : NativeFunction} (h : f.FailsOnly P)
    {args : List Argument} (hargs : args.length = f.arity) : Raises P (f.invoke args) := by
  rw [NativeFunction.invoke, if_pos hargs]
  exact h args hargs

theorem numeric_raises {args : List Argument} {index : Nat} (h : index < args.length) :
    Raises IsKindComplaint (numeric args index) := by
  unfold numeric
  rw [List.getElem?_eq_getElem h]
  dsimp only
  split
  · exact Raises.ok _
  · refine Raises.error ⟨s!"{index} must be numeric, got {args[index].kind.name}", ?_⟩
    simp only [String.append_assoc]
    rfl

theorem unary_failsOnly (f : Float → Float) : (unary f).FailsOnly IsKindComplaint := by
  intro args hargs
  have hlength : args.length = 1 := hargs
  exact (numeric_raises (by omega)).bind fun _ _ => Raises.ok _

theorem binary_failsOnly (f : Float → Float → Float) : (binary f).FailsOnly IsKindComplaint := by
  intro args hargs
  have hlength : args.length = 2 := hargs
  refine (numeric_raises (by omega)).bind fun _ _ => ?_
  exact (numeric_raises (by omega)).bind fun _ _ => Raises.ok _

end NativeFunction

namespace Capability

theorem getenv_failsOnly (host : HostInfo) :
    NativeFunction.FailsOnly IsKindComplaint ⟨1, getenv host⟩ := by
  intro args hargs
  obtain ⟨arg, rfl⟩ := List.length_eq_one_iff.1 hargs
  dsimp only [getenv, List.head?_cons]
  split
  · exact Raises.ok _
  · next other _ _ =>
      refine Raises.error ⟨s!"0 must be a string, got {other.kind.name}", ?_⟩
      change "argument " ++ "0 must be a string, got " ++ other.kind.name = _
      rw [String.append_assoc]
      rfl
  · next hnone => cases hnone

/-- Why built-in functions fail: because of what an argument is, or because the host cannot tell the
    working directory. -/
def IsBuiltinReason (host : HostInfo) (reason : String) : Prop :=
  IsKindComplaint reason ∨ host.directory = .error reason

theorem ofTable_failsOnly {P : String → Prop} {space name : String}
    {functions : List (String × NativeFunction)} {native : NativeFunction}
    (hfunctions : ∀ entry ∈ functions, entry.2.FailsOnly P)
    (h : (ofTable space functions).lookup? name = some native) : native.FailsOnly P := by
  obtain ⟨left, right, hsplit, -⟩ := List.lookup_eq_some_iff.1 h
  exact hfunctions (name, native) (by simp [hsplit])

theorem math_failsOnly {name : String} {native : NativeFunction}
    (h : math.lookup? name = some native) : native.FailsOnly IsKindComplaint :=
  ofTable_failsOnly (by simp [NativeFunction.unary_failsOnly, NativeFunction.binary_failsOnly]) h

theorem os_failsOnly {host : HostInfo} {name : String} {native : NativeFunction}
    (h : (os host).lookup? name = some native) : native.FailsOnly (IsBuiltinReason host) := by
  have hgetpid : NativeFunction.FailsOnly (IsBuiltinReason host)
      ⟨0, fun _ => .ok (.int host.pid)⟩ := by
    intro args hargs
    exact Raises.ok _
  have hgetcwd : NativeFunction.FailsOnly (IsBuiltinReason host)
      ⟨0, fun _ => host.directory.map .string⟩ := by
    intro args hargs
    exact Raises.map fun reason hreason => Or.inr hreason
  have hgetenv := (getenv_failsOnly host).mono (Q := IsBuiltinReason host) fun _ => Or.inl
  exact ofTable_failsOnly (by simp [hgetpid, hgetcwd, hgetenv]) h

/-- What the built-in capabilities offer fails for no other reasons. -/
theorem builtin_failsOnly {host : HostInfo} {capabilities : List Capability} {name space : String}
    {native : NativeFunction} (hcapabilities : ∀ c ∈ capabilities, c ∈ builtin host)
    (h : FirstMatch capabilities name space native) : native.FailsOnly (IsBuiltinReason host) := by
  obtain ⟨before, c, after, rfl, -, hlookup, -⟩ := h
  have hc := hcapabilities c (by simp)
  simp only [builtin, List.mem_cons, List.not_mem_nil, or_false] at hc
  rcases hc with rfl | rfl
  · exact (math_failsOnly hlookup).mono fun _ => Or.inl
  · exact os_failsOnly hlookup

end Capability

/-! ## Calls -/

namespace Machine

variable {program : Program} {capabilities : List Capability} {settings : Settings} {sink : Sink}
  {history : List Instr} {m : Machine}

/-- A call reports what became of the function, if that is a failure. -/
theorem step_call_snd {function target : String} {args : List String}
    (h : m.next? = some (.call function args target)) :
    m.step.2 = (callFunction m.store function args).map fun _ => () := by
  rw [step_of_next? h]
  simp only [execute, Instr.effect]
  cases callFunction m.store function args <;> rfl

/-- A call fails because of its operands, or it comes to invoking a function of the capabilities
    with as many arguments as that takes. -/
theorem Reached.call_cases (hm : Reached program capabilities settings sink history m)
    {function target : String} {args : List String}
    (hi : m.next? = some (.call function args target)) :
    (∃ fault, m.step.2 = .error fault ∧ fault.IsOperand) ∨
      ∃ f values, Invokes m.store function args f values ∧ f.Confined capabilities function ∧
        values.length = f.native.arity ∧
        m.step.2 = (f.conclude function (f.native.invoke (values.map .scalar))).map
          fun _ => () := by
  rw [step_call_snd hi]
  rcases callFunction_cases m.store function args with
    ⟨fault, hcall, hfault⟩ | ⟨f, values, hinvokes, hcall⟩
  · refine .inl ⟨fault, ?_, hfault⟩
    rw [hcall]
    rfl
  · have hconfined := hm.confined function f hinvokes.bound
    refine .inr ⟨f, values, hinvokes, hconfined, ?_, ?_⟩
    · rw [hinvokes.length_values, hconfined.arity]
    · rw [hcall]

/-- If a function fails that was called, then because of what it was invoked on. -/
theorem Reached.invokes_of_callFailed (hm : Reached program capabilities settings sink history m)
    {function target : String} {args : List String}
    (hi : m.next? = some (.call function args target)) {name reason : String}
    (hfailed : m.step.2 = .error (.callFailed name reason)) :
    ∃ f values, Invokes m.store function args f values ∧ f.Confined capabilities function ∧
      values.length = f.native.arity ∧
      f.native.invoke (values.map .scalar) = .error reason := by
  rcases hm.call_cases hi with
    ⟨fault, hstep, hfault⟩ | ⟨f, values, hinvokes, hconfined, hlength, hstep⟩
  · rw [hfailed] at hstep
    cases hstep
    cases hfault
  · refine ⟨f, values, hinvokes, hconfined, hlength, ?_⟩
    rw [hfailed] at hstep
    cases hconclude : f.conclude function (f.native.invoke (values.map .scalar)) with
    | ok c =>
        rw [hconclude] at hstep
        cases hstep
    | error fault =>
        rw [hconclude] at hstep
        cases hstep
        exact BoundFunction.of_conclude_eq_callFailed hconclude

/-- A function in the store is the one that the capabilities offer under the name of its cell. A
    call fails because of its operands, or it comes to invoking such a function, with as many
    arguments as that takes; if the function fails, it does not complain about their number, unless
    these are the words in which the host itself denies the working directory. Without capabilities
    there are no functions, and no call succeeds. -/
theorem functions_confined {host : HostInfo}
    (hcapabilities : ∀ c ∈ capabilities, c ∈ Capability.builtin host)
    (hm : Reached program capabilities settings sink history m) :
    m.store.Confined capabilities ∧
      (∀ function args target, m.next? = some (.call function args target) →
        (∃ fault, m.step.2 = .error fault ∧ fault.IsOperand) ∨
          ∃ f values, Invokes m.store function args f values ∧
            f.Confined capabilities function ∧ values.length = f.native.arity ∧
            m.step.2 = (f.conclude function (f.native.invoke (values.map .scalar))).map
              fun _ => ()) ∧
      (∀ function args target name reason, m.next? = some (.call function args target) →
        m.step.2 = .error (.callFailed name reason) → IsCountComplaint reason →
          host.directory = .error reason) ∧
      (capabilities = [] → (∀ name f, m.store.get? name ≠ some (.function f)) ∧
        ∀ function args target, m.next? = some (.call function args target) →
          m.step.2 ≠ .ok ()) := by
  refine ⟨hm.confined, fun function args target hi => hm.call_cases hi, ?_, ?_⟩
  · intro function args target name reason hi hfailed hcount
    obtain ⟨f, values, -, hconfined, hlength, hinvoke⟩ := hm.invokes_of_callFailed hi hfailed
    have hfails := Capability.builtin_failsOnly hcapabilities hconfined.firstMatch
    rcases hfails.invoke (by simpa using hlength) reason hinvoke with hkind | hdirectory
    · exact absurd hcount hkind.not_isCountComplaint
    · exact hdirectory
  · rintro rfl
    refine ⟨hm.confined.get?_ne_function, ?_⟩
    intro function args target hi hok
    rcases hm.call_cases hi with ⟨fault, hstep, -⟩ | ⟨f, values, hinvokes, -⟩
    · rw [hok] at hstep
      cases hstep
    · exact hm.confined.get?_ne_function function f hinvokes.bound

/-- Binds a function and calls it. -/
def rootOfFour : Machine :=
  create ⟨#[.bind "sqrt" .float [.float], .literal .float (.float 4) "x",
    .call "sqrt" ["x"] "y"]⟩ [.math] {} {}

theorem functions_confined_rootOfFour :
    (rootOfFour.reset.after 2).next? = some (.call "sqrt" ["x"] "y") ∧
      (rootOfFour.reset.after 2).store.Confined [.math] ∧
      ∃ f values, Invokes (rootOfFour.reset.after 2).store "sqrt" ["x"] f values ∧
        f.Confined [.math] "sqrt" ∧ values.length = f.native.arity := by
  have hcapabilities : ∀ c ∈ [Capability.math], c ∈ Capability.builtin .bare := by
    simp [Capability.builtin]
  obtain ⟨history, hm⟩ :=
    (Reached.create : Reached rootOfFour.program [.math] {} {} [] rootOfFour).reset.after 2
  have hi : (rootOfFour.reset.after 2).next? = some (.call "sqrt" ["x"] "y") := rfl
  have hok : (rootOfFour.reset.after 2).step.2 = .ok () := rfl
  obtain ⟨hconfined, hcalls, -⟩ := functions_confined hcapabilities hm
  refine ⟨hi, hconfined, ?_⟩
  rcases hcalls _ _ _ hi with ⟨fault, hstep, -⟩ | ⟨f, values, hinvokes, hf, hlength, -⟩
  · cases hok.symm.trans hstep
  · exact ⟨f, values, hinvokes, hf, hlength⟩

end Machine

end ThreeAddress
