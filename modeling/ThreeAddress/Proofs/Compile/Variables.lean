import ThreeAddress.Proofs.Lowering.Declarations

set_option autoImplicit false

/-! # Variables of compiled programs

Variables, temporaries and functions share one store, and writing a cell does not ask what the cell
is. What keeps them apart is which names compiled code writes. A variable changes where the program
declares it or assigns to it, unless the program gives a variable the name of a temporary or of one
of its functions.

No type checker is needed for the types of cells: without such a clash of names, a variable has the
type of its latest declaration, and a temporary the type that its name tells, however the source is
decorated (`Store.Typed`). -/

namespace ThreeAddress

/-! ## What changes a variable -/

/-- In a run of a compiled program, an instruction that is neither a declaration of the variable nor
    an assignment to it leaves the variable as it is, unless the program clashes with itself: it
    declares the variable under the name of a temporary, and the instruction computes into that
    temporary, or it declares the variable as a function as well, and the instruction binds the
    function. -/
theorem variable_changes_only_by_store {p : Source.Program} {P : Program}
    {capabilities : List Capability} {settings : Settings} {sink : Sink} {history : List Instr}
    {m : Machine} {i : Instr} {x : String} (hP : p.compile = .ok P)
    (hm : Machine.Reached P capabilities settings sink history m)
    (hx : m.store.isAllocated x = true) (hi : m.next? = some i)
    (halloc : ∀ type, i ≠ .alloc type x) (hstore : ∀ type source, i ≠ .store type source x) :
    m.step.1.store.get? x = m.store.get? x ∨
      x ∈ p.variables ∧
        (IsTemporary x ∧ i.target? = some x ∨
          x ∈ p.functions ∧ ∃ returnType paramTypes, i = .bind x returnType paramTypes) := by
  by_cases hwritten : i.written? = some x
  · refine .inr ⟨hm.mem_variables hP hx, ?_⟩
    have hrespects := Source.Program.compile_respects hP i (hm.mem_code hi)
    have htarget (h : i.target? = some x) : IsTemporary x ∧ i.target? = some x := by
      obtain ⟨type, n, hname, -⟩ := hrespects.computes (by simp [h])
      exact ⟨⟨type, n, Option.some.inj (h.symm.trans hname)⟩, h⟩
    cases i with
    | alloc type name =>
        cases hwritten
        exact absurd rfl (halloc type)
    | store type source name =>
        cases hwritten
        exact absurd rfl (hstore type source)
    | bind name returnType paramTypes =>
        cases hwritten
        exact .inr ⟨hrespects.bind _ _ _ rfl, returnType, paramTypes, rfl⟩
    | _ => exact .inl (htarget hwritten)
  · exact .inl ((Machine.step_updates hi).get?_of_ne hwritten)

namespace Source.Program

/-- Declares a variable and computes something. -/
def computing (x : String) : Source.Program :=
  ⟨[.varDecl 1 x (some .int) none, .eval 2 (.ofConstant (.int 5))]⟩

/-- Declares a variable and a function of one name. -/
def binding (x : String) : Source.Program :=
  ⟨[.varDecl 1 x (some .int) none, .declare 2 ⟨x, [⟨"angle", .float⟩], .float⟩]⟩

end Source.Program

theorem variable_changes_only_by_store_computing :
    ∃ P history m, (Source.Program.computing "x").compile = .ok P ∧
      Machine.Reached P [] {} {} history m ∧ m.store.isAllocated "x" = true ∧
      m.next? = some (.literal .int (.int 5) "__int_0") ∧
      m.step.1.store.get? "x" = m.store.get? "x" := by
  have hP : (Source.Program.computing "x").compile
      = .ok ⟨#[.alloc .int "x", .literal .int (.int 5) "__int_0"]⟩ := by decide +kernel
  have hm := (Machine.Reached.create.reset.step :
    Machine.Reached ⟨#[.alloc .int "x", .literal .int (.int 5) "__int_0"]⟩ [] {} {} _ _)
  refine ⟨_, _, _, hP, hm, by decide +kernel, rfl, ?_⟩
  have hchange := variable_changes_only_by_store (i := .literal .int (.int 5) "__int_0") (x := "x")
    hP hm (by decide +kernel) rfl (by simp) (by simp)
  rcases hchange with hsame | ⟨-, ⟨-, htarget⟩ | ⟨-, returnType, paramTypes, hbind⟩⟩
  · exact hsame
  · exact absurd htarget (by decide)
  · cases hbind

/-- A run of the compiled program takes a step that changes the variable and is neither a
    declaration of it nor an assignment to it. -/
def Source.Program.Clobbers (p : Source.Program) (capabilities : List Capability) (x : String) :
    Prop :=
  ∃ P history m i, p.compile = .ok P ∧ Machine.Reached P capabilities {} {} history m ∧
    m.store.isAllocated x = true ∧ m.next? = some i ∧ (∀ type, i ≠ .alloc type x) ∧
    (∀ type source, i ≠ .store type source x) ∧ m.step.1.store.get? x ≠ m.store.get? x

/-- Both clashes of names do happen. -/
theorem variables_clobbered :
    (Source.Program.computing "__int_0").Clobbers [] "__int_0" ∧
      (Source.Program.binding "sin").Clobbers [.math] "sin" := by
  constructor
  · refine ⟨⟨#[.alloc .int "__int_0", .literal .int (.int 5) "__int_0"]⟩, _, _,
      .literal .int (.int 5) "__int_0", by decide +kernel, .step (.reset .create),
      by decide +kernel, rfl, by simp, by simp, ?_⟩
    intro h
    have hprint := congrArg (Option.map Value.print) h
    revert hprint
    decide +kernel
  · refine ⟨⟨#[.alloc .int "sin", .bind "sin" .float [.float]]⟩, _, _,
      .bind "sin" .float [.float], by decide +kernel, .step (.reset .create), by decide +kernel,
      rfl, by simp, by simp, ?_⟩
    intro h
    have hkind := congrArg (Option.map Value.kind) h
    revert hkind
    decide +kernel

/-! ## Types of cells -/

/-- The type with which an instruction declares a variable, if it does. -/
def Instr.declares? (x : String) : Instr → Option ScalarType
  | .alloc type name => if name = x then some type else none
  | _ => none

theorem Instr.declares?_eq_none {i : Instr} (h : ∀ type name, i ≠ .alloc type name) (x : String) :
    i.declares? x = none := by
  cases i with
  | alloc type name => exact absurd rfl (h type name)
  | _ => rfl

/-- The type of the latest declaration of a variable; the latest instruction comes first. -/
def latestType? (x : String) (history : List Instr) : Option ScalarType :=
  history.findSome? (Instr.declares? x)

theorem latestType?_cons {x : String} {i : Instr} (h : i.declares? x = none)
    (history : List Instr) : latestType? x (i :: history) = latestType? x history := by
  rw [latestType?, List.findSome?_cons, h]
  rfl

/-- The value is a constant of the type. -/
def Value.IsOf (v : Value) (type : ScalarType) : Prop := ∃ c, v = .scalar c ∧ c.type = type

namespace Store

/-- A declared variable has the type of its latest declaration, and a temporary to which the code
    does not put the result of a call has the type that its name tells. -/
structure Typed (code : Array Instr) (history : List Instr) (s : Store) : Prop where
  declared : ∀ x, s.isAllocated x = true →
    ∃ v type, s.get? x = some v ∧ latestType? x history = some type ∧ v.IsOf type
  temporary : ∀ type n v, s.get? (Temporaries.name type n) = some v →
    (∀ function args, .call function args (Temporaries.name type n) ∉ code) → v.IsOf type

variable {code : Array Instr} {history : List Instr} {s s' : Store} {i : Instr}

theorem Typed.empty (code : Array Instr) : Store.empty.Typed code [] where
  declared := by simp
  temporary := by simp

/-- Whatever is not a declaration may change the history. -/
theorem Typed.cons (hs : s.Typed code history) (hi : ∀ type name, i ≠ .alloc type name) :
    s.Typed code (i :: history) where
  declared := by
    intro x hx
    rw [latestType?_cons (Instr.declares?_eq_none hi x)]
    exact hs.declared x hx
  temporary := hs.temporary

/-- A cell may be written if that keeps its type: that of its declaration, if it is a variable, and
    that of its name, if it is a temporary. -/
theorem Typed.set (hs : s.Typed code history) {name : String} {v : Value}
    (hdeclared : s.isAllocated name = true → ∀ type, latestType? name history = some type →
      v.IsOf type)
    (htemporary : ∀ type n, name = Temporaries.name type n →
      (∀ function args, .call function args name ∉ code) → v.IsOf type) :
    (s.set name v).Typed code history where
  declared := by
    intro x hx
    obtain ⟨old, type, hget, hlatest, hold⟩ := hs.declared x hx
    by_cases hname : name = x
    · subst hname
      exact ⟨v, type, get?_set_self s name v, hlatest, hdeclared hx type hlatest⟩
    · exact ⟨old, type, (get?_set_of_ne s v hname).trans hget, hlatest, hold⟩
  temporary := by
    intro type n v' hget hcall
    by_cases hname : name = Temporaries.name type n
    · rw [hname, get?_set_self] at hget
      cases hget
      exact htemporary type n hname (hname ▸ hcall)
    · rw [get?_set_of_ne s v hname] at hget
      exact hs.temporary type n v' hget hcall

theorem Typed.allocate (hs : s.Typed code history) (type : ScalarType) {name : String}
    (hname : ¬ IsTemporary name) :
    (s.allocate name type).Typed code (.alloc type name :: history) where
  declared := by
    intro x hx
    by_cases hx' : name = x
    · subst hx'
      refine ⟨.scalar (.zero type), type, ?_, ?_, _, rfl, Constant.type_zero type⟩
      · rw [get?_allocate, if_pos rfl]
      · simp [latestType?, Instr.declares?]
    · rw [isAllocated_allocate, decide_eq_false hx', Bool.false_or] at hx
      have hdeclares : (Instr.alloc type name).declares? x = none := if_neg hx'
      rw [get?_allocate, if_neg hx', latestType?_cons hdeclares]
      exact hs.declared x hx
  temporary := by
    intro type' n v hget
    have hne : name ≠ Temporaries.name type' n := fun heq => hname ⟨type', n, heq⟩
    rw [get?_allocate, if_neg hne] at hget
    exact hs.temporary type' n v hget

/-- An instruction of a program without clashes of names keeps the cells typed. -/
theorem Typed.update {capabilities : List Capability} {vars funs : List String}
    (hvars : Source.Proper vars) (hfuns : Source.Proper funs) (hdisjoint : ∀ x ∈ vars, x ∉ funs)
    (hs : s.Typed code history) (hallocated : ∀ x, s.isAllocated x = true → x ∈ vars)
    (hi : i ∈ code) (hrespects : i.Respects vars funs) (h : i.Updates capabilities s s') :
    s'.Typed code (i :: history) := by
  cases h with
  | same hne => exact hs.cons hne
  | allocate type name => exact hs.allocate type (hvars name (hrespects.alloc type name rfl))
  | @result _ target c htarget htype =>
      -- a result goes to a temporary, and a call is the only one that may have another type
      obtain ⟨type, n, hname, hresult⟩ := hrespects.computes (by simp [htarget])
      rw [htarget] at hname
      cases hname
      refine (hs.cons ?_).set ?_ ?_
      · rintro type' name rfl
        cases htarget
      · intro hx
        exact absurd ⟨type, n, rfl⟩ (hvars _ (hallocated _ hx))
      · intro type' n' heq hcall
        obtain ⟨rfl, rfl⟩ := Temporaries.name_inj.1 heq
        refine ⟨c, rfl, ?_⟩
        cases i with
        | call function args target =>
            cases htarget
            exact absurd hi (hcall function args)
        | literal | load | binary | unary | compare =>
            exact (htype _ rfl).trans (hresult _ rfl)
        | _ => cases htarget
  | @store type source name old c hx hget hold hc =>
      refine (hs.cons (by simp)).set ?_ ?_
      · intro _ type' hlatest
        rw [latestType?_cons rfl] at hlatest
        obtain ⟨v, type'', hv, hlatest', hof⟩ := hs.declared name hx
        -- the variable had the type of the store already
        rw [hget] at hv
        cases hv
        obtain ⟨_, ⟨⟩, htype⟩ := hof
        rw [hlatest] at hlatest'
        cases hlatest'
        exact ⟨c, rfl, by rw [hc, ← hold, htype]⟩
      · intro type' n heq
        exact absurd ⟨type', n, heq⟩ (hvars name (hallocated name hx))
  | @bind name returnType paramTypes f hf =>
      have hname := hrespects.bind _ _ _ rfl
      refine (hs.cons (by simp)).set ?_ ?_
      · intro hx
        exact absurd hname (hdisjoint name (hallocated name hx))
      · intro type n heq
        exact absurd ⟨type, n, heq⟩ (hfuns name hname)

end Store

/-- In every state of a run of a compiled program without clashes of names, a declared variable has
    the type of its latest declaration, and a temporary to which no call puts its result has the
    type that its name tells. The types in the source need not be right. -/
theorem compiled_store_typed {p : Source.Program} {P : Program} {capabilities : List Capability}
    {settings : Settings} {sink : Sink} {history : List Instr} {m : Machine}
    (hP : p.compile = .ok P) (hproper : Source.Proper (Source.namesAll p.statements))
    (hdisjoint : ∀ x ∈ p.variables, x ∉ p.functions)
    (hm : Machine.Reached P capabilities settings sink history m) :
    m.store.Typed P.code history := by
  have hvars : Source.Proper p.variables :=
    fun x hx => hproper x (Source.Program.mem_names_of_mem_variables hx)
  have hfuns : Source.Proper p.functions :=
    fun x hx => hproper x (Source.Program.mem_names_of_mem_functions hx)
  have hinv := hm.store_invariant
    (I := fun history s => s.Typed P.code history ∧ ∀ x, s.isAllocated x = true → x ∈ p.variables)
    ⟨.empty _, by simp⟩ ?_
  · exact hinv.1
  · intro history s s' i hi hs hupdates
    have hrespects := Source.Program.compile_respects hP i hi
    exact ⟨hs.1.update hvars hfuns hdisjoint hs.2 hi hrespects hupdates,
      hupdates.mem_of_isAllocated hrespects hs.2⟩

/-- Declares a variable twice, with different types, and decorates a sum with a wrong type. -/
def Source.Program.redeclaring : Source.Program := ⟨[
  .varDecl 1 "x" (some .int) none,
  .eval 2 (.binary (some .bool) .add (.ofConstant (.int 1)) (.ofConstant (.int 2))),
  .varDecl 3 "x" (some .string) (some (.ofConstant (.string "two")))]⟩

/-- The code of it. -/
def Program.redeclaring : Program := ⟨#[
  .alloc .int "x",
  .literal .int (.int 1) "__int_0",
  .literal .int (.int 2) "__int_1",
  .binary .add .int "__int_0" "__int_1" "__int_2",
  .alloc .string "x",
  .literal .string (.string "two") "__string_0",
  .store .string "__string_0" "x"]⟩

theorem compiled_store_typed_redeclaring :
    ∃ P history m, Source.Program.redeclaring.compile = .ok P ∧
      Machine.Reached P [] {} {} history m ∧ m.store.isAllocated "x" = true ∧
      latestType? "x" history = some .string ∧ m.store.Typed P.code history := by
  have hP : Source.Program.redeclaring.compile = .ok .redeclaring := by decide +kernel
  have hproper : Source.Proper (Source.namesAll Source.Program.redeclaring.statements) :=
    Source.proper_of_head (by decide)
  have hdisjoint : ∀ x ∈ Source.Program.redeclaring.variables,
      x ∉ Source.Program.redeclaring.functions := by decide
  have hm := (Machine.Reached.create.reset.step.step.step.step.step.step.step :
    Machine.Reached .redeclaring [] {} {} _ _)
  refine ⟨_, _, _, hP, hm, ?_, ?_, compiled_store_typed hP hproper hdisjoint hm⟩
  · decide +kernel
  · decide +kernel

end ThreeAddress
