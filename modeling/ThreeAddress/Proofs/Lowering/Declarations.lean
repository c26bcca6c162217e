import ThreeAddress.Proofs.Lowering.Fresh
import ThreeAddress.Proofs.Lowering.Linkable
import ThreeAddress.Proofs.Machine.Footprint

set_option autoImplicit false

/-! # What compiled code declares and writes

The names that compiled code declares as variables or binds to functions are those that the program
declares, and whatever it computes goes into temporaries, each of which tells the type of its value.
`Instr.Respects` says so of a single instruction; a machine that runs the program has therefore no
variables but declared ones (`Machine.Reached.mem_variables`). -/

namespace ThreeAddress

namespace Source

/-! ## Declared names -/

/-- The variable that a statement declares. -/
def Stmt.variable? : Stmt → Option String
  | .constDecl _ name _ _ => some name
  | .varDecl _ name _ _ => some name
  | _ => none

/-- The function that a statement declares. -/
def Stmt.function? : Stmt → Option String
  | .declare _ prototype => some prototype.name
  | _ => none

/-- The variables that a program declares, at whatever place. -/
def Program.variables (p : Program) : List String :=
  (withinAll p.statements).filterMap Stmt.variable?

/-- The functions that a program declares, at whatever place. -/
def Program.functions (p : Program) : List String :=
  (withinAll p.statements).filterMap Stmt.function?

mutual

/-- The names of the statements inside a statement are among its own. -/
theorem Stmt.names_of_mem_within {x : String} {s' : Stmt} (hx : x ∈ s'.names) :
    (s : Stmt) → s' ∈ s.within → x ∈ s.names
  | .cond line condition thenBranch none, h => by
      rw [Stmt.within, List.mem_cons] at h
      rcases h with rfl | h
      · exact hx
      · have hthen := namesAll_of_mem_within hx thenBranch h
        simp [Stmt.names, hthen]
  | .cond line condition thenBranch (some elseBranch), h => by
      rw [Stmt.within, List.mem_cons, List.mem_append] at h
      rcases h with rfl | h | h
      · exact hx
      · have hthen := namesAll_of_mem_within hx thenBranch h
        simp [Stmt.names, hthen]
      · have helse := namesAll_of_mem_within hx elseBranch h
        simp [Stmt.names, helse]
  | .loop line condition body, h => by
      rw [Stmt.within, List.mem_cons] at h
      rcases h with rfl | h
      · exact hx
      · have hbody := namesAll_of_mem_within hx body h
        simp [Stmt.names, hbody]
  | .constDecl .., h | .varDecl .., h | .assign .., h | .print .., h | .declare .., h
  | .eval .., h => by
      rw [Stmt.within, List.mem_singleton] at h
      · exact h ▸ hx
      all_goals simp

theorem namesAll_of_mem_within {x : String} {s' : Stmt} (hx : x ∈ s'.names) :
    (stmts : List Stmt) → s' ∈ withinAll stmts → x ∈ namesAll stmts
  | [], h => by simp [withinAll] at h
  | s :: rest, h => by
      rw [withinAll, List.mem_append] at h
      rw [namesAll, List.mem_append]
      rcases h with h | h
      · exact .inl (Stmt.names_of_mem_within hx s h)
      · exact .inr (namesAll_of_mem_within hx rest h)

end

theorem Program.mem_names_of_mem_variables {p : Program} {x : String} (h : x ∈ p.variables) :
    x ∈ namesAll p.statements := by
  obtain ⟨s, hs, hx⟩ := List.mem_filterMap.1 h
  refine namesAll_of_mem_within ?_ p.statements hs
  cases s with
  | constDecl line name type value =>
      cases hx
      simp [Stmt.names]
  | varDecl line name type value =>
      cases hx
      cases value <;> simp [Stmt.names]
  | _ => cases hx

theorem Program.mem_names_of_mem_functions {p : Program} {x : String} (h : x ∈ p.functions) :
    x ∈ namesAll p.statements := by
  obtain ⟨s, hs, hx⟩ := List.mem_filterMap.1 h
  refine namesAll_of_mem_within ?_ p.statements hs
  cases s with
  | declare line prototype =>
      cases hx
      simp [Stmt.names]
  | _ => cases hx

end Source

/-! ## Code of expressions -/

/-- The instruction computes something, and the temporary it goes to tells the type of it. -/
def Instr.Computes (i : Instr) : Prop :=
  ∃ type n, i.target? = some (Temporaries.name type n) ∧
    ∀ type', i.resultType? = some type' → type' = type

namespace Source

theorem Emission.compute_computes {code : List Instr} {t : Temporaries} {type : ScalarType}
    {instr : String → Instr} (hcode : ∀ i ∈ code, i.Computes)
    (htarget : ∀ target, (instr target).target? = some target)
    (htype : ∀ target type', (instr target).resultType? = some type' → type' = type) :
    ∀ i ∈ (Emission.compute code t type instr).code, i.Computes := by
  simp only [Emission.compute, List.forall_mem_append, List.forall_mem_singleton]
  exact ⟨hcode, type, _, htarget _, htype _⟩

mutual

/-- Expressions are code that computes. -/
theorem Expr.emit_computes (t : Temporaries) : (e : Expr) → ∀ i ∈ (e.emit t).code, i.Computes
  | .literal _ _ => by
      unfold Expr.emit
      refine Emission.compute_computes (List.forall_mem_nil _) (fun _ => rfl) ?_
      simp [Instr.resultType?]
  | .binary _ _ left right => by
      have hl := left.emit_computes t
      have hr := right.emit_computes (left.emit t).temporaries
      unfold Expr.emit
      refine Emission.compute_computes (List.forall_mem_append.2 ⟨hl, hr⟩) (fun _ => rfl) ?_
      simp [Instr.resultType?]
  | .relational _ _ left right => by
      have hl := left.emit_computes t
      have hr := right.emit_computes (left.emit t).temporaries
      unfold Expr.emit
      refine Emission.compute_computes (List.forall_mem_append.2 ⟨hl, hr⟩) (fun _ => rfl) ?_
      simp [Instr.resultType?]
  | .unary _ _ operand => by
      unfold Expr.emit
      refine Emission.compute_computes (operand.emit_computes t) (fun _ => rfl) ?_
      simp [Instr.resultType?]
  | .load _ _ => by
      unfold Expr.emit
      refine Emission.compute_computes (List.forall_mem_nil _) (fun _ => rfl) ?_
      simp [Instr.resultType?]
  | .group _ inner => by
      unfold Expr.emit
      exact inner.emit_computes t
  | .call _ _ args => by
      unfold Expr.emit
      refine Emission.compute_computes (emitArgs_computes t args) (fun _ => rfl) ?_
      simp [Instr.resultType?]

theorem emitArgs_computes (t : Temporaries) :
    (args : List Expr) → ∀ i ∈ (emitArgs t args).code, i.Computes
  | [] => by simp [emitArgs]
  | e :: rest => by
      have he := e.emit_computes t
      have hrest := emitArgs_computes (e.emit t).temporaries rest
      simp only [emitArgs, List.forall_mem_append]
      exact ⟨he, hrest⟩

end

end Source

/-! ## Code of programs -/

/-- The instruction declares none but the given variables, binds none but the given functions, and
    what it computes goes to a temporary that tells the type of it. -/
structure Instr.Respects (vars funs : List String) (i : Instr) : Prop where
  alloc : ∀ type name, i = .alloc type name → name ∈ vars
  bind : ∀ name returnType paramTypes, i = .bind name returnType paramTypes → name ∈ funs
  computes : i.target?.isSome = true → i.Computes

theorem Instr.Computes.respects {i : Instr} (h : i.Computes) (vars funs : List String) :
    i.Respects vars funs where
  alloc := by
    obtain ⟨type, n, htarget, -⟩ := h
    rintro type' name rfl
    cases htarget
  bind := by
    obtain ⟨type, n, htarget, -⟩ := h
    rintro name returnType paramTypes rfl
    cases htarget
  computes := fun _ => h

/-- An instruction that neither declares nor binds nor computes. -/
theorem Instr.respects_of_target?_eq_none {i : Instr} (h : i.target? = none)
    (halloc : ∀ type name, i ≠ .alloc type name)
    (hbind : ∀ name returnType paramTypes, i ≠ .bind name returnType paramTypes)
    (vars funs : List String) : i.Respects vars funs where
  alloc := fun type name hi => absurd hi (halloc type name)
  bind := fun name returnType paramTypes hi => absurd hi (hbind name returnType paramTypes)
  computes := by simp [h]

theorem Instr.respects_alloc {vars : List String} (funs : List String) (type : ScalarType)
    {name : String} (h : name ∈ vars) : (Instr.alloc type name).Respects vars funs where
  alloc := by
    rintro _ _ ⟨⟩
    exact h
  bind := by simp
  computes := by simp [target?]

theorem Instr.respects_bind (vars : List String) {funs : List String} {name : String}
    (returnType : ScalarType) (paramTypes : List ScalarType) (h : name ∈ funs) :
    (Instr.bind name returnType paramTypes).Respects vars funs where
  alloc := by simp
  bind := by
    rintro _ _ _ ⟨⟩
    exact h
  computes := by simp [target?]

namespace Source

/-- The code of a statement that stays in one block declares what the statement does. -/
theorem Stmt.emit_respects {vars funs : List String} {s : Stmt}
    (hvariable : ∀ x, s.variable? = some x → x ∈ vars)
    (hfunction : ∀ x, s.function? = some x → x ∈ funs) (t : Temporaries) :
    ∀ i ∈ (s.emit t).code, i.Respects vars funs := by
  have hexpr (value : Expr) : ∀ i ∈ (value.emit t).code, i.Respects vars funs :=
    fun i hi => (value.emit_computes t i hi).respects _ _
  have hbehind (value : Expr) {i : Instr} (hi : i.Respects vars funs) :
      ∀ j ∈ (value.emit t).code ++ [i], j.Respects vars funs :=
    List.forall_mem_append.2 ⟨hexpr value, List.forall_mem_singleton.2 hi⟩
  have hstore (type : ScalarType) (source name : String) :
      (Instr.store type source name).Respects vars funs :=
    Instr.respects_of_target?_eq_none rfl (by simp) (by simp) _ _
  have hdecl (type : ScalarType) {name : String} (value : Expr) (hname : name ∈ vars) :
      ∀ i ∈ (emitDeclaration t type name value).code, i.Respects vars funs :=
    List.forall_mem_cons.2 ⟨Instr.respects_alloc _ _ hname, hbehind value (hstore _ _ _)⟩
  cases s with
  | constDecl line name type value => exact hdecl _ value (hvariable name rfl)
  | varDecl line name type value =>
      cases value with
      | none => exact List.forall_mem_singleton.2 (Instr.respects_alloc _ _ (hvariable name rfl))
      | some value => exact hdecl _ value (hvariable name rfl)
  | assign line name value => exact hbehind value (hstore _ _ _)
  | print line value =>
      exact hbehind value (Instr.respects_of_target?_eq_none rfl (by simp) (by simp) _ _)
  | declare line prototype =>
      exact List.forall_mem_singleton.2 (Instr.respects_bind _ _ _ (hfunction _ rfl))
  | eval line value => exact hexpr value
  | cond line condition thenBranch elseBranch => exact List.forall_mem_nil _
  | loop line condition body => exact List.forall_mem_nil _

/-- A compiled program declares the variables and binds the functions that the source does, and
    computes into temporaries only. -/
theorem Program.compile_respects {p : Program} {P : ThreeAddress.Program} (hP : p.compile = .ok P) :
    ∀ i ∈ P.code, i.Respects p.variables p.functions := by
  refine forall_mem_of_compile hP (fun _ _ e _ t i hi => (e.emit_computes t i hi).respects _ _)
    (fun s hs => Stmt.emit_respects (fun x hx => ?_) fun x hx => ?_) fun i hjump => ?_
  · exact List.mem_filterMap.2 ⟨s, hs, hx⟩
  · exact List.mem_filterMap.2 ⟨s, hs, hx⟩
  · cases i with
    | jump label => exact Instr.respects_of_target?_eq_none rfl (by simp) (by simp) _ _
    | branch test ifTrue ifFalse =>
        exact Instr.respects_of_target?_eq_none rfl (by simp) (by simp) _ _
    | _ => cases hjump

end Source

/-! ## Variables of a running program -/

/-- Only a declaration allocates. -/
theorem Instr.Updates.mem_of_isAllocated {capabilities : List Capability} {s s' : Store} {i : Instr}
    {vars funs : List String} (h : i.Updates capabilities s s')
    (hi : i.Respects vars funs) (hs : ∀ x, s.isAllocated x = true → x ∈ vars) :
    ∀ x, s'.isAllocated x = true → x ∈ vars := by
  intro x hx
  cases h with
  | allocate type name =>
      rw [Store.isAllocated_allocate, Bool.or_eq_true, decide_eq_true_eq] at hx
      rcases hx with rfl | hx
      · exact hi.alloc type name rfl
      · exact hs x hx
  | same | result | store | bind => exact hs x hx

/-- The variables of a running program are those that its source declares. -/
theorem Machine.Reached.mem_variables {p : Source.Program} {P : Program}
    {capabilities : List Capability} {settings : Settings} {sink : Sink} {history : List Instr}
    {m : Machine} (hP : p.compile = .ok P) (hm : Reached P capabilities settings sink history m)
    {x : String} (hx : m.store.isAllocated x = true) : x ∈ p.variables := by
  have hinv := hm.store_invariant (I := fun _ s => ∀ x, s.isAllocated x = true → x ∈ p.variables)
    (by simp) fun _ _ _ i hi hs hupdates =>
      hupdates.mem_of_isAllocated (Source.Program.compile_respects hP i hi) hs
  exact hinv x hx

end ThreeAddress
