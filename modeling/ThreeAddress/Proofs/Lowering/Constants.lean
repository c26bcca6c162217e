import ThreeAddress.Proofs.Lowering.Linkable
import ThreeAddress.Proofs.Wire.RoundTrip

set_option autoImplicit false

/-! # Constants of compiled code

The literals of compiled code carry the constants of the program, each with the type of its value.
Together with what is known of labels, every instruction of a compiled program is well formed and
can be written and read back, unless the program has `2 ^ 63` instructions or more. -/

namespace ThreeAddress

/-- The literals of code carry the given constants, each with its type. -/
def Instr.Carries (constants : List Constant) (i : Instr) : Prop :=
  ∀ type value target, i = .literal type value target → value.type = type ∧ value ∈ constants

theorem Instr.carries_of_ne {i : Instr} (h : ∀ type value target, i ≠ .literal type value target)
    (constants : List Constant) : i.Carries constants :=
  fun type value target hi => absurd hi (h type value target)

namespace Source

/-! ## Constants of a program -/

mutual

/-- The constants of an expression. -/
def Expr.constants : Expr → List Constant
  | .literal _ value => [value]
  | .binary _ _ left right => left.constants ++ right.constants
  | .relational _ _ left right => left.constants ++ right.constants
  | .unary _ _ operand => operand.constants
  | .load _ _ => []
  | .group _ inner => inner.constants
  | .call _ _ args => constantsArgs args

/-- The constants of the arguments of a call. -/
def constantsArgs : List Expr → List Constant
  | [] => []
  | e :: rest => e.constants ++ constantsArgs rest

end

/-- The constants of a program, at whatever place. -/
def Program.constants (p : Program) : List Constant :=
  ((withinAll p.statements).filterMap Stmt.expr?).flatMap Expr.constants

/-- The floats among the constants of a program. -/
def Program.floats (p : Program) : List Float :=
  p.constants.filterMap fun
    | .float x => some x
    | _ => none

theorem Program.mem_constants {p : Program} {s : Stmt} {e : Expr} {c : Constant}
    (hs : s ∈ withinAll p.statements) (he : s.expr? = some e) (hc : c ∈ e.constants) :
    c ∈ p.constants :=
  List.mem_flatMap.2 ⟨e, List.mem_filterMap.2 ⟨s, hs, he⟩, hc⟩

theorem Program.mem_floats {p : Program} {x : Float} (h : Constant.float x ∈ p.constants) :
    x ∈ p.floats :=
  List.mem_filterMap.2 ⟨.float x, h, rfl⟩

/-! ## Emitted code -/

theorem Emission.compute_carries {cs : List Constant} {code : List Instr} {t : Temporaries}
    {type : ScalarType} {instr : String → Instr} (hcode : ∀ i ∈ code, i.Carries cs)
    (hinstr : ∀ target, (instr target).Carries cs) :
    ∀ i ∈ (Emission.compute code t type instr).code, i.Carries cs := by
  simp only [Emission.compute, List.forall_mem_append, List.forall_mem_singleton]
  exact ⟨hcode, hinstr _⟩

mutual

/-- The code of an expression carries its constants. -/
theorem Expr.emit_carries {cs : List Constant} (t : Temporaries) :
    (e : Expr) → (∀ c ∈ e.constants, c ∈ cs) → ∀ i ∈ (e.emit t).code, i.Carries cs
  | .literal _ value, h => by
      unfold Expr.emit
      refine Emission.compute_carries (List.forall_mem_nil _) fun target => ?_
      rintro _ _ _ ⟨⟩
      exact ⟨rfl, h value (by simp [Expr.constants])⟩
  | .binary _ _ left right, h => by
      rw [Expr.constants, List.forall_mem_append] at h
      have hl := left.emit_carries t h.1
      have hr := right.emit_carries (left.emit t).temporaries h.2
      unfold Expr.emit
      exact Emission.compute_carries (List.forall_mem_append.2 ⟨hl, hr⟩) fun _ =>
        Instr.carries_of_ne (by simp) cs
  | .relational _ _ left right, h => by
      rw [Expr.constants, List.forall_mem_append] at h
      have hl := left.emit_carries t h.1
      have hr := right.emit_carries (left.emit t).temporaries h.2
      unfold Expr.emit
      exact Emission.compute_carries (List.forall_mem_append.2 ⟨hl, hr⟩) fun _ =>
        Instr.carries_of_ne (by simp) cs
  | .unary _ _ operand, h => by
      rw [Expr.constants] at h
      unfold Expr.emit
      exact Emission.compute_carries (operand.emit_carries t h) fun _ =>
        Instr.carries_of_ne (by simp) cs
  | .load _ _, _ => by
      unfold Expr.emit
      exact Emission.compute_carries (List.forall_mem_nil _) fun _ =>
        Instr.carries_of_ne (by simp) cs
  | .group _ inner, h => by
      rw [Expr.constants] at h
      unfold Expr.emit
      exact inner.emit_carries t h
  | .call _ _ args, h => by
      rw [Expr.constants] at h
      unfold Expr.emit
      exact Emission.compute_carries (emitArgs_carries t args h) fun _ =>
        Instr.carries_of_ne (by simp) cs

theorem emitArgs_carries {cs : List Constant} (t : Temporaries) :
    (args : List Expr) → (∀ c ∈ constantsArgs args, c ∈ cs) →
      ∀ i ∈ (emitArgs t args).code, i.Carries cs
  | [], _ => by simp [emitArgs]
  | e :: rest, h => by
      rw [constantsArgs, List.forall_mem_append] at h
      have he := e.emit_carries t h.1
      have hrest := emitArgs_carries (e.emit t).temporaries rest h.2
      simp only [emitArgs, List.forall_mem_append]
      exact ⟨he, hrest⟩

end

/-- The code of a statement that stays in one block carries the constants of its expression. -/
theorem Stmt.emit_carries {cs : List Constant} {s : Stmt}
    (h : ∀ e, s.expr? = some e → ∀ c ∈ e.constants, c ∈ cs) (t : Temporaries) :
    ∀ i ∈ (s.emit t).code, i.Carries cs := by
  have hother {i : Instr} (hi : ∀ type value target, i ≠ .literal type value target) :
      ∀ j ∈ [i], j.Carries cs :=
    List.forall_mem_singleton.2 (Instr.carries_of_ne hi cs)
  have hbehind {value : Expr} (hvalue : s.expr? = some value) {i : Instr}
      (hi : ∀ type value target, i ≠ .literal type value target) :
      ∀ j ∈ (value.emit t).code ++ [i], j.Carries cs :=
    List.forall_mem_append.2 ⟨value.emit_carries t (h value hvalue), hother hi⟩
  have hdecl (type : ScalarType) (name : String) {value : Expr} (hvalue : s.expr? = some value) :
      ∀ i ∈ (emitDeclaration t type name value).code, i.Carries cs :=
    List.forall_mem_cons.2 ⟨Instr.carries_of_ne (by simp) cs, hbehind hvalue (by simp)⟩
  cases s with
  | constDecl line name type value => exact hdecl _ name rfl
  | varDecl line name type value =>
      cases value with
      | none => exact hother (by simp)
      | some value => exact hdecl _ name rfl
  | assign line name value => exact hbehind rfl (by simp)
  | print line value => exact hbehind rfl (by simp)
  | declare line prototype => exact hother (by simp)
  | eval line value => exact value.emit_carries t (h value rfl)
  | cond line condition thenBranch elseBranch => exact List.forall_mem_nil _
  | loop line condition body => exact List.forall_mem_nil _

/-! ## Compiled programs -/

variable {p : Program} {P : ThreeAddress.Program}

theorem Program.compile_carries (hP : p.compile = .ok P) :
    ∀ i ∈ P.code, i.Carries p.constants := by
  refine forall_mem_of_compile hP (fun s hs e he t => ?_) (fun s hs => ?_) fun i hjump => ?_
  · exact e.emit_carries t fun c hc => mem_constants hs he hc
  · exact Stmt.emit_carries fun e he c hc => mem_constants hs he hc
  · refine Instr.carries_of_ne ?_ _
    rintro type value target rfl
    cases hjump

theorem Program.compile_closed (hP : p.compile = .ok P) : P.Closed := by
  obtain ⟨g, c, hlowered, hlink⟩ := exists_lowered_of_compile hP
  exact hlowered.closed hlink

/-- The instructions of a compiled program can be written and read back. -/
theorem Program.compile_wellFormed (hP : p.compile = .ok P) (hsize : P.size < Nat.pow 2 63) :
    ∀ i ∈ P.code, i.WellFormed ∧ ∀ label ∈ i.labels, label.Fits := by
  have hclosed := compile_closed hP
  intro i hi
  have hlabels : ∀ label ∈ i.labels, label.Fits := by
    intro label hlabel
    obtain ⟨a, ha, rfl⟩ := hclosed.labels i hi label hlabel
    exact Nat.lt_of_le_of_lt ha hsize
  refine ⟨⟨fun type value target hliteral => ?_, fun a ha => hlabels _ ha, ?_⟩, hlabels⟩
  · exact (compile_carries hP i hi type value target hliteral).1
  · exact fun opcode operands hunknown => absurd hunknown (hclosed.known i hi opcode operands)

end Source

end ThreeAddress
