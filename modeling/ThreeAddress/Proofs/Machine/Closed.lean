import ThreeAddress.Proofs.Machine.Operands
import ThreeAddress.Proofs.Machine.Steps

set_option autoImplicit false

/-! # Programs that never leave their code

A program is closed if all its labels are addresses within the code or right behind it and if it
has no instruction from outside the instruction set. A machine that runs a closed program always
has its next instruction, or is at the end (`Machine.InCode.after`). -/

namespace ThreeAddress

/-! ## Faults of control -/

/-- Whether a fault is about where the program goes on, or about an unknown instruction. -/
def Fault.isControl : Fault → Bool
  | .unknownOpcode _ _ | .addressOutOfRange _ _ | .unresolvedLabel _ => true
  | _ => false

/-- A fault that has nothing to do with control. -/
def Fault.IsMild (fault : Fault) : Prop := fault.isControl = false

theorem Fault.IsOperand.isMild {fault : Fault} (h : fault.IsOperand) : fault.IsMild := by
  cases fault with
  | unknownOpcode opcode address => cases h
  | addressOutOfRange address size => cases h
  | unresolvedLabel block => cases h
  | _ => rfl

namespace Raises

theorem readTyped (s : Store) (name : String) (type : ScalarType) :
    Raises Fault.IsMild (s.readTyped name type) :=
  (s.readTyped_raises name type).mono fun _ => Fault.IsOperand.isMild

theorem coerce (name : String) (v : Value) (type : ScalarType) :
    Raises Fault.IsMild (coerce name v type) :=
  (coerce_raises name v type).mono fun _ => Fault.IsOperand.isMild

theorem arith (op : ArithOp) (type : ScalarType) (left right : Constant) :
    Raises Fault.IsMild (op.apply type left right) := by
  have hdiv (a b : Int64) : Raises Fault.IsMild (floorDiv a b) := by
    unfold floorDiv
    split
    · exact error rfl
    · dsimp only
      split <;> exact ok _
  have hint (a b : Int64) : Raises Fault.IsMild (op.onInt a b) := by
    cases op with
    | div => exact hdiv a b
    | _ => exact ok _
  unfold ArithOp.apply
  split
  · exact (hint _ _).map
  · exact ok _
  · exact ok _
  · exact error rfl

theorem unary (op : UnaryOp) (type : ScalarType) (source : Constant) :
    Raises Fault.IsMild (op.apply type source) := by
  unfold UnaryOp.apply
  split
  all_goals first | exact ok _ | exact error rfl

theorem compare (op : CompareOp) (type : ScalarType) (left right : Constant) :
    Raises Fault.IsMild (op.apply type left right) := by
  unfold CompareOp.apply
  split
  all_goals
    split
    · exact ok _
    · exact error rfl

theorem bindFunction (capabilities : List Capability) (name : String) (returnType : ScalarType)
    (paramTypes : List ScalarType) :
    Raises Fault.IsMild (bindFunction capabilities name returnType paramTypes) := by
  unfold ThreeAddress.bindFunction
  split
  · exact error rfl
  · split
    · exact ok _
    · exact error rfl

theorem callFunction (s : Store) (function : String) (args : List String) :
    Raises Fault.IsMild (callFunction s function args) := by
  rcases callFunction_cases s function args with ⟨fault, hcall, hfault⟩ | ⟨f, values, -, hcall⟩
  · rw [hcall]
    exact error hfault.isMild
  · rw [hcall]
    unfold BoundFunction.conclude
    split
    · exact coerce _ _ _
    · exact error rfl

end Raises

/-- An instruction of the instruction set that is no jump fails with a mild fault only. -/
theorem Instr.effect_raises_mild {i : Instr} (hjump : i.isJump = false)
    (hknown : ∀ opcode operands, i ≠ .unknown opcode operands) (capabilities : List Capability)
    (policy : UnknownPolicy) (address : Nat) (s : Store) :
    Raises Fault.IsMild (i.effect capabilities policy address s) := by
  cases i with
  | jump label => cases hjump
  | branch test ifTrue ifFalse => cases hjump
  | unknown opcode operands => exact absurd rfl (hknown opcode operands)
  | alloc type name => exact Raises.ok _
  | literal type value target => exact (Raises.coerce _ _ _).bind fun _ _ => Raises.ok _
  | load type name target => exact (Raises.readTyped _ _ _).bind fun _ _ => Raises.ok _
  | store type source name =>
      refine (Raises.readTyped _ _ _).bind fun c _ => ?_
      split
      · exact (Raises.readTyped _ _ _).bind fun _ _ => Raises.ok _
      · exact Raises.error rfl
  | binary op type left right target =>
      refine (Raises.readTyped _ _ _).bind fun l _ => (Raises.readTyped _ _ _).bind fun r _ => ?_
      exact (Raises.arith _ _ _ _).bind fun _ _ => Raises.ok _
  | unary op type source target =>
      refine (Raises.readTyped _ _ _).bind fun a _ => ?_
      exact (Raises.unary _ _ _).bind fun _ _ => Raises.ok _
  | compare op type left right target =>
      refine (Raises.readTyped _ _ _).bind fun l _ => (Raises.readTyped _ _ _).bind fun r _ => ?_
      exact (Raises.compare _ _ _ _).bind fun _ _ => Raises.ok _
  | print type source => exact (Raises.readTyped _ _ _).bind fun _ _ => Raises.ok _
  | bind name returnType paramTypes =>
      exact (Raises.bindFunction _ _ _ _).bind fun _ _ => Raises.ok _
  | call function args target => exact (Raises.callFunction _ _ _).bind fun _ _ => Raises.ok _

/-! ## Closed programs -/

/-- Every label is an address within the program or right behind it, and every instruction is one of
    the instruction set. -/
structure Program.Closed (p : Program) : Prop where
  labels : ∀ i ∈ p.code, ∀ label ∈ i.labels, ∃ a ≤ p.size, label = .address a
  known : ∀ i ∈ p.code, ∀ opcode operands, i ≠ .unknown opcode operands

/-- What an instruction of a closed program can do: it fails with a mild fault only, and leads to
    addresses of the program only. -/
theorem Program.Closed.effect {p : Program} (h : p.Closed) {i : Instr} (hi : i ∈ p.code)
    (capabilities : List Capability) (policy : UnknownPolicy) (address : Nat) (s : Store) :
    Raises Fault.IsMild (i.effect capabilities policy address s) ∧
      ∀ a, i.effect capabilities policy address s = .ok (.goto a) → a ≤ p.size := by
  have hlabels := h.labels i hi
  by_cases hjump : i.isJump = true
  · cases i with
    | jump label =>
        obtain ⟨a, ha, rfl⟩ := hlabels label (by simp [Instr.labels])
        refine ⟨Raises.ok _, ?_⟩
        rintro _ ⟨⟩
        exact ha
    | branch test ifTrue ifFalse =>
        obtain ⟨a, ha, rfl⟩ := hlabels ifTrue (by simp [Instr.labels])
        obtain ⟨b, hb, rfl⟩ := hlabels ifFalse (by simp [Instr.labels])
        unfold Instr.effect
        refine ⟨(Raises.readTyped s test .bool).bind fun c _ => ?_, fun target htarget => ?_⟩
        · split <;> exact Raises.ok _
        · obtain ⟨c, -, htarget⟩ := bind_eq_ok_iff.1 htarget
          split at htarget <;> cases htarget
          · exact ha
          · exact hb
    | _ => cases hjump
  · rw [Bool.not_eq_true] at hjump
    exact ⟨Instr.effect_raises_mild hjump (h.known i hi) capabilities policy address s,
      fun a ha => absurd rfl (Instr.effect_ne_goto hjump ha a)⟩

namespace Machine

/-- The next instruction is one of the program or behind the last one, and if the machine has
    failed, it is not for want of an instruction. -/
structure InCode (m : Machine) : Prop where
  pc_le : m.pc ≤ m.program.size
  mild : ∀ fault, m.status = .failed fault → fault.IsMild

/-- A step stays in a closed program. -/
theorem InCode.step {m : Machine} (hp : m.program.Closed) (h : m.InCode) :
    m.step.1.InCode ∧ m.step.1.program = m.program := by
  by_cases hr : m.status = .running
  · have hmild : ∀ fault, m.status = .failed fault → fault.IsMild := by simp [hr]
    rw [step_of_running hr]
    unfold stepRunning
    split
    · exact ⟨⟨h.pc_le, by simp⟩, rfl⟩
    · next hpc =>
        have hlt : m.pc < m.program.code.size := Nat.lt_of_le_of_ne h.pc_le hpc
        rw [Array.getElem?_eq_getElem hlt]
        dsimp only
        split
        · refine ⟨⟨h.pc_le, ?_⟩, rfl⟩
          rintro _ ⟨⟩
          rfl
        · obtain ⟨hraises, hgoto⟩ := hp.effect (Array.getElem_mem hlt) m.capabilities
            m.settings.unknownOpcode m.pc m.store
          unfold execute
          split
          · next effect heffect =>
              cases effect with
              | goto a => exact ⟨⟨hgoto a heffect, hmild⟩, rfl⟩
              | output line =>
                  rcases hw : m.advance.sink.writeLine line with ⟨sink, _ | reason⟩
                  · simp only [commit, hw]
                    exact ⟨⟨hlt, hmild⟩, rfl⟩
                  · simp only [commit, hw]
                    refine ⟨⟨hlt, ?_⟩, rfl⟩
                    rintro _ ⟨⟩
                    rfl
              | _ => exact ⟨⟨hlt, hmild⟩, rfl⟩
          · next fault hfault =>
              refine ⟨⟨hlt, ?_⟩, rfl⟩
              rintro _ ⟨⟩
              exact hraises _ hfault
  · rw [step_of_not_running hr]
    exact ⟨h, rfl⟩

/-- A run stays in a closed program. -/
theorem InCode.after {m : Machine} (hp : m.program.Closed) (h : m.InCode) (n : Nat) :
    (m.after n).InCode ∧ (m.after n).program = m.program := by
  induction n with
  | zero => exact ⟨h, rfl⟩
  | succ n ih =>
      obtain ⟨hin, heq⟩ := ih
      have hstep := hin.step (heq ▸ hp)
      rw [after_succ']
      exact ⟨hstep.1, hstep.2.trans heq⟩

end Machine

end ThreeAddress
