import ThreeAddress.Proofs.Machine.Operands
import ThreeAddress.Proofs.Machine.Steps

set_option autoImplicit false

/-! # What a step does to the store

A step changes at most one cell. `Instr.Updates` says once what an instruction may make of the
store: it declares a variable, puts a constant into its target, overwrites a declared variable with
a constant of the type that the variable has, or puts a function under the function's own name.
Every invariant of the store is a case analysis on it.

`Machine.Reached` gives the machines that such invariants are about: all that can be had from a new
one by starting and stepping it in any order. It keeps account of the instructions that were
executed since the last start. -/

namespace ThreeAddress

/-! ## What is computed -/

/-- Arithmetic stays within a type. -/
theorem ArithOp.type_of_apply {op : ArithOp} {type : ScalarType} {l r c : Constant}
    (h : op.apply type l r = .ok c) : c.type = l.type := by
  unfold ArithOp.apply at h
  split at h
  · next a b =>
      cases hint : op.onInt a b with
      | ok n =>
          rw [hint] at h
          cases h
          rfl
      | error fault =>
          rw [hint] at h
          cases h
  · cases h
    rfl
  · cases h
    rfl
  · cases h

theorem UnaryOp.type_of_apply {op : UnaryOp} {type : ScalarType} {a c : Constant}
    (h : op.apply type a = .ok c) : c.type = a.type := by
  unfold UnaryOp.apply at h
  split at h <;> cases h <;> rfl

/-! ## What an instruction makes of the store -/

/-- Carry out an effect as far as it concerns the store. -/
def Store.commit (s : Store) : Effect → Store
  | .write name value => s.set name value
  | .allocate name type => s.allocate name type
  | .skip | .output _ | .goto _ => s

namespace Instr

/-- The type of what an instruction computes, if the instruction alone tells it. What a call
    computes has the type that its function was declared with. -/
def resultType? : Instr → Option ScalarType
  | literal type _ _ => some type
  | load type _ _ => some type
  | binary _ type _ _ _ => some type
  | unary _ type _ _ => some type
  | compare _ _ _ _ _ => some .bool
  | _ => none

/-- What an instruction may make of the store `s`, be it that it succeeds or that it fails. -/
inductive Updates (capabilities : List Capability) (s : Store) : Instr → Store → Prop
  | same {i : Instr} (hi : ∀ type name, i ≠ .alloc type name) : Updates capabilities s i s
  | allocate (type : ScalarType) (name : String) :
      Updates capabilities s (.alloc type name) (s.allocate name type)
  /-- A computed value goes to the target. -/
  | result {i : Instr} {target : String} {c : Constant} (htarget : i.target? = some target)
      (htype : ∀ type, i.resultType? = some type → c.type = type) :
      Updates capabilities s i (s.set target (.scalar c))
  /-- A declared variable keeps its type. -/
  | store {type : ScalarType} {source name : String} {old c : Constant}
      (hallocated : s.isAllocated name = true) (hget : s.get? name = some (.scalar old))
      (hold : old.type = type) (hc : c.type = type) :
      Updates capabilities s (.store type source name) (s.set name (.scalar c))
  | bind {name : String} {returnType : ScalarType} {paramTypes : List ScalarType}
      {f : BoundFunction} (hf : bindFunction capabilities name returnType paramTypes = .ok f) :
      Updates capabilities s (.bind name returnType paramTypes) (s.set name (.function f))

theorem updates_of_effect {i : Instr} {capabilities : List Capability} {policy : UnknownPolicy}
    {address : Nat} {s : Store} {e : Effect}
    (h : i.effect capabilities policy address s = .ok e) :
    i.Updates capabilities s (s.commit e) := by
  cases i with
  | alloc type name =>
      cases h
      exact .allocate type name
  | literal type value target =>
      obtain ⟨c, hc, h⟩ := bind_eq_ok_iff.1 h
      cases h
      refine .result rfl ?_
      rintro _ ⟨⟩
      exact type_of_coerce hc
  | load type name target =>
      obtain ⟨c, hc, h⟩ := bind_eq_ok_iff.1 h
      cases h
      refine .result rfl ?_
      rintro _ ⟨⟩
      exact (Store.readTyped_eq_ok_iff.1 hc).2
  | store type source name =>
      obtain ⟨c, hc, h⟩ := bind_eq_ok_iff.1 h
      split at h
      · next hallocated =>
          obtain ⟨old, hold, h⟩ := bind_eq_ok_iff.1 h
          cases h
          obtain ⟨hget, htype⟩ := Store.readTyped_eq_ok_iff.1 hold
          exact .store hallocated hget htype (Store.readTyped_eq_ok_iff.1 hc).2
      · cases h
  | binary op type left right target =>
      obtain ⟨l, hl, h⟩ := bind_eq_ok_iff.1 h
      obtain ⟨r, hr, h⟩ := bind_eq_ok_iff.1 h
      obtain ⟨c, hc, h⟩ := bind_eq_ok_iff.1 h
      cases h
      refine .result rfl ?_
      rintro _ ⟨⟩
      rw [ArithOp.type_of_apply hc, (Store.readTyped_eq_ok_iff.1 hl).2]
  | unary op type source target =>
      obtain ⟨a, ha, h⟩ := bind_eq_ok_iff.1 h
      obtain ⟨c, hc, h⟩ := bind_eq_ok_iff.1 h
      cases h
      refine .result rfl ?_
      rintro _ ⟨⟩
      rw [UnaryOp.type_of_apply hc, (Store.readTyped_eq_ok_iff.1 ha).2]
  | compare op type left right target =>
      obtain ⟨l, -, h⟩ := bind_eq_ok_iff.1 h
      obtain ⟨r, -, h⟩ := bind_eq_ok_iff.1 h
      obtain ⟨b, -, h⟩ := bind_eq_ok_iff.1 h
      cases h
      refine .result rfl ?_
      rintro _ ⟨⟩
      rfl
  | print type source =>
      obtain ⟨c, -, h⟩ := bind_eq_ok_iff.1 h
      cases h
      exact .same (by simp)
  | jump label =>
      obtain ⟨a, -, h⟩ := bind_eq_ok_iff.1 h
      cases h
      exact .same (by simp)
  | branch test ifTrue ifFalse =>
      obtain ⟨c, -, h⟩ := bind_eq_ok_iff.1 h
      obtain ⟨a, -, h⟩ := bind_eq_ok_iff.1 h
      cases h
      exact .same (by simp)
  | bind name returnType paramTypes =>
      obtain ⟨f, hf, h⟩ := bind_eq_ok_iff.1 h
      cases h
      exact .bind hf
  | call function args target =>
      obtain ⟨c, -, h⟩ := bind_eq_ok_iff.1 h
      cases h
      refine .result rfl ?_
      rintro _ ⟨⟩
  | unknown opcode operands =>
      cases policy <;> cases h
      exact .same (by simp)

/-- The cell that an instruction may write. -/
def written? : Instr → Option String
  | alloc _ name => some name
  | store _ _ name => some name
  | bind name _ _ => some name
  | i => i.target?

theorem written?_of_target? {i : Instr} {name : String} (h : i.target? = some name) :
    i.written? = some name := by
  cases i with
  | alloc | store | bind => cases h
  | _ => exact h

/-- An instruction leaves all cells alone but the one that it may write. -/
theorem Updates.get?_of_ne {capabilities : List Capability} {s s' : Store} {i : Instr}
    (h : i.Updates capabilities s s') {x : String} (hx : i.written? ≠ some x) :
    s'.get? x = s.get? x := by
  cases h with
  | same hi => rfl
  | allocate type name =>
      have hne : name ≠ x := by simpa [written?] using hx
      rw [Store.get?_allocate, if_neg hne]
  | result htarget htype =>
      have hne := written?_of_target? htarget ▸ hx
      exact Store.get?_set_of_ne s _ (by simpa using hne)
  | store hallocated hget hold hc => exact Store.get?_set_of_ne s _ (by simpa [written?] using hx)
  | bind hf => exact Store.get?_set_of_ne s _ (by simpa [written?] using hx)

end Instr

/-! ## What a step makes of the store -/

namespace Machine

/-- The instruction that the next step executes, if it executes one. -/
def next? (m : Machine) : Option Instr :=
  match m.status, m.atLimit with
  | .running, none => m.program.code[m.pc]?
  | _, _ => none

variable {m : Machine} {i : Instr}

theorem mem_code_of_next? (h : m.next? = some i) : i ∈ m.program.code := by
  unfold next? at h
  split at h
  · exact Array.mem_of_getElem? h
  · cases h

theorem step_of_next? (h : m.next? = some i) : m.step = m.execute i := by
  unfold next? at h
  split at h
  · next hstatus hlimit =>
      have hpc : m.pc ≠ m.program.size := by
        intro heq
        obtain ⟨hlt, -⟩ := Array.getElem?_eq_some_iff.1 h
        exact Nat.lt_irrefl _ (heq ▸ hlt)
      rw [step_of_running hstatus, stepRunning, if_neg hpc, h]
      simp only [hlimit]
  · cases h

theorem commit_store (m : Machine) (e : Effect) : (m.commit e).1.store = m.store.commit e := by
  cases e with
  | output line =>
      simp only [commit]
      split <;> rfl
  | _ => rfl

/-- What an executed instruction makes of the store. -/
theorem step_updates (h : m.next? = some i) :
    i.Updates m.capabilities m.store m.step.1.store := by
  rw [step_of_next? h]
  unfold execute
  split
  · next e he =>
      rw [commit_store]
      exact Instr.updates_of_effect he
  · next fault hfault =>
      refine .same ?_
      rintro type name rfl
      cases hfault

/-- A step that executes no instruction changes nothing but the status. -/
theorem step_of_next?_eq_none (h : m.next? = none) :
    ∃ status, m.step.1 = { m with status := status } := by
  by_cases hr : m.status = .running
  · rw [step_of_running hr]
    unfold stepRunning
    split
    · exact ⟨_, rfl⟩
    · split
      · exact ⟨_, rfl⟩
      · next i hi =>
          split
          · exact ⟨_, rfl⟩
          · next hlimit =>
              simp only [next?, hr, hlimit, hi] at h
              cases h
  · rw [step_of_not_running hr]
    exact ⟨m.status, rfl⟩

/-- The machines have the same program, capabilities and settings. -/
structure SameSetup (m m' : Machine) : Prop where
  program : m'.program = m.program
  capabilities : m'.capabilities = m.capabilities
  settings : m'.settings = m.settings

theorem SameSetup.refl (m : Machine) : m.SameSetup m := ⟨rfl, rfl, rfl⟩

theorem SameSetup.trans {m₁ m₂ m₃ : Machine} (h : m₁.SameSetup m₂) (h' : m₂.SameSetup m₃) :
    m₁.SameSetup m₃ :=
  ⟨h'.program.trans h.program, h'.capabilities.trans h.capabilities, h'.settings.trans h.settings⟩

theorem commit_sameSetup (m : Machine) (e : Effect) : m.SameSetup (m.commit e).1 := by
  cases e with
  | output line =>
      simp only [commit]
      split <;> exact ⟨rfl, rfl, rfl⟩
  | _ => exact ⟨rfl, rfl, rfl⟩

/-- Carrying out an effect does not depend on the settings. -/
theorem commit_withSettings (m : Machine) (settings : Settings) (e : Effect) :
    ({ m with settings := settings } : Machine).commit e
      = ({ (m.commit e).1 with settings := settings }, (m.commit e).2) := by
  cases e with
  | output line =>
      simp only [commit]
      split <;> rfl
  | _ => rfl

theorem step_sameSetup (m : Machine) : m.SameSetup m.step.1 := by
  cases h : m.next? with
  | none =>
      obtain ⟨status, hstep⟩ := step_of_next?_eq_none h
      rw [hstep]
      exact ⟨rfl, rfl, rfl⟩
  | some i =>
      rw [step_of_next? h]
      unfold execute
      split
      · next effect _ =>
          have hcommit := commit_sameSetup m.advance effect
          exact ⟨hcommit.program, hcommit.capabilities, hcommit.settings⟩
      · exact ⟨rfl, rfl, rfl⟩

theorem after_sameSetup (m : Machine) (n : Nat) : m.SameSetup (m.after n) := by
  induction n with
  | zero => exact .refl m
  | succ n ih =>
      rw [after_succ']
      exact ih.trans (m.after n).step_sameSetup

/-! ## Machines that can be reached -/

/-- A machine that was made with the given program, capabilities, settings and sink, and has then
    been started and stepped in any order. The list has the instructions that it has executed since
    it was last started, the latest first. -/
inductive Reached (program : Program) (capabilities : List Capability) (settings : Settings)
    (sink : Sink) : List Instr → Machine → Prop
  | create : Reached program capabilities settings sink []
      (Machine.create program capabilities settings sink)
  | reset {history : List Instr} {m : Machine}
      (h : Reached program capabilities settings sink history m) :
      Reached program capabilities settings sink [] m.reset
  | step {history : List Instr} {m : Machine}
      (h : Reached program capabilities settings sink history m) :
      Reached program capabilities settings sink (m.next?.toList ++ history) m.step.1

namespace Reached

variable {program : Program} {capabilities : List Capability} {settings : Settings} {sink : Sink}
  {history : List Instr}

theorem sameSetup (h : Reached program capabilities settings sink history m) :
    (Machine.create program capabilities settings sink).SameSetup m := by
  induction h with
  | create => exact .refl _
  | reset h ih => exact ⟨ih.program, ih.capabilities, ih.settings⟩
  | @step history m h ih => exact ih.trans m.step_sameSetup

theorem program_eq (h : Reached program capabilities settings sink history m) :
    m.program = program := h.sameSetup.program

theorem capabilities_eq (h : Reached program capabilities settings sink history m) :
    m.capabilities = capabilities := h.sameSetup.capabilities

/-- What is executed is one of the program's instructions. -/
theorem mem_code (h : Reached program capabilities settings sink history m)
    (hi : m.next? = some i) : i ∈ program.code := by
  rw [← h.program_eq]
  exact mem_code_of_next? hi

/-- A property of the store holds of every machine that can be reached, if it holds of the empty
    store and is kept by every instruction that is executed. -/
theorem store_invariant {I : List Instr → Store → Prop} (hempty : I [] .empty)
    (hstep : ∀ (history : List Instr) (s s' : Store) (i : Instr), i ∈ program.code →
      I history s → i.Updates capabilities s s' → I (i :: history) s')
    (h : Reached program capabilities settings sink history m) : I history m.store := by
  induction h with
  | create => exact hempty
  | reset h ih => exact hempty
  | @step history m h ih =>
      cases hi : m.next? with
      | none =>
          obtain ⟨status, hstep⟩ := step_of_next?_eq_none hi
          rw [hstep]
          exact ih
      | some i =>
          have hupdates := step_updates hi
          rw [h.capabilities_eq] at hupdates
          exact hstep history _ _ i (h.mem_code hi) ih hupdates

theorem after (h : Reached program capabilities settings sink history m) (n : Nat) :
    ∃ history', Reached program capabilities settings sink history' (m.after n) := by
  induction n with
  | zero => exact ⟨history, h⟩
  | succ n ih =>
      obtain ⟨history', h'⟩ := ih
      rw [after_succ']
      exact ⟨_, h'.step⟩

/-- Runs lead to no other machines than steps. -/
theorem run (h : Reached program capabilities settings sink history m) {fuel : Nat} {m' : Machine}
    {result : Except Fault Unit} (hrun : m.run fuel = some (m', result)) :
    ∃ history', Reached program capabilities settings sink history' m' := by
  have hstart : ∃ history', Reached program capabilities settings sink history' m.start := by
    unfold start
    split
    · exact ⟨_, h.reset⟩
    · exact ⟨_, h⟩
  obtain ⟨history', h'⟩ := hstart
  rw [eq_after_of_run hrun]
  exact h'.after fuel

end Reached

end Machine

end ThreeAddress
