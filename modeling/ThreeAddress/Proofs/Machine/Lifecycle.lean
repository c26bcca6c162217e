import Mathlib.Algebra.GroupWithZero.Nat
import ThreeAddress.Proofs.Machine.Outcome

set_option autoImplicit false

/-! # The life of a machine

From outside, a machine is reset, stepped and run, in any order. Whatever the calls were, its
counters agree with each other and with the program, it has halted only at the end of the program,
and every declared variable has a cell (`Machine.Consistent`). Once it has stopped, only a reset
changes it. -/

namespace ThreeAddress

/-- Every declared variable has a cell. -/
def Store.Backed (s : Store) : Prop := ∀ name, s.isAllocated name = true → ∃ v, s.get? name = some v

theorem Store.Backed.empty : Store.empty.Backed := by
  intro name hname
  simp at hname

theorem Store.Backed.set {s : Store} (h : s.Backed) (name : String) (v : Value) :
    (s.set name v).Backed := by
  intro other hother
  rw [get?_set]
  split
  · exact ⟨v, rfl⟩
  · exact h other hother

theorem Store.Backed.allocate {s : Store} (h : s.Backed) (name : String) (type : ScalarType) :
    (s.allocate name type).Backed := by
  intro other hother
  rw [get?_allocate]
  split
  · exact ⟨_, rfl⟩
  · next hne =>
      rw [isAllocated_allocate] at hother
      exact h other (by simpa [hne] using hother)

/-- A declared variable can be read, unless it has another type. -/
theorem Store.Backed.readTyped {s : Store} (h : s.Backed) {name : String}
    (hname : s.isAllocated name = true) (type : ScalarType) :
    Raises (fun fault => ∃ found, fault = .typeMismatch name type found)
      (s.readTyped name type) := by
  obtain ⟨v, hv⟩ := h name hname
  unfold Store.readTyped Store.read
  rw [hv]
  cases v with
  | function f => exact Raises.error ⟨_, rfl⟩
  | scalar c =>
      rw [ok_bind]
      dsimp only
      split
      · exact Raises.ok c
      · exact Raises.error ⟨_, rfl⟩

/-- Counting one entry of a table up adds one to the sum of the table. -/
theorem sum_modify_succ {l : List Nat} {i : Nat} (h : i < l.length) :
    (l.modify i (· + 1)).sum = l.sum + 1 := by
  induction l generalizing i with
  | nil => simp at h
  | cons a l ih =>
      cases i with
      | zero => simp [Nat.add_right_comm]
      | succ i =>
          have hrest := ih (Nat.lt_of_succ_lt_succ h)
          simp [hrest, Nat.add_assoc]

namespace Machine

/-! ## The invariant -/

/-- What is always true of a machine that was made for the program. -/
structure Consistent (program : Program) (m : Machine) : Prop where
  program_eq : m.program = program
  /-- There is a counter for every instruction. -/
  hits_size : m.hits.size = program.size
  hits_sum : m.hits.toList.sum = m.steps
  pc_of_halted : m.status = .halted → m.pc = program.size
  backed : m.store.Backed

namespace Consistent

variable {program : Program} {m : Machine}

theorem create (program : Program) (capabilities : List Capability) (settings : Settings)
    (sink : Sink) : (create program capabilities settings sink).Consistent program where
  program_eq := rfl
  hits_size := by simp [Machine.create]
  hits_sum := by simp [Machine.create]
  pc_of_halted := by simp [Machine.create]
  backed := .empty

theorem reset (h : m.Consistent program) : m.reset.Consistent program where
  program_eq := h.program_eq
  hits_size := by simp [Machine.reset, h.program_eq]
  hits_sum := by simp [Machine.reset]
  pc_of_halted := by simp [Machine.reset]
  backed := .empty

theorem fail (h : m.Consistent program) (fault : Fault) :
    (m.fail fault).1.Consistent program :=
  { h with pc_of_halted := by simp [Machine.fail] }

/-- The instruction that is counted has a counter. -/
theorem pc_lt_size_hits (h : m.Consistent program) (hpc : m.pc < m.program.size) :
    m.pc < m.hits.size := by
  rw [h.hits_size, ← h.program_eq]
  exact hpc

theorem advance (h : m.Consistent program) (hstatus : m.status = .running)
    (hpc : m.pc < m.program.size) : m.advance.Consistent program where
  program_eq := h.program_eq
  hits_size := by simp [Machine.advance, h.hits_size]
  hits_sum := by
    have hsum := sum_modify_succ (l := m.hits.toList) (i := m.pc)
      (by simpa using h.pc_lt_size_hits hpc)
    simpa [Machine.advance, h.hits_sum] using hsum
  pc_of_halted := by simp [Machine.advance, hstatus]
  backed := h.backed

theorem commit (h : m.Consistent program) (hstatus : m.status = .running) (e : Effect) :
    (m.commit e).1.Consistent program := by
  cases e with
  | skip => exact h
  | write name v => exact { h with backed := h.backed.set name v }
  | allocate name type => exact { h with backed := h.backed.allocate name type }
  | goto a => exact { h with pc_of_halted := by simp [Machine.commit, hstatus] }
  | output line =>
      rcases hw : m.sink.writeLine line with ⟨sink, _ | reason⟩
      · simp only [Machine.commit, hw]
        exact { h with }
      · simp only [Machine.commit, hw]
        exact { h with pc_of_halted := by simp [Machine.fail] }

/-- Whatever comes of a step, the machine stays consistent. -/
theorem outcome (h : m.Consistent program) (hstatus : m.status = .running)
    {r : Machine × Except Fault Unit} (hr : m.Outcome r) : r.1.Consistent program := by
  cases hr with
  | halt hpc =>
      have hend : m.pc = program.size := by rw [hpc, h.program_eq]
      exact { h with pc_of_halted := fun _ => hend }
  | lost hpc => exact h.fail _
  | limited hpc hlimit => exact h.fail _
  | fault hi hfault => exact (h.advance hstatus (pc_lt_of_next? hi)).fail _
  | effect hi he => exact (h.advance hstatus (pc_lt_of_next? hi)).commit hstatus _

theorem step (h : m.Consistent program) : m.step.1.Consistent program := by
  by_cases hstatus : m.status = .running
  · exact h.outcome hstatus (step_outcome hstatus)
  · rw [step_of_not_running hstatus]
    exact h

theorem after (h : m.Consistent program) (n : Nat) : (m.after n).Consistent program := by
  induction n with
  | zero => exact h
  | succ n ih =>
      rw [after_succ']
      exact ih.step

theorem start (h : m.Consistent program) : m.start.Consistent program := by
  unfold Machine.start
  split
  · exact h.reset
  · exact h

/-- If the source of a store can be read and the destination is declared, all that can go wrong is
    that the destination has another type. -/
theorem typeMismatch_of_store (h : m.Consistent program) {type : ScalarType} {source name : String}
    {c : Constant} {fault : Fault} (hi : m.next? = some (.store type source name))
    (hsource : m.store.readTyped source type = .ok c) (hname : m.store.isAllocated name = true)
    (hfault : m.step.2 = .error fault) : ∃ found, fault = .typeMismatch name type found := by
  have hread := h.backed.readTyped hname type
  rw [step_of_next? hi] at hfault
  unfold execute at hfault
  simp only [Instr.effect, hsource, ok_bind, hname, if_true] at hfault
  cases hold : m.store.readTyped name type with
  | ok old =>
      rw [hold] at hfault
      cases hfault
  | error fault' =>
      rw [hold] at hfault
      cases hfault
      exact hread _ hold

end Consistent

/-! ## Calls from outside -/

/-- What a machine can be told to do. -/
inductive Call where
  | reset
  | step
  | run
deriving DecidableEq, Repr

/-- The call returns and leaves the machine `m'`. A run that goes on forever does not return. -/
inductive Call.Leaves (m : Machine) : Call → Machine → Prop
  | reset : Leaves m .reset m.reset
  | step : Leaves m .step m.step.1
  | run {fuel : Nat} {m' : Machine} {result : Except Fault Unit}
      (h : m.run fuel = some (m', result)) : Leaves m .run m'

/-- What has become of the machine `m` after some calls. The list has the latest call first. -/
inductive Called (m : Machine) : List Call → Machine → Prop
  | nil : Called m [] m
  | cons {calls : List Call} {call : Call} {m' m'' : Machine} (h : Called m calls m')
      (hcall : call.Leaves m' m'') : Called m (call :: calls) m''

variable {program : Program} {m m' : Machine} {call : Call} {calls : List Call}

theorem Consistent.leaves (h : m.Consistent program) (hcall : call.Leaves m m') :
    m'.Consistent program := by
  cases hcall with
  | reset => exact h.reset
  | step => exact h.step
  | run hrun =>
      rw [eq_after_of_run hrun]
      exact h.start.after _

theorem Consistent.called (h : m.Consistent program) (hcalls : Called m calls m') :
    m'.Consistent program := by
  induction hcalls with
  | nil => exact h
  | cons _ hcall ih => exact ih.leaves hcall

theorem start_status_ne_setup (m : Machine) : m.start.status ≠ .setup := by
  unfold start
  split
  · simp [reset]
  · next h => exact h

/-- A machine is in its setup after a call exactly if it was so before and was only stepped. -/
theorem Call.Leaves.setup_iff (hcall : call.Leaves m m') :
    m'.status = .setup ↔ call = .step ∧ m.status = .setup := by
  cases hcall with
  | reset => simp [Machine.reset]
  | step =>
      by_cases h : m.status = .setup
      · rw [step_of_not_running (by simp [h])]
        simp
      · have hstep := after_status_ne_setup h 1
        simp [h]
        exact hstep
  | run hrun =>
      rw [eq_after_of_run hrun]
      simpa using after_status_ne_setup m.start_status_ne_setup _

theorem Called.setup_iff (hm : m.status = .setup) (hcalls : Called m calls m') :
    m'.status = .setup ↔ ∀ call ∈ calls, call = .step := by
  induction hcalls with
  | nil => simp [hm]
  | cons _ hcall ih => rw [hcall.setup_iff, ih, List.forall_mem_cons]

/-! ## Machines that have stopped -/

/-- The machine has halted or failed. -/
def HasStopped (m : Machine) : Prop := m.status = .halted ∨ ∃ fault, m.status = .failed fault

theorem HasStopped.step (h : m.HasStopped) : m.step = (m, m.report) := by
  rcases h with h | ⟨fault, h⟩
  · simp [Machine.step, report, h]
  · simp [Machine.step, report, h]

/-- Running a machine that has stopped only flushes the output. -/
theorem HasStopped.run (h : m.HasStopped) (fuel : Nat) :
    m.run fuel = some (m, match m.sink.flush with
      | none => m.report
      | some reason => .error (.output reason)) := by
  have hstart : m.start = m := by
    rcases h with h | ⟨fault, h⟩ <;> simp [start, h]
  have hrunning : m.status ≠ .running := by
    rcases h with h | ⟨fault, h⟩ <;> simp [h]
  rw [Machine.run, hstart, runFor_of_not_running fuel hrunning, finish]
  cases m.sink.flush with
  | some reason => rfl
  | none =>
      rcases h with h | ⟨fault, h⟩ <;> simp [report, h]

theorem HasStopped.leaves (h : m.HasStopped) (hcall : call.Leaves m m') (hreset : call ≠ .reset) :
    m' = m := by
  cases hcall with
  | reset => exact absurd rfl hreset
  | step => rw [h.step]
  | @run fuel _ _ hrun =>
      rw [h.run fuel] at hrun
      cases hrun
      rfl

theorem HasStopped.called (h : m.HasStopped) (hcalls : Called m calls m')
    (hreset : .reset ∉ calls) : m' = m := by
  induction hcalls with
  | nil => rfl
  | cons _ hcall ih =>
      rw [List.mem_cons, not_or] at hreset
      obtain rfl := ih hreset.2
      exact h.leaves hcall (Ne.symm hreset.1)

/-- **The life of a machine.** Take a new machine and any calls. The machine that they leave, and
    every machine that a run of it passes through, is consistent: it has a counter for every
    instruction, in particular for the one that is executed next, and their sum is the number of
    steps; if it has halted, it is at the end of the program; and every declared variable has a
    cell, so that a store to it fails by its type only. The machine is in its setup exactly if it
    was only stepped so far. If it has stopped, then until a reset steps and runs leave it as it is,
    a step reports how it has stopped, and so does a run unless the output cannot be flushed. -/
theorem calls_keep_consistent {capabilities : List Capability} {settings : Settings} {sink : Sink}
    (h : Called (create program capabilities settings sink) calls m) :
    (∀ m', m' = m ∨ (∃ n, m' = m.start.after n) →
      m'.Consistent program ∧
      (∀ i, m'.next? = some i → m'.pc < m'.hits.size) ∧
      ∀ type source name c fault, m'.next? = some (.store type source name) →
        m'.store.readTyped source type = .ok c → m'.store.isAllocated name = true →
        m'.step.2 = .error fault → ∃ found, fault = .typeMismatch name type found) ∧
    (m.status = .setup ↔ .reset ∉ calls ∧ .run ∉ calls) ∧
    (m.HasStopped →
      m.step = (m, m.report) ∧
      (∀ fuel, m.run fuel = some (m, match m.sink.flush with
        | none => m.report
        | some reason => .error (.output reason))) ∧
      ∀ later m', Called m later m' → .reset ∉ later → m' = m) := by
  have hm : m.Consistent program := (Consistent.create program capabilities settings sink).called h
  refine ⟨?_, ?_, ?_⟩
  · intro m' hm'
    have hconsistent : m'.Consistent program := by
      rcases hm' with rfl | ⟨n, rfl⟩
      · exact hm
      · exact hm.start.after n
    refine ⟨hconsistent, fun i hi => hconsistent.pc_lt_size_hits (pc_lt_of_next? hi), ?_⟩
    intro type source name c fault hi hsource hname hfault
    exact hconsistent.typeMismatch_of_store hi hsource hname hfault
  · rw [h.setup_iff rfl]
    constructor
    · intro hsteps
      constructor
      · intro hreset
        cases hsteps _ hreset
      · intro hrun
        cases hsteps _ hrun
    · rintro ⟨hreset, hrun⟩ call hcall
      cases call with
      | reset => exact absurd hcall hreset
      | run => exact absurd hcall hrun
      | step => rfl
  · intro hstopped
    exact ⟨hstopped.step, hstopped.run, fun later m' hlater => hstopped.called hlater⟩

/-- Declares a variable and gives it a value. -/
def declaring : Machine :=
  create ⟨#[.alloc .int "x", .literal .int (.int 1) "t", .store .int "t" "x"]⟩ [] {} {}

/-- Stepped too early, then run, then stepped again: the machine has halted after three steps. -/
theorem calls_keep_consistent_declaring :
    ∃ m, declaring.Called [.step, .run, .step] m ∧ m.Consistent declaring.program ∧
      m.status = .halted ∧ m.pc = 3 ∧ m.hits.toList.sum = 3 ∧ m.step = (m, .ok ()) := by
  have hstep : declaring.Called [.step] declaring := .cons .nil .step
  have hrun : declaring.run 4 = some (declaring.reset.after 4, .ok ()) := rfl
  have hcalls : declaring.Called [.step, .run, .step] (declaring.reset.after 5) :=
    (hstep.cons (.run hrun)).cons .step
  have hhalted : (declaring.reset.after 5).status = .halted := rfl
  obtain ⟨hconsistent, -, hstopped⟩ := calls_keep_consistent hcalls
  obtain ⟨hm, -, -⟩ := hconsistent _ (.inl rfl)
  exact ⟨_, hcalls, hm, hhalted, hm.pc_of_halted hhalted, hm.hits_sum, (hstopped (.inl hhalted)).1⟩

end Machine

end ThreeAddress
