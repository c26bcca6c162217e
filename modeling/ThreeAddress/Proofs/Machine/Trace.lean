import Mathlib.Data.List.Chain
import Mathlib.Data.List.Perm.Subperm
import ThreeAddress.Proofs.Machine.Lifecycle
import ThreeAddress.Proofs.Machine.StepLimit

set_option autoImplicit false

/-! # The way of a run through its program

The addresses that a machine has executed since its start are its trace. Each of them leads to the
next one (`Program.Leads`), and the counters of the machine are the counts of the trace
(`Machine.Records`). So what is to be shown of the counters is shown of the ways through the
program, whatever the values are that decide between them.

In a program whose code leads only forward no way comes to an address twice. All runs of such a
program end (`Program.Forward.exists_run`). -/

namespace ThreeAddress

/-! ## Where code leads -/

/-- Execution can go on at `target` after the instruction, which stands at `a`. -/
def Instr.LeadsTo (i : Instr) (a target : Nat) : Prop :=
  if i.isJump then .address target ∈ i.labels else target = a + 1

namespace Program

variable {p : Program} {a target : Nat}

/-- Execution can go on at `target` after the instruction at `a`. -/
def Leads (p : Program) (a target : Nat) : Prop := ∃ i, p.code[a]? = some i ∧ i.LeadsTo a target

theorem Leads.lt_size (h : p.Leads a target) : a < p.size := by
  obtain ⟨i, hi, -⟩ := h
  exact (Array.getElem?_eq_some_iff.1 hi).1

theorem leads_iff {i : Instr} (hi : p.code[a]? = some i) :
    p.Leads a target ↔ i.LeadsTo a target := by
  constructor
  · rintro ⟨i', hi', h⟩
    cases hi.symm.trans hi'
    exact h
  · intro h
    exact ⟨i, hi, h⟩

theorem leads_iff_of_plain {i : Instr} (hi : p.code[a]? = some i) (hplain : i.isJump = false) :
    p.Leads a target ↔ target = a + 1 := by
  rw [leads_iff hi, Instr.LeadsTo, hplain]
  simp

theorem leads_iff_of_jump {b : Nat} (hi : p.code[a]? = some (.jump (.address b))) :
    p.Leads a target ↔ target = b := by
  rw [leads_iff hi]
  simp [Instr.LeadsTo, Instr.isJump, Instr.labels]

theorem leads_iff_of_branch {test : String} {b b' : Nat}
    (hi : p.code[a]? = some (.branch test (.address b) (.address b'))) :
    p.Leads a target ↔ target = b ∨ target = b' := by
  rw [leads_iff hi]
  simp [Instr.LeadsTo, Instr.isJump, Instr.labels]

/-- Each of the addresses leads to the one before it: the latest address comes first. -/
def Way (p : Program) (path : List Nat) : Prop := path.IsChain fun b a => p.Leads a b

/-- The code leads only to larger addresses. -/
def Forward (p : Program) : Prop := ∀ a target, p.Leads a target → a < target

/-- In code that leads only forward, no way comes to an address twice. -/
theorem Forward.nodup (h : p.Forward) {path : List Nat} (hpath : p.Way path) : path.Nodup := by
  have hchain : path.IsChain fun b a => a < b := hpath.imp fun b a hlead => h a b hlead
  have hpairwise := List.isChain_iff_pairwise.1 hchain
  exact hpairwise.imp fun hlt => Nat.ne_of_gt hlt

end Program

/-! ## The trace of a machine -/

namespace Machine

variable {p : Program} {m m' : Machine} {trace : List Nat}

theorem commit_hits (m : Machine) (e : Effect) : (m.commit e).1.hits = m.hits := by
  cases e with
  | output line =>
      simp only [commit]
      split <;> rfl
  | _ => rfl

theorem commit_pc (m : Machine) (e : Effect) :
    (m.commit e).1.pc = match e with
      | .goto a => a
      | _ => m.pc := by
  cases e with
  | output line =>
      simp only [commit]
      split <;> rfl
  | _ => rfl

/-- If an instruction has an effect, it has led to where execution goes on. -/
theorem leads_of_effect {i : Instr} {e : Effect} (hi : m.next? = some i)
    (he : i.effect m.capabilities m.settings.unknownOpcode m.pc m.store = .ok e) :
    m.program.Leads m.pc (m.advance.commit e).1.pc := by
  rw [Program.leads_iff (code_of_next? hi), commit_pc]
  cases Instr.causes_of_effect he with
  | write hname hne v =>
      cases i with
      | jump | branch => cases hname
      | _ => rfl
  | jump a => simp [Instr.LeadsTo, Instr.isJump, Instr.labels]
  | @branch test b ifTrue ifFalse a htest hlabel =>
      simp only [Instr.LeadsTo, Instr.isJump, Instr.labels, ← hlabel]
      cases b <;> simp
  | allocate | output | skip => rfl

/-- The machine, made for the program `p`, has executed the instructions at the addresses of
    `trace`, the latest first, and it has come there from the first instruction on. If it has not
    failed, the trace leads to the address of the next instruction. -/
structure Records (p : Program) (m : Machine) (trace : List Nat) : Prop where
  program_eq : m.program = p
  hits : ∀ a, m.hits[a]? = if a < p.size then some (trace.count a) else none
  steps : m.steps = trace.length
  lt_size : ∀ a ∈ trace, a < p.size
  way : p.Way trace
  arrived : (∀ fault, m.status ≠ .failed fault) →
    p.Way (m.pc :: trace) ∧ (m.pc :: trace).getLast? = some 0

namespace Records

theorem create (p : Program) (capabilities : List Capability) (settings : Settings) (sink : Sink) :
    Records p (create p capabilities settings sink) [] where
  program_eq := rfl
  hits a := by simp [Machine.create, Array.getElem?_replicate]
  steps := rfl
  lt_size := by simp
  way := .nil
  arrived _ := ⟨.singleton 0, rfl⟩

theorem reset (h : Records p m trace) : Records p m.reset [] where
  program_eq := h.program_eq
  hits a := by simp [Machine.reset, Array.getElem?_replicate, h.program_eq]
  steps := rfl
  lt_size := by simp
  way := .nil
  arrived _ := ⟨.singleton 0, rfl⟩

theorem fail (h : Records p m trace) (fault : Fault) : Records p (m.fail fault).1 trace :=
  { h with arrived := fun hne => absurd rfl (hne fault) }

/-- The trace grows by the address of the instruction that is executed. -/
theorem execute (h : Records p m trace) {i : Instr} (hi : m.next? = some i)
    (hsetup : m.SameSetup m') (hhits : m'.hits = m.advance.hits) (hsteps : m'.steps = m.steps + 1)
    (hleads : (∀ fault, m'.status ≠ .failed fault) → p.Leads m.pc m'.pc) :
    Records p m' (m.pc :: trace) := by
  have hrunning := running_of_next? hi
  obtain ⟨hway, hlast⟩ := h.arrived (by simp [hrunning])
  have hlt : m.pc < p.size := h.program_eq ▸ pc_lt_of_next? hi
  refine ⟨hsetup.program.trans h.program_eq, fun a => ?_, ?_, ?_, hway, fun hne => ⟨?_, ?_⟩⟩
  · rw [hhits, advance, Array.getElem?_modify, h.hits a]
    by_cases ha : m.pc = a
    · subst ha
      simp [hlt]
    · simp [ha]
  · rw [hsteps, h.steps, List.length_cons]
  · exact List.forall_mem_cons.2 ⟨hlt, h.lt_size⟩
  · exact .cons_cons (hleads hne) hway
  · rw [List.getLast?_cons_cons]
    exact hlast

theorem outcome (h : Records p m trace) (hstatus : m.status = .running)
    {r : Machine × Except Fault Unit} (hr : m.Outcome r) : ∃ trace', Records p r.1 trace' := by
  cases hr with
  | halt hpc => exact ⟨trace, { h with arrived := fun _ => h.arrived (by simp [hstatus]) }⟩
  | lost hpc => exact ⟨trace, h.fail _⟩
  | limited hpc hlimit => exact ⟨trace, h.fail _⟩
  | @fault i fault hi hfault =>
      exact ⟨_, h.execute hi ⟨rfl, rfl, rfl⟩ rfl rfl fun hne => absurd rfl (hne fault)⟩
  | @effect i e hi he =>
      have hsetup := commit_sameSetup m.advance e
      refine ⟨_, h.execute hi ⟨hsetup.program, hsetup.capabilities, hsetup.settings⟩
        (commit_hits _ e) (commit_steps _ e) fun _ => ?_⟩
      rw [← h.program_eq]
      exact leads_of_effect hi he

theorem step (h : Records p m trace) : ∃ trace', Records p m.step.1 trace' := by
  by_cases hstatus : m.status = .running
  · exact h.outcome hstatus (step_outcome hstatus)
  · rw [step_of_not_running hstatus]
    exact ⟨trace, h⟩

theorem after (h : Records p m trace) (n : Nat) : ∃ trace', Records p (m.after n) trace' := by
  induction n with
  | zero => exact ⟨trace, h⟩
  | succ n ih =>
      obtain ⟨trace', h'⟩ := ih
      rw [after_succ']
      exact h'.step

theorem leaves {call : Call} (h : Records p m trace) (hcall : call.Leaves m m') :
    ∃ trace', Records p m' trace' := by
  cases hcall with
  | reset => exact ⟨[], h.reset⟩
  | step => exact h.step
  | run hrun =>
      rw [eq_after_of_run hrun, start]
      split
      · exact h.reset.after _
      · exact h.after _

/-- Whatever a machine was told to do, it has a trace. -/
theorem called {calls : List Call} (h : Records p m trace) (hcalls : Called m calls m') :
    ∃ trace', Records p m' trace' := by
  induction hcalls with
  | nil => exact ⟨trace, h⟩
  | cons _ hcall ih =>
      obtain ⟨trace', h'⟩ := ih
      exact h'.leaves hcall

/-! ## Programs that lead only forward -/

theorem hitCount_le_one (h : Records p m trace) (hp : p.Forward) (a : Nat) : m.hitCount a ≤ 1 := by
  rw [hitCount, h.hits a]
  split
  · exact List.nodup_iff_count.1 (hp.nodup h.way) a
  · exact Nat.zero_le 1

theorem steps_le_size (h : Records p m trace) (hp : p.Forward) : m.steps ≤ p.size := by
  have hsub : trace ⊆ List.range p.size := fun a ha => List.mem_range.2 (h.lt_size a ha)
  rw [h.steps]
  simpa using (List.subperm_of_subset (hp.nodup h.way) hsub).length_le

end Records

end Machine

/-- All runs of a program that leads only forward end, and execute no instruction twice. -/
theorem Program.Forward.exists_run {p : Program} (hp : p.Forward) (capabilities : List Capability)
    (settings : Settings) (sink : Sink) :
    ∃ m result,
      (Machine.create p capabilities settings sink).run (p.size + 1) = some (m, result) ∧
      m.HasStopped ∧ m.steps ≤ p.size ∧ ∀ a, m.hitCount a ≤ 1 := by
  have hreset := (Machine.Records.create p capabilities settings sink).reset
  obtain ⟨trace, h⟩ := hreset.after (p.size + 1)
  generalize hm : (Machine.create p capabilities settings sink).reset = start at h
  have hsteps := h.steps_le_size hp
  -- as long as it runs, the machine takes a step for every instruction
  have hrunning : (start.after (p.size + 1)).status ≠ .running := by
    intro hrunning
    have hsteps' := Machine.steps_after_of_running hrunning
    omega
  have hstarted : (start.after (p.size + 1)).status ≠ .setup :=
    Machine.after_status_ne_setup (by simp [← hm, Machine.reset]) _
  refine ⟨_, (start.after (p.size + 1)).conclude.2, ?_, ?_, hsteps, h.hitCount_le_one hp⟩
  · rw [Machine.run_create_eq_some_iff, hm]
    exact ⟨hrunning, Machine.conclude_eq_mk _⟩
  · cases hstatus : (start.after (p.size + 1)).status with
    | setup => exact absurd hstatus hstarted
    | running => exact absurd hstatus hrunning
    | halted => exact .inl hstatus
    | failed fault => exact .inr ⟨fault, hstatus⟩

end ThreeAddress
