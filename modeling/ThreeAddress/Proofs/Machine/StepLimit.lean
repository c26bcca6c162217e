import ThreeAddress.Proofs.Machine.Outcome

set_option autoImplicit false

/-! # The step limit only cuts runs off

A machine with a step limit does what the machine without one does, step by step, as long as the
limit leaves room for another instruction. Behind the last one it still halts, or fails for want of
an instruction, as the other does; only where that one goes on to execute an instruction does it
fail with the limit (`Machine.after_limit`). -/

namespace ThreeAddress.Machine

/-- The same machine with another step limit, or with none. -/
def withLimit (limit : Option UInt64) (m : Machine) : Machine :=
  { m with settings := { m.settings with stepLimit := limit } }

section WithLimit

variable (m : Machine) (limit : Option UInt64)

@[simp] theorem withLimit_program : (m.withLimit limit).program = m.program := rfl

@[simp] theorem withLimit_sink : (m.withLimit limit).sink = m.sink := rfl

@[simp] theorem withLimit_status : (m.withLimit limit).status = m.status := rfl

@[simp] theorem withLimit_pc : (m.withLimit limit).pc = m.pc := rfl

end WithLimit

variable {m : Machine} {i : Instr} {limit : Option UInt64} {l : UInt64}

/-! ## What does not depend on the limit -/

theorem commit_withLimit (m : Machine) (limit : Option UInt64) (e : Effect) :
    (m.withLimit limit).commit e = ((m.commit e).1.withLimit limit, (m.commit e).2) := by
  rw [withLimit, commit_withSettings, withLimit, (m.commit_sameSetup e).settings]

theorem execute_withLimit (m : Machine) (limit : Option UInt64) (i : Instr) :
    (m.withLimit limit).execute i = ((m.execute i).1.withLimit limit, (m.execute i).2) := by
  have heffect : i.effect (m.withLimit limit).capabilities
      (m.withLimit limit).settings.unknownOpcode (m.withLimit limit).pc (m.withLimit limit).store
        = i.effect m.capabilities m.settings.unknownOpcode m.pc m.store := rfl
  unfold execute
  rw [heffect]
  split
  · next e _ => exact m.advance.commit_withLimit limit e
  · rfl

theorem conclude_eq_mk (m : Machine) : m.conclude = (m, m.conclude.2) :=
  Prod.ext m.conclude_fst rfl

theorem conclude_withLimit (m : Machine) (limit : Option UInt64) :
    (m.withLimit limit).conclude = (m.withLimit limit, m.conclude.2) := by
  rw [conclude_eq_mk]
  simp only [conclude, finish, withLimit_status, withLimit_sink]
  cases m.status <;> cases m.sink.flush <;> rfl

/-! ## Counting steps -/

theorem commit_steps (m : Machine) (e : Effect) : (m.commit e).1.steps = m.steps := by
  cases e with
  | output line =>
      simp only [commit]
      split <;> rfl
  | _ => rfl

theorem steps_step_of_next? (h : m.next? = some i) : m.step.1.steps = m.steps + 1 := by
  rw [step_of_next? h]
  unfold execute
  split
  · exact m.advance.commit_steps _
  · rfl

theorem steps_step_of_next?_eq_none (h : m.next? = none) : m.step.1.steps = m.steps := by
  obtain ⟨status, hstep⟩ := step_of_next?_eq_none h
  rw [hstep]

/-- A step that executes no instruction is the last one. -/
theorem not_running_of_next?_eq_none (h : m.next? = none) : m.step.1.status ≠ .running := by
  by_cases hstatus : m.status = .running
  · have houtcome := step_outcome hstatus
    generalize m.step = r at houtcome
    cases houtcome with
    | halt hpc => simp
    | lost hpc => simp [fail]
    | limited hpc hlimit => simp [fail]
    | fault hi hfault => simp [hi] at h
    | effect hi he => simp [hi] at h
  · rw [step_of_not_running hstatus]
    exact hstatus

theorem steps_le_step (m : Machine) : m.steps ≤ m.step.1.steps ∧ m.step.1.steps ≤ m.steps + 1 := by
  cases h : m.next? with
  | none => simp [steps_step_of_next?_eq_none h]
  | some i => simp [steps_step_of_next? h]

theorem steps_le_after (m : Machine) (n : Nat) :
    m.steps ≤ (m.after n).steps ∧ (m.after n).steps ≤ m.steps + n := by
  induction n with
  | zero => simp
  | succ n ih =>
      have hstep := (m.after n).steps_le_step
      rw [after_succ']
      omega

theorem running_of_step (h : m.step.1.status = .running) : m.status = .running := by
  by_contra hstatus
  rw [step_of_not_running hstatus] at h
  exact hstatus h

/-- As long as a machine is running, each of its steps has executed an instruction. -/
theorem steps_after_of_running {n : Nat} (h : (m.after n).status = .running) :
    (m.after n).steps = m.steps + n := by
  induction n with
  | zero => rfl
  | succ n ih =>
      rw [after_succ'] at h ⊢
      have hsteps := ih (running_of_step h)
      cases hnext : (m.after n).next? with
      | none => exact absurd h (not_running_of_next?_eq_none hnext)
      | some i => rw [steps_step_of_next? hnext, hsteps, Nat.add_assoc]

/-! ## Steps under a limit -/

theorem atLimit_of_stepLimit_eq_none (h : m.settings.stepLimit = none) : m.atLimit = none := by
  rw [atLimit, h, Option.filter_none]

theorem step_of_code_eq_none (hstatus : m.status = .running)
    (hcode : m.program.code[m.pc]? = none) :
    m.step.1 = { m with
      status := (if m.pc = m.program.size then .halted
        else .failed (.addressOutOfRange m.pc m.program.size)) } := by
  rw [step_of_running hstatus]
  unfold stepRunning
  rw [hcode]
  split <;> rfl

/-- Where both execute the same instruction, or none, a machine with a limit and the one without
    do the same. -/
theorem step_withLimit (hfree : m.settings.stepLimit = none)
    (h : (m.withLimit limit).next? = m.next?) :
    (m.withLimit limit).step.1 = m.step.1.withLimit limit := by
  cases hnext : m.next? with
  | some i => rw [step_of_next? hnext, step_of_next? (h.trans hnext), execute_withLimit]
  | none =>
      by_cases hstatus : m.status = .running
      · have hcode : m.program.code[m.pc]? = none := by
          simpa [next?, hstatus, atLimit_of_stepLimit_eq_none hfree] using hnext
        rw [step_of_code_eq_none hstatus hcode,
          step_of_code_eq_none (m := m.withLimit limit) hstatus hcode]
        rfl
      · rw [step_of_not_running hstatus, step_of_not_running (m := m.withLimit limit) hstatus]

/-- A limit can only keep a machine from executing an instruction. -/
theorem next?_withLimit_of_eq_none (hfree : m.settings.stepLimit = none) (h : m.next? = none) :
    (m.withLimit limit).next? = m.next? := by
  cases hnext : (m.withLimit limit).next? with
  | none => rw [h]
  | some i =>
      have hstatus := running_of_next? hnext
      have hcode := code_of_next? hnext
      rw [withLimit_status] at hstatus
      rw [withLimit_program, withLimit_pc] at hcode
      simp [next?, hstatus, atLimit_of_stepLimit_eq_none hfree, hcode]

theorem next?_withLimit_of_lt (hfree : m.settings.stepLimit = none) (h : m.steps < l.toNat) :
    (m.withLimit (some l)).next? = m.next? := by
  have hlimit : (m.withLimit (some l)).atLimit = none := by
    simp [atLimit, withLimit, Nat.not_le.2 h]
  unfold next?
  rw [hlimit, atLimit_of_stepLimit_eq_none hfree]
  rfl

/-- Where there is no room for an instruction that comes next, the machine fails with the limit. -/
theorem step_at_limit (hi : m.next? = some i) (h : l.toNat ≤ m.steps) :
    (m.withLimit (some l)).step.1
      = { m.withLimit (some l) with status := .failed (.stepLimitExceeded l) } := by
  have hlimit : (m.withLimit (some l)).atLimit = some l := by
    simp [atLimit, withLimit, h]
  have hstatus := running_of_next? hi
  have houtcome := step_outcome (m := m.withLimit (some l)) hstatus
  have hlt : m.pc < m.program.size := pc_lt_of_next? hi
  have hnext : (m.withLimit (some l)).next? = none := by simp [next?, hlimit]
  generalize (m.withLimit (some l)).step = r at houtcome
  cases houtcome with
  | halt hpc => exact absurd hpc (Nat.ne_of_lt hlt)
  | lost hpc => exact absurd hpc (Nat.lt_asymm hlt)
  | limited hpc hlimit' =>
      obtain rfl := Option.some.inj (hlimit.symm.trans hlimit')
      rfl
  | fault hi' hfault => simp [hi'] at hnext
  | effect hi' he => simp [hi'] at hnext

/-! ## Runs under a limit -/

/-- Up to as many steps as the limit allows, a limit makes no difference. -/
theorem after_withLimit (hfree : m.settings.stepLimit = none) (hsteps : m.steps = 0) {n : Nat}
    (hn : n ≤ l.toNat) : (m.withLimit (some l)).after n = (m.after n).withLimit (some l) := by
  induction n with
  | zero => rfl
  | succ n ih =>
      have hle := (m.steps_le_after n).2
      have hfree' : (m.after n).settings.stepLimit = none := by
        rw [(m.after_sameSetup n).settings, hfree]
      rw [after_succ', after_succ', ih (by omega)]
      exact step_withLimit hfree' (next?_withLimit_of_lt hfree' (by omega))

/-- What a limit makes of a run: nothing if the run ends within the limit, and otherwise the run
    fails where it would execute the first instruction too many. -/
theorem after_limit (hfree : m.settings.stepLimit = none) (hsteps : m.steps = 0) (l : UInt64) :
    ((m.after (l.toNat + 1)).status ≠ .running ∧ (m.after (l.toNat + 1)).steps ≤ l.toNat ∧
        (m.withLimit (some l)).after (l.toNat + 1)
          = (m.after (l.toNat + 1)).withLimit (some l)) ∨
      ((m.after l.toNat).status = .running ∧ (m.after l.toNat).steps = l.toNat ∧
        (m.after (l.toNat + 1)).steps = l.toNat + 1 ∧
        (m.withLimit (some l)).after (l.toNat + 1)
          = { (m.after l.toNat).withLimit (some l) with
              status := .failed (.stepLimitExceeded l) }) := by
  have hfree' : (m.after l.toNat).settings.stepLimit = none := by
    rw [(m.after_sameSetup _).settings, hfree]
  have hle := (m.steps_le_after l.toNat).2
  rw [after_succ', after_succ', after_withLimit hfree hsteps (Nat.le_refl _)]
  cases hnext : (m.after l.toNat).next? with
  | none =>
      refine .inl ⟨not_running_of_next?_eq_none hnext, ?_, ?_⟩
      · rw [steps_step_of_next?_eq_none hnext]
        omega
      · exact step_withLimit hfree' (next?_withLimit_of_eq_none hfree' hnext)
  | some i =>
      have hrunning := running_of_next? hnext
      have hcount : (m.after l.toNat).steps = l.toNat := by
        rw [steps_after_of_running hrunning, hsteps, Nat.zero_add]
      refine .inr ⟨hrunning, hcount, ?_, step_at_limit hnext (Nat.le_of_eq hcount.symm)⟩
      rw [steps_step_of_next? hnext, hcount]

theorem lt_of_stopped {n k : Nat} (hn : (m.after n).status = .running)
    (hk : (m.after k).status ≠ .running) : n < k := by
  by_contra hle
  obtain ⟨d, rfl⟩ := Nat.le.dest (Nat.not_lt.1 hle)
  rw [after_add, after_of_not_running hk] at hn
  exact hk hn

/-- A run of a machine that has not been started is the sequence of its steps after the start. -/
theorem run_eq_some_iff (hm : m.status = .setup) {fuel : Nat} {r : Machine × Except Fault Unit} :
    m.run fuel = some r ↔
      (m.reset.after fuel).status ≠ .running ∧ (m.reset.after fuel).conclude = r := by
  have hstart : m.start = m.reset := by simp [start, hm]
  rw [run, hstart, runFor_of_running fuel rfl]
  split
  · next h => simp [h]
  · next h => simp [h]

/-- A run ends with the fault of its last step. -/
theorem run_of_failed (hm : m.status = .setup) {n : Nat} {fault : Fault}
    (h : (m.reset.after n).status = .failed fault) :
    m.run n = some (m.reset.after n, .error fault) := by
  rw [run_eq_some_iff hm, conclude_eq_mk, conclude_snd_of_failed h]
  exact ⟨by simp [h], rfl⟩

/-- However much fuel a run is given, it ends in only one way. -/
theorem run_unique (hm : m.status = .setup) {fuel fuel' : Nat}
    {r r' : Machine × Except Fault Unit} (h : m.run fuel = some r) (h' : m.run fuel' = some r') :
    r = r' := by
  obtain ⟨hstopped, rfl⟩ := (run_eq_some_iff hm).1 h
  obtain ⟨hstopped', rfl⟩ := (run_eq_some_iff hm).1 h'
  rw [after_eq_after hstopped hstopped']

/-- The run without a limit ends within the limit, and so does the one under the limit, or it goes
    beyond and the one under the limit is cut off. -/
theorem run_withLimit_cases (hm : m.status = .setup) (l : UInt64) :
    (∃ final result, (m.withLimit none).run (l.toNat + 1) = some (final, result) ∧
        final.steps ≤ l.toNat ∧
        (m.withLimit (some l)).run (l.toNat + 1) = some (final.withLimit (some l), result)) ∨
      ((∀ fuel final result, (m.withLimit none).run fuel = some (final, result) →
          l.toNat < final.steps) ∧
        ((m.withLimit none).reset.after l.toNat).status = .running ∧
        ((m.withLimit none).reset.after l.toNat).steps = l.toNat ∧
        (m.withLimit (some l)).run (l.toNat + 1)
          = some ({ ((m.withLimit none).reset.after l.toNat).withLimit (some l) with
                status := .failed (.stepLimitExceeded l) }, .error (.stepLimitExceeded l))) := by
  have hbounded : (m.withLimit (some l)).reset = (m.withLimit none).reset.withLimit (some l) := rfl
  rcases after_limit (m := (m.withLimit none).reset) rfl rfl l with
    ⟨hstopped, hsteps, hafter⟩ | ⟨hrunning, hsteps, hnext, hafter⟩
  · have hfree := (run_eq_some_iff (m := m.withLimit none) hm).2 ⟨hstopped, conclude_eq_mk _⟩
    refine .inl ⟨_, _, hfree, hsteps, ?_⟩
    rw [run_eq_some_iff (m := m.withLimit (some l)) hm, hbounded, hafter, conclude_withLimit]
    exact ⟨hstopped, rfl⟩
  · refine .inr ⟨?_, hrunning, hsteps, ?_⟩
    · intro fuel final result hrun
      obtain ⟨hstopped, hconclude⟩ := (run_eq_some_iff (m := m.withLimit none) hm).1 hrun
      -- the run goes on at least to the first instruction too many
      obtain ⟨d, rfl⟩ := Nat.le.dest (lt_of_stopped hrunning hstopped)
      have hmore := (((m.withLimit none).reset.after (l.toNat + 1)).steps_le_after d).1
      rw [← after_add, hnext] at hmore
      have hfinal := (conclude_fst _).symm.trans (congrArg Prod.fst hconclude)
      exact Nat.lt_of_lt_of_eq hmore (congrArg steps hfinal)
    · rw [run_eq_some_iff (m := m.withLimit (some l)) hm, hbounded, hafter]
      exact ⟨by simp, rfl⟩

/-- A run that ends within the limit is not changed by it. -/
theorem run_withLimit_of_steps_le (hm : m.status = .setup) {fuel : Nat} {final : Machine}
    {result : Except Fault Unit} (h : (m.withLimit none).run fuel = some (final, result))
    (hsteps : final.steps ≤ l.toNat) :
    (m.withLimit (some l)).run (l.toNat + 1) = some (final.withLimit (some l), result) := by
  rcases run_withLimit_cases hm l with ⟨final', result', hrun, -, hlimited⟩ | ⟨hbeyond, -⟩
  · cases run_unique (m := m.withLimit none) hm h hrun
    exact hlimited
  · exact absurd (hbeyond fuel final result h) (Nat.not_lt.2 hsteps)

/-- **The step limit only cuts runs off.** Under a limit every run ends. If the run without a limit
    ends after no more instructions than the limit allows, in whatever way, the run under the limit
    ends with the same machine and the same result. Otherwise it fails with the limit, and the
    machine is for the rest the one that the run without a limit has come to when it has executed
    just as many instructions as are allowed. So a run that a limit does not cut off is the same
    under every higher limit. -/
theorem step_limit_truncates (program : Program) (capabilities : List Capability)
    (settings : Settings) (sink : Sink) (l : UInt64) :
    let m := create program capabilities settings sink
    (∃ r, (m.withLimit (some l)).run (l.toNat + 1) = some r) ∧
    (∀ fuel final result, (m.withLimit none).run fuel = some (final, result) →
      final.steps ≤ l.toNat →
      (m.withLimit (some l)).run (l.toNat + 1) = some (final.withLimit (some l), result)) ∧
    ((∀ fuel final result, (m.withLimit none).run fuel = some (final, result) →
        l.toNat < final.steps) →
      let reached := (m.withLimit none).reset.after l.toNat
      reached.status = .running ∧ reached.steps = l.toNat ∧
      (m.withLimit (some l)).run (l.toNat + 1)
        = some ({ reached.withLimit (some l) with status := .failed (.stepLimitExceeded l) },
            .error (.stepLimitExceeded l))) ∧
    (∀ higher : UInt64, l ≤ higher → ∀ fuel final result,
      (m.withLimit (some l)).run fuel = some (final, result) →
      result ≠ .error (.stepLimitExceeded l) →
      (m.withLimit (some higher)).run (higher.toNat + 1)
        = some (final.withLimit (some higher), result)) := by
  intro m
  have hm : m.status = .setup := rfl
  refine ⟨?_, fun fuel final result hrun hsteps => run_withLimit_of_steps_le hm hrun hsteps, ?_, ?_⟩
  · rcases run_withLimit_cases hm l with ⟨final, result, -, -, hlimited⟩ | ⟨-, -, -, hcut⟩
    · exact ⟨_, hlimited⟩
    · exact ⟨_, hcut⟩
  · intro hbeyond
    rcases run_withLimit_cases hm l with ⟨final, result, hrun, hsteps, -⟩ | ⟨-, hcut⟩
    · exact absurd (hbeyond _ final result hrun) (Nat.not_lt.2 hsteps)
    · exact hcut
  · intro higher hle fuel final result hrun hresult
    rcases run_withLimit_cases hm l with
      ⟨final', result', hfree, hsteps, hlimited⟩ | ⟨-, -, -, hcut⟩
    · cases run_unique (m := m.withLimit (some l)) hm hrun hlimited
      have hwithin := Nat.le_trans hsteps (UInt64.le_iff_toNat_le.1 hle)
      have hhigher := run_withLimit_of_steps_le hm hfree hwithin
      exact hhigher
    · cases run_unique (m := m.withLimit (some l)) hm hrun hcut
      exact absurd rfl hresult

/-- Gives a variable a value and prints it, in four steps. -/
def printing : Machine :=
  create ⟨#[.alloc .int "x", .literal .int (.int 1) "t", .store .int "t" "x", .print .int "x"]⟩
    [] {} {}

/-- Four steps are enough, with three the last instruction is not executed. -/
theorem step_limit_truncates_printing :
    (∃ final, (printing.withLimit none).run 5 = some (final, .ok ()) ∧ final.steps = 4 ∧
        (printing.withLimit (some 4)).run 5 = some (final.withLimit (some 4), .ok ())) ∧
      ∃ final, (printing.withLimit (some 3)).run 4
          = some (final, .error (.stepLimitExceeded 3)) ∧
        final.steps = 3 ∧ final.pc = 3 ∧ final.sink.text = "" := by
  have hfree : (printing.withLimit none).run 5
      = some ((printing.withLimit none).reset.after 5, .ok ()) := rfl
  have hsteps : ((printing.withLimit none).reset.after 5).steps = 4 := rfl
  constructor
  · obtain ⟨-, hwithin, -⟩ := step_limit_truncates printing.program [] {} {} 4
    exact ⟨_, hfree, hsteps, hwithin 5 _ _ hfree (Nat.le_of_eq hsteps)⟩
  · obtain ⟨-, -, hbeyond, -⟩ := step_limit_truncates printing.program [] {} {} 3
    obtain ⟨-, -, hcut⟩ := hbeyond fun fuel final result hrun => by
      cases run_unique (m := printing.withLimit none) rfl hrun hfree
      rw [hsteps]
      decide
    exact ⟨_, hcut, rfl, rfl, rfl⟩

end ThreeAddress.Machine
