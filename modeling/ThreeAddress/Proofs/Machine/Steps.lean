import Mathlib.Logic.Function.Iterate
import ThreeAddress.Machine.Machine
import ThreeAddress.Proofs.Sequencing

set_option autoImplicit false

/-! # Runs as sequences of steps

A run is a machine stepped again and again. `Machine.after m n` is the machine after `n` steps;
once it has stopped it stays as it is, so that the runs of all lengths are told by one sequence.
`runFor_of_running` says what `runFor` makes of that sequence: nothing while the machine is still
running, and otherwise what `conclude` makes of the machine that has stopped. -/

namespace ThreeAddress

/-- Whether an instruction only chooses where execution goes on. -/
def Instr.isJump : Instr → Bool
  | .jump _ | .branch _ _ _ => true
  | _ => false

/-- The instructions that are no jumps never lead elsewhere. -/
theorem Instr.effect_ne_goto {i : Instr} (hi : i.isJump = false) {capabilities : List Capability}
    {policy : UnknownPolicy} {address : Nat} {s : Store} {e : Effect}
    (he : i.effect capabilities policy address s = .ok e) (a : Nat) : e ≠ .goto a := by
  rintro rfl
  cases i with
  | jump label => cases hi
  | branch test ifTrue ifFalse => cases hi
  | store type source name =>
      simp only [Instr.effect, bind_eq_ok_iff] at he
      obtain ⟨c, -, he⟩ := he
      split at he
      · obtain ⟨_, -, he⟩ := bind_eq_ok_iff.1 he
        cases he
      · cases he
  | unknown opcode operands => cases policy <;> cases he
  | alloc type name => cases he
  | _ =>
      simp only [Instr.effect, bind_eq_ok_iff, pure, Except.pure] at he
      grind

namespace Machine

/-! ## Steps -/

/-- The machine after `n` steps. -/
def after (m : Machine) (n : Nat) : Machine := (fun m => m.step.1)^[n] m

@[simp] theorem after_zero (m : Machine) : m.after 0 = m := rfl

theorem after_succ (m : Machine) (n : Nat) : m.after (n + 1) = m.step.1.after n := rfl

theorem after_succ' (m : Machine) (n : Nat) : m.after (n + 1) = (m.after n).step.1 :=
  Function.iterate_succ_apply' _ n m

theorem after_add (m : Machine) (n k : Nat) : m.after (n + k) = (m.after n).after k := by
  rw [Nat.add_comm]
  exact Function.iterate_add_apply _ k n m

/-- A machine that is not running stays as it is. -/
theorem step_of_not_running {m : Machine} (h : m.status ≠ .running) : m.step.1 = m := by
  unfold step
  split
  · contradiction
  all_goals rfl

theorem after_of_not_running {m : Machine} (h : m.status ≠ .running) (n : Nat) :
    m.after n = m := by
  induction n with
  | zero => rfl
  | succ n ih => rw [after_succ', ih, step_of_not_running h]

theorem step_of_running {m : Machine} (h : m.status = .running) : m.step = m.stepRunning := by
  unfold step
  rw [h]

/-- What a step reports, read off the machine that it leaves. -/
def report (m : Machine) : Except Fault Unit :=
  match m.status with
  | .failed fault => .error fault
  | _ => .ok ()

theorem commit_report {m : Machine} (h : m.status = .running) (e : Effect) :
    (m.commit e).2 = (m.commit e).1.report ∧ (m.commit e).1.status ≠ .setup := by
  cases e with
  | output line =>
      rcases hw : m.sink.writeLine line with ⟨sink, _ | reason⟩ <;>
        simp [commit, hw, fail, report, h]
  | _ => simp [commit, report, h]

/-- A step of a running machine reports a fault exactly if it fails, and never undoes the start. -/
theorem step_report {m : Machine} (h : m.status = .running) :
    m.step.2 = m.step.1.report ∧ m.step.1.status ≠ .setup := by
  rw [step_of_running h]
  unfold stepRunning
  split
  · simp [report]
  · split
    · simp [fail, report]
    · split
      · simp [fail, report]
      · unfold execute
        split
        · exact commit_report (m := m.advance) h _
        · simp [fail, report]

/-- A machine that has been started never goes back to its setup. -/
theorem after_status_ne_setup {m : Machine} (h : m.status ≠ .setup) (n : Nat) :
    (m.after n).status ≠ .setup := by
  induction n with
  | zero => exact h
  | succ n ih =>
      rw [after_succ']
      by_cases hr : (m.after n).status = .running
      · exact (step_report hr).2
      · rw [step_of_not_running hr]
        exact ih

end Machine

/-! ## The sink -/

/-- The second sink refuses what the first one does. -/
structure Sink.SameRules (sink sink' : Sink) : Prop where
  refuse : sink'.refuse = sink.refuse
  refuseFlush : sink'.refuseFlush = sink.refuseFlush

theorem Sink.SameRules.refl (sink : Sink) : sink.SameRules sink := ⟨rfl, rfl⟩

theorem Sink.SameRules.trans {sink₁ sink₂ sink₃ : Sink} (h : sink₁.SameRules sink₂)
    (h' : sink₂.SameRules sink₃) : sink₁.SameRules sink₃ :=
  ⟨h'.refuse.trans h.refuse, h'.refuseFlush.trans h.refuseFlush⟩

theorem Sink.write_sameRules (sink : Sink) (piece : String) :
    sink.SameRules (sink.write piece).1 := by
  unfold Sink.write
  split
  · exact .refl sink
  · split <;> exact ⟨rfl, rfl⟩

theorem Sink.writeLine_sameRules (sink : Sink) (line : String) :
    sink.SameRules (sink.writeLine line).1 := by
  have hline := sink.write_sameRules line
  unfold Sink.writeLine
  rcases hw : sink.write line with ⟨sink₁, _ | reason⟩
  · rw [hw] at hline
    exact hline.trans (sink₁.write_sameRules "\n")
  · rw [hw] at hline
    exact hline

/-- The sink refuses no text. -/
def Sink.Accepts (sink : Sink) : Prop := ∀ state piece, sink.refuse state piece = none

theorem Sink.SameRules.accepts {sink sink' : Sink} (h : sink.SameRules sink')
    (haccepts : sink.Accepts) : sink'.Accepts := by
  unfold Sink.Accepts
  rw [h.refuse]
  exact haccepts

theorem Sink.Accepts.write {sink : Sink} (h : sink.Accepts) (piece : String) :
    ∃ sink', sink.write piece = (sink', none) ∧ sink'.text = sink.text ++ piece ∧
      sink'.Accepts := by
  unfold Sink.write
  split
  · next hempty =>
      rw [String.isEmpty_iff.1 hempty, String.append_empty]
      exact ⟨sink, rfl, rfl, h⟩
  · rw [h]
    exact ⟨_, rfl, rfl, h⟩

theorem Sink.Accepts.writeLine {sink : Sink} (h : sink.Accepts) (line : String) :
    ∃ sink', sink.writeLine line = (sink', none) ∧ sink'.text = sink.text ++ line ++ "\n" ∧
      sink'.Accepts := by
  obtain ⟨sink₁, hwrite₁, htext₁, h₁⟩ := h.write line
  obtain ⟨sink₂, hwrite₂, htext₂, h₂⟩ := h₁.write "\n"
  refine ⟨sink₂, ?_, ?_, h₂⟩
  · rw [Sink.writeLine, hwrite₁]
    exact hwrite₂
  · rw [htext₂, htext₁]

namespace Machine

/-- What the sink refuses does not change in a step. -/
theorem step_sameRules (m : Machine) : m.sink.SameRules m.step.1.sink := by
  by_cases h : m.status = .running
  · rw [step_of_running h]
    unfold stepRunning
    split
    · exact .refl _
    · split
      · exact .refl _
      · split
        · exact .refl _
        · unfold execute
          split
          · next effect _ =>
              cases effect with
              | output line =>
                  have hline := m.sink.writeLine_sameRules line
                  rcases hw : m.sink.writeLine line with ⟨sink, _ | reason⟩ <;>
                    simpa [commit, advance, hw, fail] using hline
              | _ => exact .refl _
          · exact .refl _
  · rw [step_of_not_running h]
    exact .refl _

theorem after_sameRules (m : Machine) (n : Nat) : m.sink.SameRules (m.after n).sink := by
  induction n with
  | zero => exact .refl _
  | succ n ih =>
      rw [after_succ']
      exact ih.trans (m.after n).step_sameRules

/-! ## Runs -/

/-- How a run ends whose last step has left the machine `m`: a fault is reported at once, and
    otherwise the output is flushed. -/
def conclude (m : Machine) : Machine × Except Fault Unit :=
  match m.status with
  | .failed fault => (m, .error fault)
  | _ => m.finish

/-- A run of a running machine is its sequence of steps, cut at `fuel`. -/
theorem runFor_of_running (fuel : Nat) {m : Machine} (h : m.status = .running) :
    runFor fuel m =
      if (m.after fuel).status = .running then none else some (m.after fuel).conclude := by
  induction fuel generalizing m with
  | zero =>
      rw [after_zero, if_pos h]
      unfold runFor
      rw [h]
  | succ fuel ih =>
      unfold runFor
      rw [h, after_succ]
      -- the step reports a fault exactly if the machine it leaves has failed
      obtain ⟨hreport, hstarted⟩ := step_report h
      rcases hstep : m.step with ⟨m', result⟩
      rw [hstep] at hreport hstarted
      dsimp only at hreport hstarted ⊢
      subst hreport
      by_cases hr : m'.status = .running
      · simp only [report, hr]
        exact ih hr
      · rw [after_of_not_running hr, if_neg hr]
        cases hs : m'.status with
        | running => exact absurd hs hr
        | setup => exact absurd hs hstarted
        | failed fault => simp only [report, hs, conclude]
        | halted =>
            simp only [report, hs, conclude]
            unfold runFor
            rw [hs]

theorem runFor_of_not_running (fuel : Nat) {m : Machine} (h : m.status ≠ .running) :
    runFor fuel m = some m.finish := by
  unfold runFor
  split
  · contradiction
  · rfl

/-- A run of a new machine is the sequence of steps of that machine after its start. -/
theorem run_create (fuel : Nat) (p : Program) (capabilities : List Capability)
    (settings : Settings) (sink : Sink) :
    (create p capabilities settings sink).run fuel =
      let m := ((create p capabilities settings sink).reset).after fuel
      if m.status = .running then none else some m.conclude :=
  runFor_of_running fuel rfl

theorem run_create_eq_some_iff {fuel : Nat} {p : Program} {capabilities : List Capability}
    {settings : Settings} {sink : Sink} {r : Machine × Except Fault Unit} :
    (create p capabilities settings sink).run fuel = some r ↔
      ((create p capabilities settings sink).reset.after fuel).status ≠ .running ∧
        ((create p capabilities settings sink).reset.after fuel).conclude = r := by
  rw [run_create]
  dsimp only
  split
  · next h => simp [h]
  · next h => simp [h]

theorem finish_fst (m : Machine) : m.finish.1 = m := by
  unfold finish
  split
  · rfl
  · split <;> rfl

theorem conclude_fst (m : Machine) : m.conclude.1 = m := by
  unfold conclude
  split
  · rfl
  · exact m.finish_fst

/-- A run leaves the machine that its steps have led to. -/
theorem eq_after_of_run {fuel : Nat} {m m' : Machine} {result : Except Fault Unit}
    (h : m.run fuel = some (m', result)) : m' = m.start.after fuel := by
  rw [run] at h
  by_cases hr : m.start.status = .running
  · rw [runFor_of_running fuel hr] at h
    split at h
    · cases h
    · rw [← (m.start.after fuel).conclude_fst, Option.some.inj h]
  · rw [runFor_of_not_running fuel hr] at h
    rw [after_of_not_running hr, ← m.start.finish_fst, Option.some.inj h]

theorem conclude_snd_of_halted {m : Machine} (h : m.status = .halted) :
    m.conclude.2 = match m.sink.flush with
      | none => .ok ()
      | some reason => .error (.output reason) := by
  simp only [conclude, finish, h]
  cases m.sink.flush <;> rfl

theorem conclude_snd_of_failed {m : Machine} {fault : Fault} (h : m.status = .failed fault) :
    m.conclude.2 = .error fault := by
  simp only [conclude, h]

/-- Two points at which a run has stopped are the same. -/
theorem after_eq_after {m : Machine} {n k : Nat} (hn : (m.after n).status ≠ .running)
    (hk : (m.after k).status ≠ .running) : m.after n = m.after k := by
  rcases Nat.le_total n k with hle | hle
  · obtain ⟨d, rfl⟩ := Nat.le.dest hle
    rw [after_add, after_of_not_running hn]
  · obtain ⟨d, rfl⟩ := Nat.le.dest hle
    rw [after_add, after_of_not_running hk]

end Machine

end ThreeAddress
