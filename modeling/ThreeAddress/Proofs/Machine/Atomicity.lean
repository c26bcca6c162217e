import ThreeAddress.Proofs.Machine.Outcome

set_option autoImplicit false

/-! # Steps are atomic

A step that fails leaves the store as it was, and the output too unless the output itself is what
refuses. A step that succeeds changes at most the one cell that its instruction writes, declares a
variable only if that is what the instruction does, and prints only for a `print`
(`Machine.Executes`). -/

namespace ThreeAddress

/-! ## Output -/

theorem Sink.text_of_write {sink sink' : Sink} {piece : String}
    (h : sink.write piece = (sink', none)) : sink'.text = sink.text ++ piece := by
  unfold Sink.write at h
  split at h
  · next hempty =>
      cases h
      rw [String.isEmpty_iff.1 hempty, String.append_empty]
  · split at h
    · cases h
    · cases h
      rfl

/-- A line that is not refused is appended with its end. -/
theorem Sink.text_of_writeLine {sink sink' : Sink} {line : String}
    (h : sink.writeLine line = (sink', none)) : sink'.text = sink.text ++ line ++ "\n" := by
  unfold Sink.writeLine at h
  rcases hline : sink.write line with ⟨sink₁, _ | reason⟩
  · rw [hline] at h
    rw [text_of_write h, text_of_write hline]
  · rw [hline] at h
    cases h

/-! ## What an executed instruction changes -/

/-- Where execution goes on after an instruction at the address `pc` has succeeded. -/
inductive Instr.GoesOn (s : Store) (pc : Nat) : Instr → Nat → Prop
  | next {i : Instr} (hi : i.isJump = false) : GoesOn s pc i (pc + 1)
  | jump (a : Nat) : GoesOn s pc (.jump (.address a)) a
  | branch {test : String} {b : Bool} {ifTrue ifFalse : Label} {a : Nat}
      (htest : s.get? test = some (.scalar (.bool b)))
      (hlabel : (if b then ifTrue else ifFalse) = .address a) :
      GoesOn s pc (.branch test ifTrue ifFalse) a

namespace Machine

/-- All that executing the instruction `i` changes when it succeeds. -/
structure Executes (m : Machine) (i : Instr) (m' : Machine) : Prop where
  status : m'.status = .running
  /-- Only the cell that the instruction writes may differ. -/
  cells : ∀ x, i.written? ≠ some x → m'.store.get? x = m.store.get? x
  /-- The cell that the instruction writes exists. -/
  written : ∀ x, i.written? = some x → (m'.store.get? x).isSome
  /-- Only a declaration declares anything, and only its own name. -/
  declared : ∀ x, m'.store.isAllocated x = true ↔
    m.store.isAllocated x = true ∨ ∃ type, i = .alloc type x
  undeclared : (∀ type name, i ≠ .alloc type name) → m'.store.allocated = m.store.allocated
  /-- Only a `print` prints, and it prints a line with the value of its cell. -/
  printed : ∀ type source, i = .print type source → ∃ c,
    m.store.get? source = some (.scalar c) ∧ c.type = type ∧
      m'.sink.text = m.sink.text ++ c.print ++ "\n"
  silent : (∀ type source, i ≠ .print type source) → m'.sink = m.sink
  pc : i.GoesOn m.store m.pc m'.pc

/-- What a failed step leaves: all but the status, the place and the counters is as before. The
    output may have taken a part of what it then refuses. -/
structure Fails (m : Machine) (fault : Fault) (m' : Machine) : Prop where
  status : m'.status = .failed fault
  store : m'.store = m.store
  sink : (∀ reason, fault ≠ .output reason) → m'.sink = m.sink

variable {m : Machine} {i : Instr}

theorem fail_fails (m : Machine) (fault : Fault) : m.Fails fault (m.fail fault).1 :=
  ⟨rfl, rfl, fun _ => rfl⟩

/-- Counting an instruction and moving behind it touches nothing that a failure keeps. -/
theorem Fails.of_advance {fault : Fault} {m' : Machine} (h : m.advance.Fails fault m') :
    m.Fails fault m' :=
  ⟨h.status, h.store, h.sink⟩

/-- Of all effects, only output can fail. -/
theorem commit_fails {e : Effect} {fault : Fault} (h : (m.commit e).2 = .error fault) :
    m.Fails fault (m.commit e).1 := by
  cases e with
  | output line =>
      rcases hw : m.sink.writeLine line with ⟨sink, _ | reason⟩
      · simp [commit, hw] at h
      · simp only [commit, hw, fail, Except.error.injEq] at h ⊢
        subst h
        exact ⟨rfl, rfl, fun hne => absurd rfl (hne reason)⟩
  | _ => cases h

theorem Outcome.fails {r : Machine × Except Fault Unit} (h : m.Outcome r) {fault : Fault}
    (hr : r.2 = .error fault) : m.Fails fault r.1 := by
  cases h with
  | halt hpc => cases hr
  | lost hpc =>
      cases hr
      exact m.fail_fails _
  | limited hpc hlimit =>
      cases hr
      exact m.fail_fails _
  | fault hi hfault =>
      cases hr
      exact (m.advance.fail_fails _).of_advance
  | effect hi he => exact (commit_fails hr).of_advance

/-- An instruction that writes no cell and prints nothing only moves on. -/
theorem executes_of_unchanged {m' : Machine} (hstatus : m'.status = .running)
    (hstore : m'.store = m.store) (hsink : m'.sink = m.sink) (hwritten : i.written? = none)
    (hprint : ∀ type source, i ≠ .print type source) (hpc : i.GoesOn m.store m.pc m'.pc) :
    m.Executes i m' where
  status := hstatus
  cells := fun x _ => by rw [hstore]
  written := by simp [hwritten]
  declared := by
    intro x
    have halloc : ¬ ∃ type, i = .alloc type x := by
      rintro ⟨type, rfl⟩
      cases hwritten
    rw [hstore, or_iff_left halloc]
  undeclared := fun _ => by rw [hstore]
  printed := fun type source hi => absurd hi (hprint type source)
  silent := fun _ => hsink
  pc := hpc

/-- Carrying out an effect of `i` changes no more than `i` may change. -/
theorem executes_of_causes {e : Effect} (hstatus : m.status = .running)
    (hcauses : i.Causes m.store e) (hok : (m.advance.commit e).2 = .ok ()) :
    m.Executes i (m.advance.commit e).1 := by
  cases hcauses with
  | allocate type name =>
      refine ⟨hstatus, ?_, ?_, ?_, ?_, by simp, fun _ => rfl, .next rfl⟩
      · intro x hx
        have hne : name ≠ x := by simpa [Instr.written?] using hx
        show (m.store.allocate name type).get? x = m.store.get? x
        rw [Store.get?_allocate, if_neg hne]
      · rintro x ⟨⟩
        show ((m.store.allocate name type).get? name).isSome
        simp [Store.get?_allocate]
      · intro x
        show (m.store.allocate name type).isAllocated x = true ↔ _
        simp [Store.isAllocated_allocate, or_comm]
      · intro hi
        exact absurd rfl (hi type name)
  | @write i name hname hi v =>
      refine ⟨hstatus, ?_, ?_, ?_, fun _ => rfl, ?_, fun _ => rfl, .next ?_⟩
      · intro x hx
        have hne : name ≠ x := fun heq => hx (heq ▸ hname)
        exact Store.get?_set_of_ne m.store v hne
      · intro x hx
        obtain rfl : name = x := Option.some.inj (hname.symm.trans hx)
        show ((m.store.set name v).get? name).isSome
        simp
      · intro x
        have halloc : ¬ ∃ type, i = .alloc type x := by
          rintro ⟨type, heq⟩
          exact hi type x heq
        rw [or_iff_left halloc]
        rfl
      · rintro type source rfl
        cases hname
      · cases i with
        | jump | branch => cases hname
        | _ => rfl
  | @output type source c hsource htype =>
      rcases hw : m.advance.sink.writeLine c.print with ⟨sink, _ | reason⟩
      · have htext := Sink.text_of_writeLine hw
        simp only [commit, hw]
        refine ⟨hstatus, fun _ _ => rfl, by simp [Instr.written?, Instr.target?], ?_, fun _ => rfl,
          ?_, ?_, .next rfl⟩
        · intro x
          rw [or_iff_left (by simp)]
          rfl
        · rintro _ _ ⟨⟩
          exact ⟨c, hsource, htype, htext⟩
        · intro hi
          exact absurd rfl (hi type source)
      · simp [commit, hw, fail] at hok
  | jump a => exact executes_of_unchanged hstatus rfl rfl rfl (by simp) (.jump a)
  | branch htest hlabel =>
      exact executes_of_unchanged hstatus rfl rfl rfl (by simp) (.branch htest hlabel)
  | skip opcode operands => exact executes_of_unchanged hstatus rfl rfl rfl (by simp) (.next rfl)

theorem Outcome.executes {r : Machine × Except Fault Unit} (h : m.Outcome r)
    (hstatus : m.status = .running) (hr : r.2 = .ok ()) (hi : m.program.code[m.pc]? = some i) :
    m.Executes i r.1 := by
  cases h with
  | halt hpc =>
      obtain ⟨hlt, -⟩ := Array.getElem?_eq_some_iff.1 hi
      exact absurd hpc (Nat.ne_of_lt hlt)
  | lost hpc => cases hr
  | limited hpc hlimit => cases hr
  | fault hnext hfault => cases hr
  | effect hnext he =>
      obtain rfl := Option.some.inj ((code_of_next? hnext).symm.trans hi)
      exact executes_of_causes hstatus (Instr.causes_of_effect he) hr

/-- **Steps are atomic.** A step of a running machine that reports a fault has failed with this
    fault and leaves the store as it was, and the output too unless the fault is the output's. A
    step that succeeds on an instruction makes no change but those that `Executes` allows to the
    instruction: to the one cell that it writes, to the declarations if it is one, to the output if
    it prints, and to the place where execution goes on. Without an instruction, a step that
    succeeds halts the machine and changes nothing else. -/
theorem step_atomic (hstatus : m.status = .running) :
    (∀ fault, m.step.2 = .error fault → m.Fails fault m.step.1) ∧
      (∀ i, m.program.code[m.pc]? = some i → m.step.2 = .ok () → m.Executes i m.step.1) ∧
      (m.program.code[m.pc]? = none → m.step.2 = .ok () →
        m.step.1 = { m with status := .halted }) := by
  have houtcome := step_outcome hstatus
  refine ⟨fun fault hfault => houtcome.fails hfault, ?_, ?_⟩
  · intro i hi hok
    exact houtcome.executes hstatus hok hi
  · intro hnone hok
    generalize m.step = r at houtcome hok
    cases houtcome with
    | halt hpc => rfl
    | effect hi he => cases hnone.symm.trans (code_of_next? hi)
    | _ => cases hok

/-- Prints a number and then stores it where nothing is declared. -/
def printThenStore : Machine :=
  (create ⟨#[.literal .int (.int 7) "x", .print .int "x", .store .int "x" "y"]⟩ [] {} {}).reset

theorem step_atomic_printThenStore :
    (printThenStore.after 1).status = .running ∧
      (printThenStore.after 1).Executes (.print .int "x") (printThenStore.after 2) ∧
      (printThenStore.after 2).status = .running ∧
      (printThenStore.after 2).Fails (.unallocatedVariable "y") (printThenStore.after 3) := by
  have hprint : (printThenStore.after 1).status = .running := rfl
  have hstore : (printThenStore.after 2).status = .running := rfl
  obtain ⟨-, hexecutes, -⟩ := step_atomic hprint
  obtain ⟨hfails, -, -⟩ := step_atomic hstore
  exact ⟨hprint, hexecutes _ rfl rfl, hstore, hfails _ rfl⟩

end Machine

end ThreeAddress
