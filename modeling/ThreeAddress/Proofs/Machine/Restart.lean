import ThreeAddress.Proofs.Machine.Lifecycle

set_option autoImplicit false

/-! # A reset forgets the past

What a machine does depends on its surroundings only through what the host answers and whether the
output is taken. Two machines that are equal but for surroundings which make no difference there go
on side by side, each printing what the other prints (`Machine.after_movedTo`). After a reset a
machine is equal to a new one but for its surroundings, whatever it was told to do before, so all
that follows is the same (`Machine.reset_forgets_history`). -/

namespace ThreeAddress

/-! ## Surroundings that make no difference -/

/-- The same function is offered under every name. -/
def Capability.AnswerAlike (capabilities capabilities' : List Capability) : Prop :=
  ∀ name, find? capabilities' name = find? capabilities name

theorem Instr.effect_of_answerAlike {capabilities capabilities' : List Capability}
    (h : Capability.AnswerAlike capabilities capabilities') (i : Instr) (policy : UnknownPolicy)
    (address : Nat) (s : Store) :
    i.effect capabilities' policy address s = i.effect capabilities policy address s := by
  cases i with
  | bind name returnType paramTypes => simp only [Instr.effect, bindFunction, h name]
  | _ => rfl

/-- Sinks that take every text, and have taken the same text since they held `base` and `base'`. -/
structure Sink.TakeAlike (base base' : String) (sink sink' : Sink) : Prop where
  accepts : sink.Accepts
  accepts' : sink'.Accepts
  text : ∃ text, sink.text = base ++ text ∧ sink'.text = base' ++ text

theorem Sink.TakeAlike.start {sink sink' : Sink} (h : sink.Accepts) (h' : sink'.Accepts) :
    TakeAlike sink.text sink'.text sink sink' :=
  ⟨h, h', "", String.append_empty.symm, String.append_empty.symm⟩

theorem Sink.TakeAlike.writeLine {base base' : String} {sink sink' : Sink}
    (h : TakeAlike base base' sink sink') (line : String) :
    ∃ sink₁ sink₁', sink.writeLine line = (sink₁, none) ∧ sink'.writeLine line = (sink₁', none) ∧
      TakeAlike base base' sink₁ sink₁' := by
  obtain ⟨text, htext, htext'⟩ := h.text
  obtain ⟨sink₁, hwrite, hline, haccepts⟩ := h.accepts.writeLine line
  obtain ⟨sink₁', hwrite', hline', haccepts'⟩ := h.accepts'.writeLine line
  refine ⟨sink₁, sink₁', hwrite, hwrite', haccepts, haccepts', text ++ line ++ "\n", ?_, ?_⟩
  · rw [hline, htext, String.append_assoc, String.append_assoc, String.append_assoc]
  · rw [hline', htext', String.append_assoc, String.append_assoc, String.append_assoc]

namespace Machine

/-- The same machine in other surroundings. -/
def movedTo (capabilities : List Capability) (sink : Sink) (m : Machine) : Machine :=
  { m with capabilities := capabilities, sink := sink }

section MovedTo

variable (m : Machine) (capabilities : List Capability) (sink : Sink)

@[simp] theorem movedTo_program : (m.movedTo capabilities sink).program = m.program := rfl

@[simp] theorem movedTo_status : (m.movedTo capabilities sink).status = m.status := rfl

@[simp] theorem movedTo_pc : (m.movedTo capabilities sink).pc = m.pc := rfl

@[simp] theorem movedTo_atLimit : (m.movedTo capabilities sink).atLimit = m.atLimit := rfl

end MovedTo

variable {base base' : String} {m m' : Machine} {capabilities : List Capability} {sink : Sink}

/-- What comes of a machine in one surroundings comes of it in the others, and the sinks have gone
    on taking the same. -/
def GoesAlike (base base' : String) (capabilities : List Capability)
    (r r' : Machine × Except Fault Unit) : Prop :=
  ∃ sink, r' = (r.1.movedTo capabilities sink, r.2) ∧ Sink.TakeAlike base base' r.1.sink sink

theorem commit_movedTo (h : Sink.TakeAlike base base' m.sink sink) (e : Effect) :
    GoesAlike base base' capabilities (m.commit e) ((m.movedTo capabilities sink).commit e) := by
  cases e with
  | output line =>
      obtain ⟨sink₁, sink₁', hwrite, hwrite', h₁⟩ := h.writeLine line
      refine ⟨sink₁', ?_, ?_⟩
      · simp only [commit, movedTo, hwrite, hwrite']
      · simp only [commit, hwrite]
        exact h₁
  | _ => exact ⟨sink, rfl, h⟩

theorem execute_movedTo (hcapabilities : Capability.AnswerAlike m.capabilities capabilities)
    (h : Sink.TakeAlike base base' m.sink sink) (i : Instr) :
    GoesAlike base base' capabilities (m.execute i)
      ((m.movedTo capabilities sink).execute i) := by
  have heffect : i.effect (m.movedTo capabilities sink).capabilities
      (m.movedTo capabilities sink).settings.unknownOpcode (m.movedTo capabilities sink).pc
      (m.movedTo capabilities sink).store
        = i.effect m.capabilities m.settings.unknownOpcode m.pc m.store :=
    i.effect_of_answerAlike hcapabilities _ _ _
  unfold execute
  rw [heffect]
  split
  · next e _ => exact commit_movedTo (m := m.advance) h e
  · exact ⟨sink, rfl, h⟩

theorem step_movedTo (hcapabilities : Capability.AnswerAlike m.capabilities capabilities)
    (h : Sink.TakeAlike base base' m.sink sink) :
    GoesAlike base base' capabilities m.step (m.movedTo capabilities sink).step := by
  unfold step
  rw [movedTo_status]
  split
  · unfold stepRunning
    rw [movedTo_pc, movedTo_program, movedTo_atLimit]
    split
    · exact ⟨sink, rfl, h⟩
    · split
      · exact ⟨sink, rfl, h⟩
      · next i _ =>
          split
          · exact ⟨sink, rfl, h⟩
          · exact execute_movedTo hcapabilities h i
  all_goals exact ⟨sink, rfl, h⟩

/-- Machines that are equal but for their surroundings stay so, step by step. -/
theorem after_movedTo (hcapabilities : Capability.AnswerAlike m.capabilities capabilities)
    (h : Sink.TakeAlike base base' m.sink sink) (n : Nat) :
    ∃ sink', (m.movedTo capabilities sink).after n = (m.after n).movedTo capabilities sink' ∧
      Sink.TakeAlike base base' (m.after n).sink sink' := by
  induction n with
  | zero => exact ⟨sink, rfl, h⟩
  | succ n ih =>
      obtain ⟨sink₁, hafter, h₁⟩ := ih
      have hcapabilities₁ : Capability.AnswerAlike (m.after n).capabilities capabilities := by
        rw [(m.after_sameSetup n).capabilities]
        exact hcapabilities
      obtain ⟨sink₂, hstep, h₂⟩ := step_movedTo hcapabilities₁ h₁
      refine ⟨sink₂, ?_, ?_⟩
      · rw [after_succ', after_succ', hafter, hstep]
      · rw [after_succ']
        exact h₂

/-! ## Histories -/

theorem start_sameSetup (m : Machine) : m.SameSetup m.start := by
  unfold start
  split <;> exact ⟨rfl, rfl, rfl⟩

theorem start_sink (m : Machine) : m.start.sink = m.sink := by
  unfold start
  split <;> rfl

/-- No call changes what the machine was made with. -/
theorem Call.Leaves.sameSetup {call : Call} (h : call.Leaves m m') : m.SameSetup m' := by
  cases h with
  | reset => exact ⟨rfl, rfl, rfl⟩
  | step => exact m.step_sameSetup
  | run hrun =>
      rw [eq_after_of_run hrun]
      exact m.start_sameSetup.trans (m.start.after_sameSetup _)

/-- No call changes what the sink refuses. -/
theorem Call.Leaves.sameRules {call : Call} (h : call.Leaves m m') :
    m.sink.SameRules m'.sink := by
  cases h with
  | reset => exact .refl _
  | step => exact m.step_sameRules
  | run hrun =>
      rw [eq_after_of_run hrun, ← m.start_sink]
      exact m.start.after_sameRules _

theorem Called.sameSetup {calls : List Call} (h : Called m calls m') : m.SameSetup m' := by
  induction h with
  | nil => exact .refl m
  | cons _ hcall ih => exact ih.trans hcall.sameSetup

theorem Called.sameRules {calls : List Call} (h : Called m calls m') :
    m.sink.SameRules m'.sink := by
  induction h with
  | nil => exact .refl _
  | cons _ hcall ih => exact ih.trans hcall.sameRules

/-- A reset leaves nothing of a machine but what it was made with and its sink. -/
theorem SameSetup.reset (h : m.SameSetup m') : m'.reset = { m.reset with sink := m'.sink } := by
  simp only [Machine.reset, ← h.program, ← h.capabilities, ← h.settings]

/-- **A reset forgets the past.** Make a machine whose sink takes every text, tell it anything, and
    reset it. Compare it with a new machine for the same program and settings, whose capabilities
    answer alike and whose sink takes every text, after its first reset. After any number of steps
    both have the same status, the same place, the same counters and the same store; they have
    printed the same text since the reset; and the next step reports the same. -/
theorem reset_forgets_history {program : Program} {capabilities capabilities' : List Capability}
    {settings : Settings} {sink sink' : Sink} {calls : List Call}
    (h : Called (create program capabilities settings sink) calls m) (hsink : sink.Accepts)
    (hsink' : sink'.Accepts) (halike : Capability.AnswerAlike capabilities capabilities')
    (n : Nat) :
    let again := m.reset.after n
    let new := (create program capabilities' settings sink').reset.after n
    (new.status = again.status ∧ new.pc = again.pc ∧ new.steps = again.steps ∧
      new.hits = again.hits ∧ new.store = again.store) ∧
    (∃ text, again.sink.text = m.sink.text ++ text ∧ new.sink.text = sink'.text ++ text) ∧
    new.step.2 = again.step.2 := by
  intro again new
  have hm : m.sink.Accepts := h.sameRules.accepts hsink
  have hcapabilities : m.capabilities = capabilities := h.sameSetup.capabilities
  -- the new machine is the one that was reset, in other surroundings
  have hreset : (create program capabilities' settings sink').reset
      = m.reset.movedTo capabilities' sink' := by
    rw [h.sameSetup.reset]
    rfl
  obtain ⟨sink₁, hafter, halike₁⟩ := after_movedTo (m := m.reset) (n := n)
    (hcapabilities ▸ halike) (Sink.TakeAlike.start hm hsink')
  have hnew : new = again.movedTo capabilities' sink₁ := (congrArg (after · n) hreset).trans hafter
  have hagain : Capability.AnswerAlike again.capabilities capabilities' := by
    rw [(m.reset.after_sameSetup n).capabilities]
    exact hcapabilities ▸ halike
  obtain ⟨sink₂, hstep, -⟩ := step_movedTo hagain halike₁
  rw [hnew, hstep]
  exact ⟨⟨rfl, rfl, rfl, rfl, rfl⟩, halike₁.text, rfl⟩

/-- Declares and prints a variable, and then stores to another one that is not declared. -/
def stumbling : Machine :=
  create ⟨#[.alloc .int "x", .print .int "x", .store .int "x" "y"]⟩ [] {} {}

/-- A machine that was stepped too early and has then failed starts over like a new one. -/
theorem reset_forgets_history_stumbling :
    ∃ m, stumbling.Called [.run, .step] m ∧ m.status = .failed (.unallocatedVariable "y") ∧
      m.sink.text = "0\n" ∧ (m.reset.after 2).sink.text = "0\n0\n" ∧
      (m.reset.after 2).store = (stumbling.reset.after 2).store ∧
      (m.reset.after 2).step.2 = .error (.unallocatedVariable "y") := by
  have hstep : stumbling.Called [.step] stumbling := .cons .nil .step
  have hrun : stumbling.run 3
      = some (stumbling.reset.after 3, .error (.unallocatedVariable "y")) := rfl
  have hcalls : stumbling.Called [.run, .step] (stumbling.reset.after 3) := hstep.cons (.run hrun)
  obtain ⟨⟨-, -, -, -, hstore⟩, ⟨text, hagain, hnew⟩, hresult⟩ :=
    reset_forgets_history hcalls (fun _ _ => rfl) (show Sink.Accepts {} from fun _ _ => rfl)
      (fun _ => rfl) 2
  have htext : "0\n" = "" ++ text := hnew
  rw [String.empty_append] at htext
  refine ⟨_, hcalls, rfl, rfl, ?_, hstore.symm, hresult.symm⟩
  rw [hagain, ← htext]
  rfl

end Machine

end ThreeAddress
