import ThreeAddress.Proofs.Machine.Closed
import ThreeAddress.Proofs.Machine.StepLimit

set_option autoImplicit false

/-! # Lenient machines run programs without their unknown instructions

A lenient machine skips every instruction from outside the instruction set. It does so at the cost
of a step each, and otherwise nothing comes of them: what remains of the program when they are
removed, with its labels moved along (`Program.erased`), does the same. The machine for the whole
program makes the steps of the other one, and between them steps that the other one need not make
(`Machine.Erases.step`). A strict machine does the same as the lenient one until it comes to the
first unknown instruction (`Machine.after_withPolicy`). -/

namespace ThreeAddress

/-! ## Programs without unknown instructions -/

/-- Whether an instruction is from outside the instruction set. -/
def Instr.isUnknown : Instr → Bool
  | .unknown _ _ => true
  | _ => false

/-- The label of code whose addresses have moved. -/
def Label.relocate (f : Nat → Nat) : Label → Label
  | .block id => .block id
  | .address a => .address (f a)

/-- The instruction of code whose addresses have moved. -/
def Instr.relocate (f : Nat → Nat) : Instr → Instr
  | .jump label => .jump (label.relocate f)
  | .branch test ifTrue ifFalse => .branch test (ifTrue.relocate f) (ifFalse.relocate f)
  | i => i

namespace Program

/-- The number of unknown instructions at addresses below `a`. -/
def unknownBelow (p : Program) (a : Nat) : Nat := (p.code.toList.take a).countP Instr.isUnknown

/-- The address that `a` becomes when the unknown instructions are removed. -/
def erasedAddress (p : Program) (a : Nat) : Nat := a - p.unknownBelow a

/-- The program without its unknown instructions. -/
def erased (p : Program) : Program :=
  ⟨((p.code.toList.filter (fun i => !i.isUnknown)).map (Instr.relocate p.erasedAddress)).toArray⟩

variable {p : Program} {a : Nat} {i : Instr}

theorem unknownBelow_le (p : Program) (a : Nat) : p.unknownBelow a ≤ a :=
  Nat.le_trans List.countP_le_length (List.length_take_le a _)

theorem unknownBelow_succ (hi : p.code[a]? = some i) :
    p.unknownBelow (a + 1) = p.unknownBelow a + if i.isUnknown then 1 else 0 := by
  simp [unknownBelow, List.take_add_one, hi, List.countP_append]

/-- An unknown instruction leaves no room, every other one keeps its place. -/
theorem erasedAddress_succ (hi : p.code[a]? = some i) :
    p.erasedAddress (a + 1) = p.erasedAddress a + if i.isUnknown then 0 else 1 := by
  have hle := p.unknownBelow_le a
  rw [erasedAddress, erasedAddress, unknownBelow_succ hi]
  split <;> omega

/-- Within the program, an address becomes the number of known instructions in front of it. -/
theorem erasedAddress_eq_length (h : a ≤ p.size) :
    p.erasedAddress a = ((p.code.toList.take a).filter (fun i => !i.isUnknown)).length := by
  have hlength : (p.code.toList.take a).length = a := List.length_take_of_le h
  have hcount := List.length_eq_countP_add_countP Instr.isUnknown (l := p.code.toList.take a)
  simp only [hlength, Bool.not_eq_true, Bool.decide_eq_false] at hcount
  rw [erasedAddress, unknownBelow, ← List.countP_eq_length_filter]
  omega

/-- Every known instruction is found at the address that its own has become. -/
theorem erased_code_getElem? (hi : p.code[a]? = some i) (hknown : i.isUnknown = false) :
    p.erased.code[p.erasedAddress a]? = some (i.relocate p.erasedAddress) := by
  obtain ⟨hlt, rfl⟩ := Array.getElem?_eq_some_iff.1 hi
  have hsplit : p.code.toList
      = p.code.toList.take a ++ p.code[a] :: p.code.toList.drop (a + 1) := by
    rw [← Array.getElem_toList, ← List.drop_eq_getElem_cons, List.take_append_drop]
  have hfilter : p.code.toList.filter (fun i => !i.isUnknown)
      = (p.code.toList.take a).filter (fun i => !i.isUnknown)
        ++ p.code[a] :: (p.code.toList.drop (a + 1)).filter (fun i => !i.isUnknown) := by
    conv => lhs; rw [hsplit]
    rw [List.filter_append, List.filter_cons_of_pos (by simp [hknown])]
  rw [erased, List.getElem?_toArray, List.getElem?_map, hfilter,
    erasedAddress_eq_length (Nat.le_of_lt hlt), List.getElem?_append_right (Nat.le_refl _),
    Nat.sub_self, List.getElem?_cons_zero, Option.map_some]

/-- An address behind the program is as far behind what remains of it. -/
theorem erasedAddress_of_size_le (h : p.size ≤ a) :
    p.erasedAddress a = p.erased.size + (a - p.size) := by
  have hall : p.code.toList.take p.size = p.code.toList := List.take_length
  have hsize : p.erased.size = p.erasedAddress p.size := by
    rw [erasedAddress_eq_length (Nat.le_refl _), hall]
    simp [size, erased]
  have hbelow : p.unknownBelow a = p.unknownBelow p.size := by
    rw [unknownBelow, unknownBelow, List.take_of_length_le h, hall]
  have hle := p.unknownBelow_le p.size
  rw [hsize, erasedAddress, erasedAddress, hbelow]
  omega

end Program

/-! ## Instructions that have moved -/

/-- The effect of an instruction that has been relocated. -/
def Effect.relocate (f : Nat → Nat) : Effect → Effect
  | .goto a => .goto (f a)
  | e => e

/-- Only an unknown instruction depends on the policy and on its own address. -/
theorem Instr.effect_of_known {i : Instr} (hi : i.isUnknown = false)
    (capabilities : List Capability) (policy policy' : UnknownPolicy) (address address' : Nat)
    (s : Store) :
    i.effect capabilities policy' address' s = i.effect capabilities policy address s := by
  cases i with
  | unknown opcode operands => cases hi
  | _ => rfl

/-- A known instruction that has been relocated does the same, but goes on at the new address. -/
theorem Instr.effect_relocate {i : Instr} (hi : i.isUnknown = false) (f : Nat → Nat)
    (capabilities : List Capability) (policy policy' : UnknownPolicy) (address address' : Nat)
    (s : Store) :
    (i.relocate f).effect capabilities policy' address' s
      = (i.effect capabilities policy address s).map (Effect.relocate f) := by
  cases hjump : i.isJump with
  | true =>
      cases i with
      | jump label => cases label <;> rfl
      | branch test ifTrue ifFalse =>
          simp only [Instr.relocate, Instr.effect]
          cases s.readTyped test .bool with
          | error fault => rfl
          | ok c =>
              simp only [ok_bind]
              split
              · cases ifTrue <;> rfl
              · cases ifFalse <;> rfl
      | _ => cases hjump
  | false =>
      have hsame : i.relocate f = i := by
        cases i with
        | jump label => cases hjump
        | branch test ifTrue ifFalse => cases hjump
        | _ => rfl
      rw [hsame, i.effect_of_known hi capabilities policy policy' address address' s]
      cases he : i.effect capabilities policy address s with
      | error fault => rfl
      | ok e =>
          cases e with
          | goto a => exact absurd rfl (Instr.effect_ne_goto hjump he a)
          | _ => rfl

/-- A fault with the numbers that it has when the unknown instructions are removed. -/
def Fault.renumber (p : Program) : Fault → Fault
  | .addressOutOfRange a _ => .addressOutOfRange (p.erasedAddress a) p.erased.size
  | fault => fault

/-- The faults of known instructions have no such numbers. -/
theorem Instr.effect_raises_renumbered {i : Instr} (hi : i.isUnknown = false) (p : Program)
    (capabilities : List Capability) (policy : UnknownPolicy) (address : Nat) (s : Store) :
    Raises (fun fault => fault.renumber p = fault) (i.effect capabilities policy address s) := by
  have hmild (fault : Fault) (h : fault.IsMild) : fault.renumber p = fault := by
    cases fault with
    | addressOutOfRange a size => cases h
    | _ => rfl
  have hlabel (label : Label) : Raises (fun fault => fault.renumber p = fault) label.address? := by
    cases label with
    | block id => exact .error rfl
    | address a => exact .ok a
  cases hjump : i.isJump with
  | true =>
      cases i with
      | jump label => exact (hlabel label).bind fun _ _ => .ok _
      | branch test ifTrue ifFalse =>
          exact ((Raises.readTyped s test .bool).mono hmild).bind fun c _ =>
            (hlabel _).bind fun _ _ => .ok _
      | _ => cases hjump
  | false =>
      have hknown (opcode operands) : i ≠ .unknown opcode operands := by
        rintro rfl
        cases hi
      exact (Instr.effect_raises_mild hjump hknown capabilities policy address s).mono hmild

/-! ## Two machines side by side -/

/-- How far a machine has come if the unknown instructions are removed. -/
def Status.renumber (p : Program) : Status → Status
  | .failed fault => .failed (fault.renumber p)
  | status => status

theorem Status.renumber_eq_running_iff {p : Program} {status : Status} :
    status.renumber p = .running ↔ status = .running := by
  cases status <;> simp [Status.renumber]

namespace Machine

/-- The lenient machine `m` has come as far in its program as `m'` in what remains of the program
    without the unknown instructions. -/
structure Erases (m m' : Machine) : Prop where
  program : m'.program = m.program.erased
  capabilities : m'.capabilities = m.capabilities
  lenient : m.settings.unknownOpcode = .warn
  unlimited : m.settings.stepLimit = none
  unlimited' : m'.settings.stepLimit = none
  status : m'.status = m.status.renumber m.program
  pc : m'.pc = m.program.erasedAddress m.pc
  store : m'.store = m.store
  sink : m'.sink = m.sink

variable {m m' : Machine} {i : Instr}

namespace Erases

theorem running_iff (h : m.Erases m') : m'.status = .running ↔ m.status = .running := by
  rw [h.status, Status.renumber_eq_running_iff]

theorem fail (h : m.Erases m') (fault : Fault) :
    (m.fail fault).1.Erases (m'.fail (fault.renumber m.program)).1 :=
  { h with status := rfl }

theorem commit (h : m.Erases m') (e : Effect) :
    (m.commit e).1.Erases (m'.commit (e.relocate m.program.erasedAddress)).1 := by
  cases e with
  | skip => exact h
  | write name value => exact { h with store := congrArg (·.set name value) h.store }
  | allocate name type => exact { h with store := congrArg (·.allocate name type) h.store }
  | goto a => exact { h with pc := rfl }
  | output line =>
      simp only [Machine.commit, Effect.relocate, h.sink]
      split
      · exact { h with sink := rfl }
      · next sink reason _ =>
          have hsink : ({ m with sink := sink } : Machine).Erases { m' with sink := sink } :=
            { h with sink := rfl }
          exact hsink.fail (.output reason)

/-- Behind an unknown instruction the other machine has nothing more to do. -/
theorem advance_of_unknown (h : m.Erases m') (hi : m.program.code[m.pc]? = some i)
    (hunknown : i.isUnknown = true) : m.advance.Erases m' := by
  have hpc : m'.pc = m.program.erasedAddress (m.pc + 1) := by
    rw [h.pc, Program.erasedAddress_succ hi, if_pos hunknown, Nat.add_zero]
  exact { h with pc := hpc }

/-- Behind a known instruction the other machine is behind its instruction, too. -/
theorem advance_of_known (h : m.Erases m') (hi : m.program.code[m.pc]? = some i)
    (hknown : i.isUnknown = false) : m.advance.Erases m'.advance := by
  have hpc : m'.pc + 1 = m.program.erasedAddress (m.pc + 1) := by
    rw [h.pc, Program.erasedAddress_succ hi, hknown]
    rfl
  exact { h with pc := hpc }

theorem execute (h : m.Erases m') (hi : m.program.code[m.pc]? = some i)
    (hknown : i.isUnknown = false) :
    (m.execute i).1.Erases (m'.execute (i.relocate m.program.erasedAddress)).1 := by
  have hadvance := h.advance_of_known hi hknown
  unfold Machine.execute
  rw [h.capabilities, h.store,
    Instr.effect_relocate hknown _ _ m.settings.unknownOpcode _ m.pc _ m.store]
  cases he : i.effect m.capabilities m.settings.unknownOpcode m.pc m.store with
  | ok e => exact hadvance.commit e
  | error fault =>
      have hsame := Instr.effect_raises_renumbered hknown m.program _ _ _ _ fault he
      have hfail := hadvance.fail fault
      rwa [show fault.renumber m.advance.program = fault from hsame] at hfail

end Erases

/-! ## Steps and runs side by side -/

/-- The next step executes an unknown instruction. -/
def MeetsUnknown (m : Machine) : Prop :=
  ∃ opcode operands, m.next? = some (.unknown opcode operands)

theorem known_of_next? (h : ¬ m.MeetsUnknown) (hi : m.next? = some i) : i.isUnknown = false := by
  cases i with
  | unknown opcode operands => exact absurd ⟨opcode, operands, hi⟩ h
  | _ => rfl

namespace Erases

/-- An unknown instruction takes a step of the lenient machine only. -/
theorem step_of_meetsUnknown (h : m.Erases m') (hunknown : m.MeetsUnknown) :
    m.step.1 = m.advance ∧ m.step.1.Erases m' := by
  obtain ⟨opcode, operands, hi⟩ := hunknown
  have hstep : m.step.1 = m.advance := by
    rw [step_of_next? hi]
    simp only [Machine.execute, Instr.effect, h.lenient]
    rfl
  rw [hstep]
  exact ⟨rfl, h.advance_of_unknown (code_of_next? hi) rfl⟩

/-- Where there is no instruction, the other machine has none either. -/
theorem step_of_code_eq_none (h : m.Erases m') (hrunning : m.status = .running)
    (hcode : m.program.code[m.pc]? = none) : m.step.1.Erases m'.step.1 := by
  have hle : m.program.size ≤ m.pc := Array.getElem?_eq_none_iff.1 hcode
  have hpc : m'.pc = m.program.erased.size + (m.pc - m.program.size) := by
    rw [h.pc, Program.erasedAddress_of_size_le hle]
  have hcode' : m'.program.code[m'.pc]? = none := by
    rw [h.program, Array.getElem?_eq_none_iff, hpc]
    exact Nat.le_add_right _ _
  have hend : m'.pc = m'.program.size ↔ m.pc = m.program.size := by
    rw [hpc, h.program]
    omega
  rw [Machine.step_of_code_eq_none hrunning hcode,
    Machine.step_of_code_eq_none (h.running_iff.2 hrunning) hcode']
  refine { h with status := ?_ }
  simp only [hend]
  split
  · rfl
  · rw [h.pc, h.program]
    rfl

/-- Every other step is a step of both machines. -/
theorem step (h : m.Erases m') (hunknown : ¬ m.MeetsUnknown) : m.step.1.Erases m'.step.1 := by
  by_cases hrunning : m.status = .running
  · have hrunning' := h.running_iff.2 hrunning
    cases hcode : m.program.code[m.pc]? with
    | none => exact h.step_of_code_eq_none hrunning hcode
    | some i =>
        have hi : m.next? = some i := by
          simp only [next?, hrunning, atLimit_of_stepLimit_eq_none h.unlimited, hcode]
        have hknown := known_of_next? hunknown hi
        have hi' : m'.next? = some (i.relocate m.program.erasedAddress) := by
          simp only [next?, hrunning', atLimit_of_stepLimit_eq_none h.unlimited', h.program, h.pc,
            Program.erased_code_getElem? hcode hknown]
        rw [step_of_next? hi, step_of_next? hi']
        exact h.execute hcode hknown
  · rw [step_of_not_running hrunning, step_of_not_running (mt h.running_iff.1 hrunning)]
    exact h

/-- Wherever the lenient machine comes, the other one comes as well. -/
theorem after (h : m.Erases m') (n : Nat) : ∃ k, (m.after n).Erases (m'.after k) := by
  induction n with
  | zero => exact ⟨0, h⟩
  | succ n ih =>
      obtain ⟨k, hk⟩ := ih
      rw [after_succ']
      by_cases hunknown : (m.after n).MeetsUnknown
      · exact ⟨k, (hk.step_of_meetsUnknown hunknown).2⟩
      · refine ⟨k + 1, ?_⟩
        rw [after_succ']
        exact hk.step hunknown

/-- The lenient machine follows each step of the other one, once it has got over the unknown
    instructions in its way. They cannot go on beyond the end of the program. -/
theorem exists_after_step (h : m.Erases m') : ∃ n, (m.after n).Erases m'.step.1 := by
  induction hdistance : m.program.size - m.pc generalizing m with
  | zero =>
      have hknown : ¬ m.MeetsUnknown := by
        rintro ⟨opcode, operands, hi⟩
        have hlt := pc_lt_of_next? hi
        omega
      exact ⟨1, h.step hknown⟩
  | succ d ih =>
      by_cases hunknown : m.MeetsUnknown
      · obtain ⟨hstep, hskip⟩ := h.step_of_meetsUnknown hunknown
        have hcloser : m.step.1.program.size - m.step.1.pc = d := by
          rw [hstep]
          change m.program.size - (m.pc + 1) = d
          omega
        obtain ⟨n, hn⟩ := ih hskip hcloser
        exact ⟨n + 1, hn⟩
      · exact ⟨1, h.step hunknown⟩

/-- Wherever the other machine comes, the lenient one comes as well. -/
theorem exists_after (h : m.Erases m') (k : Nat) : ∃ n, (m.after n).Erases (m'.after k) := by
  induction k with
  | zero => exact ⟨0, h⟩
  | succ k ih =>
      obtain ⟨n, hn⟩ := ih
      obtain ⟨d, hd⟩ := hn.exists_after_step
      refine ⟨n + d, ?_⟩
      rw [after_add, after_succ']
      exact hd

theorem conclude (h : m.Erases m') :
    m'.conclude.2 = m.conclude.2.mapError (Fault.renumber m.program) := by
  simp only [Machine.conclude, Machine.finish, h.status, h.sink]
  cases m.status <;> cases m.sink.flush <;> rfl

/-- Two machines that are in step when they start end both or neither. -/
theorem ends_iff (h : m.reset.Erases m'.reset) (hm : m.status = .setup)
    (hm' : m'.status = .setup) :
    (∃ fuel r, m.run fuel = some r) ↔ ∃ fuel r, m'.run fuel = some r := by
  constructor
  · rintro ⟨fuel, r, hrun⟩
    obtain ⟨hstopped, -⟩ := (run_eq_some_iff hm).1 hrun
    obtain ⟨k, hk⟩ := h.after fuel
    exact ⟨k, _, (run_eq_some_iff hm').2 ⟨mt hk.running_iff.1 hstopped, rfl⟩⟩
  · rintro ⟨fuel, r, hrun⟩
    obtain ⟨hstopped, -⟩ := (run_eq_some_iff hm').1 hrun
    obtain ⟨n, hn⟩ := h.exists_after fuel
    exact ⟨n, _, (run_eq_some_iff hm).2 ⟨mt hn.running_iff.2 hstopped, rfl⟩⟩

/-- However they got there, they end alike. -/
theorem run (h : m.reset.Erases m'.reset) (hm : m.status = .setup) (hm' : m'.status = .setup)
    {fuel fuel' : Nat} {final final' : Machine} {result result' : Except Fault Unit}
    (hrun : m.run fuel = some (final, result)) (hrun' : m'.run fuel' = some (final', result')) :
    final.Erases final' ∧ result' = result.mapError (Fault.renumber m.program) := by
  obtain ⟨hstopped, hfinal⟩ := (run_eq_some_iff hm).1 hrun
  obtain ⟨hstopped', hfinal'⟩ := (run_eq_some_iff hm').1 hrun'
  obtain ⟨k, hk⟩ := h.after fuel
  rw [after_eq_after (mt hk.running_iff.1 hstopped) hstopped'] at hk
  have hresult := hk.conclude
  rw [(m.reset.after_sameSetup fuel).program] at hresult
  rw [conclude_eq_mk, Prod.mk.injEq] at hfinal hfinal'
  obtain ⟨rfl, rfl⟩ := hfinal
  obtain ⟨rfl, rfl⟩ := hfinal'
  exact ⟨hk, hresult⟩

end Erases

/-! ## Strict machines -/

/-- The same machine with another policy for unknown instructions. -/
def withPolicy (policy : UnknownPolicy) (m : Machine) : Machine :=
  { m with settings := { m.settings with unknownOpcode := policy } }

section WithPolicy

variable (m : Machine) (policy : UnknownPolicy)

@[simp] theorem withPolicy_program : (m.withPolicy policy).program = m.program := rfl

@[simp] theorem withPolicy_status : (m.withPolicy policy).status = m.status := rfl

@[simp] theorem withPolicy_pc : (m.withPolicy policy).pc = m.pc := rfl

@[simp] theorem withPolicy_atLimit : (m.withPolicy policy).atLimit = m.atLimit := rfl

end WithPolicy

theorem commit_withPolicy (m : Machine) (policy : UnknownPolicy) (e : Effect) :
    (m.withPolicy policy).commit e = ((m.commit e).1.withPolicy policy, (m.commit e).2) := by
  rw [withPolicy, commit_withSettings, withPolicy, (m.commit_sameSetup e).settings]

theorem execute_withPolicy (m : Machine) (policy : UnknownPolicy) (hi : i.isUnknown = false) :
    (m.withPolicy policy).execute i = ((m.execute i).1.withPolicy policy, (m.execute i).2) := by
  have heffect : i.effect (m.withPolicy policy).capabilities
      (m.withPolicy policy).settings.unknownOpcode (m.withPolicy policy).pc
      (m.withPolicy policy).store
        = i.effect m.capabilities m.settings.unknownOpcode m.pc m.store :=
    i.effect_of_known hi _ _ _ _ _ _
  unfold execute
  rw [heffect]
  split
  · next e _ => exact m.advance.commit_withPolicy policy e
  · rfl

/-- The policy matters to a step only if it executes an unknown instruction. -/
theorem step_withPolicy (policy : UnknownPolicy) (hunknown : ¬ m.MeetsUnknown) :
    (m.withPolicy policy).step = (m.step.1.withPolicy policy, m.step.2) := by
  unfold step
  rw [withPolicy_status]
  split
  · next hrunning =>
      unfold stepRunning
      rw [withPolicy_pc, withPolicy_program, withPolicy_atLimit]
      split
      · rfl
      · split
        · rfl
        · next i hcode =>
            split
            · rfl
            · next hlimit =>
                have hi : m.next? = some i := by simp only [next?, hrunning, hlimit, hcode]
                exact execute_withPolicy m policy (known_of_next? hunknown hi)
  all_goals rfl

theorem after_withPolicy (policy : UnknownPolicy) {n : Nat}
    (h : ∀ k < n, ¬ (m.after k).MeetsUnknown) :
    (m.withPolicy policy).after n = (m.after n).withPolicy policy := by
  induction n with
  | zero => rfl
  | succ n ih =>
      rw [after_succ', after_succ', ih fun k hk => h k (Nat.lt_succ_of_lt hk),
        step_withPolicy policy (h n (Nat.lt_succ_self n))]

/-- A strict machine stops at an unknown instruction, and names its address. -/
theorem step_of_strict {opcode : String} {operands : List Operand}
    (h : m.settings.unknownOpcode = .fatal) (hi : m.next? = some (.unknown opcode operands)) :
    m.step = m.advance.fail (.unknownOpcode opcode m.pc) := by
  rw [step_of_next? hi]
  simp only [execute, Instr.effect, h]

/-- A strict machine runs up to the first unknown instruction and fails there, having stored and
    printed what another machine has when it comes to the instruction. -/
theorem run_of_strict (hm : m.status = .setup) {n : Nat} {opcode : String}
    {operands : List Operand} (hbefore : ∀ k < n, ¬ (m.reset.after k).MeetsUnknown)
    (hi : (m.reset.after n).next? = some (.unknown opcode operands)) :
    ∃ final, (m.withPolicy .fatal).run (n + 1)
        = some (final, .error (.unknownOpcode opcode (m.reset.after n).pc)) ∧
      final.sink = (m.reset.after n).sink ∧ final.store = (m.reset.after n).store := by
  have hafter : (m.withPolicy .fatal).reset.after n = (m.reset.after n).withPolicy .fatal :=
    after_withPolicy (m := m.reset) .fatal hbefore
  have hstep : (m.withPolicy .fatal).reset.after (n + 1)
      = (((m.reset.after n).withPolicy .fatal).advance.fail
          (.unknownOpcode opcode (m.reset.after n).pc)).1 := by
    rw [after_succ', hafter, step_of_strict (m := (m.reset.after n).withPolicy .fatal) rfl hi]
    rfl
  refine ⟨_, run_of_failed (m := m.withPolicy .fatal) hm ?_, ?_, ?_⟩ <;>
  · rw [hstep]
    rfl

/-! ## New machines -/

/-- At the start the lenient machine and the one for what remains of the program are in step. -/
theorem Erases.create (program : Program) (capabilities : List Capability)
    (settings : Settings) (sink : Sink) :
    (((create program capabilities settings sink).withLimit none).withPolicy .warn).reset.Erases
      ((create program.erased capabilities settings sink).withLimit none).reset where
  program := rfl
  capabilities := rfl
  lenient := rfl
  unlimited := rfl
  unlimited' := rfl
  status := rfl
  pc := (Nat.zero_sub _).symm
  store := rfl
  sink := rfl

/-- **Leniency is erasure.** Take any program, and what remains of it when its unknown instructions
    are removed and every address is lowered by the number of unknown instructions below it. Without
    a step limit a lenient machine ends its run of the program if and only if a machine of any
    policy ends its run of what remains, and then both have printed the same, hold the same store
    and report the same, up to the numbers of an address that is out of range. A strict machine goes
    through the same states as the lenient one until that one executes an unknown instruction; there
    it fails, and names the address of the instruction. -/
theorem lenient_run_is_erasure (program : Program) (capabilities : List Capability)
    (settings : Settings) (sink : Sink) :
    let m := (create program capabilities settings sink).withLimit none
    let lenient := m.withPolicy .warn
    let strict := m.withPolicy .fatal
    let erased := (create program.erased capabilities settings sink).withLimit none
    ((∃ fuel r, lenient.run fuel = some r) ↔ ∃ fuel r, erased.run fuel = some r) ∧
    (∀ fuel fuel' final final' result result', lenient.run fuel = some (final, result) →
      erased.run fuel' = some (final', result') →
      final'.sink = final.sink ∧ final'.store = final.store ∧
        result' = result.mapError (Fault.renumber program)) ∧
    (∀ n, (∀ k < n, ¬ (lenient.reset.after k).MeetsUnknown) →
      let reached := lenient.reset.after n
      strict.reset.after n = reached.withPolicy .fatal ∧
      (¬ reached.MeetsUnknown → (strict.reset.after n).step.2 = reached.step.2) ∧
      ∀ opcode operands, reached.next? = some (.unknown opcode operands) →
        program.code[reached.pc]? = some (.unknown opcode operands) ∧
        ∃ final, strict.run (n + 1) = some (final, .error (.unknownOpcode opcode reached.pc)) ∧
          final.sink = reached.sink ∧ final.store = reached.store) := by
  intro m lenient strict erased
  have hlenient : lenient.status = .setup := rfl
  have herased : erased.status = .setup := rfl
  have hstart : lenient.reset.Erases erased.reset := .create program capabilities settings sink
  refine ⟨hstart.ends_iff hlenient herased, ?_, ?_⟩
  · intro fuel fuel' final final' result result' hrun hrun'
    obtain ⟨hfinal, hresult⟩ := hstart.run hlenient herased hrun hrun'
    exact ⟨hfinal.sink, hfinal.store, hresult⟩
  · intro n hbefore reached
    have hafter : strict.reset.after n = reached.withPolicy .fatal :=
      after_withPolicy (m := lenient.reset) .fatal hbefore
    refine ⟨hafter, fun hunknown => ?_, fun opcode operands hi => ⟨?_, ?_⟩⟩
    · rw [hafter, step_withPolicy .fatal hunknown]
    · have hcode := code_of_next? hi
      rwa [(lenient.reset.after_sameSetup n).program] at hcode
    · exact run_of_strict hlenient hbefore hi

/-- Jumps over one unknown instruction onto another, prints, and leaves the program. -/
def probing : Machine :=
  create ⟨#[.alloc .int "x", .jump (.address 3), .unknown "trace" [], .unknown "probe" [],
    .print .int "x", .jump (.address 7)]⟩ [] {} {}

/-- What remains of `probing`. -/
def probingErased : Machine :=
  create ⟨#[.alloc .int "x", .jump (.address 2), .print .int "x", .jump (.address 5)]⟩ [] {} {}

/-- The lenient machine skips the second of the two instructions and is lost in the end, as is the
    machine for what remains of the program; the strict one stops at the instruction. -/
theorem lenient_run_is_erasure_probing :
    probingErased.program = probing.program.erased ∧
    (∃ final final',
      (probing.withPolicy .warn).run 6 = some (final, .error (.addressOutOfRange 7 6)) ∧
      probingErased.run 5 = some (final', .error (.addressOutOfRange 5 4)) ∧
      final.sink.text = "0\n" ∧ final'.sink = final.sink ∧ final'.store = final.store) ∧
    ∃ final,
      (probing.withPolicy .fatal).run 3 = some (final, .error (.unknownOpcode "probe" 3)) := by
  have hlost : ((probing.withPolicy .warn).reset.after 6).status
      = .failed (.addressOutOfRange 7 6) := rfl
  have hlost' : (probingErased.reset.after 5).status = .failed (.addressOutOfRange 5 4) := rfl
  have hbefore : ∀ k < 2, ¬ ((probing.withPolicy .warn).reset.after k).MeetsUnknown := by
    rintro k hk ⟨opcode, operands, hi⟩
    obtain rfl | rfl : k = 0 ∨ k = 1 := by omega
    · cases Option.some.inj hi
    · cases Option.some.inj hi
  have hrun := run_of_failed (m := probing.withPolicy .warn) rfl hlost
  have hrun' := run_of_failed (m := probingErased) rfl hlost'
  obtain ⟨-, hends, hstrict⟩ := lenient_run_is_erasure probing.program [] {} {}
  obtain ⟨hsink, hstore, -⟩ := hends 6 5 _ _ _ _ hrun hrun'
  obtain ⟨-, -, hstops⟩ := hstrict 2 hbefore
  obtain ⟨-, final, hfinal, -⟩ := hstops "probe" [] rfl
  exact ⟨rfl, ⟨_, _, hrun, hrun', rfl, hsink, hstore⟩, final, hfinal⟩

end Machine

end ThreeAddress
