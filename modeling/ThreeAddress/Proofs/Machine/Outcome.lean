import ThreeAddress.Proofs.Machine.Footprint

set_option autoImplicit false

/-! # What one step can do

A step of a running machine ends in one of five ways (`Machine.Outcome`): the machine halts at the
end of the program, it finds no instruction, it may not execute any more, the instruction fails, or
the instruction has an effect. Which effect that is follows from the instruction, up to the value
that it writes (`Instr.Causes`). What is to be shown of every step is a case analysis on the two. -/

namespace ThreeAddress

/-! ## The effects of an instruction -/

/-- The effects that an instruction can have if it succeeds in the store `s`. -/
inductive Instr.Causes (s : Store) : Instr → Effect → Prop
  | allocate (type : ScalarType) (name : String) :
      Causes s (.alloc type name) (.allocate name type)
  | write {i : Instr} {name : String} (hname : i.written? = some name)
      (hi : ∀ type name, i ≠ .alloc type name) (v : Value) : Causes s i (.write name v)
  | output {type : ScalarType} {source : String} {c : Constant}
      (hsource : s.get? source = some (.scalar c)) (htype : c.type = type) :
      Causes s (.print type source) (.output c.print)
  | jump (a : Nat) : Causes s (.jump (.address a)) (.goto a)
  | branch {test : String} {b : Bool} {ifTrue ifFalse : Label} {a : Nat}
      (htest : s.get? test = some (.scalar (.bool b)))
      (hlabel : (if b then ifTrue else ifFalse) = .address a) :
      Causes s (.branch test ifTrue ifFalse) (.goto a)
  | skip (opcode : String) (operands : List Operand) : Causes s (.unknown opcode operands) .skip

theorem Label.address?_eq_ok_iff {label : Label} {a : Nat} :
    label.address? = .ok a ↔ label = .address a := by
  cases label <;> simp [Label.address?]

theorem Constant.exists_eq_bool {c : Constant} (h : c.type = .bool) : ∃ b, c = .bool b := by
  cases c with
  | bool b => exact ⟨b, rfl⟩
  | _ => cases h

theorem Instr.causes_of_effect {i : Instr} {capabilities : List Capability}
    {policy : UnknownPolicy} {address : Nat} {s : Store} {e : Effect}
    (h : i.effect capabilities policy address s = .ok e) : i.Causes s e := by
  cases i with
  | alloc type name =>
      cases h
      exact .allocate type name
  | store type source name =>
      obtain ⟨c, -, h⟩ := bind_eq_ok_iff.1 h
      split at h
      · obtain ⟨_, -, h⟩ := bind_eq_ok_iff.1 h
        cases h
        exact .write rfl (by simp) _
      · cases h
  | literal | load | bind | call =>
      obtain ⟨_, -, h⟩ := bind_eq_ok_iff.1 h
      cases h
      exact .write rfl (by simp) _
  | unary op type source target =>
      obtain ⟨_, -, h⟩ := bind_eq_ok_iff.1 h
      obtain ⟨_, -, h⟩ := bind_eq_ok_iff.1 h
      cases h
      exact .write rfl (by simp) _
  | binary | compare =>
      obtain ⟨_, -, h⟩ := bind_eq_ok_iff.1 h
      obtain ⟨_, -, h⟩ := bind_eq_ok_iff.1 h
      obtain ⟨_, -, h⟩ := bind_eq_ok_iff.1 h
      cases h
      exact .write rfl (by simp) _
  | print type source =>
      obtain ⟨c, hc, h⟩ := bind_eq_ok_iff.1 h
      cases h
      obtain ⟨hget, htype⟩ := Store.readTyped_eq_ok_iff.1 hc
      exact .output hget htype
  | jump label =>
      obtain ⟨a, ha, h⟩ := bind_eq_ok_iff.1 h
      cases h
      rw [Label.address?_eq_ok_iff.1 ha]
      exact .jump a
  | branch test ifTrue ifFalse =>
      obtain ⟨c, hc, h⟩ := bind_eq_ok_iff.1 h
      obtain ⟨a, ha, h⟩ := bind_eq_ok_iff.1 h
      cases h
      obtain ⟨hget, htype⟩ := Store.readTyped_eq_ok_iff.1 hc
      obtain ⟨b, rfl⟩ := Constant.exists_eq_bool htype
      refine .branch hget ?_
      simpa using Label.address?_eq_ok_iff.1 ha
  | unknown opcode operands =>
      cases policy with
      | fatal => cases h
      | warn =>
          cases h
          exact .skip opcode operands

/-! ## The outcomes of a step -/

namespace Machine

/-- What a step of a running machine can leave and report. -/
inductive Outcome (m : Machine) : Machine × Except Fault Unit → Prop
  /-- The machine halts at the end of the program. -/
  | halt (hpc : m.pc = m.program.size) : Outcome m ({ m with status := .halted }, .ok ())
  /-- There is no instruction to execute. -/
  | lost (hpc : m.program.size < m.pc) :
      Outcome m (m.fail (.addressOutOfRange m.pc m.program.size))
  /-- The machine has executed as many instructions as it may. -/
  | limited {limit : UInt64} (hpc : m.pc < m.program.size) (hlimit : m.atLimit = some limit) :
      Outcome m (m.fail (.stepLimitExceeded limit))
  /-- The instruction fails. -/
  | fault {i : Instr} {fault : Fault} (hi : m.next? = some i)
      (hfault : i.effect m.capabilities m.settings.unknownOpcode m.pc m.store = .error fault) :
      Outcome m (m.advance.fail fault)
  /-- The instruction has an effect. -/
  | effect {i : Instr} {e : Effect} (hi : m.next? = some i)
      (he : i.effect m.capabilities m.settings.unknownOpcode m.pc m.store = .ok e) :
      Outcome m (m.advance.commit e)

variable {m : Machine} {i : Instr}

theorem code_of_next? (h : m.next? = some i) : m.program.code[m.pc]? = some i := by
  unfold next? at h
  split at h
  · exact h
  · cases h

theorem running_of_next? (h : m.next? = some i) : m.status = .running := by
  unfold next? at h
  split at h
  · next hstatus _ => exact hstatus
  · cases h

theorem pc_lt_of_next? (h : m.next? = some i) : m.pc < m.program.size := by
  obtain ⟨hlt, -⟩ := Array.getElem?_eq_some_iff.1 (code_of_next? h)
  exact hlt

theorem outcome_of_next? (h : m.next? = some i) : m.Outcome m.step := by
  rw [step_of_next? h]
  unfold execute
  split
  · next e he => exact .effect h he
  · next fault hfault => exact .fault h hfault

theorem step_outcome (h : m.status = .running) : m.Outcome m.step := by
  cases hnext : m.next? with
  | some i => exact outcome_of_next? hnext
  | none =>
      rw [step_of_running h]
      unfold stepRunning
      split
      · next hpc => exact .halt hpc
      · next hpc =>
          split
          · next hcode =>
              have hle : m.program.size ≤ m.pc := Array.getElem?_eq_none_iff.1 hcode
              exact .lost (Nat.lt_of_le_of_ne hle (Ne.symm hpc))
          · next i hi =>
              obtain ⟨hlt, -⟩ := Array.getElem?_eq_some_iff.1 hi
              split
              · next limit hlimit => exact .limited hlt hlimit
              -- otherwise the instruction would be executed
              · next hlimit =>
                  simp only [next?, h, hlimit, hi] at hnext
                  cases hnext

end Machine

end ThreeAddress
