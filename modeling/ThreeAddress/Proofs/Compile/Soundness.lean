import ThreeAddress.Proofs.Compile.Correctness
import ThreeAddress.Proofs.Source.Safety

set_option autoImplicit false

/-! # Well-typed programs run safely

A machine with a step limit, or with a sink that refuses texts, does the same as one without, until
it is cut off (`Machine.Tracks.after`). A machine without either does what direct execution of the
source does, and direct execution of a well-typed program is safe. So a compiled well-typed program
fails, if at all, with a fault that no type can rule out, or because it is cut off
(`well_typed_sound`). -/

namespace ThreeAddress

open Source

/-! ## Runs that are cut off -/

/-- The faults by which its surroundings cut a run off: it has used up its steps, or the sink
    refuses a text or a flush. -/
def CutsOff (settings : Settings) (sink : Sink) : Fault → Prop
  | .stepLimitExceeded limit => settings.stepLimit = some limit
  | .output reason =>
    (∃ state piece, sink.refuse state piece = some reason) ∨
      ∃ state, sink.refuseFlush state = some reason
  | _ => False

theorem Sink.exists_refuse_of_write {sink : Sink} {piece reason : String}
    (h : (sink.write piece).2 = some reason) : sink.refuse sink.state piece = some reason := by
  unfold Sink.write at h
  split at h
  · cases h
  · split at h
    · next hrefuse =>
        cases h
        exact hrefuse
    · cases h

/-- If a line is refused, a text is. -/
theorem Sink.exists_refuse_of_writeLine {sink : Sink} {line reason : String}
    (h : (sink.writeLine line).2 = some reason) :
    ∃ state piece, sink.refuse state piece = some reason := by
  have hrules := (sink.write_sameRules line).refuse
  unfold Sink.writeLine at h
  rcases hw : sink.write line with ⟨sink₁, _ | reason₁⟩
  · rw [hw] at h hrules
    dsimp only at h hrules
    exact ⟨_, _, hrules ▸ sink₁.exists_refuse_of_write h⟩
  · rw [hw] at h
    cases h
    exact ⟨_, _, sink.exists_refuse_of_write (congrArg Prod.snd hw)⟩

namespace Machine

/-- The machine has come as far as one that runs the same program without limits. -/
structure Tracks (settings : Settings) (sink : Sink) (m ideal : Machine) : Prop where
  settings : m.settings = settings
  rules : sink.SameRules m.sink
  policy : ideal.settings.unknownOpcode = m.settings.unknownOpcode
  limit : ideal.settings.stepLimit = none
  accepts : ideal.sink.Accepts
  program : ideal.program = m.program
  capabilities : ideal.capabilities = m.capabilities
  status : ideal.status = m.status
  pc : ideal.pc = m.pc
  store : ideal.store = m.store

/-- The machine has been cut off. -/
def IsCutOff (settings : Settings) (sink : Sink) (m : Machine) : Prop :=
  ∃ fault, m.status = .failed fault ∧ CutsOff settings sink fault

namespace Tracks

variable {settings : Settings} {sink : Sink} {m ideal : Machine}

theorem advance (h : m.Tracks settings sink ideal) : m.advance.Tracks settings sink ideal.advance :=
  { h with pc := congrArg (· + 1) h.pc }

theorem fail (h : m.Tracks settings sink ideal) (fault : Fault) :
    (m.fail fault).1.Tracks settings sink (ideal.fail fault).1 :=
  { h with status := rfl }

/-- Of all effects, only output can have a different end. -/
theorem commit (h : m.Tracks settings sink ideal) (effect : Effect) :
    (m.commit effect).1.Tracks settings sink (ideal.commit effect).1 ∨
      (m.commit effect).1.IsCutOff settings sink := by
  cases effect with
  | skip => exact .inl h
  | write name value => exact .inl { h with store := congrArg (Store.set · name value) h.store }
  | allocate name type =>
      exact .inl { h with store := congrArg (Store.allocate · name type) h.store }
  | goto address => exact .inl { h with pc := rfl }
  | output line =>
      obtain ⟨sink', hideal, -, haccepts⟩ := h.accepts.writeLine line
      have hrules := h.rules.trans (m.sink.writeLine_sameRules line)
      rcases hw : m.sink.writeLine line with ⟨sink₁, _ | reason⟩
      · rw [hw] at hrules
        simp only [Machine.commit, hw, hideal]
        exact .inl { h with rules := hrules, accepts := haccepts }
      · obtain ⟨state, piece, hrefuse⟩ :=
          Sink.exists_refuse_of_writeLine (congrArg Prod.snd hw)
        rw [h.rules.refuse] at hrefuse
        simp only [Machine.commit, hw]
        exact .inr ⟨_, rfl, .inl ⟨state, piece, hrefuse⟩⟩

theorem execute (h : m.Tracks settings sink ideal) (i : Instr) :
    (m.execute i).1.Tracks settings sink (ideal.execute i).1 ∨
      (m.execute i).1.IsCutOff settings sink := by
  have heffect : i.effect ideal.capabilities ideal.settings.unknownOpcode ideal.pc ideal.store
      = i.effect m.capabilities m.settings.unknownOpcode m.pc m.store := by
    rw [h.capabilities, h.policy, h.pc, h.store]
  simp only [Machine.execute, heffect]
  cases i.effect m.capabilities m.settings.unknownOpcode m.pc m.store with
  | ok effect => exact h.advance.commit effect
  | error fault => exact .inl (h.advance.fail fault)

/-- One step further, unless the machine is cut off in it. -/
theorem step (h : m.Tracks settings sink ideal) :
    m.step.1.Tracks settings sink ideal.step.1 ∨ m.step.1.IsCutOff settings sink := by
  by_cases hr : m.status = .running
  · rw [step_of_running hr, step_of_running (h.status.trans hr)]
    unfold stepRunning
    by_cases hend : m.pc = m.program.size
    · have hend' : ideal.pc = ideal.program.size := by rw [h.pc, h.program, hend]
      rw [if_pos hend, if_pos hend']
      exact .inl { h with status := rfl }
    · have hend' : ideal.pc ≠ ideal.program.size := by
        rw [h.pc, h.program]
        exact hend
      have hcode : ideal.program.code[ideal.pc]? = m.program.code[m.pc]? := by
        rw [h.pc, h.program]
      rw [if_neg hend, if_neg hend', hcode]
      cases m.program.code[m.pc]? with
      | none =>
          have hfault : Fault.addressOutOfRange ideal.pc ideal.program.size =
              .addressOutOfRange m.pc m.program.size := by rw [h.pc, h.program]
          dsimp only
          rw [hfault]
          exact .inl (h.fail _)
      | some i =>
          have hlimit : ideal.atLimit = none := by rw [atLimit, h.limit, Option.filter_none]
          rw [hlimit]
          cases hlimited : m.atLimit with
          | none => exact h.execute i
          | some limit =>
              obtain ⟨hsome, -⟩ := Option.filter_eq_some_iff.1 hlimited
              exact .inr ⟨_, rfl, h.settings ▸ hsome⟩
  · rw [step_of_not_running hr, step_of_not_running (fun hideal => hr (h.status.symm.trans hideal))]
    exact .inl h

/-- As far as the machine comes without being cut off, it does what the one without limits does. -/
theorem after (h : m.Tracks settings sink ideal) (n : Nat) :
    (m.after n).Tracks settings sink (ideal.after n) ∨ (m.after n).IsCutOff settings sink := by
  induction n with
  | zero => exact .inl h
  | succ n ih =>
      rw [after_succ', after_succ']
      rcases ih with htracks | hcut
      · exact htracks.step
      -- a machine that has been cut off stays so
      · have hcut' := hcut
        obtain ⟨fault, hfailed, -⟩ := hcut'
        rw [step_of_not_running (by simp [hfailed])]
        exact .inr hcut

end Tracks

end Machine

section WellTyped

variable {p : Source.Program} {P : Program} {sig : Signature}

/-- Without limits, a well-typed program fails with permitted faults only. -/
theorem permitted_of_failed (htyped : WellTyped sig [] p.statements)
    (hproper : Proper (namesAll p.statements)) (hcompile : p.compile = .ok P)
    {capabilities : List Capability} {settings : Settings} (hlimit : settings.stepLimit = none)
    {sink : Sink} (haccepts : sink.Accepts) {n : Nat} {fault : Fault}
    (hfailed : ((Machine.create P capabilities settings sink).reset.after n).status
      = .failed fault) : Permitted capabilities sig fault := by
  have hstopped : ((Machine.create P capabilities settings sink).reset.after n).status
      ≠ .running := by simp [hfailed]
  obtain ⟨o, hexec, hends⟩ :=
    compiled_stopped hcompile hproper capabilities hlimit haccepts hstopped
  have hsafe : EndsSafely capabilities sig [] (p.exec capabilities n) :=
    htyped.execAll_safe n fun name hname => absurd hname List.not_mem_nil
  rw [hexec] at hsafe
  cases o with
  | done w =>
      rw [hends.1] at hfailed
      cases hfailed
  | stopped w why =>
      obtain ⟨reported, hreported, hshows, -⟩ := hends
      obtain ⟨reason, rfl, hpermitted⟩ := hsafe
      rw [hfailed] at hreported
      cases hreported
      exact hshows ▸ hpermitted

/-- With limits, a well-typed program may also be cut off. -/
theorem permitted_or_cutsOff_of_failed (htyped : WellTyped sig [] p.statements)
    (hproper : Proper (namesAll p.statements)) (hcompile : p.compile = .ok P)
    {capabilities : List Capability} {settings : Settings} {sink : Sink} {n : Nat} {fault : Fault}
    (hfailed : ((Machine.create P capabilities settings sink).reset.after n).status
      = .failed fault) : Permitted capabilities sig fault ∨ CutsOff settings sink fault := by
  -- the machine without limits that this one follows as long as it can
  have htracks : (Machine.create P capabilities settings sink).reset.Tracks settings sink
      (Machine.create P capabilities { settings with stepLimit := none } {}).reset :=
    { settings := rfl, rules := .refl sink, policy := rfl, limit := rfl
      accepts := fun _ _ => rfl, program := rfl, capabilities := rfl, status := rfl, pc := rfl
      store := rfl }
  rcases htracks.after n with hn | ⟨fault', hfailed', hcut⟩
  · exact .inl (permitted_of_failed htyped hproper hcompile rfl (fun _ _ => rfl)
      (hn.status.trans hfailed))
  · rw [hfailed] at hfailed'
    cases hfailed'
    exact .inr hcut

/-- **Well-typed programs run safely.** A well-typed program that uses no name of a temporary
    compiles. On a machine with any capabilities, any settings and any sink, the compiled program
    never fails but with a fault that no type can rule out, or by being cut off: by the step limit,
    or by a sink that refuses a text. A run that comes to an end has come to the end of the program,
    or it reports such a fault, where being cut off may also be that the sink refuses to be
    flushed. -/
theorem well_typed_sound (htyped : WellTyped sig [] p.statements)
    (hproper : Proper (namesAll p.statements)) :
    ∃ P, p.compile = .ok P ∧
      ∀ (capabilities : List Capability) (settings : Settings) (sink : Sink) (n : Nat),
        (∀ fault, ((Machine.create P capabilities settings sink).reset.after n).status
            = .failed fault →
          Permitted capabilities sig fault ∨ CutsOff settings sink fault) ∧
        ∀ m result, (Machine.create P capabilities settings sink).run n = some (m, result) →
          (m.status = .halted ∧ result = .ok ()) ∨
            ∃ fault, result = .error fault ∧
              (Permitted capabilities sig fault ∨ CutsOff settings sink fault) := by
  rcases p.compile_cases with ⟨hdecorated, -⟩ | ⟨-, g, c, P, -, -, -, hP⟩
  · rw [htyped.decoratedAll] at hdecorated
    cases hdecorated
  refine ⟨P, hP, fun capabilities settings sink n => ?_⟩
  have hfaults (fault : Fault) (hfailed :
      ((Machine.create P capabilities settings sink).reset.after n).status = .failed fault) :
      Permitted capabilities sig fault ∨ CutsOff settings sink fault :=
    permitted_or_cutsOff_of_failed htyped hproper hP hfailed
  refine ⟨hfaults, fun m result hrun => ?_⟩
  obtain ⟨hstopped, hconclude⟩ := Machine.run_create_eq_some_iff.1 hrun
  have hm : (Machine.create P capabilities settings sink).reset.after n = m := by
    rw [← Machine.conclude_fst (Machine.after _ n), hconclude]
  have hstarted : ((Machine.create P capabilities settings sink).reset.after n).status ≠ .setup :=
    Machine.after_status_ne_setup (by simp [Machine.reset]) n
  have hrules : sink.SameRules _ :=
    (Machine.create P capabilities settings sink).reset.after_sameRules n
  rw [hm] at hstopped hconclude hfaults hstarted hrules
  have hresult : m.conclude.2 = result := congrArg Prod.snd hconclude
  cases hstatus : m.status with
  | running => exact absurd hstatus hstopped
  | setup => exact absurd hstatus hstarted
  | failed fault =>
      rw [Machine.conclude_snd_of_failed hstatus] at hresult
      exact .inr ⟨fault, hresult.symm, hfaults fault hstatus⟩
  | halted =>
      rw [Machine.conclude_snd_of_halted hstatus] at hresult
      cases hflush : m.sink.flush with
      | none =>
          rw [hflush] at hresult
          exact .inl ⟨rfl, hresult.symm⟩
      | some reason =>
          rw [hflush] at hresult
          rw [Sink.flush, hrules.refuseFlush] at hflush
          exact .inr ⟨_, hresult.symm, .inr (.inr ⟨_, hflush⟩)⟩

end WellTyped

/-- Prints the roots of two and one, and then divides by zero. -/
def Source.Program.roots : Source.Program := ⟨[
  .declare 1 ⟨"sqrt", [⟨"x", .float⟩], .float⟩,
  .varDecl 2 "n" (some .int) (some (.ofConstant (.int 2))),
  .loop 3 (.comparison .gt (.load (some .int) "n") (.ofConstant (.int 0))) [
    .constDecl 4 "root" none (.call (some .float) "sqrt" [.load (some .int) "n"]),
    .cond 5 (.comparison .gt (.load (some .float) "root") (.ofConstant (.float 1)))
      [.print 6 (.load (some .float) "root")]
      (some [.print 7 (.ofConstant (.string "one"))]),
    .assign 8 "n" (.arith .sub (.load (some .int) "n") (.ofConstant (.int 1)))],
  .print 9 (.arith .div (.ofConstant (.int 1)) (.load (some .int) "n"))]⟩

/-- What the names of `roots` stand for. -/
def Source.Program.rootsSignature : Signature
  | "sqrt" => some (.function [.float] .float)
  | "n" => some (.cell .int)
  | "root" => some (.cell .float)
  | _ => none

theorem Source.Program.roots_wellTyped :
    WellTyped rootsSignature [] Source.Program.roots.statements := by
  have hint {declared : List String} (h : "n" ∈ declared) :
      HasType rootsSignature declared (.load (some .int) "n") .int := .load rfl h
  have hfloat {declared : List String} (h : "root" ∈ declared) :
      HasType rootsSignature declared (.load (some .float) "root") .float := .load rfl h
  refine .declare rfl (.varDecl rfl rfl (.literal _) (.loop ?_ ?_ ?_))
  · exact .relational rfl (hint (by decide)) (.literal _)
  · refine .constDecl rfl rfl (.call rfl (by decide) (.cons (hint (by decide)) rfl .nil)) ?_
    refine .condElse ?_ (.print (hfloat (by decide)) .nil) (.print (.literal _) .nil) ?_
    · exact .relational rfl (hfloat (by decide)) (.literal _)
    · exact .assign rfl (by decide) (.binary rfl (hint (by decide)) (.literal _)) .nil
  · exact .print (.binary rfl (.literal _) (hint (by decide))) .nil

theorem well_typed_sound_roots :
    WellTyped Source.Program.rootsSignature [] Source.Program.roots.statements ∧
    ∃ P, Source.Program.roots.compile = .ok P ∧
      ∀ n fault, ((Machine.create P [.math] {} {}).reset.after n).status = .failed fault →
        fault = .divisionByZero := by
  have hproper : Proper (namesAll Source.Program.roots.statements) := proper_of_head (by decide)
  obtain ⟨P, hP, hsound⟩ := well_typed_sound Source.Program.roots_wellTyped hproper
  refine ⟨Source.Program.roots_wellTyped, P, hP, fun n fault hfailed => ?_⟩
  -- the root of a float is a float, and there is a function for it
  have hsig {name : String} {params : List ScalarType} {type : ScalarType}
      (h : Source.Program.rootsSignature name = some (.function params type)) :
      name = "sqrt" ∧ params = [.float] ∧ type = .float := by
    unfold Source.Program.rootsSignature at h
    split at h <;> cases h
    exact ⟨rfl, rfl, rfl⟩
  have hoffers {native : NativeFunction} (h : Offers [.math] "sqrt" native) :
      native = .unary Float.sqrt := by
    obtain ⟨space, hfind⟩ := h
    cases hfind
    rfl
  have hcalled {name : String} {type : ScalarType} {outcome : Except String Constant}
      (h : Called [.math] Source.Program.rootsSignature name type outcome) :
      type = .float ∧ ∃ x, outcome = .ok (.float x) := by
    obtain ⟨args, native, hname, hnative, -, rfl⟩ := h
    obtain ⟨rfl, hargs, rfl⟩ := hsig hname
    obtain rfl := hoffers hnative
    have hlength : args.length = 1 := by simpa using congrArg List.length hargs
    obtain ⟨c, rfl⟩ := List.length_eq_one_iff.1 hlength
    cases c <;> cases hargs
    exact ⟨rfl, _, rfl⟩
  rcases (hsound [.math] {} {} n).1 fault hfailed with hpermitted | hcut
  · cases fault with
    | divisionByZero => rfl
    | functionNotFound name =>
        obtain ⟨params, type, hname, hfind⟩ := hpermitted
        obtain ⟨rfl, -, -⟩ := hsig hname
        cases hfind
    | arityMismatch name expected found =>
        obtain ⟨params, type, native, hname, hnative, rfl, rfl, hne⟩ := hpermitted
        obtain ⟨rfl, rfl, -⟩ := hsig hname
        obtain rfl := hoffers hnative
        exact absurd rfl hne
    | callFailed name reason =>
        obtain ⟨type, h⟩ := hpermitted
        obtain ⟨-, x, hx⟩ := hcalled h
        cases hx
    | typeMismatch name expected found =>
        obtain ⟨result, h, hconvert, -⟩ := hpermitted
        obtain ⟨rfl, x, hx⟩ := hcalled h
        cases hx
        cases hconvert
    | _ => exact hpermitted.elim
  · cases fault with
    | stepLimitExceeded limit => cases hcut
    | output reason => obtain ⟨_, _, ⟨⟩⟩ | ⟨_, ⟨⟩⟩ := hcut
    | _ => exact hcut.elim

end ThreeAddress
