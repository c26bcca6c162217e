import ThreeAddress.Proofs.Layout.Execution
import ThreeAddress.Proofs.Lowering.Linkable
import ThreeAddress.Proofs.Lowering.Simulation

set_option autoImplicit false

/-! # Compiled programs do what their source says

Lowering turns statements into a chain of blocks, linking lays the chain out, and the machine runs
the result. This file puts the three together: a run of a compiled program ends exactly if direct
execution of the source does, and then in the same way, with the same output and with the same
variables (`compile_correct`). -/

namespace ThreeAddress

open Source

/-- The output and the store of the machine are those of the world, but for temporaries; `base` is
    what the sink held at the start. -/
structure Machine.Agrees (base : String) (w : World) (m : Machine) : Prop where
  text : m.sink.text = base ++ w.output
  store : w.store.Agrees m.store

/-- The machine has stopped as direct execution has, at the end or with the fault that shows why. -/
def Machine.EndsAs (base : String) (m : Machine) : Outcome Stop → Prop
  | .done w => m.status = .halted ∧ m.Agrees base w
  | .stopped w why => ∃ fault, m.status = .failed fault ∧ why.Shows fault ∧ m.Agrees base w

theorem Machine.EndsAs.not_running {base : String} {m : Machine} {o : Outcome Stop}
    (h : m.EndsAs base o) : m.status ≠ .running := by
  cases o with
  | done w => simp [h.1]
  | stopped w why =>
      obtain ⟨fault, hstatus, -⟩ := h
      simp [hstatus]

theorem Follows.agrees {g : BlockGraph} {P : Program} {m : Machine} {w : Walk}
    {capabilities : List Capability} {base : String} {W v : World} (h : Follows g P m w)
    (hholds : w.Holds g capabilities base v) (hagrees : W.Agrees v) : m.Agrees base W where
  text := by rw [h.sink, hholds.text, hagrees.output]
  store := by
    rw [h.store, hholds.store]
    exact hagrees.store

section Compiled

variable {p : Source.Program} {P : Program}

/-- The blocks of a lowered program hold no jumps of their own. -/
theorem Source.Program.Lowered.no_jumps {g : BlockGraph} {c : Chain} (h : p.Lowered g c) :
    ∀ b ∈ g.blocks, ∀ i ∈ b.code, i.isJump = false := by
  intro b hb i hi
  obtain ⟨id, hlt, rfl⟩ := Array.mem_iff_getElem.1 hb
  have hblock : g.block? id = some g.blocks[id] := Array.getElem?_eq_getElem hlt
  have hinstrs := h.spans.fits.mem_instrs_iff.2 ⟨id, h.mem_blocks.2 hlt, _, hblock, hi⟩
  exact Instr.isJump_of_isPlain (h.plain i hinstrs)

/-- What a machine on a compiled program does, for any amount of fuel. -/
theorem compiled_reach (hcompile : p.compile = .ok P) (hproper : Proper (namesAll p.statements))
    (capabilities : List Capability) {settings : Settings} (hlimit : settings.stepLimit = none)
    {sink : Sink} (haccepts : sink.Accepts) (fuel : Nat) :
    let m := (Machine.create P capabilities settings sink).reset
    match p.exec capabilities fuel with
    | none => ∃ n, fuel ≤ n ∧ (m.after n).status = .running
    | some o => ∃ n, (m.after n).EndsAs sink.text o := by
  intro m
  rcases p.compile_cases with ⟨-, e, he⟩ | ⟨hdecorated, g, c, P', -, hc, hlink, hP'⟩
  · rw [hcompile] at he
    cases he
  rw [hcompile] at hP'
  cases hP'
  have hfollows (n : Nat) := (Follows.start hlink capabilities settings sink).after hc.no_jumps n
  have hstands : Walk.Stands g capabilities sink.text c.first 0 []
      (Walk.start g capabilities settings sink) .initial :=
    { graph := rfl, capabilities := rfl, limit := hlimit, accepts := haccepts, store := rfl
      text := (String.append_empty).symm, running := rfl, block := hc.spans.first.symm
      index := rfl, returns := rfl }
  obtain ⟨k, hshape⟩ := hc.shape
  have hreach := hshape.runs hdecorated hproper hc.spans.fits fuel .initial _ _ [] hstands (.refl _)
  change Walk.Reach _ _ _ _ _ _ (p.exec capabilities fuel) at hreach
  match hexec : p.exec capabilities fuel with
  | none =>
      rw [hexec] at hreach
      obtain ⟨n, hn, hrunning⟩ := hreach
      exact ⟨n, hn, (hfollows n).status.trans hrunning⟩
  | some (.stopped W why) =>
      rw [hexec] at hreach
      obtain ⟨n, v, fault, hfails, hagrees, hshows⟩ := hreach
      exact ⟨n, fault, (hfollows n).status.trans hfails.failed, hshows,
        (hfollows n).agrees hfails.toHolds hagrees⟩
  | some (.done W) =>
      rw [hexec] at hreach
      -- the walk is at the end of the last chain, and one more step halts it
      obtain ⟨n, v, hends, hagrees⟩ := hreach
      have hhalt := hends.step_halt
      rw [← Walk.after_succ'] at hhalt
      obtain ⟨id, b, -, -, -, hstands'⟩ := hends
      have hagrees' := (hfollows n).agrees hstands'.toHolds hagrees
      have hlast := hfollows (n + 1)
      rw [hhalt] at hlast
      refine ⟨n + 1, hlast.status, ?_, ?_⟩
      · rw [hlast.sink, ← (hfollows n).sink]
        exact hagrees'.text
      · rw [hlast.store, ← (hfollows n).store]
        exact hagrees'.store

/-- If the machine has stopped after `n` steps, fuel `n` is enough for direct execution, and the
    machine has stopped in the same way. -/
theorem compiled_stopped (hcompile : p.compile = .ok P)
    (hproper : Proper (namesAll p.statements)) (capabilities : List Capability)
    {settings : Settings} (hlimit : settings.stepLimit = none) {sink : Sink}
    (haccepts : sink.Accepts) {n : Nat}
    (hstopped : ((Machine.create P capabilities settings sink).reset.after n).status ≠ .running) :
    ∃ o, p.exec capabilities n = some o ∧
      ((Machine.create P capabilities settings sink).reset.after n).EndsAs sink.text o := by
  have hreach := compiled_reach hcompile hproper capabilities hlimit haccepts n
  cases hexec : p.exec capabilities n with
  | some o =>
      rw [hexec] at hreach
      obtain ⟨k, hk⟩ := hreach
      rw [Machine.after_eq_after hk.not_running hstopped] at hk
      exact ⟨o, rfl, hk⟩
  | none =>
      -- then the machine would still be running at a later point
      rw [hexec] at hreach
      obtain ⟨k, hk, hrunning⟩ := hreach
      obtain ⟨d, rfl⟩ := Nat.le.dest hk
      rw [Machine.after_add, Machine.after_of_not_running hstopped] at hrunning
      exact absurd hrunning hstopped

/-- **Compiled programs do what their source says.** Let a program compile, and use no name of a
    temporary. On a machine with any capabilities, without a step limit and with a sink that takes
    every text, a run of the compiled program ends exactly if direct execution of the source does.
    If both end, then in the same way: at the end of the program, or with the fault that shows why
    direct execution has stopped; what has been printed is the same, and so are the declarations and
    all cells but those of temporaries. A run that has come to the end of the program succeeds
    unless the output cannot be flushed, and a fault is reported as it is. -/
theorem compile_correct (hcompile : p.compile = .ok P) (hproper : Proper (namesAll p.statements))
    (capabilities : List Capability) {settings : Settings} (hlimit : settings.stepLimit = none)
    {sink : Sink} (haccepts : sink.Accepts) :
    ((∃ fuel o, p.exec capabilities fuel = some o) ↔
      ∃ n r, (Machine.create P capabilities settings sink).run n = some r) ∧
    ∀ fuel o n m result, p.exec capabilities fuel = some o →
      (Machine.create P capabilities settings sink).run n = some (m, result) →
      match o with
      | .done w =>
        m.status = .halted ∧ m.Agrees sink.text w ∧
          result = match sink.refuseFlush m.sink.state with
            | none => .ok ()
            | some reason => .error (.output reason)
      | .stopped w why =>
        ∃ fault, m.status = .failed fault ∧ why.Shows fault ∧ m.Agrees sink.text w ∧
          result = .error fault := by
  have hends {fuel : Nat} {o : Outcome Stop} (hexec : p.exec capabilities fuel = some o) :
      ∃ n, ((Machine.create P capabilities settings sink).reset.after n).EndsAs sink.text o := by
    have hreach := compiled_reach hcompile hproper capabilities hlimit haccepts fuel
    rw [hexec] at hreach
    exact hreach
  refine ⟨⟨?_, ?_⟩, ?_⟩
  · rintro ⟨fuel, o, hexec⟩
    obtain ⟨n, hn⟩ := hends hexec
    exact ⟨n, _, Machine.run_create_eq_some_iff.2 ⟨hn.not_running, rfl⟩⟩
  · rintro ⟨n, r, hrun⟩
    obtain ⟨hstopped, -⟩ := Machine.run_create_eq_some_iff.1 hrun
    obtain ⟨o, hexec, -⟩ := compiled_stopped hcompile hproper capabilities hlimit haccepts hstopped
    exact ⟨n, o, hexec⟩
  · intro fuel o n m result hexec hrun
    obtain ⟨hstopped, hconclude⟩ := Machine.run_create_eq_some_iff.1 hrun
    obtain ⟨k, hk⟩ := hends hexec
    rw [Machine.after_eq_after hk.not_running hstopped] at hk
    have hm : m = (Machine.create P capabilities settings sink).reset.after n := by
      rw [← Machine.conclude_fst (Machine.after _ n), hconclude]
    rw [← hm] at hk hconclude
    have hresult : m.conclude.2 = result := congrArg Prod.snd hconclude
    cases o with
    | done w =>
        obtain ⟨hstatus, hagrees⟩ := hk
        have hflush : m.sink.refuseFlush = sink.refuseFlush := by
          rw [hm]
          exact (Machine.after_sameRules _ n).refuseFlush
        rw [Machine.conclude_snd_of_halted hstatus, Sink.flush, hflush] at hresult
        exact ⟨hstatus, hagrees, hresult.symm⟩
    | stopped w why =>
        obtain ⟨fault, hstatus, hshows, hagrees⟩ := hk
        exact ⟨fault, hstatus, hshows, hagrees,
          hresult.symm.trans (Machine.conclude_snd_of_failed hstatus)⟩

theorem compile_correct_countdown :
    ∃ P n m, Source.Program.countdown.compile = .ok P ∧
      Proper (namesAll Source.Program.countdown.statements) ∧
      (Machine.create P [] {} {}).run n = some (m, .ok ()) ∧ m.sink.text = "one\n0\n" := by
  have hproper : Proper (namesAll Source.Program.countdown.statements) :=
    proper_of_head (by decide)
  have haccepts : Sink.Accepts {} := fun _ _ => rfl
  obtain ⟨h, -⟩ | ⟨-, g, -, P, -, -, -, hP⟩ := Source.Program.countdown.compile_cases
  · exact absurd h (by decide)
  obtain ⟨w, hexec, houtput⟩ : ∃ w, Source.Program.countdown.exec [] 3 = some (.done w) ∧
      w.output = "one\n0\n" := ⟨_, rfl, rfl⟩
  obtain ⟨hiff, hends⟩ := compile_correct hP hproper []
    (show ({} : Settings).stepLimit = none from rfl) haccepts
  obtain ⟨n, ⟨m, result⟩, hrun⟩ := hiff.1 ⟨3, _, hexec⟩
  obtain ⟨-, hagrees, rfl⟩ := hends 3 _ n m result hexec hrun
  refine ⟨P, n, m, hP, hproper, hrun, ?_⟩
  rw [hagrees.text, houtput]
  rfl

end Compiled

end ThreeAddress
