import ThreeAddress.Proofs.Graph.Walk
import ThreeAddress.Proofs.Layout.Placement

set_option autoImplicit false

/-! # A linked program runs as its graph

A machine on a linked program and a walk through the graph take the same steps. What ties them
together is `Located`: the machine is at the address of the walk's next instruction, inside the
piece of code of some chain, and behind that piece stands the jump to where the walk returns.

The linear code has no stack, so the returns of the walk are found in the closing jumps: `Returns`
follows them outward, region by region, up to the end of the program. -/

namespace ThreeAddress

/-- Behind the code that ends before `address`, the program goes on at the blocks of `returns` one
    after another: a jump leads to the first of them, whose chain is followed by the rest. -/
def Returns (g : BlockGraph) (p : Program) : Nat → List BlockId → Prop
  | address, [] => address = p.size
  | address, target :: returns =>
    p.code[address]? = some (.jump (.address (g.origin target))) ∧
      ∃ c : Chain, c.first = target ∧ c.Fits g ∧ c.Placed g p (g.origin target) ∧
        Returns g p (g.origin target + c.size) returns

/-- The address `pc` is that of the instruction `index` of a block, from which the given returns
    are left. -/
structure Located (g : BlockGraph) (p : Program) (pc : Nat) (c : Chain) (index : Nat)
    (returns : List BlockId) : Prop where
  fits : c.Fits g
  placed : c.Placed g p (g.origin c.first)
  returns : Returns g p (g.origin c.first + c.size) returns
  index_le : index ≤ c.code.length
  pc_eq : pc = g.origin c.first + index

/-- The machine and the walk are at the same point. -/
structure Follows (g : BlockGraph) (p : Program) (m : Machine) (w : Walk) : Prop where
  program : m.program = p
  graph : w.graph = g
  capabilities : m.capabilities = w.capabilities
  settings : m.settings = w.settings
  sink : m.sink = w.sink
  status : m.status = w.status
  store : m.store = w.store
  steps : m.steps = w.steps
  located : m.status = .running →
    ∃ c : Chain, c.first = w.block ∧ Located g p m.pc c w.index w.returns

variable {g : BlockGraph} {p : Program} {c : Chain}

/-! ## One step of a machine -/

theorem Instr.effect_branch (capabilities : List Capability) (policy : UnknownPolicy)
    (address : Nat) (s : Store) (test : String) (a b : Nat) :
    (Instr.branch test (.address a) (.address b)).effect capabilities policy address s =
      (s.readTyped test .bool).map fun c => .goto (if c = .bool true then a else b) := by
  simp only [Instr.effect]
  cases s.readTyped test .bool with
  | error fault => rfl
  | ok c =>
      by_cases hc : c = .bool true <;>
        simp [hc, Except.map, pure, Except.pure, Label.address?]

namespace Machine

variable {m : Machine}

theorem step_halt (h : m.status = .running) (hpc : m.pc = m.program.size) :
    m.step.1 = { m with status := .halted } := by
  rw [step_of_running h, stepRunning, if_pos hpc]

/-- A running machine that has an instruction to execute stops at the limit or executes it. -/
theorem step_fetch (h : m.status = .running) {i : Instr} (hi : m.program.code[m.pc]? = some i) :
    m.step.1 = match m.atLimit with
      | some limit => (m.fail (.stepLimitExceeded limit)).1
      | none => (m.execute i).1 := by
  have hlt : m.pc < m.program.code.size := (Array.getElem?_eq_some_iff.1 hi).1
  have hne : m.pc ≠ m.program.size := by
    unfold Program.size
    omega
  rw [step_of_running h, stepRunning, if_neg hne, hi]
  cases m.atLimit <;> rfl

theorem execute_branch (test : String) (a b : Nat) :
    (m.execute (.branch test (.address a) (.address b))).1 =
      match m.store.readTyped test .bool with
      | .ok c => { m.advance with pc := if c = .bool true then a else b }
      | .error fault => (m.advance.fail fault).1 := by
  rw [execute, Instr.effect_branch]
  cases m.store.readTyped test .bool <;> rfl

end Machine

/-! ## One step of both -/

section Step

variable {m : Machine} {w : Walk}

theorem Follows.atLimit_eq (h : Follows g p m w) : m.atLimit = w.atLimit := by
  rw [Machine.atLimit, Walk.atLimit, h.settings, h.steps]

/-- Both execute the same instruction of a block. -/
theorem Follows.execute (h : Follows g p m w) (hfirst : c.first = w.block)
    (hloc : Located g p m.pc c w.index w.returns) {i : Instr} (hi : c.code[w.index]? = some i)
    (hjump : i.isJump = false) :
    Follows g p (m.execute i).1 (Walk.execute { w with steps := w.steps + 1 } i) := by
  have haddress : Walk.address { w with steps := w.steps + 1 } = m.pc := by
    rw [hloc.pc_eq, hfirst, Walk.address, h.graph]
  have hlt : w.index < c.code.length := (List.getElem?_eq_some_iff.1 hi).1
  have hnext : Located g p (m.pc + 1) c (w.index + 1) w.returns :=
    ⟨hloc.fits, hloc.placed, hloc.returns, hlt, by rw [hloc.pc_eq, Nat.add_assoc]⟩
  have heffect : i.effect w.capabilities w.settings.unknownOpcode m.pc w.store
      = i.effect m.capabilities m.settings.unknownOpcode m.pc m.store := by
    rw [h.capabilities, h.settings, h.store]
  have hsteps : m.steps + 1 = w.steps + 1 := congrArg (· + 1) h.steps
  rw [Machine.execute, Walk.execute, haddress, heffect]
  cases he : i.effect m.capabilities m.settings.unknownOpcode m.pc m.store with
  | error fault =>
      exact { h with status := rfl, steps := hsteps, located := fun hr => by cases hr }
  | ok e =>
      cases e with
      | skip => exact { h with steps := hsteps, located := fun _ => ⟨c, hfirst, hnext⟩ }
      | goto a => exact absurd rfl (Instr.effect_ne_goto hjump he a)
      | write name value =>
          have hstore : m.store.set name value = w.store.set name value := by rw [h.store]
          exact { h with
            store := hstore, steps := hsteps, located := fun _ => ⟨c, hfirst, hnext⟩ }
      | allocate name type =>
          have hstore : m.store.allocate name type = w.store.allocate name type := by rw [h.store]
          exact { h with
            store := hstore, steps := hsteps, located := fun _ => ⟨c, hfirst, hnext⟩ }
      | output line =>
          have hsink : m.advance.sink = w.sink := h.sink
          simp only [Machine.commit, Walk.commit, hsink]
          rcases w.sink.writeLine line with ⟨sink, _ | reason⟩
          · exact { h with
              sink := rfl, steps := hsteps, located := fun _ => ⟨c, hfirst, hnext⟩ }
          · exact { h with
              sink := rfl, status := rfl, steps := hsteps, located := fun hr => by cases hr }

/-- Both go on at the beginning of a chain. -/
theorem Follows.enter (h : Follows g p m w) {target : BlockId} {returns : List BlockId}
    (hfirst : c.first = target) (hfits : c.Fits g) (hplaced : c.Placed g p (g.origin target))
    (hreturns : Returns g p (g.origin target + c.size) returns) :
    Follows g p { m.advance with pc := g.origin target }
      (Walk.enter { w with steps := w.steps + 1 } target returns) := by
  subst hfirst
  exact { h with
    steps := congrArg (· + 1) h.steps
    located := fun _ => ⟨c, rfl, hfits, hplaced, hreturns, Nat.zero_le _, rfl⟩ }

/-- Both make the same choice. -/
theorem Follows.choose (h : Follows g p m w) {test : String} {a b : Nat} {ifTrue ifFalse : Walk}
    (htrue : Follows g p { m.advance with pc := a } ifTrue)
    (hfalse : Follows g p { m.advance with pc := b } ifFalse) :
    Follows g p (m.execute (.branch test (.address a) (.address b))).1
      (Walk.choose { w with steps := w.steps + 1 } test ifTrue ifFalse) := by
  have hread : (m.store.readTyped test .bool) = w.store.readTyped test .bool := by rw [h.store]
  rw [Machine.execute_branch, Walk.choose, hread]
  cases w.store.readTyped test .bool with
  | error fault =>
      exact { h with
        status := rfl
        steps := congrArg (· + 1) h.steps
        located := fun hr => by cases hr }
  | ok c =>
      by_cases hc : c = .bool true
      · simpa only [hc, if_true] using htrue
      · simpa only [hc, if_false] using hfalse

/-- Behind the instructions of a block, both have come to the end, or the machine has a jump to
    execute by which both go on alike. -/
theorem Follows.turn (h : Follows g p m w) (hfirst : c.first = w.block)
    (hloc : Located g p m.pc c w.index w.returns) (hindex : w.index = c.code.length) :
    ∃ b, g.block? w.block = some b ∧ b.code[w.index]? = none ∧
      ((w.atEnd b = true ∧ m.pc = p.size) ∨
        (w.atEnd b = false ∧ ∃ i, p.code[m.pc]? = some i ∧ i.isJump = true ∧
          Follows g p (m.execute i).1 (Walk.turn { w with steps := w.steps + 1 } b))) := by
  obtain ⟨hfits, hplaced, hreturns, -, hpc⟩ := hloc
  have hsome : ∀ {b : Block} {next : BlockId}, b.next = some next → w.atEnd b = false := by
    intro b next hnext
    simp [Walk.atEnd, hnext]
  cases c with
  | last id code =>
      obtain ⟨b, hb, rfl, hkind, hnext⟩ := hfits
      simp only [Chain.first, Chain.code, Chain.size_last] at hfirst hplaced hreturns hindex hpc
      refine ⟨b, hfirst ▸ hb, by simp [hindex], ?_⟩
      -- what stands behind the chain decides: the end of the program, or a closing jump
      cases hret : w.returns with
      | nil =>
          rw [hret, ← hindex, ← hpc] at hreturns
          exact .inl ⟨by simp [Walk.atEnd, hindex, hnext, hret], hreturns⟩
      | cons target returns =>
          rw [hret, ← hindex, ← hpc] at hreturns
          obtain ⟨hjump, c, hc, hfits, hplaced, hreturns⟩ := hreturns
          refine .inr ⟨by simp [Walk.atEnd, hret], _, hjump, rfl, ?_⟩
          simp only [Walk.turn, hkind, hnext]
          exact h.enter hc hfits hplaced hreturns
  | link id code rest =>
      obtain ⟨⟨b, hb, rfl, hkind, hnext⟩, hrest⟩ := hfits
      simp only [Chain.first, Chain.code] at hfirst hplaced hreturns hindex hpc
      obtain ⟨hjump, hprest, hsize⟩ := hplaced.link
      rw [hsize] at hreturns
      have horest := hprest.origin_first
      rw [← horest] at hprest hreturns
      rw [← hindex, ← hpc] at hjump
      refine ⟨b, hfirst ▸ hb, by simp [hindex], .inr ⟨hsome hnext, _, hjump, rfl, ?_⟩⟩
      simp only [Walk.turn, hkind, hnext]
      exact h.enter rfl hrest hprest hreturns
  | cond id code test arm rest =>
      obtain ⟨⟨b, hb, rfl, hkind, hnext⟩, harm, hrest⟩ := hfits
      simp only [Chain.first, Chain.code] at hfirst hplaced hreturns hindex hpc
      obtain ⟨hbranch, hparm, hjump, hprest, hsize⟩ := hplaced.cond
      rw [hsize] at hreturns
      have horest := hprest.origin_first
      rw [← horest] at hprest hreturns
      have hoarm := hparm.origin_first
      rw [← hoarm] at hparm hjump
      rw [← hindex, ← hpc] at hbranch
      refine ⟨b, hfirst ▸ hb, by simp [hindex], .inr ⟨hsome hnext, _, hbranch, rfl, ?_⟩⟩
      simp only [Walk.turn, hkind, hnext]
      exact h.choose (h.enter rfl harm hparm ⟨hjump, rest, rfl, hrest, hprest, hreturns⟩)
        (h.enter rfl hrest hprest hreturns)
  | condElse id code test thenArm elseArm rest =>
      obtain ⟨⟨b, hb, rfl, hkind, hnext⟩, hthen, helse, hrest⟩ := hfits
      simp only [Chain.first, Chain.code] at hfirst hplaced hreturns hindex hpc
      obtain ⟨hbranch, hpthen, hjumpt, hpelse, hjumpe, hprest, hsize⟩ := hplaced.condElse
      rw [hsize] at hreturns
      have horest := hprest.origin_first
      rw [← horest] at hprest hreturns
      have hoelse := hpelse.origin_first
      rw [← hoelse] at hpelse hjumpe
      have hothen := hpthen.origin_first
      rw [← hothen] at hpthen hjumpt
      rw [← hindex, ← hpc] at hbranch
      refine ⟨b, hfirst ▸ hb, by simp [hindex], .inr ⟨hsome hnext, _, hbranch, rfl, ?_⟩⟩
      simp only [Walk.turn, hkind, hnext]
      exact h.choose (h.enter rfl hthen hpthen ⟨hjumpt, rest, rfl, hrest, hprest, hreturns⟩)
        (h.enter rfl helse hpelse ⟨hjumpe, rest, rfl, hrest, hprest, hreturns⟩)
  | loop id code test body rest =>
      have hloop := hfits
      obtain ⟨⟨b, hb, rfl, hkind, hnext⟩, hbody, hrest⟩ := hfits
      simp only [Chain.first, Chain.code] at hfirst hplaced hreturns hindex hpc
      obtain ⟨hbranch, hpbody, hjump, hprest, hsize⟩ := hplaced.loop
      have hback := hreturns
      rw [hsize] at hreturns
      have horest := hprest.origin_first
      rw [← horest] at hprest hreturns
      have hobody := hpbody.origin_first
      rw [← hobody] at hpbody hjump
      rw [← hindex, ← hpc] at hbranch
      refine ⟨b, hfirst ▸ hb, by simp [hindex], .inr ⟨hsome hnext, _, hbranch, rfl, ?_⟩⟩
      simp only [Walk.turn, hkind, hnext]
      refine h.choose (h.enter rfl hbody hpbody ?_) (h.enter rfl hrest hprest hreturns)
      -- the body is closed by the jump back to the loop itself
      rw [← hfirst]
      exact ⟨hjump, _, rfl, hloop, hplaced, hback⟩

theorem Located.fetch {pc index : Nat} {returns : List BlockId}
    (h : Located g p pc c index returns) {i : Instr} (hi : c.code[index]? = some i) :
    p.code[pc]? = some i := by
  rw [h.pc_eq]
  exact h.placed.code index i hi

/-- The machine and the walk stay together. -/
theorem Follows.step (hg : ∀ b ∈ g.blocks, ∀ i ∈ b.code, i.isJump = false)
    (h : Follows g p m w) : Follows g p m.step.1 w.step := by
  by_cases hm : m.status = .running
  case neg =>
    rw [Machine.step_of_not_running hm, Walk.step_of_not_running (h.status ▸ hm)]
    exact h
  have hw : w.status = .running := h.status ▸ hm
  obtain ⟨c, hfirst, hloc⟩ := h.located hm
  have hlimit : ∀ limit, Follows g p (m.fail (.stepLimitExceeded limit)).1
      (w.fail (.stepLimitExceeded limit)) := fun limit =>
    { h with status := rfl, located := fun hr => by cases hr }
  -- either both are at an instruction of the block, or behind the last one
  cases hi : c.code[w.index]? with
  | some i =>
      obtain ⟨b, hb, hcode⟩ := hloc.fits.block
      have hib : b.code[w.index]? = some i := by rw [← Array.getElem?_toList, hcode, hi]
      have hjump : i.isJump = false :=
        hg b (Array.mem_of_getElem? hb) i (Array.mem_of_getElem? hib)
      rw [hfirst, ← h.graph] at hb
      rw [Machine.step_fetch hm (h.program ▸ hloc.fetch hi), Walk.step_execute hw hb hib,
        h.atLimit_eq]
      cases w.atLimit with
      | some limit => exact hlimit limit
      | none => exact h.execute hfirst hloc hi hjump
  | none =>
      have hindex : w.index = c.code.length :=
        Nat.le_antisymm hloc.index_le (List.getElem?_eq_none_iff.1 hi)
      obtain ⟨b, hb, hnone, hcases⟩ := h.turn hfirst hloc hindex
      rw [← h.graph] at hb
      obtain ⟨hend, hpc⟩ | ⟨hend, i, hfetch, -, hturn⟩ := hcases
      · rw [Machine.step_halt hm (h.program ▸ hpc), Walk.step_halt hw hb hend]
        exact { h with status := rfl, located := fun hr => by cases hr }
      · rw [Machine.step_fetch hm (h.program ▸ hfetch), Walk.step_turn hw hb hnone hend,
          h.atLimit_eq]
        cases w.atLimit with
        | some limit => exact hlimit limit
        | none => exact hturn

/-- Both execute the same instruction next, if it is no jump. -/
theorem Follows.event?_eq (h : Follows g p m w) : m.event? = w.event? := by
  unfold Machine.event? Walk.event?
  rw [h.atLimit_eq, h.status, h.store, h.sink, h.program]
  by_cases hw : w.status = .running
  case neg => split <;> split <;> simp_all
  rw [hw]
  cases w.atLimit with
  | some limit => rfl
  | none =>
      obtain ⟨c, hfirst, hloc⟩ := h.located (h.status ▸ hw)
      obtain ⟨b, hb, hcode⟩ := hloc.fits.block
      have hnext : w.next? = c.code[w.index]? := by
        rw [Walk.next?, h.graph, ← hfirst, hb, ← hcode, Array.getElem?_toList]
        rfl
      cases hi : c.code[w.index]? with
      | some i => rw [hnext, hi, hloc.fetch hi]
      | none =>
          have hindex : w.index = c.code.length :=
            Nat.le_antisymm hloc.index_le (List.getElem?_eq_none_iff.1 hi)
          rw [hnext, hi]
          obtain ⟨-, -, -, ⟨-, hpc⟩ | ⟨-, i, hfetch, hjump, -⟩⟩ := h.turn hfirst hloc hindex
          · have hnone : p.code[m.pc]? = none := by
              rw [hpc]
              exact Array.getElem?_eq_none (Nat.le_refl _)
            rw [hnone]
          · rw [hfetch]
            simp [Instr.event?, hjump]

end Step

/-! ## Runs -/

theorem Follows.after (hg : ∀ b ∈ g.blocks, ∀ i ∈ b.code, i.isJump = false) {m : Machine}
    {w : Walk} (h : Follows g p m w) (n : Nat) : Follows g p (m.after n) (w.after n) := by
  induction n with
  | zero => exact h
  | succ n ih =>
      rw [Machine.after_succ', Walk.after_succ']
      exact ih.step hg

/-- A machine on a linked program and a walk through the graph start at the same point. -/
theorem Follows.start (hlink : g.link = .ok p) (capabilities : List Capability)
    (settings : Settings) (sink : Sink) :
    Follows g p (Machine.create p capabilities settings sink).reset
      (Walk.start g capabilities settings sink) := by
  obtain ⟨c, hspans, hplaced, hsize⟩ := BlockGraph.placed_of_link hlink
  have horigin : g.origin c.first = 0 := hplaced.origin_first
  refine ⟨rfl, rfl, rfl, rfl, rfl, rfl, rfl, rfl, fun _ => ⟨c, hspans.first, hspans.fits, ?_, ?_,
    Nat.zero_le _, ?_⟩⟩
  · rw [horigin]
    exact hplaced
  · rw [horigin, Nat.zero_add]
    exact hsize.symm
  · rw [horigin]
    rfl

theorem Follows.conclude_eq {m : Machine} {w : Walk} (h : Follows g p m w) :
    m.conclude.2 = w.conclude := by
  unfold Machine.conclude Machine.finish Walk.conclude
  rw [h.status, h.sink]
  cases hw : w.status with
  | failed fault => rfl
  | _ => cases w.sink.flush <;> rfl

/-- A run of the program ends as the walk through the graph does, or goes on as long. -/
theorem Follows.run_eq (hg : ∀ b ∈ g.blocks, ∀ i ∈ b.code, i.isJump = false)
    (hlink : g.link = .ok p) (capabilities : List Capability) (settings : Settings) (sink : Sink)
    (n : Nat) :
    ((Machine.create p capabilities settings sink).run n).map Prod.snd =
      let w := (Walk.start g capabilities settings sink).after n
      if w.status = .running then none else some w.conclude := by
  have h := (Follows.start hlink capabilities settings sink).after hg n
  rw [Machine.run_create]
  dsimp only
  rw [h.status]
  split
  · rfl
  · rw [Option.map_some, h.conclude_eq]

/-- **Linking preserves execution.** Whatever graph has been linked, as long as its blocks hold no
    jumps of their own: the machine on the program executes the same instructions as the walk
    through the graph, each with the same store and output. After any number of steps both are
    still running, have halted, or have failed with the same fault, and a run of the program ends
    with what the walk ends with, or goes on forever as the walk does. -/
theorem link_preserves_execution (hlink : g.link = .ok p)
    (hg : ∀ b ∈ g.blocks, ∀ i ∈ b.code, i.isJump = false) (capabilities : List Capability)
    (settings : Settings) (sink : Sink) (n : Nat) :
    let m := (Machine.create p capabilities settings sink).reset
    let w := Walk.start g capabilities settings sink
    m.trace n = w.trace n ∧ (m.after n).status = (w.after n).status ∧
      (m.after n).store = (w.after n).store ∧ (m.after n).sink = (w.after n).sink ∧
      (m.after n).steps = (w.after n).steps ∧
      ((Machine.create p capabilities settings sink).run n).map Prod.snd =
        if (w.after n).status = .running then none else some (w.after n).conclude := by
  intro m w
  have hstart : Follows g p m w := Follows.start hlink capabilities settings sink
  have hn := hstart.after hg n
  refine ⟨?_, hn.status, hn.store, hn.sink, hn.steps,
    Follows.run_eq hg hlink capabilities settings sink n⟩
  unfold Machine.trace Walk.trace
  congr 1
  funext k
  exact (hstart.after hg k).event?_eq

/-- A loop around a conditional with two arms: the body sets the test of the loop to the opposite
    of the test of the conditional. -/
def BlockGraph.loopWithArms : BlockGraph where
  blocks := #[
    ⟨0, #[.literal .bool (.bool true) "go", .literal .bool (.bool false) "odd"], .straight, some 1⟩,
    ⟨1, #[.print .bool "go"], .loop "go" 2, some 5⟩,
    ⟨2, #[], .conditional "odd" 3 (some 4), some 6⟩,
    ⟨3, #[.unary .lnot .bool "odd" "go"], .straight, none⟩,
    ⟨4, #[.unary .lnot .bool "odd" "odd"], .straight, none⟩,
    ⟨5, #[.print .bool "odd"], .straight, none⟩,
    ⟨6, #[], .straight, none⟩]

theorem link_preserves_execution_loopWithArms :
    let p : Program := ⟨#[
      .literal .bool (.bool true) "go", .literal .bool (.bool false) "odd", .jump (.address 3),
      .print .bool "go", .branch "go" (.address 5) (.address 11),
      .branch "odd" (.address 6) (.address 8),
      .unary .lnot .bool "odd" "go", .jump (.address 10),
      .unary .lnot .bool "odd" "odd", .jump (.address 10),
      .jump (.address 3),
      .print .bool "odd"]⟩
    BlockGraph.loopWithArms.link = .ok p ∧
      (∀ b ∈ BlockGraph.loopWithArms.blocks, ∀ i ∈ b.code, i.isJump = false) ∧
      ∀ n, (Machine.create p [] {} {}).reset.trace n
        = (Walk.start BlockGraph.loopWithArms [] {} {}).trace n := by
  intro p
  have hlink : BlockGraph.loopWithArms.link = .ok p := by decide +kernel
  have hg : ∀ b ∈ BlockGraph.loopWithArms.blocks, ∀ i ∈ b.code, i.isJump = false := by decide
  exact ⟨hlink, hg, fun n => (link_preserves_execution hlink hg [] {} {} n).1⟩

end ThreeAddress
