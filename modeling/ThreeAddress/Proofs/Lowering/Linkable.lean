import ThreeAddress.Compile
import ThreeAddress.Proofs.Layout.Linking
import ThreeAddress.Proofs.Lowering.Shape
import ThreeAddress.Proofs.Machine.Closed

set_option autoImplicit false

/-! # Lowered programs can be linked

The chain that a program becomes has every block of the graph exactly once. So the layout of the
graph never fails and places all blocks, and the labels of the code are exactly the starts of
blocks. What the blocks themselves contain is plain code, without labels. The compiled program is
therefore closed, and no run of it can get lost. -/

namespace ThreeAddress

namespace Chain

/-- No block starts behind the end of the code. -/
theorem le_of_mem_starts (c : Chain) {base : Nat} {id : BlockId} {a : Nat}
    (h : (id, a) ∈ c.starts base) : a ≤ base + c.size := by
  induction c generalizing base with
  | last id' code =>
      simp only [starts, List.mem_singleton, Prod.mk.injEq] at h
      omega
  | link id' code rest ih =>
      simp only [starts, List.mem_cons, Prod.mk.injEq] at h
      simp only [size, slots, List.length_append, List.length_map, List.length_cons] at ih ⊢
      rcases h with ⟨-, rfl⟩ | h
      · omega
      · have := ih h
        omega
  | cond id' code test arm rest iha ihr =>
      simp only [starts, List.mem_cons, List.mem_append, Prod.mk.injEq] at h
      simp only [size, slots, List.length_append, List.length_map, List.length_cons] at iha ihr h ⊢
      rcases h with ⟨-, rfl⟩ | h | h
      · omega
      · have := iha h
        omega
      · have := ihr h
        omega
  | condElse id' code test thenArm elseArm rest iht ihe ihr =>
      simp only [starts, List.mem_cons, List.mem_append, Prod.mk.injEq] at h
      simp only [size, slots, List.length_append, List.length_map, List.length_cons]
        at iht ihe ihr h ⊢
      rcases h with ⟨-, rfl⟩ | h | h | h
      · omega
      · have := iht h
        omega
      · have := ihe h
        omega
      · have := ihr h
        omega
  | loop id' code test body rest ihb ihr =>
      simp only [starts, List.mem_cons, List.mem_append, Prod.mk.injEq] at h
      simp only [size, slots, List.length_append, List.length_map, List.length_cons] at ihb ihr h ⊢
      rcases h with ⟨-, rfl⟩ | h | h
      · omega
      · have := ihb h
        omega
      · have := ihr h
        omega

end Chain

/-- Plain instructions lead nowhere else. -/
theorem Instr.labels_of_isPlain {i : Instr} (h : i.isPlain = true) : i.labels = [] := by
  cases i with
  | jump label => cases h
  | branch test ifTrue ifFalse => cases h
  | _ => rfl

theorem Instr.isJump_of_isPlain {i : Instr} (h : i.isPlain = true) : i.isJump = false := by
  cases i with
  | jump | branch => cases h
  | _ => rfl

namespace Source

/-- What holds of the code of the statements, also of those inside them, and of the expressions that
    they evaluate, holds of all code that lowering makes of the statements. -/
theorem Shapes.forall_mem_instrs {P : Instr → Prop} {stmts : List Stmt} {k k' : Cursor} {c : Chain}
    (h : Shapes stmts k c k')
    (hexpr : ∀ s ∈ withinAll stmts, ∀ e, s.expr? = some e →
      ∀ t : Temporaries, ∀ i ∈ (e.emit t).code, P i)
    (hstmts : ∀ s ∈ withinAll stmts, ∀ t : Temporaries, ∀ i ∈ (s.emit t).code, P i)
    (hk : ∀ i ∈ k.code, P i) : ∀ i ∈ c.instrs, P i := by
  have hnil : ∀ i ∈ ([] : List Instr), P i := List.forall_mem_nil _
  induction h with
  | nil k => exact hk
  | @flat s rest k k' c hs hrest ih =>
      rw [withinAll, List.forall_mem_append] at hstmts hexpr
      have hs := hstmts.1 s s.mem_within_self k.temporaries
      exact ih hexpr.2 hstmts.2 (List.forall_mem_append.2 ⟨hk, hs⟩)
  | @cond line condition thenBranch rest k k₁ k' arm c hthen hrest iht ihr =>
      simp only [withinAll, Stmt.within, List.forall_mem_append, List.forall_mem_cons]
        at hstmts hexpr
      have hcondition := hexpr.1.1 condition rfl k.temporaries
      simp only [Chain.instrs, List.forall_mem_append]
      exact ⟨hk, hcondition, iht hexpr.1.2 hstmts.1.2 hnil, ihr hexpr.2 hstmts.2 hnil⟩
  | @condElse line condition thenBranch elseBranch rest k k₁ k₂ k' thenArm elseArm c hthen helse
      hrest iht ihe ihr =>
      simp only [withinAll, Stmt.within, List.forall_mem_append, List.forall_mem_cons]
        at hstmts hexpr
      have hcondition := hexpr.1.1 condition rfl k.temporaries
      simp only [Chain.instrs, List.forall_mem_append]
      exact ⟨hk, hcondition, iht hexpr.1.2.1 hstmts.1.2.1 hnil, ihe hexpr.1.2.2 hstmts.1.2.2 hnil,
        ihr hexpr.2 hstmts.2 hnil⟩
  | @loop line condition stmts rest k k₁ k' body c hbody hrest ihb ihr =>
      simp only [withinAll, Stmt.within, List.forall_mem_append, List.forall_mem_cons]
        at hstmts hexpr
      have hcondition := hexpr.1.1 condition rfl k.temporaries
      simp only [Chain.instrs, List.forall_mem_append]
      exact ⟨hk, hcondition, ihb hexpr.1.2 hstmts.1.2 hnil, ihr hexpr.2 hstmts.2 hnil⟩

/-! ## Lowered programs -/

/-- The chain spans the graph and has all of its blocks, and its code is what the statements of the
    program become. -/
structure Program.Lowered (p : Program) (g : BlockGraph) (c : Chain) : Prop where
  shape : ∃ k, Shapes p.statements .initial c k
  spans : g.Spans c
  all : c.blocks.Perm (List.range g.size)

/-- Lowering a program fails at a node without a type, or it yields the graph of a chain. -/
theorem Program.lower_cases (p : Program) :
    (decoratedAll p.statements = false ∧ ∃ e, p.lower = .error e ∧ ∀ b, e ≠ .build b) ∨
      decoratedAll p.statements = true ∧ ∃ g c, p.lower = .ok g ∧ p.Lowered g c := by
  have hat : Draft.empty.At .initial := ⟨rfl, ⟨_, rfl, rfl, rfl, rfl⟩, rfl, rfl⟩
  have hbuilds := builds p.statements .empty .initial hat 0
  rcases hlower : lowerAll p.statements { draft := .empty } with e | ⟨_, d, line⟩
  · rw [hlower] at hbuilds
    refine .inl ⟨hbuilds.1, e, ?_, hbuilds.2⟩
    rw [Program.lower, hlower]
    rfl
  · rw [hlower] at hbuilds
    obtain ⟨hdecorated, c, k, hshape, hat', hfits, hext⟩ := hbuilds
    refine .inr ⟨hdecorated, d.graph, c, ?_, ?_⟩
    · rw [Program.lower, hlower]
      rfl
    · obtain ⟨n, hn, hp⟩ := hshape.blocks_perm
      have hall : c.blocks.Perm (List.range d.graph.size) := by
        have hsize : k.size = n + 1 := hn.trans (Nat.add_comm _ _)
        rw [hat'.size, hsize, List.range_eq_range', List.range'_succ]
        exact hp
      exact ⟨⟨k, hshape⟩, ⟨hshape.first_eq.trans hext.start_eq.symm, hfits,
        hall.nodup_iff.2 List.nodup_range⟩, hall⟩

theorem Program.exists_lowered {p : Program} {g : BlockGraph} (h : p.lower = .ok g) :
    ∃ c, p.Lowered g c := by
  rcases p.lower_cases with ⟨-, e, he, -⟩ | ⟨-, g', c, hg', hc⟩
  · rw [h] at he
    cases he
  · rw [h] at hg'
    cases hg'
    exact ⟨c, hc⟩

namespace Program.Lowered

variable {p : Program} {g : BlockGraph} {c : Chain}

theorem plain (h : p.Lowered g c) : ∀ i ∈ c.instrs, i.isPlain = true := by
  obtain ⟨k, hk⟩ := h.shape
  exact hk.forall_mem_instrs (fun _ _ e _ t => e.emit_plain t) (fun s _ t => s.emit_plain t)
    (List.forall_mem_nil _)

/-- An instruction of the linked program comes from the statements, or it is a jump. -/
theorem mem_instrs_or_isJump (h : p.Lowered g c) {P : ThreeAddress.Program} (hP : g.link = .ok P)
    {i : Instr} (hi : i ∈ P.code) : i ∈ c.instrs ∨ i.isJump = true := by
  rw [BlockGraph.link_of_spans h.spans] at hP
  cases hP
  rw [List.mem_toArray] at hi
  obtain ⟨slot, hslot, rfl⟩ := List.mem_map.1 hi
  cases slot with
  | instr i => exact .inl (c.instr_mem_slots_iff.1 hslot)
  | jump target => exact .inr rfl
  | branch test ifTrue ifFalse => exact .inr rfl

theorem mem_blocks (h : p.Lowered g c) {id : BlockId} : id ∈ c.blocks ↔ id < g.size := by
  rw [h.all.mem_iff, List.mem_range]

/-- Every block is placed exactly once. -/
theorem placed_perm (h : p.Lowered g c) :
    (g.layout.1.starts.toList.map Prod.fst).Perm (List.range g.size) := by
  rw [BlockGraph.layout_of_spans h.spans]
  simpa [Layout.empty, Chain.map_fst_starts] using h.all

/-- The labels of the linked program are starts of blocks. -/
theorem labels (h : p.Lowered g c) {P : ThreeAddress.Program} (hP : g.link = .ok P) :
    ∀ i ∈ P.code, ∀ label ∈ i.labels,
      ∃ id < g.size, ∃ a ≤ P.size, g.blockStart? id = some a ∧ label = .address a := by
  rw [BlockGraph.link_of_spans h.spans] at hP
  cases hP
  intro i hi label hlabel
  rw [List.mem_toArray] at hi
  obtain ⟨slot, hslot, rfl⟩ := List.mem_map.1 hi
  have hne : ∀ i, slot ≠ .instr i := by
    rintro i rfl
    have hplain := h.plain i (c.instr_mem_slots_iff.1 hslot)
    rw [Slot.resolved, Instr.labels_of_isPlain hplain] at hlabel
    cases hlabel
  obtain ⟨id, hid, rfl⟩ := c.exists_of_mem_labels g.origin hslot hne hlabel
  obtain ⟨hstart, hmem⟩ := BlockGraph.blockStart?_eq_origin h.spans hid
  have hle := c.le_of_mem_starts hmem
  refine ⟨id, h.mem_blocks.1 hid, g.origin id, ?_, hstart, rfl⟩
  simpa [ThreeAddress.Program.size, Chain.size] using hle

/-- The linked program is closed. -/
theorem closed (h : p.Lowered g c) {P : ThreeAddress.Program} (hP : g.link = .ok P) :
    P.Closed where
  labels := by
    intro i hi label hlabel
    obtain ⟨-, -, a, ha, -, rfl⟩ := h.labels hP i hi label hlabel
    exact ⟨a, ha, rfl⟩
  known := by
    rintro i hi opcode operands rfl
    rcases h.mem_instrs_or_isJump hP hi with hi | hjump
    · cases h.plain _ hi
    · cases hjump

end Program.Lowered

/-- Compiling a program fails while lowering, or it links the graph of a chain. -/
theorem Program.compile_cases (p : Program) :
    (decoratedAll p.statements = false ∧ ∃ e : LowerError, p.compile = .error e.toFailure) ∨
      decoratedAll p.statements = true ∧
        ∃ g c P, p.lower = .ok g ∧ p.Lowered g c ∧ g.link = .ok P ∧ p.compile = .ok P := by
  rcases p.lower_cases with ⟨hdecorated, e, he, -⟩ | ⟨hdecorated, g, c, hg, hc⟩
  · refine .inl ⟨hdecorated, e, ?_⟩
    rw [Program.compile, Program.graph, he]
    rfl
  · have hlink := BlockGraph.link_of_spans hc.spans
    refine .inr ⟨hdecorated, g, c, _, hg, hc, hlink, ?_⟩
    rw [Program.compile, Program.graph, hg]
    change linkGraph g = _
    rw [linkGraph, hlink]
    rfl

/-- A compiled program comes from the chain of a graph. -/
theorem Program.exists_lowered_of_compile {p : Program} {P : ThreeAddress.Program}
    (hP : p.compile = .ok P) : ∃ g c, p.Lowered g c ∧ g.link = .ok P := by
  rcases p.compile_cases with ⟨-, e, he⟩ | ⟨-, g, c, P', -, hlowered, hlink, hcompile⟩
  · rw [hP] at he
    cases he
  · rw [hP] at hcompile
    cases hcompile
    exact ⟨g, c, hlowered, hlink⟩

/-- What holds of jumps and of the code of the statements and expressions of a program holds of all
    code of the compiled program. -/
theorem Program.forall_mem_of_compile {p : Program} {P : ThreeAddress.Program} {Q : Instr → Prop}
    (hP : p.compile = .ok P)
    (hexpr : ∀ s ∈ withinAll p.statements, ∀ e, s.expr? = some e →
      ∀ t : Temporaries, ∀ i ∈ (e.emit t).code, Q i)
    (hstmts : ∀ s ∈ withinAll p.statements, ∀ t : Temporaries, ∀ i ∈ (s.emit t).code, Q i)
    (hjump : ∀ i : Instr, i.isJump = true → Q i) : ∀ i ∈ P.code, Q i := by
  obtain ⟨g, c, hlowered, hlink⟩ := exists_lowered_of_compile hP
  obtain ⟨k, hshape⟩ := hlowered.shape
  intro i hi
  rcases hlowered.mem_instrs_or_isJump hlink hi with hi | hi
  · exact hshape.forall_mem_instrs hexpr hstmts (List.forall_mem_nil _) i hi
  · exact hjump i hi

end Source

/-! ## The result -/

/-- How a run ends is read off the machine it leaves, or is a refusal of the output. -/
theorem Machine.InCode.conclude {m : Machine} (h : m.InCode) :
    Raises Fault.IsMild m.conclude.2 := by
  unfold Machine.conclude
  split
  · next fault hfault => exact Raises.error (h.mild fault hfault)
  · unfold Machine.finish
    split
    · exact Raises.error rfl
    · split
      · next fault hfault => exact Raises.error (h.mild fault hfault)
      · exact Raises.ok _

/-- **Lowered programs always link completely, and compiled programs never lose their way.**
    Lowering never refers to a block that is not there. The graph that it yields can always be
    linked, each of its blocks is placed exactly once, and each label of the linked program is the
    start address of a block and at most the size of the program. Therefore compilation never fails
    while linking and succeeds for every decorated tree. Wherever a run of a compiled program
    stands, and however it ends, it is within the program or right behind it, and has not stopped at
    an address out of range, an unresolved label or an unknown opcode. -/
theorem lowered_programs_link (p : Source.Program) :
    (∀ e, p.lower ≠ .error (.build e)) ∧
    (∀ g, p.lower = .ok g → ∃ P, g.link = .ok P ∧
      (g.layout.1.starts.toList.map Prod.fst).Perm (List.range g.size) ∧
      (∀ id < g.size, ∃ a, g.blockStart? id = some a) ∧
      ∀ i ∈ P.code, ∀ label ∈ i.labels,
        ∃ id < g.size, ∃ a ≤ P.size, g.blockStart? id = some a ∧ label = .address a) ∧
    (∀ f, p.compile = .error f → f.phase ≠ .linking) ∧
    ((∃ P, p.compile = .ok P) ↔ Source.decoratedAll p.statements = true) ∧
    ∀ P, p.compile = .ok P →
      (∀ m : Machine, m.program = P → ∀ n, (m.reset.after n).pc ≤ P.size ∧
        ∀ fault, (m.reset.after n).status = .failed fault → fault.isControl = false) ∧
      ∀ capabilities settings sink fuel m result,
        (Machine.create P capabilities settings sink).run fuel = some (m, result) →
        m.pc ≤ P.size ∧ ∀ fault, result = .error fault → fault.isControl = false := by
  refine ⟨fun e he => ?_, fun g hg => ?_, fun f hf => ?_, ?_, fun P hP => ?_⟩
  · rcases p.lower_cases with ⟨-, e', he', hbuild⟩ | ⟨-, g, c, hg, -⟩
    · rw [he] at he'
      cases he'
      exact hbuild e rfl
    · rw [he] at hg
      cases hg
  · obtain ⟨c, hc⟩ := Source.Program.exists_lowered hg
    refine ⟨_, BlockGraph.link_of_spans hc.spans, hc.placed_perm, fun id hid => ?_,
      hc.labels (BlockGraph.link_of_spans hc.spans)⟩
    exact ⟨_, (BlockGraph.blockStart?_eq_origin hc.spans (hc.mem_blocks.2 hid)).1⟩
  · rcases p.compile_cases with ⟨-, e, he⟩ | ⟨-, g, c, P, -, -, -, hP⟩
    · rw [hf] at he
      cases he
      simp [Source.LowerError.toFailure]
    · rw [hf] at hP
      cases hP
  · rcases p.compile_cases with ⟨hdecorated, e, he⟩ | ⟨hdecorated, g, c, P, -, -, -, hP⟩
    · simp [he, hdecorated]
    · simp [hP, hdecorated]
  · have hclosed : P.Closed := by
      rcases p.compile_cases with ⟨-, e, he⟩ | ⟨-, g, c, P', -, hc, hlink, hP'⟩
      · rw [hP] at he
        cases he
      · rw [hP] at hP'
        cases hP'
        exact hc.closed hlink
    have hrun (m : Machine) (hm : m.program = P) (n : Nat) :
        (m.reset.after n).InCode ∧ (m.reset.after n).pc ≤ P.size := by
      have hstart : m.reset.InCode := ⟨Nat.zero_le _, by simp [Machine.reset]⟩
      subst hm
      obtain ⟨hin, heq⟩ := Machine.InCode.after (m := m.reset) hclosed hstart n
      have hle := hin.pc_le
      rw [heq] at hle
      exact ⟨hin, hle⟩
    refine ⟨fun m hm n => ?_, fun capabilities settings sink fuel m result hresult => ?_⟩
    · obtain ⟨hin, hle⟩ := hrun m hm n
      exact ⟨hle, hin.mild⟩
    · obtain ⟨hin, hle⟩ := hrun (Machine.create P capabilities settings sink) rfl fuel
      obtain ⟨-, hconclude⟩ := Machine.run_create_eq_some_iff.1 hresult
      have hm := Machine.conclude_fst
        ((Machine.create P capabilities settings sink).reset.after fuel)
      have hraises := hin.conclude
      rw [hconclude] at hm hraises
      rw [← hm] at hle
      exact ⟨hle, hraises⟩

/-- Counts down from two and says so at one. -/
def Source.Program.countdown : Source.Program := ⟨[
  .varDecl 1 "n" (some .int) (some (.ofConstant (.int 2))),
  .loop 2 (.comparison .gt (.load (some .int) "n") (.ofConstant (.int 0))) [
    .cond 3 (.comparison .eq (.load (some .int) "n") (.ofConstant (.int 1)))
      [.print 4 (.ofConstant (.string "one"))] none,
    .assign 5 "n" (.arith .sub (.load (some .int) "n") (.ofConstant (.int 1)))],
  .print 6 (.load (some .int) "n")]⟩

theorem lowered_programs_link_countdown :
    ∃ g P, Source.Program.countdown.lower = .ok g ∧ Source.Program.countdown.compile = .ok P ∧
      (g.layout.1.starts.toList.map Prod.fst).Perm (List.range g.size) ∧
      ∀ n, ((Machine.create P [] {} {}).reset.after n).pc ≤ P.size := by
  obtain ⟨-, hlink, -, -, hruns⟩ := lowered_programs_link .countdown
  obtain ⟨h, -⟩ | ⟨-, g, -, P, hg, -, -, hP⟩ := Source.Program.countdown.compile_cases
  · exact absurd h (by decide)
  · obtain ⟨-, -, hperm, -⟩ := hlink g hg
    exact ⟨g, P, hg, hP, hperm, fun n => ((hruns P hP).1 _ rfl n).1⟩

end ThreeAddress
