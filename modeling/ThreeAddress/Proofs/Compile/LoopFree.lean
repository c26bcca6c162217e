import ThreeAddress.Proofs.Layout.ControlFlow
import ThreeAddress.Proofs.Lowering.Linkable

set_option autoImplicit false

/-! # Only loops go backwards

The labels of a linked program lead forward, unless the blocks themselves contain jumps. The only
exceptions are the closing jumps of loops, and every loop has one of them. A source program without
a loop becomes a chain without a loop, so that the compiled program leads only forward and all its
runs end. -/

namespace ThreeAddress

/-! ## Loop-free chains -/

/-- No block of the chain is a loop. -/
def Chain.LoopFree : Chain → Prop
  | last _ _ => True
  | link _ _ rest => rest.LoopFree
  | cond _ _ _ arm rest => arm.LoopFree ∧ rest.LoopFree
  | condElse _ _ _ thenArm elseArm rest => thenArm.LoopFree ∧ elseArm.LoopFree ∧ rest.LoopFree
  | loop _ _ _ _ _ => False

namespace Chain

variable {c d : Chain} {base b : Nat}

theorem LoopFree.piece (h : c.LoopFree) (hmem : (d, b) ∈ c.pieces base) : d.LoopFree := by
  cases c with
  | last => cases hmem
  | link =>
      obtain ⟨rfl, -⟩ := mem_pieces_link.1 hmem
      exact h
  | cond =>
      rcases mem_pieces_cond.1 hmem with ⟨rfl, -⟩ | ⟨rfl, -⟩
      · exact h.1
      · exact h.2
  | condElse =>
      rcases mem_pieces_condElse.1 hmem with ⟨rfl, -⟩ | ⟨rfl, -⟩ | ⟨rfl, -⟩
      · exact h.1
      · exact h.2.1
      · exact h.2.2
  | loop => exact h.elim

theorem LoopFree.back?_eq_none (h : c.LoopFree) (hpart : Part c base d b) : d.back? b = none := by
  have hd : d.LoopFree :=
    hpart.inherit (motive := fun d _ => d.LoopFree) (fun _ _ _ _ h hmem => h.piece hmem) h
  cases d with
  | loop => exact hd.elim
  | _ => rfl

end Chain

/-! ## Loop-free programs -/

namespace Source

/-- Whether a statement is itself a loop. -/
def Stmt.isLoop : Stmt → Bool
  | .loop _ _ _ => true
  | _ => false

/-- Without loops, not even inside other statements, there are no loops to lower. -/
theorem Shapes.loopFree {stmts : List Stmt} {k k' : Cursor} {c : Chain} (h : Shapes stmts k c k')
    (hfree : ∀ s ∈ withinAll stmts, s.isLoop = false) : c.LoopFree := by
  induction h with
  | nil k => trivial
  | flat hs hrest ih =>
      rw [withinAll, List.forall_mem_append] at hfree
      exact ih hfree.2
  | cond hthen hrest iht ihr =>
      simp only [withinAll, Stmt.within, List.forall_mem_append, List.forall_mem_cons] at hfree
      exact ⟨iht hfree.1.2, ihr hfree.2⟩
  | condElse hthen helse hrest iht ihe ihr =>
      simp only [withinAll, Stmt.within, List.forall_mem_append, List.forall_mem_cons] at hfree
      exact ⟨iht hfree.1.2.1, ihe hfree.1.2.2, ihr hfree.2⟩
  | loop hbody hrest ihb ihr =>
      simp only [withinAll, Stmt.within, List.forall_mem_append, List.forall_mem_cons] at hfree
      cases hfree.1.1

/-- A program without loops is compiled to code that leads only forward. -/
theorem Program.compile_forward {p : Program} {P : ThreeAddress.Program} (hP : p.compile = .ok P)
    (hfree : ∀ s ∈ withinAll p.statements, s.isLoop = false) : P.Forward := by
  obtain ⟨g, c, hlowered, hlink⟩ := exists_lowered_of_compile hP
  obtain ⟨k, hshape⟩ := hlowered.shape
  obtain ⟨hplaced, hsize⟩ := hlowered.spans.placed hlink
  have hplain : c.Plain := fun i hi => Instr.isJump_of_isPlain (hlowered.plain i hi)
  intro a target hlead
  rcases hplaced.lt_or_back_of_size_eq hsize hplain hlead with hlt | ⟨d, hpart, hback⟩
  · exact hlt
  · rw [(hshape.loopFree hfree).back?_eq_none hpart] at hback
    cases hback

end Source

/-! ## The result -/

/-- **Only loops go backwards.** Take a graph whose blocks contain no jumps, and the program that it
    is linked to. All labels of the program are addresses. Such an address lies behind the
    instruction that has the label, unless that is the closing jump of a loop, which leads back to
    the start of the loop; and each loop that is laid out has exactly one closing jump. Therefore
    every run of a compiled program without loops halts or fails, after at most as many steps as the
    program has instructions, and no instruction is executed twice. -/
theorem only_loops_lead_back :
    (∀ (g : BlockGraph) (P : Program), g.link = .ok P → (∀ i, g.Owns i → i.isJump = false) →
      (∀ a i label, P.code[a]? = some i → label ∈ i.labels →
        ∃ target, label = .address target ∧ (target ≤ a ↔ ∃! id, g.LoopsBack P id a target)) ∧
      ∀ id b test body start, g.block? id = some b → b.kind = .loop test body →
        g.blockStart? id = some start → ∃! a, g.LoopsBack P id a start) ∧
    ∀ (source : Source.Program) (P : Program), source.compile = .ok P →
      (∀ s ∈ Source.withinAll source.statements, s.isLoop = false) →
      ∀ capabilities settings sink, ∃ m result,
        (Machine.create P capabilities settings sink).run (P.size + 1) = some (m, result) ∧
        m.HasStopped ∧ m.steps ≤ P.size ∧ ∀ a, m.hitCount a ≤ 1 := by
  refine ⟨fun g P hP hown => ?_, fun source P hP hfree => ?_⟩
  · obtain ⟨c, hspans, hplaced, hsize⟩ := BlockGraph.placed_of_link hP
    have hplain : c.Plain := fun i hi => hown i (hspans.owns_iff.2 hi)
    refine ⟨fun a i label hi hlabel => ?_, fun id b test body start hb hkind hstart => ?_⟩
    · have hjump := Instr.isJump_of_mem_labels hlabel
      obtain howns | hresolved := BlockGraph.owns_or_resolved hP (Array.mem_of_getElem? hi)
      · rw [hown i howns] at hjump
        cases hjump
      obtain ⟨-, target, -, -, rfl⟩ := hresolved label hlabel
      refine ⟨target, rfl, ?_, ?_⟩
      · intro hle
        have hlead : P.Leads a target :=
          (Program.leads_iff hi).2 (by simpa [Instr.LeadsTo, hjump] using hlabel)
        rcases hplaced.lt_or_back_of_size_eq hsize hplain hlead with hlt | ⟨d, hpart, hback⟩
        · omega
        · have hloop := hspans.loopsBack hplaced hpart hback
          refine ⟨d.first, hloop, fun id hid => ?_⟩
          exact hspans.blockStart?_inj hplaced hid.blockStart? hloop.blockStart?
      · rintro ⟨id, hid, -⟩
        exact Nat.le_of_lt hid.lt
    · obtain ⟨a, ha⟩ := hspans.exists_loopsBack hplaced hb hkind hstart
      exact ⟨a, ha, fun a' ha' => ha'.unique ha⟩
  · exact (Source.Program.compile_forward hP hfree).exists_run

/-- Says whether a number is positive. -/
def Source.Program.deciding : Source.Program := ⟨[
  .varDecl 1 "n" (some .int) (some (.ofConstant (.int 2))),
  .cond 2 (.comparison .gt (.load (some .int) "n") (.ofConstant (.int 0)))
    [.print 3 (.ofConstant (.string "yes"))] (some [.print 4 (.ofConstant (.string "no"))])]⟩

theorem only_loops_lead_back_emptyRegions :
    let p : Program := ⟨#[
      .literal .bool (.bool true) "go", .branch "go" (.address 2) (.address 3), .jump (.address 3),
      .branch "go" (.address 4) (.address 5), .jump (.address 3)]⟩
    BlockGraph.emptyRegions.link = .ok p ∧
      (∃! id, BlockGraph.emptyRegions.LoopsBack p id 4 3) ∧
      (∃! a, BlockGraph.emptyRegions.LoopsBack p 2 a 3) ∧
      ∃ P, Source.Program.deciding.compile = .ok P ∧ ∃ m result,
        (Machine.create P [] {} {}).run (P.size + 1) = some (m, result) ∧ m.HasStopped ∧
        m.steps ≤ P.size := by
  intro p
  have hlink : BlockGraph.emptyRegions.link = .ok p := by decide +kernel
  have hplain : ∀ b ∈ BlockGraph.emptyRegions.blocks, ∀ i ∈ b.code, i.isJump = false := by
    decide +kernel
  obtain ⟨hgraph, hsource⟩ := only_loops_lead_back
  obtain ⟨hlabels, hloops⟩ := hgraph .emptyRegions p hlink <| by
    rintro i ⟨id, b, -, hb, hi⟩
    exact hplain b (Array.mem_of_getElem? hb) i hi
  refine ⟨hlink, ?_, hloops 2 _ _ _ 3 rfl rfl (by decide +kernel), ?_⟩
  · obtain ⟨_, ⟨⟩, hback⟩ := hlabels 4 (.jump (.address 3)) (.address 3) rfl (by decide)
    exact hback.1 (by decide)
  · obtain ⟨h, -⟩ | ⟨-, g, -, P, -, -, -, hP⟩ := Source.Program.deciding.compile_cases
    · exact absurd h (by decide)
    · obtain ⟨m, result, hrun, hstopped, hsteps, -⟩ := hsource .deciding P hP (by decide) [] {} {}
      exact ⟨P, hP, m, result, hrun, hstopped, hsteps⟩

end ThreeAddress
