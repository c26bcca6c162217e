import ThreeAddress.Proofs.Layout.Flow
import ThreeAddress.Proofs.Lowering.Linkable

set_option autoImplicit false

/-! # Hit counts and control flow

A machine counts how often it has executed each instruction. If it has halted, these counts are a
flow through the program, and for a compiled program they can be read off the block graph: a block
is executed as a whole, a loop is entered from the block before it and from its body, and a
conditional is left for one of its arms.

The last two need that no arm and no body begins with a loop, since a run comes back to the start of
a loop. Lowering takes care of that: it puts every conditional and every loop behind a straight
block, and begins every arm and every body with one (`Chain.Orderly`). -/

namespace ThreeAddress

/-! ## Orderly chains -/

namespace Chain

variable {c d : Chain} {base b : Nat} {path : List Nat}

/-- The chain begins with a straight block. -/
def isStraight : Chain → Bool
  | last _ _ | link _ _ _ => true
  | _ => false

/-- The arms, the bodies and what follows conditionals and loops begin with straight blocks. -/
def Orderly : Chain → Prop
  | last _ _ => True
  | link _ _ rest => rest.Orderly
  | cond _ _ _ arm rest => (arm.isStraight ∧ arm.Orderly) ∧ rest.isStraight ∧ rest.Orderly
  | condElse _ _ _ thenArm elseArm rest =>
    (thenArm.isStraight ∧ thenArm.Orderly) ∧ (elseArm.isStraight ∧ elseArm.Orderly) ∧
      rest.isStraight ∧ rest.Orderly
  | loop _ _ _ body rest => (body.isStraight ∧ body.Orderly) ∧ rest.isStraight ∧ rest.Orderly

theorem returns_of_isStraight (h : c.isStraight = true) : c.returns path base = 0 := by
  cases c with
  | last | link => rfl
  | _ => cases h

/-- A conditional or a loop comes behind a straight block only. -/
theorem Orderly.piece (h : c.Orderly) (hmem : (d, b) ∈ c.pieces base) :
    d.Orderly ∧ (d.isStraight = true ∨
      ∃ id code, c = .link id code d ∧ b = base + code.length + 1) := by
  cases c with
  | last => cases hmem
  | link id code rest =>
      obtain ⟨rfl, rfl⟩ := mem_pieces_link.1 hmem
      exact ⟨h, .inr ⟨id, code, rfl, rfl⟩⟩
  | cond =>
      rcases mem_pieces_cond.1 hmem with ⟨rfl, -⟩ | ⟨rfl, -⟩
      · exact ⟨h.1.2, .inl h.1.1⟩
      · exact ⟨h.2.2, .inl h.2.1⟩
  | condElse =>
      rcases mem_pieces_condElse.1 hmem with ⟨rfl, -⟩ | ⟨rfl, -⟩ | ⟨rfl, -⟩
      · exact ⟨h.1.2, .inl h.1.1⟩
      · exact ⟨h.2.1.2, .inl h.2.1.1⟩
      · exact ⟨h.2.2.2, .inl h.2.2.1⟩
  | loop =>
      rcases mem_pieces_loop.1 hmem with ⟨rfl, -⟩ | ⟨rfl, -⟩
      · exact ⟨h.1.2, .inl h.1.1⟩
      · exact ⟨h.2.2, .inl h.2.1⟩

theorem Orderly.part (h : c.Orderly) (hpart : Part c base d b) : d.Orderly :=
  hpart.inherit (motive := fun d _ => d.Orderly) (fun _ _ _ _ h hmem => (h.piece hmem).1) h

/-- A part that begins with a conditional or a loop comes behind a straight block. -/
theorem Orderly.exists_link (h : c.Orderly) (hc : c.isStraight = true) (hpart : Part c base d b)
    (hd : d.isStraight = false) :
    ∃ id code b', Part c base (.link id code d) b' ∧ b = b' + code.length + 1 := by
  cases hpart with
  | self =>
      rw [hc] at hd
      cases hd
  | @piece c' _ b' _ hpart' hmem =>
      rcases ((h.part hpart').piece hmem).2 with hstraight | ⟨id, code, rfl, hb⟩
      · rw [hstraight] at hd
        cases hd
      · exact ⟨id, code, b', hpart', hb⟩

end Chain

/-- Lowering yields orderly chains. -/
theorem Source.Shapes.orderly {stmts : List Stmt} {k k' : Cursor} {c : Chain}
    (h : Shapes stmts k c k') : c.isStraight = true ∧ c.Orderly := by
  induction h with
  | nil k => exact ⟨rfl, trivial⟩
  | flat hs hrest ih => exact ih
  | cond hthen hrest iht ihr => exact ⟨rfl, iht, ihr⟩
  | condElse hthen helse hrest iht ihe ihr => exact ⟨rfl, iht, ihe, ihr⟩
  | loop hbody hrest ihb ihr => exact ⟨rfl, ihb, ihr⟩

/-! ## Counters of a machine that has halted -/

/-- How often a machine has entered a block: how often it has executed the instruction where the
    block starts. -/
def Machine.entries? (m : Machine) (g : BlockGraph) (id : BlockId) : Option Nat :=
  (g.blockStart? id).bind fun a => m.hits[a]?

/-- The chain spans the graph and is the whole program, and the machine has counted the addresses
    of a course through the program. -/
structure Machine.Tallies (m : Machine) (g : BlockGraph) (p : Program) (c : Chain)
    (path : List Nat) : Prop where
  spans : g.Spans c
  region : c.Region g p 0
  course : p.Course path
  hits : ∀ a < p.size, m.hits[a]? = some (path.count a)

/-- A machine that has halted has counted a course through its program. -/
theorem Machine.Records.tallies {g : BlockGraph} {p : Program} {c : Chain} {m : Machine}
    {trace : List Nat} (h : Records p m trace) (hspans : g.Spans c) (hlink : g.link = .ok p)
    (hplain : c.Plain) (hstatus : m.status = .halted) (hpc : m.pc = p.size) :
    m.Tallies g p c (p.size :: trace) := by
  obtain ⟨hplaced, hsize⟩ := hspans.placed hlink
  obtain ⟨hway, hlast⟩ := h.arrived (by simp [hstatus])
  rw [hpc] at hway hlast
  refine ⟨hspans, ⟨hplaced, hplain, by omega, fun x y hlead _ _ => ?_⟩, ⟨hway, hlast, rfl⟩, ?_⟩
  · have := hlead.lt_size
    omega
  · intro a ha
    rw [h.hits a, if_pos ha, List.count_cons_of_ne (by omega)]

namespace Machine.Tallies

variable {m : Machine} {g : BlockGraph} {p : Program} {c d : Chain} {path : List Nat} {b : Nat}

theorem entries?_first (h : m.Tallies g p c path) (hpart : c.Part 0 d b) (hb : b < p.size) :
    m.entries? g d.first = some (path.count b) := by
  have hid : d.first ∈ c.blocks := hpart.blocks_subset d.first_mem_blocks
  have horigin := (hpart.placed h.region.placed).origin_first
  rw [entries?, (BlockGraph.blockStart?_eq_origin h.spans hid).1, horigin]
  exact h.hits b hb

/-- A block is executed as a whole. -/
theorem hits_of_inSegment (h : m.Tallies g p c path) {id : BlockId} (hid : id ∈ c.blocks) {a : Nat}
    (ha : g.InSegment id a) : m.hits[a]? = some (path.count (g.origin id)) := by
  obtain ⟨d, b, hpart, rfl⟩ := c.exists_part hid 0
  have hregion := h.region.part hpart
  have hfits := hpart.fits h.spans.fits
  have hlt := h.region.placed.lt_of_inSegment h.spans.fits hid ha
  have hle := h.region.le_size
  obtain ⟨block, hblock, hge, hlt'⟩ := ha
  obtain ⟨block', hblock', hcode⟩ := hfits.block
  cases hblock.symm.trans hblock'
  have hlength := block.length_segment_le g.origin
  rw [hcode] at hlength
  rw [hregion.placed.origin_first] at hge hlt' ⊢
  obtain ⟨k, rfl⟩ := Nat.le.dest hge
  rw [h.hits _ (by omega), hregion.count_code h.course (by omega)]

/-- A loop is entered from the straight block before it and from the end of its body. -/
theorem entries?_loop (h : m.Tallies g p c path) {source id : BlockId}
    {code code' : List Instr} {test : String} {body rest : Chain}
    (hpart : c.Part 0 (.link source code (.loop id code' test body rest)) b)
    (hbody : body.isStraight = true) :
    ∃ n k, m.entries? g source = some n ∧ m.entries? g body.first = some k ∧
      m.entries? g id = some (n + k) := by
  have hloop : c.Part 0 (.loop id code' test body rest) (b + code.length + 1) :=
    hpart.piece (by simp [Chain.pieces])
  have hinner : c.Part 0 body (b + code.length + 1 + code'.length + 1) :=
    hloop.piece (by simp [Chain.pieces])
  have hle := (h.region.part hpart).le_size
  rw [Chain.size_link, Chain.size_loop] at hle
  have hlink := (h.region.part hpart).count_link h.course
  have hend := (h.region.part hinner).count_end h.course
  rw [Chain.returns_of_isStraight hbody] at hend
  refine ⟨_, _, h.entries?_first hpart (by omega), h.entries?_first hinner (by omega), ?_⟩
  rw [← hend]
  have hentries := h.entries?_first hloop (by omega)
  rw [hlink] at hentries
  exact hentries

/-- The arm of a conditional is entered at most as often as the conditional. -/
theorem entries?_cond (h : m.Tallies g p c path) {id : BlockId} {code : List Instr} {test : String}
    {arm rest : Chain} (hpart : c.Part 0 (.cond id code test arm rest) b)
    (harm : arm.isStraight = true) :
    ∃ n k, m.entries? g arm.first = some k ∧ m.entries? g id = some n ∧ k ≤ n := by
  have hinner : c.Part 0 arm (b + code.length + 1) := hpart.piece (by simp [Chain.pieces])
  have hle := (h.region.part hpart).le_size
  rw [Chain.size_cond] at hle
  obtain ⟨hout, hin, -⟩ := (h.region.part hpart).count_cond h.course
  rw [Chain.returns_of_isStraight harm] at hin
  exact ⟨_, _, h.entries?_first hinner (by omega), h.entries?_first hpart (by omega), by omega⟩

/-- The arms of a conditional are entered together as often as the conditional. -/
theorem entries?_condElse (h : m.Tallies g p c path) {id : BlockId} {code : List Instr}
    {test : String} {thenArm elseArm rest : Chain}
    (hpart : c.Part 0 (.condElse id code test thenArm elseArm rest) b)
    (hthen : thenArm.isStraight = true) (helse : elseArm.isStraight = true) :
    ∃ n k, m.entries? g thenArm.first = some n ∧ m.entries? g elseArm.first = some k ∧
      m.entries? g id = some (n + k) := by
  have hinner : c.Part 0 thenArm (b + code.length + 1) := hpart.piece (by simp [Chain.pieces])
  have hmiddle : c.Part 0 elseArm (b + code.length + 1 + thenArm.size + 1) :=
    hpart.piece (by simp [Chain.pieces])
  have hle := (h.region.part hpart).le_size
  rw [Chain.size_condElse] at hle
  obtain ⟨hout, hin, hin', -⟩ := (h.region.part hpart).count_condElse h.course
  rw [Chain.returns_of_isStraight hthen] at hin
  rw [Chain.returns_of_isStraight helse] at hin'
  refine ⟨_, _, h.entries?_first hinner (by omega), h.entries?_first hmiddle (by omega), ?_⟩
  have hentries := h.entries?_first hpart (by omega)
  rw [hout] at hentries
  rw [hin, hin']
  exact hentries

end Machine.Tallies

/-! ## The result -/

/-- At most one block has a given block as its successor. -/
theorem BlockGraph.Spans.eq_of_next {g : BlockGraph} {c : Chain} (h : g.Spans c)
    {id id' next : BlockId} {b b' : Block} (hid : id ∈ c.blocks) (hid' : id' ∈ c.blocks)
    (hb : g.block? id = some b) (hb' : g.block? id' = some b') (hnext : b.next = some next)
    (hnext' : b'.next = some next) : id = id' := by
  have htree : g.TreeShaped :=
    (g.finishes_layout.eq_ok_iff (.initial g)).1 (layout_eq_ok_iff.2 ⟨c, h⟩)
  have hrefers {id : BlockId} {b : Block} (hb : g.block? id = some b) (hnext : b.next = some next) :
      ∃ n, g.Refers id n next := by
    rw [exists_refers_iff, references_of_block? hb, Block.successors]
    simp [hnext]
  obtain ⟨n, hn⟩ := hrefers hb hnext
  obtain ⟨n', hn'⟩ := hrefers hb' hnext'
  exact (htree.eq_of_refers (h.mem_blocks_iff.1 hid) hn (h.mem_blocks_iff.1 hid') hn').1

/-- A machine for a compiled program that has halted has counted a course through the program. -/
theorem Source.Program.Lowered.exists_tallies {source : Source.Program} {g : BlockGraph}
    {c : Chain} {P : ThreeAddress.Program} (h : source.Lowered g c) (hlink : g.link = .ok P)
    {capabilities : List Capability} {settings : Settings} {sink : Sink}
    {calls : List Machine.Call} {m : Machine}
    (hcalls : Machine.Called (Machine.create P capabilities settings sink) calls m)
    (hhalted : m.status = .halted) : ∃ path, m.Tallies g P c path := by
  obtain ⟨trace, hrecords⟩ :=
    (Machine.Records.create P capabilities settings sink).called hcalls
  have hconsistent :=
    (Machine.Consistent.create P capabilities settings sink).called hcalls
  have hplain : c.Plain := fun i hi => Instr.isJump_of_isPlain (h.plain i hi)
  exact ⟨_, hrecords.tallies h.spans hlink hplain hhalted (hconsistent.pc_of_halted hhalted)⟩

/-- **Hit counts follow the control flow.** Take a compiled program and a machine for it which has
    halted, whatever calls have led there. All instructions in the segment of a block have been
    executed equally often. Exactly one block has a given loop as its successor, and the loop has
    been entered as often as that block and the body of the loop together. A conditional with two
    arms has been entered as often as both arms together, and one with a single arm at least as
    often as the arm. -/
theorem hit_counts_follow_control_flow {source : Source.Program} {g : BlockGraph} {P : Program}
    (hg : source.lower = .ok g) (hP : source.compile = .ok P) {capabilities : List Capability}
    {settings : Settings} {sink : Sink} {calls : List Machine.Call} {m : Machine}
    (hcalls : Machine.Called (Machine.create P capabilities settings sink) calls m)
    (hhalted : m.status = .halted) :
    (∀ id, ∃ n, ∀ a, g.InSegment id a → m.hits[a]? = some n) ∧
    (∀ id b test body, g.block? id = some b → b.kind = .loop test body →
      ∃ before, (∀ id' b', g.block? id' = some b' → (b'.next = some id ↔ id' = before)) ∧
        ∃ n k, m.entries? g before = some n ∧ m.entries? g body = some k ∧
          m.entries? g id = some (n + k)) ∧
    (∀ id b test thenBlock elseBlock, g.block? id = some b →
      b.kind = .conditional test thenBlock (some elseBlock) →
      ∃ n k, m.entries? g thenBlock = some n ∧ m.entries? g elseBlock = some k ∧
        m.entries? g id = some (n + k)) ∧
    ∀ id b test thenBlock, g.block? id = some b → b.kind = .conditional test thenBlock none →
      ∃ n k, m.entries? g thenBlock = some k ∧ m.entries? g id = some n ∧ k ≤ n := by
  obtain ⟨c, hlowered, hlink⟩ : ∃ c, source.Lowered g c ∧ g.link = .ok P := by
    rcases source.compile_cases with ⟨-, e, he⟩ | ⟨-, g', c, P', hg', hlowered, hlink, hP'⟩
    · rw [hP] at he
      cases he
    · cases hg.symm.trans hg'
      cases hP.symm.trans hP'
      exact ⟨c, hlowered, hlink⟩
  obtain ⟨path, htallies⟩ := hlowered.exists_tallies hlink hcalls hhalted
  obtain ⟨k, hshape⟩ := hlowered.shape
  obtain ⟨hstraight, horderly⟩ := hshape.orderly
  -- every block of the graph begins a part, whose form is that of the block
  have hmem {id : BlockId} {b : Block} (hb : g.block? id = some b) : id ∈ c.blocks :=
    hlowered.mem_blocks.2 (Array.getElem?_eq_some_iff.1 hb).1
  have hparts {id : BlockId} {b : Block} (hb : g.block? id = some b) :
      ∃ d a, c.Part 0 d a ∧ d.first = id ∧ b.kind = d.kind := by
    obtain ⟨d, a, hpart, rfl⟩ := c.exists_part (hmem hb) 0
    exact ⟨d, a, hpart, rfl, (hpart.fits hlowered.spans.fits).kind_eq hb⟩
  refine ⟨fun id => ?_, ?_, ?_, ?_⟩
  · refine ⟨path.count (g.origin id), fun a ha => ?_⟩
    have hid : id ∈ c.blocks := hmem ha.choose_spec.1
    exact htallies.hits_of_inSegment hid ha
  · intro id b test body hb hkind
    obtain ⟨d, a, hpart, rfl, hkind'⟩ := hparts hb
    obtain ⟨id, code, body, rest, rfl, rfl⟩ :=
      Chain.exists_loop_of_kind (hkind'.symm.trans hkind)
    obtain ⟨before, code', a', hlinkPart, -⟩ := horderly.exists_link hstraight hpart rfl
    obtain ⟨⟨b', hb', -, -, hnext⟩, -⟩ := hlinkPart.fits hlowered.spans.fits
    refine ⟨before, fun id' b'' hb'' => ⟨fun hnext' => ?_, ?_⟩, ?_⟩
    · exact hlowered.spans.eq_of_next (hmem hb'') (hmem hb') hb'' hb' hnext' hnext
    · rintro rfl
      cases hb'.symm.trans hb''
      exact hnext
    · exact htallies.entries?_loop hlinkPart (horderly.part hpart).1.1
  · intro id b test thenBlock elseBlock hb hkind
    obtain ⟨d, a, hpart, rfl, hkind'⟩ := hparts hb
    obtain ⟨id, code, thenArm, elseArm, rest, rfl, rfl, rfl⟩ :=
      Chain.exists_condElse_of_kind (hkind'.symm.trans hkind)
    have hpieces := horderly.part hpart
    exact htallies.entries?_condElse hpart hpieces.1.1 hpieces.2.1.1
  · intro id b test thenBlock hb hkind
    obtain ⟨d, a, hpart, rfl, hkind'⟩ := hparts hb
    obtain ⟨id, code, arm, rest, rfl, rfl⟩ := Chain.exists_cond_of_kind (hkind'.symm.trans hkind)
    exact htallies.entries?_cond hpart (horderly.part hpart).1.1

/-- The loop is entered three times: once from before it, and twice from its body. -/
theorem hit_counts_follow_control_flow_countdown :
    ∃ g P m, Source.Program.countdown.lower = .ok g ∧
      Source.Program.countdown.compile = .ok P ∧
      Machine.Called (Machine.create P [] {} {}) [.run] m ∧ m.status = .halted ∧
      m.entries? g 0 = some 1 ∧ m.entries? g 2 = some 2 ∧ m.entries? g 1 = some 3 := by
  obtain ⟨h, -⟩ | ⟨-, g, -, P, hg, -, -, hP⟩ := Source.Program.countdown.compile_cases
  · exact absurd h (by decide)
  have hrun : (Source.Program.countdown.lower.toOption.bind fun g =>
      Source.Program.countdown.compile.toOption.bind fun P =>
        ((Machine.create P [] {} {}).run 50).map fun r =>
          (r.1.status, r.1.entries? g 0, r.1.entries? g 2)) = some (.halted, some 1, some 2) := by
    decide +kernel
  have hkind : (Source.Program.countdown.lower.toOption.bind fun g =>
      (g.block? 1).map Block.kind) = some (.loop "__bool_0" 2) := by
    decide +kernel
  have hnext : (Source.Program.countdown.lower.toOption.bind fun g =>
      (g.block? 0).map Block.next) = some (some 1) := by
    decide +kernel
  rw [hg] at hrun hkind hnext
  rw [hP] at hrun
  simp only [Except.toOption, Option.bind_some, Option.map_eq_some_iff] at hrun hkind hnext
  obtain ⟨⟨m, result⟩, hrun, hcounts⟩ := hrun
  simp only [Prod.mk.injEq] at hcounts
  obtain ⟨hhalted, hbefore, hbody⟩ := hcounts
  obtain ⟨loop, hloop, hkind⟩ := hkind
  obtain ⟨first, hfirst, hnext⟩ := hnext
  have hcalls : Machine.Called (Machine.create P [] {} {}) [.run] m := .cons .nil (.run hrun)
  obtain ⟨-, hloops, -⟩ := hit_counts_follow_control_flow hg hP hcalls hhalted
  obtain ⟨before, hunique, n, k, hn, hk, hsum⟩ := hloops 1 loop _ _ hloop hkind
  obtain rfl := (hunique 0 first hfirst).1 hnext
  rw [hbefore] at hn
  rw [hbody] at hk
  cases hn
  cases hk
  exact ⟨g, P, m, hg, hP, hcalls, hhalted, hbefore, hbody, hsum⟩

end ThreeAddress
