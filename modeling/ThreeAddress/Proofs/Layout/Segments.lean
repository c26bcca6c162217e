import Mathlib.Algebra.GroupWithZero.Nat
import ThreeAddress.Proofs.Layout.Placement
import ThreeAddress.Proofs.Layout.Traversal

set_option autoImplicit false

/-! # What a linked program consists of

A linked program has a segment for every block that is laid out: the instructions of the block and
the jump or the branch that leaves it. The segments stand in the order in which a depth-first search
reaches the blocks, and do not overlap. All that stands between them are closing jumps, one behind
each arm of a conditional and one behind the body of each loop.

The segments are found by following the chain that spans the graph. Each block of the chain begins
a chain of its own, whose code is a piece of the program (`Chain.Placed.begins`), and every
place of a piece belongs to a segment or closes a region (`Chain.Placed.covered`). -/

namespace ThreeAddress

/-! ## Segments -/

namespace Block

/-- The jump or the branch that leaves a block, where `origin` gives the address of a block. -/
def exit? (origin : BlockId → Nat) (b : Block) : Option Instr :=
  match b.kind, b.next with
  | .straight, some next => some (.jump (.address (origin next)))
  | .conditional test thenBlock elseBlock, some next =>
    some (.branch test (.address (origin thenBlock)) (.address (origin (elseBlock.getD next))))
  | .loop test body, some next =>
    some (.branch test (.address (origin body)) (.address (origin next)))
  | _, none => none

/-- The instructions of a block and what leaves it. -/
def segment (origin : BlockId → Nat) (b : Block) : List Instr :=
  b.code.toList ++ (b.exit? origin).toList

theorem length_segment_le (origin : BlockId → Nat) (b : Block) :
    (b.segment origin).length ≤ b.code.toList.length + 1 := by
  rw [segment, List.length_append]
  cases b.exit? origin <;> simp

theorem length_segment_of_exit {origin : BlockId → Nat} {b : Block}
    (h : (b.exit? origin).isSome = true) :
    (b.segment origin).length = b.code.toList.length + 1 := by
  obtain ⟨i, hi⟩ := Option.isSome_iff_exists.1 h
  simp [segment, hi]

/-- A straight block that goes on to another one. -/
def isLink (b : Block) : Bool := b.kind == .straight && b.next.isSome

/-- A conditional, with or without an alternative. -/
def isConditional (b : Block) : Bool := b.kind matches .conditional _ _ _

/-- A conditional with two arms. -/
def hasElse (b : Block) : Bool := b.kind matches .conditional _ _ (some _)

/-- The header of a loop. -/
def isLoop (b : Block) : Bool := b.kind matches .loop _ _

/-- The number of addresses that blocks take: one for each instruction and for what leaves a block,
    and one for each closing jump. -/
def footprint (blocks : List Block) : Nat :=
  (blocks.map fun b => b.code.size).sum + blocks.countP isLink + 2 * blocks.countP isConditional
    + blocks.countP hasElse + 2 * blocks.countP isLoop

theorem footprint_append (blocks blocks' : List Block) :
    footprint (blocks ++ blocks') = footprint blocks + footprint blocks' := by
  simp only [footprint, List.map_append, List.sum_append, List.countP_append]
  omega

theorem footprint_cons (b : Block) (blocks : List Block) :
    footprint (b :: blocks) = footprint [b] + footprint blocks :=
  footprint_append [b] blocks

end Block

namespace BlockGraph

variable (g : BlockGraph) (p : Program)

/-- A depth-first search that has the blocks of `stack` before it reaches blocks in the given order:
    the first block of the stack, what it refers to, and what is left of the stack. -/
inductive DepthFirst : List BlockId → List BlockId → Prop
  | nil : DepthFirst [] []
  | visit {id : BlockId} {b : Block} {stack order : List BlockId} (hb : g.block? id = some b)
      (h : DepthFirst (b.successors ++ stack) order) : DepthFirst (id :: stack) (id :: order)

/-- The address lies in the segment of the block `id`. -/
def InSegment (id : BlockId) (a : Nat) : Prop :=
  ∃ b, g.block? id = some b ∧ g.origin id ≤ a ∧ a < g.origin id + (b.segment g.origin).length

/-- The address holds a closing jump that belongs to the block `id`. It stands in front of the block
    that is placed next behind the arm or the body which it closes. The jump behind an arm leads to
    the successor of the conditional, the jump behind a body back to the loop. -/
inductive Closes (a : Nat) (id : BlockId) : Prop
  | thenArm {b : Block} {test : String} {thenBlock elseBlock next : BlockId}
      (hb : g.block? id = some b) (hkind : b.kind = .conditional test thenBlock (some elseBlock))
      (hnext : b.next = some next) (hbehind : g.origin elseBlock = a + 1)
      (hjump : p.code[a]? = some (.jump (.address (g.origin next))))
  | lastArm {b : Block} {test : String} {thenBlock next : BlockId} {elseBlock : Option BlockId}
      (hb : g.block? id = some b) (hkind : b.kind = .conditional test thenBlock elseBlock)
      (hnext : b.next = some next) (hbehind : g.origin next = a + 1)
      (hjump : p.code[a]? = some (.jump (.address (g.origin next))))
  | body {b : Block} {test : String} {body exit : BlockId}
      (hb : g.block? id = some b) (hkind : b.kind = .loop test body) (hnext : b.next = some exit)
      (hbehind : g.origin exit = a + 1)
      (hjump : p.code[a]? = some (.jump (.address (g.origin id))))

/-- The program is made of the blocks of `order`. -/
structure LaidOut (order : List BlockId) : Prop where
  /-- The blocks stand in the order in which a depth-first search reaches them. -/
  reached : g.DepthFirst [g.start] order
  /-- They are those that have a start, and refer to one another only. -/
  starts : ∀ id a, g.blockStart? id = some a ↔ id ∈ order ∧ g.origin id = a
  successors : ∀ id ∈ order, ∀ b, g.block? id = some b → ∀ id' ∈ b.successors, id' ∈ order
  /-- The later a block is reached, the larger is its start. -/
  increasing : order.Pairwise fun id id' => g.origin id < g.origin id'
  /-- From the start of a block on, the program has the segment of the block. -/
  segments : ∀ id ∈ order, ∃ b, g.block? id = some b ∧
    p.Holds (g.origin id) (b.segment g.origin)
  disjoint : order.Pairwise fun id id' => ∀ a, ¬ (g.InSegment id a ∧ g.InSegment id' a)
  /-- All other addresses hold closing jumps. -/
  closing : ∀ a < p.size, (∀ id ∈ order, ¬ g.InSegment id a) → ∃ id ∈ order, g.Closes p a id
  size_eq : p.size = Block.footprint (order.filterMap g.block?)

end BlockGraph

/-! ## The order of the blocks -/

/-- The blocks of a chain are in depth-first order. -/
theorem Chain.Fits.depthFirst {g : BlockGraph} {c : Chain} (h : c.Fits g) {stack order : List BlockId}
    (hstack : g.DepthFirst stack order) : g.DepthFirst (c.first :: stack) (c.blocks ++ order) := by
  induction c generalizing stack order with
  | last id code =>
      obtain ⟨b, hb, -, hkind, hnext⟩ := h
      refine .visit hb ?_
      simpa [Block.successors, BlockKind.branches, hkind, hnext] using hstack
  | link id code rest ih =>
      obtain ⟨⟨b, hb, -, hkind, hnext⟩, hrest⟩ := h
      refine .visit hb ?_
      simpa [Block.successors, BlockKind.branches, hkind, hnext] using ih hrest hstack
  | cond id code test arm rest iha ihr =>
      obtain ⟨⟨b, hb, -, hkind, hnext⟩, harm, hrest⟩ := h
      refine .visit hb ?_
      simpa [Block.successors, BlockKind.branches, hkind, hnext]
        using iha harm (ihr hrest hstack)
  | condElse id code test thenArm elseArm rest iht ihe ihr =>
      obtain ⟨⟨b, hb, -, hkind, hnext⟩, hthen, helse, hrest⟩ := h
      refine .visit hb ?_
      simpa [Block.successors, BlockKind.branches, hkind, hnext]
        using iht hthen (ihe helse (ihr hrest hstack))
  | loop id code test body rest ihb ihr =>
      obtain ⟨⟨b, hb, -, hkind, hnext⟩, hbody, hrest⟩ := h
      refine .visit hb ?_
      simpa [Block.successors, BlockKind.branches, hkind, hnext]
        using ihb hbody (ihr hrest hstack)

namespace Chain

variable {g : BlockGraph} {p : Program} {base : Nat} {c : Chain} {id : BlockId}

/-! ## The piece of a block -/

/-- The block `id` begins a chain that stands between two addresses and has no other blocks than
    those of `ids`. -/
def Begins (g : BlockGraph) (p : Program) (id : BlockId) (lower upper : Nat) (ids : List BlockId) :
    Prop :=
  ∃ c : Chain, c.first = id ∧ c.Fits g ∧ c.Placed g p (g.origin id) ∧ lower ≤ g.origin id ∧
    g.origin id + c.size ≤ upper ∧ c.blocks ⊆ ids

theorem Begins.widen {lower lower' upper upper' : Nat} {ids ids' : List BlockId}
    (h : Begins g p id lower upper ids) (hlower : lower' ≤ lower) (hupper : upper ≤ upper')
    (hids : ids ⊆ ids') : Begins g p id lower' upper' ids' := by
  obtain ⟨c, hfirst, hfits, hplaced, hle, hle', hsub⟩ := h
  exact ⟨c, hfirst, hfits, hplaced, Nat.le_trans hlower hle, Nat.le_trans hle' hupper,
    List.Subset.trans hsub hids⟩

theorem Placed.begins_first (h : c.Placed g p base) (hfits : c.Fits g) :
    Begins g p c.first base (base + c.size) c.blocks := by
  have horigin := h.origin_first
  exact ⟨c, rfl, hfits, horigin ▸ h, Nat.le_of_eq horigin.symm, Nat.le_of_eq (by rw [horigin]),
    List.Subset.refl _⟩

/-- Each block of a chain begins a chain of its own, which stands within the former. -/
theorem Placed.begins (h : c.Placed g p base) (hfits : c.Fits g) (hid : id ∈ c.blocks) :
    Begins g p id base (base + c.size) c.blocks := by
  induction c generalizing base with
  | last id' code =>
      rw [blocks, List.mem_singleton] at hid
      subst hid
      exact h.begins_first hfits
  | link id' code rest ih =>
      have hfirst := h.begins_first hfits
      obtain ⟨-, hrest, hsize⟩ := h.link
      rcases List.mem_cons.1 hid with rfl | hid
      · exact hfirst
      · exact (ih hrest hfits.2 hid).widen (by omega) (by omega) (by simp [blocks])
  | cond id' code test arm rest iha ihr =>
      have hfirst := h.begins_first hfits
      obtain ⟨-, harm, -, hrest, hsize⟩ := h.cond
      simp only [blocks, List.mem_cons, List.mem_append] at hid
      rcases hid with rfl | hid | hid
      · exact hfirst
      · exact (iha harm hfits.2.1 hid).widen (by omega) (by omega) (by simp [blocks])
      · exact (ihr hrest hfits.2.2 hid).widen (by omega) (by omega) (by simp [blocks])
  | condElse id' code test thenArm elseArm rest iht ihe ihr =>
      have hfirst := h.begins_first hfits
      obtain ⟨-, hthen, -, helse, -, hrest, hsize⟩ := h.condElse
      simp only [blocks, List.mem_cons, List.mem_append] at hid
      rcases hid with rfl | hid | hid | hid
      · exact hfirst
      · exact (iht hthen hfits.2.1 hid).widen (by omega) (by omega) (by simp [blocks])
      · exact (ihe helse hfits.2.2.1 hid).widen (by omega) (by omega) (by grind [blocks])
      · exact (ihr hrest hfits.2.2.2 hid).widen (by omega) (by omega) (by grind [blocks])
  | loop id' code test body rest ihb ihr =>
      have hfirst := h.begins_first hfits
      obtain ⟨-, hbody, -, hrest, hsize⟩ := h.loop
      simp only [blocks, List.mem_cons, List.mem_append] at hid
      rcases hid with rfl | hid | hid
      · exact hfirst
      · exact (ihb hbody hfits.2.1 hid).widen (by omega) (by omega) (by simp [blocks])
      · exact (ihr hrest hfits.2.2 hid).widen (by omega) (by omega) (by simp [blocks])

/-! ## The segment of a block -/

/-- The program has the segment of the block from `base` on, and the segment ends at `upper` at the
    latest. -/
def HasSegment (g : BlockGraph) (p : Program) (b : Block) (base upper : Nat) : Prop :=
  p.Holds base (b.segment g.origin) ∧ base + (b.segment g.origin).length ≤ upper

/-- A block that something leaves. -/
theorem hasSegment_of_exit {b : Block} {i : Instr} {upper : Nat} (hexit : b.exit? g.origin = some i)
    (hcode : p.Holds base b.code.toList) (hi : p.code[base + b.code.toList.length]? = some i)
    (hupper : base + b.code.toList.length + 1 ≤ upper) : HasSegment g p b base upper := by
  rw [HasSegment, Block.segment, hexit, Option.toList_some, Program.holds_append,
    Program.holds_cons, List.length_append, List.length_singleton]
  exact ⟨⟨hcode, hi, fun k i hk => by simp at hk⟩, hupper⟩

/-- A chain starts with the segment of its first block, which refers to blocks of the chain only. -/
theorem Placed.hasSegment (h : c.Placed g p base) (hfits : c.Fits g) :
    ∃ b, g.block? c.first = some b ∧ HasSegment g p b base (base + c.size) ∧
      ∀ id ∈ b.successors, id ∈ c.blocks := by
  have hcode := h.code
  cases c with
  | last id code =>
      obtain ⟨b, hb, rfl, hkind, hnext⟩ := hfits
      refine ⟨b, hb, ?_, by simp [Block.successors, BlockKind.branches, hkind, hnext]⟩
      replace hcode : p.Holds base b.code.toList := hcode
      simpa [HasSegment, Block.segment, Block.exit?, hkind, hnext, size_last] using hcode
  | link id code rest =>
      obtain ⟨⟨b, hb, rfl, hkind, hnext⟩, -⟩ := hfits
      obtain ⟨hjump, -, hsize⟩ := h.link
      refine ⟨b, hb, hasSegment_of_exit ?_ hcode hjump (by omega), ?_⟩
      · simp [Block.exit?, hkind, hnext]
      · simp [Block.successors, BlockKind.branches, hkind, hnext, blocks, first_mem_blocks]
  | cond id code test arm rest =>
      obtain ⟨⟨b, hb, rfl, hkind, hnext⟩, -⟩ := hfits
      obtain ⟨hbranch, -, -, -, hsize⟩ := h.cond
      refine ⟨b, hb, hasSegment_of_exit ?_ hcode hbranch (by omega), ?_⟩
      · simp [Block.exit?, hkind, hnext]
      · simp [Block.successors, BlockKind.branches, hkind, hnext, blocks, first_mem_blocks]
  | condElse id code test thenArm elseArm rest =>
      obtain ⟨⟨b, hb, rfl, hkind, hnext⟩, -⟩ := hfits
      obtain ⟨hbranch, -, -, -, -, -, hsize⟩ := h.condElse
      refine ⟨b, hb, hasSegment_of_exit ?_ hcode hbranch (by omega), ?_⟩
      · simp [Block.exit?, hkind, hnext]
      · simp [Block.successors, BlockKind.branches, hkind, hnext, blocks, first_mem_blocks]
  | loop id code test body rest =>
      obtain ⟨⟨b, hb, rfl, hkind, hnext⟩, -⟩ := hfits
      obtain ⟨hbranch, -, -, -, hsize⟩ := h.loop
      refine ⟨b, hb, hasSegment_of_exit ?_ hcode hbranch (by omega), ?_⟩
      · simp [Block.exit?, hkind, hnext]
      · simp [Block.successors, BlockKind.branches, hkind, hnext, blocks, first_mem_blocks]

/-- Every block of a chain has its segment within the piece of the chain. -/
theorem Placed.segment (h : c.Placed g p base) (hfits : c.Fits g) (hid : id ∈ c.blocks) :
    base ≤ g.origin id ∧ ∃ b, g.block? id = some b ∧
      HasSegment g p b (g.origin id) (base + c.size) ∧ ∀ id' ∈ b.successors, id' ∈ c.blocks := by
  obtain ⟨c', rfl, hfits', hplaced, hle, hle', hsub⟩ := h.begins hfits hid
  obtain ⟨b, hb, ⟨hholds, hupper⟩, hsuccessors⟩ := hplaced.hasSegment hfits'
  exact ⟨hle, b, hb, ⟨hholds, Nat.le_trans hupper hle'⟩, fun x hx => hsub (hsuccessors x hx)⟩

theorem Placed.lt_of_inSegment (h : c.Placed g p base) (hfits : c.Fits g) (hid : id ∈ c.blocks)
    {a : Nat} (ha : g.InSegment id a) : a < base + c.size := by
  obtain ⟨-, b, hb, ⟨-, hupper⟩, -⟩ := h.segment hfits hid
  obtain ⟨b', hb', -, hlt⟩ := ha
  cases hb.symm.trans hb'
  omega

/-! ## The order of the segments -/

/-- The block starts before another one, and its segment ends before the other block starts. -/
def Precedes (g : BlockGraph) (id id' : BlockId) : Prop :=
  g.origin id < g.origin id' ∧ ∀ a, g.InSegment id a → a < g.origin id'

/-- The blocks of a piece come before those of a later one. -/
theorem Placed.precedes (h : c.Placed g p base) (hfits : c.Fits g) {c' : Chain} {base' : Nat}
    (h' : c'.Placed g p base') (hfits' : c'.Fits g) (hlt : base + c.size < base') :
    ∀ id ∈ c.blocks, ∀ id' ∈ c'.blocks, Precedes g id id' := by
  intro id hid id' hid'
  obtain ⟨-, b, -, ⟨-, hupper⟩, -⟩ := h.segment hfits hid
  obtain ⟨hle', -⟩ := h'.segment hfits' hid'
  refine ⟨by omega, fun a ha => ?_⟩
  have := h.lt_of_inSegment hfits hid ha
  omega

/-- A block comes before the pieces behind its segment. -/
theorem precedes_of_has {code : List Instr} {kind : BlockKind} {next : Option BlockId}
    (hhas : g.Has id code kind next) {base' : Nat} (h : c.Placed g p base') (hfits : c.Fits g)
    (hle : g.origin id + code.length + 1 ≤ base') : ∀ id' ∈ c.blocks, Precedes g id id' := by
  intro id' hid'
  obtain ⟨hle', -⟩ := h.segment hfits hid'
  obtain ⟨b, hb, rfl, -⟩ := hhas
  refine ⟨by omega, ?_⟩
  rintro a ⟨b', hb', -, hlt⟩
  cases hb.symm.trans hb'
  have := b.length_segment_le g.origin
  omega

/-- The blocks of a chain stand one behind another. -/
theorem Placed.pairwise (h : c.Placed g p base) (hfits : c.Fits g) :
    c.blocks.Pairwise (Precedes g) := by
  have horigin := h.origin_first
  induction c generalizing base with
  | last id code => exact List.pairwise_singleton ..
  | link id code rest ih =>
      obtain ⟨-, hrest, -⟩ := h.link
      replace horigin : g.origin id = base := horigin
      rw [blocks, List.pairwise_cons]
      exact ⟨precedes_of_has hfits.1 hrest hfits.2 (by omega), ih hrest hfits.2 hrest.origin_first⟩
  | cond id code test arm rest iha ihr =>
      obtain ⟨hhas, hfa, hfr⟩ := hfits
      obtain ⟨-, harm, -, hrest, -⟩ := h.cond
      replace horigin : g.origin id = base := horigin
      simp only [blocks, List.pairwise_cons, List.pairwise_append, List.forall_mem_append]
      exact ⟨⟨precedes_of_has hhas harm hfa (by omega), precedes_of_has hhas hrest hfr (by omega)⟩,
        iha harm hfa harm.origin_first, ihr hrest hfr hrest.origin_first,
        harm.precedes hfa hrest hfr (by omega)⟩
  | condElse id code test thenArm elseArm rest iht ihe ihr =>
      obtain ⟨hhas, hft, hfe, hfr⟩ := hfits
      obtain ⟨-, hthen, -, helse, -, hrest, -⟩ := h.condElse
      replace horigin : g.origin id = base := horigin
      have hthenElse := hthen.precedes hft helse hfe (by omega)
      have hthenRest := hthen.precedes hft hrest hfr (by omega)
      simp only [blocks, List.pairwise_cons, List.pairwise_append, List.forall_mem_append]
      exact ⟨⟨precedes_of_has hhas hthen hft (by omega), precedes_of_has hhas helse hfe (by omega),
          precedes_of_has hhas hrest hfr (by omega)⟩,
        iht hthen hft hthen.origin_first,
        ⟨ihe helse hfe helse.origin_first, ihr hrest hfr hrest.origin_first,
          helse.precedes hfe hrest hfr (by omega)⟩,
        fun a ha => ⟨hthenElse a ha, hthenRest a ha⟩⟩
  | loop id code test body rest ihb ihr =>
      obtain ⟨hhas, hfb, hfr⟩ := hfits
      obtain ⟨-, hbody, -, hrest, -⟩ := h.loop
      replace horigin : g.origin id = base := horigin
      simp only [blocks, List.pairwise_cons, List.pairwise_append, List.forall_mem_append]
      exact ⟨⟨precedes_of_has hhas hbody hfb (by omega), precedes_of_has hhas hrest hfr (by omega)⟩,
        ihb hbody hfb hbody.origin_first, ihr hrest hfr hrest.origin_first,
        hbody.precedes hfb hrest hfr (by omega)⟩

/-! ## Between the segments -/

/-- The address lies in the segment of a block of `ids`, or holds a closing jump of one. -/
def Covered (g : BlockGraph) (p : Program) (ids : List BlockId) (a : Nat) : Prop :=
  ∃ id ∈ ids, g.InSegment id a ∨ g.Closes p a id

theorem Covered.mono {ids ids' : List BlockId} {a : Nat} (h : Covered g p ids a)
    (hids : ids ⊆ ids') : Covered g p ids' a := by
  obtain ⟨id, hid, h⟩ := h
  exact ⟨id, hids hid, h⟩

/-- The addresses of the first segment are covered. -/
theorem Placed.covered_first (h : c.Placed g p base) {b : Block} (hb : g.block? c.first = some b)
    (hexit : (b.exit? g.origin).isSome = true) {a : Nat} (hle : base ≤ a)
    (hlt : a < base + b.code.toList.length + 1) : Covered g p c.blocks a := by
  refine ⟨c.first, c.first_mem_blocks, .inl ⟨b, hb, ?_⟩⟩
  rw [h.origin_first, Block.length_segment_of_exit hexit]
  omega

/-- Every place of a chain belongs to a segment or closes a region. -/
theorem Placed.covered (h : c.Placed g p base) (hfits : c.Fits g) {a : Nat} (hle : base ≤ a)
    (hlt : a < base + c.size) : Covered g p c.blocks a := by
  induction c generalizing base with
  | last id code =>
      obtain ⟨b, hb, rfl, -⟩ := hfits
      have horigin : g.origin id = base := h.origin_first
      rw [size_last] at hlt
      refine ⟨id, by simp [blocks], .inl ⟨b, hb, ?_⟩⟩
      rw [Block.segment, List.length_append]
      omega
  | link id code rest ih =>
      obtain ⟨⟨b, hb, rfl, hkind, hnext⟩, hfr⟩ := hfits
      obtain ⟨-, hrest, hsize⟩ := h.link
      by_cases hfirst : a < base + b.code.toList.length + 1
      · exact h.covered_first hb (by simp [Block.exit?, hkind, hnext]) hle hfirst
      · exact (ih hrest hfr (by omega) (by omega)).mono (by simp [blocks])
  | cond id code test arm rest iha ihr =>
      obtain ⟨⟨b, hb, rfl, hkind, hnext⟩, hfa, hfr⟩ := hfits
      obtain ⟨-, harm, hjump, hrest, hsize⟩ := h.cond
      by_cases hfirst : a < base + b.code.toList.length + 1
      · exact h.covered_first hb (by simp [Block.exit?, hkind, hnext]) hle hfirst
      by_cases hinArm : a < base + b.code.toList.length + 1 + arm.size
      · exact (iha harm hfa (by omega) hinArm).mono (by simp [blocks])
      by_cases hclose : a = base + b.code.toList.length + 1 + arm.size
      · subst hclose
        exact ⟨id, by simp [blocks], .inr (.lastArm hb hkind hnext hrest.origin_first hjump)⟩
      · exact (ihr hrest hfr (by omega) (by omega)).mono (by simp [blocks])
  | condElse id code test thenArm elseArm rest iht ihe ihr =>
      obtain ⟨⟨b, hb, rfl, hkind, hnext⟩, hft, hfe, hfr⟩ := hfits
      obtain ⟨-, hthen, hjump, helse, hjump', hrest, hsize⟩ := h.condElse
      by_cases hfirst : a < base + b.code.toList.length + 1
      · exact h.covered_first hb (by simp [Block.exit?, hkind, hnext]) hle hfirst
      by_cases hinThen : a < base + b.code.toList.length + 1 + thenArm.size
      · exact (iht hthen hft (by omega) hinThen).mono (by simp [blocks])
      by_cases hclose : a = base + b.code.toList.length + 1 + thenArm.size
      · subst hclose
        exact ⟨id, by simp [blocks], .inr (.thenArm hb hkind hnext helse.origin_first hjump)⟩
      by_cases hinElse : a < base + b.code.toList.length + 1 + thenArm.size + 1 + elseArm.size
      · exact (ihe helse hfe (by omega) hinElse).mono (by grind [blocks])
      by_cases hclose' : a = base + b.code.toList.length + 1 + thenArm.size + 1 + elseArm.size
      · subst hclose'
        exact ⟨id, by simp [blocks], .inr (.lastArm hb hkind hnext hrest.origin_first hjump')⟩
      · exact (ihr hrest hfr (by omega) (by omega)).mono (by grind [blocks])
  | loop id code test body rest ihb ihr =>
      obtain ⟨⟨b, hb, rfl, hkind, hnext⟩, hfb, hfr⟩ := hfits
      obtain ⟨-, hbody, hjump, hrest, hsize⟩ := h.loop
      by_cases hfirst : a < base + b.code.toList.length + 1
      · exact h.covered_first hb (by simp [Block.exit?, hkind, hnext]) hle hfirst
      by_cases hinBody : a < base + b.code.toList.length + 1 + body.size
      · exact (ihb hbody hfb (by omega) hinBody).mono (by simp [blocks])
      by_cases hclose : a = base + b.code.toList.length + 1 + body.size
      · subst hclose
        exact ⟨id, by simp [blocks], .inr (.body hb hkind hnext hrest.origin_first hjump)⟩
      · exact (ihr hrest hfr (by omega) (by omega)).mono (by simp [blocks])

/-! ## The size of a chain -/

/-- A chain takes as many addresses as its blocks. -/
theorem Fits.size_eq (h : c.Fits g) : c.size = Block.footprint (c.blocks.filterMap g.block?) := by
  induction c with
  | last id code =>
      obtain ⟨b, hb, rfl, hkind, hnext⟩ := h
      simp [size_last, blocks, hb, Block.footprint, Block.isLink, Block.isConditional,
        Block.hasElse, Block.isLoop, hkind, hnext]
  | link id code rest ih =>
      obtain ⟨⟨b, hb, rfl, hkind, hnext⟩, hrest⟩ := h
      have hone : Block.footprint [b] = b.code.toList.length + 1 := by
        simp [Block.footprint, Block.isLink, Block.isConditional, Block.hasElse, Block.isLoop,
          hkind, hnext]
      rw [blocks, List.filterMap_cons_some hb, Block.footprint_cons, hone, ← ih hrest]
      simp only [size, slots, List.length_append, List.length_map, List.length_cons]
      omega
  | cond id code test arm rest iha ihr =>
      obtain ⟨⟨b, hb, rfl, hkind, hnext⟩, harm, hrest⟩ := h
      have hone : Block.footprint [b] = b.code.toList.length + 2 := by
        simp [Block.footprint, Block.isLink, Block.isConditional, Block.hasElse, Block.isLoop,
          hkind]
      rw [blocks, List.filterMap_cons_some hb, List.filterMap_append, Block.footprint_cons,
        Block.footprint_append, hone, ← iha harm, ← ihr hrest]
      simp only [size, slots, List.length_append, List.length_map, List.length_cons]
      omega
  | condElse id code test thenArm elseArm rest iht ihe ihr =>
      obtain ⟨⟨b, hb, rfl, hkind, hnext⟩, hthen, helse, hrest⟩ := h
      have hone : Block.footprint [b] = b.code.toList.length + 3 := by
        simp [Block.footprint, Block.isLink, Block.isConditional, Block.hasElse, Block.isLoop,
          hkind]
      rw [blocks, List.filterMap_cons_some hb, List.filterMap_append, List.filterMap_append,
        Block.footprint_cons, Block.footprint_append, Block.footprint_append, hone, ← iht hthen,
        ← ihe helse, ← ihr hrest]
      simp only [size, slots, List.length_append, List.length_map, List.length_cons]
      omega
  | loop id code test body rest ihb ihr =>
      obtain ⟨⟨b, hb, rfl, hkind, hnext⟩, hbody, hrest⟩ := h
      have hone : Block.footprint [b] = b.code.toList.length + 2 := by
        simp [Block.footprint, Block.isLink, Block.isConditional, Block.hasElse, Block.isLoop,
          hkind]
      rw [blocks, List.filterMap_cons_some hb, List.filterMap_append, Block.footprint_cons,
        Block.footprint_append, hone, ← ihb hbody, ← ihr hrest]
      simp only [size, slots, List.length_append, List.length_map, List.length_cons]
      omega

end Chain

/-! ## The result -/

/-- A block has a start exactly if it is one of the chain that spans the graph. -/
theorem BlockGraph.blockStart?_eq_some_iff {g : BlockGraph} {c : Chain} (h : g.Spans c)
    {id : BlockId} {a : Nat} : g.blockStart? id = some a ↔ id ∈ c.blocks ∧ g.origin id = a := by
  constructor
  · intro hstart
    refine ⟨?_, by rw [origin, hstart, Option.getD_some]⟩
    have hplaced : g.layout.1.placed id = true := by
      rw [Layout.placed, ← blockStart?, hstart]
      rfl
    rw [layout_of_spans h, Layout.placed_extend] at hplaced
    simpa [Layout.placed, Layout.start?, Layout.empty] using hplaced
  · rintro ⟨hid, rfl⟩
    exact (blockStart?_eq_origin h hid).1

/-- **A linked program is its blocks in depth-first order.** The blocks that are laid out have
    strictly increasing starts, in the order in which a depth-first search reaches them. From the
    start of each of them on, the program has the instructions of the block and then the jump or the
    branch that leaves it, with the starts of the blocks that it leads to. These segments do not
    overlap, all other addresses hold closing jumps of conditionals and loops, and the size of the
    program is the number of instructions, exits and closing jumps of the blocks. -/
theorem linked_program_laidOut {g : BlockGraph} {p : Program} (h : g.link = .ok p) :
    g.LaidOut p g.layout.1.blocks := by
  obtain ⟨c, hspans, hplaced, hsize⟩ := BlockGraph.placed_of_link h
  have horder : g.layout.1.blocks = c.blocks := by
    rw [BlockGraph.layout_of_spans hspans]
    simp [Layout.blocks, Layout.empty, Chain.map_fst_starts]
  have hpairwise := hplaced.pairwise hspans.fits
  rw [horder]
  constructor
  · have hreached := hspans.fits.depthFirst .nil
    rwa [List.append_nil, hspans.first] at hreached
  · intro id a
    exact BlockGraph.blockStart?_eq_some_iff hspans
  · intro id hid b hb
    obtain ⟨-, b', hb', -, hsuccessors⟩ := hplaced.segment hspans.fits hid
    cases hb.symm.trans hb'
    exact hsuccessors
  · exact hpairwise.imp And.left
  · intro id hid
    obtain ⟨-, b, hb, ⟨hholds, -⟩, -⟩ := hplaced.segment hspans.fits hid
    exact ⟨b, hb, hholds⟩
  · refine hpairwise.imp ?_
    rintro id id' ⟨-, hbefore⟩ a ⟨hin, b, -, hle, -⟩
    exact Nat.not_le.2 (hbefore a hin) hle
  · intro a ha houtside
    rw [hsize] at ha
    obtain ⟨id, hid, hin | hcloses⟩ := hplaced.covered hspans.fits (Nat.zero_le a) (by omega)
    · exact absurd hin (houtside id hid)
    · exact ⟨id, hid, hcloses⟩
  · rw [hsize, hspans.fits.size_eq]

/-- A conditional with an empty arm, then a loop with an empty body, and nothing behind. -/
def BlockGraph.emptyRegions : BlockGraph where
  blocks := #[
    ⟨0, #[.literal .bool (.bool true) "go"], .conditional "go" 1 none, some 2⟩,
    ⟨1, #[], .straight, none⟩,
    ⟨2, #[], .loop "go" 3, some 4⟩,
    ⟨3, #[], .straight, none⟩,
    ⟨4, #[], .straight, none⟩]

theorem linked_program_laidOut_emptyRegions :
    let p : Program := ⟨#[
      .literal .bool (.bool true) "go", .branch "go" (.address 2) (.address 3), .jump (.address 3),
      .branch "go" (.address 4) (.address 5), .jump (.address 3)]⟩
    BlockGraph.emptyRegions.link = .ok p ∧
      BlockGraph.emptyRegions.LaidOut p [0, 1, 2, 3, 4] := by
  intro p
  have hlink : BlockGraph.emptyRegions.link = .ok p := by decide +kernel
  have horder : BlockGraph.emptyRegions.layout.1.blocks = [0, 1, 2, 3, 4] := by decide +kernel
  have hlaid := linked_program_laidOut hlink
  rw [horder] at hlaid
  exact ⟨hlink, hlaid⟩

end ThreeAddress
