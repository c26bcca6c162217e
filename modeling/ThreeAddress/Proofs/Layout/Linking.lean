import ThreeAddress.Proofs.Layout.Chain

set_option autoImplicit false

/-! # Linked programs

The program of a graph is the code of the chain that spans it, with every block replaced by the
address where it starts (`link_of_spans`). Nothing can go wrong on the way: all blocks that the
code of a chain refers to belong to the chain. -/

namespace ThreeAddress

/-! ## The instructions of a chain -/

namespace Chain

/-- The instructions of all blocks. -/
def instrs : Chain → List Instr
  | last _ code => code
  | link _ code rest => code ++ rest.instrs
  | cond _ code _ arm rest => code ++ (arm.instrs ++ rest.instrs)
  | condElse _ code _ thenArm elseArm rest =>
    code ++ (thenArm.instrs ++ (elseArm.instrs ++ rest.instrs))
  | loop _ code _ body rest => code ++ (body.instrs ++ rest.instrs)

/-- The slots that are no jumps hold the instructions. -/
theorem instr_mem_slots_iff (c : Chain) {i : Instr} : .instr i ∈ c.slots ↔ i ∈ c.instrs := by
  induction c with
  | last id code => simp [slots, instrs]
  | link id code rest ih => simp [slots, instrs, ih]
  | cond id code test arm rest iha ihr => simp [slots, instrs, iha, ihr]
  | condElse id code test thenArm elseArm rest iht ihe ihr => simp [slots, instrs, iht, ihe, ihr]
  | loop id code test body rest ihb ihr => simp [slots, instrs, ihb, ihr]

/-- The instructions of a chain are those of its blocks. -/
theorem Fits.instrs_eq {g : BlockGraph} {c : Chain} (h : c.Fits g) :
    c.instrs = (c.blocks.filterMap g.block?).flatMap fun b => b.code.toList := by
  induction c with
  | last id code =>
      obtain ⟨b, hb, rfl, -⟩ := h
      simp [instrs, blocks, hb]
  | link id code rest ih =>
      obtain ⟨⟨b, hb, rfl, -⟩, hrest⟩ := h
      simp [instrs, blocks, hb, ih hrest]
  | cond id code test arm rest iha ihr =>
      obtain ⟨⟨b, hb, rfl, -⟩, harm, hrest⟩ := h
      simp [instrs, blocks, hb, iha harm, ihr hrest]
  | condElse id code test thenArm elseArm rest iht ihe ihr =>
      obtain ⟨⟨b, hb, rfl, -⟩, hthen, helse, hrest⟩ := h
      simp [instrs, blocks, hb, iht hthen, ihe helse, ihr hrest]
  | loop id code test body rest ihb ihr =>
      obtain ⟨⟨b, hb, rfl, -⟩, hbody, hrest⟩ := h
      simp [instrs, blocks, hb, ihb hbody, ihr hrest]

theorem Fits.mem_instrs_iff {g : BlockGraph} {c : Chain} (h : c.Fits g) {i : Instr} :
    i ∈ c.instrs ↔ ∃ id ∈ c.blocks, ∃ b, g.block? id = some b ∧ i ∈ b.code := by
  rw [h.instrs_eq]
  simp only [List.mem_flatMap, List.mem_filterMap, Array.mem_toList_iff]
  constructor
  · rintro ⟨b, ⟨id, hid, hb⟩, hi⟩
    exact ⟨id, hid, b, hb, hi⟩
  · rintro ⟨id, hid, b, hb, hi⟩
    exact ⟨b, ⟨id, hid, hb⟩, hi⟩

end Chain

/-! ## Resolved code -/

namespace Slot

/-- The blocks that a slot leads to. -/
def targets : Slot → List BlockId
  | instr _ => []
  | jump target => [target]
  | branch _ ifTrue ifFalse => [ifTrue, ifFalse]

/-- The instruction of a slot, where `origin` gives the address of a block. -/
def resolved (origin : BlockId → Nat) : Slot → Instr
  | instr i => i
  | jump target => .jump (.address (origin target))
  | branch test ifTrue ifFalse =>
    .branch test (.address (origin ifTrue)) (.address (origin ifFalse))

end Slot

/-- The code of a chain leads only to blocks of that chain. -/
theorem Chain.mem_blocks_of_target (c : Chain) :
    ∀ slot ∈ c.slots, ∀ id ∈ slot.targets, id ∈ c.blocks := by
  have hcode : ∀ (code : List Instr) (ids : List BlockId),
      ∀ slot ∈ code.map Slot.instr, ∀ id ∈ slot.targets, id ∈ ids := by
    intro code ids slot hslot
    obtain ⟨i, -, rfl⟩ := List.mem_map.1 hslot
    simp [Slot.targets]
  induction c with
  | last id code => exact hcode code _
  | link id code rest ih =>
      have hfirst := rest.first_mem_blocks
      simp only [slots, blocks, List.forall_mem_append, List.forall_mem_cons]
      refine ⟨hcode code _, ?_, ?_⟩ <;> grind [Slot.targets]
  | cond id code test arm rest iha ihr =>
      have hfirsta := arm.first_mem_blocks
      have hfirstr := rest.first_mem_blocks
      simp only [slots, blocks, List.forall_mem_append, List.forall_mem_cons]
      refine ⟨hcode code _, ?_, ?_, ?_, ?_⟩ <;> grind [Slot.targets]
  | condElse id code test thenArm elseArm rest iht ihe ihr =>
      have hfirstt := thenArm.first_mem_blocks
      have hfirste := elseArm.first_mem_blocks
      have hfirstr := rest.first_mem_blocks
      simp only [slots, blocks, List.forall_mem_append, List.forall_mem_cons]
      refine ⟨hcode code _, ?_, ?_, ?_, ?_, ?_, ?_⟩ <;> grind [Slot.targets]
  | loop id code test body rest ihb ihr =>
      have hfirstb := body.first_mem_blocks
      have hfirstr := rest.first_mem_blocks
      simp only [slots, blocks, List.forall_mem_append, List.forall_mem_cons]
      refine ⟨hcode code _, ?_, ?_, ?_, ?_⟩ <;> grind [Slot.targets]

/-- The jumps of a chain lead to addresses of its blocks. -/
theorem Chain.exists_of_mem_labels (c : Chain) (origin : BlockId → Nat) {slot : Slot}
    (hslot : slot ∈ c.slots) (hne : ∀ i, slot ≠ .instr i) {label : Label}
    (hlabel : label ∈ (slot.resolved origin).labels) :
    ∃ id ∈ c.blocks, label = .address (origin id) := by
  have hblocks := c.mem_blocks_of_target slot hslot
  cases slot with
  | instr i => exact absurd rfl (hne i)
  | jump target =>
      rw [Slot.resolved, Instr.labels, List.mem_singleton] at hlabel
      exact ⟨target, hblocks target (by simp [Slot.targets]), hlabel⟩
  | branch test ifTrue ifFalse =>
      simp only [Slot.resolved, Instr.labels, List.mem_cons, List.not_mem_nil, or_false] at hlabel
      rcases hlabel with hlabel | hlabel
      · exact ⟨ifTrue, hblocks ifTrue (by simp [Slot.targets]), hlabel⟩
      · exact ⟨ifFalse, hblocks ifFalse (by simp [Slot.targets]), hlabel⟩

/-! ## Starts -/

/-- The address where a block starts. -/
def BlockGraph.origin (g : BlockGraph) (id : BlockId) : Nat := (g.blockStart? id).getD 0

/-- If no block is placed twice, its start is the one recorded for it. -/
theorem Layout.start?_eq_some {l : Layout} (hnodup : (l.starts.toList.map Prod.fst).Nodup)
    {id : BlockId} {a : Nat} (h : (id, a) ∈ l.starts.toList) : l.start? id = some a := by
  rw [start?, ← Array.find?_toList]
  generalize l.starts.toList = starts at hnodup h
  induction starts with
  | nil => cases h
  | cons s starts ih =>
      rw [List.map_cons, List.nodup_cons] at hnodup
      rcases List.mem_cons.1 h with rfl | h
      · simp
      · have hne : s.1 ≠ id := by
          rintro rfl
          exact hnodup.1 (List.mem_map.2 ⟨_, h, rfl⟩)
        rw [List.find?_cons_of_neg (by simpa using hne)]
        exact ih hnodup.2 h

namespace BlockGraph

variable {g : BlockGraph} {c : Chain}

theorem blockStart?_of_spans (h : g.Spans c) {id : BlockId} {a : Nat}
    (hmem : (id, a) ∈ c.starts 0) : g.blockStart? id = some a := by
  rw [blockStart?, layout_of_spans h]
  apply Layout.start?_eq_some
  · simpa [Layout.empty, Chain.map_fst_starts] using h.nodup
  · simpa [Layout.empty] using hmem

/-- Every block of the chain that spans a graph has a start. -/
theorem blockStart?_eq_origin (h : g.Spans c) {id : BlockId} (hid : id ∈ c.blocks) :
    g.blockStart? id = some (g.origin id) ∧ (id, g.origin id) ∈ c.starts 0 := by
  rw [← c.map_fst_starts 0] at hid
  obtain ⟨⟨_, a⟩, hmem, rfl⟩ := List.mem_map.1 hid
  have ha := blockStart?_of_spans h hmem
  simp only [origin, ha, Option.getD_some]
  exact ⟨trivial, hmem⟩

/-! ## The program of a chain -/

theorem resolve_of_spans (h : g.Spans c) {slot : Slot} (hslot : slot ∈ c.slots) (address : Nat) :
    g.layout.1.resolve address slot = .ok (slot.resolved g.origin) := by
  have htarget : ∀ id ∈ slot.targets,
      g.layout.1.target address id = .ok (.address (g.origin id)) := by
    intro id hid
    have hstart := (blockStart?_eq_origin h (c.mem_blocks_of_target slot hslot id hid)).1
    rw [blockStart?] at hstart
    simp [Layout.target, hstart]
  cases slot with
  | instr i => rfl
  | jump target =>
      simp only [Slot.targets, List.forall_mem_singleton] at htarget
      simp only [Layout.resolve, htarget]
      rfl
  | branch test ifTrue ifFalse =>
      simp only [Slot.targets, List.forall_mem_cons] at htarget
      simp only [Layout.resolve, htarget]
      rfl

/-- A graph that a chain spans is linked to the resolved code of that chain. -/
theorem link_of_spans (h : g.Spans c) :
    g.link = .ok ⟨(c.slots.map (Slot.resolved g.origin)).toArray⟩ := by
  have hslots : g.layout.1.slots.toList = c.slots := by
    rw [layout_of_spans h]
    simp [Layout.empty]
  have hresolve : ∀ p ∈ c.slots.zipIdx,
      g.layout.1.resolve p.2 p.1 = .ok (Slot.resolved g.origin p.1) := by
    rintro ⟨slot, address⟩ hp
    exact resolve_of_spans h (List.fst_mem_of_mem_zipIdx hp) address
  rw [link, layout_eq_ok_iff.2 ⟨c, h⟩]
  show g.layout.1.program = _
  have hcode : c.slots.zipIdx.map (fun p => Slot.resolved g.origin p.1)
      = c.slots.map (Slot.resolved g.origin) := by
    rw [← Function.comp_def, ← List.map_map, List.zipIdx_map_fst]
  rw [Layout.program, hslots, mapM_eq_ok _ hresolve, hcode]
  rfl

/-- A linked program is the code of some chain that spans its graph. -/
theorem spans_of_link {P : Program} (h : g.link = .ok P) :
    ∃ c, g.Spans c ∧ P.code = (c.slots.map (Slot.resolved g.origin)).toArray := by
  obtain ⟨_, hlayout, -⟩ := bind_eq_ok_iff.1 h
  obtain ⟨c, hc⟩ := layout_eq_ok_iff.1 hlayout
  rw [link_of_spans hc] at h
  cases h
  exact ⟨c, hc, rfl⟩

end BlockGraph

end ThreeAddress
