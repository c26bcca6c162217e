import ThreeAddress.Graph.Draft
import ThreeAddress.Machine.Machine
import ThreeAddress.Proofs.Layout.Domain

set_option autoImplicit false

/-! # Labels of linked programs

Linking resolves the jumps that the layout adds, and those only. The instructions of the blocks are
taken as they are, so a jump that a block itself contains keeps its label. If that is the label of a
block, it is still there in the linked program, and a machine that executes the jump fails.

So a linked program is free of block labels exactly if the blocks that can be reached are. -/

namespace ThreeAddress

/-- The instruction leads to a block. -/
def Instr.HasBlockLabel (i : Instr) : Prop := ∃ id, .block id ∈ i.labels

/-- The instruction is one of a block that can be reached. -/
def BlockGraph.Owns (g : BlockGraph) (i : Instr) : Prop :=
  ∃ id b, g.Reachable id ∧ g.block? id = some b ∧ i ∈ b.code

namespace BlockGraph

variable {g : BlockGraph} {c : Chain}

theorem Spans.owns_iff (h : g.Spans c) {i : Instr} : g.Owns i ↔ i ∈ c.instrs := by
  rw [h.fits.mem_instrs_iff]
  constructor
  · rintro ⟨id, b, hid, hb, hi⟩
    exact ⟨id, h.mem_blocks_iff.2 hid, b, hb, hi⟩
  · rintro ⟨id, hid, b, hb, hi⟩
    exact ⟨id, b, h.mem_blocks_iff.1 hid, hb, hi⟩

/-- An instruction of a linked program is one of a block, or it leads to starts of blocks. -/
theorem owns_or_resolved {P : Program} (hP : g.link = .ok P) {i : Instr} (hi : i ∈ P.code) :
    g.Owns i ∨ ∀ label ∈ i.labels,
      ∃ id a, g.Reachable id ∧ g.blockStart? id = some a ∧ label = .address a := by
  obtain ⟨c, hc, hcode⟩ := spans_of_link hP
  rw [hcode, List.mem_toArray] at hi
  obtain ⟨slot, hslot, rfl⟩ := List.mem_map.1 hi
  by_cases hinstr : ∃ i, slot = .instr i
  · obtain ⟨i, rfl⟩ := hinstr
    exact .inl (hc.owns_iff.2 (c.instr_mem_slots_iff.1 hslot))
  · refine .inr fun label hlabel => ?_
    have hne : ∀ i, slot ≠ .instr i := fun i heq => hinstr ⟨i, heq⟩
    obtain ⟨id, hid, hlabel⟩ := c.exists_of_mem_labels g.origin hslot hne hlabel
    have hstart := (blockStart?_eq_origin hc hid).1
    exact ⟨id, g.origin id, hc.mem_blocks_iff.1 hid, hstart, hlabel⟩

/-- Linking drops no instruction of a block that can be reached, and changes none. -/
theorem mem_code_of_owns {P : Program} (hP : g.link = .ok P) {i : Instr} (hi : g.Owns i) :
    i ∈ P.code := by
  obtain ⟨c, hc, hcode⟩ := spans_of_link hP
  rw [hcode, List.mem_toArray]
  exact List.mem_map.2 ⟨.instr i, c.instr_mem_slots_iff.2 (hc.owns_iff.1 hi), rfl⟩

end BlockGraph

/-- The instructions of a linked program that lead to a block are those that the blocks themselves
    contain; all other labels are starts of blocks. So the program is free of block labels exactly
    if the blocks that can be reached are. -/
theorem linked_block_labels_iff_own {g : BlockGraph} {P : Program} (hP : g.link = .ok P) :
    (∀ i, i.HasBlockLabel → (i ∈ P.code ↔ g.Owns i)) ∧
      (∀ i ∈ P.code, ¬ g.Owns i → ∀ label ∈ i.labels,
        ∃ id a, g.Reachable id ∧ g.blockStart? id = some a ∧ label = .address a) ∧
      ((∀ i ∈ P.code, ¬ i.HasBlockLabel) ↔ ∀ i, g.Owns i → ¬ i.HasBlockLabel) := by
  have howns (i : Instr) (hlabel : i.HasBlockLabel) (hi : i ∈ P.code) : g.Owns i := by
    rcases BlockGraph.owns_or_resolved hP hi with howns | hresolved
    · exact howns
    · obtain ⟨id, hid⟩ := hlabel
      obtain ⟨_, _, -, -, heq⟩ := hresolved _ hid
      cases heq
  refine ⟨fun i hlabel => ⟨howns i hlabel, BlockGraph.mem_code_of_owns hP⟩, ?_, ?_, ?_⟩
  · intro i hi hnot
    exact (BlockGraph.owns_or_resolved hP hi).resolve_left hnot
  · intro hfree i hi
    exact hfree i (BlockGraph.mem_code_of_owns hP hi)
  · intro hfree i hi hlabel
    exact hfree i (howns i hlabel hi) hlabel

/-- One block that jumps to itself. -/
def Draft.selfJump : Draft := Draft.empty.append (.jump (.block 0))

theorem linked_block_labels_iff_own_selfJump :
    ∃ P, Draft.selfJump.graph.link = .ok P ∧
      ∀ i, i.HasBlockLabel → (i ∈ P.code ↔ Draft.selfJump.graph.Owns i) := by
  have hP : Draft.selfJump.graph.link = .ok ⟨#[.jump (.block 0)]⟩ := by decide +kernel
  exact ⟨_, hP, (linked_block_labels_iff_own hP).1⟩

/-- Linking leaves the label of a block in the program, and the program fails there. -/
theorem link_leaves_block_label :
    ∃ P, Draft.selfJump.graph.link = .ok P ∧ (∃ i ∈ P.code, i.HasBlockLabel) ∧
      (Machine.create P [] {} {}).reset.step.2 = .error (.unresolvedLabel 0) := by
  refine ⟨⟨#[.jump (.block 0)]⟩, by decide +kernel, ?_, rfl⟩
  exact ⟨.jump (.block 0), by simp, 0, by simp [Instr.labels]⟩

end ThreeAddress
