import ThreeAddress.Proofs.Layout.Domain

set_option autoImplicit false

/-! # Patching

Linking can be told in two passes over flat code. The layout emits code in which the jumps that it
adds carry labels of blocks, and keeps the positions of these jumps; then the instructions at the
kept positions are patched, one after another, with the starts of the blocks. `program_eq_patch`
says that this is what resolving a layout comes to, errors included.

A label is often emitted long before its block is placed: that of a merge or an exit block waits
until all regions in front of it are done. Nevertheless patching an accepted layout never fails,
since all blocks that the layout leads to have been placed in the end. -/

namespace ThreeAddress

namespace Slot

/-- The instruction of a slot as long as the starts of blocks are not known. -/
def emitted : Slot → Instr
  | instr i => i
  | jump target => .jump (.block target)
  | branch test ifTrue ifFalse => .branch test (.block ifTrue) (.block ifFalse)

/-- Whether a slot is a jump that the layout has added. -/
def isAdded : Slot → Bool
  | instr _ => false
  | jump _ | branch _ _ _ => true

theorem labels_emitted {slot : Slot} (h : slot.isAdded = true) :
    slot.emitted.labels = slot.targets.map .block := by
  cases slot with
  | instr i => cases h
  | _ => rfl

end Slot

namespace Layout

/-- The code of a layout before it is patched. -/
def emitted (l : Layout) : List Instr := l.slots.toList.map Slot.emitted

/-- The positions of the added jumps among slots, the first of which stands at `base`. -/
def positions (base : Nat) : List Slot → List Nat
  | [] => []
  | slot :: slots =>
    if slot.isAdded then base :: positions (base + 1) slots else positions (base + 1) slots

/-- The positions that are to be patched. -/
def pending (l : Layout) : List Nat := positions 0 l.slots.toList

/-- Replace the label of a block, in the instruction at `address`, by the start of the block. -/
def patchLabel (l : Layout) (address : Nat) : Label → Except LinkError Label
  | .block id => l.target address id
  | .address a => .ok (.address a)

/-- Patch all labels of the instruction at `address`. -/
def patchInstr (l : Layout) (address : Nat) : Instr → Except LinkError Instr
  | .jump label => do return .jump (← l.patchLabel address label)
  | .branch test ifTrue ifFalse => do
    return .branch test (← l.patchLabel address ifTrue) (← l.patchLabel address ifFalse)
  | i => .ok i

/-- Patch the instructions at the given positions. A position outside the code is passed over. -/
def patch (l : Layout) : List Nat → List Instr → Except LinkError (List Instr)
  | [], code => .ok code
  | address :: pending, code =>
    match code[address]? with
    | none => l.patch pending code
    | some i => do l.patch pending (code.set address (← l.patchInstr address i))

/-! ## Patching and resolving -/

variable {l : Layout}

theorem patchInstr_emitted (l : Layout) (address : Nat) {slot : Slot} (h : slot.isAdded = true) :
    l.patchInstr address slot.emitted = l.resolve address slot := by
  cases slot with
  | instr i => cases h
  | _ => rfl

/-- The next position to patch is the one behind the code that is done. -/
theorem patch_cons (l : Layout) (pending : List Nat) (done : List Instr) (i : Instr)
    (rest : List Instr) :
    l.patch (done.length :: pending) (done ++ i :: rest)
      = l.patchInstr done.length i >>= fun j => l.patch pending (done ++ j :: rest) := by
  rw [patch]
  simp

/-- Patching slots behind code that is done is resolving them one by one. -/
theorem patch_emitted (l : Layout) (slots : List Slot) (done : List Instr) :
    l.patch (positions done.length slots) (done ++ slots.map Slot.emitted)
      = (slots.zipIdx done.length).mapM (fun (slot, address) => l.resolve address slot) >>=
          fun code => .ok (done ++ code) := by
  induction slots generalizing done with
  | nil => simp [positions, patch, pure, Except.pure]
  | cons slot slots ih =>
      have hnext (i : Instr) := ih (done ++ [i])
      simp only [List.length_append, List.length_singleton, List.append_assoc,
        List.singleton_append] at hnext
      rw [positions, List.map_cons, List.zipIdx_cons, List.mapM_cons]
      dsimp only
      by_cases hadded : slot.isAdded = true
      · rw [if_pos hadded, patch_cons, patchInstr_emitted l _ hadded]
        cases l.resolve done.length slot with
        | error e => rfl
        | ok i => simp only [ok_bind, hnext, bind_assoc, pure, Except.pure]
      · -- what is no added jump is an instruction of a block, and stays as it is
        obtain ⟨i, rfl⟩ : ∃ i, slot = .instr i := by
          cases slot with
          | instr i => exact ⟨i, rfl⟩
          | jump target => exact absurd rfl hadded
          | branch test ifTrue ifFalse => exact absurd rfl hadded
        rw [if_neg hadded, Slot.emitted, hnext, resolve]
        simp only [ok_bind, bind_assoc, pure, Except.pure]

/-- The program of a layout is its emitted code, patched. -/
theorem program_eq_patch (l : Layout) :
    l.program = l.patch l.pending l.emitted >>= fun code => .ok ⟨code.toArray⟩ := by
  have hpatch := l.patch_emitted l.slots.toList []
  simp only [List.length_nil, List.nil_append] at hpatch
  rw [pending, emitted, hpatch, program]
  simp only [bind_assoc, ok_bind, pure, Except.pure]

/-- Where a jump is to be patched, the layout has added one. -/
theorem exists_of_mem_positions {slots : List Slot} {base a : Nat} (h : a ∈ positions base slots) :
    ∃ k slot, a = base + k ∧ slots[k]? = some slot ∧ slot.isAdded = true := by
  induction slots generalizing base with
  | nil => simp [positions] at h
  | cons slot slots ih =>
      have hlater (h : a ∈ positions (base + 1) slots) :
          ∃ k slot', a = base + k ∧ (slot :: slots)[k]? = some slot' ∧ slot'.isAdded = true := by
        obtain ⟨k, slot', rfl, hslot, hadded⟩ := ih h
        exact ⟨k + 1, slot', by omega, by simpa using hslot, hadded⟩
      rw [positions] at h
      split at h
      · next hadded =>
          rcases List.mem_cons.1 h with rfl | h
          · exact ⟨0, slot, rfl, rfl, hadded⟩
          · exact hlater h
      · exact hlater h

theorem exists_of_mem_pending {a : Nat} (h : a ∈ l.pending) :
    ∃ slot ∈ l.slots.toList, l.emitted[a]? = some slot.emitted ∧ slot.isAdded = true := by
  obtain ⟨k, slot, hk, hslot, hadded⟩ := exists_of_mem_positions h
  rw [Nat.zero_add] at hk
  subst hk
  refine ⟨slot, List.mem_of_getElem? hslot, ?_, hadded⟩
  rw [emitted, List.getElem?_map, hslot, Option.map_some]

/-- A refused traversal never blames a jump. -/
theorem Finishes.ne_unresolvedTarget {g : BlockGraph} {tasks : List Task} {l l' : Layout}
    {r : Except LinkError Unit} (h : Finishes g tasks l l' r) (address : Nat) (id : BlockId) :
    r ≠ .error (.unresolvedTarget address id) := by
  induction h with
  | done l => simp
  | jump hrest ih => exact ih
  | unknown hb => simp
  | revisited hb hl => simp
  | refused hb hl hclosing =>
      rw [Block.eq_of_closing_error hclosing]
      simp
  | place hb hl hclosing hrest ih => exact ih

end Layout

/-! ## The result -/

/-- Everything that the slots of an accepted layout lead to has been placed. -/
theorem BlockGraph.exists_start_of_target {g : BlockGraph} (h : g.layout.2 = .ok ()) {slot : Slot}
    (hslot : slot ∈ g.layout.1.slots.toList) {id : BlockId} (hid : id ∈ slot.targets) :
    ∃ a, g.blockStart? id = some a := by
  obtain ⟨c, hc⟩ := layout_eq_ok_iff.1 h
  have hmem : slot ∈ c.slots := by
    rw [layout_of_spans hc] at hslot
    simpa [Layout.empty] using hslot
  exact ⟨_, (blockStart?_eq_origin hc (c.mem_blocks_of_target slot hmem id hid)).1⟩

/-- **Patching never fails.** Linking a graph is laying it out and then patching the emitted code at
    the pending positions. If the layout of a graph, whatever its blocks are, is accepted, every
    pending position lies within the emitted code, every label of the instruction there is that of a
    block with a start, and patching succeeds. So linking never reports a jump to a block that was
    not laid out. -/
theorem patching_never_fails (g : BlockGraph) :
    (g.link = do
      g.layout.2
      let code ← g.layout.1.patch g.layout.1.pending g.layout.1.emitted
      return ⟨code.toArray⟩) ∧
    (g.layout.2 = .ok () →
      (∀ a ∈ g.layout.1.pending, ∃ i, g.layout.1.emitted[a]? = some i ∧
        ∀ label ∈ i.labels, ∃ id start, label = .block id ∧ g.blockStart? id = some start) ∧
      ∃ code, g.layout.1.patch g.layout.1.pending g.layout.1.emitted = .ok code) ∧
    ∀ address id, g.link ≠ .error (.unresolvedTarget address id) := by
  refine ⟨?_, fun h => ⟨fun a ha => ?_, ?_⟩, fun address id h => ?_⟩
  · rw [BlockGraph.link, Layout.program_eq_patch]
    rfl
  · obtain ⟨slot, hslot, hemitted, hadded⟩ := Layout.exists_of_mem_pending ha
    refine ⟨_, hemitted, fun label hlabel => ?_⟩
    rw [Slot.labels_emitted hadded] at hlabel
    obtain ⟨id, hid, rfl⟩ := List.mem_map.1 hlabel
    obtain ⟨start, hstart⟩ := BlockGraph.exists_start_of_target h hslot hid
    exact ⟨id, start, rfl, hstart⟩
  · obtain ⟨P, hP⟩ := BlockGraph.exists_link_iff.2 h
    rw [BlockGraph.link, h, ok_bind, Layout.program_eq_patch] at hP
    obtain ⟨code, hcode, -⟩ := bind_eq_ok_iff.1 hP
    exact ⟨code, hcode⟩
  · exact g.finishes_layout.ne_unresolvedTarget address id (BlockGraph.layout_eq_error h)

/-- A loop with a conditional in its body, whose blocks are empty. -/
def BlockGraph.nested : BlockGraph where
  blocks := #[
    ⟨0, #[], .loop "go" 1, some 4⟩,
    ⟨1, #[], .conditional "go" 2 none, some 3⟩,
    ⟨2, #[], .straight, none⟩,
    ⟨3, #[], .straight, none⟩,
    ⟨4, #[], .straight, none⟩]

/-- All jumps of the graph are pending, and most of them lead to blocks that are placed later. -/
theorem patching_never_fails_nested :
    BlockGraph.nested.layout.2 = .ok () ∧ BlockGraph.nested.layout.1.pending = [0, 1, 2, 3] ∧
      ∃ code, BlockGraph.nested.layout.1.patch [0, 1, 2, 3] BlockGraph.nested.layout.1.emitted
        = .ok code := by
  have hlayout : BlockGraph.nested.layout.2 = .ok () := by decide +kernel
  have hpending : BlockGraph.nested.layout.1.pending = [0, 1, 2, 3] := by decide +kernel
  obtain ⟨-, hpatch, -⟩ := patching_never_fails .nested
  refine ⟨hlayout, hpending, ?_⟩
  rw [← hpending]
  exact (hpatch hlayout).2

end ThreeAddress
