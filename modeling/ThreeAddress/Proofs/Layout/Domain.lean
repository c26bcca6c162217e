import Mathlib.Data.List.Pairwise
import ThreeAddress.Proofs.Layout.Linking
import ThreeAddress.Proofs.Layout.Traversal

set_option autoImplicit false

/-! # Which graphs can be linked

A graph can be linked exactly if what is reachable from its start block is a tree with that block at
its root, nothing dangles, and every conditional and every loop has a block behind it
(`BlockGraph.TreeShaped`). Nothing is asked of the blocks that cannot be reached.

The traversal knows nothing of trees: it notices a block that is shared, or a way back, only when it
meets a block again. What ties it to the shape of the graph is an account of the references
(`Layout.Accounts`): the blocks that are placed and those that are still to be placed are together
the start block and all that the placed blocks refer to, each counted as often as it is referred
to. -/

namespace ThreeAddress

/-! ## References and reachable blocks -/

namespace BlockGraph

/-- The blocks that the block at `id` refers to: its arms or its body, then its successor. A block
    that is referred to twice is listed twice, and a block that does not exist refers to none. -/
def references (g : BlockGraph) (id : BlockId) : List BlockId :=
  (g.block? id).elim [] Block.successors

/-- The `n`-th reference of the block at `source` leads to `target`. -/
def Refers (g : BlockGraph) (source : BlockId) (n : Nat) (target : BlockId) : Prop :=
  (g.references source)[n]? = some target

/-- The block can be reached from the start block along references. -/
inductive Reachable (g : BlockGraph) : BlockId → Prop
  | start : Reachable g g.start
  | step {source target : BlockId} {n : Nat} (h : Reachable g source)
      (href : g.Refers source n target) : Reachable g target

/-- What can be reached from the start block is a tree of blocks that exist, in which every
    conditional and every loop has a block behind it. A reference is given by its source and its
    number there, so that two references from one block to another are different. -/
structure TreeShaped (g : BlockGraph) : Prop where
  exists_block : ∀ id, g.Reachable id → ∃ b, g.block? id = some b
  exists_next : ∀ id b, g.Reachable id → g.block? id = some b → b.kind ≠ .straight →
    ∃ next, b.next = some next
  root : ∀ source n, g.Reachable source → ¬ g.Refers source n g.start
  once : ∀ id, g.Reachable id → id ≠ g.start →
    ∃! e : BlockId × Nat, g.Reachable e.1 ∧ g.Refers e.1 e.2 id

variable {g : BlockGraph}

theorem references_of_block? {id : BlockId} {b : Block} (hb : g.block? id = some b) :
    g.references id = b.successors := by
  rw [references, hb]
  rfl

theorem exists_refers_iff {source target : BlockId} :
    (∃ n, g.Refers source n target) ↔ target ∈ g.references source :=
  List.mem_iff_getElem?.symm

theorem Reachable.of_mem {source target : BlockId} (h : g.Reachable source)
    (hmem : target ∈ g.references source) : g.Reachable target := by
  obtain ⟨n, hn⟩ := exists_refers_iff.2 hmem
  exact h.step hn

/-- In a tree, no two references lead to the same block. -/
theorem TreeShaped.eq_of_refers (h : g.TreeShaped) {source source' target : BlockId} {n n' : Nat}
    (hsource : g.Reachable source) (href : g.Refers source n target)
    (hsource' : g.Reachable source') (href' : g.Refers source' n' target) :
    source = source' ∧ n = n' := by
  have hne : target ≠ g.start := by
    rintro rfl
    exact h.root source n hsource href
  have heq : (source, n) = (source', n') :=
    (h.once target (hsource.step href) hne).unique ⟨hsource, href⟩ ⟨hsource', href'⟩
  exact Prod.mk.inj heq

/-- In a tree, the start block and the references of distinct blocks are all different. -/
theorem TreeShaped.nodup_references (h : g.TreeShaped) {ids : List BlockId} (hnodup : ids.Nodup)
    (hreach : ∀ id ∈ ids, g.Reachable id) : (g.start :: ids.flatMap g.references).Nodup := by
  rw [List.nodup_cons, List.nodup_flatMap]
  refine ⟨?_, ?_, ?_⟩
  · intro hstart
    obtain ⟨source, hsource, hmem⟩ := List.mem_flatMap.1 hstart
    obtain ⟨n, hn⟩ := exists_refers_iff.2 hmem
    exact h.root source n (hreach source hsource) hn
  · intro source hsource
    rw [List.nodup_iff_getElem?_ne_getElem?]
    intro n n' hlt hlt' heq
    have hreach := hreach source hsource
    have hn' : g.Refers source n' (g.references source)[n'] := List.getElem?_eq_getElem hlt'
    exact Nat.ne_of_lt hlt (h.eq_of_refers hreach (heq.trans hn') hreach hn').2
  · rw [List.pairwise_iff_forall_sublist]
    intro source source' hsub target hmem hmem'
    obtain ⟨n, hn⟩ := exists_refers_iff.2 hmem
    obtain ⟨n', hn'⟩ := exists_refers_iff.2 hmem'
    have hsource : source ∈ ids := hsub.subset (by simp)
    have hsource' : source' ∈ ids := hsub.subset (by simp)
    have heq := (h.eq_of_refers (hreach _ hsource) hn (hreach _ hsource') hn').1
    have hdistinct := hsub.nodup hnodup
    simp [heq] at hdistinct

end BlockGraph

/-! ## The account of the references -/

/-- The blocks that tasks are to place. -/
def Task.pending (tasks : List Task) : List BlockId :=
  tasks.filterMap fun
    | .chain id => some id
    | .jump _ => none

@[simp] theorem Task.pending_nil : Task.pending [] = [] := rfl

@[simp] theorem Task.pending_chain (id : BlockId) (tasks : List Task) :
    Task.pending (.chain id :: tasks) = id :: Task.pending tasks := rfl

@[simp] theorem Task.pending_jump (target : BlockId) (tasks : List Task) :
    Task.pending (.jump target :: tasks) = Task.pending tasks := rfl

@[simp] theorem Task.pending_append (tasks tasks' : List Task) :
    Task.pending (tasks ++ tasks') = Task.pending tasks ++ Task.pending tasks' :=
  List.filterMap_append

/-- The work that a block leaves is to place the blocks that it refers to. -/
theorem Block.pending_of_closing {b : Block} {id : BlockId} {slots : List Slot} {work : List Task}
    (h : b.closing id = .ok (slots, work)) : Task.pending work = b.successors := by
  unfold Block.closing at h
  split at h <;> cases h <;>
    simp_all [Block.successors, BlockKind.branches]

/-- What a closed block has behind it. -/
theorem Block.next_of_closing {b : Block} {id : BlockId} {slots : List Slot} {work : List Task}
    (h : b.closing id = .ok (slots, work)) (hkind : b.kind ≠ .straight) :
    ∃ next, b.next = some next := by
  unfold Block.closing at h
  split at h
  case h_1 hstraight _ => exact absurd hstraight hkind
  case h_2 hstraight _ => exact absurd hstraight hkind
  case h_3 merge _ hnext => exact ⟨merge, hnext⟩
  case h_4 merge _ hnext => exact ⟨merge, hnext⟩
  case h_5 exit _ hnext => exact ⟨exit, hnext⟩
  case h_6 => cases h

/-- A block that cannot be closed is a conditional or a loop without a block behind it. -/
theorem Block.of_closing_error {b : Block} {id : BlockId} {e : LinkError}
    (h : b.closing id = .error e) : b.kind ≠ .straight ∧ b.next = none := by
  unfold Block.closing at h
  split at h
  case h_6 hnext hstraight => exact ⟨hstraight, hnext⟩
  all_goals cases h

theorem Block.eq_of_closing_error {b : Block} {id : BlockId} {e : LinkError}
    (h : b.closing id = .error e) : e = .missingSuccessor id b.kind := by
  unfold Block.closing at h
  split at h
  case h_6 => exact (Except.error.inj h).symm
  all_goals cases h

namespace Layout

/-- The blocks that are placed and those that are to be placed are the start block and all that the
    placed blocks refer to. The placed blocks are different and reachable, and those that are no
    straight ones have a block behind them. -/
structure Accounts (g : BlockGraph) (tasks : List Task) (l : Layout) : Prop where
  nodup : l.blocks.Nodup
  reachable : ∀ id ∈ l.blocks, g.Reachable id
  exists_block : ∀ id ∈ l.blocks, ∃ b, g.block? id = some b ∧
    (b.kind ≠ .straight → ∃ next, b.next = some next)
  references : (l.blocks ++ Task.pending tasks).Perm (g.start :: l.blocks.flatMap g.references)

namespace Accounts

variable {g : BlockGraph} {tasks : List Task} {l : Layout} {id : BlockId}

theorem initial (g : BlockGraph) : Accounts g [.chain g.start] .empty where
  nodup := List.nodup_nil
  reachable := by simp [blocks, Layout.empty]
  exists_block := by simp [blocks, Layout.empty]
  references := .refl _

/-- What is to be placed is reachable. -/
theorem reachable_of_pending (h : Accounts g tasks l) (hid : id ∈ Task.pending tasks) :
    g.Reachable id := by
  have hmem := h.references.subset (List.mem_append_right _ hid)
  rcases List.mem_cons.1 hmem with rfl | hmem
  · exact .start
  · obtain ⟨source, hsource, href⟩ := List.mem_flatMap.1 hmem
    exact (h.reachable source hsource).of_mem href

theorem jump {target : BlockId} (h : Accounts g (.jump target :: tasks) l) :
    Accounts g tasks (l.append [.jump target]) :=
  ⟨h.nodup, h.reachable, h.exists_block, h.references⟩

/-- Placing a block turns what it refers to into work. -/
theorem place {b : Block} {slots : List Slot} {work : List Task}
    (h : Accounts g (.chain id :: tasks) l) (hb : g.block? id = some b)
    (hl : l.placed id = false) (hclosing : b.closing id = .ok (slots, work)) :
    Accounts g (work ++ tasks) ((l.place id b).append slots) := by
  have hnot : id ∉ l.blocks := by
    intro hmem
    rw [placed_iff.2 hmem] at hl
    cases hl
  have hreach : g.Reachable id := h.reachable_of_pending (by simp)
  constructor
  · rw [blocks_append, blocks_place, List.nodup_append]
    refine ⟨h.nodup, List.nodup_singleton id, ?_⟩
    rintro a ha _ hmem rfl
    rw [List.mem_singleton] at hmem
    exact hnot (hmem ▸ ha)
  · rw [blocks_append, blocks_place, List.forall_mem_append, List.forall_mem_singleton]
    exact ⟨h.reachable, hreach⟩
  · rw [blocks_append, blocks_place, List.forall_mem_append, List.forall_mem_singleton]
    exact ⟨h.exists_block, b, hb, Block.next_of_closing hclosing⟩
  · have hpending : Task.pending (work ++ tasks) = g.references id ++ Task.pending tasks := by
      rw [Task.pending_append, Block.pending_of_closing hclosing,
        BlockGraph.references_of_block? hb]
    rw [blocks_append, blocks_place, hpending, List.flatMap_append, List.flatMap_singleton,
      List.append_assoc, ← List.cons_append]
    -- the references of the block move behind the work that was left before
    have hmove : (l.blocks ++ ([id] ++ (g.references id ++ Task.pending tasks))).Perm
        ((l.blocks ++ Task.pending (.chain id :: tasks)) ++ g.references id) := by
      rw [List.append_assoc, List.singleton_append, Task.pending_chain, List.cons_append]
      exact (List.perm_append_comm.cons id).append_left _
    exact hmove.trans (h.references.append_right _)

/-- If nothing is left to place, exactly the blocks that can be reached are placed. -/
theorem mem_blocks_iff (h : Accounts g [] l) : id ∈ l.blocks ↔ g.Reachable id := by
  have hperm : l.blocks.Perm (g.start :: l.blocks.flatMap g.references) := by
    simpa using h.references
  refine ⟨h.reachable id, fun hid => ?_⟩
  induction hid with
  | start => exact hperm.mem_iff.2 (List.mem_cons_self ..)
  | @step source target n hsource href ih =>
      have htarget := BlockGraph.exists_refers_iff.1 ⟨n, href⟩
      exact hperm.mem_iff.2 (List.mem_cons_of_mem _ (List.mem_flatMap.2 ⟨source, ih, htarget⟩))

/-- If nothing is left to place, what is reachable is a tree. -/
theorem treeShaped (h : Accounts g [] l) : g.TreeShaped := by
  have hperm : l.blocks.Perm (g.start :: l.blocks.flatMap g.references) := by
    simpa using h.references
  have hmem (id : BlockId) (hid : g.Reachable id) : id ∈ l.blocks := h.mem_blocks_iff.2 hid
  have hnodup := hperm.nodup_iff.1 h.nodup
  rw [List.nodup_cons, List.nodup_flatMap] at hnodup
  obtain ⟨hroot, hsingle, hdisjoint⟩ := hnodup
  constructor
  · intro id hid
    obtain ⟨b, hb, -⟩ := h.exists_block id (hmem id hid)
    exact ⟨b, hb⟩
  · intro id b hid hb hkind
    obtain ⟨b', hb', hnext⟩ := h.exists_block id (hmem id hid)
    cases hb.symm.trans hb'
    exact hnext hkind
  · intro source n hsource href
    have hstart := BlockGraph.exists_refers_iff.1 ⟨n, href⟩
    exact hroot (List.mem_flatMap.2 ⟨source, hmem source hsource, hstart⟩)
  · intro id hid hne
    have hflat : id ∈ l.blocks.flatMap g.references := by
      rcases List.mem_cons.1 (hperm.subset (hmem id hid)) with rfl | hflat
      · exact absurd rfl hne
      · exact hflat
    obtain ⟨source, hsource, href⟩ := List.mem_flatMap.1 hflat
    obtain ⟨n, hn⟩ := BlockGraph.exists_refers_iff.2 href
    refine ⟨(source, n), ⟨h.reachable source hsource, hn⟩, ?_⟩
    rintro ⟨source', n'⟩ ⟨hsource', hn'⟩
    -- another reference would have the same source, and then the same number
    have hsame : source' = source := by
      by_contra hdiff
      have hsymm : Std.Symm (Function.onFun List.Disjoint g.references) := ⟨fun _ _ hd => hd.symm⟩
      have hpair := hdisjoint.forall (hmem _ hsource') hsource hdiff
      exact hpair (BlockGraph.exists_refers_iff.1 ⟨n', hn'⟩) href
    subst hsame
    obtain ⟨hlt, -⟩ := List.getElem?_eq_some_iff.1 hn'
    have hnumber := (List.getElem?_inj hlt (hsingle source' hsource)).1 (hn'.trans hn.symm)
    exact Prod.ext rfl hnumber

/-- In a tree, no block that has been placed is left to place. -/
theorem not_placed (h : Accounts g (.chain id :: tasks) l) (htree : g.TreeShaped) :
    l.placed id = false := by
  have hnodup := h.references.nodup_iff.2 (htree.nodup_references h.nodup h.reachable)
  rw [Bool.eq_false_iff, Ne, placed_iff]
  intro hmem
  exact (List.nodup_append.1 hnodup).2.2 id hmem id (by simp) rfl

end Accounts

/-- Whether a traversal succeeds depends on the shape of the graph only. -/
theorem Finishes.eq_ok_iff {g : BlockGraph} {tasks : List Task} {l l' : Layout}
    {r : Except LinkError Unit} (h : Finishes g tasks l l' r) (haccounts : Accounts g tasks l) :
    r = .ok () ↔ g.TreeShaped := by
  induction h with
  | done l => exact iff_of_true rfl haccounts.treeShaped
  | jump hrest ih => exact ih haccounts.jump
  | @unknown id tasks l hb =>
      refine iff_of_false (by simp) fun htree => ?_
      have hreach : g.Reachable id := haccounts.reachable_of_pending (by simp)
      obtain ⟨b, hb'⟩ := htree.exists_block id hreach
      rw [hb] at hb'
      cases hb'
  | revisited hb hl =>
      refine iff_of_false (by simp) fun htree => ?_
      rw [haccounts.not_placed htree] at hl
      cases hl
  | @refused id b tasks l e hb hl hclosing =>
      refine iff_of_false (by simp) fun htree => ?_
      have hreach : g.Reachable id := haccounts.reachable_of_pending (by simp)
      obtain ⟨hkind, hnone⟩ := Block.of_closing_error hclosing
      obtain ⟨next, hnext⟩ := htree.exists_next id b hreach hb hkind
      rw [hnone] at hnext
      cases hnext
  | place hb hl hclosing hrest ih => exact ih (haccounts.place hb hl hclosing)

/-- A traversal that succeeds leaves nothing to place. -/
theorem Finishes.accounts {g : BlockGraph} {tasks : List Task} {l l' : Layout}
    {r : Except LinkError Unit} (h : Finishes g tasks l l' r) (hr : r = .ok ())
    (haccounts : Accounts g tasks l) : Accounts g [] l' := by
  induction h with
  | done l => exact haccounts
  | jump hrest ih => exact ih hr haccounts.jump
  | place hb hl hclosing hrest ih => exact ih hr (haccounts.place hb hl hclosing)
  | unknown | revisited | refused => cases hr

end Layout

/-- The chain that spans a graph goes through the blocks that can be reached. -/
theorem BlockGraph.Spans.mem_blocks_iff {g : BlockGraph} {c : Chain} (h : g.Spans c)
    {id : BlockId} : id ∈ c.blocks ↔ g.Reachable id := by
  have haccounts := g.finishes_layout.accounts (layout_eq_ok_iff.2 ⟨c, h⟩) (.initial g)
  have hblocks : g.layout.1.blocks = c.blocks := by
    rw [layout_of_spans h]
    simp [Layout.blocks, Layout.empty, Chain.map_fst_starts]
  rw [← hblocks]
  exact haccounts.mem_blocks_iff

/-! ## The result -/

/-- Nothing but the layout can refuse a graph. -/
theorem BlockGraph.exists_link_iff {g : BlockGraph} :
    (∃ P, g.link = .ok P) ↔ g.layout.2 = .ok () := by
  rw [layout_eq_ok_iff]
  constructor
  · rintro ⟨P, hP⟩
    obtain ⟨c, hc, -⟩ := spans_of_link hP
    exact ⟨c, hc⟩
  · rintro ⟨c, hc⟩
    exact ⟨_, link_of_spans hc⟩

/-- Whatever refuses to link a graph is an error of its layout. -/
theorem BlockGraph.layout_eq_error {g : BlockGraph} {e : LinkError} (h : g.link = .error e) :
    g.layout.2 = .error e := by
  cases hlayout : g.layout.2 with
  | ok =>
      obtain ⟨P, hP⟩ := exists_link_iff.2 hlayout
      rw [hP] at h
      cases h
  | error e' =>
      rw [link, hlayout, error_bind] at h
      cases h
      rfl

/-- **Exactly the trees can be linked.** The traversal of every graph comes to an end, with the
    layout of the graph as its only outcome. Linking succeeds if and only if every block that is
    reachable from the start block exists, every reachable conditional or loop has a successor, no
    reachable block refers to the start block, and exactly one reference from a reachable block
    leads to every other reachable block. -/
theorem link_succeeds_iff_treeShaped (g : BlockGraph) :
    (∀ l r, Layout.Finishes g [.chain g.start] .empty l r ↔ (l, r) = g.layout) ∧
      ((∃ P, g.link = .ok P) ↔ g.TreeShaped) := by
  refine ⟨fun l r => BlockGraph.finishes_iff_eq_layout, ?_⟩
  rw [BlockGraph.exists_link_iff]
  exact g.finishes_layout.eq_ok_iff (.initial g)

end ThreeAddress
