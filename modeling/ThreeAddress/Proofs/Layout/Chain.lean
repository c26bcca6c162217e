import Mathlib.Data.List.Perm.Subperm
import ThreeAddress.Graph.Layout
import ThreeAddress.Proofs.Sequencing

set_option autoImplicit false

/-! # Chains of blocks

The layout of a graph follows the successors of a block and, at a conditional or a loop, goes into
the arms or the body first. What it goes through is a tree, which a `Chain` spells out: a block
with its code, the chains of its arms or its body, and the chain of its successor. The code that
the layout emits and the starts that it records are functions of the chain alone.

The main statement is `layout_eq_ok_iff`: a layout is accepted exactly if some chain from the start
block fits the graph and has no block twice. -/

namespace ThreeAddress

/-- The block at `id` exists, with the given code, kind and successor. -/
def BlockGraph.Has (g : BlockGraph) (id : BlockId) (code : List Instr) (kind : BlockKind)
    (next : Option BlockId) : Prop :=
  ∃ b, g.block? id = some b ∧ b.code.toList = code ∧ b.kind = kind ∧ b.next = next

theorem BlockGraph.Has.lt_size {g : BlockGraph} {id : BlockId} {code : List Instr}
    {kind : BlockKind} {next : Option BlockId} (h : g.Has id code kind next) : id < g.size := by
  obtain ⟨b, hb, -⟩ := h
  exact (Array.getElem?_eq_some_iff.1 hb).1

/-- A block and all that is laid out from it on. -/
inductive Chain where
  /-- A straight block without a successor. -/
  | last (id : BlockId) (code : List Instr)
  /-- A straight block and what follows it. -/
  | link (id : BlockId) (code : List Instr) (rest : Chain)
  /-- A conditional with one arm. -/
  | cond (id : BlockId) (code : List Instr) (test : String) (arm rest : Chain)
  /-- A conditional with two arms. -/
  | condElse (id : BlockId) (code : List Instr) (test : String) (thenArm elseArm rest : Chain)
  | loop (id : BlockId) (code : List Instr) (test : String) (body rest : Chain)

namespace Chain

/-- The block that a chain starts with. -/
def first : Chain → BlockId
  | last id _ | link id _ _ | cond id _ _ _ _ | condElse id _ _ _ _ _ | loop id _ _ _ _ => id

/-- The code of the first block. -/
def code : Chain → List Instr
  | last _ code | link _ code _ | cond _ code _ _ _ | condElse _ code _ _ _ _
  | loop _ code _ _ _ => code

/-- All blocks in the order of their places. -/
def blocks : Chain → List BlockId
  | last id _ => [id]
  | link id _ rest => id :: rest.blocks
  | cond id _ _ arm rest => id :: (arm.blocks ++ rest.blocks)
  | condElse id _ _ thenArm elseArm rest =>
    id :: (thenArm.blocks ++ (elseArm.blocks ++ rest.blocks))
  | loop id _ _ body rest => id :: (body.blocks ++ rest.blocks)

/-- The graph has all blocks of the chain, with their code and connected as in the chain. -/
def Fits (g : BlockGraph) : Chain → Prop
  | last id code => g.Has id code .straight none
  | link id code rest => g.Has id code .straight (some rest.first) ∧ rest.Fits g
  | cond id code test arm rest =>
    g.Has id code (.conditional test arm.first none) (some rest.first) ∧ arm.Fits g ∧ rest.Fits g
  | condElse id code test thenArm elseArm rest =>
    g.Has id code (.conditional test thenArm.first (some elseArm.first)) (some rest.first) ∧
      thenArm.Fits g ∧ elseArm.Fits g ∧ rest.Fits g
  | loop id code test body rest =>
    g.Has id code (.loop test body.first) (some rest.first) ∧ body.Fits g ∧ rest.Fits g

/-- The code of the chain, with jumps that lead to blocks. -/
def slots : Chain → List Slot
  | last _ code => code.map .instr
  | link _ code rest => code.map .instr ++ .jump rest.first :: rest.slots
  | cond _ code test arm rest =>
    code.map .instr ++ .branch test arm.first rest.first ::
      (arm.slots ++ .jump rest.first :: rest.slots)
  | condElse _ code test thenArm elseArm rest =>
    code.map .instr ++ .branch test thenArm.first elseArm.first ::
      (thenArm.slots ++ .jump rest.first :: (elseArm.slots ++ .jump rest.first :: rest.slots))
  | loop id code test body rest =>
    code.map .instr ++ .branch test body.first rest.first ::
      (body.slots ++ .jump id :: rest.slots)

/-- The number of places that a chain takes. -/
def size (c : Chain) : Nat := c.slots.length

/-- The blocks with their start addresses, if the first one starts at `base`. -/
def starts : Chain → Nat → List (BlockId × Nat)
  | last id _, base => [(id, base)]
  | link id code rest, base => (id, base) :: rest.starts (base + code.length + 1)
  | cond id code _ arm rest, base =>
    let inner := base + code.length + 1
    (id, base) :: (arm.starts inner ++ rest.starts (inner + arm.size + 1))
  | condElse id code _ thenArm elseArm rest, base =>
    let inner := base + code.length + 1
    let middle := inner + thenArm.size + 1
    (id, base) :: (thenArm.starts inner ++
      (elseArm.starts middle ++ rest.starts (middle + elseArm.size + 1)))
  | loop id code _ body rest, base =>
    let inner := base + code.length + 1
    (id, base) :: (body.starts inner ++ rest.starts (inner + body.size + 1))

/-- The number of tasks that the layout of a chain consists of. -/
def rounds : Chain → Nat
  | last _ _ => 1
  | link _ _ rest => rest.rounds + 1
  | cond _ _ _ arm rest => arm.rounds + (rest.rounds + 1) + 1
  | condElse _ _ _ thenArm elseArm rest =>
    thenArm.rounds + (elseArm.rounds + (rest.rounds + 1) + 1) + 1
  | loop _ _ _ body rest => body.rounds + (rest.rounds + 1) + 1

/-! ## Small facts -/

theorem first_mem_blocks (c : Chain) : c.first ∈ c.blocks := by
  cases c <;> simp [first, blocks]

theorem map_fst_starts (c : Chain) (base : Nat) : (c.starts base).map Prod.fst = c.blocks := by
  induction c generalizing base with
  | last id code => rfl
  | link id code rest ih => simp [starts, blocks, ih]
  | cond id code test arm rest iha ihr => simp [starts, blocks, iha, ihr]
  | condElse id code test thenArm elseArm rest iht ihe ihr =>
      simp [starts, blocks, iht, ihe, ihr]
  | loop id code test body rest ihb ihr => simp [starts, blocks, ihb, ihr]

theorem first_mem_starts (c : Chain) (base : Nat) : (c.first, base) ∈ c.starts base := by
  cases c <;> simp [first, starts]

theorem rounds_le (c : Chain) : c.rounds ≤ 3 * c.blocks.length := by
  induction c with
  | last id code => simp [rounds, blocks]
  | link id code rest ih => simp [rounds, blocks]; omega
  | cond id code test arm rest iha ihr => simp [rounds, blocks]; omega
  | condElse id code test thenArm elseArm rest iht ihe ihr => simp [rounds, blocks]; omega
  | loop id code test body rest ihb ihr => simp [rounds, blocks]; omega

/-- The first block of a chain that fits the graph. -/
theorem Fits.block {g : BlockGraph} {c : Chain} (h : c.Fits g) :
    ∃ b, g.block? c.first = some b ∧ b.code.toList = c.code := by
  cases c with
  | last id code => exact ⟨h.choose, h.choose_spec.1, h.choose_spec.2.1⟩
  | link id code rest => exact ⟨h.1.choose, h.1.choose_spec.1, h.1.choose_spec.2.1⟩
  | cond id code test arm rest => exact ⟨h.1.choose, h.1.choose_spec.1, h.1.choose_spec.2.1⟩
  | condElse id code test thenArm elseArm rest =>
      exact ⟨h.1.choose, h.1.choose_spec.1, h.1.choose_spec.2.1⟩
  | loop id code test body rest => exact ⟨h.1.choose, h.1.choose_spec.1, h.1.choose_spec.2.1⟩

/-- The blocks of a chain that fits a graph exist. -/
theorem lt_size_of_fits {g : BlockGraph} (c : Chain) (h : c.Fits g) :
    ∀ id ∈ c.blocks, id < g.size := by
  induction c with
  | last id code => simpa [blocks] using BlockGraph.Has.lt_size h
  | link id code rest ih =>
      simp only [blocks, List.forall_mem_cons]
      exact ⟨h.1.lt_size, ih h.2⟩
  | cond id code test arm rest iha ihr =>
      simp only [blocks, List.forall_mem_cons, List.forall_mem_append]
      exact ⟨h.1.lt_size, iha h.2.1, ihr h.2.2⟩
  | condElse id code test thenArm elseArm rest iht ihe ihr =>
      simp only [blocks, List.forall_mem_cons, List.forall_mem_append]
      exact ⟨h.1.lt_size, iht h.2.1, ihe h.2.2.1, ihr h.2.2.2⟩
  | loop id code test body rest ihb ihr =>
      simp only [blocks, List.forall_mem_cons, List.forall_mem_append]
      exact ⟨h.1.lt_size, ihb h.2.1, ihr h.2.2⟩

/-- A chain without repetitions has at most as many blocks as the graph that it fits. -/
theorem length_blocks_le {g : BlockGraph} {c : Chain} (h : c.Fits g) (hnodup : c.blocks.Nodup) :
    c.blocks.length ≤ g.size := by
  have hsub : c.blocks ⊆ List.range g.size := by
    intro id hid
    exact List.mem_range.2 (c.lt_size_of_fits h id hid)
  simpa using (List.subperm_of_subset hnodup hsub).length_le

end Chain

/-! ## The layout of a chain -/

namespace Layout

/-- A chain placed at the end. -/
def extend (l : Layout) (c : Chain) : Layout where
  starts := l.starts ++ c.starts l.slots.size
  slots := l.slots ++ c.slots

theorem eq_of_toList {l l' : Layout} (hstarts : l.starts.toList = l'.starts.toList)
    (hslots : l.slots.toList = l'.slots.toList) : l = l' := by
  cases l
  cases l'
  simp only [Layout.mk.injEq]
  exact ⟨Array.toList_inj.1 hstarts, Array.toList_inj.1 hslots⟩

@[simp] theorem slots_toList_append (l : Layout) (slots : List Slot) :
    (l.append slots).slots.toList = l.slots.toList ++ slots := by
  simp [append]

@[simp] theorem slots_toList_place (l : Layout) (id : BlockId) (b : Block) :
    (l.place id b).slots.toList = l.slots.toList ++ b.code.toList.map .instr := by
  simp [place]

@[simp] theorem slots_toList_extend (l : Layout) (c : Chain) :
    (l.extend c).slots.toList = l.slots.toList ++ c.slots := by
  simp [extend]

@[simp] theorem starts_toList_append (l : Layout) (slots : List Slot) :
    (l.append slots).starts.toList = l.starts.toList := rfl

@[simp] theorem starts_toList_place (l : Layout) (id : BlockId) (b : Block) :
    (l.place id b).starts.toList = l.starts.toList ++ [(id, l.slots.toList.length)] := by
  simp [place]

@[simp] theorem starts_toList_extend (l : Layout) (c : Chain) :
    (l.extend c).starts.toList = l.starts.toList ++ c.starts l.slots.toList.length := by
  simp [extend]

theorem placed_iff {l : Layout} {id : BlockId} :
    l.placed id = true ↔ id ∈ l.starts.toList.map Prod.fst := by
  simp [placed, start?]

theorem placed_append (l : Layout) (slots : List Slot) (id : BlockId) :
    (l.append slots).placed id = l.placed id := rfl

theorem placed_place (l : Layout) (id other : BlockId) (b : Block) :
    (l.place id b).placed other = (l.placed other || id == other) := by
  rw [Bool.eq_iff_iff, Bool.or_eq_true, placed_iff, placed_iff]
  simp only [place, Array.toList_push, List.map_append, List.map_cons, List.map_nil,
    List.mem_append, List.mem_singleton, beq_iff_eq]
  rw [eq_comm (a := id)]

theorem placed_extend (l : Layout) (c : Chain) (id : BlockId) :
    (l.extend c).placed id = (l.placed id || c.blocks.contains id) := by
  rw [Bool.eq_iff_iff, Bool.or_eq_true, placed_iff, placed_iff]
  simp only [extend, Array.toList_appendList, List.map_append,
    Chain.map_fst_starts, List.mem_append, List.contains_iff_mem]

/-- None of the blocks has been placed. -/
def Free (l : Layout) (ids : List BlockId) : Prop := ∀ id ∈ ids, l.placed id = false

theorem free_place_iff {l : Layout} {ids : List BlockId} {id : BlockId} {b : Block}
    {slots : List Slot} :
    ((l.place id b).append slots).Free ids ↔ id ∉ ids ∧ l.Free ids := by
  simp only [Free, placed_append, placed_place, Bool.or_eq_false_iff, beq_eq_false_iff_ne]
  constructor
  · intro h
    exact ⟨fun hid => (h id hid).2 rfl, fun other hother => (h other hother).1⟩
  · rintro ⟨hid, h⟩ other hother
    refine ⟨h other hother, ?_⟩
    rintro rfl
    exact hid hother

theorem free_extend_iff {l : Layout} {ids : List BlockId} {c : Chain} {slots : List Slot} :
    ((l.extend c).append slots).Free ids ↔
      (∀ a ∈ c.blocks, ∀ b ∈ ids, a ≠ b) ∧ l.Free ids := by
  simp only [Free, placed_append, placed_extend, Bool.or_eq_false_iff]
  constructor
  · intro h
    refine ⟨?_, fun other hother => (h other hother).1⟩
    rintro a ha _ hb rfl
    have hnot := (h a hb).2
    rw [List.contains_iff_mem.2 ha] at hnot
    cases hnot
  · rintro ⟨hdisj, h⟩ other hother
    refine ⟨h other hother, Bool.eq_false_iff.2 ?_⟩
    intro hmem
    exact hdisj other (List.contains_iff_mem.1 hmem) other hother rfl

/-- One round that places a block. -/
theorem run_chain_succ {g : BlockGraph} {id : BlockId} {b : Block} {l : Layout}
    {slots : List Slot} {work : List Task} (hb : g.block? id = some b)
    (hl : l.placed id = false) (hclosing : b.closing id = .ok (slots, work)) (fuel : Nat)
    (tasks : List Task) :
    run g (fuel + 1) (.chain id :: tasks) l
      = run g fuel (work ++ tasks) ((l.place id b).append slots) := by
  simp [run, hb, hl, hclosing]

theorem run_jump_succ (g : BlockGraph) (target : BlockId) (fuel : Nat) (tasks : List Task)
    (l : Layout) :
    run g (fuel + 1) (.jump target :: tasks) l = run g fuel tasks (l.append [.jump target]) := rfl

/-- A chain that fits the graph, without repetitions and with no block placed before, is placed as
    a whole. -/
theorem run_chain {g : BlockGraph} (c : Chain) :
    ∀ {l : Layout} (fuel : Nat) (tasks : List Task), c.Fits g → c.blocks.Nodup →
      l.Free c.blocks →
      run g (c.rounds + fuel) (.chain c.first :: tasks) l = run g fuel tasks (l.extend c) := by
  induction c with
  | last id code =>
      rintro l fuel tasks ⟨b, hb, rfl, hkind, hnext⟩ - hfree
      have hclosing : b.closing id = .ok ([], []) := by simp [Block.closing, hkind, hnext]
      rw [Chain.rounds, Nat.add_comm 1, Chain.first,
        run_chain_succ hb (hfree id List.mem_cons_self) hclosing]
      congr 1
      -- what is left is that the slots and the starts add up
      apply eq_of_toList <;> simp [Chain.starts, Chain.slots]
  | link id code rest ih =>
      rintro l fuel tasks ⟨⟨b, hb, rfl, hkind, hnext⟩, hrest⟩ hnodup hfree
      simp only [Chain.blocks, List.nodup_cons] at hnodup
      obtain ⟨hid, hfree⟩ := List.forall_mem_cons.1 hfree
      have hclosing : b.closing id = .ok ([.jump rest.first], [.chain rest.first]) := by
        simp [Block.closing, hkind, hnext]
      rw [Chain.rounds, Nat.add_right_comm, Chain.first, run_chain_succ hb hid hclosing,
        List.cons_append, List.nil_append,
        ih fuel tasks hrest hnodup.2 (free_place_iff.2 ⟨hnodup.1, hfree⟩)]
      congr 1
      apply eq_of_toList <;> simp [Chain.starts, Chain.slots, Nat.add_assoc]
  | cond id code test arm rest iha ihr =>
      rintro l fuel tasks ⟨⟨b, hb, rfl, hkind, hnext⟩, harm, hrest⟩ hnodup hfree
      simp only [Chain.blocks, List.nodup_cons, List.nodup_append, List.mem_append,
        not_or] at hnodup
      obtain ⟨⟨hida, hidr⟩, hna, hnr, hdisj⟩ := hnodup
      obtain ⟨hid, hfree⟩ := List.forall_mem_cons.1 hfree
      obtain ⟨hfa, hfr⟩ := List.forall_mem_append.1 hfree
      have hclosing : b.closing id = .ok ([.branch test arm.first rest.first],
          [.chain arm.first, .jump rest.first, .chain rest.first]) := by
        simp [Block.closing, hkind, hnext]
      have hrounds : (Chain.cond id b.code.toList test arm rest).rounds + fuel
          = (arm.rounds + ((rest.rounds + fuel) + 1)) + 1 := by
        simp only [Chain.rounds]; omega
      -- the header, its arm, the jump behind the arm, and the rest
      rw [hrounds, Chain.first, run_chain_succ hb hid hclosing, List.cons_append,
        iha _ _ harm hna (free_place_iff.2 ⟨hida, hfa⟩), List.cons_append, run_jump_succ,
        List.cons_append, List.nil_append,
        ihr _ _ hrest hnr (free_extend_iff.2 ⟨hdisj, free_place_iff.2 ⟨hidr, hfr⟩⟩)]
      congr 1
      apply eq_of_toList <;>
        simp [Chain.starts, Chain.slots, Chain.size, Nat.add_assoc, Nat.add_comm,
          Nat.add_left_comm]
  | condElse id code test thenArm elseArm rest iht ihe ihr =>
      rintro l fuel tasks ⟨⟨b, hb, rfl, hkind, hnext⟩, hthen, helse, hrest⟩ hnodup hfree
      simp only [Chain.blocks, List.nodup_cons, List.nodup_append, List.mem_append,
        not_or] at hnodup
      obtain ⟨⟨hidt, hide, hidr⟩, hnt, ⟨hne, hnr, hdisje⟩, hdisjt⟩ := hnodup
      obtain ⟨hid, hfree⟩ := List.forall_mem_cons.1 hfree
      obtain ⟨hft, hfree⟩ := List.forall_mem_append.1 hfree
      obtain ⟨hfe, hfr⟩ := List.forall_mem_append.1 hfree
      have hclosing : b.closing id = .ok ([.branch test thenArm.first elseArm.first],
          [.chain thenArm.first, .jump rest.first, .chain elseArm.first, .jump rest.first,
            .chain rest.first]) := by
        simp [Block.closing, hkind, hnext]
      have hrounds : (Chain.condElse id b.code.toList test thenArm elseArm rest).rounds + fuel
          = (thenArm.rounds + ((elseArm.rounds + ((rest.rounds + fuel) + 1)) + 1)) + 1 := by
        simp only [Chain.rounds]; omega
      have hdisjte : ∀ a ∈ thenArm.blocks, ∀ b ∈ elseArm.blocks, a ≠ b :=
        fun a ha b hb => hdisjt a ha b (.inl hb)
      have hdisjtr : ∀ a ∈ thenArm.blocks, ∀ b ∈ rest.blocks, a ≠ b :=
        fun a ha b hb => hdisjt a ha b (.inr hb)
      -- the header, each arm with the jump behind it, and the rest
      rw [hrounds, Chain.first, run_chain_succ hb hid hclosing, List.cons_append,
        iht _ _ hthen hnt (free_place_iff.2 ⟨hidt, hft⟩), List.cons_append, run_jump_succ,
        List.cons_append,
        ihe _ _ helse hne (free_extend_iff.2 ⟨hdisjte, free_place_iff.2 ⟨hide, hfe⟩⟩),
        List.cons_append, run_jump_succ, List.cons_append, List.nil_append,
        ihr _ _ hrest hnr
          (free_extend_iff.2 ⟨hdisje, free_extend_iff.2 ⟨hdisjtr, free_place_iff.2 ⟨hidr, hfr⟩⟩⟩)]
      congr 1
      apply eq_of_toList <;>
        simp [Chain.starts, Chain.slots, Chain.size, Nat.add_assoc, Nat.add_comm,
          Nat.add_left_comm]
  | loop id code test body rest ihb ihr =>
      rintro l fuel tasks ⟨⟨b, hb, rfl, hkind, hnext⟩, hbody, hrest⟩ hnodup hfree
      simp only [Chain.blocks, List.nodup_cons, List.nodup_append, List.mem_append,
        not_or] at hnodup
      obtain ⟨⟨hidb, hidr⟩, hnb, hnr, hdisj⟩ := hnodup
      obtain ⟨hid, hfree⟩ := List.forall_mem_cons.1 hfree
      obtain ⟨hfb, hfr⟩ := List.forall_mem_append.1 hfree
      have hclosing : b.closing id = .ok ([.branch test body.first rest.first],
          [.chain body.first, .jump id, .chain rest.first]) := by
        simp [Block.closing, hkind, hnext]
      have hrounds : (Chain.loop id b.code.toList test body rest).rounds + fuel
          = (body.rounds + ((rest.rounds + fuel) + 1)) + 1 := by
        simp only [Chain.rounds]; omega
      -- the header, its body, the jump back, and the rest
      rw [hrounds, Chain.first, run_chain_succ hb hid hclosing, List.cons_append,
        ihb _ _ hbody hnb (free_place_iff.2 ⟨hidb, hfb⟩), List.cons_append, run_jump_succ,
        List.cons_append, List.nil_append,
        ihr _ _ hrest hnr (free_extend_iff.2 ⟨hdisj, free_place_iff.2 ⟨hidr, hfr⟩⟩)]
      congr 1
      apply eq_of_toList <;>
        simp [Chain.starts, Chain.slots, Chain.size, Nat.add_assoc, Nat.add_comm,
          Nat.add_left_comm]

theorem run_jump_eq_ok {g : BlockGraph} {target : BlockId} {fuel : Nat} {tasks : List Task}
    {l l' : Layout} (h : run g fuel (.jump target :: tasks) l = (l', .ok ())) :
    ∃ k, fuel = k + 1 ∧ run g k tasks (l.append [.jump target]) = (l', .ok ()) := by
  cases fuel with
  | zero => simp [run] at h
  | succ k => exact ⟨k, rfl, h⟩

/-- An accepted run that starts with placing a block has placed a chain from that block on. -/
theorem exists_chain_of_run {g : BlockGraph} (fuel : Nat) :
    ∀ {id : BlockId} {tasks : List Task} {l l' : Layout},
      run g fuel (.chain id :: tasks) l = (l', .ok ()) →
      ∃ c k, c.first = id ∧ c.Fits g ∧ c.blocks.Nodup ∧ l.Free c.blocks ∧ fuel = c.rounds + k ∧
        run g k tasks (l.extend c) = (l', .ok ()) := by
  induction fuel using Nat.strongRecOn with
  | ind fuel ih =>
    -- it is enough to find the chain: what is left to do then follows
    suffices hsuff : ∀ {id : BlockId} {tasks : List Task} {l l' : Layout},
        run g fuel (.chain id :: tasks) l = (l', .ok ()) →
        ∃ (c : Chain) (k : Nat), c.first = id ∧ c.Fits g ∧ c.blocks.Nodup ∧ l.Free c.blocks ∧
          fuel = c.rounds + k by
      intro id tasks l l' h
      obtain ⟨c, k, rfl, hfits, hnodup, hfree, rfl⟩ := hsuff h
      rw [run_chain c k tasks hfits hnodup hfree] at h
      exact ⟨c, k, rfl, hfits, hnodup, hfree, rfl, h⟩
    -- an arm or a body is a chain that a jump closes
    have hregion : ∀ {n : Nat}, n < fuel → ∀ {id target : BlockId} {tasks : List Task}
        {l l' : Layout}, run g n (.chain id :: .jump target :: tasks) l = (l', .ok ()) →
        ∃ (c : Chain) (k : Nat), c.first = id ∧ c.Fits g ∧ c.blocks.Nodup ∧ l.Free c.blocks ∧
          n = c.rounds + (k + 1) ∧
          run g k tasks ((l.extend c).append [.jump target]) = (l', .ok ()) := by
      intro n hn id target tasks l l' h
      obtain ⟨c, k, hc, hfits, hnodup, hfree, hrounds, hjump⟩ := ih n hn h
      obtain ⟨k, rfl, hrest⟩ := run_jump_eq_ok hjump
      exact ⟨c, k, hc, hfits, hnodup, hfree, hrounds, hrest⟩
    intro id tasks l l' h
    cases fuel with
    | zero => simp [run] at h
    | succ fuel =>
      rw [run] at h
      split at h
      · cases h
      rename_i b hb
      split at h
      · cases h
      rename_i hplaced
      split at h
      · cases h
      rename_i slots work hclosing
      have hid : l.placed id = false := by simpa using hplaced
      unfold Block.closing at hclosing
      split at hclosing
      · -- a straight block without a successor
        rename_i hkind hnext
        refine ⟨.last id b.code.toList, fuel, rfl, ⟨b, hb, rfl, hkind, hnext⟩,
          by simp [Chain.blocks], ?_, by simp only [Chain.rounds]; omega⟩
        simpa [Free, Chain.blocks] using hid
      -- a straight block with a successor
      · rename_i next hkind hnext
        cases hclosing
        obtain ⟨rest, k, rfl, hrest, hnodup, hfree, rfl, -⟩ := ih fuel (by omega) h
        obtain ⟨hnot, hfree⟩ := free_place_iff.1 hfree
        refine ⟨.link id b.code.toList rest, k, rfl, ⟨⟨b, hb, rfl, hkind, hnext⟩, hrest⟩,
          List.nodup_cons.2 ⟨hnot, hnodup⟩, List.forall_mem_cons.2 ⟨hid, hfree⟩,
          by simp only [Chain.rounds]; omega⟩
      -- a conditional without an alternative
      · rename_i test thenBlock merge hkind hnext
        cases hclosing
        obtain ⟨arm, k, rfl, harm, hna, hfa, rfl, h1⟩ := hregion (by omega) h
        obtain ⟨rest, k, rfl, hrest, hnr, hfr, rfl, -⟩ := ih k (by omega) h1
        obtain ⟨hida, hfa⟩ := free_place_iff.1 hfa
        obtain ⟨hdisj, hfr⟩ := free_extend_iff.1 hfr
        obtain ⟨hidr, hfr⟩ := free_place_iff.1 hfr
        refine ⟨.cond id b.code.toList test arm rest, k, rfl,
          ⟨⟨b, hb, rfl, hkind, hnext⟩, harm, hrest⟩,
          List.nodup_cons.2 ⟨by simp [hida, hidr], List.nodup_append.2 ⟨hna, hnr, hdisj⟩⟩,
          List.forall_mem_cons.2 ⟨hid, List.forall_mem_append.2 ⟨hfa, hfr⟩⟩,
          by simp only [Chain.rounds]; omega⟩
      -- a conditional with an alternative
      · rename_i test thenBlock elseBlock merge hkind hnext
        cases hclosing
        obtain ⟨thenArm, k, rfl, hthen, hnt, hft, rfl, h1⟩ := hregion (by omega) h
        obtain ⟨elseArm, k, rfl, helse, hne, hfe, rfl, h2⟩ := hregion (by omega) h1
        obtain ⟨rest, k, rfl, hrest, hnr, hfr, rfl, -⟩ := ih k (by omega) h2
        obtain ⟨hidt, hft⟩ := free_place_iff.1 hft
        obtain ⟨hdisjte, hfe⟩ := free_extend_iff.1 hfe
        obtain ⟨hide, hfe⟩ := free_place_iff.1 hfe
        obtain ⟨hdisje, hfr⟩ := free_extend_iff.1 hfr
        obtain ⟨hdisjtr, hfr⟩ := free_extend_iff.1 hfr
        obtain ⟨hidr, hfr⟩ := free_place_iff.1 hfr
        have hdisjt : ∀ a ∈ thenArm.blocks, ∀ b ∈ elseArm.blocks ++ rest.blocks, a ≠ b :=
          fun a ha => List.forall_mem_append.2 ⟨hdisjte a ha, hdisjtr a ha⟩
        refine ⟨.condElse id b.code.toList test thenArm elseArm rest, k, rfl,
          ⟨⟨b, hb, rfl, hkind, hnext⟩, hthen, helse, hrest⟩,
          List.nodup_cons.2 ⟨by simp [hidt, hide, hidr],
            List.nodup_append.2 ⟨hnt, List.nodup_append.2 ⟨hne, hnr, hdisje⟩, hdisjt⟩⟩,
          List.forall_mem_cons.2 ⟨hid,
            List.forall_mem_append.2 ⟨hft, List.forall_mem_append.2 ⟨hfe, hfr⟩⟩⟩,
          by simp only [Chain.rounds]; omega⟩
      -- a loop
      · rename_i test body exit hkind hnext
        cases hclosing
        obtain ⟨body, k, rfl, hbody, hnb, hfb, rfl, h1⟩ := hregion (by omega) h
        obtain ⟨rest, k, rfl, hrest, hnr, hfr, rfl, -⟩ := ih k (by omega) h1
        obtain ⟨hidb, hfb⟩ := free_place_iff.1 hfb
        obtain ⟨hdisj, hfr⟩ := free_extend_iff.1 hfr
        obtain ⟨hidr, hfr⟩ := free_place_iff.1 hfr
        refine ⟨.loop id b.code.toList test body rest, k, rfl,
          ⟨⟨b, hb, rfl, hkind, hnext⟩, hbody, hrest⟩,
          List.nodup_cons.2 ⟨by simp [hidb, hidr], List.nodup_append.2 ⟨hnb, hnr, hdisj⟩⟩,
          List.forall_mem_cons.2 ⟨hid, List.forall_mem_append.2 ⟨hfb, hfr⟩⟩,
          by simp only [Chain.rounds]; omega⟩
      · cases hclosing

end Layout

namespace BlockGraph

/-- The chain goes through the graph from its start block on, and has no block twice. -/
structure Spans (g : BlockGraph) (c : Chain) : Prop where
  first : c.first = g.start
  fits : c.Fits g
  nodup : c.blocks.Nodup

/-- A graph that a chain spans is laid out along that chain. -/
theorem layout_of_spans {g : BlockGraph} {c : Chain} (h : g.Spans c) :
    g.layout = (Layout.empty.extend c, .ok ()) := by
  have hrounds : c.rounds ≤ 5 * g.size + 1 := by
    have h1 := c.rounds_le
    have h2 := Chain.length_blocks_le h.fits h.nodup
    omega
  obtain ⟨k, hk⟩ := Nat.le.dest hrounds
  have hfree : Layout.empty.Free c.blocks := fun id _ => rfl
  rw [layout, ← hk, ← h.first, Layout.run_chain c k [] h.fits h.nodup hfree]
  cases k <;> rfl

/-- A layout is accepted exactly if a chain spans the graph. -/
theorem layout_eq_ok_iff {g : BlockGraph} : g.layout.2 = .ok () ↔ ∃ c, g.Spans c := by
  constructor
  · intro h
    have hrun : Layout.run g (5 * g.size + 1) [.chain g.start] .empty = (g.layout.1, .ok ()) :=
      Prod.ext rfl h
    obtain ⟨c, -, hfirst, hfits, hnodup, -⟩ := Layout.exists_chain_of_run _ hrun
    exact ⟨c, hfirst, hfits, hnodup⟩
  · rintro ⟨c, h⟩
    rw [layout_of_spans h]

end BlockGraph

end ThreeAddress
