import ThreeAddress.Proofs.Layout.Linking

set_option autoImplicit false

/-! # Where chains stand in a program

A linked program has the code of each chain of its graph in one piece, from the start of its first
block on. `Chain.Placed` says so of one chain, and for each form of chain there is a lemma that
takes the piece apart: the code of the first block, the jump or the branch behind it, and the
places of the chains that it leads to. -/

namespace ThreeAddress

/-! ## Pieces of code -/

/-- The program has the given code from an address on. -/
def Program.Holds (p : Program) (base : Nat) (code : List Instr) : Prop :=
  ∀ (k : Nat) (i : Instr), code[k]? = some i → p.code[base + k]? = some i

namespace Program

variable {p : Program}

theorem holds_append {base : Nat} {front back : List Instr} :
    p.Holds base (front ++ back) ↔ p.Holds base front ∧ p.Holds (base + front.length) back := by
  constructor
  · intro h
    refine ⟨fun k i hk => h k i ?_, fun k i hk => ?_⟩
    · obtain ⟨hlt, -⟩ := List.getElem?_eq_some_iff.1 hk
      rw [List.getElem?_append_left hlt, hk]
    · rw [Nat.add_assoc]
      apply h
      rw [List.getElem?_append_right (Nat.le_add_right _ _), Nat.add_sub_cancel_left, hk]
  · rintro ⟨hfront, hback⟩ k i hk
    by_cases hlt : k < front.length
    · rw [List.getElem?_append_left hlt] at hk
      exact hfront k i hk
    · have hle : front.length ≤ k := by omega
      rw [List.getElem?_append_right hle] at hk
      have := hback _ i hk
      rwa [Nat.add_assoc, Nat.add_sub_cancel' hle] at this

theorem holds_cons {base : Nat} {i : Instr} {code : List Instr} :
    p.Holds base (i :: code) ↔ p.code[base]? = some i ∧ p.Holds (base + 1) code := by
  rw [← List.singleton_append, holds_append, List.length_singleton]
  refine and_congr_left fun _ => ⟨fun h => h 0 i rfl, ?_⟩
  intro h k j hk
  cases k with
  | zero =>
      cases hk
      exact h
  | succ k => simp at hk

end Program

/-! ## Chains in a program -/

namespace Chain

/-- The program has the code of the chain from `base` on, and the blocks of the chain start where
    that code has them. -/
structure Placed (g : BlockGraph) (p : Program) (base : Nat) (c : Chain) : Prop where
  holds : p.Holds base (c.slots.map (Slot.resolved g.origin))
  origins : ∀ s ∈ c.starts base, g.origin s.1 = s.2

variable {g : BlockGraph} {p : Program} {base : Nat}

theorem map_resolved_instr (origin : BlockId → Nat) (code : List Instr) :
    (code.map Slot.instr).map (Slot.resolved origin) = code := by
  rw [List.map_map]
  exact List.map_id code

theorem Placed.origin_first {c : Chain} (h : c.Placed g p base) : g.origin c.first = base :=
  h.origins _ (c.first_mem_starts base)

/-- The instructions of the first block stand at the beginning. -/
theorem Placed.code {c : Chain} (h : c.Placed g p base) : p.Holds base c.code := by
  have hholds := h.holds
  cases c <;>
    simp only [slots, List.map_append, map_resolved_instr, Program.holds_append] at hholds
  case last => exact hholds
  all_goals exact hholds.1

theorem size_last (id : BlockId) (code : List Instr) : (last id code).size = code.length := by
  simp [size, slots]

theorem size_link (id : BlockId) (code : List Instr) (rest : Chain) :
    (link id code rest).size = code.length + 1 + rest.size := by
  simp only [size, slots, List.length_append, List.length_map, List.length_cons]
  omega

theorem size_cond (id : BlockId) (code : List Instr) (test : String) (arm rest : Chain) :
    (cond id code test arm rest).size = code.length + 1 + arm.size + 1 + rest.size := by
  simp only [size, slots, List.length_append, List.length_map, List.length_cons]
  omega

theorem size_condElse (id : BlockId) (code : List Instr) (test : String)
    (thenArm elseArm rest : Chain) :
    (condElse id code test thenArm elseArm rest).size
      = code.length + 1 + thenArm.size + 1 + elseArm.size + 1 + rest.size := by
  simp only [size, slots, List.length_append, List.length_map, List.length_cons]
  omega

theorem size_loop (id : BlockId) (code : List Instr) (test : String) (body rest : Chain) :
    (loop id code test body rest).size = code.length + 1 + body.size + 1 + rest.size := by
  simp only [size, slots, List.length_append, List.length_map, List.length_cons]
  omega

theorem Placed.link {id : BlockId} {code : List Instr} {rest : Chain}
    (h : (link id code rest).Placed g p base) :
    p.code[base + code.length]? = some (.jump (.address (g.origin rest.first))) ∧
      rest.Placed g p (base + code.length + 1) ∧
      base + (Chain.link id code rest).size = base + code.length + 1 + rest.size := by
  obtain ⟨hholds, horigins⟩ := h
  simp only [slots, List.map_append, List.map_cons, map_resolved_instr, Program.holds_append,
    Program.holds_cons] at hholds
  simp only [starts, List.forall_mem_cons] at horigins
  refine ⟨hholds.2.1, ⟨hholds.2.2, horigins.2⟩, ?_⟩
  rw [size_link]
  omega

theorem Placed.cond {id : BlockId} {code : List Instr} {test : String} {arm rest : Chain}
    (h : (cond id code test arm rest).Placed g p base) :
    let inner := base + code.length + 1
    p.code[base + code.length]? = some (.branch test (.address (g.origin arm.first))
        (.address (g.origin rest.first))) ∧
      arm.Placed g p inner ∧
      p.code[inner + arm.size]? = some (.jump (.address (g.origin rest.first))) ∧
      rest.Placed g p (inner + arm.size + 1) ∧
      base + (Chain.cond id code test arm rest).size = inner + arm.size + 1 + rest.size := by
  obtain ⟨hholds, horigins⟩ := h
  simp only [slots, List.map_append, List.map_cons, map_resolved_instr, Program.holds_append,
    Program.holds_cons, List.length_map] at hholds
  simp only [starts, List.forall_mem_cons, List.forall_mem_append] at horigins
  refine ⟨hholds.2.1, ⟨hholds.2.2.1, horigins.2.1⟩, hholds.2.2.2.1,
    ⟨hholds.2.2.2.2, horigins.2.2⟩, ?_⟩
  rw [size_cond]
  omega

theorem Placed.condElse {id : BlockId} {code : List Instr} {test : String}
    {thenArm elseArm rest : Chain}
    (h : (condElse id code test thenArm elseArm rest).Placed g p base) :
    let inner := base + code.length + 1
    let middle := inner + thenArm.size + 1
    p.code[base + code.length]? = some (.branch test (.address (g.origin thenArm.first))
        (.address (g.origin elseArm.first))) ∧
      thenArm.Placed g p inner ∧
      p.code[inner + thenArm.size]? = some (.jump (.address (g.origin rest.first))) ∧
      elseArm.Placed g p middle ∧
      p.code[middle + elseArm.size]? = some (.jump (.address (g.origin rest.first))) ∧
      rest.Placed g p (middle + elseArm.size + 1) ∧
      base + (Chain.condElse id code test thenArm elseArm rest).size
        = middle + elseArm.size + 1 + rest.size := by
  obtain ⟨hholds, horigins⟩ := h
  simp only [slots, List.map_append, List.map_cons, map_resolved_instr, Program.holds_append,
    Program.holds_cons, List.length_map] at hholds
  simp only [starts, List.forall_mem_cons, List.forall_mem_append] at horigins
  refine ⟨hholds.2.1, ⟨hholds.2.2.1, horigins.2.1⟩, hholds.2.2.2.1,
    ⟨hholds.2.2.2.2.1, horigins.2.2.1⟩, hholds.2.2.2.2.2.1,
    ⟨hholds.2.2.2.2.2.2, horigins.2.2.2⟩, ?_⟩
  rw [size_condElse]
  omega

theorem Placed.loop {id : BlockId} {code : List Instr} {test : String} {body rest : Chain}
    (h : (loop id code test body rest).Placed g p base) :
    let inner := base + code.length + 1
    p.code[base + code.length]? = some (.branch test (.address (g.origin body.first))
        (.address (g.origin rest.first))) ∧
      body.Placed g p inner ∧
      p.code[inner + body.size]? = some (.jump (.address (g.origin id))) ∧
      rest.Placed g p (inner + body.size + 1) ∧
      base + (Chain.loop id code test body rest).size = inner + body.size + 1 + rest.size := by
  obtain ⟨hholds, horigins⟩ := h
  simp only [slots, List.map_append, List.map_cons, map_resolved_instr, Program.holds_append,
    Program.holds_cons, List.length_map] at hholds
  simp only [starts, List.forall_mem_cons, List.forall_mem_append] at horigins
  refine ⟨hholds.2.1, ⟨hholds.2.2.1, horigins.2.1⟩, hholds.2.2.2.1,
    ⟨hholds.2.2.2.2, horigins.2.2⟩, ?_⟩
  rw [size_loop]
  omega

end Chain

/-- The program of a graph has the chain that spans the graph at its beginning, and nothing else. -/
theorem BlockGraph.Spans.placed {g : BlockGraph} {c : Chain} {p : Program} (hspans : g.Spans c)
    (h : g.link = .ok p) : c.Placed g p 0 ∧ p.size = c.size := by
  have hcode : p.code = (c.slots.map (Slot.resolved g.origin)).toArray := by
    rw [link_of_spans hspans] at h
    cases h
    rfl
  refine ⟨⟨?_, ?_⟩, ?_⟩
  · intro k i hk
    simpa [hcode] using hk
  · rintro ⟨id, a⟩ hmem
    simp [origin, blockStart?_of_spans hspans hmem]
  · simp [Program.size, hcode, Chain.size]

theorem BlockGraph.placed_of_link {g : BlockGraph} {p : Program} (h : g.link = .ok p) :
    ∃ c, g.Spans c ∧ c.Placed g p 0 ∧ p.size = c.size := by
  obtain ⟨c, hspans, -⟩ := spans_of_link h
  exact ⟨c, hspans, hspans.placed h⟩

end ThreeAddress
