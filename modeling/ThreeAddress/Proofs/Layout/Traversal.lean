import Mathlib.Data.Finset.Card
import ThreeAddress.Proofs.Layout.Chain

set_option autoImplicit false

/-! # The traversal behind a layout

A layout is computed in a bounded number of rounds. `Finishes` describes the same traversal without
a bound, as what it comes to if it comes to an end at all. The bound is never felt: each round that
places a block uses up a block that has not been placed, and every other round uses up a task. So
the traversal of any graph ends, and the layout of the graph is what it ends with
(`finishes_iff_eq_layout`). -/

namespace ThreeAddress

namespace Layout

/-- The blocks that have been placed, in the order of their places. -/
def blocks (l : Layout) : List BlockId := l.starts.toList.map Prod.fst

@[simp] theorem blocks_append (l : Layout) (slots : List Slot) :
    (l.append slots).blocks = l.blocks := rfl

@[simp] theorem blocks_place (l : Layout) (id : BlockId) (b : Block) :
    (l.place id b).blocks = l.blocks ++ [id] := by
  simp [blocks, place]

/-- Doing the work of `tasks` behind the layout `l` comes to an end with the layout `l'`, and with
    an error or without one. -/
inductive Finishes (g : BlockGraph) : List Task → Layout → Layout → Except LinkError Unit → Prop
  /-- Nothing is left to do. -/
  | done (l : Layout) : Finishes g [] l l (.ok ())
  | jump {target : BlockId} {tasks : List Task} {l l' : Layout} {r : Except LinkError Unit}
      (hrest : Finishes g tasks (l.append [.jump target]) l' r) :
      Finishes g (.jump target :: tasks) l l' r
  /-- The block to place does not exist. -/
  | unknown {id : BlockId} {tasks : List Task} {l : Layout} (hb : g.block? id = none) :
      Finishes g (.chain id :: tasks) l l (.error (.unknownBlock id))
  /-- The block to place has been placed before. -/
  | revisited {id : BlockId} {b : Block} {tasks : List Task} {l : Layout}
      (hb : g.block? id = some b) (hl : l.placed id = true) :
      Finishes g (.chain id :: tasks) l l (.error (.blockRevisited id))
  /-- The block is placed, but nothing can close it. -/
  | refused {id : BlockId} {b : Block} {tasks : List Task} {l : Layout} {e : LinkError}
      (hb : g.block? id = some b) (hl : l.placed id = false) (hclosing : b.closing id = .error e) :
      Finishes g (.chain id :: tasks) l (l.place id b) (.error e)
  | place {id : BlockId} {b : Block} {tasks work : List Task} {slots : List Slot} {l l' : Layout}
      {r : Except LinkError Unit} (hb : g.block? id = some b) (hl : l.placed id = false)
      (hclosing : b.closing id = .ok (slots, work))
      (hrest : Finishes g (work ++ tasks) ((l.place id b).append slots) l' r) :
      Finishes g (.chain id :: tasks) l l' r

variable {g : BlockGraph} {tasks : List Task} {l l' : Layout} {r : Except LinkError Unit}

/-! ## The bound on the number of rounds -/

/-- The blocks of the graph that have not been placed. -/
def unplaced (g : BlockGraph) (l : Layout) : Finset BlockId :=
  (Finset.range g.size).filter fun id => l.placed id = false

theorem card_unplaced_le (g : BlockGraph) (l : Layout) : (l.unplaced g).card ≤ g.size := by
  have hle := Finset.card_filter_le (Finset.range g.size) fun id => l.placed id = false
  rwa [Finset.card_range] at hle

/-- Placing a block uses up a block. -/
theorem card_unplaced_place {id : BlockId} {b : Block} (hb : g.block? id = some b)
    (hl : l.placed id = false) (slots : List Slot) :
    (((l.place id b).append slots).unplaced g).card < (l.unplaced g).card := by
  have hlt : id < g.size := (Array.getElem?_eq_some_iff.1 hb).1
  apply Finset.card_lt_card
  rw [Finset.ssubset_iff_of_subset]
  · refine ⟨id, by simp [unplaced, hlt, hl], ?_⟩
    simp [unplaced, placed_append, placed_place]
  · intro other hother
    simp only [unplaced, placed_append, placed_place, Finset.mem_filter, Bool.or_eq_false_iff]
      at hother ⊢
    exact ⟨hother.1, hother.2.1⟩

theorem length_work_le {b : Block} {id : BlockId} {slots : List Slot} {work : List Task}
    (h : b.closing id = .ok (slots, work)) : work.length ≤ 5 := by
  unfold Block.closing at h
  split at h <;> cases h <;> simp

/-- A run with enough rounds for all blocks and tasks finishes. -/
theorem finishes_run (g : BlockGraph) (fuel : Nat) :
    ∀ (tasks : List Task) (l : Layout), 5 * (l.unplaced g).card + tasks.length ≤ fuel →
      Finishes g tasks l (run g fuel tasks l).1 (run g fuel tasks l).2 := by
  induction fuel with
  | zero =>
      intro tasks l h
      cases tasks with
      | nil => exact .done l
      | cons task tasks => simp at h
  | succ fuel ih =>
      intro tasks l h
      match tasks with
      | [] => exact .done l
      | .jump target :: tasks =>
          have hle : 5 * ((l.append [.jump target]).unplaced g).card + tasks.length ≤ fuel := by
            change 5 * (l.unplaced g).card + tasks.length ≤ fuel
            rw [List.length_cons] at h
            omega
          exact .jump (ih tasks _ hle)
      | .chain id :: tasks =>
          cases hb : g.block? id with
          | none =>
              simp only [run, hb]
              exact .unknown hb
          | some b =>
              cases hl : l.placed id with
              | true =>
                  simp only [run, hb, hl, if_true]
                  exact .revisited hb hl
              | false =>
                  cases hclosing : b.closing id with
                  | error e =>
                      simp only [run, hb, hl, hclosing, Bool.false_eq_true, if_false]
                      exact .refused hb hl hclosing
                  | ok closed =>
                      obtain ⟨slots, work⟩ := closed
                      rw [run_chain_succ hb hl hclosing]
                      refine .place hb hl hclosing (ih _ _ ?_)
                      have hcard := card_unplaced_place hb hl slots
                      have hwork := length_work_le hclosing
                      rw [List.length_cons] at h
                      rw [List.length_append]
                      omega

/-- A traversal that finishes is what every run with enough rounds comes to. -/
theorem Finishes.exists_run (h : Finishes g tasks l l' r) :
    ∃ n, ∀ m, run g (n + m) tasks l = (l', r) := by
  induction h with
  | done l => exact ⟨0, fun m => by cases m <;> rfl⟩
  | jump hrest ih =>
      obtain ⟨n, hn⟩ := ih
      refine ⟨n + 1, fun m => ?_⟩
      rw [Nat.add_right_comm, run_jump_succ, hn]
  | unknown hb => exact ⟨1, fun m => by simp [Nat.add_comm 1, run, hb]⟩
  | revisited hb hl => exact ⟨1, fun m => by simp [Nat.add_comm 1, run, hb, hl]⟩
  | refused hb hl hclosing =>
      exact ⟨1, fun m => by simp [Nat.add_comm 1, run, hb, hl, hclosing]⟩
  | place hb hl hclosing hrest ih =>
      obtain ⟨n, hn⟩ := ih
      refine ⟨n + 1, fun m => ?_⟩
      rw [Nat.add_right_comm, run_chain_succ hb hl hclosing, hn]

/-- A traversal has one outcome only. -/
theorem Finishes.unique {l'' : Layout} {r' : Except LinkError Unit} (h : Finishes g tasks l l' r)
    (h' : Finishes g tasks l l'' r') : (l', r) = (l'', r') := by
  obtain ⟨n, hn⟩ := h.exists_run
  obtain ⟨n', hn'⟩ := h'.exists_run
  rw [← hn n', ← hn' n, Nat.add_comm]

end Layout

namespace BlockGraph

theorem finishes_layout (g : BlockGraph) :
    Layout.Finishes g [.chain g.start] .empty g.layout.1 g.layout.2 := by
  apply Layout.finishes_run
  have hle := Layout.card_unplaced_le g .empty
  rw [List.length_singleton]
  omega

/-- The traversal of a graph ends, and the layout of the graph is its outcome. -/
theorem finishes_iff_eq_layout {g : BlockGraph} {l : Layout} {r : Except LinkError Unit} :
    Layout.Finishes g [.chain g.start] .empty l r ↔ (l, r) = g.layout := by
  constructor
  · intro h
    exact h.unique g.finishes_layout
  · intro h
    obtain ⟨rfl, rfl⟩ := Prod.mk.inj h
    exact g.finishes_layout

end BlockGraph

end ThreeAddress
