import Mathlib.Data.List.Chain
import ThreeAddress.Proofs.Layout.Domain
import ThreeAddress.Proofs.Layout.DumpText

set_option autoImplicit false

/-! # Dumps follow layouts

A dump and a layout go through a graph in the same order, but not with the same patience. The layout
gives up at the first block that is missing, met again or without a successor that it needs; the
dump notes a missing block, passes over one that it has shown, and goes on. So what a layout has
placed, be it refused or not, is the beginning of the dump, and all of it if the layout is accepted.

`Displays` describes the dump of any graph without a bound on the number of rounds. It is by
induction on it that the dump is seen to show every block that can be reached and no other: where a
cycle cuts a traversal short, an outer one has still to go on. -/

namespace ThreeAddress

namespace BlockGraph

/-- Showing the blocks `ids` one after another, each with all that it leads to, but without those
    that have been seen, comes to an end with the given entries. The last list has the blocks that
    have been seen then. -/
inductive Displays (g : BlockGraph) :
    List BlockId → List BlockId → List DumpEntry → List BlockId → Prop
  | nil (seen : List BlockId) : Displays g [] seen [] seen
  /-- A block that does not exist is noted. -/
  | missing {id : BlockId} {ids seen seen' : List BlockId} {rest : List DumpEntry}
      (hb : g.block? id = none) (hrest : Displays g ids seen rest seen') :
      Displays g (id :: ids) seen (.missing id :: rest) seen'
  /-- A block that has been seen is passed over. -/
  | again {id : BlockId} {b : Block} {ids seen seen' : List BlockId} {rest : List DumpEntry}
      (hb : g.block? id = some b) (hseen : id ∈ seen) (hrest : Displays g ids seen rest seen') :
      Displays g (id :: ids) seen rest seen'
  /-- A block is shown, then what it leads to, and then the others. -/
  | visit {id : BlockId} {b : Block} {ids seen seen₁ seen₂ : List BlockId}
      {inner rest : List DumpEntry} (hb : g.block? id = some b) (hseen : id ∉ seen)
      (hinner : Displays g b.successors (id :: seen) inner seen₁)
      (hrest : Displays g ids seen₁ rest seen₂) :
      Displays g (id :: ids) seen (.block id b :: (inner ++ rest)) seen₂

variable {g : BlockGraph} {ids ids' seen seen' seen'' : List BlockId}
  {entries entries' : List DumpEntry}

namespace Displays

theorem append (h : g.Displays ids seen entries seen')
    (h' : g.Displays ids' seen' entries' seen'') :
    g.Displays (ids ++ ids') seen (entries ++ entries') seen'' := by
  induction h with
  | nil seen => exact h'
  | missing hb hrest ih => exact .missing hb (ih h')
  | again hb hseen hrest ih => exact .again hb hseen (ih h')
  | visit hb hseen hinner hrest ihi ihr =>
      rw [List.cons_append, List.cons_append, List.append_assoc]
      exact .visit hb hseen hinner (ihr h')

/-! ## What is shown -/

/-- A block has been seen if it was so before, or is shown. -/
theorem mem_seen_iff (h : g.Displays ids seen entries seen') (id : BlockId) :
    id ∈ seen' ↔ id ∈ seen ∨ id ∈ DumpEntry.headers entries := by
  induction h with
  | nil seen => simp
  | missing hb hrest ih => exact ih
  | again hb hseen hrest ih => exact ih
  | visit hb hseen hinner hrest ihi ihr =>
      rw [ihr, ihi, DumpEntry.headers_block, DumpEntry.headers_append, List.mem_cons, List.mem_cons,
        List.mem_append]
      tauto

/-- No block is shown twice, and none that has been seen before. -/
theorem nodup (h : g.Displays ids seen entries seen') :
    (DumpEntry.headers entries).Nodup ∧ ∀ id ∈ DumpEntry.headers entries, id ∉ seen := by
  induction h with
  | nil seen => simp
  | missing hb hrest ih => exact ih
  | again hb hseen hrest ih => exact ih
  | @visit id b ids seen seen₁ seen₂ inner rest hb hseen hinner hrest ihi ihr =>
      obtain ⟨hnodupi, hfreshi⟩ := ihi
      obtain ⟨hnodupr, hfreshr⟩ := ihr
      -- what is shown later was not seen when all that the block leads to had been shown
      have hlater : ∀ x ∈ DumpEntry.headers rest,
          x ∉ id :: seen ∧ x ∉ DumpEntry.headers inner := by
        intro x hx
        rw [← not_or, ← hinner.mem_seen_iff]
        exact hfreshr x hx
      rw [DumpEntry.headers_block, DumpEntry.headers_append, List.nodup_cons, List.nodup_append,
        List.mem_append]
      refine ⟨⟨?_, hnodupi, hnodupr, ?_⟩, ?_⟩
      · rintro (hx | hx)
        · exact hfreshi id hx List.mem_cons_self
        · exact (hlater id hx).1 List.mem_cons_self
      · rintro x hx _ hx' rfl
        exact (hlater x hx').2 hx
      · intro x hx
        rcases List.mem_cons.1 hx with rfl | hx
        · exact hseen
        rcases List.mem_append.1 hx with hx | hx
        · exact fun hmem => hfreshi x hx (List.mem_cons_of_mem _ hmem)
        · exact fun hmem => (hlater x hx).1 (List.mem_cons_of_mem _ hmem)

/-- What is shown exists, and can be reached if the blocks to show can. -/
theorem reachable (h : g.Displays ids seen entries seen') (hids : ∀ id ∈ ids, g.Reachable id)
    {id : BlockId} {b : Block} (hid : .block id b ∈ entries) :
    g.Reachable id ∧ g.block? id = some b := by
  induction h with
  | nil seen => simp at hid
  | missing hb hrest ih =>
      rw [List.forall_mem_cons] at hids
      exact ih hids.2 (by simpa using hid)
  | again hb hseen hrest ih => exact ih (List.forall_mem_cons.1 hids).2 hid
  | @visit id' b' ids seen seen₁ seen₂ inner rest hb hseen hinner hrest ihi ihr =>
      obtain ⟨hreach, hids⟩ := List.forall_mem_cons.1 hids
      simp only [List.mem_cons, DumpEntry.block.injEq, List.mem_append] at hid
      rcases hid with ⟨rfl, rfl⟩ | hid | hid
      · exact ⟨hreach, hb⟩
      · refine ihi (fun target htarget => hreach.of_mem ?_) hid
        rwa [references_of_block? hb]
      · exact ihr hids hid

/-- The blocks to show have been seen in the end, as far as they exist, and so have those that a
    shown block refers to. -/
theorem complete (h : g.Displays ids seen entries seen') {target : BlockId}
    (htarget : target < g.size) :
    (target ∈ ids → target ∈ seen') ∧
      ∀ id ∈ DumpEntry.headers entries, target ∈ g.references id → target ∈ seen' := by
  induction h with
  | nil seen => simp
  | @missing id ids seen seen' rest hb hrest ih =>
      refine ⟨?_, ih.2⟩
      intro hmem
      rcases List.mem_cons.1 hmem with rfl | hmem
      · exact absurd (Array.getElem?_eq_none_iff.1 hb) (Nat.not_le.2 htarget)
      · exact ih.1 hmem
  | again hb hseen hrest ih =>
      refine ⟨?_, ih.2⟩
      intro hmem
      rcases List.mem_cons.1 hmem with rfl | hmem
      · exact (hrest.mem_seen_iff _).2 (.inl hseen)
      · exact ih.1 hmem
  | @visit id b ids seen seen₁ seen₂ inner rest hb hseen hinner hrest ihi ihr =>
      -- nothing that has been seen behind the block is forgotten
      have hkeep : ∀ x, x ∈ seen₁ → x ∈ seen₂ := fun x hx => (hrest.mem_seen_iff x).2 (.inl hx)
      constructor
      · intro hmem
        rcases List.mem_cons.1 hmem with rfl | hmem
        · exact hkeep _ ((hinner.mem_seen_iff _).2 (.inl List.mem_cons_self))
        · exact ihr.1 hmem
      · intro source hsource href
        rw [DumpEntry.headers_block, DumpEntry.headers_append, List.mem_cons, List.mem_append]
          at hsource
        rcases hsource with rfl | hsource | hsource
        · rw [references_of_block? hb] at href
          exact hkeep _ (ihi.1 href)
        · exact hkeep _ (ihi.2 source hsource href)
        · exact ihr.2 source hsource href

/-- A block that exists and has not been seen is shown. -/
theorem exists_of_not_mem {id : BlockId} {b : Block} (h : g.Displays (id :: ids) seen entries seen')
    (hb : g.block? id = some b) (hseen : id ∉ seen) :
    ∃ inner rest seen₁, entries = .block id b :: (inner ++ rest) ∧
      g.Displays b.successors (id :: seen) inner seen₁ ∧ g.Displays ids seen₁ rest seen' := by
  cases h with
  | missing hb' =>
      rw [hb] at hb'
      cases hb'
  | again _ hseen' => exact absurd hseen' hseen
  | visit hb' _ hinner hrest =>
      cases hb.symm.trans hb'
      exact ⟨_, _, _, rfl, hinner, hrest⟩

end Displays

/-! ## The bound on the number of rounds -/

/-- The blocks of the graph that have not been seen. -/
def unseen (g : BlockGraph) (seen : List BlockId) : Finset BlockId :=
  (Finset.range g.size).filter fun id => id ∉ seen

theorem card_unseen_le (g : BlockGraph) (seen : List BlockId) : (g.unseen seen).card ≤ g.size := by
  have hle := Finset.card_filter_le (Finset.range g.size) fun id => id ∉ seen
  rwa [Finset.card_range] at hle

/-- Showing a block uses up a block. -/
theorem card_unseen_cons {id : BlockId} {b : Block} (hb : g.block? id = some b)
    (hseen : id ∉ seen) : (g.unseen (id :: seen)).card < (g.unseen seen).card := by
  have hlt : id < g.size := (Array.getElem?_eq_some_iff.1 hb).1
  apply Finset.card_lt_card
  rw [Finset.ssubset_iff_of_subset]
  · exact ⟨id, by simp [unseen, hlt, hseen], by simp [unseen]⟩
  · intro other hother
    simp only [unseen, Finset.mem_filter, List.mem_cons, not_or] at hother ⊢
    exact ⟨hother.1, hother.2.2⟩

theorem Displays.card_unseen_le (h : g.Displays ids seen entries seen') :
    (g.unseen seen').card ≤ (g.unseen seen).card := by
  apply Finset.card_le_card
  intro id hid
  simp only [unseen, Finset.mem_filter] at hid ⊢
  exact ⟨hid.1, fun hmem => hid.2 ((h.mem_seen_iff id).2 (.inl hmem))⟩

theorem length_successors_le (b : Block) : b.successors.length ≤ 3 := by
  have hnext : b.next.toList.length ≤ 1 := by
    cases b.next <;> simp
  have hbranches : b.kind.branches.length ≤ 2 := by
    rcases b.kind with _ | ⟨test, thenBlock, _ | elseBlock⟩ | ⟨test, body⟩ <;>
      simp [BlockKind.branches]
  rw [Block.successors, List.length_append]
  omega

/-- Showing any blocks of any graph comes to an end. -/
theorem exists_displays (g : BlockGraph) (ids seen : List BlockId) :
    ∃ entries seen', g.Displays ids seen entries seen' := by
  -- a block that is shown has at most three references, and uses up one that was not seen
  induction hn : 4 * (g.unseen seen).card + ids.length using Nat.strongRecOn
    generalizing ids seen with
  | ind n ih =>
    rcases ids with _ | ⟨id, ids⟩
    · exact ⟨[], seen, .nil seen⟩
    rw [List.length_cons] at hn
    rcases hb : g.block? id with _ | b
    · obtain ⟨rest, seen', hrest⟩ := ih _ (by omega) ids seen rfl
      exact ⟨_, seen', .missing hb hrest⟩
    by_cases hseen : id ∈ seen
    · obtain ⟨rest, seen', hrest⟩ := ih _ (by omega) ids seen rfl
      exact ⟨rest, seen', .again hb hseen hrest⟩
    · have hcard := card_unseen_cons hb hseen
      have hlength := length_successors_le b
      obtain ⟨inner, seen₁, hinner⟩ := ih _ (by omega) b.successors (id :: seen) rfl
      have hless := hinner.card_unseen_le
      obtain ⟨rest, seen₂, hrest⟩ := ih _ (by omega) ids seen₁ rfl
      exact ⟨_, seen₂, .visit hb hseen hinner hrest⟩

/-- What is shown takes a bounded number of rounds, and does not depend on what is to be done
    later. -/
theorem Displays.exists_rounds (h : g.Displays ids seen entries seen') :
    ∃ n, n + 3 * (g.unseen seen').card ≤ 3 * (g.unseen seen).card + ids.length ∧
      ∀ fuel work, g.entriesWithin (n + fuel) (ids ++ work) seen
        = entries ++ g.entriesWithin fuel work seen' := by
  induction h with
  | nil seen => exact ⟨0, by simp, by simp⟩
  | @missing id ids seen seen' rest hb hrest ih =>
      obtain ⟨n, hn, heq⟩ := ih
      refine ⟨n + 1, by rw [List.length_cons]; omega, fun fuel work => ?_⟩
      rw [Nat.add_right_comm, List.cons_append, entriesWithin, hb]
      simp only [heq, List.cons_append]
  | @again id b ids seen seen' rest hb hseen hrest ih =>
      obtain ⟨n, hn, heq⟩ := ih
      refine ⟨n + 1, by rw [List.length_cons]; omega, fun fuel work => ?_⟩
      rw [Nat.add_right_comm, List.cons_append, entriesWithin, hb]
      simp only [List.contains_iff_mem.2 hseen, if_true, heq]
  | @visit id b ids seen seen₁ seen₂ inner rest hb hseen hinner hrest ihi ihr =>
      obtain ⟨n, hn, heq⟩ := ihi
      obtain ⟨k, hk, heq'⟩ := ihr
      have hcard := card_unseen_cons hb hseen
      have hlength := length_successors_le b
      refine ⟨n + k + 1, by rw [List.length_cons]; omega, fun fuel work => ?_⟩
      have hcontains : seen.contains id = false := by
        simpa using hseen
      rw [Nat.add_right_comm, List.cons_append, entriesWithin, hb]
      simp only [hcontains, Bool.false_eq_true, if_false]
      rw [Nat.add_assoc, heq, heq', List.cons_append, List.append_assoc]

/-- The dump of a graph shows its start block and all that follows from it. -/
theorem displays_iff_eq_entries :
    (∃ seen, g.Displays [g.start] [] entries seen) ↔ entries = g.entries := by
  -- the rounds of a dump are enough for whatever is shown
  have hentries {entries : List DumpEntry} {seen : List BlockId}
      (h : g.Displays [g.start] [] entries seen) : entries = g.entries := by
    obtain ⟨n, hn, heq⟩ := h.exists_rounds
    have hcard := g.card_unseen_le []
    rw [List.length_singleton] at hn
    obtain ⟨k, hk⟩ := Nat.le.dest (show n ≤ 3 * g.size + 2 by omega)
    have hnil : g.entriesWithin k [] seen = [] := by
      cases k <;> rfl
    have hrun := heq k []
    rw [hnil, List.append_nil, List.append_nil] at hrun
    rw [BlockGraph.entries, ← hk, hrun]
  constructor
  · rintro ⟨seen, h⟩
    exact hentries h
  · rintro rfl
    obtain ⟨entries, seen, h⟩ := g.exists_displays [g.start] []
    exact ⟨seen, hentries h ▸ h⟩

/-- A dump has a header for every block that exists and can be reached. -/
theorem mem_entries_iff {id : BlockId} {b : Block} :
    .block id b ∈ g.entries ↔ g.Reachable id ∧ g.block? id = some b := by
  obtain ⟨seen, h⟩ := displays_iff_eq_entries.2 (rfl : g.entries = g.entries)
  have hsound {id : BlockId} {b : Block} (hid : .block id b ∈ g.entries) :=
    h.reachable (by simpa using Reachable.start) hid
  refine ⟨hsound, ?_⟩
  -- all that is reachable and exists has been seen, and nothing was seen at the beginning
  have hseen {id : BlockId} (hreach : g.Reachable id) (hid : id < g.size) : id ∈ seen := by
    induction hreach with
    | start => exact (h.complete hid).1 List.mem_cons_self
    | @step source target n hsource href ih =>
        have hmem := exists_refers_iff.1 ⟨n, href⟩
        have hsize : source < g.size := by
          by_contra hlt
          have hnone : g.block? source = none := Array.getElem?_eq_none_iff.2 (Nat.not_lt.1 hlt)
          simp [references, hnone] at hmem
        have hheader := ((h.mem_seen_iff source).1 (ih hsize)).resolve_left List.not_mem_nil
        exact (h.complete hid).2 source hheader hmem
  rintro ⟨hreach, hb⟩
  have hlt : id < g.size := (Array.getElem?_eq_some_iff.1 hb).1
  have hheader := ((h.mem_seen_iff id).1 (hseen hreach hlt)).resolve_left List.not_mem_nil
  obtain ⟨b', hentry⟩ := DumpEntry.mem_headers_iff.1 hheader
  obtain ⟨-, hb'⟩ := hsound hentry
  rwa [Option.some.inj (hb.symm.trans hb')]

/-- No block is shown twice. -/
theorem nodup_headers (g : BlockGraph) : (DumpEntry.headers g.entries).Nodup := by
  obtain ⟨seen, h⟩ := displays_iff_eq_entries.2 (rfl : g.entries = g.entries)
  exact h.nodup.1

/-- A dump has one header line for each block that exists and can be reached. -/
theorem countP_heads_eq_one_iff {id : BlockId} :
    g.dumpLines.countP (heads id) = 1 ↔ g.Reachable id ∧ (g.block? id).isSome = true := by
  rw [g.countP_heads_dumpLines]
  constructor
  · intro hcount
    have hheader : id ∈ DumpEntry.headers g.entries := List.count_pos_iff.1 (by omega)
    obtain ⟨b, hb⟩ := DumpEntry.mem_headers_iff.1 hheader
    obtain ⟨hreach, hb⟩ := mem_entries_iff.1 hb
    exact ⟨hreach, by rw [hb, Option.isSome_some]⟩
  · rintro ⟨hreach, hsome⟩
    obtain ⟨b, hb⟩ := Option.isSome_iff_exists.1 hsome
    have hheader := DumpEntry.mem_headers_iff.2 ⟨b, mem_entries_iff.2 ⟨hreach, hb⟩⟩
    exact List.count_eq_one_of_mem g.nodup_headers hheader

theorem countP_heads_le_one (g : BlockGraph) (id : BlockId) :
    g.dumpLines.countP (heads id) ≤ 1 := by
  rw [g.countP_heads_dumpLines]
  exact List.nodup_iff_count_le_one.1 g.nodup_headers id

end BlockGraph

/-! ## The blocks of a layout -/

namespace Layout

variable {g : BlockGraph} {tasks : List Task} {l l' : Layout} {r : Except LinkError Unit}

theorem placed_eq_false_iff {id : BlockId} : l.placed id = false ↔ id ∉ l.blocks := by
  rw [Bool.eq_false_iff, Ne, placed_iff]
  rfl

/-- What a layout places, until it is refused or done, a dump shows in the same order. -/
theorem Finishes.blocks_prefix (h : Finishes g tasks l l' r) {seen seen' : List BlockId}
    {entries : List DumpEntry} (hseen : ∀ id, id ∈ seen ↔ id ∈ l.blocks)
    (hdisplays : g.Displays (Task.pending tasks) seen entries seen') :
    ∃ order, l'.blocks = l.blocks ++ order ∧ order <+: DumpEntry.headers entries ∧
      (r = .ok () → order = DumpEntry.headers entries) := by
  induction h generalizing seen seen' entries with
  | done l =>
      cases hdisplays
      exact ⟨[], by simp, List.nil_prefix, fun _ => rfl⟩
  | jump hrest ih => exact ih hseen hdisplays
  | unknown hb => exact ⟨[], by simp, List.nil_prefix, by simp⟩
  | revisited hb hl => exact ⟨[], by simp, List.nil_prefix, by simp⟩
  | @refused id b tasks l e hb hl hclosing =>
      have hnot : id ∉ seen := fun hid => placed_eq_false_iff.1 hl ((hseen id).1 hid)
      obtain ⟨inner, rest, seen₁, rfl, -⟩ := hdisplays.exists_of_not_mem hb hnot
      exact ⟨[id], blocks_place l id b, by simp, by simp⟩
  | @place id b tasks work slots l l' r hb hl hclosing hrest ih =>
      have hnot : id ∉ seen := fun hid => placed_eq_false_iff.1 hl ((hseen id).1 hid)
      obtain ⟨inner, rest, seen₁, rfl, hinner, hrest'⟩ := hdisplays.exists_of_not_mem hb hnot
      -- the work that the block leaves is to place what the dump shows next
      have hnext :
          g.Displays (Task.pending (work ++ tasks)) (id :: seen) (inner ++ rest) seen' := by
        rw [Task.pending_append, Block.pending_of_closing hclosing]
        exact hinner.append hrest'
      obtain ⟨order, hblocks, hprefix, hall⟩ := ih (by simp [hseen, or_comm]) hnext
      refine ⟨id :: order, ?_, ?_, fun hr => ?_⟩
      · rw [hblocks, blocks_append, blocks_place, List.append_assoc, List.singleton_append]
      · rw [DumpEntry.headers_block]
        exact (List.prefix_cons_inj id).2 hprefix
      · rw [DumpEntry.headers_block, hall hr]

end Layout

/-! ## The starts of a layout -/

/-- Whether a task is to place a block. -/
def Task.places : Task → Bool
  | .chain _ => true
  | .jump _ => false

/-- There is a jump between any two blocks to place. -/
def Task.Apart (tasks : List Task) : Prop :=
  tasks.IsChain fun task task' => task.places = true → task'.places = false

/-- The work that a block leaves has jumps in between, and there is none only if the block ends
    without a slot of its own. -/
theorem Block.apart_of_closing {b : Block} {id : BlockId} {slots : List Slot}
    {work tasks : List Task}
    (h : b.closing id = .ok (slots, work)) (htasks : Task.Apart (.chain id :: tasks)) :
    Task.Apart (work ++ tasks) ∧ (slots = [] → work = []) := by
  have hlast (next : BlockId) : Task.Apart (.chain next :: tasks) := by
    cases tasks with
    | nil => exact .singleton _
    | cons task tasks => simpa [Task.Apart, List.isChain_cons_cons, Task.places] using htasks
  unfold Block.closing at h
  split at h
  case h_1 =>
      cases h
      exact ⟨htasks.tail, fun _ => rfl⟩
  case h_6 => cases h
  all_goals
    cases h
    simp only [Task.Apart, List.cons_append, List.nil_append, List.isChain_cons_cons, Task.places]
    exact ⟨by simpa [Task.Apart, Task.places] using hlast _, by simp⟩

namespace Layout

/-- The starts increase, and the next block to place starts behind all others. -/
structure Increasing (tasks : List Task) (l : Layout) : Prop where
  starts : l.starts.toList.Pairwise fun s s' => s.2 < s'.2
  le : ∀ s ∈ l.starts.toList, s.2 ≤ l.slots.toList.length
  lt : ∀ id rest, tasks = .chain id :: rest → ∀ s ∈ l.starts.toList, s.2 < l.slots.toList.length
  apart : Task.Apart tasks

namespace Increasing

variable {g : BlockGraph} {id : BlockId} {tasks : List Task} {l : Layout}

theorem initial (g : BlockGraph) : Increasing [.chain g.start] .empty where
  starts := .nil
  le := by simp [Layout.empty]
  lt := by simp [Layout.empty]
  apart := .singleton _

theorem jump {target : BlockId} (h : Increasing (.jump target :: tasks) l) :
    Increasing tasks (l.append [.jump target]) where
  starts := h.starts
  le := by
    intro s hs
    have hle := h.le s hs
    simp only [slots_toList_append, List.length_append, List.length_singleton]
    omega
  lt := by
    intro id rest htasks s hs
    have hle := h.le s hs
    simp only [slots_toList_append, List.length_append, List.length_singleton]
    omega
  apart := h.apart.tail

theorem starts_place (h : Increasing (.chain id :: tasks) l) (b : Block) :
    (l.place id b).starts.toList.Pairwise fun s s' => s.2 < s'.2 := by
  rw [starts_toList_place, List.pairwise_append]
  refine ⟨h.starts, List.pairwise_singleton .., ?_⟩
  intro s hs s' hs'
  rw [List.mem_singleton] at hs'
  subst hs'
  exact h.lt id tasks rfl s hs

theorem place {b : Block} {slots : List Slot} {work : List Task}
    (h : Increasing (.chain id :: tasks) l) (hclosing : b.closing id = .ok (slots, work)) :
    Increasing (work ++ tasks) ((l.place id b).append slots) := by
  obtain ⟨hapart, hnone⟩ := Block.apart_of_closing hclosing h.apart
  have hle : ∀ s ∈ (l.place id b).starts.toList, s.2 ≤ (l.place id b).slots.toList.length := by
    rw [starts_toList_place, slots_toList_place, List.forall_mem_append, List.forall_mem_singleton,
      List.length_append]
    exact ⟨fun s hs => Nat.le_add_right_of_le (h.le s hs), Nat.le_add_right _ _⟩
  refine ⟨h.starts_place b, ?_, ?_, hapart⟩
  · intro s hs
    rw [slots_toList_append, List.length_append]
    exact Nat.le_add_right_of_le (hle s hs)
  · intro id' rest htasks s hs
    have hslots : 0 < slots.length := by
      rw [List.length_pos_iff]
      intro hnil
      -- then the next task would have followed the one of the block itself
      rw [hnone hnil, List.nil_append] at htasks
      have hnext := h.apart
      rw [htasks, Task.Apart, List.isChain_cons_cons] at hnext
      exact absurd (hnext.1 rfl) (by simp [Task.places])
    have hle := hle s hs
    rw [slots_toList_append, List.length_append]
    omega

end Increasing

theorem Finishes.starts_increasing {g : BlockGraph} {tasks : List Task} {l l' : Layout}
    {r : Except LinkError Unit} (h : Finishes g tasks l l' r) (hincreasing : Increasing tasks l) :
    l'.starts.toList.Pairwise fun s s' => s.2 < s'.2 := by
  induction h with
  | done l => exact hincreasing.starts
  | jump hrest ih => exact ih hincreasing.jump
  | unknown hb => exact hincreasing.starts
  | revisited hb hl => exact hincreasing.starts
  | refused hb hl hclosing => exact hincreasing.starts_place _
  | place hb hl hclosing hrest ih => exact ih (hincreasing.place hclosing)

end Layout

/-! ## The result -/

/-- A block has been placed exactly if it has a start. -/
theorem BlockGraph.mem_blocks_layout_iff {g : BlockGraph} {id : BlockId} :
    id ∈ g.layout.1.blocks ↔ ∃ a, g.blockStart? id = some a := by
  rw [← Option.isSome_iff_exists, blockStart?]
  exact Layout.placed_iff.symm

/-- **The dump of a graph goes on where its layout stops.** Take any graph, with cycles, shared
    blocks or missing ones. Showing its start block and all that follows from it comes to an end,
    and the dump is the text of what is shown, line by line. The lines that begin with `block` are
    the headers and the notes about missing blocks. There is exactly one header for each block that
    exists and can be reached, and none for any other. The blocks that are laid out, which are those
    with a start, in the order of their starts, are the first ones of the dump, also if the graph
    cannot be linked. If it can be linked, they are all. -/
theorem dump_continues_layout (g : BlockGraph) :
    (∀ entries, (∃ seen, g.Displays [g.start] [] entries seen) ↔ entries = g.entries) ∧
    g.dump = textOfLines g.dumpLines ∧
    g.dumpLines.filter (begins "block") = g.entries.map DumpEntry.headline ∧
    (∀ id, g.dumpLines.countP (heads id) ≤ 1 ∧
      (g.dumpLines.countP (heads id) = 1 ↔ g.Reachable id ∧ (g.block? id).isSome = true)) ∧
    (∀ id b, .block id b ∈ g.entries ↔ g.Reachable id ∧ g.block? id = some b) ∧
    (DumpEntry.headers g.entries).Nodup ∧
    ∃ order : List BlockId,
      (∀ id, id ∈ order ↔ ∃ a, g.blockStart? id = some a) ∧
      order.Pairwise (fun id id' => ∃ a a', g.blockStart? id = some a ∧
        g.blockStart? id' = some a' ∧ a < a') ∧
      order <+: DumpEntry.headers g.entries ∧
      ((∃ P, g.link = .ok P) → order = DumpEntry.headers g.entries) := by
  obtain ⟨seen, hdisplays⟩ := BlockGraph.displays_iff_eq_entries.2 (rfl : g.entries = g.entries)
  have hfinishes := g.finishes_layout
  obtain ⟨order, hblocks, hprefix, hall⟩ :=
    hfinishes.blocks_prefix (by simp [Layout.blocks, Layout.empty]) hdisplays
  replace hblocks : g.layout.1.blocks = order := hblocks
  refine ⟨fun entries => BlockGraph.displays_iff_eq_entries, g.dump_eq, g.filter_dumpLines,
    fun id => ⟨g.countP_heads_le_one id, BlockGraph.countP_heads_eq_one_iff⟩,
    fun id b => BlockGraph.mem_entries_iff, g.nodup_headers, order, ?_, ?_, hprefix, ?_⟩
  · intro id
    rw [← hblocks]
    exact BlockGraph.mem_blocks_layout_iff
  · -- a block is placed only once, so its start is the one that is recorded
    have hstarts : (g.layout.1.starts.toList.map Prod.fst).Nodup := by
      have hsub := hprefix.sublist.nodup g.nodup_headers
      rwa [← hblocks] at hsub
    rw [← hblocks, Layout.blocks, List.pairwise_map]
    refine (hfinishes.starts_increasing (.initial g)).imp_of_mem ?_
    intro s s' hs hs' hlt
    exact ⟨s.2, s'.2, Layout.start?_eq_some hstarts hs, Layout.start?_eq_some hstarts hs', hlt⟩
  · intro hlink
    exact hall (BlockGraph.exists_link_iff.1 hlink)

/-- A loop whose body leads back to it once more, and behind it a block that leads nowhere. -/
def BlockGraph.tangled : BlockGraph where
  blocks := #[
    ⟨0, #[], .loop "go" 1, some 2⟩,
    ⟨1, #[.print .int "n"], .straight, some 0⟩,
    ⟨2, #[], .straight, some 7⟩,
    ⟨3, #[], .straight, some 2⟩]

/-- The layout is refused in the body, and the dump goes on behind the loop. -/
theorem dump_continues_layout_tangled :
    BlockGraph.tangled.dump =
        "block 0 (loop) test=go body=1 next=2\n" ++
        "block 1 (straight) next=0\n" ++
        "    print_int n\n" ++
        "block 2 (straight) next=7\n" ++
        "block 7: <missing>\n" ∧
      BlockGraph.tangled.dumpLines.countP (heads 3) ≠ 1 ∧ ¬ BlockGraph.tangled.Reachable 3 ∧
      BlockGraph.tangled.link = .error (.blockRevisited 0) ∧
      (∀ id, (∃ a, BlockGraph.tangled.blockStart? id = some a) → id ∈ [0, 1]) ∧
      ∃ order, order <+: [0, 1, 2] ∧
        ∀ id, id ∈ order ↔ ∃ a, BlockGraph.tangled.blockStart? id = some a := by
  have hheaders : DumpEntry.headers BlockGraph.tangled.entries = [0, 1, 2] := by decide +kernel
  have hblocks : BlockGraph.tangled.layout.1.blocks = [0, 1] := by decide +kernel
  have hnone : BlockGraph.tangled.dumpLines.countP (heads 3) ≠ 1 := by decide +kernel
  obtain ⟨-, hdump, -, hcount, -, -, order, hmem, -, hprefix, -⟩ := dump_continues_layout .tangled
  rw [hheaders] at hprefix
  refine ⟨?_, hnone, fun hreach => hnone ((hcount 3).2.2 ⟨hreach, rfl⟩), by decide +kernel,
    fun id hid => ?_, order, hprefix, hmem⟩
  · rw [hdump]
    decide +kernel
  · rw [← hblocks]
    exact BlockGraph.mem_blocks_layout_iff.2 hid

end ThreeAddress
