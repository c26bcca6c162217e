import ThreeAddress.Proofs.Layout.Labels
import ThreeAddress.Proofs.Layout.Segments
import ThreeAddress.Proofs.Machine.Trace

set_option autoImplicit false

/-! # Control flow of linked programs

The code of a chain is the code of its first block, which is followed by the pieces that the chain
leads to and by jumps and branches that join them (`Chain.pieces`, `Chain.joints`). The code of the
first block leads from each place to the next one, the joints lead to where pieces begin, and the
code of a piece never leads out of the piece and the place behind it (`Chain.Placed.leads_within`).
So control flow within a linked program is known from the chain alone.

Only a joint that closes the body of a loop leads backwards. -/

namespace ThreeAddress

namespace Chain

/-! ## Pieces and joints -/

/-- The chains that a chain leads to, with the addresses where they start if it starts at `base`. -/
def pieces : Chain → Nat → List (Chain × Nat)
  | last _ _, _ => []
  | link _ code rest, base => [(rest, base + code.length + 1)]
  | cond _ code _ arm rest, base =>
    let inner := base + code.length + 1
    [(arm, inner), (rest, inner + arm.size + 1)]
  | condElse _ code _ thenArm elseArm rest, base =>
    let inner := base + code.length + 1
    let middle := inner + thenArm.size + 1
    [(thenArm, inner), (elseArm, middle), (rest, middle + elseArm.size + 1)]
  | loop _ code _ body rest, base =>
    let inner := base + code.length + 1
    [(body, inner), (rest, inner + body.size + 1)]

/-- The addresses of the jumps and branches between the pieces of a chain, each with an address that
    it leads to: first what leaves the first block, then what stands behind the arms or the body. -/
def joints : Chain → Nat → List (Nat × Nat)
  | last _ _, _ => []
  | link _ code _, base => [(base + code.length, base + code.length + 1)]
  | cond _ code _ arm _, base =>
    let inner := base + code.length + 1
    let outer := inner + arm.size + 1
    [(base + code.length, inner), (base + code.length, outer), (inner + arm.size, outer)]
  | condElse _ code _ thenArm elseArm _, base =>
    let inner := base + code.length + 1
    let middle := inner + thenArm.size + 1
    let outer := middle + elseArm.size + 1
    [(base + code.length, inner), (base + code.length, middle), (inner + thenArm.size, outer),
      (middle + elseArm.size, outer)]
  | loop _ code _ body _, base =>
    let inner := base + code.length + 1
    [(base + code.length, inner), (base + code.length, inner + body.size + 1),
      (inner + body.size, base)]

/-- The chain `c'` at `base'` is what the chain `c` at `base` becomes somewhere within it. -/
inductive Part (c : Chain) (base : Nat) : Chain → Nat → Prop
  | self : Part c base c base
  | piece {c' d : Chain} {base' b : Nat} (h : Part c base c' base')
      (hmem : (d, b) ∈ c'.pieces base') : Part c base d b

variable {g : BlockGraph} {p : Program} {c d d' : Chain} {base b b' : Nat}

theorem mem_pieces_link {id : BlockId} {code : List Instr} {rest : Chain} :
    (d, b) ∈ (link id code rest).pieces base ↔ d = rest ∧ b = base + code.length + 1 := by
  simp [pieces]

theorem mem_pieces_cond {id : BlockId} {code : List Instr} {test : String} {arm rest : Chain} :
    (d, b) ∈ (cond id code test arm rest).pieces base ↔
      d = arm ∧ b = base + code.length + 1 ∨
      d = rest ∧ b = base + code.length + 1 + arm.size + 1 := by
  simp [pieces]

theorem mem_pieces_condElse {id : BlockId} {code : List Instr} {test : String}
    {thenArm elseArm rest : Chain} :
    (d, b) ∈ (condElse id code test thenArm elseArm rest).pieces base ↔
      d = thenArm ∧ b = base + code.length + 1 ∨
      d = elseArm ∧ b = base + code.length + 1 + thenArm.size + 1 ∨
      d = rest ∧ b = base + code.length + 1 + thenArm.size + 1 + elseArm.size + 1 := by
  simp [pieces]

theorem mem_pieces_loop {id : BlockId} {code : List Instr} {test : String} {body rest : Chain} :
    (d, b) ∈ (loop id code test body rest).pieces base ↔
      d = body ∧ b = base + code.length + 1 ∨
      d = rest ∧ b = base + code.length + 1 + body.size + 1 := by
  simp [pieces]

/-- What holds of a chain if it holds of its pieces holds of all chains. -/
theorem induction_pieces {motive : Chain → Nat → Prop}
    (h : ∀ c base, (∀ d b, (d, b) ∈ c.pieces base → motive d b) → motive c base) (c : Chain)
    (base : Nat) : motive c base := by
  induction c generalizing base with
  | last id code => exact h _ _ (by simp [pieces])
  | link id code rest ih => exact h _ _ (by grind [mem_pieces_link])
  | cond id code test arm rest iha ihr => exact h _ _ (by grind [mem_pieces_cond])
  | condElse id code test thenArm elseArm rest iht ihe ihr =>
      exact h _ _ (by grind [mem_pieces_condElse])
  | loop id code test body rest ihb ihr => exact h _ _ (by grind [mem_pieces_loop])

/-- Pieces stand behind the code of the first block. -/
theorem bounds_of_mem_pieces (h : (d, b) ∈ c.pieces base) :
    base + c.code.length < b ∧ b + d.size ≤ base + c.size := by
  cases c with
  | last => cases h
  | link => grind [mem_pieces_link, code, size_link]
  | cond => grind [mem_pieces_cond, code, size_cond]
  | condElse => grind [mem_pieces_condElse, code, size_condElse]
  | loop => grind [mem_pieces_loop, code, size_loop]

/-- Between two pieces there is at least one place. -/
theorem separated_of_mem_pieces (h : (d, b) ∈ c.pieces base) (h' : (d', b') ∈ c.pieces base) :
    (d = d' ∧ b = b') ∨ b + d.size < b' ∨ b' + d'.size < b := by
  cases c with
  | last => cases h
  | link => grind [mem_pieces_link]
  | cond => grind [mem_pieces_cond]
  | condElse => grind [mem_pieces_condElse]
  | loop => grind [mem_pieces_loop]

/-- A joint stands behind the code of the first block and outside all pieces. -/
theorem bounds_of_mem_joints {x y : Nat} (h : (x, y) ∈ c.joints base) :
    base + c.code.length ≤ x ∧ x < base + c.size ∧
      ∀ d b, (d, b) ∈ c.pieces base → x < b ∨ b + d.size ≤ x := by
  cases c with
  | last => cases h
  | link => grind [joints, mem_pieces_link, code, size_link]
  | cond => grind [joints, mem_pieces_cond, code, size_cond]
  | condElse => grind [joints, mem_pieces_condElse, code, size_condElse]
  | loop => grind [joints, mem_pieces_loop, code, size_loop]

/-- A joint leads to where a piece begins, or back to the beginning of the chain. -/
theorem target_of_mem_joints {x y : Nat} (h : (x, y) ∈ c.joints base) :
    y = base ∨ ∃ d, (d, y) ∈ c.pieces base := by
  cases c with
  | last => cases h
  | _ => grind [joints, pieces]

/-- The address of the jump that closes the body of a loop. -/
def back? : Chain → Nat → Option Nat
  | loop _ code _ body _, base => some (base + code.length + 1 + body.size)
  | _, _ => none

theorem lt_or_back_of_mem_joints {x y : Nat} (h : (x, y) ∈ c.joints base) :
    x < y ∨ c.back? base = some x ∧ y = base := by
  cases c with
  | last => cases h
  | _ => grind [joints, back?]

/-! ## What pieces inherit -/

theorem Placed.piece (h : c.Placed g p base) (hmem : (d, b) ∈ c.pieces base) : d.Placed g p b := by
  cases c with
  | last => cases hmem
  | link =>
      obtain ⟨rfl, rfl⟩ := mem_pieces_link.1 hmem
      exact h.link.2.1
  | cond =>
      obtain ⟨-, harm, -, hrest, -⟩ := h.cond
      rcases mem_pieces_cond.1 hmem with ⟨rfl, rfl⟩ | ⟨rfl, rfl⟩
      · exact harm
      · exact hrest
  | condElse =>
      obtain ⟨-, hthen, -, helse, -, hrest, -⟩ := h.condElse
      rcases mem_pieces_condElse.1 hmem with ⟨rfl, rfl⟩ | ⟨rfl, rfl⟩ | ⟨rfl, rfl⟩
      · exact hthen
      · exact helse
      · exact hrest
  | loop =>
      obtain ⟨-, hbody, -, hrest, -⟩ := h.loop
      rcases mem_pieces_loop.1 hmem with ⟨rfl, rfl⟩ | ⟨rfl, rfl⟩
      · exact hbody
      · exact hrest

theorem Fits.piece (h : c.Fits g) (hmem : (d, b) ∈ c.pieces base) : d.Fits g := by
  cases c with
  | last => cases hmem
  | link =>
      obtain ⟨rfl, -⟩ := mem_pieces_link.1 hmem
      exact h.2
  | cond =>
      rcases mem_pieces_cond.1 hmem with ⟨rfl, -⟩ | ⟨rfl, -⟩
      · exact h.2.1
      · exact h.2.2
  | condElse =>
      rcases mem_pieces_condElse.1 hmem with ⟨rfl, -⟩ | ⟨rfl, -⟩ | ⟨rfl, -⟩
      · exact h.2.1
      · exact h.2.2.1
      · exact h.2.2.2
  | loop =>
      rcases mem_pieces_loop.1 hmem with ⟨rfl, -⟩ | ⟨rfl, -⟩
      · exact h.2.1
      · exact h.2.2

theorem mem_instrs_iff {i : Instr} (base : Nat) :
    i ∈ c.instrs ↔ i ∈ c.code ∨ ∃ d b, (d, b) ∈ c.pieces base ∧ i ∈ d.instrs := by
  cases c <;> simp [instrs, code, pieces, or_and_right, exists_or]

theorem mem_blocks_iff {id : BlockId} (base : Nat) :
    id ∈ c.blocks ↔ id = c.first ∨ ∃ d b, (d, b) ∈ c.pieces base ∧ id ∈ d.blocks := by
  cases c <;> simp [blocks, first, pieces, or_and_right, exists_or]

/-- The instructions of the blocks are no jumps. -/
def Plain (c : Chain) : Prop := ∀ i ∈ c.instrs, i.isJump = false

theorem Plain.piece (h : c.Plain) (hmem : (d, b) ∈ c.pieces base) : d.Plain :=
  fun i hi => h i ((mem_instrs_iff base).2 (.inr ⟨d, b, hmem, hi⟩))

namespace Part

theorem of_piece (hmem : (d, b) ∈ c.pieces base) (h : Part d b d' b') : Part c base d' b' := by
  induction h with
  | self => exact .piece .self hmem
  | piece _ hmem' ih => exact ih.piece hmem'

/-- What a chain hands on to its pieces, all its parts have. -/
theorem inherit {motive : Chain → Nat → Prop}
    (hpiece : ∀ c base d b, motive c base → (d, b) ∈ c.pieces base → motive d b)
    (hpart : Part c base d b) (h : motive c base) : motive d b := by
  induction hpart with
  | self => exact h
  | piece _ hmem ih => exact hpiece _ _ _ _ ih hmem

theorem placed (hpart : Part c base d b) (h : c.Placed g p base) : d.Placed g p b :=
  hpart.inherit (motive := fun d b => d.Placed g p b) (fun _ _ _ _ h hmem => h.piece hmem) h

theorem fits (hpart : Part c base d b) (h : c.Fits g) : d.Fits g :=
  hpart.inherit (motive := fun d _ => d.Fits g) (fun _ _ _ _ h hmem => h.piece hmem) h

theorem blocks_subset (hpart : Part c base d b) : d.blocks ⊆ c.blocks := by
  induction hpart with
  | self => exact List.Subset.refl _
  | piece _ hmem ih => exact fun id hid => ih ((mem_blocks_iff _).2 (.inr ⟨_, _, hmem, hid⟩))

end Part

/-- Every block begins a part. -/
theorem exists_part {id : BlockId} (hid : id ∈ c.blocks) (base : Nat) :
    ∃ d b, Part c base d b ∧ d.first = id := by
  induction c, base using induction_pieces with
  | h c base ih =>
      rcases (mem_blocks_iff base).1 hid with rfl | ⟨d, b, hmem, hid⟩
      · exact ⟨c, base, .self, rfl⟩
      · obtain ⟨d', b', hpart, hfirst⟩ := ih d b hmem hid
        exact ⟨d', b', hpart.of_piece hmem, hfirst⟩

/-! ## The form of a chain -/

/-- The kind of the first block, which tells the form of the chain. -/
def kind : Chain → BlockKind
  | last _ _ | link _ _ _ => .straight
  | cond _ _ test arm _ => .conditional test arm.first none
  | condElse _ _ test thenArm elseArm _ => .conditional test thenArm.first (some elseArm.first)
  | loop _ _ test body _ => .loop test body.first

theorem Fits.kind_eq (h : c.Fits g) {block : Block} (hb : g.block? c.first = some block) :
    block.kind = c.kind := by
  cases c with
  | last =>
      obtain ⟨block', hb', -, hkind, -⟩ := h
      cases hb.symm.trans hb'
      exact hkind
  | link | cond | condElse | loop =>
      obtain ⟨⟨block', hb', -, hkind, -⟩, -⟩ := h
      cases hb.symm.trans hb'
      exact hkind

theorem exists_cond_of_kind {test : String} {inner : BlockId}
    (h : c.kind = .conditional test inner none) :
    ∃ id code arm rest, c = .cond id code test arm rest ∧ arm.first = inner := by
  cases c <;> cases h
  exact ⟨_, _, _, _, rfl, rfl⟩

theorem exists_condElse_of_kind {test : String} {inner other : BlockId}
    (h : c.kind = .conditional test inner (some other)) :
    ∃ id code thenArm elseArm rest, c = .condElse id code test thenArm elseArm rest ∧
      thenArm.first = inner ∧ elseArm.first = other := by
  cases c <;> cases h
  exact ⟨_, _, _, _, _, rfl, rfl, rfl⟩

theorem exists_loop_of_kind {test : String} {inner : BlockId} (h : c.kind = .loop test inner) :
    ∃ id code body rest, c = .loop id code test body rest ∧ body.first = inner := by
  cases c <;> cases h
  exact ⟨_, _, _, _, rfl, rfl⟩

/-! ## Where the code of a chain leads -/

section Leads

variable {x y : Nat}

theorem Placed.leads_code (h : c.Placed g p base) (hplain : c.Plain) (hle : base ≤ x)
    (hlt : x < base + c.code.length) (hlead : p.Leads x y) : y = x + 1 := by
  obtain ⟨k, rfl⟩ := Nat.le.dest hle
  have hk : k < c.code.length := by omega
  have hi := h.code k _ (List.getElem?_eq_getElem hk)
  have hnot := hplain _ ((mem_instrs_iff base).2 (.inl (List.getElem_mem hk)))
  exact (Program.leads_iff_of_plain hi hnot).1 hlead

/-- A place of a chain belongs to the code of the first block, is a joint, or lies within a piece.
    The code of the first block leads to the next place, and the joints to where they say. -/
theorem Placed.leads_cases (h : c.Placed g p base) (hplain : c.Plain) (hle : base ≤ x)
    (hlt : x < base + c.size) (hlead : p.Leads x y) :
    (x < base + c.code.length ∧ y = x + 1) ∨ (x, y) ∈ c.joints base ∨
      ∃ d b, (d, b) ∈ c.pieces base ∧ b ≤ x ∧ x < b + d.size := by
  by_cases hcode : x < base + c.code.length
  · exact .inl ⟨hcode, h.leads_code hplain hle hcode hlead⟩
  refine .inr ?_
  cases c with
  | last id code =>
      rw [size_last] at hlt
      exact absurd hlt hcode
  | link id code rest =>
      obtain ⟨hjump, hrest, hsize⟩ := h.link
      rw [hrest.origin_first] at hjump
      replace hcode : ¬ x < base + code.length := hcode
      by_cases hexit : x = base + code.length
      · subst hexit
        rw [Program.leads_iff_of_jump hjump] at hlead
        exact .inl (by simp [joints, hlead])
      · exact .inr ⟨rest, base + code.length + 1, by simp [pieces], by omega, by omega⟩
  | cond id code test arm rest =>
      obtain ⟨hbranch, harm, hjump, hrest, hsize⟩ := h.cond
      rw [hrest.origin_first] at hbranch hjump
      rw [harm.origin_first] at hbranch
      replace hcode : ¬ x < base + code.length := hcode
      by_cases hexit : x = base + code.length
      · subst hexit
        rcases (Program.leads_iff_of_branch hbranch).1 hlead with rfl | rfl
        · exact .inl (by simp [joints])
        · exact .inl (by simp [joints])
      by_cases hin : x < base + code.length + 1 + arm.size
      · exact .inr ⟨arm, base + code.length + 1, by simp [pieces], by omega, hin⟩
      by_cases hclose : x = base + code.length + 1 + arm.size
      · subst hclose
        rw [Program.leads_iff_of_jump hjump] at hlead
        exact .inl (by simp [joints, hlead])
      · exact .inr ⟨rest, base + code.length + 1 + arm.size + 1, by simp [pieces], by omega,
          by omega⟩
  | condElse id code test thenArm elseArm rest =>
      obtain ⟨hbranch, hthen, hjump, helse, hjump', hrest, hsize⟩ := h.condElse
      rw [hrest.origin_first] at hjump hjump'
      rw [hthen.origin_first, helse.origin_first] at hbranch
      replace hcode : ¬ x < base + code.length := hcode
      by_cases hexit : x = base + code.length
      · subst hexit
        rcases (Program.leads_iff_of_branch hbranch).1 hlead with rfl | rfl
        · exact .inl (by simp [joints])
        · exact .inl (by simp [joints])
      by_cases hin : x < base + code.length + 1 + thenArm.size
      · exact .inr ⟨thenArm, base + code.length + 1, by simp [pieces], by omega, hin⟩
      by_cases hclose : x = base + code.length + 1 + thenArm.size
      · subst hclose
        rw [Program.leads_iff_of_jump hjump] at hlead
        exact .inl (by simp [joints, hlead])
      by_cases hin' : x < base + code.length + 1 + thenArm.size + 1 + elseArm.size
      · exact .inr ⟨elseArm, base + code.length + 1 + thenArm.size + 1, by simp [pieces],
          by omega, hin'⟩
      by_cases hclose' : x = base + code.length + 1 + thenArm.size + 1 + elseArm.size
      · subst hclose'
        rw [Program.leads_iff_of_jump hjump'] at hlead
        exact .inl (by simp [joints, hlead])
      · exact .inr ⟨rest, base + code.length + 1 + thenArm.size + 1 + elseArm.size + 1,
          by simp [pieces], by omega, by omega⟩
  | loop id code test body rest =>
      have horigin : g.origin id = base := h.origin_first
      obtain ⟨hbranch, hbody, hjump, hrest, hsize⟩ := h.loop
      rw [hbody.origin_first, hrest.origin_first] at hbranch
      rw [horigin] at hjump
      replace hcode : ¬ x < base + code.length := hcode
      by_cases hexit : x = base + code.length
      · subst hexit
        rcases (Program.leads_iff_of_branch hbranch).1 hlead with rfl | rfl
        · exact .inl (by simp [joints])
        · exact .inl (by simp [joints])
      by_cases hin : x < base + code.length + 1 + body.size
      · exact .inr ⟨body, base + code.length + 1, by simp [pieces], by omega, hin⟩
      by_cases hclose : x = base + code.length + 1 + body.size
      · subst hclose
        rw [Program.leads_iff_of_jump hjump] at hlead
        exact .inl (by simp [joints, hlead])
      · exact .inr ⟨rest, base + code.length + 1 + body.size + 1, by simp [pieces], by omega,
          by omega⟩

/-- The code of a chain leads to places of the chain and to the one behind it only. -/
theorem Placed.leads_within (h : c.Placed g p base) (hplain : c.Plain) (hle : base ≤ x)
    (hlt : x < base + c.size) (hlead : p.Leads x y) : base ≤ y ∧ y ≤ base + c.size := by
  induction c, base using induction_pieces with
  | h c base ih =>
      rcases h.leads_cases hplain hle hlt hlead with
        ⟨hcode, rfl⟩ | hjoint | ⟨d, b, hmem, hle', hlt'⟩
      · omega
      · rcases target_of_mem_joints hjoint with rfl | ⟨d, hmem⟩
        · omega
        · have := bounds_of_mem_pieces hmem
          omega
      · have hwithin := ih d b hmem (h.piece hmem) (hplain.piece hmem) hle' hlt'
        have := bounds_of_mem_pieces hmem
        omega

/-- The code of a chain leads to the beginning of the chain only if that is a loop, and then from
    the end of its body. -/
theorem Placed.back_of_leads (h : c.Placed g p base) (hplain : c.Plain) (hle : base ≤ x)
    (hlt : x < base + c.size) (hlead : p.Leads x base) : c.back? base = some x := by
  rcases h.leads_cases hplain hle hlt hlead with ⟨-, heq⟩ | hjoint | ⟨d, b, hmem, hle', hlt'⟩
  · omega
  · rcases lt_or_back_of_mem_joints hjoint with hlt' | ⟨hback, -⟩
    · omega
    · exact hback
  · have hwithin := (h.piece hmem).leads_within (hplain.piece hmem) hle' hlt' hlead
    have := bounds_of_mem_pieces hmem
    omega

/-- The code of a chain leads forward, except where the body of a loop ends. -/
theorem Placed.lt_or_back (h : c.Placed g p base) (hplain : c.Plain) (hle : base ≤ x)
    (hlt : x < base + c.size) (hlead : p.Leads x y) :
    x < y ∨ ∃ d, Part c base d y ∧ d.back? y = some x := by
  induction c, base using induction_pieces with
  | h c base ih =>
      rcases h.leads_cases hplain hle hlt hlead with ⟨-, rfl⟩ | hjoint | ⟨d, b, hmem, hle', hlt'⟩
      · exact .inl (Nat.lt_succ_self x)
      · rcases lt_or_back_of_mem_joints hjoint with hlt' | ⟨hback, rfl⟩
        · exact .inl hlt'
        · exact .inr ⟨c, .self, hback⟩
      · have hpiece := ih d b hmem (h.piece hmem) (hplain.piece hmem) hle' hlt'
        rcases hpiece with hlt | ⟨d', hpart, hback⟩
        · exact .inl hlt
        · exact .inr ⟨d', hpart.of_piece hmem, hback⟩

/-- The same for a program that consists of the chain. -/
theorem Placed.lt_or_back_of_size_eq (h : c.Placed g p 0) (hsize : p.size = c.size)
    (hplain : c.Plain) (hlead : p.Leads x y) :
    x < y ∨ ∃ d, Part c 0 d y ∧ d.back? y = some x := by
  have hlt : x < 0 + c.size := by
    rw [Nat.zero_add, ← hsize]
    exact hlead.lt_size
  exact h.lt_or_back hplain (Nat.zero_le x) hlt hlead

end Leads

end Chain

/-! ## The loops of a linked program -/

/-- The address `a` holds the closing jump of the loop `id`: it stands behind the body, right in
    front of the block where the loop is left to, and leads back to the start of the loop. -/
structure BlockGraph.LoopsBack (g : BlockGraph) (p : Program) (id : BlockId) (a start : Nat) :
    Prop where
  loop : ∃ b test body exit, g.block? id = some b ∧ b.kind = .loop test body ∧
    b.next = some exit ∧ g.blockStart? exit = some (a + 1)
  blockStart? : g.blockStart? id = some start
  lt : start < a
  jump : p.code[a]? = some (.jump (.address start))

theorem Instr.isJump_of_mem_labels {i : Instr} {label : Label} (h : label ∈ i.labels) :
    i.isJump = true := by
  cases i with
  | jump | branch => rfl
  | _ => cases h

theorem Chain.exists_loop_of_back? {c : Chain} {base a : Nat} (h : c.back? base = some a) :
    ∃ id code test body rest, c = .loop id code test body rest ∧
      base + code.length + 1 + body.size = a := by
  cases c with
  | loop id code test body rest => exact ⟨id, code, test, body, rest, rfl, Option.some.inj h⟩
  | _ => cases h

namespace BlockGraph

variable {g : BlockGraph} {p : Program} {c d : Chain} {id id' : BlockId} {a a' start : Nat}

/-- A loop has one closing jump at most. -/
theorem LoopsBack.unique (h : g.LoopsBack p id a start) (h' : g.LoopsBack p id a' start) :
    a = a' := by
  obtain ⟨b, _, _, exit, hb, -, hnext, hexit⟩ := h.loop
  obtain ⟨b', _, _, exit', hb', -, hnext', hexit'⟩ := h'.loop
  cases hb.symm.trans hb'
  cases hnext.symm.trans hnext'
  exact Nat.succ.inj (Option.some.inj (hexit.symm.trans hexit'))

/-- Different blocks have different starts. -/
theorem Spans.blockStart?_inj (hspans : g.Spans c) (hplaced : c.Placed g p 0)
    (h : g.blockStart? id = some a) (h' : g.blockStart? id' = some a) : id = id' := by
  obtain ⟨hid, horigin⟩ := (blockStart?_eq_some_iff hspans).1 h
  obtain ⟨hid', horigin'⟩ := (blockStart?_eq_some_iff hspans).1 h'
  have hnodup : (c.blocks.map g.origin).Nodup := by
    rw [List.nodup_iff_pairwise_ne, List.pairwise_map]
    exact (hplaced.pairwise hspans.fits).imp fun hprecedes => Nat.ne_of_lt hprecedes.1
  exact List.inj_on_of_nodup_map hnodup hid hid' (horigin.trans horigin'.symm)

/-- The closing jumps of the parts are those of the loops. -/
theorem Spans.loopsBack (hspans : g.Spans c) (hplaced : c.Placed g p 0)
    (hpart : c.Part 0 d start) (hback : d.back? start = some a) :
    g.LoopsBack p d.first a start := by
  obtain ⟨id, code, test, body, rest, rfl, rfl⟩ := Chain.exists_loop_of_back? hback
  have hloop := hpart.placed hplaced
  have horigin : g.origin id = start := hloop.origin_first
  obtain ⟨-, -, hjump, hrest, -⟩ := hloop.loop
  obtain ⟨⟨b, hb, -, hkind, hnext⟩, -⟩ := hpart.fits hspans.fits
  have hid : id ∈ c.blocks := hpart.blocks_subset (Chain.first_mem_blocks _)
  have hexit : rest.first ∈ c.blocks :=
    hpart.blocks_subset (by simp [Chain.blocks, Chain.first_mem_blocks])
  rw [horigin] at hjump
  refine ⟨⟨b, test, body.first, rest.first, hb, hkind, hnext, ?_⟩, ?_, by omega, hjump⟩
  · rw [(blockStart?_eq_origin hspans hexit).1, hrest.origin_first]
  · exact horigin ▸ (blockStart?_eq_origin hspans hid).1

/-- Every loop that is laid out has a closing jump. -/
theorem Spans.exists_loopsBack (hspans : g.Spans c) (hplaced : c.Placed g p 0) {b : Block}
    {test : String} {body : BlockId} (hb : g.block? id = some b) (hkind : b.kind = .loop test body)
    (hstart : g.blockStart? id = some start) : ∃ a, g.LoopsBack p id a start := by
  obtain ⟨hid, rfl⟩ := (blockStart?_eq_some_iff hspans).1 hstart
  obtain ⟨d, start, hpart, rfl⟩ := c.exists_part hid 0
  have horigin := (hpart.placed hplaced).origin_first
  rw [(hpart.fits hspans.fits).kind_eq hb] at hkind
  obtain ⟨id, code, body, rest, rfl, -⟩ := Chain.exists_loop_of_kind hkind
  exact ⟨_, horigin ▸ hspans.loopsBack hplaced hpart rfl⟩

end BlockGraph

end ThreeAddress
