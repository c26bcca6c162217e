import ThreeAddress.Proofs.Layout.Chain
import ThreeAddress.Proofs.Lowering.Emission

set_option autoImplicit false

/-! # The shape of lowered statements

Lowering builds a graph by mutation: it opens blocks, moves between them and wires them up
afterwards. What comes out is nevertheless determined by the statements and by where lowering
stands when it begins, its `Cursor`. `Shapes` gives the chain of blocks that the statements become,
and `builds` says that lowering them builds exactly this chain: the current block is always the last
one of its chain, everything laid out before is left alone, and the blocks of an arm or a body are
finished once lowering leaves it. -/

namespace ThreeAddress.Source

/-! ## Cursors -/

/-- Where lowering stands: the current block and its code so far, the temporaries, and the number
    of blocks. -/
structure Cursor where
  block : BlockId
  code : List Instr
  temporaries : Temporaries
  size : Nat

namespace Cursor

/-- Behind more code in the same block. -/
def grow {α : Type} (k : Cursor) (e : Emission α) : Cursor :=
  { k with code := k.code ++ e.code, temporaries := e.temporaries }

/-- At the beginning of a new block. -/
def fresh (k : Cursor) : Cursor :=
  { k with block := k.size, code := [], size := k.size + 1 }

/-- Behind the condition of a conditional or a loop, in a block of its own. -/
def header (k : Cursor) (condition : Expr) : Cursor := k.fresh.grow (condition.emit k.temporaries)

end Cursor

/-- The cursor in the graph of one empty block. -/
def Cursor.initial : Cursor := ⟨0, [], {}, 1⟩

/-! ## Shapes -/

/-- The chain that statements become if their lowering starts at one cursor, and the cursor at which
    it ends. The chain starts with the current block, the code in front of the cursor included. -/
inductive Shapes : List Stmt → Cursor → Chain → Cursor → Prop
  | nil (k : Cursor) : Shapes [] k (.last k.block k.code) k
  | flat {s : Stmt} {rest : List Stmt} {k k' : Cursor} {c : Chain} (hs : s.isFlat = true)
      (hrest : Shapes rest (k.grow (s.emit k.temporaries)) c k') : Shapes (s :: rest) k c k'
  | cond {line : UInt64} {condition : Expr} {thenBranch rest : List Stmt} {k k₁ k' : Cursor}
      {arm c : Chain} (hthen : Shapes thenBranch (k.header condition).fresh arm k₁)
      (hrest : Shapes rest k₁.fresh c k') :
      Shapes (.cond line condition thenBranch none :: rest) k
        (.link k.block k.code (.cond k.size (condition.emit k.temporaries).code
          (condition.emit k.temporaries).value arm c)) k'
  | condElse {line : UInt64} {condition : Expr} {thenBranch elseBranch rest : List Stmt}
      {k k₁ k₂ k' : Cursor} {thenArm elseArm c : Chain}
      (hthen : Shapes thenBranch (k.header condition).fresh thenArm k₁)
      (helse : Shapes elseBranch k₁.fresh elseArm k₂) (hrest : Shapes rest k₂.fresh c k') :
      Shapes (.cond line condition thenBranch (some elseBranch) :: rest) k
        (.link k.block k.code (.condElse k.size (condition.emit k.temporaries).code
          (condition.emit k.temporaries).value thenArm elseArm c)) k'
  | loop {line : UInt64} {condition : Expr} {stmts rest : List Stmt} {k k₁ k' : Cursor}
      {body c : Chain} (hbody : Shapes stmts (k.header condition).fresh body k₁)
      (hrest : Shapes rest k₁.fresh c k') :
      Shapes (.loop line condition stmts :: rest) k
        (.link k.block k.code (.loop k.size (condition.emit k.temporaries).code
          (condition.emit k.temporaries).value body c)) k'

namespace Shapes

variable {stmts : List Stmt} {k k' : Cursor} {c : Chain}

theorem first_eq (h : Shapes stmts k c k') : c.first = k.block := by
  induction h with
  | flat hs hrest ih => exact ih
  | _ => rfl

/-- From a new block on, the blocks of a chain are those with the next numbers. -/
theorem perm_of_fresh
    (h : ∃ n, k'.size = k.fresh.size + n ∧
      c.blocks.Perm (k.fresh.block :: List.range' k.fresh.size n)) :
    ∃ n, k'.size = k.size + n ∧ c.blocks.Perm (List.range' k.size n) := by
  obtain ⟨n, hn, hp⟩ := h
  refine ⟨n + 1, by rw [hn, Cursor.fresh, Nat.add_assoc, Nat.add_comm n], ?_⟩
  rw [List.range'_succ]
  exact hp

/-- The blocks of the chain are the current block and the new ones, each of them once. -/
theorem blocks_perm (h : Shapes stmts k c k') :
    ∃ n, k'.size = k.size + n ∧ c.blocks.Perm (k.block :: List.range' k.size n) := by
  induction h with
  | nil k => exact ⟨0, rfl, .refl _⟩
  | flat hs hrest ih => exact ih
  | @cond line condition thenBranch rest k k₁ k' arm c hthen hrest iht ihr =>
      obtain ⟨n₁, hn₁, hp₁⟩ := perm_of_fresh iht
      obtain ⟨n₂, hn₂, hp₂⟩ := perm_of_fresh ihr
      replace hn₁ : k₁.size = k.size + 1 + n₁ := hn₁
      -- the header comes first, then the region, then the blocks behind the join
      refine ⟨n₁ + n₂ + 1, by omega, ?_⟩
      rw [List.range'_succ, ← List.range'_append_1, ← hn₁]
      exact ((hp₁.append hp₂).cons _).cons _
  | @condElse line condition thenBranch elseBranch rest k k₁ k₂ k' thenArm elseArm c hthen helse
      hrest iht ihe ihr =>
      obtain ⟨n₁, hn₁, hp₁⟩ := perm_of_fresh iht
      obtain ⟨n₂, hn₂, hp₂⟩ := perm_of_fresh ihe
      obtain ⟨n₃, hn₃, hp₃⟩ := perm_of_fresh ihr
      replace hn₁ : k₁.size = k.size + 1 + n₁ := hn₁
      refine ⟨n₁ + (n₂ + n₃) + 1, by omega, ?_⟩
      rw [List.range'_succ, ← List.range'_append_1, ← hn₁, ← List.range'_append_1, ← hn₂]
      exact ((hp₁.append (hp₂.append hp₃)).cons _).cons _
  | @loop line condition stmts rest k k₁ k' body c hbody hrest ihb ihr =>
      obtain ⟨n₁, hn₁, hp₁⟩ := perm_of_fresh ihb
      obtain ⟨n₂, hn₂, hp₂⟩ := perm_of_fresh ihr
      replace hn₁ : k₁.size = k.size + 1 + n₁ := hn₁
      refine ⟨n₁ + n₂ + 1, by omega, ?_⟩
      rw [List.range'_succ, ← List.range'_append_1, ← hn₁]
      exact ((hp₁.append hp₂).cons _).cons _

theorem size_le (h : Shapes stmts k c k') : k.size ≤ k'.size := by
  obtain ⟨n, hn, -⟩ := h.blocks_perm
  omega

theorem block_bounds (h : Shapes stmts k c k') {id : BlockId} (hid : id ∈ c.blocks) :
    id = k.block ∨ k.size ≤ id ∧ id < k'.size := by
  obtain ⟨n, hn, hp⟩ := h.blocks_perm
  rcases List.mem_cons.1 (hp.mem_iff.1 hid) with hid | hid
  · exact .inl hid
  · rw [List.mem_range'_1] at hid
    exact .inr ⟨hid.1, hn ▸ hid.2⟩

/-- From a new block on, a chain has new blocks only. -/
theorem region_bounds (h : Shapes stmts k.fresh c k') {id : BlockId} (hid : id ∈ c.blocks) :
    k.size ≤ id ∧ id < k'.size := by
  rcases h.block_bounds hid with rfl | ⟨hle, hlt⟩
  · exact ⟨Nat.le_refl _, h.size_le⟩
  · exact ⟨Nat.le_of_succ_le hle, hlt⟩

variable {condition : Expr}

theorem header_lt (h : Shapes stmts (k.header condition).fresh c k') : k.size < k'.size :=
  Nat.le_of_succ_le h.size_le

theorem not_mem_header (h : Shapes stmts (k.header condition).fresh c k') : k.size ∉ c.blocks :=
  fun hid => Nat.lt_irrefl _ (h.region_bounds hid).1

theorem not_mem_join (h : Shapes stmts k.fresh c k') {id : BlockId} (hid : k'.size ≤ id) :
    id ∉ c.blocks :=
  fun hmem => Nat.not_le.2 (h.region_bounds hmem).2 hid

end Shapes

end ThreeAddress.Source

namespace ThreeAddress

/-! ## Changes to a graph -/

/-- What a chain says about a graph depends on the blocks of the chain only. -/
theorem Chain.Fits.congr {g g' : BlockGraph} {c : Chain} (h : c.Fits g)
    (hsame : ∀ id ∈ c.blocks, g'.block? id = g.block? id) : c.Fits g' := by
  have hhas {id : BlockId} {code : List Instr} {kind : BlockKind} {next : Option BlockId}
      (hid : g'.block? id = g.block? id) (h : g.Has id code kind next) :
      g'.Has id code kind next := by
    rw [BlockGraph.Has, hid]
    exact h
  induction c with
  | last id code => exact hhas (hsame id (by simp [blocks])) h
  | link id code rest ih =>
      simp only [blocks, List.forall_mem_cons] at hsame
      exact ⟨hhas hsame.1 h.1, ih h.2 hsame.2⟩
  | cond id code test arm rest iha ihr =>
      simp only [blocks, List.forall_mem_cons, List.forall_mem_append] at hsame
      exact ⟨hhas hsame.1 h.1, iha h.2.1 hsame.2.1, ihr h.2.2 hsame.2.2⟩
  | condElse id code test thenArm elseArm rest iht ihe ihr =>
      simp only [blocks, List.forall_mem_cons, List.forall_mem_append] at hsame
      exact ⟨hhas hsame.1 h.1, iht h.2.1 hsame.2.1, ihe h.2.2.1 hsame.2.2.1,
        ihr h.2.2.2 hsame.2.2.2⟩
  | loop id code test body rest ihb ihr =>
      simp only [blocks, List.forall_mem_cons, List.forall_mem_append] at hsame
      exact ⟨hhas hsame.1 h.1, ihb h.2.1 hsame.2.1, ihr h.2.2 hsame.2.2⟩

namespace BlockGraph

variable (g : BlockGraph) (f : Block → Block)

theorem block?_modify (id other : BlockId) :
    (g.modify id f).block? other =
      if id = other then (g.block? other).map f else g.block? other :=
  Array.getElem?_modify

@[simp] theorem size_modify (id : BlockId) : (g.modify id f).size = g.size := by
  simp [modify, size]

@[simp] theorem size_addBlock : g.addBlock.size = g.size + 1 := by
  simp [addBlock, size]

theorem block?_addBlock_self : g.addBlock.block? g.size = some ⟨g.size, #[], .straight, none⟩ := by
  simp [addBlock, block?, size]

theorem block?_addBlock_of_lt {id : BlockId} (h : id < g.size) :
    g.addBlock.block? id = g.block? id := by
  unfold addBlock block?
  rw [Array.getElem?_push_lt h, Array.getElem?_eq_getElem h]

/-- `g'` has all blocks of `g`, and at most the block `touched` is another one. -/
structure Extends (g g' : BlockGraph) (touched : BlockId) : Prop where
  size_le : g.size ≤ g'.size
  start_eq : g'.start = g.start
  block?_eq : ∀ id < g.size, id ≠ touched → g'.block? id = g.block? id

variable {g}
variable {g' g'' : BlockGraph} {touched touched' : BlockId}

/-- Blocks that are new in between may be touched as well. -/
theorem Extends.trans (h : g.Extends g' touched) (h' : g'.Extends g'' touched')
    (htouched : touched' = touched ∨ g.size ≤ touched') : g.Extends g'' touched where
  size_le := Nat.le_trans h.size_le h'.size_le
  start_eq := h'.start_eq.trans h.start_eq
  block?_eq := by
    intro id hid hne
    have hne' : id ≠ touched' := by
      rintro rfl
      rcases htouched with rfl | hle
      · exact hne rfl
      · exact Nat.not_le.2 hid hle
    rw [h'.block?_eq id (Nat.lt_of_lt_of_le hid h.size_le) hne', h.block?_eq id hid hne]

theorem Extends.has (h : g.Extends g' touched) {id : BlockId} {code : List Instr}
    {kind : BlockKind} {next : Option BlockId} (hhas : g.Has id code kind next)
    (hne : id ≠ touched) : g'.Has id code kind next := by
  rw [Has, h.block?_eq id hhas.lt_size hne]
  exact hhas

theorem Extends.fits (h : g.Extends g' touched) {c : Chain} (hc : c.Fits g)
    (hne : touched ∉ c.blocks) : c.Fits g' := by
  refine hc.congr fun id hid => h.block?_eq id (c.lt_size_of_fits hc id hid) ?_
  rintro rfl
  exact hne hid

theorem extends_modify (id : BlockId) : g.Extends (g.modify id f) id where
  size_le := Nat.le_of_eq (g.size_modify f id).symm
  start_eq := rfl
  block?_eq := by
    intro other _ hne
    rw [block?_modify, if_neg hne.symm]

theorem extends_addBlock : g.Extends g.addBlock touched where
  size_le := by simp
  start_eq := rfl
  block?_eq := fun _ hid _ => g.block?_addBlock_of_lt hid

end BlockGraph

/-! ## Steps between blocks -/

/-- Lowering stands at the cursor `k`, behind the code of a straight block without a successor. -/
structure Draft.At (d : Draft) (k : Source.Cursor) : Prop where
  current : d.current = k.block
  block : d.graph.Has k.block k.code .straight none
  temporaries : d.temporaries = k.temporaries
  size : d.graph.size = k.size

theorem Draft.At.block_lt {d : Draft} {k : Source.Cursor} (h : d.At k) : k.block < k.size :=
  h.size ▸ h.block.lt_size

namespace Source.Lowering

open BlockGraph

variable {d : Draft} {k : Cursor}

theorem meets_attempt {step : Draft → Except UnknownBlock Draft} {d' : Draft}
    (h : step d = .ok d') : (attempt step).Meets d true (fun _ d => d = d') := by
  intro line
  unfold attempt
  dsimp only
  rw [h]
  exact ⟨rfl, rfl⟩

theorem meets_moveTo {id : BlockId} (hid : id < d.graph.size) :
    (moveTo id).Meets d true (fun _ d' => d' = { d with current := id }) := by
  apply meets_attempt
  exact Draft.Change.apply_checked (by simpa using hid) _

theorem meets_setNext {source successor : BlockId} (hsource : source < d.graph.size)
    (hsuccessor : successor < d.graph.size) :
    (setNext source successor).Meets d true (fun _ d' =>
      d' = { d with
        graph := d.graph.modify source fun b => { b with next := some successor } }) := by
  apply meets_attempt
  exact Draft.Change.apply_checked (by simp [hsource, hsuccessor]) _

theorem meets_setKind {id : BlockId} {kind : BlockKind} (hid : id < d.graph.size)
    (hkind : ∀ target ∈ kind.branches, target < d.graph.size) :
    (setKind id kind).Meets d true (fun _ d' =>
      d' = { d with graph := d.graph.modify id fun b => { b with kind := kind } }) := by
  apply meets_attempt
  refine Draft.Change.apply_checked ?_ _
  rw [List.forall_mem_append, List.forall_mem_singleton]
  exact ⟨hkind, hid⟩

/-- Going on in a new block leaves all others as they are. -/
theorem meets_enterNew (h : d.At k) :
    enterNew.Meets d true (fun id d' =>
      id = k.size ∧ d'.At k.fresh ∧ d.graph.Extends d'.graph k.size) := by
  unfold enterNew
  refine (meets_emit _ d).andThen ?_
  rintro _ _ ⟨⟩
  refine (meets_moveTo (by simp)).andThen ?_
  rintro _ _ rfl
  refine meets_pure _ _ ⟨h.size, ?_, extends_addBlock⟩
  have hnew := d.graph.block?_addBlock_self
  rw [h.size] at hnew
  exact ⟨h.size, ⟨_, hnew, rfl, rfl, rfl⟩, h.temporaries, by simp [h.size, Cursor.fresh]⟩

/-- Going on in a new block behind the current one makes it the successor. -/
theorem meets_enterNext (h : d.At k) :
    enterNext.Meets d true (fun id d' =>
      id = k.size ∧ d'.At k.fresh ∧ d'.graph.Has k.block k.code .straight (some k.size) ∧
        d.graph.Extends d'.graph k.block) := by
  have hlt : d.current < d.graph.size := h.current ▸ h.block.lt_size
  unfold enterNext
  refine (meets_emit _ d).andThen ?_
  rintro _ _ ⟨⟩
  refine (meets_emit _ _).andThen ?_
  rintro _ _ ⟨⟩
  have hlt' : d.current < d.graph.addBlock.size := by
    rw [size_addBlock]
    exact Nat.lt_succ_of_lt hlt
  refine (meets_setNext hlt' (by simp)).andThen ?_
  rintro _ _ rfl
  refine (meets_moveTo (by simp)).andThen ?_
  rintro _ _ rfl
  obtain ⟨b, hb, hcode, hkind, -⟩ := h.block
  have hne : d.current ≠ d.graph.size := Nat.ne_of_lt hlt
  -- the new block, the number of blocks, the block in front, and all others
  refine meets_pure _ _ ⟨h.size, ⟨h.size, ?_, h.temporaries, ?_⟩, ?_, ?_⟩
  · refine ⟨⟨d.graph.size, #[], .straight, none⟩, ?_, rfl, rfl, rfl⟩
    rw [block?_modify, Cursor.fresh, ← h.size, if_neg hne, block?_addBlock_self]
  · rw [size_modify, size_addBlock, h.size, Cursor.fresh]
  · refine ⟨{ b with next := some d.graph.size }, ?_, hcode, hkind, by rw [h.size]⟩
    rw [block?_modify, if_pos h.current, block?_addBlock_of_lt _ h.block.lt_size, hb]
    rfl
  · rw [← h.current]
    exact extends_addBlock.trans (extends_modify _ _) (.inl rfl)

/-- Finishing a conditional or a loop gives its block a kind and a successor, in which lowering goes
    on. -/
theorem meets_close (h : d.At k) {header : BlockId} {code : List Instr} {kind : BlockKind}
    (hheader : d.graph.Has header code .straight none)
    (hkind : ∀ target ∈ kind.branches, target < k.size) :
    Meets (do
        setKind header kind
        leave header)
      d true (fun _ d' =>
        d'.At k.fresh ∧ d'.graph.Has header code kind (some k.size) ∧
          d.graph.Extends d'.graph header) := by
  have hlt := hheader.lt_size
  have hlt' : header < d.graph.size + 1 := Nat.lt_succ_of_lt hlt
  refine (meets_setKind hlt (fun target ht => h.size ▸ hkind target ht)).andThen ?_
  rintro _ _ rfl
  unfold leave
  refine (meets_emit _ _).andThen ?_
  rintro _ _ ⟨⟩
  refine (meets_setNext (by simpa using hlt') (by simp)).andThen ?_
  rintro _ _ rfl
  refine (meets_moveTo (by simp)).mono ?_
  rintro _ _ rfl
  obtain ⟨b, hb, hcode, -⟩ := hheader
  -- the block behind the join, the header, and all others
  refine ⟨⟨by simp [h.size, Cursor.fresh], ?_, h.temporaries, by simp [h.size, Cursor.fresh]⟩,
    ?_, ?_⟩
  · refine ⟨⟨d.graph.size, #[], .straight, none⟩, ?_, rfl, rfl, rfl⟩
    have hnew := (d.graph.modify header fun b => { b with kind := kind }).block?_addBlock_self
    rw [size_modify] at hnew
    rw [block?_modify, Cursor.fresh, ← h.size, if_neg (Nat.ne_of_lt hlt), hnew]
  · refine ⟨{ b with kind := kind, next := some d.graph.size }, ?_, hcode, rfl, by rw [h.size]⟩
    have hlt₁ : header < (d.graph.modify header fun b => { b with kind := kind }).size := by
      rwa [size_modify]
    simp [block?_modify, block?_addBlock_of_lt _ hlt₁, hb]
  · exact ((extends_modify _ _).trans extends_addBlock (.inl rfl)).trans (extends_modify _ _)
      (.inl rfl)

/-! ## Steps within a block -/

theorem at_emitted {α : Type} (h : d.At k) (e : Emission α) :
    (d.emitted e.code e.temporaries).At (k.grow e) := by
  obtain ⟨b, hb, hcode, hkind, hnext⟩ := h.block
  refine ⟨h.current, ⟨{ b with code := b.code ++ e.code }, ?_, ?_, hkind, hnext⟩, rfl, ?_⟩
  · change (d.graph.modify _ _).block? k.block = _
    rw [block?_modify, if_pos h.current, hb]
    rfl
  · rw [Cursor.grow, ← hcode]
    exact Array.toList_appendList
  · exact (size_modify ..).trans h.size

theorem extends_emitted {α : Type} (h : d.At k) (e : Emission α) :
    d.graph.Extends (d.emitted e.code e.temporaries).graph k.block := by
  rw [← h.current]
  exact extends_modify _ _

/-- The beginning of a conditional or a loop: the condition, in a block of its own. -/
theorem meets_header {β : Type} {construct : Construct} {condition : Expr}
    {f : BlockId → String → Lowering β} {rest : Bool} {post : β → Draft → Prop} (h : d.At k)
    (hf : ∀ d' : Draft, d'.At (k.header condition) →
      d'.graph.Has k.block k.code .straight (some k.size) → d.graph.Extends d'.graph k.block →
      (f k.size (condition.emit k.temporaries).value).Meets d' rest post) :
    Meets (do
        let header ← enterNext
        let _ ← need construct condition.type?
        let test ← condition.lower
        f header test)
      d (condition.decorated && rest) post := by
  rw [← condition.isSome_type?_and_decorated, Bool.and_assoc]
  refine (meets_enterNext h).andThen ?_
  rintro _ _ ⟨rfl, hat, hhas, hext⟩
  refine (meets_need _ _ _).bind ?_
  rintro _ d₁ ⟨-, rfl⟩
  refine (condition.lower_meets _).bind ?_
  rintro _ _ ⟨rfl, rfl⟩
  have hne : k.block ≠ k.fresh.block := Nat.ne_of_lt h.block_lt
  have hext' := extends_emitted hat (condition.emit d₁.temporaries)
  have hat' := at_emitted hat (condition.emit d₁.temporaries)
  rw [hat.temporaries] at hext' hat' ⊢
  exact hf _ hat' (hext'.has hhas hne) (hext.trans hext' (.inr (Nat.le_of_eq h.size)))

end Source.Lowering

/-! ## Statements -/

namespace Source

open Lowering

/-- Between the drafts `d` and `d'`, statements have become the chain that their shape gives. -/
def Built (stmts : List Stmt) (k : Cursor) (d d' : Draft) : Prop :=
  ∃ c k', Shapes stmts k c k' ∧ d'.At k' ∧ c.Fits d'.graph ∧ d.graph.Extends d'.graph k.block

/-- Lowering accepts statements exactly if they are decorated, and builds their chain. -/
def Builds (stmts : List Stmt) : Prop :=
  ∀ (d : Draft) (k : Cursor), d.At k →
    (lowerAll stmts).Meets d (decoratedAll stmts) (fun _ d' => Built stmts k d d')

theorem builds_nil : Builds [] := by
  intro d k h
  unfold lowerAll decoratedAll
  exact meets_pure _ _ ⟨_, k, .nil k, h, h.block, Nat.le_refl _, rfl, fun _ _ _ => rfl⟩

theorem builds_flat {s : Stmt} {rest : List Stmt} (hs : s.isFlat = true) (hrest : Builds rest) :
    Builds (s :: rest) := by
  intro d k h
  unfold lowerAll decoratedAll
  refine (Stmt.lower_meets_of_isFlat hs d).bind ?_
  rintro _ _ ⟨-, rfl⟩
  have hat := at_emitted h (s.emit d.temporaries)
  have hext := extends_emitted h (s.emit d.temporaries)
  rw [h.temporaries] at hat hext ⊢
  refine (hrest _ _ hat).mono ?_
  rintro _ d' ⟨c, k', hshape, hat', hfits, hext'⟩
  exact ⟨c, k', .flat hs hshape, hat', hfits, hext.trans hext' (.inl rfl)⟩

/-- A region lowered into new blocks of its own leaves all others as they are. -/
theorem meets_region {β : Type} {stmts : List Stmt} {f : BlockId → Lowering β} {rest : Bool}
    {post : β → Draft → Prop} {d : Draft} {k : Cursor} (hstmts : Builds stmts) (h : d.At k)
    (hf : ∀ (d' : Draft) (c : Chain) (k' : Cursor), Shapes stmts k.fresh c k' → d'.At k' →
      c.Fits d'.graph → d.graph.Extends d'.graph k.size → (f c.first).Meets d' rest post) :
    Meets (do
        let block ← enterNew
        lowerAll stmts
        f block)
      d (decoratedAll stmts && rest) post := by
  refine (meets_enterNew h).andThen ?_
  rintro _ d₁ ⟨rfl, hat, hext⟩
  refine (hstmts d₁ _ hat).bind ?_
  rintro _ d₂ ⟨c, k', hshape, hat', hfits, hext'⟩
  have hf' := hf d₂ c k' hshape hat' hfits (hext.trans hext' (.inl rfl))
  rwa [hshape.first_eq] at hf'

/-- A conditional or a loop has been lowered, and lowering stands in the new block behind it: the
    current block `k.block` leads to the header, and the header to the new block. -/
structure Joined (k : Cursor) (code : List Instr) (kind : BlockKind) (k' : Cursor) (d d' : Draft) :
    Prop where
  join : d'.At k'.fresh
  front : d'.graph.Has k.block k.code .straight (some k.size)
  header : d'.graph.Has k.size code kind (some k'.fresh.block)
  extends_ : d.graph.Extends d'.graph k.block

theorem Joined.extend {k k' : Cursor} {code : List Instr} {kind : BlockKind} {d d' d'' : Draft}
    (hjoined : Joined k code kind k' d d') (h : d.At k) (hlt : k.size < k'.size)
    (hext : d'.graph.Extends d''.graph k'.size) :
    d''.graph.Has k.block k.code .straight (some k.size) ∧
      d''.graph.Has k.size code kind (some k'.fresh.block) ∧
      d.graph.Extends d''.graph k.block := by
  refine ⟨hext.has hjoined.front (Nat.ne_of_lt (Nat.lt_trans h.block_lt hlt)),
    hext.has hjoined.header (Nat.ne_of_lt hlt), hjoined.extends_.trans hext (.inr ?_)⟩
  rw [h.size]
  exact Nat.le_of_lt hlt

/-- The join of a conditional or a loop, from the draft `d₁` behind the condition and the draft `d₂`
    behind all regions. -/
theorem meets_join {d d₁ d₂ : Draft} {k k' : Cursor} {condition : Expr} {kind : BlockKind}
    (h : d.At k) (hat : d₁.At (k.header condition))
    (hfront : d₁.graph.Has k.block k.code .straight (some k.size))
    (hext : d.graph.Extends d₁.graph k.block) (hat' : d₂.At k')
    (hext' : d₁.graph.Extends d₂.graph (k.header condition).size)
    (hkind : ∀ target ∈ kind.branches, target < k'.size) :
    Meets (do
        setKind k.size kind
        leave k.size)
      d₂ true (fun _ d' =>
        Joined k (condition.emit k.temporaries).code kind k' d d' ∧
          d₂.graph.Extends d'.graph k.size) := by
  have hlt := h.block_lt
  have hheader : d₂.graph.Has k.size (condition.emit k.temporaries).code .straight none :=
    hext'.has hat.block (Nat.ne_of_lt (Nat.lt_succ_self _))
  refine (meets_close hat' hheader hkind).mono ?_
  rintro _ d₃ ⟨hjoin, hhas, hext₃⟩
  refine ⟨⟨hjoin, ?_, hhas, ?_⟩, hext₃⟩
  · have hfront₂ := hext'.has hfront (Nat.ne_of_lt (Nat.lt_succ_of_lt hlt))
    exact hext₃.has hfront₂ (Nat.ne_of_lt hlt)
  · have hle : d.graph.size ≤ (k.header condition).size := by
      rw [h.size]
      exact Nat.le_succ _
    exact (hext.trans hext' (.inr hle)).trans hext₃ (.inr (Nat.le_of_eq h.size))

/-- The statements behind a conditional or a loop. -/
theorem Joined.meets_rest {d d₁ : Draft} {k k₁ : Cursor} {code : List Instr} {kind : BlockKind}
    {rest : List Stmt} (hjoined : Joined k code kind k₁ d d₁) (h : d.At k)
    (hlt : k.size < k₁.size) (hrest : Builds rest) :
    (lowerAll rest).Meets d₁ (decoratedAll rest) (fun _ d' =>
      ∃ c k', Shapes rest k₁.fresh c k' ∧ d'.At k' ∧ c.Fits d'.graph ∧
        d'.graph.Has k.block k.code .straight (some k.size) ∧
        d'.graph.Has k.size code kind (some c.first) ∧ d.graph.Extends d'.graph k.block ∧
        d₁.graph.Extends d'.graph k₁.size) := by
  refine (hrest d₁ _ hjoined.join).mono ?_
  rintro _ d₂ ⟨c, k', hshape, hat, hfits, hext⟩
  obtain ⟨hfront, hheader, hall⟩ := hjoined.extend h hlt hext
  rw [← hshape.first_eq] at hheader
  exact ⟨c, k', hshape, hat, hfits, hfront, hheader, hall, hext⟩

/-- A header with one region: a conditional without an alternative, or a loop. -/
theorem meets_single {construct : Construct} {condition : Expr} {stmts : List Stmt}
    {kind : String → BlockId → BlockKind}
    (hkind : ∀ test id, (kind test id).branches = [id]) (hstmts : Builds stmts) {d : Draft}
    {k : Cursor} (h : d.At k) :
    Meets (do
        let header ← enterNext
        let _ ← need construct condition.type?
        let test ← condition.lower
        let block ← enterNew
        lowerAll stmts
        setKind header (kind test block)
        leave header)
      d (condition.decorated && decoratedAll stmts) (fun _ d' =>
        ∃ c k₁, Shapes stmts (k.header condition).fresh c k₁ ∧ c.Fits d'.graph ∧
          Joined k (condition.emit k.temporaries).code
            (kind (condition.emit k.temporaries).value c.first) k₁ d d') := by
  rw [← Bool.and_true (decoratedAll stmts)]
  refine meets_header h fun d₁ hat hfront hext => ?_
  refine meets_region hstmts hat fun d₂ c k₁ hshape hat' hfits hext' => ?_
  have hbranches : ∀ target ∈ (kind (condition.emit k.temporaries).value c.first).branches,
      target < k₁.size := by
    rw [hkind]
    exact List.forall_mem_singleton.2 (hshape.region_bounds c.first_mem_blocks).2
  refine (meets_join h hat hfront hext hat' hext' hbranches).mono ?_
  rintro _ d₃ ⟨hjoined, hext₃⟩
  -- the join touches the header only, and the header is no block of the region
  exact ⟨c, k₁, hshape, hext₃.fits hfits hshape.not_mem_header, hjoined⟩

theorem builds_cond {line : UInt64} {condition : Expr} {thenBranch rest : List Stmt}
    (hthen : Builds thenBranch) (hrest : Builds rest) :
    Builds (.cond line condition thenBranch none :: rest) := by
  intro d k h
  rw [lowerAll, decoratedAll, Stmt.lower, Stmt.decorated]
  refine (meets_turnTo _ (meets_single (fun _ _ => rfl) hthen h)).bind ?_
  rintro _ d₁ ⟨arm, k₁, hshape, hfits, hjoined⟩
  refine (hjoined.meets_rest h hshape.header_lt hrest).mono ?_
  rintro _ d₂ ⟨c, k', hshape', hat, hfits', hfront, hheader, hext, hext'⟩
  refine ⟨_, k', .cond hshape hshape', hat, ⟨hfront, hheader, ?_, hfits'⟩, hext⟩
  exact hext'.fits hfits (hshape.not_mem_join (Nat.le_refl _))

theorem builds_loop {line : UInt64} {condition : Expr} {stmts rest : List Stmt}
    (hbody : Builds stmts) (hrest : Builds rest) :
    Builds (.loop line condition stmts :: rest) := by
  intro d k h
  rw [lowerAll, decoratedAll, Stmt.lower, Stmt.decorated]
  refine (meets_turnTo _ (meets_single (fun _ _ => rfl) hbody h)).bind ?_
  rintro _ d₁ ⟨body, k₁, hshape, hfits, hjoined⟩
  refine (hjoined.meets_rest h hshape.header_lt hrest).mono ?_
  rintro _ d₂ ⟨c, k', hshape', hat, hfits', hfront, hheader, hext, hext'⟩
  refine ⟨_, k', .loop hshape hshape', hat, ⟨hfront, hheader, ?_, hfits'⟩, hext⟩
  exact hext'.fits hfits (hshape.not_mem_join (Nat.le_refl _))

theorem builds_condElse {line : UInt64} {condition : Expr}
    {thenBranch elseBranch rest : List Stmt} (hthen : Builds thenBranch)
    (helse : Builds elseBranch) (hrest : Builds rest) :
    Builds (.cond line condition thenBranch (some elseBranch) :: rest) := by
  intro d k h
  rw [lowerAll, decoratedAll, Stmt.decorated]
  have hstmt : (Stmt.cond line condition thenBranch (some elseBranch)).lower.Meets d
      (condition.decorated && (decoratedAll thenBranch && (decoratedAll elseBranch && true)))
      (fun _ d' =>
        ∃ thenArm elseArm k₁ k₂, Shapes thenBranch (k.header condition).fresh thenArm k₁ ∧
          Shapes elseBranch k₁.fresh elseArm k₂ ∧ thenArm.Fits d'.graph ∧ elseArm.Fits d'.graph ∧
          Joined k (condition.emit k.temporaries).code
            (.conditional (condition.emit k.temporaries).value thenArm.first
              (some elseArm.first)) k₂ d d') := by
    rw [Stmt.lower]
    refine meets_turnTo _ (meets_header h fun d₁ hat hfront hext => ?_)
    refine meets_region hthen hat fun d₂ thenArm k₁ hshape hat₂ hfits hext₂ => ?_
    refine meets_region helse hat₂ fun d₃ elseArm k₂ hshape' hat₃ hfits' hext₃ => ?_
    have hkind : ∀ target ∈ (BlockKind.conditional (condition.emit k.temporaries).value
        thenArm.first (some elseArm.first)).branches, target < k₂.size := by
      have hfirst := (hshape.region_bounds thenArm.first_mem_blocks).2
      have hfirst' := (hshape'.region_bounds elseArm.first_mem_blocks).2
      simpa [BlockKind.branches] using ⟨Nat.lt_trans hfirst hshape'.size_le, hfirst'⟩
    have hext' := hext₂.trans hext₃ (.inr (hat.size ▸ Nat.le_of_succ_le hshape.size_le))
    refine (meets_join h hat hfront hext hat₃ hext' hkind).mono ?_
    rintro _ d₄ ⟨hjoined, hext₄⟩
    -- the first arm survives the second one, and both of them the join
    have hthenFits := hext₃.fits hfits (hshape.not_mem_join (Nat.le_refl _))
    have hnotMem : k.size ∉ elseArm.blocks := fun hid =>
      Nat.not_le.2 hshape.header_lt (hshape'.region_bounds hid).1
    exact ⟨thenArm, elseArm, k₁, k₂, hshape, hshape', hext₄.fits hthenFits hshape.not_mem_header,
      hext₄.fits hfits' hnotMem, hjoined⟩
  rw [Bool.and_true, ← Bool.and_assoc] at hstmt
  refine hstmt.bind ?_
  rintro _ d₄ ⟨thenArm, elseArm, k₁, k₂, hshape, hshape', hfits, hfits', hjoined⟩
  have hle : k₁.size ≤ k₂.size := Nat.le_of_succ_le hshape'.size_le
  refine (hjoined.meets_rest h (Nat.lt_of_lt_of_le hshape.header_lt hle) hrest).mono ?_
  rintro _ d₅ ⟨c, k', hshape₅, hat₅, hfits₅, hfront, hheader, hext, hext₅⟩
  refine ⟨_, k', .condElse hshape hshape' hshape₅, hat₅, ⟨hfront, hheader, ?_, ?_, hfits₅⟩, hext⟩
  · exact hext₅.fits hfits (hshape.not_mem_join hle)
  · exact hext₅.fits hfits' (hshape'.not_mem_join (Nat.le_refl _))

/-- Lowering accepts statements exactly if they are decorated, and then builds their chain. -/
theorem builds (stmts : List Stmt) : Builds stmts := by
  match stmts with
  | [] => exact builds_nil
  | .cond line condition thenBranch none :: rest =>
      exact builds_cond (builds thenBranch) (builds rest)
  | .cond line condition thenBranch (some elseBranch) :: rest =>
      exact builds_condElse (builds thenBranch) (builds elseBranch) (builds rest)
  | .loop line condition body :: rest => exact builds_loop (builds body) (builds rest)
  | .constDecl line name type value :: rest => exact builds_flat rfl (builds rest)
  | .varDecl line name type value :: rest => exact builds_flat rfl (builds rest)
  | .assign line name value :: rest => exact builds_flat rfl (builds rest)
  | .print line value :: rest => exact builds_flat rfl (builds rest)
  | .declare line prototype :: rest => exact builds_flat rfl (builds rest)
  | .eval line value :: rest => exact builds_flat rfl (builds rest)

end Source

end ThreeAddress
