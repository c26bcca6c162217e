import ThreeAddress.Proofs.Layout.Domain
import ThreeAddress.Proofs.Lowering.Shape

set_option autoImplicit false

/-! # Graphs that can be built

Whoever builds a graph makes requests to one draft, in any order and with any arguments, and goes on
with the draft also after a request that was refused. `Request.perform` carries a request out in
place. It is refused exactly if it names a block that the draft does not have, and then nothing has
happened. So every draft that can be built is `Sound`: blocks carry their positions as numbers, and
no reference dangles. A graph that was built may still be no tree, but linking it never meets a
block that does not exist. -/

namespace ThreeAddress

namespace Draft

/-! ## Requests -/

/-- A request to a draft. -/
inductive Request where
  | fresh (type : ScalarType)
  | current
  | newBlock
  | moveTo (id : BlockId)
  | setNext (source successor : BlockId)
  | setKind (id : BlockId) (kind : BlockKind)
  /-- Declarations, stores, prints and bindings of functions are appended as they are. -/
  | append (i : Instr)
  | literal (value : Constant)
  | load (type : ScalarType) (name : String)
  | binary (op : ArithOp) (type : ScalarType) (left right : String)
  | unary (op : UnaryOp) (type : ScalarType) (source : String)
  | compare (op : CompareOp) (type : ScalarType) (left right : String)
  | call (function : String) (args : List String) (returnType : ScalarType)

/-- What a request yields. -/
inductive Reply where
  | done
  | name (name : String)
  | block (id : BlockId)

/-- A change that yields nothing. -/
def Change.silent (c : Change Unit) : Change Reply := (fun _ => .done) <$> c

namespace Request

/-- Carry out a request in place. -/
def perform : Request → Change Reply
  | fresh type => .name <$> modifyGet fun d => d.fresh type
  | current => .block <$> modifyGet fun d => (d.current, d)
  | newBlock => .block <$> modifyGet Draft.newBlock
  | moveTo id => (Change.moveTo id).silent
  | setNext source successor => (Change.setNext source successor).silent
  | setKind id kind => (Change.setKind id kind).silent
  | append i => Change.silent (modify fun d => d.append i)
  | literal value => .name <$> modifyGet (Draft.literal value)
  | load type name => .name <$> modifyGet (Draft.load type name)
  | binary op type left right => .name <$> modifyGet (Draft.binary op type left right)
  | unary op type source => .name <$> modifyGet (Draft.unary op type source)
  | compare op type left right => .name <$> modifyGet (Draft.compare op type left right)
  | call function args returnType => .name <$> modifyGet (Draft.call function args returnType)

/-- The blocks that must exist for a request, in the order in which they are looked for. -/
def needs : Request → List BlockId
  | moveTo id => [id]
  | setNext source successor => [successor, source]
  | setKind id kind => kind.branches ++ [id]
  | _ => []

end Request

/-- The draft after a sequence of requests. -/
def after (requests : List Request) : Draft :=
  requests.foldl (fun d r => (r.perform.on d).2) .empty

/-! ## Refusals -/

/-- A checked change is made if the blocks that it needs exist. Otherwise one of them is the reason
    of the refusal, and the draft is as it was. -/
theorem Change.checked_cases (ids : List BlockId) (f : Draft → Draft) (d : Draft) :
    (∀ id ∈ ids, id < d.graph.size) ∧ (checked ids f).silent.on d = (.ok .done, f d) ∨
      ∃ id ∈ ids, d.graph.size ≤ id ∧ (checked ids f).silent.on d = (.error ⟨id⟩, d) := by
  have hsilent : (checked ids f).silent.on d
      = (((checked ids f).on d).1.map fun _ => .done, ((checked ids f).on d).2) := by
    simp [silent, on]
  rw [hsilent, on_checked]
  cases hfind : ids.find? (fun id => !decide (id < d.graph.size)) with
  | none =>
      have hall : ∀ id ∈ ids, id < d.graph.size := by simpa using hfind
      exact .inl ⟨hall, rfl⟩
  | some id =>
      have hmissing : d.graph.size ≤ id := by simpa using List.find?_some hfind
      exact .inr ⟨id, List.mem_of_find?_eq_some hfind, hmissing, rfl⟩

/-- A request is granted exactly if the blocks that it needs exist; one that is refused leaves the
    draft as it was. -/
theorem Request.perform_cases (r : Request) (d : Draft) :
    (∀ id ∈ r.needs, id < d.graph.size) ∧ (∃ reply d', r.perform.on d = (.ok reply, d')) ∨
      ∃ id ∈ r.needs, d.graph.size ≤ id ∧ r.perform.on d = (.error ⟨id⟩, d) := by
  have hchecked {ids : List BlockId} {f : Draft → Draft} (hneeds : r.needs = ids)
      (hperform : r.perform = (Change.checked ids f).silent) :
      (∀ id ∈ r.needs, id < d.graph.size) ∧ (∃ reply d', r.perform.on d = (.ok reply, d')) ∨
        ∃ id ∈ r.needs, d.graph.size ≤ id ∧ r.perform.on d = (.error ⟨id⟩, d) := by
    rw [hneeds, hperform]
    rcases Change.checked_cases ids f d with ⟨hall, hon⟩ | hrefused
    · exact .inl ⟨hall, _, _, hon⟩
    · exact .inr hrefused
  cases r with
  | moveTo id => exact hchecked rfl rfl
  | setNext source successor => exact hchecked rfl rfl
  | setKind id kind => exact hchecked rfl rfl
  | _ => exact .inl ⟨List.forall_mem_nil _, _, _, rfl⟩

/-! ## Sound drafts -/

/-- Every block carries its position as its number, the start block and the current block exist, and
    so does every block that a block refers to. -/
structure Sound (d : Draft) : Prop where
  id_eq : ∀ i b, d.graph.block? i = some b → b.id = i
  start_lt : d.graph.start < d.graph.size
  current_lt : d.current < d.graph.size
  successors_lt : ∀ i b, d.graph.block? i = some b → ∀ target ∈ b.successors, target < d.graph.size

namespace Sound

variable {d : Draft}

theorem empty : Draft.empty.Sound := by
  have hblock : ∀ i b, Draft.empty.graph.block? i = some b →
      i = 0 ∧ b = ⟨0, #[], .straight, none⟩ := by
    intro i b hb
    obtain ⟨hi, hb⟩ := Array.getElem?_eq_some_iff.1 hb
    have hi : i = 0 := Nat.lt_one_iff.1 hi
    subst hi
    exact ⟨rfl, hb.symm⟩
  refine ⟨fun i b hb => ?_, Nat.zero_lt_one, Nat.zero_lt_one, fun i b hb => ?_⟩
  · obtain ⟨rfl, rfl⟩ := hblock i b hb
    rfl
  · obtain ⟨rfl, rfl⟩ := hblock i b hb
    exact List.forall_mem_nil _

/-- A block may be changed if it keeps its number and refers to blocks that exist. -/
theorem modify (h : d.Sound) {id : BlockId} {f : Block → Block} (hid : ∀ b, (f b).id = b.id)
    (hf : ∀ b, d.graph.block? id = some b → ∀ target ∈ (f b).successors, target < d.graph.size) :
    Sound { d with graph := d.graph.modify id f } where
  id_eq := by
    intro i b hb
    rw [BlockGraph.block?_modify] at hb
    split at hb
    · obtain ⟨b', hb', rfl⟩ := Option.map_eq_some_iff.1 hb
      rw [hid]
      exact h.id_eq i b' hb'
    · exact h.id_eq i b hb
  start_lt := by
    rw [BlockGraph.size_modify]
    exact h.start_lt
  current_lt := by
    rw [BlockGraph.size_modify]
    exact h.current_lt
  successors_lt := by
    intro i b hb
    rw [BlockGraph.size_modify]
    rw [BlockGraph.block?_modify] at hb
    split at hb
    · next heq =>
        obtain ⟨b', hb', rfl⟩ := Option.map_eq_some_iff.1 hb
        exact hf b' (heq ▸ hb')
    · exact h.successors_lt i b hb

theorem append (h : d.Sound) (i : Instr) : (d.append i).Sound :=
  h.modify (fun _ => rfl) fun b hb => h.successors_lt d.current b hb

theorem compute (h : d.Sound) (type : ScalarType) (instr : String → Instr) :
    (d.compute type instr).2.Sound := by
  have hfresh : (d.fresh type).2.Sound := ⟨h.id_eq, h.start_lt, h.current_lt, h.successors_lt⟩
  exact hfresh.append _

theorem newBlock (h : d.Sound) : d.newBlock.2.Sound := by
  have hsize : d.newBlock.2.graph.size = d.graph.size + 1 := BlockGraph.size_addBlock _
  have hblock : ∀ i b, d.newBlock.2.graph.block? i = some b →
      d.graph.block? i = some b ∨ i = d.graph.size ∧ b = ⟨d.graph.size, #[], .straight, none⟩ := by
    intro i b hb
    have hi : i < d.graph.size + 1 := hsize ▸ (Array.getElem?_eq_some_iff.1 hb).1
    rcases Nat.lt_succ_iff_lt_or_eq.1 hi with hlt | rfl
    · exact .inl ((d.graph.block?_addBlock_of_lt hlt).symm.trans hb)
    · exact .inr ⟨rfl, Option.some.inj (hb.symm.trans d.graph.block?_addBlock_self)⟩
  refine ⟨fun i b hb => ?_, ?_, ?_, fun i b hb => ?_⟩
  · rcases hblock i b hb with hold | ⟨rfl, rfl⟩
    · exact h.id_eq i b hold
    · rfl
  · exact hsize ▸ Nat.lt_succ_of_lt h.start_lt
  · exact hsize ▸ Nat.lt_succ_of_lt h.current_lt
  · rcases hblock i b hb with hold | ⟨rfl, rfl⟩
    · intro target htarget
      exact hsize ▸ Nat.lt_succ_of_lt (h.successors_lt i b hold target htarget)
    · exact List.forall_mem_nil _

theorem setNext (h : d.Sound) {successor : BlockId} (hsuccessor : successor < d.graph.size)
    (source : BlockId) :
    Sound { d with
      graph := d.graph.modify source fun b => { b with next := some successor } } := by
  refine h.modify (fun b => rfl) fun b hb => ?_
  have hold := h.successors_lt source b hb
  simp only [Block.successors, List.forall_mem_append] at hold ⊢
  exact ⟨hold.1, by simpa using hsuccessor⟩

theorem setKind (h : d.Sound) {kind : BlockKind}
    (hkind : ∀ target ∈ kind.branches, target < d.graph.size) (id : BlockId) :
    Sound { d with graph := d.graph.modify id fun b => { b with kind := kind } } := by
  refine h.modify (fun b => rfl) fun b hb => ?_
  have hold := h.successors_lt id b hb
  simp only [Block.successors, List.forall_mem_append] at hold ⊢
  exact ⟨hkind, hold.2⟩

theorem checked (h : d.Sound) {ids : List BlockId} {f : Draft → Draft}
    (hf : (∀ id ∈ ids, id < d.graph.size) → (f d).Sound) :
    ((Change.checked ids f).silent.on d).2.Sound := by
  rcases Change.checked_cases ids f d with ⟨hall, hon⟩ | ⟨id, -, -, hon⟩
  · rw [hon]
    exact hf hall
  · rw [hon]
    exact h

/-- No request spoils a draft. -/
theorem perform (h : d.Sound) (r : Request) : (r.perform.on d).2.Sound := by
  cases r with
  | fresh type => exact ⟨h.id_eq, h.start_lt, h.current_lt, h.successors_lt⟩
  | current => exact h
  | newBlock => exact h.newBlock
  | moveTo id =>
      refine h.checked fun hall => ?_
      have hid : id < d.graph.size := by simpa using hall
      exact ⟨h.id_eq, h.start_lt, hid, h.successors_lt⟩
  | setNext source successor =>
      refine h.checked fun hall => ?_
      exact h.setNext (hall successor (by simp)) source
  | setKind id kind =>
      refine h.checked fun hall => ?_
      exact h.setKind (List.forall_mem_append.1 hall).1 id
  | append i => exact h.append i
  | literal value => exact h.compute _ _
  | load type name => exact h.compute _ _
  | binary op type left right => exact h.compute _ _
  | unary op type source => exact h.compute _ _
  | compare op type left right => exact h.compute _ _
  | call function args returnType => exact h.compute _ _

theorem after (requests : List Request) : (Draft.after requests).Sound := by
  have hfold : ∀ d : Draft, d.Sound →
      (requests.foldl (fun d r => (r.perform.on d).2) d).Sound := by
    induction requests with
    | nil => exact fun d hd => hd
    | cons r requests ih => exact fun d hd => ih _ (hd.perform r)
  exact hfold _ .empty

/-- An instruction always finds a block to go to. -/
theorem block?_append (h : d.Sound) (i : Instr) :
    ∃ b, d.graph.block? d.current = some b ∧
      (d.append i).graph.block? d.current = some { b with code := b.code.push i } := by
  obtain ⟨b, hb⟩ : ∃ b, d.graph.block? d.current = some b :=
    ⟨_, Array.getElem?_eq_getElem h.current_lt⟩
  refine ⟨b, hb, ?_⟩
  rw [Draft.append, BlockGraph.block?_modify, if_pos rfl, hb]
  rfl

end Sound

end Draft

/-! ## Linking what was built -/

/-- If no reference dangles, the traversal meets no block that does not exist. -/
theorem Layout.Finishes.ne_unknownBlock {g : BlockGraph} {tasks : List Task} {l l' : Layout}
    {r : Except LinkError Unit} (h : Finishes g tasks l l' r)
    (hg : ∀ i b, g.block? i = some b → ∀ target ∈ b.successors, target < g.size)
    (hpending : ∀ id ∈ Task.pending tasks, id < g.size) :
    ∀ id, r ≠ .error (.unknownBlock id) := by
  induction h with
  | done l => simp
  | jump hrest ih => exact ih hpending
  | @unknown id tasks l hb =>
      have hlt : id < g.size := hpending id (by simp)
      exact absurd hlt (Nat.not_lt.2 (Array.getElem?_eq_none_iff.1 hb))
  | revisited hb hl => simp
  | refused hb hl hclosing =>
      rw [Block.eq_of_closing_error hclosing]
      simp
  | @place id b tasks work slots l l' r hb hl hclosing hrest ih =>
      refine ih ?_
      rw [Task.pending_append, Block.pending_of_closing hclosing, List.forall_mem_append]
      rw [Task.pending_chain, List.forall_mem_cons] at hpending
      exact ⟨hg id b hb, hpending.2⟩

/-- **Every draft that can be built is sound, and a refused request does not change it.** After any
    sequence of requests, refused ones among them, each block carries its position as its number,
    the start block and the current block exist, and so do all blocks that are referred to; an
    instruction that is appended goes into the current block. A request is granted exactly if the
    blocks that it needs exist; otherwise the reason is one of them that does not, and the graph,
    the current block and the temporaries are as they were. Linking the graph never fails at a block
    that does not exist. -/
theorem built_drafts_sound (requests : List Draft.Request) :
    let d := Draft.after requests
    d.Sound ∧
      (∀ i, ∃ b, d.graph.block? d.current = some b ∧
        (d.append i).graph.block? d.current = some { b with code := b.code.push i }) ∧
      (∀ r : Draft.Request,
        ((∃ reply d', r.perform.on d = (.ok reply, d')) ↔ ∀ id ∈ r.needs, id < d.graph.size) ∧
          ∀ e d', r.perform.on d = (.error e, d') →
            d' = d ∧ e.id ∈ r.needs ∧ d.graph.size ≤ e.id) ∧
      ∀ id, d.graph.link ≠ .error (.unknownBlock id) := by
  intro d
  have hd : d.Sound := .after requests
  refine ⟨hd, hd.block?_append, fun r => ?_, fun id hlink => ?_⟩
  · rcases r.perform_cases d with ⟨hall, reply, d', hon⟩ | ⟨id, hid, hmissing, hon⟩
    · refine ⟨iff_of_true ⟨reply, d', hon⟩ hall, fun e d'' herror => ?_⟩
      rw [hon] at herror
      cases herror
    · refine ⟨iff_of_false ?_ fun hall => ?_, fun e d' herror => ?_⟩
      · rintro ⟨reply, d', hok⟩
        rw [hon] at hok
        cases hok
      · exact absurd (hall id hid) (Nat.not_lt.2 hmissing)
      · rw [hon] at herror
        cases herror
        exact ⟨rfl, hid, hmissing⟩
  · refine d.graph.finishes_layout.ne_unknownBlock hd.successors_lt ?_ id
      (BlockGraph.layout_eq_error hlink)
    rw [Task.pending_chain, Task.pending_nil, List.forall_mem_singleton]
    exact hd.start_lt

/-- With two blocks, the first cannot be followed by a block number seven. -/
theorem built_drafts_sound_refusal :
    ∃ e d', (Draft.Request.setNext 0 7).perform.on (Draft.after [.newBlock]) = (.error e, d') ∧
      d' = Draft.after [.newBlock] ∧ e.id ∈ (Draft.Request.setNext 0 7).needs := by
  obtain ⟨-, -, hrequest, -⟩ := built_drafts_sound [.newBlock]
  have hon : (Draft.Request.setNext 0 7).perform.on (Draft.after [.newBlock])
      = (.error ⟨7⟩, Draft.after [.newBlock]) := rfl
  obtain ⟨hsame, hneeds, -⟩ := (hrequest (.setNext 0 7)).2 _ _ hon
  exact ⟨_, _, hon, hsame, hneeds⟩

end ThreeAddress
