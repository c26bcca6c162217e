import Mathlib.Data.List.Nodup
import ThreeAddress.Proofs.Lowering.SingleAssignment

set_option autoImplicit false

/-! # Temporaries are used linearly

In a lowered program, every temporary is computed and read within one block: what an instruction
reads has been computed by an earlier instruction of the same block, and so has the test of a
conditional or a loop. Moreover each temporary is read exactly once, but for the results of
expression statements, which nobody reads.

The invariant is `Linear`: code reads only what it has computed, and what it computes are the cells
that it reads and those that are left over, each of them once. The code of an expression leaves its
value, and whatever takes the value leaves nothing. -/

namespace ThreeAddress

/-! ## What is read -/

/-- The cells with computed values that an instruction reads. -/
def Instr.sources : Instr → List String
  | .store _ source _ => [source]
  | .binary _ _ left right _ => [left, right]
  | .unary _ _ source _ => [source]
  | .compare _ _ left right _ => [left, right]
  | .print _ source => [source]
  | .call _ args _ => args
  | _ => []

/-- The cell that decides how a block goes on. -/
def BlockKind.tests : BlockKind → List String
  | .straight => []
  | .conditional test _ _ => [test]
  | .loop test _ => [test]

/-- All places of a block at which a computed value is read. -/
def Block.reads (b : Block) : List String := b.code.toList.flatMap Instr.sources ++ b.kind.tests

namespace BlockGraph

/-- All places at which a computed value is read. -/
def reads (g : BlockGraph) : List String := g.blocks.toList.flatMap Block.reads

/-- The cells that the instructions of all blocks compute values into. -/
def computed (g : BlockGraph) : List String := g.blocks.toList.flatMap fun b => targets b.code.toList

end BlockGraph

/-! ## Linear code -/

/-- Whatever an instruction reads has been computed in front of it. -/
def Defined (code : List Instr) : Prop :=
  ∀ n i, code[n]? = some i → ∀ x ∈ i.sources, x ∈ targets (code.take n)

/-- More code may also read what has been computed in front of all of it. -/
theorem Defined.extend {code code' : List Instr} (h : Defined code)
    (h' : ∀ n i, code'[n]? = some i → ∀ x ∈ i.sources,
      x ∈ targets code ++ targets (code'.take n)) : Defined (code ++ code') := by
  intro n i hi x hx
  by_cases hlt : n < code.length
  · rw [List.getElem?_append_left hlt] at hi
    rw [List.take_append_of_le_length (Nat.le_of_lt hlt)]
    exact h n i hi x hx
  · have hle := Nat.not_lt.1 hlt
    rw [List.getElem?_append_right hle] at hi
    rw [List.take_append, List.take_of_length_le hle, targets_append]
    exact h' _ i hi x hx

/-- Code that reads only what it has computed, each cell once, but for the cells of `left`, which it
    computes and does not read. -/
structure Linear (code : List Instr) (left : List String) : Prop where
  defined : Defined code
  balanced : (targets code).Perm (code.flatMap Instr.sources ++ left)

namespace Linear

variable {code code' : List Instr} {left left' : List String}

theorem nil : Linear [] [] where
  defined := by simp [Defined]
  balanced := .refl _

theorem append (h : Linear code left) (h' : Linear code' left') :
    Linear (code ++ code') (left ++ left') where
  defined := h.defined.extend fun n i hi x hx => List.mem_append_right _ (h'.defined n i hi x hx)
  balanced := by
    rw [targets_append, List.flatMap_append]
    have hboth := h.balanced.append h'.balanced
    rw [List.append_assoc] at hboth ⊢
    exact hboth.trans (.append_left _ (List.perm_append_comm_assoc ..))

theorem mem_targets (h : Linear code left) {x : String} (hx : x ∈ left) : x ∈ targets code :=
  h.balanced.mem_iff.2 (List.mem_append_right _ hx)

/-- An instruction that reads all that is left. -/
theorem push {i : Instr} (h : Linear code i.sources) : Linear (code ++ [i]) i.target?.toList where
  defined := by
    refine h.defined.extend fun n j hj x hx => List.mem_append_left _ ?_
    obtain rfl := List.mem_singleton.1 (List.mem_of_getElem? hj)
    exact h.mem_targets hx
  balanced := by
    rw [targets_append, targets_singleton, List.flatMap_append, List.flatMap_singleton]
    exact h.balanced.append_right _

end Linear

/-! ## Expressions -/

namespace Source

/-- One more computation reads what is left and leaves its result. -/
theorem linear_compute {code : List Instr} (t : Temporaries) (type : ScalarType)
    {instr : String → Instr} {sources : List String} (h : Linear code sources)
    (hsources : ∀ x, (instr x).sources = sources) (htarget : ∀ x, (instr x).target? = some x) :
    Linear (Emission.compute code t type instr).code
      [(Emission.compute code t type instr).value] := by
  rw [← hsources (Temporaries.name type (t.count type))] at h
  have hpush := h.push
  rwa [htarget] at hpush

mutual

/-- The code of an expression leaves the value of the expression. -/
theorem Expr.emit_linear (t : Temporaries) : (e : Expr) → Linear (e.emit t).code [(e.emit t).value]
  | .literal _ value => by
      unfold Expr.emit
      exact linear_compute _ _ .nil (fun _ => rfl) (fun _ => rfl)
  | .binary _ op left right => by
      unfold Expr.emit
      have hboth := (left.emit_linear t).append (right.emit_linear (left.emit t).temporaries)
      exact linear_compute _ _ hboth (fun _ => rfl) (fun _ => rfl)
  | .relational _ op left right => by
      unfold Expr.emit
      have hboth := (left.emit_linear t).append (right.emit_linear (left.emit t).temporaries)
      exact linear_compute _ _ hboth (fun _ => rfl) (fun _ => rfl)
  | .unary _ op operand => by
      unfold Expr.emit
      exact linear_compute _ _ (operand.emit_linear t) (fun _ => rfl) (fun _ => rfl)
  | .load type name => by
      unfold Expr.emit
      exact linear_compute _ _ .nil (fun _ => rfl) (fun _ => rfl)
  | .group _ inner => by
      unfold Expr.emit
      exact inner.emit_linear t
  | .call type name args => by
      unfold Expr.emit
      exact linear_compute _ _ (emitArgs_linear t args) (fun _ => rfl) (fun _ => rfl)

/-- The code of arguments leaves the values of all of them. -/
theorem emitArgs_linear (t : Temporaries) : (args : List Expr) →
    Linear (emitArgs t args).code (emitArgs t args).value
  | [] => by
      unfold emitArgs
      exact .nil
  | e :: rest => by
      unfold emitArgs
      exact (e.emit_linear t).append (emitArgs_linear (e.emit t).temporaries rest)

end

/-! ## Statements -/

mutual

/-- The results of the expression statements in a statement, if the temporaries of `t` are in front
    of it, and the temporaries that there are behind it. -/
def Stmt.results (t : Temporaries) : Stmt → List String × Temporaries
  | .eval _ value => ([(value.emit t).value], (value.emit t).temporaries)
  | .cond _ condition thenBranch none => resultsAll (condition.emit t).temporaries thenBranch
  | .cond _ condition thenBranch (some elseBranch) =>
    let first := resultsAll (condition.emit t).temporaries thenBranch
    let second := resultsAll first.2 elseBranch
    (first.1 ++ second.1, second.2)
  | .loop _ condition body => resultsAll (condition.emit t).temporaries body
  | s => ([], (s.emit t).temporaries)

/-- The results of the expression statements among statements, in order, and the temporaries behind
    them. -/
def resultsAll (t : Temporaries) : List Stmt → List String × Temporaries
  | [] => ([], t)
  | s :: rest =>
    let first := s.results t
    let others := resultsAll first.2 rest
    (first.1 ++ others.1, others.2)

end

/-- The temporaries that hold the results of the expression statements of a program. -/
def Program.results (p : Program) : List String := (resultsAll {} p.statements).1

theorem Stmt.results_temporaries {s : Stmt} (hs : s.isFlat = true) (t : Temporaries) :
    (s.results t).2 = (s.emit t).temporaries := by
  cases s with
  | cond line condition thenBranch elseBranch => cases hs
  | loop line condition body => cases hs
  | _ => simp [Stmt.results, Stmt.emit]

/-- The code of a statement that stays in one block leaves the result of an expression
    statement. -/
theorem Stmt.emit_linear {s : Stmt} (hs : s.isFlat = true) (t : Temporaries) :
    Linear (s.emit t).code (s.results t).1 := by
  -- an instruction that takes a value and computes nothing
  have htake (value : Expr) {i : Instr} (hsources : i.sources = [(value.emit t).value])
      (htarget : i.target? = none) : Linear ((value.emit t).code ++ [i]) [] := by
    have hvalue := value.emit_linear t
    rw [← hsources] at hvalue
    have hpush := hvalue.push
    rwa [htarget] at hpush
  have halone {i : Instr} (hsources : i.sources = []) (htarget : i.target? = none) :
      Linear [i] [] := by
    have hnil := Linear.nil
    rw [← hsources] at hnil
    have hpush := hnil.push
    rwa [htarget] at hpush
  have hdecl (type : ScalarType) (name : String) (value : Expr) :
      Linear (emitDeclaration t type name value).code [] :=
    (halone (i := .alloc type name) rfl rfl).append (htake value rfl rfl)
  cases s with
  | cond line condition thenBranch elseBranch => cases hs
  | loop line condition body => cases hs
  | constDecl line name type value => exact hdecl _ _ _
  | varDecl line name type value =>
      cases value with
      | none => exact halone rfl rfl
      | some value => exact hdecl _ _ _
  | assign line name value => exact htake value rfl rfl
  | print line value => exact htake value rfl rfl
  | declare line prototype => exact halone rfl rfl
  | eval line value => exact value.emit_linear t

theorem Cursor.temporaries_fresh (k : Cursor) : k.fresh.temporaries = k.temporaries := rfl

/-- The temporaries behind lowered statements. -/
theorem Shapes.temporaries_eq {stmts : List Stmt} {k k' : Cursor} {c : Chain}
    (h : Shapes stmts k c k') : k'.temporaries = (resultsAll k.temporaries stmts).2 := by
  induction h with
  | nil k => simp [resultsAll]
  | @flat s rest k k' c hs hrest ih =>
      rw [ih, resultsAll, Stmt.results_temporaries hs]
      rfl
  | @cond line condition thenBranch rest k k₁ k' arm c hthen hrest iht ihr =>
      rw [ihr, Cursor.temporaries_fresh, iht, resultsAll, Stmt.results]
      rfl
  | @condElse line condition thenBranch elseBranch rest k k₁ k₂ k' thenArm elseArm c hthen helse
      hrest iht ihe ihr =>
      rw [ihr, Cursor.temporaries_fresh, ihe, Cursor.temporaries_fresh, iht, resultsAll,
        Stmt.results]
      rfl
  | @loop line condition stmts rest k k₁ k' body c hbody hrest ihb ihr =>
      rw [ihr, Cursor.temporaries_fresh, ihb, resultsAll, Stmt.results]
      rfl

end Source

/-! ## Blocks -/

/-- Blocks whose code is linear up to the tests of the blocks and the cells of `left`. -/
inductive LinearBlocks : List Block → List String → Prop
  | nil : LinearBlocks [] []
  | cons {b : Block} {bs : List Block} {left left' : List String}
      (hb : Linear b.code.toList (b.kind.tests ++ left)) (hbs : LinearBlocks bs left') :
      LinearBlocks (b :: bs) (left ++ left')

namespace LinearBlocks

variable {bs bs' : List Block} {left left' : List String}

theorem append (h : LinearBlocks bs left) (h' : LinearBlocks bs' left') :
    LinearBlocks (bs ++ bs') (left ++ left') := by
  induction h with
  | nil => exact h'
  | cons hb hbs ih =>
      rw [List.append_assoc]
      exact .cons hb ih

theorem of_mem (h : LinearBlocks bs left) {b : Block} (hb : b ∈ bs) :
    ∃ left, Linear b.code.toList (b.kind.tests ++ left) := by
  induction h with
  | nil => cases hb
  | cons hfirst hbs ih =>
      rcases List.mem_cons.1 hb with rfl | hb
      · exact ⟨_, hfirst⟩
      · exact ih hb

/-- All that the blocks compute is read once or left. -/
theorem balanced (h : LinearBlocks bs left) :
    (bs.flatMap fun b => targets b.code.toList).Perm (bs.flatMap Block.reads ++ left) := by
  induction h with
  | nil => exact .refl _
  | @cons b bs left left' hb hbs ih =>
      have hfirst : (targets b.code.toList).Perm (b.reads ++ left) := by
        rw [Block.reads, List.append_assoc]
        exact hb.balanced
      have hboth := hfirst.append ih
      rw [List.flatMap_cons, List.flatMap_cons]
      rw [List.append_assoc] at hboth ⊢
      exact hboth.trans (.append_left _ (List.perm_append_comm_assoc ..))

/-- One more block of a graph in front. -/
theorem cons_of_has {g : BlockGraph} {id : BlockId} {code : List Instr} {kind : BlockKind}
    {next : Option BlockId} {ids : List BlockId} (hid : g.Has id code kind next)
    (hcode : Linear code (kind.tests ++ left))
    (h : LinearBlocks (ids.filterMap g.block?) left') :
    LinearBlocks ((id :: ids).filterMap g.block?) (left ++ left') := by
  obtain ⟨b, hb, rfl, rfl, -⟩ := hid
  rw [List.filterMap_cons_some hb]
  exact .cons hcode h

/-- One more block in front that reads all it computes. -/
theorem cons_of_tests {g : BlockGraph} {id : BlockId} {code : List Instr} {kind : BlockKind}
    {next : Option BlockId} {ids : List BlockId} (hid : g.Has id code kind next)
    (hcode : Linear code kind.tests) (h : LinearBlocks (ids.filterMap g.block?) left) :
    LinearBlocks ((id :: ids).filterMap g.block?) left := by
  rw [← List.append_nil kind.tests] at hcode
  exact cons_of_has hid hcode h

end LinearBlocks

/-! ## Programs -/

namespace Source

/-- The blocks of lowered statements leave the results of the expression statements, and what the
    code in front of the statements leaves. -/
theorem Shapes.linear {stmts : List Stmt} {k k' : Cursor} {c : Chain} (h : Shapes stmts k c k')
    {g : BlockGraph} (hfits : c.Fits g) {left : List String} (hk : Linear k.code left) :
    LinearBlocks (c.blocks.filterMap g.block?) (left ++ (resultsAll k.temporaries stmts).1) := by
  induction h generalizing left with
  | nil k =>
      have hlast : LinearBlocks ([k.block].filterMap g.block?) (left ++ []) :=
        .cons_of_has hfits hk .nil
      rw [resultsAll]
      exact hlast
  | @flat s rest k k' c hs hrest ih =>
      have hall := ih hfits (hk.append (Stmt.emit_linear hs k.temporaries))
      rw [resultsAll, ← List.append_assoc, Stmt.results_temporaries hs]
      exact hall
  | @cond line condition thenBranch rest k k₁ k' arm c hthen hrest iht ihr =>
      obtain ⟨hlink, hhead, harm, hc⟩ := hfits
      have hregion := (iht harm .nil).append (ihr hc .nil)
      rw [← List.filterMap_append, k₁.temporaries_fresh, hthen.temporaries_eq] at hregion
      rw [resultsAll, Stmt.results]
      exact .cons_of_has hlink hk (.cons_of_tests hhead (condition.emit_linear _) hregion)
  | @condElse line condition thenBranch elseBranch rest k k₁ k₂ k' thenArm elseArm c hthen helse
      hrest iht ihe ihr =>
      obtain ⟨hlink, hhead, hthenFits, helseFits, hc⟩ := hfits
      have hregion := (iht hthenFits .nil).append ((ihe helseFits .nil).append (ihr hc .nil))
      rw [← List.filterMap_append, ← List.filterMap_append, k₂.temporaries_fresh,
        helse.temporaries_eq, k₁.temporaries_fresh, hthen.temporaries_eq] at hregion
      rw [resultsAll, Stmt.results, List.append_assoc]
      exact .cons_of_has hlink hk (.cons_of_tests hhead (condition.emit_linear _) hregion)
  | @loop line condition stmts rest k k₁ k' body c hbody hrest ihb ihr =>
      obtain ⟨hlink, hhead, hbodyFits, hc⟩ := hfits
      have hregion := (ihb hbodyFits .nil).append (ihr hc .nil)
      rw [← List.filterMap_append, k₁.temporaries_fresh, hbody.temporaries_eq] at hregion
      rw [resultsAll, Stmt.results]
      exact .cons_of_has hlink hk (.cons_of_tests hhead (condition.emit_linear _) hregion)

namespace Program.Lowered

variable {p : Program} {g : BlockGraph} {c : Chain}

/-- The chain of a lowered program goes through the blocks of the graph, each of them once. -/
theorem blocks_perm (h : p.Lowered g c) :
    (c.blocks.filterMap g.block?).Perm g.blocks.toList := by
  have hrange (n : Nat) : (List.range n).filterMap g.block? = g.blocks.toList.take n := by
    induction n with
    | zero => rfl
    | succ n ih =>
        rw [List.range_succ, List.filterMap_append, ih, List.take_add_one, Array.getElem?_toList]
        cases hb : g.blocks[n]? <;> simp [BlockGraph.block?, hb]
  have hperm := h.all.filterMap g.block?
  rwa [hrange, BlockGraph.size, ← Array.length_toList, List.take_length] at hperm

theorem linear (h : p.Lowered g c) :
    LinearBlocks (c.blocks.filterMap g.block?) p.results := by
  obtain ⟨k, hk⟩ := h.shape
  exact hk.linear h.spans.fits .nil

/-- All that a lowered program computes is read once or the result of an expression statement. -/
theorem computed_perm (h : p.Lowered g c) : g.computed.Perm (g.reads ++ p.results) := by
  have hcomputed := h.blocks_perm.flatMap_right fun b => targets b.code.toList
  have hreads := h.blocks_perm.flatMap_right Block.reads
  exact hcomputed.symm.trans (h.linear.balanced.trans (hreads.append_right _))

theorem computed_nodup (h : p.Lowered g c) : g.computed.Nodup := by
  obtain ⟨t, ht⟩ := h.fills
  have hnodup := ht.nodup
  rw [h.spans.fits.instrs_eq, targets, List.filterMap_flatMap] at hnodup
  exact (h.blocks_perm.flatMap_right _).nodup_iff.1 hnodup

end Program.Lowered
end Source

/-- **Temporaries are used linearly, within one block.** In every block of a lowered program, what
    an instruction reads has been computed by an earlier instruction of the block, and the test of
    the block by some instruction of it. Every temporary is read at exactly one place of the graph,
    but for the results of the expression statements, which are read nowhere. -/
theorem lowered_temporaries_linear {p : Source.Program} {g : BlockGraph} (h : p.lower = .ok g) :
    (∀ b ∈ g.blocks,
      (∀ (n : Nat) (i : Instr), b.code[n]? = some i → ∀ x ∈ i.sources,
        ∃ m < n, ∃ j : Instr, b.code[m]? = some j ∧ j.target? = some x) ∧
      ∀ x ∈ b.kind.tests, ∃ i ∈ b.code, i.target? = some x) ∧
    (∀ x ∈ p.results, x ∈ g.computed) ∧
    ∀ x ∈ g.computed, g.reads.count x = if x ∈ p.results then 0 else 1 := by
  obtain ⟨c, hc⟩ := Source.Program.exists_lowered h
  refine ⟨?_, ?_, ?_⟩
  · intro b hb
    obtain ⟨left, hlinear⟩ := hc.linear.of_mem (hc.blocks_perm.mem_iff.2 hb.val)
    constructor
    · intro n i hi x hx
      have hmem := hlinear.defined n i (by simpa using hi) x hx
      obtain ⟨j, hj, htarget⟩ := mem_targets_iff.1 hmem
      obtain ⟨m, hm, hget⟩ := List.mem_take_iff_getElem.1 hj
      exact ⟨m, by omega, j, by simp [← hget], htarget⟩
    · intro x hx
      simpa using mem_targets_iff.1 (hlinear.mem_targets (List.mem_append_left _ hx))
  · intro x hx
    exact hc.computed_perm.mem_iff.2 (List.mem_append_right _ hx)
  · intro x hx
    -- the only occurrence among the targets is a read or a result
    have hone := List.count_eq_one_of_mem hc.computed_nodup hx
    rw [hc.computed_perm.count_eq, List.count_append] at hone
    split
    · next hresult =>
        have hpos := List.count_pos_iff.2 hresult
        omega
    · next hresult =>
        rw [List.count_eq_zero_of_not_mem hresult] at hone
        exact hone

/-- Adds two numbers for nothing, in a conditional mentions a text for nothing, and prints. -/
def Source.Program.discarding : Source.Program := ⟨[
  .eval 1 (.arith .add (.ofConstant (.int 1)) (.ofConstant (.int 2))),
  .cond 2 (.ofConstant (.bool true)) [.eval 3 (.ofConstant (.string "idle"))] none,
  .print 4 (.ofConstant (.int 7))]⟩

theorem lowered_temporaries_linear_discarding :
    ∃ g, Source.Program.discarding.lower = .ok g ∧
      Source.Program.discarding.results = ["__int_2", "__string_0"] ∧
      g.computed = ["__int_0", "__int_1", "__int_2", "__bool_0", "__string_0", "__int_3"] ∧
      g.reads.count "__int_1" = 1 ∧ g.reads.count "__bool_0" = 1 ∧
      g.reads.count "__int_2" = 0 ∧ g.reads.count "__string_0" = 0 := by
  obtain ⟨h, -⟩ | ⟨-, g, -, hg, -⟩ := Source.Program.discarding.lower_cases
  · exact absurd h (by decide)
  · obtain ⟨-, -, hcount⟩ := lowered_temporaries_linear hg
    have hresults : Source.Program.discarding.results = ["__int_2", "__string_0"] := by
      decide +kernel
    have hcomputed : Source.Program.discarding.lower.toOption.map BlockGraph.computed
        = some ["__int_0", "__int_1", "__int_2", "__bool_0", "__string_0", "__int_3"] := by
      decide +kernel
    rw [hg, Except.toOption, Option.map_some, Option.some_inj] at hcomputed
    rw [hresults, hcomputed] at hcount
    exact ⟨g, hg, hresults, hcomputed, hcount _ (by simp), hcount _ (by simp),
      hcount _ (by simp), hcount _ (by simp)⟩

end ThreeAddress
