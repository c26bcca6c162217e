import ThreeAddress.Proofs.Graph.Walk
import ThreeAddress.Proofs.Lowering.Shape
import ThreeAddress.Proofs.Lowering.Straight

set_option autoImplicit false

/-! # Walks through lowered statements

A walk through the chain that statements have become does what direct execution of the statements
does: it comes to the end of the chain in a world that agrees, or fails with the fault that shows
why execution has stopped; and if execution needs more fuel than there is, the walk is still on its
way after as many steps. The walk has no step limit and its sink takes every text, as direct
execution knows neither. -/

namespace ThreeAddress

open Source

/-! ## Where a walk is -/

namespace Walk

/-- The walk goes through the graph `g` without limits, and the world is `v`; `base` is what the
    sink held at the start. -/
structure Holds (g : BlockGraph) (capabilities : List Capability) (base : String) (w : Walk)
    (v : World) : Prop where
  graph : w.graph = g
  capabilities : w.capabilities = capabilities
  limit : w.settings.stepLimit = none
  accepts : w.sink.Accepts
  store : w.store = v.store
  text : w.sink.text = base ++ v.output

/-- The walk has come to an instruction of a block, or behind the last one. -/
structure Stands (g : BlockGraph) (capabilities : List Capability) (base : String)
    (block : BlockId) (index : Nat) (returns : List BlockId) (w : Walk) (v : World) : Prop
    extends Holds g capabilities base w v where
  running : w.status = .running
  block : w.block = block
  index : w.index = index
  returns : w.returns = returns

/-- The walk has failed. -/
structure Fails (g : BlockGraph) (capabilities : List Capability) (base : String) (fault : Fault)
    (w : Walk) (v : World) : Prop extends Holds g capabilities base w v where
  failed : w.status = .failed fault

/-- The walk is at the end of a chain, behind the code of a straight block without a successor. -/
def Ends (g : BlockGraph) (capabilities : List Capability) (base : String)
    (returns : List BlockId) (w : Walk) (v : World) : Prop :=
  ∃ id b, g.block? id = some b ∧ b.kind = .straight ∧ b.next = none ∧
    Stands g capabilities base id b.code.size returns w v

variable {g : BlockGraph} {capabilities : List Capability} {base : String} {w : Walk} {v : World}
  {id : BlockId} {index : Nat} {returns : List BlockId} {b : Block}

theorem Holds.atLimit (h : Holds g capabilities base w v) : w.atLimit = none := by
  rw [Walk.atLimit, h.limit]
  rfl

end Walk

/-- Plain instructions do not depend on where they are. -/
theorem Instr.effect_of_isPlain {i : Instr} (h : i.isPlain = true) (capabilities : List Capability)
    (policy policy' : UnknownPolicy) (address address' : Nat) (s : Store) :
    i.effect capabilities policy address s = i.effect capabilities policy' address' s := by
  cases i with
  | unknown opcode operands => cases h
  | _ => rfl

namespace Walk

variable {g : BlockGraph} {capabilities : List Capability} {base : String} {w : Walk} {v : World}
  {id : BlockId} {index : Nat} {returns : List BlockId} {b : Block}

theorem Holds.commit (h : Holds g capabilities base w v) (effect : Effect) :
    Holds g capabilities base (w.commit effect) (v.commit effect) ∧
      (w.commit effect).status = w.status ∧ (w.commit effect).block = w.block ∧
      (w.commit effect).index = w.index ∧ (w.commit effect).returns = w.returns := by
  cases effect with
  | output line =>
      obtain ⟨sink, hwrite, htext, haccepts⟩ := h.accepts.writeLine line
      have hcommit : w.commit (.output line) = { w with sink := sink } := by
        rw [Walk.commit, hwrite]
      rw [hcommit]
      refine ⟨{ h with accepts := haccepts, text := ?_ }, rfl, rfl, rfl, rfl⟩
      rw [htext, h.text]
      simp [World.commit, World.print, String.append_assoc]
  | write name value =>
      refine ⟨{ h with store := ?_ }, rfl, rfl, rfl, rfl⟩
      rw [Walk.commit, World.commit, World.set, ← h.store]
  | allocate name type =>
      refine ⟨{ h with store := ?_ }, rfl, rfl, rfl, rfl⟩
      rw [Walk.commit, World.commit, World.declare, ← h.store]
  | skip => exact ⟨{ h with }, rfl, rfl, rfl, rfl⟩
  | goto address => exact ⟨{ h with }, rfl, rfl, rfl, rfl⟩

/-- One plain instruction of a walk. -/
theorem Stands.step_plain (h : Stands g capabilities base id index returns w v)
    (hb : g.block? id = some b) {i : Instr} (hi : b.code[index]? = some i)
    (hplain : i.isPlain = true) :
    match i.effect capabilities .fatal 0 v.store with
    | .ok effect => Stands g capabilities base id (index + 1) returns w.step (v.commit effect)
    | .error fault => Fails g capabilities base fault w.step v := by
  have hb' : w.graph.block? w.block = some b := by rw [h.graph, h.block, hb]
  have hstep := step_execute h.running hb' (h.index ▸ hi)
  rw [h.atLimit] at hstep
  have heffect : i.effect w.capabilities w.settings.unknownOpcode
      (address { w with steps := w.steps + 1 }) w.store
        = i.effect capabilities .fatal 0 v.store := by
    rw [h.capabilities, h.store]
    exact Instr.effect_of_isPlain hplain ..
  rw [hstep]
  cases hresult : i.effect capabilities .fatal 0 v.store with
  | error fault =>
      rw [hresult] at heffect
      simp only [execute, heffect]
      exact { h.toHolds with failed := rfl }
  | ok effect =>
      rw [hresult] at heffect
      simp only [execute, heffect]
      have hcounted : Holds g capabilities base
          { w with steps := w.steps + 1, index := w.index + 1 } v := { h.toHolds with }
      obtain ⟨hholds, hstatus, hblock, hindex, hreturns⟩ := hcounted.commit effect
      exact { hholds with
        running := hstatus.trans h.running
        block := hblock.trans h.block
        index := hindex.trans (congrArg (· + 1) h.index)
        returns := hreturns.trans h.returns }

/-- Plain code that comes next in the block of a walk is performed in as many steps. -/
theorem Stands.perform (hb : g.block? id = some b) (code rest : List Instr)
    (hcode : b.code.toList.drop index = code ++ rest)
    (hplain : ∀ i ∈ code, i.isPlain = true) (h : Stands g capabilities base id index returns w v) :
    match perform capabilities code v with
    | .done v' => Stands g capabilities base id (index + code.length) returns
        (w.after code.length) v'
    | .stopped v' fault => ∃ n, Fails g capabilities base fault (w.after n) v' := by
  induction code generalizing w v index with
  | nil => exact h
  | cons i code ih =>
      have hi : b.code[index]? = some i := by
        rw [← Array.getElem?_toList, ← List.head?_drop, hcode]
        rfl
      have hcode' : b.code.toList.drop (index + 1) = code ++ rest := by
        rw [← List.tail_drop, hcode]
        rfl
      rw [List.forall_mem_cons] at hplain
      have hstep := h.step_plain hb hi hplain.1
      simp only [Source.perform]
      cases heffect : i.effect capabilities .fatal 0 v.store with
      | error fault =>
          rw [heffect] at hstep
          exact ⟨1, hstep⟩
      | ok effect =>
          rw [heffect] at hstep
          have hrest := ih hcode' hplain.2 hstep
          dsimp only
          cases hperform : Source.perform capabilities code (v.commit effect) with
          | done v' =>
              rw [hperform] at hrest
              rw [List.length_cons, after_succ, Nat.add_comm code.length, ← Nat.add_assoc]
              exact hrest
          | stopped v' fault =>
              rw [hperform] at hrest
              obtain ⟨n, hn⟩ := hrest
              exact ⟨n + 1, hn⟩

/-! ## From block to block -/

theorem Stands.step_turn (h : Stands g capabilities base id b.code.size returns w v)
    (hb : g.block? id = some b) (hend : b.next.isSome = true ∨ returns ≠ []) :
    w.step = turn { w with steps := w.steps + 1 } b := by
  have hb' : w.graph.block? w.block = some b := by rw [h.graph, h.block, hb]
  have hnone : b.code[w.index]? = none := by
    rw [h.index]
    exact Array.getElem?_eq_none (Nat.le_refl _)
  have hatEnd : w.atEnd b = false := by
    rw [atEnd, h.returns]
    rcases hend with hnext | hreturns
    · rw [Option.isNone_eq_false_iff.2 hnext, Bool.and_false, Bool.false_and]
    · rw [List.isEmpty_eq_false_iff.2 hreturns, Bool.and_false]
  rw [Walk.step_turn h.running hb' hnone hatEnd, h.atLimit]

theorem Stands.enter (h : Stands g capabilities base id index returns w v) (target : BlockId)
    (returns' : List BlockId) :
    Stands g capabilities base target 0 returns'
      (Walk.enter { w with steps := w.steps + 1 } target returns') v :=
  { h.toHolds with running := h.running, block := rfl, index := rfl, returns := rfl }

/-- A straight block with a successor. -/
theorem Stands.step_next (h : Stands g capabilities base id b.code.size returns w v)
    (hb : g.block? id = some b) (hkind : b.kind = .straight) {next : BlockId}
    (hnext : b.next = some next) : Stands g capabilities base next 0 returns w.step v := by
  rw [h.step_turn hb (.inl (by rw [hnext]; rfl))]
  simp only [turn, hkind, hnext]
  rw [h.returns]
  exact h.enter next returns

/-- The end of a region, from which the walk returns. -/
theorem Ends.step_return {target : BlockId}
    (h : Ends g capabilities base (target :: returns) w v) :
    Stands g capabilities base target 0 returns w.step v := by
  obtain ⟨id, b, hb, hkind, hnext, h⟩ := h
  rw [h.step_turn hb (.inr (List.cons_ne_nil _ _))]
  simp only [turn, hkind, hnext, h.returns]
  exact h.enter target returns

/-- The end of everything. -/
theorem Ends.step_halt (h : Ends g capabilities base [] w v) :
    w.step = { w with status := .halted } := by
  obtain ⟨id, b, hb, hkind, hnext, h⟩ := h
  have hb' : w.graph.block? w.block = some b := by rw [h.graph, h.block, hb]
  refine Walk.step_halt h.running hb' ?_
  rw [atEnd, h.returns, h.index, hnext]
  simp

/-- A block that goes on in one of two ways. -/
theorem Stands.step_choose (h : Stands g capabilities base id b.code.size returns w v)
    (hb : g.block? id = some b) (hnext : b.next.isSome = true) {test : String}
    {ifTrue ifFalse : BlockId} {returnsTrue returnsFalse : List BlockId}
    (hturn : ∀ w' : Walk, w'.block = id → w'.returns = returns →
      w'.turn b = w'.choose test (w'.enter ifTrue returnsTrue) (w'.enter ifFalse returnsFalse)) :
    match v.store.readTyped test .bool with
    | .ok c =>
      if c = .bool true then Stands g capabilities base ifTrue 0 returnsTrue w.step v
      else Stands g capabilities base ifFalse 0 returnsFalse w.step v
    | .error fault => Fails g capabilities base fault w.step v := by
  have hstep := h.step_turn hb (.inl hnext)
  rw [hturn { w with steps := w.steps + 1 } h.block h.returns] at hstep
  rw [hstep, choose]
  dsimp only
  rw [← h.store]
  cases w.store.readTyped test .bool with
  | error fault => exact { h.toHolds with failed := rfl }
  | ok c =>
      dsimp only
      split
      · exact h.enter ifTrue returnsTrue
      · exact h.enter ifFalse returnsFalse

/-- A block that evaluates a condition and goes on in one of two ways. -/
theorem Stands.test {W : World} {condition : Expr} {t : Temporaries}
    (hsound : condition.Sound capabilities W) (hagrees : W.Agrees v)
    (h : Stands g capabilities base id 0 returns w v) (hb : g.block? id = some b)
    (hcode : b.code.toList = (condition.emit t).code) (hnext : b.next.isSome = true)
    {ifTrue ifFalse : BlockId} {returnsTrue returnsFalse : List BlockId}
    (hturn : ∀ w' : Walk, w'.block = id → w'.returns = returns →
      w'.turn b = w'.choose (condition.emit t).value (w'.enter ifTrue returnsTrue)
        (w'.enter ifFalse returnsFalse)) :
    match condition.test W.store with
    | .ok truth => ∃ n v', W.Agrees v' ∧
        if truth then Stands g capabilities base ifTrue 0 returnsTrue (w.after (n + 1)) v'
        else Stands g capabilities base ifFalse 0 returnsFalse (w.after (n + 1)) v'
    | .error why => ∃ n v' fault, Fails g capabilities base fault (w.after n) v' ∧ W.Agrees v' ∧
        why.Shows fault := by
  have hperform := h.perform hb (condition.emit t).code [] (by rw [List.append_nil]; exact hcode)
    (condition.emit_plain t)
  have hcomputes := hsound t v hagrees
  unfold Expr.test
  cases heval : condition.eval W.store with
  | error why =>
      rw [heval] at hcomputes
      obtain ⟨v', fault, hdone, hagrees', hshows⟩ := hcomputes
      rw [hdone] at hperform
      obtain ⟨n, hn⟩ := hperform
      exact ⟨n, v', fault, hn, hagrees', hshows⟩
  | ok c =>
      rw [heval] at hcomputes
      obtain ⟨v', hdone, hagrees', -, hget⟩ := hcomputes
      rw [hdone] at hperform
      have hsize : 0 + (condition.emit t).code.length = b.code.size := by
        rw [Nat.zero_add, ← hcode, Array.length_toList]
      rw [hsize] at hperform
      have hchoose := hperform.step_choose hb hnext hturn
      -- the walk reads the truth value from the temporary of the condition
      have hrefines := refines_readTyped (condition.emit_temporaries t).2.isTemporary hget .bool
      rw [ok_bind]
      rcases hrefines.cases with ⟨c', hexpect, hread⟩ | ⟨why, fault, hexpect, hread, hshows⟩
      · rw [hread, ← after_succ'] at hchoose
        rw [hexpect]
        refine ⟨(condition.emit t).code.length, v', hagrees', ?_⟩
        simpa using hchoose
      · rw [hread, ← after_succ'] at hchoose
        rw [hexpect]
        exact ⟨_, v', fault, hchoose, hagrees', hshows⟩

/-! ## Walks that follow an execution -/

/-- The walk does what the outcome says: it comes to a point that satisfies `P`, or it fails, or,
    without an outcome, it is still on its way after as many steps as there is fuel. -/
def Reach (g : BlockGraph) (capabilities : List Capability) (base : String) (fuel : Nat) (w : Walk)
    (P : Walk → World → Prop) : Option (Outcome Stop) → Prop
  | none => ∃ n, fuel ≤ n ∧ (w.after n).status = .running
  | some (.done W) => ∃ n v, P (w.after n) v ∧ W.Agrees v
  | some (.stopped W why) =>
    ∃ n v fault, Fails g capabilities base fault (w.after n) v ∧ W.Agrees v ∧ why.Shows fault

namespace Reach

variable {fuel fuel' : Nat} {P Q : Walk → World → Prop} {o : Option (Outcome Stop)}

/-- Steps in front count as well. -/
theorem before {n : Nat} (h : Reach g capabilities base fuel (w.after n) P o)
    (hfuel : fuel' ≤ n + fuel) : Reach g capabilities base fuel' w P o := by
  match o with
  | none =>
      obtain ⟨k, hk, hrunning⟩ := h
      rw [← after_add] at hrunning
      exact ⟨n + k, by omega, hrunning⟩
  | some (.done W) =>
      obtain ⟨k, v, hP, hagrees⟩ := h
      rw [← after_add] at hP
      exact ⟨n + k, v, hP, hagrees⟩
  | some (.stopped W why) =>
      obtain ⟨k, v, fault, hfails, hrest⟩ := h
      rw [← after_add] at hfails
      exact ⟨n + k, v, fault, hfails, hrest⟩

theorem mono (h : Reach g capabilities base fuel w P o) (hfuel : fuel' ≤ fuel) :
    Reach g capabilities base fuel' w P o :=
  before (n := 0) h (Nat.le_trans hfuel (Nat.le_add_left _ _))

/-- What follows goes on where the walk has come to. -/
theorem andThen (h : Reach g capabilities base fuel w P o) {next : World → Option (Outcome Stop)}
    (hnext : ∀ W w v, P w v → W.Agrees v → Reach g capabilities base fuel w Q (next W)) :
    Reach g capabilities base fuel w Q
      (match o with
        | some (.done W) => next W
        | stopped => stopped) := by
  match o with
  | none => exact h
  | some (.stopped W why) => exact h
  | some (.done W) =>
      obtain ⟨n, v, hP, hagrees⟩ := h
      exact (hnext W _ v hP hagrees).before (Nat.le_add_left _ _)

/-- The walk returns from a region. -/
theorem returned {target : BlockId}
    (h : Reach g capabilities base fuel w (Ends g capabilities base (target :: returns)) o) :
    Reach g capabilities base fuel w (Stands g capabilities base target 0 returns) o := by
  match o with
  | none => exact h
  | some (.stopped W why) => exact h
  | some (.done W) =>
      obtain ⟨n, v, hends, hagrees⟩ := h
      have hstep := hends.step_return
      rw [← after_succ'] at hstep
      exact ⟨n + 1, v, hstep, hagrees⟩

end Reach

/-- A walk that enters the chain behind the first `index` instructions executes the statements. -/
def Runs (g : BlockGraph) (capabilities : List Capability) (base : String) (stmts : List Stmt)
    (c : Chain) (index : Nat) : Prop :=
  ∀ (fuel : Nat) (W : World) (w : Walk) (v : World) (returns : List BlockId),
    Stands g capabilities base c.first index returns w v → W.Agrees v →
    Reach g capabilities base fuel w (Ends g capabilities base returns)
      (execAll capabilities fuel stmts W)

section Compound

variable {condition : Expr} {t : Temporaries} {W : World}

/-- A block that evaluates a condition, and both ways in which it may go on. Passing from the block
    to another is a step, so that the walk lasts for one more than either way does. -/
theorem Stands.reach_test {ifTrue ifFalse : BlockId} {returnsTrue returnsFalse : List BlockId}
    {P : Walk → World → Prop} {fuel : Nat} {x y : Option (Outcome Stop)}
    (hsound : condition.Sound capabilities W) (hagrees : W.Agrees v)
    (h : Stands g capabilities base id 0 returns w v) (hb : g.block? id = some b)
    (hcode : b.code.toList = (condition.emit t).code) (hnext : b.next.isSome = true)
    (hturn : ∀ w' : Walk, w'.block = id → w'.returns = returns →
      w'.turn b = w'.choose (condition.emit t).value (w'.enter ifTrue returnsTrue)
        (w'.enter ifFalse returnsFalse))
    (htrue : ∀ w v, Stands g capabilities base ifTrue 0 returnsTrue w v → W.Agrees v →
      Reach g capabilities base fuel w P x)
    (hfalse : ∀ w v, Stands g capabilities base ifFalse 0 returnsFalse w v → W.Agrees v →
      Reach g capabilities base fuel w P y) :
    Reach g capabilities base (fuel + 1) w P
      (match condition.test W.store with
        | .error why => some (.stopped W why)
        | .ok true => x
        | .ok false => y) := by
  have htest := h.test hsound hagrees hb hcode hnext hturn
  match hresult : condition.test W.store with
  | .error why =>
      rw [hresult] at htest
      exact htest
  | .ok true =>
      rw [hresult] at htest
      obtain ⟨n, v', hagrees', hstands⟩ := htest
      exact (htrue _ v' hstands hagrees').before (by omega)
  | .ok false =>
      rw [hresult] at htest
      obtain ⟨n, v', hagrees', hstands⟩ := htest
      exact (hfalse _ v' hstands hagrees').before (by omega)

theorem Stands.reach_cond {thenBranch : List Stmt} {arm : Chain} {merge : BlockId}
    (hsound : condition.Sound capabilities W) (harm : Runs g capabilities base thenBranch arm 0)
    (hheader : g.Has id (condition.emit t).code
      (.conditional (condition.emit t).value arm.first none) (some merge))
    (h : Stands g capabilities base id 0 returns w v) (hagrees : W.Agrees v) (line : UInt64)
    (fuel : Nat) :
    Reach g capabilities base fuel w (Stands g capabilities base merge 0 returns)
      ((Stmt.cond line condition thenBranch none).exec capabilities fuel W) := by
  obtain ⟨b, hb, hcode, hkind, hnext⟩ := hheader
  have hturn : ∀ w' : Walk, w'.block = id → w'.returns = returns →
      w'.turn b = w'.choose (condition.emit t).value (w'.enter arm.first (merge :: returns))
        (w'.enter merge returns) := by
    rintro w' - hreturns
    simp only [turn, hkind, hnext, hreturns]
  unfold Stmt.exec
  refine (h.reach_test hsound hagrees hb hcode (by rw [hnext]; rfl) hturn ?_ ?_).mono
    (Nat.le_succ fuel)
  · intro w' v' hstands hagrees'
    exact (harm fuel W w' v' _ hstands hagrees').returned
  · intro w' v' hstands hagrees'
    exact ⟨0, v', hstands, hagrees'⟩

theorem Stands.reach_condElse {thenBranch elseBranch : List Stmt} {thenArm elseArm : Chain}
    {merge : BlockId} (hsound : condition.Sound capabilities W)
    (hthen : Runs g capabilities base thenBranch thenArm 0)
    (helse : Runs g capabilities base elseBranch elseArm 0)
    (hheader : g.Has id (condition.emit t).code
      (.conditional (condition.emit t).value thenArm.first (some elseArm.first)) (some merge))
    (h : Stands g capabilities base id 0 returns w v) (hagrees : W.Agrees v) (line : UInt64)
    (fuel : Nat) :
    Reach g capabilities base fuel w (Stands g capabilities base merge 0 returns)
      ((Stmt.cond line condition thenBranch (some elseBranch)).exec capabilities fuel W) := by
  obtain ⟨b, hb, hcode, hkind, hnext⟩ := hheader
  have hturn : ∀ w' : Walk, w'.block = id → w'.returns = returns →
      w'.turn b = w'.choose (condition.emit t).value (w'.enter thenArm.first (merge :: returns))
        (w'.enter elseArm.first (merge :: returns)) := by
    rintro w' - hreturns
    simp only [turn, hkind, hnext, hreturns]
  unfold Stmt.exec
  refine (h.reach_test hsound hagrees hb hcode (by rw [hnext]; rfl) hturn ?_ ?_).mono
    (Nat.le_succ fuel)
  · intro w' v' hstands hagrees'
    exact (hthen fuel W w' v' _ hstands hagrees').returned
  · intro w' v' hstands hagrees'
    exact (helse fuel W w' v' _ hstands hagrees').returned

/-- The rounds of a loop. Each takes at least one step, so that the walk lasts as long as the rounds
    do. -/
theorem Stands.reach_iterate {stmts : List Stmt} {body : Chain} {exit : BlockId}
    (hsound : ∀ W, condition.Sound capabilities W) (hbody : Runs g capabilities base stmts body 0)
    (hheader : g.Has id (condition.emit t).code (.loop (condition.emit t).value body.first)
      (some exit)) {rounds fuel : Nat} (hrounds : rounds ≤ fuel)
    (h : Stands g capabilities base id 0 returns w v) (hagrees : W.Agrees v) :
    Reach g capabilities base rounds w (Stands g capabilities base exit 0 returns)
      (iterate (fun w => condition.test w.store) (execAll capabilities fuel stmts) rounds W) := by
  obtain ⟨b, hb, hcode, hkind, hnext⟩ := hheader
  have hturn : ∀ w' : Walk, w'.block = id → w'.returns = returns →
      w'.turn b = w'.choose (condition.emit t).value (w'.enter body.first (id :: returns))
        (w'.enter exit returns) := by
    intro w' hblock hreturns
    simp only [turn, hkind, hnext, hreturns, hblock]
  induction rounds generalizing W w v with
  | zero => exact ⟨0, Nat.le_refl _, h.running⟩
  | succ rounds ih =>
      have hle : rounds ≤ fuel := Nat.le_of_succ_le hrounds
      unfold iterate
      refine h.reach_test (hsound W) hagrees hb hcode (by rw [hnext]; rfl) hturn ?_ ?_
      · intro w' v' hstands hagrees'
        have hround := (hbody fuel W w' v' _ hstands hagrees').returned
        -- the body leads back to the header, where the next round starts
        exact (hround.mono hle).andThen fun W' w' v' hstands hagrees => ih hle hstands hagrees
      · intro w' v' hstands hagrees'
        exact ⟨0, v', hstands, hagrees'⟩

theorem Stands.reach_loop {stmts : List Stmt} {body : Chain} {exit : BlockId}
    (hsound : ∀ W, condition.Sound capabilities W) (hbody : Runs g capabilities base stmts body 0)
    (hheader : g.Has id (condition.emit t).code (.loop (condition.emit t).value body.first)
      (some exit)) (h : Stands g capabilities base id 0 returns w v) (hagrees : W.Agrees v)
    (line : UInt64) (fuel : Nat) :
    Reach g capabilities base fuel w (Stands g capabilities base exit 0 returns)
      ((Stmt.loop line condition stmts).exec capabilities fuel W) := by
  rw [Stmt.exec]
  exact h.reach_iterate hsound hbody hheader (Nat.le_refl fuel) hagrees

end Compound

end Walk

/-! ## Statements -/

namespace Source

open Walk

variable {g : BlockGraph} {capabilities : List Capability} {base : String}

/-- A chain starts with the code in front of its cursor. -/
theorem Shapes.code_eq {stmts : List Stmt} {k k' : Cursor} {c : Chain} (h : Shapes stmts k c k') :
    ∃ rest, c.code = k.code ++ rest := by
  induction h with
  | nil k => exact ⟨[], (List.append_nil _).symm⟩
  | @flat s rest k k' c hs hrest ih =>
      obtain ⟨rest, hcode⟩ := ih
      rw [hcode, Cursor.grow, List.append_assoc]
      exact ⟨_, rfl⟩
  | _ => exact ⟨[], (List.append_nil _).symm⟩

/-- A walk passes from the current block to the header of a conditional or a loop. -/
theorem stands_header {k : Cursor} {returns : List BlockId} {w : Walk} {v : World}
    (hfront : g.Has k.block k.code .straight (some k.size))
    (h : Stands g capabilities base k.block k.code.length returns w v) :
    Stands g capabilities base k.size 0 returns (w.after 1) v := by
  obtain ⟨b, hb, hcode, hkind, hnext⟩ := hfront
  rw [← hcode, Array.length_toList] at h
  exact h.step_next hb hkind hnext

/-- The chain of decorated statements executes them. -/
theorem Shapes.runs {stmts : List Stmt} {k k' : Cursor} {c : Chain} (h : Shapes stmts k c k')
    (hdecorated : decoratedAll stmts = true) (hproper : Proper (namesAll stmts))
    (hfits : c.Fits g) : Runs g capabilities base stmts c k.code.length := by
  induction h with
  | nil k =>
      intro fuel W w v returns hstands hagrees
      obtain ⟨b, hb, hcode, hkind, hnext⟩ := hfits
      -- no statement is left, and the walk is behind the code of the last block
      rw [← hcode, Array.length_toList] at hstands
      exact ⟨0, v, ⟨_, b, hb, hkind, hnext, hstands⟩, hagrees⟩
  | @flat s rest k k' c hs hrest ih =>
      intro fuel W w v returns hstands hagrees
      simp only [decoratedAll, Bool.and_eq_true] at hdecorated
      simp only [namesAll, proper_append] at hproper
      obtain ⟨o, hexec, hmatches⟩ : ∃ o, s.exec capabilities fuel W = some o ∧
          o.Matches (perform capabilities (s.emit k.temporaries).code v) :=
        Stmt.exec_matches hs hdecorated.1 hproper.1 hagrees k.temporaries fuel
      obtain ⟨b, hb, hcode⟩ := hfits.block
      obtain ⟨behind, hbehind⟩ := hrest.code_eq
      -- the code of the statement is what comes next in the block
      have hdrop : b.code.toList.drop k.code.length = (s.emit k.temporaries).code ++ behind := by
        rw [hcode, hbehind, Cursor.grow, List.append_assoc, List.drop_left]
      have hperform := hstands.perform hb _ behind hdrop (s.emit_plain k.temporaries)
      rw [execAll, hexec]
      cases hresult : perform capabilities (s.emit k.temporaries).code v with
      | stopped v' fault =>
          rw [hresult] at hmatches hperform
          obtain ⟨n, hn⟩ := hperform
          cases o with
          | done W' => cases hmatches
          | stopped W' why => exact ⟨n, v', fault, hn, hmatches⟩
      | done v' =>
          rw [hresult] at hmatches hperform
          cases o with
          | stopped W' why => cases hmatches
          | done W' =>
              rw [← List.length_append] at hperform
              have hgoes := ih hdecorated.2 hproper.2 hfits fuel W' _ v' returns hperform hmatches
              exact hgoes.before (Nat.le_add_left _ _)
  | @cond line condition thenBranch rest k k₁ k' arm c hthen hrest iht ihr =>
      intro fuel W w v returns hstands hagrees
      simp only [decoratedAll, Stmt.decorated, Bool.and_eq_true] at hdecorated
      simp only [namesAll, Stmt.names, proper_append] at hproper
      obtain ⟨hfront, hheader, harm, hfits⟩ := hfits
      have hsound : condition.Sound capabilities W :=
        condition.sound W hdecorated.1.1 hproper.1.1
      have hruns := iht hdecorated.1.2 hproper.1.2 harm
      have hreach := (stands_header hfront hstands).reach_cond hsound hruns hheader hagrees line
        fuel
      rw [execAll]
      refine (hreach.before (Nat.le_add_left _ _)).andThen fun W' w' v' hstands' hagrees' => ?_
      exact ihr hdecorated.2 hproper.2 hfits fuel W' w' v' returns hstands' hagrees'
  | @condElse line condition thenBranch elseBranch rest k k₁ k₂ k' thenArm elseArm c hthen helse
      hrest iht ihe ihr =>
      intro fuel W w v returns hstands hagrees
      simp only [decoratedAll, Stmt.decorated, Bool.and_eq_true] at hdecorated
      simp only [namesAll, Stmt.names, proper_append] at hproper
      obtain ⟨hfront, hheader, hthenArm, helseArm, hfits⟩ := hfits
      have hsound : condition.Sound capabilities W :=
        condition.sound W hdecorated.1.1.1 hproper.1.1
      have hthenRuns := iht hdecorated.1.1.2 hproper.1.2.1 hthenArm
      have helseRuns := ihe hdecorated.1.2 hproper.1.2.2 helseArm
      have hreach := (stands_header hfront hstands).reach_condElse hsound hthenRuns helseRuns
        hheader hagrees line fuel
      rw [execAll]
      refine (hreach.before (Nat.le_add_left _ _)).andThen fun W' w' v' hstands' hagrees' => ?_
      exact ihr hdecorated.2 hproper.2 hfits fuel W' w' v' returns hstands' hagrees'
  | @loop line condition stmts rest k k₁ k' body c hbody hrest ihb ihr =>
      intro fuel W w v returns hstands hagrees
      simp only [decoratedAll, Stmt.decorated, Bool.and_eq_true] at hdecorated
      simp only [namesAll, Stmt.names, proper_append] at hproper
      obtain ⟨hfront, hheader, hbodyFits, hfits⟩ := hfits
      have hsound : ∀ W, condition.Sound capabilities W := fun W =>
        condition.sound W hdecorated.1.1 hproper.1.1
      have hruns := ihb hdecorated.1.2 hproper.1.2 hbodyFits
      have hreach := (stands_header hfront hstands).reach_loop hsound hruns hheader hagrees line
        fuel
      rw [execAll]
      refine (hreach.before (Nat.le_add_left _ _)).andThen fun W' w' v' hstands' hagrees' => ?_
      exact ihr hdecorated.2 hproper.2 hfits fuel W' w' v' returns hstands' hagrees'

end Source

end ThreeAddress
