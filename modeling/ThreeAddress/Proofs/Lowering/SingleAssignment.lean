import ThreeAddress.Proofs.Layout.Placement
import ThreeAddress.Proofs.Lowering.Fresh
import ThreeAddress.Proofs.Lowering.Linkable

set_option autoImplicit false

/-! # Single assignment

Lowering takes a new temporary for every value that is computed, and the layout neither drops nor
repeats an instruction. So no two instructions of a compiled program compute into the same cell, and
the temporaries of each type are numbered without a gap.

`Temporaries.Fills` says which names a piece of code computes into: exactly those of the temporaries
that are new behind it, each of them once. Pieces one behind the other fill up one behind the other
(`Temporaries.Fills.trans`), and the proof follows the tree. -/

namespace ThreeAddress

/-- The cells that code computes values into, in order. -/
def targets (code : List Instr) : List String := code.filterMap Instr.target?

@[simp] theorem targets_nil : targets [] = [] := rfl

@[simp] theorem targets_append (code code' : List Instr) :
    targets (code ++ code') = targets code ++ targets code' := List.filterMap_append

theorem targets_cons (i : Instr) (code : List Instr) :
    targets (i :: code) = i.target?.toList ++ targets code := by
  cases h : i.target? <;> simp [targets, h]

@[simp] theorem targets_singleton (i : Instr) : targets [i] = i.target?.toList := by
  rw [targets_cons, targets_nil, List.append_nil]

theorem mem_targets_iff {code : List Instr} {x : String} :
    x ∈ targets code ↔ ∃ i ∈ code, i.target? = some x := List.mem_filterMap

/-! ## New temporaries -/

namespace Temporaries

variable {t t' t'' : Temporaries} {name : String}

theorem not_between_self (t : Temporaries) (name : String) : ¬ t.Between t name := by
  rintro ⟨type, n, -, hle, hlt⟩
  exact Nat.not_le.2 hlt hle

/-- The only temporary that is new behind one more of a type. -/
theorem between_bump_iff {type : ScalarType} :
    t.Between (t.bump type) name ↔ name = Temporaries.name type (t.count type) := by
  constructor
  · rintro ⟨other, n, rfl, hle, hlt⟩
    by_cases h : other = type
    · subst h
      rw [count_bump_self] at hlt
      rw [Nat.le_antisymm (Nat.le_of_lt_succ hlt) hle]
    · rw [count_bump_of_ne t h] at hlt
      exact absurd hlt (Nat.not_lt.2 hle)
  · rintro rfl
    exact ⟨type, _, rfl, Nat.le_refl _, by rw [count_bump_self]; exact Nat.lt_succ_self _⟩

theorem between_trans_iff (h : t.Within t') (h' : t'.Within t'') :
    t.Between t'' name ↔ t.Between t' name ∨ t'.Between t'' name := by
  constructor
  · rintro ⟨type, n, rfl, hle, hlt⟩
    by_cases hn : n < t'.count type
    · exact .inl ⟨type, n, rfl, hle, hn⟩
    · exact .inr ⟨type, n, rfl, Nat.not_lt.1 hn, hlt⟩
  · rintro (hname | hname)
    · exact hname.mono_right h'
    · exact hname.mono_left h

/-- A temporary is new once only. -/
theorem Between.not_later (h : t.Between t' name) : ¬ t'.Between t'' name := by
  obtain ⟨type, n, rfl, -, hlt⟩ := h
  rintro ⟨type', n', heq, hle, -⟩
  obtain ⟨rfl, rfl⟩ := name_inj.1 heq
  exact Nat.not_le.2 hlt hle

/-- The names are those of the temporaries of `t'` that are not in `t`, each of them once. -/
structure Fills (t : Temporaries) (names : List String) (t' : Temporaries) : Prop where
  within : t.Within t'
  nodup : names.Nodup
  mem_iff : ∀ name, name ∈ names ↔ t.Between t' name

namespace Fills

theorem nil (t : Temporaries) : t.Fills [] t where
  within := .refl t
  nodup := List.nodup_nil
  mem_iff := by
    intro name
    simp [t.not_between_self name]

theorem bump (t : Temporaries) (type : ScalarType) :
    t.Fills [Temporaries.name type (t.count type)] (t.bump type) where
  within := t.within_bump type
  nodup := by simp
  mem_iff := by
    intro name
    rw [List.mem_singleton, between_bump_iff]

theorem trans {names names' : List String} (h : t.Fills names t') (h' : t'.Fills names' t'') :
    t.Fills (names ++ names') t'' where
  within := h.within.trans h'.within
  nodup := by
    rw [List.nodup_append]
    refine ⟨h.nodup, h'.nodup, ?_⟩
    rintro name hname _ hname' rfl
    exact ((h.mem_iff name).1 hname).not_later ((h'.mem_iff name).1 hname')
  mem_iff := by
    intro name
    rw [List.mem_append, h.mem_iff, h'.mem_iff, between_trans_iff h.within h'.within]

end Fills

end Temporaries

/-! ## Expressions and statements -/

namespace Source

open Temporaries

/-- One more computation fills one more temporary. -/
theorem fills_compute {t t' : Temporaries} {code : List Instr} (h : t.Fills (targets code) t')
    (type : ScalarType) {instr : String → Instr} (hinstr : ∀ x, (instr x).target? = some x) :
    t.Fills (targets (Emission.compute code t' type instr).code)
      (Emission.compute code t' type instr).temporaries := by
  simp only [Emission.compute, targets_append, targets_singleton, hinstr, Option.toList_some]
  exact h.trans (.bump t' type)

mutual

/-- The code of an expression computes into each of its temporaries once. -/
theorem Expr.emit_fills (t : Temporaries) : (e : Expr) →
    t.Fills (targets (e.emit t).code) (e.emit t).temporaries
  | .literal _ value => by
      unfold Expr.emit
      exact fills_compute (.nil t) _ fun _ => rfl
  | .binary _ op left right => by
      unfold Expr.emit
      have hboth := (left.emit_fills t).trans (right.emit_fills (left.emit t).temporaries)
      rw [← targets_append] at hboth
      exact fills_compute hboth _ fun _ => rfl
  | .relational _ op left right => by
      unfold Expr.emit
      have hboth := (left.emit_fills t).trans (right.emit_fills (left.emit t).temporaries)
      rw [← targets_append] at hboth
      exact fills_compute hboth _ fun _ => rfl
  | .unary _ op operand => by
      unfold Expr.emit
      exact fills_compute (operand.emit_fills t) _ fun _ => rfl
  | .load type name => by
      unfold Expr.emit
      exact fills_compute (.nil t) _ fun _ => rfl
  | .group _ inner => by
      unfold Expr.emit
      exact inner.emit_fills t
  | .call type name args => by
      unfold Expr.emit
      exact fills_compute (emitArgs_fills t args) _ fun _ => rfl

theorem emitArgs_fills (t : Temporaries) : (args : List Expr) →
    t.Fills (targets (emitArgs t args).code) (emitArgs t args).temporaries
  | [] => by
      unfold emitArgs
      exact .nil t
  | e :: rest => by
      unfold emitArgs
      rw [targets_append]
      exact (e.emit_fills t).trans (emitArgs_fills (e.emit t).temporaries rest)

end

/-- So does the code of a statement that stays in one block. -/
theorem Stmt.emit_fills (t : Temporaries) (s : Stmt) :
    t.Fills (targets (s.emit t).code) (s.emit t).temporaries := by
  have hbehind (value : Expr) {i : Instr} (hi : i.target? = none) :
      t.Fills (targets ((value.emit t).code ++ [i])) (value.emit t).temporaries := by
    rw [targets_append, targets_singleton, hi, Option.toList_none, List.append_nil]
    exact value.emit_fills t
  have hdecl (type : ScalarType) (name : String) (value : Expr) :
      t.Fills (targets (emitDeclaration t type name value).code)
        (emitDeclaration t type name value).temporaries := hbehind value rfl
  unfold Stmt.emit
  split
  · exact hdecl _ _ _
  · exact hdecl _ _ _
  · exact .nil t
  · next value => exact hbehind value rfl
  · next value => exact hbehind value rfl
  · exact .nil t
  · next value => exact value.emit_fills t
  · exact .nil t
  · exact .nil t

/-- Lowered statements fill the temporaries up to the cursor at which they end, if the code in front
    of them fills those up to the cursor at which they begin. -/
theorem Shapes.fills {stmts : List Stmt} {k k' : Cursor} {c : Chain} (h : Shapes stmts k c k')
    {t : Temporaries} (hk : t.Fills (targets k.code) k.temporaries) :
    t.Fills (targets c.instrs) k'.temporaries := by
  induction h generalizing t with
  | nil k => exact hk
  | @flat s rest k k' c hs hrest ih =>
      apply ih
      rw [Cursor.grow, targets_append]
      exact hk.trans (s.emit_fills k.temporaries)
  | @cond line condition thenBranch rest k k₁ k' arm c hthen hrest iht ihr =>
      simp only [Chain.instrs, targets_append]
      exact hk.trans ((condition.emit_fills _).trans ((iht (.nil _)).trans (ihr (.nil _))))
  | @condElse line condition thenBranch elseBranch rest k k₁ k₂ k' thenArm elseArm c hthen helse
      hrest iht ihe ihr =>
      simp only [Chain.instrs, targets_append]
      exact hk.trans ((condition.emit_fills _).trans
        ((iht (.nil _)).trans ((ihe (.nil _)).trans (ihr (.nil _)))))
  | @loop line condition stmts rest k k₁ k' body c hbody hrest ihb ihr =>
      simp only [Chain.instrs, targets_append]
      exact hk.trans ((condition.emit_fills _).trans ((ihb (.nil _)).trans (ihr (.nil _))))

theorem Program.Lowered.fills {p : Program} {g : BlockGraph} {c : Chain} (h : p.Lowered g c) :
    ∃ t, Temporaries.Fills {} (targets c.instrs) t := by
  obtain ⟨k, hk⟩ := h.shape
  exact ⟨k.temporaries, hk.fills (.nil _)⟩

end Source

/-! ## Programs -/

/-- The jumps that the layout adds compute nothing. -/
theorem Chain.targets_slots (c : Chain) (origin : BlockId → Nat) :
    targets (c.slots.map (Slot.resolved origin)) = targets c.instrs := by
  have hcode (code : List Instr) (slot : Slot) (hslot : (slot.resolved origin).target? = none)
      (slots : List Slot) :
      targets ((code.map Slot.instr ++ slot :: slots).map (Slot.resolved origin))
        = targets code ++ targets (slots.map (Slot.resolved origin)) := by
    rw [List.map_append, map_resolved_instr, List.map_cons, targets_append, targets_cons, hslot,
      Option.toList_none, List.nil_append]
  have hregion (c : Chain) (target : BlockId) (slots : List Slot) :
      targets ((c.slots ++ .jump target :: slots).map (Slot.resolved origin))
        = targets (c.slots.map (Slot.resolved origin))
          ++ targets (slots.map (Slot.resolved origin)) := by
    rw [List.map_append, List.map_cons, targets_append, targets_cons]
    rfl
  induction c with
  | last id code => rw [slots, instrs, map_resolved_instr]
  | link id code rest ih => rw [slots, instrs, hcode _ _ rfl, ih, targets_append]
  | cond id code test arm rest iha ihr =>
      rw [slots, instrs, hcode _ _ rfl, hregion, iha, ihr, targets_append, targets_append]
  | condElse id code test thenArm elseArm rest iht ihe ihr =>
      rw [slots, instrs, hcode _ _ rfl, hregion, hregion, iht, ihe, ihr, targets_append,
        targets_append, targets_append]
  | loop id code test body rest ihb ihr =>
      rw [slots, instrs, hcode _ _ rfl, hregion, ihb, ihr, targets_append, targets_append]

/-- **Compiled programs assign every temporary once.** The cells that the instructions of a compiled
    program compute into are pairwise different. All of them are temporaries, and those of each type
    have the numbers from zero on, without a gap. -/
theorem compiled_single_assignment {p : Source.Program} {P : Program} (h : p.compile = .ok P) :
    (targets P.code.toList).Nodup ∧ (∀ name ∈ targets P.code.toList, IsTemporary name) ∧
      ∃ count : ScalarType → Nat, ∀ type n,
        Temporaries.name type n ∈ targets P.code.toList ↔ n < count type := by
  rcases p.compile_cases with ⟨-, e, he⟩ | ⟨-, g, c, P', -, hc, hlink, hP'⟩
  · rw [h] at he
    cases he
  rw [h] at hP'
  cases hP'
  rw [BlockGraph.link_of_spans hc.spans] at hlink
  cases hlink
  obtain ⟨t, ht⟩ := hc.fills
  simp only [Chain.targets_slots]
  refine ⟨ht.nodup, fun name hname => ((ht.mem_iff name).1 hname).isTemporary, t.count, ?_⟩
  intro type n
  rw [ht.mem_iff]
  constructor
  · rintro ⟨type', n', heq, -, hlt⟩
    obtain ⟨rfl, rfl⟩ := Temporaries.name_inj.1 heq
    exact hlt
  · intro hlt
    exact ⟨type, n, rfl, by cases type <;> exact Nat.zero_le _, hlt⟩

theorem compiled_single_assignment_countdown :
    ∃ P, Source.Program.countdown.compile = .ok P ∧ (targets P.code.toList).Nodup ∧
      ∃ count : ScalarType → Nat, ∀ type n,
        Temporaries.name type n ∈ targets P.code.toList ↔ n < count type := by
  obtain ⟨h, -⟩ | ⟨-, g, -, P, -, -, -, hP⟩ := Source.Program.countdown.compile_cases
  · exact absurd h (by decide)
  · obtain ⟨hnodup, -, hcount⟩ := compiled_single_assignment hP
    exact ⟨P, hP, hnodup, hcount⟩

end ThreeAddress
