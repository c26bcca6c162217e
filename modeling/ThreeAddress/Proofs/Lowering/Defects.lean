import ThreeAddress.Proofs.Lowering.Linkable
import ThreeAddress.Proofs.Source.Nodes

set_option autoImplicit false

/-! # Lowering fails at the first defect

A node of a program has a defect if it has no type, or if it is a literal whose type contradicts its
value. Parents ask for the types of some of their children before they turn to them, and under names
of their own; still, lowering never gets ahead of the order of the source. It fails exactly if some
node has a defect, and then it reports the first one, with the line of the statement that the node
belongs to (`lower_fails_at_first_defect`).

The line is part of the state. Every statement sets it, and expressions leave it as it is; behind a
conditional or a loop it is some line inside, but nothing is left to be blamed there. So what is
shown of each step has, beside the errors, what is known of the line before and after it
(`Lowering.Blames`). -/

namespace ThreeAddress.Source

/-! ## Defects -/

/-- What is wrong with a node of a statement on the given line: it has no type, or it is a literal
    whose type contradicts its value. -/
def Node.defect? (line : UInt64) : Node → Option LowerError
  | .expr _ (.literal (some type) value) =>
    if value.type = type then none else some (.literalMismatch type value.type line)
  | .expr construct e =>
    match e.type? with
    | none => some (.missingType construct line)
    | some _ => none
  | .uninitialized name none => some (.missingType (.uninitialized name) line)
  | .uninitialized _ (some _) => none

/-- The defects of nodes on the given line. -/
def defects (line : UInt64) (nodes : List Node) : List LowerError :=
  nodes.filterMap (Node.defect? line)

/-- The defects of statements, not counting the statements inside them. -/
def defectsAll (stmts : List Stmt) : List LowerError :=
  stmts.flatMap fun s => defects s.line s.nodes

theorem defects_append (line : UInt64) (nodes nodes' : List Node) :
    defects line (nodes ++ nodes') = defects line nodes ++ defects line nodes' :=
  List.filterMap_append

theorem defectsAll_append (stmts stmts' : List Stmt) :
    defectsAll (stmts ++ stmts') = defectsAll stmts ++ defectsAll stmts' :=
  List.flatMap_append

theorem defectsAll_cons (s : Stmt) (stmts : List Stmt) :
    defectsAll (s :: stmts) = defects s.line s.nodes ++ defectsAll stmts := rfl

theorem defect?_of_untyped {e : Expr} (h : e.type? = none) (construct : Construct)
    (line : UInt64) :
    Node.defect? line (.expr construct e) = some (.missingType construct line) := by
  cases e with
  | literal type value =>
      obtain rfl : type = none := h
      rfl
  | _ => simp only [Node.defect?, h]

/-- Of the expressions with a type, only literals can have a defect. -/
theorem defect?_of_typed {e : Expr} {type : ScalarType} (h : e.type? = some type)
    (he : ∀ type value, e ≠ .literal type value) (construct : Construct) (line : UInt64) :
    Node.defect? line (.expr construct e) = none := by
  cases e with
  | literal type value => exact absurd rfl (he type value)
  | _ => simp only [Node.defect?, h]

/-- What an expression is called matters only if it has no type. -/
theorem defects_of_typed {e : Expr} {type : ScalarType} (h : e.type? = some type)
    (construct construct' : Construct) (line : UInt64) :
    defects line (e.nodes construct) = defects line (e.nodes construct') := by
  have hdefect : Node.defect? line (.expr construct e)
      = Node.defect? line (.expr construct' e) := by
    cases e with
    | literal type value =>
        cases h
        rfl
    | _ => rw [defect?_of_typed h (by simp), defect?_of_typed h (by simp)]
  rw [defects, defects, Expr.nodes, Expr.nodes, List.filterMap_cons, List.filterMap_cons, hdefect]

/-! ## Blame -/

namespace Lowering

variable {α β : Type} {pre mid post : UInt64 → Prop}

/-- Lowering, started on a line with `pre`, succeeds only if there are no errors to be reported,
    and ends on a line with `post`. If it fails, then with the first of the errors, or at a
    reference between blocks. -/
def Blames (x : Lowering α) (pre : UInt64 → Prop) (errors : List LowerError)
    (post : UInt64 → Prop) : Prop :=
  ∀ s, pre s.line → match x s with
    | .ok (_, s') => errors = [] ∧ post s'.line
    | .error e => errors.head? = some e ∨ ∃ b, e = .build b

/-- Nothing is known about the line. -/
def anyLine : UInt64 → Prop := fun _ => True

theorem Blames.bind {x : Lowering α} {f : α → Lowering β} {errors rest : List LowerError}
    (hx : x.Blames pre errors mid) (hf : ∀ a, (f a).Blames mid rest post) :
    (x >>= f).Blames pre (errors ++ rest) post := by
  intro s hs
  have hx := hx s hs
  have hbind : (x >>= f) s = (x s >>= fun r => f r.1 r.2) := rfl
  rw [hbind]
  rcases h : x s with e | ⟨a, s'⟩
  · rw [h] at hx
    rw [error_bind]
    rcases hx with hfirst | hbuild
    · exact .inl (by rw [List.head?_append, hfirst, Option.some_or])
    · exact .inr hbuild
  · rw [h] at hx
    rw [ok_bind, hx.1, List.nil_append]
    exact hf a s' hx.2

/-- What can fail only at a reference between blocks leaves the blame to the others. -/
theorem Blames.andThen {x : Lowering α} {f : α → Lowering β} {rest : List LowerError}
    (hx : x.Blames pre [] mid) (hf : ∀ a, (f a).Blames mid rest post) :
    (x >>= f).Blames pre rest post := hx.bind hf

theorem Blames.before {x : Lowering α} {f : α → Lowering β} {errors : List LowerError}
    (hx : x.Blames pre errors mid) (hf : ∀ a, (f a).Blames mid [] post) :
    (x >>= f).Blames pre errors post := by
  have h := hx.bind hf
  rwa [List.append_nil] at h

/-- What may start on any line may start on these. -/
theorem Blames.ofAny {x : Lowering α} {errors : List LowerError}
    (hx : x.Blames anyLine errors post) : x.Blames pre errors post :=
  fun s _ => hx s trivial

theorem blames_pure (a : α) : (pure a : Lowering α).Blames pre [] pre :=
  fun _ hs => ⟨rfl, hs⟩

theorem blames_emit (step : Draft → α × Draft) : (emit step).Blames pre [] pre :=
  fun _ hs => ⟨rfl, hs⟩

theorem blames_append (i : Instr) : (append i).Blames pre [] pre :=
  blames_emit _

theorem blames_attempt (step : Draft → Except UnknownBlock Draft) :
    (attempt step).Blames pre [] pre := by
  intro s hs
  unfold attempt
  cases step s.draft with
  | ok d => exact ⟨rfl, hs⟩
  | error e => exact .inr ⟨e, rfl⟩

theorem blames_enterNew : enterNew.Blames pre [] pre :=
  (blames_emit _).andThen fun _ => (blames_attempt _).andThen fun _ => blames_pure _

theorem blames_enterNext : enterNext.Blames pre [] pre :=
  (blames_emit _).andThen fun _ => (blames_emit _).andThen fun _ =>
    (blames_attempt _).andThen fun _ => (blames_attempt _).andThen fun _ => blames_pure _

theorem blames_leave (block : BlockId) : (leave block).Blames pre [] pre :=
  (blames_emit _).andThen fun _ => (blames_attempt _).andThen fun _ => blames_attempt _

/-- Wherever lowering stands, it goes on with the line that it turns to. -/
theorem blames_turnTo {x : Lowering α} {line : UInt64} {errors : List LowerError}
    (hx : x.Blames (· = line) errors post) :
    (turnTo line >>= fun _ => x).Blames anyLine errors post :=
  fun s _ => hx { s with line } rfl

/-- Asking for the type of an expression under some name: if there is none, that is the first
    error, on the line where lowering stands. -/
theorem blames_need {e : Expr} {construct : Construct} {line : UInt64}
    {f : ScalarType → Lowering β} {rest : List LowerError}
    (hf : ∀ type, e.type? = some type →
      (f type).Blames (· = line) (defects line (e.nodes construct) ++ rest) post) :
    (need construct e.type? >>= f).Blames (· = line) (defects line (e.nodes construct) ++ rest)
      post := by
  cases htype : e.type? with
  | some type => exact hf type htype
  | none =>
      rintro s rfl
      refine .inl ?_
      rw [defects, Expr.nodes, List.filterMap_cons, defect?_of_untyped htype]
      rfl

end Lowering

open Lowering

/-! ## Expressions -/

section Expressions

variable {α : Type} {line : UInt64} {post : UInt64 → Prop}

/-- An expression that is no literal asks for its own type and then turns to its parts. -/
theorem blames_own {e : Expr} (he : ∀ type value, e ≠ .literal type value)
    {f : ScalarType → Lowering String}
    (hf : ∀ type, (f type).Blames (· = line) (defects line e.parts) post) :
    (need e.construct e.type? >>= f).Blames (· = line) (defects line (e.nodes e.construct))
      post := by
  rw [← List.append_nil (defects line (e.nodes e.construct))]
  refine blames_need fun type htype => ?_
  rw [List.append_nil, defects, Expr.nodes, List.filterMap_cons, defect?_of_typed htype he]
  exact hf type

/-- An expression whose type is asked for under another name before it is lowered. -/
theorem blames_asked {e : Expr} {construct : Construct} {f : ScalarType → Lowering α}
    {rest : List LowerError}
    (hf : ∀ type, (f type).Blames (· = line) (defects line (e.nodes e.construct) ++ rest) post) :
    (need construct e.type? >>= f).Blames (· = line) (defects line (e.nodes construct) ++ rest)
      post := by
  refine blames_need fun type htype => ?_
  rw [defects_of_typed htype construct e.construct]
  exact hf type

theorem blames_asked_last {e : Expr} {construct : Construct} {f : ScalarType → Lowering α}
    (hf : ∀ type, (f type).Blames (· = line) (defects line (e.nodes e.construct)) post) :
    (need construct e.type? >>= f).Blames (· = line) (defects line (e.nodes construct)) post := by
  rw [← List.append_nil (defects line (e.nodes construct))]
  refine blames_asked fun type => ?_
  rw [List.append_nil]
  exact hf type

end Expressions

mutual

/-- Lowering an expression blames the first of its defects, and stays on the line. -/
theorem Expr.lower_blames (line : UInt64) : (e : Expr) →
    e.lower.Blames (· = line) (defects line (e.nodes e.construct)) (· = line)
  | .literal type value => by
      unfold Expr.lower
      cases type with
      | none =>
          rintro s rfl
          exact .inl rfl
      | some type =>
          change Blames (if value.type = type then emit (Draft.literal value)
            else refuse type value.type) _ _ _
          have hdefects : defects line ((Expr.literal (some type) value).nodes .literal)
              = if value.type = type then [] else [.literalMismatch type value.type line] := by
            by_cases h : value.type = type <;>
              simp [defects, Expr.nodes, Expr.parts, Node.defect?, h]
          rw [Expr.construct, hdefects]
          split
          · exact blames_emit _
          · rintro s rfl
            exact .inl rfl
  | .binary type op left right => by
      unfold Expr.lower
      refine blames_own (e := .binary type op left right) (by simp) fun _ => ?_
      rw [Expr.parts, defects_append]
      refine blames_asked fun _ => (left.lower_blames line).bind fun _ => ?_
      exact (right.lower_blames line).before fun _ => blames_emit _
  | .relational type op left right => by
      unfold Expr.lower
      refine blames_own (e := .relational type op left right) (by simp) fun _ => ?_
      rw [Expr.parts, defects_append]
      refine blames_asked fun _ => (left.lower_blames line).bind fun _ => ?_
      exact (right.lower_blames line).before fun _ => blames_emit _
  | .unary type op operand => by
      unfold Expr.lower
      refine blames_own (e := .unary type op operand) (by simp) fun _ => ?_
      exact blames_asked_last fun _ => (operand.lower_blames line).before fun _ => blames_emit _
  | .load type name => by
      unfold Expr.lower
      exact blames_own (e := .load type name) (by simp) fun _ => blames_emit _
  | .group type inner => by
      unfold Expr.lower
      refine blames_own (e := .group type inner) (by simp) fun _ => ?_
      exact inner.lower_blames line
  | .call type name args => by
      unfold Expr.lower
      refine blames_own (e := .call type name args) (by simp) fun _ => ?_
      exact (lowerArgs_blames line args).before fun _ => blames_emit _

/-- Lowering arguments blames the first of their defects, and stays on the line. -/
theorem lowerArgs_blames (line : UInt64) : (args : List Expr) →
    (lowerArgs args).Blames (· = line) (defects line (partsOfArgs args)) (· = line)
  | [] => by
      unfold lowerArgs
      exact blames_pure _
  | e :: rest => by
      unfold lowerArgs
      rw [partsOfArgs, defects_append]
      refine (e.lower_blames line).bind fun _ => ?_
      exact (lowerArgs_blames line rest).before fun _ => blames_pure _

end

/-! ## Statements -/

theorem lowerStore_blames (line : UInt64) (type : ScalarType) (name : String) (value : Expr) :
    (lowerStore type name value).Blames (· = line) (defects line (value.nodes value.construct))
      (· = line) :=
  (value.lower_blames line).before fun _ => blames_append _

theorem lowerDeclaration_blames (line : UInt64) (type : ScalarType) (name : String)
    (value : Expr) :
    Blames (do
        append (.alloc type name)
        lowerStore type name value)
      (· = line) (defects line (value.nodes value.construct)) (· = line) :=
  (blames_append _).andThen fun _ => lowerStore_blames line type name value

/-- Lowering a statement that stays in one block blames the first of its defects, wherever lowering
    stood before. -/
theorem Stmt.lower_blames_of_isFlat {s : Stmt} (hs : s.isFlat = true) :
    s.lower.Blames anyLine (defects s.line s.nodes) (· = s.line) := by
  cases s with
  | cond line condition thenBranch elseBranch => cases hs
  | loop line condition body => cases hs
  | constDecl line name type value =>
      rw [Stmt.lower]
      refine blames_turnTo ?_
      cases type with
      | some type => exact lowerDeclaration_blames line type name value
      | none => exact blames_asked_last fun type => lowerDeclaration_blames line type name value
  | varDecl line name type value =>
      rw [Stmt.lower]
      refine blames_turnTo ?_
      cases value with
      | none =>
          cases type with
          | some type => exact (blames_append _).andThen fun _ => blames_pure _
          | none =>
              rintro s (rfl : s.line = line)
              exact .inl rfl
      | some value =>
          cases type with
          | some type => exact lowerDeclaration_blames line type name value
          | none => exact blames_asked_last fun type => lowerDeclaration_blames line type name value
  | assign line name value =>
      rw [Stmt.lower]
      refine blames_turnTo ?_
      exact blames_asked_last fun type => lowerStore_blames line type name value
  | print line value =>
      rw [Stmt.lower]
      refine blames_turnTo ?_
      exact blames_asked_last fun _ => (value.lower_blames line).before fun _ => blames_append _
  | declare line prototype =>
      rw [Stmt.lower]
      exact blames_turnTo (blames_append _)
  | eval line value =>
      rw [Stmt.lower]
      refine blames_turnTo ?_
      exact (value.lower_blames line).before fun _ => blames_pure _

/-- The header of a conditional or a loop asks for the type of its condition. -/
theorem blames_header {construct : Construct} {line : UInt64} {condition : Expr}
    {f : BlockId → String → Lowering Unit} {rest : List LowerError} {post : UInt64 → Prop}
    (hf : ∀ header test, (f header test).Blames (· = line) rest post) :
    Blames (do
        let header ← enterNext
        let _ ← need construct condition.type?
        let test ← condition.lower
        f header test)
      (· = line) (defects line (condition.nodes construct) ++ rest) post :=
  blames_enterNext.andThen fun header => blames_asked fun _ =>
    (condition.lower_blames line).bind fun test => hf header test

/-- Lowering the statements blames the first defect of them and of all statements inside them,
    wherever lowering stood before. -/
def BlamesFirst (stmts : List Stmt) : Prop :=
  (lowerAll stmts).Blames anyLine (defectsAll (withinAll stmts)) anyLine

/-- A region in a block of its own. Behind it lowering stands on a line of the region. -/
theorem blames_region {stmts : List Stmt} (h : BlamesFirst stmts) {f : BlockId → Lowering Unit}
    {rest : List LowerError} {pre post : UInt64 → Prop}
    (hf : ∀ block, (f block).Blames anyLine rest post) :
    Blames (do
        let block ← enterNew
        lowerAll stmts
        f block)
      pre (defectsAll (withinAll stmts) ++ rest) post :=
  blames_enterNew.andThen fun block => h.ofAny.bind fun _ => hf block

/-- What closes a conditional or a loop finds no defects. -/
theorem blames_close (header : BlockId) (kind : BlockKind) :
    Blames (do
        setKind header kind
        leave header) anyLine [] anyLine :=
  (blames_attempt _).andThen fun _ => blames_leave header

theorem blames_cond {line : UInt64} {condition : Expr} {thenBranch : List Stmt}
    (hthen : BlamesFirst thenBranch) :
    (Stmt.cond line condition thenBranch none).lower.Blames anyLine
      (defectsAll (Stmt.cond line condition thenBranch none).within) anyLine := by
  rw [Stmt.lower, Stmt.within, defectsAll_cons, ← List.append_nil (defectsAll _)]
  refine blames_turnTo ?_
  exact blames_header fun _ _ => blames_region hthen fun _ => blames_close _ _

theorem blames_condElse {line : UInt64} {condition : Expr} {thenBranch elseBranch : List Stmt}
    (hthen : BlamesFirst thenBranch) (helse : BlamesFirst elseBranch) :
    (Stmt.cond line condition thenBranch (some elseBranch)).lower.Blames anyLine
      (defectsAll (Stmt.cond line condition thenBranch (some elseBranch)).within) anyLine := by
  rw [Stmt.lower, Stmt.within, defectsAll_cons, defectsAll_append,
    ← List.append_nil (defectsAll (withinAll elseBranch))]
  refine blames_turnTo ?_
  exact blames_header fun _ _ => blames_region hthen fun _ =>
    blames_region helse fun _ => blames_close _ _

theorem blames_loop {line : UInt64} {condition : Expr} {body : List Stmt}
    (hbody : BlamesFirst body) :
    (Stmt.loop line condition body).lower.Blames anyLine
      (defectsAll (Stmt.loop line condition body).within) anyLine := by
  rw [Stmt.lower, Stmt.within, defectsAll_cons, ← List.append_nil (defectsAll _)]
  refine blames_turnTo ?_
  exact blames_header fun _ _ => blames_region hbody fun _ => blames_close _ _

theorem BlamesFirst.cons {s : Stmt} {rest : List Stmt} {post : UInt64 → Prop}
    (hs : s.lower.Blames anyLine (defectsAll s.within) post) (hrest : BlamesFirst rest) :
    BlamesFirst (s :: rest) := by
  rw [BlamesFirst, lowerAll, withinAll, defectsAll_append]
  exact hs.bind fun _ => hrest.ofAny

theorem BlamesFirst.cons_flat {s : Stmt} {rest : List Stmt} (hs : s.isFlat = true)
    (hwithin : s.within = [s]) (hrest : BlamesFirst rest) : BlamesFirst (s :: rest) := by
  have hblames := Stmt.lower_blames_of_isFlat hs
  have hdefects : defectsAll s.within = defects s.line s.nodes := by
    rw [hwithin, defectsAll_cons, defectsAll, List.flatMap_nil, List.append_nil]
  rw [← hdefects] at hblames
  exact .cons hblames hrest

theorem blamesFirst (stmts : List Stmt) : BlamesFirst stmts := by
  match stmts with
  | [] => exact blames_pure _
  | .cond line condition thenBranch none :: rest =>
      exact .cons (blames_cond (blamesFirst thenBranch)) (blamesFirst rest)
  | .cond line condition thenBranch (some elseBranch) :: rest =>
      exact .cons (blames_condElse (blamesFirst thenBranch) (blamesFirst elseBranch))
        (blamesFirst rest)
  | .loop line condition body :: rest =>
      exact .cons (blames_loop (blamesFirst body)) (blamesFirst rest)
  | .constDecl _ _ _ _ :: rest | .varDecl _ _ _ _ :: rest | .assign _ _ _ :: rest
  | .print _ _ :: rest | .declare _ _ :: rest | .eval _ _ :: rest =>
      exact .cons_flat rfl rfl (blamesFirst rest)

/-! ## Programs -/

theorem filterMap_defect?_nodes (p : Program) :
    p.nodes.filterMap (fun q => q.2.defect? q.1.line) = defectsAll (withinAll p.statements) := by
  simp only [Program.nodes, List.filterMap_flatMap, List.filterMap_map, Function.comp_def,
    defectsAll, defects]

theorem Node.defect?_expr_eq_none_iff {line : UInt64} {construct : Construct} {e : Expr} :
    Node.defect? line (.expr construct e) = none ↔
      e.type? ≠ none ∧ ∀ type value, e = .literal type value → type = some value.type := by
  cases htype : e.type? with
  | none => simp [defect?_of_untyped htype]
  | some type =>
      cases e with
      | literal type' value =>
          obtain rfl : type' = some type := htype
          simp [Node.defect?, eq_comm]
      | _ => simp [defect?_of_typed htype]

/-- Lowering a program succeeds and there is no defect, or it fails with the first one. -/
theorem Program.lower_cases_defects (p : Program) :
    (∃ g, p.lower = .ok g ∧ defectsAll (withinAll p.statements) = []) ∨
      ∃ error, p.lower = .error error ∧
        (defectsAll (withinAll p.statements)).head? = some error := by
  have hblames := blamesFirst p.statements { draft := .empty } trivial
  rcases h : lowerAll p.statements { draft := .empty } with error | ⟨_, s⟩
  · have herror : p.lower = .error error := by
      rw [Program.lower, h]
      rfl
    rw [h] at hblames
    rcases hblames with hfirst | ⟨b, rfl⟩
    · exact .inr ⟨error, herror, hfirst⟩
    -- lowering never fails at a reference between blocks
    · rcases p.lower_cases with ⟨-, e, he, hne⟩ | ⟨-, g, c, hg, -⟩
      · rw [herror] at he
        cases he
        exact absurd rfl (hne b)
      · rw [herror] at hg
        cases hg
  · rw [h] at hblames
    refine .inl ⟨s.draft.graph, ?_, hblames.1⟩
    rw [Program.lower, h]
    rfl

theorem Program.exists_lower_eq_ok_iff {p : Program} :
    (∃ g, p.lower = .ok g) ↔ ∀ s node, (s, node) ∈ p.nodes → node.defect? s.line = none := by
  have hnone : (∃ g, p.lower = .ok g) ↔ defectsAll (withinAll p.statements) = [] := by
    rcases p.lower_cases_defects with ⟨g, hg, hnil⟩ | ⟨error, herror, hfirst⟩
    · simp [hg, hnil]
    · have hne : defectsAll (withinAll p.statements) ≠ [] := by
        intro hnil
        rw [hnil] at hfirst
        cases hfirst
      simp [herror, hne]
  rw [hnone, ← filterMap_defect?_nodes, List.filterMap_eq_nil_iff, Prod.forall]

theorem Program.lower_eq_error_iff {p : Program} {error : LowerError} :
    p.lower = .error error ↔ p.nodes.findSome? (fun q => q.2.defect? q.1.line) = some error := by
  rw [← List.head?_filterMap, filterMap_defect?_nodes]
  rcases p.lower_cases_defects with ⟨g, hg, hnil⟩ | ⟨error', herror, hfirst⟩
  · simp [hg, hnil]
  · simp [herror, hfirst]

/-- **Lowering fails exactly on trees with a defect, and at the first one.** Lowering succeeds if
    and only if every expression at any depth has a type, every literal has the type of its value,
    and every variable is declared with a type or an initial value. Otherwise it reports the first
    defect in the order of the source, with the line of the innermost statement around it: a missing
    type, or the declared and the actual type of a literal. -/
theorem lower_fails_at_first_defect (p : Program) :
    ((∃ g, p.lower = .ok g) ↔
      (∀ s construct e, (s, .expr construct e) ∈ p.nodes → e.type? ≠ none ∧
        ∀ type value, e = .literal type value → type = some value.type) ∧
      ∀ line name type value, .varDecl line name type value ∈ withinAll p.statements →
        type ≠ none ∨ value ≠ none) ∧
    ∀ error, p.lower = .error error ↔
      ∃ before s node after, p.nodes = before ++ (s, node) :: after ∧
        (∀ s' node', (s', node') ∈ before → node'.defect? s'.line = none) ∧
        node.defect? s.line = some error := by
  refine ⟨?_, fun error => ?_⟩
  · rw [Program.exists_lower_eq_ok_iff]
    constructor
    · intro h
      refine ⟨fun s construct e hmem => Node.defect?_expr_eq_none_iff.1 (h s _ hmem), ?_⟩
      rintro line name type (_ | value) hmem
      · have hnode := h _ _ (mem_nodes_iff.2 ⟨hmem, Stmt.uninitialized_mem_nodes_iff.2 ⟨line, rfl⟩⟩)
        cases type with
        | none => cases hnode
        | some type => simp
      · simp
    · rintro ⟨hexpr, hvar⟩ s (⟨construct, e⟩ | ⟨name, type⟩) hmem
      · exact Node.defect?_expr_eq_none_iff.2 (hexpr s construct e hmem)
      · obtain ⟨hs, hnode⟩ := mem_nodes_iff.1 hmem
        obtain ⟨line, rfl⟩ := Stmt.uninitialized_mem_nodes_iff.1 hnode
        cases type with
        | none => simpa using hvar _ _ _ _ hs
        | some type => rfl
  · rw [Program.lower_eq_error_iff, List.findSome?_eq_some_iff]
    constructor
    · rintro ⟨before, ⟨s, node⟩, after, hnodes, hdefect, hbefore⟩
      exact ⟨before, s, node, after, hnodes, fun s' node' => hbefore (s', node'), hdefect⟩
    · rintro ⟨before, s, node, after, hnodes, hbefore, hdefect⟩
      exact ⟨before, (s, node), after, hnodes, hdefect, fun q => hbefore q.1 q.2⟩

/-- A loop that prints a sum with a mislabelled operand, and an undecided variable behind it. -/
def Program.mislabelled : Program := ⟨[
  .loop 1 (.ofConstant (.bool true))
    [.print 2 (.arith .add (.ofConstant (.int 1)) (.literal (some .bool) (.int 4)))],
  .varDecl 3 "x" none none]⟩

/-- The operand comes first, and its line is that of the statement in the loop. -/
theorem lower_fails_at_first_defect_mislabelled :
    Program.mislabelled.lower = .error (.literalMismatch .bool .int 2) := by
  have hbefore : (Program.mislabelled.nodes.take 3).all
      (fun q => (q.2.defect? q.1.line).isNone) = true := rfl
  obtain ⟨-, hfails⟩ := lower_fails_at_first_defect .mislabelled
  refine (hfails _).2 ⟨Program.mislabelled.nodes.take 3, _, _, _, rfl, ?_, rfl⟩
  intro s node hmem
  exact Option.isNone_iff_eq_none.1 (List.all_eq_true.1 hbefore (s, node) hmem)

end ThreeAddress.Source
