import ThreeAddress.Proofs.Lowering.Linkable
import ThreeAddress.Proofs.Source.Nodes

set_option autoImplicit false

/-! # Parentheses change nothing

Parentheses yield the temporary of the expression inside them, and an operation takes its type from
an operand in parentheses as from the operand itself. So a program in which every pair of
parentheses has the type of what it encloses compiles exactly like the program without them
(`compile_ungrouped`). The errors may differ, since parentheses without a type are named as such;
what is compared is how lowering succeeds (`Lowering.SameSuccess`). -/

namespace ThreeAddress.Source

/-! ## Programs without parentheses -/

mutual

/-- The expression without parentheses at any depth. -/
def Expr.ungrouped : Expr → Expr
  | .literal type value => .literal type value
  | .binary type op left right => .binary type op left.ungrouped right.ungrouped
  | .relational type op left right => .relational type op left.ungrouped right.ungrouped
  | .unary type op operand => .unary type op operand.ungrouped
  | .load type name => .load type name
  | .group _ inner => inner.ungrouped
  | .call type name args => .call type name (ungroupedArgs args)

/-- The arguments without parentheses at any depth. -/
def ungroupedArgs : List Expr → List Expr
  | [] => []
  | e :: rest => e.ungrouped :: ungroupedArgs rest

end

mutual

/-- The statement without parentheses in its expressions and in the statements inside it. -/
def Stmt.ungrouped : Stmt → Stmt
  | .constDecl line name type value => .constDecl line name type value.ungrouped
  | .varDecl line name type value => .varDecl line name type (value.map Expr.ungrouped)
  | .assign line location value => .assign line location value.ungrouped
  | .print line value => .print line value.ungrouped
  | .cond line condition thenBranch none =>
    .cond line condition.ungrouped (ungroupedAll thenBranch) none
  | .cond line condition thenBranch (some elseBranch) =>
    .cond line condition.ungrouped (ungroupedAll thenBranch) (some (ungroupedAll elseBranch))
  | .loop line condition body => .loop line condition.ungrouped (ungroupedAll body)
  | .declare line prototype => .declare line prototype
  | .eval line value => .eval line value.ungrouped

/-- The statements without parentheses. -/
def ungroupedAll : List Stmt → List Stmt
  | [] => []
  | s :: rest => s.ungrouped :: ungroupedAll rest

end

/-- The program without parentheses. -/
def Program.ungrouped (p : Program) : Program := ⟨ungroupedAll p.statements⟩

/-- Whether a node is a pair of parentheses. -/
def Node.isGroup : Node → Bool
  | .expr _ (.group _ _) => true
  | _ => false

/-- Whether a node, if it is a pair of parentheses, has the type of what it encloses. -/
def Node.groupAgrees : Node → Bool
  | .expr _ (.group type inner) => type == inner.type?
  | _ => true

mutual

theorem Expr.isGroup_ungrouped (construct : Construct) :
    (e : Expr) → ∀ node ∈ e.ungrouped.nodes construct, node.isGroup = false
  | .literal _ _ => List.forall_mem_singleton.2 rfl
  | .binary _ _ left right =>
      List.forall_mem_cons.2 ⟨rfl, List.forall_mem_append.2
        ⟨left.isGroup_ungrouped _, right.isGroup_ungrouped _⟩⟩
  | .relational _ _ left right =>
      List.forall_mem_cons.2 ⟨rfl, List.forall_mem_append.2
        ⟨left.isGroup_ungrouped _, right.isGroup_ungrouped _⟩⟩
  | .unary _ _ operand => List.forall_mem_cons.2 ⟨rfl, operand.isGroup_ungrouped _⟩
  | .load _ _ => List.forall_mem_singleton.2 rfl
  | .group _ inner => inner.isGroup_ungrouped construct
  | .call _ _ args => List.forall_mem_cons.2 ⟨rfl, isGroup_ungroupedArgs args⟩

theorem isGroup_ungroupedArgs :
    (args : List Expr) → ∀ node ∈ partsOfArgs (ungroupedArgs args), node.isGroup = false
  | [] => List.forall_mem_nil _
  | e :: rest =>
      List.forall_mem_append.2 ⟨e.isGroup_ungrouped _, isGroup_ungroupedArgs rest⟩

end

theorem Stmt.isGroup_ungrouped (s : Stmt) : ∀ node ∈ s.ungrouped.nodes, node.isGroup = false := by
  cases s with
  | constDecl line name type value => cases type <;> exact value.isGroup_ungrouped _
  | varDecl line name type value =>
      cases value with
      | none => cases type <;> exact List.forall_mem_singleton.2 rfl
      | some value => cases type <;> exact value.isGroup_ungrouped _
  | assign line name value => exact value.isGroup_ungrouped _
  | print line value => exact value.isGroup_ungrouped _
  | cond line condition thenBranch elseBranch =>
      cases elseBranch <;> exact condition.isGroup_ungrouped _
  | loop line condition body => exact condition.isGroup_ungrouped _
  | declare line prototype => exact List.forall_mem_nil _
  | eval line value => exact value.isGroup_ungrouped _

/-- The statements of a program without parentheses are those of the program, without theirs. -/
theorem withinAll_ungroupedAll (stmts : List Stmt) :
    withinAll (ungroupedAll stmts) = (withinAll stmts).map Stmt.ungrouped := by
  match stmts with
  | [] => rfl
  | .cond line condition thenBranch none :: rest =>
      simp [ungroupedAll, withinAll, Stmt.ungrouped, Stmt.within,
        withinAll_ungroupedAll thenBranch, withinAll_ungroupedAll rest]
  | .cond line condition thenBranch (some elseBranch) :: rest =>
      simp [ungroupedAll, withinAll, Stmt.ungrouped, Stmt.within,
        withinAll_ungroupedAll thenBranch, withinAll_ungroupedAll elseBranch,
        withinAll_ungroupedAll rest]
  | .loop line condition body :: rest =>
      simp [ungroupedAll, withinAll, Stmt.ungrouped, Stmt.within,
        withinAll_ungroupedAll body, withinAll_ungroupedAll rest]
  | .constDecl _ _ _ _ :: rest | .varDecl _ _ _ _ :: rest | .assign _ _ _ :: rest
  | .print _ _ :: rest | .declare _ _ :: rest | .eval _ _ :: rest =>
      simp [ungroupedAll, withinAll, Stmt.ungrouped, Stmt.within, withinAll_ungroupedAll rest]

/-! ## Lowering -/

namespace Lowering

variable {α β : Type}

/-- Both succeed from the same states, with the same results. -/
def SameSuccess (x y : Lowering α) : Prop := ∀ s r, x s = .ok r ↔ y s = .ok r

theorem SameSuccess.refl (x : Lowering α) : x.SameSuccess x := fun _ _ => Iff.rfl

theorem SameSuccess.bind {x y : Lowering α} {f g : α → Lowering β} (h : x.SameSuccess y)
    (hfg : ∀ a, (f a).SameSuccess (g a)) : (x >>= f).SameSuccess (y >>= g) := by
  intro s r
  have hx : (x >>= f) s = (x s >>= fun q => f q.1 q.2) := rfl
  have hy : (y >>= g) s = (y s >>= fun q => g q.1 q.2) := rfl
  rw [hx, hy, bind_eq_ok_iff, bind_eq_ok_iff]
  refine exists_congr fun q => ?_
  rw [h s q, hfg q.1 q.2 r]

/-- The same step, and then what succeeds alike. -/
theorem SameSuccess.andThen (x : Lowering α) {f g : α → Lowering β}
    (hfg : ∀ a, (f a).SameSuccess (g a)) : (x >>= f).SameSuccess (x >>= g) :=
  (SameSuccess.refl x).bind hfg

end Lowering

open Lowering

/-- An expression keeps its type. -/
theorem Expr.type?_ungrouped {construct : Construct} : (e : Expr) →
    (∀ node ∈ e.nodes construct, node.groupAgrees = true) → e.ungrouped.type? = e.type?
  | .group type inner, h => by
      obtain ⟨htype, hinner⟩ := List.forall_mem_cons.1 h
      have htype' : type = inner.type? := eq_of_beq htype
      rw [Expr.ungrouped, inner.type?_ungrouped hinner, Expr.type?, htype']
  | .literal _ _, _ | .binary _ _ _ _, _ | .relational _ _ _ _, _ | .unary _ _ _, _
  | .load _ _, _ | .call _ _ _, _ => rfl

theorem Expr.lower_ne_ok_of_untyped {e : Expr} (h : e.type? = none) (s : Progress)
    (r : String × Progress) : e.lower s ≠ .ok r := by
  intro hok
  have hmeets := e.lower_meets s.draft s.line
  rw [hok] at hmeets
  have htyped := isSome_type?_of_decorated hmeets.1
  rw [h] at htyped
  cases htyped

mutual

theorem Expr.lower_ungrouped {construct : Construct} : (e : Expr) →
    (∀ node ∈ e.nodes construct, node.groupAgrees = true) →
    e.lower.SameSuccess e.ungrouped.lower
  | .literal _ _, _ => .refl _
  | .binary type op left right, h => by
      obtain ⟨-, hparts⟩ := List.forall_mem_cons.1 h
      obtain ⟨hleft, hright⟩ := List.forall_mem_append.1 hparts
      rw [Expr.ungrouped, Expr.lower, Expr.lower, left.type?_ungrouped hleft]
      exact .andThen _ fun _ => .andThen _ fun _ => (left.lower_ungrouped hleft).bind fun _ =>
        (right.lower_ungrouped hright).bind fun _ => .refl _
  | .relational type op left right, h => by
      obtain ⟨-, hparts⟩ := List.forall_mem_cons.1 h
      obtain ⟨hleft, hright⟩ := List.forall_mem_append.1 hparts
      rw [Expr.ungrouped, Expr.lower, Expr.lower, left.type?_ungrouped hleft]
      exact .andThen _ fun _ => .andThen _ fun _ => (left.lower_ungrouped hleft).bind fun _ =>
        (right.lower_ungrouped hright).bind fun _ => .refl _
  | .unary type op operand, h => by
      obtain ⟨-, hoperand⟩ := List.forall_mem_cons.1 h
      rw [Expr.ungrouped, Expr.lower, Expr.lower, operand.type?_ungrouped hoperand]
      exact .andThen _ fun _ => .andThen _ fun _ =>
        (operand.lower_ungrouped hoperand).bind fun _ => .refl _
  | .load _ _, _ => .refl _
  | .group type inner, h => by
      obtain ⟨htype, hinner⟩ := List.forall_mem_cons.1 h
      have hinner' := inner.lower_ungrouped hinner
      rw [Expr.ungrouped, Expr.lower]
      cases type with
      | some type => exact hinner'
      | none =>
          -- neither the parentheses nor what they enclose can be lowered
          have huntyped : inner.type? = none := (eq_of_beq htype).symm
          intro s r
          rw [← hinner' s r]
          refine iff_of_false ?_ (inner.lower_ne_ok_of_untyped huntyped s r)
          rintro ⟨⟩
  | .call type name args, h => by
      obtain ⟨-, hargs⟩ := List.forall_mem_cons.1 h
      rw [Expr.ungrouped, Expr.lower, Expr.lower]
      exact .andThen _ fun _ => (lowerArgs_ungrouped args hargs).bind fun _ => .refl _

theorem lowerArgs_ungrouped : (args : List Expr) →
    (∀ node ∈ partsOfArgs args, node.groupAgrees = true) →
    (lowerArgs args).SameSuccess (lowerArgs (ungroupedArgs args))
  | [], _ => .refl _
  | e :: rest, h => by
      obtain ⟨he, hrest⟩ := List.forall_mem_append.1 h
      rw [ungroupedArgs, lowerArgs, lowerArgs]
      exact (e.lower_ungrouped he).bind fun _ =>
        (lowerArgs_ungrouped rest hrest).bind fun _ => .refl _

end

theorem lowerStore_ungrouped (type : ScalarType) (name : String) {value : Expr}
    {construct : Construct} (h : ∀ node ∈ value.nodes construct, node.groupAgrees = true) :
    (lowerStore type name value).SameSuccess (lowerStore type name value.ungrouped) :=
  (value.lower_ungrouped h).bind fun _ => .refl _

/-- Statements that stay in one block lower alike. -/
theorem Stmt.lower_ungrouped_of_isFlat {s : Stmt} (hs : s.isFlat = true)
    (h : ∀ node ∈ s.nodes, node.groupAgrees = true) : s.lower.SameSuccess s.ungrouped.lower := by
  cases s with
  | cond line condition thenBranch elseBranch => cases hs
  | loop line condition body => cases hs
  | constDecl line name type value =>
      obtain ⟨construct, hvalue⟩ :
          ∃ construct, ∀ node ∈ value.nodes construct, node.groupAgrees = true := by
        cases type <;> exact ⟨_, h⟩
      rw [Stmt.ungrouped, Stmt.lower, Stmt.lower, value.type?_ungrouped hvalue]
      exact .andThen _ fun _ => .andThen _ fun type => .andThen _ fun _ =>
        lowerStore_ungrouped type name hvalue
  | varDecl line name type value =>
      cases value with
      | none => exact .refl _
      | some value =>
          obtain ⟨construct, hvalue⟩ :
              ∃ construct, ∀ node ∈ value.nodes construct, node.groupAgrees = true := by
            cases type <;> exact ⟨_, h⟩
          have htype : needVarType name type (some value)
              = needVarType name type (some value.ungrouped) := by
            cases type <;> simp only [needVarType, value.type?_ungrouped hvalue]
          rw [Stmt.ungrouped, Stmt.lower, Stmt.lower, htype]
          exact .andThen _ fun _ => .andThen _ fun type => .andThen _ fun _ =>
            lowerStore_ungrouped type name hvalue
  | assign line name value =>
      rw [Stmt.ungrouped, Stmt.lower, Stmt.lower, value.type?_ungrouped h]
      exact .andThen _ fun _ => .andThen _ fun type => lowerStore_ungrouped type name h
  | print line value =>
      rw [Stmt.ungrouped, Stmt.lower, Stmt.lower, value.type?_ungrouped h]
      exact .andThen _ fun _ => .andThen _ fun _ => (value.lower_ungrouped h).bind fun _ => .refl _
  | declare line prototype => exact .refl _
  | eval line value =>
      rw [Stmt.ungrouped, Stmt.lower, Stmt.lower]
      exact .andThen _ fun _ => (value.lower_ungrouped h).bind fun _ => .refl _

/-- The headers of conditionals and loops lower alike. -/
theorem header_ungrouped {construct : Construct} {condition : Expr}
    {f g : BlockId → String → Lowering Unit}
    (h : ∀ node ∈ condition.nodes construct, node.groupAgrees = true)
    (hfg : ∀ header test, (f header test).SameSuccess (g header test)) :
    SameSuccess (do
        let header ← enterNext
        let _ ← need construct condition.type?
        let test ← condition.lower
        f header test)
      (do
        let header ← enterNext
        let _ ← need construct condition.ungrouped.type?
        let test ← condition.ungrouped.lower
        g header test) := by
  rw [condition.type?_ungrouped h]
  exact .andThen _ fun header => .andThen _ fun _ =>
    (condition.lower_ungrouped h).bind fun test => hfg header test

/-- The statements and those without parentheses lower alike. -/
def LowersAlike (stmts : List Stmt) : Prop :=
  (lowerAll stmts).SameSuccess (lowerAll (ungroupedAll stmts))

theorem cond_ungrouped {line : UInt64} {condition : Expr} {thenBranch : List Stmt}
    (h : ∀ node ∈ condition.nodes .condition, node.groupAgrees = true)
    (hthen : LowersAlike thenBranch) :
    (Stmt.cond line condition thenBranch none).lower.SameSuccess
      (Stmt.cond line condition thenBranch none).ungrouped.lower := by
  rw [Stmt.ungrouped, Stmt.lower, Stmt.lower]
  exact .andThen _ fun _ => header_ungrouped h fun _ _ => .andThen _ fun _ => hthen.bind fun _ => .refl _

theorem condElse_ungrouped {line : UInt64} {condition : Expr} {thenBranch elseBranch : List Stmt}
    (h : ∀ node ∈ condition.nodes .condition, node.groupAgrees = true)
    (hthen : LowersAlike thenBranch) (helse : LowersAlike elseBranch) :
    (Stmt.cond line condition thenBranch (some elseBranch)).lower.SameSuccess
      (Stmt.cond line condition thenBranch (some elseBranch)).ungrouped.lower := by
  rw [Stmt.ungrouped, Stmt.lower, Stmt.lower]
  exact .andThen _ fun _ => header_ungrouped h fun _ _ => .andThen _ fun _ => hthen.bind fun _ =>
    .andThen _ fun _ => helse.bind fun _ => .refl _

theorem loop_ungrouped {line : UInt64} {condition : Expr} {body : List Stmt}
    (h : ∀ node ∈ condition.nodes .loopCondition, node.groupAgrees = true)
    (hbody : LowersAlike body) :
    (Stmt.loop line condition body).lower.SameSuccess
      (Stmt.loop line condition body).ungrouped.lower := by
  rw [Stmt.ungrouped, Stmt.lower, Stmt.lower]
  exact .andThen _ fun _ => header_ungrouped h fun _ _ => .andThen _ fun _ => hbody.bind fun _ => .refl _

theorem LowersAlike.cons {s : Stmt} {rest : List Stmt}
    (hs : s.lower.SameSuccess s.ungrouped.lower) (hrest : LowersAlike rest) :
    LowersAlike (s :: rest) := by
  rw [LowersAlike, ungroupedAll, lowerAll, lowerAll]
  exact hs.bind fun _ => hrest

theorem lowersAlike (stmts : List Stmt)
    (h : ∀ s ∈ withinAll stmts, ∀ node ∈ s.nodes, node.groupAgrees = true) : LowersAlike stmts := by
  match stmts with
  | [] => exact .refl _
  | .cond line condition thenBranch none :: rest =>
      obtain ⟨hs, hrest⟩ := List.forall_mem_append.1 h
      obtain ⟨hcondition, hthen⟩ := List.forall_mem_cons.1 hs
      exact .cons (cond_ungrouped hcondition (lowersAlike thenBranch hthen))
        (lowersAlike rest hrest)
  | .cond line condition thenBranch (some elseBranch) :: rest =>
      obtain ⟨hs, hrest⟩ := List.forall_mem_append.1 h
      obtain ⟨hcondition, harms⟩ := List.forall_mem_cons.1 hs
      obtain ⟨hthen, helse⟩ := List.forall_mem_append.1 harms
      exact .cons (condElse_ungrouped hcondition (lowersAlike thenBranch hthen)
        (lowersAlike elseBranch helse)) (lowersAlike rest hrest)
  | .loop line condition body :: rest =>
      obtain ⟨hs, hrest⟩ := List.forall_mem_append.1 h
      obtain ⟨hcondition, hbody⟩ := List.forall_mem_cons.1 hs
      exact .cons (loop_ungrouped hcondition (lowersAlike body hbody)) (lowersAlike rest hrest)
  | .constDecl _ _ _ _ :: rest | .varDecl _ _ _ _ :: rest | .assign _ _ _ :: rest
  | .print _ _ :: rest | .declare _ _ :: rest | .eval _ _ :: rest =>
      obtain ⟨hs, hrest⟩ := List.forall_mem_cons.1 h
      exact .cons (Stmt.lower_ungrouped_of_isFlat rfl hs) (lowersAlike rest hrest)

/-! ## Compilation -/

theorem Program.lower_eq_ok_iff {p : Program} {g : BlockGraph} :
    p.lower = .ok g ↔ ∃ r, lowerAll p.statements { draft := .empty } = .ok r ∧ r.2.draft.graph = g := by
  rw [Program.lower, bind_eq_ok_iff]
  exact exists_congr fun r => and_congr_right fun _ => by simp [pure, Except.pure]

theorem Program.compile_eq_ok_iff {p : Program} {P : ThreeAddress.Program} :
    p.compile = .ok P ↔ ∃ g, p.lower = .ok g ∧ g.link = .ok P := by
  rw [Program.compile, bind_eq_ok_iff]
  simp only [Program.graph, linkGraph, mapError_eq_ok_iff]

/-- **Parentheses change nothing.** Take a program in which every pair of parentheses, at any depth,
    has the type of what it encloses, and remove all of them. Then the one program compiles exactly
    if the other does, and to the same code, with the same temporaries and addresses. -/
theorem compile_ungrouped {p : Program}
    (h : ∀ s node, (s, node) ∈ p.nodes → node.groupAgrees = true) :
    (∀ s node, (s, node) ∈ p.ungrouped.nodes → node.isGroup = false) ∧
      ∀ P, p.compile = .ok P ↔ p.ungrouped.compile = .ok P := by
  refine ⟨fun s node hmem => ?_, fun P => ?_⟩
  · obtain ⟨hs, hnode⟩ := mem_nodes_iff.1 hmem
    rw [Program.ungrouped, withinAll_ungroupedAll] at hs
    obtain ⟨s', -, rfl⟩ := List.mem_map.1 hs
    exact s'.isGroup_ungrouped node hnode
  · have halike := lowersAlike p.statements fun s hs node hnode =>
      h s node (mem_nodes_iff.2 ⟨hs, hnode⟩)
    have hlower (g : BlockGraph) : p.lower = .ok g ↔ p.ungrouped.lower = .ok g := by
      rw [Program.lower_eq_ok_iff, Program.lower_eq_ok_iff]
      exact exists_congr fun r => and_congr_left fun _ => halike _ r
    rw [Program.compile_eq_ok_iff, Program.compile_eq_ok_iff]
    exact exists_congr fun g => and_congr_left fun _ => hlower g

/-- Prints a sum; the sum and its left operand stand in parentheses, the operand twice. -/
def Program.parenthesized : Program :=
  ⟨[.print 1 (.parenthesized (.arith .add
    (.parenthesized (.parenthesized (.ofConstant (.int 1)))) (.ofConstant (.int 2))))]⟩

theorem compile_ungrouped_parenthesized :
    (Program.parenthesized.nodes.all fun q => q.2.groupAgrees) = true ∧
      Program.parenthesized.ungrouped.compile = .ok ⟨#[
        .literal .int (.int 1) "__int_0", .literal .int (.int 2) "__int_1",
        .binary .add .int "__int_0" "__int_1" "__int_2", .print .int "__int_2"]⟩ := by
  have hagree : (Program.parenthesized.nodes.all fun q => q.2.groupAgrees) = true := by decide
  obtain ⟨-, hcompile⟩ := compile_ungrouped (p := .parenthesized) fun s node hmem =>
    List.all_eq_true.1 hagree (s, node) hmem
  exact ⟨hagree, (hcompile _).1 (by decide +kernel)⟩

end ThreeAddress.Source
