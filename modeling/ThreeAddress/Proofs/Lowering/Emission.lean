import ThreeAddress.Proofs.Sequencing
import ThreeAddress.Source.Lower

set_option autoImplicit false

/-! # The code of expressions and simple statements

Lowering an expression appends instructions to the current block and takes new temporaries; it does
nothing else to a draft. This file gives the instructions and the temporaries as functions of the
tree (`Expr.emit`, `Stmt.emit`), together with the condition under which lowering accepts the tree
(`decorated`), and proves that lowering does what they say. Proofs about generated code then follow
the tree and need not look at drafts. -/

namespace ThreeAddress.Source

/-! ## Decorated trees -/

mutual

/-- Every node has a type, and every literal the type of its value. -/
def Expr.decorated : Expr → Bool
  | .literal type value => type == some value.type
  | .binary type _ left right => type.isSome && left.decorated && right.decorated
  | .relational type _ left right => type.isSome && left.decorated && right.decorated
  | .unary type _ operand => type.isSome && operand.decorated
  | .load type _ => type.isSome
  | .group type inner => type.isSome && inner.decorated
  | .call type _ args => type.isSome && decoratedArgs args

/-- All arguments are decorated. -/
def decoratedArgs : List Expr → Bool
  | [] => true
  | e :: rest => e.decorated && decoratedArgs rest

end

mutual

/-- Every expression of the statement is decorated, and a variable without an initial value has a
    declared type. -/
def Stmt.decorated : Stmt → Bool
  | .constDecl _ _ _ value => value.decorated
  | .varDecl _ _ _ (some value) => value.decorated
  | .varDecl _ _ type none => type.isSome
  | .assign _ _ value => value.decorated
  | .print _ value => value.decorated
  | .cond _ condition thenBranch none => condition.decorated && decoratedAll thenBranch
  | .cond _ condition thenBranch (some elseBranch) =>
    condition.decorated && decoratedAll thenBranch && decoratedAll elseBranch
  | .loop _ condition body => condition.decorated && decoratedAll body
  | .declare _ _ => true
  | .eval _ value => value.decorated

/-- All statements are decorated. -/
def decoratedAll : List Stmt → Bool
  | [] => true
  | s :: rest => s.decorated && decoratedAll rest

end

/-- Whether a statement stays in one block. -/
def Stmt.isFlat : Stmt → Bool
  | .cond _ _ _ _ | .loop _ _ _ => false
  | _ => true

mutual

/-- A statement and all statements inside it. -/
def Stmt.within : Stmt → List Stmt
  | .cond line condition thenBranch none =>
    .cond line condition thenBranch none :: withinAll thenBranch
  | .cond line condition thenBranch (some elseBranch) =>
    .cond line condition thenBranch (some elseBranch) ::
      (withinAll thenBranch ++ withinAll elseBranch)
  | .loop line condition body => .loop line condition body :: withinAll body
  | s => [s]

/-- Statements and all statements inside them. -/
def withinAll : List Stmt → List Stmt
  | [] => []
  | s :: rest => s.within ++ withinAll rest

end

theorem Stmt.mem_within_self (s : Stmt) : s ∈ s.within := by
  unfold Stmt.within
  split <;> simp

/-- The expression that a statement itself evaluates. -/
def Stmt.expr? : Stmt → Option Expr
  | .constDecl _ _ _ value => some value
  | .varDecl _ _ _ value => value
  | .assign _ _ value => some value
  | .print _ value => some value
  | .cond _ condition _ _ => some condition
  | .loop _ condition _ => some condition
  | .declare _ _ => none
  | .eval _ value => some value

theorem Expr.isSome_type?_of_decorated {e : Expr} (h : e.decorated = true) :
    e.type?.isSome = true := by
  cases e with
  | literal type value =>
      simp only [decorated, beq_iff_eq] at h
      simp [type?, h]
  | load type name => exact h
  | _ =>
      simp only [decorated, Bool.and_eq_true] at h
      simp [type?, h]

theorem Expr.isSome_type?_and_decorated (e : Expr) :
    (e.type?.isSome && e.decorated) = e.decorated := by
  cases h : e.decorated with
  | false => exact Bool.and_false _
  | true => rw [isSome_type?_of_decorated h, Bool.and_true]

/-! ## Emitted code -/

/-- Instructions, what they yield, and the temporaries that there are behind them. -/
structure Emission (α : Type) where
  code : List Instr
  value : α
  temporaries : Temporaries

/-- The code of a computation that goes on behind `code`: one more instruction, which puts its
    result into a new temporary. -/
def Emission.compute (code : List Instr) (t : Temporaries) (type : ScalarType)
    (instr : String → Instr) : Emission String :=
  let target := Temporaries.name type (t.count type)
  ⟨code ++ [instr target], target, t.bump type⟩

mutual

/-- The code of an expression behind the temporaries `t`; it yields the temporary that holds the
    value. -/
def Expr.emit (t : Temporaries) : Expr → Emission String
  | .literal _ value => .compute [] t value.type (.literal value.type value)
  | .binary _ op left right =>
    let type := left.type?.getD .int
    let l := left.emit t
    let r := right.emit l.temporaries
    .compute (l.code ++ r.code) r.temporaries type (.binary op type l.value r.value)
  | .relational _ op left right =>
    let type := left.type?.getD .int
    let l := left.emit t
    let r := right.emit l.temporaries
    .compute (l.code ++ r.code) r.temporaries .bool (.compare op type l.value r.value)
  | .unary _ op operand =>
    let type := operand.type?.getD .int
    let source := operand.emit t
    .compute source.code source.temporaries type (.unary op type source.value)
  | .load type name =>
    let type := type.getD .int
    .compute [] t type (.load type name)
  | .group _ inner => inner.emit t
  | .call type name args =>
    let values := emitArgs t args
    .compute values.code values.temporaries (type.getD .int) (.call name values.value)

/-- The code of the arguments of a call, from left to right. -/
def emitArgs (t : Temporaries) : List Expr → Emission (List String)
  | [] => ⟨[], [], t⟩
  | e :: rest =>
    let first := e.emit t
    let others := emitArgs first.temporaries rest
    ⟨first.code ++ others.code, first.value :: others.value, others.temporaries⟩

end

/-- The type of a declared variable that has an initial value. -/
def declaredType (type : Option ScalarType) (value : Expr) : ScalarType :=
  (type <|> value.type?).getD .int

/-- The code of the declaration of a variable with an initial value. -/
def emitDeclaration (t : Temporaries) (type : ScalarType) (name : String) (value : Expr) :
    Emission Unit :=
  let e := value.emit t
  ⟨.alloc type name :: (e.code ++ [.store type e.value name]), (), e.temporaries⟩

/-- The code of a statement that stays in one block. -/
def Stmt.emit (t : Temporaries) : Stmt → Emission Unit
  | .constDecl _ name type value => emitDeclaration t (declaredType type value) name value
  | .varDecl _ name type (some value) => emitDeclaration t (declaredType type value) name value
  | .varDecl _ name type none => ⟨[.alloc (type.getD .int) name], (), t⟩
  | .assign _ name value =>
    let e := value.emit t
    ⟨e.code ++ [.store (value.type?.getD .int) e.value name], (), e.temporaries⟩
  | .print _ value =>
    let e := value.emit t
    ⟨e.code ++ [.print (value.type?.getD .int) e.value], (), e.temporaries⟩
  | .declare _ prototype =>
    ⟨[.bind prototype.name prototype.returnType (prototype.params.map Param.type)], (), t⟩
  | .eval _ value =>
    let e := value.emit t
    ⟨e.code, (), e.temporaries⟩
  | .cond _ _ _ _ | .loop _ _ _ => ⟨[], (), t⟩

end ThreeAddress.Source

namespace ThreeAddress

/-! ## Plain code -/

/-- Whether an instruction is one of the instruction set and always goes on with the next one. -/
def Instr.isPlain : Instr → Bool
  | .jump _ | .branch _ _ _ | .unknown _ _ => false
  | _ => true

namespace Source

mutual

/-- The code of expressions is plain. -/
theorem Expr.emit_plain (t : Temporaries) : (e : Expr) → ∀ i ∈ (e.emit t).code, i.isPlain = true
  | .literal _ _ => by simp [Expr.emit, Emission.compute, Instr.isPlain]
  | .binary _ _ left right => by
      have hl := left.emit_plain t
      have hr := right.emit_plain (left.emit t).temporaries
      simp only [Expr.emit, Emission.compute, List.forall_mem_append, List.forall_mem_singleton]
      exact ⟨⟨hl, hr⟩, rfl⟩
  | .relational _ _ left right => by
      have hl := left.emit_plain t
      have hr := right.emit_plain (left.emit t).temporaries
      simp only [Expr.emit, Emission.compute, List.forall_mem_append, List.forall_mem_singleton]
      exact ⟨⟨hl, hr⟩, rfl⟩
  | .unary _ _ operand => by
      have h := operand.emit_plain t
      simp only [Expr.emit, Emission.compute, List.forall_mem_append, List.forall_mem_singleton]
      exact ⟨h, rfl⟩
  | .load _ _ => by simp [Expr.emit, Emission.compute, Instr.isPlain]
  | .group _ inner => by
      unfold Expr.emit
      exact inner.emit_plain t
  | .call _ _ args => by
      have h := emitArgs_plain t args
      simp only [Expr.emit, Emission.compute, List.forall_mem_append, List.forall_mem_singleton]
      exact ⟨h, rfl⟩

theorem emitArgs_plain (t : Temporaries) :
    (args : List Expr) → ∀ i ∈ (emitArgs t args).code, i.isPlain = true
  | [] => by simp [emitArgs]
  | e :: rest => by
      have he := e.emit_plain t
      have hrest := emitArgs_plain (e.emit t).temporaries rest
      simp only [emitArgs, List.forall_mem_append]
      exact ⟨he, hrest⟩

end

/-- The code of statements that stay in one block is plain. -/
theorem Stmt.emit_plain (t : Temporaries) (s : Stmt) : ∀ i ∈ (s.emit t).code, i.isPlain = true := by
  have hbehind (value : Expr) {i : Instr} (hi : i.isPlain = true) :
      ∀ j ∈ (value.emit t).code ++ [i], j.isPlain = true :=
    List.forall_mem_append.2 ⟨value.emit_plain t, List.forall_mem_singleton.2 hi⟩
  have hdecl (type : ScalarType) (name : String) (value : Expr) :
      ∀ i ∈ (emitDeclaration t type name value).code, i.isPlain = true :=
    List.forall_mem_cons.2 ⟨rfl, hbehind value rfl⟩
  unfold Stmt.emit
  split
  · exact hdecl _ _ _
  · exact hdecl _ _ _
  · exact List.forall_mem_singleton.2 rfl
  · next value => exact hbehind value rfl
  · next value => exact hbehind value rfl
  · exact List.forall_mem_singleton.2 rfl
  · next value => exact value.emit_plain t
  · exact List.forall_mem_nil _
  · exact List.forall_mem_nil _

end Source

/-! ## Emission into a draft -/

/-- Instructions appended to the current block, with the temporaries that there are then. -/
def Draft.emitted (d : Draft) (code : List Instr) (t : Temporaries) : Draft :=
  { d with
    graph := d.graph.modify d.current fun b => { b with code := b.code ++ code }
    temporaries := t }

namespace Draft

variable (d : Draft)

@[simp] theorem emitted_nil : d.emitted [] d.temporaries = d := by
  have hmodify : d.graph.blocks.modify d.current
      (fun b => { b with code := b.code ++ ([] : List Instr) }) = d.graph.blocks := by
    apply Array.ext_getElem?
    intro i
    rw [Array.getElem?_modify]
    split
    · simp
    · rfl
  simp only [emitted, BlockGraph.modify, hmodify]

@[simp] theorem emitted_emitted (code code' : List Instr) (t t' : Temporaries) :
    (d.emitted code t).emitted code' t' = d.emitted (code ++ code') t' := by
  have happend (xs : Array Instr) : xs ++ code ++ code' = xs ++ (code ++ code') :=
    Array.toList_inj.1 (by simp)
  have hmodify : (d.graph.blocks.modify d.current fun b => { b with code := b.code ++ code }).modify
      d.current (fun b => { b with code := b.code ++ code' })
        = d.graph.blocks.modify d.current fun b => { b with code := b.code ++ (code ++ code') } := by
    apply Array.ext_getElem?
    intro i
    simp only [Array.getElem?_modify]
    split
    · simp only [Option.map_map, Function.comp_def, happend]
    · rfl
  simp only [emitted, BlockGraph.modify, hmodify]

theorem append_eq_emitted (i : Instr) : d.append i = d.emitted [i] d.temporaries := by
  simp [append, emitted]

theorem compute_eq_emitted (type : ScalarType) (instr : String → Instr) :
    d.compute type instr =
      let e := Source.Emission.compute [] d.temporaries type instr
      (e.value, d.emitted e.code e.temporaries) := by
  simp [compute, fresh, append, emitted, Source.Emission.compute]

end Draft

/-! ## Steps of lowering and what they accept -/

namespace Source.Lowering

variable {α β : Type}

/-- On whatever line, lowering succeeds from the draft `d` exactly if `accepted`, and then the result
    and the draft behind it satisfy `post`. It never fails at a reference between blocks. -/
def Meets (x : Lowering α) (d : Draft) (accepted : Bool) (post : α → Draft → Prop) : Prop :=
  ∀ line, match x ⟨d, line⟩ with
    | .ok (a, s) => accepted = true ∧ post a s.draft
    | .error e => accepted = false ∧ ∀ b, e ≠ .build b

theorem Meets.bind {x : Lowering α} {f : α → Lowering β} {d : Draft} {accepted rest : Bool}
    {mid : α → Draft → Prop} {post : β → Draft → Prop} (hx : x.Meets d accepted mid)
    (hf : ∀ a d', mid a d' → (f a).Meets d' rest post) :
    (x >>= f).Meets d (accepted && rest) post := by
  intro line
  have hx := hx line
  have hbind : (x >>= f) ⟨d, line⟩ = (x ⟨d, line⟩ >>= fun r => f r.1 r.2) := rfl
  rw [hbind]
  rcases hd : x ⟨d, line⟩ with e | ⟨a, d', line'⟩
  · rw [hd] at hx
    rw [error_bind, hx.1]
    exact ⟨rfl, hx.2⟩
  · rw [hd] at hx
    rw [ok_bind, hx.1, Bool.true_and]
    exact hf a d' hx.2 line'

/-- A step that always succeeds leaves what is accepted to the others. -/
theorem Meets.andThen {x : Lowering α} {f : α → Lowering β} {d : Draft} {rest : Bool}
    {mid : α → Draft → Prop} {post : β → Draft → Prop} (hx : x.Meets d true mid)
    (hf : ∀ a d', mid a d' → (f a).Meets d' rest post) : (x >>= f).Meets d rest post := by
  have h := hx.bind hf
  rwa [Bool.true_and] at h

theorem Meets.mono {x : Lowering α} {d : Draft} {accepted : Bool} {mid post : α → Draft → Prop}
    (hx : x.Meets d accepted mid) (h : ∀ a d', mid a d' → post a d') :
    x.Meets d accepted post := by
  intro line
  have hx := hx line
  rcases hd : x ⟨d, line⟩ with e | ⟨a, d', line'⟩
  · rw [hd] at hx
    exact hx
  · rw [hd] at hx
    exact ⟨hx.1, h a d' hx.2⟩

theorem meets_pure (a : α) (d : Draft) {post : α → Draft → Prop} (h : post a d) :
    (pure a : Lowering α).Meets d true post := fun _ => ⟨rfl, h⟩

theorem meets_emit (step : Draft → α × Draft) (d : Draft) :
    (emit step).Meets d true (fun a d' => (a, d') = step d) := fun _ => ⟨rfl, rfl⟩

/-- Turning to another line changes nothing of what is accepted and emitted. -/
theorem meets_turnTo (line : UInt64) {x : Lowering α} {d : Draft} {accepted : Bool}
    {post : α → Draft → Prop} (hx : x.Meets d accepted post) :
    (turnTo line >>= fun _ => x).Meets d accepted post := fun _ => hx line

theorem meets_need (construct : Construct) (type : Option ScalarType) (d : Draft) :
    (need construct type).Meets d type.isSome (fun t d' => type = some t ∧ d' = d) := by
  cases type with
  | none => exact fun _ => ⟨rfl, by simp⟩
  | some t => exact fun _ => ⟨rfl, rfl, rfl⟩

/-- Lowering appends the emitted code and yields the emitted value. -/
def Emits (d : Draft) (e : Emission α) (a : α) (d' : Draft) : Prop :=
  a = e.value ∧ d' = d.emitted e.code e.temporaries

theorem meets_compute (d : Draft) (code : List Instr) (t : Temporaries) (type : ScalarType)
    (instr : String → Instr) :
    (emit fun d => d.compute type instr).Meets (d.emitted code t) true
      (Emits d (.compute code t type instr)) := by
  refine fun _ => ⟨rfl, rfl, ?_⟩
  change ((d.emitted code t).compute type instr).2 = _
  rw [Draft.compute_eq_emitted]
  exact Draft.emitted_emitted d code _ t _

theorem meets_append (d : Draft) (code : List Instr) (t : Temporaries) (i : Instr) :
    (append i).Meets (d.emitted code t) true (Emits d ⟨code ++ [i], (), t⟩) := by
  refine fun _ => ⟨rfl, rfl, ?_⟩
  dsimp only
  rw [Draft.append_eq_emitted]
  exact Draft.emitted_emitted d code _ t _

end Source.Lowering

namespace Source

open Lowering

/-! ## Expressions -/

/-- What the arithmetic expressions and the comparisons have in common: the operands are lowered
    from left to right, at the type of the left one, and then combined. -/
theorem meets_operands {left right : Expr}
    (hleft : ∀ d, left.lower.Meets d left.decorated (Emits d (left.emit d.temporaries)))
    (hright : ∀ d, right.lower.Meets d right.decorated (Emits d (right.emit d.temporaries)))
    (d : Draft) (type : Option ScalarType) (whole operand : Construct)
    (result : ScalarType → ScalarType) (instr : ScalarType → String → String → String → Instr) :
    Meets (do
        let _ ← need whole type
        let operandType ← need operand left.type?
        let l ← left.lower
        let r ← right.lower
        emit fun d => d.compute (result operandType) (instr operandType l r))
      d (type.isSome && left.decorated && right.decorated)
      (Emits d
        (let type := left.type?.getD .int
         let l := left.emit d.temporaries
         let r := right.emit l.temporaries
         .compute (l.code ++ r.code) r.temporaries (result type)
           (instr type l.value r.value))) := by
  rw [← left.isSome_type?_and_decorated, Bool.and_assoc, Bool.and_assoc,
    ← Bool.and_true right.decorated]
  refine (meets_need _ _ d).bind ?_
  rintro _ _ ⟨-, rfl⟩
  refine (meets_need _ _ _).bind ?_
  rintro operandType _ ⟨htype, rfl⟩
  refine (hleft _).bind ?_
  rintro _ _ ⟨rfl, rfl⟩
  refine (hright _).bind ?_
  rintro _ _ ⟨rfl, rfl⟩
  rw [Draft.emitted_emitted, htype]
  exact meets_compute _ _ _ _ _

mutual

/-- Lowering an expression appends its code, if the expression is decorated. -/
theorem Expr.lower_meets (d : Draft) : (e : Expr) →
    e.lower.Meets d e.decorated (Emits d (e.emit d.temporaries))
  | .literal type value => by
      unfold Expr.lower Expr.decorated Expr.emit
      cases type with
      | none => exact fun _ => ⟨rfl, by simp⟩
      | some type =>
          by_cases h : value.type = type
          · subst h
            have hacc : (some value.type == some value.type) = (true && true) := by simp
            rw [hacc]
            refine (meets_need _ _ d).bind ?_
            rintro _ d' ⟨⟨⟩, rfl⟩
            rw [if_pos rfl]
            have := meets_compute d' [] d'.temporaries value.type (.literal value.type value)
            rwa [Draft.emitted_nil] at this
          · have hacc : (some type == some value.type) = (true && false) := by
              simpa using fun h' => h h'.symm
            rw [hacc]
            refine (meets_need _ _ d).bind ?_
            rintro _ _ ⟨⟨⟩, rfl⟩
            -- the value of the literal contradicts its type
            rw [if_neg h]
            exact fun _ => ⟨rfl, by simp⟩
  | .binary type op left right => by
      unfold Expr.lower Expr.decorated Expr.emit
      exact meets_operands (fun d => left.lower_meets d) (fun d => right.lower_meets d) d
        type _ _ (fun type => type) (fun type l r => .binary op type l r)
  | .relational type op left right => by
      unfold Expr.lower Expr.decorated Expr.emit
      exact meets_operands (fun d => left.lower_meets d) (fun d => right.lower_meets d) d
        type _ _ (fun _ => .bool) (fun type l r => .compare op type l r)
  | .unary type op operand => by
      unfold Expr.lower Expr.decorated Expr.emit
      rw [← operand.isSome_type?_and_decorated, ← Bool.and_true operand.decorated]
      refine (meets_need _ _ d).bind ?_
      rintro _ _ ⟨-, rfl⟩
      refine (meets_need _ _ _).bind ?_
      rintro operandType _ ⟨htype, rfl⟩
      refine (operand.lower_meets _).bind ?_
      rintro _ _ ⟨rfl, rfl⟩
      rw [htype]
      exact meets_compute _ _ _ _ _
  | .load type name => by
      unfold Expr.lower Expr.decorated Expr.emit
      rw [← Bool.and_true type.isSome]
      refine (meets_need _ _ d).bind ?_
      rintro type d' ⟨rfl, rfl⟩
      have := meets_compute d' [] d'.temporaries type (.load type name)
      rwa [Draft.emitted_nil] at this
  | .group type inner => by
      unfold Expr.lower Expr.decorated Expr.emit
      refine (meets_need _ _ d).bind ?_
      rintro _ _ ⟨-, rfl⟩
      exact inner.lower_meets _
  | .call type name args => by
      unfold Expr.lower Expr.decorated Expr.emit
      rw [← Bool.and_true (decoratedArgs args)]
      refine (meets_need _ _ d).bind ?_
      rintro type _ ⟨rfl, rfl⟩
      refine (lowerArgs_meets _ args).bind ?_
      rintro _ _ ⟨rfl, rfl⟩
      exact meets_compute _ _ _ _ _

/-- Lowering arguments appends their code, if all of them are decorated. -/
theorem lowerArgs_meets (d : Draft) : (args : List Expr) →
    (lowerArgs args).Meets d (decoratedArgs args) (Emits d (emitArgs d.temporaries args))
  | [] => by
      unfold lowerArgs decoratedArgs emitArgs
      exact meets_pure _ _ ⟨rfl, (Draft.emitted_nil d).symm⟩
  | e :: rest => by
      unfold lowerArgs decoratedArgs emitArgs
      rw [← Bool.and_true (decoratedArgs rest)]
      refine (e.lower_meets d).bind ?_
      rintro _ _ ⟨rfl, rfl⟩
      refine (lowerArgs_meets _ rest).bind ?_
      rintro _ _ ⟨rfl, rfl⟩
      exact meets_pure _ _ ⟨rfl, Draft.emitted_emitted ..⟩

end

/-! ## Statements that stay in one block -/

theorem lowerStore_meets (type : ScalarType) (name : String) (value : Expr)
    (d : Draft) (code : List Instr) :
    (lowerStore type name value).Meets (d.emitted code d.temporaries) value.decorated
      (let e := value.emit d.temporaries
       Emits d ⟨code ++ (e.code ++ [.store type e.value name]), (), e.temporaries⟩) := by
  unfold lowerStore
  rw [← Bool.and_true value.decorated]
  refine (value.lower_meets _).bind ?_
  rintro _ _ ⟨rfl, rfl⟩
  rw [Draft.emitted_emitted]
  have happend := meets_append d (code ++ (value.emit d.temporaries).code)
    (value.emit d.temporaries).temporaries (.store type (value.emit d.temporaries).value name)
  rwa [List.append_assoc] at happend

theorem lowerDeclaration_meets (type : ScalarType) (name : String) (value : Expr)
    (d : Draft) :
    Meets (do
        append (.alloc type name)
        lowerStore type name value)
      d value.decorated (Emits d (emitDeclaration d.temporaries type name value)) := by
  rw [← Bool.true_and value.decorated]
  have happend := meets_append d [] d.temporaries (.alloc type name)
  rw [Draft.emitted_nil] at happend
  refine happend.bind ?_
  rintro _ _ ⟨rfl, rfl⟩
  exact lowerStore_meets type name value d _

theorem isSome_declaredType_and_decorated (type : Option ScalarType) (value : Expr) :
    ((type <|> value.type?).isSome && value.decorated) = value.decorated := by
  cases type with
  | none => exact value.isSome_type?_and_decorated
  | some type => rfl

/-- Lowering a statement that stays in one block appends its code, if the statement is
    decorated. -/
theorem Stmt.lower_meets_of_isFlat {s : Stmt} (hs : s.isFlat = true) (d : Draft) :
    s.lower.Meets d s.decorated (Emits d (s.emit d.temporaries)) := by
  cases s with
  | cond line condition thenBranch elseBranch => cases hs
  | loop line condition body => cases hs
  | constDecl line name type value =>
      rw [Stmt.lower, Stmt.decorated, Stmt.emit]
      refine meets_turnTo _ ?_
      rw [← isSome_declaredType_and_decorated type value]
      refine (meets_need _ _ d).bind ?_
      rintro type' _ ⟨htype, rfl⟩
      rw [declaredType, htype]
      exact lowerDeclaration_meets type' name value _
  | varDecl line name type value =>
      rw [Stmt.lower]
      refine meets_turnTo _ ?_
      cases value with
      | none =>
          rw [Stmt.decorated, Stmt.emit]
          rw [← Bool.and_true type.isSome]
          have hneed : (needVarType name type none).Meets d type.isSome
              (fun t d' => type = some t ∧ d' = d) := by
            cases type with
            | none => exact meets_need (.uninitialized name) none d
            | some type => exact meets_need .varDecl (some type) d
          refine hneed.bind ?_
          rintro type' d' ⟨rfl, rfl⟩
          rw [← Bool.and_true true]
          have happend := meets_append d' [] d'.temporaries (.alloc type' name)
          rw [Draft.emitted_nil] at happend
          refine happend.bind ?_
          rintro _ _ h
          exact meets_pure _ _ h
      | some value =>
          rw [Stmt.decorated, Stmt.emit]
          rw [← isSome_declaredType_and_decorated type value]
          have hneed : (needVarType name type (some value)).Meets d
              (type <|> value.type?).isSome
              (fun t d' => (type <|> value.type?) = some t ∧ d' = d) := by
            cases type with
            | none => exact meets_need .varDecl value.type? d
            | some type => exact meets_need .varDecl (some type) d
          refine hneed.bind ?_
          rintro type' _ ⟨htype, rfl⟩
          rw [declaredType, htype]
          exact lowerDeclaration_meets type' name value _
  | assign line name value =>
      rw [Stmt.lower, Stmt.decorated, Stmt.emit]
      refine meets_turnTo _ ?_
      rw [← value.isSome_type?_and_decorated]
      refine (meets_need _ _ d).bind ?_
      rintro type d' ⟨htype, rfl⟩
      rw [htype]
      have := lowerStore_meets type name value d' []
      rwa [Draft.emitted_nil] at this
  | print line value =>
      rw [Stmt.lower, Stmt.decorated, Stmt.emit]
      refine meets_turnTo _ ?_
      rw [← value.isSome_type?_and_decorated, ← Bool.and_true value.decorated]
      refine (meets_need _ _ d).bind ?_
      rintro type d' ⟨htype, rfl⟩
      refine (value.lower_meets _).bind ?_
      rintro _ _ ⟨rfl, rfl⟩
      rw [htype]
      exact meets_append _ _ _ _
  | declare line prototype =>
      rw [Stmt.lower, Stmt.decorated, Stmt.emit]
      refine meets_turnTo _ ?_
      have happend := meets_append d [] d.temporaries
        (.bind prototype.name prototype.returnType (prototype.params.map Param.type))
      rwa [Draft.emitted_nil] at happend
  | eval line value =>
      rw [Stmt.lower, Stmt.decorated, Stmt.emit]
      refine meets_turnTo _ ?_
      rw [← Bool.and_true value.decorated]
      refine (value.lower_meets d).bind ?_
      rintro _ _ ⟨-, h⟩
      exact meets_pure _ _ ⟨rfl, h⟩

end Source

end ThreeAddress
