import ThreeAddress.Proofs.Lowering.Constants
import ThreeAddress.Proofs.Source.Decoding

set_option autoImplicit false

/-! # Source programs read back

The text of a source program is read back as the program, whether or not its optional fields are
written where they hold their default. All that this takes of the program is that its floats are
read back from their own texts; names, strings and numbers of 64 bits always are. -/

namespace ThreeAddress

open Json (Abridges)

/-! ## Readable trees -/

theorem Constant.readable_toJson {c : Constant}
    (h : ∀ x, c = .float x → (Json.float x).ReadsBack) : c.toJson.Readable := by
  refine Json.readable_object_iff.2 (List.forall_mem_singleton.2 ?_)
  cases c with
  | int v => exact Json.readable_toInt v
  | float x => exact .float (h x rfl)
  | string s => exact .string s
  | bool b => exact .bool b

theorem ScalarType.readable_ofOption (type : Option ScalarType) :
    (Json.ofOption toJson type).Readable := by
  cases type with
  | none => exact .null
  | some t => exact .string t.name

namespace Source

theorem readable_exprRecord {type : Option ScalarType} {variant : String} {data : Json}
    (h : data.Readable) : (exprRecord type variant data).Readable := by
  simp [exprRecord, Json.readable_object_iff, ScalarType.readable_ofOption, h]

theorem readable_stmtRecord {line : UInt64} {variant : String} {data : Json}
    (h : data.Readable) : (stmtRecord line variant data).Readable := by
  simp [stmtRecord, Json.readable_object_iff, Json.readable_toNat, h]

mutual

/-- The tree of an expression is readable if those of its constants are. -/
theorem Expr.readable_toJson :
    (e : Expr) → (∀ c ∈ e.constants, c.toJson.Readable) → e.toJson.Readable
  | .literal type value, h => by
      rw [Expr.toJson]
      exact readable_exprRecord (h value (by simp [Expr.constants]))
  | .binary type op left right, h => by
      rw [Expr.constants, List.forall_mem_append] at h
      have hleft := left.readable_toJson h.1
      have hright := right.readable_toJson h.2
      rw [Expr.toJson]
      refine readable_exprRecord ?_
      simp [Json.readable_object_iff, Json.Readable.string, hleft, hright]
  | .relational type op left right, h => by
      rw [Expr.constants, List.forall_mem_append] at h
      have hleft := left.readable_toJson h.1
      have hright := right.readable_toJson h.2
      rw [Expr.toJson]
      refine readable_exprRecord ?_
      simp [Json.readable_object_iff, Json.Readable.string, hleft, hright]
  | .unary type op operand, h => by
      rw [Expr.constants] at h
      have hoperand := operand.readable_toJson h
      rw [Expr.toJson]
      refine readable_exprRecord ?_
      simp [Json.readable_object_iff, Json.Readable.string, hoperand]
  | .load type name, _ => by
      rw [Expr.toJson]
      exact readable_exprRecord (.string name)
  | .group type inner, h => by
      rw [Expr.constants] at h
      rw [Expr.toJson]
      exact readable_exprRecord (inner.readable_toJson h)
  | .call type name args, h => by
      rw [Expr.constants] at h
      have hargs := Json.Readable.array (readable_exprsToJson args h)
      rw [Expr.toJson]
      refine readable_exprRecord ?_
      simp [Json.readable_object_iff, Json.Readable.string, hargs]

theorem readable_exprsToJson :
    (l : List Expr) → (∀ c ∈ constantsArgs l, c.toJson.Readable) →
      ∀ v ∈ exprsToJson l, v.Readable
  | [], _ => List.forall_mem_nil _
  | e :: rest, h => by
      rw [constantsArgs, List.forall_mem_append] at h
      rw [exprsToJson, List.forall_mem_cons]
      exact ⟨e.readable_toJson h.1, readable_exprsToJson rest h.2⟩

end

theorem Prototype.readable_toJson (p : Prototype) : p.toJson.Readable := by
  have hparam (q : Param) : q.toJson.Readable := by
    simp [Param.toJson, ScalarType.toJson, Json.readable_object_iff, Json.Readable.string]
  simp [toJson, ScalarType.toJson, Json.readable_object_iff, Json.readable_array_iff,
    Json.Readable.string, hparam]

mutual

/-- The tree of a statement is readable if those of the expressions in it are. -/
theorem Stmt.readable_toJson :
    (s : Stmt) → (∀ t ∈ s.within, ∀ e, t.expr? = some e → e.toJson.Readable) → s.toJson.Readable
  | .constDecl line name type value, h => by
      have hvalue := h _ (Stmt.mem_within_self _) value rfl
      rw [Stmt.toJson]
      refine readable_stmtRecord ?_
      simp [Json.readable_object_iff, Json.Readable.string, ScalarType.readable_ofOption, hvalue]
  | .varDecl line name type value, h => by
      have hvalue : (Json.ofOption Expr.toJson value).Readable := by
        cases value with
        | none => exact .null
        | some e => exact h _ (Stmt.mem_within_self _) e rfl
      rw [Stmt.toJson]
      refine readable_stmtRecord ?_
      simp [Json.readable_object_iff, Json.Readable.string, ScalarType.readable_ofOption, hvalue]
  | .assign line location value, h => by
      have hvalue := h _ (Stmt.mem_within_self _) value rfl
      rw [Stmt.toJson]
      refine readable_stmtRecord ?_
      simp [Json.readable_object_iff, Json.Readable.string, hvalue]
  | .print line value, h => by
      rw [Stmt.toJson]
      exact readable_stmtRecord (h _ (Stmt.mem_within_self _) value rfl)
  | .cond line condition thenBranch none, h => by
      rw [Stmt.within, List.forall_mem_cons] at h
      have hcondition := h.1 condition rfl
      have hthen := Json.Readable.array (readable_stmtsToJson thenBranch h.2)
      rw [Stmt.toJson]
      refine readable_stmtRecord ?_
      simp [Json.readable_object_iff, Json.Readable.null, hcondition, hthen]
  | .cond line condition thenBranch (some elseBranch), h => by
      rw [Stmt.within, List.forall_mem_cons, List.forall_mem_append] at h
      have hcondition := h.1 condition rfl
      have hthen := Json.Readable.array (readable_stmtsToJson thenBranch h.2.1)
      have helse := Json.Readable.array (readable_stmtsToJson elseBranch h.2.2)
      rw [Stmt.toJson]
      refine readable_stmtRecord ?_
      simp [Json.readable_object_iff, hcondition, hthen, helse]
  | .loop line condition body, h => by
      rw [Stmt.within, List.forall_mem_cons] at h
      have hcondition := h.1 condition rfl
      have hbody := Json.Readable.array (readable_stmtsToJson body h.2)
      rw [Stmt.toJson]
      refine readable_stmtRecord ?_
      simp [Json.readable_object_iff, hcondition, hbody]
  | .declare line prototype, _ => by
      rw [Stmt.toJson]
      exact readable_stmtRecord prototype.readable_toJson
  | .eval line value, h => by
      rw [Stmt.toJson]
      exact readable_stmtRecord (h _ (Stmt.mem_within_self _) value rfl)

theorem readable_stmtsToJson :
    (l : List Stmt) → (∀ t ∈ withinAll l, ∀ e, t.expr? = some e → e.toJson.Readable) →
      ∀ v ∈ stmtsToJson l, v.Readable
  | [], _ => List.forall_mem_nil _
  | s :: rest, h => by
      rw [withinAll, List.forall_mem_append] at h
      rw [stmtsToJson, List.forall_mem_cons]
      exact ⟨s.readable_toJson h.1, readable_stmtsToJson rest h.2⟩

end

theorem Program.readable_toJson {p : Program}
    (h : ∀ x ∈ p.floats, (Json.float x).ReadsBack) : p.toJson.Readable := by
  have hexpr : ∀ s ∈ withinAll p.statements, ∀ e, s.expr? = some e → e.toJson.Readable := by
    intro s hs e he
    refine e.readable_toJson fun c hc => Constant.readable_toJson ?_
    rintro x rfl
    exact h x (mem_floats (mem_constants hs he hc))
  refine Json.readable_object_iff.2 (List.forall_mem_singleton.2 ?_)
  exact .array (readable_stmtsToJson p.statements hexpr)

/-! ## Programs -/

/-- **Source programs are read back, with or without their defaults.** The tree of a program is
    decoded to the program, and so is every tree that is left of it when optional fields are left
    out where they hold their default, at any depth. If the floats of the program are finite and
    each of them is read back from its own text, the same holds of the texts of these trees, unless
    they are nested too deeply to be read. -/
theorem Program.reads_back_abridged (p : Program) :
    ofJson? p.toJson = some p ∧
    ∀ v, Abridges optionalFields p.toJson v →
      ofJson? v = some p ∧
      ((∀ x ∈ p.floats, x.isFinite) → (∀ x ∈ p.floats, x.isFinite → (Json.float x).ReadsBack) →
        v.height ≤ Json.maxDepth → read? v.indented = some p) := by
  refine ⟨ofJson?_of_abridges (.keep _), fun v h => ⟨ofJson?_of_abridges h, ?_⟩⟩
  intro hfinite hreads hheight
  have hwhole : p.toJson.Readable := readable_toJson fun x hx => hreads x hx (hfinite x hx)
  have hparse := Json.parse?_indented (h.readable hwhole) hheight
  rw [read?, Json.read?, hparse, Option.bind_some]
  exact ofJson?_of_abridges h

/-! A program with a default at every optional field, beside branches and types that are none. -/

/-- Waits for a flag; one conditional has an empty `else`, the other has none. -/
def Program.waiting : Program := ⟨[
  .declare 0 ⟨"tick", [], .int⟩,
  .varDecl 0 "ready" none none,
  .cond 3 (.load none "ready") [.print 0 (.literal none (.float 0.5))] (some []),
  .cond 4 (.load (some .bool) "ready") [.eval 5 (.call none "tick" [])] none]⟩

/-- The tree of the program, without most of the fields that hold their default. -/
def Program.waitingAbridged : Json := .object [("statements", .array [
  .object [("kind", .object [("Extern", .object [("name", .string "tick"),
    ("return_type", .string "int")])])],
  .object [("kind", .object [("VarDecl", .object [("name", .string "ready"),
    ("value", .null)])]), ("line", .int 0)],
  .object [("kind", .object [("If", .object [
    ("condition", .object [("kind", .object [("Load", .string "ready")])]),
    ("then_branch", .array [.object [("kind", .object [("Print",
      .object [("kind", .object [("Literal", .object [("float", .float 0.5)])])])])]]),
    ("else_branch", .array [])])]), ("line", .int 3)],
  .object [("kind", .object [("If", .object [
    ("condition", .object [("kind", .object [("Load", .string "ready")]),
      ("type", .string "bool")]),
    ("then_branch", .array [.object [("kind", .object [("Expression",
      .object [("kind", .object [("Call", .object [("name", .string "tick"),
        ("args", .array [])])])])]), ("line", .int 5)]])])]), ("line", .int 4)]])]

theorem Program.abridges_waiting :
    Abridges optionalFields waiting.toJson waitingAbridged := by
  have htype : ("type", Json.null) ∈ optionalFields := by simp [optionalFields]
  have hdeclType : ("decl_type", Json.null) ∈ optionalFields := by simp [optionalFields]
  have helse : ("else_branch", Json.null) ∈ optionalFields := by simp [optionalFields]
  have hline : ("line", Json.int 0) ∈ optionalFields := by simp [optionalFields]
  have hparams : ("params", Json.array []) ∈ optionalFields := by simp [optionalFields]
  refine .object (.keep (.array (.cons ?_ (.cons ?_ (.cons ?_ (.cons ?_ .nil))))) .nil)
  · refine .object (.keep (.object (.keep (.object ?_) .nil)) (.drop hline .nil))
    exact .keep (.keep _) (.drop hparams (.keep (.keep _) .nil))
  · refine .object (.keep (.object (.keep (.object ?_) .nil)) (.keep (.keep _) .nil))
    exact .keep (.keep _) (.drop hdeclType (.keep (.keep _) .nil))
  · refine .object (.keep (.object (.keep (.object ?_) .nil)) (.keep (.keep _) .nil))
    refine .keep (.object (.keep (.keep _) (.drop htype .nil))) (.keep ?_ (.keep (.keep _) .nil))
    refine .array (.cons (.object (.keep (.object (.keep ?_ .nil)) (.drop hline .nil))) .nil)
    exact .object (.keep (.keep _) (.drop htype .nil))
  · refine .object (.keep (.object (.keep (.object ?_) .nil)) (.keep (.keep _) .nil))
    refine .keep (.keep _) (.keep ?_ (.drop helse .nil))
    refine .array (.cons (.object (.keep (.object (.keep ?_ .nil)) (.keep (.keep _) .nil))) .nil)
    exact .object (.keep (.keep _) (.drop htype .nil))

theorem Program.reads_back_abridged_waiting :
    Abridges optionalFields waiting.toJson waitingAbridged ∧
      ofJson? waitingAbridged = some waiting ∧
      read? waitingAbridged.indented = some waiting := by
  have hfloats : waiting.floats = [0.5] := by decide +kernel
  obtain ⟨hdecoded, hread⟩ := waiting.reads_back_abridged.2 waitingAbridged abridges_waiting
  rw [hfloats] at hread
  exact ⟨abridges_waiting, hdecoded, hread (by decide +kernel)
    (List.forall_mem_singleton.2 fun _ => Json.readsBack_half) (by decide +kernel)⟩

end Source

end ThreeAddress
