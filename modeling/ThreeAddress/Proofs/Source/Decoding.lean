import ThreeAddress.Proofs.Json.Abridged
import ThreeAddress.Proofs.Wire.Grammar
import ThreeAddress.Source.Json

set_option autoImplicit false

/-! # Decoding source trees

The JSON form of a source program is decoded to the program, and so is every form of it that leaves
out optional fields at their defaults. An expression without a type stays apart from one with a
type, and a conditional without an `else` from one whose `else` is empty, however deep they are. -/

namespace ThreeAddress

open Json (Abridges)

namespace Source

/-- The optional fields of source trees, each with the default at which it may be left out. -/
def optionalFields : List (String × Json) :=
  [("type", .null), ("decl_type", .null), ("value", .null), ("else_branch", .null),
    ("line", .int 0), ("params", .array [])]

end Source

open Source (optionalFields)

-- The decoders of records branch on a name. Their steps up to there are rewritten one by one, so
-- that only the branch of the name is simplified and not all of them.
theorem bind_of_eq_some {α β : Type} {x : Option α} {a : α} {f : α → Option β} (h : x = some a) :
    x >>= f = f a := by
  rw [h]
  rfl

/-! ## Types, constants and operators -/

theorem ScalarType.ofJson?_of_abridges {t : ScalarType} {w : Json}
    (h : Abridges optionalFields t.toJson w) : ofJson? w = some t := by
  cases h
  exact ofName?_eq_some_iff.2 rfl

theorem ScalarType.optional?_eq {type : Option ScalarType} {members fields : List (String × Json)}
    {w : Json} (h : Json.AbridgedRecord optionalFields members w fields) (key : String)
    (hkey : members.lookup key = some (Json.ofOption toJson type)) :
    Json.optional? ofJson? (fields.lookup key) = some type := by
  refine h.optional key hkey (fun t => ?_) rfl fun t _ w' hw' _ => ofJson?_of_abridges hw'
  simp [optionalFields, toJson]

theorem Constant.ofJson?_of_abridges {c : Constant} {w : Json}
    (h : Abridges optionalFields c.toJson w) : ofJson? w = some c := by
  have hvariant : c.type.name ∉ optionalFields.map Prod.fst := by
    cases c <;> simp [optionalFields, Constant.type, ScalarType.name]
  obtain ⟨data, rfl, hdata⟩ := h.exists_variant fun hmem => hvariant (List.mem_map_of_mem hmem)
  have hname : ScalarType.ofName? c.type.name = some c.type := ScalarType.ofName?_eq_some_iff.2 rfl
  simp only [ofJson?, Json.variant?, hname, Option.bind_eq_bind, Option.bind_some]
  cases c with
  | int v =>
      cases hdata
      exact congrArg (Option.map Constant.int) (Json.int64?_toInt v)
  | _ =>
      cases hdata
      rfl

theorem ArithOp.ofSymbol?_symbol (op : ArithOp) : ofSymbol? op.symbol = some op := by
  cases op <;> decide

theorem CompareOp.ofSymbol?_symbol (op : CompareOp) : ofSymbol? op.symbol = some op := by
  cases op <;> decide

theorem UnaryOp.ofSymbol?_symbol (op : UnaryOp) : ofSymbol? op.symbol = some op := by
  cases op <;> decide

namespace Source

/-! ## Expressions -/

theorem exprsToJson_eq_map (l : List Expr) : exprsToJson l = l.map Expr.toJson := by
  induction l with
  | nil => rfl
  | cons e l ih => rw [exprsToJson, ih, List.map_cons]

/-- The expression is found in every abridged form of its tree. -/
def Expr.Recovered (e : Expr) : Prop :=
  ∀ w bound, Abridges optionalFields e.toJson w → w.height ≤ bound → exprWithin bound w = some e

/-- What is left of the record of an expression. -/
theorem exists_of_exprRecord {type : Option ScalarType} {variant : String} {data w : Json}
    {bound : Nat} (h : Abridges optionalFields (exprRecord type variant data) w)
    (hvariant : (variant, data) ∉ optionalFields) (hbound : w.height ≤ bound) :
    ∃ fields kind data' bound', bound = bound' + 1 ∧ w.record? ["kind", "type"] = some fields ∧
      Json.optional? ScalarType.ofJson? (fields.lookup "type") = some type ∧
      fields.lookup "kind" = some kind ∧ kind.variant? = some (variant, data') ∧
      Abridges optionalFields data data' ∧ data'.height ≤ bound' := by
  obtain ⟨fields, hfields⟩ := h.exists_record (by simp)
  obtain ⟨kind, hkind, habridges, hheight⟩ := hfields.required "kind" rfl (by simp [optionalFields])
  obtain ⟨data', rfl, hdata⟩ := habridges.exists_variant hvariant
  have hbelow : data'.height + 1 < bound := by
    simp only [Json.height, Json.heightMembers] at hheight
    omega
  refine ⟨fields, _, data', bound - 1, by omega, hfields.record?_eq, ?_, hkind, rfl, hdata,
    by omega⟩
  exact ScalarType.optional?_eq hfields "type" rfl

/-- What is left of the record of an operator and its two operands. -/
theorem exists_of_operands {symbol : String} {left right : Expr} {w : Json} {bound : Nat}
    (h : Abridges optionalFields
      (.object [("op", .string symbol), ("left", left.toJson), ("right", right.toJson)]) w)
    (hbound : w.height ≤ bound) (hleft : left.Recovered) (hright : right.Recovered) :
    ∃ parts l r, w.record? ["op", "left", "right"] = some parts ∧
      parts.lookup "op" = some (.string symbol) ∧
      parts.lookup "left" = some l ∧ exprWithin bound l = some left ∧
      parts.lookup "right" = some r ∧ exprWithin bound r = some right := by
  obtain ⟨parts, hparts⟩ := h.exists_record (by simp)
  obtain ⟨op, hop, hsymbol, -⟩ := hparts.required "op" rfl (by simp [optionalFields])
  obtain ⟨l, hl, hlAbridges, hlHeight⟩ := hparts.required "left" rfl (by simp [optionalFields])
  obtain ⟨r, hr, hrAbridges, hrHeight⟩ := hparts.required "right" rfl (by simp [optionalFields])
  cases hsymbol
  exact ⟨parts, l, r, hparts.record?_eq, hop, hl, hleft l bound hlAbridges (by omega), hr,
    hright r bound hrAbridges (by omega)⟩

mutual

/-- Every expression is found in every abridged form of its tree. -/
theorem Expr.recovered : (e : Expr) → e.Recovered
  | .literal type value => by
      intro w bound h hbound
      rw [Expr.toJson] at h
      obtain ⟨fields, kind, data, bound, rfl, hrecord, htype, hkind, hvariant, hdata, -⟩ :=
        exists_of_exprRecord h (by simp [optionalFields]) hbound
      have hvalue := Constant.ofJson?_of_abridges hdata
      rw [exprWithin, bind_of_eq_some hrecord, bind_of_eq_some htype, bind_of_eq_some hkind,
        bind_of_eq_some hvariant]
      simp only [hvalue, Option.bind_eq_bind, Option.bind_some]
      rfl
  | .binary type op left right => by
      intro w bound h hbound
      rw [Expr.toJson] at h
      obtain ⟨fields, kind, data, bound, rfl, hrecord, htype, hkind, hvariant, hdata, hheight⟩ :=
        exists_of_exprRecord h (by simp [optionalFields]) hbound
      obtain ⟨parts, l, r, hparts, hop, hl, hleft, hr, hright⟩ :=
        exists_of_operands hdata hheight left.recovered right.recovered
      rw [exprWithin, bind_of_eq_some hrecord, bind_of_eq_some htype, bind_of_eq_some hkind,
        bind_of_eq_some hvariant]
      simp only [hparts, hop, Json.tag?, op.ofSymbol?_symbol, hl, hleft, hr, hright,
        Option.bind_eq_bind, Option.bind_some]
      rfl
  | .relational type op left right => by
      intro w bound h hbound
      rw [Expr.toJson] at h
      obtain ⟨fields, kind, data, bound, rfl, hrecord, htype, hkind, hvariant, hdata, hheight⟩ :=
        exists_of_exprRecord h (by simp [optionalFields]) hbound
      obtain ⟨parts, l, r, hparts, hop, hl, hleft, hr, hright⟩ :=
        exists_of_operands hdata hheight left.recovered right.recovered
      rw [exprWithin, bind_of_eq_some hrecord, bind_of_eq_some htype, bind_of_eq_some hkind,
        bind_of_eq_some hvariant]
      simp only [hparts, hop, Json.tag?, op.ofSymbol?_symbol, hl, hleft, hr, hright,
        Option.bind_eq_bind, Option.bind_some]
      rfl
  | .unary type op operand => by
      intro w bound h hbound
      rw [Expr.toJson] at h
      obtain ⟨fields, kind, data, bound, rfl, hrecord, htype, hkind, hvariant, hdata, hheight⟩ :=
        exists_of_exprRecord h (by simp [optionalFields]) hbound
      obtain ⟨parts, hparts⟩ := hdata.exists_record (by simp)
      obtain ⟨symbol, hop, hsymbol, -⟩ := hparts.required "op" rfl (by simp [optionalFields])
      obtain ⟨a, ha, habridges, haHeight⟩ :=
        hparts.required "operand" rfl (by simp [optionalFields])
      have hpartsRecord : data.record? ["op", "operand"] = some parts := hparts.record?_eq
      have hoperand := operand.recovered a bound habridges (by omega)
      cases hsymbol
      rw [exprWithin, bind_of_eq_some hrecord, bind_of_eq_some htype, bind_of_eq_some hkind,
        bind_of_eq_some hvariant]
      simp only [hpartsRecord, hop, Json.tag?, op.ofSymbol?_symbol, ha, hoperand,
        Option.bind_eq_bind, Option.bind_some]
      rfl
  | .load type name => by
      intro w bound h hbound
      rw [Expr.toJson] at h
      obtain ⟨fields, kind, data, bound, rfl, hrecord, htype, hkind, hvariant, hdata, -⟩ :=
        exists_of_exprRecord h (by simp [optionalFields]) hbound
      cases hdata
      rw [exprWithin, bind_of_eq_some hrecord, bind_of_eq_some htype, bind_of_eq_some hkind,
        bind_of_eq_some hvariant]
      simp only [Json.text?, Option.bind_eq_bind, Option.bind_some]
      rfl
  | .group type inner => by
      intro w bound h hbound
      rw [Expr.toJson] at h
      obtain ⟨fields, kind, data, bound, rfl, hrecord, htype, hkind, hvariant, hdata, hheight⟩ :=
        exists_of_exprRecord h (by simp [optionalFields]) hbound
      have hinner := inner.recovered data bound hdata hheight
      rw [exprWithin, bind_of_eq_some hrecord, bind_of_eq_some htype, bind_of_eq_some hkind,
        bind_of_eq_some hvariant]
      simp only [hinner, Option.bind_eq_bind, Option.bind_some]
      rfl
  | .call type name args => by
      intro w bound h hbound
      rw [Expr.toJson, exprsToJson_eq_map] at h
      obtain ⟨fields, kind, data, bound, rfl, hrecord, htype, hkind, hvariant, hdata, hheight⟩ :=
        exists_of_exprRecord h (by simp [optionalFields]) hbound
      obtain ⟨parts, hparts⟩ := hdata.exists_record (by simp)
      obtain ⟨text, hname, htext, -⟩ := hparts.required "name" rfl (by simp [optionalFields])
      obtain ⟨list, hlist, habridges, hlistHeight⟩ :=
        hparts.required "args" rfl (by simp [optionalFields])
      have hpartsRecord : data.record? ["name", "args"] = some parts := hparts.record?_eq
      obtain ⟨items, hitems, hargs⟩ := habridges.exists_items fun e he v hv hvHeight =>
        exprs_recovered args e he v bound hv (by omega)
      cases htext
      rw [exprWithin, bind_of_eq_some hrecord, bind_of_eq_some htype, bind_of_eq_some hkind,
        bind_of_eq_some hvariant]
      simp only [hpartsRecord, hname, Json.text?, hlist, hitems, hargs, Option.bind_eq_bind,
        Option.bind_some]
      rfl

theorem exprs_recovered : (args : List Expr) → ∀ e ∈ args, e.Recovered
  | [] => List.forall_mem_nil _
  | e :: rest => List.forall_mem_cons.2 ⟨e.recovered, exprs_recovered rest⟩

end

theorem Expr.ofJson?_of_abridges {e : Expr} {w : Json}
    (h : Abridges optionalFields e.toJson w) : ofJson? w = some e :=
  e.recovered w w.height h (Nat.le_refl _)

/-- The tree of an expression is a record, which is no default of any field. -/
theorem Expr.not_mem_optionalFields (e : Expr) (key : String) :
    (key, e.toJson) ∉ optionalFields := by
  cases e <;> simp [optionalFields, Expr.toJson, exprRecord]

/-! ## Declarations of functions -/

theorem Param.ofJson?_of_abridges {p : Param} {w : Json}
    (h : Abridges optionalFields p.toJson w) : ofJson? w = some p := by
  obtain ⟨fields, hfields⟩ := h.exists_record (by simp)
  obtain ⟨text, hname, htext, -⟩ := hfields.required "name" rfl (by simp [optionalFields])
  obtain ⟨t, ht, htype, -⟩ :=
    hfields.required "type" rfl (by simp [optionalFields, ScalarType.toJson])
  have hrecord : w.record? ["name", "type"] = some fields := hfields.record?_eq
  cases htext
  simp only [ofJson?, hrecord, hname, Json.text?, ht, ScalarType.ofJson?_of_abridges htype,
    Option.bind_eq_bind, Option.bind_some]
  rfl

theorem Param.listOfJson?_of_abridges {params : List Param} {w : Json}
    (h : Abridges optionalFields (.array (params.map toJson)) w) : listOfJson? w = some params := by
  obtain ⟨items, hitems, hparams⟩ := h.exists_items fun p _ v hv _ => ofJson?_of_abridges hv
  rw [listOfJson?, hitems, Option.bind_some, hparams]

theorem Prototype.ofJson?_of_abridges {p : Prototype} {w : Json}
    (h : Abridges optionalFields p.toJson w) : ofJson? w = some p := by
  obtain ⟨fields, hfields⟩ := h.exists_record (by simp)
  obtain ⟨text, hname, htext, -⟩ := hfields.required "name" rfl (by simp [optionalFields])
  obtain ⟨t, ht, htype, -⟩ :=
    hfields.required "return_type" rfl (by simp [optionalFields, ScalarType.toJson])
  have hrecord : w.record? ["name", "params", "return_type"] = some fields := hfields.record?_eq
  have hparams : Json.orDefault? Param.listOfJson? [] (fields.lookup "params") = some p.params := by
    refine hfields.orDefault "params" rfl (fun hdefault => ?_) fun w' hw' => ?_
    · have hnil : p.params = [] := by simpa [optionalFields] using hdefault
      exact hnil.symm
    · exact Param.listOfJson?_of_abridges hw'
  cases htext
  simp only [ofJson?, hrecord, hname, Json.text?, hparams, ht, ScalarType.ofJson?_of_abridges htype,
    Option.bind_eq_bind, Option.bind_some]
  rfl

/-! ## Statements -/

theorem stmtsToJson_eq_map (l : List Stmt) : stmtsToJson l = l.map Stmt.toJson := by
  induction l with
  | nil => rfl
  | cons s l ih => rw [stmtsToJson, ih, List.map_cons]

/-- The JSON form of a block of statements. -/
def blockToJson (l : List Stmt) : Json := .array (stmtsToJson l)

theorem Stmt.toJson_cond (line : UInt64) (condition : Expr) (thenBranch : List Stmt)
    (elseBranch : Option (List Stmt)) :
    (Stmt.cond line condition thenBranch elseBranch).toJson
      = stmtRecord line "If" (.object [("condition", condition.toJson),
        ("then_branch", blockToJson thenBranch),
        ("else_branch", Json.ofOption blockToJson elseBranch)]) := by
  cases elseBranch with
  | none =>
      rw [Stmt.toJson]
      rfl
  | some elseBranch =>
      rw [Stmt.toJson]
      rfl

/-- The statement is found in every abridged form of its tree. -/
def Stmt.Recovered (s : Stmt) : Prop :=
  ∀ w bound, Abridges optionalFields s.toJson w → w.height ≤ bound → stmtWithin bound w = some s

/-- What is left of the record of a statement. -/
theorem exists_of_stmtRecord {line : UInt64} {variant : String} {data w : Json} {bound : Nat}
    (h : Abridges optionalFields (stmtRecord line variant data) w)
    (hvariant : (variant, data) ∉ optionalFields) (hbound : w.height ≤ bound) :
    ∃ fields kind data' bound', bound = bound' + 1 ∧ w.record? ["kind", "line"] = some fields ∧
      Json.orDefault? Json.uint64? 0 (fields.lookup "line") = some line ∧
      fields.lookup "kind" = some kind ∧ kind.variant? = some (variant, data') ∧
      Abridges optionalFields data data' ∧ data'.height ≤ bound' := by
  obtain ⟨fields, hfields⟩ := h.exists_record (by simp)
  obtain ⟨kind, hkind, habridges, hheight⟩ := hfields.required "kind" rfl (by simp [optionalFields])
  obtain ⟨data', rfl, hdata⟩ := habridges.exists_variant hvariant
  have hbelow : data'.height + 1 < bound := by
    simp only [Json.height, Json.heightMembers] at hheight
    omega
  refine ⟨fields, _, data', bound - 1, by omega, hfields.record?_eq, ?_, hkind, rfl, hdata,
    by omega⟩
  refine hfields.orDefault "line" rfl (fun hdefault => ?_) fun w' hw' => ?_
  · have hzero : line.toNat = 0 := by simpa [optionalFields] using hdefault
    exact (UInt64.toNat_inj.1 hzero).symm
  · cases hw'
    exact Json.uint64?_toNat line

/-- A block of statements is found in every abridged form of its tree. -/
theorem block_recovered (bound : Nat) {l : List Stmt} {w : Json} (hl : ∀ s ∈ l, s.Recovered)
    (h : Abridges optionalFields (blockToJson l) w) (hbound : w.height ≤ bound) :
    w.items?.bind (·.mapM (stmtWithin bound)) = some l := by
  rw [blockToJson, stmtsToJson_eq_map] at h
  obtain ⟨items, hitems, hstmts⟩ := h.exists_items fun s hs v hv hheight =>
    hl s hs v bound hv (by omega)
  rw [hitems, Option.bind_some, hstmts]

theorem Stmt.recovered_cond {line : UInt64} {condition : Expr} {thenBranch : List Stmt}
    {elseBranch : Option (List Stmt)} (hthen : ∀ s ∈ thenBranch, s.Recovered)
    (helse : ∀ l, elseBranch = some l → ∀ s ∈ l, s.Recovered) :
    (Stmt.cond line condition thenBranch elseBranch).Recovered := by
  intro w bound h hbound
  rw [Stmt.toJson_cond] at h
  obtain ⟨fields, kind, data, bound, rfl, hrecord, hline, hkind, hvariant, hdata, hheight⟩ :=
    exists_of_stmtRecord h (by simp [optionalFields]) hbound
  obtain ⟨parts, hparts⟩ := hdata.exists_record (by simp)
  obtain ⟨c, hc, hcondition, -⟩ :=
    hparts.required "condition" rfl (condition.not_mem_optionalFields _)
  obtain ⟨t, ht, hblock, htHeight⟩ := hparts.required "then_branch" rfl (by simp [optionalFields])
  have hpartsRecord : data.record? ["condition", "then_branch", "else_branch"] = some parts :=
    hparts.record?_eq
  have hthenBranch := block_recovered bound hthen hblock (by omega)
  have helseBranch : Json.optional? (fun v => v.items?.bind (·.mapM (stmtWithin bound)))
      (parts.lookup "else_branch") = some elseBranch := by
    refine hparts.optional "else_branch" rfl (fun l => ?_) rfl fun l hl v hv hvHeight => ?_
    -- an empty block is an array, not `null`
    · simp [optionalFields, blockToJson]
    · exact block_recovered bound (helse l hl) hv (by omega)
  rw [stmtWithin, bind_of_eq_some hrecord, bind_of_eq_some hline, bind_of_eq_some hkind,
    bind_of_eq_some hvariant]
  simp only [hpartsRecord, hc, Expr.ofJson?_of_abridges hcondition, ht, hthenBranch, helseBranch,
    Option.bind_eq_bind, Option.bind_some]
  rfl

mutual

/-- Every statement is found in every abridged form of its tree. -/
theorem Stmt.recovered : (s : Stmt) → s.Recovered
  | .constDecl line name type value => by
      intro w bound h hbound
      rw [Stmt.toJson] at h
      obtain ⟨fields, kind, data, bound, rfl, hrecord, hline, hkind, hvariant, hdata, -⟩ :=
        exists_of_stmtRecord h (by simp [optionalFields]) hbound
      obtain ⟨parts, hparts⟩ := hdata.exists_record (by simp)
      obtain ⟨text, hname, htext, -⟩ := hparts.required "name" rfl (by simp [optionalFields])
      obtain ⟨v, hv, hvalue, -⟩ := hparts.required "value" rfl (value.not_mem_optionalFields _)
      have hpartsRecord : data.record? ["name", "decl_type", "value"] = some parts :=
        hparts.record?_eq
      have htype := ScalarType.optional?_eq hparts "decl_type" rfl
      cases htext
      rw [stmtWithin, bind_of_eq_some hrecord, bind_of_eq_some hline, bind_of_eq_some hkind,
        bind_of_eq_some hvariant]
      simp only [hpartsRecord, hname, Json.text?, htype, hv, Expr.ofJson?_of_abridges hvalue,
        Option.bind_eq_bind, Option.bind_some]
      rfl
  | .varDecl line name type value => by
      intro w bound h hbound
      rw [Stmt.toJson] at h
      obtain ⟨fields, kind, data, bound, rfl, hrecord, hline, hkind, hvariant, hdata, -⟩ :=
        exists_of_stmtRecord h (by simp [optionalFields]) hbound
      obtain ⟨parts, hparts⟩ := hdata.exists_record (by simp)
      obtain ⟨text, hname, htext, -⟩ := hparts.required "name" rfl (by simp [optionalFields])
      have hpartsRecord : data.record? ["name", "decl_type", "value"] = some parts :=
        hparts.record?_eq
      have htype := ScalarType.optional?_eq hparts "decl_type" rfl
      have hvalue := hparts.optional "value" rfl (fun e => e.not_mem_optionalFields _) rfl
        fun e _ v hv _ => Expr.ofJson?_of_abridges hv
      cases htext
      rw [stmtWithin, bind_of_eq_some hrecord, bind_of_eq_some hline, bind_of_eq_some hkind,
        bind_of_eq_some hvariant]
      simp only [hpartsRecord, hname, Json.text?, htype, hvalue, Option.bind_eq_bind,
        Option.bind_some]
      rfl
  | .assign line location value => by
      intro w bound h hbound
      rw [Stmt.toJson] at h
      obtain ⟨fields, kind, data, bound, rfl, hrecord, hline, hkind, hvariant, hdata, -⟩ :=
        exists_of_stmtRecord h (by simp [optionalFields]) hbound
      obtain ⟨parts, hparts⟩ := hdata.exists_record (by simp)
      obtain ⟨text, hname, htext, -⟩ := hparts.required "location" rfl (by simp [optionalFields])
      obtain ⟨v, hv, hvalue, -⟩ := hparts.required "value" rfl (value.not_mem_optionalFields _)
      have hpartsRecord : data.record? ["location", "value"] = some parts := hparts.record?_eq
      cases htext
      rw [stmtWithin, bind_of_eq_some hrecord, bind_of_eq_some hline, bind_of_eq_some hkind,
        bind_of_eq_some hvariant]
      simp only [hpartsRecord, hname, Json.text?, hv, Expr.ofJson?_of_abridges hvalue,
        Option.bind_eq_bind, Option.bind_some]
      rfl
  | .print line value => by
      intro w bound h hbound
      rw [Stmt.toJson] at h
      obtain ⟨fields, kind, data, bound, rfl, hrecord, hline, hkind, hvariant, hdata, -⟩ :=
        exists_of_stmtRecord h (by simp [optionalFields]) hbound
      rw [stmtWithin, bind_of_eq_some hrecord, bind_of_eq_some hline, bind_of_eq_some hkind,
        bind_of_eq_some hvariant]
      simp only [Expr.ofJson?_of_abridges hdata, Option.bind_eq_bind, Option.bind_some]
      rfl
  | .cond line condition thenBranch none =>
      Stmt.recovered_cond (stmts_recovered thenBranch) nofun
  | .cond line condition thenBranch (some elseBranch) => by
      refine Stmt.recovered_cond (stmts_recovered thenBranch) ?_
      rintro _ ⟨⟩
      exact stmts_recovered elseBranch
  | .loop line condition body => by
      intro w bound h hbound
      rw [Stmt.toJson] at h
      obtain ⟨fields, kind, data, bound, rfl, hrecord, hline, hkind, hvariant, hdata, hheight⟩ :=
        exists_of_stmtRecord h (by simp [optionalFields]) hbound
      obtain ⟨parts, hparts⟩ := hdata.exists_record (by simp)
      obtain ⟨c, hc, hcondition, -⟩ :=
        hparts.required "condition" rfl (condition.not_mem_optionalFields _)
      obtain ⟨b, hb, hblock, hbHeight⟩ := hparts.required "body" rfl (by simp [optionalFields])
      have hpartsRecord : data.record? ["condition", "body"] = some parts := hparts.record?_eq
      have hbody := block_recovered bound (stmts_recovered body) hblock (by omega)
      rw [stmtWithin, bind_of_eq_some hrecord, bind_of_eq_some hline, bind_of_eq_some hkind,
        bind_of_eq_some hvariant]
      simp only [hpartsRecord, hc, Expr.ofJson?_of_abridges hcondition, hb, hbody,
        Option.bind_eq_bind, Option.bind_some]
      rfl
  | .declare line prototype => by
      intro w bound h hbound
      rw [Stmt.toJson] at h
      obtain ⟨fields, kind, data, bound, rfl, hrecord, hline, hkind, hvariant, hdata, -⟩ :=
        exists_of_stmtRecord h (by simp [optionalFields]) hbound
      rw [stmtWithin, bind_of_eq_some hrecord, bind_of_eq_some hline, bind_of_eq_some hkind,
        bind_of_eq_some hvariant]
      simp only [Prototype.ofJson?_of_abridges hdata, Option.bind_eq_bind, Option.bind_some]
      rfl
  | .eval line value => by
      intro w bound h hbound
      rw [Stmt.toJson] at h
      obtain ⟨fields, kind, data, bound, rfl, hrecord, hline, hkind, hvariant, hdata, -⟩ :=
        exists_of_stmtRecord h (by simp [optionalFields]) hbound
      rw [stmtWithin, bind_of_eq_some hrecord, bind_of_eq_some hline, bind_of_eq_some hkind,
        bind_of_eq_some hvariant]
      simp only [Expr.ofJson?_of_abridges hdata, Option.bind_eq_bind, Option.bind_some]
      rfl

theorem stmts_recovered : (l : List Stmt) → ∀ s ∈ l, s.Recovered
  | [] => List.forall_mem_nil _
  | s :: rest => List.forall_mem_cons.2 ⟨s.recovered, stmts_recovered rest⟩

end

theorem Stmt.ofJson?_of_abridges {s : Stmt} {w : Json}
    (h : Abridges optionalFields s.toJson w) : ofJson? w = some s :=
  s.recovered w w.height h (Nat.le_refl _)

/-- Every program is found in every abridged form of its tree. -/
theorem Program.ofJson?_of_abridges {p : Program} {w : Json}
    (h : Abridges optionalFields p.toJson w) : ofJson? w = some p := by
  rw [toJson, stmtsToJson_eq_map] at h
  obtain ⟨fields, hfields⟩ := h.exists_record (by simp)
  obtain ⟨list, hlist, habridges, -⟩ := hfields.required "statements" rfl (by simp [optionalFields])
  obtain ⟨items, hitems, hstmts⟩ := habridges.exists_items fun s _ v hv _ =>
    Stmt.ofJson?_of_abridges hv
  have hrecord : w.record? ["statements"] = some fields := hfields.record?_eq
  simp only [ofJson?, hrecord, hlist, hitems, hstmts, Option.bind_eq_bind, Option.bind_some]
  rfl

end Source

end ThreeAddress
