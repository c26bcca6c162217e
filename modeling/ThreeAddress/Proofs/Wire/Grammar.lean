import ThreeAddress.Wire
import ThreeAddress.Proofs.Sequencing

set_option autoImplicit false

/-! # What a tuple spells

`Spells op args i` says, one rule for each kind of instruction, which operands after an opcode stand
for which instruction. Reading a tuple succeeds exactly with the instruction that it spells; a tuple
with an opcode outside the instruction set spells itself. -/

namespace ThreeAddress

/-! ## Tables of names -/

/-- If each element is found under its own name, a name leads to the element that has it. -/
theorem find?_name_eq_some_iff {α : Type} {all : List α} {name : α → String}
    (hfind : ∀ a, all.find? (fun b => name b == name a) = some a) {s : String} {a : α} :
    all.find? (fun b => name b == s) = some a ↔ name a = s := by
  constructor
  · intro h
    simpa using List.find?_some h
  · rintro rfl
    exact hfind a

theorem ScalarType.ofName?_eq_some_iff {s : String} {t : ScalarType} :
    ofName? s = some t ↔ t.name = s :=
  find?_name_eq_some_iff (fun t => by cases t <;> decide)

theorem CompareOp.ofName?_eq_some_iff {s : String} {op : CompareOp} :
    ofName? s = some op ↔ op.name = s :=
  find?_name_eq_some_iff (fun op => by cases op <;> decide)

theorem Opcode.mem_all (op : Opcode) : op ∈ all := by
  cases op with
  | typed family t =>
      have hfamily : family ∈ Family.all := by
        rcases family with _ | _ | _ | _ | _ | _ | op | op
        case binary => cases op <;> decide
        case unary => cases op <;> decide
        all_goals decide
      have ht : t ∈ ScalarType.all := by cases t <;> decide
      exact List.mem_append_right _
        (List.mem_flatMap.2 ⟨family, hfamily, List.mem_map.2 ⟨t, ht, rfl⟩⟩)
  | _ => decide

theorem Opcode.ofName?_eq_some_iff {s : String} {op : Opcode} :
    ofName? s = some op ↔ op.name = s := by
  have hall : ∀ op ∈ all, all.find? (fun op' => op'.name == op.name) = some op := by decide +kernel
  exact find?_name_eq_some_iff fun op => hall op op.mem_all

theorem Opcode.ofName?_eq_none_iff {s : String} :
    ofName? s = none ↔ ∀ op : Opcode, op.name ≠ s := by
  rw [Option.eq_none_iff_forall_ne_some]
  exact forall_congr' fun op => not_congr ofName?_eq_some_iff

/-! ## Reading operands -/

namespace Operands

variable {o : Operands}

theorem get_eq_ok_iff {α : Type} {kind : OperandKind} {read? : Operand → Option α} {k : Nat}
    {x : α} : o.get kind read? k = .ok x ↔ ∃ a, o.args[k]? = some a ∧ read? a = some x := by
  rw [← Option.bind_eq_some_iff, get]
  cases o.args[k]?.bind read? <;> simp

theorem text?_eq_some_iff {a : Operand} {s : String} : text? a = some s ↔ a = .text s := by
  cases a <;> simp [text?]

theorem name_eq_ok_iff {k : Nat} {s : String} : o.name k = .ok s ↔ o.args[k]? = some (.text s) := by
  simp [name, get_eq_ok_iff, text?_eq_some_iff]

/-- An operand is a type if it is the name of the type. -/
theorem type?_eq_some_iff {a : Operand} {t : ScalarType} :
    (text? a).bind ScalarType.ofName? = some t ↔ a = .text t.name := by
  simp [Option.bind_eq_some_iff, text?_eq_some_iff, ScalarType.ofName?_eq_some_iff]

theorem type_eq_ok_iff {k : Nat} {t : ScalarType} :
    o.type k = .ok t ↔ o.args[k]? = some (.text t.name) := by
  simp only [type, get_eq_ok_iff, type?_eq_some_iff, exists_eq_right]

theorem comparison_eq_ok_iff {k : Nat} {op : CompareOp} :
    o.comparison k = .ok op ↔ o.args[k]? = some (.text op.name) := by
  rw [comparison, bind_eq_ok_iff]
  simp only [name_eq_ok_iff]
  constructor
  · rintro ⟨s, hs, h⟩
    cases hop : CompareOp.ofName? s with
    | none => simp [hop] at h
    | some op' =>
        rw [hop] at h
        cases h
        rw [hs, CompareOp.ofName?_eq_some_iff.1 hop]
  · intro h
    refine ⟨_, h, ?_⟩
    rw [CompareOp.ofName?_eq_some_iff.2 rfl]

theorem require_eq_ok_iff {arity : Arity} {u : Unit} :
    o.require arity = .ok u ↔ arity.admits o.args.length := by
  unfold require
  split <;> simp_all

/-- Reading a stretch of operands succeeds with `xs` exactly if they are written as `xs` is. -/
theorem mapM_positions_eq_ok_iff {α : Type} {kind : OperandKind} {read? : Operand → Option α}
    {write : α → Operand} (hread : ∀ a x, read? a = some x ↔ a = write x) (n : Nat) {first : Nat}
    (hn : first + n ≤ o.args.length) {xs : List α} :
    (positions first (first + n)).mapM (o.get kind read?) = .ok xs ↔
      (o.args.drop first).take n = xs.map write := by
  induction n generalizing first xs with
  | zero =>
      have hnil : positions first (first + 0) = [] := by simp [positions]
      rw [hnil, List.mapM_nil]
      cases xs <;> simp [pure, Except.pure]
  | succ n ih =>
      have hcons : positions first (first + (n + 1)) =
          first :: positions (first + 1) (first + 1 + n) := by
        simp only [positions, Nat.add_sub_cancel_left, List.range_succ_eq_map, List.map_cons,
          List.map_map, Nat.add_zero]
        congr 1
        refine List.map_congr_left fun k _ => ?_
        simp only [Function.comp_apply]
        omega
      have hfirst : first < o.args.length := by omega
      rw [hcons, List.mapM_cons, bind_eq_ok_iff, List.drop_eq_getElem_cons hfirst,
        List.take_succ_cons]
      simp only [bind_eq_ok_iff, get_eq_ok_iff, List.getElem?_eq_getElem hfirst, hread,
        @ih (first + 1) (by omega)]
      cases xs with
      | nil => simp [pure, Except.pure]
      | cons x xs =>
          simp only [pure, Except.pure, Except.ok.injEq, List.cons.injEq, List.map_cons]
          constructor
          · rintro ⟨y, ⟨a, ha, hy⟩, ys, hys, rfl, rfl⟩
            exact ⟨(Option.some.inj ha).trans hy, hys⟩
          · rintro ⟨ha, hys⟩
            exact ⟨x, ⟨_, rfl, ha⟩, xs, hys, rfl, rfl⟩

end Operands

/-! ## The grammar -/

/-- The operands `args` after the opcode `op` spell the instruction `i`. -/
inductive Spells : Opcode → List Operand → Instr → Prop
  | alloc (t : ScalarType) (name : String) :
      Spells (.typed .alloc t) [.text name] (.alloc t name)
  | literal {t : ScalarType} {a : Operand} {value : Constant} (target : String)
      (h : Operands.constant? t a = some value) :
      Spells (.typed .literal t) [a, .text target] (.literal t value target)
  | load (t : ScalarType) (name target : String) :
      Spells (.typed .load t) [.text name, .text target] (.load t name target)
  | store (t : ScalarType) (source name : String) :
      Spells (.typed .store t) [.text source, .text name] (.store t source name)
  | print (t : ScalarType) (source : String) :
      Spells (.typed .print t) [.text source] (.print t source)
  | compare (op : CompareOp) (t : ScalarType) (left right target : String) :
      Spells (.typed .compare t) [.text op.name, .text left, .text right, .text target]
        (.compare op t left right target)
  | binary (op : ArithOp) (t : ScalarType) (left right target : String) :
      Spells (.typed (.binary op) t) [.text left, .text right, .text target]
        (.binary op t left right target)
  | unary (op : UnaryOp) (t : ScalarType) (source target : String) :
      Spells (.typed (.unary op) t) [.text source, .text target] (.unary op t source target)
  | jump {a : Operand} {label : Label} (h : Label.ofOperand? a = some label) :
      Spells .jump [a] (.jump label)
  | branch (test : String) {a b : Operand} {ifTrue ifFalse : Label}
      (ha : Label.ofOperand? a = some ifTrue) (hb : Label.ofOperand? b = some ifFalse) :
      Spells .branch [.text test, a, b] (.branch test ifTrue ifFalse)
  | bind (name : String) (returnType : ScalarType) (paramTypes : List ScalarType) :
      Spells .bind (.text name :: .text returnType.name :: paramTypes.map (.text ·.name))
        (.bind name returnType paramTypes)
  | call (function : String) (args : List String) (target : String) :
      Spells .call (.text function :: (args.map .text ++ [.text target]))
        (.call function args target)

namespace Operands

theorem spells_of_typed {opcode : String} {args : List Operand} {t : ScalarType} {family : Family}
    {i : Instr} (h : typed ⟨opcode, args⟩ t family = .ok i) : Spells (.typed family t) args i := by
  cases family
  all_goals
    simp only [typed, bind_eq_ok_iff, require_eq_ok_iff, name_eq_ok_iff, constant, get_eq_ok_iff,
      comparison_eq_ok_iff, Arity.admits, beq_iff_eq] at h
  case alloc =>
    obtain ⟨-, hlength, name, hname, hi⟩ := h
    match args, hlength with
    | [a], _ =>
        cases hname
        cases hi
        exact .alloc t name
  case literal =>
    obtain ⟨-, hlength, value, ⟨a, ha, hvalue⟩, target, htarget, hi⟩ := h
    match args, hlength with
    | [_, _], _ =>
        cases ha; cases htarget; cases hi
        exact .literal target hvalue
  case load =>
    obtain ⟨-, hlength, name, hname, target, htarget, hi⟩ := h
    match args, hlength with
    | [_, _], _ =>
        cases hname; cases htarget; cases hi
        exact .load t name target
  case store =>
    obtain ⟨-, hlength, source, hsource, name, hname, hi⟩ := h
    match args, hlength with
    | [_, _], _ =>
        cases hsource; cases hname; cases hi
        exact .store t source name
  case print =>
    obtain ⟨-, hlength, source, hsource, hi⟩ := h
    match args, hlength with
    | [_], _ =>
        cases hsource; cases hi
        exact .print t source
  case compare =>
    obtain ⟨-, hlength, op, hop, left, hleft, right, hright, target, htarget, hi⟩ := h
    match args, hlength with
    | [_, _, _, _], _ =>
        cases hop; cases hleft; cases hright; cases htarget; cases hi
        exact .compare op t left right target
  case binary op =>
    obtain ⟨-, hlength, left, hleft, right, hright, target, htarget, hi⟩ := h
    match args, hlength with
    | [_, _, _], _ =>
        cases hleft; cases hright; cases htarget; cases hi
        exact .binary op t left right target
  case unary op =>
    obtain ⟨-, hlength, source, hsource, target, htarget, hi⟩ := h
    match args, hlength with
    | [_, _], _ =>
        cases hsource; cases htarget; cases hi
        exact .unary op t source target

theorem types_eq_ok_iff {opcode : String} {a b : Operand} {rest : List Operand}
    {types : List ScalarType} :
    (positions 2 (a :: b :: rest).length).mapM (type ⟨opcode, a :: b :: rest⟩) = .ok types ↔
      rest = types.map (.text ·.name) := by
  have hlength : (a :: b :: rest).length = 2 + rest.length := by
    simp only [List.length_cons]
    omega
  unfold type
  rw [hlength,
    mapM_positions_eq_ok_iff (fun _ _ => type?_eq_some_iff) _ (Nat.le_of_eq hlength.symm)]
  simp

theorem names_eq_ok_iff {opcode : String} {a b : Operand} {middle : List Operand}
    {names : List String} :
    (positions 1 ((a :: (middle ++ [b])).length - 1)).mapM (name ⟨opcode, a :: (middle ++ [b])⟩)
        = .ok names ↔ middle = names.map .text := by
  have hlength : (a :: (middle ++ [b])).length - 1 = 1 + middle.length := by
    simp [Nat.add_comm]
  have hle : 1 + middle.length ≤ (a :: (middle ++ [b])).length := by
    simp [Nat.add_comm]
  unfold name
  rw [hlength, mapM_positions_eq_ok_iff (fun _ _ => text?_eq_some_iff) _ hle]
  simp

theorem spells_of_decode {opcode : String} {args : List Operand} {op : Opcode} {i : Instr}
    (h : decode ⟨opcode, args⟩ op = .ok i) : Spells op args i := by
  cases op with
  | jump =>
    simp only [decode, bind_eq_ok_iff, require_eq_ok_iff, label, get_eq_ok_iff, Arity.admits,
      beq_iff_eq] at h
    obtain ⟨-, hlength, label, ⟨a, ha, hlabel⟩, hi⟩ := h
    match args, hlength with
    | [_], _ =>
        cases ha; cases hi
        exact .jump hlabel
  | branch =>
    simp only [decode, bind_eq_ok_iff, require_eq_ok_iff, name_eq_ok_iff, label, get_eq_ok_iff,
      Arity.admits, beq_iff_eq] at h
    obtain ⟨-, hlength, test, htest, ifTrue, ⟨a, ha, hTrue⟩, ifFalse, ⟨b, hb, hFalse⟩, hi⟩ := h
    match args, hlength with
    | [_, _, _], _ =>
        cases htest; cases ha; cases hb; cases hi
        exact .branch test hTrue hFalse
  | bind =>
    simp only [decode, bind_eq_ok_iff, require_eq_ok_iff, name_eq_ok_iff, type_eq_ok_iff,
      Arity.admits, decide_eq_true_eq] at h
    obtain ⟨-, hlength, paramTypes, hparams, name, hname, returnType, hreturn, hi⟩ := h
    match args, hlength with
    | _ :: _ :: rest, _ =>
        cases hname; cases hreturn; cases hi
        rw [types_eq_ok_iff.1 hparams]
        exact .bind name returnType paramTypes
  | call =>
    simp only [decode, bind_eq_ok_iff, require_eq_ok_iff, name_eq_ok_iff, Arity.admits,
      decide_eq_true_eq] at h
    obtain ⟨-, hlength, names, hnames, function, hfunction, target, htarget, hi⟩ := h
    match args, hlength with
    | _ :: second :: rest, _ =>
        obtain ⟨middle, last, hsplit⟩ : ∃ middle last, second :: rest = middle ++ [last] :=
          ⟨_, _, (List.dropLast_concat_getLast (List.cons_ne_nil second rest)).symm⟩
        rw [hsplit] at hfunction hnames htarget ⊢
        have hlast : last = .text target := by simpa using htarget
        cases hfunction; cases hi
        rw [names_eq_ok_iff.1 hnames, hlast]
        exact .call function names target
  | typed family t => exact spells_of_typed h

theorem decode_of_spells {opcode : String} {args : List Operand} {op : Opcode} {i : Instr}
    (h : Spells op args i) : decode ⟨opcode, args⟩ op = .ok i := by
  cases h with
  | literal target h =>
      simp only [decode, typed, bind_eq_ok_iff, constant, get_eq_ok_iff]
      exact ⟨(), rfl, _, ⟨_, rfl, h⟩, target, rfl, rfl⟩
  | compare op t left right target =>
      simp only [decode, typed, bind_eq_ok_iff, comparison_eq_ok_iff]
      exact ⟨(), rfl, op, rfl, left, rfl, right, rfl, target, rfl, rfl⟩
  | jump h =>
      simp only [decode, bind_eq_ok_iff, label, get_eq_ok_iff]
      exact ⟨(), rfl, _, ⟨_, rfl, h⟩, rfl⟩
  | branch test ha hb =>
      simp only [decode, bind_eq_ok_iff, label, get_eq_ok_iff]
      exact ⟨(), rfl, test, rfl, _, ⟨_, rfl, ha⟩, _, ⟨_, rfl, hb⟩, rfl⟩
  | bind name returnType paramTypes =>
      simp only [decode, bind_eq_ok_iff, require_eq_ok_iff, type_eq_ok_iff]
      exact ⟨(), by simp [Arity.admits], paramTypes, types_eq_ok_iff.2 rfl, name, rfl, returnType,
        rfl, rfl⟩
  | call function args target =>
      simp only [decode, bind_eq_ok_iff, require_eq_ok_iff, name_eq_ok_iff]
      exact ⟨(), by simp [Arity.admits], args, names_eq_ok_iff.2 rfl, function, rfl, target,
        by simp, rfl⟩
  | _ => rfl

end Operands

/-- Reading a tuple succeeds exactly with what it spells, or with the tuple itself if its opcode is
    not one of the instruction set. -/
theorem Instr.ofTuple_eq_ok_iff {tuple : List Operand} {i : Instr} :
    ofTuple tuple = .ok i ↔
      (∃ op args, tuple = .text (Opcode.name op) :: args ∧ Spells op args i) ∨
        ∃ opcode args, tuple = .text opcode :: args ∧ (∀ op : Opcode, op.name ≠ opcode) ∧
          i = .unknown opcode args := by
  constructor
  · intro h
    unfold ofTuple at h
    split at h
    · cases h
    · next opcode args =>
        split at h
        · next op hop =>
            rw [← Opcode.ofName?_eq_some_iff.1 hop] at h ⊢
            exact .inl ⟨op, args, rfl, Operands.spells_of_decode h⟩
        · next hop =>
            cases h
            exact .inr ⟨opcode, args, rfl, Opcode.ofName?_eq_none_iff.1 hop, rfl⟩
    · cases h
  · rintro (⟨op, args, rfl, h⟩ | ⟨opcode, args, rfl, hopcode, rfl⟩)
    · rw [ofTuple, Opcode.ofName?_eq_some_iff.2 rfl]
      exact Operands.decode_of_spells h
    · rw [ofTuple, Opcode.ofName?_eq_none_iff.2 hopcode]

end ThreeAddress
