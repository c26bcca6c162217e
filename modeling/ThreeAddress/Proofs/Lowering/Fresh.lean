import ThreeAddress.Graph.Draft
import ThreeAddress.Proofs.Source.Eval

set_option autoImplicit false

/-! # Temporaries and names of a program

Temporaries live in the same store as the variables and functions of a program. They are told apart
by their names, provided that the program uses none of these names itself. Two stores that agree
but for temporaries are then the same to the program. -/

namespace ThreeAddress

/-! ## Names of temporaries -/

theorem Temporaries.name_toList (type : ScalarType) (n : Nat) :
    (name type n).toList = "__".toList ++ type.name.toList ++ '_' :: Nat.toDigits 10 n := by
  simp [name, Nat.toString_eq_repr, Nat.toList_repr]

/-- A name tells the type and the number of its temporary. -/
theorem Temporaries.name_inj {type type' : ScalarType} {n n' : Nat} :
    name type n = name type' n' ↔ type = type' ∧ n = n' := by
  constructor
  · intro h
    have hlist := congrArg String.toList h
    rw [name_toList, name_toList] at hlist
    have htype : type = type' := by
      cases type <;> cases type' <;> simp [ScalarType.name] at hlist ⊢
    subst htype
    have hdigits : Nat.toDigits 10 n = Nat.toDigits 10 n' := by simpa using hlist
    have hvalue := congrArg (fun digits => Nat.ofDigitChars 10 digits 0) hdigits
    exact ⟨rfl, by simpa using hvalue⟩
  · rintro ⟨rfl, rfl⟩
    rfl

/-- The name is one of a temporary. -/
def IsTemporary (name : String) : Prop := ∃ type n, name = Temporaries.name type n

theorem not_isTemporary_of_head {name : String} (h : name.toList.head? ≠ some '_') :
    ¬ IsTemporary name := by
  rintro ⟨type, n, rfl⟩
  rw [Temporaries.name_toList] at h
  exact h rfl

namespace Temporaries

/-- The temporaries of `t` are among those of `t'`. -/
def Within (t t' : Temporaries) : Prop := ∀ type, t.count type ≤ t'.count type

theorem Within.refl (t : Temporaries) : t.Within t := fun _ => Nat.le_refl _

theorem Within.trans {t t' t'' : Temporaries} (h : t.Within t') (h' : t'.Within t'') :
    t.Within t'' := fun type => Nat.le_trans (h type) (h' type)

theorem within_bump (t : Temporaries) (type : ScalarType) : t.Within (t.bump type) := by
  intro other
  by_cases h : other = type
  · rw [h, count_bump_self]
    exact Nat.le_succ _
  · exact Nat.le_of_eq (count_bump_of_ne t h).symm

/-- A name of a temporary of `t'` that is not one of `t`. -/
def Between (t t' : Temporaries) (name : String) : Prop :=
  ∃ type n, name = Temporaries.name type n ∧ t.count type ≤ n ∧ n < t'.count type

section Between

variable {t t' t'' : Temporaries} {name : String}

theorem Between.isTemporary (h : t.Between t' name) : IsTemporary name := by
  obtain ⟨type, n, rfl, -⟩ := h
  exact ⟨type, n, rfl⟩

theorem Between.mono_left (h : t'.Between t'' name) (hwithin : t.Within t') :
    t.Between t'' name := by
  obtain ⟨type, n, hname, hle, hlt⟩ := h
  exact ⟨type, n, hname, Nat.le_trans (hwithin type) hle, hlt⟩

theorem Between.mono_right (h : t.Between t' name) (hwithin : t'.Within t'') :
    t.Between t'' name := by
  obtain ⟨type, n, hname, hle, hlt⟩ := h
  exact ⟨type, n, hname, hle, Nat.lt_of_lt_of_le hlt (hwithin type)⟩

end Between

end Temporaries

/-! ## Stores up to temporaries -/

/-- The stores differ at most in cells of temporaries. -/
structure Store.Agrees (s σ : Store) : Prop where
  get? : ∀ name, ¬ IsTemporary name → σ.get? name = s.get? name
  allocated : σ.allocated = s.allocated

/-- The temporaries of `t` are the same in both stores. -/
def Store.Keeps (t : Temporaries) (σ σ' : Store) : Prop :=
  ∀ type n, n < t.count type → σ'.get? (Temporaries.name type n) = σ.get? (Temporaries.name type n)

namespace Store

variable {s σ σ' σ'' : Store} {t t' : Temporaries} {name : String}

theorem Agrees.refl (s : Store) : s.Agrees s := ⟨fun _ _ => rfl, rfl⟩

theorem Agrees.isAllocated (h : s.Agrees σ) (name : String) :
    σ.isAllocated name = s.isAllocated name := by
  rw [Store.isAllocated, Store.isAllocated, h.allocated]

theorem Agrees.read (h : s.Agrees σ) (hname : ¬ IsTemporary name) :
    σ.read name = s.read name := by
  rw [Store.read, Store.read, h.get? name hname]

theorem Agrees.readTyped (h : s.Agrees σ) (hname : ¬ IsTemporary name) (type : ScalarType) :
    σ.readTyped name type = s.readTyped name type := by
  rw [Store.readTyped, Store.readTyped, h.read hname]

theorem Agrees.readFunction (h : s.Agrees σ) (hname : ¬ IsTemporary name) :
    readFunction σ name = readFunction s name := by
  rw [ThreeAddress.readFunction, ThreeAddress.readFunction, h.read hname]

theorem Agrees.set (h : s.Agrees σ) (name : String) (v : Value) :
    (s.set name v).Agrees (σ.set name v) where
  get? := by
    intro other hother
    rw [get?_set, get?_set, h.get? other hother]
  allocated := h.allocated

theorem Agrees.allocate (h : s.Agrees σ) (name : String) (type : ScalarType) :
    (s.allocate name type).Agrees (σ.allocate name type) where
  get? := by
    intro other hother
    rw [get?_allocate, get?_allocate, h.get? other hother]
  allocated := by rw [Store.allocate, Store.allocate, h.allocated]

/-- Writing a temporary changes nothing for the program. -/
theorem Agrees.set_temporary (h : s.Agrees σ) (type : ScalarType) (n : Nat) (v : Value) :
    s.Agrees (σ.set (Temporaries.name type n) v) where
  get? := by
    intro other hother
    have hne : Temporaries.name type n ≠ other := fun heq => hother ⟨type, n, heq.symm⟩
    rw [get?_set_of_ne σ v hne, h.get? other hother]
  allocated := h.allocated

theorem Keeps.refl (t : Temporaries) (σ : Store) : σ.Keeps t σ := fun _ _ _ => rfl

/-- The later step may take the temporaries of the former as given. -/
theorem Keeps.trans (h : σ.Keeps t σ') (h' : σ'.Keeps t' σ'') (hwithin : t.Within t') :
    σ.Keeps t σ'' := by
  intro type n hn
  rw [h' type n (Nat.lt_of_lt_of_le hn (hwithin type)), h type n hn]

/-- Writing a new temporary keeps the others. -/
theorem keeps_set (t : Temporaries) (σ : Store) (type : ScalarType) (v : Value) :
    σ.Keeps t (σ.set (Temporaries.name type (t.count type)) v) := by
  intro other n hn
  apply get?_set_of_ne
  rw [Ne, Temporaries.name_inj]
  rintro ⟨rfl, rfl⟩
  exact Nat.lt_irrefl _ hn

theorem Keeps.get?_eq (h : σ'.Keeps t' σ'') (hname : t.Between t' name) :
    σ''.get? name = σ'.get? name := by
  obtain ⟨type, n, rfl, -, hn⟩ := hname
  exact h type n hn

end Store

/-! ## The names that a program uses -/

namespace Source

mutual

/-- The variables and functions that an expression refers to. -/
def Expr.names : Expr → List String
  | .literal _ _ => []
  | .binary _ _ left right => left.names ++ right.names
  | .relational _ _ left right => left.names ++ right.names
  | .unary _ _ operand => operand.names
  | .load _ name => [name]
  | .group _ inner => inner.names
  | .call _ name args => name :: argNames args

/-- The variables and functions that arguments refer to. -/
def argNames : List Expr → List String
  | [] => []
  | e :: rest => e.names ++ argNames rest

end

mutual

/-- The variables and functions that a statement declares or refers to. -/
def Stmt.names : Stmt → List String
  | .constDecl _ name _ value => name :: value.names
  | .varDecl _ name _ none => [name]
  | .varDecl _ name _ (some value) => name :: value.names
  | .assign _ name value => name :: value.names
  | .print _ value => value.names
  | .cond _ condition thenBranch none => condition.names ++ namesAll thenBranch
  | .cond _ condition thenBranch (some elseBranch) =>
    condition.names ++ (namesAll thenBranch ++ namesAll elseBranch)
  | .loop _ condition body => condition.names ++ namesAll body
  | .declare _ prototype => [prototype.name]
  | .eval _ value => value.names

/-- The variables and functions that statements declare or refer to. -/
def namesAll : List Stmt → List String
  | [] => []
  | s :: rest => s.names ++ namesAll rest

end

/-- No name is that of a temporary. -/
def Proper (names : List String) : Prop := ∀ name ∈ names, ¬ IsTemporary name

@[simp] theorem proper_cons {name : String} {names : List String} :
    Proper (name :: names) ↔ ¬ IsTemporary name ∧ Proper names := List.forall_mem_cons

@[simp] theorem proper_append {names names' : List String} :
    Proper (names ++ names') ↔ Proper names ∧ Proper names' := List.forall_mem_append

theorem proper_of_head {names : List String}
    (h : ∀ name ∈ names, name.toList.head? ≠ some '_') : Proper names :=
  fun name hname => not_isTemporary_of_head (h name hname)

end Source

end ThreeAddress
