import ThreeAddress.Proofs.Lowering.Emission
import ThreeAddress.Proofs.Lowering.Fresh

set_option autoImplicit false

/-! # Straight-line code computes what the tree means

The code of an expression, performed instruction by instruction, leaves the value of the expression
in its temporary, or stops with the fault that evaluation stops with. Older temporaries are kept, so
that an operand is still there when its instruction comes; variables and the output are not
touched. -/

namespace ThreeAddress.Source

/-! ## Performing code -/

/-- Carry out an effect on a world. -/
def World.commit (w : World) : Effect → World
  | .write name value => w.set name value
  | .allocate name type => w.declare name type
  | .output line => w.print line
  | .skip | .goto _ => w

/-- Perform instructions one after another. -/
def perform (capabilities : List Capability) : List Instr → World → Outcome Fault
  | [], w => .done w
  | i :: rest, w =>
    match i.effect capabilities .fatal 0 w.store with
    | .ok effect => perform capabilities rest (w.commit effect)
    | .error fault => .stopped w fault

variable {capabilities : List Capability}

theorem perform_append_of_done {code code' : List Instr} {w w' : World}
    (h : perform capabilities code w = .done w') :
    perform capabilities (code ++ code') w = perform capabilities code' w' := by
  induction code generalizing w with
  | nil =>
      cases h
      rfl
  | cons i rest ih =>
      simp only [perform, List.cons_append] at h ⊢
      split at h
      · exact ih h
      · cases h

theorem perform_append_of_stopped {code code' : List Instr} {w w' : World} {fault : Fault}
    (h : perform capabilities code w = .stopped w' fault) :
    perform capabilities (code ++ code') w = .stopped w' fault := by
  induction code generalizing w with
  | nil => cases h
  | cons i rest ih =>
      simp only [perform, List.cons_append] at h ⊢
      split at h
      · exact ih h
      · exact h

/-! ## Faults that correspond -/

/-- How the machine reports that evaluation has stopped: an operand of the wrong type is one in a
    temporary. -/
def Stop.Shows : Stop → Fault → Prop
  | .fault reason, reported => reported = reason
  | .operand expected found, reported =>
    ∃ name, IsTemporary name ∧ reported = .typeMismatch name expected (.scalar found)
  | .untyped, _ => False

/-- A step of the machine has the result of a step of evaluation, or the fault that shows it. -/
def Refines {α : Type} : Except Stop α → Except Fault α → Prop
  | .ok a, .ok b => b = a
  | .error why, .error fault => why.Shows fault
  | _, _ => False

theorem Refines.cases {α : Type} {x : Except Stop α} {y : Except Fault α} (h : Refines x y) :
    (∃ a, x = .ok a ∧ y = .ok a) ∨
      ∃ why fault, x = .error why ∧ y = .error fault ∧ why.Shows fault := by
  cases x with
  | ok a =>
      cases y with
      | ok b =>
          cases h
          exact .inl ⟨a, rfl, rfl⟩
      | error fault => cases h
  | error why =>
      cases y with
      | ok b => cases h
      | error fault => exact .inr ⟨why, fault, rfl, rfl, h⟩

theorem Refines.bind {α β : Type} {x : Except Stop α} {y : Except Fault α}
    {f : α → Except Stop β} {g : α → Except Fault β} (hx : Refines x y)
    (hf : ∀ a, x = .ok a → Refines (f a) (g a)) : Refines (x >>= f) (y >>= g) := by
  obtain ⟨a, rfl, rfl⟩ | ⟨why, fault, rfl, rfl, hshows⟩ := hx.cases
  · exact hf a rfl
  · exact hshows

theorem refines_orFault {α : Type} (y : Except Fault α) : Refines (orFault y) y := by
  cases y with
  | ok a => rfl
  | error reason => exact rfl

section Operands

variable {σ : Store} {name : String} {c : Constant}

theorem read_of_get? {v : Value} (hget : σ.get? name = some v) : σ.read name = .ok v := by
  rw [Store.read, hget]

/-- Reading the temporary of an operand. -/
theorem refines_readTyped (hname : IsTemporary name) (hget : σ.get? name = some (.scalar c))
    (type : ScalarType) : Refines (expect type c) (σ.readTyped name type) := by
  rw [Store.readTyped, read_of_get? hget, ok_bind, expect]
  dsimp only
  split
  · rfl
  · exact ⟨name, hname, rfl⟩

theorem refines_coerce (hname : IsTemporary name) (type : ScalarType) :
    Refines (convert type c) (coerce name (.scalar c) type) := by
  unfold convert coerce
  dsimp only
  cases c.convert? type with
  | some c' => rfl
  | none => exact ⟨name, hname, rfl⟩

end Operands

/-- Reading the temporaries of arguments. -/
theorem refines_readArgs {σ : Store} {names : List String} {values : List Constant}
    (hnames : ∀ name ∈ names, IsTemporary name)
    (hget : names.map σ.get? = values.map (fun c => some (.scalar c))) (types : List ScalarType) :
    Refines (convertArgs (values.zip types)) (readArgs σ (names.zip types)) := by
  induction names generalizing values types with
  | nil =>
      cases values with
      | nil => rfl
      | cons c values => simp at hget
  | cons name names ih =>
      cases values with
      | nil => simp at hget
      | cons c values =>
          cases types with
          | nil => rfl
          | cons type types =>
              simp only [List.map_cons, List.cons.injEq] at hget
              obtain ⟨hname, hnames⟩ := List.forall_mem_cons.1 hnames
              have hrest := ih hnames hget.2 types
              simp only [List.zip_cons_cons, convertArgs, readArgs]
              rw [read_of_get? hget.1, ok_bind]
              refine (refines_coerce hname type).bind fun a _ => ?_
              exact hrest.bind fun b _ => rfl

/-- Calling a function on temporaries. -/
theorem refines_invoke {s σ : Store} (hagrees : s.Agrees σ) {function : String}
    (hfunction : ¬ IsTemporary function) {names : List String} {values : List Constant}
    (hnames : ∀ name ∈ names, IsTemporary name)
    (hget : names.map σ.get? = values.map (fun c => some (.scalar c))) :
    Refines (invoke s function values) (callFunction σ function names) := by
  have hlength : names.length = values.length := by
    rw [← List.length_map σ.get?, hget, List.length_map]
  unfold invoke callFunction
  rw [hagrees.readFunction hfunction, hlength]
  refine (refines_orFault _).bind fun f _ => ?_
  split
  · refine (refines_readArgs hnames hget _).bind fun args _ => ?_
    cases f.native.invoke (args.map .scalar) with
    | ok result => exact refines_orFault _
    | error reason => exact rfl
  · exact rfl

/-! ## Code that computes -/

/-- The worlds differ at most in temporaries. -/
structure World.Agrees (w v : World) : Prop where
  store : w.store.Agrees v.store
  output : v.output = w.output

theorem World.Agrees.refl (w : World) : w.Agrees w := ⟨.refl _, rfl⟩

/-- What the code does in the world `v`, where evaluation in the world `w` yields `x`: it keeps the
    temporaries of `t` and makes the result hold in the store, or it stops with the fault that shows
    why evaluation has stopped. -/
def Computes {α : Type} (capabilities : List Capability) (code : List Instr) (t : Temporaries)
    (w v : World) (x : Except Stop α) (post : α → Store → Prop) : Prop :=
  match x with
  | .ok a => ∃ v', perform capabilities code v = .done v' ∧ w.Agrees v' ∧
      v.store.Keeps t v'.store ∧ post a v'.store
  | .error why => ∃ v' fault, perform capabilities code v = .stopped v' fault ∧ w.Agrees v' ∧
      why.Shows fault

namespace Computes

variable {α β : Type} {code code' : List Instr} {t t' : Temporaries} {w v : World}
  {x : Except Stop α} {mid post : α → Store → Prop}

/-- Code of one step behind that of another. -/
theorem bind {f : α → Except Stop β} {post : β → Store → Prop} (hwithin : t.Within t')
    (hx : Computes capabilities code t w v x mid)
    (hf : ∀ a v', w.Agrees v' → mid a v'.store → Computes capabilities code' t' w v' (f a) post) :
    Computes capabilities (code ++ code') t w v (x >>= f) post := by
  cases x with
  | error why =>
      obtain ⟨v', fault, hcode, hagrees, hshows⟩ := hx
      exact ⟨v', fault, perform_append_of_stopped hcode, hagrees, hshows⟩
  | ok a =>
      obtain ⟨v', hcode, hagrees, hkeeps, hmid⟩ := hx
      have hrest := hf a v' hagrees hmid
      rw [ok_bind]
      unfold Computes at hrest ⊢
      rw [perform_append_of_done hcode]
      cases hfa : f a with
      | error why =>
          rw [hfa] at hrest
          exact hrest
      | ok b =>
          rw [hfa] at hrest
          obtain ⟨v'', hcode', hagrees', hkeeps', hpost⟩ := hrest
          exact ⟨v'', hcode', hagrees', hkeeps.trans hkeeps' hwithin, hpost⟩

theorem mono (hx : Computes capabilities code t w v x mid)
    (h : ∀ a σ, v.store.Keeps t σ → mid a σ → post a σ) :
    Computes capabilities code t w v x post := by
  cases x with
  | error why => exact hx
  | ok a =>
      obtain ⟨v', hcode, hagrees, hkeeps, hmid⟩ := hx
      exact ⟨v', hcode, hagrees, hkeeps, h a v'.store hkeeps hmid⟩

theorem map {f : α → β} {post : β → Store → Prop} (hx : Computes capabilities code t w v x mid)
    (h : ∀ a σ, v.store.Keeps t σ → mid a σ → post (f a) σ) :
    Computes capabilities code t w v (x >>= fun a => pure (f a)) post := by
  cases x with
  | error why => exact hx
  | ok a =>
      obtain ⟨v', hcode, hagrees, hkeeps, hmid⟩ := hx
      exact ⟨v', hcode, hagrees, hkeeps, h a v'.store hkeeps hmid⟩

end Computes

/-- An instruction that puts a result into a new temporary. -/
theorem computes_write {t : Temporaries} {w v : World} {type : ScalarType} {i : Instr}
    {x : Except Stop Constant} {y : Except Fault Constant} (hagrees : w.Agrees v)
    (hrefines : Refines x y)
    (heffect : i.effect capabilities .fatal 0 v.store =
      y >>= fun c => .ok (.write (Temporaries.name type (t.count type)) (.scalar c))) :
    Computes capabilities [i] t w v x
      (fun c σ => σ.get? (Temporaries.name type (t.count type)) = some (.scalar c)) := by
  unfold Computes perform
  rw [heffect]
  obtain ⟨c, rfl, rfl⟩ | ⟨why, fault, rfl, rfl, hshows⟩ := hrefines.cases
  · exact ⟨_, rfl, ⟨hagrees.store.set_temporary type _ _, hagrees.output⟩,
      Store.keeps_set t v.store type _, Store.get?_set_self ..⟩
  · exact ⟨v, fault, rfl, hagrees, hshows⟩

/-! ## Expressions -/

theorem Emission.compute_temporaries (code : List Instr) (t t' : Temporaries) (type : ScalarType)
    (instr : String → Instr) (h : t.Within t') :
    t.Within (Emission.compute code t' type instr).temporaries ∧
      t.Between (Emission.compute code t' type instr).temporaries
        (Emission.compute code t' type instr).value := by
  refine ⟨h.trans (t'.within_bump type), type, _, rfl, h type, ?_⟩
  simp [Emission.compute]

mutual

/-- An expression takes new temporaries, and its value is in one of them. -/
theorem Expr.emit_temporaries (t : Temporaries) : (e : Expr) →
    t.Within (e.emit t).temporaries ∧ t.Between (e.emit t).temporaries (e.emit t).value
  | .literal _ value => by
      unfold Expr.emit
      exact Emission.compute_temporaries _ t t _ _ (.refl t)
  | .binary _ op left right => by
      unfold Expr.emit
      have hleft := (left.emit_temporaries t).1
      have hright := (right.emit_temporaries (left.emit t).temporaries).1
      exact Emission.compute_temporaries _ t _ _ _ (hleft.trans hright)
  | .relational _ op left right => by
      unfold Expr.emit
      have hleft := (left.emit_temporaries t).1
      have hright := (right.emit_temporaries (left.emit t).temporaries).1
      exact Emission.compute_temporaries _ t _ _ _ (hleft.trans hright)
  | .unary _ op operand => by
      unfold Expr.emit
      exact Emission.compute_temporaries _ t _ _ _ (operand.emit_temporaries t).1
  | .load type name => by
      unfold Expr.emit
      exact Emission.compute_temporaries _ t t _ _ (.refl t)
  | .group _ inner => by
      unfold Expr.emit
      exact inner.emit_temporaries t
  | .call type name args => by
      unfold Expr.emit
      exact Emission.compute_temporaries _ t _ _ _ (emitArgs_temporaries t args).1

theorem emitArgs_temporaries (t : Temporaries) : (args : List Expr) →
    t.Within (emitArgs t args).temporaries ∧
      ∀ name ∈ (emitArgs t args).value, t.Between (emitArgs t args).temporaries name
  | [] => by
      unfold emitArgs
      exact ⟨.refl t, List.forall_mem_nil _⟩
  | e :: rest => by
      unfold emitArgs
      obtain ⟨hwithin, hbetween⟩ := e.emit_temporaries t
      obtain ⟨hwithin', hbetween'⟩ := emitArgs_temporaries (e.emit t).temporaries rest
      refine ⟨hwithin.trans hwithin', List.forall_mem_cons.2 ⟨?_, fun name hname => ?_⟩⟩
      · exact hbetween.mono_right hwithin'
      · exact (hbetween' name hname).mono_left hwithin

end

/-- The code of an expression computes its value into its temporary. -/
def Expr.Sound (capabilities : List Capability) (w : World) (e : Expr) : Prop :=
  ∀ (t : Temporaries) (v : World), w.Agrees v →
    Computes capabilities (e.emit t).code t w v (e.eval w.store)
      (fun c σ => σ.get? (e.emit t).value = some (.scalar c))

/-- What arithmetic and comparisons have in common: both operands are there when the instruction
    `i` reads them. -/
theorem computes_operands {w v : World} {left right : Expr} (hleft : left.Sound capabilities w)
    (hright : right.Sound capabilities w) (hagrees : w.Agrees v) (t : Temporaries)
    {type result : ScalarType} {op : Constant → Constant → Except Fault Constant} {i : Instr}
    (hi : ∀ σ, i.effect capabilities .fatal 0 σ = (do
        let l ← σ.readTyped (left.emit t).value type
        let r ← σ.readTyped (right.emit (left.emit t).temporaries).value type
        op l r) >>= fun c => .ok (.write (Temporaries.name result
          ((right.emit (left.emit t).temporaries).temporaries.count result)) (.scalar c))) :
    Computes capabilities
      ((left.emit t).code ++ (right.emit (left.emit t).temporaries).code ++ [i]) t w v
      (do
        let l ← left.eval w.store
        let r ← right.eval w.store
        let l ← expect type l
        let r ← expect type r
        orFault (op l r))
      (fun c σ => σ.get? (Temporaries.name result
        ((right.emit (left.emit t).temporaries).temporaries.count result)) = some (.scalar c)) := by
  obtain ⟨hwithin, hbetween⟩ := left.emit_temporaries t
  obtain ⟨hwithin', hbetween'⟩ := right.emit_temporaries (left.emit t).temporaries
  rw [List.append_assoc]
  refine (hleft t v hagrees).bind hwithin fun l v₁ hagrees₁ hl => ?_
  -- the code of the right operand keeps the temporary of the left one
  have hboth : Computes capabilities (right.emit (left.emit t).temporaries).code
      (left.emit t).temporaries w v₁ (right.eval w.store)
      (fun r σ => σ.get? (left.emit t).value = some (.scalar l) ∧
        σ.get? (right.emit (left.emit t).temporaries).value = some (.scalar r)) :=
    (hright _ v₁ hagrees₁).mono fun r σ hkeeps hr => ⟨(hkeeps.get?_eq hbetween).trans hl, hr⟩
  refine hboth.bind hwithin' fun r v₂ hagrees₂ ⟨hl₂, hr₂⟩ => ?_
  refine computes_write hagrees₂ ?_ (hi v₂.store)
  refine (refines_readTyped hbetween.isTemporary hl₂ type).bind fun _ _ => ?_
  refine (refines_readTyped hbetween'.isTemporary hr₂ type).bind fun _ _ => ?_
  exact refines_orFault _

theorem Constant.convert?_type (c : Constant) : c.convert? c.type = some c := by
  cases c <;> rfl

/-- The type that lowering takes from a decorated expression is the one that evaluation takes. -/
theorem Expr.resolve_of_decorated {e : Expr} (h : e.decorated = true) :
    resolve e.type? = .ok (e.type?.getD .int) := by
  obtain ⟨type, htype⟩ := Option.isSome_iff_exists.1 (isSome_type?_of_decorated h)
  rw [htype]
  rfl

theorem orFault_bool (y : Except Fault Bool) :
    (orFault y >>= fun b => pure (Constant.bool b)) =
      orFault (y >>= fun b => pure (Constant.bool b)) := by
  cases y <;> rfl

mutual

/-- The code of a decorated expression computes its value. -/
theorem Expr.sound (w : World) : (e : Expr) → e.decorated = true → Proper e.names →
    e.Sound capabilities w
  | .literal type value, _, _ => by
      intro t v hagrees
      unfold Expr.emit Expr.eval
      refine computes_write hagrees ?_ rfl
      rw [coerce, Constant.convert?_type]
      rfl
  | .binary type op left right, hdecorated, hproper => by
      intro t v hagrees
      simp only [Expr.decorated, Bool.and_eq_true] at hdecorated
      simp only [Expr.names, proper_append] at hproper
      unfold Expr.emit Expr.eval
      rw [Expr.resolve_of_decorated hdecorated.1.2, ok_bind]
      exact computes_operands (left.sound w hdecorated.1.2 hproper.1)
        (right.sound w hdecorated.2 hproper.2) hagrees t fun σ => by
          simp only [Instr.effect, bind_assoc]
          rfl
  | .relational type op left right, hdecorated, hproper => by
      intro t v hagrees
      simp only [Expr.decorated, Bool.and_eq_true] at hdecorated
      simp only [Expr.names, proper_append] at hproper
      unfold Expr.emit Expr.eval
      rw [Expr.resolve_of_decorated hdecorated.1.2, ok_bind]
      simp only [orFault_bool]
      exact computes_operands (left.sound w hdecorated.1.2 hproper.1)
        (right.sound w hdecorated.2 hproper.2) hagrees t fun σ => by
          simp only [Instr.effect, bind_assoc]
          rfl
  | .unary type op operand, hdecorated, hproper => by
      intro t v hagrees
      simp only [Expr.decorated, Bool.and_eq_true] at hdecorated
      simp only [Expr.names] at hproper
      unfold Expr.emit Expr.eval
      rw [Expr.resolve_of_decorated hdecorated.2, ok_bind]
      obtain ⟨hwithin, hbetween⟩ := operand.emit_temporaries t
      refine (operand.sound w hdecorated.2 hproper t v hagrees).bind hwithin
        fun c v₁ hagrees₁ hc => ?_
      refine computes_write hagrees₁ ((refines_readTyped hbetween.isTemporary hc _).bind
        fun a _ => refines_orFault _) ?_
      simp only [Instr.effect, bind_assoc]
      rfl
  | .load type name, hdecorated, hproper => by
      intro t v hagrees
      simp only [Expr.names, proper_cons] at hproper
      obtain ⟨type, rfl⟩ := Option.isSome_iff_exists.1 hdecorated
      unfold Expr.emit Expr.eval
      refine computes_write hagrees (refines_orFault _) ?_
      rw [← hagrees.store.readTyped hproper.1]
      rfl
  | .group type inner, hdecorated, hproper => by
      intro t v hagrees
      simp only [Expr.decorated, Bool.and_eq_true] at hdecorated
      unfold Expr.emit Expr.eval
      exact inner.sound w hdecorated.2 hproper t v hagrees
  | .call type name args, hdecorated, hproper => by
      intro t v hagrees
      simp only [Expr.decorated, Bool.and_eq_true] at hdecorated
      simp only [Expr.names, proper_cons] at hproper
      unfold Expr.emit Expr.eval
      obtain ⟨hwithin, hbetween⟩ := emitArgs_temporaries t args
      refine (evalArgs_sound w args hdecorated.2 hproper.2 t v hagrees).bind hwithin
        fun cs v₁ hagrees₁ hcs => ?_
      exact computes_write hagrees₁ (refines_invoke hagrees₁.store hproper.1
        (fun name hname => (hbetween name hname).isTemporary) hcs) rfl

theorem evalArgs_sound (w : World) : (args : List Expr) → decoratedArgs args = true →
    Proper (argNames args) → ∀ (t : Temporaries) (v : World), w.Agrees v →
    Computes capabilities (emitArgs t args).code t w v (evalArgs w.store args)
      (fun cs σ => (emitArgs t args).value.map σ.get? = cs.map (fun c => some (.scalar c)))
  | [], _, _ => by
      intro t v hagrees
      unfold emitArgs evalArgs
      exact ⟨v, rfl, hagrees, .refl t _, rfl⟩
  | e :: rest, hdecorated, hproper => by
      intro t v hagrees
      simp only [decoratedArgs, Bool.and_eq_true] at hdecorated
      simp only [argNames, proper_append] at hproper
      unfold emitArgs evalArgs
      obtain ⟨hwithin, hbetween⟩ := e.emit_temporaries t
      refine (e.sound w hdecorated.1 hproper.1 t v hagrees).bind hwithin
        fun c v₁ hagrees₁ hc => ?_
      refine (evalArgs_sound w rest hdecorated.2 hproper.2 _ v₁ hagrees₁).map
        fun cs σ hkeeps hcs => ?_
      rw [List.map_cons, List.map_cons, hcs, hkeeps.get?_eq hbetween, hc]

end

/-! ## Statements that stay in one block -/

/-- Evaluation and the machine end in the same way, in worlds that agree. -/
def Outcome.Matches : Outcome Stop → Outcome Fault → Prop
  | .done w, .done v => w.Agrees v
  | .stopped w why, .stopped v fault => w.Agrees v ∧ why.Shows fault
  | _, _ => False

section Matches

variable {α : Type} {w v : World}

theorem World.Agrees.set (h : w.Agrees v) (name : String) (value : Value) :
    (w.set name value).Agrees (v.set name value) := ⟨h.store.set name value, h.output⟩

theorem World.Agrees.declare (h : w.Agrees v) (name : String) (type : ScalarType) :
    (w.declare name type).Agrees (v.declare name type) := ⟨h.store.allocate name type, h.output⟩

theorem World.Agrees.print (h : w.Agrees v) (line : String) :
    (w.print line).Agrees (v.print line) where
  store := h.store
  output := by rw [World.print, World.print, h.output]

/-- The code of an expression and the code that uses its value. -/
theorem Computes.proceed {code code' : List Instr} {t : Temporaries} {x : Except Stop α}
    {mid : α → Store → Prop} {next : α → Outcome Stop} (hx : Computes capabilities code t w v x mid)
    (hnext : ∀ a v', w.Agrees v' → mid a v'.store →
      (next a).Matches (perform capabilities code' v')) :
    (w.proceed x next).Matches (perform capabilities (code ++ code') v) := by
  cases x with
  | ok a =>
      obtain ⟨v', hcode, hagrees, -, hmid⟩ := hx
      rw [perform_append_of_done hcode]
      exact hnext a v' hagrees hmid
  | error why =>
      obtain ⟨v', fault, hcode, hagrees, hshows⟩ := hx
      rw [perform_append_of_stopped hcode]
      exact ⟨hagrees, hshows⟩

/-- A last instruction, which has one effect. -/
theorem Refines.proceed {x : Except Stop α} {y : Except Fault α} {i : Instr}
    {next : α → World} (hrefines : Refines x y) (hagrees : w.Agrees v) (effect : α → Effect)
    (heffect : i.effect capabilities .fatal 0 v.store = y >>= fun a => .ok (effect a))
    (hnext : ∀ a, (next a).Agrees (v.commit (effect a))) :
    (w.proceed x fun a => .done (next a)).Matches (perform capabilities [i] v) := by
  unfold perform
  rw [heffect]
  obtain ⟨a, rfl, rfl⟩ | ⟨why, fault, rfl, rfl, hshows⟩ := hrefines.cases
  · exact hnext a
  · exact ⟨hagrees, hshows⟩

theorem execStore_matches {value : Expr} (hvalue : value.Sound capabilities w)
    (hagrees : w.Agrees v) (t : Temporaries) (type : ScalarType) {name : String}
    (hname : ¬ IsTemporary name) :
    (execStore w type name value).Matches (perform capabilities
      ((value.emit t).code ++ [.store type (value.emit t).value name]) v) := by
  have htemporary := (value.emit_temporaries t).2.isTemporary
  refine (hvalue t v hagrees).proceed fun c v' hagrees' hc => ?_
  have hassigned : Refines (assigned w.store type name c) (do
      let c ← v'.store.readTyped (value.emit t).value type
      if v'.store.isAllocated name then
        let _ ← v'.store.readTyped name type
        return c
      else .error (.unallocatedVariable name)) := by
    refine (refines_readTyped htemporary hc type).bind fun c _ => ?_
    rw [hagrees'.store.isAllocated]
    split
    · rw [hagrees'.store.readTyped hname]
      exact (refines_orFault _).bind fun _ _ => rfl
    · exact rfl
  refine hassigned.proceed hagrees' (fun c => .write name (.scalar c)) ?_
    fun a => hagrees'.set name (.scalar a)
  -- both sides differ only in where the effect is made of the constant
  simp only [Instr.effect, bind_assoc]
  congr 1
  funext c
  split
  · simp only [bind_assoc]
    rfl
  · rfl

theorem execDecl_matches {value : Expr} (hdecorated : value.decorated = true)
    (hproper : Proper value.names) {name : String} (hname : ¬ IsTemporary name)
    (hagrees : w.Agrees v) (t : Temporaries) (type : Option ScalarType) :
    (execDecl w name type (some value)).Matches
      (perform capabilities (emitDeclaration t (declaredType type value) name value).code v) := by
  have htype : variableType type (some value) = .ok (declaredType type value) := by
    cases type with
    | none => exact Expr.resolve_of_decorated hdecorated
    | some type => rfl
  rw [execDecl, htype]
  exact execStore_matches (value.sound _ hdecorated hproper) (hagrees.declare name _) t _ hname

/-- The code of a statement that stays in one block does what the statement does. -/
theorem Stmt.exec_matches {s : Stmt} (hs : s.isFlat = true) (hdecorated : s.decorated = true)
    (hproper : Proper s.names) (hagrees : w.Agrees v) (t : Temporaries) (fuel : Nat) :
    ∃ o, s.exec capabilities fuel w = some o ∧
      o.Matches (perform capabilities (s.emit t).code v) := by
  cases s with
  | cond line condition thenBranch elseBranch => cases hs
  | loop line condition body => cases hs
  | constDecl line name type value =>
      simp only [Stmt.decorated] at hdecorated
      simp only [Stmt.names, proper_cons] at hproper
      refine ⟨_, by rw [Stmt.exec], ?_⟩
      rw [Stmt.emit]
      exact execDecl_matches hdecorated hproper.2 hproper.1 hagrees t type
  | varDecl line name type value =>
      refine ⟨_, by rw [Stmt.exec], ?_⟩
      cases value with
      | none =>
          obtain ⟨type, rfl⟩ := Option.isSome_iff_exists.1 hdecorated
          exact hagrees.declare name type
      | some value =>
          simp only [Stmt.decorated] at hdecorated
          simp only [Stmt.names, proper_cons] at hproper
          rw [Stmt.emit]
          exact execDecl_matches hdecorated hproper.2 hproper.1 hagrees t type
  | assign line name value =>
      simp only [Stmt.decorated] at hdecorated
      simp only [Stmt.names, proper_cons] at hproper
      refine ⟨_, by rw [Stmt.exec], ?_⟩
      rw [Expr.resolve_of_decorated hdecorated, Stmt.emit]
      exact execStore_matches (value.sound w hdecorated hproper.2) hagrees t _ hproper.1
  | print line value =>
      simp only [Stmt.decorated] at hdecorated
      simp only [Stmt.names] at hproper
      refine ⟨_, by rw [Stmt.exec], ?_⟩
      rw [execPrint, Expr.resolve_of_decorated hdecorated, Stmt.emit]
      refine (value.sound w hdecorated hproper t v hagrees).proceed fun c v' hagrees' hc => ?_
      exact (refines_readTyped (value.emit_temporaries t).2.isTemporary hc _).proceed hagrees'
        (fun c => .output c.print) rfl fun c => hagrees'.print c.print
  | declare line prototype =>
      refine ⟨_, by rw [Stmt.exec], ?_⟩
      exact (refines_orFault _).proceed hagrees (fun f => .write prototype.name (.function f)) rfl
        fun f => hagrees.set prototype.name (.function f)
  | eval line value =>
      simp only [Stmt.decorated] at hdecorated
      simp only [Stmt.names] at hproper
      refine ⟨_, by rw [Stmt.exec], ?_⟩
      rw [Stmt.emit, ← List.append_nil (value.emit t).code]
      exact (value.sound w hdecorated hproper t v hagrees).proceed fun _ _ hagrees' _ => hagrees'

end Matches

end ThreeAddress.Source
