set_option autoImplicit false

/-! # Sequences of checked steps

What a sequence of steps says about its parts if each of them may fail: it succeeds exactly if all
of them do, and it fails with an error of one of them. -/

namespace ThreeAddress

@[simp] theorem ok_bind {ε α β : Type} (a : α) (f : α → Except ε β) :
    Except.ok a >>= f = f a := rfl

@[simp] theorem error_bind {ε α β : Type} (e : ε) (f : α → Except ε β) :
    Except.error e >>= f = .error e := rfl

theorem bind_eq_ok_iff {ε α β : Type} {x : Except ε α} {f : α → Except ε β} {b : β} :
    x >>= f = .ok b ↔ ∃ a, x = .ok a ∧ f a = .ok b := by
  cases x <;> simp

theorem mapError_eq_ok_iff {ε ε' α : Type} {x : Except ε α} {f : ε → ε'} {a : α} :
    x.mapError f = .ok a ↔ x = .ok a := by
  cases x with
  | ok b =>
      constructor <;>
      · rintro ⟨⟩
        rfl
  | error e => constructor <;> rintro ⟨⟩

/-- A list of steps that all succeed succeeds with the list of their results. -/
theorem mapM_eq_ok {ε α β : Type} {f : α → Except ε β} {g : α → β} (l : List α)
    (h : ∀ a ∈ l, f a = .ok (g a)) : l.mapM f = .ok (l.map g) := by
  induction l with
  | nil => rfl
  | cons a l ih =>
      have hrest := ih (fun b hb => h b (List.mem_cons_of_mem a hb))
      rw [List.mapM_cons, h a List.mem_cons_self, hrest]
      rfl

/-! ## Errors -/

/-- If `x` fails, its error satisfies `P`. -/
def Raises {ε α : Type} (P : ε → Prop) (x : Except ε α) : Prop := ∀ e, x = .error e → P e

namespace Raises

variable {ε α β : Type} {P : ε → Prop}

theorem ok (a : α) : Raises P (.ok a) := by
  rintro _ ⟨⟩

theorem error {e : ε} (h : P e) : Raises P (.error e : Except ε α) := by
  rintro _ ⟨⟩
  exact h

theorem mono {Q : ε → Prop} {x : Except ε α} (hx : Raises P x) (h : ∀ e, P e → Q e) :
    Raises Q x := fun e he => h e (hx e he)

theorem bind {x : Except ε α} {f : α → Except ε β} (hx : Raises P x)
    (hf : ∀ a, x = .ok a → Raises P (f a)) : Raises P (x >>= f) := by
  cases x with
  | ok a => exact hf a rfl
  | error e => exact error (hx e rfl)

theorem map {x : Except ε α} {f : α → β} (hx : Raises P x) : Raises P (x.map f) := by
  cases x with
  | ok a => exact ok _
  | error e => exact error (hx e rfl)

end Raises

end ThreeAddress
