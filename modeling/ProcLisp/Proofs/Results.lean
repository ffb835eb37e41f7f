/-!
# Results

What is known of a result that was mapped, and when two results that may be errors go together.
-/

namespace ProcLisp

theorem exists_of_map_ok {ε α β : Type} {f : α → β} {x : Except ε α} {b : β}
    (done : x.map f = .ok b) : ∃ a, x = .ok a ∧ f a = b := by
  cases x with
  | error e => cases done
  | ok a => exact ⟨a, rfl, Except.ok.inj done⟩

theorem mapError_eq_ok {ε ε' α : Type} {f : ε → ε'} {x : Except ε α} {a : α} :
    x.mapError f = .ok a ↔ x = .ok a := by
  cases x with
  | error e => constructor <;> intro same <;> cases same
  | ok b => constructor <;> (intro same; cases same; rfl)

theorem mapError_eq_error {ε ε' α : Type} {f : ε → ε'} {x : Except ε α} {e' : ε'} :
    x.mapError f = .error e' ↔ ∃ e, x = .error e ∧ f e = e' := by
  cases x with
  | error e => exact ⟨fun same => ⟨e, rfl, Except.error.inj same⟩, by rintro ⟨_, ⟨⟩, rfl⟩; rfl⟩
  | ok b => exact ⟨(fun same => by cases same), by rintro ⟨_, ⟨⟩, _⟩⟩

/-- Both succeed with related results, or both fail with related errors. -/
inductive Concur {ε ε' α β : Type} (E : ε → ε' → Prop) (R : α → β → Prop) :
    Except ε α → Except ε' β → Prop
  | ok {a : α} {b : β} (related : R a b) : Concur E R (.ok a) (.ok b)
  | error {e : ε} {e' : ε'} (related : E e e') : Concur E R (.error e) (.error e')

theorem Concur.map {ε ε' α β γ δ : Type} {E : ε → ε' → Prop} {R : α → β → Prop}
    {S : γ → δ → Prop} {x : Except ε α} {y : Except ε' β} (concur : Concur E R x y) {f : α → γ}
    {g : β → δ} (step : ∀ {a b}, R a b → S (f a) (g b)) : Concur E S (x.map f) (y.map g) := by
  cases concur with
  | ok related => exact .ok (step related)
  | error related => exact .error related

/-- Both succeed with related results, or both fail in the same way. -/
inductive Agree {ε α β : Type} (R : α → β → Prop) : Except ε α → Except ε β → Prop
  | ok {a : α} {b : β} (related : R a b) : Agree R (.ok a) (.ok b)
  | error (e : ε) : Agree R (.error e) (.error e)

theorem Agree.exists_ok {ε α β : Type} {R : α → β → Prop} {x : Except ε α} {b : β}
    (agree : Agree R x (.ok b)) : ∃ a, x = .ok a ∧ R a b := by
  cases agree with
  | ok related => exact ⟨_, rfl, related⟩

theorem Agree.exists_ok_right {ε α β : Type} {R : α → β → Prop} {a : α} {y : Except ε β}
    (agree : Agree R (.ok a) y) : ∃ b, y = .ok b ∧ R a b := by
  cases agree with
  | ok related => exact ⟨_, rfl, related⟩

theorem Agree.eq_error {ε α β : Type} {R : α → β → Prop} {x : Except ε α} {e : ε}
    (agree : Agree R x (.error e)) : x = .error e := by
  cases agree
  rfl

theorem Agree.map {ε α β γ δ : Type} {R : α → β → Prop} {R' : γ → δ → Prop} {x : Except ε α}
    {y : Except ε β} (agree : Agree R x y) {f : α → γ} {g : β → δ}
    (step : ∀ {a b}, R a b → R' (f a) (g b)) : Agree R' (x.map f) (y.map g) := by
  cases agree with
  | ok related => exact .ok (step related)
  | error e => exact .error e

theorem Agree.mapError {ε ε' α β : Type} {R : α → β → Prop} {x : Except ε α} {y : Except ε β}
    (agree : Agree R x y) (f : ε → ε') : Agree R (x.mapError f) (y.mapError f) := by
  cases agree with
  | ok related => exact .ok related
  | error e => exact .error (f e)

end ProcLisp
