import DesignTokens.Event

set_option autoImplicit false

/-! # Computations with a log

`Traced ε α` is the outcome of a computation that may fail with an `ε` and reports events
on the way. The events of a failed computation are kept. A step never sees the events
reported before it, so `result_bind` reads off results without the log.
-/

namespace DesignTokens

theorem except_bind_eq_ok_iff {ε α β : Type} {x : Except ε α} {f : α → Except ε β} {b : β} :
    x.bind f = .ok b ↔ ∃ a, x = .ok a ∧ f a = .ok b := by
  cases x <;> simp [Except.bind]

/-- A result together with the events reported before it. -/
structure Traced (ε α : Type) where
  events : List Event
  result : Except ε α

namespace Traced

variable {ε ε' α β : Type}

/-- A result without events. -/
def ofExcept (result : Except ε α) : Traced ε α := ⟨[], result⟩

/-- Reports one event. -/
def report (event : Event) : Traced ε Unit := ⟨[event], .ok ()⟩

/-- Fails without events. -/
def fail (error : ε) : Traced ε α := ⟨[], .error error⟩

/-- The second computation on the result of the first, its events after those of the first. -/
protected def bind (x : Traced ε α) (f : α → Traced ε β) : Traced ε β :=
  match x.result with
  | .ok a => ⟨x.events ++ (f a).events, (f a).result⟩
  | .error e => ⟨x.events, .error e⟩

instance : Monad (Traced ε) where
  pure a := ⟨[], .ok a⟩
  bind := Traced.bind

/-- The same computation with its error wrapped. -/
def mapError (f : ε → ε') (x : Traced ε α) : Traced ε' α := ⟨x.events, x.result.mapError f⟩

@[simp] theorem result_pure (a : α) : (pure a : Traced ε α).result = .ok a := rfl

@[simp] theorem events_pure (a : α) : (pure a : Traced ε α).events = [] := rfl

@[simp] theorem result_ofExcept (r : Except ε α) : (ofExcept r).result = r := rfl

@[simp] theorem events_ofExcept (r : Except ε α) : (ofExcept r).events = [] := rfl

@[simp] theorem result_fail (e : ε) : (fail e : Traced ε α).result = .error e := rfl

@[simp] theorem events_fail (e : ε) : (fail e : Traced ε α).events = [] := rfl

@[simp] theorem result_report (event : Event) : (report event : Traced ε Unit).result = .ok () :=
  rfl

@[simp] theorem events_report (event : Event) : (report event : Traced ε Unit).events = [event] :=
  rfl

@[simp] theorem result_mapError (f : ε → ε') (x : Traced ε α) :
    (x.mapError f).result = x.result.mapError f := rfl

theorem result_mapError_eq_ok {f : ε → ε'} {x : Traced ε α} {a : α} :
    (x.mapError f).result = .ok a ↔ x.result = .ok a := by
  rw [result_mapError]
  cases x.result with
  | error e => exact iff_of_false (by rintro ⟨⟩) (by rintro ⟨⟩)
  | ok b =>
      show (Except.ok b : Except ε' α) = .ok a ↔ _
      rw [Except.ok.injEq, Except.ok.injEq]

@[simp] theorem events_mapError (f : ε → ε') (x : Traced ε α) :
    (x.mapError f).events = x.events := rfl

@[simp] theorem result_bind (x : Traced ε α) (f : α → Traced ε β) :
    (x >>= f).result = x.result.bind fun a => (f a).result := by
  show (Traced.bind x f).result = _
  unfold Traced.bind
  cases x.result <;> rfl

theorem result_bind_eq_ok {x : Traced ε α} {f : α → Traced ε β} {b : β} :
    (x >>= f).result = .ok b ↔ ∃ a, x.result = .ok a ∧ (f a).result = .ok b := by
  rw [result_bind, except_bind_eq_ok_iff]

theorem result_bind_eq_error {x : Traced ε α} {f : α → Traced ε β} {e : ε} :
    (x >>= f).result = .error e ↔
      x.result = .error e ∨ ∃ a, x.result = .ok a ∧ (f a).result = .error e := by
  rw [result_bind]
  cases x.result <;> simp [Except.bind]

/-- What follows a computation matters only for its result. -/
theorem bind_congr_result {x : Traced ε α} {f g : α → Traced ε β}
    (h : ∀ a, x.result = .ok a → f a = g a) : x >>= f = x >>= g := by
  show Traced.bind x f = Traced.bind x g
  unfold Traced.bind
  cases hx : x.result with
  | ok a => simp only [h a hx]
  | error e => rfl

theorem events_bind_ok {x : Traced ε α} {a : α} (h : x.result = .ok a) (f : α → Traced ε β) :
    (x >>= f).events = x.events ++ (f a).events := by
  show (Traced.bind x f).events = _
  unfold Traced.bind
  rw [h]

theorem events_bind_error {x : Traced ε α} {e : ε} (h : x.result = .error e)
    (f : α → Traced ε β) : (x >>= f).events = x.events := by
  show (Traced.bind x f).events = _
  unfold Traced.bind
  rw [h]

/-- A step after which there are no events adds none. -/
theorem events_bind_of_silent {x : Traced ε α} {f : α → Traced ε β}
    (h : ∀ a, (f a).events = []) : (x >>= f).events = x.events := by
  cases hx : x.result with
  | ok a => rw [events_bind_ok hx, h a, List.append_nil]
  | error error => rw [events_bind_error hx]

instance : LawfulMonad (Traced ε) := by
  refine LawfulMonad.mk' (Traced ε) ?_ ?_ ?_
  · intro α x
    obtain ⟨events, result⟩ := x
    cases result <;> simp [Functor.map, Traced.bind]
  · intro α β a f
    show Traced.bind _ f = f a
    simp [Traced.bind, pure]
  · intro α β γ x f g
    show Traced.bind (Traced.bind x f) g = Traced.bind x fun a => Traced.bind (f a) g
    obtain ⟨events, result⟩ := x
    cases result with
    | error e => rfl
    | ok a =>
      simp only [Traced.bind]
      cases (f a).result <;> simp

end Traced

end DesignTokens
