import SecretsVault.Lib.Prog

/-!
# Two runs side by side

`Twins R m m' A`: from states that are related by `R`, the two programs end in the same way, in states that are related
by `R`: both with a value, related by `A`, or both with the same error, or both with a panic.

`Twins.bind`, `Twins.attempt`, `twins_step`, …: programs that are put together of twins are twins.
-/

namespace Lib

variable {ε σ τ α β : Type}

/-- Two computations end in the same way. -/
inductive Outcome.Alike (A : α → β → Prop) : Outcome ε α → Outcome ε β → Prop
  | ok {a : α} {b : β} (h : A a b) : Alike A (.ok a) (.ok b)
  | error (e : ε) : Alike A (.error e) (.error e)
  | panic : Alike A .panic .panic

theorem Outcome.Alike.mono {A A' : α → β → Prop} {o : Outcome ε α} {o' : Outcome ε β} (h : o.Alike A o')
    (hA : ∀ a b, A a b → A' a b) : o.Alike A' o' := by
  cases h with
  | ok h => exact .ok (hA _ _ h)
  | error e => exact .error e
  | panic => exact .panic

theorem Outcome.alike_refl (o : Outcome ε α) : o.Alike Eq o := by
  cases o with
  | ok a => exact .ok rfl
  | error e => exact .error e
  | panic => exact .panic

theorem Outcome.Alike.eq {o o' : Outcome ε α} (h : o.Alike Eq o') : o = o' := by
  cases h with
  | ok h => rw [h]
  | error e => rfl
  | panic => rfl

namespace Prog

/-- The two programs do the same, as far as the relations tell. -/
def Twins (R : σ → τ → Prop) (m : Prog ε σ α) (m' : Prog ε τ β) (A : α → β → Prop) : Prop :=
  ∀ s t, R s t → (m.run s).1.Alike A (m'.run t).1 ∧ R (m.run s).2 (m'.run t).2

section
variable {R : σ → τ → Prop} {A : α → β → Prop} {m : Prog ε σ α} {m' : Prog ε τ β}

theorem Twins.mono {A' : α → β → Prop} (h : Twins R m m' A) (hA : ∀ a b, A a b → A' a b) : Twins R m m' A' :=
  fun s t hst => ⟨(h s t hst).1.mono hA, (h s t hst).2⟩

theorem twins_pure {a : α} {b : β} (h : A a b) : Twins R (pure a : Prog ε σ α) (pure b : Prog ε τ β) A :=
  fun _ _ hst => ⟨.ok h, hst⟩

theorem twins_fail (e : ε) : Twins R (fail e : Prog ε σ α) (fail e : Prog ε τ β) A := fun _ _ hst => ⟨.error e, hst⟩

theorem twins_lift {o : Outcome ε α} {o' : Outcome ε β} (h : o.Alike A o') :
    Twins R (lift o : Prog ε σ α) (lift o' : Prog ε τ β) A := fun _ _ hst => ⟨h, hst⟩

theorem twins_get : Twins R (get : Prog ε σ σ) (get : Prog ε τ τ) R := fun _ _ hst => ⟨.ok hst, hst⟩

theorem twins_modify {f : σ → σ} {g : τ → τ} (h : ∀ s t, R s t → R (f s) (g t)) :
    Twins R (modify f : Prog ε σ Unit) (modify g : Prog ε τ Unit) Eq := fun s t hst => ⟨.ok rfl, h s t hst⟩

theorem twins_step {f : σ → Outcome ε α × σ} {g : τ → Outcome ε β × τ}
    (h : ∀ s t, R s t → (f s).1.Alike A (g t).1 ∧ R (f s).2 (g t).2) : Twins R (step f) (step g) A := h

theorem Twins.bind {α' β' : Type} {B : α' → β' → Prop} {f : α → Prog ε σ α'} {f' : β → Prog ε τ β'} (h : Twins R m m' A)
    (hf : ∀ a b, A a b → Twins R (f a) (f' b) B) : Twins R (m >>= f) (m' >>= f') B := by
  intro s t hst
  obtain ⟨halike, hrest⟩ := h s t hst
  rw [run_bind, run_bind]
  rcases hm : m.run s with ⟨o, s'⟩
  rcases hm' : m'.run t with ⟨o', t'⟩
  rw [hm, hm'] at halike hrest
  cases halike with
  | ok hab => exact hf _ _ hab s' t' hrest
  | error e => exact ⟨.error e, hrest⟩
  | panic => exact ⟨.panic, hrest⟩

/-- An error that is handed on is the same on both sides. -/
theorem Twins.attempt (h : Twins R m m' A) :
    Twins R m.attempt m'.attempt fun r r' => (∃ a b, r = .ok a ∧ r' = .ok b ∧ A a b) ∨ ∃ e, r = .error e ∧
    r' = .error e := by
  intro s t hst
  obtain ⟨halike, hrest⟩ := h s t hst
  rw [run_attempt, run_attempt]
  rcases hm : m.run s with ⟨o, s'⟩
  rcases hm' : m'.run t with ⟨o', t'⟩
  rw [hm, hm'] at halike hrest
  cases halike with
  | ok hab => exact ⟨.ok (Or.inl ⟨_, _, rfl, rfl, hab⟩), hrest⟩
  | error e => exact ⟨.ok (Or.inr ⟨e, rfl, rfl⟩), hrest⟩
  | panic => exact ⟨.panic, hrest⟩

end

/-- The same continuation after the same value. -/
theorem Twins.bind_eq {R : σ → τ → Prop} {m : Prog ε σ α} {m' : Prog ε τ α} {α' β' : Type} {B : α' → β' → Prop}
    {f : α → Prog ε σ α'} {f' : α → Prog ε τ β'} (h : Twins R m m' Eq) (hf : ∀ a, Twins R (f a) (f' a) B) :
    Twins R (m >>= f) (m' >>= f') B := by
  refine h.bind fun a b hab => ?_
  subst hab
  exact hf a

theorem Twins.attempt_eq {R : σ → τ → Prop} {m : Prog ε σ α} {m' : Prog ε τ α} (h : Twins R m m' Eq) :
    Twins R m.attempt m'.attempt Eq := by
  refine h.attempt.mono ?_
  rintro r r' (⟨a, b, rfl, rfl, rfl⟩ | ⟨e, rfl, rfl⟩)
  · rfl
  · rfl

end Prog

end Lib
