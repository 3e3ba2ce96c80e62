import Mathlib.Order.Defs.Unbundled

/-!
# Programs over a state that may fail or panic

`Prog ε σ α` is a computation on a state `σ` that ends with a value, with an error of type `ε` its caller sees, or with
a panic nobody catches; the state reached so far is kept in all three cases. `attempt` hands an error to the caller as a
value, `ignore` drops it.

- `run_bind`, `run_attempt` and the other `run_` lemmas say how a program runs.
- `Prog.Keeps R m`: every run of `m` relates the state before to the state after. For a preorder `R` the rules
  `Keeps.bind`, `Keeps.attempt`, … let a frame property of a program be read off the frame properties of its parts.
  `Prog.KeepsAt` is the same from one state.
- `Prog.Ends m s Q`: the run from `s` ends with an outcome and a state of which `Q` holds, with its rule `Ends.bind`.
- `Prog.Returns m s P`: the run from `s` ends with a value of which `P` holds, with its rule `Returns.bind`.
- `Prog.Unfailing m`: no run ends with an error, with its rule `Unfailing.bind`; `Prog.Panicless m`: none ends with a
  panic.
- `Prog.Spares R m`: a run that ends with an error relates the state before to the state after, with its rules for
  `bind`.
-/

namespace Lib

/-- How a computation ends. -/
inductive Outcome (ε α : Type) where
  | ok (a : α)
  | error (e : ε)
  | panic
  deriving DecidableEq, Repr

namespace Outcome

variable {ε α β : Type}

/-- Continue after a value; an error or a panic ends the computation. -/
def bind (o : Outcome ε α) (f : α → Outcome ε β) : Outcome ε β :=
  match o with
  | .ok a => f a
  | .error e => .error e
  | .panic => .panic

instance : Monad (Outcome ε) where
  pure := .ok
  bind := bind

@[simp] theorem pure_eq (a : α) : (pure a : Outcome ε α) = .ok a := rfl
@[simp] theorem ok_bind (a : α) (f : α → Outcome ε β) : (Outcome.ok a >>= f) = f a := rfl
@[simp] theorem error_bind (e : ε) (f : α → Outcome ε β) : (Outcome.error e >>= f) = .error e := rfl
@[simp] theorem panic_bind (f : α → Outcome ε β) : ((Outcome.panic : Outcome ε α) >>= f) = .panic := rfl

instance : LawfulMonad (Outcome ε) := LawfulMonad.mk'
  _ (fun o => by cases o <;> rfl) (fun _ _ => rfl)
    (fun o _ _ => by cases o <;> rfl)

/-- A computation that ends with a value had its first part end with one. -/
theorem bind_eq_ok {o : Outcome ε α} {f : α → Outcome ε β} {b : β} (h : (o >>= f) = .ok b) :
    ∃ a, o = .ok a ∧ f a = .ok b := by
  cases o with
  | ok a => exact ⟨a, rfl, h⟩
  | error e => cases h
  | panic => cases h

/-- Where a computation panicked: in its first part, or after it. -/
theorem bind_eq_panic {o : Outcome ε α} {f : α → Outcome ε β} (h : (o >>= f) = .panic) :
    o = .panic ∨ ∃ a, o = .ok a ∧ f a = .panic := by
  cases o with
  | ok a => exact Or.inr ⟨a, rfl, h⟩
  | error e => cases h
  | panic => exact Or.inl rfl

/-- An `Option` as an outcome, with the error of the missing case. -/
def ofOption (e : ε) : Option α → Outcome ε α
  | some a => .ok a
  | none => .error e

@[simp] theorem ofOption_some (e : ε) (a : α) : ofOption e (some a) = .ok a := rfl
@[simp] theorem ofOption_none (e : ε) : ofOption e (none : Option α) = .error e := rfl

theorem ofOption_ne_panic (e : ε) (o : Option α) : ofOption e o ≠ .panic := by
  cases o <;> exact fun h => nomatch h

theorem ofOption_eq_ok {e : ε} {o : Option α} {a : α} (h : ofOption e o = .ok a) : o = some a := by
  cases o with
  | none => cases h
  | some b => cases h; rfl

/-- An `Except` as an outcome. -/
def ofExcept : Except ε α → Outcome ε α
  | .ok a => .ok a
  | .error e => .error e

@[simp] theorem ofExcept_ok (a : α) : ofExcept (.ok a : Except ε α) = .ok a := rfl
@[simp] theorem ofExcept_error (e : ε) : ofExcept (.error e : Except ε α) = .error e := rfl

theorem ofExcept_eq_ok {r : Except ε α} {a : α} (h : ofExcept r = .ok a) : r = .ok a := by
  cases r with
  | ok b => cases h; rfl
  | error e => cases h

end Outcome

theorem Except.bind_eq_ok {ε α β : Type} {o : Except ε α} {f : α → Except ε β} {b : β} (h : (o >>= f) = .ok b) :
    ∃ a, o = .ok a ∧ f a = .ok b := by
  cases o with
  | ok a => exact ⟨a, rfl, h⟩
  | error e => cases h

theorem Except.mapError_eq_ok {ε ε' α : Type} {f : ε → ε'} {o : Except ε α} {a : α} (h : o.mapError f = .ok a) :
    o = .ok a := by
  cases o with
  | ok b => cases h; rfl
  | error e => cases h

/-- A computation on a state. -/
def Prog (ε σ α : Type) : Type := σ → Outcome ε α × σ

namespace Prog

variable {ε σ α β : Type}

/-- Run a program from a state. -/
def run (m : Prog ε σ α) (s : σ) : Outcome ε α × σ := m s

instance : Monad (Prog ε σ) where
  pure a := fun s => (.ok a, s)
  bind m f := fun s => match m s with
    | (.ok a, s') => f a s'
    | (.error e, s') => (.error e, s')
    | (.panic, s') => (.panic, s')

/-- End with an error. -/
def fail (e : ε) : Prog ε σ α := fun s => (.error e, s)

/-- The current state. -/
def get : Prog ε σ σ := fun s => (.ok s, s)

/-- Change the state. -/
def modify (f : σ → σ) : Prog ε σ Unit := fun s => (.ok (), f s)

/-- A stateless outcome as a program. -/
def lift (o : Outcome ε α) : Prog ε σ α := fun s => (o, s)

/-- A function of the state that also gives the next state. -/
def step (f : σ → Outcome ε α × σ) : Prog ε σ α := f

/-- Run `m` and hand its error to the caller as a value. A panic still ends everything. -/
def attempt (m : Prog ε σ α) : Prog ε σ (Except ε α) := fun s => match m s with
  | (.ok a, s') => (.ok (.ok a), s')
  | (.error e, s') => (.ok (.error e), s')
  | (.panic, s') => (.panic, s')

/-- Run `m` for its effect and drop its value or error. -/
def ignore (m : Prog ε σ α) : Prog ε σ Unit := do
  let _ ← m.attempt
  pure ()

/-- Run a program on a part of the state. -/
def zoom {τ : Type} (view : σ → τ) (put : τ → σ → σ) (m : Prog ε τ α) : Prog ε σ α := fun s =>
  match m (view s) with
  | (o, t) => (o, put t s)

/-- Run `m` and hand its error on as another one. -/
def mapError {ε' : Type} (f : ε → ε') (m : Prog ε σ α) : Prog ε' σ α := fun s => match m s with
  | (.ok a, s') => (.ok a, s')
  | (.error e, s') => (.error (f e), s')
  | (.panic, s') => (.panic, s')

variable {s : σ}

@[simp] theorem run_pure (a : α) : (pure a : Prog ε σ α).run s = (.ok a, s) := rfl
@[simp] theorem run_fail (e : ε) : (fail e : Prog ε σ α).run s = (.error e, s) := rfl
@[simp] theorem run_get : (get : Prog ε σ σ).run s = (.ok s, s) := rfl
@[simp] theorem run_modify (f : σ → σ) : (modify f : Prog ε σ Unit).run s = (.ok (), f s) := rfl
@[simp] theorem run_lift (o : Outcome ε α) : (lift o : Prog ε σ α).run s = (o, s) := rfl
@[simp] theorem run_step (f : σ → Outcome ε α × σ) : (step f : Prog ε σ α).run s = f s := rfl

theorem run_bind (m : Prog ε σ α) (f : α → Prog ε σ β) : (m >>= f).run s = match m.run s with
    | (.ok a, s') => (f a).run s'
    | (.error e, s') => (.error e, s')
    | (.panic, s') => (.panic, s') := rfl

theorem run_attempt (m : Prog ε σ α) : m.attempt.run s = match m.run s with
    | (.ok a, s') => (.ok (.ok a), s')
    | (.error e, s') => (.ok (.error e), s')
    | (.panic, s') => (.panic, s') := rfl

theorem run_mapError {ε' : Type} (f : ε → ε') (m : Prog ε σ α) : (m.mapError f).run s = match m.run s with
    | (.ok a, s') => (.ok a, s')
    | (.error e, s') => (.error (f e), s')
    | (.panic, s') => (.panic, s') := rfl

theorem run_zoom {τ : Type} (view : σ → τ) (put : τ → σ → σ) (m : Prog ε τ α) :
    (zoom view put m).run s = ((m.run (view s)).1, put (m.run (view s)).2 s) := rfl

variable {m : Prog ε σ α} {f : α → Prog ε σ β} {s' : σ}

/-- A run ends where it ends. -/
theorem run_eq {o : Outcome ε α} (h : (m.run s).1 = o) : m.run s = (o, (m.run s).2) := by
  rw [← h]

theorem run_bind_ok {a : α} (h : m.run s = (.ok a, s')) : (m >>= f).run s = (f a).run s' := by
  rw [run_bind, h]

theorem run_bind_error {e : ε} (h : m.run s = (.error e, s')) : (m >>= f).run s = (.error e, s') := by
  rw [run_bind, h]

@[simp] theorem pure_bind (a : α) (f : α → Prog ε σ β) : (pure a >>= f) = f a := rfl
@[simp] theorem lift_ok_bind (a : α) (f : α → Prog ε σ β) : ((lift (.ok a) : Prog ε σ α) >>= f) = f a := rfl
@[simp] theorem fail_bind (e : ε) (f : α → Prog ε σ β) : ((fail e : Prog ε σ α) >>= f) = fail e := rfl

@[simp] theorem run_get_bind (f : σ → Prog ε σ β) : ((get : Prog ε σ σ) >>= f).run s = (f s).run s := rfl

@[simp] theorem run_modify_bind (g : σ → σ) (f : Unit → Prog ε σ β) :
    ((modify g : Prog ε σ Unit) >>= f).run s = (f ()).run (g s) := rfl

/-- A program that ends with a value had its first part end with one. -/
theorem bind_eq_ok {b : β} {s'' : σ} (h : (m >>= f).run s = (.ok b, s'')) :
    ∃ a s', m.run s = (.ok a, s') ∧ (f a).run s' = (.ok b, s'') := by
  rw [run_bind] at h
  rcases hm : m.run s with ⟨a | e | _, s'⟩ <;> rw [hm] at h
  · exact ⟨a, s', rfl, h⟩
  · cases h
  · cases h

/-- Where a program ended with an error: in its first part, or after it. -/
theorem bind_eq_error {e : ε} {s'' : σ} (h : (m >>= f).run s = (.error e, s'')) :
    m.run s = (.error e, s'') ∨ ∃ a s', m.run s = (.ok a, s') ∧ (f a).run s' = (.error e, s'') := by
  rw [run_bind] at h
  rcases hm : m.run s with ⟨a | e' | _, s'⟩ <;> rw [hm] at h
  · exact Or.inr ⟨a, s', rfl, h⟩
  · cases h; exact Or.inl rfl
  · cases h

theorem mapError_eq_ok {ε' : Type} {g : ε → ε'} {a : α} (h : (m.mapError g).run s = (.ok a, s')) :
    m.run s = (.ok a, s') := by
  rw [run_mapError] at h
  rcases hm : m.run s with ⟨b | e | _, s''⟩ <;> rw [hm] at h
  · cases h; rfl
  · cases h
  · cases h

theorem bind_assoc {γ : Type} (m : Prog ε σ α) (f : α → Prog ε σ β) (g : β → Prog ε σ γ) :
    (m >>= f) >>= g = m >>= fun a => f a >>= g := by
  funext s
  change ((m >>= f) >>= g).run s = (m >>= fun a => f a >>= g).run s
  simp only [run_bind]
  rcases m.run s with ⟨a | e | _, s'⟩ <;> rfl

/-- What comes after a program matters only where it ends with a value. -/
theorem run_bind_congr {g : α → Prog ε σ β} (h : ∀ a s s', m.run s = (.ok a, s') → (f a).run s' = (g a).run s') :
    m >>= f = m >>= g := by
  funext s
  change (m >>= f).run s = (m >>= g).run s
  rw [run_bind, run_bind]
  rcases hr : m.run s with ⟨a | e | _, s'⟩
  · exact h a s s' hr
  · rfl
  · rfl

theorem run_ignore (m : Prog ε σ α) : m.ignore.run s = match m.run s with
    | (.panic, s') => (.panic, s')
    | (_, s') => (.ok (), s') := by
  unfold ignore
  rw [run_bind, run_attempt]
  rcases m.run s with ⟨a | e | _, s'⟩ <;> rfl

@[simp] theorem run_ignore_snd (m : Prog ε σ α) : (m.ignore.run s).2 = (m.run s).2 := by
  rw [run_ignore]
  rcases m.run s with ⟨a | e | _, s'⟩ <;> rfl

@[simp] theorem run_attempt_snd (m : Prog ε σ α) : (m.attempt.run s).2 = (m.run s).2 := by
  rw [run_attempt]
  rcases m.run s with ⟨a | e | _, s'⟩ <;> rfl

/-! ## Frame relations -/

section Keeps

variable {R : σ → σ → Prop}

/-- Every run of `m` relates its first state to its last. -/
def Keeps (R : σ → σ → Prop) (m : Prog ε σ α) : Prop := ∀ s, R s (m.run s).2

theorem Keeps.mono {R' : σ → σ → Prop} (h : Keeps R m) (hR : ∀ s t, R s t → R' s t) : Keeps R' m :=
  fun s => hR _ _ (h s)

theorem keeps_modify {g : σ → σ} (h : ∀ s, R s (g s)) : Keeps R (modify g : Prog ε σ Unit) := h

theorem Keeps.attempt (h : Keeps R m) : Keeps R m.attempt := fun s => by
  rw [run_attempt_snd]; exact h s

theorem Keeps.mapError {ε' : Type} {f : ε → ε'} (h : Keeps R m) : Keeps R (m.mapError f) := fun s => by
  have hs := h s
  rw [run_mapError]
  rcases hr : m.run s with ⟨a | e | _, s'⟩ <;> rw [hr] at hs <;> exact hs

theorem Keeps.ignore (h : Keeps R m) : Keeps R m.ignore := fun s => by
  rw [run_ignore_snd]; exact h s

/-- What runs after reading the state may use the state it read. -/
theorem keeps_get_bind {g : σ → Prog ε σ β} (h : ∀ s, R s ((g s).run s).2) : Keeps R (get >>= g) := h

variable [IsPreorder σ R]

theorem keeps_pure (a : α) : Keeps R (pure a : Prog ε σ α) := fun s => refl_of R s
theorem keeps_fail (e : ε) : Keeps R (fail e : Prog ε σ α) := fun s => refl_of R s
theorem keeps_get : Keeps R (get : Prog ε σ σ) := fun s => refl_of R s
theorem keeps_lift (o : Outcome ε α) : Keeps R (lift o : Prog ε σ α) := fun s => refl_of R s

/-- A program whose two parts keep `R` keeps `R`. -/
theorem Keeps.bind (hm : Keeps R m) (hf : ∀ a, Keeps R (f a)) : Keeps R (m >>= f) := by
  intro s
  have h1 := hm s
  rw [run_bind]
  rcases hr : m.run s with ⟨a | e | _, s'⟩ <;> rw [hr] at h1
  · exact trans_of R h1 (hf a s')
  · exact h1
  · exact h1

/-- The run of `m` from `s` relates `s` to the state it ends in. -/
def KeepsAt (R : σ → σ → Prop) (m : Prog ε σ α) (s : σ) : Prop := R s (m.run s).2

omit [IsPreorder σ R] in
theorem Keeps.at (h : Keeps R m) (s : σ) : KeepsAt R m s := h s

omit [IsPreorder σ R] in
theorem KeepsAt.attempt (h : KeepsAt R m s) : KeepsAt R m.attempt s := by
  unfold KeepsAt; rw [run_attempt_snd]; exact h

omit [IsPreorder σ R] in
theorem KeepsAt.ignore (h : KeepsAt R m s) : KeepsAt R m.ignore s := by
  unfold KeepsAt; rw [run_ignore_snd]; exact h

/-- What follows a first part has to keep `R` only from where the first part ended with a value. -/
theorem KeepsAt.bind (hm : KeepsAt R m s) (hf : ∀ a t, m.run s = (.ok a, t) → KeepsAt R (f a) t) :
    KeepsAt R (m >>= f) s := by
  unfold KeepsAt at *
  rw [run_bind]
  rcases hr : m.run s with ⟨a | e | _, t⟩ <;> rw [hr] at hm
  · exact trans_of R hm (hf a t hr)
  · exact hm
  · exact hm

end Keeps

/-! ## Postconditions -/

section Ends

/-- The run of `m` from `s` ends so. -/
def Ends (m : Prog ε σ α) (s : σ) (Q : Outcome ε α → σ → Prop) : Prop := Q (m.run s).1 (m.run s).2

theorem Ends.mono {Q Q' : Outcome ε α → σ → Prop} (h : Ends m s Q) (hQ : ∀ o s', Q o s' → Q' o s') : Ends m s Q' :=
  hQ _ _ h

/-- What is said of the end of a run may speak of the run. -/
theorem Ends.of_run {Q : Outcome ε α → σ → Prop} (h : ∀ o s', m.run s = (o, s') → Q o s') : Ends m s Q := h _ _ rfl

theorem Ends.apply {Q : Outcome ε α → σ → Prop} (h : Ends m s Q) {o : Outcome ε α} {s' : σ} (hr : m.run s = (o, s')) :
    Q o s' := by
  rw [Ends, hr] at h
  exact h

/-- A first part that does not end with a value ends the whole. -/
theorem Ends.bind {P : Outcome ε α → σ → Prop} {Q : Outcome ε β → σ → Prop} (h : Ends m s P)
    (hok : ∀ a s', P (.ok a) s' → Ends (f a) s' Q) (herr : ∀ e s', P (.error e) s' → Q (.error e) s')
    (hpanic : ∀ s', P .panic s' → Q .panic s') : Ends (m >>= f) s Q := by
  unfold Ends at *
  rw [run_bind]
  rcases hr : m.run s with ⟨a | e | _, s'⟩ <;> rw [hr] at h
  · exact hok a s' h
  · exact herr e s' h
  · exact hpanic s' h

end Ends

/-! ## Runs that end with a value -/

section Returns

/-- The run of `m` from `s` ends with a value, and `P` holds of it and of the state after. -/
def Returns (m : Prog ε σ α) (s : σ) (P : α → σ → Prop) : Prop := ∃ a s', m.run s = (.ok a, s') ∧ P a s'

theorem returns_pure {a : α} {P : α → σ → Prop} (h : P a s) : Returns (pure a : Prog ε σ α) s P := ⟨a, s, rfl, h⟩

theorem returns_lift {a : α} {P : α → σ → Prop} (h : P a s) : Returns (lift (.ok a) : Prog ε σ α) s P := ⟨a, s, rfl, h⟩

theorem returns_modify {g : σ → σ} {P : Unit → σ → Prop} (h : P () (g s)) :
    Returns (modify g : Prog ε σ Unit) s P := ⟨(), g s, rfl, h⟩

/-- The rest of a program runs from where its first part ended. -/
theorem Returns.bind {P : α → σ → Prop} {Q : β → σ → Prop} (h : Returns m s P)
    (hf : ∀ a t, P a t → Returns (f a) t Q) : Returns (m >>= f) s Q := by
  obtain ⟨a, t, hr, hp⟩ := h
  obtain ⟨b, t', hr', hq⟩ := hf a t hp
  exact ⟨b, t', by rw [run_bind_ok hr]; exact hr', hq⟩

theorem returns_get_bind {g : σ → Prog ε σ β} {Q : β → σ → Prop} (h : Returns (g s) s Q) : Returns (get >>= g) s Q := h

theorem Returns.attempt {P : α → σ → Prop} (h : Returns m s P) :
    Returns m.attempt s fun r s' => ∃ a, r = .ok a ∧ P a s' := by
  obtain ⟨a, s', hr, hp⟩ := h
  exact ⟨.ok a, s', by rw [run_attempt, hr], a, rfl, hp⟩

end Returns

/-! ## Runs that do not fail -/

section Unfailing

/-- No run of `m` ends with an error. -/
def Unfailing (m : Prog ε σ α) : Prop := ∀ s e, (m.run s).1 ≠ .error e

theorem unfailing_pure (a : α) : Unfailing (pure a : Prog ε σ α) := fun s e => by simp

theorem unfailing_get : Unfailing (get : Prog ε σ σ) := fun s e => by simp

theorem unfailing_modify (g : σ → σ) : Unfailing (modify g : Prog ε σ Unit) := fun s e => by simp

theorem unfailing_ignore (m : Prog ε σ α) : Unfailing m.ignore := fun s e => by
  rw [run_ignore]
  rcases m.run s with ⟨a | e' | _, s'⟩ <;> simp

theorem unfailing_attempt (m : Prog ε σ α) : Unfailing m.attempt := fun s e => by
  rw [run_attempt]
  rcases m.run s with ⟨a | e' | _, s'⟩ <;> simp

theorem Unfailing.bind (hm : Unfailing m) (hf : ∀ a, Unfailing (f a)) : Unfailing (m >>= f) := by
  intro s e
  have h := hm s
  rw [run_bind]
  rcases hr : m.run s with ⟨a | e' | _, s'⟩ <;> rw [hr] at h
  · exact hf a s' e
  · exact absurd rfl (h e')
  · simp

end Unfailing

/-! ## Errors that are refusals -/

section Spares

variable {R : σ → σ → Prop}

/-- Every run of `m` that ends with an error relates its first state to its last. -/
def Spares (R : σ → σ → Prop) (m : Prog ε σ α) : Prop := ∀ s e s', m.run s = (.error e, s') → R s s'

theorem Keeps.spares (h : Keeps R m) : Spares R m := fun s e s' hr => by
  have hs := h s
  rw [hr] at hs
  exact hs

theorem Unfailing.spares (h : Unfailing m) : Spares R m := fun s e s' hr => by
  have hs := h s e
  rw [hr] at hs
  exact absurd rfl hs

/-- The first part keeps `R`, and what follows spares. -/
theorem Keeps.bind_spares [IsPreorder σ R] (hm : Keeps R m) (hf : ∀ a, Spares R (f a)) : Spares R (m >>= f) := by
  intro s e s' hr
  rcases bind_eq_error hr with hr | ⟨a, t, hm', hr⟩
  · exact hm.spares s e s' hr
  · have hs := hm s
    rw [hm'] at hs
    exact trans_of R hs (hf a t e s' hr)

/-- The first part spares, and what follows does not fail. -/
theorem Spares.bind_unfailing (hm : Spares R m) (hf : ∀ a, Unfailing (f a)) : Spares R (m >>= f) := by
  intro s e s' hr
  rcases bind_eq_error hr with hr | ⟨a, t, -, hr⟩
  · exact hm s e s' hr
  · exact absurd (congrArg Prod.fst hr) (hf a t e)

end Spares

/-! ## Runs that do not panic -/

section Panicless

/-- No run of `m` ends with a panic. -/
def Panicless (m : Prog ε σ α) : Prop := ∀ s, (m.run s).1 ≠ .panic

theorem panicless_pure (a : α) : Panicless (pure a : Prog ε σ α) := fun s => by simp

theorem panicless_fail (e : ε) : Panicless (fail e : Prog ε σ α) := fun s => by simp

theorem panicless_get : Panicless (get : Prog ε σ σ) := fun s => by simp

theorem panicless_modify (g : σ → σ) : Panicless (modify g : Prog ε σ Unit) := fun s => by simp

theorem panicless_lift_ofExcept (r : Except ε α) : Panicless (lift (.ofExcept r) : Prog ε σ α) := fun s => by
  cases r <;> simp

theorem Panicless.zoom {τ : Type} {view : σ → τ} {put : τ → σ → σ} {m : Prog ε τ α} (h : Panicless m) :
    Panicless (Prog.zoom view put m) := fun s => by
  rw [run_zoom]
  exact h (view s)

theorem Panicless.bind (hm : Panicless m) (hf : ∀ a, Panicless (f a)) : Panicless (m >>= f) := by
  intro s
  have h := hm s
  rw [run_bind]
  rcases hr : m.run s with ⟨a | e | _, s'⟩ <;> rw [hr] at h
  · exact hf a s'
  · simp
  · exact absurd rfl h

end Panicless

end Prog

end Lib
