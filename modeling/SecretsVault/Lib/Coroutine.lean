import Mathlib.Logic.Function.Basic
import SecretsVault.Lib.Interleaving

/-!
# Coroutines that wait for answers

Handlers of one thread share a state. A handler runs until it calls a server; then the thread is free, other handlers
run, and the answer resumes it, in the state as it is by then. `Coroutine σ γ ρ α` is such a handler: calls are of type
`γ`, and the answers of the call `c` of type `ρ c`.

- `Loop.step`: the thread with the calls in flight. A handler is started, or an answer arrives.
- `Meets A R m o s`: whatever answers come, every stretch of `m` between two calls meets the guarantee `R` of its first
  state, its last state and its call, if the answer that resumed it was admitted by `A`. `o` is where the first stretch
  started.
- `Tame A R m`: `m` keeps a guarantee it finds, with its rules `Tame.bind`, `tame_modify`, …; `Begins A R m` is the same
  of a handler that is started.
- `Loop.Sound`: every call in flight goes on as it must; `Loop.Sound.step` keeps it, and gives the guarantee of one
  event.
-/

namespace Lib

/-- A handler that changes a state, and waits for answers to its calls. -/
inductive Coroutine (σ γ : Type) (ρ : γ → Type) (α : Type) where
  | done (a : α)
  | get (k : σ → Coroutine σ γ ρ α)
  | put (s : σ) (k : Coroutine σ γ ρ α)
  | call (c : γ) (k : ρ c → Coroutine σ γ ρ α)

/-- A handler that waits, with the state in which it made its call. -/
structure Flight (σ γ : Type) (ρ : γ → Type) where
  issued : σ
  call : γ
  resume : ρ call → Coroutine σ γ ρ Unit

namespace Coroutine

variable {σ γ : Type} {ρ : γ → Type} {α β : Type}

def bind : Coroutine σ γ ρ α → (α → Coroutine σ γ ρ β) → Coroutine σ γ ρ β
  | .done a, f => f a
  | .get k, f => .get fun s => (k s).bind f
  | .put s k, f => .put s (k.bind f)
  | .call c k, f => .call c fun r => (k r).bind f

instance : Monad (Coroutine σ γ ρ) where
  pure := .done
  bind := bind

/-- Change the state. -/
def modify (f : σ → σ) : Coroutine σ γ ρ Unit := .get fun s => .put (f s) (.done ())

/-- Call the server. -/
def ask (c : γ) : Coroutine σ γ ρ (ρ c) := .call c .done

/-- Look at the state. -/
def look : Coroutine σ γ ρ σ := .get .done

/-- Run up to the next call. -/
def run : Coroutine σ γ ρ Unit → σ → σ × Option (Flight σ γ ρ)
  | .done _, s => (s, none)
  | .get k, s => (k s).run s
  | .put s k, _ => k.run s
  | .call c k, s => (s, some ⟨s, c, k⟩)

/-- Every stretch meets the guarantee, if the answer that resumed it is admitted. The first one started in any of the
states `o`. -/
def Meets (A : (c : γ) → σ → ρ c → σ → Prop) (R : σ → σ → Option γ → Prop) (Q : α → (σ → Prop) → σ → Prop) :
    Coroutine σ γ ρ α → (σ → Prop) → σ → Prop
  | .done a, o, s => Q a o s
  | .get k, o, s => Meets A R Q (k s) o s
  | .put s k, o, _ => Meets A R Q k o s
  | .call c k, o, s => (∀ s₀, o s₀ → R s₀ s (some c)) ∧
    ∀ r t, Meets A R Q (k r) (fun s₀ => s₀ = t ∧ A c s r t) t

variable {A : (c : γ) → σ → ρ c → σ → Prop} {R : σ → σ → Option γ → Prop} {Q Q' : α → (σ → Prop) → σ → Prop}
  {m : Coroutine σ γ ρ α} {f : α → Coroutine σ γ ρ β} {o : σ → Prop} {s : σ}

theorem meets_bind {Q : β → (σ → Prop) → σ → Prop} :
    (m >>= f).Meets A R Q o s ↔ m.Meets A R (fun a o s => (f a).Meets A R Q o s) o s := by
  change (m.bind f).Meets A R Q o s ↔ _
  induction m generalizing o s with
  | done a => exact Iff.rfl
  | get k ih => exact ih s
  | put s k ih => exact ih
  | call c k ih => exact and_congr_right fun _ => forall_congr' fun r => forall_congr' fun t => ih r

@[simp] theorem meets_look {Q : σ → (σ → Prop) → σ → Prop} :
    (look : Coroutine σ γ ρ σ).Meets A R Q o s ↔ Q s o s := Iff.rfl

/-- What a handler that runs up to its next call, or to its end, has met. -/
theorem Meets.run {m : Coroutine σ γ ρ Unit} (h : m.Meets A R (fun _ o s => ∀ s₀, o s₀ → R s₀ s none) o s) :
    (∀ s₀, o s₀ → R s₀ (m.run s).1 ((m.run s).2.map (·.call))) ∧ ∀ fl, (m.run s).2 = some fl → ∀ r t,
      (fl.resume r).Meets A R (fun _ o s => ∀ s₀, o s₀ → R s₀ s none)
        (fun s₀ => s₀ = t ∧ A fl.call fl.issued r t) t := by
  induction m generalizing o s with
  | done a => exact ⟨h, fun fl hfl => by cases hfl⟩
  | get k ih => exact ih s h
  | put s k ih => exact ih h
  | call c k ih =>
    refine ⟨h.1, fun fl hfl => ?_⟩
    cases hfl
    exact h.2

/-- A handler keeps a guarantee that it finds: a stretch that has met it so far goes on to meet it. -/
def Tame (A : (c : γ) → σ → ρ c → σ → Prop) (R : σ → σ → Option γ → Prop) (m : Coroutine σ γ ρ α) : Prop :=
  ∀ (Q : α → (σ → Prop) → σ → Prop) (o : σ → Prop) (s : σ), (∀ s₀, o s₀ → R s₀ s none) →
    (∀ a o t, (∀ s₀, o s₀ → R s₀ t none) → Q a o t) → m.Meets A R Q o s

/-- What a handler that is started does. -/
def Begins (A : (c : γ) → σ → ρ c → σ → Prop) (R : σ → σ → Option γ → Prop) (m : Coroutine σ γ ρ Unit) : Prop :=
  ∀ s, m.Meets A R (fun _ o s => ∀ s₀, o s₀ → R s₀ s none) (fun s₀ => s₀ = s) s

theorem Tame.begins {m : Coroutine σ γ ρ Unit} (hm : m.Tame A R) (hrefl : ∀ s, R s s none) : m.Begins A R := fun s =>
  hm _ _ s (fun _ h => h ▸ hrefl s) fun _ _ _ h => h

theorem Tame.bind (hm : m.Tame A R) (hf : ∀ a, (f a).Tame A R) : (m >>= f).Tame A R := fun Q o s hs hQ =>
  meets_bind.mpr (hm _ o s hs fun a _ t ht => hf a Q _ t ht hQ)

theorem tame_pure (a : α) : (pure a : Coroutine σ γ ρ α).Tame A R := fun _ o s hs hQ => hQ a o s hs

theorem tame_look : (look : Coroutine σ γ ρ σ).Tame A R := fun _ o s hs hQ => hQ s o s hs

theorem tame_modify {f : σ → σ} (hf : ∀ s₀ s, R s₀ s none → R s₀ (f s) none) :
    (modify f : Coroutine σ γ ρ Unit).Tame A R := fun _ o s hs hQ => hQ () o (f s) fun s₀ h => hf s₀ s (hs s₀ h)

/-- What follows the answer `r` to the call `c` that was made in `s`, from the state `t` in which it arrives. -/
def Resumes (A : (c : γ) → σ → ρ c → σ → Prop) (R : σ → σ → Option γ → Prop) (c : γ) (s : σ) (r : ρ c) (t : σ)
    (m : Coroutine σ γ ρ α) : Prop :=
  ∀ Q : α → (σ → Prop) → σ → Prop, (∀ a o t, (∀ s₀, o s₀ → R s₀ t none) → Q a o t) →
    m.Meets A R Q (fun s₀ => s₀ = t ∧ A c s r t) t

theorem tame_ask_bind {c : γ} {f : ρ c → Coroutine σ γ ρ β} (hc : ∀ s₀ s, R s₀ s none → R s₀ s (some c))
    (hf : ∀ s r t, Resumes A R c s r t (f r)) : (ask c >>= f).Tame A R := fun Q _ s hs hQ =>
  meets_bind.mpr ⟨fun s₀ h => hc s₀ s (hs s₀ h), fun r t => hf s r t Q hQ⟩

variable {c : γ} {r : ρ c} {t : σ}

theorem Tame.resumes (hm : m.Tame A R) (hrefl : ∀ s, R s s none) : Resumes A R c s r t m := fun Q hQ =>
  hm Q _ t (fun _ h => h.1 ▸ hrefl _) hQ

/-- An answer that is admitted may be stored. -/
theorem resumes_modify_bind {f : σ → σ} {k : Unit → Coroutine σ γ ρ α} (hf : A c s r t → R t (f t) none)
    (hk : ∀ a, (k a).Tame A R) : Resumes A R c s r t (modify f >>= k) := fun Q hQ =>
  hk () Q _ (f t) (fun _ h => h.1 ▸ hf h.2) hQ

end Coroutine

/-! ## The thread and the calls in flight -/

/-- A thread with its calls in flight, numbered in the order in which they are made. -/
structure Loop (σ γ : Type) (ρ : γ → Type) where
  state : σ
  flights : Nat → Option (Flight σ γ ρ)
  next : Nat

namespace Loop

variable {σ γ η : Type} {ρ : γ → Type}

/-- What happens next: a handler is started, or the answer to a call arrives. -/
inductive Event (η γ : Type) (ρ : γ → Type) where
  | start (h : η)
  | answer (i : Nat) (c : γ) (r : ρ c)

/-- A handler has run up to its next call. -/
def settle (l : Loop σ γ ρ) : σ × Option (Flight σ γ ρ) → Loop σ γ ρ
  | (s, none) => { l with state := s }
  | (s, some fl) => ⟨s, Function.update l.flights l.next (some fl), l.next + 1⟩

variable [DecidableEq γ]

def step (handle : η → Coroutine σ γ ρ Unit) (l : Loop σ γ ρ) : Event η γ ρ → Option (Loop σ γ ρ)
  | .start h => some (l.settle ((handle h).run l.state))
  | .answer i c r =>
    match l.flights i with
    | none => none
    | some fl =>
      if h : c = fl.call then
        some ({ l with flights := Function.update l.flights i none }.settle ((fl.resume (h ▸ r)).run l.state))
      else none

variable {A : (c : γ) → σ → ρ c → σ → Prop} {R : σ → σ → Option γ → Prop} {handle : η → Coroutine σ γ ρ Unit}
  {l l' : Loop σ γ ρ} {e : Event η γ ρ}

/-- Every call in flight goes on as it must, whatever its answer is. -/
def Sound (A : (c : γ) → σ → ρ c → σ → Prop) (R : σ → σ → Option γ → Prop) (l : Loop σ γ ρ) : Prop :=
  ∀ i fl, l.flights i = some fl → ∀ r t, (fl.resume r).Meets A R (fun _ o s => ∀ s₀, o s₀ → R s₀ s none)
    (fun s₀ => s₀ = t ∧ A fl.call fl.issued r t) t

/-- The answer that arrives is admitted. -/
def Admits (A : (c : γ) → σ → ρ c → σ → Prop) (l : Loop σ γ ρ) (e : Event η γ ρ) : Prop :=
  ∀ i c r fl, e = .answer i c r → l.flights i = some fl → A c fl.issued r l.state

omit [DecidableEq γ] in
@[simp] theorem admits_start (h : η) : Admits A l (.start h : Event η γ ρ) := fun _ _ _ _ he => by cases he

omit [DecidableEq γ] in
@[simp] theorem admits_answer {i : Nat} {c : γ} {r : ρ c} :
    Admits A l (.answer i c r : Event η γ ρ) ↔ ∀ fl, l.flights i = some fl → A c fl.issued r l.state :=
  ⟨fun h fl hfl => h i c r fl rfl hfl, fun h i' c' r' fl he hfl => by cases he; exact h fl hfl⟩

/-- The call that the event has made, if it has made one. -/
def sent (l l' : Loop σ γ ρ) : Option γ :=
  if l'.next = l.next then none else (l'.flights l.next).map (·.call)

omit [DecidableEq γ] in
theorem settle_state (r : σ × Option (Flight σ γ ρ)) : (l.settle r).state = r.1 := by
  obtain ⟨s, _ | fl⟩ := r <;> rfl

omit [DecidableEq γ] in
theorem settle_next (r : σ × Option (Flight σ γ ρ)) : l.next ≤ (l.settle r).next := by
  obtain ⟨s, _ | fl⟩ := r
  · exact Nat.le_refl _
  · exact Nat.le_succ _

omit [DecidableEq γ] in
theorem sent_settle (fs : Nat → Option (Flight σ γ ρ)) (r : σ × Option (Flight σ γ ρ)) :
    sent l ({ l with flights := fs }.settle r) = r.2.map (·.call) := by
  obtain ⟨s, _ | fl⟩ := r
  · simp [sent, settle]
  · simp [sent, settle]

omit [DecidableEq γ] in
theorem Sound.settle (hl : l.Sound A R) {r : σ × Option (Flight σ γ ρ)}
    (hr : ∀ fl, r.2 = some fl → ∀ a t, (fl.resume a).Meets A R (fun _ o s => ∀ s₀, o s₀ → R s₀ s none)
      (fun s₀ => s₀ = t ∧ A fl.call fl.issued a t) t) : (l.settle r).Sound A R := by
  obtain ⟨s, _ | fl⟩ := r
  · exact hl
  · intro i fl' hi
    by_cases h : i = l.next
    · have hi : Function.update l.flights l.next (some fl) i = some fl' := hi
      rw [h, Function.update_self] at hi
      cases hi
      exact hr fl rfl
    · exact hl i fl' ((Function.update_of_ne h _ _).symm.trans hi)

/-- One event: the calls in flight still go on as they must, and an answer that is admitted gives the guarantee. -/
theorem Sound.step (hl : l.Sound A R) (hh : ∀ h, (handle h).Begins A R)
    (hs : l.step handle e = some l') : l'.Sound A R ∧ (Admits A l e → R l.state l'.state (sent l l')) := by
  cases e with
  | start h =>
    cases hs
    obtain ⟨hR, hfl⟩ := (hh h l.state).run
    refine ⟨hl.settle hfl, fun _ => ?_⟩
    rw [settle_state, sent_settle l.flights]
    exact hR _ rfl
  | answer i c r =>
    rw [Loop.step] at hs
    split at hs
    · cases hs
    · rename_i fl hi
      split at hs
      · rename_i hc
        subst hc
        cases hs
        obtain ⟨hR, hfl⟩ := (hl i fl hi r l.state).run
        refine ⟨Sound.settle (l := { l with flights := Function.update l.flights i none }) (fun j fl' hj => ?_) hfl,
          fun hA => ?_⟩
        · by_cases h : j = i
          · have hj : Function.update l.flights i none j = some fl' := hj
            rw [h, Function.update_self] at hj
            cases hj
          · exact hl j fl' ((Function.update_of_ne h _ _).symm.trans hj)
        · rw [settle_state, sent_settle]
          exact hR _ ⟨rfl, hA i _ r fl rfl hi⟩
      · cases hs

omit [DecidableEq γ] in
theorem settle_flights (r : σ × Option (Flight σ γ ρ)) {i : Nat} (hi : i < l.next) :
    (l.settle r).flights i = l.flights i := by
  obtain ⟨s, _ | fl⟩ := r
  · rfl
  · exact Function.update_of_ne (by omega) _ _

/-- A call stays in flight until it is answered, and its number is not used again. -/
theorem step_flight (hs : l.step handle e = some l') {i : Nat} (hi : i < l.next) :
    l'.flights i = l.flights i ∨ l'.flights i = none := by
  cases e with
  | start h =>
    cases hs
    exact Or.inl (settle_flights _ hi)
  | answer j c r =>
    rw [Loop.step] at hs
    split at hs
    · cases hs
    · split at hs
      · cases hs
        rw [settle_flights (l := { l with flights := Function.update l.flights j none }) _ hi]
        by_cases h : i = j
        · exact Or.inr (by rw [h]; exact Function.update_self _ _ _)
        · exact Or.inl (Function.update_of_ne h _ _)
      · cases hs

omit [DecidableEq γ] in
theorem settle_new (r : σ × Option (Flight σ γ ρ)) (hb : ∀ i, l.next ≤ i → l.flights i = none) :
    (∀ i, (l.settle r).next ≤ i → (l.settle r).flights i = none) ∧
    ∀ i fl, l.next ≤ i → (l.settle r).flights i = some fl → r.2 = some fl := by
  obtain ⟨s, _ | fl⟩ := r
  · refine ⟨hb, fun i fl hi hfl => ?_⟩
    rw [show (l.settle (s, none)).flights = l.flights from rfl, hb i hi] at hfl
    cases hfl
  · have hflights : (l.settle (s, some fl)).flights = Function.update l.flights l.next (some fl) := rfl
    refine ⟨fun i hi => ?_, fun i fl' hi hfl => ?_⟩
    · have hlt : l.next + 1 ≤ i := hi
      rw [hflights, Function.update_of_ne (by omega)]
      exact hb i (by omega)
    · rw [hflights] at hfl
      by_cases h : i = l.next
      · rw [h, Function.update_self] at hfl
        exact hfl
      · rw [Function.update_of_ne h, hb i hi] at hfl
        cases hfl

/-- A call that is new in flight is the one that the event has made. -/
theorem step_new (hs : l.step handle e = some l') (hb : ∀ i, l.next ≤ i → l.flights i = none) :
    (∀ i, l'.next ≤ i → l'.flights i = none) ∧
    ∀ i fl, l.next ≤ i → l'.flights i = some fl → sent l l' = some fl.call := by
  cases e with
  | start h =>
    cases hs
    obtain ⟨hbound, hnew⟩ := settle_new ((handle h).run l.state) hb
    refine ⟨hbound, fun i fl hi hfl => ?_⟩
    rw [sent_settle l.flights, hnew i fl hi hfl]
    rfl
  | answer j c r =>
    rw [Loop.step] at hs
    split at hs
    · cases hs
    · split at hs
      · rename_i fl _ hc
        cases hs
        have hb' : ∀ i, l.next ≤ i → Function.update l.flights j none i = none := by
          intro i hi
          by_cases h : i = j
          · rw [h, Function.update_self]
          · rw [Function.update_of_ne h, hb i hi]
        obtain ⟨hbound, hnew⟩ := settle_new (l := { l with flights := Function.update l.flights j none })
          ((fl.resume (hc ▸ r)).run l.state) hb'
        refine ⟨hbound, fun i fl' hi hfl => ?_⟩
        rw [sent_settle, hnew i fl' hi hfl]
        rfl
      · cases hs

/-- An answer that arrives is one to its call. -/
theorem step_answer {i : Nat} {c : γ} {r : ρ c} (hs : l.step handle (.answer i c r) = some l') :
    ∃ fl, l.flights i = some fl ∧ fl.call = c := by
  rw [Loop.step] at hs
  split at hs
  · cases hs
  · rename_i fl hfl
    split at hs
    · rename_i hc
      exact ⟨fl, hfl, hc.symm⟩
    · cases hs

/-- What is started later has a higher number. -/
theorem step_next (hs : l.step handle e = some l') : l.next ≤ l'.next := by
  cases e with
  | start h =>
    cases hs
    exact settle_next _
  | answer i c r =>
    rw [Loop.step] at hs
    split at hs
    · cases hs
    · split at hs
      · cases hs
        exact settle_next (l := { l with flights := Function.update l.flights i none }) _
      · cases hs

theorem runs_flight {es : List (Event η γ ρ)} (hr : runs (step handle) l es = some l') {i : Nat} (hi : i < l.next) :
    l'.flights i = l.flights i ∨ l'.flights i = none := by
  refine (runs_induction (C := fun _ _ => True) (I := fun t : Loop σ γ ρ => i < t.next ∧
    (t.flights i = l.flights i ∨ t.flights i = none)) (fun t e t' ht _ hs => ?_) ⟨hi, Or.inl rfl⟩
    (along_true _ _ _) hr).2
  refine ⟨Nat.lt_of_lt_of_le ht.1 (step_next hs), ?_⟩
  rcases step_flight hs ht.1 with h | h
  · rw [h]
    exact ht.2
  · exact Or.inr h

end Loop

end Lib
