import Mathlib.Logic.Function.Basic

/-!
# Interleavings

Several parties take turns on one state: `step s e` is the state after the event `e`, or `none` where `e` cannot happen.
`runs step s es` is the state after the events `es`, in the order of the list; any interleaving of the parties is such a
list.

- `Along step C s es`: every event of the run meets the condition `C` in the state in which it happens.
- `runs_induction`: what every event that meets the condition keeps, a run that meets it keeps.
-/

namespace Lib

variable {σ ε : Type} {step : σ → ε → Option σ} {C : σ → ε → Prop} {s s' s'' : σ} {e : ε} {es es' : List ε}

/-- The state after a list of events, each of which can happen where it does. -/
def runs (step : σ → ε → Option σ) : σ → List ε → Option σ
  | s, [] => some s
  | s, e :: es => (step s e).bind fun s' => runs step s' es

/-- Every event meets the condition in the state in which it happens. -/
def Along (step : σ → ε → Option σ) (C : σ → ε → Prop) : σ → List ε → Prop
  | _, [] => True
  | s, e :: es => C s e ∧ ∀ s', step s e = some s' → Along step C s' es

@[simp] theorem runs_nil (step : σ → ε → Option σ) (s : σ) : runs step s [] = some s := rfl

theorem runs_cons : runs step s (e :: es) = some s'' ↔ ∃ s', step s e = some s' ∧ runs step s' es = some s'' := by
  simp [runs, Option.bind_eq_some_iff]

theorem runs_append : runs step s (es ++ es') = some s'' ↔
    ∃ s', runs step s es = some s' ∧ runs step s' es' = some s'' := by
  induction es generalizing s with
  | nil => simp
  | cons e es ih =>
    rw [List.cons_append, runs_cons]
    constructor
    · rintro ⟨t, ht, hr⟩
      obtain ⟨s', hs, hs'⟩ := ih.mp hr
      exact ⟨s', runs_cons.mpr ⟨t, ht, hs⟩, hs'⟩
    · rintro ⟨s', hs, hs'⟩
      obtain ⟨t, ht, hr⟩ := runs_cons.mp hs
      exact ⟨t, ht, ih.mpr ⟨s', hr, hs'⟩⟩

theorem along_append : Along step C s (es ++ es') ↔
    Along step C s es ∧ ∀ s', runs step s es = some s' → Along step C s' es' := by
  induction es generalizing s with
  | nil => simp [Along]
  | cons e es ih =>
    rw [List.cons_append, Along, Along]
    constructor
    · rintro ⟨hc, h⟩
      refine ⟨⟨hc, fun t ht => (ih.mp (h t ht)).1⟩, fun s' hs' => ?_⟩
      obtain ⟨t, ht, hr⟩ := runs_cons.mp hs'
      exact (ih.mp (h t ht)).2 s' hr
    · rintro ⟨⟨hc, h⟩, h'⟩
      exact ⟨hc, fun t ht => ih.mpr ⟨h t ht, fun s' hs' => h' s' (runs_cons.mpr ⟨t, ht, hs'⟩)⟩⟩

/-- What every event keeps, a run keeps. -/
theorem runs_induction {I : σ → Prop} (hstep : ∀ s e s', I s → C s e → step s e = some s' → I s')
    (hI : I s) (hc : Along step C s es) (hr : runs step s es = some s') : I s' := by
  induction es generalizing s with
  | nil =>
    cases hr
    exact hI
  | cons e es ih =>
    obtain ⟨t, ht, hr⟩ := runs_cons.mp hr
    exact ih (hstep s e t hI hc.1 ht) (hc.2 t ht) hr

/-- A run meets the condition that asks nothing. -/
theorem along_true (step : σ → ε → Option σ) (s : σ) (es : List ε) : Along step (fun _ _ => True) s es := by
  induction es generalizing s with
  | nil => trivial
  | cons e es ih => exact ⟨trivial, fun s' _ => ih s'⟩

/-- A run of events that meet the condition in every state. -/
theorem along_of_forall (h : ∀ e ∈ es, ∀ s, C s e) : Along step C s es := by
  induction es generalizing s with
  | nil => trivial
  | cons e es ih =>
    rw [List.forall_mem_cons] at h
    exact ⟨h.1 s, fun s' _ => ih h.2⟩

theorem Along.mono {C' : σ → ε → Prop} (h : ∀ s e, C s e → C' s e) (hc : Along step C s es) : Along step C' s es := by
  induction es generalizing s with
  | nil => trivial
  | cons e es ih => exact ⟨h s e hc.1, fun s' hs' => ih (hc.2 s' hs')⟩

end Lib
