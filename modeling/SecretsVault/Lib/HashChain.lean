import Mathlib.Data.Set.Function
import Mathlib.Data.List.Induction

/-!
# Hash chains

A chain of events is hashed one event after the other, each with the head of the chain before it. `Links` are the pairs
of a head and an event that are hashed on the way; where no two of them collide, the head of a chain of a given length
determines its events (`head_inj`).
-/

namespace Lib.HashChain

variable {D E : Type} (link : D → E → D)

/-- The head of a chain of events behind the head `d`. -/
def head (d : D) (es : List E) : D := es.foldl link d

@[simp] theorem head_nil (d : D) : head link d [] = d := rfl

@[simp] theorem head_cons (d : D) (e : E) (es : List E) : head link d (e :: es) = head link (link d e) es := rfl

@[simp] theorem head_concat (d : D) (es : List E) (e : E) : head link d (es ++ [e]) = link (head link d es) e := by
  simp [head]

/-- The links of a chain: every event with the head before it. -/
def Links (d : D) (es : List E) : Set (D × E) :=
  { p | ∃ before after, es = before ++ p.2 :: after ∧ p.1 = head link d before }

variable {link} {d : D} {es es' : List E} {S : Set (D × E)}

theorem Links.intro (before : List E) (e : E) (after : List E) :
    (head link d before, e) ∈ Links link d (before ++ e :: after) := ⟨before, after, rfl, rfl⟩

theorem Links.append (more : List E) : Links link d es ⊆ Links link d (es ++ more) := by
  rintro ⟨x, e⟩ ⟨before, after, rfl, rfl⟩
  exact ⟨before, after ++ more, by simp, rfl⟩

@[simp] theorem links_nil (d : D) : Links link d [] = ∅ := by
  ext p
  exact iff_of_false (fun ⟨_, _, heq, _⟩ => by simp at heq) id

/-- The links of a chain are its first, and those behind it. -/
@[simp] theorem links_cons (d : D) (e : E) (es : List E) :
    Links link d (e :: es) = insert (d, e) (Links link (link d e) es) := by
  ext ⟨x, y⟩
  constructor
  · rintro ⟨before, after, heq, hx⟩
    cases before with
    | nil =>
      cases heq
      exact Or.inl (Prod.ext hx rfl)
    | cons b before =>
      obtain ⟨rfl, rfl⟩ := List.cons.inj heq
      exact Or.inr ⟨before, after, rfl, hx⟩
  · rintro (heq | ⟨before, after, rfl, hx⟩)
    · cases heq
      exact Links.intro [] e es
    · exact ⟨e :: before, after, rfl, hx⟩

/-- Chains of one length with one head are one chain, where their links do not collide. -/
theorem head_inj (hfree : Set.InjOn (fun p => link p.1 p.2) S) (hes : Links link d es ⊆ S)
    (hes' : Links link d es' ⊆ S) (hlen : es.length = es'.length) (h : head link d es = head link d es') :
    es = es' := by
  induction es using List.reverseRecOn generalizing es' with
  | nil => exact (List.length_eq_zero_iff.mp hlen.symm).symm
  | append_singleton es e ih =>
    obtain ⟨es', e', rfl⟩ : ∃ a b, es' = a ++ [b] := by
      rcases List.eq_nil_or_concat es' with rfl | ⟨a, b, rfl⟩
      · simp at hlen
      · exact ⟨a, b, by simp⟩
    rw [head_concat, head_concat] at h
    have hp := hfree (hes (Links.intro es e [])) (hes' (Links.intro es' e' [])) h
    simp only [Prod.mk.injEq] at hp
    have := ih ((Links.append [e]).trans hes) ((Links.append [e']).trans hes') (by simpa using hlen) hp.1
    rw [this, hp.2]

end Lib.HashChain
