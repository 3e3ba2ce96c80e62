import Mathlib.Data.List.Basic

/-!
# Histories in which every event is explained

A history is a list of events, the last one first. `Explained E es`: each event is explained by those before it.
-/

namespace Lib

variable {ε : Type} {E : List ε → ε → Prop} {e : ε} {es : List ε}

/-- Each event is explained by those before it. -/
def Explained (E : List ε → ε → Prop) : List ε → Prop
  | [] => True
  | e :: es => E es e ∧ Explained E es

/-- An event of the history is explained by those before it. -/
theorem Explained.at {later earlier : List ε} (h : Explained E es) (hes : es = later ++ e :: earlier) :
    E earlier e := by
  subst hes
  induction later with
  | nil => exact h.1
  | cons e' later ih => exact ih h.2

end Lib
