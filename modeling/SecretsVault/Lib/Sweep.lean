import Mathlib.Data.List.Basic

/-!
# Sweeping a list

What is dead is dropped from a list in which the first entry of a key counts. Where nothing dead stands before a live
entry of its key (`Unshadowed`), the first entry of a key is found in the swept list exactly if it is alive
(`find?_sweep`, `locate_live`, `locate_dead`), and a change of it commutes with a later sweep.
-/

namespace Lib

variable {α κ : Type} {key : α → κ} {dead dead' : α → Bool} {l : List α}

/-- No dead entry stands before a live one of its key. -/
def Unshadowed (key : α → κ) (dead : α → Bool) (l : List α) : Prop :=
  l.Pairwise fun x y => key x = key y → dead x = true → dead y = true

/-- What picks live entries only picks the same of a swept list. -/
theorem filter_sweep {pick : α → Bool} (hpick : ∀ x, pick x = true → dead x = false) (l : List α) :
    (l.filter fun x => !dead x).filter pick = l.filter pick := by
  rw [List.filter_filter]
  refine List.filter_congr fun x _ => ?_
  cases hp : pick x with
  | false => rfl
  | true => simp [hpick x hp]

/-- A later sweep takes what an earlier one took. -/
theorem filter_sweep_later (hlater : ∀ x, dead x = true → dead' x = true) (l : List α) :
    (l.filter fun x => !dead x).filter (fun x => !dead' x) = l.filter fun x => !dead' x := by
  refine filter_sweep (fun x hx => ?_) l
  by_contra hd
  rw [hlater x (by simpa using hd)] at hx
  cases hx

/-- The first entry of a key in a swept list. -/
theorem find?_sweep [BEq κ] [LawfulBEq κ] (h : Unshadowed key dead l) (k : κ) :
    (l.filter fun x => !dead x).find? (fun x => key x == k) =
      (l.find? fun x => key x == k).filter fun x => !dead x := by
  induction l with
  | nil => rfl
  | cons x l ih =>
    obtain ⟨hx, hl⟩ := List.pairwise_cons.mp h
    by_cases hk : key x = k
    · rw [List.find?_cons_of_pos (by simpa using hk)]
      by_cases hd : dead x = true
      · rw [List.filter_cons_of_neg (by simp [hd]), Option.filter_some, if_neg (by simp [hd]), List.find?_eq_none]
        intro y hy hyk
        obtain ⟨hy, halive⟩ := List.mem_filter.mp hy
        rw [hx y hy (hk.trans (eq_of_beq hyk).symm) hd] at halive
        cases halive
      · rw [List.filter_cons_of_pos (by simpa using hd), List.find?_cons_of_pos (by simpa using hk), Option.filter_some,
          if_pos (by simpa using hd)]
    · rw [List.find?_cons_of_neg (by simpa using hk), ← ih hl]
      by_cases hd : dead x = true
      · rw [List.filter_cons_of_neg (by simp [hd])]
      · rw [List.filter_cons_of_pos (by simpa using hd), List.find?_cons_of_neg (by simpa using hk)]

/-! ## The place of an entry -/

variable {q : α → Bool} {x y : α} {pre post : List α} {pos : Nat}

theorem findIdx?_append_cons (hpre : ∀ z ∈ pre, q z = false) (hx : q x = true) :
    (pre ++ x :: post).findIdx? q = some pre.length := by
  rw [List.findIdx?_append, List.findIdx?_eq_none_iff.mpr hpre, List.findIdx?_cons, hx]
  simp

/-- The first entry that is picked, and what stands before and behind it. -/
theorem exists_append_of_findIdx? (hpos : l.findIdx? q = some pos) (hx : l[pos]? = some x) :
    ∃ pre post, l = pre ++ x :: post ∧ pre.length = pos ∧ q x = true ∧ ∀ z ∈ pre, q z = false := by
  obtain ⟨hlt, hq, hbefore⟩ := List.findIdx?_eq_some_iff_getElem.mp hpos
  rw [List.getElem?_eq_getElem hlt, Option.some.injEq] at hx
  subst hx
  refine ⟨l.take pos, l.drop (pos + 1), ?_, by rw [List.length_take]; omega, hq, fun z hz => ?_⟩
  · rw [← List.drop_eq_getElem_cons hlt, List.take_append_drop]
  · obtain ⟨j, hj, rfl⟩ := List.mem_iff_getElem.mp hz
    rw [List.length_take] at hj
    rw [List.getElem_take]
    simpa using hbefore j (by omega)

/-- A live entry is found in the swept list too; changed there, it is what a change of it before the sweep makes, once
more is swept. -/
theorem locate_live (dead : α → Bool) (hpos : l.findIdx? q = some pos) (hx : l[pos]? = some x)
    (hlive : dead x = false) : ∃ pos', (l.filter fun x => !dead x).findIdx? q = some pos' ∧
      (l.filter fun x => !dead x)[pos']? = some x ∧
      ∀ dead' : α → Bool, (∀ z, dead z = true → dead' z = true) → ∀ y,
        ((l.filter fun x => !dead x).set pos' y).filter (fun x => !dead' x) =
          (l.set pos y).filter fun x => !dead' x := by
  obtain ⟨pre, post, rfl, rfl, hk, hpre⟩ := exists_append_of_findIdx? hpos hx
  have hswept : (pre ++ x :: post).filter (fun x => !dead x) =
      pre.filter (fun x => !dead x) ++ x :: post.filter fun x => !dead x := by
    rw [List.filter_append, List.filter_cons_of_pos (by simp [hlive])]
  rw [hswept]
  refine ⟨_, findIdx?_append_cons (fun z hz => hpre z (List.mem_of_mem_filter hz)) hk, by simp,
    fun dead' hlater y => ?_⟩
  rw [List.set_append_right _ _ (Nat.le_refl _), List.set_append_right _ _ (Nat.le_refl _), Nat.sub_self, Nat.sub_self,
    List.set_cons_zero, List.set_cons_zero, List.filter_append, List.filter_append, List.filter_cons, List.filter_cons,
    filter_sweep_later hlater, filter_sweep_later hlater]

/-- A dead entry leaves no entry of its key in the swept list. -/
theorem locate_dead [BEq κ] [LawfulBEq κ] {k : κ} (h : Unshadowed key dead l)
    (hpos : l.findIdx? (fun x => key x == k) = some pos) (hx : l[pos]? = some x) (hdead : dead x = true) :
    (l.filter fun x => !dead x).findIdx? (fun x => key x == k) = none := by
  obtain ⟨pre, post, rfl, -, hk, hpre⟩ := exists_append_of_findIdx? hpos hx
  refine List.findIdx?_eq_none_iff.mpr fun z hz => ?_
  obtain ⟨hz, halive⟩ := List.mem_filter.mp hz
  rcases List.mem_append.mp hz with hz | hz
  · exact hpre z hz
  rcases List.mem_cons.mp hz with rfl | hz
  · rw [hdead] at halive
    cases halive
  · by_contra hzk
    have hshadow := (List.pairwise_cons.mp (List.pairwise_append.mp h).2.1).1 z hz
    rw [hshadow ((eq_of_beq hk).trans (eq_of_beq (by simpa using hzk)).symm) hdead] at halive
    cases halive

end Lib
