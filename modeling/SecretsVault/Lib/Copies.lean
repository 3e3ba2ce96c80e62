import Mathlib.Data.Set.Basic
import Mathlib.Logic.Relation

/-!
# A value in three copies

A value is worked on in memory, kept sealed beside it, and stored for the next process. A commit writes all three
copies; one that is cut short leaves the new value sealed and nowhere else. Opening brings the sealed copy into memory,
and a new process starts from the stored one. `Rights` says which of the changes may happen, and with which values.

- `Changes.all`: what holds of every value that is committed, and is kept by every edit, holds of every copy.
- `Changes.above`: what is served is reached from what is stored, where every cut and every edit goes one way.
- `Nested items c`: nothing that is stored or sealed is usable that is not usable in memory. `Changes.nested` is its
  frame rule.
-/

namespace Lib

/-- The three copies of a value; there is none in memory while locked. -/
structure Copies (α : Type) where
  memory : Option α
  «sealed» : α
  stored : α

namespace Copies

variable {α β : Type}

/-- Which changes may happen. -/
structure Rights (α : Type) where
  /-- The values that may be committed. -/
  commits : α → Prop
  /-- The commits, of the second value while the first is in memory, that may end between the sealed and the stored
  copy. -/
  cuts : α → α → Prop
  /-- What may become of the value in memory alone. -/
  edits : α → α → Prop
  /-- The value in memory may be sealed and stored as it is. -/
  flushes : Prop
  /-- The sealed copy may be opened. -/
  opens : Prop
  /-- The copy in memory may be dropped. -/
  locks : Prop

/-- One change. -/
inductive Change (p : Rights α) : Copies α → Copies α → Prop
  | commit {c : Copies α} {d : α} (hd : p.commits d) : Change p c ⟨some d, d, d⟩
  | cut {c : Copies α} {m d : α} (hm : c.memory = some m) (hd : p.commits d) (hc : p.cuts m d) :
      Change p c ⟨c.memory, d, c.stored⟩
  | edit {c : Copies α} {m m' : α} (hm : c.memory = some m) (he : p.edits m m') :
      Change p c ⟨some m', c.sealed, c.stored⟩
  | reseal {c : Copies α} {m : α} (hf : p.flushes) (hm : c.memory = some m) : Change p c ⟨c.memory, m, c.stored⟩
  | flush {c : Copies α} {m : α} (hf : p.flushes) (hm : c.memory = some m) : Change p c ⟨c.memory, m, m⟩
  | unlock {c : Copies α} (ho : p.opens) : Change p c ⟨some c.sealed, c.sealed, c.stored⟩
  | lock {c : Copies α} (hl : p.locks) : Change p c ⟨none, c.sealed, c.stored⟩

/-- A sequence of changes. -/
abbrev Changes (p : Rights α) : Copies α → Copies α → Prop := Relation.ReflTransGen (Change p)

/-- The copies of a process that starts from what is stored. -/
def reload (c : Copies α) : Copies α := ⟨none, c.stored, c.stored⟩

variable {p : Rights α} {c c' : Copies α}

/-! ## Properties of every copy -/

/-- The property holds of what a process serves: the copy in memory and the one it opens. -/
structure Served (P : α → Prop) (c : Copies α) : Prop where
  memory : ∀ m, c.memory = some m → P m
  «sealed» : P c.sealed

/-- The property holds of every copy. -/
structure All (P : α → Prop) (c : Copies α) : Prop extends Served P c where
  stored : P c.stored

variable {P : α → Prop}

theorem All.mono {Q : α → Prop} (h : All P c) (hPQ : ∀ d, P d → Q d) : All Q c :=
  ⟨⟨fun m hm => hPQ m (h.memory m hm), hPQ _ h.sealed⟩, hPQ _ h.stored⟩

theorem All.and {Q : α → Prop} (h : All P c) (h' : All Q c) : All (fun d => P d ∧ Q d) c :=
  ⟨⟨fun m hm => ⟨h.memory m hm, h'.memory m hm⟩, h.sealed, h'.sealed⟩, h.stored, h'.stored⟩

theorem All.reload (h : All P c) : All P c.reload := ⟨⟨fun _ hm => (nomatch hm), h.stored⟩, h.stored⟩

theorem Change.served (h : Change p c c') (hcommit : ∀ d, p.commits d → P d)
    (hedit : ∀ m m', p.edits m m' → P m → P m') (hs : Served P c) : Served P c' := by
  cases h with
  | commit hd => exact ⟨fun _ hm => by cases hm; exact hcommit _ hd, hcommit _ hd⟩
  | cut _ hd _ => exact ⟨hs.memory, hcommit _ hd⟩
  | edit hm he => exact ⟨fun _ hm' => by cases hm'; exact hedit _ _ he (hs.memory _ hm), hs.sealed⟩
  | reseal _ hm => exact ⟨hs.memory, hs.memory _ hm⟩
  | flush _ hm => exact ⟨hs.memory, hs.memory _ hm⟩
  | unlock _ => exact ⟨fun _ hm => by cases hm; exact hs.sealed, hs.sealed⟩
  | lock _ => exact ⟨fun _ hm => (nomatch hm), hs.sealed⟩

theorem Change.all (h : Change p c c') (hcommit : ∀ d, p.commits d → P d) (hedit : ∀ m m', p.edits m m' → P m → P m')
    (hall : All P c) : All P c' := by
  refine ⟨h.served hcommit hedit hall.toServed, ?_⟩
  cases h with
  | commit hd => exact hcommit _ hd
  | flush _ hm => exact hall.memory _ hm
  | _ => exact hall.stored

/-- What holds of all that is committed, and is kept by every edit, holds of every copy. -/
theorem Changes.all (h : Changes p c c') (hcommit : ∀ d, p.commits d → P d)
    (hedit : ∀ m m', p.edits m m' → P m → P m') (hall : All P c) : All P c' := by
  induction h with
  | refl => exact hall
  | tail _ h ih => exact h.all hcommit hedit ih

/-! ## What only moves one way -/

/-- Every cut and every edit moves along the relation: so does what is served, from what is stored. -/
theorem Change.above {R : α → α → Prop} [IsPreorder α R] (h : Change p c c') (hcut : ∀ m d, p.cuts m d → R m d)
    (hedit : ∀ m m', p.edits m m' → R m m') (hs : Served (R c.stored) c) : Served (R c'.stored) c' := by
  have single : ∀ d : α, Served (R d) ⟨some d, d, d⟩ := fun d => ⟨fun _ hm => by cases hm; exact refl d, refl d⟩
  cases h with
  | commit _ => exact single _
  | cut hm _ hc => exact ⟨hs.memory, Trans.trans (hs.memory _ hm) (hcut _ _ hc)⟩
  | edit hm he => exact ⟨fun _ hm' => by cases hm'; exact Trans.trans (hs.memory _ hm) (hedit _ _ he), hs.sealed⟩
  | reseal _ hm => exact ⟨hs.memory, hs.memory _ hm⟩
  | flush _ hm => exact ⟨fun _ hm' => by rw [hm] at hm'; cases hm'; exact refl _, refl _⟩
  | unlock _ => exact ⟨fun _ hm => by cases hm; exact hs.sealed, hs.sealed⟩
  | lock _ => exact ⟨fun _ hm => (nomatch hm), hs.sealed⟩

theorem Changes.above {R : α → α → Prop} [IsPreorder α R] (h : Changes p c c') (hcut : ∀ m d, p.cuts m d → R m d)
    (hedit : ∀ m m', p.edits m m' → R m m') (hs : Served (R c.stored) c) : Served (R c'.stored) c' := by
  induction h with
  | refl => exact hs
  | tail _ h ih => exact h.above hcut hedit ih

/-! ## What is usable -/

variable {items : α → Set β}

/-- What is usable in the stored copy is usable in the sealed one, and what is usable there is usable in memory. -/
structure Nested (items : α → Set β) (c : Copies α) : Prop where
  stored : items c.stored ⊆ items c.sealed
  memory : ∀ m, c.memory = some m → items c.sealed ⊆ items m

/-- What is usable in any copy is usable in memory, if there is something in memory. -/
theorem Nested.all (h : Nested items c) : All (fun d => ∀ m, c.memory = some m → items d ⊆ items m) c :=
  ⟨⟨fun m hm m' hm' => by rw [hm] at hm'; cases hm'; exact le_refl _, h.memory⟩,
    fun m hm => h.stored.trans (h.memory m hm)⟩

/-- Nothing is usable in any copy. -/
theorem nested_of_dead (h : All (fun d => items d = ∅) c) : Nested items c :=
  ⟨by rw [h.stored]; exact Set.empty_subset _, fun m _ => by rw [h.sealed]; exact Set.empty_subset _⟩

theorem nested_reload : Nested items c.reload := ⟨le_refl _, fun _ hm => (nomatch hm)⟩

theorem Change.nested (h : Change p c c') (hcuts : ∀ m d, ¬p.cuts m d)
    (hedit : ∀ m m', p.edits m m' → items m ⊆ items m') (hs : Nested items c) : Nested items c' := by
  cases h with
  | commit _ => exact ⟨le_refl _, fun _ hm => by cases hm; exact le_refl _⟩
  | cut _ _ hc => exact (hcuts _ _ hc).elim
  | edit hm he => exact ⟨hs.stored, fun _ hm' => by cases hm'; exact (hs.memory _ hm).trans (hedit _ _ he)⟩
  | @reseal m _ hm =>
    refine ⟨hs.stored.trans (hs.memory m hm), fun x hx => ?_⟩
    obtain rfl : m = x := by simpa [hm] using hx
    exact le_refl _
  | @flush m _ hm =>
    refine ⟨le_refl _, fun x hx => ?_⟩
    obtain rfl : m = x := by simpa [hm] using hx
    exact le_refl _
  | unlock _ => exact ⟨hs.stored, fun _ hm => by cases hm; exact le_refl _⟩
  | lock _ => exact ⟨hs.stored, fun _ hm => (nomatch hm)⟩

/-- Where no commit is cut, nested copies stay nested. -/
theorem Changes.nested (h : Changes p c c') (hcuts : ∀ m d, ¬p.cuts m d)
    (hedit : ∀ m m', p.edits m m' → items m ⊆ items m') (hs : Nested items c) : Nested items c' := by
  induction h with
  | refl => exact hs
  | tail _ h ih => exact h.nested hcuts hedit ih

/-! ## Locking -/

theorem Change.unlocked (h : Change p c c') (hlocks : ¬p.locks) (hm : c.memory ≠ none) : c'.memory ≠ none := by
  cases h with
  | lock hl => exact (hlocks hl).elim
  | cut => exact hm
  | reseal => exact hm
  | flush => exact hm
  | _ => exact Option.some_ne_none _

/-- Where nothing is locked, what is open stays open. -/
theorem Changes.unlocked (h : Changes p c c') (hlocks : ¬p.locks) (hm : c.memory ≠ none) : c'.memory ≠ none := by
  induction h with
  | refl => exact hm
  | tail _ h ih => exact h.unlocked hlocks ih

end Copies

end Lib
