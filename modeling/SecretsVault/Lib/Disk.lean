import SecretsVault.Lib.Text
import Mathlib.Logic.Function.Basic

/-!
# A disk that may lose power

Files have numbers, and a directory gives them names. Writes and changes of the directory are seen at once and reach the
medium later: a file when it is synced, the directory when it is. `Disk.PowerLoss` is what a loss of power leaves: the
directory as it was at some point since its last sync, and any content of a file that was not synced.

- `survives_iff`: what may be read under a name after a loss of power.
- `PowerLoss.survives`: what has survived once is on the medium.
- `Aside d₀ d t`: work on new files under one new name. `Aside.read`, `Aside.survives`: the other names do not notice.
- `Swapped d₀ d p t b`: a new file with the content `b`, synced, has replaced the one under `p`. `Swapped.survives`:
  after a loss of power it is the old one or the new one, whole.
- `Guarded d p t C`: the file under `p` is whole, and `t`, under which a new one is made, names another.
  `Guarded.rename`, …: so it stays, though the name `t` is used again and again.
-/

namespace Lib

/-- A file. -/
structure Inode where
  data : Bytes
  synced : Bool
  deriving DecidableEq, Repr

/-- A disk, with names in `π`. -/
structure Disk (π : Type) where
  inodes : Nat → Option Inode
  names : π → Option Nat
  /-- What the directory was since its last sync. -/
  earlier : List (π → Option Nat)
  /-- No file has this number or a greater one. -/
  next : Nat

namespace Disk

variable {π : Type} {d d₀ d' : Disk π} {p q t : π} {x : Option Bytes} {b : Bytes} {i : Nat}

/-- What is read under a name. -/
def read (d : Disk π) (p : π) : Option Bytes := ((d.names p).bind d.inodes).map Inode.data

/-- What the directory may be after a loss of power. -/
def Version (d : Disk π) (v : π → Option Nat) : Prop := v = d.names ∨ v ∈ d.earlier

/-- Names are of files. -/
def Valid (d : Disk π) : Prop := ∀ v, d.Version v → ∀ p i, v p = some i → i < d.next

/-- Power is lost, and comes back. -/
structure PowerLoss (d d' : Disk π) : Prop where
  names : d.Version d'.names
  earlier : d'.earlier = []
  files : ∀ i, (d'.inodes i).isSome = (d.inodes i).isSome
  contents : ∀ i n n', d.inodes i = some n → d'.inodes i = some n' → n'.synced = true ∧
    (n.synced = true → n'.data = n.data)
  next : d'.next = d.next

/-- What may be read under a name after a loss of power. -/
def Survives (d : Disk π) (p : π) (x : Option Bytes) : Prop := ∃ d', d.PowerLoss d' ∧ d'.read p = x

/-- What may be read of a file after a loss of power. -/
def Holds (d : Disk π) (i : Option Nat) (x : Option Bytes) : Prop :=
  x.isSome = (i.bind d.inodes).isSome ∧ ∀ n b, i.bind d.inodes = some n → x = some b → n.synced = true → b = n.data

theorem survives_iff : d.Survives p x ↔ ∃ v, d.Version v ∧ d.Holds (v p) x := by
  constructor
  · rintro ⟨d', h, rfl⟩
    refine ⟨d'.names, h.names, ?_, fun n b hn hb hs => ?_⟩
    · rw [read, Option.isSome_map]
      cases d'.names p with
      | none => rfl
      | some i => exact h.files i
    · obtain ⟨n', hn', rfl⟩ := Option.map_eq_some_iff.mp hb
      obtain ⟨i, hi, hd⟩ := Option.bind_eq_some_iff.mp hn
      rw [hi] at hn'
      exact (h.contents i n n' hd hn').2 hs
  · rintro ⟨v, hv, hx⟩
    let inodes : Nat → Option Inode := fun j =>
      if v p = some j then x.map fun b => ⟨b, true⟩ else (d.inodes j).map fun n => { n with synced := true }
    have hfile : ∀ j, v p = some j → inodes j = x.map fun b => ⟨b, true⟩ := fun j hj => if_pos hj
    have hother : ∀ j, v p ≠ some j → inodes j = (d.inodes j).map fun n => { n with synced := true } :=
      fun j hj => if_neg hj
    refine ⟨⟨inodes, v, [], d.next⟩, ⟨hv, rfl, fun j => ?_, fun j n n' hn hn' => ?_, rfl⟩, ?_⟩
    · by_cases hj : v p = some j
      · have hsome := hx.1
        rw [hj] at hsome
        dsimp only
        rw [hfile j hj, Option.isSome_map]
        exact hsome
      · dsimp only
        rw [hother j hj, Option.isSome_map]
    · dsimp only at hn'
      by_cases hj : v p = some j
      · rw [hfile j hj, Option.map_eq_some_iff] at hn'
        obtain ⟨b, hb, rfl⟩ := hn'
        exact ⟨rfl, hx.2 n b (by rw [hj]; exact hn) hb⟩
      · rw [hother j hj, hn] at hn'
        cases hn'
        exact ⟨rfl, fun _ => rfl⟩
    · rw [read]
      dsimp only
      cases hj : v p with
      | none =>
        have hsome := hx.1
        rw [hj] at hsome
        exact (Option.isNone_iff_eq_none.mp (by simpa using hsome)).symm
      | some j =>
        rw [Option.bind_some, hfile j hj, Option.map_map]
        cases x <;> rfl

/-- Everything has reached the medium. -/
def settled (d : Disk π) : Disk π :=
  { d with inodes := fun i => (d.inodes i).map fun n => { n with synced := true }, earlier := [] }

/-- It may be that nothing is lost. -/
theorem powerLoss_settled (d : Disk π) : d.PowerLoss d.settled := by
  refine ⟨Or.inl rfl, rfl, fun i => Option.isSome_map, fun i n n' hn hn' => ?_, rfl⟩
  rw [settled] at hn'
  dsimp only at hn'
  rw [hn] at hn'
  cases hn'
  exact ⟨rfl, fun _ => rfl⟩

theorem read_settled (d : Disk π) (p : π) : d.settled.read p = d.read p := by
  rw [read, read, settled]
  dsimp only
  cases d.names p with
  | none => rfl
  | some i =>
    rw [Option.bind_some, Option.bind_some, Option.map_map]
    rfl

/-- What is read may be what is left. -/
theorem survives_read (d : Disk π) (p : π) : d.Survives p (d.read p) :=
  ⟨d.settled, d.powerLoss_settled, d.read_settled p⟩

/-- Where the directory and the file have reached the medium, nothing else is left. -/
theorem survives_synced {n : Inode} (hd : d.earlier = []) (hn : (d.names p).bind d.inodes = some n)
    (hs : n.synced = true) (hx : d.Survives p x) : x = some n.data := by
  obtain ⟨v, hv, hx⟩ := survives_iff.mp hx
  rw [Version, hd] at hv
  obtain rfl : v = d.names := hv.resolve_right (List.not_mem_nil)
  obtain ⟨b, rfl⟩ := Option.isSome_iff_exists.mp (hx.1.trans (by rw [hn]; rfl))
  rw [hx.2 n b hn rfl hs]

/-- What has survived once is on the medium. -/
theorem PowerLoss.survives (h : d.PowerLoss d') (hx : d'.Survives p x) : d.Survives p x := by
  obtain ⟨v, hv, hx⟩ := survives_iff.mp hx
  rw [Version, h.earlier] at hv
  rcases hv with rfl | hv
  · refine ⟨d', h, ?_⟩
    rw [read]
    cases hp : (d'.names p).bind d'.inodes with
    | none =>
      have hnone := hx.1
      rw [hp] at hnone
      exact (Option.isNone_iff_eq_none.mp (by simpa using hnone)).symm
    | some n' =>
      obtain ⟨b, rfl⟩ := Option.isSome_iff_exists.mp (hx.1.trans (by rw [hp]; rfl))
      obtain ⟨i, -, hi⟩ := Option.bind_eq_some_iff.mp hp
      obtain ⟨n, hn⟩ := Option.isSome_iff_exists.mp ((h.files i).symm.trans (by rw [hi]; rfl))
      rw [hx.2 n' b hp rfl (h.contents i n n' hn hi).1]
      rfl
  · cases hv

theorem PowerLoss.valid (h : d.PowerLoss d') (hd : d.Valid) : d'.Valid := by
  rintro v (rfl | hv) q i hi
  · rw [h.next]
    exact hd _ h.names q i hi
  · rw [h.earlier] at hv
    cases hv

/-! ## Calls -/

variable [DecidableEq π]

/-- Another version of the directory. -/
def rewrite (d : Disk π) (v : π → Option Nat) : Disk π := { d with names := v, earlier := d.names :: d.earlier }

/-- A new empty file. -/
def create (d : Disk π) (t : π) : Disk π :=
  { d.rewrite (Function.update d.names t (some d.next)) with
    inodes := Function.update d.inodes d.next (some ⟨[], false⟩), next := d.next + 1 }

/-- Append to a file. -/
def write (d : Disk π) (i : Nat) (b : Bytes) : Disk π :=
  { d with inodes := fun j => if j = i then (d.inodes j).map fun n => ⟨n.data ++ b, false⟩ else d.inodes j }

/-- Empty a file. -/
def truncate (d : Disk π) (i : Nat) : Disk π := { d with inodes := Function.update d.inodes i (some ⟨[], false⟩) }

def sync (d : Disk π) (i : Nat) : Disk π :=
  { d with inodes := fun j => if j = i then (d.inodes j).map fun n => { n with synced := true } else d.inodes j }

/-- Give the file of one name another name, in place of the file that has it. -/
def rename (d : Disk π) (t p : π) : Disk π :=
  d.rewrite (Function.update (Function.update d.names t none) p (d.names t))

def remove (d : Disk π) (t : π) : Disk π := d.rewrite (Function.update d.names t none)

def syncDir (d : Disk π) : Disk π := { d with earlier := [] }

omit [DecidableEq π] in
theorem version_rewrite {v v' : π → Option Nat} : (d.rewrite v).Version v' ↔ v' = v ∨ d.Version v' := by
  simp [Version, rewrite]

/-! ### Names are of files -/

omit [DecidableEq π] in
theorem Valid.rewrite (h : d.Valid) {v : π → Option Nat} (hv : ∀ p i, v p = some i → i < d.next) :
    (d.rewrite v).Valid := by
  intro v' hv' p i hi
  rcases version_rewrite.mp hv' with rfl | hv'
  · exact hv p i hi
  · exact h v' hv' p i hi

theorem Valid.create (h : d.Valid) (t : π) : (d.create t).Valid := by
  have hold : ∀ v, d.Version v → ∀ p i, v p = some i → i < d.next + 1 :=
    fun v hv p i hi => Nat.lt_succ_of_lt (h v hv p i hi)
  intro v hv p i hi
  rcases hv with rfl | hv
  · by_cases hp : p = t
    · subst hp
      cases (Function.update_self p _ _).symm.trans hi
      exact Nat.lt_succ_self _
    · exact hold _ (Or.inl rfl) p i ((Function.update_of_ne hp _ _).symm.trans hi)
  · rcases List.mem_cons.mp hv with rfl | hv
    · exact hold _ (Or.inl rfl) p i hi
    · exact hold v (Or.inr hv) p i hi

theorem Valid.remove (h : d.Valid) (t : π) : (d.remove t).Valid := h.rewrite fun p i hi => by
  by_cases hp : p = t
  · subst hp
    cases (Function.update_self p _ _).symm.trans hi
  · exact h _ (Or.inl rfl) p i ((Function.update_of_ne hp _ _).symm.trans hi)

theorem Valid.rename (h : d.Valid) (t p : π) : (d.rename t p).Valid := h.rewrite fun q i hi => by
  by_cases hq : q = p
  · subst hq
    exact h _ (Or.inl rfl) t i ((Function.update_self q _ _).symm.trans hi)
  · have hi := (Function.update_of_ne hq _ _).symm.trans hi
    by_cases ht : q = t
    · subst ht
      cases (Function.update_self q _ _).symm.trans hi
    · exact h _ (Or.inl rfl) q i ((Function.update_of_ne ht _ _).symm.trans hi)

omit [DecidableEq π] in
theorem Valid.syncDir (h : d.Valid) : d.syncDir.Valid := by
  rintro v (rfl | hv) p i hi
  · exact h _ (Or.inl rfl) p i hi
  · cases hv

/-! ## Work under a new name -/

/-- Only new files were worked on, and only one name was given and taken. -/
structure Aside (d₀ d : Disk π) (t : π) : Prop where
  names : ∀ q, q ≠ t → d.names q = d₀.names q
  versions : ∀ v', d.Version v' → ∃ v, d₀.Version v ∧ ∀ q, q ≠ t → v' q = v q
  inodes : ∀ j, j < d₀.next → d.inodes j = d₀.inodes j
  next : d₀.next ≤ d.next

omit [DecidableEq π] in
theorem Aside.refl (d : Disk π) (t : π) : d.Aside d t := ⟨fun _ _ => rfl, fun v h => ⟨v, h, fun _ _ => rfl⟩,
  fun _ _ => rfl, Nat.le_refl _⟩

omit [DecidableEq π] in
/-- The directory has another version. -/
theorem Aside.rewrite (h : d₀.Aside d t) {v : π → Option Nat} (hv : ∀ q, q ≠ t → v q = d.names q) :
    d₀.Aside (d.rewrite v) t := by
  have hnames : ∀ q, q ≠ t → v q = d₀.names q := fun q hq => (hv q hq).trans (h.names q hq)
  refine ⟨hnames, fun v' hv' => ?_, h.inodes, h.next⟩
  rcases version_rewrite.mp hv' with rfl | hv'
  · exact ⟨d₀.names, Or.inl rfl, hnames⟩
  · exact h.versions v' hv'

theorem Aside.create (h : d₀.Aside d t) : d₀.Aside (d.create t) t := by
  have hnew : d₀.Aside (d.rewrite (Function.update d.names t (some d.next))) t :=
    h.rewrite fun q hq => Function.update_of_ne hq _ _
  exact ⟨hnew.names, hnew.versions, fun j hj => (Function.update_of_ne (by have := h.next; omega) _ _).trans
    (h.inodes j hj), Nat.le_succ_of_le h.next⟩

omit [DecidableEq π] in
theorem Aside.write (h : d₀.Aside d t) (hi : d₀.next ≤ i) (b : Bytes) : d₀.Aside (d.write i b) t :=
  ⟨h.names, h.versions, fun j hj => (if_neg (by omega)).trans (h.inodes j hj), h.next⟩

omit [DecidableEq π] in
theorem Aside.sync (h : d₀.Aside d t) (hi : d₀.next ≤ i) : d₀.Aside (d.sync i) t :=
  ⟨h.names, h.versions, fun j hj => (if_neg (by omega)).trans (h.inodes j hj), h.next⟩

theorem Aside.remove (h : d₀.Aside d t) : d₀.Aside (d.remove t) t := h.rewrite fun _ hq => Function.update_of_ne hq _ _

omit [DecidableEq π] in
/-- The file of an old name is the same. -/
theorem Valid.bind_inodes (h₀ : d₀.Valid) {v : π → Option Nat} (hv : d₀.Version v)
    (h : ∀ j, j < d₀.next → d.inodes j = d₀.inodes j) : (v q).bind d.inodes = (v q).bind d₀.inodes := by
  cases hq : v q with
  | none => rfl
  | some j => exact h j (h₀ v hv q j hq)

omit [DecidableEq π] in
theorem Aside.read (h : d₀.Aside d t) (h₀ : d₀.Valid) (hq : q ≠ t) : d.read q = d₀.read q := by
  rw [Disk.read, Disk.read, h.names q hq, h₀.bind_inodes (Or.inl rfl) h.inodes]

omit [DecidableEq π] in
theorem Aside.survives (h : d₀.Aside d t) (h₀ : d₀.Valid) (hq : q ≠ t) (hx : d.Survives q x) : d₀.Survives q x := by
  obtain ⟨v', hv', hx⟩ := survives_iff.mp hx
  obtain ⟨v, hv, heq⟩ := h.versions v' hv'
  rw [heq q hq] at hx
  refine survives_iff.mpr ⟨v, hv, ?_⟩
  rwa [Holds, h₀.bind_inodes hv h.inodes] at hx

/-! ## A replacement -/

/-- A new file has replaced the one under a name. -/
structure Swapped (d₀ d : Disk π) (p t : π) (b : Bytes) : Prop where
  file : ∃ i, d.names p = some i ∧ d.inodes i = some ⟨b, true⟩
  gone : d.names t = none
  names : ∀ q, q ≠ p → q ≠ t → d.names q = d₀.names q
  versions : ∀ v', d.Version v' → (∃ v, d₀.Version v ∧ ∀ q, q ≠ t → v' q = v q) ∨
    v' p = d.names p ∧ ∀ q, q ≠ p → q ≠ t → v' q = d₀.names q
  inodes : ∀ j, j < d₀.next → d.inodes j = d₀.inodes j

/-- A synced file takes the name. -/
theorem Aside.swap (h : d₀.Aside d t) (hp : p ≠ t) (ht : d.names t = some i) (hi : d.inodes i = some ⟨b, true⟩) :
    d₀.Swapped (d.rename t p) p t b := by
  have hfile : (d.rename t p).names p = some i := (Function.update_self p _ _).trans ht
  have hnames : ∀ q, q ≠ p → q ≠ t → (d.rename t p).names q = d₀.names q := fun q hq hq' => by
    rw [← h.names q hq']
    exact (Function.update_of_ne hq _ _).trans (Function.update_of_ne hq' _ _)
  have hgone : (d.rename t p).names t = none :=
    (Function.update_of_ne hp.symm _ _).trans (Function.update_self t _ _)
  refine ⟨⟨i, hfile, hi⟩, hgone, hnames, fun v' hv' => ?_, h.inodes⟩
  rcases version_rewrite.mp hv' with rfl | hv'
  · exact Or.inr ⟨rfl, hnames⟩
  · exact Or.inl (h.versions v' hv')

omit [DecidableEq π] in
theorem Swapped.syncDir (h : d₀.Swapped d p t b) : d₀.Swapped d.syncDir p t b := by
  refine ⟨h.file, h.gone, h.names, fun v' hv' => h.versions v' ?_, h.inodes⟩
  rcases hv' with rfl | hv'
  · exact Or.inl rfl
  · cases hv'

omit [DecidableEq π] in
theorem Swapped.read (h : d₀.Swapped d p t b) : d.read p = some b := by
  obtain ⟨i, hp, hi⟩ := h.file
  rw [Disk.read, hp, Option.bind_some, hi]
  rfl

omit [DecidableEq π] in
theorem Swapped.read_other (h : d₀.Swapped d p t b) (h₀ : d₀.Valid) (hp : q ≠ p) (ht : q ≠ t) :
    d.read q = d₀.read q := by
  rw [Disk.read, Disk.read, h.names q hp ht, h₀.bind_inodes (Or.inl rfl) h.inodes]

omit [DecidableEq π] in
/-- The new file is synced, so it is whole if it is there. -/
theorem Swapped.holds (h : d₀.Swapped d p t b) (hx : d.Holds (d.names p) x) : x = some b := by
  obtain ⟨i, hp, hi⟩ := h.file
  rw [hp, Holds, Option.bind_some, hi] at hx
  obtain ⟨c, rfl⟩ := Option.isSome_iff_exists.mp hx.1
  rw [hx.2 _ c rfl rfl rfl]

omit [DecidableEq π] in
/-- **After a loss of power the old content is there, or the new one.** -/
theorem Swapped.survives (h : d₀.Swapped d p t b) (h₀ : d₀.Valid) (hp : p ≠ t) (hx : d.Survives p x) :
    d₀.Survives p x ∨ x = some b := by
  obtain ⟨v', hv', hx⟩ := survives_iff.mp hx
  rcases h.versions v' hv' with ⟨v, hv, heq⟩ | ⟨heq, -⟩
  · rw [heq p hp, Holds, h₀.bind_inodes hv h.inodes] at hx
    exact Or.inl (survives_iff.mpr ⟨v, hv, hx⟩)
  · rw [heq] at hx
    exact Or.inr (h.holds hx)

omit [DecidableEq π] in
theorem Swapped.survives_other (h : d₀.Swapped d p t b) (h₀ : d₀.Valid) (hp : q ≠ p) (ht : q ≠ t)
    (hx : d.Survives q x) : d₀.Survives q x := by
  obtain ⟨v', hv', hx⟩ := survives_iff.mp hx
  have hversion : ∃ v, d₀.Version v ∧ v' q = v q := by
    rcases h.versions v' hv' with ⟨v, hv, heq⟩ | ⟨-, heq⟩
    · exact ⟨v, hv, heq q ht⟩
    · exact ⟨d₀.names, Or.inl rfl, heq q hp ht⟩
  obtain ⟨v, hv, heq⟩ := hversion
  rw [heq, Holds, h₀.bind_inodes hv h.inodes] at hx
  exact survives_iff.mpr ⟨v, hv, hx⟩

/-! ## One name for every new file -/

/-- Whatever the directory is after a loss of power: under `p` there is a whole file with one of the contents `C`, or
none, and the file under `t` is another. -/
structure Guarded (d : Disk π) (p t : π) (C : Bytes → Prop) : Prop where
  valid : d.Valid
  whole : ∀ v, d.Version v → ∀ i, v p = some i → ∃ b, d.inodes i = some ⟨b, true⟩ ∧ C b
  apart : ∀ v, d.Version v → ∀ i, v t = some i → v p ≠ some i
  free : ∀ v, d.Version v → ∀ i, d.names t = some i → v p ≠ some i

section Guarded
variable {C : Bytes → Prop}

omit [DecidableEq π] in
theorem Guarded.mono {C' : Bytes → Prop} (h : d.Guarded p t C) (hC : ∀ b, C b → C' b) : d.Guarded p t C' := by
  refine ⟨h.valid, fun v hv i hi => ?_, h.apart, h.free⟩
  obtain ⟨b, hb, hc⟩ := h.whole v hv i hi
  exact ⟨b, hb, hC b hc⟩

omit [DecidableEq π] in
/-- There is neither file yet. -/
theorem guarded_fresh (hd : d.Valid) (h : ∀ v, d.Version v → v p = none ∧ v t = none) : d.Guarded p t C := by
  refine ⟨hd, fun v hv i hi => ?_, fun v hv i hi => ?_, fun v hv i _ hi => ?_⟩
  · rw [(h v hv).1] at hi
    cases hi
  · rw [(h v hv).2] at hi
    cases hi
  · rw [(h v hv).1] at hi
    cases hi

omit [DecidableEq π] in
/-- Work on the file under `t`. -/
theorem Guarded.inodes (h : d.Guarded p t C) (ht : d.names t = some i) {f : Nat → Option Inode}
    (hf : ∀ j, j ≠ i → f j = d.inodes j) : { d with inodes := f }.Guarded p t C := by
  refine ⟨h.valid, fun v hv j hj => ?_, h.apart, h.free⟩
  obtain ⟨b, hb, hc⟩ := h.whole v hv j hj
  refine ⟨b, (hf j ?_).trans hb, hc⟩
  rintro rfl
  exact h.free v hv j ht hj

omit [DecidableEq π] in
theorem Guarded.write (h : d.Guarded p t C) (ht : d.names t = some i) (b : Bytes) : (d.write i b).Guarded p t C :=
  h.inodes ht fun _ hj => if_neg hj

omit [DecidableEq π] in
theorem Guarded.truncate (h : d.Guarded p t C) (ht : d.names t = some i) : (d.truncate i).Guarded p t C :=
  h.inodes ht fun _ hj => Function.update_of_ne hj _ _

omit [DecidableEq π] in
theorem Guarded.sync (h : d.Guarded p t C) (ht : d.names t = some i) : (d.sync i).Guarded p t C :=
  h.inodes ht fun _ hj => if_neg hj

theorem Guarded.create (h : d.Guarded p t C) (hp : p ≠ t) : (d.create t).Guarded p t C := by
  have hnames : (d.create t).names p = d.names p := Function.update_of_ne hp _ _
  have hold : ∀ v, d.Version v → ∀ i, v p = some i → i ≠ d.next := by
    rintro v hv i hi rfl
    exact absurd (h.valid v hv p _ hi) (Nat.lt_irrefl _)
  have hversion : ∀ v, (d.create t).Version v → ∃ v', d.Version v' ∧ v p = v' p ∧ (v t = v' t ∨ v t = some d.next) := by
    intro v hv
    rcases version_rewrite.mp hv with rfl | hv
    · exact ⟨d.names, Or.inl rfl, hnames, Or.inr (Function.update_self t _ _)⟩
    · exact ⟨v, hv, rfl, Or.inl rfl⟩
  refine ⟨h.valid.create t, fun v hv i hi => ?_, fun v hv i ht hi => ?_, fun v hv i ht hi => ?_⟩
  · obtain ⟨v', hv', hp', -⟩ := hversion v hv
    rw [hp'] at hi
    obtain ⟨b, hb, hc⟩ := h.whole v' hv' i hi
    exact ⟨b, (Function.update_of_ne (hold v' hv' i hi) _ _).trans hb, hc⟩
  · obtain ⟨v', hv', hp', ht'⟩ := hversion v hv
    rw [hp'] at hi
    rcases ht' with ht' | ht'
    · exact h.apart v' hv' i (ht'.symm.trans ht) hi
    · cases ht'.symm.trans ht
      exact hold v' hv' _ hi rfl
  · obtain ⟨v', hv', hp', -⟩ := hversion v hv
    rw [hp'] at hi
    cases (Function.update_self t _ _).symm.trans ht
    exact hold v' hv' _ hi rfl

/-- A synced file takes the name. -/
theorem Guarded.rename (h : d.Guarded p t C) (hp : p ≠ t) (ht : d.names t = some i) (hi : d.inodes i = some ⟨b, true⟩)
    (hb : C b) : (d.rename t p).Guarded p t C := by
  have hfile : (d.rename t p).names p = some i := (Function.update_self p _ _).trans ht
  have hgone : (d.rename t p).names t = none := (Function.update_of_ne hp.symm _ _).trans (Function.update_self t _ _)
  refine ⟨h.valid.rename t p, fun v hv j hj => ?_, fun v hv j htj hj => ?_, fun v hv j htj => ?_⟩
  · rcases version_rewrite.mp hv with rfl | hv
    · cases hfile.symm.trans hj
      exact ⟨b, hi, hb⟩
    · exact h.whole v hv j hj
  · rcases version_rewrite.mp hv with rfl | hv
    · cases hgone.symm.trans htj
    · exact h.apart v hv j htj hj
  · cases hgone.symm.trans htj

omit [DecidableEq π] in
theorem Guarded.powerLoss (h : d.Guarded p t C) (hd : d.PowerLoss d') : d'.Guarded p t C := by
  have hversion : ∀ v, d'.Version v → v = d'.names := by
    rintro v (rfl | hv)
    · rfl
    · rw [hd.earlier] at hv
      cases hv
  refine ⟨hd.valid h.valid, fun v hv i hi => ?_, fun v hv i ht => ?_, fun v hv i ht => ?_⟩
  · rw [hversion v hv] at hi
    obtain ⟨b, hb, hc⟩ := h.whole _ hd.names i hi
    obtain ⟨n', hn'⟩ := Option.isSome_iff_exists.mp ((hd.files i).trans (by rw [hb]; rfl))
    obtain ⟨hsynced, hdata⟩ := hd.contents i _ n' hb hn'
    obtain rfl : n' = ⟨b, true⟩ := by
      rw [← hsynced]
      exact congrArg (Inode.mk · n'.synced) (hdata rfl)
    exact ⟨b, hn', hc⟩
  · rw [hversion v hv] at ht ⊢
    exact h.apart _ hd.names i ht
  · rw [hversion v hv]
    exact h.apart _ hd.names i ht

omit [DecidableEq π] in
theorem Guarded.read (h : d.Guarded p t C) (hb : d.read p = some b) : C b := by
  obtain ⟨n, hn, rfl⟩ := Option.map_eq_some_iff.mp hb
  obtain ⟨i, hi, hn⟩ := Option.bind_eq_some_iff.mp hn
  obtain ⟨b, hb, hc⟩ := h.whole d.names (Or.inl rfl) i hi
  cases hb.symm.trans hn
  exact hc

end Guarded

end Disk

end Lib
