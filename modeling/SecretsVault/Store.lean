import SecretsVault.Crypto
import SecretsVault.Fs
import SecretsVault.Host
import SecretsVault.Lib.Disk
import SecretsVault.Reference

/-!
# Storing a file

`saveAtomic` writes a new file beside the old one, syncs it and renames it over the old one, one system call after
another. Every call may fail, and the process may be killed before any of them: `Machine.life` is how many calls it
still makes.

- `saveAtomic_ends`: where a save may end, killed or not.
- `save_survives`: whatever fails and whenever the process is killed or power is lost, the file is the old one or the
  new one.
- `save_refines`: what the rest of the development takes a save for is what it does.
-/

namespace SecretsVault

open Lib Lib.Prog

namespace Store

/-- Where a file is: the components of its path. -/
abbrev Place := List PathComponent

namespace Place

/-- The directory a path is in. -/
def parent (p : Place) : Option Place :=
  match p.getLast? with
  | some (.normal _) | some .curDir | some .parentDir => some p.dropLast
  | _ => none

def fileName (p : Place) : Option String := p.getLast?.bind PathComponent.name?

end Place

/-- What becomes of a write: it takes some of the bytes, is interrupted, or fails. -/
inductive WriteOutcome where
  | takes (n : Nat)
  | interrupted
  | stop (e : IoError)

/-- A process and its disk, with what its next system calls will meet. -/
structure Machine where
  disk : Disk Place
  /-- How many system calls the process makes before it is killed. -/
  life : Nat
  faults : Nat → Option IoError
  writes : Nat → WriteOutcome
  rng : Nat → Option (Nat → UInt8)

abbrev StoreProg (α : Type) := Prog VaultError Machine α

namespace Machine

/-- The next system call, unless the process is killed before it. -/
def syscall {α : Type} (call : Disk Place → Except IoError α × Disk Place) : StoreProg α := .step fun m =>
  match m.life with
  | 0 => (.panic, m)
  | life + 1 =>
    let rest := fun i => m.faults (i + 1)
    match m.faults 0 with
    | some e => (.error e.toVaultError, { m with life, faults := rest })
    | none => (.ofExcept ((call m.disk).1.mapError IoError.toVaultError),
        { m with disk := (call m.disk).2, life, faults := rest })

/-- Create a file that is not there yet. -/
def createNew (p : Place) : StoreProg Nat := syscall fun d =>
  match d.names p with
  | some _ => (.error ⟨some EEXIST, "File exists"⟩, d)
  | none => (.ok d.next, d.create p)

def fsync (f : Nat) : StoreProg Unit := syscall fun d => (.ok (), d.sync f)

def rename (p q : Place) : StoreProg Unit := syscall fun d => (.ok (), d.rename p q)

def removeFile (p : Place) : StoreProg Unit := syscall fun d => (.ok (), d.remove p)

def openDir : StoreProg Unit := syscall fun d => (.ok (), d)

def fsyncDir : StoreProg Unit := syscall fun d => (.ok (), d.syncDir)

/-- Write some bytes to a file; `none` where that is interrupted. -/
def write (f : Nat) (b : Bytes) : StoreProg (Option Nat) := .step fun m =>
  match m.life with
  | 0 => (.panic, m)
  | life + 1 =>
    let rest := fun i => m.writes (i + 1)
    match m.writes 0 with
    | .takes n => (.ok (some (min n b.length)), { m with disk := m.disk.write f (b.take n), life, writes := rest })
    | .interrupted => (.ok none, { m with life, writes := rest })
    | .stop e => (.error e.toVaultError, { m with life, writes := rest })

/-- Write all of the bytes, for as long as the process lives. -/
def writeAll (f : Nat) : Nat → Bytes → StoreProg Unit
  | _, [] => pure ()
  | 0, _ :: _ => .lift .panic
  | life + 1, b => do
    match ← write f b with
    | none => writeAll f life b
    | some n => if n = 0 then .fail (.io none "failed to write whole buffer") else writeAll f life (b.drop n)

def randomBytes (n : Nat) : StoreProg (FixedBytes n) := .step fun m =>
  (.ofOption (.io none "csprng failure") ((m.rng 0).map fun f => .ofFn fun i => f i),
   { m with rng := fun i => m.rng (i + 1) })

end Machine

open Machine

/-- A temporary file beside a file. -/
def tempPlace (dir : Place) (name : String) (tag : FixedBytes 16) : Place :=
  dir ++ [.normal ("." ++ name ++ ".tmp." ++ hex tag.1)]

/-- The error is that the file is there already. -/
def alreadyExists : VaultError → Bool
  | .io (some errno) _ => errno = EEXIST
  | _ => false

/-- Fill the temporary file and let it take the place; the directory is synced if it can be. -/
def fillAndRename (f : Nat) (tmp path : Place) (bytes : Bytes) : StoreProg Unit := do
  let m ← .get
  writeAll f m.life bytes
  fsync f
  rename tmp path
  (do openDir; fsyncDir : StoreProg Unit).ignore

/-- The same; a failure removes the temporary file. -/
def publish (f : Nat) (tmp path : Place) (bytes : Bytes) : StoreProg Unit := do
  match ← (fillAndRename f tmp path bytes).attempt with
  | .ok () => pure ()
  | .error e => do
    (removeFile tmp).ignore
    .fail e

/-- Some attempts at a temporary name that is free. -/
def saveWithin (path dir : Place) (name : String) (bytes : Bytes) : Nat → Option VaultError → StoreProg Unit
  | 0, last => .fail (last.getD (.io none "could not create a temporary file"))
  | n + 1, _ => do
    let tag ← randomBytes 16
    let tmp := tempPlace dir name tag
    match ← (createNew tmp).attempt with
    | .error e => if alreadyExists e then saveWithin path dir name bytes n (some e) else .fail e
    | .ok f => publish f tmp path bytes

/-- Replace a file, atomically. -/
def saveAtomic (path : Place) (bytes : Bytes) : StoreProg Unit := do
  let dir ← .lift (.ofOption (.io none "vault path has no parent") path.parent)
  let name ← .lift (.ofOption (.io none "vault path has no file name") path.fileName)
  saveWithin path dir name bytes 8 none

/-- Read a file. -/
def load (path : Place) : StoreProg Bytes := syscall fun d =>
  match d.read path with
  | some b => (.ok b, d)
  | none => (.error ⟨some ENOENT, "No such file or directory"⟩, d)

/-! ## Where a save may end -/

variable {α : Type} {m : Machine} {d₀ d : Disk Place} {t path dir : Place} {name : String} {bytes c : Bytes} {f : Nat}

/-- Errors are those of the operating system. -/
def OnlyIo (o : Outcome VaultError α) : Prop := ∀ e, o = .error e → ∃ io : IoError, e = io.toVaultError

theorem onlyIo_ok (a : α) : OnlyIo (.ok a) := fun e h => by cases h

theorem onlyIo_panic : OnlyIo (.panic : Outcome VaultError α) := fun e h => by cases h

theorem onlyIo_error (io : IoError) : OnlyIo (.error io.toVaultError : Outcome VaultError α) := fun e h => by
  cases h
  exact ⟨io, rfl⟩

theorem OnlyIo.error {β : Type} {e : VaultError} (h : OnlyIo (.error e : Outcome VaultError α)) :
    OnlyIo (.error e : Outcome VaultError β) := fun e' he => by
  cases he
  exact h e rfl

/-- A system call fails, or does what it does; or there is nobody left to make it. -/
theorem syscall_ends {call : Disk Place → Except IoError α × Disk Place} {Q : Outcome VaultError α → Disk Place → Prop}
    (hkilled : Q .panic m.disk) (hfault : ∀ e : IoError, Q (.error e.toVaultError) m.disk)
    (hcall : Q (.ofExcept ((call m.disk).1.mapError IoError.toVaultError)) (call m.disk).2) :
    Ends (syscall call) m fun o m' => Q o m'.disk := by
  rw [Ends, syscall, run_step]
  split
  · exact hkilled
  · dsimp only
    split
    · exact hfault _
    · exact hcall

/-- A new file is being worked on, under a name of its own. -/
structure Working (d₀ d : Disk Place) (t : Place) (f : Nat) (c : Bytes) : Prop where
  aside : d₀.Aside d t
  name : d.names t = some f
  new : d₀.next ≤ f
  valid : d.Valid
  contents : ∃ synced, d.inodes f = some ⟨c, synced⟩

theorem Working.write (h : Working d₀ d t f c) (b : Bytes) : Working d₀ (d.write f b) t f (c ++ b) := by
  obtain ⟨synced, hc⟩ := h.contents
  refine ⟨h.aside.write h.new b, h.name, h.new, h.valid, false, ?_⟩
  rw [Disk.write]
  dsimp only
  rw [if_pos rfl, hc, Option.map_some]

theorem Working.sync (h : Working d₀ d t f c) : Working d₀ (d.sync f) t f c ∧ (d.sync f).inodes f = some ⟨c, true⟩ := by
  obtain ⟨synced, hc⟩ := h.contents
  have hsynced : (d.sync f).inodes f = some ⟨c, true⟩ := by
    rw [Disk.sync]
    dsimp only
    rw [if_pos rfl, hc, Option.map_some]
  exact ⟨⟨h.aside.sync h.new, h.name, h.new, h.valid, true, hsynced⟩, hsynced⟩

/-- Part of the bytes are written, or none, or nobody is left to write them. -/
theorem write_ends {I : Bytes → Disk Place → Prop} (hI : ∀ c d b, I c d → I (c ++ b) (d.write f b)) {b : Bytes}
    (h : I c m.disk) :
    Ends (Machine.write f b) m fun o m' => (∃ c', I c' m'.disk) ∧ OnlyIo o ∧ (o = .ok none → I c m'.disk) ∧
      ∀ n, o = .ok (some n) → I (c ++ b.take n) m'.disk := by
  rw [Ends, Machine.write, run_step]
  split
  · exact ⟨⟨c, h⟩, onlyIo_panic, fun _ => h, fun n ho => (by cases ho)⟩
  dsimp only
  split
  · rename_i n _
    refine ⟨⟨_, hI _ _ _ h⟩, onlyIo_ok _, fun ho => (by cases ho), fun k ho => ?_⟩
    cases ho
    rw [← List.take_eq_take_min]
    exact hI c _ _ h
  · exact ⟨⟨c, h⟩, onlyIo_ok _, fun _ => h, fun n ho => (by cases ho)⟩
  · exact ⟨⟨c, h⟩, onlyIo_error _, fun _ => h, fun n ho => (by cases ho)⟩

/-- Writing goes on until all is written. -/
theorem writeAll_ends {I : Bytes → Disk Place → Prop} (hI : ∀ c d b, I c d → I (c ++ b) (d.write f b)) (life : Nat)
    {b : Bytes} (h : I c m.disk) :
    Ends (writeAll f life b) m fun o m' => (∃ c', I c' m'.disk) ∧ OnlyIo o ∧ (o = .ok () → I (c ++ b) m'.disk) := by
  induction life generalizing m c b with
  | zero =>
    cases b with
    | nil => exact ⟨⟨c, h⟩, onlyIo_ok _, fun _ => by rwa [List.append_nil]⟩
    | cons x b => exact ⟨⟨c, h⟩, onlyIo_panic, fun ho => by cases ho⟩
  | succ life ih =>
    cases b with
    | nil => exact ⟨⟨c, h⟩, onlyIo_ok _, fun _ => by rwa [List.append_nil]⟩
    | cons x b =>
      rw [writeAll]
      · refine (write_ends hI h).bind (fun r m' hr => ?_) (fun e m' hr => ⟨hr.1, hr.2.1.error, fun ho => by cases ho⟩)
          fun m' hr => ⟨hr.1, onlyIo_panic, fun ho => by cases ho⟩
        obtain ⟨-, -, hnone, hsome⟩ := hr
        cases r with
        | none => exact ih (hnone rfl)
        | some n =>
          dsimp only
          split
          · exact ⟨⟨_, hsome n rfl⟩, onlyIo_error ⟨none, "failed to write whole buffer"⟩, fun ho => by cases ho⟩
          · refine (ih (b := (x :: b).drop n) (hsome n rfl)).mono fun o m'' ho => ⟨ho.1, ho.2.1, fun hok => ?_⟩
            have hdone := ho.2.2 hok
            rwa [List.append_assoc, List.take_append_drop] at hdone
      · exact fun h => by cases h

/-- How a replacement may end: before the new file took the place, or after. -/
structure Replaces (d₀ d : Disk Place) (path t : Place) (bytes : Bytes) (o : Outcome VaultError Unit) : Prop where
  valid : d.Valid
  errors : OnlyIo o
  stage : d₀.Aside d t ∧ o ≠ .ok () ∨ d₀.Swapped d path t bytes ∧ ∀ e, o ≠ .error e

theorem Working.killed (h : Working d₀ d t f c) : Replaces d₀ d path t bytes .panic :=
  ⟨h.valid, onlyIo_panic, Or.inl ⟨h.aside, by simp⟩⟩

theorem Working.failed (h : Working d₀ d t f c) {e : VaultError} (he : OnlyIo (.error e : Outcome VaultError α)) :
    Replaces d₀ d path t bytes (.error e) := ⟨h.valid, he.error, Or.inl ⟨h.aside, by simp⟩⟩

/-- The directory is synced, or it is not. -/
theorem syncDir_ends (hv : m.disk.Valid) (h : d₀.Swapped m.disk path t bytes) :
    Ends (do openDir; fsyncDir : StoreProg Unit).ignore m fun o m' => Replaces d₀ m'.disk path t bytes o := by
  have hopen : Ends openDir m fun _ m' => m'.disk.Valid ∧ d₀.Swapped m'.disk path t bytes :=
    syscall_ends (Q := fun _ d => d.Valid ∧ d₀.Swapped d path t bytes) ⟨hv, h⟩ (fun _ => ⟨hv, h⟩) ⟨hv, h⟩
  have hsync : Ends (do openDir; fsyncDir : StoreProg Unit) m fun _ m' => m'.disk.Valid ∧
    d₀.Swapped m'.disk path t bytes := by
    refine hopen.bind (Q := fun _ m' => m'.disk.Valid ∧ d₀.Swapped m'.disk path t bytes) (fun _ m1 h1 => ?_)
      (fun _ _ h1 => h1) fun _ h1 => h1
    exact syscall_ends (Q := fun _ d => d.Valid ∧ d₀.Swapped d path t bytes) h1 (fun _ => h1)
      ⟨h1.1.syncDir, h1.2.syncDir⟩
  rw [Ends, run_ignore]
  rw [Ends] at hsync
  rcases hr : (do openDir; fsyncDir : StoreProg Unit).run m with ⟨_ | e | _, m'⟩ <;> rw [hr] at hsync
  · exact ⟨hsync.1, onlyIo_ok _, Or.inr ⟨hsync.2, fun e he => by cases he⟩⟩
  · exact ⟨hsync.1, onlyIo_ok _, Or.inr ⟨hsync.2, fun e he => by cases he⟩⟩
  · exact ⟨hsync.1, onlyIo_panic, Or.inr ⟨hsync.2, fun e he => by cases he⟩⟩

/-- Where the disk is when the file has been filled and renamed, or not. -/
theorem fillAndRename_ends (hp : path ≠ t) (h : Working d₀ m.disk t f []) :
    Ends (fillAndRename f t path bytes) m fun o m' => Replaces d₀ m'.disk path t bytes o := by
  have hfill := writeAll_ends (I := fun c d => Working d₀ d t f c) (fun c d b hc => hc.write b) m.life (b := bytes) h
  rw [Ends, fillAndRename, run_get_bind]
  refine hfill.bind (Q := fun o m' => Replaces d₀ m'.disk path t bytes o) (fun _ m1 h1 => ?_)
    (fun e m1 h1 => h1.1.choose_spec.failed h1.2.1) fun m1 h1 => h1.1.choose_spec.killed
  have h1 : Working d₀ m1.disk t f bytes := h1.2.2 rfl
  have hsync : Ends (fsync f) m1 fun o m2 => Working d₀ m2.disk t f bytes ∧ OnlyIo o ∧
      (o = .ok () → m2.disk.inodes f = some ⟨bytes, true⟩) :=
    syscall_ends (Q := fun o d => Working d₀ d t f bytes ∧ OnlyIo o ∧ (o = .ok () → d.inodes f = some ⟨bytes, true⟩))
      ⟨h1, onlyIo_panic, fun ho => by cases ho⟩ (fun e => ⟨h1, onlyIo_error e, fun ho => by cases ho⟩)
      ⟨h1.sync.1, onlyIo_ok _, fun _ => h1.sync.2⟩
  refine hsync.bind (fun _ m2 h2 => ?_) (fun e m2 h2 => h2.1.failed h2.2.1) fun m2 h2 => h2.1.killed
  obtain ⟨h2, -, hdata⟩ := h2
  have hswap : d₀.Swapped (m2.disk.rename t path) path t bytes := h2.aside.swap hp h2.name (hdata rfl)
  have hrename : Ends (rename t path) m2 fun o m3 => m3.disk.Valid ∧ (Replaces d₀ m3.disk path t bytes o) ∧
      (o = .ok () → d₀.Swapped m3.disk path t bytes) :=
    syscall_ends (Q := fun o d => d.Valid ∧ Replaces d₀ d path t bytes o ∧ (o = .ok () → d₀.Swapped d path t bytes))
      ⟨h2.valid, h2.killed, fun ho => by cases ho⟩
      (fun e => ⟨h2.valid, h2.failed (@onlyIo_error Unit e), fun ho => by cases ho⟩)
      ⟨h2.valid.rename _ _, ⟨h2.valid.rename _ _, onlyIo_ok _, Or.inr ⟨hswap, fun e he => by cases he⟩⟩, fun _ => hswap⟩
  refine hrename.bind (fun _ m3 h3 => ?_) (fun e m3 h3 => h3.2.1) fun m3 h3 => h3.2.1
  exact syncDir_ends h3.1 (h3.2.2 rfl)

/-- How a save may end: before a temporary file was there, or as a replacement through it. -/
inductive SaveEnds (d₀ d : Disk Place) (path dir : Place) (name : String) (bytes : Bytes)
    (o : Outcome VaultError Unit) : Prop
  | unchanged (hd : d = d₀) (hio : OnlyIo o) (ho : o ≠ .ok ())
  | replaces (tag : FixedBytes 16) (hfree : d₀.names (tempPlace dir name tag) = none)
      (h : Replaces d₀ d path (tempPlace dir name tag) bytes o)

/-- The temporary file is new, or nothing happens. -/
theorem createNew_ends (hv : m.disk.Valid) (t : Place) :
    Ends (createNew t) m fun o m' => ((o = .panic ∨ ∃ e, o = .error e) ∧ m'.disk = m.disk ∧ OnlyIo o) ∨
      m.disk.names t = none ∧ ∃ f, o = .ok f ∧ Working m.disk m'.disk t f [] := by
  refine syscall_ends (Q := fun o d => ((o = .panic ∨ ∃ e, o = .error e) ∧ d = m.disk ∧ OnlyIo o) ∨
    m.disk.names t = none ∧ ∃ f, o = .ok f ∧ Working m.disk d t f [])
    (Or.inl ⟨Or.inl rfl, rfl, onlyIo_panic⟩) (fun e => Or.inl ⟨Or.inr ⟨_, rfl⟩, rfl, onlyIo_error e⟩) ?_
  cases hfree : m.disk.names t with
  | some i => exact Or.inl ⟨Or.inr ⟨_, rfl⟩, rfl, onlyIo_error ⟨some EEXIST, "File exists"⟩⟩
  | none =>
    refine Or.inr ⟨rfl, m.disk.next, rfl, (Disk.Aside.refl _ _).create, ?_, Nat.le_refl _, hv.create _, false, ?_⟩
    · exact Function.update_self _ _ _
    · exact Function.update_self _ _ _

/-- A temporary file that was not renamed is removed, if it can be. -/
theorem removing_ends {e : VaultError} (h : Replaces d₀ m.disk path t bytes (.error e)) :
    Ends (do (removeFile t).ignore; .fail e : StoreProg Unit) m fun o m' => Replaces d₀ m'.disk path t bytes o := by
  have haside : d₀.Aside m.disk t := by
    rcases h.stage with ⟨haside, -⟩ | ⟨-, hne⟩
    · exact haside
    · exact absurd rfl (hne e)
  have hremove : Ends (removeFile t) m fun _ m' => m'.disk.Valid ∧ d₀.Aside m'.disk t :=
    syscall_ends (Q := fun _ d => d.Valid ∧ d₀.Aside d t) ⟨h.valid, haside⟩ (fun _ => ⟨h.valid, haside⟩)
      ⟨h.valid.remove t, haside.remove⟩
  rw [Ends, run_bind, run_ignore]
  rw [Ends] at hremove
  rcases hr : (removeFile t).run m with ⟨_ | e' | _, m'⟩ <;> rw [hr] at hremove
  · exact ⟨hremove.1, h.errors, Or.inl ⟨hremove.2, by simp⟩⟩
  · exact ⟨hremove.1, h.errors, Or.inl ⟨hremove.2, by simp⟩⟩
  · exact ⟨hremove.1, onlyIo_panic, Or.inl ⟨hremove.2, by simp⟩⟩

theorem publish_ends (hp : path ≠ t) (h : Working d₀ m.disk t f []) :
    Ends (publish f t path bytes) m fun o m' => Replaces d₀ m'.disk path t bytes o := by
  have hfill : Ends (fillAndRename f t path bytes) m _ := fillAndRename_ends hp h
  rw [Ends] at hfill ⊢
  rw [publish, run_bind, run_attempt]
  rcases hr : (fillAndRename f t path bytes).run m with ⟨_ | e | _, m'⟩ <;> rw [hr] at hfill
  · exact hfill
  · exact removing_ends hfill
  · exact hfill

theorem saveWithin_ends (hpath : ∀ tag, path ≠ tempPlace dir name tag) (hv : m.disk.Valid) (n : Nat)
    {last : Option VaultError} (hlast : ∀ e, last = some e → ∃ io : IoError, e = io.toVaultError) :
    Ends (saveWithin path dir name bytes n last) m fun o m' => SaveEnds m.disk m'.disk path dir name bytes o := by
  induction n generalizing m last with
  | zero =>
    refine .unchanged rfl (fun e he => ?_) fun h => by cases h
    cases he
    cases last with
    | none => exact ⟨⟨none, _⟩, rfl⟩
    | some e => exact hlast e rfl
  | succ n ih =>
    have hdraw : Ends (Machine.randomBytes 16) m fun o m' => m'.disk = m.disk ∧ OnlyIo o := by
      rw [Ends, Machine.randomBytes, run_step]
      refine ⟨rfl, ?_⟩
      cases m.rng 0 with
      | none => exact onlyIo_error ⟨none, "csprng failure"⟩
      | some f => exact onlyIo_ok _
    rw [saveWithin]
    refine hdraw.bind (fun tag m1 h1 => ?_) (fun e m1 h1 => .unchanged h1.1 h1.2.error (by simp)) fun m1 h1 =>
      .unchanged h1.1 onlyIo_panic (by simp)
    have hcreate := createNew_ends (m := m1) (by rw [h1.1]; exact hv) (tempPlace dir name tag)
    rw [h1.1] at hcreate
    dsimp only
    rw [Ends] at hcreate ⊢
    rw [run_bind, run_attempt]
    rcases hr : (createNew (tempPlace dir name tag)).run m1 with ⟨f | e | _, m2⟩ <;> rw [hr] at hcreate
    · rcases hcreate with ⟨hne | ⟨e, he⟩, -⟩ | ⟨hfree, f', hf, hw⟩
      · cases hne
      · cases he
      cases hf
      exact .replaces tag hfree (publish_ends (hpath tag) hw)
    · rcases hcreate with ⟨-, hd, hio⟩ | ⟨-, f, hf, -⟩
      · dsimp only
        split
        · have hlast : ∀ e', some e = some e' → ∃ io : IoError, e' = io.toVaultError := fun e' he => by
            cases he
            exact hio e rfl
          have hmore := ih (m := m2) (by rw [hd]; exact hv) hlast
          rwa [hd] at hmore
        · exact .unchanged hd hio.error (by simp)
      · cases hf
    · rcases hcreate with ⟨-, hd, hio⟩ | ⟨-, f, hf, -⟩
      · exact .unchanged hd onlyIo_panic (by simp)
      · cases hf

/-- A temporary name is none of the file. -/
theorem ne_tempPlace (hname : path.fileName = some name) (tag : FixedBytes 16) :
    path ≠ tempPlace dir name tag := by
  intro h
  have hlast : path.getLast? = some (.normal ("." ++ name ++ ".tmp." ++ hex tag.1)) := by
    rw [h, tempPlace, List.getLast?_append]
    rfl
  rw [Place.fileName, hlast, Option.bind_some, PathComponent.name?, Option.some.injEq] at hname
  have hlen := congrArg String.length hname
  simp only [String.length_append] at hlen
  have hdot : ".".length = 1 := rfl
  omega

theorem saveAtomic_ends (hv : m.disk.Valid) (path : Place) (bytes : Bytes) :
    Ends (saveAtomic path bytes) m fun o m' => ∃ dir name, (∀ tag, path ≠ tempPlace dir name tag) ∧
      SaveEnds m.disk m'.disk path dir name bytes o := by
  have hrefused : ∀ text : String, ∃ dir name, (∀ tag, path ≠ tempPlace dir name tag) ∧
      SaveEnds m.disk m.disk path dir name bytes (.error (.io none text)) := fun text =>
    ⟨path, "", fun tag h => by simpa [tempPlace] using congrArg List.length h,
      .unchanged rfl (onlyIo_error ⟨none, text⟩) (by simp)⟩
  rw [Ends, saveAtomic]
  cases hdir : path.parent with
  | none => exact hrefused _
  | some dir =>
    cases hname : path.fileName with
    | none => exact hrefused _
    | some name =>
      have hlast : ∀ e, (none : Option VaultError) = some e → ∃ io : IoError, e = io.toVaultError :=
        fun e he => by cases he
      exact ⟨dir, name, ne_tempPlace hname, saveWithin_ends (ne_tempPlace hname) hv 8 hlast⟩

end Store

namespace Reference

/-- A process on an empty disk; every write takes one byte. -/
def machine : Store.Machine :=
  ⟨⟨fun _ => none, fun _ => none, [], 0⟩, 100, fun _ => none, fun _ => .takes 1, fun _ => some fun _ => 0⟩

theorem machine_valid : machine.disk.Valid := by
  rintro v (rfl | hv) p i hi
  · cases hi
  · cases hv

def vaultPlace : Store.Place := [.rootDir, .normal "v"]

/-- A disk with one file, which has reached the medium. -/
def oldDisk : Disk Store.Place :=
  ⟨fun i => if i = 0 then some ⟨[1, 2], true⟩ else none, fun p => if p = vaultPlace then some 0 else none, [], 1⟩

theorem oldDisk_valid : oldDisk.Valid := by
  rintro v (rfl | hv) p i hi
  · simp only [oldDisk, Option.ite_none_right_eq_some, Option.some.injEq] at hi
    rw [← hi.2]
    decide
  · cases hv

theorem oldDisk_survives {x : Option Bytes} (hx : oldDisk.Survives vaultPlace x) : x = some [1, 2] :=
  Disk.survives_synced (n := ⟨[1, 2], true⟩) rfl rfl rfl hx

/-- A process that is killed when it has written one byte of the new file. -/
def killed : Store.Machine := { machine with disk := oldDisk, life := 2 }

theorem killed_saves : (Store.saveAtomic vaultPlace [3, 4]).run killed =
    (.panic, ((Store.saveAtomic vaultPlace [3, 4]).run killed).2) := run_eq (by decide +kernel)

def noSpace : IoError := ⟨some 28, "No space left on device"⟩

/-- A process that cannot sync the new file. -/
def failing : Store.Machine := { machine with disk := oldDisk, faults := fun i => if i = 1 then some noSpace else none }

theorem failing_saves : (Store.saveAtomic vaultPlace [3, 4]).run failing =
    (.error noSpace.toVaultError, ((Store.saveAtomic vaultPlace [3, 4]).run failing).2) := run_eq (by decide +kernel)

/-- After the save that was killed power is lost, and the file is saved by another process. -/
def saving : Store.Machine :=
  { machine with
    disk := ((Store.saveAtomic vaultPlace [3, 4]).run killed).2.disk.settled, rng := fun _ => some fun _ => 1 }

theorem saving_saves : (Store.saveAtomic vaultPlace [5, 6]).run saving =
    (.ok (), ((Store.saveAtomic vaultPlace [5, 6]).run saving).2) := run_eq (by decide +kernel)

/-- Power is lost once more, and the file is loaded. -/
def loading : Store.Machine := { machine with disk := ((Store.saveAtomic vaultPlace [5, 6]).run saving).2.disk.settled }

theorem loading_loads : (Store.load vaultPlace).run loading = (.ok [5, 6], ((Store.load vaultPlace).run loading).2) :=
  run_eq (by decide +kernel)

end Reference

namespace Store

open Machine

/-! ## What a save comes to -/

/-- **A save is atomic.** Whatever fails, and wherever the process is killed: the file is what it was, and stays what it
was over a loss of power, unless it is the new one; then a loss of power leaves the old one or the new one, whole. A
save that succeeds leaves the new one and no other file; one that fails leaves the old one. No other file that was there
is touched, one under a temporary name included. -/
theorem save_survives {m m' : Machine} {path : Place} {bytes : Bytes} {o : Outcome VaultError Unit} (hv : m.disk.Valid)
    (hr : (saveAtomic path bytes).run m = (o, m')) :
    ((m'.disk.read path = m.disk.read path ∧ (∀ x, m'.disk.Survives path x → m.disk.Survives path x) ∧ o ≠ .ok ()) ∨
      (m'.disk.read path = some bytes ∧ (∀ x, m'.disk.Survives path x → m.disk.Survives path x ∨ x = some bytes) ∧
        ∀ e, o ≠ .error e)) ∧
    (o = .ok () → ∀ q, q ≠ path → m'.disk.names q = m.disk.names q) ∧
    (∀ q, q ≠ path → m.disk.names q ≠ none → m'.disk.read q = m.disk.read q ∧
      ∀ x, m'.disk.Survives q x → m.disk.Survives q x) ∧
    m'.disk.Valid := by
  have hends := saveAtomic_ends hv path bytes
  rw [Ends, hr] at hends
  obtain ⟨dir, name, hpath, hends⟩ := hends
  cases hends with
  | unchanged hd hio ho =>
    dsimp only at hd ho
    rw [hd]
    exact ⟨Or.inl ⟨rfl, fun _ h => h, ho⟩, fun h => absurd h ho, fun q _ _ => ⟨rfl, fun _ h => h⟩, hv⟩
  | replaces tag hfree h =>
    obtain ⟨hvalid, -, hstage⟩ := h
    have hq : ∀ q, m.disk.names q ≠ none → q ≠ tempPlace dir name tag := fun q hq heq => hq (heq ▸ hfree)
    rcases hstage with ⟨haside, ho⟩ | ⟨hswap, ho⟩
    · exact ⟨Or.inl ⟨haside.read hv (hpath tag), fun x => haside.survives hv (hpath tag), ho⟩, fun h => absurd h ho,
        fun q _ hn => ⟨haside.read hv (hq q hn), fun x => haside.survives hv (hq q hn)⟩, hvalid⟩
    · refine ⟨Or.inr ⟨hswap.read, fun x => hswap.survives hv (hpath tag), ho⟩, fun _ q hne => ?_,
        fun q hne hn => ⟨hswap.read_other hv hne (hq q hn), fun x => hswap.survives_other hv hne (hq q hn)⟩, hvalid⟩
      by_cases ht : q = tempPlace dir name tag
      · rw [ht, hfree]
        exact hswap.gone
      · exact hswap.names q hne ht

/-- A save is killed half way: the old file is there, and stays over a loss of power. -/
theorem save_survives_killed :
    ((saveAtomic Reference.vaultPlace [3, 4]).run Reference.killed).2.disk.read Reference.vaultPlace = some [1, 2] ∧
    ∀ x, ((saveAtomic Reference.vaultPlace [3, 4]).run Reference.killed).2.disk.Survives Reference.vaultPlace x →
      x = some [1, 2] := by
  have hread : ((saveAtomic Reference.vaultPlace [3, 4]).run Reference.killed).2.disk.read Reference.vaultPlace =
    some [1, 2] := by
    decide +kernel
  obtain ⟨⟨-, hsurvives, -⟩ | ⟨hnew, -⟩, -⟩ := save_survives Reference.oldDisk_valid Reference.killed_saves
  · exact ⟨hread, fun x hx => Reference.oldDisk_survives (hsurvives x hx)⟩
  · exact absurd (hread.symm.trans hnew) (by decide)

/-- What is loaded is in the file. -/
theorem load_ends {m : Machine} (path : Place) :
    Ends (load path) m fun o _ => ∀ b, o = .ok b → m.disk.read path = some b := by
  refine syscall_ends (Q := fun o _ => ∀ b, o = .ok b → m.disk.read path = some b) (fun b h => by cases h)
    (fun e b h => by cases h) fun b h => ?_
  cases hread : m.disk.read path with
  | none =>
    rw [hread] at h
    cases h
  | some b' =>
    rw [hread] at h
    cases h
    rfl

/-- What becomes of a disk: files are saved under the path, each save as far as it gets, and power is lost. -/
inductive Saves (path : Place) (d₀ : Disk Place) : List Bytes → Disk Place → Prop
  | start : Saves path d₀ [] d₀
  | save {m m' : Machine} {bs : List Bytes} {o : Outcome VaultError Unit} (h : Saves path d₀ bs m.disk) (bytes : Bytes)
      (hr : (saveAtomic path bytes).run m = (o, m')) : Saves path d₀ (bytes :: bs) m'.disk
  | powerLoss {d d' : Disk Place} {bs : List Bytes} (h : Saves path d₀ bs d) (hd : d.PowerLoss d') : Saves path d₀ bs d'

theorem Saves.survives {d₀ d : Disk Place} {path : Place} {bs : List Bytes} (h : Saves path d₀ bs d) (h₀ : d₀.Valid) :
    d.Valid ∧ ∀ x, d.Survives path x → d₀.Survives path x ∨ ∃ b ∈ bs, x = some b := by
  induction h with
  | start => exact ⟨h₀, fun x hx => Or.inl hx⟩
  | save h bytes hr ih =>
    obtain ⟨hv, ih⟩ := ih
    obtain ⟨hstage, -, -, hv'⟩ := save_survives hv hr
    have hold : ∀ x, _ → _ ∨ ∃ b ∈ bytes :: _, x = some b := fun x hx =>
      (ih x hx).imp_right fun ⟨b, hb, hx⟩ => ⟨b, List.mem_cons_of_mem _ hb, hx⟩
    refine ⟨hv', fun x hx => ?_⟩
    rcases hstage with ⟨-, hsurv, -⟩ | ⟨-, hsurv, -⟩
    · exact hold x (hsurv x hx)
    · rcases hsurv x hx with hx | rfl
      · exact hold x hx
      · exact Or.inr ⟨bytes, List.mem_cons_self, rfl⟩
  | powerLoss h hd ih => exact ⟨hd.valid ih.1, fun x hx => ih.2 x (hd.survives hx)⟩

/-- **The file is never half written.** However often it is saved, whatever fails, whenever the process is killed and
power is lost: what is loaded is what could be read at first, or what one of the saves was to write, whole. -/
theorem file_is_never_torn {d₀ : Disk Place} {m m' : Machine} {path : Place} {bs : List Bytes} {b : Bytes}
    (h : Saves path d₀ bs m.disk) (h₀ : d₀.Valid) (hr : (load path).run m = (.ok b, m')) :
    d₀.Survives path (some b) ∨ b ∈ bs := by
  have hread := load_ends (m := m) path
  rw [Ends, hr] at hread
  have hsurvives := m.disk.survives_read path
  rw [hread b rfl] at hsurvives
  rcases (h.survives h₀).2 _ hsurvives with hold | ⟨b', hb', hb⟩
  · exact Or.inl hold
  · cases hb
    exact Or.inr hb'

/-- A save is killed, power is lost, another save succeeds, and power is lost again: what is loaded is what it has
written. -/
theorem file_is_never_torn_after : ∃ bs, Saves Reference.vaultPlace Reference.oldDisk bs Reference.loading.disk ∧
    ((load Reference.vaultPlace).run Reference.loading).1 = .ok [5, 6] ∧ [5, 6] ∈ bs := by
  have hsaves : Saves Reference.vaultPlace Reference.oldDisk [[5, 6], [3, 4]] Reference.loading.disk :=
    .powerLoss (.save (m := Reference.saving)
      (.powerLoss (.save (m := Reference.killed) .start [3, 4] Reference.killed_saves)
      (Disk.powerLoss_settled _)) [5, 6] Reference.saving_saves) (Disk.powerLoss_settled _)
  refine ⟨_, hsaves, congrArg Prod.fst Reference.loading_loads, ?_⟩
  rcases file_is_never_torn hsaves Reference.oldDisk_valid Reference.loading_loads with hold | hnew
  · exact absurd (Reference.oldDisk_survives hold) (by decide)
  · exact hnew

/-- **A save is what the session takes it for**: one step of the host, which replaces the vault file or fails and leaves
it. If the process is killed in between, it is as if it had been killed before the step or after it. -/
theorem save_refines {h : Host} {m m' : Machine} {path : Place} {bytes : Bytes} {o : Outcome VaultError Unit}
    (hv : m.disk.Valid) (hfile : h.vaultFile = m.disk.read path) (hr : (saveAtomic path bytes).run m = (o, m')) :
    ∃ saves o' h', (Host.saveAtomic bytes).run { h with saves } = (o', h') ∧ h'.vaultFile = m'.disk.read path ∧
      (o = o' ∨ o = .panic) := by
  obtain ⟨hstage, -⟩ := save_survives hv hr
  have hio : OnlyIo o := by
    have hends := saveAtomic_ends hv path bytes
    rw [Ends, hr] at hends
    obtain ⟨dir, name, -, hends⟩ := hends
    cases hends with
    | unchanged _ hio _ => exact hio
    | replaces _ _ h => exact h.errors
  rcases hstage with ⟨hread, -, hok⟩ | ⟨hread, -, herr⟩
  · cases o with
    | ok a => exact absurd rfl hok
    | error e =>
      obtain ⟨io, rfl⟩ := hio e rfl
      exact ⟨fun _ => some io, _, _, rfl, hfile.trans hread.symm, Or.inl rfl⟩
    | panic => exact ⟨fun _ => some ⟨none, ""⟩, _, _, rfl, hfile.trans hread.symm, Or.inr rfl⟩
  · refine ⟨fun _ => none, .ok (), _, rfl, hread.symm, ?_⟩
    cases o with
    | ok a => exact Or.inl rfl
    | error e => exact absurd rfl (herr e)
    | panic => exact Or.inr rfl

/-- A save fails, and the session is told so and has the old file. -/
theorem save_refines_failing : ∃ saves h',
    (Host.saveAtomic [3, 4]).run { Reference.healthy with vaultFile := some [1, 2], saves } =
      (.error Reference.noSpace.toVaultError, h') ∧ h'.vaultFile = some [1, 2] := by
  obtain ⟨saves, o', h', hrun, hfile, ho⟩ :=
    save_refines (h := { Reference.healthy with vaultFile := some [1, 2] }) Reference.oldDisk_valid
      rfl Reference.failing_saves
  have hread : ((saveAtomic Reference.vaultPlace [3, 4]).run Reference.failing).2.disk.read Reference.vaultPlace =
    some [1, 2] := by
    decide +kernel
  obtain rfl := ho.resolve_right (by simp)
  exact ⟨saves, h', hrun, hfile.trans hread⟩

end Store

end SecretsVault
