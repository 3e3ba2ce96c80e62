import SecretsVault.Handshake
import SecretsVault.Store

/-!
# The identity file

The private key of a daemon is in a file beside its vault. A new key is written to a file of a fixed name, synced, and
renamed; `loadOrGenerate` makes one where there is none, `regenerate` replaces it.

- `identity_is_never_torn`: whatever fails and whenever a process is killed or power is lost, the identity is a key that
  was drawn.
- `left_over_blocks`: after a generation that was cut short between the two, no later one succeeds until the file is
  removed.
-/

namespace SecretsVault

open Lib Lib.Prog

namespace Store.Place

/-- Another file in the same directory. -/
def withFileName (p : Place) (name : String) : Place := (if p.fileName.isSome then p.dropLast else p) ++ [.normal name]

/-- The name of a file up to its last dot, unless that is its first character. -/
def fileStem (name : String) : String :=
  match name.toList.reverse.dropWhile (· ≠ '.') with
  | _ :: c :: rest => String.ofList (c :: rest).reverse
  | _ => name

def withExtension (p : Place) (extension : String) : Place :=
  (p.fileName.map fun name => p.withFileName (fileStem name ++ "." ++ extension)).getD p

end Store.Place

namespace BrokerIdentity

open Store Store.Machine

def identityPath (vaultPath : Store.Place) : Store.Place :=
  vaultPath.withFileName (vaultPath.fileName.getD "vault.enc" ++ ".broker-id")

/-- Where a new identity is written first. -/
def identityTemp (vaultPath : Store.Place) : Store.Place := (identityPath vaultPath).withExtension "broker-id.tmp"

/-- Whether there is a file; where that cannot be told, there is none. -/
def fileExists (p : Store.Place) : StoreProg Bool := do
  let r ← (syscall fun d => (.ok (d.names p).isSome, d)).attempt
  pure (r.toOption.getD false)

/-- The directory of a file is there, and private. -/
def ensurePrivateDir : StoreProg Unit := syscall fun d => (.ok (), d)

def setPermissions : StoreProg Unit := syscall fun d => (.ok (), d)

/-- Create a file, or empty the one that is there. -/
def createOrTruncate (p : Store.Place) : StoreProg Nat := syscall fun d =>
  match d.names p with
  | some i => (.ok i, d.truncate i)
  | none => (.ok d.next, d.create p)

/-- Write the key to the file that was opened, and let it take the place. Nothing is removed if that fails. -/
def install (f : Nat) (tmp path : Store.Place) (key : FixedBytes 32) : StoreProg Unit := do
  let m ← .get
  writeAll f m.life key.1
  fsync f
  setPermissions.ignore
  rename tmp path

def ensureParent (p : Store.Place) : StoreProg Unit := if p.dropLast ≠ [] then ensurePrivateDir else pure ()

/-- A new key is drawn. -/
def draw (vaultPath : Store.Place) : StoreProg (FixedBytes 32) := do
  ensureParent (identityPath vaultPath)
  randomBytes 32

/-- A new key, in the file that `create` opens. -/
def generate (vaultPath : Store.Place) (create : Store.Place → StoreProg Nat) : StoreProg (FixedBytes 32) := do
  let key ← draw vaultPath
  let f ← create (identityTemp vaultPath)
  install f (identityTemp vaultPath) (identityPath vaultPath) key
  pure key

def loadOrGenerate (vaultPath : Store.Place) : StoreProg (FixedBytes 32) := do
  if ← fileExists (identityPath vaultPath) then
    let bytes ← load (identityPath vaultPath)
    .lift (.ofOption (.corrupt "broker identity file") (FixedBytes.ofBytes? 32 bytes))
  else generate vaultPath createNew

/-- The public key is returned. -/
def regenerate [Trust.Ed25519] (vaultPath : Store.Place) : StoreProg (FixedBytes 32) := do
  let key ← generate vaultPath createOrTruncate
  pure (Trust.Ed25519.verifyingKey key)

/-! ## Names -/

theorem fileName_withFileName (p : Store.Place) (name : String) : (p.withFileName name).fileName = some name := by
  rw [Store.Place.fileName, Store.Place.withFileName, List.getLast?_append]
  rfl

theorem length_fileStem (name : String) (s : List Char) (h : name.toList = s ++ ".broker-id".toList) :
    s.length ≤ (Store.Place.fileStem name).toList.length := by
  have hdrop : name.toList.reverse.dropWhile (· ≠ '.') = '.' :: s.reverse := by
    rw [h, List.reverse_append, show ".broker-id".toList.reverse = ['d', 'i', '-', 'r', 'e', 'k', 'o', 'r', 'b',
      '.'] by decide]
    rfl
  unfold Store.Place.fileStem
  rw [hdrop]
  cases hs : s.reverse with
  | nil =>
    have hnil : s = [] := List.reverse_eq_nil_iff.mp hs
    rw [hnil]
    exact Nat.zero_le _
  | cons c rest =>
    dsimp only
    rw [← hs, String.toList_ofList, List.reverse_reverse]

theorem path_ne_temp (vaultPath : Store.Place) : identityPath vaultPath ≠ identityTemp vaultPath := by
  intro h
  have hname := congrArg Store.Place.fileName h
  unfold identityTemp Store.Place.withExtension at hname
  rw [identityPath, fileName_withFileName, Option.map_some, Option.getD_some, fileName_withFileName,
    Option.some.injEq] at hname
  have hlength := congrArg (fun s => s.toList.length) hname
  have hstem := length_fileStem (vaultPath.fileName.getD "vault.enc" ++ ".broker-id") _ String.toList_append
  simp only [String.toList_append, List.length_append] at hlength
  have h1 : ".broker-id".toList.length = 10 := by decide
  have h2 : ".".toList.length = 1 := by decide
  have h3 : "broker-id.tmp".toList.length = 13 := by decide
  omega

/-! ## Where a generation may end -/

variable {m : Machine} {vaultPath path tmp : Store.Place} {C : Bytes → Prop} {d₀ : Disk Store.Place} {f : Nat}
    {c : Bytes}

/-- The temporary file is open, and the identity is what it was; if it was guarded, it still is. -/
structure Filling (d₀ d : Disk Store.Place) (path tmp : Store.Place) (C : Bytes → Prop) (f : Nat) (c : Bytes) :
    Prop where
  guarded : d₀.Guarded path tmp C → d.Guarded path tmp C
  old : d.names path = d₀.names path
  name : d.names tmp = some f
  contents : ∃ synced, d.inodes f = some ⟨c, synced⟩

theorem Filling.write {d : Disk Store.Place} (h : Filling d₀ d path tmp C f c) (b : Bytes) :
    Filling d₀ (d.write f b) path tmp C f (c ++ b) := by
  obtain ⟨synced, hc⟩ := h.contents
  refine ⟨fun hg => (h.guarded hg).write h.name b, h.old, h.name, false, ?_⟩
  rw [Disk.write]
  dsimp only
  rw [if_pos rfl, hc, Option.map_some]

theorem Filling.sync {d : Disk Store.Place} (h : Filling d₀ d path tmp C f c) :
    Filling d₀ (d.sync f) path tmp C f c ∧ (d.sync f).inodes f = some ⟨c, true⟩ := by
  obtain ⟨synced, hc⟩ := h.contents
  have hsynced : (d.sync f).inodes f = some ⟨c, true⟩ := by
    rw [Disk.sync]
    dsimp only
    rw [if_pos rfl, hc, Option.map_some]
  exact ⟨⟨fun hg => (h.guarded hg).sync h.name, h.old, h.name, true, hsynced⟩, hsynced⟩

/-- How a step with the temporary file may end: with the new key in place, or with the temporary file left. -/
def Installs (d₀ : Disk Store.Place) (path tmp : Store.Place) (C : Bytes → Prop) (key : Bytes)
    (o : Outcome VaultError Unit) (d : Disk Store.Place) : Prop :=
  (d₀.Guarded path tmp C → d.Guarded path tmp C) ∧ OnlyIo o ∧
    (o = .ok () ∧ d.read path = some key ∨ o ≠ .ok () ∧ d.names path = d₀.names path ∧ d.names tmp ≠ none)

theorem Filling.killed {d : Disk Store.Place} {key : Bytes} (h : Filling d₀ d path tmp C f c) :
    Installs d₀ path tmp C key .panic d :=
  ⟨h.guarded, onlyIo_panic, Or.inr ⟨by simp, h.old, by simp [h.name]⟩⟩

theorem Filling.failed {α : Type} {d : Disk Store.Place} {key : Bytes} {e : VaultError}
    (h : Filling d₀ d path tmp C f c)
    (he : OnlyIo (.error e : Outcome VaultError α)) : Installs d₀ path tmp C key (.error e) d :=
  ⟨h.guarded, he.error, Or.inr ⟨by simp, h.old, by simp [h.name]⟩⟩

/-- Nothing comes of the permissions. -/
theorem setPermissions_ends (m : Machine) : Ends setPermissions.ignore m fun o m' => m'.disk = m.disk ∧ ∀ e,
    o ≠ .error e := by
  have hmode : Ends setPermissions m fun _ m' => m'.disk = m.disk :=
    syscall_ends (Q := fun _ d => d = m.disk) rfl (fun _ => rfl) rfl
  rw [Ends] at hmode
  rw [Ends, run_ignore]
  rcases hr : setPermissions.run m with ⟨_ | e | _, m'⟩ <;> rw [hr] at hmode
  · exact ⟨hmode, fun e he => by cases he⟩
  · exact ⟨hmode, fun e he => by cases he⟩
  · exact ⟨hmode, fun e he => by cases he⟩

theorem install_ends (hp : path ≠ tmp) {key : FixedBytes 32} (hC : C key.1) (h : Filling d₀ m.disk path tmp C f []) :
    Ends (install f tmp path key) m fun o m' => Installs d₀ path tmp C key.1 o m'.disk := by
  have hfill := writeAll_ends (I := fun c d => Filling d₀ d path tmp C f c) (fun c d b hc => hc.write b) m.life
    (b := key.1) h
  rw [Ends, install, run_get_bind]
  refine hfill.bind (Q := fun o m' => Installs d₀ path tmp C key.1 o m'.disk) (fun _ m1 h1 => ?_)
    (fun e m1 h1 => h1.1.choose_spec.failed h1.2.1) fun m1 h1 => h1.1.choose_spec.killed
  have h1 : Filling d₀ m1.disk path tmp C f key.1 := h1.2.2 rfl
  have hsync : Ends (fsync f) m1 fun o m2 => Filling d₀ m2.disk path tmp C f key.1 ∧ OnlyIo o ∧
      (o = .ok () → m2.disk.inodes f = some ⟨key.1, true⟩) :=
    syscall_ends
      (Q := fun o d => Filling d₀ d path tmp C f key.1 ∧ OnlyIo o ∧ (o = .ok () → d.inodes f = some ⟨key.1, true⟩))
      ⟨h1, onlyIo_panic, fun ho => by cases ho⟩ (fun e => ⟨h1, onlyIo_error e, fun ho => by cases ho⟩)
      ⟨h1.sync.1, onlyIo_ok _, fun _ => h1.sync.2⟩
  refine hsync.bind (fun _ m2 h2 => ?_) (fun e m2 h2 => h2.1.failed h2.2.1) fun m2 h2 => h2.1.killed
  obtain ⟨h2, -, hdata⟩ := h2
  refine (setPermissions_ends m2).bind (fun _ m3 h3 => ?_) (fun e m3 h3 => absurd rfl (h3.2 e)) fun m3 h3 =>
    h3.1 ▸ h2.killed
  have h3' : Filling d₀ m3.disk path tmp C f key.1 := h3.1 ▸ h2
  have hdata' : m3.disk.inodes f = some ⟨key.1, true⟩ := h3.1 ▸ hdata rfl
  refine syscall_ends (Q := Installs d₀ path tmp C key.1) h3'.killed (fun e => h3'.failed (@onlyIo_error Unit e)) ?_
  refine ⟨fun hg => (h3'.guarded hg).rename hp h3'.name hdata' hC, onlyIo_ok _, Or.inl ⟨rfl, ?_⟩⟩
  have hname : (m3.disk.rename tmp path).names path = some f := (Function.update_self path _ _).trans h3'.name
  dsimp only
  rw [Disk.read, hname, Option.bind_some, Disk.rename, Disk.rewrite]
  dsimp only
  rw [hdata']
  rfl

/-- How the temporary file is opened: empty, or not at all. -/
def Opens (create : Store.Place → StoreProg Nat) : Prop := ∀ (m : Machine) (path tmp : Store.Place) (C : Bytes → Prop),
  path ≠ tmp → Ends (create tmp) m fun o m' => OnlyIo o ∧
    ((∃ f, o = .ok f ∧ Filling m.disk m'.disk path tmp C f []) ∨ (∀ f, o ≠ .ok f) ∧ m'.disk = m.disk)

theorem Filling.created (d : Disk Store.Place) (hp : path ≠ tmp) : Filling d (d.create tmp) path tmp C d.next [] :=
  ⟨fun hg => hg.create hp, Function.update_of_ne hp _ _, Function.update_self tmp _ _, false,
    Function.update_self _ _ _⟩

theorem opens_createNew : Opens createNew := by
  intro m path tmp C hp
  refine syscall_ends (Q := fun o d => OnlyIo o ∧ ((∃ f, o = .ok f ∧ Filling m.disk d path tmp C f []) ∨
    (∀ f, o ≠ .ok f) ∧ d = m.disk)) ⟨onlyIo_panic, Or.inr ⟨by simp, rfl⟩⟩
    (fun e => ⟨onlyIo_error e, Or.inr ⟨by simp, rfl⟩⟩) ?_
  cases m.disk.names tmp with
  | some j => exact ⟨onlyIo_error ⟨some EEXIST, "File exists"⟩,
      Or.inr ⟨by simp [Except.mapError, Outcome.ofExcept], rfl⟩⟩
  | none => exact ⟨onlyIo_ok _, Or.inl ⟨_, rfl, Filling.created m.disk hp⟩⟩

theorem opens_createOrTruncate : Opens createOrTruncate := by
  intro m path tmp C hp
  refine syscall_ends (Q := fun o d => OnlyIo o ∧ ((∃ f, o = .ok f ∧ Filling m.disk d path tmp C f []) ∨
    (∀ f, o ≠ .ok f) ∧ d = m.disk)) ⟨onlyIo_panic, Or.inr ⟨by simp, rfl⟩⟩
    (fun e => ⟨onlyIo_error e, Or.inr ⟨by simp, rfl⟩⟩) ?_
  cases hname : m.disk.names tmp with
  | some j =>
    exact ⟨onlyIo_ok _, Or.inl ⟨_, rfl, fun hg => hg.truncate hname, rfl, hname, false, Function.update_self _ _ _⟩⟩
  | none => exact ⟨onlyIo_ok _, Or.inl ⟨_, rfl, Filling.created m.disk hp⟩⟩

/-- A call that only looks. -/
theorem looks_ends {α : Type} (look : Disk Store.Place → Except IoError α) :
    Ends (syscall fun d => (look d, d)) m fun o m' =>
      m'.disk = m.disk ∧ OnlyIo o ∧ ∀ a, o = .ok a → look m.disk = .ok a := by
  rw [Ends, syscall, run_step]
  split
  · exact ⟨rfl, onlyIo_panic, fun a ha => by cases ha⟩
  · dsimp only
    split
    · exact ⟨rfl, onlyIo_error _, fun a ha => by cases ha⟩
    · refine ⟨rfl, ?_⟩
      cases look m.disk with
      | error e => exact ⟨onlyIo_error e, fun a ha => by cases ha⟩
      | ok a => exact ⟨onlyIo_ok a, fun b hb => by cases hb; rfl⟩

/-- A file that is said to be there is there. -/
theorem fileExists_ends (p : Store.Place) : Ends (fileExists p) m fun o m' => m'.disk = m.disk ∧ (∀ e, o ≠ .error e) ∧
    (o = .ok true → m.disk.names p ≠ none) := by
  have hlook := looks_ends (m := m) fun d => .ok (d.names p).isSome
  rw [Ends] at hlook
  rw [Ends, fileExists, run_bind, run_attempt]
  rcases hr : (syscall fun d => (.ok (d.names p).isSome, d)).run m with ⟨b | e | _, m1⟩ <;> rw [hr] at hlook
  · refine ⟨hlook.1, fun e he => (by cases he), fun hb => ?_⟩
    have hsome := hlook.2.2 b rfl
    cases hb
    intro hnone
    rw [hnone] at hsome
    cases hsome
  · exact ⟨hlook.1, fun e he => (by cases he), fun hb => by cases hb⟩
  · exact ⟨hlook.1, fun e he => (by cases he), fun hb => by cases hb⟩

/-- Nothing is changed before there is a key. -/
theorem draw_ends (vaultPath : Store.Place) : Ends (draw vaultPath) m fun o m' => m'.disk = m.disk ∧ OnlyIo o := by
  have hdir : Ends (ensureParent (identityPath vaultPath)) m fun o m' => m'.disk = m.disk ∧ OnlyIo o := by
    unfold ensureParent
    split
    · exact (looks_ends fun _ => .ok ()).mono fun o m' ho => ⟨ho.1, ho.2.1⟩
    · exact ⟨rfl, onlyIo_ok ()⟩
  refine hdir.bind (Q := fun o m' => m'.disk = m.disk ∧ OnlyIo o) (fun _ m1 h1 => ?_)
    (fun e m1 h1 => ⟨h1.1, h1.2.error⟩) fun m1 h1 => ⟨h1.1, onlyIo_panic⟩
  rw [Ends, Machine.randomBytes, run_step]
  refine ⟨h1.1, ?_⟩
  cases m1.rng 0 with
  | none => exact onlyIo_error ⟨none, "csprng failure"⟩
  | some r => exact onlyIo_ok _

/-- The key that a generation draws, if it gets so far. -/
def generatedKey (vaultPath : Store.Place) (m : Machine) : Option (FixedBytes 32) :=
  match (draw vaultPath).run m with
  | (.ok key, _) => some key
  | _ => none

/-- The key that a daemon draws, if it finds none and gets so far. -/
def loadedKey (vaultPath : Store.Place) (m : Machine) : Option (FixedBytes 32) :=
  match (fileExists (identityPath vaultPath)).run m with
  | (.ok false, m1) => generatedKey vaultPath m1
  | _ => none

/-- The content is a key that is drawn, or was good before. -/
def Renewed (C : Bytes → Prop) (key : Option (FixedBytes 32)) (b : Bytes) : Prop := C b ∨ ∃ k, key = some k ∧ b = k.1

/-- Where a generation may end: with a new key in place, with nothing done, or with the temporary file left. -/
structure Generates (d₀ : Disk Store.Place) (vaultPath : Store.Place) (C : Bytes → Prop) (key : Option (FixedBytes 32))
    (o : Outcome VaultError (FixedBytes 32)) (d : Disk Store.Place) : Prop where
  guarded : d₀.Guarded (identityPath vaultPath) (identityTemp vaultPath) C →
    d.Guarded (identityPath vaultPath) (identityTemp vaultPath) (Renewed C key)
  errors : OnlyIo o
  stage : (∃ k, o = .ok k ∧ key = some k ∧ d.read (identityPath vaultPath) = some k.1) ∨
    (∀ k, o ≠ .ok k) ∧ (d = d₀ ∨
      d.names (identityPath vaultPath) = d₀.names (identityPath vaultPath) ∧ d.names (identityTemp vaultPath) ≠ none)

theorem Generates.unchanged {key : Option (FixedBytes 32)} {o : Outcome VaultError (FixedBytes 32)}
    {d : Disk Store.Place} (hd : d = d₀) (ho : OnlyIo o) (hok : ∀ k, o ≠ .ok k) : Generates d₀ vaultPath C key o d := by
  subst hd
  exact ⟨fun h => h.mono fun _ hb => Or.inl hb, ho, Or.inr ⟨hok, Or.inl rfl⟩⟩

theorem generate_ends {create : Store.Place → StoreProg Nat} (hopens : Opens create) :
    Ends (generate vaultPath create) m fun o m' => Generates m.disk vaultPath C (generatedKey vaultPath m)
    o m'.disk := by
  have hdraw : Ends (draw vaultPath) m fun o m' => (m'.disk = m.disk ∧ OnlyIo o) ∧
      ∀ k, o = .ok k → generatedKey vaultPath m = some k :=
    .of_run fun o m' hr => ⟨(draw_ends vaultPath).apply hr, fun k hk => by rw [generatedKey, hr, hk]⟩
  refine hdraw.bind (Q := fun o m' => Generates m.disk vaultPath C (generatedKey vaultPath m) o m'.disk)
    (fun key m1 h1 => ?_) (fun e m1 h1 => .unchanged h1.1.1 h1.1.2.error (by simp)) fun m1 h1 =>
    .unchanged h1.1.1 onlyIo_panic (by simp)
  obtain ⟨⟨hdisk, -⟩, hkey⟩ := h1
  have hkey : generatedKey vaultPath m = some key := hkey key rfl
  have hopen := hopens m1 _ _ (Renewed C (generatedKey vaultPath m)) (path_ne_temp vaultPath)
  rw [hdisk] at hopen
  -- What was good is good with the new key, too.
  have hrenewed : m.disk.Guarded (identityPath vaultPath) (identityTemp vaultPath) C →
      m.disk.Guarded (identityPath vaultPath) (identityTemp vaultPath) (Renewed C (generatedKey vaultPath m)) :=
    fun h => h.mono fun _ hb => Or.inl hb
  refine hopen.bind (fun f m2 h2 => ?_) (fun e m2 h2 => ?_) fun m2 h2 => ?_
  · rcases h2 with ⟨-, ⟨f', hf', hfilling⟩ | ⟨hne, -⟩⟩
    · cases hf'
      have hinstall : Ends (install f (identityTemp vaultPath) (identityPath vaultPath) key) m2 _ :=
        install_ends (path_ne_temp vaultPath) (Or.inr ⟨key, hkey, rfl⟩) hfilling
      refine hinstall.bind (fun _ m3 h3 => ?_) (fun e m3 h3 => ?_) fun m3 h3 => ?_
      · rcases h3 with ⟨hg, -, ⟨-, hread⟩ | ⟨hne, -⟩⟩
        · exact ⟨fun h => hg (hrenewed h), onlyIo_ok _, Or.inl ⟨key, rfl, hkey, hread⟩⟩
        · exact absurd rfl hne
      · rcases h3 with ⟨hg, hio, ⟨hok, -⟩ | ⟨-, hleft⟩⟩
        · cases hok
        · exact ⟨fun h => hg (hrenewed h), hio.error, Or.inr ⟨by simp, Or.inr hleft⟩⟩
      · rcases h3 with ⟨hg, hio, ⟨hok, -⟩ | ⟨-, hleft⟩⟩
        · cases hok
        · exact ⟨fun h => hg (hrenewed h), onlyIo_panic, Or.inr ⟨by simp, Or.inr hleft⟩⟩
    · exact absurd rfl (hne f)
  · rcases h2 with ⟨hio, ⟨f', hf', -⟩ | ⟨-, hd⟩⟩
    · cases hf'
    · exact .unchanged hd hio.error (by simp)
  · rcases h2 with ⟨-, ⟨f', hf', -⟩ | ⟨-, hd⟩⟩
    · cases hf'
    · exact .unchanged hd onlyIo_panic (by simp)

/-- How a daemon may end that finds an identity: with the key that is there, if it is whole. -/
structure Finds (d₀ : Disk Store.Place) (vaultPath : Store.Place) (C : Bytes → Prop)
    (o : Outcome VaultError (FixedBytes 32)) (d : Disk Store.Place) : Prop where
  same : d = d₀
  there : d₀.names (identityPath vaultPath) ≠ none
  whole : d₀.Guarded (identityPath vaultPath) (identityTemp vaultPath) C → (∀ b, C b → b.length = 32) →
    OnlyIo o ∧ ∀ k, o = .ok k → d₀.read (identityPath vaultPath) = some k.1

/-- Where a daemon that wants its identity may end. -/
theorem loadOrGenerate_ends : Ends (loadOrGenerate vaultPath) m fun o m' =>
    Generates m.disk vaultPath C (loadedKey vaultPath m) o m'.disk ∨ Finds m.disk vaultPath C o m'.disk := by
  have hexists : Ends (fileExists (identityPath vaultPath)) m fun o m1 => (m1.disk = m.disk ∧ (∀ e, o ≠ .error e) ∧
      (o = .ok true → m.disk.names (identityPath vaultPath) ≠ none)) ∧
      (o = .ok false → loadedKey vaultPath m = generatedKey vaultPath m1) :=
    .of_run fun o m1 hr => ⟨(fileExists_ends _).apply hr, fun hb => by rw [loadedKey, hr, hb]⟩
  refine hexists.bind (fun b m1 h1 => ?_) (fun e m1 h1 => absurd rfl (h1.1.2.1 e)) fun m1 h1 =>
    Or.inl (.unchanged h1.1.1 onlyIo_panic (by simp))
  obtain ⟨⟨hdisk, -, hthere⟩, hkey⟩ := h1
  cases b with
  | false =>
    have hgen : Ends (generate vaultPath createNew) m1 fun o m2 =>
        Generates m1.disk vaultPath C (generatedKey vaultPath m1) o m2.disk := generate_ends opens_createNew
    rw [hdisk, ← hkey rfl] at hgen
    exact hgen.mono fun o m2 h2 => Or.inl h2
  | true =>
    have hload : Ends (load (identityPath vaultPath)) m1 fun o m2 => m2.disk = m.disk ∧ OnlyIo o ∧
        ∀ b, o = .ok b → m.disk.read (identityPath vaultPath) = some b := by
      rw [← hdisk]
      refine syscall_ends
        (Q := fun o d => d = m1.disk ∧ OnlyIo o ∧ ∀ b, o = .ok b → m1.disk.read (identityPath vaultPath) = some b)
        ⟨rfl, onlyIo_panic, fun b hb => by cases hb⟩ (fun e => ⟨rfl, onlyIo_error e, fun b hb => by cases hb⟩) ?_
      cases m1.disk.read (identityPath vaultPath) with
      | none => exact ⟨rfl, onlyIo_error ⟨some ENOENT, "No such file or directory"⟩, fun b hb => by cases hb⟩
      | some b => exact ⟨rfl, onlyIo_ok b, fun b' hb => by cases hb; rfl⟩
    refine hload.bind (fun b m2 h2 => Or.inr ⟨h2.1, hthere rfl, fun h hC => ?_⟩)
      (fun e m2 h2 => Or.inr ⟨h2.1, hthere rfl, fun _ _ => ⟨h2.2.1.error, fun k hk => by cases hk⟩⟩)
      fun m2 h2 => Or.inr ⟨h2.1, hthere rfl, fun _ _ => ⟨onlyIo_panic, fun k hk => by cases hk⟩⟩
    have hread := h2.2.2 b rfl
    have hlength : b.length = 32 := hC b (h.read hread)
    have hbytes : FixedBytes.ofBytes? 32 b = some ⟨b, hlength⟩ := dif_pos hlength
    rw [run_lift, hbytes]
    exact ⟨onlyIo_ok _, fun k hk => by cases hk; exact hread⟩

/-! ## The identity over runs -/

/-- What becomes of a disk: daemons load or generate their identity, it is regenerated, one after the other and each as
far as it gets, and power is lost. The keys are those that were drawn. -/
inductive Uses [Trust.Ed25519] (vaultPath : Store.Place) (d₀ : Disk Store.Place) :
    List (FixedBytes 32) → Disk Store.Place → Prop
  | start : Uses vaultPath d₀ [] d₀
  | loads {m m' : Machine} {keys : List (FixedBytes 32)} {o : Outcome VaultError (FixedBytes 32)}
      (h : Uses vaultPath d₀ keys m.disk) (hr : (loadOrGenerate vaultPath).run m = (o, m')) :
      Uses vaultPath d₀ ((loadedKey vaultPath m).toList ++ keys) m'.disk
  | regenerates {m m' : Machine} {keys : List (FixedBytes 32)} {o : Outcome VaultError (FixedBytes 32)}
      (h : Uses vaultPath d₀ keys m.disk) (hr : (regenerate vaultPath).run m = (o, m')) :
      Uses vaultPath d₀ ((generatedKey vaultPath m).toList ++ keys) m'.disk
  | powerLoss {d d' : Disk Store.Place} {keys : List (FixedBytes 32)} (h : Uses vaultPath d₀ keys d)
      (hd : d.PowerLoss d') : Uses vaultPath d₀ keys d'

/-- A disk on which there was no identity yet. -/
structure NoIdentity (d : Disk Store.Place) (vaultPath : Store.Place) : Prop where
  valid : d.Valid
  none : ∀ v, d.Version v → v (identityPath vaultPath) = .none ∧ v (identityTemp vaultPath) = .none

/-- The bytes are those of a key. -/
def IsKey (keys : List (FixedBytes 32)) (b : Bytes) : Prop := ∃ k ∈ keys, b = k.1

theorem isKey_length {keys : List (FixedBytes 32)} (b : Bytes) (h : IsKey keys b) : b.length = 32 := by
  obtain ⟨k, -, rfl⟩ := h
  exact k.2

theorem isKey_renewed {keys : List (FixedBytes 32)} {key : Option (FixedBytes 32)} (b : Bytes)
    (h : Renewed (IsKey keys) key b) : IsKey (key.toList ++ keys) b := by
  rcases h with ⟨k, hk, rfl⟩ | ⟨k, hk, rfl⟩
  · exact ⟨k, List.mem_append_right _ hk, rfl⟩
  · exact ⟨k, List.mem_append_left _ (Option.mem_toList.mpr hk), rfl⟩

theorem regenerate_ends [Trust.Ed25519] : Ends (regenerate vaultPath) m fun _ m' =>
    m.disk.Guarded (identityPath vaultPath) (identityTemp vaultPath) C →
      m'.disk.Guarded (identityPath vaultPath) (identityTemp vaultPath) (Renewed C (generatedKey vaultPath m)) := by
  have hgen : Ends (generate vaultPath createOrTruncate) m fun o m' =>
      Generates m.disk vaultPath C (generatedKey vaultPath m) o m'.disk := generate_ends opens_createOrTruncate
  exact hgen.bind (fun k m1 h1 => h1.guarded) (fun e m1 h1 => h1.guarded) fun m1 h1 => h1.guarded

theorem Uses.guarded [Trust.Ed25519] {d₀ d : Disk Store.Place} {keys : List (FixedBytes 32)}
    (h : Uses vaultPath d₀ keys d)
    (h₀ : NoIdentity d₀ vaultPath) : d.Guarded (identityPath vaultPath) (identityTemp vaultPath) (IsKey keys) := by
  induction h with
  | start => exact Disk.guarded_fresh h₀.valid h₀.none
  | loads _ hr ih =>
    rcases loadOrGenerate_ends.apply hr with hgen | hfound
    · exact (hgen.guarded ih).mono isKey_renewed
    · rw [hfound.same]
      exact ih.mono fun b hb => isKey_renewed b (Or.inl hb)
  | regenerates _ hr ih => exact (regenerate_ends.apply hr ih).mono isKey_renewed
  | powerLoss _ hd ih => exact ih.powerLoss hd

namespace FirstStart

/-- A scheme in which a private key is its own public key. -/
@[reducible] def ownKey : Trust.Ed25519 := ⟨id, fun _ _ => .ofFn fun _ => 0, fun _ => true, fun _ _ _ => true⟩

theorem noIdentity : NoIdentity Reference.machine.disk Reference.vaultPlace where
  valid := Reference.machine_valid
  none v hv := by
    obtain rfl | hv := hv
    · exact ⟨rfl, rfl⟩
    · cases hv

def key (b : UInt8) : FixedBytes 32 := .ofFn fun _ => b

/-- The process is killed while it writes the key. -/
def killed : Machine := { Reference.machine with life := 10 }

theorem killed_loads : (loadOrGenerate Reference.vaultPlace).run killed =
    (.panic, ((loadOrGenerate Reference.vaultPlace).run killed).2) := run_eq (by decide +kernel)

theorem killed_draws : loadedKey Reference.vaultPlace killed = some (key 0) := by decide +kernel

/-- The identity is regenerated over what was left. -/
def regenerating : Machine :=
  { Reference.machine with
    disk := ((loadOrGenerate Reference.vaultPlace).run killed).2.disk, rng := fun _ => some fun _ => 1 }

section

attribute [local instance] ownKey

theorem regenerating_ends : (regenerate Reference.vaultPlace).run regenerating =
    (.ok (key 1), ((regenerate Reference.vaultPlace).run regenerating).2) := run_eq (by decide +kernel)

theorem regenerating_draws : generatedKey Reference.vaultPlace regenerating = some (key 1) := by decide +kernel

/-- Power is lost, and a daemon starts. -/
def loading : Machine :=
  { Reference.machine with disk := ((regenerate Reference.vaultPlace).run regenerating).2.disk.settled }

theorem loading_loads : (loadOrGenerate Reference.vaultPlace).run loading =
    (.ok (key 1), ((loadOrGenerate Reference.vaultPlace).run loading).2) := run_eq (by decide +kernel)

theorem loading_draws : loadedKey Reference.vaultPlace loading = none := by decide +kernel

end

end FirstStart

/-- **The identity is never torn.** However often daemons load or generate it and it is regenerated, whatever fails and
whenever a process is killed or power is lost: the next daemon does not find its identity corrupt; the key it gets is in
the file, and is one that was drawn, whole; and a loss of power leaves such a key or none. -/
theorem identity_is_never_torn [Trust.Ed25519] {d₀ : Disk Store.Place} {m m' : Machine} {keys : List (FixedBytes 32)}
    {o : Outcome VaultError (FixedBytes 32)} (h : Uses vaultPath d₀ keys m.disk) (h₀ : NoIdentity d₀ vaultPath)
    (hr : (loadOrGenerate vaultPath).run m = (o, m')) :
    (∀ why, o ≠ .error (.corrupt why)) ∧
      (∀ k, o = .ok k → m'.disk.read (identityPath vaultPath) = some k.1 ∧
        (k ∈ keys ∨ loadedKey vaultPath m = some k)) ∧
        ∀ b, m'.disk.Survives (identityPath vaultPath) (some b) → IsKey ((loadedKey vaultPath m).toList ++ keys) b := by
  have hguarded := h.guarded h₀
  have hends := (loadOrGenerate_ends (C := IsKey keys)).apply hr
  have hio : OnlyIo o := by
    rcases hends with hgen | hfound
    · exact hgen.errors
    · exact (hfound.whole hguarded isKey_length).1
  refine ⟨fun why ho => ?_, fun k hk => ?_, fun b hb => ?_⟩
  · obtain ⟨io, heq⟩ := hio _ ho
    cases heq
  · rcases hends with hgen | hfound
    · rcases hgen.stage with ⟨k', hk', hdrawn, hread⟩ | ⟨hne, -⟩
      · cases hk.symm.trans hk'
        exact ⟨hread, Or.inr hdrawn⟩
      · exact absurd hk (hne k)
    · have hread := (hfound.whole hguarded isKey_length).2 k hk
      obtain ⟨k', hmem, heq⟩ := hguarded.read hread
      rw [hfound.same]
      exact ⟨hread, Or.inl (Subtype.ext heq ▸ hmem)⟩
  · obtain ⟨d', hd', hread⟩ := hb
    exact (((Uses.loads h hr).guarded h₀).powerLoss hd').read hread

/-- A generation is killed in the middle, the identity is regenerated, power is lost, and the next daemon loads the key
that was regenerated. -/
theorem identity_is_never_torn_after :
    let _ := FirstStart.ownKey
    ((loadOrGenerate Reference.vaultPlace).run FirstStart.loading).1 = .ok (FirstStart.key 1) ∧
      ((loadOrGenerate Reference.vaultPlace).run FirstStart.loading).2.disk.read (identityPath Reference.vaultPlace) =
        some (FirstStart.key 1).1 ∧
      ∀ b, ((loadOrGenerate Reference.vaultPlace).run FirstStart.loading).2.disk.Survives
        (identityPath Reference.vaultPlace) (some b) → IsKey [FirstStart.key 1, FirstStart.key 0] b := by
  intro _
  have hkilled : Uses Reference.vaultPlace Reference.machine.disk [FirstStart.key 0] FirstStart.regenerating.disk := by
    have h := Uses.loads (m := FirstStart.killed) .start FirstStart.killed_loads
    rw [FirstStart.killed_draws] at h
    simp only [FirstStart.regenerating]
    exact h
  have huses : Uses Reference.vaultPlace Reference.machine.disk [FirstStart.key 1, FirstStart.key 0]
    FirstStart.loading.disk := by
    have h := Uses.regenerates hkilled FirstStart.regenerating_ends
    rw [FirstStart.regenerating_draws] at h
    simp only [FirstStart.loading]
    exact .powerLoss h (Disk.powerLoss_settled _)
  obtain ⟨-, hkey, hsurvives⟩ := identity_is_never_torn huses FirstStart.noIdentity FirstStart.loading_loads
  rw [FirstStart.loading_draws] at hsurvives
  exact ⟨congrArg Prod.fst FirstStart.loading_loads, (hkey _ rfl).1, hsurvives⟩

/-- Daemons try again. -/
inductive Retries (vaultPath : Store.Place) (d : Disk Store.Place) : Disk Store.Place → Prop
  | none : Retries vaultPath d d
  | again {m m' : Machine} {o : Outcome VaultError (FixedBytes 32)} (h : Retries vaultPath d m.disk)
      (hr : (loadOrGenerate vaultPath).run m = (o, m')) : Retries vaultPath d m'.disk

/-- There is no identity, and the temporary file is in the way. -/
structure Blocked (d : Disk Store.Place) (vaultPath : Store.Place) : Prop where
  path : d.names (identityPath vaultPath) = none
  temp : d.names (identityTemp vaultPath) ≠ none

theorem loadOrGenerate_blocked (h : Blocked m.disk vaultPath) :
    Ends (loadOrGenerate vaultPath) m fun o m' => m'.disk = m.disk ∧ ∀ k, o ≠ .ok k := by
  refine (fileExists_ends (identityPath vaultPath)).bind (Q := fun o m' => m'.disk = m.disk ∧ ∀ k, o ≠ .ok k)
    (fun b m1 h1 => ?_) (fun e m1 h1 => ⟨h1.1, by simp⟩) fun m1 h1 => ⟨h1.1, by simp⟩
  obtain ⟨hdisk1, -, hthere⟩ := h1
  cases b with
  | true => exact absurd h.path (hthere rfl)
  | false =>
    refine (draw_ends vaultPath).bind (Q := fun o m' => m'.disk = m.disk ∧ ∀ k, o ≠ .ok k) (fun key m2 h2 => ?_)
      (fun e m2 h2 => ⟨h2.1.trans hdisk1, by simp⟩) fun m2 h2 => ⟨h2.1.trans hdisk1, by simp⟩
    have hdisk2 := h2.1.trans hdisk1
    have hcreate : Ends (createNew (identityTemp vaultPath)) m2 fun o m3 => m3.disk = m.disk ∧ ∀ f, o ≠ .ok f := by
      refine syscall_ends (Q := fun o d => d = m.disk ∧ ∀ f, o ≠ .ok f) ⟨hdisk2, by simp⟩
        (fun e => ⟨hdisk2, by simp⟩) ?_
      cases hname : m2.disk.names (identityTemp vaultPath) with
      | none => exact absurd (hdisk2 ▸ hname) h.temp
      | some j => exact ⟨hdisk2, fun f hf => by cases hf⟩
    exact hcreate.bind (fun f m3 h3 => absurd rfl (h3.2 f)) (fun e m3 h3 => ⟨h3.1, by simp⟩) fun m3 h3 =>
      ⟨h3.1, by simp⟩

theorem Retries.blocked {d d' : Disk Store.Place} (h : Retries vaultPath d d') (hd : Blocked d vaultPath) : d' = d := by
  induction h with
  | none => rfl
  | again _ hr ih => exact ((loadOrGenerate_blocked (ih ▸ hd)).apply hr).1.trans ih

/-- **A generation that is cut short blocks the later ones.** Where there is no identity, a daemon ends with the key
that it drew in the file; or with the directory as it was; or the temporary file is left, and then every daemon that
tries again fails and changes nothing, however often, until the file is gone. -/
theorem left_over_blocks {m m' : Machine} {o : Outcome VaultError (FixedBytes 32)}
    (hpath : m.disk.names (identityPath vaultPath) = none) (hr : (loadOrGenerate vaultPath).run m = (o, m')) :
    (∃ k, o = .ok k ∧ loadedKey vaultPath m = some k ∧ m'.disk.read (identityPath vaultPath) = some k.1) ∨
      (∀ k, o ≠ .ok k) ∧ (m'.disk = m.disk ∨ Blocked m'.disk vaultPath ∧
        ∀ d, Retries vaultPath m'.disk d → d = m'.disk ∧
          ∀ m₁ o₁ m₁', m₁.disk = d → (loadOrGenerate vaultPath).run m₁ = (o₁, m₁') → ∀ k, o₁ ≠ .ok k) := by
  rcases (loadOrGenerate_ends (C := fun _ => True)).apply hr with hgen | hfound
  · rcases hgen.stage with hnew | ⟨hok, hsame | ⟨hp, ht⟩⟩
    · exact Or.inl hnew
    · exact Or.inr ⟨hok, Or.inl hsame⟩
    · have hblocked : Blocked m'.disk vaultPath := ⟨hp.trans hpath, ht⟩
      refine Or.inr ⟨hok, Or.inr ⟨hblocked, fun d hd => ⟨hd.blocked hblocked, fun m₁ o₁ m₁' hm₁ hr₁ => ?_⟩⟩⟩
      have hstuck : Blocked m₁.disk vaultPath := by rwa [hm₁, hd.blocked hblocked]
      exact ((loadOrGenerate_blocked hstuck).apply hr₁).2
  · exact absurd hpath hfound.there

/-- A generation that is killed in the middle leaves its temporary file. -/
theorem left_over_blocks_killed :
    Blocked ((loadOrGenerate Reference.vaultPlace).run FirstStart.killed).2.disk Reference.vaultPlace ∧
      ∀ d, Retries Reference.vaultPlace ((loadOrGenerate Reference.vaultPlace).run FirstStart.killed).2.disk d →
        ∀ m o m', m.disk = d → (loadOrGenerate Reference.vaultPlace).run m = (o, m') → ∀ k, o ≠ .ok k := by
  have hleft : ((loadOrGenerate Reference.vaultPlace).run FirstStart.killed).2.disk.names
      (identityTemp Reference.vaultPlace) ≠ none := by decide +kernel
  rcases left_over_blocks (m := FirstStart.killed) rfl FirstStart.killed_loads with ⟨k, hk, -⟩ |
    ⟨-, hsame | ⟨hblocked, hstuck⟩⟩
  · cases hk
  · rw [hsame] at hleft
    exact absurd rfl hleft
  · exact ⟨hblocked, fun d hd => (hstuck d hd).2⟩

end BrokerIdentity

end SecretsVault
