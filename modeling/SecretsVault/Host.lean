import SecretsVault.Fs

/-!
# The host

`Host` is what the process runs on: the vault file, the audit log, the authorized folders, the two clocks, and what the
next calls to the operating system will do (random bytes, appends, saves, file-system calls), one entry of a stream for
each call. A stream entry can make its call fail, so a run over every host is a run over every pattern of failures.

`SameStore` relates hosts whose vault file and folders are the same; `SameClock` hosts with the same clocks.
-/

namespace SecretsVault

open Lib

/-- Wall-clock time, in nanoseconds since the epoch. -/
abbrev OffsetDateTime := Int

/-- Whole seconds as a duration. -/
def seconds (n : Nat) : Int := n * 1000000000

/-- Monotonic time and durations, in nanoseconds. -/
abbrev Instant := Nat

/-- The whole seconds of a duration. -/
def asSecs (d : Nat) : Nat := d / 1000000000

/-- A number of seconds on the clock. -/
def ofSecs (d : Nat) : Nat := d * 1000000000

/-- The first instant that the clock cannot hold: an addition that gets there panics. -/
def INSTANT_END : Instant := ofSecs 0x8000000000000000

theorem asSecs_add_ofSecs (n d : Nat) : asSecs (n + ofSecs d) = asSecs n + d := Nat.add_mul_div_right _ _ (by decide)

/-- An error of the operating system. -/
structure IoError where
  errno : Option Nat
  text : String
  deriving DecidableEq, Repr

def IoError.toVaultError (e : IoError) : VaultError := .io e.errno e.text

/-- The error of a raw call; a kernel without the call is not an error of the file system. -/
def IoError.lastOsError (e : IoError) : VaultError :=
  if e.errno = some ENOSYS then .protocol "kernel lacks openat2 support; refusing filesystem writes (fail closed)"
  else e.toVaultError

/-- What becomes of bytes written at the end of a file: all of them arrive, or a prefix and then an error. -/
inductive AppendOutcome where
  | ok
  | stop (written : Nat) (e : IoError)

/-- What the process runs on. -/
structure Host where
  vaultFile : Option Bytes
  auditFile : Option Bytes
  /-- Whether a live session holds the lock file of the vault. -/
  vaultOwned : Bool
  fs : FileSystem
  wall : OffsetDateTime
  mono : Instant
  rng : Nat → Option (Nat → UInt8)
  appends : Nat → AppendOutcome
  saves : Nat → Option IoError
  syscalls : Nat → Option IoError
  /-- How many draws of a loop over random identifiers are followed. -/
  patience : Nat

namespace Host

/-- Fill a buffer from the operating system's random source. -/
def randomBytes (n : Nat) : Prog VaultError Host (FixedBytes n) := .step fun h =>
  (match h.rng 0 with
    | none => .error (.io none "csprng failure")
    | some f => .ok ⟨List.ofFn fun i : Fin n => f i, by simp⟩,
   { h with rng := fun i => h.rng (i + 1) })

/-- The next file-system call: it may fail with an error of its own. -/
def ioCall : Prog VaultError Host Unit := .step fun h =>
  (match h.syscalls 0 with
    | none => .ok ()
    | some e => .error e.toVaultError,
   { h with syscalls := fun i => h.syscalls (i + 1) })

/-- The same where a kernel without the call is told apart. -/
def syscall : Prog VaultError Host Unit := .step fun h =>
  (match h.syscalls 0 with
    | none => .ok ()
    | some e => .error e.lastOsError,
   { h with syscalls := fun i => h.syscalls (i + 1) })

/-- Replace the vault file. The rename is the commit point: a failed save leaves the old file. -/
def saveAtomic (bytes : Bytes) : Prog VaultError Host Unit := .step fun h =>
  let rest := fun i => h.saves (i + 1)
  match h.saves 0 with
  | none => (.ok (), { h with vaultFile := some bytes, saves := rest })
  | some e => (.error e.toVaultError, { h with saves := rest })

/-- Append bytes to the audit log, which must exist. -/
def appendAudit (bytes : Bytes) : Prog VaultError Host Unit := .step fun h =>
  let rest := fun i => h.appends (i + 1)
  match h.auditFile with
  | none => (.error (.io (some ENOENT) "No such file or directory"), h)
  | some old =>
    match h.appends 0 with
    | .ok => (.ok (), { h with auditFile := some (old ++ bytes), appends := rest })
    | .stop k e => (.error e.toVaultError, { h with auditFile := some (old ++ bytes.take k), appends := rest })

/-- Create an empty audit log. It stops before the file exists, or at the sync after that. -/
def createAudit : Prog VaultError Host Unit := .step fun h =>
  let rest := fun i => h.appends (i + 1)
  match h.appends 0 with
  | .ok => (.ok (), { h with auditFile := some [], appends := rest })
  | .stop k e => (.error e.toVaultError,
      { h with auditFile := if k = 0 then h.auditFile else some [], appends := rest })

/-- Take the lock file of the vault: its directory or the file cannot be made, or somebody has locked it. -/
def acquireVault : Prog VaultError Host Unit := do
  ioCall
  .step fun h => if h.vaultOwned then (.error .busy, h) else (.ok (), { h with vaultOwned := true })

/-- The host without the answer of its next file-system call. -/
def called (h : Host) : Host := { h with syscalls := fun i => h.syscalls (i + 1) }

/-- The host once the lock file of the vault is taken. -/
def owning (h : Host) : Host := { h.called with vaultOwned := true }

/-- Let the lock file of the vault go. -/
def releaseVault (h : Host) : Host := { h with vaultOwned := false }

/-! ## The lock of the vault -/

/-- The lock is taken if nothing fails and nobody has it. -/
theorem acquireVault_of_free {h : Host} (hcall : h.syscalls 0 = none) (ho : h.vaultOwned = false) :
    acquireVault.run h = (.ok (), h.owning) := by
  rw [acquireVault, Prog.run_bind, ioCall, Prog.run_step, hcall]
  dsimp only
  rw [Prog.run_step, if_neg (by simp [ho])]
  rfl

theorem acquireVault_of_owned {h : Host} (hcall : h.syscalls 0 = none) (ho : h.vaultOwned = true) :
    acquireVault.run h = (.error .busy, h.called) := by
  rw [acquireVault, Prog.run_bind, ioCall, Prog.run_step, hcall]
  dsimp only
  rw [Prog.run_step, if_pos ho]
  rfl

theorem acquireVault_of_fails {h : Host} {e : IoError} (hcall : h.syscalls 0 = some e) :
    acquireVault.run h = (.error e.toVaultError, h.called) := by
  rw [acquireVault, Prog.run_bind, ioCall, Prog.run_step, hcall]
  rfl

/-- How the lock step ends. -/
theorem acquireVault_cases (h : Host) :
    (∃ e, acquireVault.run h = (.error e, h.called) ∧ (h.syscalls 0 = none → h.vaultOwned = true ∧ e = .busy)) ∨
      h.syscalls 0 = none ∧ h.vaultOwned = false ∧ acquireVault.run h = (.ok (), h.owning) := by
  cases hcall : h.syscalls 0 with
  | some e => exact .inl ⟨_, acquireVault_of_fails hcall, nofun⟩
  | none =>
    cases ho : h.vaultOwned with
    | true => exact .inl ⟨_, acquireVault_of_owned hcall ho, fun _ => ⟨rfl, rfl⟩⟩
    | false => exact .inr ⟨rfl, rfl, acquireVault_of_free hcall ho⟩

end Host

/-- A random 16-digit identifier. -/
def hexId : Prog VaultError Host String := do
  let b ← Host.randomBytes 8
  pure (hex b.1)

/-- Draw identifiers until one is free. A loop that is not followed to its end never returns. -/
def freshIdWithin (taken : String → Bool) : Nat → Prog VaultError Host String
  | 0 => .lift .panic
  | n + 1 => do
    let id ← hexId
    if taken id then freshIdWithin taken n else pure id

/-- An identifier that is not taken. -/
def freshId (taken : String → Bool) : Prog VaultError Host String := do
  let h ← Prog.get
  freshIdWithin taken h.patience

/-- A fresh credential: the credential, its digest and its display prefix. -/
def generateCapability [Crypto] : Prog VaultError Host (String × Digest × String) := do
  let b ← Host.randomBytes 32
  let token := Crypto.base64Url b.1
  let digest := tokenDigest token
  pure (token, digest, hex (digest.1.take 4))

/-- A one-time agent token. -/
def generateAgentToken [Crypto] : Prog VaultError Host (String × Digest × String) := generateCapability

end SecretsVault
