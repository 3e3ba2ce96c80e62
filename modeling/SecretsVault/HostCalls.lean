import SecretsVault.Calls

/-!
# Host calls of a call

What the programs on the host change of it: `Quiet` programs draw random bytes and ask the file system, `Undisturbed`
ones also write under the authorized folders. None of them touches the vault file, the audit log or the clocks.
-/

namespace SecretsVault

open Lib Lib.Prog

/-! ## Host calls that leave the files alone -/

/-- Random bytes, file-system calls and the folders may differ. -/
structure Host.Undisturbed (h h' : Host) : Prop where
  eq : ∃ fs rng syscalls, h' = { h with fs, rng, syscalls }

namespace Host

theorem Undisturbed.refl (h : Host) : Undisturbed h h := ⟨h.fs, h.rng, h.syscalls, rfl⟩

theorem Undisturbed.trans {a b c : Host} (h : Undisturbed a b) (h' : Undisturbed b c) : Undisturbed a c := by
  obtain ⟨f, r, y, rfl⟩ := h.eq
  obtain ⟨f', r', y', rfl⟩ := h'.eq
  exact ⟨f', r', y', rfl⟩

instance : IsPreorder Host Undisturbed := { refl := Undisturbed.refl, trans := fun _ _ _ => Undisturbed.trans }

/-- Only random bytes and file-system calls may differ. -/
structure Quiet (h h' : Host) : Prop where
  eq : ∃ rng syscalls, h' = { h with rng, syscalls }

theorem Quiet.refl (h : Host) : Quiet h h := ⟨h.rng, h.syscalls, rfl⟩

theorem Quiet.trans {a b c : Host} (h : Quiet a b) (h' : Quiet b c) : Quiet a c := by
  obtain ⟨r, y, rfl⟩ := h.eq
  obtain ⟨r', y', rfl⟩ := h'.eq
  exact ⟨r', y', rfl⟩

instance : IsPreorder Host Quiet := { refl := Quiet.refl, trans := fun _ _ _ => Quiet.trans }

theorem Quiet.undisturbed {h h' : Host} (hq : Quiet h h') : Undisturbed h h' := by
  obtain ⟨r, y, rfl⟩ := hq.eq
  exact ⟨h.fs, r, y, rfl⟩

theorem Quiet.fs {h h' : Host} (hq : Quiet h h') : h'.fs = h.fs := by
  obtain ⟨r, y, rfl⟩ := hq.eq
  rfl

theorem randomBytes_quiet (n : Nat) : Keeps Quiet (randomBytes n) := fun h => ⟨_, h.syscalls, rfl⟩

theorem syscall_quiet : Keeps Quiet syscall := fun h => ⟨h.rng, _, rfl⟩

theorem ioCall_quiet : Keeps Quiet ioCall := fun h => ⟨h.rng, _, rfl⟩

/-- None of the next calls fails. -/
structure Healthy (h : Host) : Prop where
  rng : ∀ i, (h.rng i).isSome
  appends : ∀ i, h.appends i = .ok
  saves : ∀ i, h.saves i = none
  syscalls : ∀ i, h.syscalls i = none

theorem randomBytes_returns {h : Host} (hh : h.Healthy) (n : Nat) :
    Returns (randomBytes n) h fun _ h' => Quiet h h' ∧ h'.Healthy := by
  obtain ⟨f, hf⟩ := Option.isSome_iff_exists.mp (hh.rng 0)
  refine ⟨_, _, by rw [randomBytes, run_step, hf], ⟨⟨_, h.syscalls, rfl⟩, ?_⟩⟩
  exact ⟨fun i => hh.rng (i + 1), hh.appends, hh.saves, hh.syscalls⟩

end Host

open Host

theorem hexId_quiet : Keeps Quiet hexId := (randomBytes_quiet 8).bind fun _ => keeps_pure _

theorem freshIdWithin_quiet (taken : String → Bool) (n : Nat) : Keeps Quiet (freshIdWithin taken n) := by
  induction n with
  | zero => exact keeps_lift _
  | succ n ih =>
    refine hexId_quiet.bind fun id => ?_
    split
    · exact ih
    · exact keeps_pure _

theorem freshId_quiet (taken : String → Bool) : Keeps Quiet (freshId taken) :=
  keeps_get_bind fun h => freshIdWithin_quiet taken h.patience h

theorem generateCapability_quiet [Crypto] : Keeps Quiet generateCapability :=
  (randomBytes_quiet 32).bind fun _ => keeps_pure _

/-! ## Decisions draw and read only -/

section

variable (doc : VaultDocument)

theorem doProjectAdd_quiet (name : String) (paths : List Path) : Keeps Quiet (doProjectAdd doc name paths) :=
  (keeps_lift _).bind fun _ => (freshId_quiet _).bind fun _ => keeps_get.bind fun _ => (keeps_lift _).bind fun _ =>
    keeps_pure _

theorem doProjectPathAdd_quiet (name : String) (path : Path) : Keeps Quiet (doProjectPathAdd doc name path) :=
  keeps_get.bind fun _ => (keeps_lift _).bind fun _ => keeps_pure _

theorem doProjectPathRemove_quiet (name : String) (path : Path) : Keeps Quiet (doProjectPathRemove doc name path) :=
  keeps_get.bind fun _ => (keeps_lift _).bind fun _ => keeps_pure _

theorem doProjectRemove_quiet (name : String) : Keeps Quiet (doProjectRemove doc name) := by
  unfold doProjectRemove
  split
  · exact keeps_fail _
  · split
    · exact keeps_fail _
    · exact (keeps_lift _).bind fun _ => keeps_pure _

theorem doSecretSet_quiet (project key : String) (value : Bytes) : Keeps Quiet (doSecretSet doc project key value) := by
  refine (keeps_lift _).bind fun _ => ?_
  split
  · exact keeps_fail _
  · refine keeps_get.bind fun _ => ?_
    split
    · exact keeps_pure _
    · exact (keeps_lift _).bind fun _ => keeps_pure _

theorem doSecretDelete_quiet (project key : String) : Keeps Quiet (doSecretDelete doc project key) := by
  unfold doSecretDelete
  split
  · exact keeps_fail _
  · split
    · exact keeps_fail _
    · exact keeps_pure _

theorem doAgentAdd_quiet [Crypto] (name : String) : Keeps Quiet (doAgentAdd doc name) :=
  (keeps_lift _).bind fun _ => generateCapability_quiet.bind fun _ => (freshId_quiet _).bind fun _ =>
    keeps_get.bind fun _ => keeps_pure _

end

theorem deciding_quiet (f : OffsetDateTime → Except VaultError VaultDocument) : Keeps Quiet (deciding f) :=
  keeps_get.bind fun _ => (keeps_lift _).bind fun _ => keeps_pure _

theorem mintLease_quiet [Crypto] (doc : VaultDocument) (agentId projectId : String) (ops : List Op) (ttlSecs : Nat)
    (now : OffsetDateTime) : Keeps Quiet (mintLease doc agentId projectId ops ttlSecs now) :=
  (freshId_quiet _).bind fun _ => generateCapability_quiet.bind fun _ => keeps_pure _

theorem mintApproval_quiet (doc : VaultDocument) (agentId projectId key : String) (now : OffsetDateTime) :
    Keeps Quiet (mintApproval doc agentId projectId key now) :=
  (freshId_quiet _).bind fun _ => keeps_pure _

/-! ## An injection writes under the folders only -/

theorem setNode_undisturbed (p : List String) (n : Option Node) : Keeps Undisturbed (Host.setNode p n) :=
  fun h => ⟨_, h.rng, h.syscalls, rfl⟩

theorem syscall_undisturbed : Keeps Undisturbed syscall := syscall_quiet.mono fun _ _ => Quiet.undisturbed

theorem ioCall_undisturbed : Keeps Undisturbed ioCall := ioCall_quiet.mono fun _ _ => Quiet.undisturbed

theorem openat2Dir_quiet (root : List String) (path : String) : Keeps Quiet (openat2Dir root path) := by
  unfold openat2Dir
  split
  · exact keeps_fail _
  · refine syscall_quiet.bind fun _ => keeps_get.bind fun h => ?_
    split
    · exact keeps_fail _
    · split
      · exact keeps_pure _
      · exact keeps_fail _

theorem openContainmentRoot_quiet (folder : Path) : Keeps Quiet (openContainmentRoot folder) := by
  unfold openContainmentRoot
  split
  · exact keeps_fail _
  · refine syscall_quiet.bind fun _ => ?_
    dsimp only
    split
    · exact keeps_fail _
    · exact openat2Dir_quiet _ _

theorem resolveTarget_quiet (root : List String) (relative : String) (folder : Path) :
    Keeps Quiet (resolveTarget root relative folder) := by
  have hname : ∀ parent : List String, Keeps Quiet
      (let fileName := (splitPath relative).getLastD ""
       if fileName = "." ∨ fileName = ".." ∨ fileName = "" then .fail (.invalidInput "invalid destination file name")
       else pure { parent, fileName, displayPath := joinPath folder relative } :
         Prog VaultError Host ContainedTarget) := by
    intro parent
    dsimp only
    split
    · exact keeps_fail _
    · exact keeps_pure _
  refine (keeps_lift _).bind fun _ => ?_
  dsimp only
  split
  · exact (ioCall_quiet.bind fun _ => keeps_pure _).bind hname
  · exact (openat2Dir_quiet _ _).bind hname

theorem createTemp_undisturbed (target : ContainedTarget) (n : Nat) : Keeps Undisturbed (createTemp target n) := by
  induction n with
  | zero => exact keeps_fail _
  | succ n ih =>
    refine ((randomBytes_quiet 8).mono fun _ _ => Quiet.undisturbed).bind fun b => ?_
    refine syscall_undisturbed.attempt.bind fun r => ?_
    split
    · split
      · split
        · exact ih
        · exact keeps_fail _
      · exact keeps_fail _
    · refine keeps_get.bind fun h => ?_
      split
      · exact ih
      · exact (setNode_undisturbed _ _).bind fun _ => keeps_pure _

theorem removingTemp_undisturbed {tmp : List String} {m : Prog VaultError Host Unit} (hm : Keeps Undisturbed m) :
    Keeps Undisturbed (removingTemp tmp m) := by
  refine hm.attempt.bind fun r => ?_
  split
  · exact keeps_pure _
  · exact (setNode_undisturbed _ _).bind fun _ => keeps_fail _

theorem writeFileAtomic_undisturbed (target : ContainedTarget) (bytes : Bytes) :
    Keeps Undisturbed (writeFileAtomic target bytes) := by
  unfold writeFileAtomic
  split
  · exact keeps_fail _
  · refine keeps_get.bind fun _ => ?_
    split
    · exact keeps_fail _
    · refine (createTemp_undisturbed _ _).bind fun tmp => ?_
      refine (removingTemp_undisturbed ?_).bind fun _ => removingTemp_undisturbed ?_
      · exact ioCall_undisturbed.bind fun _ => (setNode_undisturbed _ _).bind fun _ => ioCall_undisturbed
      · exact syscall_undisturbed.bind fun _ => (setNode_undisturbed _ _).bind fun _ => setNode_undisturbed _ _

theorem resolveUnder_quiet (folder : Path) (relative : String) : Keeps Quiet (resolveUnder folder relative) :=
  (openContainmentRoot_quiet _).bind fun _ => resolveTarget_quiet _ _ _

theorem injectUnder_undisturbed (folder : Path) (relative : String) (bytes : Bytes) :
    Keeps Undisturbed (injectUnder folder relative bytes) :=
  ((resolveUnder_quiet _ _).mono fun _ _ => Quiet.undisturbed).bind fun _ =>
    (writeFileAtomic_undisturbed _ _).bind fun _ => keeps_pure _

theorem injectFirst_undisturbed (relative : String) (bytes : Bytes) (last : VaultError) (folders : List Path) :
    Keeps Undisturbed (injectFirst relative bytes last folders) := by
  induction folders generalizing last with
  | nil => exact keeps_fail _
  | cons folder rest ih =>
    refine (injectUnder_undisturbed _ _ _).attempt.bind fun r => ?_
    split
    · exact keeps_pure _
    · exact ih _

theorem doInjectFile_undisturbed (doc : VaultDocument) (project relative : String) (keys : Option (List String)) :
    Keeps Undisturbed (doInjectFile doc project relative keys) :=
  (keeps_lift _).bind fun _ => (injectFirst_undisturbed _ _ _ _).bind fun _ => keeps_pure _

end SecretsVault
