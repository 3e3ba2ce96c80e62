import SecretsVault.Lib.Interleaving
import SecretsVault.ManagedRuns

/-!
# Launches and withdrawals

Any number of launches of `run_with_secrets`, each in the thread of its connection, and any number of withdrawals (a
lock, `agents.revoke`, `grants.revoke`, a narrowing `grants.grant`) take turns. A launch is authorized under the session
mutex and lets it go; it reserves a slot of the registry, records that it is allowed, spawns its child, activates the
slot, keeps it, records that it has started, and answers. A withdrawal holds the session mutex throughout: it takes
every matching entry out of the registry, ends the process groups it was handed, and answers.

- `runs_are_accounted_for`: the quotas hold; an entry is removed once, and handed to one party; a process group is ended
  once; no slot outlives its launch.
- `withdrawal_beats_launches`: once a withdrawal has answered, no launch that was authorized before it is live or
  answers `started`, unless the entries were taken out while the launch had no slot yet, or was about to answer.
- `launch_survives_withdrawal`: a launch that has its slot after a lock.
-/

namespace SecretsVault

open Lib

/-- Who is handed an entry of the registry. -/
inductive Party where
  /-- The thread of the run. -/
  | launch
  | withdrawal (d : Nat)
  deriving DecidableEq

/-- Where a launch stands. -/
inductive Stage where
  | arrived
  /-- It was refused before it had a slot. -/
  | denied
  /-- The agent may run on the project. The session mutex is let go. -/
  | authorized
  | reserved
  /-- It is recorded that the run is allowed. -/
  | allowed
  /-- There is a child, which leads a process group of its own. -/
  | spawned (pid : Nat)
  | active (pid : Nat)
  /-- The slot was taken before it was activated. -/
  | revoked (pid : Nat)
  /-- The child of such a run is ended, and its reservation is about to be dropped. -/
  | dropping (pid : Nat)
  /-- The slot is kept. -/
  | committed (pid : Nat)
  /-- It is recorded that the run has started. -/
  | recorded (pid : Nat)
  /-- `started` is answered. -/
  | started (pid : Nat)
  /-- The run has taken its own entry, and ends its process group. -/
  | finishing (pid : Nat)
  /-- There is nothing left to do for a run, which had a child or never had one. -/
  | closed (pid : Option Nat)
  deriving DecidableEq

/-- A launch in the thread of its connection. -/
structure Launch where
  agent : String
  project : String
  runId : String
  stage : Stage

/-- Where a withdrawal stands. -/
inductive Withdrawing where
  | waiting
  /-- It has the session mutex, and the authority is gone. -/
  | holding
  /-- It has taken the matching runs; these are left to be ended. -/
  | draining (left : RunRegistry)
  | answered

/-- A withdrawal from an agent, on a project, both or neither. -/
structure Withdrawal where
  agent : Option String
  project : Option String
  stage : Withdrawing

/-- What a withdrawal has still to end. -/
def Withdrawing.left : Withdrawing → RunRegistry
  | .draining left => left
  | _ => []

/-- The daemon as far as runs go. Who was handed the entry of a run, and who has ended its process group, is written
down for the statements only. -/
structure Launches where
  /-- The vault is unlocked, and the agent may run on the project. -/
  authority : String → String → Bool
  registry : RunRegistry
  launches : Nat → Launch
  withdrawals : Nat → Withdrawal
  /-- The withdrawal that has the session mutex. -/
  mutex : Option Nat
  receivers : String → List Party
  terminations : String → List Party

namespace Launches

/-- What happens next. -/
inductive Event where
  /-- Any other operation: agents are added, grants are given, the vault is unlocked. -/
  | meanwhile (authority : String → String → Bool)
  | authorize (i : Nat)
  /-- What the run asks for is not there or is not permitted. -/
  | deny (i : Nat)
  | reserve (i : Nat) (now : OffsetDateTime)
  | allow (i : Nat)
  /-- The record cannot be written, or the child cannot be spawned. -/
  | giveUp (i : Nat)
  | spawn (i pid : Nat)
  | activate (i : Nat)
  | commit (i : Nat)
  | recordStarted (i : Nat)
  | answerStarted (i : Nat)
  /-- The child has exited, its time is over, the client is gone, or a record or an answer cannot be written. -/
  | finish (i : Nat)
  | terminate (i : Nat)
  | drop (i : Nat)
  | begin (d : Nat)
  | drain (d : Nat)
  | kill (d : Nat)
  | answer (d : Nat)

/-- What a withdrawal is about. -/
def matching (d : Withdrawal) (agent project : String) : Bool :=
  (match d.agent with
    | some a => agent == a
    | none => true) &&
  (match d.project with
    | some p => project == p
    | none => true)

variable (w : Launches)

def setStage (i : Nat) (stage : Stage) : Launches :=
  { w with launches := Function.update w.launches i { w.launches i with stage } }

def setWithdrawing (d : Nat) (stage : Withdrawing) : Launches :=
  { w with withdrawals := Function.update w.withdrawals d { w.withdrawals d with stage } }

/-- Entries are handed to who takes them. -/
def hand (p : Party) (taken : RunRegistry) : Launches :=
  { w with receivers := fun id => if (taken.lookup id).isSome then w.receivers id ++ [p] else w.receivers id }

/-- A process group is ended. -/
def terminated (p : Party) (runId : String) : Launches :=
  { w with terminations := Function.update w.terminations runId (w.terminations runId ++ [p]) }

/-- A launch takes its own entry out of the registry, if it is there. -/
def removeOwn (i : Nat) : Launches :=
  let id := (w.launches i).runId
  { w.hand .launch (w.registry.filter fun e => e.1 == id) with registry := w.registry.remove id }

def step : Event → Option Launches
  | .meanwhile authority =>
    match w.mutex with
    | none => some { w with authority }
    | some _ => none
  | .authorize i =>
    match w.mutex, (w.launches i).stage with
    | none, .arrived =>
      some (w.setStage i (if w.authority (w.launches i).agent (w.launches i).project then .authorized else .denied))
    | _, _ => none
  | .deny i =>
    match (w.launches i).stage with
    | .arrived | .authorized => some (w.setStage i .denied)
    | _ => none
  | .reserve i now =>
    match (w.launches i).stage with
    | .authorized =>
      match w.registry.tryReserve (w.launches i).agent (w.launches i).project (w.launches i).runId now with
      | .ok registry => some { w.setStage i .reserved with registry }
      | .error _ => some (w.setStage i .denied)
    | _ => none
  | .allow i =>
    match w.mutex, (w.launches i).stage with
    | none, .reserved => some (w.setStage i .allowed)
    | _, _ => none
  | .giveUp i =>
    match (w.launches i).stage with
    | .reserved | .allowed => some ((w.removeOwn i).setStage i (.closed none))
    | _ => none
  | .spawn i pid =>
    match (w.launches i).stage with
    | .allowed => if 0 < pid then some (w.setStage i (.spawned pid)) else none
    | _ => none
  | .activate i =>
    match (w.launches i).stage with
    | .spawned pid =>
      match w.registry.activate (w.launches i).runId pid pid with
      | some registry => some { w.setStage i (.active pid) with registry }
      | none => some (w.setStage i (.revoked pid))
    | _ => none
  | .commit i =>
    match (w.launches i).stage with
    | .active pid => some (w.setStage i (.committed pid))
    | _ => none
  | .recordStarted i =>
    match w.mutex, (w.launches i).stage with
    | none, .committed pid => some (w.setStage i (.recorded pid))
    | _, _ => none
  | .answerStarted i =>
    match (w.launches i).stage with
    | .recorded pid => some (w.setStage i (.started pid))
    | _ => none
  | .finish i =>
    match (w.launches i).stage with
    | .committed pid | .recorded pid | .started pid =>
      if (w.registry.lookup (w.launches i).runId).isSome then some ((w.removeOwn i).setStage i (.finishing pid))
      else some (w.setStage i (.closed (some pid)))
    | _ => none
  | .terminate i =>
    match (w.launches i).stage with
    | .finishing pid => some ((w.terminated .launch (w.launches i).runId).setStage i (.closed (some pid)))
    | .revoked pid => some ((w.terminated .launch (w.launches i).runId).setStage i (.dropping pid))
    | _ => none
  | .drop i =>
    match (w.launches i).stage with
    | .dropping pid => some ((w.removeOwn i).setStage i (.closed (some pid)))
    | _ => none
  | .begin d =>
    match w.mutex, (w.withdrawals d).stage with
    | none, .waiting =>
      let authority := fun agent project => w.authority agent project && !matching (w.withdrawals d) agent project
      some { w.setWithdrawing d .holding with mutex := some d, authority }
    | _, _ => none
  | .drain d =>
    match (w.withdrawals d).stage with
    | .holding =>
      let taken := w.registry.takeMatching (w.withdrawals d).agent (w.withdrawals d).project
      some { (w.hand (.withdrawal d) taken.1).setWithdrawing d (.draining taken.1) with registry := taken.2 }
    | _ => none
  | .kill d =>
    match (w.withdrawals d).stage with
    | .draining ((id, run) :: left) =>
      some ((if 0 < run.pgid then w.terminated (.withdrawal d) id else w).setWithdrawing d (.draining left))
    | _ => none
  | .answer d =>
    match (w.withdrawals d).stage with
    | .draining [] => some { w.setWithdrawing d .answered with mutex := none }
    | _ => none

variable {w} in
@[simp] theorem setStage_same {i : Nat} {stage : Stage} :
    (w.setStage i stage).launches i = { w.launches i with stage } := Function.update_self ..

variable {w} in
@[simp] theorem setStage_other {i j : Nat} {stage : Stage} (h : j ≠ i) :
    (w.setStage i stage).launches j = w.launches j := Function.update_of_ne h ..

variable {w} in
@[simp] theorem setWithdrawing_same {d : Nat} {stage : Withdrawing} :
    (w.setWithdrawing d stage).withdrawals d = { w.withdrawals d with stage } := Function.update_self ..

variable {w} in
@[simp] theorem setWithdrawing_other {c d : Nat} {stage : Withdrawing} (h : c ≠ d) :
    (w.setWithdrawing d stage).withdrawals c = w.withdrawals c := Function.update_of_ne h ..

/-- Nothing has happened, and no two launches have one name. -/
structure Fresh : Prop where
  registry : w.registry = []
  launches : ∀ i, (w.launches i).stage = .arrived
  withdrawals : ∀ d, (w.withdrawals d).stage = .waiting
  mutex : w.mutex = none
  receivers : ∀ id, w.receivers id = []
  terminations : ∀ id, w.terminations id = []
  distinct : ∀ i j, (w.launches i).runId = (w.launches j).runId → i = j

/-! ## Where an entry is -/

end Launches

/-- Where the entry of a run is. -/
inductive Place where
  | nowhere
  | kept (m : RunMeta)
  /-- A withdrawal has it, and has still to end the process group. -/
  | taken (d : Nat) (m : RunMeta)
  /-- The withdrawal that had it is done with it. -/
  | ended (d : Nat)
  /-- The launch has taken it. -/
  | own

namespace Place

def entry : Place → Option RunMeta
  | kept m => some m
  | _ => none

def receivers : Place → List Party
  | nowhere | kept _ => []
  | taken d _ | ended d => [.withdrawal d]
  | own => [.launch]

/-- What a withdrawal has still to end. -/
def pending (d : Nat) : Place → Option RunMeta
  | taken d' m => if d = d' then some m else none
  | _ => none

/-- The entry is a launch's, with the number of its process group; who has ended the group is the launch as often as
`mine` says, and then whoever took the entry. -/
def Carries (l : Launch) (k : Int) (mine ends : List Party) : Place → Prop
  | kept m | taken _ m => m.agent = l.agent ∧ m.project = l.project ∧ m.pgid = k ∧ ends = mine
  | ended d => ends = if 0 < k then mine ++ [.withdrawal d] else mine
  | nowhere | own => False

/-- What a launch knows of its entry from where it stands. -/
def Fits (l : Launch) (x : Place) (ends : List Party) : Prop :=
  match l.stage with
  | .arrived | .denied | .authorized => x = .nowhere ∧ ends = []
  | .reserved | .allowed => x.Carries l 0 [] ends
  | .spawned pid => 0 < pid ∧ x.Carries l 0 [] ends
  | .active pid | .committed pid | .recorded pid | .started pid => 0 < pid ∧ x.Carries l pid [] ends
  | .revoked _ => x.entry = none ∧ x.Carries l 0 [] ends
  | .dropping _ => x.entry = none ∧ x.Carries l 0 [.launch] ends
  | .finishing pid => 0 < pid ∧ x = .own ∧ ends = []
  | .closed none => x = .own ∧ ends = [] ∨ x.entry = none ∧ x.Carries l 0 [] ends
  | .closed (some pid) =>
    x = .own ∧ ends = [.launch] ∨
      x.entry = none ∧ (0 < pid ∧ x.Carries l pid [] ends ∨ x.Carries l 0 [.launch] ends)

variable {l : Launch} {m : RunMeta} {ends : List Party} {d : Nat}

/-- A launch that has its entry in the registry may lose it to a withdrawal. -/
theorem Fits.take (h : Fits l (kept m) ends) : Fits l (taken d m) ends := by
  obtain ⟨agent, project, runId, stage⟩ := l
  cases stage with
  | closed pid => cases pid <;> simp [Fits, entry] at h
  | _ => first | exact h | simp [Fits, entry] at h

/-- An entry in the registry names who the launch is for. -/
theorem Fits.owner (h : Fits l (kept m) ends) : m.agent = l.agent ∧ m.project = l.project := by
  obtain ⟨agent, project, runId, stage⟩ := l
  cases stage with
  | arrived | denied | authorized => cases h.1
  | finishing pid => cases h.2.1
  | reserved | allowed => exact ⟨h.1, h.2.1⟩
  | spawned pid | active pid | committed pid | recorded pid | started pid => exact ⟨h.2.1, h.2.2.1⟩
  | revoked pid | dropping pid => cases h.1
  | closed pid => cases pid <;> simp [Fits, entry] at h

theorem Carries.stop {k : Int} {mine : List Party} (h : Carries l k mine ends (taken d m)) :
    Carries l k mine (ends ++ if 0 < m.pgid then [.withdrawal d] else []) (ended d) := by
  obtain ⟨-, -, hk, hends⟩ := h
  rw [Carries, hk, hends]
  by_cases hpos : 0 < k
  · rw [if_pos hpos, if_pos hpos]
  · rw [if_neg hpos, if_neg hpos, List.append_nil]

/-- A launch whose entry has no process group ends its own. -/
theorem Carries.own {x : Place} (h : Carries l 0 [] ends x) : Carries l 0 [.launch] (ends ++ [.launch]) x := by
  cases x with
  | kept m | taken d m => exact ⟨h.1, h.2.1, h.2.2.1, by rw [h.2.2.2]; rfl⟩
  | ended d =>
    have hends : ends = [] := h
    rw [hends]
    rfl
  | nowhere | own => cases h

/-- A withdrawal ends what it has taken. -/
theorem Fits.stop (h : Fits l (taken d m) ends) :
    Fits l (ended d) (ends ++ if 0 < m.pgid then [.withdrawal d] else []) := by
  obtain ⟨agent, project, runId, stage⟩ := l
  cases stage with
  | arrived | denied | authorized => exact absurd h.1 (by simp)
  | finishing pid => exact absurd h.2.1 (by simp)
  | reserved | allowed => exact Carries.stop h
  | spawned pid | active pid | committed pid | recorded pid | started pid | revoked pid | dropping pid =>
    exact ⟨h.1, h.2.stop⟩
  | closed pid =>
    cases pid with
    | none =>
      obtain ⟨hx, -⟩ | ⟨-, hc⟩ := h
      · cases hx
      · exact Or.inr ⟨rfl, hc.stop⟩
    | some pid =>
      obtain ⟨hx, -⟩ | ⟨-, ⟨hpos, hc⟩ | hc⟩ := h
      · cases hx
      · exact Or.inr ⟨rfl, Or.inl ⟨hpos, hc.stop⟩⟩
      · exact Or.inr ⟨rfl, Or.inr hc.stop⟩

end Place

namespace Launches

variable {w w' : Launches}

/-- The entry of a run is there, and nowhere else. -/
structure At (w : Launches) (id : String) (x : Place) : Prop where
  entry : w.registry.lookup id = x.entry
  receivers : w.receivers id = x.receivers
  pending : ∀ d, (w.withdrawals d).stage.left.lookup id = x.pending d

/-- What holds between any two steps. -/
structure Sound (w : Launches) : Prop where
  registry : w.registry.WithinQuota
  left : ∀ d, (w.withdrawals d).stage.left.Distinct
  distinct : ∀ i j, (w.launches i).runId = (w.launches j).runId → i = j
  known : ∀ id, w.registry.lookup id ≠ none → ∃ i, (w.launches i).runId = id
  taken : ∀ d id, (w.withdrawals d).stage.left.lookup id ≠ none → ∃ i, (w.launches i).runId = id
  fits : ∀ i, ∃ x, w.At (w.launches i).runId x ∧ x.Fits (w.launches i) (w.terminations (w.launches i).runId)

theorem Fresh.sound (hw : w.Fresh) : w.Sound where
  registry := hw.registry ▸ RunRegistry.withinQuota_nil
  left d := by
    rw [hw.withdrawals]
    exact List.nodup_nil
  distinct := hw.distinct
  known id h := by
    rw [hw.registry] at h
    exact absurd rfl h
  taken d id h := by
    rw [hw.withdrawals] at h
    exact absurd rfl h
  fits i := by
    refine ⟨.nowhere, ⟨?_, hw.receivers _, fun d => ?_⟩, ?_⟩
    · rw [hw.registry]
      rfl
    · rw [hw.withdrawals]
      rfl
    · rw [Place.Fits, hw.launches]
      exact ⟨rfl, hw.terminations _⟩

/-! ### Steps of a launch -/

/-- A step of a launch concerns its own entry only. -/
theorem Sound.launch (hw : w.Sound) {i : Nat} {stage : Stage}
    (hl : w'.launches = Function.update w.launches i { w.launches i with stage }) (hreg : w'.registry.WithinQuota)
    (hd : w'.withdrawals = w.withdrawals)
    (hother : ∀ id, id ≠ (w.launches i).runId → w'.registry.lookup id = w.registry.lookup id ∧
      w'.receivers id = w.receivers id ∧ w'.terminations id = w.terminations id)
    (hown : ∀ x, w.At (w.launches i).runId x → x.Fits (w.launches i) (w.terminations (w.launches i).runId) →
      ∃ x', w'.At (w.launches i).runId x' ∧
        x'.Fits { w.launches i with stage } (w'.terminations (w.launches i).runId)) : w'.Sound := by
  have hid : ∀ j, (w'.launches j).runId = (w.launches j).runId := fun j => by
    rw [hl]
    by_cases hj : j = i
    · subst hj
      simp
    · simp [hj]
  refine ⟨hreg, fun d => hd ▸ hw.left d, fun j k hjk => ?_, fun id hknown => ?_, fun d id h => ?_, fun j => ?_⟩
  · rw [hid, hid] at hjk
    exact hw.distinct j k hjk
  · by_cases h : id = (w.launches i).runId
    · exact ⟨i, (hid i).trans h.symm⟩
    · rw [(hother id h).1] at hknown
      obtain ⟨j, hj⟩ := hw.known id hknown
      exact ⟨j, (hid j).trans hj⟩
  · rw [hd] at h
    obtain ⟨j, hj⟩ := hw.taken d id h
    exact ⟨j, (hid j).trans hj⟩
  · obtain ⟨x, hat, hfits⟩ := hw.fits j
    rw [hid]
    by_cases hj : j = i
    · subst hj
      rw [hl, Function.update_self]
      exact hown x hat hfits
    · have hne : (w.launches j).runId ≠ (w.launches i).runId := fun h => hj (hw.distinct j i h)
      obtain ⟨hlookup, hreceivers, hterminations⟩ := hother _ hne
      rw [hl, Function.update_of_ne hj, hterminations]
      exact ⟨x, ⟨hlookup.trans hat.entry, hreceivers.trans hat.receivers, fun d => hd ▸ hat.pending d⟩, hfits⟩

/-- A step that only moves a launch on. -/
theorem Sound.advance (hw : w.Sound) {i : Nat} {stage stage' : Stage} (hstage : (w.launches i).stage = stage)
    (hfits : ∀ (l : Launch) x ends, Place.Fits { l with stage } x ends → Place.Fits { l with stage := stage' } x ends) :
    (w.setStage i stage').Sound := by
  subst hstage
  exact hw.launch rfl hw.registry rfl (fun _ _ => ⟨rfl, rfl, rfl⟩) fun x hat hx =>
    ⟨x, ⟨hat.1, hat.2, hat.3⟩, hfits (w.launches i) x _ hx⟩

/-- The same, where the entry is found to be gone. -/
theorem Sound.miss (hw : w.Sound) {i : Nat} {stage stage' : Stage} (hstage : (w.launches i).stage = stage)
    (hgone : w.registry.lookup (w.launches i).runId = none)
    (hfits : ∀ (l : Launch) x ends, x.entry = none → Place.Fits { l with stage } x ends →
      Place.Fits { l with stage := stage' } x ends) : (w.setStage i stage').Sound := by
  subst hstage
  refine hw.launch rfl hw.registry rfl (fun _ _ => ⟨rfl, rfl, rfl⟩) fun x hat hx => ⟨x, ⟨hat.1, hat.2, hat.3⟩, ?_⟩
  exact hfits (w.launches i) x _ (hat.entry.symm.trans hgone) hx

/-- A launch takes its own entry, if it is there. -/
theorem Sound.removeOwn (hw : w.Sound) {i : Nat} {stage stage' : Stage} (hstage : (w.launches i).stage = stage)
    (hkept : ∀ (l : Launch) m ends, Place.Fits { l with stage } (.kept m) ends →
      Place.own.Fits { l with stage := stage' } ends)
    (hfits : w.registry.lookup (w.launches i).runId = none → ∀ (l : Launch) x ends, x.entry = none →
      Place.Fits { l with stage } x ends → Place.Fits { l with stage := stage' } x ends) :
    ((w.removeOwn i).setStage i stage').Sound := by
  subst hstage
  have hlookup : ∀ id, (w.registry.remove (w.launches i).runId).lookup id =
      if id = (w.launches i).runId then none else w.registry.lookup id := fun id => by
    rw [RunRegistry.remove, RunRegistry.lookup_filter hw.registry.distinct]
    by_cases h : id = (w.launches i).runId
    · simp [h]
    · cases w.registry.lookup id <;> simp [h, Option.filter]
  have htaken : ∀ id, RunRegistry.lookup (w.registry.filter fun e => e.1 == (w.launches i).runId) id =
      if id = (w.launches i).runId then w.registry.lookup id else none := fun id => by
    rw [RunRegistry.lookup_filter hw.registry.distinct]
    by_cases h : id = (w.launches i).runId
    · cases w.registry.lookup id <;> simp [h, Option.filter]
    · simp [h]
  refine hw.launch rfl (hw.registry.filter _) rfl (fun id hne => ⟨?_, ?_, rfl⟩) fun x hat hx => ?_
  · change RunRegistry.lookup (w.registry.remove (w.launches i).runId) id = _
    rw [hlookup, if_neg hne]
  · simp only [Launches.setStage, Launches.removeOwn, hand, htaken]
    simp [hne]
  · have hreceivers : ((w.removeOwn i).setStage i stage').receivers (w.launches i).runId =
        if (w.registry.lookup (w.launches i).runId).isSome then w.receivers (w.launches i).runId ++ [.launch]
        else w.receivers (w.launches i).runId := by
      simp only [Launches.setStage, Launches.removeOwn, hand, htaken]
      simp
    have hentry : ((w.removeOwn i).setStage i stage').registry.lookup (w.launches i).runId = none := by
      change RunRegistry.lookup (w.registry.remove (w.launches i).runId) _ = _
      rw [hlookup, if_pos rfl]
    rw [hat.entry, hat.receivers] at hreceivers
    have hstay : x.entry = none → ∃ x', ((w.removeOwn i).setStage i stage').At (w.launches i).runId x' ∧
        x'.Fits { w.launches i with stage := stage' } (w.terminations (w.launches i).runId) := fun hx' => by
      rw [hx'] at hreceivers
      exact ⟨x, ⟨hentry.trans hx'.symm, hreceivers, hat.pending⟩,
        hfits (hat.entry.trans hx') (w.launches i) x _ hx' hx⟩
    cases x with
    | kept m => exact ⟨.own, ⟨hentry, hreceivers, hat.pending⟩, hkept (w.launches i) m _ hx⟩
    | nowhere => exact hstay rfl
    | taken d m => exact hstay rfl
    | ended d => exact hstay rfl
    | own => exact hstay rfl

theorem Sound.reserve (hw : w.Sound) {i : Nat} {now : OffsetDateTime} {registry : RunRegistry}
    (hstage : (w.launches i).stage = .authorized)
    (h : w.registry.tryReserve (w.launches i).agent (w.launches i).project (w.launches i).runId now = .ok registry) :
    ({ w.setStage i .reserved with registry } : Launches).Sound := by
  obtain ⟨hfree, -, -, hr⟩ := RunRegistry.tryReserve_eq_ok h
  have hlookup : ∀ id, registry.lookup id = (w.registry.lookup id).or (if (w.launches i).runId = id then
      some { agent := (w.launches i).agent, project := (w.launches i).project, pid := 0, pgid := 0, startedAt := now }
      else none) := fun id => by
    rw [hr, RunRegistry.lookup_append, RunRegistry.lookup_cons]
    rfl
  refine hw.launch rfl (hw.registry.reserve h) rfl (fun id hne => ⟨?_, rfl, rfl⟩) fun x hat hx => ?_
  · change registry.lookup id = _
    rw [hlookup, if_neg (Ne.symm hne), Option.or_none]
  · rw [Place.Fits, hstage] at hx
    obtain ⟨rfl, hends⟩ := hx
    refine ⟨.kept ⟨(w.launches i).agent, (w.launches i).project, 0, 0, now⟩, ⟨?_, hat.receivers, hat.pending⟩,
      rfl, rfl, rfl, hends⟩
    change registry.lookup _ = _
    rw [hlookup, hfree, if_pos rfl]
    rfl

theorem Sound.activate (hw : w.Sound) {i pid : Nat} {registry : RunRegistry}
    (hstage : (w.launches i).stage = .spawned pid)
    (h : w.registry.activate (w.launches i).runId pid pid = some registry) :
    ({ w.setStage i (.active pid) with registry } : Launches).Sound := by
  have hlookup : ∀ id, registry.lookup id = if id = (w.launches i).runId then
      (w.registry.lookup id).map fun m => { m with pid, pgid := pid } else w.registry.lookup id := fun id => by
    rw [RunRegistry.activate_eq_some h, RunRegistry.lookup_record]
  refine hw.launch rfl (hw.registry.activate h) rfl (fun id hne => ⟨?_, rfl, rfl⟩) fun x hat hx => ?_
  · change registry.lookup id = _
    rw [hlookup, if_neg hne]
  · rw [Place.Fits, hstage] at hx
    obtain ⟨hpid, hx⟩ := hx
    have hentry : (w.registry.lookup (w.launches i).runId).isSome := by
      rw [Option.isSome_iff_ne_none]
      intro hnone
      rw [RunRegistry.activate_eq_none.mpr hnone] at h
      cases h
    rw [hat.entry] at hentry
    cases x with
    | kept m =>
      obtain ⟨hagent, hproject, -, hends⟩ := hx
      refine ⟨.kept { m with pid, pgid := pid }, ⟨?_, hat.receivers, hat.pending⟩, hpid, hagent, hproject, rfl, hends⟩
      change registry.lookup _ = _
      rw [hlookup, if_pos rfl, hat.entry]
      rfl
    | nowhere => cases hentry
    | taken d m => cases hentry
    | ended d => cases hentry
    | own => cases hentry

/-- A launch ends its process group. -/
theorem Sound.terminated (hw : w.Sound) {i : Nat} {stage stage' : Stage} (hstage : (w.launches i).stage = stage)
    (hfits : ∀ (l : Launch) x ends, Place.Fits { l with stage } x ends →
      Place.Fits { l with stage := stage' } x (ends ++ [.launch])) :
    ((w.terminated .launch (w.launches i).runId).setStage i stage').Sound := by
  subst hstage
  refine hw.launch rfl hw.registry rfl (fun id hne => ⟨rfl, rfl, ?_⟩) fun x hat hx => ⟨x, ⟨hat.1, hat.2, hat.3⟩, ?_⟩
  · exact Function.update_of_ne hne _ _
  · have hends : ((w.terminated .launch (w.launches i).runId).setStage i stage').terminations (w.launches i).runId =
        w.terminations (w.launches i).runId ++ [.launch] := Function.update_self ..
    rw [hends]
    exact hfits (w.launches i) x _ hx

/-! ### Steps of a withdrawal -/

/-- A withdrawal that has taken nothing, or is done, moves on. -/
theorem Sound.setWithdrawing (hw : w.Sound) {d : Nat} {stage : Withdrawing} (hl : w'.launches = w.launches)
    (hr : w'.registry = w.registry) (hd : w'.withdrawals = (w.setWithdrawing d stage).withdrawals)
    (hrec : w'.receivers = w.receivers) (hterm : w'.terminations = w.terminations)
    (hleft : (w.withdrawals d).stage.left = stage.left) : w'.Sound := by
  have hsame : ∀ e, (w'.withdrawals e).stage.left = (w.withdrawals e).stage.left := fun e => by
    rw [hd, Launches.setWithdrawing]
    by_cases he : e = d
    · subst he
      simp [hleft]
    · simp [he]
  refine ⟨hr ▸ hw.registry, fun e => hsame e ▸ hw.left e, hl ▸ hw.distinct, hr ▸ hl ▸ hw.known, fun e id h => ?_,
    fun i => ?_⟩
  · rw [hsame] at h
    exact hl ▸ hw.taken e id h
  obtain ⟨x, hat, hfits⟩ := hw.fits i
  rw [hl, hterm]
  refine ⟨x, ⟨hr ▸ hat.entry, hrec ▸ hat.receivers, fun e => ?_⟩, hfits⟩
  rw [hsame]
  exact hat.pending e

/-- A withdrawal takes every matching entry. -/
theorem Sound.drain (hw : w.Sound) {d : Nat} (hstage : (w.withdrawals d).stage = .holding)
    {taken : RunRegistry × RunRegistry}
    (ht : w.registry.takeMatching (w.withdrawals d).agent (w.withdrawals d).project = taken) :
    ({ (w.hand (.withdrawal d) taken.1).setWithdrawing d (.draining taken.1) with registry := taken.2 } :
      Launches).Sound := by
  subst ht
  refine ⟨hw.registry.takeMatching_snd _ _, fun e => ?_, hw.distinct, fun id hknown => hw.known id fun h => hknown ?_,
    fun e id htaken => ?_, fun i => ?_⟩
  · by_cases he : e = d
    · subst he
      simpa [Launches.setWithdrawing, Withdrawing.left] using hw.registry.distinct.takeMatching_fst _ _
    · simpa [Launches.setWithdrawing, hand, he] using hw.left e
  · refine (RunRegistry.lookup_takeMatching_snd hw.registry.distinct _ _ id).trans ?_
    rw [h]
    rfl
  · by_cases he : e = d
    · subst he
      refine hw.known id fun h => htaken ?_
      simp only [Launches.setWithdrawing, hand, Function.update_self, Withdrawing.left]
      rw [RunRegistry.lookup_takeMatching_fst hw.registry.distinct, h]
      rfl
    · simp only [Launches.setWithdrawing, hand, Function.update_of_ne he] at htaken
      exact hw.taken e id htaken
  · obtain ⟨x, hat, hfits⟩ := hw.fits i
    have hmine := RunRegistry.lookup_takeMatching_fst hw.registry.distinct (w.withdrawals d).agent
      (w.withdrawals d).project (w.launches i).runId
    have hrest := RunRegistry.lookup_takeMatching_snd hw.registry.distinct (w.withdrawals d).agent
      (w.withdrawals d).project (w.launches i).runId
    have hnone : x.pending d = none := by
      rw [← hat.pending d, hstage]
      rfl
    rw [hat.entry] at hmine hrest
    by_cases hx : ∃ m, x = .kept m ∧ RunRegistry.matching (w.withdrawals d).agent (w.withdrawals d).project m = true
    · obtain ⟨m, rfl, hm⟩ := hx
      refine ⟨.taken d m, ⟨?_, ?_, fun e => ?_⟩, hfits.take⟩
      · exact hrest.trans (by simp [Place.entry, Option.filter, hm])
      · simp only [Launches.setWithdrawing, hand]
        rw [hmine, hat.receivers]
        simp [Place.entry, Place.receivers, Option.filter, hm]
      · by_cases he : e = d
        · subst he
          simp only [Launches.setWithdrawing, hand, Function.update_self, Withdrawing.left]
          rw [hmine]
          simp [Place.entry, Place.pending, Option.filter, hm]
        · simpa [Launches.setWithdrawing, hand, he, Place.pending] using hat.pending e
    · have hunmatched : ∀ m, x.entry = some m →
          RunRegistry.matching (w.withdrawals d).agent (w.withdrawals d).project m = false := fun m hm => by
        cases x with
        | kept m' =>
          cases hm
          exact Bool.eq_false_iff.mpr fun h => hx ⟨m, rfl, h⟩
        | nowhere | taken d m' | ended d | own => cases hm
      have hnot : (w.registry.takeMatching (w.withdrawals d).agent (w.withdrawals d).project).1.lookup
          (w.launches i).runId = none := by
        rw [hmine, Option.filter_eq_none_iff]
        intro m hm
        simp [hunmatched m hm]
      refine ⟨x, ⟨?_, ?_, fun e => ?_⟩, hfits⟩
      · refine hrest.trans ?_
        cases hentry : x.entry with
        | none => rfl
        | some m => simp [Option.filter, hunmatched m hentry]
      · simp only [Launches.setWithdrawing, hand]
        rw [hnot, hat.receivers]
        rfl
      · by_cases he : e = d
        · subst he
          simp only [Launches.setWithdrawing, hand, Function.update_self, Withdrawing.left]
          rw [hnot, hnone]
        · simpa [Launches.setWithdrawing, hand, he] using hat.pending e

/-- A withdrawal ends the next of the runs it has taken. -/
theorem Sound.kill (hw : w.Sound) {d : Nat} {id : String} {run : RunMeta} {left : RunRegistry}
    (hstage : (w.withdrawals d).stage = .draining ((id, run) :: left)) :
    ((if 0 < run.pgid then w.terminated (.withdrawal d) id else w).setWithdrawing d (.draining left)).Sound := by
  have hleft : (w.withdrawals d).stage.left = (id, run) :: left := by rw [hstage]; rfl
  have hdistinct := hw.left d
  rw [hleft, RunRegistry.Distinct, List.map_cons, List.nodup_cons] at hdistinct
  have hgone : RunRegistry.lookup left id = none := RunRegistry.lookup_eq_none.mpr hdistinct.1
  set v := if 0 < run.pgid then w.terminated (.withdrawal d) id else w with hv
  have hterm : ∀ other, v.terminations other =
      if other = id then w.terminations id ++ (if 0 < run.pgid then [.withdrawal d] else [])
      else w.terminations other := by
    intro other
    rw [hv]
    by_cases hpos : 0 < run.pgid <;> by_cases ho : other = id <;> simp [Launches.terminated, hpos, ho]
  have hregistry : v.registry = w.registry := by rw [hv]; split <;> rfl
  have hlaunches : v.launches = w.launches := by rw [hv]; split <;> rfl
  have hreceivers : v.receivers = w.receivers := by rw [hv]; split <;> rfl
  have hwithdrawals : v.withdrawals = w.withdrawals := by rw [hv]; split <;> rfl
  have hpending : ∀ e, ((v.setWithdrawing d (.draining left)).withdrawals e).stage.left =
      if e = d then left else (w.withdrawals e).stage.left := fun e => by
    by_cases he : e = d
    · subst he
      simp [Launches.setWithdrawing, Withdrawing.left]
    · simp [Launches.setWithdrawing, hwithdrawals, he]
  refine ⟨hregistry ▸ hw.registry, fun e => ?_, hlaunches ▸ hw.distinct, hregistry ▸ hlaunches ▸ hw.known,
    fun e other h => ?_, fun i => ?_⟩
  · rw [hpending]
    by_cases he : e = d
    · rw [if_pos he]
      exact hdistinct.2
    · rw [if_neg he]
      exact hw.left e
  · change ∃ i, (v.launches i).runId = other
    rw [hpending] at h
    rw [hlaunches]
    by_cases he : e = d
    · rw [if_pos he] at h
      refine hw.taken d other fun hnone => h ?_
      rw [hleft, RunRegistry.lookup_cons] at hnone
      split at hnone
      · cases hnone
      · exact hnone
    · rw [if_neg he] at h
      exact hw.taken e other h
  · change ∃ x, (v.setWithdrawing d (.draining left)).At (v.launches i).runId x ∧
      x.Fits (v.launches i) (v.terminations (v.launches i).runId)
    rw [hlaunches, hterm]
    obtain ⟨x, hat, hfits⟩ := hw.fits i
    by_cases hid : (w.launches i).runId = id
    · have hd := hat.pending d
      rw [hleft, RunRegistry.lookup_cons, if_pos hid.symm] at hd
      cases x with
      | taken d' m =>
        rw [Place.pending] at hd
        split at hd
        · rename_i hdd
          subst hdd
          cases hd
          rw [if_pos hid]
          refine ⟨.ended d, ⟨hregistry ▸ hat.entry, hreceivers ▸ hat.receivers, fun e => ?_⟩, ?_⟩
          · rw [hpending]
            by_cases he : e = d
            · rw [if_pos he, hid, hgone]
              rfl
            · rw [if_neg he, hat.pending e]
              exact if_neg he
          · rw [← hid]
            exact hfits.stop
        · cases hd
      | nowhere | kept m | ended d' | own => cases hd
    · rw [if_neg hid]
      refine ⟨x, ⟨hregistry ▸ hat.entry, hreceivers ▸ hat.receivers, fun e => ?_⟩, hfits⟩
      rw [hpending]
      by_cases he : e = d
      · subst he
        rw [if_pos rfl, ← hat.pending, hleft, RunRegistry.lookup_cons, if_neg (Ne.symm hid)]
      · rw [if_neg he, hat.pending e]

/-! ### Every step -/

end Launches

namespace Stage

/-- How a launch moves on by itself. -/
inductive Walks : Stage → Stage → Prop
  | authorize : Walks .arrived .authorized
  | refuse : Walks .arrived .denied
  | deny : Walks .authorized .denied
  | allow : Walks .reserved .allowed
  | commit {pid : Nat} : Walks (.active pid) (.committed pid)
  | record {pid : Nat} : Walks (.committed pid) (.recorded pid)
  | answer {pid : Nat} : Walks (.recorded pid) (.started pid)

/-- How a launch moves on that does not find its entry. -/
inductive Misses : Stage → Stage → Prop
  | activate {pid : Nat} : Misses (.spawned pid) (.revoked pid)
  | committed {pid : Nat} : Misses (.committed pid) (.closed (some pid))
  | recorded {pid : Nat} : Misses (.recorded pid) (.closed (some pid))
  | started {pid : Nat} : Misses (.started pid) (.closed (some pid))

/-- How a launch moves on that finds and takes its entry. -/
inductive Takes : Stage → Stage → Prop
  | committed {pid : Nat} : Takes (.committed pid) (.finishing pid)
  | recorded {pid : Nat} : Takes (.recorded pid) (.finishing pid)
  | started {pid : Nat} : Takes (.started pid) (.finishing pid)

/-- How a launch moves on that drops its reservation. -/
inductive Drops : Stage → Stage → Prop
  | reserved : Drops .reserved (.closed none)
  | allowed : Drops .allowed (.closed none)
  | dropping {pid : Nat} : Drops (.dropping pid) (.closed (some pid))

/-- How a launch moves on that ends its process group. -/
inductive Ends : Stage → Stage → Prop
  | finishing {pid : Nat} : Ends (.finishing pid) (.closed (some pid))
  | revoked {pid : Nat} : Ends (.revoked pid) (.dropping pid)

end Stage

namespace Launches

variable {w w' : Launches}

/-- What a step can do. -/
inductive Turn (w : Launches) : Event → Launches → Prop
  | meanwhile (authority : String → String → Bool) : Turn w (.meanwhile authority) { w with authority }
  | walks {e : Event} {i : Nat} {stage stage' : Stage} (hstage : (w.launches i).stage = stage)
      (h : stage.Walks stage') : Turn w e (w.setStage i stage')
  | spawns {i pid : Nat} (hstage : (w.launches i).stage = .allowed) (hpid : 0 < pid) :
      Turn w (.spawn i pid) (w.setStage i (.spawned pid))
  | misses {e : Event} {i : Nat} {stage stage' : Stage} (hstage : (w.launches i).stage = stage)
      (h : stage.Misses stage') (hgone : w.registry.lookup (w.launches i).runId = none) : Turn w e (w.setStage i stage')
  | takes {e : Event} {i : Nat} {stage stage' : Stage} (hstage : (w.launches i).stage = stage)
      (h : stage.Takes stage') (hentry : (w.registry.lookup (w.launches i).runId).isSome) :
      Turn w e ((w.removeOwn i).setStage i stage')
  | drops {e : Event} {i : Nat} {stage stage' : Stage} (hstage : (w.launches i).stage = stage)
      (h : stage.Drops stage') : Turn w e ((w.removeOwn i).setStage i stage')
  | ends {e : Event} {i : Nat} {stage stage' : Stage} (hstage : (w.launches i).stage = stage)
      (h : stage.Ends stage') : Turn w e ((w.terminated .launch (w.launches i).runId).setStage i stage')
  | reserves {i : Nat} {now : OffsetDateTime} {registry : RunRegistry} (hstage : (w.launches i).stage = .authorized)
      (h : w.registry.tryReserve (w.launches i).agent (w.launches i).project (w.launches i).runId now = .ok registry) :
      Turn w (.reserve i now) { w.setStage i .reserved with registry }
  | activates {i pid : Nat} {registry : RunRegistry} (hstage : (w.launches i).stage = .spawned pid)
      (h : w.registry.activate (w.launches i).runId pid pid = some registry) :
      Turn w (.activate i) { w.setStage i (.active pid) with registry }
  | begins {d : Nat} {authority : String → String → Bool} (hstage : (w.withdrawals d).stage = .waiting) :
      Turn w (.begin d) { w.setWithdrawing d .holding with mutex := some d, authority }
  | drains {d : Nat} {taken : RunRegistry × RunRegistry} (hstage : (w.withdrawals d).stage = .holding)
      (h : w.registry.takeMatching (w.withdrawals d).agent (w.withdrawals d).project = taken) :
      Turn w (.drain d)
        { (w.hand (.withdrawal d) taken.1).setWithdrawing d (.draining taken.1) with registry := taken.2 }
  | kills {d : Nat} {id : String} {run : RunMeta} {left : RunRegistry}
      (hstage : (w.withdrawals d).stage = .draining ((id, run) :: left)) :
      Turn w (.kill d) ((if 0 < run.pgid then w.terminated (.withdrawal d) id else w).setWithdrawing d (.draining left))
  | answers {d : Nat} (hstage : (w.withdrawals d).stage = .draining []) :
      Turn w (.answer d) { w.setWithdrawing d .answered with mutex := none }

theorem step_turn {e : Event} (hs : w.step e = some w') : w.Turn e w' := by
  cases e with
  | meanwhile authority =>
    simp only [step] at hs
    split at hs <;> cases hs
    exact .meanwhile authority
  | authorize i =>
    simp only [step] at hs
    split at hs <;> cases hs
    split
    · exact .walks (by assumption) .authorize
    · exact .walks (by assumption) .refuse
  | deny i =>
    simp only [step] at hs
    split at hs <;> cases hs
    · exact .walks (by assumption) .refuse
    · exact .walks (by assumption) .deny
  | reserve i now =>
    simp only [step] at hs
    split at hs
    · split at hs <;> cases hs
      · exact .reserves (by assumption) (by assumption)
      · exact .walks (by assumption) .deny
    · cases hs
  | allow i =>
    simp only [step] at hs
    split at hs <;> cases hs
    exact .walks (by assumption) .allow
  | giveUp i =>
    simp only [step] at hs
    split at hs <;> cases hs
    · exact .drops (by assumption) .reserved
    · exact .drops (by assumption) .allowed
  | spawn i pid =>
    simp only [step] at hs
    split at hs
    · split at hs <;> cases hs
      exact .spawns (by assumption) (by assumption)
    · cases hs
  | activate i =>
    simp only [step] at hs
    split at hs
    · split at hs <;> cases hs
      · exact .activates (by assumption) (by assumption)
      · exact .misses (by assumption) .activate (RunRegistry.activate_eq_none.mp (by assumption))
    · cases hs
  | commit i =>
    simp only [step] at hs
    split at hs <;> cases hs
    exact .walks (by assumption) .commit
  | recordStarted i =>
    simp only [step] at hs
    split at hs <;> cases hs
    exact .walks (by assumption) .record
  | answerStarted i =>
    simp only [step] at hs
    split at hs <;> cases hs
    exact .walks (by assumption) .answer
  | finish i =>
    simp only [step] at hs
    split at hs
    case h_4 => cases hs
    all_goals
      split at hs <;> cases hs
      · exact .takes (by assumption) (by constructor) (by assumption)
      · exact .misses (by assumption) (by constructor) (by simp_all)
  | terminate i =>
    simp only [step] at hs
    split at hs <;> cases hs
    · exact .ends (by assumption) .finishing
    · exact .ends (by assumption) .revoked
  | drop i =>
    simp only [step] at hs
    split at hs <;> cases hs
    exact .drops (by assumption) .dropping
  | begin d =>
    simp only [step] at hs
    split at hs <;> cases hs
    exact .begins (by assumption)
  | drain d =>
    simp only [step] at hs
    split at hs <;> cases hs
    exact .drains (by assumption) rfl
  | kill d =>
    simp only [step] at hs
    split at hs <;> cases hs
    exact .kills (by assumption)
  | answer d =>
    simp only [step] at hs
    split at hs <;> cases hs
    exact .answers (by assumption)

theorem Sound.step {e : Event} (hw : w.Sound) (hs : w.step e = some w') : w'.Sound := by
  cases step_turn hs with
  | meanwhile authority =>
    exact ⟨hw.registry, hw.left, hw.distinct, hw.known, hw.taken, fun i => (hw.fits i).imp fun x hx =>
      ⟨⟨hx.1.1, hx.1.2, hx.1.3⟩, hx.2⟩⟩
  | walks hstage h =>
    refine hw.advance hstage fun l x ends hx => ?_
    cases h <;> exact hx
  | spawns hstage hpid => exact hw.advance hstage fun l x ends hx => ⟨hpid, hx⟩
  | misses hstage h hgone =>
    refine hw.miss hstage hgone fun l x ends hentry hx => ?_
    cases h with
    | activate => exact ⟨hentry, hx.2⟩
    | _ => exact Or.inr ⟨hentry, Or.inl hx⟩
  | takes hstage h hentry =>
    refine hw.removeOwn hstage (fun l m ends hx => ?_) fun hgone => ?_
    · cases h <;> exact ⟨hx.1, rfl, hx.2.2.2.2⟩
    · rw [hgone] at hentry
      cases hentry
  | drops hstage h =>
    refine hw.removeOwn hstage (fun l m ends hx => ?_) fun _ l x ends hentry hx => ?_
    · cases h with
      | dropping => cases hx.1
      | _ => exact Or.inl ⟨rfl, hx.2.2.2⟩
    · cases h with
      | dropping => exact Or.inr ⟨hentry, Or.inr hx.2⟩
      | _ => exact Or.inr ⟨hentry, hx⟩
  | ends hstage h =>
    refine hw.terminated hstage fun l x ends hx => ?_
    cases h with
    | finishing => exact Or.inl ⟨hx.2.1, by rw [hx.2.2]; rfl⟩
    | revoked => exact ⟨hx.1, hx.2.own⟩
  | reserves hstage h => exact hw.reserve hstage h
  | activates hstage h => exact hw.activate hstage h
  | begins hstage => exact hw.setWithdrawing rfl rfl rfl rfl rfl (by rw [hstage]; rfl)
  | drains hstage h => exact hw.drain hstage h
  | kills hstage => exact hw.kill hstage
  | answers hstage => exact hw.setWithdrawing rfl rfl rfl rfl rfl (by rw [hstage]; rfl)

theorem sound_of_runs {es : List Event} (hw : w.Sound) (hr : runs step w es = some w') : w'.Sound :=
  runs_induction (fun _ _ _ h _ hs => h.step hs) hw (along_true step w es) hr

/-! ## Every run is accounted for -/

end Launches

/-- The launch has got a slot. -/
def Stage.inserted : Stage → Bool
  | .arrived | .denied | .authorized => false
  | _ => true

/-- The launch has failed, or its run is being finished or is over. -/
def Stage.failed : Stage → Bool
  | .denied | .revoked _ | .dropping _ | .finishing _ | .closed _ => true
  | _ => false

namespace Launches

/-- What the registry owes to whoever uses it. -/
structure Accounted (w : Launches) : Prop where
  total : w.registry.length ≤ MAX_RUNS_TOTAL
  perAgent : ∀ agent, (w.registry.filter fun e => e.2.agent == agent).length ≤ MAX_RUNS_PER_AGENT
  /-- An entry is of a launch. -/
  known : ∀ id, w.registry.lookup id ≠ none → ∃ i, (w.launches i).runId = id
  /-- An entry that was put in is there and nobody was handed it, or one party was. -/
  handed : ∀ i, (w.receivers (w.launches i).runId).length + (w.registry.lookup (w.launches i).runId).toList.length =
    if (w.launches i).stage.inserted then 1 else 0
  /-- Nobody ends a process group a second time. -/
  once : ∀ i, (w.terminations (w.launches i).runId).length ≤ 1
  /-- A withdrawal ends a process group only of an entry that it was handed. -/
  owner : ∀ i d, .withdrawal d ∈ w.terminations (w.launches i).runId →
    w.receivers (w.launches i).runId = [.withdrawal d]
  /-- Once everyone is done with a run, its process group has been ended, if it has ever had one. -/
  ended : ∀ i pid, (w.launches i).stage = .closed pid →
    (∀ d, (w.withdrawals d).stage.left.lookup (w.launches i).runId = none) →
    (w.terminations (w.launches i).runId).length = pid.toList.length
  /-- A slot that was taken cannot be activated. -/
  refused : ∀ i pid, (w.launches i).stage = .spawned pid →
    (w.registry.activate (w.launches i).runId pid pid = none ↔ w.receivers (w.launches i).runId ≠ [])
  /-- No slot outlives its launch. -/
  free : ∀ i, (w.launches i).stage.failed = true → w.registry.lookup (w.launches i).runId = none

end Launches

namespace Place

variable {l : Launch} {x : Place} {ends mine : List Party} {k : Int}

theorem Carries.cases (h : Carries l k mine ends x) :
    ends = mine ∨ 0 < k ∧ ∃ d, x = .ended d ∧ ends = mine ++ [.withdrawal d] := by
  cases x with
  | kept m | taken d m => exact Or.inl h.2.2.2
  | ended d =>
    rw [Carries] at h
    by_cases hk : 0 < k
    · exact Or.inr ⟨hk, d, rfl, by rw [h, if_pos hk]⟩
    · exact Or.inl (by rw [h, if_neg hk])
  | nowhere | own => cases h

/-- What is known of who has ended the group: nobody, the launch, or the withdrawal that had the entry. -/
theorem Fits.cases (h : x.Fits l ends) : ends = [] ∨ ends = [.launch] ∨ ∃ d, x = .ended d ∧ ends = [.withdrawal d] := by
  have hfree : ∀ k, x.Carries l k [] ends → ends = [] ∨ ends = [.launch] ∨ ∃ d, x = .ended d ∧ ends = [.withdrawal d] :=
    fun k hc => by
      obtain h | ⟨-, d, hx, h⟩ := hc.cases
      · exact Or.inl h
      · exact Or.inr (Or.inr ⟨d, hx, h⟩)
  have hmine : x.Carries l 0 [.launch] ends → ends = [] ∨ ends = [.launch] ∨ ∃ d, x = .ended d ∧
    ends = [.withdrawal d] :=
    fun hc => by
      obtain h | ⟨hk, -⟩ := hc.cases
      · exact Or.inr (Or.inl h)
      · exact absurd hk (by decide)
  unfold Fits at h
  split at h
  · exact Or.inl h.2
  · exact Or.inl h.2
  · exact Or.inl h.2
  · exact hfree _ h
  · exact hfree _ h
  · exact hfree _ h.2
  · exact hfree _ h.2
  · exact hfree _ h.2
  · exact hfree _ h.2
  · exact hfree _ h.2
  · exact hfree _ h.2
  · exact hmine h.2
  · exact Or.inl h.2.2
  · obtain h | h := h
    · exact Or.inl h.2
    · exact hfree _ h.2
  · obtain h | ⟨-, h | h⟩ := h
    · exact Or.inr (Or.inl h.2)
    · exact hfree _ h.2
    · exact hmine h

/-- What a launch that is through leaves. -/
theorem Fits.entry_eq_none (h : x.Fits l ends) (hl : l.stage.failed = true) : x.entry = none := by
  obtain ⟨agent, project, runId, stage⟩ := l
  cases stage with
  | denied => rw [h.1]; rfl
  | finishing pid => rw [h.2.1]; rfl
  | revoked pid | dropping pid => exact h.1
  | closed pid =>
    cases pid with
    | none | some pid =>
      obtain h | h := h
      · rw [h.1]; rfl
      · exact h.1
  | _ => cases hl

theorem Fits.handed (h : x.Fits l ends) :
    x.receivers.length + x.entry.toList.length = if l.stage.inserted then 1 else 0 := by
  have hthere : ∀ k mine, x.Carries l k mine ends → x.receivers.length + x.entry.toList.length = 1 :=
    fun k mine hc => by
    cases x with
    | kept m | taken d m | ended d => rfl
    | nowhere | own => cases hc
  have hown : x = .own → x.receivers.length + x.entry.toList.length = 1 := fun hx => by rw [hx]; rfl
  obtain ⟨agent, project, runId, stage⟩ := l
  cases stage with
  | arrived | denied | authorized => rw [h.1]; rfl
  | reserved | allowed => exact hthere _ _ h
  | spawned pid | active pid | committed pid | recorded pid | started pid | revoked pid | dropping pid =>
    exact hthere _ _ h.2
  | finishing pid => exact hown h.2.1
  | closed pid =>
    cases pid with
    | none =>
      obtain h | h := h
      · exact hown h.1
      · exact hthere _ _ h.2
    | some pid =>
      obtain h | ⟨-, h | h⟩ := h
      · exact hown h.1
      · exact hthere _ _ h.2
      · exact hthere _ _ h

/-- A run that is over, and that no withdrawal has still to end. -/
theorem Fits.ended (h : x.Fits l ends) {pid : Option Nat} (hl : l.stage = .closed pid) (hx : ∀ d, x.pending d = none) :
    ends.length = pid.toList.length := by
  have htaken : ∀ d m, x ≠ .taken d m := fun d m heq => by
    have := hx d
    rw [heq, pending, if_pos rfl] at this
    cases this
  rw [Fits, hl] at h
  cases pid with
  | none =>
    obtain ⟨-, h⟩ | ⟨-, h⟩ := h
    · rw [h]; rfl
    · obtain h | ⟨hk, -⟩ := h.cases
      · rw [h]; rfl
      · exact absurd hk (by decide)
  | some pid =>
    obtain ⟨-, h⟩ | ⟨hentry, ⟨hpid, h⟩ | h⟩ := h
    · rw [h]; rfl
    · cases x with
      | kept m => cases hentry
      | taken d m => exact absurd rfl (htaken d m)
      | ended d =>
        rw [Carries, if_pos (by omega)] at h
        rw [h]; rfl
      | nowhere | own => cases h
    · obtain h | ⟨hk, -⟩ := h.cases
      · rw [h]; rfl
      · exact absurd hk (by decide)

end Place

namespace Launches

variable {w w' : Launches}

theorem Sound.accounted (hw : w.Sound) : w.Accounted where
  total := hw.registry.total
  perAgent := hw.registry.perAgent
  known := hw.known
  handed i := by
    obtain ⟨x, hat, hfits⟩ := hw.fits i
    rw [hat.receivers, hat.entry]
    exact hfits.handed
  once i := by
    obtain ⟨x, hat, hfits⟩ := hw.fits i
    obtain h | h | ⟨d, -, h⟩ := hfits.cases <;> rw [h] <;> simp
  owner i d hd := by
    obtain ⟨x, hat, hfits⟩ := hw.fits i
    rw [hat.receivers]
    obtain h | h | ⟨d', hx, h⟩ := hfits.cases <;> rw [h] at hd
    · cases hd
    · simp at hd
    · rw [List.mem_singleton] at hd
      rw [hx, hd]
      rfl
  ended i pid hstage hleft := by
    obtain ⟨x, hat, hfits⟩ := hw.fits i
    exact hfits.ended hstage fun d => (hat.pending d).symm.trans (hleft d)
  refused i pid hstage := by
    obtain ⟨x, hat, hfits⟩ := hw.fits i
    rw [RunRegistry.activate_eq_none, hat.entry, hat.receivers]
    rw [Place.Fits, hstage] at hfits
    cases x with
    | kept m | taken d m | ended d => simp [Place.entry, Place.receivers]
    | nowhere | own => cases hfits.2
  free i hstage := by
    obtain ⟨x, hat, hfits⟩ := hw.fits i
    exact hat.entry.trans (hfits.entry_eq_none hstage)

/-- In every interleaving the quotas hold, every entry is removed once and handed to one party, a process group is ended
once, and no slot outlives its launch. -/
theorem runs_are_accounted_for {w₀ : Launches} {es : List Event} (h₀ : w₀.Fresh) (hr : runs step w₀ es = some w) :
    w.Accounted :=
  (sound_of_runs h₀.sound hr).accounted

/-- Everyone is one agent, on one project on which it may run; every withdrawal is a lock. -/
def calm : Launches where
  authority _ _ := true
  registry := []
  launches i := { agent := "agent", project := "app", runId := String.ofList (List.replicate i 'r'), stage := .arrived }
  withdrawals _ := { agent := none, project := none, stage := .waiting }
  mutex := none
  receivers _ := []
  terminations _ := []

theorem calm_fresh : calm.Fresh where
  registry := rfl
  launches _ := rfl
  withdrawals _ := rfl
  mutex := rfl
  receivers _ := rfl
  terminations _ := rfl
  distinct i j h := by simpa [calm] using congrArg String.length h

/-- A launch whose slot is taken by a lock before its child is there. -/
def overtaken : List Event :=
  [.authorize 0, .reserve 0 0, .allow 0, .begin 0, .drain 0, .kill 0, .spawn 0 7, .activate 0, .answer 0, .terminate 0,
    .drop 0]

theorem overtaken_is_accounted_for : ∃ w, runs step calm overtaken = some w ∧ w.Accounted :=
  ⟨_, rfl, runs_are_accounted_for calm_fresh (show runs step calm overtaken = some _ from rfl)⟩

/-! ## Launches and withdrawals -/

end Launches

/-- The launch may still answer `started` or have its entry put in, whatever is taken out of the registry now. -/
def Stage.outruns : Stage → Bool
  | .authorized | .active _ | .committed _ | .recorded _ => true
  | _ => false

namespace Launches

/-- When the withdrawal takes the entries out, the launch is not between its authorization and its slot, and not between
its activation and its answer. -/
def InTime (d i : Nat) (w : Launches) (e : Event) : Prop := e = .drain d → (w.launches i).stage.outruns = false

/-- The launch has no entry, and will neither have one nor answer `started`. -/
structure Beaten (w : Launches) (i : Nat) : Prop where
  arrived : (w.launches i).stage ≠ .arrived
  outruns : (w.launches i).stage.outruns = false
  entry : w.registry.lookup (w.launches i).runId = none

variable {w w' : Launches} {i j d : Nat} {e : Event}

theorem Beaten.move (h : w.Beaten i) {stage : Stage}
    (hl : w'.launches = Function.update w.launches j { w.launches j with stage })
    (hreg : w.registry.lookup (w.launches i).runId = none → w'.registry.lookup (w.launches i).runId = none)
    (hstage : j = i → stage ≠ .arrived ∧ stage.outruns = false) : w'.Beaten i := by
  by_cases hj : j = i
  · subst hj
    constructor <;> rw [hl, Function.update_self]
    · exact (hstage rfl).1
    · exact (hstage rfl).2
    · exact hreg h.entry
  · constructor <;> rw [hl, Function.update_of_ne (Ne.symm hj)]
    · exact h.arrived
    · exact h.outruns
    · exact hreg h.entry

/-- It is not between its authorization and its slot, nor between its activation and its answer. -/
theorem Beaten.stage_ne (h : w.Beaten i) {stage : Stage} (hstage : (w.launches j).stage = stage)
    (ho : stage.outruns = true ∨ stage = .arrived) : j ≠ i := by
  rintro rfl
  obtain ho | ho := ho
  · have := h.outruns
    rw [hstage, ho] at this
    cases this
  · exact h.arrived (hstage.trans ho)

theorem lookup_remove_none (hw : w.Sound) (id other : String) (h : w.registry.lookup other = none) :
    (w.registry.remove id).lookup other = none := by
  rw [RunRegistry.remove, RunRegistry.lookup_filter hw.registry.distinct, h]
  rfl

/-- A launch that is beaten stays so. -/
theorem Beaten.step (h : w.Beaten i) (hw : w.Sound) (hs : w.step e = some w') : w'.Beaten i := by
  cases step_turn hs with
  | meanwhile authority => exact ⟨h.1, h.2, h.3⟩
  | walks hstage hgo =>
    refine h.move rfl id fun hj => ?_
    cases hgo with
    | authorize | refuse => exact absurd hj (h.stage_ne hstage (Or.inr rfl))
    | commit | record => exact absurd hj (h.stage_ne hstage (Or.inl rfl))
    | _ => exact ⟨by simp, rfl⟩
  | spawns hstage hpid => exact h.move rfl id fun _ => ⟨by simp, rfl⟩
  | misses hstage hgo hgone =>
    refine h.move rfl id fun hj => ?_
    cases hgo <;> exact ⟨by simp, rfl⟩
  | takes hstage hgo hentry =>
    refine h.move rfl (lookup_remove_none hw _ _) fun hj => ?_
    cases hgo <;> exact ⟨by simp, rfl⟩
  | drops hstage hgo =>
    refine h.move rfl (lookup_remove_none hw _ _) fun hj => ?_
    cases hgo <;> exact ⟨by simp, rfl⟩
  | ends hstage hgo =>
    refine h.move rfl id fun hj => ?_
    cases hgo <;> exact ⟨by simp, rfl⟩
  | reserves hstage hr =>
    obtain ⟨-, -, -, rfl⟩ := RunRegistry.tryReserve_eq_ok hr
    have hj := h.stage_ne hstage (Or.inl rfl)
    refine h.move rfl (fun hnone => ?_) fun hji => absurd hji hj
    change RunRegistry.lookup (w.registry ++ _) _ = none
    rw [RunRegistry.lookup_append, hnone, RunRegistry.lookup_cons, if_neg fun heq => hj (hw.distinct _ i heq)]
    rfl
  | activates hstage hr =>
    refine h.move rfl (fun hnone => ?_) fun hji => ?_
    · rw [RunRegistry.activate_eq_some hr, RunRegistry.lookup_record, hnone]
      split <;> rfl
    · subst hji
      rw [RunRegistry.activate_eq_none.mpr h.entry] at hr
      cases hr
  | begins hstage => exact ⟨h.1, h.2, h.3⟩
  | drains hstage ht =>
    subst ht
    refine ⟨h.1, h.2, (RunRegistry.lookup_takeMatching_snd hw.registry.distinct _ _ _).trans ?_⟩
    change Option.filter _ (w.registry.lookup (w.launches i).runId) = none
    rw [h.entry]
    rfl
  | kills hstage => split <;> exact ⟨h.1, h.2, h.3⟩
  | answers hstage => exact ⟨h.1, h.2, h.3⟩

/-- A step leaves alone who a launch is for, and what a withdrawal is about. -/
theorem step_launch (hs : w.step e = some w') (i : Nat) : (w'.launches i).agent = (w.launches i).agent ∧
    (w'.launches i).project = (w.launches i).project ∧ (w'.launches i).runId = (w.launches i).runId ∧
      ((w.launches i).stage ≠ .arrived → (w'.launches i).stage ≠ .arrived) := by
  have hset : ∀ {v : Launches} {j : Nat} {stage : Stage}, v.launches = w.launches → stage ≠ .arrived →
      ((v.setStage j stage).launches i).agent = (w.launches i).agent ∧
      ((v.setStage j stage).launches i).project = (w.launches i).project ∧
      ((v.setStage j stage).launches i).runId = (w.launches i).runId ∧
      ((w.launches i).stage ≠ .arrived → ((v.setStage j stage).launches i).stage ≠ .arrived) := by
    intro v j stage hv hstage
    by_cases hj : i = j
    · subst hj
      simp [setStage, hv, hstage]
    · simp [setStage, hv, hj]
  cases step_turn hs with
  | walks hstage h => exact hset rfl (by cases h <;> simp)
  | spawns hstage hpid => exact hset rfl (by simp)
  | misses hstage h hgone => exact hset rfl (by cases h <;> simp)
  | takes hstage h hentry => exact hset rfl (by cases h; all_goals simp)
  | drops hstage h => exact hset rfl (by cases h <;> simp)
  | ends hstage h => exact hset rfl (by cases h <;> simp)
  | reserves hstage h => exact hset rfl (by simp)
  | activates hstage h => exact hset rfl (by simp)
  | kills hstage => split <;> exact ⟨rfl, rfl, rfl, fun h => h⟩
  | _ => exact ⟨rfl, rfl, rfl, fun h => h⟩

end Launches

/-- It has not yet taken what matches. -/
def Withdrawing.early : Withdrawing → Bool
  | .waiting | .holding => true
  | _ => false

namespace Launches

variable {w w' : Launches} {i d : Nat} {e : Event}

theorem step_withdrawal (hs : w.step e = some w') (d : Nat) : (w'.withdrawals d).agent = (w.withdrawals d).agent ∧
    (w'.withdrawals d).project = (w.withdrawals d).project ∧
      ((w.withdrawals d).stage.early = true → (w'.withdrawals d).stage.early = true ∨
        (w.withdrawals d).stage = .holding ∧ e = .drain d) := by
  have hset : ∀ {v : Launches} {c : Nat} {stage : Withdrawing}, v.withdrawals = w.withdrawals →
      (d = c → (w.withdrawals d).stage.early = true →
        stage.early = true ∨ (w.withdrawals d).stage = .holding ∧ e = .drain d) →
      ((v.setWithdrawing c stage).withdrawals d).agent = (w.withdrawals d).agent ∧
      ((v.setWithdrawing c stage).withdrawals d).project = (w.withdrawals d).project ∧
      ((w.withdrawals d).stage.early = true → ((v.setWithdrawing c stage).withdrawals d).stage.early = true ∨
        (w.withdrawals d).stage = .holding ∧ e = .drain d) := by
    intro v c stage hv hstage
    by_cases hc : d = c
    · subst hc
      simpa [setWithdrawing, hv] using hstage rfl
    · simpa [setWithdrawing, hv, hc] using Or.inl
  cases step_turn hs with
  | begins hstage => exact hset rfl fun _ _ => Or.inl rfl
  | drains hstage h =>
    exact hset rfl fun hd _ => Or.inr ⟨hd ▸ hstage, by rw [hd]⟩
  | kills hstage =>
    refine hset (by split <;> rfl) fun hd hearly => ?_
    rw [hd, hstage] at hearly
    cases hearly
  | answers hstage =>
    refine hset rfl fun hd hearly => ?_
    rw [hd, hstage] at hearly
    cases hearly
  | _ => exact ⟨rfl, rfl, Or.inl⟩

theorem drain_eq_some (hs : w.step (.drain d) = some w') : (w.withdrawals d).stage = .holding ∧
    w'.launches = w.launches ∧
    w'.registry = (w.registry.takeMatching (w.withdrawals d).agent (w.withdrawals d).project).2 := by
  simp only [step] at hs
  split at hs <;> cases hs
  exact ⟨by assumption, rfl, rfl⟩

/-- A withdrawal that takes the entries out in time beats the launch. -/
theorem Sound.beaten (hw : w.Sound) (hs : w.step (.drain d) = some w') (hi : (w.launches i).stage ≠ .arrived)
    (hm : matching (w.withdrawals d) (w.launches i).agent (w.launches i).project = true)
    (hc : (w.launches i).stage.outruns = false) : w'.Beaten i := by
  obtain ⟨-, hl, hr⟩ := drain_eq_some hs
  constructor <;> rw [hl]
  · exact hi
  · exact hc
  · rw [hr, RunRegistry.lookup_takeMatching_snd hw.registry.distinct]
    obtain ⟨x, hat, hfits⟩ := hw.fits i
    rw [hat.entry, Option.filter_eq_none_iff]
    intro m hentry
    cases x with
    | kept m' =>
      cases hentry
      obtain ⟨hagent, hproject⟩ := hfits.owner
      rw [← hagent, ← hproject] at hm
      exact fun h => by
        rw [Bool.not_eq_true'] at h
        exact absurd hm (Bool.eq_false_iff.mp h)
    | nowhere | taken d' m' | ended d' | own => cases hentry

/-- The withdrawal has not yet taken what matches, or it has beaten the launch. -/
structure Meets (d i : Nat) (w : Launches) : Prop where
  sound : w.Sound
  arrived : (w.launches i).stage ≠ .arrived
  matching : matching (w.withdrawals d) (w.launches i).agent (w.launches i).project = true
  early : (w.withdrawals d).stage.early = true ∨ w.Beaten i

theorem Meets.step (h : Meets d i w) (hc : InTime d i w e) (hs : w.step e = some w') : Meets d i w' := by
  obtain ⟨hagent, hproject, -, harrived⟩ := step_launch hs i
  obtain ⟨hagent', hproject', hearly⟩ := step_withdrawal hs d
  refine ⟨h.sound.step hs, harrived h.arrived, ?_, ?_⟩
  · have hm := h.matching
    rw [Launches.matching] at hm ⊢
    rwa [hagent, hproject, hagent', hproject']
  · obtain hd | hb := h.early
    · obtain hd | ⟨-, rfl⟩ := hearly hd
      · exact Or.inl hd
      · exact Or.inr (h.sound.beaten hs h.arrived h.matching (hc rfl))
    · exact Or.inr (hb.step h.sound hs)

/-- Once a withdrawal has answered, a launch that was authorized before it has no entry and does not answer `started`,
unless the withdrawal took the entries out while the launch was between its authorization and its slot, or between its
activation and its answer. -/
theorem withdrawal_beats_launches {w₀ w₁ w₂ : Launches} {before after : List Event} (h₀ : w₀.Fresh)
    (h₁ : runs step w₀ before = some w₁) (hi : (w₁.launches i).stage ≠ .arrived)
    (hd : (w₁.withdrawals d).stage = .waiting)
    (hm : matching (w₁.withdrawals d) (w₁.launches i).agent (w₁.launches i).project = true)
    (h₂ : runs step w₁ after = some w₂) (hc : Along step (InTime d i) w₁ after)
    (ha : (w₂.withdrawals d).stage = .answered) :
    w₂.registry.lookup (w₂.launches i).runId = none ∧ step w₂ (.answerStarted i) = none := by
  have hmeets : Meets d i w₁ := ⟨sound_of_runs h₀.sound h₁, hi, hm, Or.inl (by rw [hd]; rfl)⟩
  obtain ⟨-, -, -, hearly⟩ := runs_induction (fun _ _ _ h hc hs => Meets.step h hc hs) hmeets hc h₂
  obtain hearly | hb := hearly
  · rw [ha] at hearly
    cases hearly
  · refine ⟨hb.entry, ?_⟩
    have ho := hb.outruns
    simp only [step]
    split
    · rename_i hstage
      rw [hstage] at ho
      cases ho
    · rfl

/-- A launch that has a slot in time for the lock to take it. -/
theorem withdrawal_beats_overtaken : ∃ w₁ w₂, runs step calm [.authorize 0] = some w₁ ∧
    runs step w₁ overtaken.tail = some w₂ ∧ w₂.registry.lookup (w₂.launches 0).runId = none ∧
      step w₂ (.answerStarted 0) = none := by
  refine ⟨_, _, rfl, rfl, withdrawal_beats_launches (d := 0) calm_fresh
    (show runs step calm [.authorize 0] = some _ from rfl) (by decide) rfl rfl
    (show runs step _ overtaken.tail = some _ from rfl) ?_ rfl⟩
  refine ⟨by simp [InTime], fun s hs => ⟨by simp [InTime], fun s' hs' => ⟨by simp [InTime], fun s'' hs'' => ⟨?_, ?_⟩⟩⟩⟩
  · cases hs
    cases hs'
    cases hs''
    exact fun _ => rfl
  · exact fun _ _ => along_of_forall (by simp [InTime])

/-- A launch that is authorized before a lock, and has its slot after it. -/
def straggler : List Event :=
  [.begin 0, .drain 0, .answer 0, .reserve 0 0, .allow 0, .spawn 0 7, .activate 0, .commit 0, .recordStarted 0]

/-- After the lock has answered, a launch that was authorized before it has a live entry and answers `started`. -/
theorem launch_survives_withdrawal : ¬ ∀ (w₀ w₁ w₂ : Launches) (before after : List Event) (d i : Nat), w₀.Fresh →
    runs step w₀ before = some w₁ → (w₁.launches i).stage ≠ .arrived → (w₁.withdrawals d).stage = .waiting →
    matching (w₁.withdrawals d) (w₁.launches i).agent (w₁.launches i).project = true → runs step w₁ after = some w₂ →
    (w₂.withdrawals d).stage = .answered →
    w₂.registry.lookup (w₂.launches i).runId = none ∧ step w₂ (.answerStarted i) = none := by
  intro h
  have := h calm _ _ [.authorize 0] straggler 0 0 calm_fresh rfl (by decide) rfl rfl rfl rfl
  exact absurd this.1 (by decide)

end Launches

end SecretsVault
