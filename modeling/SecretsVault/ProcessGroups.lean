import SecretsVault.Launches

/-!
# Process groups

The launches and withdrawals of `Launches` over a kernel that gives numbers to process groups. A child leads a group of
its own number; once it is reaped and no other member is left, the number may be given to another process. A group is
ended by a first signal, a pause, a probe and a second signal; `run_signal` signals it by the number of the registry. A
thread waits for its child while the run goes on, and after it has ended the group.

- `signals_reach_their_run`: a signal finds the group of its run, if no number loses its group while it is remembered;
  it finds nobody else's, if no number is given away again while it is remembered; and `run_signal` is for the agent of
  the run.
- `signal_reaches_stranger`: a child that exits is reaped before its entry is removed and its group is signalled.
-/

namespace SecretsVault

open Lib

/-- What a number of the kernel denotes as a process group. -/
inductive Group where
  | nobody
  | run (i : Nat)
  | stranger
  deriving DecidableEq

/-- The direct child of a launch. -/
inductive Child where
  | unborn
  | running
  | exited
  | reaped
  deriving DecidableEq

/-- Who signals a process group. -/
inductive Killer where
  | launch (i : Nat)
  | withdrawal (d : Nat)
  | request (s : Nat)
  deriving DecidableEq

/-- How far the ending of a process group is. -/
inductive Ending where
  | idle
  /-- The first signal is sent. -/
  | termed
  /-- There was a group of that number, or not. -/
  | probed (alive : Bool)
  deriving DecidableEq

/-- Where a `run_signal` is. -/
inductive Signalling where
  | waiting
  /-- It has found the run, which its agent owns and may run on. -/
  | looked (project : String) (pgid : Int)
  /-- It has found it again. -/
  | rechecked (pgid : Int)
  | answered

/-- A `run_signal` of an agent. -/
structure SignalRequest where
  agent : String
  runId : String
  signal : Nat
  phase : Signalling

/-- A signal that was sent, with what its number denoted then. -/
structure Signal where
  killer : Killer
  runId : String
  pgid : Int
  signal : Nat
  found : Group
  deriving DecidableEq

/-- The number of the child of a launch. -/
def Stage.pid : Stage → Option Nat
  | .spawned pid | .active pid | .revoked pid | .dropping pid | .committed pid | .recorded pid | .started pid
  | .finishing pid => some pid
  | .closed pid => pid
  | _ => none

/-- The daemon over the kernel. The signals sent are written down for the statements only. -/
structure ProcessGroups where
  daemon : Launches
  group : Int → Group
  child : Nat → Child
  /-- The group of the run has members other than the child. -/
  members : Nat → Bool
  ending : Killer → Ending
  requests : Nat → SignalRequest
  /-- The request that has the session mutex. -/
  busy : Option Nat
  signals : List Signal

namespace ProcessGroups

/-- What happens next. -/
inductive Event where
  /-- A step of a launch or a withdrawal. -/
  | daemon (e : Launches.Event)
  /-- The first signal to a group that is to be ended. -/
  | term (k : Killer)
  | probe (k : Killer)
  | look (s : Nat)
  | recheck (s : Nat)
  | send (s : Nat)
  /-- The child exits. -/
  | exit (i : Nat)
  /-- The child or another member forks. -/
  | fork (i : Nat)
  /-- The last other member exits. -/
  | leave (i : Nat)
  /-- The launch waits for its child. -/
  | reap (i : Nat)
  /-- A process that is no run's leads a new group. -/
  | reuse (n : Int)
  /-- Such a group goes. -/
  | vanish (n : Int)

/-- The group that is to be ended next. -/
def aims (w : Launches) : Killer → Option (String × Int)
  | .launch i =>
    match (w.launches i).stage with
    | .finishing pid | .revoked pid => some ((w.launches i).runId, pid)
    | _ => none
  | .withdrawal d =>
    match (w.withdrawals d).stage with
    | .draining ((id, run) :: _) => if 0 < run.pgid then some (id, run.pgid) else none
    | _ => none
  | .request _ => none

/-- It takes the session mutex. -/
def locks : Launches.Event → Bool
  | .meanwhile _ | .authorize _ | .allow _ | .recordStarted _ | .begin _ => true
  | _ => false

variable (w : ProcessGroups)

def sent (k : Killer) (runId : String) (pgid : Int) (signal : Nat) : ProcessGroups :=
  { w with signals := w.signals ++ [⟨k, runId, pgid, signal, w.group pgid⟩] }

def setPhase (s : Nat) (phase : Signalling) : ProcessGroups :=
  { w with requests := Function.update w.requests s { w.requests s with phase } }

/-- The number of a group without a leader and without members is free. -/
def freed (i pid : Nat) : ProcessGroups :=
  if w.child i = .reaped ∧ w.members i = false then { w with group := Function.update w.group pid .nobody } else w

/-- The last signal of an ending, if the probe found a group. -/
def last (k : Killer) (e : Launches.Event) : Option ProcessGroups :=
  match aims w.daemon k, w.ending k with
  | none, _ => (w.daemon.step e).map fun daemon => { w with daemon }
  | some (id, n), .probed alive =>
    (w.daemon.step e).map fun daemon =>
      { (if alive then w.sent k id n 9 else w) with daemon, ending := Function.update w.ending k .idle }
  | some _, _ => none

def step : Event → Option ProcessGroups
  | .daemon e =>
    if locks e && w.busy.isSome then none else
    match e with
    | .spawn i pid =>
      match w.group pid with
      | .nobody =>
        (w.daemon.step e).map fun daemon =>
          { w with
            daemon, group := Function.update w.group pid (.run i), child := Function.update w.child i .running,
            members := Function.update w.members i false }
      | _ => none
    | .terminate i => w.last (.launch i) e
    | .kill d => w.last (.withdrawal d) e
    | _ => (w.daemon.step e).map fun daemon => { w with daemon }
  | .term k =>
    match aims w.daemon k, w.ending k with
    | some (id, n), .idle => some { w.sent k id n 15 with ending := Function.update w.ending k .termed }
    | _, _ => none
  | .probe k =>
    match aims w.daemon k, w.ending k with
    | some (id, n), .termed =>
      some { w.sent k id n 0 with ending := Function.update w.ending k (.probed (w.group n != .nobody)) }
    | _, _ => none
  | .look s =>
    match w.daemon.mutex, w.busy, (w.requests s).phase with
    | none, none, .waiting =>
      match w.daemon.registry.lookupOwned (w.requests s).agent (w.requests s).runId with
      | some m =>
        if w.daemon.authority (w.requests s).agent m.project then
          some { w.setPhase s (.looked m.project m.pgid) with busy := some s }
        else some (w.setPhase s .answered)
      | none => some (w.setPhase s .answered)
    | _, _, _ => none
  | .recheck s =>
    match (w.requests s).phase with
    | .looked project pgid =>
      match w.daemon.registry.lookupOwned (w.requests s).agent (w.requests s).runId with
      | some m =>
        if m.project = project ∧ m.pgid = pgid then some (w.setPhase s (.rechecked pgid))
        else some { w.setPhase s .answered with busy := none }
      | none => some { w.setPhase s .answered with busy := none }
    | _ => none
  | .send s =>
    match (w.requests s).phase with
    | .rechecked pgid =>
      some { (if 0 < pgid then w.sent (.request s) (w.requests s).runId pgid (w.requests s).signal else w).setPhase s
        .answered with busy := none }
    | _ => none
  | .exit i =>
    match w.child i with
    | .running => some { w with child := Function.update w.child i .exited }
    | _ => none
  | .fork i =>
    if w.child i = .running ∨ w.members i =
      true then some { w with members := Function.update w.members i true } else none
  | .leave i =>
    match w.members i, (w.daemon.launches i).stage.pid with
    | true, some pid => some (({ w with members := Function.update w.members i false } : ProcessGroups).freed i pid)
    | _, _ => none
  | .reap i =>
    match w.child i, (w.daemon.launches i).stage with
    | .exited, .started pid | .exited, .dropping pid | .exited, .closed (some pid) =>
      some (({ w with child := Function.update w.child i .reaped } : ProcessGroups).freed i pid)
    | _, _ => none
  | .reuse n =>
    match w.group n with
    | .nobody => some { w with group := Function.update w.group n .stranger }
    | _ => none
  | .vanish n =>
    match w.group n with
    | .stranger => some { w with group := Function.update w.group n .nobody }
    | _ => none

/-- Nothing has happened yet. -/
structure Fresh : Prop where
  daemon : w.daemon.Fresh
  group : ∀ n i, w.group n ≠ .run i
  requests : ∀ s, (w.requests s).phase = .waiting
  signals : w.signals = []

end ProcessGroups

/-! ## Who remembers a number -/

/-- The child is there, and nobody waits for it. -/
def Stage.unwaited : Stage → Bool
  | .spawned _ | .active _ | .revoked _ | .committed _ | .recorded _ => true
  | _ => false

namespace Launches

variable {w w' : Launches} {e : Event} {i : Nat} {n : Int}

/-- A launch or a withdrawal may still signal the group of the launch by this number. -/
inductive Remembers (w : Launches) (i : Nat) (n : Int) : Prop
  | registry {m : RunMeta} (h : w.registry.lookup (w.launches i).runId = some m) (hn : m.pgid = n)
  | withdrawal {d : Nat} {m : RunMeta} (h : (w.withdrawals d).stage.left.lookup (w.launches i).runId = some m)
      (hn : m.pgid = n)
  | launch {pid : Nat} (h : (w.launches i).stage = .finishing pid) (hn : n = pid)

/-- Only a spawn gives a launch a number, and only an answer lets it wait for its child. -/
theorem step_pid (hs : w.step e = some w') (he : ∀ i pid, e ≠ .spawn i pid) (i : Nat) :
    (∀ pid, (w'.launches i).stage.pid = some pid → (w.launches i).stage.pid = some pid) ∧
      ((w'.launches i).stage.unwaited = true → (w.launches i).stage.unwaited = true) := by
  have hset : ∀ {v : Launches} {j : Nat} {stage stage' : Stage}, v.launches = w.launches →
    (w.launches j).stage = stage →
      (∀ pid, stage'.pid = some pid → stage.pid = some pid) → (stage'.unwaited = true → stage.unwaited = true) →
      (∀ pid, ((v.setStage j stage').launches i).stage.pid = some pid → (w.launches i).stage.pid = some pid) ∧
        (((v.setStage j stage').launches i).stage.unwaited = true → (w.launches i).stage.unwaited = true) := by
    intro v j stage stage' hv hstage hpid hun
    by_cases hj : i = j
    · subst hj
      subst hstage
      simp only [setStage, Function.update_self]
      exact ⟨hpid, hun⟩
    · simp [setStage, hv, hj]
  cases step_turn hs with
  | walks hstage h => cases h <;> exact hset rfl hstage (by simp [Stage.pid]) (by simp [Stage.unwaited])
  | spawns hstage hpid => exact absurd rfl (he _ _)
  | misses hstage h hgone => cases h <;> exact hset rfl hstage (by simp [Stage.pid]) (by simp [Stage.unwaited])
  | takes hstage h hentry => cases h <;> exact hset rfl hstage (by simp [Stage.pid]) (by simp [Stage.unwaited])
  | drops hstage h => cases h <;> exact hset rfl hstage (by simp [Stage.pid]) (by simp [Stage.unwaited])
  | ends hstage h => cases h <;> exact hset rfl hstage (by simp [Stage.pid]) (by simp [Stage.unwaited])
  | reserves hstage h => exact hset rfl hstage (by simp [Stage.pid]) (by simp [Stage.unwaited])
  | activates hstage h => exact hset rfl hstage (by simp [Stage.pid]) (by simp [Stage.unwaited])
  | kills hstage => split <;> exact ⟨fun _ h => h, fun h => h⟩
  | _ => exact ⟨fun _ h => h, fun h => h⟩

/-- An entry with a number is an older one, or its slot was just activated. -/
theorem registry_step (hw : w.Sound) (hs : w.step e = some w') (hn : 0 < n) {m : RunMeta}
    (h : w'.registry.lookup (w.launches i).runId = some m) (hm : m.pgid = n) :
    w.Remembers i n ∨ ∃ pid : Nat, n = pid ∧ (w.launches i).stage = .spawned pid := by
  cases step_turn hs with
  | takes hstage hgo hentry => exact Or.inl (.registry (RunRegistry.lookup_of_filter hw.registry.distinct h) hm)
  | drops hstage hgo => exact Or.inl (.registry (RunRegistry.lookup_of_filter hw.registry.distinct h) hm)
  | reserves hstage hr =>
    obtain ⟨-, -, -, rfl⟩ := RunRegistry.tryReserve_eq_ok hr
    change RunRegistry.lookup (w.registry ++ _) _ = _ at h
    rw [RunRegistry.lookup_append, RunRegistry.lookup_cons] at h
    cases hold : w.registry.lookup (w.launches i).runId with
    | some m' =>
      rw [hold] at h
      cases h
      exact Or.inl (.registry hold hm)
    | none =>
      rw [hold] at h
      split at h
      · cases h
        subst hm
        exact absurd hn (Int.lt_irrefl 0)
      · cases h
  | @activates j pid registry hstage hr =>
    change RunRegistry.lookup registry _ = _ at h
    rw [RunRegistry.activate_eq_some hr, RunRegistry.lookup_record] at h
    split at h
    · rename_i hid
      have hij := hw.distinct _ _ hid
      subst hij
      obtain ⟨m', -, rfl⟩ := Option.map_eq_some_iff.mp h
      exact Or.inr ⟨pid, hm.symm, hstage⟩
    · exact Or.inl (.registry h hm)
  | drains hstage ht =>
    subst ht
    change RunRegistry.lookup (w.registry.takeMatching _ _).2 _ = _ at h
    rw [RunRegistry.lookup_takeMatching_snd hw.registry.distinct, Option.filter_eq_some_iff] at h
    exact Or.inl (.registry h.1 hm)
  | kills hstage =>
    split at h <;> exact Or.inl (.registry h hm)
  | _ => exact Or.inl (.registry h hm)

/-- What a withdrawal has still to end it had before, or has just taken. -/
theorem left_step (hw : w.Sound) (hs : w.step e = some w') {d : Nat} {m : RunMeta}
    (h : (w'.withdrawals d).stage.left.lookup (w.launches i).runId = some m) (hm : m.pgid = n) : w.Remembers i n := by
  have hset : ∀ {v : Launches} {c : Nat} {stage : Withdrawing}, v.withdrawals = w.withdrawals →
      ((v.setWithdrawing c stage).withdrawals d).stage.left.lookup (w.launches i).runId = some m →
      (stage.left.lookup (w.launches i).runId = some m → w.Remembers i n) → w.Remembers i n := by
    intro v c stage hv h hc
    by_cases hd : d = c
    · subst hd
      rw [setWithdrawing_same] at h
      exact hc h
    · rw [setWithdrawing_other hd, hv] at h
      exact .withdrawal h hm
  cases step_turn hs with
  | begins hstage => exact hset rfl h fun hleft => by cases hleft
  | drains hstage ht =>
    subst ht
    refine hset rfl h fun hleft => ?_
    rw [Withdrawing.left, RunRegistry.lookup_takeMatching_fst hw.registry.distinct, Option.filter_eq_some_iff] at hleft
    exact .registry hleft.1 hm
  | @kills c id run left hstage =>
    refine hset (by split <;> rfl) h fun hleft => ?_
    have hdistinct := hw.left c
    rw [hstage, Withdrawing.left, RunRegistry.Distinct, List.map_cons, List.nodup_cons] at hdistinct
    refine .withdrawal (d := c) (m := m) ?_ hm
    rw [hstage, Withdrawing.left, RunRegistry.lookup_cons, if_neg]
    · exact hleft
    · intro heq
      have : left.lookup id = none := RunRegistry.lookup_eq_none.mpr hdistinct.1
      rw [Withdrawing.left, ← heq, this] at hleft
      cases hleft
  | answers hstage => exact hset rfl h fun hleft => by cases hleft
  | _ => exact .withdrawal h hm

/-- A launch that is about to end its group has just taken its entry. -/
theorem finishing_step (hw : w.Sound) (hs : w.step e = some w') {pid : Nat}
    (h : (w'.launches i).stage = .finishing pid) : w.Remembers i pid := by
  have hset : ∀ {v : Launches} {j : Nat} {stage : Stage}, v.launches = w.launches →
      ((v.setStage j stage).launches i).stage = .finishing pid → (i = j → stage = .finishing pid → w.Remembers i pid) →
      w.Remembers i pid := by
    intro v j stage hv h hj
    by_cases hij : i = j
    · subst hij
      rw [setStage_same] at h
      exact hj rfl h
    · rw [setStage_other hij, hv] at h
      exact .launch h rfl
  cases step_turn hs with
  | walks hstage hgo => exact hset rfl h fun _ heq => by cases hgo <;> cases heq
  | spawns hstage hpid => exact hset rfl h fun _ heq => by cases heq
  | misses hstage hgo hgone => exact hset rfl h fun _ heq => by cases hgo <;> cases heq
  | takes hstage hgo hentry =>
    refine hset rfl h fun hij heq => ?_
    subst hij
    obtain ⟨x, hat, hfits⟩ := hw.fits i
    rw [hat.entry] at hentry
    rw [Place.Fits, hstage] at hfits
    cases x with
    | kept m =>
      refine .registry hat.entry ?_
      cases hgo <;> cases heq <;> exact hfits.2.2.2.1
    | nowhere | taken d m | ended d | own => cases hentry
  | drops hstage hgo => exact hset rfl h fun _ heq => by cases hgo <;> cases heq
  | ends hstage hgo => exact hset rfl h fun _ heq => by cases hgo <;> cases heq
  | reserves hstage hr => exact hset rfl h fun _ heq => by cases heq
  | activates hstage hr => exact hset rfl h fun _ heq => by cases heq
  | kills hstage =>
    split at h <;> exact .launch h rfl
  | _ => exact .launch h rfl

/-- A number comes to be remembered when its slot is activated. -/
theorem remembers_step (hw : w.Sound) (hs : w.step e = some w') (hn : 0 < n) (h : w'.Remembers i n) :
    w.Remembers i n ∨ ∃ pid : Nat, n = pid ∧ (w.launches i).stage = .spawned pid := by
  obtain ⟨-, -, hid, -⟩ := step_launch hs i
  cases h with
  | registry h hm => exact registry_step hw hs hn (hid ▸ h) hm
  | withdrawal h hm => exact Or.inl (left_step hw hs (hid ▸ h) hm)
  | launch h hpid => exact Or.inl (hpid ▸ finishing_step hw hs h)

end Launches

/-! ## What a signal finds -/

namespace ProcessGroups

variable {P : Group → Nat → Prop} {w w' : ProcessGroups} {i : Nat} {n : Int}

/-- Somebody may still signal the group of the launch by this number. -/
def Remembered (w : ProcessGroups) (i : Nat) (n : Int) : Prop :=
  w.daemon.Remembers i n ∨ ∃ s, (w.requests s).phase = .rechecked n ∧ (w.requests s).runId = (w.daemon.launches i).runId

/-- A signal was for a run, and what it found is as `P` says; one that was asked for is by the agent of the run. -/
def Right (P : Group → Nat → Prop) (w : ProcessGroups) (g : Signal) : Prop :=
  ∃ i, (w.daemon.launches i).runId = g.runId ∧ P g.found i ∧
    ∀ s, g.killer = .request s → (w.requests s).agent = (w.daemon.launches i).agent

/-- What holds between any two steps, if a number that is remembered denotes what `P` says. -/
structure Steady (P : Group → Nat → Prop) (w : ProcessGroups) : Prop where
  sound : w.daemon.Sound
  /-- A group that has its leader or a member has its number. -/
  lives : ∀ i pid, (w.daemon.launches i).stage.pid = some pid → (w.child i ≠ .reaped ∨ w.members i = true) →
    w.group pid = .run i
  waits : ∀ i, (w.daemon.launches i).stage.unwaited = true → w.child i ≠ .reaped
  remembers : ∀ i n, 0 < n → w.daemon.Remembers i n → P (w.group n) i
  rechecked : ∀ s n, (w.requests s).phase = .rechecked n → ∃ i, (w.daemon.launches i).runId = (w.requests s).runId ∧
    (w.requests s).agent = (w.daemon.launches i).agent ∧ (0 < n → P (w.group n) i)
  signals : ∀ g ∈ w.signals, w.Right P g

theorem Fresh.steady (hw : w.Fresh) : w.Steady P where
  sound := hw.daemon.sound
  lives i pid h := by
    rw [hw.daemon.launches] at h
    cases h
  waits i h := by
    rw [hw.daemon.launches] at h
    cases h
  remembers i n hn h := by
    cases h with
    | registry h =>
      rw [hw.daemon.registry] at h
      cases h
    | withdrawal h =>
      rw [hw.daemon.withdrawals] at h
      cases h
    | launch h =>
      rw [hw.daemon.launches] at h
      cases h
  rechecked s n h := by
    rw [hw.requests] at h
    cases h
  signals g hg := by
    rw [hw.signals] at hg
    cases hg

/-- A step of a launch or a withdrawal, other than a spawn. -/
theorem Steady.daemon (hP : ∀ i, P (.run i) i) (hw : w.Steady P) {e : Launches.Event} {daemon : Launches}
    (hs : w.daemon.step e = some daemon) (he : ∀ i pid, e ≠ .spawn i pid) :
    ({ w with daemon } : ProcessGroups).Steady P where
  sound := hw.sound.step hs
  lives i pid h := hw.lives i pid ((Launches.step_pid hs he i).1 pid h)
  waits i h := hw.waits i ((Launches.step_pid hs he i).2 h)
  remembers i n hn h := by
    obtain h | ⟨pid, rfl, hstage⟩ := Launches.remembers_step hw.sound hs hn h
    · exact hw.remembers i n hn h
    · have hunwaited := hw.waits i (by rw [hstage]; rfl)
      rw [hw.lives i pid (by rw [hstage]; rfl) (Or.inl hunwaited)]
      exact hP i
  rechecked s n h := by
    obtain ⟨i, hid, hagent, hgroup⟩ := hw.rechecked s n h
    obtain ⟨hagent', -, hid', -⟩ := Launches.step_launch hs i
    exact ⟨i, hid'.trans hid, hagent.trans hagent'.symm, hgroup⟩
  signals g hg := by
    obtain ⟨i, hid, hfound, hagent⟩ := hw.signals g hg
    obtain ⟨hagent', -, hid', -⟩ := Launches.step_launch hs i
    exact ⟨i, hid'.trans hid, hfound, fun s hk => (hagent s hk).trans hagent'.symm⟩

/-- A group that is to be ended is of a run, and its number denotes what `P` says. -/
theorem Steady.aims (hP : ∀ i, P (.run i) i) (hw : w.Steady P) {k : Killer} {id : String}
    (hk : aims w.daemon k = some (id, n)) (sig : Nat) : w.Right P ⟨k, id, n, sig, w.group n⟩ := by
  cases k with
  | launch i =>
    simp only [ProcessGroups.aims] at hk
    split at hk
    · rename_i pid hstage
      cases hk
      obtain ⟨x, -, hfits⟩ := hw.sound.fits i
      rw [Place.Fits, hstage] at hfits
      exact ⟨i, rfl, hw.remembers i pid (by exact_mod_cast hfits.1) (.launch hstage rfl), fun s hs => by cases hs⟩
    · rename_i pid hstage
      cases hk
      refine ⟨i, rfl, ?_, fun s hs => by cases hs⟩
      change P (w.group pid) i
      rw [hw.lives i pid (by rw [hstage]; rfl) (Or.inl (hw.waits i (by rw [hstage]; rfl)))]
      exact hP i
    · cases hk
  | withdrawal d =>
    simp only [ProcessGroups.aims] at hk
    split at hk
    · rename_i head run left hstage
      split at hk
      · rename_i hpos
        cases hk
        have hleft : (w.daemon.withdrawals d).stage.left.lookup id = some run := by
          rw [hstage, Withdrawing.left, RunRegistry.lookup_cons, if_pos rfl]
        obtain ⟨i, hid⟩ := hw.sound.taken d id (by rw [hleft]; simp)
        subst hid
        exact ⟨i, rfl, hw.remembers i _ hpos (.withdrawal hleft rfl), fun s hs => by cases hs⟩
      · cases hk
    · cases hk
  | request s => cases hk

theorem Steady.sent (hw : w.Steady P) {k : Killer} {id : String} {sig : Nat}
    (hg : w.Right P ⟨k, id, n, sig, w.group n⟩) :
    (w.sent k id n sig).Steady P where
  sound := hw.sound
  lives := hw.lives
  waits := hw.waits
  remembers := hw.remembers
  rechecked := hw.rechecked
  signals g hmem := by
    obtain hmem | hmem := List.mem_append.mp hmem
    · exact hw.signals g hmem
    · rw [List.mem_singleton] at hmem
      subst hmem
      exact hg

/-- A step of the kernel. -/
theorem Steady.kernel (hw : w.Steady P) (hd : w'.daemon = w.daemon) (hq : w'.requests = w.requests)
    (hg : w'.signals = w.signals)
    (hlives : ∀ i pid, (w.daemon.launches i).stage.pid = some pid → (w'.child i ≠ .reaped ∨ w'.members i = true) →
      w'.group pid = .run i)
    (hwaits : ∀ i, (w.daemon.launches i).stage.unwaited = true → w'.child i ≠ .reaped)
    (hkeep : ∀ i n, 0 < n → w.Remembered i n → P (w.group n) i → P (w'.group n) i) : w'.Steady P where
  sound := hd ▸ hw.sound
  lives := hd ▸ hlives
  waits := hd ▸ hwaits
  remembers i n hn h := by
    rw [hd] at h
    exact hkeep i n hn (Or.inl h) (hw.remembers i n hn h)
  rechecked s n h := by
    rw [hq] at h ⊢
    rw [hd]
    obtain ⟨i, hid, hagent, hgroup⟩ := hw.rechecked s n h
    exact ⟨i, hid, hagent, fun hn => hkeep i n hn (Or.inr ⟨s, h, hid.symm⟩) (hgroup hn)⟩
  signals g hmem := by
    rw [hg] at hmem
    rw [Right, hd, hq]
    exact hw.signals g hmem

/-- The child or the last other member of a group goes, and with it the group if nothing else is left of it. -/
theorem Steady.freed (hw : w.Steady P) {child : Nat → Child} {members : Nat → Bool} {pid : Nat}
    (hpid : (w.daemon.launches i).stage.pid = some pid) (hlive : w.child i ≠ .reaped ∨ w.members i = true)
    (hother : ∀ j, j ≠ i → child j = w.child j ∧ members j = w.members j)
    (hunwaited : (w.daemon.launches i).stage.unwaited = true → child i ≠ .reaped)
    (hkeep : ∀ j n, 0 < n → w.Remembered j n → P (w.group n) j →
      P ((({ w with child, members } : ProcessGroups).freed i pid).group n) j) :
    (({ w with child, members } : ProcessGroups).freed i pid).Steady P := by
  have hgroup := hw.lives i pid hpid hlive
  have hsame : ∀ {α : Type} (f : ProcessGroups → α), (∀ v group, f { v with group } = f v) →
      f (({ w with child, members } : ProcessGroups).freed i pid) = f { w with child, members } := by
    intro α f hf
    rw [ProcessGroups.freed]
    split
    · exact hf _ _
    · rfl
  have hc := hsame (·.child) (fun _ _ => rfl)
  have hm := hsame (·.members) (fun _ _ => rfl)
  refine hw.kernel (hsame (·.daemon) fun _ _ => rfl) (hsame (·.requests) fun _ _ => rfl)
    (hsame (·.signals) fun _ _ => rfl) (fun j pid' hj h => ?_) (fun j hj => ?_) hkeep
  · rw [hc, hm] at h
    by_cases hji : j = i
    · subst hji
      cases hpid.symm.trans hj
      rw [ProcessGroups.freed, if_neg]
      · exact hgroup
      · rintro ⟨hreaped, hnone⟩
        obtain h | h := h
        · exact h hreaped
        · exact absurd h (by rw [hnone]; decide)
    · obtain ⟨hcj, hmj⟩ := hother j hji
      have hgroup' := hw.lives j pid' hj (by rw [← hcj, ← hmj]; exact h)
      rw [ProcessGroups.freed]
      split
      · have hne : (pid' : Int) ≠ pid := by
          intro heq
          rw [heq, hgroup] at hgroup'
          cases hgroup'
          exact hji rfl
        exact (Function.update_of_ne hne _ _).trans hgroup'
      · exact hgroup'
  · rw [hc]
    by_cases hji : j = i
    · subst hji
      exact hunwaited hj
    · change child j ≠ .reaped
      rw [(hother j hji).1]
      exact hw.waits j hj

theorem spawn_eq_some {daemon daemon' : Launches} {pid : Nat} (hs : daemon.step (.spawn i pid) = some daemon') :
    (daemon.launches i).stage = .allowed ∧ daemon' = daemon.setStage i (.spawned pid) := by
  simp only [Launches.step] at hs
  split at hs
  · split at hs <;> cases hs
    exact ⟨by assumption, rfl⟩
  · cases hs

/-- A child is given a number that nobody has. -/
theorem Steady.spawn (hw : w.Steady P) {daemon : Launches} {pid : Nat} (hgroup : w.group pid = .nobody)
    (hs : w.daemon.step (.spawn i pid) = some daemon)
    (hkeep : ∀ j n, 0 < n → w.Remembered j n → P (w.group n) j → P (Function.update w.group pid (.run i) n) j) :
    ({ w with
        daemon, group := Function.update w.group pid (.run i), child := Function.update w.child i .running,
        members := Function.update w.members i false } : ProcessGroups).Steady P := by
  have hsound := hw.sound.step hs
  obtain ⟨hstage, rfl⟩ := spawn_eq_some hs
  have hname : ∀ j, ((w.daemon.setStage i (.spawned pid)).launches j).runId = (w.daemon.launches j).runId ∧
      ((w.daemon.setStage i (.spawned pid)).launches j).agent = (w.daemon.launches j).agent := fun j => by
    obtain ⟨hagent, -, hid, -⟩ := Launches.step_launch hs j
    exact ⟨hid, hagent⟩
  refine ⟨hsound, fun j pid' hj h => ?_, fun j hj => ?_, fun j n hn h => ?_, fun s n h => ?_, fun g hg => ?_⟩
  · by_cases hji : j = i
    · subst hji
      rw [Launches.setStage_same] at hj
      cases hj
      exact Function.update_self ..
    · rw [Launches.setStage_other hji] at hj
      have hgroup' := hw.lives j pid' hj (by simpa [hji] using h)
      have hne : (pid' : Int) ≠ pid := by
        intro heq
        rw [heq, hgroup] at hgroup'
        cases hgroup'
      exact (Function.update_of_ne hne _ _).trans hgroup'
  · by_cases hji : j = i
    · subst hji
      simp
    · rw [Launches.setStage_other hji] at hj
      simpa [hji] using hw.waits j hj
  · have hold : w.daemon.Remembers j n := by
      cases h with
      | registry h hm => exact .registry ((hname j).1 ▸ h) hm
      | withdrawal h hm => exact .withdrawal ((hname j).1 ▸ h) hm
      | launch h hpid =>
        by_cases hji : j = i
        · subst hji
          rw [Launches.setStage_same] at h
          cases h
        · rw [Launches.setStage_other hji] at h
          exact .launch h hpid
    exact hkeep j n hn (Or.inl hold) (hw.remembers j n hn hold)
  · obtain ⟨j, hid, hagent, hP⟩ := hw.rechecked s n h
    exact ⟨j, (hname j).1.trans hid, hagent.trans (hname j).2.symm,
      fun hn => hkeep j n hn (Or.inr ⟨s, h, hid.symm⟩) (hP hn)⟩
  · obtain ⟨j, hid, hfound, hagent⟩ := hw.signals g hg
    exact ⟨j, (hname j).1.trans hid, hfound, fun s hk => (hagent s hk).trans (hname j).2.symm⟩

/-- A request moves on. -/
theorem Steady.setPhase (hw : w.Steady P) (s : Nat) (phase : Signalling)
    (hphase : ∀ n, phase = .rechecked n → ∃ i, (w.daemon.launches i).runId = (w.requests s).runId ∧
      (w.requests s).agent = (w.daemon.launches i).agent ∧ (0 < n → P (w.group n) i)) :
      (w.setPhase s phase).Steady P := by
  have hagent : ∀ c, ((w.setPhase s phase).requests c).agent = (w.requests c).agent := fun c => by
    by_cases hc : c = s
    · subst hc
      simp [ProcessGroups.setPhase]
    · simp [ProcessGroups.setPhase, hc]
  refine ⟨hw.sound, hw.lives, hw.waits, hw.remembers, fun c n h => ?_, fun g hg => ?_⟩
  · by_cases hc : c = s
    · subst hc
      simp only [ProcessGroups.setPhase, Function.update_self] at h ⊢
      exact hphase n h
    · simp only [ProcessGroups.setPhase, Function.update_of_ne hc] at h ⊢
      exact hw.rechecked c n h
  · obtain ⟨i, hid, hfound, hs⟩ := hw.signals g hg
    exact ⟨i, hid, hfound, fun c hk => (hagent c).trans (hs c hk)⟩

/-- A run that its agent finds in the registry. -/
theorem Steady.owned (hw : w.Steady P) {s : Nat} {m : RunMeta}
    (h : w.daemon.registry.lookupOwned (w.requests s).agent (w.requests s).runId = some m) :
    ∃ i, (w.daemon.launches i).runId = (w.requests s).runId ∧ (w.requests s).agent = (w.daemon.launches i).agent ∧
      (0 < m.pgid → P (w.group m.pgid) i) := by
  rw [RunRegistry.lookupOwned, Option.filter_eq_some_iff] at h
  obtain ⟨hlookup, howner⟩ := h
  obtain ⟨i, hid⟩ := hw.sound.known (w.requests s).runId (by rw [hlookup]; simp)
  rw [← hid] at hlookup
  obtain ⟨x, hat, hfits⟩ := hw.sound.fits i
  have hentry := hat.entry
  rw [hlookup] at hentry
  cases x with
  | kept m' =>
    cases hentry
    refine ⟨i, hid, ?_, fun hn => hw.remembers i _ hn (.registry hlookup rfl)⟩
    rw [← hfits.owner.1]
    exact (beq_iff_eq.mp howner).symm
  | nowhere | taken d m' | ended d | own => cases hentry

/-- The last signal of an ending, and the step that it is part of. -/
theorem Steady.last (hP : ∀ i, P (.run i) i) (hw : w.Steady P) {k : Killer} {e : Launches.Event}
    (he : ∀ i pid, e ≠ .spawn i pid) (hs : w.last k e = some w') : w'.Steady P := by
  simp only [ProcessGroups.last] at hs
  split at hs
  · obtain ⟨daemon, hstep, rfl⟩ := Option.map_eq_some_iff.mp hs
    exact hw.daemon hP hstep he
  · rename_i id n alive haims hending
    obtain ⟨daemon, hstep, rfl⟩ := Option.map_eq_some_iff.mp hs
    split
    · have h := (hw.sent (hw.aims hP haims 9)).daemon hP (show (w.sent k id n 9).daemon.step e = some daemon from hstep)
        he
      exact ⟨h.1, h.2, h.3, h.4, h.5, h.6⟩
    · have h := hw.daemon hP hstep he
      exact ⟨h.1, h.2, h.3, h.4, h.5, h.6⟩
  · cases hs

theorem Steady.step (hP : ∀ i, P (.run i) i) (hw : w.Steady P) {e : Event} (hs : w.step e = some w')
    (hkeep : ∀ i n, 0 < n → w.Remembered i n → P (w.group n) i → P (w'.group n) i) : w'.Steady P := by
  cases e with
  | daemon e =>
    simp only [ProcessGroups.step] at hs
    split at hs
    · cases hs
    · split at hs
      · split at hs
        · obtain ⟨daemon, hstep, rfl⟩ := Option.map_eq_some_iff.mp hs
          exact hw.spawn (by assumption) hstep hkeep
        · cases hs
      · exact hw.last hP (by simp) hs
      · exact hw.last hP (by simp) hs
      · obtain ⟨daemon, hstep, rfl⟩ := Option.map_eq_some_iff.mp hs
        exact hw.daemon hP hstep (by assumption)
  | term k =>
    simp only [ProcessGroups.step] at hs
    split at hs
    · rename_i haims hending
      cases hs
      have h := hw.sent (hw.aims hP haims 15)
      exact ⟨h.1, h.2, h.3, h.4, h.5, h.6⟩
    · cases hs
  | probe k =>
    simp only [ProcessGroups.step] at hs
    split at hs
    · rename_i haims hending
      cases hs
      have h := hw.sent (hw.aims hP haims 0)
      exact ⟨h.1, h.2, h.3, h.4, h.5, h.6⟩
    · cases hs
  | look s =>
    simp only [ProcessGroups.step] at hs
    split at hs
    · split at hs
      · rename_i m hm
        split at hs
        · cases hs
          have h := hw.setPhase s (.looked m.project m.pgid) (by simp)
          exact ⟨h.1, h.2, h.3, h.4, h.5, h.6⟩
        · cases hs
          exact hw.setPhase s .answered (by simp)
      · cases hs
        exact hw.setPhase s .answered (by simp)
    · cases hs
  | recheck s =>
    simp only [ProcessGroups.step] at hs
    split at hs
    · split at hs
      · rename_i m hm
        split at hs
        · rename_i hsame
          cases hs
          refine hw.setPhase s _ fun n hn => ?_
          cases hn
          rw [← hsame.2]
          exact hw.owned hm
        · cases hs
          have h := hw.setPhase s .answered (by simp)
          exact ⟨h.1, h.2, h.3, h.4, h.5, h.6⟩
      · cases hs
        have h := hw.setPhase s .answered (by simp)
        exact ⟨h.1, h.2, h.3, h.4, h.5, h.6⟩
    · cases hs
  | send s =>
    simp only [ProcessGroups.step] at hs
    split at hs
    · rename_i pgid hphase
      cases hs
      have hsent : (if 0 < pgid then w.sent (.request s) (w.requests s).runId pgid (w.requests s).signal else w).Steady
        P := by
        split
        · rename_i hpos
          obtain ⟨i, hid, hagent, hgroup⟩ := hw.rechecked s pgid hphase
          refine hw.sent ⟨i, hid, hgroup hpos, fun c hc => ?_⟩
          cases hc
          exact hagent
        · exact hw
      have h := hsent.setPhase s .answered (by simp)
      exact ⟨h.1, h.2, h.3, h.4, h.5, h.6⟩
    · cases hs
  | exit i =>
    simp only [ProcessGroups.step] at hs
    split at hs
    · rename_i hrunning
      cases hs
      refine hw.kernel rfl rfl rfl (fun j pid hj h => hw.lives j pid hj ?_) (fun j hj => ?_) fun _ _ _ _ h => h
      · by_cases hji : j = i
        · subst hji
          exact Or.inl (by rw [hrunning]; decide)
        · simpa [hji] using h
      · by_cases hji : j = i
        · subst hji
          simp
        · simpa [hji] using hw.waits j hj
    · cases hs
  | fork i =>
    simp only [ProcessGroups.step] at hs
    split at hs
    · rename_i hlive
      cases hs
      refine hw.kernel rfl rfl rfl (fun j pid hj h => hw.lives j pid hj ?_) hw.waits fun _ _ _ _ h => h
      by_cases hji : j = i
      · subst hji
        exact hlive.imp (fun h => by rw [h]; decide) id
      · simpa [hji] using h
    · cases hs
  | leave i =>
    simp only [ProcessGroups.step] at hs
    split at hs
    · rename_i hmembers hpid
      cases hs
      exact hw.freed hpid (Or.inr hmembers) (fun j hj => ⟨rfl, Function.update_of_ne hj _ _⟩) (hw.waits i) hkeep
    · cases hs
  | reap i =>
    simp only [ProcessGroups.step] at hs
    split at hs
    case h_4 => cases hs
    all_goals
      rename_i hexited hstage
      cases hs
      refine hw.freed (by rw [hstage]; rfl) (Or.inl (by rw [hexited]; decide))
        (fun j hj => ⟨Function.update_of_ne hj _ _, rfl⟩) (fun h => ?_) hkeep
      rw [hstage] at h
      cases h
  | reuse n =>
    simp only [ProcessGroups.step] at hs
    split at hs
    · rename_i hnobody
      cases hs
      refine hw.kernel rfl rfl rfl (fun j pid hj h => ?_) hw.waits hkeep
      have hgroup := hw.lives j pid hj h
      refine (Function.update_of_ne ?_ _ _).trans hgroup
      intro heq
      rw [heq, hnobody] at hgroup
      cases hgroup
    · cases hs
  | vanish n =>
    simp only [ProcessGroups.step] at hs
    split at hs
    · rename_i hstranger
      cases hs
      refine hw.kernel rfl rfl rfl (fun j pid hj h => ?_) hw.waits hkeep
      have hgroup := hw.lives j pid hj h
      refine (Function.update_of_ne ?_ _ _).trans hgroup
      intro heq
      rw [heq, hstranger] at hgroup
      cases hgroup
    · cases hs

/-- The number of a group that goes with this event. -/
def frees (w : ProcessGroups) : Event → Option Nat
  | .reap i => if w.members i then none else (w.daemon.launches i).stage.pid
  | .leave i => if w.child i = .reaped then (w.daemon.launches i).stage.pid else none
  | _ => none

/-- The number that is given to a new group with this event. -/
def gives : Event → Option Int
  | .daemon (.spawn _ pid) => some pid
  | .reuse n => some n
  | _ => none

/-- A group does not go while somebody may still signal it. -/
def Lasting (w : ProcessGroups) (e : Event) : Prop := ∀ i pid, frees w e = some pid → ¬ w.Remembered i pid

/-- A number is not given away while somebody may still signal the group that it denoted. -/
def Unrecycled (w : ProcessGroups) (e : Event) : Prop := ∀ i n, gives e = some n → ¬ w.Remembered i n

theorem freed_group {i pid : Nat} (n : Int) : (w.freed i pid).group n = w.group n ∨
    (w.child i = .reaped ∧ w.members i = false ∧ n = pid ∧ (w.freed i pid).group n = .nobody) := by
  rw [freed]
  split
  · rename_i h
    by_cases hn : n = pid
    · exact Or.inr ⟨h.1, h.2, hn, by rw [hn]; exact Function.update_self ..⟩
    · exact Or.inl (Function.update_of_ne hn _ _)
  · exact Or.inl rfl

theorem last_group {k : Killer} {e : Launches.Event} (hs : w.last k e = some w') : w'.group = w.group := by
  simp only [last] at hs
  split at hs
  · obtain ⟨daemon, -, rfl⟩ := Option.map_eq_some_iff.mp hs
    rfl
  · obtain ⟨daemon, -, rfl⟩ := Option.map_eq_some_iff.mp hs
    split <;> rfl
  · cases hs

/-- What happens to the number of a group. -/
theorem group_step {e : Event} (hs : w.step e = some w') (n : Int) : w'.group n = w.group n ∨
    (∃ pid : Nat, n = pid ∧ frees w e = some pid ∧ w'.group n = .nobody) ∨ (gives e = some n ∧ w.group n = .nobody) ∨
      w.group n = .stranger := by
  cases e with
  | daemon e =>
    simp only [step] at hs
    split at hs
    · cases hs
    · split at hs
      · rename_i i pid _
        split at hs
        · rename_i hnobody
          obtain ⟨daemon, -, rfl⟩ := Option.map_eq_some_iff.mp hs
          by_cases hn : n = pid
          · subst hn
            exact Or.inr (Or.inr (Or.inl ⟨rfl, hnobody⟩))
          · exact Or.inl (Function.update_of_ne hn _ _)
        · cases hs
      · exact Or.inl (congrFun (last_group hs) n)
      · exact Or.inl (congrFun (last_group hs) n)
      · obtain ⟨daemon, -, rfl⟩ := Option.map_eq_some_iff.mp hs
        exact Or.inl rfl
  | term k =>
    simp only [step] at hs
    split at hs <;> cases hs
    exact Or.inl rfl
  | probe k =>
    simp only [step] at hs
    split at hs <;> cases hs
    exact Or.inl rfl
  | look s =>
    simp only [step] at hs
    split at hs
    · split at hs
      · split at hs <;> cases hs <;> exact Or.inl rfl
      · cases hs
        exact Or.inl rfl
    · cases hs
  | recheck s =>
    simp only [step] at hs
    split at hs
    · split at hs
      · split at hs <;> cases hs <;> exact Or.inl rfl
      · cases hs
        exact Or.inl rfl
    · cases hs
  | send s =>
    simp only [step] at hs
    split at hs <;> cases hs
    refine Or.inl ?_
    split <;> rfl
  | exit i =>
    simp only [step] at hs
    split at hs <;> cases hs
    exact Or.inl rfl
  | fork i =>
    simp only [step] at hs
    split at hs <;> cases hs
    exact Or.inl rfl
  | leave i =>
    simp only [step] at hs
    split at hs
    · rename_i hmembers hpid
      cases hs
      obtain h | ⟨hreaped, -, hn, h⟩ := freed_group n
      · exact Or.inl h
      · exact Or.inr (Or.inl ⟨_, hn, (if_pos hreaped).trans hpid, h⟩)
    · cases hs
  | reap i =>
    simp only [step] at hs
    split at hs
    case h_4 => cases hs
    all_goals
      rename_i hexited hstage
      cases hs
      obtain h | ⟨-, hnone, hn, h⟩ := freed_group n
      · exact Or.inl h
      · refine Or.inr (Or.inl ⟨_, hn, (if_neg ?_).trans (by rw [hstage]; rfl), h⟩)
        exact fun hsome => by cases hnone.symm.trans hsome
  | reuse m =>
    simp only [step] at hs
    split at hs <;> cases hs
    by_cases hn : n = m
    · subst hn
      exact Or.inr (Or.inr (Or.inl ⟨rfl, by assumption⟩))
    · exact Or.inl (Function.update_of_ne hn _ _)
  | vanish m =>
    simp only [step] at hs
    split at hs <;> cases hs
    by_cases hn : n = m
    · subst hn
      exact Or.inr (Or.inr (Or.inr (by assumption)))
    · exact Or.inl (Function.update_of_ne hn _ _)

/-- A signal finds the group of its run, if no group goes while somebody may still signal it. It finds nobody else's, if
no number is given away while somebody may still signal the group that it denoted. A signal that was asked for is by the
agent of the run. -/
theorem signals_reach_their_run {w₀ w : ProcessGroups} {es : List Event} (h₀ : w₀.Fresh)
    (hr : runs step w₀ es = some w) :
    (Along step Lasting w₀ es → ∀ g ∈ w.signals, ∃ i, (w.daemon.launches i).runId = g.runId ∧ g.found = .run i) ∧
    (Along step Unrecycled w₀ es → ∀ g ∈ w.signals, ∃ i, (w.daemon.launches i).runId = g.runId ∧
      (g.found = .run i ∨ g.found = .nobody)) ∧
    ∀ g ∈ w.signals, ∀ s, g.killer = .request s → ∃ i, (w.daemon.launches i).runId = g.runId ∧
      (w.requests s).agent = (w.daemon.launches i).agent := by
  refine ⟨fun hc g hg => ?_, fun hc g hg => ?_, fun g hg s hk => ?_⟩
  · have hsteady : w.Steady fun found i => found = .run i := by
      refine runs_induction (fun v e v' hv hc hs => ?_) h₀.steady hc hr
      refine hv.step (fun _ => rfl) hs fun i n hn hrem hold => ?_
      obtain h | ⟨pid, rfl, hfrees, -⟩ | ⟨-, h⟩ | h := group_step hs n
      · exact h.trans hold
      · exact absurd hrem (hc i pid hfrees)
      · rw [h] at hold
        cases hold
      · rw [h] at hold
        cases hold
    obtain ⟨i, hid, hfound, -⟩ := hsteady.signals g hg
    exact ⟨i, hid, hfound⟩
  · have hsteady : w.Steady fun found i => found = .run i ∨ found = .nobody := by
      refine runs_induction (fun v e v' hv hc hs => ?_) h₀.steady hc hr
      refine hv.step (fun _ => Or.inl rfl) hs fun i n hn hrem hold => ?_
      obtain h | ⟨pid, -, -, h⟩ | ⟨hgives, -⟩ | h := group_step hs n
      · rwa [h]
      · exact Or.inr h
      · exact absurd hrem (hc i n hgives)
      · rw [h] at hold
        obtain hold | hold := hold <;> cases hold
    obtain ⟨i, hid, hfound, -⟩ := hsteady.signals g hg
    exact ⟨i, hid, hfound⟩
  · have hsteady : w.Steady fun _ _ => True :=
      runs_induction (fun v e v' hv _ hs => hv.step (fun _ => trivial) hs fun _ _ _ _ _ => trivial) h₀.steady
        (along_true step w₀ es) hr
    obtain ⟨i, hid, -, hagent⟩ := hsteady.signals g hg
    exact ⟨i, hid, hagent s hk⟩

/-- A daemon of one agent, and a kernel that has no group yet. -/
def quiet : ProcessGroups where
  daemon := Launches.calm
  group _ := .nobody
  child _ := .unborn
  members _ := false
  ending _ := .idle
  requests _ := { agent := "agent", runId := "", signal := 15, phase := .waiting }
  busy := none
  signals := []

theorem quiet_fresh : quiet.Fresh where
  daemon := Launches.calm_fresh
  group _ _ := by simp [quiet]
  requests _ := rfl
  signals := rfl

/-- A launch up to its answer. -/
def launched : List Event :=
  ([.authorize 0, .reserve 0 0, .allow 0, .spawn 0 7, .activate 0, .commit 0, .recordStarted 0, .answerStarted 0] :
    List Launches.Event).map .daemon

/-- The run is asked to end, and its time is over. -/
def timedOut : List Event :=
  [.look 0, .recheck 0, .send 0, .exit 0, .daemon (.finish 0), .term (.launch 0), .probe (.launch 0),
    .daemon (.terminate 0)]

/-- The child exits, and its number is given to another process before its group is signalled. -/
def recycled : List Event :=
  [.exit 0, .reap 0, .reuse 7, .daemon (.finish 0), .term (.launch 0)]

theorem signals_reach_timed_out : ∃ w, runs step quiet (launched ++ timedOut) = some w ∧ w.signals.length = 4 ∧
    ∀ g ∈ w.signals, ∃ i, (w.daemon.launches i).runId = g.runId ∧ g.found = .run i := by
  refine ⟨_, rfl, rfl, (signals_reach_their_run quiet_fresh
    (show runs step quiet (launched ++ timedOut) = some _ from rfl)).1 ?_⟩
  exact along_of_forall (by simp [launched, timedOut, Lasting, frees])

/-- A run whose child has exited signals whoever has its number by then. -/
theorem signal_reaches_stranger : ¬ ∀ (w₀ w : ProcessGroups) (es : List Event), w₀.Fresh → runs step w₀ es = some w →
    ∀ g ∈ w.signals, ∃ i, (w.daemon.launches i).runId = g.runId ∧ g.found = .run i := by
  intro h
  obtain ⟨i, -, hfound⟩ := h quiet _ (launched ++ recycled) quiet_fresh rfl ⟨.launch 0, "", 7, 15, .stranger⟩
    (by decide)
  cases hfound

end ProcessGroups

end SecretsVault
