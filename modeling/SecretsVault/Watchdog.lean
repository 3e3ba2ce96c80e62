import SecretsVault.Coherence
import SecretsVault.Commits
import SecretsVault.Lib.Interleaving
import SecretsVault.Reopening
import SecretsVault.Requests

/-!
# The idle watchdog

A thread of the daemon locks an idle vault. It parks until its deadline, takes the session mutex, and locks the vault if
the idle window has passed. Requests, launches and the thread itself point it at the deadline of the session before they
let the mutex go; a thread that panics with the mutex leaves it poisoned, and it is not free again.

- `lockAndDrain_locks`, `Broker.Coherent`: what is drained is locked, and of a coherent session the drain comes to its
  end.
- `idle_lock_is_never_missed`: while the mutex is free the thread is armed for the deadline of the session, and not
  parked past it; a thread that is due locks the vault; a vault that is locked is not locked again.
-/

namespace SecretsVault

open Lib Lib.Prog

/-- Where the thread of the watchdog is. -/
inductive Watching where
  /-- It looks at its deadline. -/
  | checking
  /-- It is parked, up to its deadline if it has one. -/
  | parked (deadline : Option Instant)
  /-- Its deadline has passed, and it waits for the session mutex. -/
  | due
  /-- A lock has failed, and it lets some time pass. -/
  | backingOff
  deriving DecidableEq

/-- The daemon with its watchdog. -/
structure Watched where
  daemon : Daemon
  poisoned : Bool
  armed : Option Instant
  watching : Watching

/-- What a launch asks of the session after its idle check. -/
inductive RunCall where
  | record (record : RunRecord) (priority : Priority)
  | ensureUnlocked

def RunCall.call : RunCall → Call Unit
  | .record r priority => .auditRun r priority
  | .ensureUnlocked => .ensureRunUnlocked

namespace Watched

/-- What happens next. -/
inductive Event where
  /-- A request, with the keys that its passphrase derives. -/
  | request (req : Request) (proof : Option DerivedKeks)
  /-- A launch makes its idle check. -/
  | runIdle
  | runCall (c : RunCall)
  /-- A launch reserves or activates a slot of the registry, or lets go of it. -/
  | runSlot (runs : RunRegistry)
  /-- The thread looks at its deadline. -/
  | check (now : Instant)
  /-- The time for which the thread is parked has passed. -/
  | timeout (now : Instant)
  /-- The thread wakes up without a reason. -/
  | spurious
  /-- The thread has the session mutex. -/
  | lockIdle
  | retry

/-- Point the thread at a deadline; it is woken if that is another one. -/
def arm (w : Watched) (deadline : Option Instant) : Watched :=
  if w.armed = deadline then w
  else
    { w with
      armed := deadline
      watching := match w.watching with
        | .parked _ => .checking
        | watching => watching }

/-- Point the thread at the deadline of the session, if there is one. A deadline that the clock cannot hold is a panic,
and the mutex is left poisoned. -/
def armIdle (w : Watched) : Watched :=
  match w.daemon.session with
  | none => w
  | some s =>
    match s.idleDeadline with
    | some deadline => if INSTANT_END ≤ deadline then { w with poisoned := true } else w.arm (some deadline)
    | none => w.arm none

/-- The thread goes on, unless it has panicked. -/
def goOn (w : Watched) (watching : Watching) : Watched := if w.poisoned then w else { w with watching }

section

variable [Crypto] [VaultJson] [AuditJson]

/-- The session mutex is let go, or left poisoned. -/
def release {ε α : Type} (w : Watched) : Outcome ε α × Daemon → Watched
  | (.panic, daemon) => { w with daemon, poisoned := true }
  | (_, daemon) => { w with daemon }

/-- The same, with the thread pointed at the deadline before. -/
def releaseArmed {ε α : Type} (w : Watched) : Outcome ε α × Daemon → Watched
  | (.panic, daemon) => { w with daemon, poisoned := true }
  | (_, daemon) => { w with daemon }.armIdle

/-- The idle check of a request or a launch, and the rest of it unless the check fails. -/
def afterIdle (w : Watched) (s : Session) (go : Watched → Session → Watched) : Watched :=
  match w.daemon.holding s idleLock with
  | (.ok _, daemon) =>
    match daemon.session with
    | some s => go { w with daemon } s
    | none => { w with daemon }
  | r => w.release r

variable [Rendering]

/-- A request, once it has the session mutex. -/
def handleRequest (w : Watched) (req : Request) (proof : Option DerivedKeks) : Watched :=
  match w.daemon.session with
  | none =>
    if req.op = "vault.create" then w.releaseArmed (w.daemon.opCreate req) else w
  | some s => w.afterIdle s fun w s => w.releaseArmed (w.daemon.holding s (dispatch req proof))

def step (w : Watched) : Event → Option Watched
  | .request req proof => if w.poisoned then none else some (w.handleRequest req proof)
  | .runIdle =>
    if w.poisoned then none
    else match w.daemon.session with
      | none => some w
      | some s => some (w.afterIdle s fun w _ => w.armIdle)
  | .runCall c =>
    if w.poisoned then none
    else match w.daemon.session with
      | none => some w
      | some s => some (w.release (w.daemon.holding s (ask c.call)))
  | .runSlot runs => some { w with daemon := { w.daemon with runs } }
  | .check now =>
    match w.watching, w.armed with
    | .checking, none => some { w with watching := .parked none }
    | .checking, some d => some { w with watching := if d ≤ now then .due else .parked (some d) }
    | _, _ => none
  | .timeout now =>
    match w.watching with
    | .parked (some d) => if d ≤ now then some { w with watching := .checking } else none
    | _ => none
  | .spurious =>
    match w.watching with
    | .parked _ => some { w with watching := .checking }
    | _ => none
  | .lockIdle =>
    if w.poisoned then none
    else match w.watching, w.daemon.session with
      | .due, none => some { w with watching := .checking }
      | .due, some s =>
        match w.daemon.holding s idleLock with
        | (.ok _, daemon) => some (({ w with daemon } : Watched).armIdle.goOn .checking)
        | (.error _, daemon) => some (({ w with daemon } : Watched).armIdle.goOn .backingOff)
        | (.panic, daemon) => some { w with daemon, poisoned := true }
      | _, _ => none
  | .retry =>
    match w.watching with
    | .backingOff => some { w with watching := .checking }
    | _ => none

end

/-- A daemon that has just started: it has loaded its session, if there is a vault, and lets the watchdog lock it. -/
structure Fresh (w : Watched) : Prop where
  session : ∀ s, w.daemon.session = some s → s.isLocked = true ∧ s.idleSelfLock = false
  poisoned : w.poisoned = false
  armed : w.armed = none
  watching : w.watching = .checking

end Watched

section

variable [Crypto] [VaultJson] [AuditJson]

/-! ## A session that does not lock itself -/

/-- No act lets a session lock itself. -/
theorem Act.deferred {p : Rights} {s t : Sys} (h : Act p s t) (hs : s.session.idleSelfLock = false) :
    t.session.idleSelfLock = false := by
  cases h with
  | append hev hmac =>
    obtain ⟨l, f, q, ht⟩ := onAudit_recorded (appendEvent_auditOnly _ _ _) s
    rw [ht]
    exact hs
  | @commit doc record priority hc =>
    rcases hr : (commitWith doc record priority).run s with ⟨o, t⟩
    cases commitWith_ends hr <;> exact hs
  | clock lastActivity idleSelfLock _ hself =>
    cases idleSelfLock with
    | false => rfl
    | true => exact (hself rfl).symm.trans hs
  | @store u hup hu =>
    rcases hr : (storeAsIs u).run s with ⟨o, t⟩
    cases storeAsIs_ends hr <;> exact hs
  | _ => exact hs

theorem Serves.deferred {p : Warrant} {b b' : Broker Session} (h : Serves p b b')
    (hb : b.session.idleSelfLock = false) : b'.session.idleSelfLock = false := by
  cases h with
  | @call α b c hc =>
    exact (c.acts ⟨b.session, b.host.under (b.ahead 0)⟩).invariant (I := fun s => s.session.idleSelfLock = false) hb
      fun _ _ ha hs => ha.deferred hs
  | _ => exact hb

/-- No request does. -/
theorem Served.deferred {p : Warrant} {α : Type} {m : BrokerProg α} (hm : Keeps (Served p) m) {b : Broker Session}
    (hb : b.session.idleSelfLock = false) : (m.run b).2.session.idleSelfLock = false :=
  (hm b).invariant (I := fun b => b.session.idleSelfLock = false) hb fun _ _ h => h.deferred

/-! ## A lock does not fail -/

theorem lockPersist_unfailing : Unfailing lockPersist := by
  intro s e
  rw [lockPersist, run_get_bind]
  cases s.session.unlocked with
  | none => exact unfailing_modify _ s e
  | some u => exact (unfailing_ignore _).bind (fun _ => unfailing_modify _) s e

theorem ask_unfailing {α : Type} {c : Call α} (hc : Unfailing c.exec) : Unfailing (ask c) := by
  intro b e
  rw [ask, run_step]
  have h := hc ⟨b.session, b.host.under (b.ahead 0)⟩
  change (answered (c.exec.run _).1) ≠ _
  rcases hr : c.exec.run ⟨b.session, b.host.under (b.ahead 0)⟩ with ⟨_ | e' | _, t⟩ <;> rw [hr] at h
  · simp [answered]
  · exact absurd rfl (h e')
  · simp [answered]

theorem revokeRuns_unfailing (actor : String) (runs : RunRegistry) : Unfailing (revokeRuns actor runs) := by
  induction runs with
  | nil => exact unfailing_pure ()
  | cons e rest ih => exact (unfailing_ignore _).bind fun _ => ih

theorem terminateMatchingRuns_unfailing (actor : String) (agent project : Option String) :
    Unfailing (terminateMatchingRuns actor agent project) :=
  unfailing_get.bind fun _ => (unfailing_modify _).bind fun _ => revokeRuns_unfailing actor _

theorem lockAndDrain_unfailing (actor : String) : Unfailing (lockAndDrain actor) :=
  (unfailing_ignore _).bind fun _ => (terminateMatchingRuns_unfailing actor none none).bind fun _ =>
    ask_unfailing (c := .lockPersist) lockPersist_unfailing

theorem idleLock_unfailing : Unfailing idleLock := by
  have hglance : Unfailing glance := fun b e => by simp [glance]
  refine hglance.bind fun h => unfailing_get.bind fun b => ?_
  split
  · exact lockAndDrain_unfailing "human"
  · exact unfailing_pure ()

/-! ## What a lock leaves -/

variable {b b' : Broker Session}

theorem lockAndDrain_locks {actor : String} (h : (lockAndDrain actor).run b = (.ok (), b')) :
    b'.session.isLocked = true := by
  obtain ⟨_, b1, -, h⟩ := bind_eq_ok h
  obtain ⟨_, b2, -, h⟩ := bind_eq_ok h
  rw [ask, run_step] at h
  rcases hr : (Call.lockPersist).exec.run ⟨b2.session, b2.host.under (b2.ahead 0)⟩ with ⟨o, t⟩
  rw [hr] at h
  rcases lockPersist_locked hr with ⟨rfl, hlocked, -⟩ | rfl
  · cases h
    simp [Session.isLocked, hlocked]
  · cases h

/-- The state behind the first reading of the clocks. -/
def Broker.glanced (b : Broker Session) : Broker Session :=
  { b with host := b.host.under (b.ahead 0), ahead := fun i => b.ahead (i + 1) }

/-- The idle check: it locks an unlocked vault whose window has passed, and nothing else. -/
theorem idleLock_run (b : Broker Session) : idleLock.run b =
    if b.session.idleExpired (b.ahead 0).mono && !b.session.isLocked then (lockAndDrain "human").run b.glanced
    else (.ok (), b.glanced) := by
  rw [idleLock, run_bind_ok (show glance.run b = (.ok (b.host.under (b.ahead 0)), b.glanced) from rfl), run_get_bind]
  split <;> rename_i h
  · exact (if_pos h).symm
  · exact (if_neg h).symm

/-- A vault whose window has passed is locked by the idle check. -/
theorem idleLock_locks (ht : b.session.idleExpired (b.ahead 0).mono = true) (h : idleLock.run b = (.ok (), b')) :
    b'.session.isLocked = true := by
  rw [idleLock_run, ht, Bool.true_and] at h
  cases hlocked : b.session.isLocked with
  | true =>
    rw [hlocked, if_neg (by decide)] at h
    cases h
    exact hlocked
  | false =>
    rw [hlocked, if_pos (by decide)] at h
    exact lockAndDrain_locks h

variable [LawfulCrypto] [LawfulVaultJson] [LawfulAuditJson] {v : Vault}

/-- The session is coherent, and will be while writes to the log arrive whole. -/
structure Broker.Coherent (v : Vault) (b : Broker Session) : Prop where
  session : ∀ c : Conditions, c.Whole → v.Coherent ⟨b.session, b.host.under c⟩
  ahead : ∀ i, (b.ahead i).Whole

omit [LawfulCrypto] [LawfulVaultJson] [LawfulAuditJson] in
theorem Vault.Coherent.onAudit_ne_panic {s : Sys} (hs : v.Coherent s) {event : String → Nat → String → AuditEvent}
    (hev : Positioned event) (mac : Option SecretKey) (priority : Priority) :
    ((onAudit (AuditLog.appendEvent event mac priority)).run s).1 ≠ .panic := by
  obtain ⟨content, w, hf, ht, hch, hsync⟩ := hs.logs.sound.exists_chain
  rw [onAudit, run_zoom]
  exact hch.appendEvent_ne_panic hsync hf hev

theorem Broker.Coherent.tells (hb : b.Coherent v) {c : Call Unit}
    (hc : ∀ s, v.Coherent s → (c.exec.run s).1 ≠ .panic) (hno : ∀ e derived, ¬c.Tries e derived) :
    Returns (tell c) b fun _ b' => b'.Coherent v := by
  have hs := hb.session _ (hb.ahead 0)
  have hcoh := Call.coherent c hs fun derived h => absurd h (hno _ derived)
  have hne := hc _ hs
  rcases hr : c.exec.run ⟨b.session, b.host.under (b.ahead 0)⟩ with ⟨o, t⟩
  rw [hr] at hcoh hne
  refine ⟨(), { b with session := t.session, host := t.host, ahead := fun i => b.ahead (i + 1) }, ?_,
    fun c hc => hcoh.under hc, fun i => hb.ahead (i + 1)⟩
  rw [tell, run_ignore, ask, run_step, hr]
  cases o with
  | panic => exact absurd rfl hne
  | _ => rfl

theorem revokeRuns_returns (hb : b.Coherent v) (actor : String) (runs : RunRegistry) :
    Returns (revokeRuns actor runs) b fun _ b' => b'.Coherent v := by
  induction runs generalizing b with
  | nil => exact returns_pure hb
  | cons e rest ih =>
    exact (hb.tells (c := .runRevoked actor e.2.project e.1)
      (fun s hs => hs.onAudit_ne_panic (positioned_runRecord _) _ _)
      fun _ _ h => h).bind fun _ b' hb' => ih hb'

/-- Over a coherent session the daemon locks, whatever fails. -/
theorem lockAndDrain_returns (hb : b.Coherent v) (actor : String) : Returns (lockAndDrain actor) b fun _ _ => True := by
  refine (hb.tells (c := .auditRecord { actor, op := "vault.lock", decision := .allowed } .lifecycle)
    (fun s hs => hs.onAudit_ne_panic (positioned_record _) _ _) fun _ _ h => h).bind fun _ b1 hb1 => ?_
  refine Returns.bind (P := fun _ b2 => b2.Coherent v) ?_ fun _ b2 hb2 => ?_
  · refine returns_get_bind ((returns_modify (P := fun _ b2 => b2.Coherent v) ⟨hb1.session, hb1.ahead⟩).bind
      fun _ b2 hb2 => revokeRuns_returns hb2 _ _)
  · have hlock := (hb2.session _ (hb2.ahead 0)).lockPersist_ok
    rcases hr : lockPersist.run ⟨b2.session, b2.host.under (b2.ahead 0)⟩ with ⟨o, t⟩
    rw [hr] at hlock
    obtain rfl : o = .ok () := hlock
    refine ⟨(), { b2 with session := t.session, host := t.host, ahead := fun i => b2.ahead (i + 1) }, ?_, trivial⟩
    rw [ask, run_step, Call.exec, hr]
    rfl

theorem idleLock_returns (hb : b.Coherent v) : Returns idleLock b fun _ _ => True := by
  rw [Returns, idleLock_run]
  split
  · have hglanced : b.glanced.Coherent v := ⟨fun c hc => hb.session c hc, fun i => hb.ahead (i + 1)⟩
    exact lockAndDrain_returns hglanced "human"
  · exact ⟨(), _, rfl, trivial⟩

end

namespace Watched

variable {w w' : Watched}

/-! ## Arming the thread -/

@[simp] theorem arm_daemon (d : Option Instant) : (w.arm d).daemon = w.daemon := by rw [arm]; split <;> rfl
@[simp] theorem arm_poisoned (d : Option Instant) : (w.arm d).poisoned = w.poisoned := by rw [arm]; split <;> rfl
@[simp] theorem arm_armed (d : Option Instant) : (w.arm d).armed = d := by
  rw [arm]
  split
  · assumption
  · rfl

@[simp] theorem armIdle_daemon : w.armIdle.daemon = w.daemon := by
  rw [armIdle]
  split
  · rfl
  · split
    · split <;> simp
    · simp

/-- The mutex is free again if the clock can hold the deadline. -/
theorem armIdle_poisoned (h : ∀ s deadline, w.daemon.session = some s → s.idleDeadline = some deadline →
    deadline < INSTANT_END) : w.armIdle.poisoned = w.poisoned := by
  rw [armIdle]
  split
  · rfl
  · rename_i s hs
    split
    · rename_i deadline hdeadline
      rw [if_neg (Nat.not_le.mpr (h s deadline hs hdeadline)), arm_poisoned]
    · exact arm_poisoned none

@[simp] theorem goOn_daemon (watching : Watching) : (w.goOn watching).daemon = w.daemon := by rw [goOn]; split <;> rfl
@[simp] theorem goOn_poisoned (watching : Watching) : (w.goOn watching).poisoned = w.poisoned := by
  rw [goOn]; split <;> rfl

/-- The thread is woken when its deadline changes. -/
theorem arm_parked {d : Option Instant} (hw : ∀ t, w.watching = .parked t → t = w.armed) {t : Option Instant}
    (h : (w.arm d).watching = .parked t) : t = (w.arm d).armed := by
  rw [arm] at h ⊢
  split at h
  · rename_i heq
    rw [if_pos heq]
    exact hw t h
  · split at h <;> simp_all

theorem armIdle_parked (hw : ∀ t, w.watching = .parked t → t = w.armed) {t : Option Instant}
    (h : w.armIdle.watching = .parked t) : t = w.armIdle.armed := by
  rw [armIdle] at h ⊢
  split at h
  · exact hw t h
  · split at h
    · split at h
      · rename_i hend
        rw [if_pos hend]
        exact hw t h
      · rename_i hend
        rw [if_neg hend]
        exact arm_parked hw h
    · exact arm_parked hw h

/-! ## The invariant -/

/-- The session mutex is free: the thread is pointed at the deadline of the session. -/
structure Kept (w : Watched) : Prop where
  deferred : ∀ s, w.daemon.session = some s → s.idleSelfLock = false
  armed : w.poisoned = false → w.armed = w.daemon.session.bind Session.idleDeadline
  parked : ∀ t, w.watching = .parked t → t = w.armed

theorem Fresh.kept (hw : w.Fresh) : w.Kept where
  deferred s hs := (hw.session s hs).2
  armed _ := by
    rw [hw.armed]
    cases hs : w.daemon.session with
    | none => rfl
    | some s => simp [Session.idleDeadline, (hw.session s hs).1]
  parked t h := by
    rw [hw.watching] at h
    cases h

/-- What a thread that has the mutex leaves alone until it points the watchdog at the deadline. -/
structure Held (w : Watched) : Prop where
  deferred : ∀ s, w.daemon.session = some s → s.idleSelfLock = false
  absent : w.daemon.session = none → w.armed = none
  parked : ∀ t, w.watching = .parked t → t = w.armed

theorem Held.kept_armIdle (hw : w.Held) : w.armIdle.Kept where
  deferred s hs := hw.deferred s (by simpa using hs)
  armed h := by
    rw [armIdle_daemon]
    cases hs : w.daemon.session with
    | none => simp [armIdle, hs, hw.absent hs]
    | some s =>
      simp only [armIdle, hs, Option.bind_some] at h ⊢
      cases hdeadline : s.idleDeadline with
      | none => simp
      | some deadline =>
        simp only [hdeadline] at h ⊢
        split at h
        · cases h
        · rename_i hend
          rw [if_neg hend, arm_armed]
  parked _ h := armIdle_parked hw.parked h

theorem Kept.goOn (hw : w.Kept) {watching : Watching} (h : ∀ t, watching ≠ .parked t) : (w.goOn watching).Kept := by
  rw [Watched.goOn]
  split
  · exact hw
  · exact ⟨hw.deferred, hw.armed, fun t ht => absurd ht (h t)⟩

theorem Held.kept_poisoned (hw : w.Held) (hp : w.poisoned = true) : w.Kept where
  deferred := hw.deferred
  armed h := by
    rw [hp] at h
    cases h
  parked := hw.parked

theorem Kept.absent (hw : w.Kept) (hp : w.poisoned = false) (hs : w.daemon.session = none) : w.armed = none := by
  rw [hw.armed hp, hs]
  rfl

section

variable [Crypto] [VaultJson] [AuditJson] {α ε : Type}

omit [Crypto] [VaultJson] [AuditJson] in
/-- Somebody takes the mutex. -/
theorem Kept.held (hw : w.Kept) (hp : w.poisoned = false) {daemon : Daemon}
    (hd : ∀ s, daemon.session = some s → s.idleSelfLock = false) (hs : daemon.session = none →
    w.daemon.session = none) : ({ w with daemon } : Watched).Held := ⟨hd, fun h => hw.absent hp (hs h), hw.parked⟩

omit [Crypto] [VaultJson] [AuditJson] in
theorem Held.releaseArmed {r : Outcome ε α × Daemon} (hw : ({ w with daemon := r.2 } : Watched).Held) :
    (w.releaseArmed r).Kept := by
  obtain ⟨o, daemon⟩ := r
  have hpoisoned : ({ w with daemon, poisoned := true } : Watched).Held := ⟨hw.deferred, hw.absent, hw.parked⟩
  cases o with
  | panic => exact hpoisoned.kept_poisoned rfl
  | ok a => exact hw.kept_armIdle
  | error e => exact hw.kept_armIdle

/-- What a request does with the session keeps it from locking itself. -/
theorem holding_deferred {d : Daemon} {s : Session} {m : BrokerProg α} {p : Warrant} (hs : s.idleSelfLock = false)
    (hm : Keeps (Served p) m) : (∀ t, (d.holding s m).2.session = some t → t.idleSelfLock = false) ∧
      (d.holding s m).2.session ≠ none := by
  have h := Served.deferred hm (b := { d with session := s }) hs
  rw [Daemon.holding]
  rcases hr : m.run { d with session := s } with ⟨o, b⟩
  rw [hr] at h
  exact ⟨fun t ht => by cases ht; exact h, by simp⟩

omit [Crypto] [VaultJson] [AuditJson] in
theorem holding_unfailing {d : Daemon} {s : Session} {m : BrokerProg α} (hm : Unfailing m) (e : WireError) :
    (d.holding s m).1 ≠ .error e := by
  have h := hm { d with session := s } e
  rw [Daemon.holding]
  rcases hr : m.run { d with session := s } with ⟨o, b⟩
  rw [hr] at h
  exact h

/-- The idle check does not fail, and the rest goes on from what it leaves. -/
theorem Kept.afterIdle (hw : w.Kept) (hp : w.poisoned = false) {s : Session} (hs : w.daemon.session = some s)
    {go : Watched → Session → Watched}
    (hgo : ∀ v : Watched, ∀ s, v.Held → v.daemon.session = some s → s.idleSelfLock = false → (go v s).Kept) :
    (w.afterIdle s go).Kept := by
  have hdef := hw.deferred s hs
  obtain ⟨hd, hne⟩ := holding_deferred (d := w.daemon) hdef (idleLock_served tame_within_any trivial trivial)
  have hheld : ∀ b : Bool, ({ w with daemon := (w.daemon.holding s idleLock).2, poisoned := b } : Watched).Held :=
    fun b =>
    ⟨hd, fun h => absurd h hne, hw.parked⟩
  have hok := holding_unfailing (d := w.daemon) (s := s) idleLock_unfailing
  rw [Watched.afterIdle]
  rcases hr : w.daemon.holding s idleLock with ⟨_ | e | _, daemon⟩ <;> rw [hr] at hd hne hheld hok
  · cases ht : daemon.session with
    | none => exact absurd ht hne
    | some t =>
      dsimp only
      rw [ht]
      exact hgo _ t (hp ▸ hheld w.poisoned) ht (hd t ht)
  · exact absurd rfl (hok e)
  · exact (hheld true).kept_poisoned rfl

/-! ### What a launch asks of the session -/

theorem RunCall.idleDeadline (c : RunCall) {s : Sys} (hs : s.session.idleSelfLock = false) :
    (c.call.exec.run s).2.session.idleDeadline = s.session.idleDeadline := by
  cases c with
  | record r priority =>
    obtain ⟨l, f, q, ht⟩ := onAudit_recorded (appendEvent_auditOnly r.event s.session.auditKey priority) s
    change (((onAudit (AuditLog.appendEvent r.event s.session.auditKey priority)).run s).2).session.idleDeadline = _
    rw [ht]
    rfl
  | ensureUnlocked =>
    have hidle : checkIdle.run s = (.ok (), s) := by
      rw [checkIdle_run, if_neg (by simp [Session.locksItself, hs])]
    change ((ensureRunUnlocked.run s).2).session.idleDeadline = _
    rw [ensureRunUnlocked, run_bind_ok hidle, run_get_bind]
    split <;> rfl

/-- It leaves the deadline of the session where it was. -/
theorem Kept.runCall (hw : w.Kept) {s : Session} (hs : w.daemon.session = some s) (c : RunCall) :
    (w.release (w.daemon.holding s (ask c.call))).Kept := by
  have hdef := hw.deferred s hs
  obtain ⟨hd, hne⟩ := holding_deferred (d := w.daemon) hdef (ask_served (p := .any) (c := c.call) trivial)
  have hdeadline : (w.daemon.holding s (ask c.call)).2.session.bind Session.idleDeadline = s.idleDeadline :=
    RunCall.idleDeadline c (s := ⟨s, w.daemon.host.under (w.daemon.ahead 0)⟩) hdef
  rcases hr : w.daemon.holding s (ask c.call) with ⟨o, daemon⟩
  rw [hr] at hd hne hdeadline
  have hfree : ({ w with daemon } : Watched).Kept :=
    ⟨hd, fun h => (hw.armed h).trans (by rw [hs]; exact hdeadline.symm), hw.parked⟩
  cases o with
  | ok a => exact hfree
  | error e => exact hfree
  | panic => exact ⟨hd, fun h => (by cases h), hw.parked⟩

variable [Rendering]

omit [Rendering] in
theorem opCreate_deferred {d : Daemon} (req : Request) (hd : d.session = none) {s : Session}
    (hs : (d.opCreate req).2.session = some s) : s.idleSelfLock = false := by
  rw [Daemon.opCreate] at hs
  split at hs
  · rw [hd] at hs
    cases hs
  · split at hs
    · rw [hd] at hs
      cases hs
    · rename_i pass _
      rcases hr : (Session.create pass.toUTF8.toList d.config.idleLock).run (d.host.under (d.ahead 0)) with ⟨o, host⟩
      rw [hr] at hs
      cases o with
      | ok session =>
        cases hs
        rfl
      | error e => exact absurd (hd.symm.trans hs) (by simp)
      | panic => exact absurd (hd.symm.trans hs) (by simp)

theorem Kept.handleRequest (hw : w.Kept) (hp : w.poisoned = false) (req : Request) (proof : Option DerivedKeks) :
    (w.handleRequest req proof).Kept := by
  rw [Watched.handleRequest]
  split
  · rename_i hs
    split
    · exact Held.releaseArmed (hw.held hp (fun s h => opCreate_deferred req hs h) fun _ => hs)
    · exact hw
  · rename_i s hs
    refine hw.afterIdle hp hs fun v s hv hvs hdef => ?_
    obtain ⟨hd, hne⟩ := holding_deferred (d := v.daemon) (m := dispatch req proof) hdef (dispatch_served proof)
    exact Held.releaseArmed ⟨hd, fun h => absurd h hne, hv.parked⟩

/-- The thread itself: a lock does not fail, and it is armed for what the lock leaves. -/
theorem Kept.lockIdle (hw : w.Kept) (hs : w.step .lockIdle = some w') : w'.Kept := by
  simp only [Watched.step] at hs
  split at hs
  · cases hs
  · split at hs
    · cases hs
      exact ⟨hw.deferred, hw.armed, fun t ht => by cases ht⟩
    · rename_i s _ hsession
      have hdef := hw.deferred s hsession
      obtain ⟨hd, hne⟩ := holding_deferred (d := w.daemon) hdef (idleLock_served tame_within_any trivial trivial)
      have hok := holding_unfailing (d := w.daemon) (s := s) idleLock_unfailing
      rcases hr : w.daemon.holding s idleLock with ⟨_ | e | _, daemon⟩ <;> rw [hr] at hd hne hok hs
      · cases hs
        have h : ({ w with daemon } : Watched).armIdle.Kept :=
          Held.kept_armIdle ⟨hd, fun h => absurd h hne, hw.parked⟩
        exact h.goOn fun t => by simp
      · exact absurd rfl (hok e)
      · cases hs
        exact ⟨hd, fun h => (by cases h), hw.parked⟩
    · cases hs

theorem Kept.step {e : Event} (hw : w.Kept) (hs : w.step e = some w') : w'.Kept := by
  cases e with
  | request req proof =>
    simp only [Watched.step] at hs
    split at hs
    · cases hs
    · rename_i hp
      cases hs
      exact hw.handleRequest (by simpa using hp) req proof
  | runIdle =>
    simp only [Watched.step] at hs
    split at hs
    · cases hs
    · rename_i hp
      split at hs
      · cases hs
        exact hw
      · rename_i s hsession
        cases hs
        exact hw.afterIdle (by simpa using hp) hsession fun v s hv _ _ => hv.kept_armIdle
  | runCall c =>
    simp only [Watched.step] at hs
    split at hs
    · cases hs
    · split at hs
      · cases hs
        exact hw
      · rename_i s hsession
        cases hs
        exact hw.runCall hsession c
  | runSlot runs =>
    cases hs
    exact ⟨hw.deferred, hw.armed, hw.parked⟩
  | check now =>
    simp only [Watched.step] at hs
    split at hs
    · rename_i harmed
      cases hs
      exact ⟨hw.deferred, hw.armed, fun t ht => by cases ht; exact harmed.symm⟩
    · rename_i d _ harmed
      cases hs
      refine ⟨hw.deferred, hw.armed, fun t ht => ?_⟩
      dsimp only at ht
      split at ht
      · cases ht
      · cases ht
        exact harmed.symm
    · cases hs
  | timeout now =>
    simp only [Watched.step] at hs
    split at hs
    · split at hs
      · cases hs
        exact ⟨hw.deferred, hw.armed, fun t ht => by cases ht⟩
      · cases hs
    · cases hs
  | spurious =>
    simp only [Watched.step] at hs
    split at hs
    · cases hs
      exact ⟨hw.deferred, hw.armed, fun t ht => by cases ht⟩
    · cases hs
  | lockIdle => exact hw.lockIdle hs
  | retry =>
    simp only [Watched.step] at hs
    split at hs
    · cases hs
      exact ⟨hw.deferred, hw.armed, fun t ht => by cases ht⟩
    · cases hs

/-! ## The daemon and its watchdog -/

omit [Rendering] [Crypto] [VaultJson] [AuditJson] in
@[simp] theorem release_daemon (r : Outcome ε α × Daemon) : (w.release r).daemon = r.2 := by
  obtain ⟨o, daemon⟩ := r
  cases o <;> rfl

omit [Rendering] [Crypto] [VaultJson] [AuditJson] in
@[simp] theorem releaseArmed_daemon (r : Outcome ε α × Daemon) : (w.releaseArmed r).daemon = r.2 := by
  obtain ⟨o, daemon⟩ := r
  cases o
  · exact armIdle_daemon
  · exact armIdle_daemon
  · rfl

/-- A request changes the daemon as it does without the watchdog. -/
theorem handleRequest_daemon {req : Request} {proof : Option DerivedKeks}
    (hproof : w.daemon.deriveHumanProof req = .ok proof) :
    (w.handleRequest req proof).daemon = (w.daemon.handleRequest req).2 := by
  rw [Watched.handleRequest, Daemon.handleRequest, hproof]
  cases hs : w.daemon.session with
  | none =>
    by_cases hop : req.op = "vault.create"
    · simp [hop]
    · simp [hop]
  | some s =>
    dsimp only
    rw [Watched.afterIdle, Daemon.holding, Daemon.holding, run_bind]
    rcases hidle : idleLock.run { w.daemon with session := s } with ⟨_ | e | _, b⟩
    · simp [Daemon.holding]
    · rfl
    · rfl

/-- The watchdog leaves a vault that is locked as it is. -/
theorem lockIdle_locked {s : Session} (hs : w.daemon.session = some s) (hlocked : s.isLocked = true)
    (hstep : w.step .lockIdle = some w') : w'.daemon = { w.daemon with
      host := w.daemon.host.under (w.daemon.ahead 0), ahead := fun i => w.daemon.ahead (i + 1) } := by
  have hrun : w.daemon.holding s idleLock = (.ok (), { w.daemon with
      host := w.daemon.host.under (w.daemon.ahead 0), ahead := fun i => w.daemon.ahead (i + 1) }) := by
    rw [Daemon.holding, idleLock, run_bind_ok (show glance.run _ = (.ok _, _) from rfl), run_get_bind,
      if_neg (by simp [hlocked]), run_pure]
    dsimp only
    rw [hs]
  simp only [Watched.step, hs] at hstep
  split at hstep
  · cases hstep
  · split at hstep
    · rename_i h
      cases h
    · rename_i h
      cases h
      rw [hrun] at hstep
      cases hstep
      simp
    · cases hstep

/-- The watchdog locks a vault whose window has passed, unless it panics, -/
theorem lockIdle_locks {s : Session} (hs : w.daemon.session = some s)
    (ht : s.idleExpired (w.daemon.ahead 0).mono = true)
    (hstep : w.step .lockIdle = some w') (hfree : w'.poisoned = false) :
    ∃ s', w'.daemon.session = some s' ∧ s'.isLocked = true := by
  simp only [Watched.step, hs] at hstep
  split at hstep
  · cases hstep
  · split at hstep
    · rename_i h
      cases h
    · rename_i h
      cases h
      rcases hr : idleLock.run { w.daemon with session := s } with ⟨_ | e | _, b'⟩ <;>
        simp only [Daemon.holding, hr] at hstep <;> cases hstep
      · exact ⟨b'.session, by simp, idleLock_locks ht hr⟩
      · exact absurd (congrArg Prod.fst hr) (idleLock_unfailing _ e)
      · cases hfree
    · cases hstep

/-- and over a coherent session it does not. -/
theorem lockIdle_free [LawfulCrypto] [LawfulVaultJson] [LawfulAuditJson] {v : Vault} {s : Session}
    (hs : w.daemon.session = some s) (hfree : w.poisoned = false)
    (hb : Broker.Coherent v { w.daemon with session := s })
    (hdue : w.watching = .due) (ht : s.idleExpired (w.daemon.ahead 0).mono = true) :
    ∃ w', w.step .lockIdle = some w' ∧ w'.poisoned = false := by
  obtain ⟨_, b', hr, -⟩ := idleLock_returns hb
  have hlocked := idleLock_locks ht hr
  simp only [Watched.step, hfree, hdue, hs, Daemon.holding, hr]
  refine ⟨_, rfl, ?_⟩
  rw [goOn_poisoned, armIdle_poisoned fun s' deadline hs' hdeadline => ?_]
  cases hs'
  simp [Session.idleDeadline, hlocked] at hdeadline

theorem Fresh.kept_run {w₀ : Watched} {es : List Event} (h₀ : w₀.Fresh) (hr : runs step w₀ es = some w) : w.Kept :=
  runs_induction (C := fun _ _ => True) (fun _ _ _ hw _ hs => hw.step hs) h₀.kept (along_of_forall fun _ _ _ => trivial)
    hr

/-- Whatever is interleaved, while the session mutex is free the thread is armed no later than the deadline of an
unlocked vault, and not parked past it, a lock that has failed included; a thread that is due locks the vault if the
window has passed; and while the vault is locked it is not armed, and does not lock it again. -/
theorem idle_lock_is_never_missed {w₀ : Watched} {es : List Event} (h₀ : w₀.Fresh) (hr : runs step w₀ es = some w)
    (hfree : w.poisoned = false) :
    (∀ s d, w.daemon.session = some s → s.idleDeadline = some d →
      ∃ d', w.armed = some d' ∧ d' ≤ d ∧ ∀ t, w.watching = .parked t → t = some d') ∧
    (∀ w' s, w.step .lockIdle = some w' → w'.poisoned = false → w'.daemon.session = some s → s.isLocked = false →
      s.idleTimeout ≠ 0 → ∃ d, w'.armed = some d) ∧
    (∀ w' s, w.step .lockIdle = some w' → w'.poisoned = false → w.daemon.session = some s →
      s.idleExpired (w.daemon.ahead 0).mono = true → ∃ s', w'.daemon.session = some s' ∧ s'.isLocked = true) ∧
    ∀ s, w.daemon.session = some s → s.isLocked = true → w.armed = none ∧
      (∀ t, w.watching = .parked t → t = none) ∧
      ∀ w', w.step .lockIdle = some w' → w'.daemon = { w.daemon with
        host := w.daemon.host.under (w.daemon.ahead 0), ahead := fun i => w.daemon.ahead (i + 1) } := by
  have hw := h₀.kept_run hr
  refine ⟨fun s d hs hd => ?_, fun w' s hstep hfree' hs hlocked ht => ?_,
    fun w' s hstep hfree' hs ht => lockIdle_locks hs ht hstep hfree',
    fun s hs hlocked => ⟨?_, fun t ht => ?_, fun w' h => lockIdle_locked hs hlocked h⟩⟩
  · have harmed : w.armed = some d := by rw [hw.armed hfree, hs, Option.bind_some, hd]
    exact ⟨d, harmed, Nat.le_refl _, fun t h => (hw.parked t h).trans harmed⟩
  · have harmed := (hw.lockIdle hstep).armed hfree'
    rw [hs, Option.bind_some, Session.idleDeadline, if_neg (by simp [hlocked, ht])] at harmed
    exact ⟨_, harmed⟩
  · rw [hw.armed hfree, hs, Option.bind_some, Session.idleDeadline, if_pos (Or.inr hlocked)]
  · rw [hw.parked t ht, hw.armed hfree, hs, Option.bind_some, Session.idleDeadline, if_pos (Or.inr hlocked)]

end

end Watched

namespace Reference

instance rendering : Rendering where
  time t := (AuditJson.rfc3339 t).toOption.getD ""
  auditLine l := .object [("hash", .string l.hash)]

/-- The passphrase, as it is typed. -/
def typed : String := String.ofList (List.replicate MIN_PASSPHRASE_LEN (Char.ofNat 0))

/-- A daemon without a vault, which locks one that is idle for five minutes. After its first call the clock is at `now`.
-/
def usedDaemon (now : Instant) : Watched :=
  ⟨⟨⟨"/v", ofSecs 300⟩, none, [], healthy, fun i => if i = 0 then conditions else { conditions with mono := now },
    fun _ => none, fun _ => .ok 1⟩, false, none, .checking⟩

theorem usedDaemon_fresh (now : Instant) : (usedDaemon now).Fresh := ⟨fun _ h => (by cases h), rfl, rfl, rfl⟩

/-- The request for a new vault. -/
def createRequest : Request := ⟨"0123456789abcdef", "vault.create", none, .object [("passphrase", .string typed)]⟩

theorem typed_passphrase : typed.toUTF8.toList = passphrase := by decide +kernel

theorem opCreate_created {d : Daemon} {s : Session} {h' : Host} (hhost : d.host.under (d.ahead 0) = healthy)
    (hr : (Session.create passphrase d.config.idleLock).run healthy = (.ok s, h')) :
    d.opCreate createRequest = (.ok (.object [("created", .string d.config.vaultPath)]),
      { d with host := h', ahead := fun i => d.ahead (i + 1), session := some s.deferIdleLock }) := by
  rw [Daemon.opCreate, if_neg (by decide),
    show createRequest.passphrase.or (createRequest.str "passphrase") = some typed from rfl]
  dsimp only
  rw [typed_passphrase, hhost, hr]

end Reference

/-- A vault is created: the watchdog is armed for its deadline, and parked until then, and then it locks the vault. -/
theorem idle_lock_is_never_missed_once : ∃ now w s, runs Watched.step (Reference.usedDaemon now)
    [.request Reference.createRequest none, .check 0] = some w ∧ w.daemon.session = some s ∧ s.idleDeadline = some now ∧
    (∃ d', w.armed = some d' ∧ d' ≤ now ∧ ∀ t, w.watching = .parked t → t = some d') ∧
    ∃ w' w'' s'', runs Watched.step w [.timeout now, .check now] = some w' ∧ w'.step .lockIdle = some w'' ∧
      w''.daemon.session = some s'' ∧ s''.isLocked = true := by
  obtain ⟨s, h', hr⟩ := Reference.create_empty (ofSecs 300)
  obtain ⟨u, x, entry, hc⟩ := create_eq_ok hr
  let now : Instant := s.lastActivity + ofSecs 300
  have hcreate := Reference.opCreate_created (d := (Reference.usedDaemon now).daemon) rfl hr
  have htimeout : s.idleTimeout = ofSecs 300 := create_idleTimeout hr
  have hsecs : ofSecs 300 = 300000000000 := by decide
  have hdeadline : s.deferIdleLock.idleDeadline = some now := by
    simp [Session.idleDeadline, Session.deferIdleLock, Session.isLocked, hc.unlocked, htimeout, hsecs, now]
  let daemon : Daemon := { (Reference.usedDaemon now).daemon with
    host := h', ahead := fun _ => { Reference.conditions with mono := now }, session := some s.deferIdleLock }
  have hrequest : (Reference.usedDaemon now).step (.request Reference.createRequest none) =
      some ⟨daemon, false, some now, .checking⟩ := by
    have hrequest : (Reference.usedDaemon now).handleRequest Reference.createRequest none =
        (Reference.usedDaemon now).releaseArmed ((Reference.usedDaemon now).daemon.opCreate
          Reference.createRequest) := by
      rw [Watched.handleRequest]
      exact if_pos rfl
    rw [hcreate] at hrequest
    refine (congrArg some hrequest).trans (congrArg some ?_)
    change Watched.armIdle ⟨daemon, false, none, .checking⟩ = _
    rw [Watched.armIdle]
    dsimp only [daemon]
    have hclock : ¬INSTANT_END ≤ now := by
      rw [show now = 0 + ofSecs 300 from congrArg (· + ofSecs 300) hc.lastActivity]
      decide
    rw [hdeadline]
    dsimp only
    rw [if_neg hclock, Watched.arm, if_neg (by simp)]
  have hparks : runs Watched.step (Reference.usedDaemon now) [.request Reference.createRequest none, .check 0] =
      some ⟨daemon, false, some now, .parked (some now)⟩ := by
    have hlate : ¬now ≤ 0 := by simp [now, hsecs]
    exact runs_cons.mpr ⟨_, hrequest, runs_cons.mpr ⟨_, by simp only [Watched.step, if_neg hlate], rfl⟩⟩
  have hdue : runs Watched.step ⟨daemon, false, some now, .parked (some now)⟩ [.timeout now, .check now] =
      some ⟨daemon, false, some now, .due⟩ :=
    runs_cons.mpr ⟨⟨daemon, false, some now, .checking⟩, by simp [Watched.step],
      runs_cons.mpr ⟨_, by simp [Watched.step], rfl⟩⟩
  have hcoherent : Broker.Coherent ⟨s.envelope.header, u.keys⟩ { daemon with session := s.deferIdleLock } := by
    refine ⟨fun c hc' => ?_, fun _ _ _ _ h => (by cases h)⟩
    have h := (hc.coheres (Or.inl rfl) ⟨_, Chain.empty _⟩).session s rfl c hc'
    exact h.congr rfl rfl rfl rfl rfl h.unlocked h.sealed
  have hexpired : s.deferIdleLock.idleExpired now = true := by
    simp [Session.idleExpired, Session.deferIdleLock, htimeout, hsecs, now]
  obtain ⟨w'', hlock, hfree⟩ := Watched.lockIdle_free (w := ⟨daemon, false, some now, .due⟩)
    rfl rfl hcoherent rfl hexpired
  have hall := runs_append.mpr ⟨_, hparks, hdue⟩
  obtain ⟨s'', hs'', hlocked⟩ := (Watched.idle_lock_is_never_missed (Reference.usedDaemon_fresh now) hall rfl).2.2.1
    w'' _ hlock hfree rfl hexpired
  exact ⟨now, _, _, hparks, rfl, hdeadline,
    (Watched.idle_lock_is_never_missed (Reference.usedDaemon_fresh now) hparks rfl).1 _ _ rfl hdeadline,
    _, w'', s'', hdue, hlock, hs'', hlocked⟩

end SecretsVault
