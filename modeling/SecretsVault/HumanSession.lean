import SecretsVault.Operations

/-!
# Human sessions

A human session is a capability in memory: minted by `sessionOpen` after a human proof, found by the digest of its
credential, bounded by a sliding and an absolute window on the monotonic clock, and gone with the lock. A lapsed entry
is dropped when it is presented. `sessionOpen` makes room before it asks the audit log.
-/

namespace SecretsVault

open Lib

def SESSION_DEFAULT_TTL_SECS : Nat := 300

namespace HumanSession

/-- The sliding or the absolute window has passed. -/
def lapsed (e : HumanSession) (now : Instant) : Bool :=
  decide (e.ttlSecs ≤ asSecs (now - e.lastUsed)) || decide (SESSION_MAX_TTL_SECS ≤ asSecs (now - e.mintedAt))

/-- What is left of both windows, in seconds. -/
def windows (e : HumanSession) (now : Instant) : Nat × Nat :=
  (e.ttlSecs - asSecs (now - e.lastUsed), SESSION_MAX_TTL_SECS - asSecs (now - e.mintedAt))

/-- Used no later than another, or minted no later if used at the same time. -/
def older (a b : HumanSession) : Bool :=
  decide (a.lastUsed < b.lastUsed) || (a.lastUsed == b.lastUsed && decide (a.mintedAt ≤ b.mintedAt))

end HumanSession

/-- The actor of a session. -/
def sessionActor (displayPrefix : String) : String := "human(session:" ++ displayPrefix ++ ")"

namespace Session

/-- Drop what has lapsed. -/
def sweepLapsedSessions (s : Session) (now : Instant) : Session :=
  { s with sessions := s.sessions.filter fun e => !(s.isLocked || e.2.lapsed now) }

/-- The first entry that no later one is older than. -/
def oldest : DigestMap HumanSession → Option Digest
  | [] => none
  | e :: rest => some (rest.foldl (fun o e => if o.2.older e.2 then o else e) e).1

/-- Make room for one more: drop what has lapsed, then at the cap the one used longest ago. -/
def makeRoom (s : Session) (now : Instant) : Session :=
  let s := s.sweepLapsedSessions now
  if MAX_SESSIONS ≤ s.sessions.length then
    match oldest s.sessions with
    | some d => { s with sessions := s.sessions.remove d }
    | none => s
  else s

/-- Use a session now. -/
def slide (s : Session) (d : Digest) (now : Instant) : Session :=
  { s with sessions := s.sessions.map fun e => if e.1 == d then (e.1, { e.2 with lastUsed := now }) else e }

end Session

section

variable [Crypto] [VaultJson] [AuditJson]

/-- Mint a session: its credential, display prefix and windows. -/
def sessionOpen (actor : String) (ttlSecs : Nat) : SessionProg (String × String × Nat × Nat) := do
  let s ← .get
  if s.session.isLocked then deny actor "session.open" none [] .locked
  else if ttlSecs < 1 ∨ SESSION_MAX_TTL_SECS < ttlSecs then
    deny actor "session.open" none [] (.invalidInput "ttl_secs must be 1..=1800")
  else
    modifySession fun t => t.makeRoom s.host.mono
    let s ← .get
    let staged ← .lift
      (s.session.audit.stage { actor, op := "session.open", decision := .allowed } s.session.auditKey .ordinary s.host)
    let (credential, digest, displayPrefix) ← onHost generateCapability
    let now := s.host.mono
    modifySession fun t =>
      { t with sessions := t.sessions.insert digest { displayPrefix, mintedAt := now, lastUsed := now, ttlSecs } }
    match ← (onAudit (AuditLog.appendStaged staged)).attempt with
    | .ok () => pure (credential, displayPrefix, ttlSecs, SESSION_MAX_TTL_SECS)
    | .error _ =>
      modifySession fun t => { t with sessions := t.sessions.remove digest }
      .fail (.auditWrite "audit write failed")

/-- The prefix of a live session. One that is not live any more is dropped. -/
def validateSession (credential : String) : SessionProg String := do
  let s ← .get
  let digest := tokenDigest credential
  match s.session.sessions.get? digest with
  | none => .fail .sessionExpired
  | some live =>
    if s.session.isLocked || live.lapsed s.host.mono then
      modifySession fun t => { t with sessions := t.sessions.remove digest }
      .fail .sessionExpired
    else pure live.displayPrefix

/-- A session that was validated; a refusal is recorded under the operation. -/
def validSession (op credential : String) : SessionProg String := do
  match ← (validateSession credential).attempt with
  | .ok p => pure p
  | .error e => deny "unauthenticated" op none [] e

/-- The actor of a session credential, which is not used by this. -/
def authorizeSession (credential : String) : SessionProg String := do
  let p ← validSession "session.use" credential
  pure (sessionActor p)

/-- Use a session: after an operation that was allowed. -/
def slideSession (credential : String) : SessionProg Unit :=
  .modify fun s => { s with session := s.session.slide (tokenDigest credential) s.host.mono }

/-- Use a session for nothing else: its actor and what is left of its windows. -/
def sessionTouch (credential : String) : SessionProg (String × Nat × Nat) := do
  let p ← validSession "session.touch" credential
  let actor := sessionActor p
  let s ← .get
  let record : Record := { actor, op := "session.touch", decision := .allowed }
  match s.session.audit.stage record s.session.auditKey .ordinary s.host with
  | .panic => .lift .panic
  | .error e => deny actor "session.touch" none [] e
  | .ok _ =>
    slideSession credential
    let s ← .get
    match s.session.sessions.get? (tokenDigest credential) with
    | none => .lift .panic
    | some entry =>
      let (expiresIn, maxExpiresIn) := entry.windows s.host.mono
      (auditRecord record).ignore
      pure (actor, expiresIn, maxExpiresIn)

/-- Revoke a session; the record may be lost. -/
def sessionClose (credential : String) : SessionProg String := do
  let p ← validSession "session.close" credential
  let actor := sessionActor p
  modifySession fun t => { t with sessions := t.sessions.remove (tokenDigest credential) }
  (auditRecordLifecycle { actor, op := "session.close", decision := .allowed }).ignore
  pure actor

/-- Whether the derived keys open a key slot. -/
def Session.proofIsValid (s : Session) (derived : DerivedKeks) : Bool :=
  match s.envelope.unlockWith derived with
  | .ok _ => true
  | .error _ => false

end

end SecretsVault
