import SecretsVault.CallActs

/-!
# What becomes of a commit

A commit records, seals, stores and adopts a document. `CommitEnds` lists its three ends: it is refused before anything
is sealed, it is cut short with the document sealed but not stored, or it lands.

- `commitWith_ends`: every commit comes to one of them.
- `Sys.Fits`, `Attempt.Stores`: what a commit has to find to land once it seals.
- `storeAsIs_ends`: the same for a document stored as it is.
-/

namespace SecretsVault

open Lib Lib.Prog Host

/-! ## Recording touches the audit log only -/

/-- The audit log, its file and its next writes may differ. -/
def Sys.Recorded (s t : Sys) : Prop :=
  ∃ audit auditFile appends, t = ⟨{ s.session with audit }, { s.host with auditFile, appends }⟩

theorem Sys.Recorded.refl (s : Sys) : s.Recorded s := ⟨s.session.audit, s.host.auditFile, s.host.appends, rfl⟩

theorem Sys.Recorded.trans {a b c : Sys} (h : a.Recorded b) (h' : b.Recorded c) : a.Recorded c := by
  obtain ⟨l, f, p, rfl⟩ := h
  obtain ⟨l', f', p', rfl⟩ := h'
  exact ⟨l', f', p', rfl⟩

instance : IsPreorder Sys Sys.Recorded := { refl := Sys.Recorded.refl, trans := fun _ _ _ => Sys.Recorded.trans }

/-- Of the host, only the audit file and its next writes may differ. -/
def AuditOnly (s t : AuditLog × Host) : Prop := ∃ auditFile appends, t.2 = { s.2 with auditFile, appends }

theorem AuditOnly.refl (s : AuditLog × Host) : AuditOnly s s := ⟨s.2.auditFile, s.2.appends, rfl⟩

theorem AuditOnly.trans {a b c : AuditLog × Host} (h : AuditOnly a b) (h' : AuditOnly b c) : AuditOnly a c := by
  obtain ⟨f, p, h⟩ := h
  obtain ⟨f', p', h'⟩ := h'
  exact ⟨f', p', by rw [h', h]⟩

instance : IsPreorder (AuditLog × Host) AuditOnly := { refl := AuditOnly.refl, trans := fun _ _ _ => AuditOnly.trans }

theorem appendAudit_auditOnly (bytes : Bytes) :
    Keeps AuditOnly (Prog.zoom Prod.snd (fun h s => (s.1, h)) (appendAudit bytes) :
      Prog VaultError (AuditLog × Host) Unit) := by
  intro s
  rw [run_zoom, appendAudit, run_step]
  dsimp only
  split
  · exact AuditOnly.refl s
  · split
    · exact ⟨_, _, rfl⟩
    · exact ⟨_, _, rfl⟩

section

variable [Crypto] [AuditJson]

theorem appendStaged_auditOnly (staged : StagedEntry) : Keeps AuditOnly (AuditLog.appendStaged staged) := by
  refine keeps_get.bind fun s => (keeps_lift _).bind fun log => ?_
  refine Keeps.bind (keeps_modify fun t => AuditOnly.refl t) fun _ => ?_
  split
  · exact keeps_fail _
  · refine (keeps_lift _).bind fun prev => ?_
    split
    · exact keeps_fail _
    · dsimp only
      split
      · exact keeps_fail _
      · exact (appendAudit_auditOnly _).bind fun _ => keeps_modify fun t => AuditOnly.refl t

theorem appendEvent_auditOnly (event : String → Nat → String → AuditEvent) (mac : Option SecretKey)
    (priority : Priority) : Keeps AuditOnly (AuditLog.appendEvent event mac priority) :=
  keeps_get.bind fun _ => (keeps_lift _).bind fun _ => appendStaged_auditOnly _

omit [Crypto] [AuditJson] in
theorem onAudit_recorded {α : Type} {m : Prog VaultError (AuditLog × Host) α} (hm : Keeps AuditOnly m) :
    Keeps Sys.Recorded (onAudit m) := by
  intro s
  obtain ⟨f, p, h⟩ := hm (s.session.audit, s.host)
  refine ⟨(m.run (s.session.audit, s.host)).2.1, f, p, ?_⟩
  rw [onAudit, run_zoom, h]

theorem auditRecordWith_recorded (record : Record) (priority : Priority) :
    Keeps Sys.Recorded (auditRecordWith record priority) :=
  keeps_get_bind fun _ => onAudit_recorded (appendEvent_auditOnly _ _ _) _

theorem recordCommit_recorded (record : Record) (priority : Priority) :
    Keeps Sys.Recorded (recordCommit record priority) := by
  refine keeps_get.bind fun s => ((keeps_lift _).attempt).bind fun r => ?_
  split
  · split
    · exact keeps_fail _
    · exact keeps_pure _
  · refine (onAudit_recorded (appendStaged_auditOnly _)).attempt.bind fun r => ?_
    split
    · exact keeps_pure _
    · split
      · exact keeps_fail _
      · exact keeps_pure _

end

/-! ## Sealing and storing -/

section

variable [Crypto] [VaultJson]

/-- What sealing and storing a document comes to from a state. -/
inductive StoreEnds (doc : VaultDocument) (keys : Keys) (s : Sys) : Outcome VaultError Unit → Sys → Prop
  /-- The document has no JSON, or there is no nonce: nothing is sealed. -/
  | refused {o : Outcome VaultError Unit} {rng : Nat → Option (Nat → UInt8)} (ho : o ≠ .ok ())
      (hr : s.host.rng 0 = none ∨ ∀ bytes, docToVec doc ≠ .ok bytes) :
      StoreEnds doc keys s o ⟨s.session, { s.host with rng }⟩
  /-- The sealed document is too large, or the save fails. -/
  | cut {e : VaultError} {bytes : Bytes} {nonce : Nonce} {rng : Nat → Option (Nat → UInt8)}
      {saves : Nat → Option IoError} (hb : docToVec doc = .ok bytes) (hn : s.host.rng 0 ≠ none)
      (hc : (s.session.envelope.reseal bytes keys nonce).validatePersistable ≠ .ok () ∨ s.host.saves 0 ≠ none) :
      StoreEnds doc keys s (.error e)
        ⟨{ s.session with envelope := s.session.envelope.reseal bytes keys nonce }, { s.host with rng, saves }⟩
  | stored {bytes : Bytes} {nonce : Nonce} {rng : Nat → Option (Nat → UInt8)} {saves : Nat → Option IoError}
      (hb : docToVec doc = .ok bytes) (hv : (s.session.envelope.reseal bytes keys nonce).validatePersistable = .ok ())
      (hs : s.host.saves 0 = none) :
      StoreEnds doc keys s (.ok ())
        ⟨{ s.session with envelope := s.session.envelope.reseal bytes keys nonce },
          { s.host with vaultFile := some (s.session.envelope.reseal bytes keys nonce).toBytes, rng, saves }⟩

omit [Crypto] in
/-- What storing the envelope comes to. -/
theorem storeSession_ends {s t : Sys} {o : Outcome VaultError Unit} (h : storeSession.run s = (o, t)) :
    (∃ e saves, o = .error e ∧ t = ⟨s.session, { s.host with saves }⟩ ∧
      (s.session.envelope.validatePersistable ≠ .ok () ∨ s.host.saves 0 ≠ none)) ∨
    ∃ saves, o = .ok () ∧ t = ⟨s.session, { s.host with vaultFile := some s.session.envelope.toBytes, saves }⟩ ∧
      s.session.envelope.validatePersistable = .ok () ∧ s.host.saves 0 = none := by
  rw [storeSession, run_get_bind, run_bind, run_lift] at h
  cases hv : s.session.envelope.validatePersistable with
  | error e =>
    rw [hv] at h
    cases h
    exact Or.inl ⟨e, s.host.saves, rfl, rfl, Or.inl (by simp)⟩
  | ok _ =>
    rw [hv] at h
    simp only [Outcome.ofExcept_ok, onHost, run_zoom, saveAtomic, run_step] at h
    cases hs : s.host.saves 0 with
    | none =>
      rw [hs] at h
      cases h
      exact Or.inr ⟨_, rfl, rfl, rfl, rfl⟩
    | some e =>
      rw [hs] at h
      cases h
      exact Or.inl ⟨_, _, rfl, rfl, Or.inr (by simp)⟩

theorem resealSession_ends {doc : VaultDocument} {keys : Keys} {s t : Sys} {o : Outcome VaultError Unit}
    (h : (resealSession doc keys).run s = (o, t)) :
    (∃ rng, o ≠ .ok () ∧ t = ⟨s.session, { s.host with rng }⟩ ∧
      (s.host.rng 0 = none ∨ ∀ bytes, docToVec doc ≠ .ok bytes)) ∨
    ∃ bytes nonce rng, o = .ok () ∧ docToVec doc = .ok bytes ∧ s.host.rng 0 ≠ none ∧
      t = ⟨{ s.session with envelope := s.session.envelope.reseal bytes keys nonce }, { s.host with rng }⟩ := by
  rw [resealSession, run_bind, run_lift] at h
  cases hd : docToVec doc with
  | error e => rw [hd] at h; cases h; exact Or.inl ⟨s.host.rng, by simp, rfl, Or.inr (by simp)⟩
  | panic => rw [hd] at h; cases h; exact Or.inl ⟨s.host.rng, by simp, rfl, Or.inr (by simp)⟩
  | ok bytes =>
    rw [hd] at h
    simp only [run_get_bind] at h
    rw [run_bind, onHost, run_zoom, Envelope.resealDocument, run_bind, randomBytes, run_step] at h
    cases hr : s.host.rng 0 with
    | none => rw [hr] at h; cases h; exact Or.inl ⟨_, by simp, rfl, Or.inl rfl⟩
    | some f => rw [hr] at h; cases h; exact Or.inr ⟨bytes, _, _, rfl, rfl, by simp, rfl⟩

/-- Sealing and storing comes to one of its ends. -/
theorem storeAsIs_ends {u : Unlocked} {s t : Sys} {o : Outcome VaultError Unit} (h : (storeAsIs u).run s = (o, t)) :
    StoreEnds u.doc u.keys s o t := by
  rw [storeAsIs, run_bind] at h
  rcases hr : (resealSession u.doc u.keys).run s with ⟨o1, s1⟩
  rcases resealSession_ends hr with ⟨rng, ho, rfl, hwhy⟩ | ⟨bytes, nonce, rng, rfl, hb, hn, rfl⟩
  · rw [hr] at h
    cases o1 with
    | ok _ => exact (ho rfl).elim
    | error e => cases h; exact .refused ho hwhy
    | panic => cases h; exact .refused ho hwhy
  · rw [hr] at h
    rcases storeSession_ends h with ⟨e, saves, rfl, rfl, hc⟩ | ⟨saves, rfl, rfl, hv, hs⟩
    · exact .cut hb hn hc
    · exact .stored hb hv hs

/-- Once sealed, the document is small enough to be read back, and is stored. -/
def Sys.Fits (s : Sys) (doc : VaultDocument) : Prop :=
  ∀ bytes, docToVec doc = .ok bytes → s.host.rng 0 ≠ none → s.host.saves 0 = none ∧
    ∀ keys nonce, (s.session.envelope.reseal bytes keys nonce).validatePersistable = .ok ()

end

/-! ## Commits -/

section

variable [Crypto] [VaultJson] [AuditJson]

/-- What a commit comes to from a state. -/
inductive CommitEnds (doc : VaultDocument) (record : Record) (priority : Priority) (s : Sys) :
    Outcome VaultError Unit → Sys → Prop
  /-- Nothing is sealed: locked, not recorded, without JSON or without a nonce. -/
  | refused {o : Outcome VaultError Unit} {audit : AuditLog} {auditFile : Option Bytes} {appends : Nat → AppendOutcome}
      {rng : Nat → Option (Nat → UInt8)} (ho : o ≠ .ok ())
      (hlog : (⟨{ s.session with audit }, { s.host with auditFile, appends }⟩ : Sys) = s ∨ ∃ r,
        (recordCommit record priority).run s = (r, ⟨{ s.session with audit }, { s.host with auditFile, appends }⟩))
      (hr : s.session.unlocked = none ∨
        (∀ head t, (recordCommit record priority).run s ≠ (.ok head, t)) ∨
        ∃ head t, (recordCommit record priority).run s = (.ok head, t) ∧
          (s.host.rng 0 = none ∨ ∀ bytes, docToVec (doc.withHead head) ≠ .ok bytes)) :
      CommitEnds doc record priority s o ⟨{ s.session with audit }, { s.host with auditFile, appends, rng }⟩
  /-- The document is sealed and not stored. -/
  | cut {e : VaultError} {u : Unlocked} {head : Option AuditHead} {bytes : Bytes} {nonce : Nonce} {audit : AuditLog}
      {auditFile : Option Bytes} {appends : Nat → AppendOutcome} {rng : Nat → Option (Nat → UInt8)}
      {saves : Nat → Option IoError} (hu : s.session.unlocked = some u)
      (hrec : (recordCommit record priority).run s =
        (.ok head, ⟨{ s.session with audit }, { s.host with auditFile, appends }⟩))
      (hb : docToVec (doc.withHead head) = .ok bytes) (hn : s.host.rng 0 ≠ none)
      (hc : (s.session.envelope.reseal bytes u.keys nonce).validatePersistable ≠ .ok () ∨ s.host.saves 0 ≠ none) :
      CommitEnds doc record priority s (.error e)
        ⟨{ s.session with audit, envelope := s.session.envelope.reseal bytes u.keys nonce },
          { s.host with auditFile, appends, rng, saves }⟩
  /-- The document is sealed, stored and adopted. -/
  | landed {u : Unlocked} {head : Option AuditHead} {bytes : Bytes} {nonce : Nonce} {audit : AuditLog}
      {auditFile : Option Bytes} {appends : Nat → AppendOutcome} {rng : Nat → Option (Nat → UInt8)}
      {saves : Nat → Option IoError} (hu : s.session.unlocked = some u)
      (hrec : (recordCommit record priority).run s =
        (.ok head, ⟨{ s.session with audit }, { s.host with auditFile, appends }⟩))
      (hb : docToVec (doc.withHead head) = .ok bytes)
      (hv : (s.session.envelope.reseal bytes u.keys nonce).validatePersistable = .ok ()) (hs : s.host.saves 0 = none) :
      CommitEnds doc record priority s (.ok ())
        ⟨({ s.session with
            audit
            envelope := s.session.envelope.reseal bytes u.keys nonce
            unlocked := some { u with doc := doc.withHead head } }).rebuildAgentDigests,
          { s.host with
            vaultFile := some (s.session.envelope.reseal bytes u.keys nonce).toBytes
            auditFile, appends, rng, saves }⟩

/-- A commit comes to one of its ends. -/
theorem commitWith_ends {doc : VaultDocument} {record : Record} {priority : Priority} {s t : Sys}
    {o : Outcome VaultError Unit} (h : (commitWith doc record priority).run s = (o, t)) :
    CommitEnds doc record priority s o t := by
  rw [commitWith, run_get_bind, run_bind, run_lift] at h
  cases hu : s.session.unlocked with
  | none =>
    rw [hu] at h
    cases h
    exact .refused (by simp) (Or.inl rfl) (Or.inl hu)
  | some u =>
    rw [hu] at h
    simp only [Outcome.ofOption_some] at h
    rw [run_bind] at h
    obtain ⟨audit, auditFile, appends, hrec⟩ := recordCommit_recorded record priority s
    rcases hr : (recordCommit record priority).run s with ⟨o1, s1⟩
    rw [hr] at hrec
    obtain rfl : s1 = _ := hrec
    cases o1 with
    | error e =>
      rw [hr] at h
      cases h
      exact .refused (by simp) (Or.inr ⟨_, hr⟩) (Or.inr (Or.inl fun head t ht => by rw [hr] at ht; cases ht))
    | panic =>
      rw [hr] at h
      cases h
      exact .refused (by simp) (Or.inr ⟨_, hr⟩) (Or.inr (Or.inl fun head t ht => by rw [hr] at ht; cases ht))
    | ok head =>
      rw [hr] at h
      dsimp only at h
      rw [run_bind] at h
      rcases hs : (resealSession (doc.withHead head) u.keys).run
        ⟨{ s.session with audit }, { s.host with auditFile, appends }⟩ with ⟨o2, s2⟩
      rw [hs] at h
      rcases resealSession_ends hs with ⟨rng, ho, rfl, hwhy⟩ | ⟨bytes, nonce, rng, rfl, hb, hn, rfl⟩
      · cases o2 with
        | ok _ => exact (ho rfl).elim
        | error e => cases h; exact .refused (by simp) (Or.inr ⟨_, hr⟩) (Or.inr (Or.inr ⟨head, _, hr, hwhy⟩))
        | panic => cases h; exact .refused (by simp) (Or.inr ⟨_, hr⟩) (Or.inr (Or.inr ⟨head, _, hr, hwhy⟩))
      · dsimp only at h
        rw [run_bind] at h
        rcases ht : storeSession.run
          ⟨{ s.session with audit, envelope := s.session.envelope.reseal bytes u.keys nonce },
            { s.host with auditFile, appends, rng }⟩ with ⟨o3, s3⟩
        rw [ht] at h
        rcases storeSession_ends ht with ⟨e, saves, rfl, rfl, hc⟩ | ⟨saves, rfl, rfl, hv, hs⟩
        · cases h
          exact .cut hu hr hb hn hc
        · cases h
          exact .landed hu hr hb hv hs

/-- A commit that gets as far as sealing its document stores it. -/
def Attempt.Stores (a : Attempt) : Prop :=
  ∀ head t, (recordCommit a.record a.priority).run a.state = (.ok head, t) → a.state.Fits (a.doc.withHead head)

/-- A commit that stores what it seals is not cut short. -/
theorem CommitEnds.cases_of_stores {a : Attempt} (ha : a.Stores) {o : Outcome VaultError Unit} {t : Sys}
    (h : CommitEnds a.doc a.record a.priority a.state o t) :
    o = .ok () ∨ t.session.envelope = a.state.session.envelope ∧ t.session.unlocked = a.state.session.unlocked ∧
      t.host.vaultFile = a.state.host.vaultFile := by
  cases h with
  | refused => exact Or.inr ⟨rfl, rfl, rfl⟩
  | cut hu hrec hb hn hc =>
    obtain ⟨hsave, hfit⟩ := ha _ _ hrec _ hb hn
    rcases hc with hc | hc
    · exact (hc (hfit _ _)).elim
    · exact (hc hsave).elim
  | landed => exact Or.inl rfl

end

end SecretsVault
