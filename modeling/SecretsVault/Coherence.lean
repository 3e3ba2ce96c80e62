import SecretsVault.Reopening
import SecretsVault.Runs

/-!
# The files of a vault agree

The vault file can be read back, the audit log is accepted under the audit key, and the checkpoint of the stored
document is an entry of the log. `Vault.Files` says this of a host, `Vault.Coherent` of a session on it: the documents
in memory and in the envelope have a checkpoint of the log as well.

- `Act.coherent`: every act keeps it, where a write to the log arrives whole or not at all.
- `Vault.Coheres.run`: so does every run, with restarts.
- `openable_iff`: the files of a created vault can be opened after every run exactly if the log that was there has no
  open last line, and is accepted under the audit key of the new vault.
-/

namespace SecretsVault

open Lib Lib.Prog Host

/-! ## Writes that arrive whole or not at all -/

/-- Writes stay whole. -/
def StaysWhole (s t : AuditLog × Host) : Prop := s.2.AllOrNothing → t.2.AllOrNothing

instance : IsPreorder (AuditLog × Host) StaysWhole := { refl := fun _ h => h, trans := fun _ _ _ h h' hs => h' (h hs) }

theorem appendAudit_staysWhole (bytes : Bytes) :
    Keeps StaysWhole (Prog.zoom Prod.snd (fun h s => (s.1, h)) (appendAudit bytes) :
      Prog VaultError (AuditLog × Host) Unit) := by
  intro s hs
  have hrest : ∀ (auditFile : Option Bytes),
      ({ s.2 with auditFile, appends := fun i => s.2.appends (i + 1) } : Host).AllOrNothing :=
      fun _ i k e h => hs (i + 1) k e h
  rw [run_zoom, appendAudit, run_step]
  dsimp only
  split
  · exact hs
  · split
    · exact hrest _
    · exact hrest _

section

variable [Crypto] [AuditJson]

theorem appendStaged_staysWhole (staged : StagedEntry) : Keeps StaysWhole (AuditLog.appendStaged staged) := by
  refine keeps_get.bind fun s => (keeps_lift _).bind fun log => ?_
  refine Keeps.bind (keeps_modify fun t h => h) fun _ => ?_
  split
  · exact keeps_fail _
  · refine (keeps_lift _).bind fun prev => ?_
    split
    · exact keeps_fail _
    · dsimp only
      split
      · exact keeps_fail _
      · exact (appendAudit_staysWhole _).bind fun _ => keeps_modify fun t h => h

theorem appendEvent_staysWhole (event : String → Nat → String → AuditEvent) (mac : Option SecretKey)
    (priority : Priority) : Keeps StaysWhole (AuditLog.appendEvent event mac priority) :=
  keeps_get.bind fun _ => (keeps_lift _).bind fun _ => appendStaged_staysWhole _

end

/-! ## The log of a session -/

section

variable [Crypto] [AuditJson] {K : SecretKey}

/-- The log of a state is accepted under the key, the session signs with no other, and writes are whole. -/
structure Sys.Logs (K : SecretKey) (s : Sys) : Prop where
  sound : Sound (some K) (s.session.audit, s.host)
  key : ∀ k, s.session.auditKey = some k → k = K
  whole : s.host.AllOrNothing

/-- The second state has the log of the first, with more behind it perhaps. -/
def Logged (K : SecretKey) (s t : Sys) : Prop :=
  s.Logs K → t.Logs K ∧ ∃ more, t.host.auditFile = s.host.auditFile.map (· ++ more)

theorem Logged.refl (s : Sys) : Logged K s s := fun h => ⟨h, [], by simp⟩

/-- A state with the same log. -/
theorem Sys.Logs.congr {s t : Sys} (h : s.Logs K) (hseq : t.session.audit.seq = s.session.audit.seq)
    (hhash : t.session.audit.lastHash = s.session.audit.lastHash) (hf : t.host.auditFile = s.host.auditFile)
    (ha : t.host.appends = s.host.appends) (hk : ∀ k, t.session.auditKey = some k → k = K) : t.Logs K := by
  obtain ⟨content, w, hc, ht, hch, hsync⟩ := h.sound.exists_chain
  refine ⟨⟨content, w, hf.trans hc, ht, hch, ?_⟩, hk, ?_⟩
  · change t.session.audit.seq < w.seq ∨ t.session.audit.seq = w.seq ∧ t.session.audit.lastHash = w.prev
    rw [hseq, hhash]
    exact hsync
  · intro i k e he
    rw [ha] at he
    exact h.whole i k e he

variable [LawfulAuditJson]

/-- Appending under the key of the session, or under none. -/
theorem appendEvent_logged {s : Sys} {event : String → Nat → String → AuditEvent} (hev : Positioned event)
    {mac : Option SecretKey} (hmac : mac = none ∨ mac = s.session.auditKey) (priority : Priority) :
    Logged K s ((onAudit (AuditLog.appendEvent event mac priority)).run s).2 := by
  intro h
  have hc : Compatible mac (some K) := by
    rcases hmac with rfl | rfl
    · exact Or.inl rfl
    · cases hk : s.session.auditKey with
      | none => exact Or.inl rfl
      | some k => exact Or.inr (Or.inr (by rw [h.key k hk]))
  have hwhole := appendEvent_staysWhole event mac priority (s.session.audit, s.host) h.whole
  rw [onAudit, run_zoom]
  rcases hr : (AuditLog.appendEvent event mac priority).run (s.session.audit, s.host) with ⟨o, t⟩
  rw [hr] at hwhole
  obtain ⟨hs, hext⟩ := h.sound.appendEvent h.whole hev hc hr
  exact ⟨⟨hs, h.key, hwhole⟩, hext.file⟩

/-- Recording a commit; an entry that was written is a checkpoint of the log. -/
theorem recordCommit_logged {record : Record} {priority : Priority} {s t : Sys}
    {o : Outcome VaultError (Option AuditHead)} (hr : (recordCommit record priority).run s = (o, t)) (h : s.Logs K) :
    (t.Logs K ∧ ∃ more, t.host.auditFile = s.host.auditFile.map (· ++ more)) ∧
      ∀ head, o = .ok (some head) → checkCheckpoint t.host.auditFile head.seq head.hash = .ok () := by
  rw [recordCommit, run_get_bind, run_bind, run_attempt, run_lift] at hr
  cases hst : s.session.audit.stage record s.session.auditKey priority s.host with
  | panic =>
    rw [hst] at hr
    cases hr
    exact ⟨Logged.refl _ h, fun _ ho => by cases ho⟩
  | error e =>
    rw [hst] at hr
    dsimp only at hr
    split at hr
    · cases hr
      exact ⟨Logged.refl _ h, fun _ ho => by cases ho⟩
    · cases hr
      exact ⟨Logged.refl _ h, fun _ ho => by cases ho⟩
  | ok staged =>
    rw [hst] at hr
    dsimp only at hr
    obtain ⟨content, w, hf, ht, hch, hsync⟩ := h.sound.exists_chain
    have hat : staged.At s.session.auditKey w := hch.stageEvent hsync (positioned_record record) hf hst
    have hc : Compatible s.session.auditKey (some K) := by
      cases hk : s.session.auditKey with
      | none => exact Or.inl rfl
      | some k => exact Or.inr (Or.inr (by rw [h.key k hk]))
    have hwhole := appendStaged_staysWhole staged (s.session.audit, s.host) h.whole
    rw [run_bind, run_attempt, onAudit, run_zoom] at hr
    rcases happ : (AuditLog.appendStaged staged).run (s.session.audit, s.host) with ⟨o1, log, h1⟩
    rw [happ] at hr hwhole
    obtain ⟨hs, hext, hends⟩ := h.sound.appendStaged h.whole hf hch hsync hat hc happ
    have hlogs : Sys.Logs K ⟨{ s.session with audit := log }, h1⟩ := ⟨hs, h.key, hwhole⟩
    rcases hends with ⟨rfl, hfile⟩ | ⟨⟨e, rfl⟩, -⟩
    · cases hr
      refine ⟨⟨hlogs, hext.file⟩, fun head ho => ?_⟩
      cases ho
      change checkCheckpoint h1.auditFile _ _ = _
      rw [show h1.auditFile = _ from hfile]
      exact hat.checkpoint hch ht
    · dsimp only at hr
      split at hr
      · cases hr
        exact ⟨⟨hlogs, hext.file⟩, fun _ ho => by cases ho⟩
      · cases hr
        exact ⟨⟨hlogs, hext.file⟩, fun _ ho => by cases ho⟩

end

/-! ## Decisions leave the checkpoint alone -/

theorem settleGrant_auditHead (agentId projectId : String) (now : OffsetDateTime) (d : VaultDocument) :
    (settleGrant agentId projectId now d).auditHead = d.auditHead := by
  unfold settleGrant denyPairApprovalsIfRevealLost
  split <;> rfl

theorem sweepAt_auditHead (full : Bool) (d : VaultDocument) (now : OffsetDateTime) :
    (sweepAt full d now).auditHead = d.auditHead := by
  unfold sweepAt
  split <;> rfl

theorem Mutation.Effect.auditHead [Crypto] {α : Type} {m : Mutation α} {now : OffsetDateTime} {doc doc' : VaultDocument}
    {ans : α} (h : m.Effect now doc doc' ans) : doc'.auditHead = doc.auditHead := by
  cases m with
  | projectAdd | projectPathAdd | projectPathRemove | projectRemove => obtain ⟨_, rfl⟩ := h; rfl
  | secretSet | secretDelete => obtain ⟨_, rfl⟩ := h; rfl
  | agentAdd => obtain ⟨_, rfl⟩ := h; rfl
  | agentRevoke =>
    obtain ⟨idx, a, -, rfl⟩ := agentRevoked_eq_ok h
    rfl
  | grantAdd =>
    obtain ⟨agent, project, d1, -, -, ⟨⟨grants, rfl⟩, -⟩, rfl⟩ := doGrantAdd_eq_ok h
    rw [settleGrant_auditHead]
  | grantRevoke =>
    obtain ⟨agent, project, d1, -, -, ⟨⟨grants, rfl⟩, -⟩, rfl⟩ := doGrantRevoke_eq_ok h
    rw [settleGrant_auditHead]
  | leaseCreate =>
    obtain ⟨d, projectId, hcheck, rfl, -, -⟩ := h
    obtain ⟨p, -, -, -, -, -, rfl⟩ := checkLeaseCreate_eq_ok hcheck
    exact sweepAt_auditHead _ _ _
  | leaseRevoke =>
    obtain ⟨pos, rfl⟩ := checkLeaseRevoke_eq_ok h
    rfl
  | approvalRequest =>
    obtain ⟨d, projectId, hcheck, rfl, -, -⟩ := h
    obtain ⟨p, -, -, -, -, rfl⟩ := checkApprovalRequest_eq_ok hcheck
    exact sweepAt_auditHead _ _ _
  | approvalDecide =>
    obtain ⟨pos, a, -, -, -, -, -, -, rfl⟩ := checkApprovalDecide_eq_ok h
    rfl
  | revealClaim =>
    obtain ⟨p, pos, a, s, -, -, -, -, -, -, -, -, -, -, -, -, -, rfl⟩ := claim_eq_ok h
    rfl

theorem Attempt.Made.auditHead [Crypto] {u : Unlocked} {h : Host} {a : Attempt} (hm : a.Made u h) :
    a.doc.auditHead = u.doc.auditHead := by
  cases hm with
  | lock => rfl
  | invalidate =>
    dsimp only
    unfold invalidateLease
    split <;> rfl
  | mutation hd => exact (Mutation.decide_effect hd).auditHead

/-! ## Files and sessions that agree -/

section

variable [Crypto] [VaultJson] [AuditJson]

/-- The checkpoint of the document is an entry of the log. -/
def Checked (h : Host) (d : VaultDocument) : Prop :=
  checkCheckpoint h.auditFile d.auditHead.seq d.auditHead.hash = .ok ()

/-- The vault file can be read back, and its checkpoint is an entry of the log. -/
def Vault.StoredChecked (v : Vault) (h : Host) : Prop :=
  ∃ e d, h.vaultFile = some e.toBytes ∧ v.Seals d e ∧ e.validatePersistable = .ok () ∧ Checked h d

/-- The files of a vault agree. -/
structure Vault.Files (v : Vault) (h : Host) : Prop where
  log : ∃ content w, h.auditFile = some content ∧ Terminated content ∧ Chain (some (deriveAuditKey v.keys.mek))
    content w
  stored : v.StoredChecked h

/-- The files of a vault agree with each other and with the session. -/
structure Vault.Coherent (v : Vault) (s : Sys) : Prop where
  logs : s.Logs (deriveAuditKey v.keys.mek)
  unlocked : ∀ u, s.session.unlocked = some u →
    u.keys = v.keys ∧ u.auditKey = deriveAuditKey v.keys.mek ∧ Checked s.host u.doc
  «sealed» : ∃ d, v.Seals d s.session.envelope ∧ Checked s.host d
  stored : v.StoredChecked s.host

variable {v : Vault} {s t : Sys} {K : SecretKey}

omit [VaultJson] in
theorem Checked.congr {h h' : Host} {d d' : VaultDocument} (hc : Checked h d) (hf : h'.auditFile = h.auditFile)
    (hd : d'.auditHead = d.auditHead) : Checked h' d' := by
  rw [Checked, hf, hd]
  exact hc

omit [VaultJson] in
/-- A checkpoint stays one when more is written. -/
theorem Checked.logged {d : VaultDocument} (hc : Checked s.host d) (hs : s.Logs K) (ht : t.Logs K)
    (hmore : ∃ more, t.host.auditFile = s.host.auditFile.map (· ++ more)) : Checked t.host d := by
  obtain ⟨content, w, hf, hterm, -, -⟩ := hs.sound.exists_chain
  obtain ⟨content', w', hf', -, hch', -⟩ := ht.sound.exists_chain
  obtain ⟨more, hmore⟩ := hmore
  change s.host.auditFile = some content at hf
  change t.host.auditFile = some content' at hf'
  rw [hf, hf', Option.map_some, Option.some.injEq] at hmore
  rw [Checked, hf] at hc
  rw [Checked, hf', hmore]
  refine checkpoint_append hterm ?_ hc
  rw [← hmore]
  exact hch'.utf8

/-- The files of a coherent session. -/
theorem Vault.Coherent.files (h : v.Coherent s) : v.Files s.host := by
  obtain ⟨content, w, hf, ht, hch, -⟩ := h.logs.sound.exists_chain
  exact ⟨⟨content, w, hf, ht, hch⟩, h.stored⟩

/-- Writing to the log keeps all that is known beside it. -/
theorem Vault.Coherent.logged (h : v.Coherent s) (ht : t.Logs (deriveAuditKey v.keys.mek))
    (hmore : ∃ more, t.host.auditFile = s.host.auditFile.map (· ++ more))
    (hu : t.session.unlocked = s.session.unlocked) (he : t.session.envelope = s.session.envelope)
    (hf : t.host.vaultFile = s.host.vaultFile) : v.Coherent t := by
  have hcheck : ∀ d, Checked s.host d → Checked t.host d := fun d hd => hd.logged h.logs ht hmore
  refine ⟨ht, fun u hu' => ?_, ?_, ?_⟩
  · obtain ⟨h1, h2, h3⟩ := h.unlocked u (hu ▸ hu')
    exact ⟨h1, h2, hcheck _ h3⟩
  · obtain ⟨d, hd, hc⟩ := h.sealed
    exact ⟨d, he ▸ hd, hcheck _ hc⟩
  · obtain ⟨e, d, hfile, hseal, hval, hc⟩ := h.stored
    exact ⟨e, d, hf.trans hfile, hseal, hval, hcheck _ hc⟩

/-- What a session on the same files agrees with. -/
theorem Vault.Coherent.congr (h : v.Coherent s) (hseq : t.session.audit.seq = s.session.audit.seq)
    (hhash : t.session.audit.lastHash = s.session.audit.lastHash) (ha : t.host.auditFile = s.host.auditFile)
    (hp : t.host.appends = s.host.appends) (hf : t.host.vaultFile = s.host.vaultFile)
    (hu : ∀ u, t.session.unlocked = some u →
      u.keys = v.keys ∧ u.auditKey = deriveAuditKey v.keys.mek ∧ Checked s.host u.doc)
    (he : ∃ d, v.Seals d t.session.envelope ∧ Checked s.host d) : v.Coherent t := by
  have hkey : ∀ k, t.session.auditKey = some k → k = deriveAuditKey v.keys.mek := by
    intro k hk
    obtain ⟨u, hu', rfl⟩ := Option.map_eq_some_iff.mp hk
    exact (hu u hu').2.1
  refine ⟨h.logs.congr hseq hhash ha hp hkey, fun u hu' => ?_, ?_, ?_⟩
  · obtain ⟨h1, h2, h3⟩ := hu u hu'
    exact ⟨h1, h2, h3.congr ha rfl⟩
  · obtain ⟨d, hd, hc⟩ := he
    exact ⟨d, hd, hc.congr ha rfl⟩
  · obtain ⟨e, d, hfile, hseal, hval, hc⟩ := h.stored
    exact ⟨e, d, hf.trans hfile, hseal, hval, hc.congr ha rfl⟩

variable [LawfulCrypto] [LawfulVaultJson] [LawfulAuditJson] {p : Rights}

omit [VaultJson] [LawfulCrypto] [LawfulVaultJson] in
/-- The document of a commit has a checkpoint of the log, once it is recorded. -/
theorem checked_withHead {doc : VaultDocument} {record : Record} {priority : Priority} {head : Option AuditHead}
    (hs : s.Logs K) (hrec : (recordCommit record priority).run s = (.ok head, t)) (hdoc : Checked s.host doc) :
    t.Logs K ∧ (∃ more, t.host.auditFile = s.host.auditFile.map (· ++ more)) ∧ Checked t.host (doc.withHead head) := by
  obtain ⟨⟨ht, hmore⟩, hhead⟩ := recordCommit_logged hrec hs
  refine ⟨ht, hmore, ?_⟩
  cases head with
  | none => exact hdoc.logged hs ht hmore
  | some head => exact hhead head rfl

/-- An act keeps a session and its files coherent. -/
theorem Act.coherent (h : Act p s t) (hs : v.Coherent s) (honest : ∀ derived, p.unlocks derived → v.Honest derived)
    (hdoc : ∀ a, p.commits a → ∀ u, a.state.session.unlocked = some u → a.doc.auditHead = u.doc.auditHead) :
    v.Coherent t := by
  cases h with
  | @append event mac priority hev hmac =>
    obtain ⟨ht, hmore⟩ := appendEvent_logged hev hmac priority hs.logs
    obtain ⟨l, f, q, heq⟩ := onAudit_recorded (appendEvent_auditOnly event mac priority) s
    rw [heq] at ht hmore ⊢
    exact hs.logged ht hmore rfl rfl rfl
  | host hh _ =>
    obtain ⟨fs, rng, syscalls, rfl⟩ := hh.eq
    exact hs.congr rfl rfl rfl rfl rfl hs.unlocked hs.sealed
  | @commit doc record priority hc =>
    generalize hr : (commitWith doc record priority).run s = r
    obtain ⟨o, t⟩ := r
    cases commitWith_ends hr with
    | @refused _ audit auditFile appends rng ho hlog =>
      have hcoh : v.Coherent ⟨{ s.session with audit }, { s.host with auditFile, appends }⟩ := by
        rcases hlog with heq | ⟨r, hrec⟩
        · rw [heq]
          exact hs
        · obtain ⟨⟨ht, hmore⟩, -⟩ := recordCommit_logged hrec hs.logs
          exact hs.logged ht hmore rfl rfl rfl
      exact hcoh.congr rfl rfl rfl rfl rfl hcoh.unlocked hcoh.sealed
    | @cut e u head bytes nonce audit auditFile appends rng saves hu hrec hb hn hcut =>
      obtain ⟨hkeys, hak, hmem⟩ := hs.unlocked u hu
      obtain ⟨ht, hmore, hcheck⟩ := checked_withHead hs.logs hrec (hmem.congr rfl (hdoc _ hc u hu))
      have hcoh := hs.logged ht hmore rfl rfl rfl
      obtain ⟨d, hseal, -⟩ := hs.sealed
      refine hcoh.congr rfl rfl rfl rfl rfl hcoh.unlocked ⟨doc.withHead head, ?_, hcheck⟩
      rw [hkeys]
      exact hseal.reseal hb nonce
    | @landed u head bytes nonce audit auditFile appends rng saves hu hrec hb hval _ =>
      obtain ⟨hkeys, hak, hmem⟩ := hs.unlocked u hu
      obtain ⟨ht, hmore, hcheck⟩ := checked_withHead hs.logs hrec (hmem.congr rfl (hdoc _ hc u hu))
      obtain ⟨d, hseal, -⟩ := hs.sealed
      have hseal := hseal.reseal hb nonce
      rw [← hkeys] at hseal
      have hkey : ∀ k, (some u.auditKey : Option SecretKey) = some k → k = deriveAuditKey v.keys.mek := by
        intro k hk
        cases hk
        exact hak
      exact ⟨ht.congr rfl rfl rfl rfl hkey, fun _ hu' => by cases hu'; exact ⟨hkeys, hak, hcheck⟩,
        ⟨_, hseal, hcheck⟩, _, _, rfl, hseal, hval, hcheck⟩
  | lock => exact hs.congr rfl rfl rfl rfl rfl (fun _ hu => nomatch hu) hs.sealed
  | table _ _ => exact hs.congr rfl rfl rfl rfl rfl hs.unlocked hs.sealed
  | clock _ _ _ _ => exact hs.congr rfl rfl rfl rfl rfl hs.unlocked hs.sealed
  | limits _ _ => exact hs.congr rfl rfl rfl rfl rfl hs.unlocked hs.sealed
  | @unlock derived u hd hu =>
    obtain ⟨hkeys, hakey, -, -, hcheck⟩ := openVault_eq_ok hu
    obtain ⟨d, hseal, hc⟩ := hs.sealed
    have hk := honest derived hd _ hseal.header _ hkeys
    refine hs.congr rfl rfl rfl rfl rfl (fun u' hu' => ?_) ⟨d, hseal, hc⟩
    cases hu'
    exact ⟨hk, by rw [hakey, hk], hcheck⟩
  | @sweep u hp hu =>
    obtain ⟨hkeys, hak, hmem⟩ := hs.unlocked u hu
    exact hs.congr rfl rfl rfl rfl rfl (fun _ hu' => by cases hu'; exact ⟨hkeys, hak, hmem⟩) hs.sealed
  | @store u hp hu =>
    generalize hr : (storeAsIs u).run s = r
    obtain ⟨o, t⟩ := r
    obtain ⟨hkeys, hak, hmem⟩ := hs.unlocked u hu
    obtain ⟨d, hseal, -⟩ := hs.sealed
    cases storeAsIs_ends hr with
    | refused => exact hs.congr rfl rfl rfl rfl rfl hs.unlocked hs.sealed
    | @cut e bytes nonce _ _ hb _ _ =>
      have hseal := hseal.reseal hb nonce
      rw [← hkeys] at hseal
      exact hs.congr rfl rfl rfl rfl rfl hs.unlocked ⟨_, hseal, hmem⟩
    | @stored bytes nonce _ _ hb hval _ =>
      have hseal := hseal.reseal hb nonce
      rw [← hkeys] at hseal
      exact ⟨hs.logs.congr rfl rfl rfl rfl hs.logs.key, hs.unlocked, ⟨_, hseal, hmem⟩, _, _, rfl, hseal, hval, hmem⟩

theorem Acts.coherent (h : Acts p s t) (hs : v.Coherent s) (honest : ∀ derived, p.unlocks derived → v.Honest derived)
    (hdoc : ∀ a, p.commits a → ∀ u, a.state.session.unlocked = some u → a.doc.auditHead = u.doc.auditHead) :
    v.Coherent t :=
  h.invariant hs fun _ _ hact hcoh => hact.coherent hcoh honest hdoc

/-- A call keeps a session and its files coherent. -/
theorem Call.coherent {α : Type} (call : Call α) (hs : v.Coherent s)
    (honest : ∀ derived, call.Tries s.session.envelope derived → v.Honest derived) :
    v.Coherent (call.exec.run s).2 := by
  refine (call.acts s).coherent hs honest fun a ha u hu => ?_
  obtain ⟨u', hu', hmade, h', -, hstate⟩ := ha.made
  rw [hstate] at hu
  rw [show s.session.unlocked = some u from hu, Option.some.injEq] at hu'
  rw [hu']
  exact hmade.auditHead

end

/-! ## Locking a coherent session -/

section

variable [Crypto] [VaultJson] [AuditJson] {v : Vault} {s : Sys}

/-- A coherent session does not panic over its log. -/
theorem Vault.Coherent.recordCommit_ne_panic (hs : v.Coherent s) (record : Record) (priority : Priority) :
    ((recordCommit record priority).run s).1 ≠ .panic := by
  obtain ⟨content, w, hf, ht, hch, hsync⟩ := hs.logs.sound.exists_chain
  rw [recordCommit, run_get_bind, run_bind, run_attempt, run_lift]
  cases hst : s.session.audit.stage record s.session.auditKey priority s.host with
  | panic => exact absurd hst (hch.stageEvent_ne_panic hsync hf)
  | error e =>
    dsimp only
    split <;> simp
  | ok staged =>
    have hat := hch.stageEvent hsync (positioned_record record) hf hst
    dsimp only
    rw [run_bind, run_attempt, onAudit, run_zoom, AuditLog.appendStaged_run hat hch hsync hf]
    dsimp only
    cases s.host.appends 0 with
    | ok => simp
    | stop k e =>
      dsimp only
      split <;> simp

omit [Crypto] [AuditJson] in
theorem storeSession_panicless : Panicless storeSession := by
  refine panicless_get.bind fun s => (panicless_lift_ofExcept _).bind fun _ => Panicless.zoom fun h => ?_
  rw [Host.saveAtomic, run_step]
  cases h.saves 0 <;> simp

omit [AuditJson] in
theorem resealSession_panicless (doc : VaultDocument) (keys : Keys) : Panicless (resealSession doc keys) := by
  have hjson : Panicless (Prog.lift (docToVec doc) : SessionProg Bytes) := fun s => by
    rw [run_lift, docToVec]
    cases VaultJson.docToVec doc <;> simp
  have hrandom : Panicless (Host.randomBytes NONCE_LEN) := fun h => by
    rw [Host.randomBytes, run_step]
    cases h.rng 0 <;> simp
  exact hjson.bind fun _ => panicless_get.bind fun _ =>
    (Panicless.zoom (hrandom.bind fun _ => panicless_pure _)).bind fun _ => panicless_modify _

/-- Nor does it over a commit, -/
theorem Vault.Coherent.commitWith_ne_panic (hs : v.Coherent s) (doc : VaultDocument) (record : Record)
    (priority : Priority) : ((commitWith doc record priority).run s).1 ≠ .panic := by
  rw [commitWith, run_get_bind, run_bind, run_lift]
  cases s.session.unlocked with
  | none => simp [Outcome.ofOption]
  | some u =>
    dsimp only [Outcome.ofOption]
    have hrec := hs.recordCommit_ne_panic record priority
    rw [run_bind]
    rcases hr : (recordCommit record priority).run s with ⟨head | e | _, t⟩
    · exact (resealSession_panicless _ _).bind (fun _ => storeSession_panicless.bind fun _ => panicless_modify _) t
    · simp
    · rw [hr] at hrec
      exact absurd rfl hrec

/-- and so its lock succeeds. -/
theorem Vault.Coherent.lockPersist_ok (hs : v.Coherent s) : (lockPersist.run s).1 = .ok () := by
  rw [lockPersist_run]
  cases s.session.unlocked with
  | none => rfl
  | some u =>
    dsimp only
    have hcommit := hs.commitWith_ne_panic (lockAll s.host.wall u.doc) lockRecord .lifecycle
    rcases hr : (commitWith (lockAll s.host.wall u.doc) lockRecord .lifecycle).run s with ⟨_ | e | _, t⟩
    · rfl
    · rfl
    · rw [hr] at hcommit
      exact absurd rfl hcommit

end

/-! ## Runs -/

section

variable [Crypto] [VaultJson] [AuditJson]

/-- Writes to the audit log arrive whole or not at all. -/
def Conditions.Whole (c : Conditions) : Prop := ∀ i k e, c.appends i = .stop k e → k = 0

/-- The files of a world agree with each other, and with the process if one is live. -/
structure Vault.Coheres (v : Vault) (w : World) : Prop where
  files : v.Files w.host
  session : ∀ s, w.session = some s → ∀ c : Conditions, c.Whole → v.Coherent ⟨s, w.host.under c⟩

theorem Vault.Coheres.sys {v : Vault} {w : World} {c : Conditions} {s : Sys} (h : v.Coheres w)
    (hs : w.sys c = some s) (hc : c.Whole) : v.Coherent s := by
  obtain ⟨hsession, hhost⟩ := World.sys_eq_some.mp hs
  have hcoherent := h.session s.session hsession c hc
  rwa [← hhost] at hcoherent

/-- A coherent session, on a host under other conditions. -/
theorem Vault.Coherent.under {v : Vault} {s : Sys} (h : v.Coherent s) {c : Conditions} (hc : c.Whole) :
    v.Coherent ⟨s.session, s.host.under c⟩ :=
  ⟨⟨⟨h.logs.sound.exists_chain⟩, h.logs.key, hc⟩, h.unlocked, h.sealed, h.stored⟩

omit [VaultJson] in
/-- What was accepted under a key is known to a process that starts without it. -/
theorem loadOrInit_sound {h h' : Host} {log : AuditLog} (hr : AuditLog.loadOrInit.run h = (.ok log, h'))
    {content : Bytes} {w : Walk} {K : SecretKey} (hf : h.auditFile = some content) (ht : Terminated content)
    (hch : Chain (some K) content w) : Sound (some K) (log, h') := by
  obtain ⟨x, appends, hx, rfl, hseq, hhash, -⟩ := loadOrInit_eq_ok hr
  simp only [hf, Option.getD_some] at hx ⊢
  obtain ⟨hs, hp⟩ := hch.head_eq hx
  exact ⟨content, w, rfl, ht, hch, Or.inr ⟨hseq.trans hs.symm, hhash.trans hp.symm⟩⟩

variable [LawfulCrypto] [LawfulVaultJson] [LawfulAuditJson] {v : Vault} {w : World} {st : Step}

omit [LawfulCrypto] [LawfulVaultJson] [LawfulAuditJson] in
theorem Vault.Files.congr {h h' : Host} (hf : v.Files h) (ha : h'.auditFile = h.auditFile)
    (hv : h'.vaultFile = h.vaultFile) : v.Files h' := by
  obtain ⟨⟨content, w, hc, ht, hch⟩, e, d, hfile, hseal, hval, hcheck⟩ := hf
  exact ⟨⟨content, w, ha.trans hc, ht, hch⟩, e, d, hv.trans hfile, hseal, hval, hcheck.congr ha rfl⟩

omit [LawfulCrypto] [LawfulAuditJson] in
/-- What is read back from the files of a vault is coherent with them. -/
theorem Vault.Files.load {h h' : Host} {idleTimeout : Nat} {s : Session} (hf : v.Files h)
    (hall : h.AllOrNothing) (hr : (Session.load idleTimeout).run h = (.ok s, h')) : v.Coherent ⟨s, h'⟩ := by
  obtain ⟨⟨content, x, hc, ht, hch⟩, e, d, hfile, hseal, hval, hcheck⟩ := hf
  obtain ⟨bytes, audit, now, hb, hparse, hlog, hstart⟩ := load_eq_ok hr
  rw [hfile, Option.some.injEq] at hb
  subst hb
  have he := Envelope.parse_toBytes_inj hseal.wf hparse
  rw [he] at hstart
  subst hstart
  have hsound := loadOrInit_sound hlog hc ht hch
  have hsame := load_sameFile idleTimeout h
  rw [hr] at hsame
  obtain ⟨hc', happ⟩ := hsame.auditFile content hc
  have happ : h'.AllOrNothing := fun i k e he => hall i k e (by rw [← he]; exact (congrFun happ i).symm)
  have hfiles : h'.auditFile = h.auditFile ∧ h'.vaultFile = h.vaultFile := ⟨hc'.trans hc.symm, hsame.vaultFile⟩
  exact ⟨⟨hsound, fun _ hk => (nomatch hk), happ⟩, fun _ hu => (nomatch hu), ⟨d, hseal, hcheck.congr hfiles.1 rfl⟩, e,
    d, hfiles.2.trans hfile, hseal, hval, hcheck.congr hfiles.1 rfl⟩

/-- A step keeps a world coherent. -/
theorem Vault.Coheres.next (h : v.Coheres w) (hwhole : st.conditions.Whole) (honest : st.Honest v w) :
    v.Coheres (w.next st) := by
  rcases st with ⟨conditions, input⟩
  have hunder : v.Files (w.host.under conditions) := h.files.congr rfl rfl
  cases input with
  | @call α call =>
    cases hs : w.sys conditions with
    | none =>
      have hnone : w.session = none := by simpa [World.sys] using hs
      rw [World.next_of_none hs]
      exact ⟨hunder, fun s hs' => by rw [hnone] at hs'; cases hs'⟩
    | some s =>
      have hw : w.next ⟨conditions, .call call⟩ = World.ran (call.exec.run s) := World.next_of_sys hs
      have hcall := honest s hs
      have hend := call.coherent (h.sys hs hwhole) hcall
      rw [hw]
      rcases hr : call.exec.run s with ⟨o | e | _, t⟩ <;> rw [hr] at hend
      · exact ⟨hend.files, fun s hs c hc => by cases hs; exact hend.under hc⟩
      · exact ⟨hend.files, fun s hs c hc => by cases hs; exact hend.under hc⟩
      · exact ⟨hend.files, fun s hs => by cases hs⟩
  | restart idleTimeout =>
    have hreleased : v.Files ((w.host.under conditions).releaseVault) := hunder.congr rfl rfl
    rcases hr : (Session.load idleTimeout).run ((w.host.under conditions).releaseVault) with ⟨s | e | _, h'⟩
    · have hw : w.next ⟨conditions, .restart idleTimeout⟩ = ⟨some s, h'⟩ := by simp only [World.next, hr]
      have hcoh := hreleased.load hwhole hr
      rw [hw]
      exact ⟨hcoh.files, fun s' hs' c hc => by cases hs'; exact hcoh.under hc⟩
    all_goals
      have hw : w.next ⟨conditions, .restart idleTimeout⟩ = ⟨none, h'⟩ := by simp only [World.next, hr]
      have hsame := load_sameFile idleTimeout ((w.host.under conditions).releaseVault)
      rw [hr] at hsame
      obtain ⟨content, x, hc, -⟩ := hreleased.log
      rw [hw]
      exact ⟨hreleased.congr ((hsame.auditFile content hc).1.trans hc.symm) hsame.vaultFile, fun _ hs' => by cases hs'⟩

/-- A run in which writes to the log are whole keeps a world coherent. -/
theorem Vault.Coheres.run {run : List Step} (h : v.Coheres w)
    (hrun : w.Along (fun w st => st.Honest v w ∧ st.conditions.Whole) run) : v.Coheres (w.after run) := by
  induction run generalizing w with
  | nil => exact h
  | cons st run ih => exact ih (h.next hrun.1.2 hrun.1.1) hrun.2

/-! ## Files that can be opened -/

omit [VaultJson] [AuditJson] [LawfulCrypto] [LawfulVaultJson] [LawfulAuditJson] in
/-- What unlocks an envelope is in its header. -/
theorem unlock_header {e e' : Envelope} (h : e'.header = e.header) (passphrase : Bytes) :
    e'.unlock passphrase = e.unlock passphrase := by
  have hwith : ∀ derived, e'.unlockWith derived = e.unlockWith derived := by
    intro derived
    induction derived with
    | nil => rfl
    | cons d rest ih => simp only [Envelope.unlockWith, Envelope.unwrapDek, ih, h]
  simp only [Envelope.unlock, KekRecipe.of, h, hwith]

/-- The passphrase is that of the vault. -/
def Vault.OpenedBy (v : Vault) (passphrase : Bytes) : Prop :=
  ∀ e : Envelope, e.header = v.header → e.unlock passphrase = .ok v.keys

omit [VaultJson] [AuditJson] [LawfulCrypto] [LawfulVaultJson] [LawfulAuditJson] in
/-- Keys derived from the passphrase of a vault open its slots to its keys. -/
theorem Vault.OpenedBy.honest {passphrase : Bytes} (hp : v.OpenedBy passphrase) {e : Envelope}
    (he : e.header = v.header) {recipe : KekRecipe} {derived : DerivedKeks} (hr : e.kekRecipe = .ok recipe)
    (hd : recipe.derive passphrase = .ok derived) :
    v.Honest derived := by
  intro e' he' k hk
  obtain ⟨recipe', derived', hr', hd', hk'⟩ := unlock_eq_ok (hp e' he')
  have hsame : e'.kekRecipe = e.kekRecipe := by simp only [Envelope.kekRecipe, KekRecipe.of, he, he']
  rw [hsame, hr] at hr'
  cases hr'
  rw [hd] at hd'
  cases hd'
  rw [hk] at hk'
  cases hk'
  rfl

section

variable {passphrase : Bytes} {h h' : Host} {s : Session} {u : Unlocked} {x : Walk} {entry : StagedEntry}

omit [LawfulVaultJson] [LawfulAuditJson] [LawfulCrypto] in
theorem Session.Created.openedBy (hc : s.Created passphrase h h' u x entry) : hc.vault.OpenedBy passphrase := by
  intro e he
  obtain ⟨b, -, hnew⟩ := hc.envelope
  rw [unlock_header he]
  exact hnew.unlock

omit [LawfulCrypto] in
/-- A vault that was created over a log that is accepted under its audit key is coherent. -/
theorem Session.Created.coheres (hc : s.Created passphrase h h' u x entry) (ht : Terminated (h.auditFile.getD []))
    (hmac : ∃ y, Chain (some u.auditKey) (h.auditFile.getD []) y) : hc.vault.Coheres ⟨some s, h'⟩ := by
  obtain ⟨y, hy⟩ := hmac
  obtain ⟨z, hz, hs, hp⟩ := hc.staged.behind hc.chain hy (Or.inr (Or.inr rfl)) ht
  rw [hc.auditKey] at hz
  have hcheck : Checked h' u.doc := by
    rw [Checked, hc.auditFile, hc.doc]
    exact hc.staged.checkpoint hc.chain ht
  refine ⟨⟨⟨_, z, hc.auditFile, terminated_bytes _ _, hz⟩, s.envelope, u.doc, hc.vaultFile, hc.seals, hc.persistable,
    hcheck⟩, fun s' hs' c hwhole => ?_⟩
  cases hs'
  refine ⟨⟨⟨_, z, hc.auditFile, terminated_bytes _ _, hz, Or.inr ⟨?_, ?_⟩⟩, fun k hk => ?_, hwhole⟩, fun u' hu' => ?_,
    ⟨u.doc, hc.seals, hcheck.congr rfl rfl⟩, s.envelope, u.doc, hc.vaultFile, hc.seals, hc.persistable,
    hcheck.congr rfl rfl⟩
  · exact hc.audit.1.trans hs.symm
  · exact hc.audit.2.1.trans hp.symm
  · change Option.map _ s.unlocked = some k at hk
    rw [hc.unlocked] at hk
    cases hk
    exact hc.auditKey
  · change s.unlocked = some u' at hu'
    rw [hc.unlocked] at hu'
    cases hu'
    exact ⟨rfl, hc.auditKey, hcheck.congr rfl rfl⟩

end

end

end SecretsVault
