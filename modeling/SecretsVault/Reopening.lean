import SecretsVault.AuditTamper
import SecretsVault.Creation

/-!
# Opening a created vault again

- `Reopens`: whatever the process meets once it can take the lock of the vault, the vault is loaded and unlocked by its
  passphrase.
- `create_reopens_iff`: a created vault does exactly if the log that was there has no open last line, and its MACs
  verify under the key of the new vault.
- `created_over_foreign_log`: the entry another creation left behind is enough to lose the vault.
-/

namespace SecretsVault

open Lib Lib.Prog Host

section

variable [Crypto] [AuditJson] {key : Option SecretKey} {content : Bytes}

/-- A walk over a text ends in one place. -/
theorem Chain.inj {w w' : Walk} (h : Chain key content w) (h' : Chain key content w') : w = w' :=
  Outcome.ok.inj (h.walk.symm.trans h'.walk)

/-- What an entry is built against is the number and the hash of the last one. -/
theorem StagedEntry.At.congr {s : StagedEntry} {mac : Option SecretKey} {w w' : Walk} (h : s.At mac w)
    (hs : w'.seq = w.seq) (hp : w'.prev = w.prev) : s.At mac w' :=
  ⟨by rw [hs]; exact h.seq, by rw [hp]; exact h.prevHash, by rw [hp]; exact h.hashHex, by rw [hp]; exact h.macHex⟩

/-- Under a key or without one, the last entry of a text is the same. -/
theorem Chain.head_eq {w v : Walk} (h : Chain key content w) (hv : Chain none content v) :
    w.seq = v.seq ∧ w.prev = v.prev := by
  obtain ⟨v', hv', hp, hs⟩ := h.forget
  obtain rfl := hv.inj hv'
  exact ⟨hs.symm, hp.symm⟩

/-- The first part of an accepted text is accepted. -/
theorem Chain.of_append {more : Bytes} {w : Walk} (h : Chain key (content ++ more) w) (ht : Terminated content)
    (hu : utf8Valid content = true) : ∃ w', Chain key content w' := by
  have hw := h.walk
  rw [walkText, auditLines_append ht, List.foldlM_append] at hw
  obtain ⟨w', hw', -⟩ := Outcome.bind_eq_ok hw
  exact ⟨w', hu, hw'⟩

theorem verify_iff : (∃ r, AuditLog.verify key (some content) = .ok r) ↔ ∃ w, Chain key content w :=
  ⟨fun ⟨_, hr⟩ => verify_eq_ok hr, fun ⟨_, hw⟩ => hw.verify⟩

end

section

variable [Crypto] [VaultJson] [AuditJson]

/-- Whatever the next process meets, if the lock file can be opened and locked, it loads the vault and unlocks it with
the passphrase. -/
def Reopens (passphrase : Bytes) (h : Host) : Prop :=
  ∀ (c : Conditions) (idleTimeout : Nat), c.Lockable → ∃ s h1 t,
    (Session.load idleTimeout).run ((h.under c).releaseVault) = (.ok s, h1) ∧
      (unlock passphrase).run ⟨s, h1⟩ = (.ok (), t)

variable [LawfulVaultJson] [LawfulAuditJson] {passphrase : Bytes} {h h' : Host} {s : Session} {u : Unlocked} {w : Walk}
  {entry : StagedEntry}

omit [VaultJson] [LawfulVaultJson] in
/-- The log behind the first entry of a vault. -/
theorem StagedEntry.At.behind {content : Bytes} {mac key : Option SecretKey} {w v : Walk} {entry : StagedEntry}
    (hat : entry.At mac w) (hw : Chain none content w) (hv : Chain key content v) (hc : Compatible mac key)
    (ht : Terminated content) : ∃ v', Chain key (content ++ entry.bytes) v' ∧ v'.seq = w.seq + 1 ∧
      v'.prev = entryHash w.prev entry.event := by
  obtain ⟨hs, hp⟩ := hv.head_eq hw
  obtain ⟨v', hv', hp', hs'⟩ := (hat.congr hs hp).chain hc hv ht
  exact ⟨v', hv', by rw [hs', hs], by rw [hp', hp]⟩

theorem Session.Created.reopens (hc : s.Created passphrase h h' u w entry) (ht : Terminated (h.auditFile.getD []))
    (hmac : ∃ v, Chain (some u.auditKey) (h.auditFile.getD []) v) : Reopens passphrase h' := by
  intro c idleTimeout hlock
  obtain ⟨v, hv⟩ := hmac
  obtain ⟨b, hb, hnew⟩ := hc.envelope
  obtain ⟨w1, hw1, hs1, hp1⟩ := hc.staged.behind hc.chain hc.chain (Or.inr (Or.inl rfl)) ht
  obtain ⟨v1, hv1, hs2, hp2⟩ := hc.staged.behind hc.chain hv (Or.inr (Or.inr rfl)) ht
  have hload := load_run (h := (h'.under c).releaseVault) hlock hc.vaultFile rfl hc.wf hc.persistable hc.auditFile hw1
    idleTimeout
  have hcheck : checkCheckpoint (some (h.auditFile.getD [] ++ entry.bytes)) u.doc.auditHead.seq u.doc.auditHead.hash =
      .ok () := by
    rw [hc.doc]
    exact hc.staged.checkpoint hc.chain ht
  set loaded := Session.start s.envelope none ⟨w1.seq, w1.prev, .default⟩ ((h'.under c).releaseVault).mono idleTimeout
  obtain ⟨t, hunlock, -⟩ := unlock_run (s := ⟨loaded, ((h'.under c).releaseVault).owning⟩) (u := u)
    hnew.unlock hc.auditKey hc.auditFile hv1
    (Or.inr ⟨hs1.trans hs2.symm, hp1.trans hp2.symm⟩) hnew.openDocument (LawfulVaultJson.doc_roundtrip hb) hcheck
  exact ⟨_, _, t, hload, hunlock⟩

/-- A process that did load and unlock the vault found a terminated log under the audit key. -/
theorem Session.Created.of_reopened (hc : s.Created passphrase h h' u w entry) {c : Conditions} {idleTimeout : Nat}
    {s1 : Session} {h1 : Host} {t : Sys} (hload : (Session.load idleTimeout).run ((h'.under c).releaseVault) =
      (.ok s1, h1))
    (hunlock : (unlock passphrase).run ⟨s1, h1⟩ = (.ok (), t)) :
    Terminated (h.auditFile.getD []) ∧ ∃ v, Chain (some u.auditKey) (h.auditFile.getD []) v := by
  obtain ⟨bytes, audit, now, hb, hparse, hlog, hstart⟩ := load_eq_ok hload
  have hfile : bytes = s.envelope.toBytes := by
    have := hc.vaultFile
    rw [show h'.vaultFile = some bytes from hb] at this
    cases this
    rfl
  subst hfile
  have henv := Envelope.parse_toBytes_inj hc.wf hparse
  obtain ⟨v, appends, hv, hh1, -⟩ := loadOrInit_eq_ok hlog
  have hcontent : h'.auditFile = some (h.auditFile.getD [] ++ entry.bytes) := hc.auditFile
  have hv : Chain none (h.auditFile.getD [] ++ entry.bytes) v := by
    have : (h'.auditFile.getD []) = h.auditFile.getD [] ++ entry.bytes := by rw [hcontent]; rfl
    rw [← this]
    exact hv
  have ht : Terminated (h.auditFile.getD []) := by
    by_contra hopen
    refine not_chain_behind hc.chain hopen entry (k := entry.bytes.length) (by simp [StagedEntry.bytes]) v ?_
    rw [List.take_length]
    exact hv
  refine ⟨ht, ?_⟩
  obtain ⟨recipe, derived, u', hrec, hder, hopen, -⟩ := unlock_opens hunlock
  obtain ⟨hkeys, hak, ⟨r, hver⟩, -⟩ := openVault_eq_ok hopen
  obtain ⟨b, -, hnew⟩ := hc.envelope
  obtain ⟨recipe', derived', hrec', hder', hkeys'⟩ := unlock_eq_ok hnew.unlock
  have hu : u'.keys = u.keys := by
    change s1.envelope.kekRecipe = .ok recipe at hrec
    change s1.envelope.unlockWith derived = .ok u'.keys at hkeys
    rw [henv] at hrec hkeys
    rw [hrec] at hrec'
    cases hrec'
    rw [hder] at hder'
    cases hder'
    rw [hkeys] at hkeys'
    exact Except.ok.inj hkeys'
  have hf1 : h1.auditFile = some (h.auditFile.getD [] ++ entry.bytes) := by
    rw [hh1]
    change some (h'.auditFile.getD []) = _
    rw [hcontent]
    rfl
  change AuditLog.verify _ h1.auditFile = _ at hver
  rw [hf1, hak, hu, ← hc.auditKey] at hver
  obtain ⟨v', hv'⟩ := verify_eq_ok hver
  exact hv'.of_append ht hc.chain.utf8

theorem Session.Created.of_reopens (hc : s.Created passphrase h h' u w entry) (hr : Reopens passphrase h') :
    Terminated (h.auditFile.getD []) ∧ ∃ v, Chain (some u.auditKey) (h.auditFile.getD []) v := by
  obtain ⟨s1, h1, t, hload, hunlock⟩ :=
    hr ⟨h'.fs, h'.wall, h'.mono, h'.rng, h'.appends, h'.saves, fun _ => none, h'.patience⟩ 0 rfl
  exact hc.of_reopened hload hunlock

/-! ## Creating on a healthy host -/

omit [Crypto] [VaultJson] [AuditJson] [LawfulVaultJson] [LawfulAuditJson] in
theorem generateKey_returns {h : Host} (hh : h.Healthy) :
    Returns Envelope.generateKey h fun _ h' => Quiet h h' ∧ h'.Healthy :=
  (randomBytes_returns hh _).attempt.bind fun _ _ ⟨_, hr, hq, hh'⟩ => by
    subst hr
    exact returns_pure ⟨hq, hh'⟩

omit [AuditJson] [LawfulVaultJson] [LawfulAuditJson] in
/-- A new envelope is built when the random source and the derivation work. -/
theorem Envelope.create_returns {h : Host} (hh : h.Healthy) {passphrase document : Bytes} {createdAt : OffsetDateTime}
    (hkek : ∀ kdf salt, ∃ kek, Crypto.deriveKek passphrase kdf salt = .ok kek) :
    Returns (Envelope.create passphrase document createdAt) h fun _ h' => Quiet h h' ∧ h'.Healthy := by
  refine (generateKey_returns hh).bind fun mek h1 ⟨q1, hh1⟩ => ?_
  refine (generateKey_returns hh1).bind fun dek h2 ⟨q2, hh2⟩ => ?_
  refine (randomBytes_returns hh2 _).bind fun salt h3 ⟨q3, hh3⟩ => ?_
  refine (randomBytes_returns hh3 _).bind fun nonce h4 ⟨q4, hh4⟩ => ?_
  refine Returns.bind (P := fun _ h' => Quiet h4 h' ∧ h'.Healthy)
    ((randomBytes_returns hh4 _).bind fun _ _ hq => returns_pure hq) fun id h5 ⟨q5, hh5⟩ => ?_
  obtain ⟨kek, hk⟩ := hkek .argon2idDefaults salt
  dsimp only
  rw [hk]
  refine (returns_lift (P := fun _ h' => h' = h5) rfl).bind fun _ h6 heq => ?_
  subst heq
  refine (randomBytes_returns hh5 _).bind fun dekNonce h7 ⟨q7, hh7⟩ => ?_
  refine (randomBytes_returns hh7 _).bind fun docNonce h8 ⟨q8, hh8⟩ => ?_
  exact returns_pure ⟨q1.trans <| q2.trans <| q3.trans <| q4.trans <| q5.trans <| q7.trans q8, hh8⟩

omit [LawfulVaultJson] [LawfulAuditJson] in
/-- Once the vault file has been looked for, a vault is created over any log that is accepted without a key and has room
for its first entry. -/
theorem creation_returns [LawfulCrypto] {h : Host} (hh : h.Healthy) {passphrase : Bytes}
    (hkek : ∀ kdf salt, ∃ kek, Crypto.deriveKek passphrase kdf salt = .ok kek)
    (ho : h.vaultOwned = false) {content : Bytes} {w : Walk} (hf : h.auditFile = some content)
    (hch : Chain none content w) {ts : String} (hts : AuditLog.timestamp h.wall = .ok ts)
    (hfit : content.length + (AuditJson.lineToString
      (AuditLog.probe (createdRecord.event ts (w.seq + 1) (hex w.prev.1)))).length + 1 ≤ AUDIT_SOFT_LIMIT)
    (hdoc : ∃ b, VaultJson.docToVec { VaultDocument.new h.wall with
      auditHead := ⟨w.seq + 1, hex (entryHash w.prev (createdRecord.event ts (w.seq + 1) (hex w.prev.1))).1⟩ } = .ok b)
    (idleTimeout : Nat) : Returns (holdingVault (writeVault passphrase idleTimeout)) h fun _ _ => True := by
  obtain ⟨b, hb⟩ := hdoc
  have hwalk : walk none (some content) = .ok (w.report, w.prev) := walk_eq_ok.mpr ⟨content, w, rfl, hch, rfl, rfl⟩
  have hload : ∀ h1 : Host, h1.auditFile = h.auditFile →
      AuditLog.loadOrInit.run h1 = (.ok ⟨w.seq, w.prev, .default⟩, h1) := by
    intro h1 ha
    rw [AuditLog.loadOrInit, run_get_bind, ha, hf]
    dsimp only
    rw [run_bind, run_lift, hwalk]
    dsimp only
    rw [hch.entries]
    rfl
  set staged := w.stage createdRecord.event none ts with hstaged
  have hsync : InSync ⟨w.seq, w.prev, .default⟩ w := Or.inr ⟨rfl, rfl⟩
  have hat : staged.At none w := Walk.stage_at _ (positioned_record _) _ _
  simp only [writeVault, prepare, Prepared.append, Prepared.save, Prepared.session, bind_assoc, pure_bind]
  rw [holdingVault]
  refine (show Returns acquireVault h fun _ h' => h' = h.owning from
    ⟨(), _, acquireVault_of_free (hh.syscalls 0) ho, rfl⟩).bind fun _ h1 hh1 => ?_
  subst hh1
  refine (Returns.attempt (P := fun _ _ => True) ?_).bind fun _ h2 hr => by
    obtain ⟨a, rfl, -⟩ := hr
    exact returns_pure trivial
  refine Returns.bind (P := fun log h' => log = ⟨w.seq, w.prev, .default⟩ ∧ h' = h.owning)
    ⟨_, _, hload _ rfl, rfl, rfl⟩ fun log h2 hr => ?_
  obtain ⟨rfl, rfl⟩ := hr
  refine returns_get_bind ?_
  have hst : (⟨w.seq, w.prev, .default⟩ : AuditLog).stage createdRecord none .ordinary h.owning = .ok staged :=
    hch.stageEvent_fits hsync hf hts (by rw [Limits.ceiling_ordinary]; exact hfit)
  rw [hst]
  refine (returns_lift (P := fun st h' => st = staged ∧ h' = h.owning) ⟨rfl, rfl⟩).bind fun st h3 hr => ?_
  obtain ⟨rfl, rfl⟩ := hr
  have hbytes : docToVec { VaultDocument.new h.wall with auditHead := ⟨staged.event.seq, staged.hashHex⟩ } = .ok b := by
    have hb' : VaultJson.docToVec { VaultDocument.new h.wall with
        auditHead := ⟨staged.event.seq, staged.hashHex⟩ } = .ok b := hb
    rw [docToVec, hb']
  rw [show h.owning.wall = h.wall from rfl, hbytes]
  refine (returns_lift (P := fun b' h' => b' = b ∧ h' = h.owning) ⟨rfl, rfl⟩).bind fun b' h4 hr => ?_
  obtain ⟨rfl, rfl⟩ := hr
  have hh' : h.owning.Healthy := ⟨hh.rng, hh.appends, hh.saves, fun i => hh.syscalls (i + 1)⟩
  obtain ⟨e, h5, hcreate, hq5, hh5⟩ := @Envelope.create_returns _ _ _ hh' passphrase b' h.wall hkek
  refine Returns.bind (P := fun e' h' => e' = e ∧ h' = h5) ⟨e, h5, hcreate, rfl, rfl⟩ fun e' h6 hr => ?_
  obtain ⟨rfl, rfl⟩ := hr
  obtain ⟨keys, -, hnew, -⟩ := Envelope.create_eq_ok hcreate
  rw [hnew.unlock]
  refine (returns_lift (P := fun k h' => k = keys ∧ h' = h6) ⟨rfl, rfl⟩).bind fun k h7 hr => ?_
  obtain ⟨rfl, rfl⟩ := hr
  set entry : StagedEntry := { staged with
    macHex := some (hex (entryMac (deriveAuditKey k.mek) w.prev staged.event).1) } with hentry
  have hmac : staged.macWith (deriveAuditKey k.mek) = .ok entry := by
    rw [StagedEntry.macWith, hat.prevHash, unhex_hex]
  rw [hmac]
  refine (returns_lift (P := fun st h' => st = entry ∧ h' = h7) ⟨rfl, rfl⟩).bind fun st h8 hr => ?_
  obtain ⟨rfl, rfl⟩ := hr
  refine returns_get_bind ?_
  have hat' : entry.At (some (deriveAuditKey k.mek)) w := ⟨hat.seq, hat.prevHash, hat.hashHex, rfl⟩
  obtain ⟨rng, syscalls, hh8⟩ := hq5.eq
  have happ := AuditLog.appendStaged_run (h := h8) hat' hch hsync (by rw [hh8]; exact hf)
  rw [hh5.appends 0] at happ
  rw [happ]
  dsimp only
  refine (returns_modify (P := fun _ h' => h' = { h8 with
    auditFile := some (content ++ entry.bytes), appends := fun i => h8.appends (i + 1) }) rfl).bind fun _ h9 hh9 => ?_
  subst hh9
  refine (returns_lift (P := fun _ h' => h' = { h8 with
    auditFile := some (content ++ entry.bytes), appends := fun i => h8.appends (i + 1) }) rfl).bind fun _ h9 hh9 => ?_
  subst hh9
  refine (show Returns (saveAtomic e'.toBytes) _ fun _ _ => True from
    ⟨(), _, by rw [saveAtomic, run_step]; dsimp only; rw [hh5.saves 0], trivial⟩).bind fun _ h9 _ => ?_
  exact returns_get_bind (returns_pure trivial)

omit [LawfulVaultJson] [LawfulAuditJson] in
theorem create_returns [LawfulCrypto] {h : Host} (hh : h.Healthy) {passphrase : Bytes}
    (hlen : MIN_PASSPHRASE_LEN ≤ passphrase.length) (hkek : ∀ kdf salt, ∃ kek,
      Crypto.deriveKek passphrase kdf salt = .ok kek)
    (hv : h.vaultFile = none) (ho : h.vaultOwned = false) {content : Bytes} {w : Walk} (hf : h.auditFile = some content)
    (hch : Chain none content w) {ts : String} (hts : AuditLog.timestamp h.wall = .ok ts)
    (hfit : content.length + (AuditJson.lineToString
      (AuditLog.probe (createdRecord.event ts (w.seq + 1) (hex w.prev.1)))).length + 1 ≤ AUDIT_SOFT_LIMIT)
    (hdoc : ∃ b, VaultJson.docToVec { VaultDocument.new h.wall with
      auditHead := ⟨w.seq + 1, hex (entryHash w.prev (createdRecord.event ts (w.seq + 1) (hex w.prev.1))).1⟩ } = .ok b)
    (idleTimeout : Nat) : ∃ s h', (Session.create passphrase idleTimeout).run h = (.ok s, h') := by
  have hcheck : Returns (checkAbsent passphrase) h fun _ h' => h' = h := by
    rw [checkAbsent, if_neg (by omega)]
    refine returns_get_bind ?_
    rw [if_neg (by simp [hv])]
    exact returns_pure rfl
  have hret : Returns (Session.create passphrase idleTimeout) h fun _ _ => True := by
    refine hcheck.bind fun _ h1 hh1 => ?_
    subst hh1
    exact creation_returns hh hkek ho hf hch hts hfit hdoc idleTimeout
  obtain ⟨s, h', hr, -⟩ := hret
  exact ⟨s, h', hr⟩

/-! ## Reopening -/

/-- A created vault is loaded and unlocked exactly if the log that was there has no open last line, and is accepted
under the audit key of the new vault. -/
theorem create_reopens_iff [LawfulCrypto] {idleTimeout : Nat}
    (hr : (Session.create passphrase idleTimeout).run h = (.ok s, h')) :
    Reopens passphrase h' ↔ Terminated (h.auditFile.getD []) ∧ ∀ mek, h.nextKey = some mek →
      ∃ r, AuditLog.verify (some (deriveAuditKey mek)) (some (h.auditFile.getD [])) = .ok r := by
  obtain ⟨u, w, entry, hc⟩ := create_eq_ok hr
  constructor
  · intro hre
    obtain ⟨ht, hv⟩ := hc.of_reopens hre
    refine ⟨ht, fun mek hmek => ?_⟩
    rw [hc.nextKey] at hmek
    cases hmek
    rw [← hc.auditKey]
    exact verify_iff.mpr hv
  · rintro ⟨ht, hv⟩
    refine hc.reopens ht ?_
    rw [hc.auditKey]
    exact verify_iff.mp (hv _ hc.nextKey)

end

/-! ## A vault over the log of another one -/

namespace Reference

/-- A passphrase that is long enough. -/
def passphrase : Bytes := List.replicate MIN_PASSPHRASE_LEN 0

/-- Conditions under which every call succeeds. -/
def conditions : Conditions :=
  ⟨healthy.fs, healthy.wall, healthy.mono, healthy.rng, healthy.appends, healthy.saves, healthy.syscalls,
    healthy.patience⟩

theorem healthy_healthy : healthy.Healthy := ⟨fun _ => rfl, fun _ => rfl, fun _ => rfl, fun _ => rfl⟩

theorem docToVec_new (head : AuditHead) :
    ∃ b, VaultJson.docToVec { VaultDocument.new healthy.wall with auditHead := head } = .ok b := by
  refine ⟨_, if_pos ?_⟩
  simp only [instants, VaultDocument.new, List.map_nil, List.flatMap_nil, List.append_nil, List.mem_singleton,
    forall_eq]
  decide

theorem create_empty (idleTimeout : Nat) : ∃ s h', (Session.create passphrase idleTimeout).run healthy = (.ok s, h') :=
  create_returns healthy_healthy (by decide) (fun _ _ => ⟨_, rfl⟩) rfl rfl rfl (Chain.empty none)
    (show AuditLog.timestamp healthy.wall = .ok "1970-01-01T00:00:00Z" from rfl) (by decide +kernel) (docToVec_new _)
    idleTimeout

/-- What an unlock with a wrong passphrase leaves in the log. -/
def refusedRecord : Record :=
  { actor := "human", op := "vault.unlock", decision := .denied, reason := some VaultError.auth.code }

/-- Two of them, without MACs as nobody had the key. -/
def firstRefusal : StagedEntry := Walk.start.stage refusedRecord.event none "1970-01-01T00:00:00Z"

def secondRefusal : StagedEntry := (behind .start firstRefusal).stage refusedRecord.event none "1970-01-01T00:00:00Z"

def refusals : Bytes := firstRefusal.bytes ++ secondRefusal.bytes

theorem refusals_terminated : Terminated refusals := by
  rw [refusals, StagedEntry.bytes, StagedEntry.bytes, ← List.append_assoc]
  exact terminated_append_lf _

/-- Entries without MACs are accepted under every key. -/
theorem refusals_chain (key : Option SecretKey) : ∃ w, Chain key refusals w ∧ w.seq = 2 := by
  have hfirst : firstRefusal.At none .start := Walk.stage_at _ (positioned_record _) _ _
  obtain ⟨w1, hch1, hp1, hs1⟩ := hfirst.chain (Or.inl rfl) (Chain.empty key) (Or.inl rfl)
  have hsecond : secondRefusal.At none w1 :=
    (Walk.stage_at (behind .start firstRefusal) (positioned_record _) _ _).congr hs1 hp1
  obtain ⟨w2, hch2, -, hs2⟩ := hsecond.chain (Or.inl rfl) hch1 (terminated_append_lf _)
  exact ⟨w2, hch2, by rw [hs2, hs1]; rfl⟩

theorem refusals_length : refusals.length ≤ 5000 := by
  have hbrief : Brief refusedRecord := by decide +kernel
  have hfirst := length_stage hbrief .start none
  have hsecond := length_stage hbrief (behind .start firstRefusal) none
  have hseq : (behind .start firstRefusal).seq = 1 := rfl
  rw [hseq] at hsecond
  rw [show Walk.start.seq = 0 from rfl] at hfirst
  rw [refusals, List.length_append]
  change firstRefusal.bytes.length ≤ _ at hfirst
  change secondRefusal.bytes.length ≤ _ at hsecond
  omega

/-- A host where a vault was removed, and its log was left. -/
def leftLog : Host := { healthy with auditFile := some refusals }

theorem create_leftLog (idleTimeout : Nat) : ∃ s h', (Session.create passphrase idleTimeout).run leftLog =
    (.ok s, h') := by
  have hhealthy : leftLog.Healthy := ⟨fun _ => rfl, fun _ => rfl, fun _ => rfl, fun _ => rfl⟩
  have hts : AuditLog.timestamp leftLog.wall = .ok "1970-01-01T00:00:00Z" := rfl
  have hbrief : Brief createdRecord := by decide +kernel
  obtain ⟨w, hch, hseq⟩ := refusals_chain none
  have hfit : refusals.length + (AuditJson.lineToString (AuditLog.probe
      (createdRecord.event "1970-01-01T00:00:00Z" (w.seq + 1) (hex w.prev.1)))).length + 1 ≤ AUDIT_SOFT_LIMIT := by
    have hprobe := length_probe hbrief w
    have hlength := refusals_length
    have hlimit : 100000 ≤ AUDIT_SOFT_LIMIT := by decide
    omega
  exact create_returns hhealthy (by decide) (fun _ _ => ⟨_, rfl⟩) rfl rfl rfl hch hts hfit (docToVec_new _) idleTimeout

/-- Such a log is accepted under the audit key of any vault. -/
theorem leftLog_accepted : Terminated (leftLog.auditFile.getD []) ∧ ∀ mek, leftLog.nextKey = some mek →
    ∃ r, AuditLog.verify (some (deriveAuditKey mek)) (some (leftLog.auditFile.getD [])) = .ok r := by
  refine ⟨refusals_terminated, fun mek _ => verify_iff.mpr ?_⟩
  obtain ⟨w, hch, -⟩ := refusals_chain (some (deriveAuditKey mek))
  exact ⟨w, hch⟩

/-- The first entry of a creation that was interrupted before the vault was stored. -/
def leftEntry : StagedEntry := Walk.start.stage createdRecord.event (some macKey) "1970-01-01T00:00:00Z"

theorem leftEntry_at : leftEntry.At (some macKey) .start := Walk.stage_at _ (positioned_record _) _ _

/-- A host on which a creation was interrupted. -/
def interrupted : Host := { healthy with auditFile := some leftEntry.bytes }

theorem interrupted_healthy : interrupted.Healthy := ⟨fun _ => rfl, fun _ => rfl, fun _ => rfl, fun _ => rfl⟩

theorem create_interrupted : ∃ s h', (Session.create passphrase 0).run interrupted = (.ok s, h') := by
  obtain ⟨w, hch, hp, hs⟩ := leftEntry_at.chain (Or.inr (Or.inl rfl)) (Chain.empty none) (Or.inl rfl)
  have hts : AuditLog.timestamp interrupted.wall = .ok "1970-01-01T00:00:00Z" := rfl
  have hfit : leftEntry.bytes.length + (AuditJson.lineToString (AuditLog.probe
      (createdRecord.event "1970-01-01T00:00:00Z" (w.seq + 1) (hex w.prev.1)))).length + 1 ≤ AUDIT_SOFT_LIMIT := by
    rw [hp, hs]
    decide +kernel
  exact create_returns interrupted_healthy (by decide) (fun _ _ => ⟨_, rfl⟩) rfl rfl rfl hch hts hfit (docToVec_new _) 0

theorem mac_of_another_key : entryMac macKey (FixedBytes.zero 32) leftEntry.event ≠
    entryMac (deriveAuditKey ⟨List.ofFn fun i : Fin KEY_LEN => UInt8.ofNat (0 + i), by simp⟩) (FixedBytes.zero 32)
      leftEntry.event := by
  decide +kernel

/-- The entry that was left behind is not accepted under the key of the next vault. -/
theorem interrupted_foreign {s : Session} {h' : Host} {u : Unlocked} {w : Walk} {entry : StagedEntry}
    (hc : s.Created passphrase interrupted h' u w entry) (v : Walk) :
    ¬Chain (some u.auditKey) (interrupted.auditFile.getD []) v := by
  intro hv
  have hmek : interrupted.nextKey = some ⟨List.ofFn fun i : Fin KEY_LEN => UInt8.ofNat (0 + i), by simp⟩ := rfl
  have hkey := hc.nextKey
  rw [hmek, Option.some.injEq] at hkey
  rw [hc.auditKey, ← hkey] at hv
  have htext : interrupted.auditFile.getD [] = logText [leftEntry.line] := by
    simp [interrupted, logText, StagedEntry.bytes]
  rw [htext] at hv
  -- The MAC of the entry is that of another key.
  obtain ⟨-, -, -, hmac, -⟩ := (hv.linked (readAll_logText _)).1
  obtain ⟨p, hp, hm⟩ := hmac _ _ rfl rfl
  have hprev : unhex leftEntry.line.event.prevHash = .ok (FixedBytes.zero 32) := by
    rw [StagedEntry.line, leftEntry_at.prevHash, unhex_hex]
    rfl
  rw [hprev] at hp
  cases hp
  rw [unhex_hex] at hm
  exact mac_of_another_key (Outcome.ok.inj hm)

end Reference

/-- A vault created over a log of entries without MACs opens. -/
theorem create_reopens_left_log : ∃ s h', (Session.create Reference.passphrase 0).run Reference.leftLog = (.ok s, h') ∧
    Reopens Reference.passphrase h' := by
  obtain ⟨s, h', hr⟩ := Reference.create_leftLog 0
  exact ⟨s, h', hr, (create_reopens_iff hr).mpr Reference.leftLog_accepted⟩

/-- The entry an interrupted creation left behind is accepted, and a vault is created over it; no later process can
unlock this vault. -/
theorem created_over_foreign_log : (∃ r, walk none Reference.interrupted.auditFile = .ok r) ∧
    ∃ s h', (Session.create Reference.passphrase 0).run Reference.interrupted = (.ok s, h') ∧
      ∀ (c : Conditions) (idleTimeout : Nat) (s1 : Session) (h1 : Host) (t : Sys),
        (Session.load idleTimeout).run ((h'.under c).releaseVault) = (.ok s1, h1) →
          (unlock Reference.passphrase).run ⟨s1, h1⟩ ≠ (.ok (), t) := by
  obtain ⟨w, hch, -⟩ := Reference.leftEntry_at.chain (Or.inr (Or.inl rfl)) (Chain.empty none) (Or.inl rfl)
  refine ⟨⟨(w.report, w.prev), walk_eq_ok.mpr ⟨_, w, rfl, hch, rfl, rfl⟩⟩, ?_⟩
  obtain ⟨s, h', hr⟩ := Reference.create_interrupted
  refine ⟨s, h', hr, fun c idleTimeout s1 h1 t hload hunlock => ?_⟩
  obtain ⟨u, w, entry, hc⟩ := create_eq_ok hr
  obtain ⟨-, v, hv⟩ := hc.of_reopened hload hunlock
  exact Reference.interrupted_foreign hc v hv

end SecretsVault
