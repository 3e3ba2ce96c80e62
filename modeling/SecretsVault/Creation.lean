import SecretsVault.AuditFailure
import SecretsVault.Custody

/-!
# A created vault

Creation writes the first entry of a vault behind whatever log is there, and then the vault that names it.

- `Envelope.create_eq_ok`: a new envelope opens under its passphrase, to the keys that were drawn.
- `create_eq_ok`: what a successful creation leaves in the session and on the host.
- `create_reopens_iff`: the vault can be loaded and unlocked exactly if the log that was there had no open last line,
  and every MAC in it verifies under the key of the new vault.
-/

namespace SecretsVault

open Lib Lib.Prog Host

/-! ## A new envelope -/

/-- The key the next random bytes make. -/
def Host.nextKey (h : Host) : Option SecretKey :=
  match (randomBytes KEY_LEN).run h with
  | (.ok k, _) => some k
  | _ => none

theorem Host.nextKey_congr {h h' : Host} (hr : h'.rng = h.rng) : h'.nextKey = h.nextKey := by
  unfold Host.nextKey
  simp only [randomBytes, run_step, hr]
  cases h.rng 0 <;> rfl

theorem generateKey_eq_ok {h h' : Host} {k : SecretKey} (hr : Envelope.generateKey.run h = (.ok k, h')) :
    h.nextKey = some k ∧ Quiet h h' := by
  obtain ⟨r, h1, h2, hr⟩ := bind_eq_ok hr
  rw [run_attempt] at h2
  rcases hb : (randomBytes KEY_LEN).run h with ⟨b | e | _, h3⟩ <;> rw [hb] at h2 <;> cases h2
  · cases hr
    refine ⟨by rw [Host.nextKey, hb], ?_⟩
    have := randomBytes_quiet KEY_LEN h
    rwa [hb] at this
  · cases hr

theorem randomBytes_eq_ok {n : Nat} {h h' : Host} {b : FixedBytes n} (hr : (randomBytes n).run h = (.ok b, h')) :
    Quiet h h' := by
  have := randomBytes_quiet n h
  rwa [hr] at this

theorem hexId_eq_ok {h h' : Host} {id : String} (hr : hexId.run h = (.ok id, h')) :
    id.utf8ByteSize = 16 ∧ Quiet h h' := by
  have hq := hexId_quiet h
  rw [hr] at hq
  obtain ⟨b, h1, -, hr⟩ := bind_eq_ok hr
  cases hr
  exact ⟨by rw [utf8ByteSize_hex, b.2], hq⟩

section

variable [Crypto] [VaultJson]

/-- What a new envelope is. -/
structure Envelope.New (e : Envelope) (passphrase document : Bytes) (createdAt : OffsetDateTime) (keys : Keys) :
    Prop where
  fresh : e.header.Fresh
  createdAt : e.header.createdAt = createdAt
  unlock : e.unlock passphrase = .ok keys
  openDocument : e.openDocument keys = .ok document
  docCt : e.docCt.length = document.length + TAG_LEN

/-- A new envelope opens under its passphrase, to the keys that were drawn. -/
theorem Envelope.create_eq_ok [LawfulCrypto] {passphrase document : Bytes} {createdAt : OffsetDateTime} {h h' : Host}
    {e : Envelope} (hr : (Envelope.create passphrase document createdAt).run h = (.ok e, h')) :
    ∃ keys, h.nextKey = some keys.mek ∧ e.New passphrase document createdAt keys ∧ Quiet h h' := by
  obtain ⟨mek, h1, hmek, hr1⟩ := bind_eq_ok hr
  obtain ⟨dek, h2, hdek, hr2⟩ := bind_eq_ok hr1
  obtain ⟨salt, h3, hsalt, hr3⟩ := bind_eq_ok hr2
  obtain ⟨nonce, h4, hnonce, hr4⟩ := bind_eq_ok hr3
  obtain ⟨id, h5, hid, hr5⟩ := bind_eq_ok hr4
  obtain ⟨kek, h6, hkek, hr6⟩ := bind_eq_ok hr5
  obtain ⟨dekNonce, h7, hdn, hr7⟩ := bind_eq_ok hr6
  obtain ⟨docNonce, h8, hdoc, hr8⟩ := bind_eq_ok hr7
  rw [run_lift, Prod.mk.injEq] at hkek
  obtain ⟨hkek, rfl⟩ := hkek
  have hkek := Outcome.ofExcept_eq_ok hkek
  cases hr8
  have hquiet : Quiet h h' :=
    (generateKey_eq_ok hmek).2.trans <| (generateKey_eq_ok hdek).2.trans <| (randomBytes_eq_ok hsalt).trans <|
      (randomBytes_eq_ok hnonce).trans <| (hexId_eq_ok hid).2.trans <| (randomBytes_eq_ok hdn).trans
      (randomBytes_eq_ok hdoc)
  have hvalid : KdfParams.argon2idDefaults.validate = .ok () := by decide
  have hsaltOk := FixedBytes.ofBytes?_val salt
  have hrecipe : ∀ hd : Header, hd.slots = [⟨id, .passphrase, .argon2idDefaults, salt.1, nonce.1,
      Crypto.sealWith kek nonce mek.1 (mekAad id)⟩] → ∀ n ct,
      KekRecipe.of ⟨hd, n, ct⟩ = .ok [(0, .argon2idDefaults, salt)] := by
    intro hd hslots n ct
    unfold KekRecipe.of
    simp only [hslots, KekRecipe.ofSlots, ne_eq, not_true_eq_false, if_false, hvalid]
    simp only [hsaltOk]
    rfl
  refine ⟨⟨mek, dek⟩, (generateKey_eq_ok hmek).1, ⟨?_, rfl, ?_, ?_, ?_⟩, hquiet⟩
  · refine ⟨_, rfl, rfl, rfl, (hexId_eq_ok hid).1, salt.2, nonce.2, ?_, dekNonce.2, ?_⟩
    · rw [LawfulCrypto.length_seal, mek.2]
    · rw [LawfulCrypto.length_seal, dek.2]
  · unfold Envelope.unlock
    rw [hrecipe _ rfl]
    have hderive : KekRecipe.derive [(0, KdfParams.argon2idDefaults, salt)] passphrase = .ok [(0, kek)] := by
      simp only [KekRecipe.derive, List.mapM_cons, List.mapM_nil, hkek]
      rfl
    change (KekRecipe.derive _ _ >>= _) = _
    rw [hderive]
    change Envelope.unlockWith _ _ = _
    simp only [Envelope.unlockWith, List.getElem?_cons_zero, ne_eq, not_true_eq_false, if_false,
      FixedBytes.ofBytes?_val, LawfulCrypto.open_seal, Envelope.unwrapDek]
    rfl
  · simp only [Envelope.openDocument, LawfulCrypto.open_seal]
  · simp only [LawfulCrypto.length_seal]

end

/-! ## What a creation leaves -/

theorem length_linesFrom_le (cur bs : Bytes) :
    ((linesFrom cur bs).filter (· ≠ [])).length ≤ cur.length + bs.length := by
  induction bs generalizing cur with
  | nil =>
    cases cur with
    | nil => simp [linesFrom]
    | cons c cs => simp [linesFrom]
  | cons c cs ih =>
    rw [linesFrom]
    split
    · have := ih []
      by_cases hs : stripCr cur = []
      · rw [hs, List.filter_cons_of_neg (by simp)]
        simp only [List.length_nil, List.length_cons] at this ⊢
        omega
      · have hcur : cur ≠ [] := fun h => hs (by rw [h]; rfl)
        have := List.length_pos_of_ne_nil hcur
        rw [List.filter_cons_of_pos (by simpa using hs)]
        simp only [List.length_nil, List.length_cons] at *
        omega
    · have := ih (cur ++ [c])
      simp only [List.length_append, List.length_cons, List.length_nil] at this ⊢
      omega

/-- A text has no more entries than bytes. -/
theorem length_auditLines_le (content : Bytes) : (auditLines content).length ≤ content.length := by
  have := length_linesFrom_le [] content
  simpa [auditLines, lines] using this

section

variable [Crypto] [AuditJson]

/-- Opening a log that is there, or making an empty one. -/
theorem loadOrInit_eq_ok {h h' : Host} {log : AuditLog} (hr : AuditLog.loadOrInit.run h = (.ok log, h')) :
    ∃ w appends, Chain none (h.auditFile.getD []) w ∧ h' = { h with auditFile := some (h.auditFile.getD []), appends } ∧
      log.seq = w.seq ∧ log.lastHash = w.prev ∧ log.limits = .default := by
  rw [AuditLog.loadOrInit, run_get_bind] at hr
  cases hf : h.auditFile with
  | none =>
    rw [hf] at hr
    obtain ⟨_, h1, hc, hr⟩ := bind_eq_ok hr
    rw [createAudit, run_step] at hc
    dsimp only at hc
    split at hc
    · cases hc
      cases hr
      exact ⟨.start, _, Chain.empty none, rfl, rfl, rfl, rfl⟩
    · cases hc
  | some content =>
    rw [hf] at hr
    dsimp only at hr
    obtain ⟨⟨report, lastHash⟩, h1, hw, hr⟩ := bind_eq_ok hr
    rw [run_lift, Prod.mk.injEq] at hw
    obtain ⟨hw, rfl⟩ := hw
    cases hr
    obtain ⟨c, w, hc, hch, rfl, rfl⟩ := walk_eq_ok.mp hw
    cases hc
    refine ⟨w, h.appends, hch, ?_, hch.entries, rfl, rfl⟩
    rw [Option.getD_some, ← hf]

/-- An entry that was staged for ordinary reasons fits under the soft ceiling. -/
theorem stageEvent_fits {log : AuditLog} {event : String → Nat → String → AuditEvent} {key : Option SecretKey}
    {h : Host} {s : StagedEntry} {content : Bytes} (hf : h.auditFile = some content)
    (hst : log.stageEvent event key .ordinary h = .ok s) : content.length < log.limits.soft := by
  unfold AuditLog.stageEvent at hst
  obtain ⟨synced, hsync, hst⟩ := Outcome.bind_eq_ok hst
  obtain ⟨ts, -, hst⟩ := Outcome.bind_eq_ok hst
  obtain ⟨_, hpre, -⟩ := Outcome.bind_eq_ok hst
  have hlim : synced.limits = log.limits := by
    unfold AuditLog.resync at hsync
    split at hsync
    · cases hsync; rfl
    · split at hsync
      · cases hsync
      · cases hsync; rfl
      · cases hsync
        split <;> rfl
  have hpre := Outcome.ofExcept_eq_ok hpre
  simp only [AuditLog.preflight, hf] at hpre
  split at hpre
  · cases hpre
  · rw [← hlim]
    omega

end

section

variable [Crypto] [VaultJson] [AuditJson]

/-- What a creation with a passphrase, from one host to another, makes of a session. -/
structure Session.Created (passphrase : Bytes) (h : Host) (s : Session) (h' : Host) (u : Unlocked) (w : Walk)
    (entry : StagedEntry) : Prop where
  unlocked : s.unlocked = some u
  sessions : s.sessions = []
  chain : Chain none (h.auditFile.getD []) w
  length_le : (h.auditFile.getD []).length < AUDIT_SOFT_LIMIT
  nextKey : h.nextKey = some u.keys.mek
  auditKey : u.auditKey = deriveAuditKey u.keys.mek
  staged : entry.At (some u.auditKey) w
  event : ∃ ts, AuditLog.timestamp h.wall = .ok ts ∧ entry.event = createdRecord.event ts (w.seq + 1) (hex w.prev.1)
  doc : u.doc = { VaultDocument.new h.wall with auditHead := ⟨entry.event.seq, entry.hashHex⟩ }
  auditFile : h'.auditFile = some (h.auditFile.getD [] ++ entry.bytes)
  vaultFile : h'.vaultFile = some s.envelope.toBytes
  audit : s.audit.seq = w.seq + 1 ∧ s.audit.lastHash = entryHash w.prev entry.event ∧ s.audit.limits = .default
  envelope : ∃ b, VaultJson.docToVec u.doc = .ok b ∧ s.envelope.New passphrase b h.wall u.keys
  lastActivity : s.lastActivity = h.mono

/-- A creation that succeeds wrote its vault with the lock. -/
theorem create_written {passphrase : Bytes} {idleTimeout : Nat} {h h' : Host} {s : Session}
    (hr : (Session.create passphrase idleTimeout).run h = (.ok s, h')) :
    (writeVault passphrase idleTimeout).run h.owning = (.ok s, h') := by
  obtain ⟨_, h1, hcheck, hr⟩ := bind_eq_ok hr
  unfold checkAbsent at hcheck
  split at hcheck; · cases hcheck
  rw [run_get_bind] at hcheck
  split at hcheck
  · cases hcheck
  · cases hcheck
    exact holdingVault_eq_ok hr

/-- What a successful creation leaves. -/
theorem create_eq_ok [LawfulCrypto] {passphrase : Bytes} {idleTimeout : Nat} {h h' : Host} {s : Session}
    (hr : (Session.create passphrase idleTimeout).run h = (.ok s, h')) :
    ∃ u w entry, s.Created passphrase h h' u w entry := by
  obtain ⟨p, h6, hprepare, hr⟩ := bind_eq_ok (create_written hr)
  obtain ⟨q, h7, hr6, hr⟩ := bind_eq_ok hr
  obtain ⟨_, h8, hsave, hr8⟩ := bind_eq_ok hr
  obtain ⟨audit, h1, hload, hr1⟩ := bind_eq_ok hprepare
  rw [run_get_bind] at hr1
  obtain ⟨staged, h2, hstage, hr2⟩ := bind_eq_ok hr1
  obtain ⟨bytes, h3, hbytes, hr3⟩ := bind_eq_ok hr2
  obtain ⟨e, h4, hcreate, hr4⟩ := bind_eq_ok hr3
  obtain ⟨keys, h5, hkeys, hr5⟩ := bind_eq_ok hr4
  obtain ⟨entry, _, hmac, hp⟩ := bind_eq_ok hr5
  rw [run_lift, Prod.mk.injEq] at hstage hbytes hkeys hmac
  obtain ⟨hstage, rfl⟩ := hstage
  obtain ⟨hbytes, rfl⟩ := hbytes
  obtain ⟨hkeys, rfl⟩ := hkeys
  obtain ⟨hmac, rfl⟩ := hmac
  cases hp
  rw [Prepared.append, run_get_bind] at hr6
  -- The log is the one that was opened, and the first key drawn is the first that was to come.
  obtain ⟨w, appends, hch, hhost, hseq, hlast, hlim⟩ := loadOrInit_eq_ok hload
  have hsync : InSync audit w := Or.inr ⟨hseq, hlast⟩
  have hf1 : h1.auditFile = some (h.auditFile.getD []) := by
    rw [hhost]
    rfl
  obtain ⟨ts, hts, hevent⟩ := hch.stageEvent_eq_ok hsync hf1 hstage
  have hat : staged.At none w := hch.stageEvent hsync (positioned_record createdRecord) hf1 hstage
  have hfits := stageEvent_fits hf1 hstage
  obtain ⟨keys', hnext, hnew, hquiet⟩ := Envelope.create_eq_ok hcreate
  obtain ⟨rng, syscalls, hh6⟩ := hquiet.eq
  have hk : keys = keys' := by
    have := Outcome.ofExcept_eq_ok hkeys
    rw [hnew.unlock] at this
    cases this
    rfl
  subst hk
  have hentry : entry.At (some (deriveAuditKey keys.mek)) w := by
    unfold StagedEntry.macWith at hmac
    rw [hat.prevHash, unhex_hex] at hmac
    cases hmac
    exact ⟨hat.seq, hat.prevHash, hat.hashHex, rfl⟩
  have hsame : entry.event = staged.event ∧ entry.hashHex = staged.hashHex := by
    unfold StagedEntry.macWith at hmac
    split at hmac <;> cases hmac
    exact ⟨rfl, rfl⟩
  have hf6 : h6.auditFile = some (h.auditFile.getD []) := by rw [hh6]; exact hf1
  have happ := AuditLog.appendStaged_run (h := h6) hentry hch hsync hf6
  rw [happ] at hr6
  dsimp only at hr6
  rw [run_modify_bind] at hr6
  obtain ⟨_, h7, hl, hq⟩ := bind_eq_ok hr6
  rw [run_lift, Prod.mk.injEq] at hl
  obtain ⟨hl, rfl⟩ := hl
  cases ha : h6.appends 0 with
  | stop k err =>
    rw [ha] at hl
    cases hl
  | ok =>
    rw [ha] at hl hq
    cases hq
    rw [Prepared.save, saveAtomic, run_step] at hsave
    dsimp only at hsave
    split at hsave
    · cases hsave
      rw [Prepared.session, run_get_bind] at hr8
      cases hr8
      refine ⟨⟨_, keys, deriveAuditKey keys.mek⟩, w, entry, rfl, rfl, hch, ?_, ?_, rfl, hentry, ⟨ts, ?_, ?_⟩, ?_,
        rfl, rfl, ⟨rfl, rfl, hlim⟩, ⟨bytes, docToVec_eq_ok hbytes, ?_⟩, ?_⟩
      · rw [hlim] at hfits
        exact hfits
      · rw [← hnext]
        exact Host.nextKey_congr (by rw [hhost]; rfl)
      · rw [hhost] at hts
        exact hts
      · rw [hsame.1, hevent]
        rfl
      · rw [hsame.1, hsame.2, hhost]
        rfl
      · rw [hhost] at hnew
        exact hnew
      · rw [hh6, hhost]
        rfl
    · cases hsave

/-- A creation sets the idle window, and opens no human session. -/
theorem create_session {passphrase : Bytes} {idleTimeout : Nat} {h h' : Host} {s : Session}
    (hr : (Session.create passphrase idleTimeout).run h = (.ok s, h')) : s.idleTimeout = idleTimeout ∧
    s.sessions = [] := by
  obtain ⟨_, _, -, hr⟩ := bind_eq_ok (create_written hr)
  iterate 2 obtain ⟨_, _, -, hr⟩ := bind_eq_ok hr
  rw [Prepared.session, run_get_bind] at hr
  cases hr
  exact ⟨rfl, rfl⟩

theorem create_idleTimeout {passphrase : Bytes} {idleTimeout : Nat} {h h' : Host} {s : Session}
    (hr : (Session.create passphrase idleTimeout).run h = (.ok s, h')) : s.idleTimeout = idleTimeout :=
    (create_session hr).1

/-! ## The vault file of a creation -/

section

variable {passphrase : Bytes} {h h' : Host} {s : Session} {u : Unlocked} {w : Walk} {entry : StagedEntry}

theorem Session.Created.wf [LawfulVaultJson] (hc : s.Created passphrase h h' u w entry) : s.envelope.Wf := by
  obtain ⟨b, hb, hnew⟩ := hc.envelope
  have hrange : Rfc3339Range h.wall := by
    have := LawfulVaultJson.doc_range hb
    rwa [hc.doc] at this
  obtain ⟨slot, hslots, hkind, -, -, hsalt, hnonce, hmek, hdn, hdw⟩ := hnew.fresh
  refine ⟨by rw [hnew.createdAt]; exact hrange, ?_, by rw [hnew.docCt]; omega⟩
  have hok : Envelope.slotOk slot = true := by simp [Envelope.slotOk, hkind, hsalt, hnonce, hmek]
  simp [Envelope.checkHeader, hslots, hok, hdn, hdw, MAX_SLOTS]

/-- A new vault is small: its document is as long as the number of its first entry has digits. -/
theorem Session.Created.persistable [LawfulVaultJson] (hc : s.Created passphrase h h' u w entry) :
    s.envelope.validatePersistable = .ok () := by
  obtain ⟨b, hb, hnew⟩ := hc.envelope
  have hrange : Rfc3339Range h.wall := by
    have := LawfulVaultJson.doc_range hb
    rwa [hc.doc] at this
  have hheader : (canonicalHeader s.envelope.header).length ≤ 4096 :=
    LawfulVaultJson.header_fresh hnew.fresh (by rw [hnew.createdAt]; exact hrange)
  have hseq : entry.event.seq ≤ AUDIT_SOFT_LIMIT := by
    have h1 := (foldlM_walkLine_seq hc.chain.walk).1
    have h2 := length_auditLines_le (h.auditFile.getD [])
    have h3 := hc.length_le
    rw [hc.staged.seq, h1]
    simp only [Walk.start]
    omega
  have hdoc : b.length ≤ 4096 + entry.event.seq := by
    rw [hc.doc] at hb
    refine LawfulVaultJson.doc_fresh ?_ hb
    rw [hc.staged.hashHex, utf8ByteSize_hex, (entryHash w.prev entry.event).2]
  have hct := hnew.docCt
  have hsoft : AUDIT_SOFT_LIMIT = 14680064 := by decide
  have hmax : MAX_FILE_LEN = 16777216 := by decide
  refine Envelope.validatePersistable_eq_ok.mpr ⟨by simp only [MAX_HEADER_LEN]; omega, ?_⟩
  have hlen : s.envelope.toBytes.length =
      MAGIC.length + 4 + 4 + (canonicalHeader s.envelope.header).length + NONCE_LEN + s.envelope.docCt.length := by
    simp only [Envelope.toBytes, List.length_append, length_toLe, s.envelope.docNonce.2]
  rw [hlen, hct]
  simp only [MAGIC, NONCE_LEN, TAG_LEN, List.length_cons, List.length_nil]
  omega

/-- The vault of a creation. -/
def Session.Created.vault (_ : s.Created passphrase h h' u w entry) : Vault := ⟨s.envelope.header, u.keys⟩

theorem Session.Created.seals [LawfulVaultJson] (hc : s.Created passphrase h h' u w entry) :
    hc.vault.Seals u.doc s.envelope := by
  obtain ⟨b, hb, hnew⟩ := hc.envelope
  exact ⟨rfl, hc.wf, b, hnew.openDocument, LawfulVaultJson.doc_roundtrip hb⟩

end

/-! ## Loading and unlocking -/

omit [Crypto] [VaultJson] [AuditJson] in
/-- Who can take the lock of the vault and ends well has it. -/
theorem holdingVault_of_free {α : Type} {m : Prog VaultError Host α} {h h' : Host} {a : α} (hcall : h.syscalls 0 = none)
    (ho : h.vaultOwned = false) (hr : m.run h.owning = (.ok a, h')) : (holdingVault m).run h = (.ok a, h') := by
  rw [holdingVault, run_bind, acquireVault_of_free hcall ho]
  dsimp only
  rw [run_bind, run_attempt, hr]
  rfl

/-- A vault file that can be read back, with an accepted log, is loaded if its lock can be taken. -/
theorem load_run [LawfulVaultJson] {h : Host} {e : Envelope} {content : Bytes} {w : Walk} (hcall : h.syscalls 0 = none)
    (hf : h.vaultFile = some e.toBytes) (ho : h.vaultOwned = false) (hw : e.Wf) (hv : e.validatePersistable = .ok ())
    (ha : h.auditFile = some content) (hch : Chain none content w) (idleTimeout : Nat) :
    (Session.load idleTimeout).run h = (.ok (Session.start e none ⟨w.seq, w.prev, .default⟩ h.mono idleTimeout),
      h.owning) := by
  have hwalk : walk none (some content) = .ok (w.report, w.prev) := walk_eq_ok.mpr ⟨content, w, rfl, hch, rfl, rfl⟩
  have hlen := (Envelope.validatePersistable_eq_ok.mp hv).2
  have hlog : AuditLog.loadOrInit.run h.owning = (.ok ⟨w.seq, w.prev, .default⟩, h.owning) := by
    rw [AuditLog.loadOrInit, run_get_bind, show h.owning.auditFile = some content from ha]
    dsimp only
    rw [run_bind, run_lift, hwalk]
    dsimp only
    rw [hch.entries]
    rfl
  refine holdingVault_of_free hcall ho ?_
  rw [readVault, run_get_bind, show h.owning.vaultFile = some e.toBytes from hf, run_bind, run_lift]
  dsimp only [Outcome.ofOption_some]
  rw [if_neg (by omega), run_bind, run_lift, Envelope.parse_toBytes hw hv]
  dsimp only [Outcome.ofExcept_ok]
  rw [run_bind, hlog]
  rfl

omit [VaultJson] [AuditJson] in
/-- A passphrase that unlocks an envelope is tried with the keys derived from it. -/
theorem unlock_eq_ok {e : Envelope} {passphrase : Bytes} {keys : Keys} (h : e.unlock passphrase = .ok keys) :
    ∃ recipe derived, e.kekRecipe = .ok recipe ∧ recipe.derive passphrase = .ok derived ∧
    e.unlockWith derived = .ok keys := by
  obtain ⟨recipe, hr, h⟩ := Except.bind_eq_ok h
  obtain ⟨derived, hd, h⟩ := Except.bind_eq_ok h
  exact ⟨recipe, derived, hr, hd, h⟩

/-- A vault that was unlocked was opened. -/
theorem unlockWithProof_eq_ok {derived : DerivedKeks} {s t : Sys} (h : (unlockWithProof derived).run s = (.ok (), t)) :
    ∃ u, openVault s.session.envelope derived s.host.auditFile = .ok u ∧ t.session.unlocked = some u := by
  obtain ⟨r, s1, h1, h⟩ := bind_eq_ok h
  rw [run_attempt, doUnlock, run_get_bind, run_bind, run_lift] at h1
  cases ho : openVault s.session.envelope derived s.host.auditFile with
  | ok u =>
    rw [ho] at h1
    cases h1
    refine ⟨u, rfl, ?_⟩
    dsimp only at h
    obtain ⟨_, s2, h2, h⟩ := bind_eq_ok h
    cases h
    have hrec := Keeps.ignore (auditRecordWith_recorded { actor := "human", op := "vault.unlocked",
                                                          decision := .allowed }
      .lifecycle) { s with session := ({ s.session with unlocked := some u }).rebuildAgentDigests }
    rw [← auditRecordLifecycle, h2] at hrec
    obtain ⟨l, f, q, rfl⟩ := hrec
    rfl
  | error e =>
    rw [ho] at h1
    cases h1
    dsimp only at h
    split at h
    · obtain ⟨_, _, _, h⟩ := bind_eq_ok h
      cases h
    · cases h
  | panic =>
    rw [ho] at h1
    cases h1

/-- A passphrase that unlocks the vault unlocks it with the keys derived from it. -/
theorem unlock_proof {passphrase : Bytes} {s t : Sys} (h : (unlock passphrase).run s = (.ok (), t)) :
    ∃ recipe derived, s.session.envelope.kekRecipe = .ok recipe ∧ recipe.derive passphrase = .ok derived ∧
      (unlockWithProof derived).run s = (.ok (), t) := by
  rw [unlock, run_get_bind] at h
  obtain ⟨derived, s1, hd, h⟩ := bind_eq_ok h
  rw [run_lift, Prod.mk.injEq] at hd
  obtain ⟨hd, rfl⟩ := hd
  obtain ⟨recipe, hr, hd⟩ := Except.bind_eq_ok (Outcome.ofExcept_eq_ok hd)
  exact ⟨recipe, derived, hr, hd, h⟩

theorem unlock_opens {passphrase : Bytes} {s t : Sys} (h : (unlock passphrase).run s = (.ok (), t)) :
    ∃ recipe derived u, s.session.envelope.kekRecipe = .ok recipe ∧ recipe.derive passphrase = .ok derived ∧
      openVault s.session.envelope derived s.host.auditFile = .ok u ∧ t.session.unlocked = some u := by
  obtain ⟨recipe, derived, hr, hd, h⟩ := unlock_proof h
  obtain ⟨u, hu, ht⟩ := unlockWithProof_eq_ok h
  exact ⟨recipe, derived, u, hr, hd, hu, ht⟩

omit [VaultJson] in
/-- An entry for a sound log is staged, or refused, -/
theorem Chain.stageEvent_ne_panic {key mac : Option SecretKey} {content : Bytes} {w : Walk} (hch : Chain key content w)
    {log : AuditLog} (hsync : InSync log w) {h : Host} (hf : h.auditFile = some content)
    {event : String → Nat → String → AuditEvent} {priority : Priority} :
    log.stageEvent event mac priority h ≠ .panic := by
  intro hst
  simp only [AuditLog.stageEvent, hf, hch.resync hsync, Outcome.ok_bind, AuditLog.timestamp] at hst
  split at hst
  · simp only [Outcome.ok_bind] at hst
    generalize hp : AuditLog.preflight _ _ _ priority = r at hst
    cases r <;> cases hst
  · cases hst

omit [VaultJson] in
/-- and an append to it does not panic. -/
theorem Chain.appendEvent_ne_panic {key mac : Option SecretKey} {content : Bytes} {w : Walk} (hch : Chain key content w)
    {log : AuditLog} (hsync : InSync log w) {h : Host} (hf : h.auditFile = some content)
    {event : String → Nat → String → AuditEvent} (hev : Positioned event) {priority : Priority} :
    ((AuditLog.appendEvent event mac priority).run (log, h)).1 ≠ .panic := by
  rw [AuditLog.appendEvent_run]
  cases hst : log.stageEvent event mac priority h with
  | ok s =>
    dsimp only
    rw [AuditLog.appendStaged_run (hch.stageEvent hsync hev hf hst) hch hsync hf]
    split <;> simp
  | error e => simp
  | panic => exact absurd hst (hch.stageEvent_ne_panic hsync hf)

omit [VaultJson] in
/-- A record of an accepted log may be lost, and that is all. -/
theorem auditRecordWith_ignore_run {key : Option SecretKey} {content : Bytes} {w : Walk} (hch : Chain key content w)
    {s : Sys} (hsync : InSync s.session.audit w) (hf : s.host.auditFile = some content) (record : Record)
    (priority : Priority) : ∃ t, (auditRecordWith record priority).ignore.run s = (.ok (), t) ∧ s.Recorded t := by
  have hne : ((auditRecordWith record priority).run s).1 ≠ .panic := by
    rw [auditRecordWith, run_get_bind, onAudit, run_zoom]
    exact hch.appendEvent_ne_panic hsync hf (positioned_record record)
  have hrec := Keeps.ignore (auditRecordWith_recorded record priority) s
  refine ⟨_, ?_, hrec⟩
  rw [run_ignore]
  rcases hr : (auditRecordWith record priority).run s with ⟨a | e | _, t⟩
  · rfl
  · rfl
  · rw [hr] at hne
    exact (hne rfl).elim

/-- An envelope that opens, under an accepted log that has the checkpoint of its document. -/
theorem openVault_ok {e : Envelope} {derived : DerivedKeks} {u : Unlocked} {content b : Bytes} {w : Walk}
    (hk : e.unlockWith derived = .ok u.keys) (hak : u.auditKey = deriveAuditKey u.keys.mek)
    (hch : Chain (some u.auditKey) content w) (hdoc : e.openDocument u.keys = .ok b)
    (hb : VaultJson.docFromSlice b = .ok u.doc)
    (hcheck : checkCheckpoint (some content) u.doc.auditHead.seq u.doc.auditHead.hash = .ok ()) :
    openVault e derived (some content) = .ok u := by
  obtain ⟨r, hv⟩ := hch.verify
  rw [openVault, hk]
  dsimp only [Outcome.ofExcept_ok, Outcome.ok_bind]
  rw [← hak, hv]
  dsimp only
  rw [hdoc]
  dsimp only [Outcome.ofExcept_ok, Outcome.ok_bind]
  rw [hb]
  dsimp only
  rw [hcheck]
  rfl

/-- The record of an unlock. -/
def unlockedRecord : Record := { actor := "human", op := "vault.unlocked", decision := .allowed }

/-- Keys that open the vault unlock it. -/
theorem unlock_runs {passphrase : Bytes} {recipe : KekRecipe} {derived : DerivedKeks} {s t : Sys} {u : Unlocked}
    (hr : s.session.envelope.kekRecipe = .ok recipe) (hd : recipe.derive passphrase = .ok derived)
    (ho : openVault s.session.envelope derived s.host.auditFile = .ok u)
    (hrec : (auditRecordWith unlockedRecord .lifecycle).ignore.run
      { s with session := ({ s.session with unlocked := some u }).rebuildAgentDigests } = (.ok (), t)) :
    (unlock passphrase).run s = (.ok (), { t with session := { t.session with lastActivity := t.host.mono } }) := by
  have hdo : (doUnlock derived).run s =
      (.ok (), { s with session := ({ s.session with unlocked := some u }).rebuildAgentDigests }) := by
    rw [doUnlock, run_get_bind, run_bind, run_lift, ho]
    rfl
  have hderive : (do
      let recipe ← s.session.envelope.kekRecipe
      recipe.derive passphrase : Except VaultError DerivedKeks) = .ok derived := by
    rw [hr]
    exact hd
  rw [unlock, run_get_bind, run_bind, run_lift, hderive]
  dsimp only [Outcome.ofExcept_ok]
  rw [unlockWithProof, run_bind, run_attempt, hdo]
  dsimp only
  rw [run_bind, show (auditRecordLifecycle { actor := "human", op := "vault.unlocked", decision := .allowed }) =
    auditRecordWith unlockedRecord .lifecycle from rfl, hrec]
  rfl

/-- A coherent vault is unlocked by its passphrase. -/
theorem unlock_run {passphrase : Bytes} {s : Sys} {u : Unlocked} {content b : Bytes} {w : Walk}
    (hkeys : s.session.envelope.unlock passphrase = .ok u.keys) (hak : u.auditKey = deriveAuditKey u.keys.mek)
    (hf : s.host.auditFile = some content) (hch : Chain (some u.auditKey) content w) (hsync : InSync s.session.audit w)
    (hdoc : s.session.envelope.openDocument u.keys = .ok b) (hb : VaultJson.docFromSlice b = .ok u.doc)
    (hcheck : checkCheckpoint (some content) u.doc.auditHead.seq u.doc.auditHead.hash = .ok ()) :
    ∃ t, (unlock passphrase).run s = (.ok (), t) ∧ t.session.unlocked = some u := by
  obtain ⟨recipe, derived, hr, hd, hk⟩ := unlock_eq_ok hkeys
  obtain ⟨t, hrec, ht⟩ := auditRecordWith_ignore_run hch
    (s := { s with session := ({ s.session with unlocked := some u }).rebuildAgentDigests }) hsync hf unlockedRecord
    .lifecycle
  refine ⟨_, unlock_runs hr hd (by rw [hf]; exact openVault_ok hk hak hch hdoc hb hcheck) hrec, ?_⟩
  obtain ⟨l, f, q, rfl⟩ := ht
  rfl

end

end SecretsVault
