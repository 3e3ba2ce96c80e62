import SecretsVault.Commits
import SecretsVault.Lib.Copies

/-!
# Where the document is

The document of a vault is in memory, sealed in the envelope of the session, and in the vault file. `Vault.View` says
what the three copies are. Acts are changes of the copies (`Act.view`), and so are calls (`Call.view`) and the steps of
a run (`Vault.Holds.next`): what is proved of `Copies.Changes` holds of the vault.

The header of the file and the keys never change. `Vault.Honest derived` is what the vault relies on at an unlock: keys
derived from a passphrase open a slot to the keys of the vault, or not at all.
-/

namespace SecretsVault

open Lib Lib.Prog Lib.Copies Host

/-- What never changes of a vault. -/
structure Vault where
  header : Header
  keys : Keys

section

variable [Crypto] [VaultJson]

/-- Derived keys that open a slot of the vault open it to the keys of the vault. -/
def Vault.Honest (v : Vault) (derived : DerivedKeks) : Prop :=
  ∀ e : Envelope, e.header = v.header → ∀ k, e.unlockWith derived = .ok k → k = v.keys

/-- The envelope is one of the vault, and the document is sealed in it. -/
structure Vault.Seals (v : Vault) (d : VaultDocument) (e : Envelope) : Prop where
  header : e.header = v.header
  wf : e.Wf
  holds : ∃ b, e.openDocument v.keys = .ok b ∧ VaultJson.docFromSlice b = .ok d

/-- The copies of the document in a session and on its host. -/
structure Vault.View (v : Vault) (s : Sys) (c : Copies VaultDocument) : Prop where
  memory : s.session.document = c.memory
  keys : ∀ u, s.session.unlocked = some u → u.keys = v.keys ∧ u.auditKey = deriveAuditKey v.keys.mek
  «sealed» : v.Seals c.sealed s.session.envelope
  stored : ∃ e, s.host.vaultFile = some e.toBytes ∧ v.Seals c.stored e

/-- The document in the vault file of a host. -/
def Vault.Stored (v : Vault) (h : Host) (d : VaultDocument) : Prop := ∃ e, h.vaultFile = some e.toBytes ∧ v.Seals d e

omit [Crypto] in
theorem docToVec_eq_ok {d : VaultDocument} {b : Bytes} (h : docToVec d = .ok b) : VaultJson.docToVec d = .ok b := by
  unfold docToVec at h
  split at h <;> cases h
  assumption

variable {v : Vault} {s : Sys} {c : Copies VaultDocument}

/-- One envelope seals one document. -/
theorem Vault.Seals.inj {d d' : VaultDocument} {e : Envelope} (h : v.Seals d e) (h' : v.Seals d' e) : d = d' := by
  obtain ⟨b, hb, hd⟩ := h.holds
  obtain ⟨b', hb', hd'⟩ := h'.holds
  rw [hb] at hb'
  cases hb'
  rw [hd] at hd'
  cases hd'
  rfl

theorem Vault.Seals.reseal [LawfulCrypto] [LawfulVaultJson] {d doc : VaultDocument} {e : Envelope} (h : v.Seals d e)
    {bytes : Bytes} (hb : docToVec doc = .ok bytes) (nonce : Nonce) : v.Seals doc (e.reseal bytes v.keys nonce) :=
  ⟨h.header, h.wf.reseal _ _ _, bytes, e.openDocument_reseal _ _ _, LawfulVaultJson.doc_roundtrip (docToVec_eq_ok hb)⟩

theorem Vault.View.document_eq {u : Unlocked} (h : v.View s c) (hu : s.session.unlocked = some u) :
    c.memory = some u.doc := by
  rw [← h.memory, Session.document, hu]
  rfl

theorem Vault.View.unlocked_eq {d : VaultDocument} (h : v.View s c) (hd : c.memory = some d) :
    ∃ u, s.session.unlocked = some u ∧ u.doc = d := by
  have := h.memory
  rw [hd, Session.document, Option.map_eq_some_iff] at this
  exact this

/-- What is the same in two states has the same copies. -/
theorem Vault.View.congr {t : Sys} (h : v.View s c) (hu : t.session.unlocked = s.session.unlocked)
    (he : t.session.envelope = s.session.envelope) (hf : t.host.vaultFile = s.host.vaultFile) : v.View t c := by
  refine ⟨?_, ?_, ?_, ?_⟩
  · rw [Session.document, hu]
    exact h.memory
  · rw [hu]
    exact h.keys
  · rw [he]
    exact h.sealed
  · rw [hf]
    exact h.stored

end

/-! ## Acts are changes of the copies -/

section

variable [Crypto] [VaultJson] [AuditJson]

/-- The changes that some rights come to. -/
def Rights.copies (p : Rights) (now : OffsetDateTime) : Copies.Rights VaultDocument :=
  { commits := fun d => ∃ a head, p.commits a ∧ d = a.doc.withHead head
    cuts := fun m d => ∃ a head t, p.commits a ∧ a.state.session.document = some m ∧ d = a.doc.withHead head ∧
      (recordCommit a.record a.priority).run a.state = (.ok head, t) ∧ ¬a.state.Fits d
    edits := fun m m' => p.upkeep ∧ m' = purgeTerminal m now
    flushes := p.upkeep
    opens := ∃ derived, p.unlocks derived
    locks := p.locks }

/-- What a vault is opened to. -/
theorem openVault_eq_ok {e : Envelope} {derived : DerivedKeks} {auditFile : Option Bytes} {u : Unlocked}
    (h : openVault e derived auditFile = .ok u) : e.unlockWith derived = .ok u.keys ∧
      u.auditKey = deriveAuditKey u.keys.mek ∧ (∃ r, AuditLog.verify (some u.auditKey) auditFile = .ok r) ∧
      (∃ b, e.openDocument u.keys = .ok b ∧ VaultJson.docFromSlice b = .ok u.doc) ∧
      checkCheckpoint auditFile u.doc.auditHead.seq u.doc.auditHead.hash = .ok () := by
  obtain ⟨keys, hk, h⟩ := Outcome.bind_eq_ok h
  dsimp only at h
  split at h
  · cases h
  · cases h
  · rename_i r hr
    obtain ⟨b, hb, h⟩ := Outcome.bind_eq_ok h
    split at h
    · cases h
    · rename_i doc hdoc
      obtain ⟨_, hcheck, h⟩ := Outcome.bind_eq_ok h
      cases h
      exact ⟨Outcome.ofExcept_eq_ok hk, rfl, ⟨r, hr⟩, ⟨b, Outcome.ofExcept_eq_ok hb, hdoc⟩, hcheck⟩

variable [LawfulCrypto] [LawfulVaultJson] {p : Rights} {v : Vault} {s t : Sys} {c : Copies VaultDocument}

omit [AuditJson] in
/-- A document that was sealed and not stored. -/
theorem Vault.View.cut (hv : v.View s c) {u : Unlocked} (hu : s.session.unlocked = some u) {doc : VaultDocument}
    {bytes : Bytes} (hb : docToVec doc = .ok bytes) {nonce : Nonce}
    (he : t.session.envelope = s.session.envelope.reseal bytes u.keys nonce)
    (hm : t.session.unlocked = s.session.unlocked)
    (hf : t.host.vaultFile = s.host.vaultFile) : v.View t ⟨c.memory, doc, c.stored⟩ := by
  refine ⟨?_, ?_, ?_, ?_⟩
  · rw [Session.document, hm]
    exact hv.memory
  · rw [hm]
    exact hv.keys
  · rw [he, (hv.keys u hu).1]
    exact hv.sealed.reseal hb nonce
  · rw [hf]
    exact hv.stored

omit [AuditJson] in
/-- A document that was sealed, stored and adopted. -/
theorem Vault.View.landed (hv : v.View s c) {u : Unlocked} (hu : s.session.unlocked = some u) {doc : VaultDocument}
    {bytes : Bytes} (hb : docToVec doc = .ok bytes) {nonce : Nonce}
    (he : t.session.envelope = s.session.envelope.reseal bytes u.keys nonce)
    (hm : t.session.unlocked = some { u with doc })
    (hf : t.host.vaultFile = some (s.session.envelope.reseal bytes u.keys nonce).toBytes) :
    v.View t ⟨some doc, doc, doc⟩ := by
  have hkeys := hv.keys u hu
  have hseal := hv.sealed.reseal hb nonce
  rw [← hkeys.1] at hseal
  refine ⟨by rw [Session.document, hm]; rfl, fun u' hu' => ?_, by rw [he]; exact hseal, _, hf, hseal⟩
  rw [hm] at hu'
  cases hu'
  exact hkeys

/-- An act keeps the clock, and is a change of the copies or none. -/
theorem Act.view (h : Act p s t) (hv : v.View s c) (honest : ∀ derived, p.unlocks derived → v.Honest derived) :
    t.host.wall = s.host.wall ∧ ∃ c', v.View t c' ∧ Changes (p.copies s.host.wall) c c' := by
  cases h with
  | append hev hmac =>
    obtain ⟨l, f, q, ht⟩ := onAudit_recorded (appendEvent_auditOnly _ _ _) s
    rw [ht]
    exact ⟨rfl, c, hv.congr rfl rfl rfl, .refl⟩
  | host hh _ =>
    obtain ⟨fs, rng, syscalls, rfl⟩ := hh.eq
    exact ⟨rfl, c, hv.congr rfl rfl rfl, .refl⟩
  | @commit doc record priority hc =>
    generalize hr : (commitWith doc record priority).run s = r
    obtain ⟨o, t⟩ := r
    cases commitWith_ends hr with
    | refused => exact ⟨rfl, c, hv.congr rfl rfl rfl, .refl⟩
    | @cut e u head bytes nonce _ _ _ _ _ hu hrec hb hn hcut =>
      refine ⟨rfl, ⟨c.memory, doc.withHead head, c.stored⟩, hv.cut hu hb rfl rfl rfl, .single (.cut (hv.document_eq hu)
        ⟨_, head, hc, rfl⟩ ⟨_, head, _, hc, by rw [Session.document, hu]; rfl, rfl, hrec, fun hfits => ?_⟩)⟩
      obtain ⟨hsave, hfit⟩ := hfits _ hb hn
      rcases hcut with hcut | hcut
      · exact hcut (hfit _ _)
      · exact hcut hsave
    | @landed u head bytes nonce _ _ _ _ _ hu hrec hb hval _ =>
      exact ⟨rfl, ⟨some (doc.withHead head), doc.withHead head, doc.withHead head⟩, hv.landed hu hb rfl rfl rfl,
        .single (.commit ⟨_, head, hc, rfl⟩)⟩
  | lock hl =>
    exact ⟨rfl, ⟨none, c.sealed, c.stored⟩, ⟨rfl, fun _ hu => (nomatch hu), hv.sealed, hv.stored⟩, .single (.lock hl)⟩
  | table _ _ => exact ⟨rfl, c, hv.congr rfl rfl rfl, .refl⟩
  | clock _ _ _ _ => exact ⟨rfl, c, hv.congr rfl rfl rfl, .refl⟩
  | limits _ _ => exact ⟨rfl, c, hv.congr rfl rfl rfl, .refl⟩
  | @unlock derived u hd hu =>
    obtain ⟨hkeys, hakey, -, ⟨b, hb, hdoc⟩, -⟩ := openVault_eq_ok hu
    have hk := honest derived hd _ hv.sealed.header _ hkeys
    have hdoc' : u.doc = c.sealed := by
      rw [hk] at hb
      exact Vault.Seals.inj (v := v) ⟨hv.sealed.header, hv.sealed.wf, b, hb, hdoc⟩ hv.sealed
    refine ⟨rfl, ⟨some c.sealed, c.sealed, c.stored⟩, ⟨by rw [← hdoc']; rfl, ?_, hv.sealed, hv.stored⟩,
      .single (.unlock ⟨derived, hd⟩)⟩
    intro u' hu'
    cases hu'
    exact ⟨hk, by rw [hakey, hk]⟩
  | @sweep u hp hu =>
    refine ⟨rfl, ⟨some (purgeTerminal u.doc s.host.wall), c.sealed, c.stored⟩,
      ⟨rfl, fun u' hu' => by cases hu'; exact hv.keys u hu, hv.sealed, hv.stored⟩,
      .single (.edit (hv.document_eq hu) ⟨hp, rfl⟩)⟩
  | @store u hp hu =>
    generalize hr : (storeAsIs u).run s = r
    obtain ⟨o, t⟩ := r
    have hkeys := (hv.keys u hu).1
    cases storeAsIs_ends hr with
    | refused => exact ⟨rfl, c, hv.congr rfl rfl rfl, .refl⟩
    | @cut e bytes nonce _ _ hb _ _ =>
      refine ⟨rfl, ⟨c.memory, u.doc, c.stored⟩, ⟨hv.memory, hv.keys, ?_, hv.stored⟩,
        .single (.reseal hp (hv.document_eq hu))⟩
      rw [hkeys]
      exact hv.sealed.reseal hb nonce
    | @stored bytes nonce _ _ hb _ _ =>
      have hseal := hv.sealed.reseal hb nonce
      rw [← hkeys] at hseal
      exact ⟨rfl, ⟨c.memory, u.doc, u.doc⟩, ⟨hv.memory, hv.keys, hseal, _, rfl, hseal⟩,
        .single (.flush hp (hv.document_eq hu))⟩

theorem Acts.view (h : Acts p s t) (hv : v.View s c) (honest : ∀ derived, p.unlocks derived → v.Honest derived) :
    t.host.wall = s.host.wall ∧ ∃ c', v.View t c' ∧ Changes (p.copies s.host.wall) c c' := by
  induction h with
  | refl => exact ⟨rfl, c, hv, .refl⟩
  | tail _ ha ih =>
    obtain ⟨hw, c1, hv1, hc1⟩ := ih
    obtain ⟨hw2, c2, hv2, hc2⟩ := ha.view hv1 honest
    rw [hw] at hw2 hc2
    exact ⟨hw2, c2, hv2, hc1.trans hc2⟩

/-- A call is a sequence of changes of the copies. -/
theorem Call.view {α : Type} (call : Call α) (hv : v.View s c)
    (honest : ∀ derived, call.Tries s.session.envelope derived → v.Honest derived) :
    ∃ c', v.View (call.exec.run s).2 c' ∧ Changes ((call.rights s).copies s.host.wall) c c' :=
  ((call.acts s).view hv honest).2

end

/-! ## Steps of a run -/

/-- Who holds the vault either runs with it or gives it back. -/
theorem holdingVault_eq_ok {α : Type} {m : Prog VaultError Host α} {h h' : Host} {a : α}
    (hr : (holdingVault m).run h = (.ok a, h')) : m.run h.owning = (.ok a, h') := by
  obtain ⟨_, h1, hacq, hr⟩ := bind_eq_ok hr
  obtain ⟨e, hfails, -⟩ | ⟨-, -, htaken⟩ := acquireVault_cases h
  · rw [hfails] at hacq
    cases hacq
  · rw [htaken] at hacq
    cases hacq
    obtain ⟨r, h2, hm, hr⟩ := bind_eq_ok hr
    rw [run_attempt] at hm
    rcases hk : m.run h.owning with ⟨b | e | _, h3⟩
    · rw [hk] at hm
      cases hm
      cases hr
      rfl
    · rw [hk] at hm
      cases hm
      cases hr
    · rw [hk] at hm
      cases hm

/-- The vault file is the same, and so is an audit log that is there. -/
structure SameFile (h h' : Host) : Prop where
  vaultFile : h'.vaultFile = h.vaultFile
  auditFile : ∀ content, h.auditFile = some content → h'.auditFile = some content ∧ h'.appends = h.appends

theorem SameFile.refl (h : Host) : SameFile h h := ⟨rfl, fun _ hc => ⟨hc, rfl⟩⟩

theorem SameFile.trans {a b c : Host} (h : SameFile a b) (h' : SameFile b c) : SameFile a c := by
  refine ⟨h'.vaultFile.trans h.vaultFile, fun content hc => ?_⟩
  obtain ⟨hb, hp⟩ := h.auditFile content hc
  obtain ⟨hc, hp'⟩ := h'.auditFile content hb
  exact ⟨hc, hp'.trans hp⟩

instance : IsPreorder Host SameFile := { refl := SameFile.refl, trans := fun _ _ _ => SameFile.trans }

/-- Who owns the vault is not in its files. -/
theorem sameFile_owned (h : Host) (vaultOwned : Bool) : SameFile h { h with vaultOwned } := ⟨rfl, fun _ hc => ⟨hc, rfl⟩⟩

/-- What the next file-system call answers is not in the files. -/
theorem sameFile_called (h : Host) : SameFile h h.called := ⟨rfl, fun _ hc => ⟨hc, rfl⟩⟩

theorem holdingVault_sameFile {α : Type} {m : Prog VaultError Host α} (hm : Keeps SameFile m) :
    Keeps SameFile (holdingVault m) := by
  have hacq : Keeps SameFile acquireVault := by
    intro h
    obtain ⟨e, hfails, -⟩ | ⟨-, -, htaken⟩ := acquireVault_cases h
    · rw [hfails]
      exact sameFile_called h
    · rw [htaken]
      exact (sameFile_called h).trans (sameFile_owned _ true)
  refine hacq.bind fun _ => hm.attempt.bind fun r => ?_
  split
  · exact keeps_pure _
  · exact Keeps.bind (keeps_modify fun h => sameFile_owned h false) fun _ => keeps_fail _

theorem loadOrInit_sameFile [Crypto] [AuditJson] : Keeps SameFile AuditLog.loadOrInit := by
  intro h
  rw [AuditLog.loadOrInit, run_get_bind]
  cases hf : h.auditFile with
  | none =>
    have hcreate : KeepsAt SameFile createAudit h := by
      refine ⟨?_, fun content hc => by rw [hf] at hc; cases hc⟩
      rw [createAudit, run_step]
      dsimp only
      split <;> rfl
    exact hcreate.bind fun _ t _ => (keeps_pure _).at t
  | some content => exact ((keeps_lift _).bind fun _ => keeps_pure _ : Keeps SameFile _) h

section

variable [VaultJson]

/-- An envelope that was read back from its own bytes is the same. -/
theorem Envelope.parse_toBytes_inj [LawfulVaultJson] {e e' : Envelope} (hw : e.Wf)
    (h : Envelope.parse e.toBytes = .ok e') : e' = e := by
  have hv : e.validatePersistable = .ok () := by
    have hd10 : e.toBytes.drop (MAGIC.length + 4) = toLe 4 ((canonicalHeader e.header).length % 2 ^ 32) ++
        (canonicalHeader e.header ++ (e.docNonce.1 ++ e.docCt)) := by
      have : e.toBytes = (MAGIC ++ toLe 4 VERSION) ++ (toLe 4 ((canonicalHeader e.header).length % 2 ^ 32) ++
          (canonicalHeader e.header ++ (e.docNonce.1 ++ e.docCt))) := by simp [Envelope.toBytes]
      rw [this, List.drop_left' (by simp)]
    have hlen : (canonicalHeader e.header).length ≤ e.toBytes.length := by
      simp only [Envelope.toBytes, List.length_append]
      omega
    unfold Envelope.parse at h
    split at h; · cases h
    split at h; · cases h
    rename_i hfile
    iterate 2 split at h; · cases h
    extract_lets headerLen rest at h
    split at h; · cases h
    rename_i hheader
    have hmod : (canonicalHeader e.header).length % 2 ^ 32 = (canonicalHeader e.header).length := by
      simp only [MAX_FILE_LEN] at hfile
      omega
    have : headerLen = (canonicalHeader e.header).length := by
      simp only [headerLen, hd10, List.take_left' (length_toLe 4 _)]
      rw [fromLe_toLe _ _ (by omega), hmod]
    rw [this] at hheader
    exact validatePersistable_eq_ok.mpr ⟨by omega, by omega⟩
  rw [Envelope.parse_toBytes hw hv] at h
  cases h
  rfl

end

section

variable [Crypto] [VaultJson] [AuditJson]

/-- The copies of the document in a world. Without a process only the stored one counts. -/
structure Vault.Holds (v : Vault) (w : World) (c : Copies VaultDocument) : Prop where
  stored : ∃ e, w.host.vaultFile = some e.toBytes ∧ v.Seals c.stored e
  session : ∀ s, w.session = some s → v.View ⟨s, w.host⟩ c

/-- What the vault relies on at a step. -/
def Step.Honest (v : Vault) (w : World) (st : Step) : Prop :=
  match st.input with
  | .call call => ∀ s, w.sys st.conditions = some s → ∀ derived, call.Tries s.session.envelope derived →
      v.Honest derived
  | .restart _ => True

/-- What a step makes of the copies. -/
inductive World.Turn (w : World) (st : Step) (c : Copies VaultDocument) : Copies VaultDocument → Prop
  /-- There is no process, or none could be started. -/
  | none (hn : (w.next st).session = none) : Turn w st c c
  | call {α : Type} {call : Call α} {s : Sys} {c' : Copies VaultDocument} (hi : st.input = .call call)
      (hs : w.sys st.conditions = some s) (hw : w.next st = World.ran (call.exec.run s))
      (hc : Changes ((call.rights s).copies st.conditions.wall) c c') : Turn w st c c'
  | restart {idleTimeout : Nat} (hi : st.input = .restart idleTimeout) : Turn w st c c.reload

/-- Loading reads the vault file and leaves it as it is. -/
theorem load_sameFile (idleTimeout : Nat) : Keeps SameFile (Session.load idleTimeout) := by
  refine holdingVault_sameFile (keeps_get.bind fun h => (keeps_lift _).bind fun bytes => ?_)
  split
  · exact keeps_fail _
  · exact (keeps_lift _).bind fun _ => loadOrInit_sameFile.bind fun _ => keeps_get.bind fun _ => keeps_pure _

/-- A process that was started has the envelope of the vault file, locked. -/
theorem load_eq_ok {idleTimeout : Nat} {h h' : Host} {s : Session}
    (hr : (Session.load idleTimeout).run h = (.ok s, h')) :
    ∃ bytes audit now, h.vaultFile = some bytes ∧ Envelope.parse bytes = .ok s.envelope ∧
      AuditLog.loadOrInit.run h.owning = (.ok audit, h') ∧ s = Session.start s.envelope none audit now idleTimeout := by
  have hr := holdingVault_eq_ok hr
  rw [readVault, run_get_bind] at hr
  obtain ⟨bytes, h1, hb, hr⟩ := bind_eq_ok hr
  rw [run_lift, Prod.mk.injEq] at hb
  split at hr
  · cases hr
  · obtain ⟨e, h2, he, hr⟩ := bind_eq_ok hr
    rw [run_lift, Prod.mk.injEq] at he
    obtain ⟨audit, h3, ha, hr⟩ := bind_eq_ok hr
    rw [run_get_bind] at hr
    cases hr
    obtain ⟨hb, rfl⟩ := hb
    obtain ⟨he, rfl⟩ := he
    exact ⟨bytes, audit, _, Outcome.ofOption_eq_ok hb, Outcome.ofExcept_eq_ok he, ha, rfl⟩

variable [LawfulCrypto] [LawfulVaultJson] {v : Vault} {w : World} {c : Copies VaultDocument}

omit [AuditJson] [LawfulCrypto] [LawfulVaultJson] in
theorem Vault.Holds.view (h : v.Holds w c) {cond : Conditions} {s : Sys} (hs : w.sys cond = some s) : v.View s c := by
  exact (h.session s.session (World.session_of_sys hs)).congr rfl rfl (World.vaultFile_of_sys hs)

omit [AuditJson] [LawfulCrypto] [LawfulVaultJson] in
/-- A world after a program has the copies of the state it ended in. -/
theorem holds_ran {α : Type} {r : Outcome VaultError α × Sys} (h : v.View r.2 c) : v.Holds (World.ran r) c := by
  unfold World.ran
  split
  · exact ⟨h.stored, fun _ hs => nomatch hs⟩
  · refine ⟨h.stored, fun s hs => ?_⟩
    cases hs
    exact h

/-- A step of a run is a turn of the copies. -/
theorem Vault.Holds.next (h : v.Holds w c) {st : Step} (honest : st.Honest v w) :
    ∃ c', v.Holds (w.next st) c' ∧ w.Turn st c c' := by
  rcases hst : st with ⟨conditions, input⟩
  cases input with
  | @call α call =>
    subst hst
    cases hs : w.sys conditions with
    | none =>
      have hnone : w.session = none := by simpa [World.sys] using hs
      have hw : w.next ⟨conditions, .call call⟩ = { w with host := w.host.under conditions } := World.next_of_none hs
      refine ⟨c, ?_, .none (by rw [hw]; exact hnone)⟩
      rw [hw]
      exact ⟨h.stored, fun s hs' => by rw [hnone] at hs'; cases hs'⟩
    | some s =>
      have hw : w.next ⟨conditions, .call call⟩ = World.ran (call.exec.run s) := World.next_of_sys hs
      have hwall := World.wall_of_sys hs
      have hview : v.View s c := h.view hs
      obtain ⟨c', hv', hc⟩ := call.view hview (honest s hs)
      rw [hwall] at hc
      refine ⟨c', ?_, .call rfl hs hw hc⟩
      rw [hw]
      exact holds_ran hv'
  | restart idleTimeout =>
    subst hst
    have hsame := load_sameFile idleTimeout ((w.host.under conditions).releaseVault)
    obtain ⟨e, hf, hseal⟩ := h.stored
    have hfile : (w.host.under conditions).releaseVault.vaultFile = some e.toBytes := hf
    rcases hr : (Session.load idleTimeout).run ((w.host.under conditions).releaseVault) with ⟨s | e' | _, h'⟩
    · have hw : w.next ⟨conditions, .restart idleTimeout⟩ = ⟨some s, h'⟩ := by simp only [World.next, hr]
      rw [hr] at hsame
      obtain ⟨bytes, audit, now, hb, hparse, -, hstart⟩ := load_eq_ok hr
      rw [hfile] at hb
      cases hb
      have he := Envelope.parse_toBytes_inj hseal.wf hparse
      refine ⟨c.reload, ?_, .restart rfl⟩
      rw [hw]
      have hstored : ∃ e, h'.vaultFile = some e.toBytes ∧ v.Seals c.stored e := ⟨e, hsame.vaultFile.trans hfile, hseal⟩
      refine ⟨hstored, fun s' hs' => ?_⟩
      cases hs'
      rw [hstart, he]
      refine ⟨rfl, fun _ hu => ?_, hseal, hstored⟩
      cases hu
    all_goals
      rw [hr] at hsame
      have hw : w.next ⟨conditions, .restart idleTimeout⟩ = ⟨none, h'⟩ := by simp only [World.next, hr]
      refine ⟨c, ?_, .none (by rw [hw])⟩
      rw [hw]
      refine ⟨⟨e, hsame.vaultFile.trans hfile, hseal⟩, fun _ hs' => ?_⟩
      cases hs'

end

end SecretsVault
