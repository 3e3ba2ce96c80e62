import SecretsVault.Progress

/-!
# Runs on the reference environment

`Reference.Stands v c n w` says that a process is live on the files of the vault, that its copies of the document are
those of `c` up to their checkpoints, and that the log has at most `n` entries. Each step is followed from one such
world to the next:

- `Stands.mutate`, `Stands.refuses`, `Stands.cut`: a mutation lands, is refused because its entry cannot be written, or
  is cut at its save.
- `Stands.lock`, `Stands.lockCut`, `Stands.lockUnsealed`: a lock lands, is cut, or is dropped before it is sealed.
- `Stands.unlock`, `Stands.restart`: the sealed copy is opened, and a new process starts from the stored one.
- `Stands.enroll`, `Stands.takeLease`: a human enrols an agent and grants it something, and the agent takes a lease.
-/

namespace SecretsVault

open Lib Lib.Prog Lib.Copies Host

namespace Reference

open Code

/-! ## Sizes -/

/-- The document is small apart from its checkpoint, and its instants can be written. -/
def Compact (d : VaultDocument) : Prop :=
  (∀ t ∈ instants d, Rfc3339Range t) ∧ (document.enc { d with auditHead := ⟨0, ""⟩ }).length ≤ 65536

instance (d : VaultDocument) : Decidable (Compact d) := by unfold Compact; infer_instance

/-- A checkpoint among the first `n` entries. -/
structure Within (n : Nat) (head : AuditHead) : Prop where
  hash : head.hash.utf8ByteSize = 64
  seq : head.seq ≤ n

theorem Within.mono {n m : Nat} {head : AuditHead} (h : Within n head) (hn : n ≤ m) : Within m head :=
  ⟨h.hash, h.seq.trans hn⟩

theorem length_withHead (d : VaultDocument) (head : AuditHead) : (document.enc { d with auditHead := head }).length ≤
    (document.enc { d with auditHead := ⟨0, ""⟩ }).length + (head.seq + 8 * head.hash.utf8ByteSize + 2) := by
  have h1 := length_nat_le head.seq
  have h2 := length_string head.hash
  simp only [document, auditHead, imap, pair, List.length_append]
  omega

/-- A compact document can be written. -/
theorem Compact.docToVec {d : VaultDocument} (h : Compact d) {n : Nat} {head : AuditHead} (hh : Within n head) :
    ∃ b, docToVec (d.withHead (some head)) = .ok b ∧ b.length ≤ 66050 + n := by
  have hok : VaultJson.docToVec (d.withHead (some head)) = .ok (document.enc (d.withHead (some head))) := if_pos h.1
  refine ⟨document.enc (d.withHead (some head)), by rw [SecretsVault.docToVec, hok], ?_⟩
  have h1 := length_withHead d head
  have h2 := h.2
  have h3 := hh.hash
  have h4 := hh.seq
  change (document.enc { d with auditHead := head }).length ≤ _
  omega

/-- A small document under a small header can be read back. -/
theorem persistable {e : Envelope} (he : (canonicalHeader e.header).length ≤ 4096) {b : Bytes} (hb : b.length ≤ 1000000)
    (keys : Keys) (nonce : Nonce) : (e.reseal b keys nonce).validatePersistable = .ok () := by
  rw [Envelope.validatePersistable_eq_ok]
  have hct : (e.reseal b keys nonce).docCt.length = b.length + TAG_LEN := LawfulCrypto.length_seal _ _ _ _
  have hlen : (e.reseal b keys nonce).toBytes.length =
      MAGIC.length + 4 + 4 + (canonicalHeader e.header).length + NONCE_LEN + (b.length + TAG_LEN) := by
    rw [← hct]
    simp only [Envelope.toBytes, List.length_append, length_toLe, (e.reseal b keys nonce).docNonce.2]
    rfl
  have hmagic : MAGIC.length = 6 := rfl
  refine ⟨?_, ?_⟩
  · change (canonicalHeader e.header).length ≤ _
    simp only [MAX_HEADER_LEN]
    omega
  · rw [hlen, hmagic]
    simp only [NONCE_LEN, TAG_LEN, MAX_FILE_LEN]
    omega

/-! ## Recording -/

section

variable {v : Vault} {n : Nat} {s : Sys} {record : Record} (priority : Priority)

/-- The log has at most `n` entries. -/
def Bounded (v : Vault) (n : Nat) (auditFile : Option Bytes) : Prop :=
  ∀ content x, auditFile = some content → Chain (some (deriveAuditKey v.keys.mek)) content x →
    content.length ≤ 4096 * n ∧ x.seq ≤ n

/-- A small record fits into a small log. -/
theorem fits {content : Bytes} {x : Walk} (hl : s.session.audit.limits = .default) (hlen : content.length ≤ 4096 * n)
    (hseq : x.seq ≤ n) (hn : n < 100) (hr : Brief record) :
    Fits s.session.audit content x record priority "1970-01-01T00:00:00Z" := by
  have hline := length_probe hr x
  have hsoft : 500000 ≤ Limits.default.ceiling priority := by cases priority <;> decide
  rw [Fits, hl]
  omega

/-- A small record adds a small line. -/
theorem Bounded.append {content : Bytes} {x : Walk} {key : Option SecretKey} (hlog : Bounded v n (some content))
    (hch : Chain (some (deriveAuditKey v.keys.mek)) content x) (ht : Terminated content)
    (hkey : ∀ k, key = some k → k = deriveAuditKey v.keys.mek) (hn : n < 100) (hr : Brief record) :
    Bounded v (n + 1) (some (content ++ (x.stage record.event key "1970-01-01T00:00:00Z").bytes)) := by
  intro content' x' hf' hch'
  cases hf'
  obtain ⟨hlen, hseq⟩ := hlog content x rfl hch
  have hat := x.stage_at (positioned_record record) key "1970-01-01T00:00:00Z"
  have hc : Compatible key (some (deriveAuditKey v.keys.mek)) := by
    cases hk : key with
    | none => exact Or.inl rfl
    | some k => exact Or.inr (Or.inr (by rw [hkey k hk]))
  obtain ⟨y, hy, -, hys⟩ := hat.chain hc hch ht
  obtain rfl := hch'.inj hy
  have hbytes := length_stage hr x key
  rw [List.length_append]
  exact ⟨by omega, by omega⟩

theorem written (hs : v.Coherent s) (hl : s.session.audit.limits = .default) (hlog : Bounded v n s.host.auditFile)
    (hn : n < 100) (hr : Brief record) (hwall : s.host.wall = 0) (happ : s.host.appends 0 = .ok) :
    ∃ head t, (recordCommit record priority).run s = (.ok (some head), t) ∧ Within (n + 1) head ∧
      t.session.audit.limits = .default ∧ Bounded v (n + 1) t.host.auditFile := by
  obtain ⟨content, x, hf, ht, hch, hsync⟩ := hs.logs.sound.exists_chain
  obtain ⟨hlen, hseq⟩ := hlog content x hf hch
  have hts : AuditLog.timestamp s.host.wall = .ok "1970-01-01T00:00:00Z" := by rw [hwall]; rfl
  have hrec := recordCommit_written hf hch hsync hts (fits priority hl hlen hseq hn hr) happ
  have hhash : ∀ d : Digest, (hex d.1).utf8ByteSize = 64 := fun d => by rw [utf8ByteSize_hex, d.2]
  rw [show s.host.auditFile = some content from hf] at hlog
  exact ⟨_, _, hrec, ⟨hhash _, by dsimp only; omega⟩, hl, hlog.append hch ht hs.logs.key hn hr⟩

variable (record) in
theorem recorded (hs : v.Coherent s) (hl : s.session.audit.limits = .default) (hlog : Bounded v n s.host.auditFile)
    (hn : n < 100) (hr : Brief record) (hwall : s.host.wall = 0) (happ : s.host.appends 0 = .ok) :
    ∃ audit auditFile appends, (auditRecordWith record priority).run s =
      (.ok (), ⟨{ s.session with audit }, { s.host with auditFile, appends }⟩) ∧
      audit.limits = .default ∧ Bounded v (n + 1) auditFile := by
  obtain ⟨content, x, hf, ht, hch, hsync⟩ := hs.logs.sound.exists_chain
  obtain ⟨hlen, hseq⟩ := hlog content x hf hch
  have hts : AuditLog.timestamp s.host.wall = .ok "1970-01-01T00:00:00Z" := by rw [hwall]; rfl
  have hrec := auditRecordWith_written hf hch hsync hts (fits priority hl hlen hseq hn hr) happ
  rw [show s.host.auditFile = some content from hf] at hlog
  exact ⟨_, _, _, hrec, hl, hlog.append hch ht hs.logs.key hn hr⟩

/-- What the log cannot take is not in it. -/
theorem stopped (hs : v.Coherent s) (hl : s.session.audit.limits = .default) (hlog : Bounded v n s.host.auditFile)
    (hn : n < 100) (hr : Brief record) (hwall : s.host.wall = 0) {e : IoError} (happ : s.host.appends 0 = .stop 0 e) :
    ∃ audit auditFile appends, (recordCommit record priority).run s =
      (if priority = .ordinary then .error (.auditWrite e.toVaultError.display) else .ok none,
        ⟨{ s.session with audit }, { s.host with auditFile, appends }⟩) ∧
      audit.limits = .default ∧ Bounded v n auditFile := by
  obtain ⟨content, x, hf, ht, hch, hsync⟩ := hs.logs.sound.exists_chain
  obtain ⟨hlen, hseq⟩ := hlog content x hf hch
  have hts : AuditLog.timestamp s.host.wall = .ok "1970-01-01T00:00:00Z" := by rw [hwall]; rfl
  have hrec := recordCommit_stopped hf hch hsync hts (fits priority hl hlen hseq hn hr) happ
  refine ⟨_, _, _, hrec, hl, fun content' x' hf' hch' => ?_⟩
  simp only [List.take_zero, List.append_nil, Option.some.injEq] at hf'
  subst hf'
  obtain rfl := hch'.inj hch
  exact ⟨hlen, hseq⟩

variable {priority} in
/-- A checkpoint that was written is that of the next entry. -/
theorem within_recorded (hs : v.Coherent s) (hlog : Bounded v n s.host.auditFile) {head : AuditHead} {t : Sys}
    (hrec : (recordCommit record priority).run s = (.ok (some head), t)) : Within (n + 1) head := by
  obtain ⟨content, x, hf, ht, hch, hsync⟩ := hs.logs.sound.exists_chain
  obtain ⟨staged, hst, rfl⟩ := recordCommit_some hrec
  have hat := hch.stageEvent hsync (positioned_record record) hf hst
  refine ⟨?_, ?_⟩
  · rw [hat.hashHex, utf8ByteSize_hex, (entryHash _ staged.event).2]
  · rw [hat.seq]
    exact Nat.succ_le_succ (hlog content x hf hch).2

end

/-! ## Worlds -/

/-- Conditions under which every save fails. -/
def noSave : Conditions := { conditions with saves := fun _ => some ⟨none, "no space left on device"⟩ }

/-- Conditions under which no append writes anything. -/
def noAppend : Conditions := { conditions with appends := fun _ => .stop 0 ⟨none, "no space left on device"⟩ }

/-- Conditions under which no random byte can be drawn. -/
def noRng : Conditions := { conditions with rng := fun _ => none }

theorem noRng_whole : noRng.Whole := fun _ _ _ h => nomatch h
theorem conditions_whole : conditions.Whole := fun _ _ _ h => nomatch h
theorem noSave_whole : noSave.Whole := fun _ _ _ h => nomatch h
theorem noAppend_whole : noAppend.Whole := fun _ k _ h => by cases h; rfl

/-- A process is live on the files of the vault, and its copies are those of `c` up to their checkpoints; the log has at
most `n` entries. -/
structure Stands (v : Vault) (c : Copies VaultDocument) (n : Nat) (w : World) : Prop where
  coheres : v.Coheres w
  session : ∃ s, w.session = some s ∧ s.idleTimeout = 0 ∧ s.audit.limits = .default
  holds : ∃ memory «sealed» stored, Within n memory ∧ Within n «sealed» ∧ Within n stored ∧
    v.Holds w ⟨c.memory.map (·.withHead (some memory)), c.sealed.withHead (some «sealed»),
      c.stored.withHead (some stored)⟩
  header : (canonicalHeader v.header).length ≤ 4096
  log : Bounded v n w.host.auditFile

section

variable {v : Vault} {n : Nat} {w : World} {d d' : VaultDocument} {c : Copies VaultDocument} {α : Type}

theorem holds_of_view {s : Session} {h : Host} (hv : v.View ⟨s, h⟩ c) : v.Holds ⟨some s, h⟩ c :=
  ⟨hv.stored, fun s' hs' => by cases hs'; exact hv⟩

theorem next_call {call : Call α} {cond : Conditions} {s : Session} (hs : w.session = some s) :
    w.next ⟨cond, .call call⟩ = World.ran (call.exec.run ⟨s, w.host.under cond⟩) := by
  simp only [World.next, World.sys, hs, Option.map_some]

theorem sys_of_session {s : Session} (hs : w.session = some s) (cond : Conditions) :
    w.sys cond = some ⟨s, w.host.under cond⟩ := by
  rw [World.sys, hs]
  rfl

theorem Stands.sys (h : Stands v c n w) (cond : Conditions) : ∃ s, w.sys cond = some s := by
  obtain ⟨s, hs, -⟩ := h.session
  exact ⟨_, sys_of_session hs cond⟩

theorem not_idle {s : Session} (h : s.idleTimeout = 0) (now : Instant) : s.locksItself now = false := by
  simp [Session.locksItself, Session.idleExpired, h]

/-- What a mutation finds in a world that stands. -/
structure Finds (v : Vault) (d «sealed» stored : VaultDocument) (n : Nat) (cond : Conditions) (w : World) (s : Session)
    (u : Unlocked) (memory hsealed hstored : AuditHead) : Prop where
  session : w.session = some s
  idle : ∀ now, s.locksItself now = false
  timeout : s.idleTimeout = 0
  limits : s.audit.limits = .default
  unlocked : s.unlocked = some u
  doc : u.doc = d.withHead (some memory)
  coherent : v.Coherent ⟨s, w.host.under cond⟩
  view : v.View ⟨s, w.host.under cond⟩
    ⟨some (d.withHead (some memory)), «sealed».withHead (some hsealed), stored.withHead (some hstored)⟩
  memory : Within n memory
  «sealed» : Within n hsealed
  stored : Within n hstored

theorem Stands.finds {se st : VaultDocument} (h : Stands v ⟨some d, se, st⟩ n w) {cond : Conditions} (hc : cond.Whole) :
    ∃ s u m hse hst, Finds v d se st n cond w s u m hse hst := by
  obtain ⟨s, hs, hidle, hl⟩ := h.session
  obtain ⟨m, hse, hst, hm, hwse, hwst, hholds⟩ := h.holds
  have hview := (hholds.session s hs).congr (t := ⟨s, w.host.under cond⟩) rfl rfl rfl
  obtain ⟨u, hu, hdoc⟩ := hview.unlocked_eq rfl
  exact ⟨s, u, m, hse, hst, hs, not_idle hidle, hidle, hl, hu, hdoc, h.coheres.session s hs cond hc, hview, hm,
    hwse, hwst⟩

/-- A state of a world that stands, in which a document is about to be committed. -/
structure Commits (v : Vault) (d «sealed» stored : VaultDocument) (n : Nat) (cond : Conditions) (w : World) (s : Sys)
    (u : Unlocked) (memory hsealed hstored : AuditHead) : Prop where
  finds : Finds v d «sealed» stored n cond w s.session u memory hsealed hstored
  coherent : v.Coherent s
  view : v.View s ⟨some (d.withHead (some memory)), «sealed».withHead (some hsealed), stored.withHead (some hstored)⟩
  wall : s.host.wall = cond.wall
  rng : s.host.rng 0 ≠ none
  appends : s.host.appends = cond.appends
  saves : s.host.saves = cond.saves
  log : Bounded v n s.host.auditFile
  header : (canonicalHeader s.session.envelope.header).length ≤ 4096

/-- How a commit leaves a session and the log. -/
structure Left (v : Vault) (n : Nat) (t : Sys) : Prop where
  timeout : t.session.idleTimeout = 0
  limits : t.session.audit.limits = .default
  log : Bounded v n t.host.auditFile

/-- A world that stands has a process to ask. -/
theorem Stands.commits {se st : VaultDocument} (h : Stands v ⟨some d, se, st⟩ n w) {cond : Conditions} (hc : cond.Whole)
    (hrng : cond.rng 0 ≠ none) :
    ∃ s u memory hse hst, Commits v d se st n cond w ⟨s, w.host.under cond⟩ u memory hse hst := by
  obtain ⟨s, u, m, hse, hst, hf⟩ := h.finds hc
  exact ⟨s, u, m, hse, hst, hf, hf.coherent, hf.view, rfl, hrng, rfl, rfl, h.log,
    by rw [hf.view.sealed.header]; exact h.header⟩

section

variable {se st : VaultDocument} {cond : Conditions} {s : Sys} {u : Unlocked} {memory hse hst : AuditHead}
    {record : Record}
  (priority : Priority)

/-- What was decided before a commit leaves it what it found. -/
theorem Commits.quiet (hq : Commits v d se st n cond w s u memory hse hst) {h' : Host} (hquiet : Quiet s.host h')
    (hrng : h'.rng 0 ≠ none) : Commits v d se st n cond w { s with host := h' } u memory hse hst := by
  obtain ⟨rng, syscalls, rfl⟩ := hquiet.eq
  exact ⟨hq.finds, hq.coherent.congr rfl rfl rfl rfl rfl hq.coherent.unlocked hq.coherent.sealed,
    hq.view.congr rfl rfl rfl, hq.wall, hrng, hq.appends, hq.saves, hq.log, hq.header⟩

/-- A commit lands. -/
theorem Commits.lands (hq : Commits v d se st n cond w s u memory hse hst) (hwall : cond.wall = 0)
    (happ : cond.appends 0 = .ok) (hsave : cond.saves 0 = none) (hn : n < 100) (hr : Brief record) (hd' : Compact d') :
    ∃ head t, (commitWith (d'.withHead (some memory)) record priority).run s = (.ok (), t) ∧ Within (n + 1) head ∧
      Left v (n + 1) t ∧
      v.View t ⟨some (d'.withHead (some head)), d'.withHead (some head), d'.withHead (some head)⟩ := by
  obtain ⟨head, t, hrec, hwithin, hlimits, hlog⟩ := written priority hq.coherent hq.finds.limits hq.log hn hr
    (hq.wall.trans hwall) (by rw [hq.appends, happ])
  obtain ⟨b, hb, hlen⟩ := hd'.docToVec hwithin
  have hb' : docToVec ((d'.withHead (some memory)).withHead (some head)) = .ok b := hb
  obtain ⟨nonce, rng', saves, hcommit⟩ := commitWith_lands hq.finds.unlocked hrec hb' hq.rng (by rw [hq.saves, hsave])
    fun nonce => persistable hq.header (by omega) _ _
  exact ⟨head, _, hcommit, hwithin, ⟨hq.finds.timeout, hlimits, hlog⟩,
    hq.view.landed hq.finds.unlocked hb' rfl rfl rfl⟩

/-- A commit whose save fails is sealed, and not stored. -/
theorem Commits.cut (hq : Commits v d se st n cond w s u memory hse hst) (hwall : cond.wall = 0)
    (happ : cond.appends 0 = .ok) (hsave : cond.saves 0 ≠ none) (hn : n < 100) (hr : Brief record) (hd' : Compact d') :
    ∃ head e t, (commitWith (d'.withHead (some memory)) record priority).run s = (.error e, t) ∧ Within (n + 1) head ∧
      Left v (n + 1) t ∧
      v.View t ⟨some (d.withHead (some memory)), d'.withHead (some head), st.withHead (some hst)⟩ := by
  obtain ⟨head, t, hrec, hwithin, hlimits, hlog⟩ := written priority hq.coherent hq.finds.limits hq.log hn hr
    (hq.wall.trans hwall) (by rw [hq.appends, happ])
  obtain ⟨b, hb, hlen⟩ := hd'.docToVec hwithin
  have hb' : docToVec ((d'.withHead (some memory)).withHead (some head)) = .ok b := hb
  obtain ⟨e, nonce, rng', saves, hcommit⟩ :=
    commitWith_cut hq.finds.unlocked hrec hb' hq.rng (by rw [hq.saves]; exact hsave)
  exact ⟨head, e, _, hcommit, hwithin, ⟨hq.finds.timeout, hlimits, hlog⟩, hq.view.cut hq.finds.unlocked hb' rfl rfl rfl⟩

/-- A lifecycle commit lands without its entry. -/
theorem Commits.unrecorded (hq : Commits v d se st n cond w s u memory hse hst) (hwall : cond.wall = 0) {e : IoError}
    (happ : cond.appends 0 = .stop 0 e) (hsave : cond.saves 0 = none) (hn : n < 100) (hr : Brief record)
    (hd' : Compact d') :
    ∃ t t', (recordCommit record .lifecycle).run s = (.ok none, t') ∧
      (commitWith (d'.withHead (some memory)) record .lifecycle).run s = (.ok (), t) ∧ Left v n t ∧
      v.View t ⟨some (d'.withHead (some memory)), d'.withHead (some memory), d'.withHead (some memory)⟩ := by
  obtain ⟨audit, auditFile, appends, hrec, hlimits, hlog⟩ := stopped .lifecycle hq.coherent hq.finds.limits hq.log hn hr
    (hq.wall.trans hwall) (by rw [hq.appends, happ])
  obtain ⟨b, hb, hlen⟩ := hd'.docToVec hq.finds.memory
  have hb' : docToVec ((d'.withHead (some memory)).withHead none) = .ok b := hb
  obtain ⟨nonce, rng', saves, hcommit⟩ := commitWith_lands hq.finds.unlocked hrec hb' hq.rng (by rw [hq.saves, hsave])
    fun nonce => persistable hq.header (by omega) _ _
  exact ⟨_, _, hrec, hcommit, ⟨hq.finds.timeout, hlimits, hlog⟩, hq.view.landed hq.finds.unlocked hb' rfl rfl rfl⟩

/-- An ordinary commit without its entry changes nothing. -/
theorem Commits.refuses (hq : Commits v d se st n cond w s u memory hse hst) (hwall : cond.wall = 0) {e : IoError}
    (happ : cond.appends 0 = .stop 0 e) (hn : n < 100) (hr : Brief record) (doc : VaultDocument) :
    ∃ e t, (commitWith doc record .ordinary).run s = (.error e, t) ∧ Left v n t ∧
      v.View t ⟨some (d.withHead (some memory)), se.withHead (some hse), st.withHead (some hst)⟩ := by
  obtain ⟨audit, auditFile, appends, hrec, hlimits, hlog⟩ := stopped .ordinary hq.coherent hq.finds.limits hq.log hn hr
    (hq.wall.trans hwall) (by rw [hq.appends, happ])
  exact ⟨_, _, commitWith_refused hq.finds.unlocked hrec, ⟨hq.finds.timeout, hlimits, hlog⟩, hq.view.congr rfl rfl rfl⟩

/-- A commit of a compact document is stored once it is sealed. -/
theorem Commits.stores (hq : Commits v d se st n cond w s u memory hse hst) (hsave : cond.saves 0 = none) (hn : n < 100)
    (hd' : Compact d') : Attempt.Stores ⟨s, d'.withHead (some memory), record, priority⟩ := by
  intro head t hrec bytes hb _
  refine ⟨by rw [hq.saves, hsave], fun keys nonce => persistable hq.header ?_ keys nonce⟩
  cases head with
  | none =>
    obtain ⟨b, hb', hlen⟩ := hd'.docToVec hq.finds.memory
    obtain rfl := Outcome.ok.inj (hb.symm.trans hb')
    omega
  | some head =>
    obtain ⟨b, hb', hlen⟩ := hd'.docToVec (within_recorded hq.coherent hq.log hrec)
    obtain rfl := Outcome.ok.inj (hb.symm.trans hb')
    omega

end

/-- The document in memory of a world that stands. -/
theorem Stands.document {se st : VaultDocument} {s : Session} {h : Host}
    (hw : Stands v ⟨some d, se, st⟩ n ⟨some s, h⟩) :
    ∃ head, s.document = some (d.withHead (some head)) := by
  obtain ⟨m, hse, hst, -, -, -, hholds⟩ := hw.holds
  exact ⟨m, (hholds.session s rfl).memory⟩

/-- A call that is not an unlock relies on nothing. -/
theorem honest_of_mutate {m : Mutation α} {cond : Conditions} : (⟨cond, .call (.mutate m)⟩ : Step).Honest v w :=
  fun _ _ _ h => h.elim

/-- How a mutation ends, that is proposed and committed. -/
theorem mutate_run {m : Mutation α} {q : Proposal α} {s s1 t : Sys} {o : Outcome VaultError Unit}
    (hprop : m.proposal.run s = (.ok q, s1)) (hcommit : (commitWith q.doc q.record q.priority).run s1 = (o, t)) :
    (Call.mutate m).exec.run s = (do let _ ← o; .ok q.answer, t) := by
  rw [Call.exec, m.exec_eq, committing, run_bind, hprop]
  dsimp only
  rw [run_bind, hcommit]
  cases o <;> rfl

/-- The mutation makes the second document of the first, whatever its checkpoint. -/
def Decides (m : Mutation α) (cond : Conditions) (d d' : VaultDocument) (ans : α) : Prop :=
  ∀ (head : AuditHead) (h : Host),
    ((m.decide (d.withHead (some head))).run (h.under cond)).1 = .ok (d'.withHead (some head), ans) ∧
      ((m.decide (d.withHead (some head))).run (h.under cond)).2.rng 0 ≠ none

/-- A mutation that is decided is about to be committed. -/
theorem Stands.proposes {se st : VaultDocument} (h : Stands v ⟨some d, se, st⟩ n w) {cond : Conditions}
    (hc : cond.Whole)
    (hrng : cond.rng 0 ≠ none) {m : Mutation α} (hm : m.ByHuman) {ans : α} (hd : Decides m cond d d' ans) :
    ∃ session s u memory hse hst, w.session = some session ∧ Commits v d se st n cond w s u memory hse hst ∧
      m.proposal.run ⟨session, w.host.under cond⟩ =
        (.ok ⟨d'.withHead (some memory), m.record, m.priority u.doc, ans⟩, s) := by
  obtain ⟨s, u, memory, hse, hst, hq⟩ := h.commits hc hrng
  obtain ⟨hdec, hrng'⟩ := hd memory w.host
  have hquiet := m.decide_quiet (d.withHead (some memory)) (w.host.under cond)
  generalize hrun : (m.decide (d.withHead (some memory))).run (w.host.under cond) = r at hdec hrng' hquiet
  obtain ⟨o, h'⟩ := r
  dsimp only at hdec
  subst hdec
  rw [← hq.finds.doc] at hrun
  exact ⟨s, _, u, memory, hse, hst, hq.finds.session, hq.quiet hquiet hrng',
    Mutation.proposal_run (s := ⟨s, w.host.under cond⟩)
    (hq.finds.idle _) hq.finds.unlocked hm hrun⟩

/-- The mutation makes the second document of the first, and nothing stands in its way. -/
structure Lands (m : Mutation α) (d d' : VaultDocument) (ans : α) : Prop where
  decides : Decides m conditions d d' ans
  human : m.ByHuman
  brief : Brief m.record
  compact : Compact d'

/-- A mutation that is decided lands. -/
theorem Stands.mutates {se st : VaultDocument} (h : Stands v ⟨some d, se, st⟩ n w) (hn : n < 100) {m : Mutation α}
    {ans : α} (hl : Lands m d d' ans) : ∃ s t, w.session = some s ∧
      (Call.mutate m).exec.run ⟨s, w.host.under conditions⟩ = (.ok ans, t) ∧
      Stands v ⟨some d', d', d'⟩ (n + 1) ⟨some t.session, t.host⟩ := by
  have hcoheres : v.Coheres (w.next ⟨conditions, .call (.mutate m)⟩) := h.coheres.next conditions_whole honest_of_mutate
  obtain ⟨session, s, u, hm0, hse, hst, hs, hq, hprop⟩ := h.proposes conditions_whole (Option.some_ne_none _)
    hl.human hl.decides
  obtain ⟨head, t, hcommit, hwithin, hleft, hview⟩ := hq.lands (m.priority u.doc) rfl rfl rfl hn hl.brief hl.compact
  have hrun := mutate_run hprop hcommit
  rw [next_call hs, hrun] at hcoheres
  exact ⟨session, t, hs, hrun, hcoheres, ⟨_, rfl, hleft.timeout, hleft.limits⟩,
    ⟨head, head, head, hwithin, hwithin, hwithin, holds_of_view hview⟩, h.header, hleft.log⟩

theorem Stands.mutate {se st : VaultDocument} (h : Stands v ⟨some d, se, st⟩ n w) (hn : n < 100) {m : Mutation α}
    {ans : α} (hl : Lands m d d' ans) :
    Stands v ⟨some d', d', d'⟩ (n + 1) (w.next ⟨conditions, .call (.mutate m)⟩) := by
  obtain ⟨s, t, hs, hrun, hstands⟩ := h.mutates hn hl
  rw [next_call hs, hrun]
  exact hstands

/-- A mutation that is decided and whose save fails is sealed, and not stored. -/
theorem Stands.fails {se st : VaultDocument} (h : Stands v ⟨some d, se, st⟩ n w) (hn : n < 100) {m : Mutation α}
    {ans : α} (hd : Decides m noSave d d' ans) (hm : m.ByHuman) (hr : Brief m.record) (hd' : Compact d') :
    ∃ s q s1 e t, w.session = some s ∧ m.proposal.run ⟨s, w.host.under noSave⟩ = (.ok q, s1) ∧
      (commitWith q.doc q.record q.priority).run s1 = (.error e, t) ∧
      Stands v ⟨some d, d', st⟩ (n + 1) ⟨some t.session, t.host⟩ := by
  have hcoheres : v.Coheres (w.next ⟨noSave, .call (.mutate m)⟩) := h.coheres.next noSave_whole honest_of_mutate
  obtain ⟨session, s, u, hm0, hse, hst, hs, hq, hprop⟩ := h.proposes noSave_whole (Option.some_ne_none _) hm hd
  obtain ⟨head, e, t, hcommit, hwithin, hleft, hview⟩ :=
    hq.cut (m.priority u.doc) rfl rfl (Option.some_ne_none _) hn hr hd'
  rw [next_call hs, mutate_run hprop hcommit] at hcoheres
  exact ⟨session, _, s, e, t, hs, hprop, hcommit, hcoheres, ⟨_, rfl, hleft.timeout, hleft.limits⟩,
    ⟨hm0, head, hst, hq.finds.memory.mono (by omega), hwithin, hq.finds.stored.mono (by omega), holds_of_view hview⟩,
    h.header, hleft.log⟩

theorem Stands.cut {se st : VaultDocument} (h : Stands v ⟨some d, se, st⟩ n w) (hn : n < 100) {m : Mutation α}
    {ans : α} (hd : Decides m noSave d d' ans) (hm : m.ByHuman) (hr : Brief m.record) (hd' : Compact d') :
    Stands v ⟨some d, d', st⟩ (n + 1) (w.next ⟨noSave, .call (.mutate m)⟩) := by
  obtain ⟨s, q, s1, e, t, hs, hprop, hcommit, hstands⟩ := h.fails hn hd hm hr hd'
  rw [next_call hs, mutate_run hprop hcommit]
  exact hstands

/-- A mutation that is decided, and whose entry cannot be written, changes nothing. -/
theorem Stands.refuses {se st : VaultDocument} (h : Stands v ⟨some d, se, st⟩ n w) (hn : n < 100) {m : Mutation α}
    (hp : ∀ doc, m.priority doc = .ordinary) {ans : α} (hd : Decides m noAppend d d' ans) (hm : m.ByHuman)
    (hr : Brief m.record) :
    ∃ s q s1 e t, w.session = some s ∧ m.proposal.run ⟨s, w.host.under noAppend⟩ = (.ok q, s1) ∧
      (commitWith q.doc q.record q.priority).run s1 = (.error e, t) ∧
      w.next ⟨noAppend, .call (.mutate m)⟩ = ⟨some t.session, t.host⟩ ∧
      Stands v ⟨some d, se, st⟩ n ⟨some t.session, t.host⟩ := by
  have hcoheres : v.Coheres (w.next ⟨noAppend, .call (.mutate m)⟩) := h.coheres.next noAppend_whole honest_of_mutate
  obtain ⟨session, s, u, hm0, hse, hst, hs, hq, hprop⟩ := h.proposes noAppend_whole (Option.some_ne_none _) hm hd
  rw [hp] at hprop
  obtain ⟨e, t, hcommit, hleft, hview⟩ := hq.refuses rfl rfl hn hr (d'.withHead (some hm0))
  have hnext : w.next ⟨noAppend, .call (.mutate m)⟩ = ⟨some t.session, t.host⟩ := by
    rw [next_call hs, mutate_run hprop hcommit]
    rfl
  rw [hnext] at hcoheres
  exact ⟨session, _, s, e, t, hs, hprop, hcommit, hnext, hcoheres, ⟨_, rfl, hleft.timeout, hleft.limits⟩,
    ⟨hm0, hse, hst, hq.finds.memory, hq.finds.sealed, hq.finds.stored, holds_of_view hview⟩, h.header, hleft.log⟩

/-- What a mutation commits is stored once it is sealed, if the save works. -/
theorem Stands.mutate_stores {se st : VaultDocument} (h : Stands v ⟨some d, se, st⟩ n w) (hn : n < 100)
    {cond : Conditions}
    (hc : cond.Whole) (hrng : cond.rng 0 ≠ none) (hsave : cond.saves 0 = none) {m : Mutation α} (hm : m.ByHuman)
    {ans : α} (hd : Decides m cond d d' ans) (hd' : Compact d') :
    ∀ a, (⟨cond, .call (.mutate m)⟩ : Step).Attempts w a → a.Stores := by
  rintro a ⟨s, hs, hattempt⟩
  obtain ⟨session, s1, u, memory, hse, hst, hsession, hq, hprop⟩ := h.proposes hc hrng hm hd
  rw [sys_of_session hsession] at hs
  cases hs
  rcases hattempt with ⟨-, hidle, -⟩ | ⟨q, t, hrun, rfl⟩
  · obtain ⟨s0, hs0, htimeout, -⟩ := h.session
    rw [hsession] at hs0
    cases hs0
    rw [not_idle htimeout] at hidle
    cases hidle
  · rw [hprop] at hrun
    cases hrun
    exact hq.stores _ hsave hn hd'

theorem Stands.lands_stores {se st : VaultDocument} (h : Stands v ⟨some d, se, st⟩ n w) (hn : n < 100) {m : Mutation α}
    {ans : α} (hl : Lands m d d' ans) : ∀ a, (⟨conditions, .call (.mutate m)⟩ : Step).Attempts w a → a.Stores :=
  h.mutate_stores hn conditions_whole (Option.some_ne_none _) rfl hl.human hl.decides hl.compact

/-! ## Locking, unlocking, starting again -/

/-- A lock commits, and drops what is in memory. -/
theorem lockPersist_exec {s t : Sys} {u : Unlocked} {doc : VaultDocument} {o : Outcome VaultError Unit}
    (hu : s.session.unlocked = some u) (hdoc : lockAll s.host.wall u.doc = doc)
    (hcommit : (commitWith doc lockRecord .lifecycle).run s = (o, t)) (ho : o ≠ .panic) :
    Call.lockPersist.exec.run s = (.ok (), { t with session := t.session.lock }) := by
  rw [Call.exec, lockPersist_run, hu]
  dsimp only
  rw [hdoc, hcommit]
  cases o with
  | panic => exact (ho rfl).elim
  | _ => rfl

/-- What the life of a vault records is small. -/
theorem brief_lifecycle : Brief createdRecord ∧ Brief unlockedRecord ∧ Brief lockRecord := by decide +kernel

theorem brief_lockRecord : Brief lockRecord := brief_lifecycle.2.2

theorem honest_of_lock {cond : Conditions} : (⟨cond, .call .lockPersist⟩ : Step).Honest v w := fun _ _ _ h => h.elim

/-- What is in memory is dropped. -/
theorem view_lock {s : Sys} (hv : v.View s c) : v.View { s with session := s.session.lock }
    ⟨none, c.sealed, c.stored⟩ :=
  ⟨rfl, fun _ hu => (nomatch hu), hv.sealed, hv.stored⟩

/-- A lock lands. -/
theorem Stands.lock {se st : VaultDocument} (h : Stands v ⟨some d, se, st⟩ n w) (hn : n < 100)
    (hd : Compact (lockAll 0 d)) :
    Stands v ⟨none, lockAll 0 d, lockAll 0 d⟩ (n + 1) (w.next ⟨conditions, .call .lockPersist⟩) := by
  have hcoheres : v.Coheres (w.next ⟨conditions, .call .lockPersist⟩) := h.coheres.next conditions_whole honest_of_lock
  obtain ⟨s, u, hm0, hse, hst, hq⟩ := h.commits conditions_whole (Option.some_ne_none _)
  obtain ⟨head, t, hcommit, hwithin, hleft, hview⟩ := hq.lands .lifecycle rfl rfl rfl hn brief_lockRecord hd
  have hrun := lockPersist_exec hq.finds.unlocked (by rw [hq.wall, hq.finds.doc]; rfl) hcommit (by simp)
  rw [next_call hq.finds.session, hrun] at hcoheres ⊢
  exact ⟨hcoheres, ⟨_, rfl, hleft.timeout, hleft.limits⟩,
    ⟨head, head, head, hwithin, hwithin, hwithin, holds_of_view (view_lock hview)⟩, h.header, hleft.log⟩

/-- What a lock commits is stored once it is sealed. -/
theorem Stands.lock_stores {se st : VaultDocument} (h : Stands v ⟨some d, se, st⟩ n w) (hn : n < 100)
    (hd : Compact (lockAll 0 d)) : ∀ a, (⟨conditions, .call .lockPersist⟩ : Step).Attempts w a → a.Stores := by
  rintro a ⟨s, hs, hattempt⟩
  obtain ⟨session, u, memory, hse, hst, hq⟩ := h.commits conditions_whole (Option.some_ne_none _)
  rw [sys_of_session hq.finds.session] at hs
  cases hs
  rcases hattempt with ⟨hidles, -⟩ | ⟨u', hu', rfl⟩
  · cases hidles
  · rw [hq.finds.unlocked] at hu'
    cases hu'
    have hdoc : lockAll 0 u.doc = (lockAll 0 d).withHead (some memory) := by rw [hq.finds.doc]; rfl
    change Attempt.Stores ⟨_, lockAll 0 u.doc, _, _⟩
    rw [hdoc]
    exact hq.stores _ rfl hn hd

/-- The save of a lock fails. -/
theorem Stands.locksCut {se st : VaultDocument} (h : Stands v ⟨some d, se, st⟩ n w) (hn : n < 100)
    (hd : Compact (lockAll 0 d)) :
    ∃ s t, w.session = some s ∧ SecretsVault.lockPersist.run ⟨s, w.host.under noSave⟩ = (.ok (), t) ∧
      Stands v ⟨none, lockAll 0 d, st⟩ (n + 1) ⟨some t.session, t.host⟩ := by
  have hcoheres : v.Coheres (w.next ⟨noSave, .call .lockPersist⟩) := h.coheres.next noSave_whole honest_of_lock
  obtain ⟨s, u, hm0, hse, hst, hq⟩ := h.commits noSave_whole (Option.some_ne_none _)
  obtain ⟨head, e, t, hcommit, hwithin, hleft, hview⟩ :=
    hq.cut .lifecycle rfl rfl (Option.some_ne_none _) hn brief_lockRecord hd
  have hrun := lockPersist_exec hq.finds.unlocked (by rw [hq.wall, hq.finds.doc]; rfl) hcommit (by simp)
  rw [next_call hq.finds.session, hrun] at hcoheres
  exact ⟨s, _, hq.finds.session, hrun, hcoheres, ⟨_, rfl, hleft.timeout, hleft.limits⟩,
    ⟨head, head, hst, hwithin, hwithin, hq.finds.stored.mono (by omega), holds_of_view (view_lock hview)⟩, h.header,
    hleft.log⟩

theorem Stands.lockCut {se st : VaultDocument} (h : Stands v ⟨some d, se, st⟩ n w) (hn : n < 100)
    (hd : Compact (lockAll 0 d)) :
    Stands v ⟨none, lockAll 0 d, st⟩ (n + 1) (w.next ⟨noSave, .call .lockPersist⟩) := by
  obtain ⟨s, t, hs, hrun, hstands⟩ := h.locksCut hn hd
  rw [next_call hs, Call.exec, hrun]
  exact hstands

/-- The new document of a lock cannot be sealed. -/
theorem Stands.locksUnsealed {se st : VaultDocument} (h : Stands v ⟨some d, se, st⟩ n w) (hn : n < 100)
    (hd : Compact (lockAll 0 d)) :
    ∃ s t, w.session = some s ∧ SecretsVault.lockPersist.run ⟨s, w.host.under noRng⟩ = (.ok (), t) ∧
      Stands v ⟨none, se, st⟩ (n + 1) ⟨some t.session, t.host⟩ := by
  have hcoheres : v.Coheres (w.next ⟨noRng, .call .lockPersist⟩) := h.coheres.next noRng_whole honest_of_lock
  obtain ⟨s, u, memory, hse, hst, hf⟩ := h.finds noRng_whole
  obtain ⟨head, t, hrec, hwithin, hlimits, hlog⟩ :=
    written .lifecycle hf.coherent hf.limits h.log hn brief_lockRecord rfl rfl
  obtain ⟨b, hb, -⟩ := hd.docToVec hwithin
  have hdoc : lockAll 0 u.doc = (lockAll 0 d).withHead (some memory) := by rw [hf.doc]; rfl
  have hb' : docToVec ((lockAll 0 u.doc).withHead (some head)) = .ok b := by rw [hdoc]; exact hb
  obtain ⟨e, rng, hcommit⟩ := commitWith_unsealed hf.unlocked hrec hb' rfl
  have hlocked : lockAll (w.host.under noRng).wall u.doc = lockAll 0 u.doc := rfl
  have hrun := lockPersist_exec hf.unlocked hlocked hcommit (by simp)
  have hview := hf.view.congr (t := ⟨{ s with audit := t.session.audit }, { w.host.under noRng with
    auditFile := t.host.auditFile, appends := t.host.appends, rng }⟩) rfl rfl rfl
  rw [next_call hf.session, hrun] at hcoheres
  exact ⟨s, _, hf.session, hrun, hcoheres, ⟨_, rfl, hf.timeout, hlimits⟩, ⟨memory, hse, hst, hf.memory.mono (by omega),
    hf.sealed.mono (by omega), hf.stored.mono (by omega), holds_of_view (view_lock hview)⟩, h.header, hlog⟩

theorem Stands.lockUnsealed {se st : VaultDocument} (h : Stands v ⟨some d, se, st⟩ n w) (hn : n < 100)
    (hd : Compact (lockAll 0 d)) : Stands v ⟨none, se, st⟩ (n + 1) (w.next ⟨noRng, .call .lockPersist⟩) := by
  obtain ⟨s, t, hs, hrun, hstands⟩ := h.locksUnsealed hn hd
  rw [next_call hs, Call.exec, hrun]
  exact hstands

/-- Keys that are derived from the passphrase open the vault to its keys. -/
theorem Stands.honest_of_unlock {passphrase : Bytes} (h : Stands v c n w) (hp : v.OpenedBy passphrase)
    {cond : Conditions} : (⟨cond, .call (.unlock passphrase)⟩ : Step).Honest v w := by
  obtain ⟨s, hs, -⟩ := h.session
  obtain ⟨_, _, _, -, -, -, hholds⟩ := h.holds
  rintro s' hs' derived ⟨recipe, hr, hd⟩
  rw [World.sys, hs] at hs'
  cases hs'
  exact hp.honest (hholds.session s hs).sealed.header hr hd

/-- The sealed copy is opened. -/
theorem Stands.unlocks {passphrase : Bytes} {mem : Option VaultDocument} {se st : VaultDocument}
    (h : Stands v ⟨mem, se, st⟩ n w) (hn : n < 100) (hp : v.OpenedBy passphrase) :
    ∃ s t, w.session = some s ∧ (SecretsVault.unlock passphrase).run ⟨s, w.host.under conditions⟩ = (.ok (), t) ∧
      Stands v ⟨some se, se, st⟩ (n + 1) ⟨some t.session, t.host⟩ := by
  obtain ⟨s, hs, hidle, hl⟩ := h.session
  obtain ⟨m, hse, hst, hm, hwse, hwst, hholds⟩ := h.holds
  have hview := (hholds.session s hs).congr (t := ⟨s, w.host.under conditions⟩) rfl rfl rfl
  have hcoh := h.coheres.session s hs conditions conditions_whole
  have hcoheres : v.Coheres (w.next ⟨conditions, .call (.unlock passphrase)⟩) :=
    h.coheres.next conditions_whole (h.honest_of_unlock hp)
  obtain ⟨recipe, derived, hr, hd, hk⟩ := unlock_eq_ok (hp s.envelope hview.sealed.header)
  obtain ⟨content, x, hf, -, hch, hsync⟩ := hcoh.logs.sound.exists_chain
  obtain ⟨b, hb, hdoc⟩ := hview.sealed.holds
  obtain ⟨d, hd', hcheck⟩ := hcoh.sealed
  obtain rfl := hd'.inj hview.sealed
  change w.host.auditFile = some content at hf
  set u : Unlocked := ⟨se.withHead (some hse), v.keys, deriveAuditKey v.keys.mek⟩
  have hopen : openVault s.envelope derived w.host.auditFile = .ok u := by
    rw [hf]
    refine openVault_ok (u := u) hk rfl hch hb hdoc ?_
    rw [← hf]
    exact hcheck
  have hunlocked : ∀ u', some u = some u' → u'.keys = v.keys ∧ u'.auditKey = deriveAuditKey v.keys.mek ∧
      Checked (w.host.under conditions) u'.doc := fun u' hu' => by cases hu'; exact ⟨rfl, rfl, hcheck⟩
  obtain ⟨audit, auditFile, appends, hrec, hlimits, hlog⟩ := recorded unlockedRecord .lifecycle
    (s := ⟨({ s with unlocked := some u }).rebuildAgentDigests, w.host.under conditions⟩)
    (hcoh.congr rfl rfl rfl rfl rfl hunlocked hcoh.sealed) hl h.log hn brief_lifecycle.2.1 rfl rfl
  have hrun := unlock_runs (s := ⟨s, w.host.under conditions⟩) hr hd hopen (by rw [run_ignore, hrec])
  rw [next_call hs, Call.exec, hrun] at hcoheres
  refine ⟨s, _, hs, hrun, hcoheres, ⟨_, rfl, hidle, hlimits⟩, ⟨hse, hse, hst, hwse.mono (by omega),
    hwse.mono (by omega),
    hwst.mono (by omega), holds_of_view ⟨rfl, fun u' hu' => ?_, hview.sealed, hview.stored⟩⟩, h.header, hlog⟩
  cases hu'
  exact ⟨rfl, rfl⟩

theorem Stands.unlock {passphrase : Bytes} {mem : Option VaultDocument} {se st : VaultDocument}
    (h : Stands v ⟨mem, se, st⟩ n w) (hn : n < 100) (hp : v.OpenedBy passphrase) :
    Stands v ⟨some se, se, st⟩ (n + 1) (w.next ⟨conditions, .call (.unlock passphrase)⟩) := by
  obtain ⟨s, t, hs, hrun, hstands⟩ := h.unlocks hn hp
  rw [next_call hs, Call.exec, hrun]
  exact hstands

/-- A lease that covers the request is accepted. -/
theorem Stands.authorizes {se st : VaultDocument} (h : Stands v ⟨some d, se, st⟩ n w) (hn : n < 100)
    (agentId project actor : String) (op : Op) (credential : Option String)
    (hv : leaseVerdict d agentId project op credential 0 = .allow actor)
    (hr : Brief { actor, op := "authorize", project := some project, decision := .allowed }) :
    ∃ s t, w.sys conditions = some s ∧ (authorizeLease agentId project op credential).run s = (.ok actor, t) := by
  obtain ⟨s, u, memory, hse, hst, hq⟩ := h.commits conditions_whole (Option.some_ne_none _)
  obtain ⟨audit, auditFile, appends, hrec, -⟩ := recorded _ .ordinary hq.coherent hq.finds.limits hq.log hn hr
    rfl rfl
  have hopen : (requireOpen ("agent:" ++ agentId) "authorize" (some project) []).run ⟨s, w.host.under conditions⟩ =
      (.ok u, ⟨s, w.host.under conditions⟩) := requireOpen_ok (hq.finds.idle _) hq.finds.unlocked _ _ _ _
  have hverdict : leaseVerdict u.doc agentId project op credential 0 = .allow actor := by rw [hq.finds.doc]; exact hv
  refine ⟨⟨s, w.host.under conditions⟩, ⟨{ s with audit }, { w.host.under conditions with auditFile, appends }⟩,
    sys_of_session hq.finds.session _, ?_⟩
  rw [authorizeLease, run_bind_ok hopen, run_get_bind]
  dsimp only
  rw [show leaseVerdict u.doc agentId project op credential (w.host.under conditions).wall = .allow actor from hverdict]
  dsimp only
  rw [run_bind, run_ignore, SecretsVault.auditRecord, hrec]
  rfl

/-- A new process starts from the stored copy. -/
theorem Stands.restart {mem : Option VaultDocument} {se st : VaultDocument} (h : Stands v ⟨mem, se, st⟩ n w) :
    Stands v ⟨none, st, st⟩ n (w.next ⟨conditions, .restart 0⟩) := by
  have hcoheres : v.Coheres (w.next ⟨conditions, .restart 0⟩) := h.coheres.next conditions_whole trivial
  obtain ⟨m, hse, hst, hm, hwse, hwst, hholds⟩ := h.holds
  obtain ⟨e, d, hfile, hseal, hval, -⟩ := h.coheres.files.stored
  obtain ⟨e', hfile', hseal'⟩ := hholds.stored
  rw [hfile, Option.some.injEq] at hfile'
  obtain rfl := Envelope.parse_toBytes_inj (e := e') hseal'.wf
    (by rw [← hfile']; exact Envelope.parse_toBytes hseal.wf hval)
  obtain ⟨content, x, hf, ht, hch⟩ := h.coheres.files.log
  obtain ⟨y, hy, -⟩ := hch.forget
  have hrun := load_run (h := (w.host.under conditions).releaseVault) rfl hfile rfl hseal.wf hval hf hy 0
  simp only [World.next, hrun] at hcoheres ⊢
  refine ⟨hcoheres, ⟨_, rfl, rfl, rfl⟩, ⟨m, hst, hst, hm, hwst, hwst,
    holds_of_view ⟨rfl, fun _ hu => (by cases hu), hseal', _,
    hfile, hseal'⟩⟩, h.header, h.log⟩

/-- The session is left to the watchdog. -/
theorem Stands.deferred {s : Session} {h : Host} (hw : Stands v c n ⟨some s, h⟩) :
    Stands v c n ⟨some s.deferIdleLock, h⟩ := by
  obtain ⟨s', hs, hidle, hl⟩ := hw.session
  cases hs
  obtain ⟨m, hse, hst, h1, h2, h3, hholds⟩ := hw.holds
  refine ⟨⟨hw.coheres.files, fun s' hs' c hc => ?_⟩, ⟨_, rfl, hidle, hl⟩,
    ⟨m, hse, hst, h1, h2, h3, hholds.stored, fun s' hs' => ?_⟩, hw.header, hw.log⟩
  · cases hs'
    have hcoh := hw.coheres.session s rfl c hc
    exact hcoh.congr rfl rfl rfl rfl rfl hcoh.unlocked hcoh.sealed
  · cases hs'
    exact (hholds.session s rfl).congr rfl rfl rfl

/-- The host may be met again. -/
theorem Stands.under {s : Session} {h : Host} (hw : Stands v c n ⟨some s, h⟩) :
    Stands v c n ⟨some s, h.under conditions⟩ := by
  obtain ⟨m, hse, hst, h1, h2, h3, hholds⟩ := hw.holds
  refine ⟨⟨⟨hw.coheres.files.log, hw.coheres.files.stored⟩, fun s' hs' c hc => ?_⟩, hw.session,
    ⟨m, hse, hst, h1, h2, h3, hholds.stored, fun s' hs' => ?_⟩, hw.header, hw.log⟩
  · cases hs'
    exact hw.coheres.session s rfl c hc
  · cases hs'
    exact (hholds.session s rfl).congr rfl rfl rfl

/-- The log of a new vault over an empty log is small. -/
theorem bounded_created {s : Session} {h' : Host} {u : Unlocked} {x : Walk} {entry : StagedEntry}
    (hc : s.Created passphrase healthy h' u x entry) : Bounded ⟨s.envelope.header, u.keys⟩ 1 h'.auditFile := by
  have hx : x = .start := hc.chain.inj (Chain.empty none)
  subst hx
  have hlog : Bounded ⟨s.envelope.header, u.keys⟩ 0 (some []) := by
    rintro content x hf hch
    cases hf
    obtain rfl := hch.inj (Chain.empty _)
    exact ⟨le_refl _, le_refl _⟩
  obtain ⟨ts, hts, hevent⟩ := hc.event
  cases hts
  have hentry : entry = Walk.start.stage createdRecord.event (some u.auditKey) "1970-01-01T00:00:00Z" := by
    have hhash := hc.staged.hashHex
    have hmac := hc.staged.macHex
    cases entry
    dsimp only at hevent hhash hmac
    subst hevent hhash hmac
    rfl
  have hfile : h'.auditFile = some ([] ++ entry.bytes) := hc.auditFile
  rw [hfile, hentry]
  exact hlog.append (Chain.empty _) (Or.inl rfl) (fun k hk => by cases hk; exact hc.auditKey) (by omega)
    brief_lifecycle.1

/-- A new vault over an empty log. -/
theorem stands_created : ∃ s h' u, (Session.create passphrase 0).run healthy = (.ok s, h') ∧ s.unlocked = some u ∧
    Vault.OpenedBy ⟨s.envelope.header, u.keys⟩ passphrase ∧
    Stands ⟨s.envelope.header, u.keys⟩ ⟨some (VaultDocument.new 0), VaultDocument.new 0, VaultDocument.new 0⟩
    1 ⟨some s, h'⟩ := by
  obtain ⟨s, h', hr⟩ := create_empty 0
  obtain ⟨u, x, entry, hc⟩ := create_eq_ok hr
  refine ⟨s, h', u, hr, hc.unlocked, hc.openedBy, ?_⟩
  have hlog := bounded_created hc
  have hx : x = .start := hc.chain.inj (Chain.empty none)
  subst hx
  have hcoheres := hc.coheres (Or.inl rfl) ⟨_, Chain.empty _⟩
  have hholds := hc.holds
  obtain ⟨b, hb, hnew⟩ := hc.envelope
  have hhead : Within 1 ⟨entry.event.seq, entry.hashHex⟩ := by
    refine ⟨?_, ?_⟩
    · rw [hc.staged.hashHex, utf8ByteSize_hex, (entryHash _ entry.event).2]
    · rw [hc.staged.seq]
      exact le_refl _
  have hdoc : u.doc = (VaultDocument.new 0).withHead (some ⟨entry.event.seq, entry.hashHex⟩) := hc.doc
  rw [hdoc] at hholds
  exact ⟨hcoheres, ⟨s, rfl, create_idleTimeout hr, hc.audit.2.2⟩, ⟨_, _, _, hhead, hhead, hhead, hholds⟩,
    length_header hnew.fresh (by rw [hnew.createdAt]; decide), hlog⟩

end

/-! ## A granted agent -/

/-- What a mutation makes of a document. -/
def made {α : Type} (m : Mutation α) (d : VaultDocument) : VaultDocument :=
  match (m.decide d).run healthy with
  | (.ok (d, _), _) => d
  | _ => d

def agentId : String := "0102030405060708"

/-- An empty vault with an agent. -/
def withAgent : VaultDocument := made (.agentAdd "human" "a") (VaultDocument.new 0)

def withProject : VaultDocument := made (.projectAdd "human" "p" []) withAgent

def withSecret : VaultDocument := made (.secretSet "human" "p" "K" [0x76]) withProject

/-- The agent may have the secret injected and revealed. -/
def withGrant : VaultDocument := made (.grantAdd "human" "a" "p" [.inject, .reveal]) withSecret

/-- What is recorded on the way is small, and so are the documents. -/
theorem small_enroll : (Brief (Mutation.agentAdd "human" "a").record ∧ Compact withAgent) ∧
    (Brief (Mutation.projectAdd "human" "p" []).record ∧ Compact withProject) ∧
    (Brief (Mutation.secretSet "human" "p" "K" [0x76]).record ∧ Compact withSecret) ∧
    Brief (Mutation.grantAdd "human" "a" "p" [.inject, .reveal]).record ∧ Compact withGrant := by
  decide +kernel

theorem decides_agentAdd (saves : Nat → Option IoError) :
    Decides (.agentAdd "human" "a") { conditions with saves } (VaultDocument.new 0) withAgent
      (agentId, "000102030405060708090a0b0c0d0e0f101112131415161718191a1b1c1d1e1f") :=
  fun _ _ => ⟨rfl, Option.some_ne_none _⟩

theorem lands_agentAdd : Lands (.agentAdd "human" "a") (VaultDocument.new 0) withAgent
    (agentId, "000102030405060708090a0b0c0d0e0f101112131415161718191a1b1c1d1e1f") :=
  ⟨decides_agentAdd _, trivial, small_enroll.1.1, small_enroll.1.2⟩

theorem decides_projectAdd (appends : Nat → AppendOutcome) :
    Decides (.projectAdd "human" "p" []) { conditions with appends } withAgent withProject "0001020304050607" :=
  fun _ _ => ⟨rfl, Option.some_ne_none _⟩

theorem lands_projectAdd : Lands (.projectAdd "human" "p" []) withAgent withProject "0001020304050607" :=
  ⟨decides_projectAdd _, trivial, small_enroll.2.1.1, small_enroll.2.1.2⟩

theorem lands_secretSet : Lands (.secretSet "human" "p" "K" [0x76]) withProject withSecret () :=
  ⟨fun _ _ => ⟨rfl, Option.some_ne_none _⟩, trivial, small_enroll.2.2.1.1, small_enroll.2.2.1.2⟩

theorem lands_grantAdd : Lands (.grantAdd "human" "a" "p" [.inject, .reveal]) withSecret withGrant () :=
  ⟨fun _ _ => ⟨rfl, Option.some_ne_none _⟩, trivial, small_enroll.2.2.2.1, small_enroll.2.2.2.2⟩

/-- What a human does before an agent can do anything. -/
def enroll : List Step :=
  [⟨conditions, .call (.mutate (.agentAdd "human" "a"))⟩, ⟨conditions, .call (.mutate (.projectAdd "human" "p" []))⟩,
    ⟨conditions, .call (.mutate (.secretSet "human" "p" "K" [0x76]))⟩,
    ⟨conditions, .call (.mutate (.grantAdd "human" "a" "p" [.inject, .reveal]))⟩]

theorem honest_enroll {v : Vault} {w : World} : v.HonestRun w enroll :=
  ⟨honest_of_mutate, honest_of_mutate, honest_of_mutate, honest_of_mutate, trivial⟩

theorem Stands.enroll {v : Vault} {w : World} {se st : VaultDocument}
    (h : Stands v ⟨some (VaultDocument.new 0), se, st⟩ 1 w) :
    Stands v ⟨some withGrant, withGrant, withGrant⟩ 5 (w.after enroll) := by
  have hagent := h.mutate (by omega) lands_agentAdd
  have hproject := hagent.mutate (by omega) lands_projectAdd
  have hsecret := hproject.mutate (by omega) lands_secretSet
  exact hsecret.mutate (by omega) lands_grantAdd

/-! ## A lease -/

def leaseCredential : String := "0102030405060708090a0b0c0d0e0f101112131415161718191a1b1c1d1e1f20"

def leased : Lease :=
  { id := "0001020304050607", agentId, projectId := "0001020304050607", ops := [.inject],
    credentialHash := (tokenDigest leaseCredential).1, credentialPrefix := "16bd1c4a", createdAt := 0,
    expiresAt := seconds 60, revokedAt := none }

/-- The granted agent has a lease. -/
def withLease : VaultDocument := { withGrant with leases := [leased] }

theorem made_leaseCreate : (((Mutation.leaseCreate "agent:a" agentId "p" [.inject] 60).decide withGrant).run
    healthy).1 = .ok (withLease, leased, leaseCredential) := by
  decide +kernel

theorem decides_leaseCreate : Decides (.leaseCreate "agent:a" agentId "p" [.inject] 60) conditions withGrant withLease
    (leased, leaseCredential) := by
  intro head h
  refine ⟨?_, Option.some_ne_none _⟩
  -- the checkpoint is not looked at
  have hhead : ((Mutation.decide (.leaseCreate "agent:a" agentId "p" [.inject] 60) (withGrant.withHead (some head))).run
      (h.under conditions)).1 =
        ((((Mutation.leaseCreate "agent:a" agentId "p" [.inject] 60).decide withGrant).run healthy).1 >>= fun r =>
          .ok (r.1.withHead (some head), r.2)) := rfl
  rw [hhead, made_leaseCreate]
  rfl

/-- What the lease adds is small, and so is what a lock leaves of it; and it covers what it was taken for. -/
theorem small_lease : Brief (Mutation.leaseCreate "agent:a" agentId "p" [.inject] 60).record ∧ Compact withLease ∧
    Compact (lockAll 0 withLease) ∧
    leaseVerdict withLease agentId "p" .inject (some leaseCredential) 0 = .allow "lease:0001020304050607" ∧
    Brief { actor := "lease:0001020304050607", op := "authorize", project := some "p", decision := .allowed } := by
  decide +kernel

theorem lands_leaseCreate : Lands (.leaseCreate "agent:a" agentId "p" [.inject] 60) withGrant withLease
    (leased, leaseCredential) :=
  ⟨decides_leaseCreate, trivial, small_lease.1, small_lease.2.1⟩

/-- The lease is accepted wherever the granted agent has it. -/
theorem Stands.acceptsLease {v : Vault} {w : World} {n : Nat} {se st : VaultDocument}
    (h : Stands v ⟨some withLease, se, st⟩ n w) (hn : n < 100) :
    ∃ s t, w.sys conditions = some s ∧ (authorizeLease agentId "p" .inject (some leaseCredential)).run s =
      (.ok "lease:0001020304050607", t) :=
  h.authorizes hn agentId "p" "lease:0001020304050607" .inject (some leaseCredential)
    small_lease.2.2.2.1 small_lease.2.2.2.2

theorem Stands.leaseCreate {v : Vault} {w : World} {n : Nat} {se st : VaultDocument}
    (h : Stands v ⟨some withGrant, se, st⟩ n w) (hn : n < 100) :
    Stands v ⟨some withLease, withLease, withLease⟩ (n + 1)
      (w.next ⟨conditions, .call (.mutate (.leaseCreate "agent:a" agentId "p" [.inject] 60))⟩) :=
  h.mutate hn lands_leaseCreate

/-- The granted agent takes a lease. -/
def takeLease : List Step := enroll ++ [⟨conditions, .call (.mutate (.leaseCreate "agent:a" agentId "p" [.inject] 60))⟩]

theorem Stands.takeLease {v : Vault} {w : World} {se st : VaultDocument}
    (h : Stands v ⟨some (VaultDocument.new 0), se, st⟩ 1 w) :
    Stands v ⟨some withLease, withLease, withLease⟩ 6 (w.after takeLease) := by
  rw [Reference.takeLease, World.after_append]
  exact h.enroll.leaseCreate (by omega)

theorem honest_takeLease {v : Vault} {w : World} : v.HonestRun w takeLease :=
  World.Along.append.mpr ⟨honest_enroll, honest_of_mutate, trivial⟩

theorem Stands.takeLease_stores {v : Vault} {w : World} {se st : VaultDocument}
    (h : Stands v ⟨some (VaultDocument.new 0), se, st⟩ 1 w) :
    w.Along (fun w st => ∀ a, st.Attempts w a → a.Stores) Reference.takeLease := by
  have hagent := h.mutate (by omega) lands_agentAdd
  have hproject := hagent.mutate (by omega) lands_projectAdd
  have hsecret := hproject.mutate (by omega) lands_secretSet
  have hgrant := hsecret.mutate (by omega) lands_grantAdd
  exact ⟨h.lands_stores (by omega) lands_agentAdd, hagent.lands_stores (by omega) lands_projectAdd,
    hproject.lands_stores (by omega) lands_secretSet, hsecret.lands_stores (by omega) lands_grantAdd,
    hgrant.lands_stores (by omega) lands_leaseCreate, trivial⟩

end Reference

end SecretsVault
