import Mathlib.Data.List.Nodup
import SecretsVault.AuditAppend
import SecretsVault.Reference
import SecretsVault.Lib.HashChain

/-!
# Tampering with the audit log

What a writer who does not hold the audit key can do to a log without being noticed by an unlock, which walks the file
under the key and checks the vault's checkpoint.

- `Linked key prev seq ls`: the entries a walk accepts behind a head; `foldlM_walkLine_iff` is the equivalence.
- `Appended key log content`: the logs that are written by appends, with and without the key.
- `Keyless key honest forged`: the forged entries carry no tag that is not in the honest log, and the hashes of the two
  logs do not collide.
- `tamper_evident`: an accepted file agrees with the honest log up to the checkpoint and up to its last MAC.
- `tampered_behind`: where an accepted file changed an entry, it carries no MAC from there on, and counts them as
  missing.
- `stripped_accepted`: a log with any of its MACs dropped is accepted.
-/

namespace SecretsVault

open Lib

/-! ## Linked entries -/

section

variable [Crypto] [AuditJson]

/-- The entries a walk accepts behind the head `prev` of `seq` entries. -/
def Linked (key : Option SecretKey) (prev : Digest) (seq : Nat) : List AuditLine → Prop
  | [] => True
  | l :: ls => l.event.seq = seq + 1 ∧ unhex l.event.prevHash = .ok prev ∧
      unhex l.hash = .ok (entryHash prev l.event) ∧ MacOk key l ∧ Linked key (entryHash prev l.event) (seq + 1) ls

/-- The events of entries. -/
def events (ls : List AuditLine) : List AuditEvent := ls.map (·.event)

/-- The head behind entries. -/
def headOf (prev : Digest) (ls : List AuditLine) : Digest := HashChain.head entryHash prev (events ls)

/-- How many entries carry no MAC. -/
def countNull (ls : List AuditLine) : Nat := ls.countP fun l => l.mac.isNone

omit [Crypto] in
theorem parseLine_eq_ok {b : Bytes} {l : AuditLine} : parseLine b = .ok l ↔ AuditJson.lineFromStr b = some l := by
  unfold parseLine
  cases AuditJson.lineFromStr b <;> simp

theorem checkMac_some {k : SecretKey} {l : AuditLine} {r r' : VerifyReport} (h : checkMac (some k) l r = .ok r') :
    r'.macsNull = r.macsNull + countNull [l] := by
  unfold checkMac at h
  split at h
  · rename_i hm hk
    obtain ⟨_, -, h⟩ := Outcome.bind_eq_ok h
    obtain ⟨_, -, h⟩ := Outcome.bind_eq_ok h
    split at h
    · cases h
    · cases h
      simp [countNull, hm]
  · rename_i hnone
    cases h
    have hm : l.mac = none := by
      cases hmac : l.mac with
      | none => rfl
      | some m => exact (hnone m k hmac rfl).elim
    simp [countNull, hm]

/-- A walk under a key that ends counts the entries without a MAC. -/
theorem foldlM_walkLine_null {k : SecretKey} {bs : List Bytes} {ls : List AuditLine}
    (hp : bs.mapM parseLine = .ok ls) {w w' : Walk} (h : bs.foldlM (walkLine (some k)) w = .ok w') :
    w'.report.macsNull = w.report.macsNull + countNull ls := by
  induction bs generalizing w ls with
  | nil => cases hp; cases h; rfl
  | cons b bs ih =>
    rw [List.mapM_cons] at hp
    obtain ⟨l, hl, hp⟩ := Except.bind_eq_ok hp
    obtain ⟨ls', hls, hp⟩ := Except.bind_eq_ok hp
    cases hp
    rw [List.foldlM_cons] at h
    obtain ⟨w1, h1, h⟩ := Outcome.bind_eq_ok h
    have hrest := ih hls h
    have hone : w1.report.macsNull = w.report.macsNull + countNull [l] := by
      obtain ⟨l', hl', h1⟩ := Outcome.bind_eq_ok h1
      rw [parseLine_eq_ok.mp hl] at hl'
      cases hl'
      dsimp only at h1
      split at h1; · cases h1
      obtain ⟨prev, -, h1⟩ := Outcome.bind_eq_ok h1
      split at h1; · cases h1
      obtain ⟨hash, -, h1⟩ := Outcome.bind_eq_ok h1
      split at h1; · cases h1
      obtain ⟨report, hr, h1⟩ := Outcome.bind_eq_ok h1
      cases h1
      have := checkMac_some hr
      exact this
    rw [hrest, hone]
    simp only [countNull, List.countP_cons, List.countP_nil]
    omega

/-- A walk ends exactly on linked entries, at their head. -/
theorem foldlM_walkLine_iff {key : Option SecretKey} {bs : List Bytes} {ls : List AuditLine}
    (hp : bs.mapM parseLine = .ok ls) {w : Walk} {d : Digest} :
    (∃ w', bs.foldlM (walkLine key) w = .ok w' ∧ w'.prev = d) ↔ Linked key w.prev w.seq ls ∧ d = headOf w.prev ls := by
  induction bs generalizing w ls with
  | nil =>
    cases hp
    simp [Linked, headOf, events, List.foldlM_nil, eq_comm]
  | cons b bs ih =>
    rw [List.mapM_cons] at hp
    obtain ⟨l, hl, hp⟩ := Except.bind_eq_ok hp
    obtain ⟨ls', hls, hp⟩ := Except.bind_eq_ok hp
    cases hp
    rw [parseLine_eq_ok] at hl
    rw [List.foldlM_cons]
    constructor
    · rintro ⟨w', hw, hd⟩
      obtain ⟨w1, h1, hw⟩ := Outcome.bind_eq_ok hw
      obtain ⟨l', hl', hseq, hprev, hhash, heq, hs1, hmac, -⟩ := walkLine_eq_ok h1
      rw [hl] at hl'
      cases hl'
      have := (ih hls).mp ⟨w', hw, hd⟩
      rw [heq, hs1] at this
      rw [heq] at hhash
      exact ⟨⟨hseq, hprev, hhash, hmac, this.1⟩, this.2⟩
    · rintro ⟨⟨hseq, hprev, hhash, hmac, hrest⟩, hd⟩
      obtain ⟨w1, h1, hp1, hs1⟩ := walkLine_of_link hl hseq hprev hhash hmac
      rw [← hp1, ← hs1] at hrest
      obtain ⟨w', hw', hd'⟩ := (ih hls (w := w1)).mpr ⟨hrest, by rw [hd, hp1]; rfl⟩
      exact ⟨w', by rw [h1]; exact hw', hd'⟩

omit [Crypto] in
theorem readAll_eq_ok {content : Bytes} {ls : List AuditLine} :
    readAll (some content) = .ok ls ↔ utf8Valid content = true ∧ (auditLines content).mapM parseLine = .ok ls := by
  constructor
  · intro h
    obtain ⟨c, hc, h⟩ := Except.bind_eq_ok h
    obtain ⟨hf, hu⟩ := readToString_eq_ok hc
    cases hf
    exact ⟨hu, h⟩
  · rintro ⟨hu, h⟩
    rw [readAll, readToString_some hu]
    exact h

/-- The entries of an accepted file are linked. -/
theorem Chain.linked {key : Option SecretKey} {content : Bytes} {w : Walk} (h : Chain key content w)
    {ls : List AuditLine} (hls : SecretsVault.readAll (some content) = .ok ls) :
    Linked key (FixedBytes.zero 32) 0 ls ∧ w.prev = headOf (FixedBytes.zero 32) ls :=
  (foldlM_walkLine_iff (readAll_eq_ok.mp hls).2 (w := .start)).mp ⟨w, h.walk, rfl⟩

/-- What holds of one of the linked entries. -/
theorem Linked.get {key : Option SecretKey} {prev : Digest} {seq : Nat} {before after : List AuditLine} {l : AuditLine}
    (h : Linked key prev seq (before ++ l :: after)) : l.event.seq = seq + before.length + 1 ∧
      unhex l.event.prevHash = .ok (headOf prev before) ∧
      unhex l.hash = .ok (entryHash (headOf prev before) l.event) ∧ MacOk key l := by
  induction before generalizing prev seq with
  | nil => exact ⟨h.1, h.2.1, h.2.2.1, h.2.2.2.1⟩
  | cons b before ih =>
    have := ih h.2.2.2.2
    rw [List.length_cons]
    exact ⟨by omega, this.2⟩

/-- The first of linked entries are linked. -/
theorem Linked.left {key : Option SecretKey} {prev : Digest} {seq : Nat} {before after : List AuditLine}
    (h : Linked key prev seq (before ++ after)) : Linked key prev seq before := by
  induction before generalizing prev seq with
  | nil => trivial
  | cons b before ih => exact ⟨h.1, h.2.1, h.2.2.1, h.2.2.2.1, ih h.2.2.2.2⟩

/-- The entry a checkpoint names. -/
theorem checkpointLines_eq_ok {bs : List Bytes} {ls : List AuditLine} (hp : bs.mapM parseLine = .ok ls)
    {headSeq seq : Nat} {headHash : String} {prev : Digest}
    (h : checkpointLines headSeq headHash prev seq bs = .ok ()) :
    ∃ before l after, ls = before ++ l :: after ∧ headSeq = seq + before.length + 1 ∧ l.hash = headHash := by
  induction bs generalizing ls prev seq with
  | nil => cases h
  | cons b bs ih =>
    rw [List.mapM_cons] at hp
    obtain ⟨l, hl, hp⟩ := Except.bind_eq_ok hp
    obtain ⟨ls', hls, hp⟩ := Except.bind_eq_ok hp
    cases hp
    obtain ⟨l', hl', h⟩ := Outcome.bind_eq_ok h
    rw [parseLine_eq_ok.mp hl] at hl'
    cases hl'
    dsimp only at h
    split at h; · cases h
    split at h
    · rename_i heq
      obtain ⟨hash, -, h⟩ := Outcome.bind_eq_ok h
      split at h; · cases h
      rename_i hne
      rw [not_or, not_not, not_not] at hne
      exact ⟨[], l, ls', rfl, by simp [heq], hne.2⟩
    · obtain ⟨before, l', after, rfl, hs, hh⟩ := ih hls h
      exact ⟨l :: before, l', after, rfl, by rw [List.length_cons]; omega, hh⟩

/-! ## The honest log -/

/-- An entry that was staged, with or without the key, or got its MAC afterwards. -/
def StagedEntry.Built (key : SecretKey) (s : StagedEntry) : Prop :=
  ∃ (log : AuditLog) (event : String → Nat → String → AuditEvent) (mac : Option SecretKey) (priority : Priority)
    (h : Host) (s0 : StagedEntry), Positioned event ∧ (mac = none ∨ mac = some key) ∧
      log.stageEvent event mac priority h = .ok s0 ∧ (s = s0 ∨ s0.macWith key = .ok s)

/-- The logs that successful appends write, from an empty file on. -/
inductive Appended (key : SecretKey) : AuditLog → Bytes → Prop
  | start (limits : Limits) : Appended key { seq := 0, lastHash := FixedBytes.zero 32, limits } []
  | append {log log' : AuditLog} {content content' : Bytes} {h h' : Host} {s : StagedEntry}
      (before : Appended key log content) (hf : h.auditFile = some content) (built : s.Built key)
      (hrun : (AuditLog.appendStaged s).run (log, h) = (.ok (), (log', h'))) (hf' : h'.auditFile = some content') :
      Appended key log' content'

theorem stageEvent_eq_ok {log : AuditLog} {event : String → Nat → String → AuditEvent} {mac : Option SecretKey}
    {priority : Priority} {h : Host} {s : StagedEntry} (hev : Positioned event)
    (hst : log.stageEvent event mac priority h = .ok s) :
    ∃ d : Digest, s.event.prevHash = hex d.1 ∧ s.macHex = mac.map fun k => hex (entryMac k d s.event).1 := by
  unfold AuditLog.stageEvent at hst
  obtain ⟨synced, -, hst⟩ := Outcome.bind_eq_ok hst
  obtain ⟨ts, -, hst⟩ := Outcome.bind_eq_ok hst
  obtain ⟨-, -, hst⟩ := Outcome.bind_eq_ok hst
  cases hst
  exact ⟨synced.lastHash, (hev _ _ _).2, rfl⟩

/-- A staged entry names some head, and its MAC, if it has one, is that of the key behind this head. -/
theorem StagedEntry.Built.eq {key : SecretKey} {s : StagedEntry} (h : s.Built key) : ∃ (d : Digest)
    (mac : Option SecretKey), s.event.prevHash = hex d.1 ∧ (mac = none ∨ mac = some key) ∧
      s.macHex = mac.map fun k => hex (entryMac k d s.event).1 := by
  obtain ⟨log, event, mac, priority, host, s0, hev, hmac, hst, hs⟩ := h
  obtain ⟨d, hd, hm⟩ := stageEvent_eq_ok hev hst
  rcases hs with rfl | hs
  · exact ⟨d, mac, hd, hmac, hm⟩
  · simp only [StagedEntry.macWith, hd, unhex_hex] at hs
    cases hs
    exact ⟨d, some key, hd, Or.inr rfl, rfl⟩

/-- An entry that was written had been staged at the head of the file. -/
theorem appendStaged_at {key : SecretKey} {s : StagedEntry} (hb : s.Built key) {content : Bytes} {w : Walk}
    {log log' : AuditLog} {h h' : Host} (hch : Chain (some key) content w) (hsync : InSync log w)
    (hf : h.auditFile = some content) (hrun : (AuditLog.appendStaged s).run (log, h) = (.ok (), (log', h'))) :
    ∃ mac, (mac = none ∨ mac = some key) ∧ s.At mac w := by
  obtain ⟨d, mac, hd, hmac, hm⟩ := hb.eq
  have hr : log.resync (some content) = .ok (log.synced w) := hch.resync hsync
  unfold AuditLog.appendStaged at hrun
  simp only [Prog.run_bind, Prog.run_get, Prog.run_lift, hf, hr, Prog.run_modify] at hrun
  split at hrun; · cases hrun
  rename_i hseq
  rw [hd, unhex_hex] at hrun
  simp only [Prog.run_bind, Prog.run_lift] at hrun
  split at hrun; · cases hrun
  rename_i hlast
  split at hrun; · cases hrun
  rename_i hhash
  simp only [ne_eq, not_not] at hseq hlast hhash
  rw [hlast] at hd hm
  exact ⟨mac, hmac, hseq, hd, hhash.symm, hm⟩

/-- The log stays one that is accepted under the key, with the head in step. -/
theorem Appended.chain [LawfulAuditJson] {key : SecretKey} {log : AuditLog} {content : Bytes}
    (h : Appended key log content) : Terminated content ∧ ∃ w, Chain (some key) content w ∧ InSync log w := by
  induction h with
  | start limits => exact ⟨Or.inl rfl, .start, Chain.empty _, Or.inr ⟨rfl, rfl⟩⟩
  | @append log log' content content' host host' s before hf built hrun hf' ih =>
    obtain ⟨ht, w, hch, hsync⟩ := ih
    obtain ⟨mac, hmac, hat⟩ := appendStaged_at built hch hsync hf hrun
    have hc : Compatible mac (some key) := by rcases hmac with rfl | rfl <;> simp [Compatible]
    obtain ⟨w', hch', hp', hs'⟩ := hat.chain hc hch ht
    rw [AuditLog.appendStaged_run hat hch hsync hf] at hrun
    split at hrun <;> cases hrun
    cases hf'
    exact ⟨terminated_bytes _ _, w', hch', Or.inr ⟨hs'.symm, hp'.symm⟩⟩

/-! ## The writer without the key -/

/-- What is hashed for an event behind a head. -/
def hashed (p : Digest × AuditEvent) : Bytes := p.1.1 ++ AuditJson.eventToVec p.2

/-- The links of a log. -/
def links (ls : List AuditLine) : Set (Digest × AuditEvent) :=
  HashChain.Links entryHash (FixedBytes.zero 32) (events ls)

/-- The forged log is that of a writer without the key: SHA-256, and HMAC over it, do not collide on what is hashed for
the two logs, and a tag that verifies is one of the honest log. -/
structure Keyless (key : SecretKey) (honest forged : List AuditLine) : Prop where
  sha_inj : Set.InjOn Crypto.sha256 (hashed '' (links honest ∪ links forged))
  mac_inj : Set.InjOn (Crypto.hmacSha256 key) (hashed '' (links honest ∪ links forged))
  reused : ∀ l ∈ forged, ∀ m, l.mac = some m → MacOk (some key) l →
    ∃ l' ∈ honest, ∃ m', l'.mac = some m' ∧ unhex m' = unhex m

omit [Crypto] in
theorem hashed_inj (hcanon : Function.Injective AuditJson.eventToVec) {p q : Digest × AuditEvent}
    (h : hashed p = hashed q) : p = q := by
  obtain ⟨⟨d, hd⟩, e⟩ := p
  obtain ⟨⟨d', hd'⟩, e'⟩ := q
  obtain ⟨h1, h2⟩ := List.append_inj h (by rw [hd, hd'])
  cases h1
  cases hcanon h2
  rfl

/-- The place of the last entry with a MAC, counted from 1; 0 without one. -/
def lastMac : List AuditLine → Nat
  | [] => 0
  | l :: ls => if 0 < lastMac ls then lastMac ls + 1 else if l.mac.isSome then 1 else 0

omit [Crypto] [AuditJson] in
theorem lastMac_spec (ls : List AuditLine) : lastMac ls = 0 ∨ ∃ before l after m, ls = before ++ l :: after ∧
    l.mac = some m ∧ lastMac ls = before.length + 1 := by
  induction ls with
  | nil => exact Or.inl rfl
  | cons l ls ih =>
    rw [lastMac]
    split
    · rename_i hpos
      obtain ⟨before, l', after, m, rfl, hm, hlen⟩ := ih.resolve_left (by omega)
      exact Or.inr ⟨l :: before, l', after, m, rfl, hm, by rw [hlen, List.length_cons]⟩
    · split
      · rename_i hm
        obtain ⟨m, hm⟩ := Option.isSome_iff_exists.mp hm
        exact Or.inr ⟨[], l, ls, m, rfl, hm, rfl⟩
      · exact Or.inl rfl

omit [Crypto] [AuditJson] in
/-- No entry behind the last MAC has one. -/
theorem lastMac_behind {before after : List AuditLine} {l : AuditLine}
    (h : lastMac (before ++ l :: after) ≤ before.length) : l.mac = none := by
  induction before with
  | nil =>
    simp only [List.nil_append, lastMac, List.length_nil, Nat.le_zero] at h
    split at h
    · cases h
    · split at h
      · cases h
      · simpa using ‹¬l.mac.isSome = true›
  | cons b before ih =>
    apply ih
    simp only [List.cons_append, lastMac, List.length_cons] at h
    split at h
    · omega
    · omega

section

variable {key : SecretKey} {ls ls' : List AuditLine}

theorem Keyless.entryHash_inj (h : Keyless key ls ls') (hcanon : Function.Injective AuditJson.eventToVec) :
    Set.InjOn (fun p : Digest × AuditEvent => entryHash p.1 p.2) (links ls ∪ links ls') := fun _ hp _ hq heq =>
  hashed_inj hcanon (h.sha_inj ⟨_, hp, rfl⟩ ⟨_, hq, rfl⟩ heq)

theorem Keyless.entryMac_inj (h : Keyless key ls ls') (hcanon : Function.Injective AuditJson.eventToVec) :
    Set.InjOn (fun p : Digest × AuditEvent => entryMac key p.1 p.2) (links ls ∪ links ls') := fun _ hp _ hq heq =>
  hashed_inj hcanon (h.mac_inj ⟨_, hp, rfl⟩ ⟨_, hq, rfl⟩ heq)

theorem mem_links (before : List AuditLine) (l : AuditLine) (after : List AuditLine) :
    (headOf (FixedBytes.zero 32) before, l.event) ∈ links (before ++ l :: after) := by
  simp only [links, events, List.map_append, List.map_cons]
  exact HashChain.Links.intro _ _ _

/-- Entries with one number and one hash have the same entries before them. -/
theorem Keyless.agree (h : Keyless key ls ls') (hcanon : Function.Injective AuditJson.eventToVec)
    {before before' after after' : List AuditLine} {l l' : AuditLine} (hls : ls = before ++ l :: after)
    (hls' : ls' = before' ++ l' :: after') (hlen : before.length = before'.length)
    (hhash : entryHash (headOf (FixedBytes.zero 32) before) l.event =
      entryHash (headOf (FixedBytes.zero 32) before') l'.event) :
    events (before ++ [l]) = events (before' ++ [l']) := by
  have hsub : ∀ (b a : List AuditLine) (x : AuditLine), HashChain.Links entryHash (FixedBytes.zero 32)
      (events (b ++ [x])) ⊆ links (b ++ x :: a) := by
    intro b a x
    have hsplit : events (b ++ x :: a) = events (b ++ [x]) ++ events a := by simp [events]
    rw [links, hsplit]
    exact HashChain.Links.append _
  apply HashChain.head_inj (h.entryHash_inj hcanon)
  · rw [hls]; exact (hsub _ _ _).trans Set.subset_union_left
  · rw [hls']; exact (hsub _ _ _).trans Set.subset_union_right
  · simp [events, hlen]
  · simp only [events, List.map_append, List.map_cons, List.map_nil, HashChain.head_concat]
    exact hhash

omit [Crypto] [AuditJson] in
/-- Lists that agree up to an entry agree on everything up to it. -/
theorem take_events {before before' after after' : List AuditLine} {l l' : AuditLine}
    (h : events (before ++ [l]) = events (before' ++ [l'])) (hlen : before.length = before'.length) :
    before.length + 1 ≤ (before ++ l :: after).length ∧ before.length + 1 ≤ (before' ++ l' :: after').length ∧
      (events (before' ++ l' :: after')).take (before.length + 1) =
        (events (before ++ l :: after)).take (before.length + 1) := by
  have htake : ∀ (b a : List AuditLine) (x : AuditLine),
      (events (b ++ x :: a)).take (b.length + 1) = events (b ++ [x]) := by
    intro b a x
    have : b ++ x :: a = (b ++ [x]) ++ a := by simp
    rw [this, events, List.map_append, ← events, List.take_left' (by simp [events])]
  refine ⟨by simp, by simp [hlen], ?_⟩
  rw [htake, hlen, htake, h]

/-- An accepted checkpoint of the honest log. -/
theorem Keyless.agree_checkpoint (h : Keyless key ls ls') (hcanon : Function.Injective AuditJson.eventToVec)
    (hlinked : Linked (some key) (FixedBytes.zero 32) 0 ls) (hlinked' : Linked (some key) (FixedBytes.zero 32) 0 ls')
    {s : Nat} {hash : String} (hs : ∃ l ∈ ls, l.event.seq = s ∧ l.hash = hash)
    (hs' : ∃ before l after, ls' = before ++ l :: after ∧ s = before.length + 1 ∧ l.hash = hash) :
    s ≤ ls.length ∧ s ≤ ls'.length ∧ (events ls').take s = (events ls).take s := by
  obtain ⟨l, hl, hseq, hhash⟩ := hs
  obtain ⟨before', l', after', rfl, hs', hhash'⟩ := hs'
  obtain ⟨before, after, rfl⟩ := List.append_of_mem hl
  obtain ⟨hn, -, hh, -⟩ := hlinked.get
  obtain ⟨-, -, hh', -⟩ := hlinked'.get
  have hlen : before.length = before'.length := by omega
  rw [hhash, ← hhash', hh'] at hh
  have := @take_events before before' after after' l l'
    (h.agree hcanon rfl rfl hlen (Outcome.ok.inj hh).symm) hlen
  rwa [show before.length + 1 = s by omega] at this

/-- An entry of an accepted file that carries a MAC. -/
theorem Keyless.agree_mac (h : Keyless key ls ls') (hcanon : Function.Injective AuditJson.eventToVec)
    (hlinked : Linked (some key) (FixedBytes.zero 32) 0 ls) (hlinked' : Linked (some key) (FixedBytes.zero 32) 0 ls')
    {before' after' : List AuditLine} {l' : AuditLine} {m : String} (hls' : ls' = before' ++ l' :: after')
    (hm : l'.mac = some m) : before'.length + 1 ≤ ls.length ∧ before'.length + 1 ≤ ls'.length ∧
      (events ls').take (before'.length + 1) = (events ls).take (before'.length + 1) := by
  subst hls'
  obtain ⟨hn', hprev', -, hmac'⟩ := hlinked'.get
  obtain ⟨l, hl, m0, hm0, heq⟩ := h.reused l' (by simp) m hm hmac'
  obtain ⟨before, after, rfl⟩ := List.append_of_mem hl
  obtain ⟨hn, hprev, -, hmac⟩ := hlinked.get
  -- The tag is that of an entry of the honest log: the messages are the same, and so is the number.
  obtain ⟨p, hp, hu⟩ := hmac m0 key hm0 rfl
  obtain ⟨p', hp', hu'⟩ := hmac' m key hm rfl
  rw [hprev] at hp
  rw [hprev'] at hp'
  cases hp
  cases hp'
  rw [heq, hu'] at hu
  have hpair := h.entryMac_inj hcanon (Or.inr (mem_links before' l' after')) (Or.inl (mem_links before l after))
    (Outcome.ok.inj hu)
  simp only [Prod.mk.injEq] at hpair
  have hlen : before.length = before'.length := by rw [hpair.2] at hn'; omega
  have := @take_events before before' after after' l l'
    (h.agree hcanon rfl rfl hlen (by rw [hpair.1, hpair.2])) hlen
  rwa [hlen] at this

end

/-- Whoever does not hold the audit key cannot reorder, insert, delete or rewrite entries before the checkpoint or
before the last entry of the file that still carries a MAC. -/
theorem tamper_evident [LawfulAuditJson] (hcanon : Function.Injective AuditJson.eventToVec) {key : SecretKey}
    {log : AuditLog} {content : Bytes} (h : Appended key log content) {ls : List AuditLine}
    (hls : readAll (some content) = .ok ls) {s : Nat} {hash : String} (hs : ∃ l ∈ ls, l.event.seq = s ∧ l.hash = hash)
    {forged : Bytes} {ls' : List AuditLine} (hls' : readAll (some forged) = .ok ls') (hkeyless : Keyless key ls ls')
    {r : VerifyReport × Digest} (hwalk : walk (some key) (some forged) = .ok r)
    (hcheck : checkCheckpoint (some forged) s hash = .ok ()) :
    max s (lastMac ls') ≤ ls.length ∧ max s (lastMac ls') ≤ ls'.length ∧
      (events ls').take (max s (lastMac ls')) = (events ls).take (max s (lastMac ls')) := by
  obtain ⟨-, w, hch, -⟩ := h.chain
  have hlinked := (hch.linked hls).1
  obtain ⟨forged', w', hf, hch', -⟩ := walk_eq_ok.mp (show walk (some key) (some forged) = .ok (r.1, r.2) from hwalk)
  cases hf
  have hlinked' := (hch'.linked hls').1
  obtain ⟨c, hc, hcheck⟩ := Outcome.bind_eq_ok hcheck
  cases (readToString_eq_ok (Outcome.ofExcept_eq_ok hc)).1
  obtain ⟨b, l, a, rfl, hseq, hl⟩ := checkpointLines_eq_ok (readAll_eq_ok.mp hls').2 hcheck
  have hcp := hkeyless.agree_checkpoint hcanon hlinked hlinked' hs ⟨b, l, a, rfl, by omega, hl⟩
  rcases lastMac_spec (b ++ l :: a) with h0 | ⟨before, l', after, m, heq, hm, hlen⟩
  · rwa [h0, Nat.max_zero]
  · have hmac := hkeyless.agree_mac hcanon hlinked hlinked' heq hm
    rw [← hlen] at hmac
    rcases Nat.le_total s (lastMac (b ++ l :: a)) with hle | hle
    · rwa [Nat.max_eq_right hle]
    · rwa [Nat.max_eq_left hle]

/-! ## Dropped MACs -/

/-- Entries with the MACs at some places dropped. -/
def dropMacs (drop : Nat → Bool) (ls : List AuditLine) : List AuditLine :=
  ls.mapIdx fun i l => if drop i then { l with mac := none } else l

/-- The file of entries. -/
def logText (ls : List AuditLine) : Bytes := ls.flatMap fun l => AuditJson.lineToString l ++ [lf]

omit [Crypto] in
theorem auditLines_logText [LawfulAuditJson] (ls : List AuditLine) :
    auditLines (logText ls) = ls.map AuditJson.lineToString := by
  induction ls with
  | nil => rfl
  | cons l ls ih =>
    rw [logText, List.flatMap_cons, auditLines_append (terminated_append_lf _), auditLines_line, ← logText, ih]
    rfl

omit [Crypto] in
theorem readAll_logText [LawfulAuditJson] (ls : List AuditLine) : readAll (some (logText ls)) = .ok ls := by
  rw [readAll_eq_ok, auditLines_logText]
  constructor
  · induction ls with
    | nil => rfl
    | cons l ls ih => exact utf8Valid_append (utf8Valid_line l) ih
  · induction ls with
    | nil => rfl
    | cons l ls ih =>
      rw [List.map_cons, List.mapM_cons, ih, parseLine, LawfulAuditJson.line_roundtrip]
      rfl

theorem Linked.dropMacs {key : Option SecretKey} {prev : Digest} {seq : Nat} {ls : List AuditLine} (drop : Nat → Bool)
    (h : Linked key prev seq ls) : Linked key prev seq (dropMacs drop ls) := by
  induction ls generalizing prev seq drop with
  | nil => exact h
  | cons l ls ih =>
    obtain ⟨hseq, hprev, hhash, hmac, h⟩ := h
    rw [SecretsVault.dropMacs, List.mapIdx_cons]
    have hrest := ih (fun i => drop (i + 1)) h
    split
    · exact ⟨hseq, hprev, hhash, fun _ _ hm => (nomatch hm), hrest⟩
    · exact ⟨hseq, hprev, hhash, hmac, hrest⟩

/-- A file of linked entries is accepted, and every entry without a MAC is counted. -/
theorem Linked.walk [LawfulAuditJson] {key : SecretKey} {ls : List AuditLine}
    (h : Linked (some key) (FixedBytes.zero 32) 0 ls) : ∃ w, Chain (some key) (logText ls) w ∧
      w.report.entries = ls.length ∧ w.report.macsNull = countNull ls := by
  obtain ⟨hu, hp⟩ := readAll_eq_ok.mp (readAll_logText ls)
  obtain ⟨w, hw, -⟩ := (foldlM_walkLine_iff hp (w := .start)).mpr ⟨h, rfl⟩
  refine ⟨w, ⟨hu, hw⟩, ?_, ?_⟩
  · have := (foldlM_walkLine_seq hw).2
    rw [auditLines_logText, List.length_map] at this
    simpa [Walk.start] using this
  · simpa [Walk.start] using foldlM_walkLine_null hp hw

/-- A checkpoint on linked entries is found in their file. -/
theorem Linked.checkpoint [LawfulAuditJson] {key : Option SecretKey} {ls : List AuditLine}
    (h : Linked key (FixedBytes.zero 32) 0 ls) {l : AuditLine} (hl : l ∈ ls) :
    checkCheckpoint (some (logText ls)) l.event.seq l.hash = .ok () := by
  obtain ⟨before, after, rfl⟩ := List.append_of_mem hl
  obtain ⟨hseq, -, hhash, -⟩ := h.get
  obtain ⟨hu, hp⟩ := readAll_eq_ok.mp (readAll_logText before)
  obtain ⟨w, hw, hprev⟩ := (foldlM_walkLine_iff hp (w := .start)).mpr ⟨h.left, rfl⟩
  have hws := (foldlM_walkLine_seq hw).1
  rw [auditLines_logText, List.length_map] at hws
  simp only [Walk.start] at hws
  have hcp := checkpointLines_append (after.map AuditJson.lineToString) (checkpointLines_of_walk (w := .start) hw
    (LawfulAuditJson.line_roundtrip l) (by rw [hseq]; omega) (by rw [hprev]; exact hhash))
  rw [checkCheckpoint, readToString_some (readAll_eq_ok.mp (readAll_logText _)).1, Outcome.ofExcept_ok, Outcome.ok_bind,
    auditLines_logText, hseq]
  rw [auditLines_logText, hws] at hcp
  rw [List.map_append, List.map_cons, List.append_cons]
  simpa [Walk.start] using hcp

/-- A file that is accepted although an entry was changed: the entry is behind the checkpoint, and from there on the
file carries no MAC, which the report shows. A file from which any MACs were dropped is accepted, and counts them as
missing. -/
theorem macs_downgraded [LawfulAuditJson] (hcanon : Function.Injective AuditJson.eventToVec) {key : SecretKey}
    {log : AuditLog} {content : Bytes} (h : Appended key log content) {ls : List AuditLine}
    (hls : readAll (some content) = .ok ls) {s : Nat} {hash : String} (hs : ∃ l ∈ ls, l.event.seq = s ∧ l.hash = hash) :
    (∀ (forged : Bytes) (ls' : List AuditLine) (r : VerifyReport) (d : Digest), readAll (some forged) = .ok ls' →
      Keyless key ls ls' → walk (some key) (some forged) = .ok (r, d) → checkCheckpoint (some forged) s hash = .ok () →
      ∀ p, (events ls')[p]? ≠ (events ls)[p]? → s ≤ p ∧ (∀ l ∈ ls'.drop p, l.mac = none) ∧
        ls'.length - p ≤ r.macsNull) ∧
    ∀ drop : Nat → Bool, ∃ r d, walk (some key) (some (logText (dropMacs drop ls))) = .ok (r, d) ∧
      checkCheckpoint (some (logText (dropMacs drop ls))) s hash = .ok () ∧
      r.entries = ls.length ∧ r.macsNull = countNull (dropMacs drop ls) := by
  constructor
  · intro forged ls' r d hls' hkeyless hwalk hcheck p hp
    obtain ⟨-, -, hagree⟩ := tamper_evident hcanon h hls hs hls' hkeyless hwalk hcheck
    have hle : max s (lastMac ls') ≤ p := by
      by_contra hlt
      apply hp
      have := congrArg (·[p]?) hagree
      simpa [List.getElem?_take, show p < max s (lastMac ls') by omega] using this
    have hnone : ∀ l ∈ ls'.drop p, l.mac = none := by
      intro l hl
      obtain ⟨before, after, heq⟩ := List.append_of_mem hl
      have hsplit : ls' = (ls'.take p ++ before) ++ l :: after := by
        rw [List.append_assoc, ← heq, List.take_append_drop]
      apply @lastMac_behind (ls'.take p ++ before) after l
      rw [← hsplit]
      have hplen : p < ls'.length := by
        by_contra hge
        rw [List.drop_of_length_le (by omega)] at hl
        cases hl
      rw [List.length_append, List.length_take]
      omega
    refine ⟨by omega, hnone, ?_⟩
    obtain ⟨c, w, hf, hch, hr, -⟩ := walk_eq_ok.mp hwalk
    cases hf
    have hcount := foldlM_walkLine_null (readAll_eq_ok.mp hls').2 hch.walk
    rw [← hr, hcount]
    have hsplit : countNull ls' = countNull (ls'.take p) + countNull (ls'.drop p) := by
      rw [countNull, countNull, countNull, ← List.countP_append, List.take_append_drop]
    have hall : countNull (ls'.drop p) = (ls'.drop p).length := by
      rw [countNull, List.countP_eq_length]
      intro l hl
      simp [hnone l hl]
    rw [hsplit, hall, List.length_drop]
    omega
  · intro drop
    obtain ⟨-, w, hch, -⟩ := h.chain
    have hlinked := (hch.linked hls).1.dropMacs drop
    obtain ⟨w', hch', he, hn⟩ := hlinked.walk
    obtain ⟨l, hl, rfl, rfl⟩ := hs
    refine ⟨w'.report, w'.prev, walk_eq_ok.mpr ⟨_, w', rfl, hch', rfl, rfl⟩, ?_, ?_, hn⟩
    · obtain ⟨i, hi, rfl⟩ := List.getElem_of_mem hl
      have hmem : (if drop i then { ls[i] with mac := none } else ls[i]) ∈ dropMacs drop ls :=
        List.mem_mapIdx.mpr ⟨i, hi, rfl⟩
      have := hlinked.checkpoint hmem
      split at this <;> exact this
    · simpa [dropMacs] using he

end

/-! ## Small logs -/

namespace Reference

/-- The entry a small record would be is small. -/
theorem length_probe {r : Record} (hr : Brief r) (w : Walk) : (AuditJson.lineToString (AuditLog.probe
    (r.event "1970-01-01T00:00:00Z" (w.seq + 1) (hex w.prev.1)))).length ≤ 2400 + (w.seq + 1) := by
  have hprobe : (String.ofList (List.replicate 64 '0')).utf8ByteSize = 64 := by decide
  have hhex : (hex w.prev.1).utf8ByteSize = 64 := by rw [utf8ByteSize_hex, w.prev.2]
  exact length_line hr length_epoch hhex hprobe (fun m hm => by cases hm; exact hprobe) (le_refl _)

/-- So is the entry that it becomes. -/
theorem length_stage {r : Record} (hr : Brief r) (w : Walk) (key : Option SecretKey) :
    (w.stage r.event key "1970-01-01T00:00:00Z").bytes.length ≤ 2400 + (w.seq + 1) + 1 := by
  have hhash : ∀ d : Digest, (hex d.1).utf8ByteSize = 64 := fun d => by rw [utf8ByteSize_hex, d.2]
  rw [StagedEntry.bytes, List.length_append]
  refine Nat.add_le_add_right ?_ 1
  refine length_line hr length_epoch (hhash _) (hhash _) (fun m hm => ?_) (le_refl _)
  obtain ⟨k, -, rfl⟩ := Option.map_eq_some_iff.mp hm
  exact hhash _

/-- An audit key. -/
def macKey : SecretKey := FixedBytes.zero KEY_LEN

/-- The entry of an unlock, written first. -/
def firstEntry : StagedEntry :=
  Walk.start.stage (Record.event { actor := "human", op := "vault.unlocked", decision := .allowed }) (some macKey)
    "1970-01-01T00:00:00Z"

theorem firstEntry_at : firstEntry.At (some macKey) .start := Walk.stage_at _ (positioned_record _) _ _

theorem firstEntry_built : firstEntry.Built macKey :=
  ⟨{ seq := 0, lastHash := FixedBytes.zero 32, limits := .default }, _, _, .ordinary, healthy, _, positioned_record _,
    Or.inr rfl, (Chain.empty none).stageEvent_fits (Or.inr ⟨rfl, rfl⟩) rfl rfl (by decide +kernel), Or.inl rfl⟩

theorem firstEntry_appended : ∃ log, Appended macKey log firstEntry.bytes :=
  ⟨_, (Appended.start .default).append rfl firstEntry_built
    (AuditLog.appendStaged_run firstEntry_at (Chain.empty none) (Or.inr ⟨rfl, rfl⟩) (h := healthy) rfl) rfl⟩

theorem firstEntry_readAll : readAll (some firstEntry.bytes) = .ok [firstEntry.line] := by
  have htext : logText [firstEntry.line] = firstEntry.bytes := by simp [logText, StagedEntry.bytes]
  rw [← htext]
  exact readAll_logText _

/-- Where the hashes of the links are all different, none collide. -/
theorem injOn_hashed {f : Bytes → Digest} {S : Set (Digest × AuditEvent)} {L : List (Digest × AuditEvent)}
    (hS : ∀ p ∈ S, p ∈ L) (hL : (L.map fun p => f (hashed p)).Nodup) : Set.InjOn f (hashed '' S) := by
  rintro _ ⟨p, hp, rfl⟩ _ ⟨q, hq, rfl⟩ heq
  rw [List.inj_on_of_nodup_map hL (hS p hp) (hS q hq) heq]

/-- One entry leaves nothing to collide. -/
theorem firstEntry_keyless {l : AuditLine} (he : l.event = firstEntry.event)
    (hmac : l.mac = none ∨ l.mac = firstEntry.line.mac) : Keyless macKey [firstEntry.line] [l] := by
  have hlinks : ∀ p ∈ links [firstEntry.line] ∪ links [l], p ∈ [(FixedBytes.zero 32, firstEntry.event)] := by
    rw [links, links, events, events, List.map_singleton, List.map_singleton, he,
      show firstEntry.line.event = firstEntry.event from rfl]
    rintro p (hp | hp) <;> simpa using hp
  refine ⟨injOn_hashed hlinks (List.nodup_singleton _), injOn_hashed hlinks (List.nodup_singleton _),
    fun l' hl m hm _ => ⟨firstEntry.line, by simp, ?_⟩⟩
  rw [List.mem_singleton] at hl
  subst hl
  rcases hmac with hnone | hsame
  · rw [hnone] at hm
    cases hm
  · exact ⟨m, hsame ▸ hm, rfl⟩

/-! ### Three entries -/

/-- The head behind an entry. -/
def behind (w : Walk) (s : StagedEntry) : Walk := { w with seq := w.seq + 1, prev := entryHash w.prev s.event }

/-- The entry of a lock, written second. -/
def secondEntry : StagedEntry :=
  (behind .start firstEntry).stage (Record.event { actor := "human", op := "vault.lock", decision := .allowed })
    (some macKey) "1970-01-01T00:00:00Z"

/-- The entry of another unlock, written third. -/
def thirdEntry : StagedEntry :=
  (behind (behind .start firstEntry) secondEntry).stage
    (Record.event { actor := "human", op := "vault.unlocked", decision := .allowed }) (some macKey)
    "1970-01-01T00:00:00Z"

/-- What somebody without the key writes in its place. -/
def forgedEntry : StagedEntry :=
  (behind (behind .start firstEntry) secondEntry).stage
    (Record.event { actor := "agent:a", op := "audit.show", decision := .denied }) none "1970-01-01T00:00:00Z"

/-- An honest log. -/
def honestLines : List AuditLine := [firstEntry.line, secondEntry.line, thirdEntry.line]

/-- The first MAC is dropped, and the last entry is another one. -/
def forgedLines : List AuditLine := [{ firstEntry.line with mac := none }, secondEntry.line, forgedEntry.line]

/-- A small record is appended to a small log. -/
theorem appended_record {log : AuditLog} {content : Bytes} {w : Walk} (h : Appended macKey log content)
    (hch : Chain (some macKey) content w) (hsync : InSync log w) (hl : log.limits = .default)
    (hlen : content.length ≤ 4096 * w.seq) (hseq : w.seq < 100) {r : Record} (hr : Brief r) :
    ∃ log' w', Appended macKey log' (content ++ (w.stage r.event (some macKey) "1970-01-01T00:00:00Z").bytes) ∧
      Chain (some macKey) (content ++ (w.stage r.event (some macKey) "1970-01-01T00:00:00Z").bytes) w' ∧
      InSync log' w' ∧ log'.limits = .default ∧
      (content ++ (w.stage r.event (some macKey) "1970-01-01T00:00:00Z").bytes).length ≤ 4096 * w'.seq ∧
      w'.seq = w.seq + 1 ∧ w'.prev = entryHash w.prev (w.stage r.event (some macKey) "1970-01-01T00:00:00Z").event := by
  have hat := w.stage_at (positioned_record r) (some macKey) "1970-01-01T00:00:00Z"
  have hf : ({ healthy with auditFile := some content } : Host).auditFile = some content := rfl
  have hprobe := length_probe hr w
  have hsoft : 500000 ≤ Limits.default.ceiling .ordinary := by decide
  have hfit : content.length + (AuditJson.lineToString (AuditLog.probe
      (r.event "1970-01-01T00:00:00Z" (w.seq + 1) (hex w.prev.1)))).length + 1 ≤ log.limits.ceiling .ordinary := by
    rw [hl]
    omega
  have hbuilt : (w.stage r.event (some macKey) "1970-01-01T00:00:00Z").Built macKey :=
    ⟨log, _, some macKey, .ordinary, _, _, positioned_record r, Or.inr rfl, hch.stageEvent_fits hsync hf rfl hfit,
      Or.inl rfl⟩
  obtain ⟨w', hch', hp, hs⟩ := hat.chain (Or.inr (Or.inr rfl)) hch h.chain.1
  refine ⟨_, w', h.append hf hbuilt (AuditLog.appendStaged_run hat hch hsync hf) rfl, hch', Or.inr ⟨hs.symm, hp.symm⟩,
    hl, ?_, hs, hp⟩
  have hbytes := length_stage hr w (some macKey)
  rw [List.length_append, hs]
  omega

theorem stage_congr {w w' : Walk} (hs : w'.seq = w.seq) (hp : w'.prev = w.prev)
    (event : String → Nat → String → AuditEvent) (mac : Option SecretKey) (ts : String) :
    w'.stage event mac ts = w.stage event mac ts := by
  rw [Walk.stage, Walk.stage, hs, hp]

/-- The three entries were appended one after the other. -/
theorem honest_appended : ∃ log, Appended macKey log (firstEntry.bytes ++ secondEntry.bytes ++ thirdEntry.bytes) := by
  have hunlocked : Brief { actor := "human", op := "vault.unlocked", decision := .allowed } := by decide +kernel
  have hlock : Brief { actor := "human", op := "vault.lock", decision := .allowed } := by decide +kernel
  obtain ⟨log, w, happ, hch, hsync, hl, hlen, hs, hp⟩ := appended_record (Appended.start .default) (Chain.empty _)
    (Or.inr ⟨rfl, rfl⟩) rfl (Nat.zero_le _) (by decide) hunlocked
  have hseq : w.seq = 1 := hs
  obtain ⟨log', w', happ', hch', hsync', hl', hlen', hs', hp'⟩ :=
    appended_record happ hch hsync hl hlen (by omega) hlock
  have hseq' : w'.seq = 2 := by omega
  have hsecond : w.stage (Record.event { actor := "human", op := "vault.lock", decision := .allowed }) (some macKey)
      "1970-01-01T00:00:00Z" = secondEntry := stage_congr hs hp _ _ _
  rw [hsecond] at happ' hch' hlen' hp'
  obtain ⟨log'', -, happ'', -⟩ := appended_record happ' hch' hsync' hl' hlen' (by omega) hunlocked
  have hprev : w'.prev = (behind (behind .start firstEntry) secondEntry).prev := by
    rw [hp', hp]
    rfl
  have hthird : w'.stage (Record.event { actor := "human", op := "vault.unlocked", decision := .allowed }) (some macKey)
      "1970-01-01T00:00:00Z" = thirdEntry := stage_congr hseq' hprev _ _ _
  rw [hthird] at happ''
  exact ⟨log'', happ''⟩

theorem honest_readAll : readAll (some (firstEntry.bytes ++ secondEntry.bytes ++ thirdEntry.bytes)) =
    .ok honestLines := by
  have htext : logText honestLines = firstEntry.bytes ++ secondEntry.bytes ++ thirdEntry.bytes := by
    simp [logText, honestLines, StagedEntry.bytes]
  rw [← htext]
  exact readAll_logText _

/-- An entry that was staged behind a head links there. -/
theorem linked_stage {prev : Digest} {seq : Nat} {w : Walk} (hp : w.prev = prev) (hs : w.seq = seq) (r : Record)
    {mac : Option SecretKey} (hmac : mac = none ∨ mac = some macKey) {l : AuditLine} {ls : List AuditLine}
    (hl : l = (w.stage r.event mac "1970-01-01T00:00:00Z").line ∨
      l = { (w.stage r.event mac "1970-01-01T00:00:00Z").line with mac := none })
    (h : Linked (some macKey) (entryHash prev (w.stage r.event mac "1970-01-01T00:00:00Z").event) (seq + 1) ls) :
    Linked (some macKey) prev seq (l :: ls) := by
  subst hp hs
  have hat := w.stage_at (positioned_record r) mac "1970-01-01T00:00:00Z"
  have hok : MacOk (some macKey) l := by
    rcases hl with rfl | rfl
    · exact hat.macOk (by rcases hmac with rfl | rfl <;> simp [Compatible])
    · exact fun _ _ hm => nomatch hm
  have hevent : l.event = (w.stage r.event mac "1970-01-01T00:00:00Z").event := by rcases hl with rfl | rfl <;> rfl
  have hhash : l.hash = (w.stage r.event mac "1970-01-01T00:00:00Z").hashHex := by rcases hl with rfl | rfl <;> rfl
  refine ⟨?_, ?_, ?_, hok, ?_⟩ <;> rw [hevent]
  · exact hat.seq
  · rw [hat.prevHash, unhex_hex]
  · rw [hhash, hat.hashHex, unhex_hex]
  · exact h

theorem forged_linked : Linked (some macKey) (FixedBytes.zero 32) 0 forgedLines :=
  linked_stage rfl rfl _ (Or.inr rfl) (Or.inr rfl) <| linked_stage rfl rfl _ (Or.inr rfl) (Or.inl rfl) <|
    linked_stage rfl rfl _ (Or.inl rfl) (Or.inl rfl) trivial

theorem forged_checkpoint : checkCheckpoint (some (logText forgedLines)) 1 firstEntry.hashHex = .ok () :=
  forged_linked.checkpoint (l := { firstEntry.line with mac := none }) List.mem_cons_self

/-- What is hashed for the two logs. -/
def linkList : List (Digest × AuditEvent) :=
  [(FixedBytes.zero 32, firstEntry.event), (entryHash (FixedBytes.zero 32) firstEntry.event, secondEntry.event),
    (entryHash (entryHash (FixedBytes.zero 32) firstEntry.event) secondEntry.event, thirdEntry.event),
    (entryHash (entryHash (FixedBytes.zero 32) firstEntry.event) secondEntry.event, forgedEntry.event)]

theorem linkList_nodup : (linkList.map fun p => Crypto.sha256 (hashed p)).Nodup ∧
    (linkList.map fun p => Crypto.hmacSha256 macKey (hashed p)).Nodup := by
  decide +kernel

theorem forged_keyless : Keyless macKey honestLines forgedLines := by
  have hlinks : ∀ p ∈ links honestLines ∪ links forgedLines, p ∈ linkList := by
    rintro p (hp | hp)
    · simp only [links, events, honestLines, List.map_cons, List.map_nil, HashChain.links_cons, HashChain.links_nil,
        Set.mem_insert_iff, Set.mem_empty_iff_false, or_false] at hp
      rcases hp with rfl | rfl | rfl <;> simp [linkList, StagedEntry.line]
    · simp only [links, events, forgedLines, List.map_cons, List.map_nil, HashChain.links_cons, HashChain.links_nil,
        Set.mem_insert_iff, Set.mem_empty_iff_false, or_false] at hp
      rcases hp with rfl | rfl | rfl <;> simp [linkList, StagedEntry.line]
  refine ⟨injOn_hashed hlinks linkList_nodup.1, injOn_hashed hlinks linkList_nodup.2, fun l hl m hm _ => ?_⟩
  simp only [forgedLines, List.mem_cons, List.not_mem_nil, or_false] at hl
  rcases hl with rfl | rfl | rfl
  · cases hm
  · exact ⟨secondEntry.line, by simp [honestLines], m, hm, rfl⟩
  · cases hm

theorem forged_differs : (events forgedLines)[2]? ≠ (events honestLines)[2]? := by
  intro heq
  have hforged : ((events forgedLines)[2]?).map (·.op) = some "audit.show" := rfl
  have hhonest : ((events honestLines)[2]?).map (·.op) = some "vault.unlocked" := rfl
  rw [heq, hhonest] at hforged
  exact absurd hforged (by decide)

end Reference

/-- Somebody without the key drops the MAC of the first of three entries and replaces the last one. The file is accepted
with a checkpoint on the first entry, and agrees with the log up to the second, the last one that carries a MAC. -/
theorem tamper_evident_spliced : ∃ log r, Appended Reference.macKey log
      (Reference.firstEntry.bytes ++ Reference.secondEntry.bytes ++ Reference.thirdEntry.bytes) ∧
    walk (some Reference.macKey) (some (logText Reference.forgedLines)) = .ok r ∧
    checkCheckpoint (some (logText Reference.forgedLines)) 1 Reference.firstEntry.hashHex = .ok () ∧
    max 1 (lastMac Reference.forgedLines) = 2 ∧
    (events Reference.forgedLines).take 2 = (events Reference.honestLines).take 2 ∧
    events Reference.forgedLines ≠ events Reference.honestLines := by
  obtain ⟨log, happ⟩ := Reference.honest_appended
  obtain ⟨w, hch, -⟩ := Reference.forged_linked.walk
  have hs : ∃ l ∈ Reference.honestLines, l.event.seq = 1 ∧ l.hash = Reference.firstEntry.hashHex :=
    ⟨_, List.mem_cons_self, rfl, rfl⟩
  have hwalk : walk (some Reference.macKey) (some (logText Reference.forgedLines)) = .ok (w.report, w.prev) :=
    walk_eq_ok.mpr ⟨_, w, rfl, hch, rfl, rfl⟩
  have hcheck := Reference.forged_checkpoint
  obtain ⟨-, -, hagree⟩ := tamper_evident Reference.eventToVec_injective happ Reference.honest_readAll hs
    (readAll_logText _) Reference.forged_keyless hwalk hcheck
  exact ⟨log, _, happ, hwalk, hcheck, rfl, hagree, fun heq => Reference.forged_differs (congrArg (·[2]?) heq)⟩

/-- In the same file nothing from the third entry on carries a MAC, and the report shows it. The honest log without the
MACs of its first and its third entry is accepted, and both are counted. -/
theorem macs_downgraded_spliced : ∃ log r r' d d', Appended Reference.macKey log
      (Reference.firstEntry.bytes ++ Reference.secondEntry.bytes ++ Reference.thirdEntry.bytes) ∧
    walk (some Reference.macKey) (some (logText Reference.forgedLines)) = .ok (r, d) ∧
    (∀ l ∈ Reference.forgedLines.drop 2, l.mac = none) ∧ 1 ≤ r.macsNull ∧
    walk (some Reference.macKey) (some (logText (dropMacs (fun i => i != 1) Reference.honestLines))) = .ok (r', d') ∧
    checkCheckpoint (some (logText (dropMacs (fun i => i != 1) Reference.honestLines))) 1 Reference.firstEntry.hashHex =
      .ok () ∧ r'.entries = 3 ∧ r'.macsNull = 2 := by
  obtain ⟨log, happ⟩ := Reference.honest_appended
  obtain ⟨w, hch, -⟩ := Reference.forged_linked.walk
  have hs : ∃ l ∈ Reference.honestLines, l.event.seq = 1 ∧ l.hash = Reference.firstEntry.hashHex :=
    ⟨_, List.mem_cons_self, rfl, rfl⟩
  have hwalk : walk (some Reference.macKey) (some (logText Reference.forgedLines)) = .ok (w.report, w.prev) :=
    walk_eq_ok.mpr ⟨_, w, rfl, hch, rfl, rfl⟩
  have hcheck := Reference.forged_checkpoint
  obtain ⟨hforged, hdropped⟩ := macs_downgraded Reference.eventToVec_injective happ Reference.honest_readAll hs
  obtain ⟨-, hnone, hcount⟩ := hforged _ _ _ _ (readAll_logText _) Reference.forged_keyless hwalk hcheck 2
    Reference.forged_differs
  obtain ⟨r', d', hwalk', hcheck', hentries, hnull⟩ := hdropped fun i => i != 1
  exact ⟨log, _, r', _, d', happ, hwalk, hnone, hcount, hwalk', hcheck', hentries, hnull⟩

/-- The file of a writer without the key, as long as the honest log and accepted, in which the entry that carried a MAC
is kept without it. -/
theorem dropped_mac_accepted : ∃ (log : AuditLog) (forged : Bytes) (l' : AuditLine) (r : VerifyReport × Digest),
    Appended Reference.macKey log Reference.firstEntry.bytes ∧
      readAll (some Reference.firstEntry.bytes) = .ok [Reference.firstEntry.line] ∧
      readAll (some forged) = .ok [l'] ∧ Keyless Reference.macKey [Reference.firstEntry.line] [l'] ∧
      walk (some Reference.macKey) (some forged) = .ok r ∧
      checkCheckpoint (some forged) Reference.firstEntry.event.seq Reference.firstEntry.hashHex = .ok () ∧
      Reference.firstEntry.line.mac ≠ none ∧ l'.event = Reference.firstEntry.event ∧ l'.mac = none := by
  obtain ⟨log, happ⟩ := Reference.firstEntry_appended
  obtain ⟨w, hch, -⟩ := Reference.firstEntry_at.chain (Or.inr (Or.inr rfl)) (Chain.empty (some Reference.macKey))
    (Or.inl rfl)
  have hlinked := (hch.linked Reference.firstEntry_readAll).1.dropMacs fun _ => true
  have hdrop : dropMacs (fun _ => true) [Reference.firstEntry.line] =
      [{ Reference.firstEntry.line with mac := none }] := by simp [dropMacs]
  rw [hdrop] at hlinked
  obtain ⟨w', hch', -, -⟩ := hlinked.walk
  have hcheck := hlinked.checkpoint (List.mem_singleton.mpr rfl)
  exact ⟨log, _, { Reference.firstEntry.line with mac := none }, (w'.report, w'.prev), happ,
    Reference.firstEntry_readAll, readAll_logText _, Reference.firstEntry_keyless rfl (Or.inl rfl),
    walk_eq_ok.mpr ⟨_, w', rfl, hch', rfl, rfl⟩, hcheck, Option.some_ne_none _, rfl, rfl⟩

end SecretsVault
