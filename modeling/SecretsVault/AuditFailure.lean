import SecretsVault.AuditAppend
import SecretsVault.Reference

/-!
# An append that fails half-way

What is left of the audit log when the write of an entry stops after some of its bytes.

- `StaysUsable key before s`: the log and file `s` are still usable, and the file still holds the entries of `before`.
- `staysUsable_iff`: they are exactly if the file before had no open last line, and the write stopped before its first
  byte or behind its last one.
- `failed_append_damages`: one byte of an entry makes the log unreadable.
-/

namespace SecretsVault

open Lib

/-- What an append records. -/
inductive Entry where
  | record (r : Record)
  | run (r : RunRecord)

def Entry.event [AuditJson] : Entry → String → Nat → String → AuditEvent
  | .record r => r.event
  | .run r => r.event

theorem Entry.positioned [AuditJson] (e : Entry) : Positioned e.event := by
  cases e with
  | record r => exact positioned_record r
  | run r => exact positioned_runRecord r

/-- An append that is asked for at some time. -/
structure AppendRequest where
  entry : Entry
  mac : Option SecretKey
  priority : Priority
  wall : OffsetDateTime

/-- A host whose writes arrive. -/
def Host.healthy (h : Host) : Host := { h with appends := fun _ => .ok }

section

variable [Crypto] [AuditJson]

namespace AppendRequest

def perform (q : AppendRequest) : Prog VaultError (AuditLog × Host) Unit := do
  .modify fun s => (s.1, { s.2 with wall := q.wall })
  AuditLog.appendEvent q.entry.event q.mac q.priority

/-- Any number of appends, whatever their results. -/
def performAll (qs : List AppendRequest) (s : AuditLog × Host) : AuditLog × Host :=
  qs.foldl (fun s q => (q.perform.run s).2) s

end AppendRequest

/-- The ways to write a staged entry from a log and host: directly, or staging it from a record on the way. -/
inductive Writes (log : AuditLog) (h : Host) (staged : StagedEntry) :
    Prog VaultError (AuditLog × Host) Unit → Prop where
  | staged : Writes log h staged (AuditLog.appendStaged staged)
  | append {r : Record} {mac : Option SecretKey} {priority : Priority} (hst : log.stage r mac priority h = .ok staged) :
      Writes log h staged (AuditLog.append r mac priority)
  | appendRun {r : RunRecord} {mac : Option SecretKey} {priority : Priority}
      (hst : log.stageRun r mac priority h = .ok staged) : Writes log h staged (AuditLog.appendRun r mac priority)

/-- The handles later appends may go through: the one that failed, or one opened on the file. -/
def Handle (s : AuditLog × Host) (log : AuditLog) : Prop := log = s.1 ∨ ∃ h',
    AuditLog.loadOrInit.run s.2 = (.ok log, h')

/-- The log is still usable: the file is accepted with the entries it had, and every later append that succeeds, after
any others and under any ceilings, leaves a file that is accepted and has that entry behind the ones before it. -/
structure StaysUsable (key : Option SecretKey) (before : Bytes) (s : AuditLog × Host) : Prop where
  load : ∃ log h', AuditLog.loadOrInit.run s.2 = (.ok log, h')
  verify : ∃ r, AuditLog.verify key s.2.auditFile = .ok r
  history : ∃ old new, readAll (some before) = .ok old ∧ readAll s.2.auditFile = .ok (old ++ new)
  later : ∀ (log : AuditLog) (limits : Limits) (qs : List AppendRequest) (q : AppendRequest), Handle s log →
    (∀ p ∈ q :: qs, Compatible p.mac key) →
    let s1 := AppendRequest.performAll qs ({ log with limits }, s.2.healthy)
    ∀ s2, q.perform.run s1 = (.ok (), s2) → (∃ r, AuditLog.verify key s2.2.auditFile = .ok r) ∧
      ∃ old l ts seq prevHash, readAll s1.2.auditFile = .ok old ∧ readAll s2.2.auditFile = .ok (old ++ [l]) ∧
        l.event = q.entry.event ts seq prevHash

theorem Writes.run_eq {log : AuditLog} {h : Host} {staged : StagedEntry} {m : Prog VaultError (AuditLog × Host) Unit}
    (hw : Writes log h staged m) : m.run (log, h) = (AuditLog.appendStaged staged).run (log, h) := by
  cases hw with
  | staged => rfl
  | append hst =>
    change (AuditLog.appendEvent _ _ _).run (log, h) = _
    rw [AuditLog.appendEvent_run]
    simp only [AuditLog.stage] at hst
    rw [hst]
  | appendRun hst =>
    change (AuditLog.appendEvent _ _ _).run (log, h) = _
    rw [AuditLog.appendEvent_run]
    simp only [AuditLog.stageRun] at hst
    rw [hst]

theorem verify_eq_ok {key : Option SecretKey} {content : Bytes} {r : VerifyReport}
    (h : AuditLog.verify key (some content) = .ok r) : ∃ w, Chain key content w := by
  obtain ⟨⟨r', d⟩, hw, -⟩ := Outcome.bind_eq_ok h
  obtain ⟨c, w, hc, hch, -⟩ := walk_eq_ok.mp hw
  cases hc
  exact ⟨w, hch⟩

theorem Chain.verify {key : Option SecretKey} {content : Bytes} {w : Walk} (h : Chain key content w) :
    ∃ r, AuditLog.verify key (some content) = .ok r :=
  ⟨w.report, by rw [AuditLog.verify, walk_eq_ok.mpr ⟨content, w, rfl, h, rfl, rfl⟩]; rfl⟩

/-- Opening an accepted file gives a log at its head. -/
theorem Chain.loadOrInit {key : Option SecretKey} {content : Bytes} {w : Walk} (h : Chain key content w) {host : Host}
    (hf : host.auditFile = some content) :
    ∃ log, AuditLog.loadOrInit.run host = (.ok log, host) ∧ InSync log w ∧ log.limits = .default := by
  obtain ⟨v, hv, hp, hs⟩ := h.forget
  have hwalk : SecretsVault.walk Option.none (some content) = .ok (v.report, v.prev) :=
    walk_eq_ok.mpr ⟨content, v, rfl, hv, rfl, rfl⟩
  refine ⟨⟨v.report.entries, v.prev, .default⟩, ?_, Or.inr ⟨hv.entries.trans hs, hp⟩, rfl⟩
  unfold AuditLog.loadOrInit
  simp only [Prog.run_bind, Prog.run_get, hf, Prog.run_lift, hwalk, Prog.run_pure]

variable [LawfulAuditJson] {key : Option SecretKey}

/-! ## Clean cuts -/

/-- One request on a sound log whose writes arrive. -/
theorem Sound.perform {s : AuditLog × Host} (hs : Sound key s) (hh : s.2.appends = fun _ => .ok) {q : AppendRequest}
    (hc : Compatible q.mac key) : Sound key (q.perform.run s).2 ∧ (q.perform.run s).2.2.appends = (fun _ => .ok) ∧
      (∀ s2, q.perform.run s = (.ok (), s2) → ∃ old l ts seq prevHash, readAll s.2.auditFile = .ok old ∧
        readAll s2.2.auditFile = .ok (old ++ [l]) ∧ l.event = q.entry.event ts seq prevHash) := by
  obtain ⟨log, h⟩ := s
  obtain ⟨content, w, hf, ht, hch, hsync⟩ := hs.exists_chain
  replace hf : h.auditFile = some content := hf
  replace hsync : InSync log w := hsync
  let h1 : Host := { h with wall := q.wall }
  replace hh : h1.appends = fun _ => .ok := hh
  replace hf : h1.auditFile = some content := hf
  have hrun : q.perform.run (log, h) = (AuditLog.appendEvent q.entry.event q.mac q.priority).run (log, h1) := rfl
  have hs1 : Sound key (log, h1) := ⟨content, w, hf, ht, hch, hsync⟩
  have hall : h1.AllOrNothing := fun i k e he => by rw [hh] at he; cases he
  rw [hrun, AuditLog.appendEvent_run]
  rcases hst : log.stageEvent q.entry.event q.mac q.priority h1 with staged | e | _
  · have hat := hch.stageEvent hsync q.entry.positioned hf hst
    have hr := AuditLog.appendStaged_run (h := h1) hat hch hsync hf
    simp only [hh] at hr
    have hsound := (hs1.appendStaged hall hf hch hsync hat hc hr).1
    simp only [hr]
    refine ⟨hsound, trivial, ?_⟩
    intro s2 h2
    cases h2
    obtain ⟨old, hold⟩ := hch.readAll
    unfold AuditLog.stageEvent at hst
    obtain ⟨synced, -, hst⟩ := Outcome.bind_eq_ok hst
    obtain ⟨ts, -, hst⟩ := Outcome.bind_eq_ok hst
    obtain ⟨-, -, hst⟩ := Outcome.bind_eq_ok hst
    cases hst
    exact ⟨old, _, _, _, _, by rw [← hold, ← hf], readAll_append ht hold _, rfl⟩
  · exact ⟨hs1, hh, fun s2 h2 => by cases h2⟩
  · exact ⟨hs1, hh, fun s2 h2 => by cases h2⟩

/-- Any number of them. -/
theorem Sound.performAll {s : AuditLog × Host} (hs : Sound key s) (hh : s.2.appends = fun _ => .ok)
    {qs : List AppendRequest} (hc : ∀ q ∈ qs, Compatible q.mac key) :
    Sound key (AppendRequest.performAll qs s) ∧ (AppendRequest.performAll qs s).2.appends = fun _ => .ok := by
  induction qs generalizing s with
  | nil => exact ⟨hs, hh⟩
  | cons q qs ih =>
    obtain ⟨h1, h2, -⟩ := hs.perform hh (hc q (by simp))
    exact ih h1 h2 fun p hp => hc p (List.mem_cons_of_mem _ hp)

/-- A sound log stays usable. -/
theorem Sound.staysUsable {s : AuditLog × Host} (hs : Sound key s) {before : Bytes} {old new : List AuditLine}
    (hold : readAll (some before) = .ok old) (hnew : readAll s.2.auditFile = .ok (old ++ new)) :
    StaysUsable key before s := by
  obtain ⟨log, h⟩ := s
  obtain ⟨content, w, hf, ht, hch, hsync⟩ := hs.exists_chain
  replace hf : h.auditFile = some content := hf
  obtain ⟨loaded, hload, hlsync, -⟩ := hch.loadOrInit hf
  refine ⟨⟨loaded, h, hload⟩, hf ▸ hch.verify, ⟨old, new, hold, hnew⟩, ?_⟩
  intro l limits qs q hl hc s1 s2 h2
  have hlsync : InSync { l with limits } w := by
    rcases hl with rfl | ⟨h', hl⟩
    · exact hsync
    · rw [hload] at hl
      cases hl
      exact hlsync
  have hs0 : Sound key ({ l with limits }, h.healthy) := ⟨content, w, hf, ht, hch, hlsync⟩
  have hqs : ∀ p ∈ qs, Compatible p.mac key := fun p hp => hc p (List.mem_cons_of_mem _ hp)
  obtain ⟨hs1, hh1⟩ := hs0.performAll rfl hqs
  obtain ⟨hs2, -, hentry⟩ := hs1.perform hh1 (hc q (by simp))
  rw [h2] at hs2
  obtain ⟨c2, w2, hf2, -, hch2, -⟩ := hs2.exists_chain
  exact ⟨hf2 ▸ hch2.verify, hentry s2 h2⟩

/-! ## Open lines -/

omit [LawfulAuditJson] in
/-- The last line of an accepted text was read. -/
theorem Chain.last {a b : Bytes} {w : Walk} (h : Chain key (a ++ b) w) (ht : Terminated a) {l : Bytes}
    (hl : auditLines b = [l]) : ∃ parsed, AuditJson.lineFromStr l = some parsed := by
  have hw := h.walk
  rw [walkText, auditLines_append ht, hl, List.foldlM_append] at hw
  obtain ⟨w1, -, hw⟩ := Outcome.bind_eq_ok hw
  rw [List.foldlM_cons] at hw
  obtain ⟨w2, hw, -⟩ := Outcome.bind_eq_ok hw
  obtain ⟨parsed, hp, -⟩ := walkLine_eq_ok hw
  exact ⟨parsed, hp⟩

omit [Crypto] in
theorem lf_not_mem_line (l : AuditLine) : lf ∉ AuditJson.lineToString l := fun h =>
  absurd (LawfulAuditJson.line_printable l _ h) (by decide)

omit [Crypto] in
/-- The line an entry cut at `k` leaves, behind a line that was open before. -/
theorem auditLines_cut (s : StagedEntry) {l : Bytes} (hl : lf ∉ l) {k : Nat} (hk : 0 < k) :
    auditLines (l ++ s.bytes.take k) = [l ++ (AuditJson.lineToString s.line).take k] := by
  have hne : (AuditJson.lineToString s.line).take k ≠ [] := fun h => by
    rcases List.take_eq_nil_iff.mp h with h | h
    · omega
    · exact LawfulAuditJson.line_ne_nil _ h
  have hlf : lf ∉ (AuditJson.lineToString s.line).take k := fun h => lf_not_mem_line _ (List.mem_of_mem_take h)
  rw [StagedEntry.bytes, List.take_append]
  by_cases hle : k ≤ (AuditJson.lineToString s.line).length
  · rw [Nat.sub_eq_zero_of_le hle, List.take_zero, List.append_nil]
    exact auditLines_open (by simp [hl, hlf]) (by simp [hne])
  · have htake : (AuditJson.lineToString s.line).take k = AuditJson.lineToString s.line :=
      List.take_of_length_le (by omega)
    rw [htake] at hne hlf ⊢
    rw [List.take_of_length_le (by simp; omega), ← List.append_assoc, auditLines,
      lines_line (by simp [hl, hlf]), List.filter_cons_of_pos (by simp [hne])]
    · rfl
    · rw [List.getLast?_append_of_ne_nil _ hne]
      exact fun h => absurd (LawfulAuditJson.line_printable _ _ (List.mem_of_getLast? h)) (by decide)

/-- A line that was open before an entry was written makes the text unreadable. -/
theorem not_chain_behind {before : Bytes} {w : Walk} (h : Chain key before w) (hopen : ¬Terminated before)
    (s : StagedEntry) {k : Nat} (hk : 0 < k) (w' : Walk) : ¬Chain key (before ++ s.bytes.take k) w' := by
  obtain ⟨a, l, rfl, ha, hl⟩ := exists_open before
  have hne : l ≠ [] := fun he => hopen (by rw [he, List.append_nil]; exact ha)
  intro h'
  obtain ⟨parsed, hp⟩ := h.last ha (auditLines_open hl hne)
  rw [List.append_assoc] at h'
  obtain ⟨_, hp'⟩ := h'.last ha (auditLines_cut s hl hk)
  rw [LawfulAuditJson.line_behind hp _ _ hk] at hp'
  cases hp'

/-- An entry cut short makes the text unreadable. -/
theorem not_chain_cut {before : Bytes} (ht : Terminated before) (s : StagedEntry) {k : Nat} (hk : 0 < k)
    (hlt : k < (AuditJson.lineToString s.line).length) (w' : Walk) : ¬Chain key (before ++ s.bytes.take k) w' := by
  intro h'
  have hcut := auditLines_cut s (l := []) (by simp) hk
  obtain ⟨_, hp⟩ := h'.last ht (by simpa using hcut)
  rw [LawfulAuditJson.line_cut _ _ hk hlt] at hp
  cases hp

/-- An accepted text with an open last line does not survive the next append. -/
theorem StaysUsable.terminated {before content : Bytes} {s : AuditLog × Host} (hu : StaysUsable key before s)
    (hf : s.2.auditFile = some content) {w : Walk} (hch : Chain key content w) (hsync : InSync s.1 w) :
    Terminated content := by
  by_contra hopen
  obtain ⟨ts, hts⟩ := LawfulAuditJson.rfc3339_range (t := 0) (by decide)
  let entry : Entry := .record { actor := "human", op := "audit.show", decision := .allowed }
  let event := entry.event ts (w.seq + 1) (hex w.prev.1)
  let limits : Limits := ⟨content.length + (AuditJson.lineToString (AuditLog.probe event)).length + 1, 0⟩
  let q : AppendRequest := ⟨entry, none, .ordinary, 0⟩
  obtain ⟨log, h⟩ := s
  replace hf : h.auditFile = some content := hf
  replace hsync : InSync { log with limits } w := hsync
  let h1 : Host := { h.healthy with wall := 0 }
  have hf1 : h1.auditFile = some content := hf
  -- The ceiling is chosen so that the entry fits, and the write arrives.
  have hst : AuditLog.stageEvent { log with limits } entry.event none .ordinary h1 =
    .ok (w.stage entry.event none ts) :=
    hch.stageEvent_fits hsync hf1 (by change AuditLog.timestamp 0 = _; rw [AuditLog.timestamp, hts])
      (le_refl limits.soft)
  set staged := w.stage entry.event none ts
  have hrun : ∃ t, q.perform.run ({ log with limits }, h.healthy) = (.ok (), t) ∧
      t.2.auditFile = some (content ++ staged.bytes.take staged.bytes.length) := by
    have hr := AuditLog.appendStaged_run (h := h1) (hch.stageEvent hsync entry.positioned hf1 hst) hch hsync hf1
    have hp : q.perform.run ({ log with limits }, h.healthy) =
        (AuditLog.appendEvent entry.event none .ordinary).run ({ log with limits }, h1) := rfl
    rw [AuditLog.appendEvent_run, hst] at hp
    rw [hp, List.take_length]
    dsimp only
    rw [hr]
    exact ⟨_, rfl, rfl⟩
  obtain ⟨t, hrun, hft⟩ := hrun
  obtain ⟨⟨r, hr⟩, -⟩ := hu.later log limits [] q (Or.inl rfl) (fun p hp => by
    rw [List.mem_singleton.mp hp]; exact Or.inl rfl) t hrun
  rw [hft] at hr
  obtain ⟨w', hw'⟩ := verify_eq_ok hr
  exact not_chain_behind hch hopen staged (by simp [StagedEntry.bytes]) w' hw'

/-- The line of an entry whose newline is missing is still an entry. -/
theorem StagedEntry.At.chain_open {s : StagedEntry} {mac : Option SecretKey} {w : Walk} (h : s.At mac w)
    (hc : Compatible mac key) {content : Bytes} (hch : Chain key content w) (ht : Terminated content) :
    ∃ w', Chain key (content ++ AuditJson.lineToString s.line) w' ∧ w'.seq = w.seq + 1 := by
  obtain ⟨w', hw', -, hs⟩ := @walkLine_of_link _ _ key _ _ _ (LawfulAuditJson.line_roundtrip s.line) h.seq
    (by rw [StagedEntry.line, h.prevHash, unhex_hex]) (by rw [StagedEntry.line, h.hashHex, unhex_hex]) (h.macOk hc)
  refine ⟨w', ⟨utf8Valid_append hch.utf8 (LawfulAuditJson.line_utf8 _), ?_⟩, hs⟩
  have hw := hch.walk
  unfold walkText at hw ⊢
  rw [auditLines_append ht, auditLines_open (lf_not_mem_line _) (LawfulAuditJson.line_ne_nil _), List.foldlM_append, hw]
  simp [hw']

/-! ## The condition -/

/-- A log whose append stopped after `k` bytes stays usable exactly if the file had no open last line, and nothing or
all of the entry arrived. -/
theorem staysUsable_iff {mac : Option SecretKey} {before : Bytes} {w : Walk} {log : AuditLog} {h : Host}
    {staged : StagedEntry} {m : Prog VaultError (AuditLog × Host) Unit} {k : Nat} {e : IoError}
    (hf : h.auditFile = some before) (hch : Chain key before w) (hsync : InSync log w) (hat : staged.At mac w)
    (hc : Compatible mac key) (hm : Writes log h staged m) (hstop : h.appends 0 = .stop k e) :
    StaysUsable key before (m.run (log, h)).2 ↔
      Terminated before ∧ (k = 0 ∨ (AuditJson.lineToString staged.line).length < k) := by
  have hrun := AuditLog.appendStaged_run hat hch hsync hf
  rw [hstop] at hrun
  rw [hm.run_eq, hrun]
  dsimp only
  set s : AuditLog × Host := (log.synced w,
    { h with auditFile := some (before ++ staged.bytes.take k), appends := fun i => h.appends (i + 1) }) with hs
  obtain ⟨old, hold⟩ := hch.readAll
  constructor
  · intro hu
    obtain ⟨r, hr⟩ := hu.verify
    obtain ⟨w', hw'⟩ := verify_eq_ok hr
    by_cases hk : k = 0
    · subst hk
      refine ⟨?_, Or.inl rfl⟩
      exact hu.terminated (w := w) (show _ = some before by simp [hs]) hch (Or.inr ⟨rfl, rfl⟩)
    · have hpos : 0 < k := by omega
      have ht : Terminated before := by
        by_contra hopen
        exact not_chain_behind hch hopen staged hpos w' hw'
      refine ⟨ht, Or.inr ?_⟩
      by_contra hle
      rcases Nat.lt_or_eq_of_le (Nat.le_of_not_lt hle) with hlt | rfl
      · exact not_chain_cut ht staged hpos hlt w' hw'
      · -- The whole line without its newline: accepted, but open.
        obtain ⟨w1, hw1, hq1⟩ := hat.chain_open hc hch ht
        have htake : staged.bytes.take (AuditJson.lineToString staged.line).length =
          AuditJson.lineToString staged.line := by
          rw [StagedEntry.bytes, List.take_left' rfl]
        have := hu.terminated (w := w1)
          (show _ = some (before ++ AuditJson.lineToString staged.line) by simp [hs, htake])
          hw1 (Or.inl (by rw [hq1]; exact Nat.lt_succ_self _))
        exact LawfulAuditJson.line_ne_nil staged.line (terminated_append_open (lf_not_mem_line _) this)
  · rintro ⟨ht, rfl | hlt⟩
    · have hnew : readAll (some (before ++ staged.bytes.take 0)) = .ok (old ++ []) := by simpa using hold
      exact Sound.staysUsable ⟨before, w, by simp [hs], ht, hch, Or.inr ⟨rfl, rfl⟩⟩ hold (by rw [hs]; exact hnew)
    · have htake : staged.bytes.take k = staged.bytes := List.take_of_length_le (by
        simp only [StagedEntry.bytes, List.length_append, List.length_singleton]; omega)
      obtain ⟨w1, hw1, -, hq1⟩ := hat.chain hc hch ht
      have hnew := readAll_append ht hold staged.line
      exact Sound.staysUsable ⟨before ++ staged.bytes, w1, by simp [hs, htake], terminated_bytes _ _, hw1,
        Or.inl (by rw [hq1]; exact Nat.lt_succ_self _)⟩ hold (by rw [hs]; dsimp only; rw [htake]; exact hnew)

end

/-! ## One byte of an entry -/

namespace Reference

/-- A host with an empty log, whose next write stops after one byte. -/
def fullDisk : Host :=
  { vaultFile := none, auditFile := some [], vaultOwned := false, fs := { node := fun _ => none, cwd := [] }, wall := 0,
    mono := 0, rng := fun i => some fun j => UInt8.ofNat (i + j)
    appends := fun _ => .stop 1 ⟨some 28, "No space left on device"⟩, saves := fun _ => none
    syscalls := fun _ => none, patience := 1 }

/-- The log that is opened on it. -/
def emptyLog : AuditLog := ⟨0, FixedBytes.zero 32, .default⟩

def showRecord : Record := { actor := "human", op := "audit.show", decision := .allowed }

def showEntry : StagedEntry := Walk.start.stage showRecord.event none "1970-01-01T00:00:00Z"

theorem fullDisk_stage : emptyLog.stage showRecord none .ordinary fullDisk = .ok showEntry :=
  (Chain.empty none).stageEvent_fits (Or.inr ⟨rfl, rfl⟩) rfl rfl (by decide +kernel)

theorem showEntry_length : 1 < (AuditJson.lineToString showEntry.line).length := by decide +kernel

end Reference

/-- The condition at a log that is empty, where one byte of an entry arrives: it does not hold, and the log is lost. -/
theorem staysUsable_iff_fullDisk :
    StaysUsable none [] ((AuditLog.append Reference.showRecord none .ordinary).run
      (Reference.emptyLog, Reference.fullDisk)).2 ↔
      Terminated [] ∧ (1 = 0 ∨ (AuditJson.lineToString Reference.showEntry.line).length < 1) :=
  staysUsable_iff rfl (Chain.empty none) (Or.inr ⟨rfl, rfl⟩) (Walk.stage_at _ (positioned_record _) _ _) (Or.inl rfl)
    (.append Reference.fullDisk_stage) rfl

/-- An empty log is accepted; an append of which one byte arrives leaves one that is not. -/
theorem failed_append_damages :
    walk none Reference.fullDisk.auditFile = .ok (⟨0, 0, 0⟩, FixedBytes.zero 32) ∧
      ¬StaysUsable none [] ((AuditLog.append Reference.showRecord none .ordinary).run
        (Reference.emptyLog, Reference.fullDisk)).2 := by
  refine ⟨rfl, fun hu => ?_⟩
  have hrun := AuditLog.appendStaged_run (h := Reference.fullDisk)
    (Walk.stage_at _ (positioned_record Reference.showRecord) none "1970-01-01T00:00:00Z") (Chain.empty none)
    (show InSync Reference.emptyLog Walk.start from Or.inr ⟨rfl, rfl⟩) rfl
  rw [(Writes.append Reference.fullDisk_stage).run_eq] at hu
  obtain ⟨r, hr⟩ := hu.verify
  change AuditLog.verify none (((AuditLog.appendStaged Reference.showEntry).run _).2.2.auditFile) = _ at hr
  rw [Reference.showEntry, hrun] at hr
  obtain ⟨w, hw⟩ := verify_eq_ok hr
  exact not_chain_cut (show Terminated [] from Or.inl rfl) Reference.showEntry (by decide)
    Reference.showEntry_length w hw

end SecretsVault
