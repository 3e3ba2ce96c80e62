import SecretsVault.Audit

/-!
# The chain of the audit log

What an append does to a file that `walk` accepts.

- `Chain key content w`: the text is accepted under `key`, and the walk over it ends in `w`.
- `Chain.append`: a line built against the head of a terminated text extends it.
- `Chain.resync`: a log whose head is not ahead of the file gets the head of the file.
- `InSync.stageEvent`: what `stage` builds from such a log is a line of that kind.
- `Chain.checkpoint_append`, `Chain.checkpoint_last`: entries stay, and the last one is found.
-/

namespace SecretsVault

open Lib

theorem readToString_some {content : Bytes} (h : utf8Valid content = true) :
    readToString (some content) = .ok content := by
  simp [readToString, h]

/-- What was read is the whole file, and valid. -/
theorem readToString_eq_ok {file : Option Bytes} {c : Bytes} (h : readToString file = .ok c) :
    file = some c ∧ utf8Valid c = true := by
  cases file with
  | none => cases h
  | some b =>
    simp only [readToString] at h
    split at h
    · cases h; exact ⟨rfl, ‹_›⟩
    · cases h

/-! ## Lines of a text -/

theorem auditLines_append {a : Bytes} (h : Terminated a) (b : Bytes) :
    auditLines (a ++ b) = auditLines a ++ auditLines b := by
  rw [auditLines, lines_append h, List.filter_append]; rfl

theorem auditLines_open {l : Bytes} (h : lf ∉ l) (hne : l ≠ []) : auditLines l = [l] := by
  rw [auditLines, lines_open h hne, List.filter_cons_of_pos (by simpa using hne)]
  rfl

/-- A written line is read as one line. -/
theorem auditLines_line [AuditJson] [LawfulAuditJson] (l : AuditLine) :
    auditLines (AuditJson.lineToString l ++ [lf]) = [AuditJson.lineToString l] := by
  have hp := LawfulAuditJson.line_printable l
  have hlf : lf ∉ AuditJson.lineToString l := fun h => absurd (hp _ h) (by decide)
  have hcr : (AuditJson.lineToString l).getLast? ≠ some cr := fun h =>
    absurd (hp _ (List.mem_of_getLast? h)) (by decide)
  rw [auditLines, lines_line hlf hcr, List.filter_cons_of_pos (by simpa using LawfulAuditJson.line_ne_nil l)]
  rfl

theorem utf8Valid_line [AuditJson] [LawfulAuditJson] (l : AuditLine) :
    utf8Valid (AuditJson.lineToString l ++ [lf]) = true :=
  utf8Valid_append (LawfulAuditJson.line_utf8 l) (by decide)

/-- The event that is built from a number and a previous hash has them. -/
def Positioned (event : String → Nat → String → AuditEvent) : Prop :=
  ∀ ts seq prevHash, (event ts seq prevHash).seq = seq ∧ (event ts seq prevHash).prevHash = prevHash

theorem positioned_record (r : Record) : Positioned r.event := fun _ _ _ => ⟨rfl, rfl⟩
theorem positioned_runRecord (r : RunRecord) : Positioned r.event := fun _ _ _ => ⟨rfl, rfl⟩

/-! ## Accepted texts -/

variable [Crypto] [AuditJson]

/-- The text is a log accepted under the key, and the walk over it ends in `w`. -/
structure Chain (key : Option SecretKey) (content : Bytes) (w : Walk) : Prop where
  utf8 : utf8Valid content = true
  walk : walkText key content = .ok w

theorem Chain.empty (key : Option SecretKey) : Chain key [] .start := ⟨utf8Valid_nil, rfl⟩

/-- `walk` accepts a file exactly when it is a chain. -/
theorem walk_eq_ok {key : Option SecretKey} {file : Option Bytes} {r : VerifyReport} {d : Digest} :
    walk key file = .ok (r, d) ↔ ∃ content w, file = some content ∧ Chain key content w ∧ w.report = r ∧
    w.prev = d := by
  constructor
  · intro h
    obtain ⟨content, hc, h⟩ := Outcome.bind_eq_ok h
    obtain ⟨w, hw, h⟩ := Outcome.bind_eq_ok h
    cases h
    obtain ⟨hf, hu⟩ := readToString_eq_ok (Outcome.ofExcept_eq_ok hc)
    exact ⟨content, w, hf, ⟨hu, hw⟩, rfl, rfl⟩
  · rintro ⟨content, w, rfl, hc, rfl, rfl⟩
    simp [SecretsVault.walk, readToString_some hc.utf8, hc.walk]

/-! ## One line -/

/-- The MAC of a line verifies under the key, where both are there. -/
def MacOk (key : Option SecretKey) (l : AuditLine) : Prop :=
  ∀ m k, l.mac = some m → key = some k → ∃ prev, unhex l.event.prevHash = .ok prev ∧
    unhex m = .ok (entryMac k prev l.event)

theorem checkMac_eq_ok {key : Option SecretKey} {l : AuditLine} {r r' : VerifyReport}
    (h : checkMac key l r = .ok r') : MacOk key l ∧ r'.entries = r.entries := by
  unfold checkMac at h
  split at h
  · rename_i m k hm
    obtain ⟨p, hp, h⟩ := Outcome.bind_eq_ok h
    obtain ⟨mac, hmac, h⟩ := Outcome.bind_eq_ok h
    split at h; · cases h
    rename_i hne
    rw [not_not] at hne
    cases h
    refine ⟨fun m' k' hm' hk' => ⟨p, hp, ?_⟩, rfl⟩
    rw [hm] at hm'
    cases hm'; cases hk'
    rw [hmac, hne]
  · rename_i hnone
    cases h
    exact ⟨fun m k hm hk => (hnone m k hm hk).elim, rfl⟩

/-- What `walkLine` accepts, and what it makes of it. -/
theorem walkLine_eq_ok {key : Option SecretKey} {w w' : Walk} {line : Bytes} (h : walkLine key w line = .ok w') :
    ∃ l, AuditJson.lineFromStr line = some l ∧ l.event.seq = w.seq + 1 ∧ unhex l.event.prevHash = .ok w.prev ∧
      unhex l.hash = .ok w'.prev ∧ w'.prev = entryHash w.prev l.event ∧ w'.seq = w.seq + 1 ∧ MacOk key l ∧
      w'.report.entries = w.report.entries + 1 := by
  obtain ⟨l, hl, h⟩ := Outcome.bind_eq_ok h
  have hl := Outcome.ofOption_eq_ok hl
  dsimp only at h
  split at h; · cases h
  rename_i hseq
  obtain ⟨prev, hprev, h⟩ := Outcome.bind_eq_ok h
  split at h; · cases h
  rename_i hlink
  obtain ⟨hash, hhash, h⟩ := Outcome.bind_eq_ok h
  split at h; · cases h
  rename_i heq
  obtain ⟨report, hreport, h⟩ := Outcome.bind_eq_ok h
  cases h
  rw [not_not] at hseq hlink heq
  subst hlink heq
  have hmac := checkMac_eq_ok hreport
  exact ⟨l, hl, hseq, hprev, hhash, rfl, rfl, hmac.1, by simp [hmac.2]⟩

/-- A line built against the head of a walk is accepted. -/
theorem walkLine_of_link {key : Option SecretKey} {w : Walk} {line : Bytes} {l : AuditLine}
    (hl : AuditJson.lineFromStr line = some l) (hseq : l.event.seq = w.seq + 1)
    (hprev : unhex l.event.prevHash = .ok w.prev) (hhash : unhex l.hash = .ok (entryHash w.prev l.event))
    (hmac : MacOk key l) :
    ∃ w', walkLine key w line = .ok w' ∧ w'.prev = entryHash w.prev l.event ∧ w'.seq = w.seq + 1 := by
  obtain ⟨report, hreport⟩ : ∃ r, checkMac key l w.report = .ok r := by
    unfold checkMac
    split
    · rename_i m k hm
      obtain ⟨p, hp, hm'⟩ := hmac m k hm rfl
      simp [hp, hm']
    · exact ⟨_, rfl⟩
  exact ⟨_, by simp [walkLine, hl, hseq, hprev, hhash, hreport]; rfl, rfl, rfl⟩

/-! ## Whole texts -/

/-- The number of entries is the number of the last one. -/
theorem foldlM_walkLine_seq {key : Option SecretKey} {ls : List Bytes} {w w' : Walk}
    (h : ls.foldlM (walkLine key) w = .ok w') :
    w'.seq = w.seq + ls.length ∧ w'.report.entries = w.report.entries + ls.length := by
  induction ls generalizing w with
  | nil => cases h; simp
  | cons line ls ih =>
    rw [List.foldlM_cons] at h
    obtain ⟨w1, h1, h⟩ := Outcome.bind_eq_ok h
    obtain ⟨l, -, -, -, -, -, hs, -, he⟩ := walkLine_eq_ok h1
    obtain ⟨h2, h3⟩ := ih h
    rw [List.length_cons]
    omega

theorem Chain.entries {key : Option SecretKey} {content : Bytes} {w : Walk} (h : Chain key content w) :
    w.report.entries = w.seq := by
  have := foldlM_walkLine_seq h.walk
  simp only [Walk.start] at this
  omega

/-- Forgetting the key keeps a chain. -/
theorem foldlM_walkLine_none {key : Option SecretKey} {ls : List Bytes} {w v w' : Walk} (hv : v.prev = w.prev)
    (hs : v.seq = w.seq) (h : ls.foldlM (walkLine key) w = .ok w') :
    ∃ v', ls.foldlM (walkLine none) v = .ok v' ∧ v'.prev = w'.prev ∧ v'.seq = w'.seq := by
  induction ls generalizing w v with
  | nil => cases h; exact ⟨v, rfl, hv, hs⟩
  | cons line ls ih =>
    rw [List.foldlM_cons] at h
    obtain ⟨w1, h1, h⟩ := Outcome.bind_eq_ok h
    obtain ⟨l, hl, hseq, hprev, hhash, heq, hs1, -, -⟩ := walkLine_eq_ok h1
    rw [heq, ← hv] at hhash
    obtain ⟨v1, hv1, hp1, hq1⟩ := @walkLine_of_link _ _ none v _ _ hl (by rw [hseq, hs]) (by rw [hprev, hv])
      hhash (fun m k _ hk => by cases hk)
    obtain ⟨v', hv', hp', hq'⟩ := ih (v := v1) (by rw [hp1, heq, hv]) (by omega) h
    exact ⟨v', by rw [List.foldlM_cons, hv1]; exact hv', hp', hq'⟩

/-- A chain under a key is a chain without one, with the same head. -/
theorem Chain.forget {key : Option SecretKey} {content : Bytes} {w : Walk} (h : Chain key content w) :
    ∃ v, Chain none content v ∧ v.prev = w.prev ∧ v.seq = w.seq := by
  obtain ⟨v, hv, hp, hs⟩ := foldlM_walkLine_none (v := .start) rfl rfl h.walk
  exact ⟨v, ⟨h.utf8, hv⟩, hp, hs⟩

/-- A line that links to the head of a terminated chain extends it. -/
theorem Chain.append [LawfulAuditJson] {key : Option SecretKey} {content : Bytes} {w : Walk} (h : Chain key content w)
    (ht : Terminated content) {l : AuditLine} (hseq : l.event.seq = w.seq + 1)
    (hprev : unhex l.event.prevHash = .ok w.prev) (hhash : unhex l.hash = .ok (entryHash w.prev l.event))
    (hmac : MacOk key l) : ∃ w', Chain key (content ++ (AuditJson.lineToString l ++ [lf])) w' ∧
      w'.prev = entryHash w.prev l.event ∧ w'.seq = w.seq + 1 := by
  obtain ⟨w', hw', hp, hs⟩ := walkLine_of_link (LawfulAuditJson.line_roundtrip l) hseq hprev hhash hmac
  refine ⟨w', ⟨utf8Valid_append h.utf8 (utf8Valid_line l), ?_⟩, hp, hs⟩
  have hw := h.walk
  unfold walkText at hw ⊢
  rw [auditLines_append ht, auditLines_line, List.foldlM_append, hw]
  simp [hw']

/-! ## The head of a log -/

theorem resyncLines_of_walk {key : Option SecretKey} {ls : List Bytes} {w w' : Walk}
    (h : ls.foldlM (walkLine key) w = .ok w') : AuditLog.resyncLines w.prev w.seq ls = .ok (w'.prev, w'.seq) := by
  induction ls generalizing w with
  | nil => cases h; rfl
  | cons line ls ih =>
    rw [List.foldlM_cons] at h
    obtain ⟨w1, h1, h⟩ := Outcome.bind_eq_ok h
    obtain ⟨l, hl, hseq, -, hhash, -, hs, -, -⟩ := walkLine_eq_ok h1
    have := ih h
    rw [hs] at this
    simp [AuditLog.resyncLines, hl, hseq, hhash, this]

/-- The head a log knows is that of the file, or an earlier one. -/
def InSync (log : AuditLog) (w : Walk) : Prop := log.seq < w.seq ∨ log.seq = w.seq ∧ log.lastHash = w.prev

/-- A log that is not ahead of the file gets the head of the file. -/
theorem Chain.resync {key : Option SecretKey} {content : Bytes} {w : Walk} (h : Chain key content w) {log : AuditLog}
    (hs : InSync log w) : log.resync (some content) = .ok { log with seq := w.seq, lastHash := w.prev } := by
  have hr : AuditLog.resyncLines (FixedBytes.zero 32) 0 (auditLines content) = .ok (w.prev, w.seq) :=
    resyncLines_of_walk (w := .start) h.walk
  simp only [AuditLog.resync, readToString_some h.utf8, hr]
  rcases hs with hlt | ⟨heq, hhash⟩
  · rw [if_pos hlt]
  · rw [if_neg (by omega), ← heq, ← hhash]

/-- A staged entry that was built against a head. -/
structure StagedEntry.At (s : StagedEntry) (key : Option SecretKey) (w : Walk) : Prop where
  seq : s.event.seq = w.seq + 1
  prevHash : s.event.prevHash = hex w.prev.1
  hashHex : s.hashHex = hex (entryHash w.prev s.event).1
  macHex : s.macHex = key.map fun k => hex (entryMac k w.prev s.event).1

/-- The entry that is built against a head. -/
def Walk.stage (w : Walk) (event : String → Nat → String → AuditEvent) (mac : Option SecretKey) (ts : String) :
    StagedEntry :=
  let e := event ts (w.seq + 1) (hex w.prev.1)
  { event := e
    hashHex := hex (entryHash w.prev e).1
    macHex := mac.map fun k => hex (entryMac k w.prev e).1 }

theorem Walk.stage_at (w : Walk) {event : String → Nat → String → AuditEvent} (hev : Positioned event)
    (mac : Option SecretKey) (ts : String) : (w.stage event mac ts).At mac w :=
  ⟨(hev _ _ _).1, (hev _ _ _).2, rfl, rfl⟩

/-- `stage` builds against the head of the file. -/
theorem Chain.stageEvent_eq_ok {key : Option SecretKey} {content : Bytes} {w : Walk} (h : Chain key content w)
    {log : AuditLog}
    (hs : InSync log w) {event : String → Nat → String → AuditEvent} {mac : Option SecretKey} {priority : Priority}
    {host : Host} (hf : host.auditFile = some content) {s : StagedEntry}
    (hst : log.stageEvent event mac priority host = .ok s) :
    ∃ ts, AuditLog.timestamp host.wall = .ok ts ∧ s = w.stage event mac ts := by
  unfold AuditLog.stageEvent at hst
  rw [hf, h.resync hs] at hst
  simp only [Outcome.ok_bind] at hst
  obtain ⟨ts, hts, hst⟩ := Outcome.bind_eq_ok hst
  obtain ⟨-, -, hst⟩ := Outcome.bind_eq_ok hst
  cases hst
  exact ⟨ts, hts, rfl⟩

theorem Chain.stageEvent {key : Option SecretKey} {content : Bytes} {w : Walk} (h : Chain key content w)
    {log : AuditLog}
    (hs : InSync log w) {event : String → Nat → String → AuditEvent} (hev : Positioned event) {mac : Option SecretKey}
    {priority : Priority} {host : Host} (hf : host.auditFile = some content) {s : StagedEntry}
    (hst : log.stageEvent event mac priority host = .ok s) : s.At mac w := by
  obtain ⟨ts, -, rfl⟩ := h.stageEvent_eq_ok hs hf hst
  exact w.stage_at hev mac ts

/-- The ceiling an entry of a priority has to stay under. -/
def Limits.ceiling (l : Limits) : Priority → Nat
  | .ordinary => l.soft
  | .lifecycle => l.hard

omit [Crypto] [AuditJson] in
@[simp] theorem Limits.ceiling_ordinary (l : Limits) : l.ceiling .ordinary = l.soft := rfl

omit [Crypto] [AuditJson] in
@[simp] theorem Limits.ceiling_lifecycle (l : Limits) : l.ceiling .lifecycle = l.hard := rfl

/-- An entry that fits under the ceiling is staged. -/
theorem Chain.stageEvent_fits {key : Option SecretKey} {content : Bytes} {w : Walk} (h : Chain key content w)
    {log : AuditLog} (hs : InSync log w) {event : String → Nat → String → AuditEvent} {mac : Option SecretKey}
    {host : Host} (hf : host.auditFile = some content) {ts : String} (hts : AuditLog.timestamp host.wall = .ok ts)
    {priority : Priority}
    (hfit : content.length +
      (AuditJson.lineToString (AuditLog.probe (event ts (w.seq + 1) (hex w.prev.1)))).length + 1 ≤
        log.limits.ceiling priority) : log.stageEvent event mac priority host = .ok (w.stage event mac ts) := by
  have hpre : ({ log with seq := w.seq, lastHash := w.prev } : AuditLog).preflight (some content)
      (event ts (w.seq + 1) (hex w.prev.1)) priority = .ok () := by
    simp only [AuditLog.preflight]
    cases priority with
    | ordinary => exact if_neg (Nat.not_lt.mpr hfit)
    | lifecycle => exact if_neg (Nat.not_lt.mpr hfit)
  simp only [AuditLog.stageEvent, hf, h.resync hs, Outcome.ok_bind, hts, hpre, Outcome.ofExcept_ok]
  rfl

/-- The MACs of entries staged under `mac` verify under `key`. -/
def Compatible (mac key : Option SecretKey) : Prop := mac = none ∨ key = none ∨ mac = key

theorem StagedEntry.At.macOk {s : StagedEntry} {mac key : Option SecretKey} {w : Walk} (h : s.At mac w)
    (hc : Compatible mac key) : MacOk key s.line := by
  intro m k hm hk
  refine ⟨w.prev, by rw [StagedEntry.line, h.prevHash, unhex_hex], ?_⟩
  rw [StagedEntry.line, h.macHex] at hm
  rcases hc with rfl | rfl | rfl
  · cases hm
  · cases hk
  · subst hk
    cases hm
    exact unhex_hex _

/-- Writing an entry staged at the head of a terminated chain extends the chain. -/
theorem StagedEntry.At.chain [LawfulAuditJson] {s : StagedEntry} {mac key : Option SecretKey} {w : Walk}
    (h : s.At mac w) (hc : Compatible mac key) {content : Bytes} (hch : Chain key content w) (ht : Terminated content) :
    ∃ w', Chain key (content ++ (AuditJson.lineToString s.line ++ [lf])) w' ∧
      w'.prev = entryHash w.prev s.event ∧ w'.seq = w.seq + 1 :=
  hch.append ht h.seq (by rw [StagedEntry.line, h.prevHash, unhex_hex]) (by rw [StagedEntry.line, h.hashHex, unhex_hex])
    (h.macOk hc)

/-! ## The checkpoint -/

/-- A checkpoint that was found is found again when more is written. -/
theorem checkpointLines_append {headSeq seq : Nat} {headHash : String} {prev : Digest} {a : List Bytes} (b : List Bytes)
    (h : checkpointLines headSeq headHash prev seq a = .ok ()) :
    checkpointLines headSeq headHash prev seq (a ++ b) = .ok () := by
  induction a generalizing prev seq with
  | nil => cases h
  | cons line a ih =>
    obtain ⟨l, hl, h⟩ := Outcome.bind_eq_ok h
    simp only [List.cons_append, checkpointLines, hl, Outcome.ok_bind]
    dsimp only at h
    split at h; · cases h
    rename_i hseq
    rw [if_neg hseq]
    split at h
    · rename_i heq
      rw [if_pos heq]
      exact h
    · rename_i hne
      rw [if_neg hne]
      exact ih h

theorem checkpoint_append {content : Bytes} (ht : Terminated content) {more : Bytes}
    (hu : utf8Valid (content ++ more) = true) {headSeq : Nat} {headHash : String}
    (h : checkCheckpoint (some content) headSeq headHash = .ok ()) :
    checkCheckpoint (some (content ++ more)) headSeq headHash = .ok () := by
  obtain ⟨c, hc, h⟩ := Outcome.bind_eq_ok h
  cases (readToString_eq_ok (Outcome.ofExcept_eq_ok hc)).1
  rw [checkCheckpoint, readToString_some hu, Outcome.ofExcept_ok, Outcome.ok_bind, auditLines_append ht]
  exact checkpointLines_append _ h

/-- The lines of a walk up to a line that is the checkpoint. -/
theorem checkpointLines_of_walk {key : Option SecretKey} {ls : List Bytes} {w w' : Walk}
    (h : ls.foldlM (walkLine key) w = .ok w') {line : Bytes} {l : AuditLine}
    (hl : AuditJson.lineFromStr line = some l) (hseq : l.event.seq = w'.seq + 1)
    (hhash : unhex l.hash = .ok (entryHash w'.prev l.event)) :
    checkpointLines (w'.seq + 1) l.hash w.prev w.seq (ls ++ [line]) = .ok () := by
  induction ls generalizing w with
  | nil =>
    cases h
    simp [checkpointLines, hl, hseq, hhash]
  | cons a ls ih =>
    rw [List.foldlM_cons] at h
    obtain ⟨w1, h1, h⟩ := Outcome.bind_eq_ok h
    obtain ⟨la, hla, hsa, -, -, heq, hs, -, -⟩ := walkLine_eq_ok h1
    have hlt := (foldlM_walkLine_seq h).1
    have := ih h
    rw [heq, hs] at this
    simp only [List.cons_append, checkpointLines, hla, Outcome.ofOption_some, Outcome.ok_bind, ne_eq, hsa,
      not_true_eq_false, if_false]
    rw [if_neg (by omega)]
    exact this

/-- The entry that was written last is a checkpoint of the log. -/
theorem StagedEntry.At.checkpoint [LawfulAuditJson] {s : StagedEntry} {mac key : Option SecretKey} {w : Walk}
    (h : s.At mac w) {content : Bytes} (hch : Chain key content w) (ht : Terminated content) :
    checkCheckpoint (some (content ++ (AuditJson.lineToString s.line ++ [lf]))) s.event.seq s.hashHex = .ok () := by
  rw [checkCheckpoint, readToString_some (utf8Valid_append hch.utf8 (utf8Valid_line _)), Outcome.ofExcept_ok,
    Outcome.ok_bind, auditLines_append ht, auditLines_line, h.seq]
  exact checkpointLines_of_walk (w := .start) (l := s.line) hch.walk (LawfulAuditJson.line_roundtrip _) h.seq
    (by rw [StagedEntry.line, h.hashHex, unhex_hex])

end SecretsVault
