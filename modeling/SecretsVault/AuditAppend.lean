import SecretsVault.AuditChain

/-!
# Appending to the audit log

What `appendStaged` and `append` do to the log and its file when the head they were staged for is the head of the file.

- `appendStaged_run`: the two ends of a write, all of it or a prefix and an error.
- `Sound key s`: the file is a terminated chain and the log is not ahead of it; appends whose writes are all or nothing
  keep it (`Sound.appendStaged`, `Sound.appendEvent`), and only ever add to the file.
- `readAll_append`: what an entry adds to the entries of the file.
-/

namespace SecretsVault

open Lib

/-! ## What an append may change -/

/-- The next write arrives whole or not at all. -/
def Host.AllOrNothing (h : Host) : Prop := ∀ i k e, h.appends i = .stop k e → k = 0

/-- The file of `s'` is that of `s` with more behind it, and nothing else of the host but its next appends differs. -/
structure Extends (s s' : AuditLog × Host) : Prop where
  limits : s'.1.limits = s.1.limits
  file : ∃ more, s'.2.auditFile = s.2.auditFile.map (· ++ more)
  rest : ∃ file appends, s'.2 = { s.2 with auditFile := file, appends }

theorem Extends.refl (s : AuditLog × Host) : Extends s s :=
  ⟨rfl, ⟨[], by simp⟩, s.2.auditFile, s.2.appends, rfl⟩

/-! ## One write -/

section

variable [AuditJson]

/-- The bytes of a staged entry. -/
def StagedEntry.bytes (s : StagedEntry) : Bytes := AuditJson.lineToString s.line ++ [lf]

theorem terminated_bytes (content : Bytes) (s : StagedEntry) : Terminated (content ++ s.bytes) := by
  rw [StagedEntry.bytes, ← List.append_assoc]
  exact terminated_append_lf _

end

variable [Crypto] [AuditJson]

namespace AuditLog

variable {key mac : Option SecretKey} {content : Bytes} {w : Walk} {log : AuditLog} {h : Host} {s : StagedEntry}

/-- The head behind an entry that was written. -/
def advanced (log : AuditLog) (w : Walk) (s : StagedEntry) : AuditLog :=
  { log with seq := w.seq + 1, lastHash := entryHash w.prev s.event }

/-- The head of the file. -/
def synced (log : AuditLog) (w : Walk) : AuditLog := { log with seq := w.seq, lastHash := w.prev }

/-- Writing an entry that was staged at the head of the file. -/
theorem appendStaged_run (hs : s.At mac w) (hch : Chain key content w) (hsync : InSync log w)
    (hf : h.auditFile = some content) : (appendStaged s).run (log, h) = match h.appends 0 with
      | .ok => (.ok (), log.advanced w s,
          { h with auditFile := some (content ++ s.bytes), appends := fun i => h.appends (i + 1) })
      | .stop k e => (.error e.toVaultError, log.synced w,
          { h with auditFile := some (content ++ s.bytes.take k), appends := fun i => h.appends (i + 1) }) := by
  have hr : log.resync (some content) = .ok (log.synced w) := hch.resync hsync
  have hprev : unhex s.event.prevHash = .ok w.prev := by rw [hs.prevHash, unhex_hex]
  have hseq : s.event.seq = (log.synced w).seq + 1 := hs.seq
  have hlast : (log.synced w).lastHash = w.prev := rfl
  unfold appendStaged
  simp only [Prog.run_bind, Prog.run_get, Prog.run_lift, hf, hr, Prog.run_modify, hseq, ne_eq, not_true_eq_false,
    if_false, hprev, hlast, hs.hashHex, Prog.run_zoom, Host.appendAudit, Prog.run_step]
  cases h.appends 0 with
  | ok => rfl
  | stop k e => rfl

/-- A refused entry changes nothing; any other append is a write of the entry that was staged. -/
theorem appendEvent_run (event : String → Nat → String → AuditEvent) (mac : Option SecretKey) (priority : Priority) :
    (appendEvent event mac priority).run (log, h) = match log.stageEvent event mac priority h with
      | .ok s => (appendStaged s).run (log, h)
      | .error e => (.error e, log, h)
      | .panic => (.panic, log, h) := by
  unfold appendEvent
  simp only [Prog.run_bind, Prog.run_get, Prog.run_lift]
  cases log.stageEvent event mac priority h <;> rfl

end AuditLog

/-! ## Whole appends -/

/-- The file is a terminated log that is accepted under the key, and the head the log knows is not ahead of it. -/
structure Sound (key : Option SecretKey) (s : AuditLog × Host) : Prop where
  exists_chain : ∃ content w, s.2.auditFile = some content ∧ Terminated content ∧ Chain key content w ∧ InSync s.1 w

variable [LawfulAuditJson] {key mac : Option SecretKey}

/-- What an append of a sound log does when writes are all or nothing: the file gets the entry, or stays. -/
theorem Sound.appendStaged {log : AuditLog} {h : Host} (hsound : Sound key (log, h)) (hall : h.AllOrNothing)
    {content : Bytes} {w : Walk} (hf : h.auditFile = some content) (hch : Chain key content w) (hsync : InSync log w)
    {s : StagedEntry} (hs : s.At mac w) (hc : Compatible mac key) {o : Outcome VaultError Unit} {t : AuditLog × Host}
    (hrun : (AuditLog.appendStaged s).run (log, h) = (o, t)) :
    Sound key t ∧ Extends (log, h) t ∧
      (o = .ok () ∧ t.2.auditFile = some (content ++ s.bytes) ∨ (∃ e, o = .error e) ∧
        t.2.auditFile = some content) := by
  have ht : Terminated content := by
    obtain ⟨c, w', hf', ht, -, -⟩ := hsound.exists_chain
    simp only [hf, Option.some.injEq] at hf'
    rw [hf']; exact ht
  rw [AuditLog.appendStaged_run hs hch hsync hf] at hrun
  split at hrun
  · cases hrun
    obtain ⟨w', hch', hp', hq'⟩ := hs.chain hc hch ht
    refine ⟨⟨_, w', rfl, terminated_bytes _ _, hch', Or.inr ⟨hq'.symm, hp'.symm⟩⟩, ?_, Or.inl ⟨rfl, rfl⟩⟩
    exact ⟨rfl, ⟨s.bytes, by simp [hf]⟩, _, _, rfl⟩
  · rename_i k e happ
    cases hrun
    have hk := hall 0 k e happ
    subst hk
    simp only [List.take_zero, List.append_nil]
    refine ⟨⟨content, w, rfl, ht, hch, Or.inr ⟨rfl, rfl⟩⟩, ?_, Or.inr ⟨⟨_, rfl⟩, trivial⟩⟩
    exact ⟨rfl, ⟨[], by simp [hf]⟩, some content, fun i => h.appends (i + 1), rfl⟩

/-- The same for an append that stages its entry itself; a refused one changes nothing. -/
theorem Sound.appendEvent {s t : AuditLog × Host} (hsound : Sound key s) (hall : s.2.AllOrNothing)
    {event : String → Nat → String → AuditEvent} (hev : Positioned event) (hc : Compatible mac key)
    {priority : Priority} {o : Outcome VaultError Unit}
    (hrun : (AuditLog.appendEvent event mac priority).run s = (o, t)) : Sound key t ∧ Extends s t := by
  obtain ⟨log, h⟩ := s
  rw [AuditLog.appendEvent_run] at hrun
  split at hrun
  · rename_i staged hst
    obtain ⟨content, w, hf, -, hch, hsync⟩ := hsound.exists_chain
    have := hsound.appendStaged hall hf hch hsync (hch.stageEvent hsync hev hf hst) hc hrun
    exact ⟨this.1, this.2.1⟩
  · cases hrun; exact ⟨hsound, Extends.refl _⟩
  · cases hrun; exact ⟨hsound, Extends.refl _⟩

/-! ## The entries of a file -/

omit [LawfulAuditJson] in
/-- The entries of an accepted file can be read. -/
theorem Chain.readAll {content : Bytes} {w : Walk} (h : Chain key content w) :
    ∃ ls, readAll (some content) = .ok ls := by
  have hread : ∀ (bs : List Bytes) (v v' : Walk), bs.foldlM (walkLine key) v = .ok v' →
      ∃ ls, bs.mapM parseLine = .ok ls := by
    intro bs
    induction bs with
    | nil => intro _ _ _; exact ⟨[], rfl⟩
    | cons b bs ih =>
      intro v v' hv
      rw [List.foldlM_cons] at hv
      obtain ⟨v1, h1, hv⟩ := Outcome.bind_eq_ok hv
      obtain ⟨l, hl, -⟩ := walkLine_eq_ok h1
      obtain ⟨ls, hls⟩ := ih v1 v' hv
      exact ⟨l :: ls, by rw [List.mapM_cons, parseLine, hl, hls]; rfl⟩
  obtain ⟨ls, hls⟩ := hread _ _ _ h.walk
  exact ⟨ls, by rw [SecretsVault.readAll, readToString_some h.utf8]; exact hls⟩

omit [Crypto] in
/-- An entry written to a terminated file is one entry more. -/
theorem readAll_append {content : Bytes} (ht : Terminated content) {ls : List AuditLine}
    (h : readAll (some content) = .ok ls) (l : AuditLine) :
    readAll (some (content ++ (AuditJson.lineToString l ++ [lf]))) = .ok (ls ++ [l]) := by
  obtain ⟨c, hc, h⟩ := Except.bind_eq_ok h
  obtain ⟨hf, hu⟩ := readToString_eq_ok hc
  cases hf
  rw [readAll, readToString_some (utf8Valid_append hu (utf8Valid_line l))]
  change (auditLines (content ++ _)).mapM parseLine = _
  rw [auditLines_append ht, auditLines_line, List.mapM_append, h, List.mapM_cons, parseLine,
    LawfulAuditJson.line_roundtrip]
  rfl

end SecretsVault
