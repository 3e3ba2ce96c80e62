import SecretsVault.Lifetimes
import SecretsVault.SessionRegistry
import Mathlib.Data.List.Nodup
import Mathlib.Data.Nat.ModEq

/-!
# The windows that are reported

A touch or a mint reports what is left of both windows of a session, in whole seconds. They are what the registry
enforces: the credential is accepted for that many seconds and no longer, if nothing else becomes of its entry.

- `lapsed_ofSecs`, `AddsUp`: the arithmetic, whatever the parts of a second are.
- `TableStep`, `Call.table`: what a call does to the registry, entry by entry.
- `World.after_orderly`: no instant in the registry is behind the clock.
- `Sole.run`: what is left of an entry that nothing touches.
- `session_windows_truthful`: over the runs, and `mint_evicts_live` for why the vault being unlocked is not enough.
-/

namespace SecretsVault

open Lib Lib.Prog Host

/-! ## Seconds -/

theorem asSecs_mono {a b : Nat} (h : a ≤ b) : asSecs a ≤ asSecs b := Nat.div_le_div_right h

theorem ofSecs_mono {a b : Nat} (h : a ≤ b) : ofSecs a ≤ ofSecs b := Nat.mul_le_mul_right _ h

namespace HumanSession

variable {e : HumanSession} {now : Instant}

theorem lapsed_eq_false : e.lapsed now = false ↔
    asSecs (now - e.lastUsed) < e.ttlSecs ∧ asSecs (now - e.mintedAt) < SESSION_MAX_TTL_SECS := by
  simp only [lapsed, Bool.or_eq_false_iff, decide_eq_false_iff_not, Nat.not_le]

/-- What has not lapsed had not lapsed before. -/
theorem lapsed_mono {later : Instant} (h : now ≤ later) (hlive : e.lapsed later = false) : e.lapsed now = false := by
  rw [lapsed_eq_false] at hlive ⊢
  have hused := asSecs_mono (Nat.sub_le_sub_right h e.lastUsed)
  have hminted := asSecs_mono (Nat.sub_le_sub_right h e.mintedAt)
  omega

/-- An entry lapses when the shorter of its windows has passed, to the second. -/
theorem lapsed_ofSecs (d : Nat) (hminted : e.mintedAt ≤ now) (hused : e.lastUsed ≤ now) :
    e.lapsed (now + ofSecs d) = false ↔ d < min (e.windows now).1 (e.windows now).2 := by
  have hidle : asSecs (now + ofSecs d - e.lastUsed) = asSecs (now - e.lastUsed) + d := by
    rw [Nat.sub_add_comm hused, asSecs_add_ofSecs]
  have habsolute : asSecs (now + ofSecs d - e.mintedAt) = asSecs (now - e.mintedAt) + d := by
    rw [Nat.sub_add_comm hminted, asSecs_add_ofSecs]
  rw [lapsed_eq_false, hidle, habsolute, Nat.lt_min, windows]
  omega

/-- No difference is cut off at zero: neither instant is ahead of the clock, and what is left of a window and what has
passed of it make up the window. -/
def AddsUp (e : HumanSession) (now : Instant) : Prop :=
  e.mintedAt ≤ now ∧ e.lastUsed ≤ now ∧ (e.windows now).1 + asSecs (now - e.lastUsed) = e.ttlSecs ∧
    (e.windows now).2 + asSecs (now - e.mintedAt) = SESSION_MAX_TTL_SECS

theorem addsUp_of_live (hlive : e.lapsed now = false) (hminted : e.mintedAt ≤ now) (hused : e.lastUsed ≤ now) :
    e.AddsUp now := by
  obtain ⟨hidle, habsolute⟩ := lapsed_eq_false.mp hlive
  exact ⟨hminted, hused, Nat.sub_add_cancel hidle.le, Nat.sub_add_cancel habsolute.le⟩

/-- A session that was just used has not lapsed, if it had not before. -/
theorem lapsed_used (hlive : e.lapsed now = false) :
    ({ e with lastUsed := now } : HumanSession).lapsed now = false := by
  obtain ⟨hidle, habsolute⟩ := lapsed_eq_false.mp hlive
  have hzero : asSecs (now - now) = 0 := by rw [Nat.sub_self]; rfl
  exact lapsed_eq_false.mpr ⟨hzero ▸ Nat.zero_lt_of_lt hidle, habsolute⟩

end HumanSession

/-! ## What becomes of the registry -/

/-- Which entries may be used, may be ended before they lapse, and may be made. -/
structure TableRights where
  uses : Digest → Prop
  ends : Digest → Prop
  draws : Digest → Prop

/-- One change of the registry. -/
inductive TableStep (p : TableRights) (now : Instant) : DigestMap HumanSession → DigestMap HumanSession → Prop
  | lapse {m : DigestMap HumanSession} {d : Digest} {e : HumanSession} (hget : m.get? d = some e)
      (hlapsed : e.lapsed now = true) : TableStep p now m (m.remove d)
  | remove {m : DigestMap HumanSession} {d : Digest} (h : p.ends d ∨ p.draws d) : TableStep p now m (m.remove d)
  | sweep {m : DigestMap HumanSession} : TableStep p now m (m.filter fun e => !e.2.lapsed now)
  | slide {m : DigestMap HumanSession} {d : Digest} (h : p.uses d) :
      TableStep p now m (m.map fun e => if e.1 == d then (e.1, { e.2 with lastUsed := now }) else e)
  | mint {m : DigestMap HumanSession} {d : Digest} (h : p.draws d) (displayPrefix : String) (ttlSecs : Nat) :
      TableStep p now m (m.insert d ⟨displayPrefix, now, now, ttlSecs⟩)

abbrev TableSteps (p : TableRights) (now : Instant) : DigestMap HumanSession → DigestMap HumanSession → Prop :=
  Relation.ReflTransGen (TableStep p now)

/-- No entry was used before it was minted, or is used later than now. -/
def Timed (now : Instant) (m : DigestMap HumanSession) : Prop :=
  ∀ x ∈ m, x.2.mintedAt ≤ x.2.lastUsed ∧ x.2.lastUsed ≤ now

/-- At most this entry is under the digest, and it is if it lives until `till`. -/
structure Sole (d : Digest) (e : HumanSession) (till : Instant) (m : DigestMap HumanSession) : Prop where
  only : ∀ e', (d, e') ∈ m → e' = e
  kept : e.lapsed till = false → (d, e) ∈ m

section Table

variable {p : TableRights} {now : Instant} {m m' : DigestMap HumanSession} {d : Digest}

theorem mem_remove_iff {other : Digest} {e : HumanSession} : (d, e) ∈ m.remove other ↔ (d, e) ∈ m ∧ d ≠ other := by
  rw [DigestMap.remove, List.mem_filter, bne_iff_ne]

theorem mem_slide {other : Digest} {x : Digest × HumanSession}
    (h : x ∈ m.map fun e => if e.1 == other then (e.1, { e.2 with lastUsed := now }) else e) :
    x ∈ m ∨ ∃ e, (x.1, e) ∈ m ∧ x.1 = other ∧ x.2 = { e with lastUsed := now } := by
  obtain ⟨⟨d', e⟩, he, rfl⟩ := List.mem_map.mp h
  by_cases hd : d' = other
  · rw [if_pos (beq_iff_eq.mpr hd)]
    exact Or.inr ⟨e, he, hd, rfl⟩
  · rw [if_neg fun heq => hd (beq_iff_eq.mp heq)]
    exact Or.inl he

theorem keys_slide (m : DigestMap HumanSession) (d : Digest) (now : Instant) :
    (m.map fun e => if e.1 == d then (e.1, { e.2 with lastUsed := now }) else e).map (·.1) = m.map (·.1) := by
  rw [List.map_map]
  apply List.map_congr_left
  intro e _
  dsimp only [Function.comp]
  split <;> rfl

theorem get?_cons (x : Digest × HumanSession) (m : DigestMap HumanSession) (d : Digest) :
    DigestMap.get? (x :: m) d = if x.1 = d then some x.2 else m.get? d := by
  by_cases hx : x.1 = d
  · rw [if_pos hx, DigestMap.get?, List.find?_cons_of_pos (p := fun e : Digest × HumanSession => e.1 == d)
      (beq_iff_eq.mpr hx)]
    rfl
  · rw [if_neg hx, DigestMap.get?,
      List.find?_cons_of_neg (p := fun e : Digest × HumanSession => e.1 == d) fun heq => hx (beq_iff_eq.mp heq)]
    rfl

theorem get?_slide {e : HumanSession} (hget : m.get? d = some e) :
    DigestMap.get? (m.map fun e => if e.1 == d then (e.1, { e.2 with lastUsed := now }) else e) d =
      some { e with lastUsed := now } := by
  induction m with
  | nil => cases hget
  | cons x m ih =>
    rw [get?_cons] at hget
    rw [List.map_cons, get?_cons]
    by_cases hx : x.1 = d
    · rw [if_pos hx, Option.some.injEq] at hget
      rw [if_pos (beq_iff_eq.mpr hx), if_pos hx, hget]
    · rw [if_neg hx] at hget
      rw [if_neg fun heq => hx (beq_iff_eq.mp heq), if_neg hx]
      exact ih hget

theorem TableStep.timed (h : TableStep p now m m') (hm : Timed now m) : Timed now m' := by
  cases h with
  | lapse | remove | sweep => exact fun x hx => hm x (List.mem_of_mem_filter hx)
  | slide _ =>
    intro x hx
    rcases mem_slide hx with hx | ⟨e, he, -, heq⟩
    · exact hm x hx
    · rw [heq]
      exact ⟨(hm _ he).1.trans (hm _ he).2, Nat.le_refl _⟩
  | mint _ displayPrefix ttlSecs =>
    intro x hx
    rcases List.mem_cons.mp hx with rfl | hx
    · exact ⟨Nat.le_refl _, Nat.le_refl _⟩
    · exact hm x (mem_remove hx)

theorem TableStep.keyed (h : TableStep p now m m') (hm : (m.map (·.1)).Nodup) : (m'.map (·.1)).Nodup := by
  cases h with
  | lapse | remove | sweep => exact (List.filter_sublist.map _).nodup hm
  | slide _ =>
    rw [keys_slide]
    exact hm
  | @mint d _ displayPrefix ttlSecs =>
    have hrest : ((m.remove d).map (·.1)).Nodup := (List.filter_sublist.map _).nodup hm
    rw [DigestMap.insert, List.map_cons, List.nodup_cons]
    refine ⟨fun hmem => ?_, hrest⟩
    obtain ⟨⟨d', e⟩, he, heq⟩ := List.mem_map.mp hmem
    exact (mem_remove_iff.mp he).2 heq

/-- An entry that may not be used, ended or made stays until it has lapsed. -/
theorem TableStep.sole {e : HumanSession} {till : Instant} (h : TableStep p now m m') (huses : ¬p.uses d)
    (hends : ¬p.ends d) (hdraws : ¬p.draws d) (hnow : now ≤ till) (hm : Sole d e till m) : Sole d e till m' := by
  cases h with
  | @lapse other e' hget hlapsed =>
    refine ⟨fun e'' he => hm.only _ (mem_remove he), fun hlive => mem_remove_iff.mpr ⟨hm.kept hlive, ?_⟩⟩
    rintro rfl
    rw [hm.only e' (get?_some_mem hget), HumanSession.lapsed_mono hnow hlive] at hlapsed
    cases hlapsed
  | @remove other hright =>
    refine ⟨fun e'' he => hm.only _ (mem_remove he), fun hlive => mem_remove_iff.mpr ⟨hm.kept hlive, ?_⟩⟩
    rintro rfl
    exact hright.elim hends hdraws
  | sweep =>
    refine ⟨fun e'' he => hm.only _ (List.mem_of_mem_filter he), fun hlive => List.mem_filter.mpr ⟨hm.kept hlive, ?_⟩⟩
    simp [HumanSession.lapsed_mono hnow hlive]
  | @slide other hright =>
    have hother : d ≠ other := fun heq => huses (heq ▸ hright)
    refine ⟨fun e'' he => ?_, fun hlive => ?_⟩
    swap
    · exact List.mem_map.mpr ⟨_, hm.kept hlive, if_neg fun heq => hother (beq_iff_eq.mp heq)⟩
    rcases mem_slide he with he | ⟨_, -, heq, -⟩
    · exact hm.only _ he
    · exact absurd heq hother
  | @mint other hright displayPrefix ttlSecs =>
    have hother : d ≠ other := fun heq => hdraws (heq ▸ hright)
    refine ⟨fun e'' he => ?_, fun hlive => List.mem_cons_of_mem _ (mem_remove_iff.mpr ⟨hm.kept hlive, hother⟩)⟩
    rcases List.mem_cons.mp he with heq | he
    · exact absurd (Prod.mk.inj heq).1 hother
    · exact hm.only _ (mem_remove he)

/-- An invariant of every change is one of every sequence of them. -/
theorem TableSteps.invariant {I : DigestMap HumanSession → Prop} (h : TableSteps p now m m') (hm : I m)
    (hstep : ∀ a b, TableStep p now a b → I a → I b) : I m' := by
  induction h with
  | refl => exact hm
  | tail _ hab ih => exact hstep _ _ hab ih

/-- Where a digest has one entry, it is found by it. -/
theorem Sole.get? {e : HumanSession} {till : Instant} (h : Sole d e till m) (hlive : e.lapsed till = false) :
    m.get? d = some e := by
  cases hget : m.get? d with
  | none =>
    rw [DigestMap.get?, Option.map_eq_none_iff, List.find?_eq_none] at hget
    exact absurd (hget _ (h.kept hlive)) (by simp)
  | some e' => rw [h.only e' (get?_some_mem hget)]

/-- In a keyed table an entry that is found is the only one. -/
theorem sole_of_keyed {e : HumanSession} (till : Instant) (hm : (m.map (·.1)).Nodup) (hget : m.get? d = some e) :
    Sole d e till m := by
  refine ⟨fun e' he => ?_, fun _ => get?_some_mem hget⟩
  have heq := List.inj_on_of_nodup_map hm he (get?_some_mem hget) rfl
  exact (Prod.mk.inj heq).2

end Table

section

variable [Crypto] [VaultJson] [AuditJson]

/-! ## What a call does to the registry -/

/-- The registry changes as it may, and the clock stands. -/
def Sys.Registers (p : TableRights) (s t : Sys) : Prop :=
  t.host.mono = s.host.mono ∧ TableSteps p s.host.mono s.session.sessions t.session.sessions

omit [Crypto] [VaultJson] [AuditJson] in
theorem Sys.Registers.trans {p : TableRights} {a b c : Sys} (h : a.Registers p b) (h' : b.Registers p c) :
    a.Registers p c := by
  obtain ⟨hmono', htable'⟩ := h'
  rw [h.1] at hmono' htable'
  exact ⟨hmono', h.2.trans htable'⟩

instance (p : TableRights) : IsPreorder Sys (Sys.Registers p) :=
  { refl := fun _ => ⟨rfl, .refl⟩, trans := fun _ _ _ => Sys.Registers.trans }

omit [Crypto] [VaultJson] [AuditJson] in
theorem Sys.Recorded.registers {p : TableRights} {s t : Sys} (h : s.Recorded t) : s.Registers p t := by
  obtain ⟨audit, auditFile, appends, rfl⟩ := h
  exact ⟨rfl, .refl⟩

/-- What is used by a call. -/
def Call.Uses {α : Type} (c : Call α) (d : Digest) : Prop :=
  match c with
  | .slideSession credential | .sessionTouch credential => tokenDigest credential = d
  | _ => False

/-- What ends by a call before it has lapsed: everything of a locked vault, what is closed, and at the cap what a mint
makes room by. -/
def Call.Ends {α : Type} (c : Call α) (s : Sys) (d : Digest) : Prop :=
  s.session.isLocked = true ∨ match c with
    | .sessionClose credential => tokenDigest credential = d
    | .sessionOpen _ _ =>
      MAX_SESSIONS ≤ (s.session.liveSessions s.host.mono).length ∧
        Session.oldest (s.session.liveSessions s.host.mono) = some d
    | _ => False

/-- What a mint draws. -/
def Call.Draws {α : Type} (c : Call α) (s : Sys) (d : Digest) : Prop :=
  match c with
  | .sessionOpen _ _ => ∃ credential displayPrefix h, generateCapability.run s.host =
      (.ok (credential, d, displayPrefix), h)
  | _ => False

def Call.tableRights {α : Type} (c : Call α) (s : Sys) : TableRights := ⟨c.Uses, c.Ends s, c.Draws s⟩

variable {p : TableRights} {s : Sys}

omit [VaultJson] in
theorem validSession_registers (op credential : String) (hends : ∀ d, s.session.isLocked = true → p.ends d) :
    KeepsAt (Sys.Registers p) (validSession op credential) s := by
  have hvalidate : KeepsAt (Sys.Registers p) (validateSession credential) s := by
    rw [KeepsAt, validateSession, run_get_bind]
    dsimp only
    cases hget : s.session.sessions.get? (tokenDigest credential) with
    | none => exact ⟨rfl, .refl⟩
    | some live =>
      dsimp only
      by_cases hlapsed : (s.session.isLocked || live.lapsed s.host.mono) = true
      · rw [if_pos hlapsed]
        rcases Bool.or_eq_true _ _ ▸ hlapsed with hlocked | hlapsed
        · exact ⟨rfl, .single (.remove (Or.inl (hends _ hlocked)))⟩
        · exact ⟨rfl, .single (.lapse hget hlapsed)⟩
      · rw [if_neg hlapsed]
        exact ⟨rfl, .refl⟩
  refine hvalidate.attempt.bind fun r t _ => Keeps.at ?_ t
  cases r with
  | ok displayPrefix => exact keeps_pure _
  | error e => exact (deny_recorded _ _ _ _ _).mono fun _ _ => Sys.Recorded.registers

omit [VaultJson] in
theorem auditRecordWith_registers (record : Record) (priority : Priority) :
    Keeps (Sys.Registers p) (auditRecordWith record priority) :=
  (auditRecordWith_recorded record priority).mono fun _ _ => Sys.Recorded.registers

omit [VaultJson] [AuditJson] in
theorem slideSession_registers (credential : String) (huses : p.uses (tokenDigest credential)) :
    Keeps (Sys.Registers p) (slideSession credential) :=
  fun _ => ⟨rfl, .single (.slide huses)⟩

omit [VaultJson] in
theorem sessionTouch_registers (credential : String) (hends : ∀ d, s.session.isLocked = true → p.ends d)
    (huses : p.uses (tokenDigest credential)) : KeepsAt (Sys.Registers p) (sessionTouch credential) s := by
  refine (validSession_registers _ _ hends).bind fun _ t _ => Keeps.at ?_ t
  refine keeps_get.bind fun s' => ?_
  dsimp only
  cases s'.session.audit.stage _ _ _ _ with
  | panic => exact keeps_lift _
  | error e => exact (deny_recorded _ _ _ _ _).mono fun _ _ => Sys.Recorded.registers
  | ok _ =>
    refine (slideSession_registers _ huses).bind fun _ => keeps_get.bind fun s'' => ?_
    cases s''.session.sessions.get? (tokenDigest credential) with
    | none => exact keeps_lift _
    | some entry => exact (auditRecordWith_registers _ _).ignore.bind fun _ => keeps_pure _

omit [VaultJson] in
theorem sessionClose_registers (credential : String) (hends : ∀ d, s.session.isLocked = true → p.ends d)
    (hcloses : p.ends (tokenDigest credential)) : KeepsAt (Sys.Registers p) (sessionClose credential) s := by
  refine (validSession_registers _ _ hends).bind fun _ t _ => Keeps.at ?_ t
  refine Keeps.bind (fun _ => ⟨rfl, .single (.remove (Or.inl hcloses))⟩) fun _ => ?_
  exact (auditRecordWith_registers _ _).ignore.bind fun _ => keeps_pure _

omit [Crypto] [VaultJson] [AuditJson] in
/-- Room is made by a sweep, and at the cap by ending one session. -/
theorem makeRoom_steps {now : Instant} {t : Session} (hopen : t.isLocked = false)
    (hends : ∀ d, MAX_SESSIONS ≤ (t.liveSessions now).length → Session.oldest (t.liveSessions now) = some d →
    p.ends d) : TableSteps p now t.sessions (t.makeRoom now).sessions := by
  have hsweep := Session.sweepLapsedSessions_open now hopen
  have hswept : TableSteps p now t.sessions (t.liveSessions now) := .single .sweep
  rw [Session.makeRoom, hsweep]
  by_cases hfull : MAX_SESSIONS ≤ (t.liveSessions now).length
  · rw [if_pos hfull]
    cases ho : Session.oldest (t.liveSessions now) with
    | none =>
      dsimp only
      rw [hsweep]
      exact hswept
    | some d => exact hswept.tail (.remove (Or.inl (hends d hfull ho)))
  · rw [if_neg hfull, hsweep]
    exact hswept

omit [VaultJson] in
theorem sessionOpen_registers (actor : String) (ttlSecs : Nat)
    (hends : ∀ d, MAX_SESSIONS ≤ (s.session.liveSessions s.host.mono).length →
      Session.oldest (s.session.liveSessions s.host.mono) = some d → p.ends d)
    (hdraws : ∀ credential d displayPrefix h, generateCapability.run s.host = (.ok (credential, d, displayPrefix), h) →
      p.draws d) :
    KeepsAt (Sys.Registers p) (sessionOpen actor ttlSecs) s := by
  refine (keeps_get.at s).bind fun s' _ h => ?_
  cases h
  have denied : ∀ err, KeepsAt (Sys.Registers p) (deny actor "session.open" none [] err :
      SessionProg (String × String × Nat × Nat)) s := fun err =>
      ((deny_recorded _ _ _ _ err).mono fun _ _ => Sys.Recorded.registers).at s
  by_cases hlocked : s.session.isLocked = true
  · rw [if_pos hlocked]
    exact denied _
  rw [if_neg hlocked]
  by_cases httl : ttlSecs < 1 ∨ SESSION_MAX_TTL_SECS < ttlSecs
  · rw [if_pos httl]
    exact denied _
  rw [if_neg httl]
  refine KeepsAt.bind ⟨rfl, makeRoom_steps (by simpa using hlocked) hends⟩ fun _ s1 h1 => ?_
  cases h1
  refine (keeps_get.at _).bind fun s1 _ h1 => ?_
  cases h1
  refine ((keeps_lift _).at _).bind fun staged s2 h2 => ?_
  obtain ⟨-, rfl⟩ := Prod.mk.inj h2
  refine KeepsAt.bind ?_ fun cap s3 h3 => ?_
  · obtain ⟨rng, syscalls, hquiet⟩ := (generateCapability_quiet s.host).eq
    rw [KeepsAt, onHost, run_zoom, hquiet]
    exact ⟨rfl, .refl⟩
  obtain ⟨credential, digest, displayPrefix⟩ := cap
  have hdraw : p.draws digest := by
    rw [onHost, run_zoom] at h3
    exact hdraws credential digest displayPrefix _ (Prod.ext (Prod.mk.inj h3).1 rfl)
  have hmono : s3.host.mono = s.host.mono := by
    obtain ⟨rng, syscalls, hquiet⟩ := (generateCapability_quiet s.host).eq
    rw [onHost, run_zoom, hquiet] at h3
    rw [← (Prod.mk.inj h3).2]
  refine KeepsAt.bind ⟨rfl, ?_⟩ fun _ s4 _ => Keeps.at ?_ s4
  · rw [hmono]
    exact .single (.mint hdraw displayPrefix ttlSecs)
  have happend : Keeps (Sys.Registers p) (onAudit (AuditLog.appendStaged staged)) :=
    (onAudit_recorded (appendStaged_auditOnly staged)).mono fun _ _ => Sys.Recorded.registers
  refine happend.attempt.bind fun r => ?_
  cases r with
  | ok _ => exact keeps_pure _
  | error e => exact Keeps.bind (fun _ => ⟨rfl, .single (.remove (Or.inr hdraw))⟩) fun _ => keeps_fail _

/-! ## Any call -/

variable {t : Sys}

/-- A session that is locked stays so unless it is unlocked. -/
theorem Act.locked {p : Rights} (h : Act p s t) (hunlocks : ∀ derived, ¬p.unlocks derived)
    (hlocked : s.session.unlocked = none) : t.session.unlocked = none := by
  cases h with
  | append hev hmac =>
    obtain ⟨l, f, q, ht⟩ := onAudit_recorded (appendEvent_auditOnly _ _ _) s
    rw [ht]
    exact hlocked
  | @commit doc record priority hc =>
    rcases hr : (commitWith doc record priority).run s with ⟨o, t⟩
    cases commitWith_ends hr with
    | refused | cut => exact hlocked
    | landed hu =>
      rw [hlocked] at hu
      cases hu
  | lock => rfl
  | host | table | clock | limits => exact hlocked
  | unlock hd hu => exact absurd hd (hunlocks _)
  | sweep hp hu =>
    rw [hlocked] at hu
    cases hu
  | @store u hp hu =>
    rw [hlocked] at hu
    cases hu

/-- Without a right to the registry an act leaves it as it is, or locks. -/
theorem Act.unregistered {p : Rights} (h : Act p s t) (hregisters : ¬p.registers) :
    t.session.sessions = s.session.sessions ∨ p.locks ∧ t.session.unlocked = none ∧ t.session.sessions = [] := by
  cases h with
  | append hev hmac =>
    obtain ⟨l, f, q, ht⟩ := onAudit_recorded (appendEvent_auditOnly _ _ _) s
    rw [ht]
    exact Or.inl rfl
  | @commit doc record priority hc =>
    rcases hr : (commitWith doc record priority).run s with ⟨o, t⟩
    cases commitWith_ends hr <;> exact Or.inl rfl
  | lock hl => exact Or.inr ⟨hl, rfl, rfl⟩
  | table hr => exact absurd hr hregisters
  | host | clock | limits | unlock | sweep => exact Or.inl rfl
  | @store u hup hu =>
    rcases hr : (storeAsIs u).run s with ⟨o, t⟩
    cases storeAsIs_ends hr <;> exact Or.inl rfl

/-- A call that does not unlock ends with the registry it found, or locked. -/
theorem Acts.unregistered {p : Rights} (h : Acts p s t) (hregisters : ¬p.registers)
    (hunlocks : ¬p.locks ∨ ∀ derived, ¬p.unlocks derived) :
    t.session.sessions = s.session.sessions ∨ t.session.unlocked = none ∧ t.session.sessions = [] := by
  rcases hunlocks with hlocks | hunlocks
  · refine Or.inl ?_
    induction h with
    | refl => rfl
    | tail _ ha ih =>
      rcases ha.unregistered hregisters with hsame | ⟨hl, -, -⟩
      · exact hsame.trans ih
      · exact absurd hl hlocks
  · induction h with
    | refl => exact Or.inl rfl
    | tail _ ha ih =>
      rcases ha.unregistered hregisters with hsame | ⟨-, hlocked, hnone⟩
      · rcases ih with ih | ⟨hlocked, hnone⟩
        · exact Or.inl (hsame.trans ih)
        · exact Or.inr ⟨ha.locked hunlocks hlocked, hsame.trans hnone⟩
      · exact Or.inr ⟨hlocked, hnone⟩

/-- **What a call does to the registry**: what it has the right to, or it locks. -/
theorem Call.table {α : Type} (c : Call α) (s : Sys) :
    TableSteps (c.tableRights s) s.host.mono s.session.sessions (c.exec.run s).2.session.sessions ∨
      (c.exec.run s).2.session.unlocked = none ∧ (c.exec.run s).2.session.sessions = [] := by
  have hlocked : ∀ d, s.session.isLocked = true → (c.tableRights s).ends d := fun _ h => Or.inl h
  by_cases hregisters : c.Registers
  · refine Or.inl ?_
    cases c with
    | sessionOpen actor ttlSecs =>
      have hopen : KeepsAt (Sys.Registers ((Call.sessionOpen actor ttlSecs).tableRights s))
          (SecretsVault.sessionOpen actor ttlSecs) s :=
        sessionOpen_registers actor ttlSecs (fun d hfull ho => Or.inr ⟨hfull, ho⟩)
          fun credential d displayPrefix h hcap => ⟨credential, displayPrefix, h, hcap⟩
      exact hopen.2
    | authorizeSession credential =>
      exact (KeepsAt.bind (validSession_registers _ _ hlocked) fun _ t _ => (keeps_pure _).at t).2
    | slideSession credential => exact (slideSession_registers credential rfl s).2
    | sessionTouch credential => exact (sessionTouch_registers credential hlocked rfl).2
    | sessionClose credential => exact (sessionClose_registers credential hlocked (Or.inr rfl)).2
    | _ => exact hregisters.elim
  · have hunlocks : ¬(c.rights s).locks ∨ ∀ derived, ¬(c.rights s).unlocks derived := by
      cases c with
      | unlock | unlockWithProof => exact Or.inl (by rintro (⟨hi, -⟩ | h) <;> [cases hi; exact h])
      | _ => exact Or.inr fun _ h => h
    rcases (c.acts s).unregistered hregisters hunlocks with hsame | hlocks
    · rw [hsame]
      exact Or.inl .refl
    · exact Or.inr hlocks

/-! ## Runs -/

variable {w : World} {st : Step}

/-- What a step does to the registry. -/
theorem World.next_registry {s' : Session} (hs' : (w.next st).session = some s') :
    (s'.unlocked = none ∧ s'.sessions = []) ∨ ∃ (α : Type) (c : Call α) (s : Sys), st.input = .call c ∧
      w.sys st.conditions = some s ∧ w.session = some s.session ∧
      TableSteps (c.tableRights s) st.conditions.mono s.session.sessions s'.sessions := by
  rcases st with ⟨conditions, input⟩
  cases input with
  | @call α c =>
    obtain ⟨s, o, t, hw, hs, hr, -, rfl⟩ := World.next_call_session hs'
    have htable := c.table s
    rw [hr, World.mono_of_sys hs] at htable
    rcases htable with hsteps | hlocked
    · exact Or.inr ⟨α, c, s, rfl, hs, hw, hsteps⟩
    · exact Or.inl hlocked
  | restart idleTimeout =>
    refine Or.inl ⟨?_, World.next_restart_session hs'⟩
    rcases hr : (Session.load idleTimeout).run ((w.host.under conditions).releaseVault) with ⟨s | e' | _, h'⟩ <;>
      simp only [World.next, hr] at hs' <;> cases hs'
    obtain ⟨-, audit, now, -, -, -, hstart⟩ := load_eq_ok hr
    rw [hstart]
    rfl

/-- The monotonic clock does not go back in the run, up to now. -/
def Ticking (run : List Step) (now : Instant) : Prop :=
  ((run.map fun st => st.conditions.mono) ++ [now]).Pairwise (· ≤ ·)

omit [Crypto] [VaultJson] [AuditJson] in
theorem ticking_concat {run : List Step} {now : Instant} :
    Ticking (run ++ [st]) now ↔ Ticking run st.conditions.mono ∧ (∀ st' ∈ run, st'.conditions.mono ≤ now) ∧
      st.conditions.mono ≤ now := by
  simp only [Ticking, List.map_append, List.map_cons, List.map_nil, List.pairwise_append, List.pairwise_singleton,
    List.mem_map, List.mem_singleton, List.mem_append]
  constructor
  · rintro ⟨⟨hrun, -, hst⟩, -, hnow⟩
    refine ⟨⟨hrun, trivial, hst⟩, fun st' h => hnow _ (Or.inl ⟨st', h, rfl⟩) _ rfl, hnow _ (Or.inr rfl) _ rfl⟩
  · rintro ⟨⟨hrun, -, hst⟩, hall, hlast⟩
    refine ⟨⟨hrun, trivial, hst⟩, trivial, ?_⟩
    rintro a (⟨st', h, rfl⟩ | rfl) b rfl
    · exact hall st' h
    · exact hlast

omit [Crypto] [VaultJson] [AuditJson] in
theorem Ticking.split {before between : List Step} {now : Instant} (h : Ticking (before ++ st :: between) now) :
    Ticking (before ++ [st]) st.conditions.mono ∧ ∀ st' ∈ between, st'.conditions.mono ≤ now := by
  rw [Ticking, List.map_append, List.map_cons, List.append_assoc, List.cons_append, List.pairwise_append,
    List.pairwise_cons] at h
  obtain ⟨hbefore, ⟨-, hbetween⟩, hall⟩ := h
  refine ⟨ticking_concat.mpr ⟨?_, fun st' hst' => ?_, Nat.le_refl _⟩, fun st' hst' => ?_⟩
  · rw [Ticking, List.pairwise_append]
    refine ⟨hbefore, List.pairwise_singleton _ _, fun a ha b hb => ?_⟩
    rw [List.mem_singleton.mp hb]
    exact hall a ha _ List.mem_cons_self
  · exact hall _ (List.mem_map_of_mem hst') _ List.mem_cons_self
  · exact (List.pairwise_append.mp hbetween).2.2 _ (List.mem_map_of_mem hst') _ (List.mem_singleton.mpr rfl)

/-- One entry a digest, and no instant behind the clock. -/
structure Orderly (now : Instant) (m : DigestMap HumanSession) : Prop where
  timed : Timed now m
  keyed : (m.map (·.1)).Nodup

omit [Crypto] [VaultJson] [AuditJson] in
theorem orderly_nil (now : Instant) : Orderly now [] := ⟨fun _ hx => absurd hx List.not_mem_nil, List.nodup_nil⟩

omit [Crypto] [VaultJson] [AuditJson] in
theorem Orderly.mono {now later : Instant} {m : DigestMap HumanSession} (h : Orderly now m) (hle : now ≤ later) :
    Orderly later m :=
  ⟨fun x hx => ⟨(h.timed x hx).1, (h.timed x hx).2.trans hle⟩, h.keyed⟩

/-- **No instant in the registry is behind the clock**, in any run along which it does not go back. -/
theorem World.after_orderly (hstart : w.Starts) (run : List Step) {now : Instant} (hclock : Ticking run now)
    {s' : Session} (hs' : (w.after run).session = some s') : Orderly now s'.sessions := by
  induction run using List.reverseRecOn generalizing now s' with
  | nil =>
    have hnone : s'.sessions = [] := by
      rcases hstart with hnone | ⟨passphrase, idleTimeout, h, h', s, hr, rfl⟩
      · rw [World.after_nil, hnone] at hs'
        cases hs'
      · cases hs'
        exact (create_session hr).2
    rw [hnone]
    exact orderly_nil now
  | append_singleton run st ih =>
    obtain ⟨hbefore, -, hlast⟩ := ticking_concat.mp hclock
    rw [World.after_append, World.after_cons, World.after_nil] at hs'
    rcases World.next_registry hs' with ⟨-, hnone⟩ | ⟨α, c, s, -, -, hw, hsteps⟩
    · rw [hnone]
      exact orderly_nil now
    · have hs := ih hbefore hw
      refine Orderly.mono ?_ hlast
      exact hsteps.invariant hs fun a b hab h => ⟨hab.timed h.timed, hab.keyed h.keyed⟩

/-- A process is live, and its vault is unlocked. -/
def World.Unlocked (w : World) : Prop := ∃ s, w.session = some s ∧ s.isLocked = false

/-- The step does not use the session of the digest, close it, evict it at the cap or draw its digest again. -/
def Step.Spares (d : Digest) (w : World) (st : Step) : Prop :=
  ∀ (α : Type) (c : Call α) (s : Sys), st.input = .call c → w.sys st.conditions = some s →
    ¬c.Uses d ∧ ¬c.Ends s d ∧ ¬c.Draws s d

/-- The vault stays unlocked, and the session is left alone. -/
def Step.KeepsOpen (d : Digest) (w : World) (st : Step) : Prop := (w.next st).Unlocked ∧ st.Spares d w

theorem Sole.next {d : Digest} {e : HumanSession} {till : Instant} (h : ∀ s, w.session = some s →
    Sole d e till s.sessions) (hopen : st.KeepsOpen d w) (hclock : st.conditions.mono ≤ till) {s' : Session}
    (hs' : (w.next st).session = some s') :
    Sole d e till s'.sessions := by
  obtain ⟨⟨s'', hs'', hunlocked⟩, hspares⟩ := hopen
  obtain rfl : s' = s'' := by
    rw [hs'] at hs''
    exact Option.some.inj hs''
  rcases World.next_registry hs' with ⟨hlocked, -⟩ | ⟨α, c, s, hc, hs, hw, hsteps⟩
  · rw [Session.isLocked, hlocked] at hunlocked
    cases hunlocked
  · obtain ⟨huses, hends, hdraws⟩ := hspares α c s hc hs
    exact hsteps.invariant (h _ hw) fun a b hab ha => hab.sole huses hends hdraws hclock ha

theorem World.Unlocked.run {d : Digest} {run : List Step} (h : w.Unlocked) (hopen : w.Along (Step.KeepsOpen d) run) :
    (w.after run).Unlocked := by
  induction run generalizing w with
  | nil => exact h
  | cons st run ih =>
    rw [World.after_cons]
    exact ih hopen.1.1 hopen.2

/-- **An entry that is left alone stays until it has lapsed.** -/
theorem Sole.run {d : Digest} {e : HumanSession} {till : Instant} {run : List Step}
    (h : ∀ s, w.session = some s → Sole d e till s.sessions) (hopen : w.Along (Step.KeepsOpen d) run)
    (hclock : ∀ st ∈ run, st.conditions.mono ≤ till) {s' : Session} (hs' : (w.after run).session = some s') :
    Sole d e till s'.sessions := by
  induction run generalizing w with
  | nil => exact h s' hs'
  | cons st run ih =>
    rw [World.after_cons] at hs'
    refine ih (fun s hs => ?_) hopen.2 (fun st' h => hclock st' (List.mem_cons_of_mem _ h)) hs'
    exact Sole.next h hopen.1 (hclock st List.mem_cons_self) hs

/-! ## What is reported -/

/-- The credential is accepted. -/
def Admitted (credential : String) (s : Sys) : Prop := ∃ actor t, (authorizeSession credential).run s = (.ok actor, t)

omit [VaultJson] in
theorem admitted_iff {credential : String} {e : HumanSession} (hopen : s.session.isLocked = false)
    (hsole : Sole (tokenDigest credential) e s.host.mono s.session.sessions) :
    Admitted credential s ↔ e.lapsed s.host.mono = false := by
  constructor
  · rintro ⟨actor, t, h⟩
    obtain ⟨displayPrefix, t', hvalid, -⟩ := bind_eq_ok h
    obtain ⟨-, -, live, hget, hlive, -⟩ := validSession_eq_ok hvalid
    rwa [hsole.only live (get?_some_mem hget)] at hlive
  · exact fun hlive => ⟨_, _, authorizeSession_live hopen (hsole.get? hlive) hlive⟩

omit [VaultJson] in
/-- What a touch leaves: the entry it reports. -/
theorem sessionTouch_eq_ok {credential actor : String} {expiresIn maxExpiresIn : Nat}
    (h : (sessionTouch credential).run s = (.ok (actor, expiresIn, maxExpiresIn), t)) :
    t.session.isLocked = false ∧ ∃ e, t.session.sessions.get? (tokenDigest credential) = some e ∧
      e.lapsed s.host.mono = false ∧ (expiresIn, maxExpiresIn) = e.windows s.host.mono := by
  obtain ⟨displayPrefix, s1, h1, hk⟩ := bind_eq_ok h
  obtain ⟨rfl, hopen, live, hfound, hlive, -⟩ := validSession_eq_ok h1
  rw [run_get_bind] at hk
  dsimp only at hk
  generalize s1.session.audit.stage _ _ _ _ = staged at hk
  cases staged with
  | panic => cases hk
  | error e => exact (deny_ne_ok hk).elim
  | ok _ =>
    dsimp only at hk
    rw [slideSession, run_modify_bind, run_get_bind] at hk
    dsimp only at hk
    cases hget : (s1.session.slide (tokenDigest credential) s1.host.mono).sessions.get? (tokenDigest credential) with
    | none =>
      rw [hget] at hk
      cases hk
    | some e =>
      rw [hget] at hk
      obtain ⟨_, s2, h2, hk⟩ := bind_eq_ok hk
      cases hk
      have hrec : Keeps Sys.Recorded (auditRecord
          { actor := sessionActor displayPrefix, op := "session.touch", decision := .allowed }).ignore :=
        (auditRecordWith_recorded _ _).ignore
      have hrecorded := hrec { s1 with session := s1.session.slide (tokenDigest credential) s1.host.mono }
      rw [h2] at hrecorded
      obtain ⟨audit, auditFile, appends, rfl⟩ := hrecorded
      have hused : e = { live with lastUsed := s1.host.mono } := Option.some.inj (hget.symm.trans (get?_slide hfound))
      exact ⟨hopen, e, hget, by rw [hused]; exact HumanSession.lapsed_used hlive, rfl⟩

/-- The step is a touch or a mint that reports these windows of the credential. -/
def Step.Reports (credential : String) (expiresIn maxExpiresIn : Nat) (w : World) (st : Step) : Prop :=
  ∃ s t, w.sys st.conditions = some s ∧
    ((∃ actor, st.input = .call (.sessionTouch credential) ∧
      (sessionTouch credential).run s = (.ok (actor, expiresIn, maxExpiresIn), t)) ∨
    ∃ actor ttlSecs displayPrefix, st.input = .call (.sessionOpen actor ttlSecs) ∧
      (sessionOpen actor ttlSecs).run s = (.ok (credential, displayPrefix, expiresIn, maxExpiresIn), t))

/-- What is reported is what is left of the windows of a live entry. -/
theorem Step.Reports.entry {credential : String} {expiresIn maxExpiresIn : Nat}
    (h : st.Reports credential expiresIn maxExpiresIn w) : ∃ s' e, (w.next st).session = some s' ∧ s'.isLocked = false ∧
      s'.sessions.get? (tokenDigest credential) = some e ∧ e.lapsed st.conditions.mono = false ∧
      (expiresIn, maxExpiresIn) = e.windows st.conditions.mono := by
  obtain ⟨s, t, hs, ⟨actor, hinput, hr⟩ | ⟨actor, ttlSecs, displayPrefix, hinput, hr⟩⟩ := h
  · obtain ⟨hopen, e, hget, hlive, hwindows⟩ := sessionTouch_eq_ok hr
    have hnext : (w.next st).session = some t.session := by
      simp only [World.next, hinput, hs, Call.exec, hr]
      rfl
    rw [World.mono_of_sys hs] at hlive hwindows
    exact ⟨_, e, hnext, hopen, hget, hlive, hwindows⟩
  · obtain ⟨e, he, -⟩ | ⟨credential', displayPrefix', heq, hopen, httl, -, htable, hunlocked, -⟩ :=
      sessionOpen_ends hr (by simp)
    · cases he
    cases heq
    have hnext : (w.next st).session = some t.session := by
      simp only [World.next, hinput, hs, Call.exec, hr]
      rfl
    have hopen' : t.session.isLocked = false := by rw [Session.isLocked, hunlocked]; exact hopen
    refine ⟨_, ⟨displayPrefix, s.host.mono, s.host.mono, expiresIn⟩, hnext, hopen', ?_, ?_, ?_⟩
    · rw [htable]
      exact DigestMap.get?_insert_self _ _ _
    · rw [← World.mono_of_sys hs]
      exact lapsed_new displayPrefix s.host.mono httl
    · have hzero : asSecs (s.host.mono - s.host.mono) = 0 := by rw [Nat.sub_self]; rfl
      rw [← World.mono_of_sys hs, HumanSession.windows]
      simp only [hzero, Nat.sub_zero]

/-- The entry whose windows are reported, in a run along which the clock does not go back. -/
theorem Step.Reports.after {run : List Step} {credential : String} {expiresIn maxExpiresIn : Nat}
    (h : st.Reports credential expiresIn maxExpiresIn (w.after run)) (hstart : w.Starts)
    (hclock : Ticking (run ++ [st]) st.conditions.mono) : ∃ s' e, (w.after (run ++ [st])).session = some s' ∧
      s'.isLocked = false ∧ Orderly st.conditions.mono s'.sessions ∧
      s'.sessions.get? (tokenDigest credential) = some e ∧
      (expiresIn, maxExpiresIn) = e.windows st.conditions.mono ∧ e.AddsUp st.conditions.mono := by
  obtain ⟨s', e, hs', hunlocked, hget, hlive, hwindows⟩ := h.entry
  have hafter : (w.after (run ++ [st])).session = some s' := by
    rw [World.after_append, World.after_cons, World.after_nil]
    exact hs'
  have horderly := World.after_orderly hstart _ hclock hafter
  obtain ⟨hminted, hused⟩ := horderly.timed _ (get?_some_mem hget)
  exact ⟨s', e, hafter, hunlocked, horderly, hget, hwindows,
    HumanSession.addsUp_of_live hlive (hminted.trans hused) hused⟩

/-- **The windows that are reported are enforced.** Whatever the instants of an entry, it has lapsed when the shorter of
its windows has passed, to the second. In every run no instant in a registry is ahead of the clock, and what a touch or
a mint reports and what has passed add up to the windows of the entry. `d` seconds after the report the credential is
accepted if and only if `d` is less than both, where in between the vault stayed unlocked and the session was neither
used nor closed, nor evicted at the cap or drawn again. -/
theorem session_windows_truthful :
    (∀ (e : HumanSession) (now : Instant) (d : Nat), e.mintedAt ≤ now → e.lastUsed ≤ now →
      (e.lapsed (now + ofSecs d) = false ↔ d < min (e.windows now).1 (e.windows now).2)) ∧
    (∀ (w : World) (run : List Step) (now : Instant) (s' : Session), w.Starts → Ticking run now →
      (w.after run).session = some s' → Timed now s'.sessions) ∧
    (∀ (w : World) (run : List Step) (st : Step) (credential : String) (expiresIn maxExpiresIn : Nat), w.Starts →
      Ticking (run ++ [st]) st.conditions.mono → st.Reports credential expiresIn maxExpiresIn (w.after run) →
      ∃ s' e, (w.after (run ++ [st])).session = some s' ∧ s'.sessions.get? (tokenDigest credential) = some e ∧
        (expiresIn, maxExpiresIn) = e.windows st.conditions.mono ∧ e.AddsUp st.conditions.mono) ∧
    ∀ (w : World) (before between : List Step) (st : Step) (credential : String) (expiresIn maxExpiresIn d : Nat)
      (cond : Conditions) (s : Sys), w.Starts → st.Reports credential expiresIn maxExpiresIn (w.after before) →
      cond.mono = st.conditions.mono + ofSecs d → Ticking (before ++ st :: between) cond.mono →
      (w.after (before ++ [st])).Along (Step.KeepsOpen (tokenDigest credential)) between →
      (w.after (before ++ st :: between)).sys cond = some s →
      (Admitted credential s ↔ d < min expiresIn maxExpiresIn) := by
  refine ⟨fun e now d hminted hused => HumanSession.lapsed_ofSecs d hminted hused,
    fun w run now s' hstart hclock hs' => (World.after_orderly hstart run hclock hs').timed, ?_, ?_⟩
  · intro w run st credential expiresIn maxExpiresIn hstart hclock hreports
    obtain ⟨s', e, hs', -, -, hget, hwindows, hadds⟩ := hreports.after hstart hclock
    exact ⟨s', e, hs', hget, hwindows, hadds⟩
  intro w before between st credential expiresIn maxExpiresIn d cond s hstart hreports hmono hclock hopen hs
  obtain ⟨htouched, hbetween⟩ := hclock.split
  obtain ⟨s', e, hafter, hunlocked, horderly, hget, hwindows, hminted, hused, -⟩ := hreports.after hstart htouched
  -- the session at the end: unlocked, with the entry as it was reported unless it has lapsed
  have hsplit : before ++ st :: between = (before ++ [st]) ++ between := by simp
  rw [hsplit, World.after_append] at hs
  have hlast := World.session_of_sys hs
  have hsole : Sole (tokenDigest credential) e cond.mono s.session.sessions := by
    refine Sole.run (fun s0 hs0 => ?_) hopen hbetween hlast
    rw [hafter] at hs0
    cases hs0
    exact sole_of_keyed cond.mono horderly.keyed hget
  obtain ⟨s0, hs0, hopen0⟩ := World.Unlocked.run ⟨s', hafter, hunlocked⟩ hopen
  rw [hlast] at hs0
  cases hs0
  rw [← World.mono_of_sys hs] at hsole
  rw [admitted_iff hopen0 hsole, World.mono_of_sys hs, hmono, HumanSession.lapsed_ofSecs d hminted hused,
    ← hwindows]

end

namespace Reference

/-- These conditions, so many seconds on. -/
def secondsOn (d : Nat) : Conditions := { conditions with mono := ofSecs d }

theorem secondsOn_whole (d : Nat) : (secondsOn d).Whole := fun _ _ _ h => nomatch h

/-- The record of a touch. -/
def touchRecord (displayPrefix : String) : Record :=
  { actor := sessionActor displayPrefix, op := "session.touch", decision := .allowed }

/-- A live session is touched, in a small log. -/
theorem touches {v : Vault} {n : Nat} {s : Sys} (hs : v.Coherent s) (hl : s.session.audit.limits = .default)
    (hlog : Bounded v n s.host.auditFile) (hn : n < 100) (hwall : s.host.wall = 0) (happ : s.host.appends 0 = .ok)
    {credential : String} {e : HumanSession} (hopen : s.session.isLocked = false)
    (hget : s.session.sessions.get? (tokenDigest credential) = some e) (hlive : e.lapsed s.host.mono = false)
    (hbrief : Brief (touchRecord e.displayPrefix)) {expiresIn maxExpiresIn : Nat}
    (hwindows : ({ e with lastUsed := s.host.mono } : HumanSession).windows s.host.mono = (expiresIn, maxExpiresIn)) :
    ∃ audit auditFile appends, (sessionTouch credential).run s =
      (.ok (sessionActor e.displayPrefix, expiresIn, maxExpiresIn),
        ⟨{ s.session.slide (tokenDigest credential) s.host.mono with audit }, { s.host with auditFile, appends }⟩) ∧
      audit.limits = .default ∧ Bounded v (n + 1) auditFile := by
  obtain ⟨content, x, hf, ht, hch, hsync⟩ := hs.logs.sound.exists_chain
  obtain ⟨hlen, hseq⟩ := hlog content x hf hch
  have hts : AuditLog.timestamp s.host.wall = .ok "1970-01-01T00:00:00Z" := by rw [hwall]; rfl
  have hstage : s.session.audit.stage (touchRecord e.displayPrefix) s.session.auditKey .ordinary s.host =
      .ok (x.stage (touchRecord e.displayPrefix).event s.session.auditKey "1970-01-01T00:00:00Z") :=
    hch.stageEvent_fits hsync hf hts (fits .ordinary hl hlen hseq hn hbrief)
  let t : Sys := { s with session := s.session.slide (tokenDigest credential) s.host.mono }
  have ht : v.Coherent t := hs.congr rfl rfl rfl rfl rfl hs.unlocked hs.sealed
  obtain ⟨audit, auditFile, appends, hrec, hlimits, hbounded⟩ :=
    recorded (touchRecord e.displayPrefix) .ordinary ht hl hlog hn hbrief hwall happ
  have hslid : (s.session.slide (tokenDigest credential) s.host.mono).sessions.get? (tokenDigest credential) =
      some { e with lastUsed := s.host.mono } := get?_slide hget
  refine ⟨audit, auditFile, appends, ?_, hlimits, hbounded⟩
  rw [← hwindows, sessionTouch, run_bind_ok (validSession_live _ hopen hget hlive)]
  dsimp only
  rw [run_get_bind]
  dsimp only [touchRecord] at hstage hrec ⊢
  rw [hstage]
  dsimp only
  rw [slideSession, run_modify_bind, run_get_bind]
  dsimp only
  rw [hslid]
  dsimp only
  rw [run_bind, run_ignore, auditRecord, hrec]
  rfl

/-- What a mint draws under the conditions of the runs. -/
def drawn : Nat → UInt8 := fun i => UInt8.ofNat (0 + i)

theorem brief_touch : Brief (touchRecord (displayPrefix drawn)) := by decide +kernel

def mint : Step := ⟨conditions, .call (.sessionOpen "human" 300)⟩
def touch : Step := ⟨secondsOn 100, .call (.sessionTouch (credential drawn))⟩

/-- The use of another credential. -/
def other : Step := ⟨secondsOn 200, .call (.slideSession "")⟩

theorem other_digest : tokenDigest "" ≠ tokenDigest (credential drawn) := by decide +kernel

/-- A session is minted in a vault that was just created. -/
theorem minted : ∃ (v : Vault) (w : World) (t : Sys), w.Starts ∧ mint.Reports (credential drawn) 300 1800 w ∧
    w.after [mint] = ⟨some t.session, t.host⟩ ∧ v.Coherent t ∧ t.session.audit.limits = .default ∧
    Bounded v 2 t.host.auditFile ∧ t.session.isLocked = false ∧
    t.session.sessions.get? (tokenDigest (credential drawn)) = some ⟨displayPrefix drawn, 0, 0, 300⟩ := by
  obtain ⟨session, h', u, hr, hu, -, hstands⟩ := stands_created
  obtain ⟨_, hs, -, hl⟩ := hstands.session
  cases hs
  have hopen : session.isLocked = false := by rw [Session.isLocked, hu]; rfl
  have hs := hstands.coheres.session session rfl conditions conditions_whole
  obtain ⟨audit, auditFile, appends, hok, hlimits, hlog⟩ := opens hs hl hstands.log (by omega) hopen rfl rfl rfl
  have ht := Call.coherent (.sessionOpen "human" 300) hs fun _ h => h.elim
  rw [Call.exec, hok] at ht
  refine ⟨_, ⟨some session, h'⟩, _, Or.inr ⟨passphrase, 0, healthy, h', session, hr, rfl⟩,
    ⟨_, _, rfl, Or.inr ⟨"human", 300, displayPrefix drawn, rfl, hok⟩⟩, ?_, ht, hlimits, hlog, hopen, ?_⟩
  · rw [World.after_cons, World.after_nil, mint, World.next_of_sys rfl, Call.exec, hok]
    rfl
  · exact DigestMap.get?_insert_self _ _ _

end Reference

/-- A session is minted, touched after a hundred seconds, and accepted for 300 more, in which another credential is
used. -/
theorem session_windows_truthful_touched : ∃ (w : World) (s s' : Sys), w.Starts ∧
    Reference.mint.Reports (Reference.credential Reference.drawn) 300 1800 w ∧
    Reference.touch.Reports (Reference.credential Reference.drawn) 300 1700 (w.after [Reference.mint]) ∧
    (w.after [Reference.mint, Reference.touch, Reference.other]).sys (Reference.secondsOn 399) = some s ∧
    (w.after [Reference.mint, Reference.touch, Reference.other]).sys (Reference.secondsOn 400) = some s' ∧
    Admitted (Reference.credential Reference.drawn) s ∧ ¬Admitted (Reference.credential Reference.drawn) s' := by
  obtain ⟨v, w, t, hstart, hmint, hafter, ht, hl, hlog, hopen, hget⟩ := Reference.minted
  have hlive : (⟨Reference.displayPrefix Reference.drawn, 0, 0, 300⟩ : HumanSession).lapsed (ofSecs 100) = false := by
    decide +kernel
  have hwindows : (⟨Reference.displayPrefix Reference.drawn, 0, ofSecs 100, 300⟩ : HumanSession).windows (ofSecs 100) =
      (300, 1700) := by
    decide +kernel
  have hsys1 : (w.after [Reference.mint]).sys (Reference.secondsOn 100) =
      some ⟨t.session, t.host.under (Reference.secondsOn 100)⟩ := by
    rw [hafter]
    rfl
  obtain ⟨t', hrun, hopen'⟩ : ∃ t', (sessionTouch (Reference.credential Reference.drawn)).run
      ⟨t.session, t.host.under (Reference.secondsOn 100)⟩ =
        (.ok (sessionActor (Reference.displayPrefix Reference.drawn), 300, 1700), t') ∧
        t'.session.isLocked = false := by
    obtain ⟨audit, auditFile, appends, hrun, -⟩ := Reference.touches (ht.under (Reference.secondsOn_whole 100)) hl hlog
      (by omega) rfl rfl hopen hget hlive Reference.brief_touch hwindows
    exact ⟨_, hrun, hopen⟩
  have htouch : Reference.touch.Reports (Reference.credential Reference.drawn) 300 1700 (w.after [Reference.mint]) :=
    ⟨_, _, hsys1, Or.inl ⟨_, rfl, hrun⟩⟩
  have htouched : w.after ([Reference.mint] ++ [Reference.touch]) = ⟨some t'.session, t'.host⟩ := by
    rw [World.after_append, World.after_cons, World.after_nil, Reference.touch, World.next_of_sys hsys1,
      Call.exec, hrun]
    rfl
  have hother : (w.after ([Reference.mint] ++ [Reference.touch])).next Reference.other =
      ⟨some (t'.session.slide (tokenDigest "") (ofSecs 200)), t'.host.under (Reference.secondsOn 200)⟩ := by
    rw [htouched]
    rfl
  -- the vault stays unlocked, and the other credential has another digest
  have hkeeps : (w.after ([Reference.mint] ++ [Reference.touch])).Along
      (Step.KeepsOpen (tokenDigest (Reference.credential Reference.drawn))) [Reference.other] := by
    refine ⟨⟨⟨_, congrArg World.session hother, hopen'⟩, fun α c s hc hs => ?_⟩, trivial⟩
    cases hc
    rw [htouched] at hs
    cases hs
    exact ⟨Reference.other_digest, fun h => h.elim (fun hlocked => by rw [hopen'] at hlocked; cases hlocked) False.elim,
      False.elim⟩
  have hsys : ∀ d, (w.after [Reference.mint, Reference.touch, Reference.other]).sys (Reference.secondsOn d) =
      some ⟨t'.session.slide (tokenDigest "") (ofSecs 200), t'.host.under (Reference.secondsOn d)⟩ := by
    intro d
    change (w.after (([Reference.mint] ++ [Reference.touch]) ++ [Reference.other])).sys _ = _
    rw [World.after_append, World.after_cons, World.after_nil, hother]
    rfl
  have hclock : ∀ d, 100 ≤ d → Ticking [Reference.mint, Reference.touch, Reference.other] (ofSecs (100 + d)) := by
    intro d hd
    have htouched : ofSecs 100 ≤ ofSecs 200 := ofSecs_mono (by decide)
    have hnow : ofSecs 200 ≤ ofSecs (100 + d) := ofSecs_mono (by omega)
    simpa [Ticking, Reference.mint, Reference.touch, Reference.other, Reference.secondsOn, Reference.conditions,
      Reference.healthy] using And.intro ⟨htouched, htouched.trans hnow⟩ hnow
  have hwindow : ∀ d, 100 ≤ d → (Admitted (Reference.credential Reference.drawn)
      ⟨t'.session.slide (tokenDigest "") (ofSecs 200), t'.host.under (Reference.secondsOn (100 + d))⟩ ↔
      d < min 300 1700) :=
    fun d hd => session_windows_truthful.2.2.2 w [Reference.mint] [Reference.other] Reference.touch _ 300 1700 d
      (Reference.secondsOn (100 + d)) _ hstart htouch (Nat.add_mul 100 d 1000000000) (hclock d hd) hkeeps (hsys _)
  exact ⟨w, _, _, hstart, hmint, htouch, hsys 399, hsys 400, (hwindow 299 (by decide)).mpr (by decide),
    fun h => absurd ((hwindow 300 (by decide)).mp h) (by decide)⟩

namespace Reference

/-- A draw that is its number. -/
def numbered (i : Nat) : Nat → UInt8 := fun j => if j = 31 then UInt8.ofNat i else 0

/-- Two bytes of a checksum. -/
theorem two_steps (m acc x y : Nat) :
    ((acc * 257 + x + 1) % m * 257 + y + 1) % m = (acc * 257 * 257 + 258 + (257 * x + y)) % m := by
  have hmod : (acc * 257 + x + 1) % m * 257 + (y + 1) ≡ (acc * 257 + x + 1) * 257 + (y + 1) [MOD m] :=
    ((Nat.mod_modEq _ _).mul_right 257).add_right _
  have hsplit : (acc * 257 + x + 1) * 257 + (y + 1) = acc * 257 * 257 + 258 + (257 * x + y) := by omega
  rw [Nat.add_assoc _ y 1, ← hsplit]
  exact hmod

theorem checksum_concat {p : Bytes} {x y x' y' : UInt8} (h : checksum 32 (p ++ [x, y]) = checksum 32 (p ++ [x', y'])) :
    x = x' ∧ y = y' := by
  obtain ⟨acc, hacc⟩ : ∃ acc, acc = p.foldl (fun acc x => (acc * 257 + x.toNat + 1) % 256 ^ 32) 0 := ⟨_, rfl⟩
  have hsum : ∀ x y : UInt8, fromLe (checksum 32 (p ++ [x, y])).1 =
      ((acc * 257 + x.toNat + 1) % 256 ^ 32 * 257 + y.toNat + 1) % 256 ^ 32 := by
    intro x y
    rw [checksum, fromLe_toLe _ _ (by rw [List.foldl_append]; exact Nat.mod_lt _ (by decide)),
      List.foldl_append, ← hacc]
    rfl
  have hbytes : 257 * x.toNat + y.toNat ≡ 257 * x'.toNat + y'.toNat [MOD 256 ^ 32] := by
    refine Nat.ModEq.add_left_cancel' (acc * 257 * 257 + 258) ?_
    rw [Nat.ModEq, ← two_steps, ← two_steps, ← hsum, ← hsum, h]
  have hx := x.toNat_lt
  have hx' := x'.toNat_lt
  have hy := y.toNat_lt
  have hy' := y'.toNat_lt
  have heq := hbytes.eq_of_lt_of_lt (by omega) (by omega)
  exact ⟨UInt8.toNat_inj.mp (by omega), UInt8.toNat_inj.mp (by omega)⟩

theorem utf8_numbered (i : Nat) : utf8 (credential (numbered i)) =
    utf8 (hex (List.replicate 31 0)) ++ utf8 (hex [UInt8.ofNat i]) := by
  have hdrawn : (List.ofFn fun j : Fin 32 => numbered i j) = List.replicate 31 0 ++ [UInt8.ofNat i] := rfl
  have hchars : hexChars (List.replicate 31 0 ++ [UInt8.ofNat i]) = hexChars (List.replicate 31 0) ++
    hexChars [UInt8.ofNat i] :=
    List.flatMap_append
  rw [credential, hdrawn]
  change utf8 (hex _) = _
  rw [hex, hchars, String.ofList_append, utf8, String.toUTF8]
  simp [utf8, hex]

theorem utf8_byte : ∀ i < 256, utf8 (hex [UInt8.ofNat i]) =
    [UInt8.ofNat (hexDigit (i / 16)).toNat, UInt8.ofNat (hexDigit (i % 16)).toNat] := by
  decide +kernel

theorem hexDigit_inj : ∀ m < 16, ∀ n < 16, UInt8.ofNat (hexDigit m).toNat = UInt8.ofNat (hexDigit n).toNat → m = n := by
  decide +kernel

theorem digest_numbered {i j : Nat} (hi : i < 256) (hj : j < 256)
    (h : tokenDigest (credential (numbered i)) = tokenDigest (credential (numbered j))) : i = j := by
  change checksum 32 _ = checksum 32 _ at h
  rw [utf8_numbered, utf8_numbered, utf8_byte i hi, utf8_byte j hj] at h
  obtain ⟨hhigh, hlow⟩ := checksum_concat h
  have hdiv := hexDigit_inj _ (by omega) _ (by omega) hhigh
  have hmod := hexDigit_inj _ (by omega) _ (by omega) hlow
  omega

/-- A session that drew its number. -/
def session (i : Nat) (mintedAt lastUsed : Instant) : Digest × HumanSession :=
  (tokenDigest (credential (numbered i)), ⟨displayPrefix (numbered i), mintedAt, lastUsed, 300⟩)

/-- A session that was minted at the start, and 255 that were minted a second later. -/
def busy (lastUsed : Instant) : DigestMap HumanSession :=
  session 0 0 lastUsed :: (List.range 255).map fun i => session (i + 1) (ofSecs 1) (ofSecs 1)

theorem length_busy (lastUsed : Instant) : (busy lastUsed).length = MAX_SESSIONS := by
  rw [busy, List.length_cons, List.length_map, List.length_range]
  rfl

/-- A second later the first session is touched. -/
theorem busy_touched : (busy 0).map (fun e =>
    if e.1 == tokenDigest (credential (numbered 0)) then (e.1, { e.2 with lastUsed := ofSecs 1 }) else e) =
      busy (ofSecs 1) := by
  rw [busy, List.map_cons, List.map_map, busy]
  refine List.cons_eq_cons.mpr ⟨if_pos (beq_self_eq_true _), List.map_congr_left fun i hi => if_neg fun heq => ?_⟩
  have hzero := digest_numbered (by have := List.mem_range.mp hi; omega) (by decide) (eq_of_beq heq)
  omega

/-- All of them are live. -/
theorem busy_live : (busy (ofSecs 1)).filter (fun e => !e.2.lapsed (ofSecs 1)) = busy (ofSecs 1) := by
  have hlive : ∀ (displayPrefix : String) (mintedAt : Instant), mintedAt ≤ ofSecs 1 →
      (⟨displayPrefix, mintedAt, ofSecs 1, 300⟩ : HumanSession).lapsed (ofSecs 1) = false := by
    intro displayPrefix mintedAt h
    have habsolute : asSecs (ofSecs 1 - mintedAt) ≤ 1 := (asSecs_mono (Nat.sub_le _ _)).trans (by decide)
    refine HumanSession.lapsed_eq_false.mpr ⟨?_, habsolute.trans_lt (by decide)⟩
    rw [Nat.sub_self]
    exact (by decide : asSecs 0 < 300)
  rw [List.filter_eq_self, busy, List.forall_mem_cons, List.forall_mem_map]
  refine ⟨?_, fun i hi => ?_⟩
  · rw [session, hlive _ _ (Nat.zero_le _)]
    rfl
  · rw [session, hlive _ _ le_rfl]
    rfl

theorem first_ne_drawn : tokenDigest (credential (numbered 0)) ≠ tokenDigest (credential drawn) := by decide +kernel

theorem foldl_older {o : Digest × HumanSession} {rest : DigestMap HumanSession} (h : ∀ e ∈ rest, o.2.older e.2 = true) :
    rest.foldl (fun o e => if o.2.older e.2 then o else e) o = o := by
  induction rest with
  | nil => rfl
  | cons e rest ih =>
    rw [List.foldl_cons, if_pos (h e List.mem_cons_self)]
    exact ih fun e' he' => h e' (List.mem_cons_of_mem _ he')

/-- All of them were used at the same time, and the first was minted before the others. -/
theorem busy_oldest : Session.oldest (busy (ofSecs 1)) = some (tokenDigest (credential (numbered 0))) := by
  have hfirst : ∀ e ∈ (List.range 255).map fun i => session (i + 1) (ofSecs 1) (ofSecs 1),
      (session 0 0 (ofSecs 1)).2.older e.2 = true := by
    rw [List.forall_mem_map]
    intro i _
    simp [session, HumanSession.older]
  rw [busy, Session.oldest, foldl_older hfirst]
  rfl

end Reference

/-- With 256 live sessions, a session is touched, another one is minted, and a second later the first is not accepted
any more: it was evicted, in an unlocked vault and 299 seconds before it lapses. -/
theorem mint_evicts_live : ∃ (w : World) (touch mint : Step) (credential : String) (t s : Sys),
    touch.Reports credential 300 1799 w ∧ mint.input = .call (.sessionOpen "human" 300) ∧
    (w.next touch).sys mint.conditions = some t ∧ t.session.isLocked = false ∧ t.host.mono = touch.conditions.mono ∧
    ((w.next touch).next mint).sys (Reference.secondsOn 2) = some s ∧ s.session.isLocked = false ∧
    s.host.mono = touch.conditions.mono + ofSecs 1 ∧ ¬(Admitted credential s ↔ 1 < min 300 1799) := by
  obtain ⟨session, h', u, -, hu, -, hstands⟩ := Reference.stands_created
  obtain ⟨_, hs, -, hl⟩ := hstands.session
  cases hs
  have hopen : session.isLocked = false := by rw [Session.isLocked, hu]; rfl
  let cond := Reference.secondsOn 1
  have hwhole : cond.Whole := Reference.secondsOn_whole 1
  let credential := Reference.credential (Reference.numbered 0)
  let w : World := ⟨some { session with sessions := Reference.busy 0 }, h'⟩
  let s1 : Sys := ⟨{ session with sessions := Reference.busy 0 }, h'.under cond⟩
  have hs0 := hstands.coheres.session session rfl cond hwhole
  have hs1 : Vault.Coherent ⟨session.envelope.header, u.keys⟩ s1 :=
    hs0.congr rfl rfl rfl rfl rfl hs0.unlocked hs0.sealed
  have hfresh : (Reference.session 0 0 0).2.lapsed (ofSecs 1) = false := by decide +kernel
  have hwindows : (Reference.session 0 0 (ofSecs 1)).2.windows (ofSecs 1) = (300, 1799) := by decide +kernel
  obtain ⟨audit, auditFile, appends, htouch, hlimits, hlog⟩ := Reference.touches hs1 hl hstands.log (by omega) rfl rfl
    hopen ((get?_cons _ _ _).trans (if_pos rfl)) hfresh (by decide +kernel) hwindows
  let touch : Step := ⟨cond, .call (.sessionTouch credential)⟩
  have hreports : touch.Reports credential 300 1799 w := ⟨s1, _, rfl, Or.inl ⟨_, rfl, htouch⟩⟩
  -- the state that the mint finds
  have ht1 := Call.coherent (.sessionTouch credential) hs1 fun _ h => h.elim
  rw [Call.exec, htouch] at ht1
  let s2 : Sys := ⟨{ s1.session.slide (tokenDigest credential) s1.host.mono with audit },
    ({ s1.host with auditFile, appends } : Host).under cond⟩
  have hs2 : (w.next touch).sys cond = some s2 := by
    have hnext : w.next touch = World.ran ((sessionTouch credential).run s1) := World.next_of_sys rfl
    rw [hnext, htouch]
    rfl
  have hopen2 : s2.session.isLocked = false := hopen
  have hbusy : s2.session.sessions = Reference.busy (ofSecs 1) := Reference.busy_touched
  have hlive : s2.session.liveSessions (ofSecs 1) = Reference.busy (ofSecs 1) := by
    rw [Session.liveSessions, hbusy]
    exact Reference.busy_live
  -- the mint finds the registry full, and the session that was touched the oldest
  have hroom : (s2.session.makeRoom s2.host.mono).sessions = (Reference.busy (ofSecs 1)).remove
    (tokenDigest credential) := by
    have hsweep : (s2.session.sweepLapsedSessions s2.host.mono).sessions = Reference.busy (ofSecs 1) :=
      (Session.sweepLapsedSessions_open _ hopen2).trans hlive
    rw [Session.makeRoom, hsweep, if_pos (Reference.length_busy _).ge, Reference.busy_oldest]
  obtain ⟨t, hmint, htable, hopen3⟩ :
    ∃ t, (sessionOpen "human" 300).run s2 = (.ok (Reference.credential Reference.drawn,
      Reference.displayPrefix Reference.drawn, 300, 1800), t) ∧
      t.session.sessions = (s2.session.makeRoom s2.host.mono).sessions.insert
        (tokenDigest (Reference.credential Reference.drawn))
        ⟨Reference.displayPrefix Reference.drawn, s2.host.mono, s2.host.mono, 300⟩ ∧ t.session.isLocked = false := by
    obtain ⟨audit', auditFile', appends', hmint, -⟩ :=
      Reference.opens (s := s2) (ht1.under hwhole) hlimits hlog (by omega) hopen2 rfl rfl rfl
    exact ⟨_, hmint, rfl, hopen2⟩
  let mint : Step := ⟨cond, .call (.sessionOpen "human" 300)⟩
  have hnext : (w.next touch).next mint = ⟨some t.session, t.host⟩ := by
    rw [World.next_of_sys hs2, Call.exec, hmint]
    rfl
  have hlater : ofSecs 2 = ofSecs 1 + ofSecs 1 := by decide +kernel
  refine ⟨w, touch, mint, credential, s2, ⟨t.session, t.host.under (Reference.secondsOn 2)⟩, hreports, rfl, hs2,
    hopen2, rfl, by rw [hnext]; rfl, hopen3, hlater, fun hiff => ?_⟩
  obtain ⟨actor, t', haccepted⟩ := hiff.mpr (by decide)
  obtain ⟨_, _, hvalid, -⟩ := bind_eq_ok haccepted
  obtain ⟨-, -, live, hget, -⟩ := validSession_eq_ok hvalid
  have hmem := get?_some_mem hget
  rw [htable, hroom] at hmem
  rcases List.mem_cons.mp hmem with heq | hmem
  · exact Reference.first_ne_drawn (Prod.mk.inj heq).1
  · exact (mem_remove_iff.mp (mem_remove hmem)).2 rfl

end SecretsVault
