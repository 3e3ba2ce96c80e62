import Mathlib.Algebra.Order.BigOperators.Group.List
import Mathlib.Data.List.DropRight
import SecretsVault.AuditPanic
import SecretsVault.ReferenceRuns

/-!
# Paging the audit log

The log is read page by page, from its end back, while entries are appended to it: the cursor of a page is a number of
the log as it was when the page was read, and what is appended has higher numbers.

- `auditPage_numbered`: the page and the cursor, by the positions of the entries.
- `audit_paging_is_complete`: the pages are the log as it was at the first read.
-/

namespace SecretsVault

open Lib Lib.Prog

/-! ## One page -/

section

variable {ls : List AuditLine}

theorem Numbered.get {seq i : Nat} : ∀ {ls : List AuditLine}, Numbered seq ls → (hi : i < ls.length) →
    ls[i].event.seq = seq + i + 1 := by
  induction i generalizing seq with
  | zero =>
    intro ls h hi
    cases ls with
    | nil => cases hi
    | cons l ls => exact h.1
  | succ i ih =>
    intro ls h hi
    cases ls with
    | nil => cases hi
    | cons l ls =>
      have hget := ih h.2 (Nat.lt_of_succ_lt_succ hi)
      rw [List.getElem_cons_succ, hget]
      omega

/-- The entries up to a number are the first ones. -/
theorem Numbered.filter_le {seq u : Nat} : ∀ {ls : List AuditLine}, Numbered seq ls →
    ls.filter (fun l => decide (l.event.seq ≤ seq + u)) = ls.take u := by
  intro ls h
  induction ls generalizing seq u with
  | nil => simp
  | cons l ls ih =>
    cases u with
    | zero =>
      have hnone : ∀ x ∈ l :: ls, ¬ x.event.seq ≤ seq + 0 := by
        intro x hx hle
        obtain ⟨i, hi, rfl⟩ := List.mem_iff_getElem.mp hx
        rw [h.get hi] at hle
        omega
      rw [List.take_zero, List.filter_eq_nil_iff]
      simpa using hnone
    | succ u =>
      have hl : l.event.seq ≤ seq + (u + 1) := by
        rw [h.1]
        omega
      rw [List.filter_cons_of_pos (by simpa using hl), List.take_succ_cons, ← ih h.2]
      simp only [Nat.add_right_comm, Nat.add_assoc]

/-- The entries above a number are the last ones. -/
theorem Numbered.filter_gt {seq d : Nat} : ∀ {ls : List AuditLine}, Numbered seq ls →
    ls.filter (fun l => decide (seq + d < l.event.seq)) = ls.drop d := by
  intro ls h
  induction ls generalizing seq d with
  | nil => simp
  | cons l ls ih =>
    cases d with
    | zero =>
      rw [List.drop_zero, List.filter_eq_self]
      intro x hx
      obtain ⟨i, hi, rfl⟩ := List.mem_iff_getElem.mp hx
      have hseq := h.get hi
      simp only [hseq, decide_eq_true_eq]
      omega
    | succ d =>
      have hl : ¬seq + (d + 1) < l.event.seq := by
        rw [h.1]
        omega
      rw [List.filter_cons_of_neg (by simpa using hl), List.drop_succ_cons, ← ih h.2]
      simp only [Nat.add_right_comm, Nat.add_assoc]

theorem Numbered.take {seq : Nat} : ∀ {ls : List AuditLine}, Numbered seq ls → ∀ u, Numbered seq (ls.take u)
  | [], h, _ => by rwa [List.take_nil]
  | _ :: _, _, 0 => trivial
  | _ :: _, h, u + 1 => ⟨h.1, Numbered.take h.2 u⟩

/-- The lines of a log are in the order of their numbers. -/
theorem Numbered.pairwise {seq : Nat} : ∀ {ls : List AuditLine}, Numbered seq ls →
    ls.Pairwise (fun l m => l.event.seq < m.event.seq)
  | [], _ => .nil
  | l :: ls, h => by
    refine .cons (fun m hm => ?_) (Numbered.pairwise h.2)
    obtain ⟨i, hi, rfl⟩ := List.mem_iff_getElem.mp hm
    have hl := h.1
    rw [h.2.get hi]
    omega

/-- A page up to a number. -/
def pageUpTo (ls : List AuditLine) (tail upper : Nat) : List AuditLine × Option Nat :=
  let eligible := ls.filter fun l => decide (l.event.seq ≤ upper)
  let page := eligible.drop (eligible.length - tail)
  let next := match page with
    | [] => none
    | first :: _ =>
      if 1 < first.event.seq ∧ ls.any fun l => decide (l.event.seq < first.event.seq) then some (first.event.seq - 1)
      else none
  (page, next)

/-- The number of the last entry is how many there are. -/
theorem auditPage_eq (h : Numbered 0 ls) (tail : Nat) (before : Option Nat) :
    auditPage ls tail before = pageUpTo ls tail (min (before.getD ls.length) ls.length) := by
  have hhead : ∀ l, ls.getLast? = some l → l.event.seq = ls.length := by
    intro l hl
    obtain ⟨front, rfl⟩ := List.getLast?_eq_some_iff.mp hl
    simpa using (numbered_concat.mp h).2
  unfold auditPage
  cases hlast : ls.getLast? with
  | none =>
    rw [List.getLast?_eq_none_iff] at hlast
    subst hlast
    cases before <;> rfl
  | some l =>
    dsimp only
    rw [hhead l hlast]
    cases before with
    | none =>
      rw [Option.getD_none, Nat.min_self]
      rfl
    | some b =>
      rw [Option.getD_some]
      rfl

/-- **A page, by the positions of the entries**: it ends where the cursor says, and the next one ends where it begins.
-/
theorem auditPage_numbered (h : Numbered 0 ls) {tail : Nat} (htail : 1 ≤ tail) (before : Option Nat) :
    auditPage ls tail before =
      let upper := min (before.getD ls.length) ls.length
      ((ls.take upper).drop (upper - tail), if tail < upper then some (upper - tail) else none) := by
  rw [auditPage_eq h, pageUpTo]
  generalize hu : min (before.getD ls.length) ls.length = upper
  have hle : upper ≤ ls.length := by omega
  have hfilter : ls.filter (fun l => decide (l.event.seq ≤ upper)) = ls.take upper := by
    have hfilter := h.filter_le (u := upper)
    rwa [Nat.zero_add] at hfilter
  rw [hfilter, List.length_take, Nat.min_eq_left hle]
  refine Prod.ext rfl ?_
  dsimp only
  cases hpage : (ls.take upper).drop (upper - tail) with
  | nil =>
    have hlen := congrArg List.length hpage
    rw [List.length_drop, List.length_take, List.length_nil] at hlen
    rw [if_neg (by omega)]
  | cons first rest =>
    have hlen := congrArg List.length hpage
    rw [List.length_drop, List.length_take, List.length_cons] at hlen
    have hfirst : first.event.seq = upper - tail + 1 := by
      have hget : ls[upper - tail]? = some first := by
        have hhead := congrArg List.head? hpage
        rw [List.head?_drop, List.getElem?_take_of_lt (by omega)] at hhead
        exact hhead
      obtain ⟨hi, hget⟩ := List.getElem?_eq_some_iff.mp hget
      rw [← hget, h.get hi]
      omega
    dsimp only
    rw [hfirst]
    by_cases hlt : tail < upper
    · have hsome : (ls.any fun l => decide (l.event.seq < upper - tail + 1)) = true := by
        rw [List.any_eq_true]
        refine ⟨ls[0], List.getElem_mem (by omega), ?_⟩
        rw [h.get (by omega)]
        simp
        omega
      rw [if_pos hlt, if_pos ⟨by omega, hsome⟩]
      simp
    · rw [if_neg hlt, if_neg (by omega)]

end

/-! ## Page after page -/

section

variable [Crypto] [AuditJson]

/-- The pages that are read, the oldest first: the read number `k` is made in `states k`, with the cursor of the one
before. There are none if a read fails, or if more than `fuel` are made. -/
def pages (actor : String) (tail : Nat) (states : Nat → Sys) : Nat → Nat → Option Nat → Option (List (List AuditLine))
  | 0, _, _ => none
  | fuel + 1, k, before =>
    match ((auditShowPage actor tail before).run (states k)).1 with
    | .ok (page, none) => some [page]
    | .ok (page, some next) => (pages actor tail states fuel (k + 1) (some next)).map (· ++ [page])
    | _ => none

/-- A read is of the log as it finds it, and whether it succeeds does not depend on the cursor. -/
theorem auditShowPage_eq_ok {actor : String} {tail : Nat} {before : Option Nat} {s : Sys}
    {r : List AuditLine × Option Nat}
    (h : ((auditShowPage actor tail before).run s).1 = .ok r) : ∃ ls, readAll s.host.auditFile = .ok ls ∧
      r = auditPage ls tail before ∧ ∀ b, ((auditShowPage actor tail b).run s).1 = .ok (auditPage ls tail b) := by
  have hrun : ∀ b, (auditShowPage actor tail b).run s = match readAll s.host.auditFile with
      | .error e => (.error e, s)
      | .ok ls => match (auditRecord { actor, op := "audit.show", decision := .allowed }).run s with
        | (.ok _, t) => (.ok (auditPage ls tail b), t)
        | (.error e, t) => (.error e, t)
        | (.panic, t) => (.panic, t) := by
    intro b
    rw [auditShowPage, run_get_bind, run_bind, run_lift]
    cases readAll s.host.auditFile with
    | error e => rfl
    | ok ls =>
      dsimp only [Outcome.ofExcept]
      rw [run_bind]
      rcases (auditRecord { actor, op := "audit.show", decision := .allowed }).run s with ⟨_ | _ | _, t⟩ <;> rfl
  rw [hrun] at h
  cases hread : readAll s.host.auditFile with
  | error e =>
    rw [hread] at h
    cases h
  | ok ls =>
    refine ⟨ls, rfl, ?_⟩
    rw [hread] at h
    dsimp only at h
    rcases hrec : (auditRecord { actor, op := "audit.show", decision := .allowed }).run s with ⟨_ | e | _, t⟩ <;>
      rw [hrec] at h <;> cases h
    refine ⟨rfl, fun b => ?_⟩
    rw [hrun, hread]
    dsimp only
    rw [hrec]

variable {actor : String} {tail : Nat} {states : Nat → Sys} {log : List AuditLine}

/-- The log at a read extends the one at the first, and the read succeeds. -/
structure Readable (actor : String) (tail : Nat) (log : List AuditLine) (s : Sys) : Prop where
  grown : ∃ later, readAll s.host.auditFile = .ok later ∧ log <+: later ∧ Numbered 0 later
  succeeds : ∃ r, ((auditShowPage actor tail none).run s).1 = .ok r

/-- A page with its cursor is one of the log at the first read. -/
theorem Readable.page {s : Sys} (h : Readable actor tail log s) (htail : 1 ≤ tail) {upper : Nat}
    (hupper : upper ≤ log.length) : ((auditShowPage actor tail (some upper)).run s).1 =
      .ok ((log.take upper).drop (upper - tail), if tail < upper then some (upper - tail) else none) := by
  obtain ⟨later, hlater, ⟨more, rfl⟩, hnum⟩ := h.grown
  obtain ⟨r, hr⟩ := h.succeeds
  obtain ⟨ls, hls, -, hany⟩ := auditShowPage_eq_ok hr
  obtain rfl : log ++ more = ls := by simpa using hlater.symm.trans hls
  have hmin : min upper (log ++ more).length = upper := by
    rw [List.length_append]
    omega
  rw [hany, auditPage_numbered hnum htail, Option.getD_some, hmin]
  dsimp only
  rw [List.take_append_of_le_length hupper]

/-- The pages from a cursor are the entries up to it. -/
theorem pages_from (htail : 1 ≤ tail) (hread : ∀ k ≤ log.length, Readable actor tail log (states k)) :
    ∀ (upper fuel k : Nat), upper < fuel → k + upper ≤ log.length → 1 ≤ upper →
      ∃ ps, pages actor tail states fuel k (some upper) = some ps ∧ ps.flatten = log.take upper ∧
        ∀ older page newer, ps = older ++ page :: newer → page.length = min tail (upper - newer.flatten.length) := by
  intro upper
  induction upper using Nat.strongRecOn with
  | ind upper ih =>
    intro fuel k hfuel hk hpos
    obtain ⟨fuel, rfl⟩ := Nat.exists_eq_succ_of_ne_zero (Nat.ne_of_gt (Nat.lt_of_le_of_lt (Nat.zero_le _) hfuel))
    have hpage := (hread k (by omega)).page htail (show upper ≤ log.length by omega)
    have hlen : ((log.take upper).drop (upper - tail)).length = min tail upper := by
      rw [List.length_drop, List.length_take]
      omega
    rw [pages, hpage]
    by_cases hlt : tail < upper
    · rw [if_pos hlt]
      obtain ⟨ps, hps, hflat, hsize⟩ := ih (upper - tail) (by omega) fuel (k + 1) (by omega) (by omega) (by omega)
      dsimp only
      rw [hps]
      refine ⟨ps ++ [(log.take upper).drop (upper - tail)], rfl, ?_, fun older page newer heq => ?_⟩
      · have htake : log.take (upper - tail) = (log.take upper).take (upper - tail) := by
          rw [List.take_take, Nat.min_eq_left (Nat.sub_le _ _)]
        rw [List.flatten_append, hflat, List.flatten_singleton, htake, List.take_append_drop]
      · rcases List.eq_nil_or_concat newer with rfl | ⟨newer', last, rfl⟩
        · obtain ⟨-, heq⟩ := List.append_inj' heq rfl
          cases heq
          simpa using hlen
        · have heq' : ps ++ [(log.take upper).drop (upper - tail)] = (older ++ page :: newer') ++ [last] := by
            rw [heq]
            simp
          obtain ⟨hps', hlast⟩ := List.append_inj' heq' rfl
          cases hlast
          rw [hsize older page newer' hps', List.concat_eq_append, List.flatten_append, List.length_append,
            List.flatten_singleton, hlen]
          omega
    · rw [if_neg hlt]
      refine ⟨[(log.take upper).drop (upper - tail)], rfl, ?_, fun older page newer heq => ?_⟩
      · rw [List.flatten_singleton, Nat.sub_eq_zero_of_le (by omega), List.drop_zero]
      · cases older with
        | nil =>
          cases heq
          simpa using hlen
        | cons x older => simp at heq

/-- The first read is one up to the end of the log. -/
theorem pages_none (fuel : Nat) (hlog : readAll (states 0).host.auditFile = .ok log)
    (hread : Readable actor tail log (states 0)) :
    pages actor tail states (fuel + 1) 0 none = pages actor tail states (fuel + 1) 0 (some log.length) := by
  obtain ⟨later, hlater, -, hnum⟩ := hread.grown
  obtain rfl : log = later := by simpa using hlog.symm.trans hlater
  obtain ⟨r, hr⟩ := hread.succeeds
  obtain ⟨ls, hls, -, hany⟩ := auditShowPage_eq_ok hr
  obtain rfl : log = ls := by simpa using hlog.symm.trans hls
  have hpage : auditPage log tail none = auditPage log tail (some log.length) := by
    rw [auditPage_eq hnum, auditPage_eq hnum]
    rfl
  rw [pages, pages, hany, hany, hpage]

/-- **Paging the audit log is complete.** Whatever is appended in between, the pages that are read from the end back are
the log as it was at the first read, in no more than one read for each entry and one; each page is as long as it may be.
And a page with a cursor is the last entries up to it. -/
theorem audit_paging_is_complete (htail : 1 ≤ tail) (hlog : readAll (states 0).host.auditFile = .ok log)
    (hread : ∀ k ≤ log.length, Readable actor tail log (states k)) :
    (∃ ps, pages actor tail states (log.length + 1) 0 none = some ps ∧ ps.flatten = log ∧
      ∀ older page newer, ps = older ++ page :: newer → page.length = min tail (log.length - newer.flatten.length)) ∧
    ∀ s ls before r, readAll s.host.auditFile = .ok ls → Numbered 0 ls →
      ((auditShowPage actor tail (some before)).run s).1 = .ok r →
      r.1 = (ls.filter fun l => decide (l.event.seq ≤ before)).rtake tail := by
  constructor
  · rw [pages_none _ hlog (hread 0 (Nat.zero_le _))]
    by_cases hpos : 1 ≤ log.length
    · have hpages := pages_from htail hread log.length (log.length + 1) 0 (by omega) (by omega) hpos
      rwa [List.take_length] at hpages
    · have hnil : log = [] := List.length_eq_zero_iff.mp (by omega)
      subst hnil
      have hpage := (hread 0 (Nat.zero_le _)).page htail (Nat.le_refl _)
      refine ⟨[[]], ?_, rfl, fun older page newer heq => ?_⟩
      · have hno : ¬ tail < ([] : List AuditLine).length := Nat.not_lt_zero _
        rw [pages, hpage, if_neg hno]
        simp
      · cases older with
        | nil =>
          cases heq
          exact (Nat.min_zero _).symm
        | cons x older => simp at heq
  · intro s ls before r hls hnum hr
    obtain ⟨ls', hls', rfl, -⟩ := auditShowPage_eq_ok hr
    obtain rfl : ls = ls' := by simpa using hls.symm.trans hls'
    have hfilter : ∀ u, ls.filter (fun l => decide (l.event.seq ≤ u)) = ls.take u := by
      intro u
      have hfilter := hnum.filter_le (u := u)
      rwa [Nat.zero_add] at hfilter
    have hmin : ls.take (min before ls.length) = ls.take before := by
      rw [← List.take_take, List.take_length]
    rw [auditPage_eq hnum, Option.getD_some, pageUpTo, List.rtake, hfilter, hfilter, hmin]

end

/-! ## Reads of a new vault -/

namespace Reference

/-- A small log can be read, and the read is one entry more. -/
theorem shows {v : Vault} {n : Nat} {s : Sys} (hs : v.Coherent s) (hl : s.session.audit.limits = .default)
    (hlog : Bounded v n s.host.auditFile) (hn : n < 100) (hwall : s.host.wall = 0) (happ : s.host.appends 0 = .ok) :
    ∃ old l t, readAll s.host.auditFile = .ok old ∧ Numbered 0 old ∧ old.length ≤ n ∧
      (∀ tail before, (auditShowPage "human" tail before).run s = (.ok (auditPage old tail before), t)) ∧
      readAll t.host.auditFile = .ok (old ++ [l]) ∧ t.session.audit.limits = .default ∧
      Bounded v (n + 1) t.host.auditFile := by
  obtain ⟨content, x, hf, ht, hch, hsync⟩ := hs.logs.sound.exists_chain
  obtain ⟨hlen, hseq⟩ := hlog content x hf hch
  obtain ⟨old, hold⟩ := hch.readAll
  have hbrief : Brief { actor := "human", op := "audit.show", decision := .allowed } := by decide +kernel
  have hts : AuditLog.timestamp s.host.wall = .ok "1970-01-01T00:00:00Z" := by rw [hwall]; rfl
  have hread : readAll s.host.auditFile = .ok old := by rw [show s.host.auditFile = some content from hf, hold]
  rw [show s.host.auditFile = some content from hf] at hlog
  obtain ⟨staged, t, hrec, hfile, hlimits, hbounded⟩ : ∃ (staged : StagedEntry) (t : Sys),
      (auditRecordWith { actor := "human", op := "audit.show", decision := .allowed } .ordinary).run s = (.ok (), t) ∧
      t.host.auditFile = some (content ++ staged.bytes) ∧ t.session.audit.limits = .default ∧
      Bounded v (n + 1) (some (content ++ staged.bytes)) :=
    ⟨_, _, auditRecordWith_written hf hch hsync hts (fits .ordinary hl hlen hseq hn hbrief) happ, rfl, hl,
      hlog.append hch ht hs.logs.key hn hbrief⟩
  have hcount : old.length ≤ n := by
    have hwalk := (foldlM_walkLine_seq hch.walk).1
    have hlines := length_mapM_parseLine (readAll_eq_ok.mp hold).2
    simp only [Walk.start] at hwalk
    omega
  refine ⟨old, staged.line, t, hread, (hch.linked hold).1.numbered, hcount, fun tail before => ?_, ?_, hlimits, ?_⟩
  · rw [auditShowPage, run_get_bind, run_bind, run_lift, hread]
    dsimp only [Outcome.ofExcept]
    rw [SecretsVault.auditRecord, run_bind_ok hrec]
    rfl
  · rw [hfile]
    exact readAll_append ht hold _
  · rw [hfile]
    exact hbounded

/-- A process is live on the files of the vault, and the log has these entries. -/
structure Listed (v : Vault) (n : Nat) (log : List AuditLine) (w : World) : Prop where
  coheres : v.Coheres w
  session : ∃ s, w.session = some s ∧ s.audit.limits = .default
  bounded : Bounded v n w.host.auditFile
  read : readAll w.host.auditFile = .ok log

/-- A read of the newest entry. -/
def showing : Step := ⟨conditions, .call (.auditShowPage "human" 1 none)⟩

variable {v : Vault} {n : Nat} {log : List AuditLine} {w : World}

/-- A read, of whatever page, adds one entry. -/
theorem Listed.show (h : Listed v n log w) (hn : n < 100) : ∃ s l t, w.sys conditions = some s ∧
    readAll s.host.auditFile = .ok log ∧ Numbered 0 log ∧
    (∀ tail before, (auditShowPage "human" tail before).run s = (.ok (auditPage log tail before), t)) ∧
    Listed v (n + 1) (log ++ [l]) (w.next showing) := by
  obtain ⟨s, hs, hl⟩ := h.session
  obtain ⟨old, l, t, hread, hnum, -, hshow, hmore, hl', hbounded⟩ :=
    shows (h.coheres.session s hs conditions conditions_whole) hl h.bounded hn rfl rfl
  obtain rfl : log = old := by simpa using h.read.symm.trans hread
  have hnext : w.next showing = ⟨some t.session, t.host⟩ := by
    rw [showing, next_call hs, Call.exec, hshow]
    rfl
  have hcoheres : v.Coheres (w.next showing) := h.coheres.next conditions_whole fun _ _ _ h => h.elim
  refine ⟨_, l, t, sys_of_session hs conditions, hread, hnum, hshow, hcoheres, ?_, ?_, ?_⟩ <;> rw [hnext]
  · exact ⟨_, rfl, hl'⟩
  · exact hbounded
  · exact hmore

/-- So do any number of reads. -/
theorem Listed.reads (h : Listed v n log w) : ∀ k, n + k ≤ 100 →
    ∃ more, more.length = k ∧ Listed v (n + k) (log ++ more) (w.after (List.replicate k showing))
  | 0, _ => ⟨[], rfl, by rwa [List.append_nil]⟩
  | k + 1, hk => by
    obtain ⟨more, hlen, hlisted⟩ := h.reads k (by omega)
    obtain ⟨s, l, t, -, -, -, -, hnext⟩ := hlisted.show (by omega)
    refine ⟨more ++ [l], by rw [List.length_append, hlen]; rfl, ?_⟩
    rw [List.replicate_succ', World.after_append, ← List.append_assoc]
    exact hnext

/-- What a further read finds. -/
theorem Listed.readable (h : Listed v n log w) {k : Nat} (hk : n + k < 100) (tail : Nat) :
    ∃ s, (w.after (List.replicate k showing)).sys conditions = some s ∧ Readable "human" tail log s ∧
      ∃ more, more.length = k ∧ readAll s.host.auditFile = .ok (log ++ more) := by
  obtain ⟨more, hlen, hlisted⟩ := h.reads k (by omega)
  obtain ⟨s, l, t, hs, hread, hnum, hshow, -⟩ := hlisted.show hk
  exact ⟨s, hs, ⟨⟨_, hread, List.prefix_append _ _, hnum⟩, _, by rw [hshow]⟩, more, hlen, hread⟩

/-- The log of a new vault has one entry. -/
theorem listed_created : ∃ s h' v l, (Session.create passphrase 0).run healthy = (.ok s, h') ∧
    Listed v 1 [l] ⟨some s, h'⟩ := by
  obtain ⟨s, h', u, hr, -, -, hstands⟩ := stands_created
  obtain ⟨u', x, entry, hc⟩ := create_eq_ok hr
  obtain ⟨_, hs, -, hl⟩ := hstands.session
  cases hs
  refine ⟨s, h', _, entry.line, hr, hstands.coheres, ⟨s, rfl, hl⟩, hstands.log, ?_⟩
  rw [show h'.auditFile = _ from hc.auditFile]
  exact readAll_append (Or.inl rfl) (show readAll (some []) = .ok [] from rfl) _

end Reference

/-- A new vault whose log is read twice has three entries. They are then read in pages of one, and each of these reads
adds an entry of its own: there are three pages, and what they show is the log as it was. -/
theorem audit_paging_created : ∃ s h' states log,
    (Session.create Reference.passphrase 0).run Reference.healthy = (.ok s, h') ∧
    (∀ k ≤ 3, (World.after ⟨some s, h'⟩ (List.replicate (2 + k) Reference.showing)).sys Reference.conditions =
      some (states k)) ∧ readAll (states 0).host.auditFile = .ok log ∧ log.length = 3 ∧
    (∃ later, readAll (states 2).host.auditFile = .ok later ∧ later.length = 5) ∧
    ∃ ps, pages "human" 1 states 4 0 none = some ps ∧ ps.flatten = log ∧ 3 ≤ ps.length := by
  obtain ⟨s, h', v, l, hr, hcreated⟩ := Reference.listed_created
  obtain ⟨more, hmore, hlisted⟩ := hcreated.reads 2 (by omega)
  have hlog : ([l] ++ more).length = 3 := by
    rw [List.length_append, hmore]
    rfl
  have hstates : ∀ k, ∃ s1, k ≤ 3 →
      (World.after ⟨some s, h'⟩ (List.replicate (2 + k) Reference.showing)).sys Reference.conditions = some s1 ∧
      Readable "human" 1 ([l] ++ more) s1 ∧
      ∃ more', more'.length = k ∧ readAll s1.host.auditFile = .ok (([l] ++ more) ++ more') := by
    intro k
    by_cases hk : k ≤ 3
    · obtain ⟨s1, hs1, hread⟩ := hlisted.readable (k := k) (by omega) 1
      refine ⟨s1, fun _ => ⟨?_, hread⟩⟩
      rw [List.replicate_add, World.after_append]
      exact hs1
    · exact ⟨⟨s, h'⟩, fun h => absurd h hk⟩
  choose states hstates using hstates
  have hstart : readAll (states 0).host.auditFile = .ok ([l] ++ more) := by
    obtain ⟨-, -, more', hlen, hread⟩ := hstates 0 (by omega)
    rwa [List.length_eq_zero_iff.mp hlen, List.append_nil] at hread
  obtain ⟨⟨ps, hps, hflat, hsize⟩, -⟩ := audit_paging_is_complete (Nat.le_refl 1) hstart
    fun k hk => (hstates k (by omega)).2.1
  rw [hlog] at hps
  refine ⟨s, h', states, _, hr, fun k hk => (hstates k hk).1, hstart, hlog, ?_, ps, hps, hflat, ?_⟩
  · obtain ⟨-, -, more', hlen, hread⟩ := hstates 2 (by omega)
    exact ⟨_, hread, by rw [List.length_append, hlog, hlen]⟩
  · -- no page has more than one entry
    have hone : ∀ page ∈ ps, page.length ≤ 1 := by
      intro page hpage
      obtain ⟨older, newer, heq⟩ := List.append_of_mem hpage
      rw [hsize older page newer heq]
      exact Nat.min_le_left _ _
    have hsum := List.sum_le_card_nsmul (ps.map List.length) 1 (by simpa using hone)
    rw [← List.length_flatten, hflat, hlog] at hsum
    simpa using hsum

end SecretsVault
