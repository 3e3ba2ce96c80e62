import SecretsVault.Authority
import SecretsVault.Creation

/-!
# Invariants of runs

What holds of a new document, and is kept by every decision, holds of every copy of the document in every run.

- `Call.Attempts.made`: what a call attempts to commit was made of the document it found.
- `Kept P`: everything a session makes of a document keeps `P`.
- `Vault.HonestRun v w run`: at every unlock of the run, keys that open a slot are those of the vault.
- `Vault.Holds.along`, `Kept.run`: what every turn keeps holds after a run.
-/

namespace SecretsVault

open Lib Lib.Prog Lib.Copies Host VaultDocument

section

variable [Crypto] [VaultJson] [AuditJson] {α : Type}

/-- How a document about to be committed was made of the document in memory: by a lock, by invalidating a lease whose
grant no longer covers it, or by the decision of a mutation. -/
inductive Attempt.Made (u : Unlocked) (h : Host) : Attempt → Prop
  | lock {state : Sys} : Made u h ⟨state, lockAll h.wall u.doc, lockRecord, .lifecycle⟩
  | invalidate {state : Sys} {leaseId : String} {record : Record} {agentId project : String} {op : Op}
      {credential : Option String}
      (hv : leaseVerdict u.doc agentId project op credential h.wall = .invalidate leaseId) :
      Made u h ⟨state, invalidateLease u.doc leaseId h.wall, record, .ordinary⟩
  | mutation {α : Type} {state : Sys} {doc : VaultDocument} {m : Mutation α} {ans : α} {h' : Host}
      (hd : (m.decide u.doc).run h = (.ok (doc, ans), h')) : Made u h ⟨state, doc, m.record, m.priority u.doc⟩

/-- What a call attempts to commit was made of the document in memory, and the session is as the call found it. -/
theorem Call.Attempts.made {call : Call α} {s : Sys} {a : Attempt} (h : call.Attempts s a) :
    ∃ u, s.session.unlocked = some u ∧ a.Made u s.host ∧ ∃ h', Quiet s.host h' ∧ a.state = { s with host := h' } := by
  rcases h with ⟨-, -, u, hu, rfl⟩ | h
  · exact ⟨u, hu, .lock, s.host, Quiet.refl _, rfl⟩
  · cases call with
    | mutate m =>
      obtain ⟨q, t, hq, rfl⟩ := h
      obtain ⟨u, h', hu, hd, rfl, hrec, hprio⟩ := Mutation.proposal_eq_ok hq
      rw [hrec, hprio]
      have hquiet := m.decide_quiet u.doc s.host
      rw [hd] at hquiet
      exact ⟨u, hu, .mutation hd, h', hquiet, rfl⟩
    | authorizeLease agentId project op credential =>
      obtain ⟨-, u, leaseId, hu, hv, rfl⟩ := h
      exact ⟨u, hu, .invalidate hv, s.host, Quiet.refl _, rfl⟩
    | lockPersist =>
      obtain ⟨u, hu, rfl⟩ := h
      exact ⟨u, hu, .lock, s.host, Quiet.refl _, rfl⟩
    | _ => exact h.elim

/-- The property is kept by all that a session makes of a document. -/
structure Kept (P : VaultDocument → Prop) : Prop where
  decide {α : Type} {m : Mutation α} {d d' : VaultDocument} {ans : α} {h h' : Host} (hd : P d)
    (hr : (m.decide d).run h = (.ok (d', ans), h')) : P d'
  lockAll {d : VaultDocument} (hd : P d) (now : OffsetDateTime) : P (lockAll now d)
  invalidateLease {d : VaultDocument} (hd : P d) (leaseId : String) (now : OffsetDateTime) :
    P (invalidateLease d leaseId now)
  purgeTerminal {d : VaultDocument} (hd : P d) (now : OffsetDateTime) : P (purgeTerminal d now)
  withHead {d : VaultDocument} (hd : P d) (head : Option AuditHead) : P (d.withHead head)

omit [VaultJson] [AuditJson] in
theorem kept_sane : Kept Sane :=
  ⟨fun hd hr => (Mutation.decide_effect hr).sane hd, lockAll_sane, invalidateLease_sane, purgeTerminal_sane,
    withHead_sane⟩

variable {P : VaultDocument → Prop}

/-- What a call attempts keeps a property of the document in memory. -/
theorem Kept.attempt (hP : Kept P) {call : Call α} {s : Sys} {a : Attempt} (h : call.Attempts s a)
    (hs : ∀ d, s.session.document = some d → P d) : P a.doc := by
  obtain ⟨u, hu, hmade, -⟩ := h.made
  have hd : P u.doc := hs u.doc (by rw [Session.document, hu]; rfl)
  cases hmade with
  | lock => exact hP.lockAll hd _
  | invalidate _ => exact hP.invalidateLease hd _ _
  | mutation hm => exact hP.decide hd hm

/-- Every step of the run has the property, in the world it is taken in. -/
def World.Along (P : World → Step → Prop) (w : World) : List Step → Prop
  | [] => True
  | st :: run => P w st ∧ (w.next st).Along P run

theorem World.Along.append {P : World → Step → Prop} {w : World} {a b : List Step} :
    w.Along P (a ++ b) ↔ w.Along P a ∧ (w.after a).Along P b := by
  induction a generalizing w with
  | nil => simp [Along]
  | cons st a ih => simp only [List.cons_append, Along, ih, World.after_cons, and_assoc]

theorem World.Along.mono {P Q : World → Step → Prop} {w : World} {run : List Step} (h : w.Along P run)
    (hPQ : ∀ w st, P w st → Q w st) : w.Along Q run := by
  induction run generalizing w with
  | nil => trivial
  | cons st run ih => exact ⟨hPQ _ _ h.1, ih h.2⟩

theorem World.Along.and {P Q : World → Step → Prop} {w : World} {run : List Step} :
    w.Along (fun w st => P w st ∧ Q w st) run ↔ w.Along P run ∧ w.Along Q run := by
  induction run generalizing w with
  | nil => simp [Along]
  | cons st run ih => simp only [Along, ih, and_and_and_comm]

/-- The vault relies on no more than it may, step after step. -/
def Vault.HonestRun (v : Vault) (w : World) (run : List Step) : Prop := w.Along (fun w st => st.Honest v w) run

/-- The commits a step attempts. -/
def Step.Attempts (st : Step) (w : World) (a : Attempt) : Prop :=
  match st.input with
  | .call call => ∃ s, w.sys st.conditions = some s ∧ call.Attempts s a
  | .restart _ => False

/-- A turn keeps the property of every copy. -/
theorem Kept.turn (hP : Kept P) {v : Vault} {w : World} {st : Step} {c c' : Copies VaultDocument} (h : v.Holds w c)
    (ht : w.Turn st c c') (hall : All P c) : All P c' := by
  cases ht with
  | none => exact hall
  | @call _ call s _ _ hs _ hc =>
    refine hc.all ?_ ?_ hall
    · rintro d ⟨a, head, ha, rfl⟩
      refine hP.withHead (hP.attempt ha fun d hd => hall.memory d ?_) head
      rw [← hd]
      exact (h.view hs).memory.symm
    · rintro m m' ⟨-, rfl⟩ hm
      exact hP.purgeTerminal hm _
  | restart => exact hall.reload

variable [LawfulCrypto] [LawfulVaultJson]

/-- What every turn keeps holds at the end of a run. -/
theorem Vault.Holds.along {v : Vault} {Q : World → Step → Prop} {I : Copies VaultDocument → Prop}
    (hturn : ∀ {w st c c'}, v.Holds w c → Q w st → w.Turn st c c' → I c → I c') {run : List Step} {w : World}
    {c : Copies VaultDocument} (h : v.Holds w c) (hrun : w.Along (fun w st => st.Honest v w ∧ Q w st) run) (hI : I c) :
    ∃ c', v.Holds (w.after run) c' ∧ I c' := by
  induction run generalizing w c with
  | nil => exact ⟨c, h, hI⟩
  | cons st run ih =>
    obtain ⟨c1, h1, ht⟩ := h.next hrun.1.1
    exact ih h1 hrun.2 (hturn h hrun.1.2 ht hI)

/-- What is kept holds of every copy in every run. -/
theorem Kept.run (hP : Kept P) {v : Vault} {run : List Step} {w : World} {c : Copies VaultDocument} (h : v.Holds w c)
    (honest : v.HonestRun w run) (hall : All P c) : ∃ c', v.Holds (w.after run) c' ∧ All P c' :=
  h.along (Q := fun _ _ => True) (fun h _ ht hall => hP.turn h ht hall) (honest.mono fun _ _ h => ⟨h, trivial⟩) hall

omit [LawfulCrypto] in
/-- A created vault holds one document in all copies. -/
theorem Session.Created.holds {passphrase : Bytes} {h h' : Host} {s : Session} {u : Unlocked} {w : Walk}
    {entry : StagedEntry} (hc : s.Created passphrase h h' u w entry) :
    hc.vault.Holds ⟨some s, h'⟩ ⟨some u.doc, u.doc, u.doc⟩ := by
  have hstored : ∃ e, h'.vaultFile = some e.toBytes ∧ hc.vault.Seals u.doc e := ⟨s.envelope, hc.vaultFile, hc.seals⟩
  refine ⟨hstored, fun s' hs' => ?_⟩
  cases hs'
  refine ⟨?_, fun u' hu' => ?_, hc.seals, hstored⟩
  · rw [Session.document, hc.unlocked]
    rfl
  · change s.unlocked = some u' at hu'
    rw [hc.unlocked, Option.some.injEq] at hu'
    subst hu'
    exact ⟨rfl, hc.auditKey⟩

/-- What holds of a new document and is kept, holds of every copy in every run of a created vault. -/
theorem Kept.created (hP : Kept P) (hnew : ∀ t, P (VaultDocument.new t)) {passphrase : Bytes} {idleTimeout : Nat}
    {h h' : Host} {s : Session} (hr : (Session.create passphrase idleTimeout).run h = (.ok s, h')) :
    ∃ u, s.unlocked = some u ∧ ∀ run, (Vault.mk s.envelope.header u.keys).HonestRun ⟨some s, h'⟩ run →
      ∃ c, (Vault.mk s.envelope.header u.keys).Holds (World.after ⟨some s, h'⟩ run) c ∧ All P c := by
  obtain ⟨u, w, entry, hc⟩ := create_eq_ok hr
  have hdoc : P u.doc := by
    rw [hc.doc]
    exact hP.withHead (hnew _) (some _)
  exact ⟨u, hc.unlocked, fun run honest => hP.run hc.holds honest ⟨⟨fun _ hm => by cases hm; exact hdoc, hdoc⟩, hdoc⟩⟩

end

end SecretsVault
