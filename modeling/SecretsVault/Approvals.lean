import Mathlib.Data.List.Nodup
import SecretsVault.Leases
import SecretsVault.Unrecorded

/-!
# Approvals over a run

An approval is requested by an agent, decided by a human, and claimed once. While it is open, its agent is active and
may reveal on its project, in every document a session makes.

- `approvalCapability`: the open approvals that are not past their window.
- `Approval.Story`: how an approval that is claimed came about.
- `claims_are_approved`: a claim that returns a value has a story, and was committed; no other claim of its id returns
  one.
- `approval_revived`: an approval of before a lock whose commit fails is claimed after it.
-/

namespace SecretsVault

open Lib Lib.Prog Lib.Copies Host VaultDocument

section

variable [Crypto] [VaultJson] [AuditJson]

/-! ## Open approvals -/

/-- The open approvals that are not past their window. -/
def approvalCapability : Capability Approval where
  items t d := {a | a ∈ d.approvals ∧ a.status.open_ = true ∧ a.terminal t = false}
  made a w st := st.Requests a w ∨ st.Approves a w
  later h _ := fun _ ⟨ha, ho, ht⟩ => ⟨ha, ho, Approval.terminal_later h ht⟩
  purge {t t'} h d := by
    ext a
    simp only [purgeTerminal, List.mem_filter, Set.mem_ofPred_eq]
    constructor
    · rintro ⟨⟨ha, -⟩, ho, ht⟩
      exact ⟨ha, ho, ht⟩
    · rintro ⟨ha, ho, ht⟩
      exact ⟨⟨ha, by rw [Approval.terminal_later h ht]; rfl⟩, ho, ht⟩
  dead hd _ := Set.eq_empty_of_forall_notMem fun a ⟨ha, ho, _⟩ => by rw [hd.approvals a ha] at ho; cases ho
  withHead d head _ := by cases head <;> rfl
  attempts ha := by
    obtain ⟨s, doc, hs, hdoc, happrovals⟩ := ha.approvals
    exact ⟨s, doc, hs, hdoc, fun t a ⟨ha, ho, ht⟩ => (happrovals a ha ho).imp_left fun ha => ⟨ha, ho, ht⟩⟩

/-- The step leaves the approval as it is: it does not lock the vault, and the document that is served after it has the
approval, of an active agent that may reveal on its project. -/
structure Step.SparesApproval (a : Approval) (w : World) (st : Step) : Prop where
  unlocked : ∀ s', (w.next st).session = some s' → s'.document = none →
    (∃ idleTimeout, st.input = .restart idleTimeout) ∨ ∀ s, w.session = some s → s.document = none
  backed : ∀ s' d, (w.next st).session = some s' → s'.document = some d → a ∈ d.approvals ∧ d.Backs a

theorem Capability.Spares.approval {a : Approval} {w : World} {st : Step} (h : approvalCapability.Spares a w st) :
    st.SparesApproval a w := by
  refine ⟨h.unlocked, fun s' d hs' hd => ?_⟩
  obtain ⟨hsane, ha, ho, -⟩ := h.usable s' d hs' hd
  exact ⟨ha, hsane.backed a ha ho⟩

/-! ## The story of an approval -/

/-- The step requests the approval, for its agent, on its project, for its key. -/
def Step.RequestsFor (a : Approval) (w : World) (st : Step) : Prop :=
  ∃ actor project doc doc' p, st.Decides w (.approvalRequest actor a.agentId project a.key) doc doc' a ∧
    doc.projectByName project = some p ∧ p.id = a.projectId ∧ a.status = .pending ∧ a.createdAt = st.conditions.wall ∧
    a.pendingExpiresAt = a.createdAt + seconds APPROVAL_PENDING_SECS

/-- The step approves the pending approval, for a human, before its window ends. -/
def Step.ApprovesPending (a : Approval) (w : World) (st : Step) : Prop :=
  ∃ actor doc doc', isHumanIdentity actor = true ∧ st.Decides w (.approvalDecide actor a.id true) doc doc' () ∧
    a ∈ doc.approvals ∧ a.status = .pending ∧ st.conditions.wall < a.pendingExpiresAt

/-- How an approval came about: it was requested, spared until a human approved it, and spared since. -/
def Approval.Story (a : Approval) (w : World) (run : List Step) : Prop :=
  ∃ y pre st post, run = pre ++ st :: post ∧
    w.Since (fun w st => st.RequestsFor y w ∧ st.SparesApproval y w) (Step.SparesApproval y) pre ∧
    st.ApprovesPending y (w.after pre) ∧ a = y.approvedAtTime st.conditions.wall ∧ st.SparesApproval a (w.after pre) ∧
    ((w.after pre).next st).Along (Step.SparesApproval a) post

variable {w : World} {run : List Step} {st : Step} {a : Approval}

theorem Step.Requests.requestsFor (h : st.Requests a w) : st.RequestsFor a w := by
  obtain ⟨actor, agentId, project, key, doc, doc', hd⟩ := h
  obtain ⟨d, projectId, hcheck, -, ⟨id, rfl⟩, -⟩ := hd.effect
  obtain ⟨p, hp, rfl, -⟩ := checkApprovalRequest_eq_ok hcheck
  exact ⟨actor, project, doc, doc', p, hd, hp, rfl, rfl, rfl, rfl⟩

/-- Only a human decides. -/
theorem Step.Decides.human {actor approvalId : String} {approve : Bool} {doc doc' : VaultDocument}
    (h : st.Decides w (.approvalDecide actor approvalId approve) doc doc' ()) : isHumanIdentity actor = true := by
  obtain ⟨-, s, t, q, -, -, hq, -⟩ := h
  obtain ⟨u, s1, hu, -⟩ := bind_eq_ok hq
  exact (requireHuman_eq_ok hu).2.2.1

/-- What has lasted as an approved approval has a story. -/
theorem Approval.story_of_lasts {v : Vault}
    (hsettled : ∀ pre post, run = pre ++ post → ∃ c, v.Holds (w.after pre) c ∧ approvalCapability.Settled w pre c)
    (hclock : run.Pairwise fun st st' => st.conditions.wall ≤ st'.conditions.wall) (hst : a.status = .approved)
    (h : approvalCapability.Lasts w run a) : a.Story w run := by
  obtain ⟨pre, st, post, rfl, ⟨hmade, hspares⟩, hpost⟩ := h
  rcases hmade with hreq | ⟨actor, approvalId, doc, doc', y, hd, hy, rfl, hpend, hlt, rfl⟩
  · obtain ⟨_, _, _, _, _, _, _, _, hpend, -⟩ := hreq.requestsFor
    rw [hst] at hpend
    cases hpend
  obtain ⟨c, hholds, hl⟩ := hsettled pre (st :: post) rfl
  have hfound := hd
  obtain ⟨-, s, t, q, hs, hdoc, -⟩ := hfound
  have hitem : y ∈ approvalCapability.items st.conditions.wall doc :=
    ⟨hy, by rw [hpend]; rfl, by simp [Approval.terminal, hpend, hlt]⟩
  have hbefore : ∀ st' ∈ pre, st'.conditions.wall ≤ st.conditions.wall := fun st' hst' =>
    (List.pairwise_append.mp hclock).2.2 st' hst' st List.mem_cons_self
  have hlasts := (hl.lasts _ hbefore).memory doc ((hholds.view hs).memory.symm.trans hdoc) y hitem
  refine ⟨y, pre, st, post, rfl, hlasts.mono ?_ fun _ _ h => h.approval, ⟨actor, doc, doc', hd.human, hd, hy, hpend,
    hlt⟩, rfl, hspares.approval, hpost.mono fun _ _ h => h.approval⟩
  rintro w' st' ⟨hreq | ⟨_, _, _, _, x, -, -, -, -, -, hx⟩, hspared⟩
  · exact ⟨hreq.requestsFor, hspared.approval⟩
  · rw [hx] at hpend
    cases hpend

/-! ## Once -/

/-- The step requests an approval of the id. -/
def Step.RequestsId (id : String) (w : World) (st : Step) : Prop := ∃ a, a.id = id ∧ st.Requests a w

/-- The document that is served after the step has an open approval of the id. -/
def Step.LeavesOpen (id : String) (w : World) (st : Step) : Prop :=
  ∀ s' d, (w.next st).session = some s' → s'.document = some d → ∃ x ∈ d.approvals, x.id = id ∧ x.status.open_ = true

theorem Step.SparesApproval.leavesOpen (h : st.SparesApproval a w) (ho : a.status.open_ = true) :
    st.LeavesOpen a.id w := fun s' d hs' hd => ⟨a, (h.backed s' d hs' hd).1, rfl, ho⟩

theorem Approval.Story.since (h : a.Story w run) : w.Since (Step.RequestsId a.id) (Step.LeavesOpen a.id) run := by
  obtain ⟨y, pre, st, post, rfl, hsince, ⟨_, _, _, -, -, -, hpend, -⟩, rfl, hst, hpost⟩ := h
  have hopen : y.status.open_ = true := by rw [hpend]; rfl
  have hy : w.Since (Step.RequestsId y.id) (Step.LeavesOpen y.id) pre := hsince.mono
    (fun w' st' ⟨⟨actor, project, doc, doc', p, hd, _⟩, _⟩ => ⟨y, rfl, actor, _, project, _, doc, doc', hd⟩)
    fun _ _ h => h.leavesOpen hopen
  exact hy.append ⟨hst.leavesOpen rfl, hpost.mono fun _ _ h => h.leavesOpen rfl⟩

/-- No approval id is drawn twice for a request. -/
def World.RequestsOnce (w : World) (run : List Step) : Prop :=
  ∀ pre st mid st' post id, run = pre ++ st :: (mid ++ st' :: post) → st.RequestsId id (w.after pre) →
    ¬st'.RequestsId id (w.after (pre ++ st :: mid))

/-- The step claims the approval of the id, and gets a value. -/
def Step.Claims (id : String) (w : World) (st : Step) : Prop :=
  ∃ actor agentId project key s value t, st.input = .call (.mutate (.revealClaim actor agentId project key id)) ∧
    w.sys st.conditions = some s ∧
    (Call.mutate (.revealClaim actor agentId project key id)).exec.run s = (.ok value, t)

omit [Crypto] [VaultJson] [AuditJson] in
/-- A claim leaves no open approval of its id. -/
theorem claim_closes {doc d : VaultDocument} (hs : doc.Sane) {agentId project key approvalId : String}
    {now : OffsetDateTime} {value : Bytes} (h : claim doc agentId project key approvalId now = .ok (d, value)) :
    ∀ x ∈ d.approvals, x.id = approvalId → x.status = .consumed := by
  obtain ⟨p, pos, a, sec, -, hpos, ha, -, hid, -, -, -, -, -, -, -, -, rfl⟩ := claim_eq_ok h
  intro x hx hxid
  obtain ⟨i, hi, rfl⟩ := List.mem_iff_getElem.mp hx
  rw [List.getElem_set] at hxid ⊢
  split at hxid
  · rename_i heq
    rw [if_pos heq]
  · rename_i hne
    rw [List.length_set] at hi
    obtain ⟨hpos', rfl⟩ := List.getElem?_eq_some_iff.mp ha
    -- two positions with one id
    have hi' : i < (doc.approvals.map (·.id)).length := by simpa using hi
    have hp' : pos < (doc.approvals.map (·.id)).length := by simpa using hpos'
    have heq : (doc.approvals.map (·.id))[pos] = (doc.approvals.map (·.id))[i] := by simp [hid, hxid]
    exact (hne (hs.ids.getElem_inj_iff.mp heq)).elim

/-- What is recorded of a claim. -/
def revealed (actor project key : String) : Record :=
  { actor, op := "reveal", project := some project, keys := [key], decision := .allowed }

/-- A claim of an approval: it was that of the agent, for the project and the key, approved and not past its window, of
an active agent that may reveal on the project. The claim was recorded, and its document, in which no approval of the id
is open, is served and stored. -/
structure Vault.Claimed (v : Vault) (s t : Sys) (actor agentId project key approvalId : String) (value : Bytes)
    (a : Approval) : Prop where
  found : ∃ u p sec, s.session.unlocked = some u ∧ u.doc.projectByName project = some p ∧ a ∈ u.doc.approvals ∧
    a.projectId = p.id ∧ u.doc.Backs a ∧ u.doc.secret p.id key = some sec ∧ value = sec.value
  sameId : a.id = approvalId
  sameAgent : a.agentId = agentId
  sameKey : a.key = key
  approved : a.status = .approved
  live : a.terminal s.host.wall = false
  committed : ∃ doc head t', (recordCommit (revealed actor project key) .ordinary).run s = (.ok (some head), t') ∧
    t.session.document = some doc ∧ v.Stored t.host doc ∧ doc.auditHead = head ∧
    { a with status := .consumed } ∈ doc.approvals ∧ ∀ x ∈ doc.approvals, x.id = approvalId → x.status = .consumed

variable [LawfulCrypto] [LawfulVaultJson] {v : Vault} {s t : Sys} {c : Copies VaultDocument}

/-- A value is returned for a claim only. -/
theorem revealClaim_claimed (hv : v.View s c) (hsane : ∀ u, s.session.unlocked = some u → u.doc.Sane)
    {actor agentId project key approvalId : String} {value : Bytes}
    (h : (Call.mutate (.revealClaim actor agentId project key approvalId)).exec.run s = (.ok value, t)) :
    ∃ a, v.Claimed s t actor agentId project key approvalId value a := by
  obtain ⟨u, doc, hu, hclaim, hcommit⟩ := revealClaim_eq_ok h
  have hcloses := claim_closes (hsane u hu) hclaim
  obtain ⟨p, pos, a, sec, hp, -, hpos, ha, hid, hagent, hproject, hkey, -, hst, hwindow, hsec, hvalue, rfl⟩ :=
    claim_eq_ok hclaim
  have hlive : a.terminal s.host.wall = false := by
    unfold Approval.terminal
    rw [hst]
    dsimp only
    split
    · rename_i exp hexp
      exact decide_eq_false (not_le.mpr (hwindow exp hexp))
    · rfl
  obtain ⟨hlt, rfl⟩ := List.getElem?_eq_some_iff.mp hpos
  cases commitWith_ends hcommit with
  | refused ho => exact (ho rfl).elim
  | @landed u' head bytes nonce _ _ _ _ _ hu' hrec hb hval hsave =>
    rw [hu] at hu'
    cases hu'
    cases head with
    | none => cases recordCommit_none hrec
    | some head =>
      exact ⟨_, ⟨u, p, sec, hu, hp, ha, hproject, (hsane u hu).backed _ ha (by rw [hst]; rfl), hsec, hvalue⟩, hid,
        hagent, hkey,
        hst, hlive, _, head, _, hrec, rfl, (hv.landed hu hb rfl rfl rfl).stored, rfl, List.mem_set hlt _, hcloses⟩

/-- An approval is requested. -/
def Input.requestsApproval : Input → Bool
  | .call (.mutate (.approvalRequest ..)) => true
  | _ => false

omit [LawfulCrypto] [LawfulVaultJson] in
/-- A step that claims an approval requests none. -/
theorem Step.Claims.not_requests {id : String} (h : st.Claims id w) : ¬st.RequestsId id w := by
  rintro ⟨x, -, _, _, _, _, _, _, hi, -⟩
  obtain ⟨_, _, _, _, _, _, _, hi', -⟩ := h
  exact nomatch congrArg Input.requestsApproval (hi.symm.trans hi')

/-- A step that claims an approval closes it. -/
theorem Step.Claims.closes {id : String} (h : st.Claims id w) (hholds : v.Holds w c)
    (hsane : ∀ s u, w.sys st.conditions = some s → s.session.unlocked = some u → u.doc.Sane) : ¬st.LeavesOpen id w := by
  obtain ⟨actor, agentId, project, key, s, value, t, hi, hs, hrun⟩ := h
  obtain ⟨a, ha⟩ := revealClaim_claimed (hholds.view hs) (fun u => hsane s u hs) hrun
  obtain ⟨doc, -, -, -, hdoc, -, -, -, hconsumed⟩ := ha.committed
  have hnext : w.next st = ⟨some t.session, t.host⟩ := by
    rw [World.next, hi]
    dsimp only
    rw [hs]
    dsimp only
    rw [hrun]
    rfl
  intro hopen
  rw [Step.LeavesOpen, hnext] at hopen
  obtain ⟨x, hx, hid, ho⟩ := hopen _ doc rfl hdoc
  rw [hconsumed x hx hid] at ho
  cases ho

omit [LawfulCrypto] [LawfulVaultJson] in
/-- Between a claim and an open approval of its id there is a request of the id. -/
theorem requested_between {id : String} {pre post : List Step} (hclaims : st.Claims id (w.after pre))
    (hcloses : ¬st.LeavesOpen id (w.after pre))
    (hsince : w.Since (Step.RequestsId id) (Step.LeavesOpen id) (pre ++ st :: post)) :
    ∃ mid st' rest, post = mid ++ st' :: rest ∧ st'.RequestsId id (w.after (pre ++ st :: mid)) := by
  obtain ⟨a, st0, b, heq, hreq, halong⟩ := hsince
  have same (h : st :: post = [] ++ st0 :: b) (hpre : w.after pre = w.after a) : False := by
    rw [List.nil_append, List.cons.injEq] at h
    obtain ⟨rfl, -⟩ := h
    rw [← hpre] at hreq
    exact hclaims.not_requests hreq
  rcases List.append_eq_append_iff.mp heq with ⟨c, rfl, hst⟩ | ⟨c, rfl, hst⟩
  · cases c with
    | nil => exact (same hst (by simp)).elim
    | cons st1 mid =>
      rw [List.cons_append, List.cons.injEq] at hst
      obtain ⟨rfl, rfl⟩ := hst
      exact ⟨mid, st0, b, rfl, hreq⟩
  · cases c with
    | nil => exact (same hst.symm (by simp)).elim
    | cons st1 mid =>
      -- it was left open all along
      rw [List.cons_append, List.cons.injEq] at hst
      obtain ⟨rfl, rfl⟩ := hst
      exact (hcloses (by simpa using (World.Along.append.mp halong).2.1)).elim

/-! ## Claims -/

/-- In every run of a created vault: a value is returned only for the claim of an approved approval, that was committed.
Where locks leave nothing usable behind, and what is sealed of a mutation is stored, the approval was requested for the
agent, the project and the key, spared until a human approved it within its window, and spared from then to the claim,
which is within the window of a claim; and where no id is requested twice, no claim before was one of its id. -/
theorem claims_are_approved {passphrase : Bytes} {idleTimeout : Nat} {h h' : Host} {s : Session}
    (hr : (Session.create passphrase idleTimeout).run h = (.ok s, h')) :
    ∃ u, s.unlocked = some u ∧ ∀ (run : List Step) (cond : Conditions) (s1 t : Sys)
    (actor agentId project key approvalId : String)
      (value : Bytes), Vault.HonestRun ⟨s.envelope.header, u.keys⟩ ⟨some s, h'⟩ run →
      (World.after ⟨some s, h'⟩ run).sys cond = some s1 →
      (Call.mutate (.revealClaim actor agentId project key approvalId)).exec.run s1 = (.ok value, t) →
      ∃ a, Vault.Claimed ⟨s.envelope.header, u.keys⟩ s1 t actor agentId project key approvalId value a ∧
        (World.Along (fun w st => st.Settles ⟨s.envelope.header, u.keys⟩ w) ⟨some s, h'⟩ run →
          (run.Pairwise fun st st' => st.conditions.wall ≤ st'.conditions.wall) →
          (∀ st ∈ run, st.conditions.wall ≤ cond.wall) →
          a.Story ⟨some s, h'⟩ run ∧
            (∃ decided, a.approvedAt = some decided ∧ cond.wall < decided + seconds APPROVAL_CLAIM_SECS) ∧
            (World.RequestsOnce ⟨some s, h'⟩ run → ∀ pre st post, run = pre ++ st :: post →
              ¬st.Claims approvalId (World.after ⟨some s, h'⟩ pre))) := by
  obtain ⟨u, hu, hlasts⟩ := approvalCapability.lasts_run hr
  obtain ⟨u', hu', hkept⟩ := kept_sane.created sane_new hr
  rw [hu, Option.some.injEq] at hu'
  subst hu'
  have hsane : ∀ run cond s1 u1, Vault.HonestRun ⟨s.envelope.header, u.keys⟩ ⟨some s, h'⟩ run →
      (World.after ⟨some s, h'⟩ run).sys cond = some s1 → s1.session.unlocked = some u1 → u1.doc.Sane := by
    intro run cond s1 u1 honest hs1 hu1
    obtain ⟨c, hholds, hall⟩ := hkept run honest
    exact hall.memory _ ((hholds.view hs1).document_eq hu1)
  have hclaimed : ∀ run cond s1 t actor agentId project key approvalId value,
      Vault.HonestRun ⟨s.envelope.header, u.keys⟩ ⟨some s, h'⟩ run → (World.after ⟨some s, h'⟩ run).sys cond = some s1 →
      (Call.mutate (.revealClaim actor agentId project key approvalId)).exec.run s1 = (.ok value, t) →
      ∃ a, Vault.Claimed ⟨s.envelope.header, u.keys⟩ s1 t actor agentId project key approvalId value a ∧
        (World.Along (fun w st => st.Settles ⟨s.envelope.header, u.keys⟩ w) ⟨some s, h'⟩ run →
          (run.Pairwise fun st st' => st.conditions.wall ≤ st'.conditions.wall) →
          (∀ st ∈ run, st.conditions.wall ≤ cond.wall) → a.Story ⟨some s, h'⟩ run) := by
    intro run cond s1 t actor agentId project key approvalId value honest hs1 hok
    obtain ⟨c, hholds, -⟩ := hkept run honest
    obtain ⟨a, ha⟩ := revealClaim_claimed (hholds.view hs1) (fun u1 => hsane run cond s1 u1 honest hs1) hok
    refine ⟨a, ha, fun hsettles hclock hbefore => ?_⟩
    obtain ⟨u1, -, -, hu1, -, hmem, -⟩ := ha.found
    have hlive := ha.live
    rw [World.wall_of_sys hs1] at hlive
    obtain ⟨c', hholds', hl⟩ := hlasts run (World.Along.and.mpr ⟨honest, hsettles⟩)
    refine Approval.story_of_lasts (fun pre post hrun => hlasts pre ?_) hclock ha.approved
      ((hl.lasts cond.wall hbefore).memory u1.doc ((hholds'.view hs1).document_eq hu1) a
        ⟨hmem, by rw [ha.approved]; rfl, hlive⟩)
    rw [hrun] at honest hsettles
    exact World.Along.and.mpr ⟨(World.Along.append.mp honest).1, (World.Along.append.mp hsettles).1⟩
  refine ⟨u, hu, fun run cond s1 t actor agentId project key approvalId value honest hs1 hok => ?_⟩
  obtain ⟨a, ha, hstory⟩ := hclaimed run cond s1 t actor agentId project key approvalId value honest hs1 hok
  refine ⟨a, ha, fun hsettles hclock hbefore => ?_⟩
  have hstory' := hstory hsettles hclock hbefore
  refine ⟨hstory', ?_, ?_⟩
  · obtain ⟨y, -, st, -, -, -, -, rfl, -⟩ := hstory'
    refine ⟨_, rfl, ?_⟩
    have hlive := ha.live
    rw [World.wall_of_sys hs1] at hlive
    simpa [Approval.terminal, Approval.approvedAtTime] using hlive
  · rintro honce pre st post rfl hst
    obtain ⟨honest', hrest⟩ := World.Along.append.mp honest
    obtain ⟨hclock', hclock'', hle⟩ := List.pairwise_append.mp hclock
    -- the earlier claim has a story too, so the id was requested before it
    have hst' := hst
    obtain ⟨actor', agentId', project', key', s2, value', t', hi, hs2, hrun⟩ := hst'
    obtain ⟨a', ha', hstory2⟩ := hclaimed pre st.conditions s2 t' _ _ _ _ _ _ honest' hs2 hrun
    obtain ⟨pre1, st1, post1, rfl, hreq1, -⟩ := (hstory2 (World.Along.append.mp hsettles).1 hclock'
      fun st' hst' => hle st' hst' st List.mem_cons_self).since
    obtain ⟨c, hholds, -⟩ := hkept _ honest'
    have hcloses := hst.closes hholds fun s3 u3 hs3 => hsane _ _ s3 u3 honest' hs3
    have hsince := hstory'.since
    rw [ha.sameId] at hsince
    obtain ⟨mid, st2, rest, rfl, hreq2⟩ := requested_between hst hcloses hsince
    rw [ha'.sameId] at hreq1
    refine honce pre1 st1 (post1 ++ st :: mid) st2 rest approvalId (by simp) hreq1 ?_
    simpa using hreq2

end

namespace Reference

variable {v : Vault} {n : Nat} {w : World} {d d' se st : VaultDocument} {α : Type}

def requested : Approval :=
  { id := "0001020304050607", agentId, projectId := "0001020304050607", key := "K", status := .pending, createdAt := 0,
    pendingExpiresAt := seconds 600, approvedAt := none, claimExpiresAt := none }

/-- The granted agent has requested a secret. -/
def withRequest : VaultDocument := { withGrant with approvals := [requested] }

/-- A human has approved it. -/
def withApproval : VaultDocument := { withGrant with approvals := [requested.approvedAtTime 0] }

/-- The agent has claimed it. -/
def withClaim : VaultDocument :=
  { withGrant with approvals := [{ requested.approvedAtTime 0 with status := .consumed }] }

theorem made_approvalRequest : (((Mutation.approvalRequest "agent:a" agentId "p" "K").decide withGrant).run healthy).1 =
    .ok (withRequest, requested) := by
  decide +kernel

/-- What is recorded on the way is small, and so are the documents. -/
theorem small_claim : (Brief (Mutation.approvalRequest "agent:a" agentId "p" "K").record ∧ Compact withRequest) ∧
    (Brief (Mutation.approvalDecide "human" "0001020304050607" true).record ∧ Compact withApproval) ∧
    (Brief (Mutation.revealClaim "agent:a" agentId "p" "K" "0001020304050607").record ∧ Compact withClaim) ∧
    Compact (lockAll 0 withApproval) := by
  decide +kernel

theorem decides_approvalRequest :
    Decides (.approvalRequest "agent:a" agentId "p" "K") conditions withGrant withRequest requested := by
  intro head h
  refine ⟨?_, Option.some_ne_none _⟩
  have hhead : ((Mutation.decide (.approvalRequest "agent:a" agentId "p" "K") (withGrant.withHead (some head))).run
      (h.under conditions)).1 =
        ((((Mutation.approvalRequest "agent:a" agentId "p" "K").decide withGrant).run healthy).1 >>= fun r =>
          .ok (r.1.withHead (some head), r.2)) := rfl
  rw [hhead, made_approvalRequest]
  rfl

theorem lands_approvalRequest :
    Lands (.approvalRequest "agent:a" agentId "p" "K") withGrant withRequest requested :=
  ⟨decides_approvalRequest, trivial, small_claim.1.1, small_claim.1.2⟩

theorem lands_approvalDecide :
    Lands (.approvalDecide "human" "0001020304050607" true) withRequest withApproval () :=
  ⟨fun _ _ => ⟨rfl, Option.some_ne_none _⟩, rfl, small_claim.2.1.1, small_claim.2.1.2⟩

theorem lands_revealClaim :
    Lands (.revealClaim "agent:a" agentId "p" "K" "0001020304050607") withApproval withClaim [0x76] :=
  ⟨fun _ _ => ⟨rfl, Option.some_ne_none _⟩, trivial, small_claim.2.2.1.1, small_claim.2.2.1.2⟩

/-- The granted agent requests a secret, and a human approves. -/
def approve : List Step :=
  enroll ++ [⟨conditions, .call (.mutate (.approvalRequest "agent:a" agentId "p" "K"))⟩,
    ⟨conditions, .call (.mutate (.approvalDecide "human" "0001020304050607" true))⟩]

theorem Stands.approve (h : Stands v ⟨some (VaultDocument.new 0), se, st⟩ 1 w) :
    Stands v ⟨some withApproval, withApproval, withApproval⟩ 7 (w.after approve) := by
  have hrequest := h.enroll.mutate (by omega) lands_approvalRequest
  rw [Reference.approve, World.after_append]
  exact hrequest.mutate (by omega) lands_approvalDecide

theorem honest_approve : v.HonestRun w approve :=
  World.Along.append.mpr ⟨honest_enroll, honest_of_mutate, honest_of_mutate, trivial⟩

theorem Stands.settles_approve (h : Stands v ⟨some (VaultDocument.new 0), se, st⟩ 1 w) :
    World.Along (fun w st => st.Settles v w) w Reference.approve :=
  World.Along.append.mpr ⟨h.settles_enroll, h.enroll.settles (by omega) lands_approvalRequest,
    (h.enroll.mutate (by omega) lands_approvalRequest).settles (by omega) lands_approvalDecide, trivial⟩

/-- A mutation that lands answers. -/
theorem Stands.answers (h : Stands v ⟨some d, se, st⟩ n w) (hn : n < 100) {m : Mutation α} {ans : α}
    (hl : Lands m d d' ans) : ∃ s t, w.sys conditions = some s ∧ (Call.mutate m).exec.run s = (.ok ans, t) := by
  obtain ⟨session, s, u, memory, hse, hst, hs, hq, hprop⟩ := h.proposes conditions_whole (Option.some_ne_none _)
    hl.human hl.decides
  obtain ⟨head, t, hcommit, -⟩ := hq.lands (m.priority u.doc) rfl rfl rfl hn hl.brief hl.compact
  exact ⟨_, t, sys_of_session hs _, mutate_run hprop hcommit⟩

end Reference

/-- An approval that was just approved is claimed. -/
theorem claims_are_approved_claimed : ∃ s h' u, ∃ (s1 t : Sys) (a : Approval),
    (Session.create Reference.passphrase 0).run Reference.healthy = (.ok s, h') ∧ s.unlocked = some u ∧
    (World.after ⟨some s, h'⟩ Reference.approve).sys Reference.conditions = some s1 ∧
    (Call.mutate (.revealClaim "agent:a" Reference.agentId "p" "K" "0001020304050607")).exec.run s1 = (.ok [0x76], t) ∧
    Vault.Claimed ⟨s.envelope.header, u.keys⟩ s1 t "agent:a" Reference.agentId "p" "K" "0001020304050607" [0x76] a ∧
    a.Story ⟨some s, h'⟩ Reference.approve := by
  obtain ⟨s, h', u, hr, hu, hp, hstands⟩ := Reference.stands_created
  obtain ⟨s1, t, hs1, hok⟩ := hstands.approve.answers (by omega) Reference.lands_revealClaim
  obtain ⟨u', hu', hclaims⟩ := claims_are_approved hr
  rw [hu, Option.some.injEq] at hu'
  subst hu'
  obtain ⟨a, ha, hstory⟩ := hclaims _ _ _ _ _ _ _ _ _ _ Reference.honest_approve hs1 hok
  exact ⟨s, h', u, s1, t, a, hr, hu, hs1, hok, ha, (hstory hstands.settles_approve (by decide) (by decide)).1⟩

/-- No nonce can be drawn for the document of a lock: after the next unlock the approval of before the lock is claimed.
-/
theorem approval_revived : ∃ s h' u, ∃ (s0 t0 s1 t1 : Sys),
    (Session.create Reference.passphrase 0).run Reference.healthy = (.ok s, h') ∧ s.unlocked = some u ∧
    Vault.HonestRun ⟨s.envelope.header, u.keys⟩ ⟨some s, h'⟩
      (Reference.approve ++ [⟨Reference.noRng, .call .lockPersist⟩, Reference.unlocking]) ∧
    (World.after ⟨some s, h'⟩ Reference.approve).sys Reference.noRng = some s0 ∧
    (∃ d, s0.session.document = some d ∧ Reference.requested.approvedAtTime 0 ∈ d.approvals) ∧
    (Call.lockPersist.exec.run s0 = (.ok (), t0) ∧ t0.session.document = none) ∧
    (World.after ⟨some s, h'⟩ (Reference.approve ++ [⟨Reference.noRng, .call .lockPersist⟩,
      Reference.unlocking])).sys Reference.conditions = some s1 ∧
    (Call.mutate (.revealClaim "agent:a" Reference.agentId "p" "K" "0001020304050607")).exec.run s1 =
      (.ok [0x76], t1) := by
  obtain ⟨s, h', u, hr, hu, hp, hstands⟩ := Reference.stands_created
  have happroved := hstands.approve
  have hsmall := Reference.small_claim.2.2.2
  obtain ⟨session, t0, hsession, hrun, -⟩ := happroved.locksUnsealed (by omega) hsmall
  have hlock := happroved.lockUnsealed (by omega) hsmall
  obtain ⟨s1, t1, hs1, hok⟩ := (hlock.unlock (by omega) hp).answers (by omega) Reference.lands_revealClaim
  obtain ⟨memory, hse, hst, -, -, -, hholds⟩ := happroved.holds
  have hlocked : t0.session.document = none := by
    rcases lockPersist_locked hrun with ⟨-, hnone, -⟩ | hpanic
    · rw [Session.document, hnone]
      rfl
    · cases hpanic
  refine ⟨s, h', u, _, t0, s1, t1, hr, hu, World.Along.append.mpr ⟨Reference.honest_approve, Reference.honest_of_lock,
    hlock.honest_of_unlock hp, trivial⟩, Reference.sys_of_session hsession _, ⟨_, (hholds.session _ hsession).memory,
    List.mem_singleton.mpr rfl⟩, ⟨hrun, hlocked⟩, ?_, hok⟩
  rw [World.after_append]
  exact hs1

end SecretsVault
