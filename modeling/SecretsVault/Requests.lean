import SecretsVault.Broker
import SecretsVault.CallActs

/-!
# What a request does

Whatever a request is, the daemon asks its session for a sequence of calls, takes runs out of its registry, signals
process groups and looks at the clocks (`Served`). Most operations neither withdraw authority nor take runs out
(`Call.tame`); what the others do is `Served` with more permitted.

- `dispatch_served`: a request is served so.
-/

namespace SecretsVault

open Lib Lib.Prog

/-- The mutation withdraws no authority. -/
def Mutation.tame {α : Type} : Mutation α → Bool
  | .projectRemove .. | .agentRevoke .. | .grantAdd .. | .grantRevoke .. => false
  | _ => true

/-- The call withdraws no authority, opens nothing, and is not made for its activity. -/
def Call.tame {α : Type} : Call α → Bool
  | .mutate m => m.tame
  | .unlock .. | .unlockWithProof .. | .lock | .lockPersist | .deferIdleLock | .requireKeys | .save => false
  | _ => true

/-- What may be done for a request. -/
structure Warrant where
  calls : ∀ {α : Type}, Call α → Prop
  /-- Runs may be taken out of the registry. -/
  drains : Prop

/-- Tame calls only. -/
def Warrant.tame : Warrant := ⟨fun c => c.tame = true, False⟩

/-- Everything. -/
def Warrant.any : Warrant := ⟨fun _ => True, True⟩

section

variable [Crypto] [VaultJson] [AuditJson] {p q : Warrant} {α : Type}

/-- One thing that is done for a request. -/
inductive Serves (p : Warrant) : Broker Session → Broker Session → Prop
  | call {α : Type} {b : Broker Session} (c : Call α) (hc : p.calls c) : Serves p b ((ask c).run b).2
  | glance {b : Broker Session} : Serves p b (glance.run b).2
  | drain {b : Broker Session} (agent project : Option String) (hd : p.drains) :
      Serves p b { b with runs := (b.runs.takeMatching agent project).2 }
  | signal {b : Broker Session} (signals : Nat → Option IoError) : Serves p b { b with signals }

/-- What is done for a request. -/
abbrev Served (p : Warrant) : Broker Session → Broker Session → Prop := Relation.ReflTransGen (Serves p)

instance (p : Warrant) : IsPreorder (Broker Session) (Served p) :=
  { refl := fun _ => .refl, trans := fun _ _ _ => Relation.ReflTransGen.trans }

/-- An invariant of everything that is done is one of the request. -/
theorem Served.invariant {I : Broker Session → Prop} {b b' : Broker Session} (h : Served p b b') (hb : I b)
    (hstep : ∀ x y, Serves p x y → I x → I y) : I b' := by
  induction h with
  | refl => exact hb
  | tail _ hxy ih => exact hstep _ _ hxy ih

/-- More may be done. -/
def Warrant.Within (p q : Warrant) : Prop := (∀ {α : Type} (c : Call α), p.calls c → q.calls c) ∧ (p.drains → q.drains)

omit [Crypto] [VaultJson] [AuditJson] in
theorem tame_within_any : Warrant.tame.Within .any := ⟨fun _ _ => trivial, fun _ => trivial⟩

/-! ## The parts of an arm -/

theorem ask_served {c : Call α} (hc : p.calls c) : Keeps (Served p) (ask c) := fun _ => .single (.call c hc)

theorem glance_served : Keeps (Served p) glance := fun _ => .single .glance

theorem need_served {o : Option α} {msg : String} : Keeps (Served p) (need o msg) := keeps_lift _

theorem signalGroup_served (pgid : Int) : Keeps (Served p) (signalGroup pgid) := by
  intro b
  rw [signalGroup, run_step]
  split
  · exact .refl
  · exact .single (.signal _)

variable (hp : Warrant.tame.Within p)
include hp

theorem tame_served {c : Call α} (hc : c.tame = true) : Keeps (Served p) (ask c) := ask_served (hp.1 c hc)

theorem told_served {c : Call α} (hc : c.tame = true) : Keeps (Served p) (tell c) := (tame_served hp hc).ignore

theorem checked_served {actor op : String} {project : Option String} (r : Except String α) :
    Keeps (Served p) (checked actor op project r) := by
  cases r with
  | ok a => exact keeps_pure a
  | error why => exact (told_served hp rfl).bind fun _ => keeps_fail _

theorem needRecorded_served {actor op : String} {o : Option α} {msg : String} :
    Keeps (Served p) (needRecorded actor op o msg) := checked_served hp _

theorem refuseSignal_served {actor project runId : String} {e : WireError} :
    Keeps (Served p) (refuseSignal actor project runId e : BrokerProg α) :=
  (told_served hp rfl).bind fun _ => keeps_fail _

theorem revokeRuns_served (actor : String) (runs : RunRegistry) : Keeps (Served p) (revokeRuns actor runs) := by
  induction runs with
  | nil => exact keeps_pure ()
  | cons e rest ih => exact (told_served hp rfl).bind fun _ => ih

theorem terminateMatchingRuns_served (hd : p.drains) (actor : String) (agent project : Option String) :
    Keeps (Served p) (terminateMatchingRuns actor agent project) := by
  refine keeps_get.bind fun b => Keeps.bind (fun x => ?_) fun _ => revokeRuns_served hp actor _
  exact .single (.drain agent project hd)

theorem lockAndDrain_served (hd : p.drains) (hc : p.calls .lockPersist) (actor : String) :
    Keeps (Served p) (lockAndDrain actor) :=
  (told_served hp rfl).bind fun _ => (terminateMatchingRuns_served hp hd actor none none).bind fun _ => ask_served hc

theorem idleLock_served (hd : p.drains) (hc : p.calls .lockPersist) : Keeps (Served p) idleLock := by
  refine glance_served.bind fun h => keeps_get.bind fun b => ?_
  split
  · exact lockAndDrain_served hp hd hc "human"
  · exact keeps_pure ()

/-! ## The arms -/

variable {req : Request} {ctx : OpContext}

omit hp in
theorem forAgents_served {msg : String} {arm : String → Arm} (h : ∀ agentId, Keeps (Served p) (arm agentId req ctx)) :
    Keeps (Served p) (forAgents msg arm req ctx) := by
  rw [forAgents]
  split
  · exact h _
  · exact keeps_fail _

theorem forAgentsRecorded_served {op msg : String} {arm : String → Arm}
    (h : ∀ agentId, Keeps (Served p) (arm agentId req ctx)) :
    Keeps (Served p) (forAgentsRecorded op msg arm req ctx) := by
  rw [forAgentsRecorded]
  split
  · exact h _
  · exact (told_served hp rfl).bind fun _ => keeps_fail _

theorem injectFileArm_served : Keeps (Served p) (injectFileArm req ctx) := by
  refine forAgentsRecorded_served hp fun agentId => need_served.bind fun project => need_served.bind fun path =>
    keeps_get.bind fun b => ?_
  split
  · exact (told_served hp rfl).bind fun _ => keeps_fail _
  · exact (checked_served hp _).bind fun _ => (tame_served hp rfl).bind fun _ => (checked_served hp _).bind fun _ =>
      (tame_served hp rfl).bind fun _ => keeps_pure _

theorem vaultStatusArm_served [Rendering] : Keeps (Served p) (vaultStatusArm req ctx) :=
  keeps_get.bind fun _ => (tame_served hp rfl).bind fun _ => keeps_pure _

theorem secretsListArm_served [Rendering] : Keeps (Served p) (secretsListArm req ctx) := by
  refine need_served.bind fun project => keeps_get.bind fun b => ?_
  split
  · exact (told_served hp rfl).bind fun _ => keeps_fail _
  · dsimp only
    split
    · exact (keeps_lift _).bind fun _ => (tame_served hp rfl).bind fun _ => (tame_served hp rfl).bind fun _ =>
        keeps_pure _
    · exact (keeps_pure _).bind fun _ => (tame_served hp rfl).bind fun _ => keeps_pure _

theorem projectAddArm_served : Keeps (Served p) (projectAddArm req ctx) :=
  need_served.bind fun _ => (tame_served hp rfl).bind fun _ => keeps_pure _

theorem projectListArm_served : Keeps (Served p) (projectListArm req ctx) :=
  (tame_served hp rfl).bind fun _ => keeps_pure _

theorem projectPathAddArm_served : Keeps (Served p) (projectPathAddArm req ctx) :=
  need_served.bind fun _ => (tame_served hp rfl).bind fun _ => keeps_pure _

theorem projectPathRemoveArm_served : Keeps (Served p) (projectPathRemoveArm req ctx) :=
  need_served.bind fun _ => (tame_served hp rfl).bind fun _ => keeps_pure _

theorem secretSetArm_served : Keeps (Served p) (secretSetArm req ctx) :=
  need_served.bind fun _ => (tame_served hp rfl).bind fun _ => keeps_pure _

theorem secretDeleteArm_served : Keeps (Served p) (secretDeleteArm req ctx) :=
  need_served.bind fun _ => (tame_served hp rfl).bind fun _ => keeps_pure _

theorem agentsAddArm_served : Keeps (Served p) (agentsAddArm req ctx) :=
  need_served.bind fun _ => (tame_served hp rfl).bind fun _ => keeps_pure _

theorem agentsListArm_served : Keeps (Served p) (agentsListArm req ctx) :=
  (tame_served hp rfl).bind fun _ => keeps_pure _

theorem grantsListArm_served : Keeps (Served p) (grantsListArm req ctx) :=
  (tame_served hp rfl).bind fun _ => keeps_pure _

theorem auditShowArm_served [Rendering] : Keeps (Served p) (auditShowArm req ctx) := by
  refine need_served.bind fun tail => ?_
  split
  · exact keeps_fail _
  · dsimp only
    split
    · exact (keeps_pure _).bind fun _ => (tame_served hp rfl).bind fun _ => keeps_pure _
    · exact (need_served.bind fun _ => keeps_pure _).bind fun _ => (tame_served hp rfl).bind fun _ => keeps_pure _

theorem auditVerifyArm_served : Keeps (Served p) (auditVerifyArm req ctx) :=
  (tame_served hp rfl).bind fun _ => keeps_pure _

theorem leaseCreateArm_served [Rendering] : Keeps (Served p) (leaseCreateArm req ctx) :=
  forAgents_served fun _ => need_served.bind fun _ => (keeps_lift _).bind fun _ => need_served.bind fun _ =>
    (tame_served hp rfl).bind fun _ => keeps_pure _

theorem leaseListArm_served [Rendering] : Keeps (Served p) (leaseListArm req ctx) :=
  (tame_served hp rfl).bind fun _ => glance_served.bind fun _ => keeps_get.bind fun _ => keeps_pure _

theorem leaseRevokeArm_served : Keeps (Served p) (leaseRevokeArm req ctx) :=
  need_served.bind fun _ => (tame_served hp rfl).bind fun _ => keeps_pure _

omit hp in
theorem revealed_served (value : Bytes) : Keeps (Served p) (revealed? value) := by
  rw [revealed?]
  split
  · exact keeps_pure _
  · exact keeps_fail _

theorem revealArm_served [Rendering] : Keeps (Served p) (revealArm req ctx) := by
  rw [revealArm]
  split
  · rw [revealHumanArm]
    split
    · exact keeps_fail _
    · exact need_served.bind fun _ => need_served.bind fun _ => (tame_served hp rfl).bind fun _ => revealed_served _
  · refine forAgents_served fun agentId => need_served.bind fun project => need_served.bind fun key =>
      (keeps_lift _).bind fun credential => (tame_served hp rfl).bind fun opActor => ?_
    split
    · exact (tame_served hp rfl).bind fun _ => revealed_served _
    · exact (tame_served hp rfl).bind fun _ => glance_served.bind fun _ => keeps_fail _

theorem approvalsStatusArm_served [Rendering] : Keeps (Served p) (approvalsStatusArm req ctx) :=
  forAgents_served fun _ => need_served.bind fun _ => (tame_served hp rfl).bind fun _ => glance_served.bind fun _ =>
    keeps_get.bind fun _ => keeps_pure _

theorem approvalsPendingArm_served [Rendering] : Keeps (Served p) (approvalsPendingArm req ctx) :=
  (tame_served hp rfl).bind fun _ => keeps_get.bind fun _ => keeps_pure _

theorem approvalsDecideArm_served (approved : Bool) : Keeps (Served p) (approvalsDecideArm approved req ctx) :=
  need_served.bind fun _ => (tame_served hp rfl).bind fun _ => keeps_pure _

theorem runSignalArm_served : Keeps (Served p) (runSignalArm req ctx) := by
  have hnot : ∀ {β : Type}, Keeps (Served p) (do
      tell (.denied ctx.actor "run_signal" none .notFound)
      .fail VaultError.notFound.wire : BrokerProg β) := (told_served hp rfl).bind fun _ => keeps_fail _
  refine forAgentsRecorded_served hp fun agentId => (needRecorded_served hp).bind fun runId =>
    (needRecorded_served hp).bind fun sigName => keeps_get.bind fun b => ?_
  split
  · exact hnot
  · refine (tame_served hp rfl).attempt.bind fun r => ?_
    split
    · exact refuseSignal_served hp
    · refine keeps_get.bind fun b => ?_
      dsimp only
      split
      · exact refuseSignal_served hp
      · split
        · exact refuseSignal_served hp
        · refine keeps_get.bind fun b => ?_
          split
          · exact hnot
          · split
            · exact hnot
            · refine (signalGroup_served _).attempt.bind fun r => ?_
              split
              · exact refuseSignal_served hp
              · refine (tame_served hp rfl).attempt.bind fun r => ?_
                split
                · exact keeps_fail _
                · exact keeps_pure _

omit hp in
theorem sessionDisplayTimes_served [Rendering] (expiresIn maxExpiresIn : Nat) :
    Keeps (Served p) (sessionDisplayTimes expiresIn maxExpiresIn) := glance_served.bind fun _ => keeps_pure _

theorem sessionOpenArm_served [Rendering] : Keeps (Served p) (sessionOpenArm req ctx) := by
  rw [sessionOpenArm]
  split
  · exact keeps_fail _
  · split
    · exact (told_served hp rfl).bind fun _ => keeps_fail _
    · dsimp only
      split
      · exact (keeps_pure _).bind fun _ => (tame_served hp rfl).bind fun _ => (sessionDisplayTimes_served _ _).bind
          fun _ =>
          keeps_pure _
      · exact need_served.bind fun _ => (tame_served hp rfl).bind fun _ => (sessionDisplayTimes_served _ _).bind
          fun _ =>
          keeps_pure _

theorem sessionTouchArm_served [Rendering] : Keeps (Served p) (sessionTouchArm req ctx) :=
  (keeps_lift _).bind fun _ => (tame_served hp rfl).bind fun _ => (sessionDisplayTimes_served _ _).bind fun _ =>
    keeps_pure _

theorem sessionCloseArm_served : Keeps (Served p) (sessionCloseArm req ctx) :=
  (keeps_lift _).bind fun _ => (tame_served hp rfl).bind fun _ => keeps_pure _

theorem runsListArm_served [Rendering] : Keeps (Served p) (runsListArm req ctx) :=
  keeps_get.bind fun _ => (tame_served hp rfl).bind fun _ => keeps_pure _

theorem vaultHealthArm_served [Rendering] : Keeps (Served p) (vaultHealthArm req ctx) :=
  glance_served.bind fun _ => keeps_get.bind fun _ => (tame_served hp rfl).bind fun _ => keeps_pure _

/-! ## Withdrawals -/

omit hp in
theorem projectRemoveArm_served (hc : ∀ m : Mutation Unit, p.calls (.mutate m)) :
    Keeps (Served p) (projectRemoveArm req ctx) :=
  need_served.bind fun _ => (ask_served (hc _)).bind fun _ => keeps_pure _

theorem vaultLockArm_served (hd : p.drains) (hc : p.calls .lockPersist) : Keeps (Served p) (vaultLockArm req ctx) :=
  (lockAndDrain_served hp hd hc _).bind fun _ => keeps_pure _

theorem vaultUnlockArm_served [Rendering] (hc : ∀ derived, p.calls (.unlockWithProof derived)) :
    Keeps (Served p) (vaultUnlockArm req ctx) := by
  rw [vaultUnlockArm]
  split
  · exact keeps_fail _
  · refine (keeps_lift _).bind fun derived => (ask_served (hc derived)).bind fun _ => (tame_served hp rfl).attempt.bind
      fun r => ?_
    split
    · exact (sessionDisplayTimes_served _ _).bind fun _ => keeps_pure _
    · exact keeps_pure _

theorem agentsRevokeArm_served (hd : p.drains) (hc : ∀ m : Mutation Unit, p.calls (.mutate m)) :
    Keeps (Served p) (agentsRevokeArm req ctx) := by
  refine need_served.bind fun name => keeps_get.bind fun b => (ask_served (hc _)).bind fun _ => ?_
  split
  · exact keeps_lift _
  · exact (terminateMatchingRuns_served hp hd _ _ _).bind fun _ => keeps_pure _

theorem grantsGrantArm_served (hd : p.drains) (hc : ∀ m : Mutation Unit, p.calls (.mutate m)) :
    Keeps (Served p) (grantsGrantArm req ctx) := by
  refine need_served.bind fun x => (keeps_lift _).bind fun ops => keeps_get.bind fun b =>
    (ask_served (hc _)).bind fun _ => ?_
  dsimp only
  split
  · split
    · exact keeps_pure _
    · exact (terminateMatchingRuns_served hp hd _ _ _).bind fun _ => keeps_pure _
  · exact keeps_pure _

theorem grantsRevokeArm_served (hd : p.drains) (hc : ∀ m : Mutation Unit, p.calls (.mutate m)) :
    Keeps (Served p) (grantsRevokeArm req ctx) := by
  refine need_served.bind fun x => keeps_get.bind fun b => (ask_served (hc _)).bind fun _ => ?_
  split
  · exact keeps_lift _
  · exact (terminateMatchingRuns_served hp hd _ _ _).bind fun _ => keeps_pure _

/-! ## A request -/

/-- The operations that withdraw authority or open the vault. -/
def WITHDRAWALS : List String :=
  ["vault.lock", "vault.unlock", "project.remove", "agents.revoke", "grants.grant", "grants.revoke"]

/-- An arm of any other operation asks for tame calls only. -/
theorem arms_tame [Rendering] : ∀ e ∈ arms, e.1 ∉ WITHDRAWALS → Keeps (Served p) (e.2 req ctx) := by
  simp only [arms, List.forall_mem_cons]
  refine ⟨fun _ => injectFileArm_served hp, fun _ => vaultStatusArm_served hp, fun h => absurd (by decide) h,
    fun _ => secretsListArm_served hp, fun h => absurd (by decide) h, fun _ => keeps_fail _,
    fun _ => projectAddArm_served hp, fun _ => projectListArm_served hp, fun _ => projectPathAddArm_served hp,
    fun _ => projectPathRemoveArm_served hp, fun h => absurd (by decide) h, fun _ => secretSetArm_served hp,
    fun _ => secretDeleteArm_served hp, fun _ => agentsAddArm_served hp, fun h => absurd (by decide) h,
    fun _ => agentsListArm_served hp, fun h => absurd (by decide) h, fun h => absurd (by decide) h,
    fun _ => grantsListArm_served hp, fun _ => auditShowArm_served hp, fun _ => auditVerifyArm_served hp,
    fun _ => leaseCreateArm_served hp, fun _ => leaseListArm_served hp, fun _ => leaseRevokeArm_served hp,
    fun _ => revealArm_served hp, fun _ => approvalsStatusArm_served hp, fun _ => approvalsPendingArm_served hp,
    fun _ => approvalsDecideArm_served hp true, fun _ => approvalsDecideArm_served hp false,
    fun _ => runSignalArm_served hp, fun _ => sessionOpenArm_served hp, fun _ => sessionTouchArm_served hp,
    fun _ => sessionCloseArm_served hp, fun _ => runsListArm_served hp, fun _ => vaultHealthArm_served hp, ?_⟩
  exact fun e he => absurd he (List.not_mem_nil)

omit hp in
theorem mem_arms_of_lookup [Rendering] {op : String} {arm : Arm} (h : arms.lookup op = some arm) :
    (op, arm) ∈ arms := by
  obtain ⟨l₁, l₂, heq, -⟩ := List.lookup_eq_some_iff.mp h
  rw [heq]
  simp

theorem dispatchOp_tame [Rendering] (hop : req.op ∉ WITHDRAWALS) : Keeps (Served p) (dispatchOp req ctx) := by
  rw [dispatchOp]
  split
  · rename_i arm harm
    exact arms_tame hp _ (mem_arms_of_lookup harm) hop
  · exact keeps_fail _

/-- An arm that withdraws authority ends runs and changes the document; the vault is locked and unlocked by arms of
their own. -/
theorem dispatchOp_withdraws [Rendering] (hd : p.drains) (hm : ∀ m : Mutation Unit, p.calls (.mutate m))
    (hlock : req.op = "vault.lock" → p.calls .lockPersist)
    (hunlock : req.op = "vault.unlock" → ∀ derived, p.calls (.unlockWithProof derived)) :
    Keeps (Served p) (dispatchOp req ctx) := by
  by_cases hop : req.op ∈ WITHDRAWALS
  · simp only [WITHDRAWALS, List.mem_cons, List.not_mem_nil, or_false] at hop
    rw [dispatchOp]
    obtain hop | hop | hop | hop | hop | hop := hop <;> rw [hop]
    · exact vaultLockArm_served hp hd (hlock hop)
    · exact vaultUnlockArm_served hp (hunlock hop)
    · exact projectRemoveArm_served hm
    · exact agentsRevokeArm_served hp hd hm
    · exact grantsGrantArm_served hp hd hm
    · exact grantsRevokeArm_served hp hd hm
  · exact dispatchOp_tame hp hop

omit hp in
theorem dispatchOp_served [Rendering] : Keeps (Served .any) (dispatchOp req ctx) :=
  dispatchOp_withdraws tame_within_any trivial (fun _ => trivial) (fun _ => trivial) fun _ _ => trivial

theorem authenticate_served [Rendering] (proof : Option DerivedKeks) : Keeps (Served p) (authenticate req proof) := by
  refine keeps_get.bind fun b => ?_
  split
  · exact keeps_fail _
  · split
    · exact keeps_fail _
    · exact keeps_fail _
    · exact keeps_fail _
    · split
      · exact keeps_pure _
      · exact (told_served hp rfl).bind fun _ => keeps_fail _
    · split
      · exact keeps_pure _
      · exact (told_served hp rfl).bind fun _ => keeps_fail _
    · refine (tame_served hp rfl).attempt.bind fun r => ?_
      split
      · exact keeps_pure _
      · exact keeps_fail _
    · exact keeps_pure _

theorem screen_served (identity : Identity) (actor : String) : Keeps (Served p) (screen req identity actor) := by
  rw [screen]
  split
  · dsimp only
    split
    · exact keeps_fail _
    · exact (told_served hp rfl).bind fun _ => keeps_fail _
  · split
    · exact (told_served hp rfl).bind fun _ => keeps_fail _
    · split
      · exact checked_served hp _
      · exact keeps_pure _

/-- A request that was admitted is performed by its arm; its session slides, or its refusal is recorded. -/
theorem perform_served [Rendering] (h : Keeps (Served p) (dispatchOp req ctx)) :
    Keeps (Served p) (perform req ctx) := by
  refine keeps_get.bind fun marker => h.attempt.bind fun r => ?_
  split
  · dsimp only
    split
    · split
      · exact keeps_pure _
      · exact (tame_served hp rfl).bind fun _ => keeps_pure _
    · exact keeps_pure _
  · refine keeps_get.bind fun b => ?_
    dsimp only
    split
    · exact (told_served hp rfl).bind fun _ => keeps_fail _
    · exact keeps_fail _

omit hp in
theorem dispatch_served [Rendering] (proof : Option DerivedKeks) : Keeps (Served .any) (dispatch req proof) :=
  (authenticate_served tame_within_any proof).bind fun _ => (screen_served tame_within_any _ _).bind fun _ =>
    perform_served tame_within_any dispatchOp_served

/-! ## Requests that succeed -/

omit hp in
/-- A token is that of an agent, or of nobody. -/
theorem authenticate_token {proof : Option DerivedKeks} {b : Broker Session} {token : String}
    (ht : req.auth = some ⟨some token, none, none⟩) : (authenticate req proof).run b =
      Prog.run (match b.session.resolveAgent token with
        | some agentId => pure (Identity.agent agentId, "agent:" ++ agentId)
        | none => (do
          tell (.denied "agent:unknown" req.op none .auth)
          .fail VaultError.auth.wire : BrokerProg (Identity × String))) b := by
  obtain ⟨id, op, auth, params⟩ := req
  cases ht
  rw [authenticate, run_get_bind, if_neg (fun h => nomatch h)]
  rfl

omit hp in
/-- A passphrase is that of a slot. -/
theorem authenticate_passphrase {b : Broker Session} {passphrase : String} {derived : DerivedKeks}
    (ha : req.auth = some ⟨none, some passphrase, none⟩) (hv : b.session.proofIsValid derived = true) :
    (authenticate req (some derived)).run b = (.ok (.human, "human"), b) := by
  obtain ⟨id, op, auth, params⟩ := req
  cases ha
  rw [authenticate, run_get_bind, if_neg (fun h => nomatch h)]
  change Prog.run (if (some derived).any b.session.proofIsValid then _ else _) b = _
  rw [Option.any_some, if_pos hv]
  rfl

omit hp in
/-- A request that comes without a session is answered as its arm answers. -/
theorem dispatch_arm [Rendering] {proof : Option DerivedKeks} {b b' : Broker Session} {identity : Identity}
    {actor : String} {answer : Value} (hauth : (authenticate req proof).run b = (.ok (identity, actor), b))
    (hscreen : (screen req identity actor).run b = (.ok (), b)) (hsession : req.session = none)
    (harm : (dispatchOp req ⟨actor, identity, proof⟩).run b = (.ok answer, b')) :
    (dispatch req proof).run b = (.ok answer, b') := by
  rw [dispatch, run_bind_ok hauth]
  dsimp only
  rw [run_bind_ok hscreen, perform, run_get_bind, run_bind, run_attempt, harm]
  dsimp only
  rw [hsession]
  rfl

end

end SecretsVault
