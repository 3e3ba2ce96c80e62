import SecretsVault.Mcp.Adapter

/-!
# Lease credentials in the adapter

Two things about the credentials that the adapter holds. What it writes does not depend on them: two brokers that differ
only in the credentials they issue lead to the same output (`Alike`, `served_alike`). And a credential goes where its
handle was named: the map of the adapter is what the answers of the broker say (`leases_eq`), so a call that names a
handle is sent with the credential last returned for it (`narrowed`).
-/

namespace SecretsVault

open Lib

/-! ## Entries -/

namespace Value

theorem insertEntry_of_lt {key k : String} (h : key < k) (v x : Value) (rest : List (String × Value)) :
    insertEntry key v ((k, x) :: rest) = (key, v) :: (k, x) :: rest := by
  rw [insertEntry, if_neg h.ne', if_pos h]

theorem find?_insertEntry_self (key : String) (v : Value) : ∀ entries : List (String × Value),
    (insertEntry key v entries).find? (fun e => e.1 == key) = some (key, v)
  | [] => by simp [insertEntry]
  | (k, x) :: rest => by
    rw [insertEntry]
    split
    · simp
    · rename_i hk
      split
      · simp
      · rw [List.find?_cons_of_neg (by simpa using hk), find?_insertEntry_self key v rest]

theorem find?_insertEntry_ne {key other : String} (hne : other ≠ key) (v : Value) : ∀ entries : List (String × Value),
    (insertEntry key v entries).find? (fun e => e.1 == other) = entries.find? (fun e => e.1 == other)
  | [] => by simp [insertEntry, hne.symm]
  | (k, x) :: rest => by
    rw [insertEntry]
    split
    · rename_i hk
      subst hk
      simp [hne.symm]
    · split
      · simp [hne.symm]
      · rw [List.find?_cons, List.find?_cons, find?_insertEntry_ne hne v rest]

theorem filter_insertEntry (key : String) (v : Value) : ∀ entries : List (String × Value),
    (insertEntry key v entries).filter (fun e => e.1 != key) = entries.filter (fun e => e.1 != key)
  | [] => by simp [insertEntry]
  | (k, x) :: rest => by
    rw [insertEntry]
    split
    · rename_i hk
      simp [hk]
    · split
      · simp
      · rw [List.filter_cons, List.filter_cons, filter_insertEntry key v rest]

@[simp] theorem get?_set_ne {key other : String} (hne : other ≠ key) (v x : Value) :
    (v.set key x).get? other = v.get? other := by
  cases v with
  | object entries => simp only [set, get?, find?_insertEntry_ne hne]
  | _ => rfl

theorem get?_set_self {v : Value} (h : v.isObject = true) (key : String) (x : Value) :
    (v.set key x).get? key = some x := by
  cases v with
  | object entries => simp only [set, get?, find?_insertEntry_self, Option.map_some]
  | _ => cases h

@[simp] theorem get?_remove_self (v : Value) (key : String) : (v.remove key).get? key = none := by
  cases v with
  | object entries => simp [remove, get?]
  | _ => rfl

@[simp] theorem get?_remove_ne {key other : String} (hne : other ≠ key) (v : Value) :
    (v.remove key).get? other = v.get? other := by
  cases v with
  | object entries =>
    have hfind : (entries.filter fun e => e.1 != key).find? (fun e => e.1 == other) = entries.find?
      (fun e => e.1 == other) := by
      rw [List.find?_filter]
      congr 1
      funext e
      by_cases he : e.1 = other
      · simp [he, hne]
      · simp [he]
    simp only [remove, get?, hfind]
  | _ => rfl

theorem remove_set (v : Value) (key : String) (x : Value) : (v.set key x).remove key = v.remove key := by
  cases v with
  | object entries => simp only [set, remove, filter_insertEntry]
  | _ => rfl

theorem remove_comm (v : Value) (a b : String) : (v.remove a).remove b = (v.remove b).remove a := by
  cases v with
  | object entries => simp only [remove, List.filter_filter, Bool.and_comm]
  | _ => rfl

end Value

namespace Mcp

theorem isObject_of_strOf {v : Value} {key s : String} (h : strOf v key = some s) : v.isObject = true := by
  cases v with
  | object entries => rfl
  | _ => cases h

theorem strOf_remove_ne {key other : String} (hne : other ≠ key) (v : Value) :
    strOf (v.remove key) other = strOf v other := by
  rw [strOf, Value.get?_remove_ne hne, strOf]

/-- Values that differ in one entry agree on every other. -/
theorem strOf_eq_of_remove_eq {v w : Value} {key other : String} (hne : other ≠ key) (h : v.remove key = w.remove key) :
    strOf v other = strOf w other := by
  rw [← strOf_remove_ne hne v, h, strOf_remove_ne hne w]

/-! ## Two brokers -/

/-- The operation can be narrowed by a lease. -/
def takesLease (op : String) : Bool := op = "secrets.list" || op = "inject_file" || op = "reveal"

/-- Requests that correspond, when the pairs of credentials in `C` do: they are the same and present none, or present
corresponding ones. -/
inductive SameRequest (C : String → String → Prop) : Sent → Sent → Prop
  | same {sent : Sent} : (takesLease sent.op = true → sent.params.present "lease" = false) → SameRequest C sent sent
  | presented {sent sent' : Sent} {c c' : String} : sent.op = sent'.op → sent.auth = sent'.auth →
      takesLease sent.op = true →
      sent.params.remove "lease" = sent'.params.remove "lease" → strOf sent.params "lease" = some c →
      strOf sent'.params "lease" = some c' → C c c' → SameRequest C sent sent'

def credentialOf (body : Value) : Option String := strOf body "lease_credential"

/-- Answers that are the same but for the credential of a new lease. -/
inductive SameAnswer (op : String) : Answer → Answer → Prop
  | same (answer : Answer) : SameAnswer op answer answer
  | issued {body body' : Value} : op = "lease.create" →
      body.remove "lease_credential" = body'.remove "lease_credential" →
      (credentialOf body).isSome = (credentialOf body').isSome → SameAnswer op (.ok body) (.ok body')

/-- The credentials that correspond after these answers: two that were issued together do. -/
def grow (C : String → String → Prop) (op : String) (answer answer' : Answer) (c c' : String) : Prop :=
  C c c' ∨ op = "lease.create" ∧ ∃ body body', answer = .ok body ∧ answer' = .ok body' ∧
    credentialOf body = some c ∧ credentialOf body' = some c'

variable {σ τ : Type}

/-- Corresponding requests get the same answers, but for the credentials that are issued, and then correspond too. -/
def Simulation (broker : Broker σ) (broker' : Broker τ) (R : (String → String → Prop) → σ → τ → Prop) : Prop :=
  ∀ C s s' sent sent', R C s s' → SameRequest C sent sent' →
    SameAnswer sent.op (broker s sent).1 (broker' s' sent').1 ∧
    R (grow C sent.op (broker s sent).1 (broker' s' sent').1) (broker s sent).2 (broker' s' sent').2

/-- **The brokers differ in the credentials they issue only**, for as long as corresponding requests are made. -/
def Alike (broker : Broker σ) (s : σ) (broker' : Broker τ) (s' : τ) : Prop :=
  ∃ R, R (fun _ _ => False) s s' ∧ Simulation broker broker' R

/-- The adapters hold corresponding credentials. -/
structure Held (C : String → String → Prop) (a a' : Adapter) : Prop where
  auth : a.auth = a'.auth
  leases : ∀ handle, Option.Rel C (a.leases handle) (a'.leases handle)

theorem Held.mono {C D : String → String → Prop} {a a' : Adapter} (h : Held C a a') (hmono : ∀ c c', C c c' → D c c') :
    Held D a a' where
  auth := h.auth
  leases handle :=
    match a.leases handle, a'.leases handle, h.leases handle with
    | _, _, .some hrel => .some (hmono _ _ hrel)
    | _, _, .none => .none

theorem rel_update {C : String → String → Prop} {l l' : Leases} (h : ∀ handle, Option.Rel C (l handle) (l' handle))
    (handle : String) {o o' : Option String} (ho : Option.Rel C o o') :
    ∀ other, Option.Rel C (Function.update l handle o other) (Function.update l' handle o' other) := by
  intro other
  by_cases hother : other = handle
  · subst hother
    rw [Function.update_self, Function.update_self]
    exact ho
  · rw [Function.update_of_ne hother, Function.update_of_ne hother]
    exact h other

theorem toolOp_lease_create {name : String} (h : toolOp name = some "lease.create") : name = "lease_create" := by
  unfold toolOp at h
  split at h <;> simp_all

theorem takesLease_toolOp {name op : String} (h : toolOp name = some op) : takesLease op = consumesLease name := by
  unfold toolOp at h
  split at h <;> cases h <;> rfl

variable {C : String → String → Prop} {a a' : Adapter}

/-- The arguments are refused in the same words, or sent with corresponding credentials. -/
theorem Held.applyLease (h : Held C a a') (args : Value) :
    (∃ refusal, a.applyLease args = .error refusal ∧ a'.applyLease args = .error refusal) ∨
    ∃ sent sent', a.applyLease args = .ok sent ∧ a'.applyLease args = .ok sent' ∧
      ∀ op auth, takesLease op = true → SameRequest C ⟨op, auth, sent⟩ ⟨op, auth, sent'⟩ := by
  rw [Adapter.applyLease, Adapter.applyLease]
  by_cases hpresent : args.present "lease" = true
  · rw [if_pos hpresent, if_pos hpresent]
    exact .inl ⟨_, rfl, rfl⟩
  · rw [if_neg hpresent, if_neg hpresent]
    cases hid : strOf args "lease_id" with
    | none => exact .inr ⟨args, args, rfl, rfl, fun _ _ _ => .same fun _ => by simpa using hpresent⟩
    | some handle =>
      have hobject := isObject_of_strOf hid
      have hstr : ∀ c : String, strOf ((args.set "lease" (.string c)).remove "lease_id") "lease" = some c := by
        intro c
        rw [strOf_remove_ne (by decide), strOf, Value.get?_set_self hobject]
        rfl
      dsimp only
      match hl : a.leases handle, hl' : a'.leases handle, h.leases handle with
      | _, _, .none => exact .inl ⟨_, rfl, rfl⟩
      | some c, some c', .some hrel =>
        refine .inr ⟨_, _, rfl, rfl, fun op auth hop => .presented rfl rfl hop ?_ (hstr c) (hstr c') hrel⟩
        dsimp only
        rw [Value.remove_comm, Value.remove_set, Value.remove_comm _ "lease_id", Value.remove_set]

/-- The same for the arguments of a call. -/
theorem Held.callArgs (h : Held C a a') (msg : Value) {op : String} (hop : toolOp (toolName msg) = some op) :
    (∃ refusal, Mcp.callArgs a msg = .error refusal ∧ Mcp.callArgs a' msg = .error refusal) ∨
    ∃ args args', Mcp.callArgs a msg = .ok args ∧ Mcp.callArgs a' msg = .ok args' ∧
      ∀ auth, SameRequest C ⟨op, auth, args⟩ ⟨op, auth, args'⟩ := by
  have htakes := takesLease_toolOp hop
  rw [Mcp.callArgs, Mcp.callArgs]
  by_cases hconsumes : consumesLease (toolName msg) = true
  · rw [if_pos hconsumes, if_pos hconsumes]
    rcases h.applyLease (if (toolArgs msg).isObject then toolArgs msg else Value.json []) with hrefused |
      ⟨args, args', hargs, hargs', hsame⟩
    · exact .inl hrefused
    · exact .inr ⟨args, args', hargs, hargs', fun auth => hsame op auth (htakes.trans hconsumes)⟩
  · rw [if_neg hconsumes, if_neg hconsumes]
    refine .inr ⟨_, _, rfl, rfl, fun auth => .same fun hop' => ?_⟩
    exact absurd (htakes.symm.trans hop') hconsumes

section Answers

variable [Json]

/-- The answers are told in the same words, and the credentials that are held correspond after them. -/
theorem Held.answered (h : Held C a a') (id : Value) {name op : String} (hop : toolOp name = some op)
    {answer answer' : Answer} (hsame : SameAnswer op answer answer') :
    (Mcp.answered a id name answer).1 = (Mcp.answered a' id name answer').1 ∧
    Held (grow C op answer answer') (Mcp.answered a id name answer).2 (Mcp.answered a' id name answer').2 := by
  have hgrow : Held (grow C op answer answer') a a' := h.mono fun _ _ => .inl
  cases hsame with
  | same =>
    cases answer with
    | error e => exact ⟨rfl, hgrow⟩
    | ok body =>
      refine ⟨rfl, hgrow.auth, ?_⟩
      dsimp only [Mcp.answered]
      have hkept : ∀ handle, Option.Rel (grow C op (.ok body) (.ok body))
          ((if name = "lease_create" then keepCredential a.leases body else a.leases) handle)
          ((if name = "lease_create" then keepCredential a'.leases body else a'.leases) handle) := by
        by_cases hname : name = "lease_create"
        · subst hname
          cases hop
          rw [if_pos rfl, if_pos rfl, keepCredential, keepCredential]
          cases strOf body "lease_id" with
          | none => exact hgrow.leases
          | some handle =>
            cases hcred : strOf body "lease_credential" with
            | none => exact hgrow.leases
            | some c => exact rel_update hgrow.leases handle (.some (.inr ⟨rfl, body, body, rfl, rfl, hcred, hcred⟩))
        · rw [if_neg hname, if_neg hname]
          exact hgrow.leases
      by_cases hname : name = "lease_revoke"
      · rw [if_pos hname, if_pos hname, dropCredential, dropCredential]
        cases strOf (if name = "lease_create" then body.remove "lease_credential" else body) "lease_id" with
        | none => exact hkept
        | some handle => exact rel_update hkept handle .none
      · rw [if_neg hname, if_neg hname]
        exact hkept
  | @issued body body' hcreate hremove hsome =>
    subst hcreate
    cases toolOp_lease_create hop
    have hid : strOf body "lease_id" = strOf body' "lease_id" := strOf_eq_of_remove_eq (by decide) hremove
    refine ⟨?_, hgrow.auth, ?_⟩
    · simp only [Mcp.answered, if_true, hremove]
    · show ∀ handle, Option.Rel _ (keepCredential a.leases body handle) (keepCredential a'.leases body' handle)
      rw [keepCredential, keepCredential, ← hid]
      cases strOf body "lease_id" with
      | none => exact hgrow.leases
      | some handle =>
        cases hcred : strOf body "lease_credential" with
        | none =>
          have hcred' : strOf body' "lease_credential" = none := by
            have hnone := hsome.symm
            rw [credentialOf, credentialOf, hcred, Option.isSome_none] at hnone
            simpa using hnone
          rw [hcred']
          exact hgrow.leases
        | some c =>
          have hcred' : (strOf body' "lease_credential").isSome = true := by
            have hsome' := hsome.symm
            rwa [credentialOf, credentialOf, hcred, Option.isSome_some] at hsome'
          obtain ⟨c', hc'⟩ := Option.isSome_iff_exists.mp hcred'
          rw [hc']
          exact rel_update hgrow.leases handle (.some (.inr ⟨rfl, body, body', rfl, rfl, hcred, hc'⟩))

/-- A message that calls no tool is answered without looking at the adapter. -/
theorem handleMessage_of_ne {msg : Value} (h : methodOf msg ≠ "tools/call") :
    ∃ resp, ∀ a, handleMessage a msg = .done resp a := by
  unfold handleMessage
  dsimp only
  split
  · exact ⟨_, fun _ => rfl⟩
  · exact ⟨_, fun _ => rfl⟩
  · exact ⟨_, fun _ => rfl⟩
  · rename_i hcall
    exact absurd hcall h
  · exact ⟨_, fun _ => rfl⟩
  · exact ⟨_, fun _ => rfl⟩
  · exact ⟨_, fun _ => rfl⟩
  · exact ⟨_, fun _ => rfl⟩

theorem handleMessage_call (a : Adapter) {msg : Value} (h : methodOf msg = "tools/call") :
    handleMessage a msg = toolsCall a (msg.index "id") msg := by
  unfold handleMessage
  rw [h]
  rfl

/-- A message is answered alike without a request, or with corresponding requests. -/
theorem Held.handleMessage (h : Held C a a') (msg : Value) :
    (∃ resp, Mcp.handleMessage a msg = .done resp a ∧ Mcp.handleMessage a' msg = .done resp a') ∨
    ∃ id name sent sent', Mcp.handleMessage a msg = .ask sent (Mcp.answered a id name) ∧
      Mcp.handleMessage a' msg = .ask sent' (Mcp.answered a' id name) ∧
      toolOp name = some sent.op ∧ SameRequest C sent sent' := by
  by_cases hmethod : methodOf msg = "tools/call"
  · rw [handleMessage_call a hmethod, handleMessage_call a' hmethod, toolsCall, toolsCall]
    cases hop : toolOp (toolName msg) with
    | none => exact .inl ⟨_, rfl, rfl⟩
    | some op =>
      dsimp only
      rcases h.callArgs msg hop with ⟨refusal, hargs, hargs'⟩ | ⟨args, args', hargs, hargs', hsame⟩
      · rw [hargs, hargs']
        exact .inl ⟨_, rfl, rfl⟩
      · rw [hargs, hargs', ← h.auth]
        dsimp only
        cases hauth : a.auth with
        | session credential => exact .inl ⟨_, rfl, rfl⟩
        | none => exact .inr ⟨_, _, _, _, rfl, rfl, hop, hsame _⟩
        | agentToken token => exact .inr ⟨_, _, _, _, rfl, rfl, hop, hsame _⟩
        | passphrase passphrase => exact .inr ⟨_, _, _, _, rfl, rfl, hop, hsame _⟩
  · obtain ⟨resp, hresp⟩ := handleMessage_of_ne hmethod
    exact .inl ⟨resp, hresp a, hresp a'⟩

/-! ## Two sessions -/

/-- The sessions have written the same, and what they hold corresponds. -/
structure Related (R : (String → String → Prop) → σ → τ → Prop) (t : Serving σ) (t' : Serving τ) : Prop where
  out : t.out = t'.out
  held : ∃ C, R C t.broker t'.broker ∧ Held C t.adapter t'.adapter

variable {broker : Broker σ} {broker' : Broker τ} {R : (String → String → Prop) → σ → τ → Prop} {t : Serving σ}
    {t' : Serving τ}

theorem Related.say (h : Related R t t') (resp : Value) : Related R (t.say resp) (t'.say resp) where
  out := congrArg (· ++ line resp) h.out
  held := h.held

theorem Related.message (hsim : Simulation broker broker' R) (h : Related R t t') (msg : Value) :
    Related R (t.message broker msg) (t'.message broker' msg) := by
  obtain ⟨C, hR, hheld⟩ := h.held
  rcases hheld.handleMessage msg with ⟨resp, hresp, hresp'⟩ | ⟨id, name, sent, sent', hask, hask', hop, hsame⟩
  · rw [Serving.message, hresp, Serving.message, hresp']
    exact ⟨congrArg (· ++ _) h.out, C, hR, hheld⟩
  · obtain ⟨hanswer, hafter⟩ := hsim C _ _ sent sent' hR hsame
    obtain ⟨htold, hkept⟩ := hheld.answered id hop hanswer
    rw [Serving.message, hask, Serving.message, hask']
    refine ⟨?_, _, hafter, hkept⟩
    dsimp only
    rw [h.out, htold]

theorem Related.line (hsim : Simulation broker broker' R) (h : Related R t t') (raw : Bytes) :
    Related R (t.line broker raw) (t'.line broker' raw) := by
  rw [Serving.line, Serving.line]
  cases fromUtf8 raw with
  | none => exact h.say _
  | some text =>
    dsimp only
    by_cases hblank : (trim text.toList).isEmpty = true
    · rw [if_pos hblank, if_pos hblank]
      exact h
    · rw [if_neg hblank, if_neg hblank]
      cases Json.parse text with
      | none => exact h.say _
      | some msg => exact h.message hsim msg

theorem Related.serveFrames (hsim : Simulation broker broker' R) :
    ∀ (frames : List Frame) {t : Serving σ} {t' : Serving τ},
    Related R t t' → Related R (Mcp.serveFrames broker t frames) (Mcp.serveFrames broker' t' frames)
  | [], _, _, h => h
  | .eof :: _, _, _, h => h
  | .oversize false :: _, _, _, h => h.say _
  | .oversize true :: rest, _, _, h => Related.serveFrames hsim rest (h.say _)
  | .line raw :: rest, _, _, h => Related.serveFrames hsim rest (h.line hsim raw)

/-- **What is written does not depend on the credentials.** -/
theorem served_alike {s : σ} {s' : τ} (h : Alike broker s broker' s') (token : Option String) (stdin : BufRead) :
    (serve broker token s stdin).out = (serve broker' token s' stdin).out := by
  obtain ⟨R, hR, hsim⟩ := h
  have hstart : Related R (serveStart token s) (serveStart token s') :=
    ⟨rfl, _, hR, rfl, fun _ => .none⟩
  exact (hstart.serveFrames hsim _).out

end Answers

/-! ## Where a credential goes -/

/-- The broker returned a lease with this handle and this credential. -/
def Event.Returns (e : Event) (handle credential : String) : Prop :=
  toolName e.msg = "lease_create" ∧ ∃ sent body, e.call = some (sent, .ok body) ∧
    strOf body "lease_id" = some handle ∧ strOf body "lease_credential" = some credential

/-- The broker answered that the lease is revoked. -/
def Event.Revokes (e : Event) (handle : String) : Prop :=
  toolName e.msg = "lease_revoke" ∧ ∃ sent body, e.call = some (sent, .ok body) ∧ strOf body "lease_id" = some handle

/-- The credential is the last that was returned for the handle, and was not revoked after. -/
def LastReturned (log : List Event) (handle credential : String) : Prop :=
  ∃ before e after, log = before ++ e :: after ∧ e.Returns handle credential ∧
    ∀ e' ∈ after, ¬ e'.Revokes handle ∧ ∀ c, ¬ e'.Returns handle c

/-- What the adapter holds after a message. -/
def Event.keep (leases : Leases) (e : Event) : Leases :=
  match e.call with
  | some (_, .ok body) =>
    if toolName e.msg = "lease_create" then keepCredential leases body
    else if toolName e.msg = "lease_revoke" then dropCredential leases body
    else leases
  | _ => leases

/-- A message that returns or revokes the lease of a handle decides what is held for it; any other leaves it. -/
theorem Event.keep_returns {e : Event} {handle c : String} (h : e.Returns handle c) (leases : Leases) :
    e.keep leases handle = some c := by
  obtain ⟨hname, sent, body, hcall, hid, hcred⟩ := h
  simp only [Event.keep, hcall, hname, if_true, keepCredential, hid, hcred, Function.update_self]

theorem Event.keep_revokes {e : Event} {handle : String} (h : e.Revokes handle) (leases : Leases) :
    e.keep leases handle = none := by
  obtain ⟨hname, sent, body, hcall, hid⟩ := h
  have hne : ¬ "lease_revoke" = "lease_create" := by decide
  simp only [Event.keep, hcall, hname, if_neg hne, if_true, dropCredential, hid, Function.update_self]

theorem Event.keep_of_not {e : Event} {handle : String} (hrevokes : ¬ e.Revokes handle)
    (hreturns : ∀ c, ¬ e.Returns handle c) (leases : Leases) : e.keep leases handle = leases handle := by
  rw [Event.keep]
  rcases hcall : e.call with - | ⟨sent, - | body⟩
  · rfl
  · rfl
  · dsimp only
    by_cases hcreate : toolName e.msg = "lease_create"
    · rw [if_pos hcreate, keepCredential]
      rcases hid : strOf body "lease_id" with - | other
      · rfl
      rcases hcred : strOf body "lease_credential" with - | c
      · rfl
      have hne : handle ≠ other := fun heq => hreturns c ⟨hcreate, sent, body, hcall, heq ▸ hid, hcred⟩
      dsimp only
      rw [Function.update_of_ne hne]
    · rw [if_neg hcreate]
      by_cases hrevoke : toolName e.msg = "lease_revoke"
      · rw [if_pos hrevoke, dropCredential]
        rcases hid : strOf body "lease_id" with - | other
        · rfl
        have hne : handle ≠ other := fun heq => hrevokes ⟨hrevoke, sent, body, hcall, heq ▸ hid⟩
        dsimp only
        rw [Function.update_of_ne hne]
      · rw [if_neg hrevoke]

/-- What the adapter holds after these messages. -/
def held (log : List Event) : Leases := log.foldl Event.keep fun _ => none

theorem held_concat (log : List Event) (e : Event) : held (log ++ [e]) = e.keep (held log) := by
  rw [held, List.foldl_concat, held]

/-- **The adapter holds the credential that was last returned.** -/
theorem lastReturned_of_held {handle c : String} (log : List Event) : held log handle = some c →
    LastReturned log handle c := by
  induction log using List.reverseRecOn with
  | nil => exact fun h => nomatch h
  | append_singleton log e ih =>
    intro h
    rw [held_concat] at h
    by_cases hrevokes : e.Revokes handle
    · rw [Event.keep_revokes hrevokes] at h
      cases h
    by_cases hreturns : ∃ c', e.Returns handle c'
    · obtain ⟨c', hreturns⟩ := hreturns
      rw [Event.keep_returns hreturns] at h
      cases h
      exact ⟨log, e, [], rfl, hreturns, fun _ hmem => nomatch hmem⟩
    · have hnot : ∀ c', ¬ e.Returns handle c' := fun c' hc' => hreturns ⟨c', hc'⟩
      rw [Event.keep_of_not hrevokes hnot] at h
      obtain ⟨before, e₀, after, rfl, he₀, hafter⟩ := ih h
      refine ⟨before, e₀, after ++ [e], by rw [List.append_assoc, List.cons_append], he₀, fun e' he' => ?_⟩
      rcases List.mem_append.mp he' with he' | he'
      · exact hafter e' he'
      · rw [List.mem_singleton.mp he']
        exact ⟨hrevokes, hnot⟩

/-- What one message may send, when these credentials are held: a call that names a handle is sent with its credential.
-/
def Narrowed (leases : Leases) (e : Event) : Prop :=
  methodOf e.msg = "tools/call" → consumesLease (toolName e.msg) = true →
    ((toolArgs e.msg).present "lease" = true → e.call = none) ∧
    ∀ handle, strOf (toolArgs e.msg) "lease_id" = some handle → e.call = none ∨
      ∃ sent answer c, e.call = some (sent, answer) ∧ leases handle = some c ∧
        sent.params = ((toolArgs e.msg).set "lease" (.string c)).remove "lease_id"

/-- The adapter follows the log, and every message of the log was narrowed by what was held before it. -/
structure Served (t : Serving σ) : Prop where
  leases : t.adapter.leases = held t.log
  narrowed : ∀ before e after, t.log = before ++ e :: after → Narrowed (held before) e

theorem narrowed_concat {log : List Event} {e : Event} (h : ∀ before x after, log = before ++ x :: after →
    Narrowed (held before) x)
    (he : Narrowed (held log) e) : ∀ before x after, log ++ [e] = before ++ x :: after → Narrowed (held before) x := by
  intro before x after heq
  rcases List.eq_nil_or_concat after with rfl | ⟨after', y, rfl⟩
  · obtain ⟨hlog, hx⟩ := List.append_inj' heq rfl
    cases hx
    exact hlog ▸ he
  · have heq' : log ++ [e] = (before ++ x :: after') ++ [y] := by rw [heq]; simp
    exact h before x after' (List.append_inj' heq' rfl).1

/-- The arguments of a call that can be narrowed carry no credential of the caller, and the one held for their handle.
-/
theorem callArgs_eq_ok {a : Adapter} {msg args : Value} (h : callArgs a msg = .ok args)
    (hconsumes : consumesLease (toolName msg) = true) :
    ¬ (toolArgs msg).present "lease" = true ∧ ∀ handle, strOf (toolArgs msg) "lease_id" = some handle →
      ∃ c, a.leases handle = some c ∧ args = ((toolArgs msg).set "lease" (.string c)).remove "lease_id" := by
  rw [callArgs, if_pos hconsumes] at h
  by_cases hobject : (toolArgs msg).isObject = true
  · rw [if_pos hobject, Adapter.applyLease] at h
    split at h
    · cases h
    · rename_i hpresent
      refine ⟨hpresent, fun handle hid => ?_⟩
      rw [hid] at h
      dsimp only at h
      cases hc : a.leases handle with
      | none =>
        rw [hc] at h
        cases h
      | some c =>
        rw [hc] at h
        cases h
        exact ⟨c, rfl, rfl⟩
  · refine ⟨fun hpresent => hobject ?_, fun handle hid => absurd ?_ hobject⟩
    · cases hargs : toolArgs msg with
      | object entries => rfl
      | _ =>
        rw [hargs] at hpresent
        cases hpresent
    · exact isObject_of_strOf hid

section Served

variable [Json]

/-- What the adapter holds once the broker has answered. -/
theorem answered_leases (a : Adapter) (id : Value) {msg : Value} (sent : Sent) (answer : Answer) :
    (answered a id (toolName msg) answer).2.leases = Event.keep a.leases ⟨msg, some (sent, answer)⟩ := by
  cases answer with
  | error e => rfl
  | ok body =>
    by_cases hcreate : toolName msg = "lease_create"
    · have hne : ¬ "lease_create" = "lease_revoke" := by decide
      simp only [answered, Event.keep, hcreate, if_true, if_neg hne]
    · simp only [answered, Event.keep, if_neg hcreate]

/-- A message sends nothing, or what its arguments become. -/
theorem handleMessage_cases (a : Adapter) (msg : Value) :
    (∃ resp, handleMessage a msg = .done resp a) ∨
    ∃ sent, handleMessage a msg = .ask sent (answered a (msg.index "id") (toolName msg)) ∧
      callArgs a msg = .ok sent.params := by
  by_cases hmethod : methodOf msg = "tools/call"
  · rw [handleMessage_call a hmethod, toolsCall]
    cases toolOp (toolName msg) with
    | none => exact .inl ⟨_, rfl⟩
    | some op =>
      dsimp only
      cases hargs : callArgs a msg with
      | error refusal => exact .inl ⟨_, rfl⟩
      | ok args =>
        dsimp only
        cases a.auth with
        | session credential => exact .inl ⟨_, rfl⟩
        | none => exact .inr ⟨_, rfl, rfl⟩
        | agentToken token => exact .inr ⟨_, rfl, rfl⟩
        | passphrase passphrase => exact .inr ⟨_, rfl, rfl⟩
  · obtain ⟨resp, hresp⟩ := handleMessage_of_ne hmethod
    exact .inl ⟨resp, hresp a⟩

theorem Served.message {broker : Broker σ} {t : Serving σ} (h : Served t) (msg : Value) :
    Served (t.message broker msg) := by
  rcases handleMessage_cases t.adapter msg with ⟨resp, hdone⟩ | ⟨sent, hask, hargs⟩
  · rw [Serving.message, hdone]
    refine ⟨?_, narrowed_concat h.narrowed fun _ _ => ⟨fun _ => rfl, fun _ _ => .inl rfl⟩⟩
    rw [held_concat, ← h.leases]
    rfl
  · rw [Serving.message, hask]
    refine ⟨?_, narrowed_concat h.narrowed fun _ hconsumes => ?_⟩
    · rw [held_concat, ← h.leases]
      exact answered_leases t.adapter _ sent _
    · obtain ⟨hpresent, hhandle⟩ := callArgs_eq_ok hargs hconsumes
      refine ⟨fun hlease => absurd hlease hpresent, fun handle hid => .inr ?_⟩
      obtain ⟨c, hc, hparams⟩ := hhandle handle hid
      exact ⟨sent, _, c, rfl, h.leases ▸ hc, hparams⟩

theorem Served.say {t : Serving σ} (h : Served t) (resp : Value) : Served (t.say resp) := ⟨h.leases, h.narrowed⟩

theorem Served.line {broker : Broker σ} {t : Serving σ} (h : Served t) (raw : Bytes) : Served (t.line broker raw) := by
  rw [Serving.line]
  split
  · exact h.say _
  · split
    · exact h
    · split
      · exact h.say _
      · exact h.message _

theorem Served.serveFrames {broker : Broker σ} : ∀ (frames : List Frame) {t : Serving σ}, Served t →
    Served (Mcp.serveFrames broker t frames)
  | [], _, h => h
  | .eof :: _, _, h => h
  | .oversize false :: _, _, h => h.say _
  | .oversize true :: rest, _, h => Served.serveFrames rest (h.say _)
  | .line raw :: rest, _, h => Served.serveFrames rest (h.line raw)

/-- **Every message of a session is narrowed by what the answers before it say.** -/
theorem served (broker : Broker σ) (token : Option String) (s : σ) (stdin : BufRead) :
    Served (serve broker token s stdin) := by
  have hstart : Served (serveStart token s) := by
    refine ⟨rfl, fun before e after heq => ?_⟩
    simp [serveStart] at heq
  exact hstart.serveFrames _

/-- **The adapter keeps lease credentials out of its output and never widens a call.** Brokers that differ in the
credentials they issue only lead to the same output. And in any session a call that can be narrowed sends nothing if the
caller passes a credential, and if it names a handle it is sent with the credential last returned for it and without the
handle, or not at all. -/
theorem credentials_stay {broker : Broker σ} {broker' : Broker τ} {s : σ} {s' : τ} (h : Alike broker s broker' s') :
    (∀ token stdin, (serve broker token s stdin).out = (serve broker' token s' stdin).out) ∧
    ∀ (ρ : Type) (broker : Broker ρ) s token stdin before e after,
      (serve broker token s stdin).log = before ++ e :: after →
      methodOf e.msg = "tools/call" → consumesLease (toolName e.msg) = true →
      ((toolArgs e.msg).present "lease" = true → e.call = none) ∧
      ∀ handle, strOf (toolArgs e.msg) "lease_id" = some handle → e.call = none ∨
        ∃ sent answer c, e.call = some (sent, answer) ∧ LastReturned before handle c ∧
          sent.params.get? "lease" = some (.string c) ∧ sent.params.get? "lease_id" = none ∧
          ∀ key, key ≠ "lease" → key ≠ "lease_id" → sent.params.get? key = (toolArgs e.msg).get? key := by
  refine ⟨served_alike h, fun ρ broker s token stdin before e after hlog hmethod hconsumes => ?_⟩
  obtain ⟨hpresent, hhandle⟩ := (served broker token s stdin).narrowed before e after hlog hmethod hconsumes
  refine ⟨hpresent, fun handle hid => ?_⟩
  rcases hhandle handle hid with hnone | ⟨sent, answer, c, hcall, hc, hparams⟩
  · exact .inl hnone
  · have hobject := isObject_of_strOf hid
    refine .inr ⟨sent, answer, c, hcall, lastReturned_of_held before hc, ?_, ?_, fun key hlease hleaseId => ?_⟩
    · rw [hparams, Value.get?_remove_ne (by decide), Value.get?_set_self hobject]
    · rw [hparams, Value.get?_remove_self]
    · rw [hparams, Value.get?_remove_ne hleaseId, Value.get?_set_ne hlease]

end Served

/-- A broker that issues one credential, and lists secrets under it. -/
def issuedLease (credential : String) : Value :=
  Value.json [("lease_id", .string "h"), ("lease_credential", .string credential)]

theorem issuedLease_eq (c : String) :
    issuedLease c = .object [("lease_credential", .string c), ("lease_id", .string "h")] := by
  have hlt : "lease_credential" < "lease_id" := by decide +kernel
  rw [issuedLease, Value.json, List.foldl_cons, List.foldl_cons, List.foldl_nil, Value.insertEntry]
  exact congrArg Value.object (Value.insertEntry_of_lt hlt _ _ _)

theorem credentialOf_issuedLease (c : String) : credentialOf (issuedLease c) = some c := by
  simp [credentialOf, strOf, issuedLease_eq, Value.get?, Value.asStr]

theorem remove_issuedLease (c : String) :
    (issuedLease c).remove "lease_credential" = .object [("lease_id", .string "h")] := by
  have hself : ("lease_credential" != "lease_credential") = false := bne_self_eq_false' _
  have hne : ("lease_id" != "lease_credential") = true := by decide +kernel
  rw [issuedLease_eq, Value.remove]
  simp only [List.filter_cons, hself, hne, List.filter_nil, if_true]
  rfl

def issuing (credential : String) : Broker Unit := fun _ sent =>
  (if sent.op = "lease.create" then .ok (issuedLease credential)
    else if sent.op = "secrets.list" ∧ strOf sent.params "lease" = some credential then .ok (.array [])
    else .error (.of "E_LEASE_EXPIRED" "lease expired or invalid"), ())

theorem alike_issuing (c c' : String) : Alike (issuing c) () (issuing c') () := by
  refine ⟨fun C _ _ => ∀ x y, C x y → x = c ∧ y = c', fun _ _ h => h.elim, ?_⟩
  intro C _ _ sent sent' hC hsame
  cases hsame with
  | same hlease =>
    by_cases hcreate : sent.op = "lease.create"
    · simp only [issuing, if_pos hcreate]
      refine ⟨.issued hcreate ?_ ?_, fun x y hgrow => ?_⟩
      · rw [remove_issuedLease, remove_issuedLease]
      · rw [credentialOf_issuedLease, credentialOf_issuedLease]
        rfl
      · rcases hgrow with hxy | ⟨-, body, body', hbody, hbody', hx, hy⟩
        · exact hC x y hxy
        · cases hbody
          cases hbody'
          rw [credentialOf_issuedLease] at hx hy
          cases hx
          cases hy
          exact ⟨rfl, rfl⟩
    · have hno : ∀ d, ¬ (sent.op = "secrets.list" ∧ strOf sent.params "lease" = some d) := by
        rintro d ⟨hlist, hd⟩
        have hpresent := hlease (by simp [takesLease, hlist])
        obtain ⟨v, hv, hv'⟩ := Option.bind_eq_some_iff.mp hd
        rw [Value.present, hv] at hpresent
        cases v <;> simp_all [Value.isNull, Value.asStr]
      simp only [issuing, if_neg hcreate, if_neg (hno _)]
      exact ⟨.same _, fun x y hgrow => hC x y (hgrow.elim id fun h => absurd h.1 hcreate)⟩
  | presented hop hauth htakes hparams hd hd' hdd' =>
    obtain ⟨hc, hc'⟩ := hC _ _ hdd'
    rw [hc] at hd
    rw [hc'] at hd'
    have hcreate : ¬ sent.op = "lease.create" := by
      intro heq
      rw [heq] at htakes
      exact absurd htakes (by decide)
    have hanswer : (issuing c () sent).1 = (issuing c' () sent').1 := by
      simp only [issuing, ← hop, if_neg hcreate, hd, hd', and_true]
    rw [hanswer]
    exact ⟨.same _, fun x y hgrow => hC x y (hgrow.elim id fun h => absurd h.1 hcreate)⟩

/-- Compact JSON. -/
def quote (s : String) : String :=
  "\"" ++ String.ofList (s.toList.flatMap fun c => if c = '\x22' ∨ c = '\x5c' then ['\x5c', c] else [c]) ++ "\""

mutual

def compact : Value → String
  | .null => "null"
  | .bool b => toString b
  | .posInt n => toString n.toNat
  | .negInt n => toString n
  | .float text => text
  | .string s => quote s
  | .array items => "[" ++ String.intercalate "," (compactItems items) ++ "]"
  | .object entries => "\x7b" ++ String.intercalate "," (compactEntries entries) ++ "\x7d"

def compactItems : List Value → List String
  | [] => []
  | v :: rest => compact v :: compactItems rest

def compactEntries : List (String × Value) → List String
  | [] => []
  | e :: rest => compactEntry e :: compactEntries rest

def compactEntry : String × Value → String
  | (key, v) => quote key ++ ":" ++ compact v

end

/-- A call of a tool. -/
def callMessage (name : String) (args : List (String × Value)) : Value :=
  Value.json [("id", .posInt 1), ("method", .string "tools/call"),
    ("params", Value.json [("name", .string name), ("arguments", Value.json args)])]

def createLease : Value := callMessage "lease_create" [("project", .string "p"), ("ops", .string "read"),
    ("ttl_secs", .posInt 60)]

def listUnderLease : Value := callMessage "list_secrets" [("project", .string "p"), ("lease_id", .string "h")]

/-- The texts of two messages. -/
@[reducible] def twoMessages : Json where
  parse text := [createLease, listUnderLease].find? fun v => compact v = text
  render := compact

/-- A lease is created and used; the two brokers issue different credentials for it. -/
theorem credentials_stay_issuing : Alike (issuing "7f") () (issuing "c0") () ∧
    letI := twoMessages
    (serve (issuing "7f") (some "t") () [utf8 (compact createLease) ++ [lf], utf8 (compact listUnderLease)]).out =
      (serve (issuing "c0") (some "t") () [utf8 (compact createLease) ++ [lf], utf8 (compact listUnderLease)]).out :=
  letI := twoMessages
  ⟨alike_issuing _ _, (credentials_stay (alike_issuing _ _)).1 _ _⟩

end Mcp
end SecretsVault
