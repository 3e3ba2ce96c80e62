import SecretsVault.Handshake

/-!
# The parts of a client

A client is taken apart where it writes, reads and asks, so that others may move in between.

- `connectWith_eq`: the parts are those of the client.
- `begin_ends`, `judge_eq_ok`, `settle_ends`: where each part may end. Before the reply there is a hello at most; who is
  let in has signed the nonce, and its key is pinned or shown to the human; a pin is written when `yes` was typed.
- `honest_broker_is_accepted_iff`: when a client lets in the daemon of its socket.
-/

namespace SecretsVault.Trust

open Lib Lib.Prog Mcp Fdpass
open Value (json)

section
variable [Crypto] [Json] [Ed25519] [RequestJson] [ResponseJson]

/-! ## The parts of a client -/

/-- Reach the broker and send it a nonce. -/
def begin (opts : ConnectOptions) : Client (HelloNonce × String) := do
  reach (.brokerUntrusted ("server identity could not be verified; refusing to send credentials " ++
    "(no svault daemon holds the instance lock for this socket)"))
  if opts.trust ≠ .interactive ∧ opts.trustFingerprint.isSome then .fail (.brokerUntrusted
    ("refusing to pin a broker identity non-interactively; refusing to send credentials " ++
      "(a human must pin once at a TTY: run any `svault` command interactively, " ++
      "verify the fingerprint out-of-band, answer `yes`)"))
  else greet

def check (socket : Path) (opts : ConnectOptions) (clientNonce : HelloNonce) (id : String) : Client Hello :=
  if opts.trust ≠ .interactive then checkStrict socket clientNonce id else checkInteractive socket clientNonce id

/-- Read the reply and decide. -/
def judge (socket : Path) (opts : ConnectOptions) (clientNonce : HelloNonce) (id : String) :
    Client (Hello × PinDecision) := do
  let h ← check socket opts clientNonce id
  let d ← decidePin socket h.key true opts.trustFingerprint (opts.trust = .interactive)
  pure (h, d)

/-- Ask the human, where the decision is theirs. -/
def settle (socket : Path) (opts : ConnectOptions) (h : Hello) : PinDecision → Client Unit
  | .proceed _ => pure ()
  | .needHumanConfirm fp => do
    confirmBrokerPin fp opts.trustFingerprint
    storePin socket h.key

omit [Ed25519] [RequestJson] [ResponseJson] in
/-- What a decision leaves as it is, and when it is which. -/
theorem decidePin_eq_ok {socket : Path} {k : Key} {c c' : Connection} {d : PinDecision} {fp : Option Key}
    {interactive : Bool} (h : (decidePin socket k true fp interactive).run c = (.ok d, c')) :
    (d = .proceed k ∧ (loadPin socket).run c = (.ok (some k), c')) ∨
      d = .needHumanConfirm k ∧ interactive = true ∧ (∀ f, fp = some f → f = k) ∧
      (loadPin socket).run c = (.ok none, c') := by
  unfold decidePin at h
  obtain ⟨pinned, c₁, hload, h⟩ := bind_eq_ok h
  cases pinned with
  | some pinned =>
    dsimp only at h
    split at h
    · rename_i hk
      cases h
      exact Or.inl ⟨by rw [hk.2], by rw [hload, hk.2]⟩
    · cases h
  | none =>
    simp only [not_true_eq_false, if_false] at h
    split at h
    · cases h
    · rename_i hfp
      split at h
      · cases h
      · rename_i hinteractive
        cases h
        refine Or.inr ⟨rfl, by simpa using hinteractive, fun f hf => ?_, hload⟩
        subst hf
        simpa using hfp

/-- The client is its parts. -/
theorem connectWith_eq (socket : Path) (opts : ConnectOptions) :
    connectWith socket opts = begin opts >>= fun (clientNonce, id) => judge socket opts clientNonce id >>= fun (h, d) =>
      settle socket opts h d := by
  unfold connectWith begin
  rw [Prog.bind_assoc]
  apply bind_congr
  intro _
  unfold handshake judge check
  by_cases hmode : opts.trust = .interactive
  · simp only [hmode, ne_eq, not_true_eq_false, if_false, false_and, decide_true]
    unfold handshakeInteractive
    apply bind_congr
    rintro ⟨clientNonce, id⟩
    simp only [Prog.bind_assoc]
    apply bind_congr
    intro h
    apply bind_congr
    intro d
    cases d <;> rfl
  · cases hfp : opts.trustFingerprint with
    | some fp => simp only [hmode, ne_eq, not_false_eq_true, if_true, Option.isSome_some, and_self, fail_bind]
    | none =>
      simp only [hmode, ne_eq, not_false_eq_true, if_true, Option.isSome_none, Bool.false_eq_true, and_false, if_false,
        decide_false]
      unfold handshakeStrict
      apply bind_congr
      rintro ⟨clientNonce, id⟩
      simp only [Prog.bind_assoc]
      apply bind_congr
      intro h
      apply run_bind_congr
      intro d c c' hd
      rcases decidePin_eq_ok hd with ⟨rfl, -⟩ | ⟨-, hinteractive, -⟩
      · rfl
      · cases hinteractive

/-! ## Where the parts may end -/

end

/-- What a decision is made by, and what its calls meet. -/
structure Setting where
  env : Environment
  files : Path → Option Bytes
  hidden : Bool
  reads : Option IoError
  dirs : Option IoError
  saves : Option IoError
  tty : Option (Except IoError String)

def Connection.setting (c : Connection) : Setting := ⟨c.env, c.files, c.hidden, c.reads, c.dirs, c.saves, c.tty⟩

/-- What was written, while the pins stay as they are. -/
structure Writes (c c' : Connection) (reqs : List WireRequest) : Prop where
  setting : c'.setting = c.setting
  sent : c'.sent = c.sent ++ reqs

theorem Writes.env {c c' : Connection} {reqs : List WireRequest} (h : Writes c c' reqs) : c'.env = c.env :=
  congrArg Setting.env h.setting

theorem Writes.files {c c' : Connection} {reqs : List WireRequest} (h : Writes c c' reqs) : c'.files = c.files :=
  congrArg Setting.files h.setting

theorem Writes.refl (c : Connection) : Writes c c [] := ⟨rfl, (List.append_nil _).symm⟩

theorem Writes.trans {a b c : Connection} {reqs reqs' : List WireRequest} (h : Writes a b reqs)
    (h' : Writes b c reqs') : Writes a c (reqs ++ reqs') :=
  ⟨h'.setting.trans h.setting, by rw [h'.sent, h.sent, List.append_assoc]⟩

/-- Nothing is written. -/
abbrev Silent (c c' : Connection) : Prop := Writes c c' []

instance : IsPreorder Connection Silent := { refl := Writes.refl, trans := fun _ _ _ h h' => h.trans h' }

theorem randomBytes_ends (n : Nat) (c : Connection) : Ends (randomBytes n) c fun _ c' => Writes c c' [] :=
  ⟨rfl, (List.append_nil _).symm⟩

theorem requestId_ends (c : Connection) : Ends requestId c fun _ c' => Writes c c' [] :=
  (randomBytes_ends 8 c).bind (fun _ _ h => h) (fun _ _ h => h) fun _ h => h

/-- At most a hello is written; where a nonce is returned, it is the one in it. -/
structure Greets (c c' : Connection) (o : Outcome VaultError (HelloNonce × String)) : Prop where
  writes : Writes c c' [] ∨ ∃ id n, Writes c c' [helloRequest id n]
  told : ∀ n id, o = .ok (n, id) → Writes c c' [helloRequest id n]

theorem Writes.greets {c c' : Connection} {o : Outcome VaultError (HelloNonce × String)} (h : Writes c c' [])
    (ho : ∀ p, o ≠ .ok p) : Greets c c' o := ⟨Or.inl h, fun _ _ heq => absurd heq (ho _)⟩

section Wire
variable [RequestJson]

/-- A request is written, or it is not, or not as a whole. -/
theorem send_ends (req : WireRequest) (c : Connection) : Ends (send req) c fun o c' =>
    (Writes c c' [] ∨ Writes c c' [req]) ∧ (o = .ok () → Writes c c' [req]) := by
  rw [Ends, send, run_step]
  cases RequestJson.toString req with
  | none => exact ⟨Or.inl (.refl c), fun h => by cases h⟩
  | some text =>
    have h : Writes c { c with sent := c.sent ++ [req], sends := fun i => c.sends (i + 1) } [req] := ⟨rfl, rfl⟩
    exact ⟨Or.inr h, fun _ => h⟩

theorem greet_ends (c : Connection) : Ends greet c fun o c' => Greets c c' o := by
  unfold greet
  refine (randomBytes_ends NONCE_LEN c).bind (fun n c₁ h₁ => ?_) (fun e c₁ h₁ => h₁.greets (by simp))
    fun c₁ h₁ => h₁.greets (by simp)
  refine (requestId_ends c₁).bind (fun id c₂ h₂ => ?_) (fun e c₂ h₂ => (h₁.trans h₂).greets (by simp))
    fun c₂ h₂ => (h₁.trans h₂).greets (by simp)
  have hwrites : ∀ c₃, Writes c₂ c₃ [] ∨ Writes c₂ c₃ [helloRequest id n] →
      Writes c c₃ [] ∨ ∃ id n, Writes c c₃ [helloRequest id n] := by
    intro c₃ h
    rcases h with h | h
    · exact Or.inl ((h₁.trans h₂).trans h)
    · exact Or.inr ⟨id, n, (h₁.trans h₂).trans h⟩
  refine (send_ends (helloRequest id n) c₂).bind (fun _ c₃ h₃ => ⟨hwrites c₃ h₃.1, fun n' id' heq => ?_⟩)
    (fun e c₃ h₃ => ⟨hwrites c₃ h₃.1, fun _ _ h => by cases h⟩) fun c₃ h₃ => ⟨hwrites c₃ h₃.1, fun _ _ h => by cases h⟩
  cases heq
  exact (h₁.trans h₂).trans (h₃.2 rfl)

/-- Nothing but a hello is written before the reply. -/
theorem begin_ends (opts : ConnectOptions) (c : Connection) : Ends (begin opts) c fun o c' => Greets c c' o := by
  have hreach : ∀ refused, Ends (reach refused) c fun _ c' => c' = c := by
    intro refused
    unfold reach
    rw [Ends, run_get_bind]
    cases c.connects with
    | some e => rfl
    | none =>
      change ((if c.verified then pure () else .fail refused : Client Unit).run c).2 = c
      split <;> rfl
  unfold begin
  refine (hreach _).bind (fun _ c₁ h₁ => ?_) (fun e c₁ h₁ => ?_) fun c₁ h₁ => ?_
  all_goals subst h₁
  · split
    · exact (Writes.refl _).greets (by simp)
    · exact greet_ends _
  · exact (Writes.refl _).greets (by simp)
  · exact (Writes.refl _).greets (by simp)

end Wire

/-! ### The reply -/

/-- A key is pinned for a socket. -/
def Pinned [Crypto] [Json] (files : Path → Option Bytes) (env : Environment) (socket : Path) (key : Key) : Prop :=
  ∃ path bytes, pinPath env socket = .ok path ∧ files path = some bytes ∧
    readPin (canonicalSocketPath env.cwd socket) bytes = .ok key

/-- No key is pinned for a socket. -/
def Unpinned [Crypto] (files : Path → Option Bytes) (env : Environment) (socket : Path) : Prop :=
  ∃ path, pinPath env socket = .ok path ∧ files path = none

/-- The signature is in what the socket delivers. -/
def Connection.Presents [ResponseJson] (c : Connection) (signature : FixedBytes 64) : Prop :=
  ∃ line resp result, (readLine c.stops c.incoming).1 = .ok line ∧ parseResponse line = .ok resp ∧
    resp.result = some result ∧ hexField 64 result "signature" = some signature

theorem lift_eq_ok {α : Type} {r : Except VaultError α} {a : α} {c c' : Connection}
    (h : (.lift (.ofExcept r) : Client α).run c = (.ok a, c')) : r = .ok a ∧ c' = c :=
  ⟨Outcome.ofExcept_eq_ok (congrArg Prod.fst h), (congrArg Prod.snd h).symm⟩

section Reply
variable [Crypto] [Json]

theorem loadPin_eq_ok {socket : Path} {c c' : Connection} {pinned : Option Key}
    (h : (loadPin socket).run c = (.ok pinned, c')) : c' = c ∧ (∀ k, pinned = some k → Pinned c.files c.env socket k) ∧
      (pinned = none → c.hidden = false → Unpinned c.files c.env socket) := by
  unfold loadPin at h
  rw [run_get_bind] at h
  obtain ⟨path, c₁, hpath, hfound⟩ := bind_eq_ok h
  obtain ⟨hpath, rfl⟩ := lift_eq_ok hpath
  split at hfound
  · rename_i hnone
    cases hfound
    refine ⟨rfl, (fun k hk => by cases hk), fun _ hh => ⟨path, hpath, ?_⟩⟩
    rwa [hh, if_neg (by simp)] at hnone
  · rename_i bytes hbytes
    have hfile : c₁.files path = some bytes := by
      split at hbytes
      · cases hbytes
      · exact hbytes
    obtain ⟨_, c₂, hread, hrest⟩ := bind_eq_ok hfound
    obtain ⟨-, rfl⟩ := lift_eq_ok hread
    obtain ⟨key, c₃, hkey, hdone⟩ := bind_eq_ok hrest
    obtain ⟨hkey, rfl⟩ := lift_eq_ok hkey
    cases hdone
    refine ⟨rfl, fun k hk => ?_, (fun hk => by cases hk)⟩
    cases hk
    exact ⟨path, bytes, hpath, hfile, hkey⟩

end Reply

section Admission
variable [Ed25519] [ResponseJson]

omit [Ed25519] [ResponseJson] in
theorem parseHello_eq_ok {n : HelloNonce} {result : Value} {h : Hello} (hp : parseHello n result = .ok h) :
    h.clientNonce = n ∧ hexField 64 result "signature" = some h.signature := by
  unfold parseHello at hp
  cases hkey : hexField 32 result "public_key" with
  | none => rw [hkey] at hp; cases hp
  | some key =>
    cases hnonce : hexField NONCE_LEN result "server_nonce" with
    | none => rw [hkey, hnonce] at hp; cases hp
    | some serverNonce =>
      cases hsig : hexField 64 result "signature" with
      | none => rw [hkey, hnonce, hsig] at hp; cases hp
      | some signature =>
        rw [hkey, hnonce, hsig] at hp
        cases hp
        exact ⟨rfl, rfl⟩

omit [Ed25519] [ResponseJson] in
theorem helloResult_eq_ok {refused : Option WireError → String} {resp : WireResponse} {result : Value}
    (h : helloResult refused resp = .ok result) : resp.ok = true ∧ resp.result = some result := by
  unfold helloResult at h
  split at h
  · rename_i hok hresult
    cases h
    exact ⟨hok, hresult⟩
  · cases h
  · cases h

omit [Ed25519] in
theorem readResponse_eq_ok {c c' : Connection} {resp : WireResponse} (h : readResponse.run c = (.ok resp, c')) :
    Writes c c' [] ∧ ∃ line, (readLine c.stops c.incoming).1 = .ok line ∧ parseResponse line = .ok resp := by
  rw [readResponse, run_step] at h
  have hparse := Outcome.ofExcept_eq_ok (congrArg Prod.fst h)
  have hc : c' = { c with incoming := _ } := (congrArg Prod.snd h).symm
  refine ⟨by rw [hc]; exact ⟨rfl, (List.append_nil _).symm⟩, ?_⟩
  cases hline : (readLine c.stops c.incoming).1 with
  | error e =>
    rw [hline] at hparse
    cases hparse
  | ok line =>
    rw [hline] at hparse
    exact ⟨line, rfl, hparse⟩

/-- A signature that was accepted is one that was delivered. -/
theorem checkReply_eq_ok {readError badSignature : VaultError → VaultError} {refused : Option WireError → String}
    {socket : Path} {n : HelloNonce} {id : String} {c c' : Connection} {h : Hello}
    (hr : (checkReply readError refused badSignature socket n id).run c = (.ok h, c')) :
    Writes c c' [] ∧ h.clientNonce = n ∧ verifyHello (canonicalSocketPath c.env.cwd socket) h = .ok () ∧
      c.Presents h.signature := by
  unfold checkReply at hr
  obtain ⟨resp, c₁, hresp, hchecked⟩ := bind_eq_ok hr
  obtain ⟨hwrites, line, hline, hparse⟩ := readResponse_eq_ok (mapError_eq_ok hresp)
  split at hchecked
  · cases hchecked
  · obtain ⟨result, c₂, hresult, hparsed⟩ := bind_eq_ok hchecked
    obtain ⟨hresult, hc₂⟩ := lift_eq_ok hresult
    obtain ⟨h', c₃, hh, hgot⟩ := bind_eq_ok hparsed
    obtain ⟨hh, hc₃⟩ := lift_eq_ok hh
    rw [run_get_bind] at hgot
    obtain ⟨_, c₄, hlift, hdone⟩ := bind_eq_ok hgot
    obtain ⟨hverified, hc₄⟩ := lift_eq_ok hlift
    cases hdone
    obtain ⟨hnonce, hsig⟩ := parseHello_eq_ok hh
    rw [hc₃, hc₂, hwrites.env] at hverified
    rw [hc₄, hc₃, hc₂]
    exact ⟨hwrites, hnonce, Except.mapError_eq_ok hverified, line, resp, result, hline, hparse,
      (helloResult_eq_ok hresult).2, hsig⟩

/-- Nothing is written while the reply is read. -/
theorem checkReply_silent (readError badSignature : VaultError → VaultError) (refused : Option WireError → String)
    (socket : Path) (n : HelloNonce) (id : String) :
    Keeps Silent (checkReply readError refused badSignature socket n id) := by
  have hread : Keeps Silent (readResponse : Client WireResponse) := fun c => ⟨rfl, (List.append_nil _).symm⟩
  unfold checkReply
  apply hread.mapError.bind
  intro resp
  split
  · exact keeps_fail _
  · exact (keeps_lift _).bind fun _ => (keeps_lift _).bind fun _ => keeps_get.bind fun _ =>
      (keeps_lift _).bind fun _ => keeps_pure _

end Admission

section Parts
variable [Crypto] [Json] [Ed25519] [RequestJson] [ResponseJson]

omit [Crypto] [Json] [RequestJson] in
theorem check_silent (socket : Path) (opts : ConnectOptions) (n : HelloNonce) (id : String) :
    Keeps Silent (check socket opts n id) := by
  unfold check
  split
  · exact checkReply_silent _ _ _ _ _ _
  · exact checkReply_silent _ _ _ _ _ _

omit [RequestJson] in
/-- A broker is let in that has signed and whose key is pinned, or is shown to the human. -/
theorem judge_eq_ok {socket : Path} {opts : ConnectOptions} {n : HelloNonce} {id : String} {c c' : Connection}
    {h : Hello} {d : PinDecision} (hr : (judge socket opts n id).run c = (.ok (h, d), c')) :
    h.clientNonce = n ∧ verifyHello (canonicalSocketPath c.env.cwd socket) h = .ok () ∧ c.Presents h.signature ∧
      (d = .proceed h.key ∧ Pinned c.files c.env socket h.key ∨ d = .needHumanConfirm h.key ∧
        opts.trust = .interactive) := by
  unfold judge at hr
  obtain ⟨h', c₁, hcheck, hrest⟩ := bind_eq_ok hr
  obtain ⟨d', c₂, hdecide, hdone⟩ := bind_eq_ok hrest
  cases hdone
  have hchecked : Writes c c₁ [] ∧ h.clientNonce = n ∧ verifyHello (canonicalSocketPath c.env.cwd socket) h = .ok () ∧
      c.Presents h.signature := by
    unfold check at hcheck
    split at hcheck
    · exact checkReply_eq_ok hcheck
    · exact checkReply_eq_ok hcheck
  obtain ⟨hwrites, hnonce, hverified, hpresents⟩ := hchecked
  refine ⟨hnonce, hverified, hpresents, ?_⟩
  rcases decidePin_eq_ok hdecide with ⟨hd, hload⟩ | ⟨hd, hinteractive, -⟩
  · have hpinned := (loadPin_eq_ok hload).2.1 _ rfl
    rw [hwrites.files, hwrites.env] at hpinned
    exact Or.inl ⟨hd, hpinned⟩
  · exact Or.inr ⟨hd, by simpa using hinteractive⟩

omit [Ed25519] [RequestJson] [ResponseJson] in
/-- A pin is written when `yes` was typed, and then the connection stands. -/
theorem settle_ends (socket : Path) (opts : ConnectOptions) (h : Hello) (c : Connection) :
    Ends (settle socket opts h (.needHumanConfirm h.key)) c fun o c' =>
      (o ≠ .ok () ∧ c'.files = c.files) ∨ (o = .ok () ∧ ∃ line path, c.tty = some (.ok line) ∧
        trim line.toList = "yes".toList ∧ c.dirs = none ∧ c.saves = none ∧ pinPath c.env socket = .ok path ∧
          c'.files = Function.update c.files path (some (pinDoc (canonicalSocketPath c.env.cwd socket) h.key))) := by
  have hconfirm : Ends (confirmBrokerPin h.key opts.trustFingerprint) c fun o c' => c' = c ∧
      (o = .ok () → ∃ line, c.tty = some (.ok line) ∧ trim line.toList = "yes".toList) := by
    unfold confirmBrokerPin
    split
    · exact ⟨rfl, fun h => by cases h⟩
    · rw [Ends, run_get_bind]
      cases c.tty with
      | none => exact ⟨rfl, fun h => by cases h⟩
      | some typed =>
        cases typed with
        | error e => exact ⟨rfl, fun h => by cases h⟩
        | ok line =>
          dsimp only
          split
          · exact ⟨rfl, fun h => by cases h⟩
          · rename_i hyes
            exact ⟨rfl, fun _ => ⟨line, rfl, not_not.mp hyes⟩⟩
  have hstore : Ends (storePin socket h.key) c fun o c' => (o ≠ .ok () ∧ c' = c) ∨ (o = .ok () ∧ ∃ path,
      c.dirs = none ∧ c.saves = none ∧ pinPath c.env socket = .ok path ∧
        c'.files = Function.update c.files path (some (pinDoc (canonicalSocketPath c.env.cwd socket) h.key))) := by
    unfold storePin
    rw [Ends, run_get_bind]
    cases hpath : pinPath c.env socket with
    | error e => exact Or.inl ⟨(fun ho => by cases ho), rfl⟩
    | ok path =>
      cases c.dirs with
      | some e => exact Or.inl ⟨(fun ho => by cases ho), rfl⟩
      | none =>
        cases c.saves with
        | some e => exact Or.inl ⟨(fun ho => by cases ho), rfl⟩
        | none => exact Or.inr ⟨rfl, path, rfl, rfl, rfl, rfl⟩
  unfold settle
  refine hconfirm.bind (fun _ c₁ h₁ => ?_) (fun e c₁ h₁ => Or.inl ⟨by simp, by rw [h₁.1]⟩)
    fun c₁ h₁ => Or.inl ⟨by simp, by rw [h₁.1]⟩
  obtain ⟨rfl, hyes⟩ := h₁
  obtain ⟨line, htty, hline⟩ := hyes rfl
  refine hstore.mono fun o c' ho => ?_
  rcases ho with ⟨hne, rfl⟩ | ⟨hok, path, hpath⟩
  · exact Or.inl ⟨hne, rfl⟩
  · exact Or.inr ⟨hok, line, path, htty, hline, hpath⟩

end Parts

/-! ## An honest broker -/

section Honest
variable [Crypto] [Json] [Ed25519] [ResponseJson]

omit [Ed25519] [ResponseJson] in
/-- What is found where the pin can be looked at. -/
theorem loadPin_run {socket : Path} {c : Connection} (hhidden : c.hidden = false) (hreads : c.reads = none) :
    (∀ k, Pinned c.files c.env socket k → (loadPin socket).run c = (.ok (some k), c)) ∧
      (Unpinned c.files c.env socket → (loadPin socket).run c = (.ok none, c)) := by
  constructor
  · rintro k ⟨path, bytes, hpath, hbytes, hread⟩
    unfold loadPin
    rw [run_get_bind]
    simp only [hpath, hhidden, hreads, hbytes, hread, Outcome.ofExcept_ok, lift_ok_bind, Bool.false_eq_true, if_false,
      Option.elim_none, run_pure]
  · rintro ⟨path, hpath, hnone⟩
    unfold loadPin
    rw [run_get_bind]
    simp only [hpath, hhidden, hnone, Outcome.ofExcept_ok, lift_ok_bind, Bool.false_eq_true, if_false, run_pure]

omit [Crypto] [Json] in
/-- The answer of a daemon to this hello is accepted. -/
theorem check_run [LawfulEd25519] {d : Identity} {socket : Path} {opts : ConnectOptions} {n drawn : HelloNonce}
    {id : String} {c : Connection} {line : Bytes} (hline : (readLine c.stops c.incoming).1 = .ok line)
    (hjson : ResponseJson.fromSlice line = some (wire (d.answerHello (some drawn) (helloRequest id n).body)))
    (hcanon : canonicalSocketPath c.env.cwd socket = d.canon) :
    ∃ h c', (check socket opts n id).run c = (.ok h, c') ∧ h.key = d.publicKey := by
  rw [answerHello_hello] at hjson
  let h : Hello := ⟨n, drawn, d.publicKey, Ed25519.sign d.signing (signedMessage n drawn d.canon)⟩
  have hverify : verifyHello (canonicalSocketPath c.env.cwd socket) h = .ok () := by
    have hkey : Ed25519.wellFormed h.key = true := LawfulEd25519.wellFormed_verifyingKey _
    have hsig : Ed25519.verify h.key (signedMessage h.clientNonce h.serverNonce d.canon) h.signature = true :=
      LawfulEd25519.verify_sign _ _
    rw [hcanon, verifyHello, hkey, if_neg (by simp), hsig, if_pos rfl]
  have hparse : parseResponse line = .ok (wire ⟨id, .ok (helloValue h.key h.serverNonce h.signature)⟩) := by
    rw [parseResponse, hjson]
    rfl
  have hread : (readResponse : Client WireResponse).run c =
    (.ok (wire ⟨id, .ok (helloValue h.key h.serverNonce h.signature)⟩),
      { c with incoming := dropReader c.incoming (readLine c.stops c.incoming).2 }) := by
    rw [readResponse, run_step]
    simp only [hline, Except.bind, hparse, Outcome.ofExcept_ok]
  have hrun : ∀ (readError badSignature : VaultError → VaultError) (refused : Option WireError → String),
      (checkReply readError refused badSignature socket n id).run c =
        (.ok h, { c with incoming := dropReader c.incoming (readLine c.stops c.incoming).2 }) := by
    intro readError badSignature refused
    have hmapped : ((readResponse : Client WireResponse).mapError readError).run c =
        (.ok (wire ⟨id, .ok (helloValue h.key h.serverNonce h.signature)⟩),
          { c with incoming := dropReader c.incoming (readLine c.stops c.incoming).2 }) := by
      rw [run_mapError, hread]
    have hparsed : parseHello n (helloValue h.key h.serverNonce h.signature) = .ok h := parseHello_helloValue n _ _ _
    unfold checkReply
    rw [run_bind_ok hmapped, if_neg (fun hne => hne rfl)]
    simp only [helloResult, wire, hparsed, Outcome.ofExcept_ok, lift_ok_bind, run_get_bind, hverify, Except.mapError,
      run_pure]
  unfold check
  split
  · exact ⟨h, _, hrun _ _ _, rfl⟩
  · exact ⟨h, _, hrun _ _ _, rfl⟩

omit [Ed25519] [ResponseJson] in
/-- A key that is confirmed is pinned, if it can be. -/
theorem settle_run {socket : Path} {opts : ConnectOptions} {h : Hello} {c : Connection} {typed : String} {path : Path}
    (hfp : (opts.trustFingerprint.any fun fp => fp ≠ h.key) = false) (htty : c.tty = some (.ok typed))
    (hyes : trim typed.toList = "yes".toList) (hdirs : c.dirs = none) (hsaves : c.saves = none)
    (hpath : pinPath c.env socket = .ok path) :
    ((settle socket opts h (.needHumanConfirm h.key)).run c).1 = .ok () := by
  have hconfirm : (confirmBrokerPin h.key opts.trustFingerprint).run c = (.ok (), c) := by
    unfold confirmBrokerPin
    rw [hfp, if_neg (by simp), run_get_bind, htty]
    dsimp only
    rw [if_neg (not_not.mpr hyes)]
    rfl
  unfold settle
  rw [run_bind_ok hconfirm]
  unfold storePin
  rw [run_get_bind, hpath, hdirs, hsaves]
  rfl

/-- **The honest broker is accepted** exactly by those who have pinned its key for the socket, and by a human who is at
the terminal, has pinned none, and confirms it. -/
theorem honest_broker_is_accepted_iff [LawfulEd25519] [RequestJson] {d : Identity} {socket : Path}
    {opts : ConnectOptions} {n drawn : HelloNonce} {id : String} {c c₁ : Connection} {line : Bytes}
    (hbegin : (begin opts).run c = (.ok (n, id), c₁)) (hline : (readLine c₁.stops c₁.incoming).1 = .ok line)
    (hjson : ResponseJson.fromSlice line = some (wire (d.answerHello (some drawn) (helloRequest id n).body)))
    (hcanon : canonicalSocketPath c.env.cwd socket = d.canon) (hhidden : c.hidden = false) (hreads : c.reads = none) :
    ((connectWith socket opts).run c).1 = .ok () ↔ Pinned c.files c.env socket d.publicKey ∨
      (Unpinned c.files c.env socket ∧ opts.trust = .interactive ∧ (∀ fp, opts.trustFingerprint = some fp →
        fp = d.publicKey) ∧
        (∃ line, c.tty = some (.ok line) ∧ trim line.toList = "yes".toList) ∧ c.dirs = none ∧ c.saves = none) := by
  have hgreets := begin_ends opts c
  rw [Ends, hbegin] at hgreets
  have hwrites := hgreets.told n id rfl
  rw [← hwrites.env] at hcanon
  have hchecked : ∃ h c', (check socket opts n id).run c₁ = (.ok h, c') ∧ h.key = d.publicKey :=
    check_run hline hjson hcanon
  obtain ⟨h, c₂, hcheck, hkey⟩ := hchecked
  have hsetting : c₂.setting = c.setting := by
    have hsilent := check_silent socket opts n id c₁
    rw [hcheck] at hsilent
    exact hsilent.setting.trans hwrites.setting
  obtain ⟨henv, hfiles, hhidden', hreads', hdirs, hsaves, htty⟩ : c₂.env = c.env ∧ c₂.files = c.files ∧
    c₂.hidden = c.hidden ∧ c₂.reads = c.reads ∧ c₂.dirs = c.dirs ∧ c₂.saves = c.saves ∧ c₂.tty = c.tty := by
    simpa [Connection.setting] using hsetting
  have hrest : (connectWith socket opts).run c =
      (decidePin socket d.publicKey true opts.trustFingerprint (opts.trust = .interactive) >>=
        settle socket opts h).run c₂ := by
    rw [connectWith_eq, run_bind_ok hbegin]
    dsimp only
    unfold judge
    rw [Prog.bind_assoc, run_bind_ok hcheck, Prog.bind_assoc, hkey]
    rfl
  rw [hrest]
  constructor
  · intro hok
    obtain ⟨dec, c₃, hdec, hset⟩ := bind_eq_ok (Prod.ext hok rfl)
    rcases decidePin_eq_ok hdec with ⟨-, hload⟩ | ⟨rfl, hinteractive, hfp, hload⟩
    · have hpinned := (loadPin_eq_ok hload).2.1 _ rfl
      rw [hfiles, henv] at hpinned
      exact Or.inl hpinned
    · obtain ⟨rfl, -, hnone⟩ := loadPin_eq_ok hload
      have hunpinned := hnone rfl (hhidden'.trans hhidden)
      rw [hfiles, henv] at hunpinned
      have hends := settle_ends socket opts h c₃
      rw [Ends, hkey, hset] at hends
      rcases hends with ⟨hne, -⟩ | ⟨-, typed, path, htyped, hyes, hd, hs, -⟩
      · exact absurd rfl hne
      · exact Or.inr ⟨hunpinned, by simpa using hinteractive, hfp, ⟨typed, htty.symm.trans htyped,
          hyes⟩, hdirs.symm.trans hd, hsaves.symm.trans hs⟩
  · have hpins : (∀ k, Pinned c₂.files c₂.env socket k → (loadPin socket).run c₂ = (.ok (some k), c₂)) ∧
        (Unpinned c₂.files c₂.env socket → (loadPin socket).run c₂ = (.ok none, c₂)) :=
      loadPin_run (hhidden'.trans hhidden) (hreads'.trans hreads)
    rw [hfiles, henv] at hpins
    obtain ⟨hpinned, hunpinned⟩ := hpins
    unfold decidePin
    rw [Prog.bind_assoc]
    rintro (hp | ⟨hnone, hinteractive, hfp, ⟨typed, htyped, hyes⟩, hd, hs⟩)
    · rw [run_bind_ok (hpinned _ hp)]
      simp only [and_self, if_true, Prog.pure_bind, settle, run_pure]
    · have hany : (opts.trustFingerprint.any fun fp => fp ≠ d.publicKey) = false := by
        cases hopt : opts.trustFingerprint with
        | none => rfl
        | some fp => simp [hfp fp hopt]
      rw [run_bind_ok (hunpinned hnone)]
      obtain ⟨path, hpath, -⟩ := hnone
      simp only [not_true_eq_false, if_false, hany, hinteractive, decide_true, Bool.false_eq_true, Prog.pure_bind]
      rw [← hkey] at hany ⊢
      rw [← henv] at hpath
      exact settle_run hany (htty.trans htyped) hyes (hdirs.trans hd) (hsaves.trans hs) hpath

end Honest

end SecretsVault.Trust
