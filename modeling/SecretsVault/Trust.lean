import SecretsVault.Admission
import SecretsVault.Lib.Chronicle
import SecretsVault.Lib.Interleaving
import SecretsVault.Reference

/-!
# To whom credentials go

Clients connect, daemons answer, humans confirm, in any order, and what a client reads may come from anybody.

- `pins_are_confirmed`: a pin that was not there at first holds a key that a human confirmed, for the socket it is of.
- `credentials_go_to_confirmed_broker`: no credential is written to a connection before its broker has signed the nonce
  of the connection with a key that is pinned for the socket; a key that its owner keeps to itself is the owner's
  signature.
-/

namespace SecretsVault.Trust

open Lib Lib.Prog Mcp Fdpass

/-- What a connection has come to. -/
structure Link where
  env : Environment
  socket : Path
  opts : ConnectOptions
  hello : Hello

def Link.canon (l : Link) : Path := canonicalSocketPath l.env.cwd l.socket

/-- Where a client is. -/
inductive Phase where
  | fresh
  | greeted (env : Environment) (socket : Path) (opts : ConnectOptions) (clientNonce : HelloNonce) (id : String)
  | waiting (l : Link)
  | connected (l : Link)
  | failed

inductive Event where
  /-- A daemon has signed the nonces for a socket. -/
  | signed (signing : Key) (clientNonce serverNonce : HelloNonce) (canon : Path)
  /-- A client has written a request. -/
  | wrote (client : Nat) (req : WireRequest)
  /-- A human has typed a line for the key that is shown, and it was pinned. -/
  | confirmed (client : Nat) (l : Link) (line : String)
  | connected (client : Nat) (l : Link)

/-- A pin was written. -/
def Event.confirms : Event → Bool
  | .confirmed _ _ _ => true
  | _ => false

/-- The pins of a user, the clients, and what has happened, the last event first. -/
structure World where
  files : Path → Option Bytes
  phase : Nat → Phase
  history : List Event

/-- What a client meets is in `c`; the pins are those of the world, and nothing is written yet. -/
inductive Move where
  | answer (d : Identity) (drawn : Option HelloNonce) (req : Request)
  | begin (client : Nat) (socket : Path) (opts : ConnectOptions) (c : Connection)
  | reply (client : Nat) (c : Connection)
  | confirm (client : Nat) (c : Connection)
  | call (client : Nat) (op : String) (auth : Auth) (params : Value) (c : Connection)

namespace World

/-- A client in another phase, after some events. -/
def moved (w : World) (client : Nat) (phase : Phase) (events : List Event) : World :=
  { w with phase := Function.update w.phase client phase, history := events ++ w.history }

/-- The world as a connection meets it. -/
def seen (w : World) (env : Environment) (c : Connection) : Connection := { c with env, files := w.files, sent := [] }

/-- What a client has written. -/
def wrote (client : Nat) (c : Connection) : List Event := (c.sent.map (.wrote client)).reverse

variable [Crypto] [Json] [Ed25519] [RequestJson] [ResponseJson]

/-- A daemon answers a hello, and signs if it can. -/
def answer (w : World) (d : Identity) (drawn : Option HelloNonce) (req : Request) : World :=
  match hexField NONCE_LEN req.params "client_nonce" with
  | none => w
  | some clientNonce =>
    match d.helloReply clientNonce drawn with
    | .ok (serverNonce, _) => { w with history := .signed d.signing clientNonce serverNonce d.canon :: w.history }
    | .error _ => w

def begin (w : World) (client : Nat) (socket : Path) (opts : ConnectOptions) (c : Connection) : World :=
  match (Trust.begin opts).run (w.seen c.env c) with
  | (.ok (clientNonce, id), c') => w.moved client (.greeted c.env socket opts clientNonce id) (wrote client c')
  | (_, c') => w.moved client .failed (wrote client c')

def reply (w : World) (client : Nat) (env : Environment) (socket : Path) (opts : ConnectOptions)
    (clientNonce : HelloNonce) (id : String) (c : Connection) : World :=
  match (judge socket opts clientNonce id).run (w.seen env c) with
  | (.ok (h, .proceed _), _) => w.moved client (.connected ⟨env, socket, opts, h⟩)
      [.connected client ⟨env, socket, opts, h⟩]
  | (.ok (h, .needHumanConfirm _), _) => w.moved client (.waiting ⟨env, socket, opts, h⟩) []
  | _ => w.moved client .failed []

def confirm (w : World) (client : Nat) (l : Link) (c : Connection) : World :=
  match (settle l.socket l.opts l.hello (.needHumanConfirm l.hello.key)).run (w.seen l.env c), c.tty with
  | (.ok (), c'), some (.ok line) =>
    { w.moved client (.connected l) [.connected client l, .confirmed client l line] with files := c'.files }
  | _, _ => w.moved client .failed []

def call (w : World) (client : Nat) (l : Link) (op : String) (auth : Auth) (params : Value) (c : Connection) : World :=
  { w with history := wrote client ((Trust.call op auth params).run (w.seen l.env c)).2 ++ w.history }

end World

section Runs
variable [Crypto] [Json] [Ed25519] [RequestJson] [ResponseJson]

/-- Somebody moves. -/
def step (w : World) : Move → Option World
  | .answer d drawn req => some (w.answer d drawn req)
  | .begin client socket opts c =>
    match w.phase client with
    | .fresh => some (w.begin client socket opts c)
    | _ => none
  | .reply client c =>
    match w.phase client with
    | .greeted env socket opts clientNonce id => some (w.reply client env socket opts clientNonce id c)
    | _ => none
  | .confirm client c =>
    match w.phase client with
    | .waiting l => some (w.confirm client l c)
    | _ => none
  | .call client op auth params c =>
    match w.phase client with
    | .connected l => some (w.call client l op auth params c)
    | _ => none

/-- Nobody has connected yet. -/
structure World.Fresh (w : World) : Prop where
  phase : ∀ client, w.phase client = .fresh
  history : w.history = []

/-! ## What is kept -/

/-- The key of a connection has signed for it. -/
def Link.Verified (l : Link) : Prop := verifyHello l.canon l.hello = .ok ()

/-- A key that is kept was used by its owner. -/
def Link.Answered (l : Link) (kept : Key → Prop) (history : List Event) : Prop :=
  ∀ k, kept k → Ed25519.verifyingKey k = l.hello.key →
    .signed k l.hello.clientNonce l.hello.serverNonce l.canon ∈ history

/-- What stands behind a connection before its key is trusted. -/
structure Vouched (kept : Key → Prop) (history : List Event) (client : Nat) (l : Link) : Prop where
  verified : l.Verified
  answered : l.Answered kept history
  asked : ∃ id, .wrote client (helloRequest id l.hello.clientNonce) ∈ history

/-- The key was pinned at first, or a human has confirmed it, for this socket. -/
def Link.Trusted (l : Link) (files : Path → Option Bytes) (history : List Event) : Prop :=
  Pinned files l.env l.socket l.hello.key ∨
    ∃ client l' line, .confirmed client l' line ∈ history ∧ l'.canon = l.canon ∧ l'.hello.key = l.hello.key

/-- How an event is explained by those before it. -/
def Accounts (kept : Key → Prop) (files : Path → Option Bytes) (earlier : List Event) : Event → Prop
  | .signed _ _ _ _ => True
  | .wrote client req => req.body.auth = none ∨ ∃ l, .connected client l ∈ earlier
  | .confirmed client l line => Vouched kept earlier client l ∧ l.opts.trust = .interactive ∧
      trim line.toList = "yes".toList
  | .connected client l => Vouched kept earlier client l ∧ l.Trusted files earlier

/-- What is known of a client where it is. -/
def Phase.Fits (kept : Key → Prop) (history : List Event) (client : Nat) : Phase → Prop
  | .greeted _ _ _ clientNonce id => .wrote client (helloRequest id clientNonce) ∈ history
  | .waiting l => Vouched kept history client l ∧ l.opts.trust = .interactive
  | .connected l => .connected client l ∈ history
  | _ => True

/-- The pins after a history: those that were confirmed, the last one for each file, and those that were there. -/
def pinsAfter (files : Path → Option Bytes) : List Event → Path → Option Bytes
  | [] => files
  | .confirmed _ l _ :: earlier => fun path =>
    if (pinPath l.env l.socket).toOption = some path then some (pinDoc l.canon l.hello.key)
    else pinsAfter files earlier path
  | _ :: earlier => pinsAfter files earlier

/-- **The invariant.** -/
structure Sound (kept : Key → Prop) (files : Path → Option Bytes) (w : World) : Prop where
  explained : Explained (Accounts kept files) w.history
  pins : w.files = pinsAfter files w.history
  phases : ∀ client, (w.phase client).Fits kept w.history client

/-- Nobody else signs with a key that is kept: a signature of it that a client is shown is of bytes that its owner has
signed. -/
def Unforged (kept : Key → Prop) (w : World) : Move → Prop
  | .reply _ c => ∀ k, kept k → ∀ m sig, c.Presents sig → Ed25519.verify (Ed25519.verifyingKey k) m sig = true →
    ∃ clientNonce serverNonce canon, m = signedMessage clientNonce serverNonce canon ∧
      .signed k clientNonce serverNonce canon ∈ w.history
  | _ => True

section Kept
variable {kept : Key → Prop} {files : Path → Option Bytes} {w w' : World} {history history' : List Event} {client : Nat}
    {l : Link}

omit [Crypto] [Json] [RequestJson] [ResponseJson] in
theorem Vouched.mono (h : Vouched kept history client l) (hsub : history ⊆ history') : Vouched kept history' client l :=
  ⟨h.verified, fun k hk heq => hsub (h.answered k hk heq), h.asked.imp fun _ hid => hsub hid⟩

omit [Ed25519] [RequestJson] [ResponseJson] in
theorem Link.Trusted.mono (h : l.Trusted files history) (hsub : history ⊆ history') : l.Trusted files history' :=
  h.imp id fun ⟨client, l', line, hmem, heq⟩ => ⟨client, l', line, hsub hmem, heq⟩

omit [Crypto] [Json] [RequestJson] [ResponseJson] in
theorem Phase.Fits.mono {p : Phase} (h : p.Fits kept history client) (hsub : history ⊆ history') :
    p.Fits kept history' client := by
  cases p with
  | fresh => trivial
  | greeted env socket opts n id => exact hsub h
  | waiting l => exact ⟨h.1.mono hsub, h.2⟩
  | connected l => exact hsub h
  | failed => trivial

omit [RequestJson] [ResponseJson] in
theorem World.Fresh.sound (h : w.Fresh) : Sound kept w.files w := by
  refine ⟨?_, ?_, fun client => ?_⟩
  · rw [h.history]
    trivial
  · rw [h.history]
    rfl
  · rw [h.phase]
    trivial

omit [Ed25519] [RequestJson] [ResponseJson] in
theorem pinsAfter_append {events : List Event} (h : ∀ e ∈ events, e.confirms = false) :
    pinsAfter files (events ++ history) = pinsAfter files history := by
  induction events with
  | nil => rfl
  | cons e events ih =>
    obtain ⟨he, hrest⟩ := List.forall_mem_cons.mp h
    cases e with
    | confirmed client l line => cases he
    | signed signing n sn canon => exact ih hrest
    | wrote client req => exact ih hrest
    | connected client l => exact ih hrest

omit [Ed25519] [RequestJson] [ResponseJson] in
/-- A pin was there at first, or was confirmed. -/
theorem pinsAfter_eq_some {path : Path} {bytes : Bytes} (h : pinsAfter files history path = some bytes) :
    files path = some bytes ∨ ∃ client l line, .confirmed client l line ∈ history ∧ pinPath l.env l.socket = .ok path ∧
      bytes = pinDoc l.canon l.hello.key := by
  induction history with
  | nil => exact Or.inl h
  | cons e history ih =>
    have hearlier : pinsAfter files history path = some bytes → files path = some bytes ∨ ∃ client l line,
        .confirmed client l line ∈ e :: history ∧ pinPath l.env l.socket = .ok path ∧
        bytes = pinDoc l.canon l.hello.key := by
      intro hb
      rcases ih hb with hfirst | ⟨client, l, line, hmem, hpath⟩
      · exact Or.inl hfirst
      · exact Or.inr ⟨client, l, line, List.mem_cons_of_mem _ hmem, hpath⟩
    cases e with
    | confirmed client l line =>
      rw [pinsAfter] at h
      dsimp only at h
      split at h
      · rename_i hpath
        cases h
        refine Or.inr ⟨client, l, line, List.mem_cons_self, ?_, rfl⟩
        cases hp : pinPath l.env l.socket with
        | error e =>
          rw [hp] at hpath
          cases hpath
        | ok p =>
          rw [hp] at hpath
          rw [Option.some.inj hpath]
      · exact hearlier h
    | signed signing n sn canon => exact hearlier h
    | wrote client req => exact hearlier h
    | connected client l => exact hearlier h

omit [RequestJson] [ResponseJson] in
/-- A client moves. -/
theorem Sound.moved (h : Sound kept files w) {p : Phase} {events : List Event} {pins : Path → Option Bytes}
    (hevents : Explained (Accounts kept files) (events ++ w.history)) (hp : p.Fits kept (events ++ w.history) client)
    (hpins : pins = pinsAfter files (events ++ w.history)) :
    Sound kept files { w.moved client p events with files := pins } := by
  refine ⟨hevents, hpins, fun other => ?_⟩
  by_cases hother : other = client
  · subst hother
    simpa [World.moved] using hp
  · simpa [World.moved, hother] using (h.phases other).mono (List.subset_append_right events w.history)

omit [RequestJson] [ResponseJson] in
/-- A client moves that confirms nothing. -/
theorem Sound.quiet (h : Sound kept files w) {p : Phase} {events : List Event}
    (hevents : Explained (Accounts kept files) (events ++ w.history)) (hp : p.Fits kept (events ++ w.history) client)
    (hquiet : ∀ e ∈ events, e.confirms = false) : Sound kept files (w.moved client p events) :=
  h.moved hevents hp (h.pins.trans (pinsAfter_append hquiet).symm)

omit [Crypto] [Json] [Ed25519] [RequestJson] [ResponseJson] in
theorem wrote_confirms (client : Nat) (c : Connection) : ∀ e ∈ World.wrote client c, e.confirms = false := by
  intro e he
  obtain ⟨req, -, rfl⟩ := List.mem_map.mp (List.mem_reverse.mp he)
  rfl

omit [RequestJson] [ResponseJson] in
theorem Sound.answer (h : Sound kept files w) (d : Identity) (drawn : Option HelloNonce) (req : Request) :
    Sound kept files (w.answer d drawn req) := by
  unfold World.answer
  split
  · exact h
  · split
    · exact ⟨⟨trivial, h.explained⟩, h.pins, fun client => (h.phases client).mono (List.subset_cons_self _ _)⟩
    · exact h

omit [ResponseJson] in
theorem Sound.begin (h : Sound kept files w) (client : Nat) (socket : Path) (opts : ConnectOptions) (c : Connection) :
    Sound kept files (w.begin client socket opts c) := by
  have hgreets := begin_ends opts (w.seen c.env c)
  have hexplained : ∀ c', (Writes (w.seen c.env c) c' [] ∨ ∃ id n, Writes (w.seen c.env c) c' [helloRequest id n]) →
      Explained (Accounts kept files) (World.wrote client c' ++ w.history) := by
    intro c' hwrites
    rcases hwrites with hwrites | ⟨id, n, hwrites⟩
    · rw [World.wrote, hwrites.sent]
      exact h.explained
    · rw [World.wrote, hwrites.sent]
      exact ⟨Or.inl rfl, h.explained⟩
  unfold World.begin
  unfold Ends at hgreets
  rcases hr : (Trust.begin opts).run (w.seen c.env c) with ⟨⟨n, id⟩ | e | _, c'⟩ <;> rw [hr] at hgreets
  · refine h.quiet (hexplained c' hgreets.writes) ?_ (wrote_confirms client c')
    have hsent := (hgreets.told n id rfl).sent
    rw [World.wrote, hsent]
    exact List.mem_cons_self
  · exact h.quiet (hexplained c' hgreets.writes) trivial (wrote_confirms client c')
  · exact h.quiet (hexplained c' hgreets.writes) trivial (wrote_confirms client c')

omit [Crypto] [Json] [RequestJson] [ResponseJson] in
theorem verify_of_verifyHello {canon : Path} {h : Hello} (hv : verifyHello canon h = .ok ()) :
    Ed25519.verify h.key (signedMessage h.clientNonce h.serverNonce canon) h.signature = true := by
  unfold verifyHello at hv
  split at hv
  · cases hv
  · split at hv
    · assumption
    · cases hv

omit [RequestJson] in
theorem Sound.reply [LawfulPins] (h : Sound kept files w) {env : Environment} {socket : Path} {opts : ConnectOptions}
    {n : HelloNonce} {id : String} {c : Connection} (hphase : w.phase client = .greeted env socket opts n id)
    (hunforged : Unforged kept w (.reply client c)) :
    Sound kept files (w.reply client env socket opts n id c) := by
  have hasked := h.phases client
  rw [hphase] at hasked
  unfold World.reply
  rcases hr : (judge socket opts n id).run (w.seen env c) with ⟨⟨hello, d⟩ | e | _, c'⟩
  · obtain ⟨hnonce, hverified, hpresents, hd⟩ := judge_eq_ok hr
    have hvouched : Vouched kept w.history client ⟨env, socket, opts, hello⟩ := by
      refine ⟨hverified, fun k hk heq => ?_, id, ?_⟩
      · have hverify : Ed25519.verify (Ed25519.verifyingKey k)
            (signedMessage hello.clientNonce hello.serverNonce (canonicalSocketPath env.cwd socket))
            hello.signature = true := by
          rw [heq]
          exact verify_of_verifyHello hverified
        obtain ⟨n', sn', canon', hm, hsigned⟩ := hunforged k hk _ _ hpresents hverify
        obtain ⟨h1, h2, h3⟩ := signedMessage_inj hm
        rwa [← h1, ← h2, ← h3] at hsigned
      · rw [← hnonce] at hasked
        exact hasked
    rcases hd with ⟨rfl, hpinned⟩ | ⟨rfl, hinteractive⟩
    · refine h.quiet ⟨⟨hvouched, ?_⟩, h.explained⟩ List.mem_cons_self (by simp [Event.confirms])
      obtain ⟨path, bytes, hpath, hbytes, hread⟩ := hpinned
      have hbytes : w.files path = some bytes := hbytes
      rw [h.pins] at hbytes
      rcases pinsAfter_eq_some hbytes with hfirst | ⟨other, l', line, hmem, -, rfl⟩
      · exact Or.inl ⟨path, bytes, hpath, hfirst, hread⟩
      · -- the pin was written here, so it says for which socket
        rw [readPin_pinDoc] at hread
        split at hread
        · rename_i hcanon
          exact Or.inr ⟨other, l', line, hmem, hcanon, Except.ok.inj hread⟩
        · cases hread
    · exact h.quiet h.explained ⟨hvouched, hinteractive⟩ (by simp)
  · exact h.quiet h.explained trivial (by simp)
  · exact h.quiet h.explained trivial (by simp)

omit [RequestJson] [ResponseJson] in
theorem Sound.confirm (h : Sound kept files w) {c : Connection} (hphase : w.phase client = .waiting l) :
    Sound kept files (w.confirm client l c) := by
  have hwaiting := h.phases client
  rw [hphase] at hwaiting
  obtain ⟨hvouched, hinteractive⟩ := hwaiting
  have hsettle := settle_ends l.socket l.opts l.hello (w.seen l.env c)
  unfold World.confirm
  unfold Ends at hsettle
  rcases hr : (settle l.socket l.opts l.hello (.needHumanConfirm l.hello.key)).run (w.seen l.env c) with
    ⟨_ | e | _, c'⟩ <;>
    rw [hr] at hsettle
  · obtain ⟨line, path, htty, hline, hpath, hfiles⟩ : ∃ line path, c.tty = some (.ok line) ∧
      trim line.toList = "yes".toList ∧ pinPath l.env l.socket = .ok path ∧
        c'.files = Function.update w.files path (some (pinDoc l.canon l.hello.key)) := by
      rcases hsettle with ⟨hne, -⟩ | ⟨-, hset⟩
      · exact absurd rfl hne
      · obtain ⟨line, path, htty, hline, -, -, hpath⟩ := hset
        exact ⟨line, path, htty, hline, hpath⟩
    rw [htty]
    have hconfirmed : Accounts kept files w.history (.confirmed client l line) := ⟨hvouched, hinteractive, hline⟩
    have hconnected : Accounts kept files (.confirmed client l line :: w.history) (.connected client l) :=
      ⟨hvouched.mono (List.subset_cons_self _ _), Or.inr ⟨client, l, line, List.mem_cons_self, rfl, rfl⟩⟩
    have hexplained : Explained (Accounts kept files) ([.connected client l, .confirmed client l line] ++ w.history) :=
      ⟨hconnected, hconfirmed, h.explained⟩
    refine h.moved hexplained List.mem_cons_self ?_
    funext path'
    rw [hfiles, h.pins]
    change _ = if (pinPath l.env l.socket).toOption = some path' then _ else _
    rw [hpath, Function.update_apply]
    simp only [Except.toOption, Option.some.injEq, eq_comm]
    rfl
  · exact h.quiet h.explained trivial (by simp)
  · exact h.quiet h.explained trivial (by simp)

theorem Sound.call (h : Sound kept files w) {op : String} {auth : Auth} {params : Value} {c : Connection}
    (hphase : w.phase client = .connected l) : Sound kept files (w.call client l op auth params c) := by
  have hconnected := h.phases client
  rw [hphase] at hconnected
  have hexplained : ∀ reqs : List WireRequest, Explained (Accounts kept files)
    (reqs.map (.wrote client) ++ w.history) := by
    intro reqs
    induction reqs with
    | nil => exact h.explained
    | cons req reqs ih => exact ⟨Or.inr ⟨l, List.mem_append_right _ hconnected⟩, ih⟩
  have hmoved : Sound kept files (w.moved client (.connected l)
      (World.wrote client ((Trust.call op auth params).run (w.seen l.env c)).2)) := by
    refine h.quiet ?_ (List.mem_append_right _ hconnected) (wrote_confirms client _)
    rw [World.wrote, ← List.map_reverse]
    exact hexplained _
  have hsame : w.moved client (.connected l) (World.wrote client ((Trust.call op auth params).run (w.seen l.env c)).2) =
      w.call client l op auth params c := by
    rw [World.moved, ← hphase, Function.update_eq_self]
    rfl
  rwa [hsame] at hmoved

/-- One move. -/
theorem Sound.step [LawfulPins] {m : Move} (h : Sound kept files w) (hunforged : Unforged kept w m)
    (hs : step w m = some w') : Sound kept files w' := by
  cases m with
  | answer d drawn req =>
    cases hs
    exact h.answer d drawn req
  | begin client socket opts c =>
    simp only [Trust.step] at hs
    split at hs
    · cases hs
      exact h.begin client socket opts c
    · cases hs
  | reply client c =>
    simp only [Trust.step] at hs
    split at hs
    · rename_i hphase
      cases hs
      exact h.reply hphase hunforged
    · cases hs
  | confirm client c =>
    simp only [Trust.step] at hs
    split at hs
    · rename_i hphase
      cases hs
      exact h.confirm hphase
    · cases hs
  | call client op auth params c =>
    simp only [Trust.step] at hs
    split at hs
    · rename_i hphase
      cases hs
      exact h.call hphase
    · cases hs

end Kept

/-! ## The results -/

omit [Crypto] [Json] [RequestJson] in
/-- Nobody keeps a key. -/
theorem unforged_none (w : World) (m : Move) : Unforged (fun _ => False) w m := by
  cases m with
  | reply client c => exact fun k hk => hk.elim
  | answer d drawn req => trivial
  | begin client socket opts c => trivial
  | confirm client c => trivial
  | call client op auth params c => trivial

/-- **Pins are what humans confirmed.** In every run the pin files are those that were there, changed only by
confirmations, the last one for each file: each by an interactive client at whose terminal `yes` was typed, for a key
that has signed the nonce which that client had sent, for the canonical form of that client's socket. -/
theorem pins_are_confirmed [LawfulPins] {w₀ w : World} {ms : List Move} (h₀ : w₀.Fresh)
    (hr : runs step w₀ ms = some w) : w.files = pinsAfter w₀.files w.history ∧
      ∀ later client l line earlier, w.history = later ++ .confirmed client l line :: earlier →
        l.opts.trust = .interactive ∧ trim line.toList = "yes".toList ∧ l.Verified ∧
          ∃ id, .wrote client (helloRequest id l.hello.clientNonce) ∈ earlier := by
  have hsound : Sound (fun _ => False) w₀.files w :=
    runs_induction (fun s m s' hs hm hstep => hs.step hm hstep) h₀.sound
      ((along_true step w₀ ms).mono fun s m _ => unforged_none s m) hr
  refine ⟨hsound.pins, fun later client l line earlier heq => ?_⟩
  obtain ⟨hvouched, hinteractive, hline⟩ := hsound.explained.at heq
  exact ⟨hinteractive, hline, hvouched.verified, hvouched.asked⟩

/-- **Credentials go to confirmed brokers.** Whatever clients are made to read, in whatever order they and the daemons
move: before a request that carries credentials is written to a connection, its broker has signed the nonce that was
sent there, for the canonical form of its socket, with a key that was pinned for that form at first or was confirmed by
a human for it since; and if the owner of the key keeps it, the owner has signed these nonces for this socket. -/
theorem credentials_go_to_confirmed_broker [LawfulPins] {kept : Key → Prop} {w₀ w : World} {ms : List Move}
    (h₀ : w₀.Fresh)
    (hc : Along step (Unforged kept) w₀ ms) (hr : runs step w₀ ms = some w) {later earlier : List Event} {client : Nat}
    {req : WireRequest} (heq : w.history = later ++ .wrote client req :: earlier) (hauth : req.body.auth ≠ none) :
    ∃ l, .connected client l ∈ earlier ∧ l.Verified ∧
    (∃ id, .wrote client (helloRequest id l.hello.clientNonce) ∈ earlier) ∧
      l.Trusted w₀.files earlier ∧ l.Answered kept earlier := by
  have hsound : Sound kept w₀.files w := runs_induction (fun s m s' hs hm hstep => hs.step hm hstep) h₀.sound hc hr
  rcases hsound.explained.at heq with hnone | ⟨l, hmem⟩
  · exact absurd hnone hauth
  · obtain ⟨before, after, hsplit⟩ := List.append_of_mem hmem
    have hwhole : w.history = (later ++ .wrote client req :: before) ++ .connected client l :: after := by
      rw [heq, hsplit]
      simp
    obtain ⟨hvouched, htrusted⟩ := hsound.explained.at hwhole
    have hsub : after ⊆ earlier := by
      rw [hsplit]
      exact fun e he => List.mem_append_right _ (List.mem_cons_of_mem _ he)
    obtain ⟨hverified, hanswered, id, hid⟩ := hvouched.mono hsub
    exact ⟨l, hmem, hverified, ⟨id, hid⟩, htrusted.mono hsub, hanswered⟩

end Runs

/-! ## A first contact -/

namespace FirstContact

open Reference

def sevens (n : Nat) : FixedBytes n := .ofFn fun _ => 7

/-- The message of the first contact. -/
def firstMessage : Bytes := signedMessage (sevens 32) (FixedBytes.zero 32) "/s"

/-- The signatures of one message are known from those of the others. -/
def firstSignature (k : Key) (m : Bytes) : FixedBytes 64 :=
  if m = firstMessage then ⟨k.1 ++ k.1, by rw [List.length_append, k.2]⟩ else FixedBytes.zero 64

instance ed25519 : Ed25519 where
  verifyingKey k := k
  sign := firstSignature
  wellFormed _ := true
  verify k m sig := sig = firstSignature k m

instance : LawfulEd25519 where
  wellFormed_verifyingKey _ := rfl
  verify_sign _ _ := decide_eq_true rfl

def beforeKey : String := "\x7b\"key_hex\":\""

def beforeSocket : String := "\",\"socket\":\""

def parsePin (text : String) : Option Value :=
  if text.toList.take 12 = beforeKey.toList then
    some (.object [("key_hex", .string (String.ofList ((text.toList.drop 12).take 64))),
      ("socket", .string (String.ofList ((text.toList.drop 88).dropLast.dropLast)))])
  else none

/-- The JSON of pins for sockets whose names need no escapes. -/
instance json : Json where
  render v :=
    beforeKey ++ ((v.get? "key_hex").bind Value.asStr).getD "" ++ beforeSocket ++
      ((v.get? "socket").bind Value.asStr).getD "" ++
      "\"\x7d"
  parse := parsePin

theorem render_pin (canon : Path) (key : Key) :
    Json.render (pinValue canon key) = beforeKey ++ hex key.1 ++ beforeSocket ++ canon ++ "\"\x7d" := by
  simp only [Json.render, pinValue_key, pinValue_socket, Option.bind_some, Value.asStr, Option.getD_some]

instance : LawfulPins where
  head_pin canon key := by
    rw [render_pin]
    simp [beforeKey]
  parse_pin canon key := by
    have hlength : (hex key.1).toList.length = 64 := by
      simp [hex, hexChars, key.2]
    have hkey : beforeKey.toList.length = 12 := by decide
    have hsocket : beforeSocket.toList.length = 12 := by decide
    have hend : "\"\x7d".toList = ['"', '\x7d'] := by decide
    rw [render_pin]
    change parsePin _ = _
    have hdrop : ∀ rest : List Char, (beforeKey.toList ++ ((hex key.1).toList ++ (beforeSocket.toList ++ rest))).drop
      88 = rest := by
      intro rest
      rw [← List.append_assoc, ← List.append_assoc, List.drop_left' (by simp only [List.length_append]; omega)]
    have hlast : (canon.toList ++ ['"', '\x7d']).dropLast.dropLast = canon.toList := by
      simp
    unfold parsePin
    simp only [String.toList_append, hend, List.append_assoc]
    rw [List.take_left' hkey, if_pos rfl, List.drop_left' hkey, List.take_left' hlength, hdrop, hlast, pinValue_eq,
      String.ofList_toList, String.ofList_toList]

/-- The JSON of requests whose fields need no escapes. -/
instance requestJson : RequestJson where
  toString req :=
    let text := "\x7b\"v\":1,\"id\":\"" ++ req.body.id ++ "\",\"op\":\"" ++ req.body.op ++ "\"\x7d"
    if '\n' ∈ text.toList then none else some text
  fromSlice _ := none
  oneLine := by
    intro req text h
    dsimp only at h
    split at h
    · cases h
    · rename_i hno
      cases h
      exact hno

def daemon : Identity := ⟨sevens 32, "/s", none⟩

def firstHello : WireRequest := helloRequest (hex (sevens 8).1) (sevens 32)

def firstReply : WireResponse := wire (daemon.answerHello (some (FixedBytes.zero 32)) firstHello.body)

theorem firstReply_eq : firstReply = ⟨VERSION, hex (sevens 8).1, true,
    some (helloValue daemon.publicKey (FixedBytes.zero 32)
    (firstSignature daemon.signing (signedMessage (sevens 32) (FixedBytes.zero 32) daemon.canon))), none⟩ := by
  rw [firstReply, firstHello, answerHello_hello]
  rfl

def replyText : String :=
  "\x7b\"v\":1,\"id\":\"" ++ hex (sevens 8).1 ++ "\",\"ok\":true,\"result\":\x7b\"public_key\":\"" ++
    hex (sevens 32).1 ++
    "\",\"server_nonce\":\"" ++ hex (FixedBytes.zero 32).1 ++ "\",\"signature\":\"" ++ hex (sevens 64).1 ++ "\"\x7d\x7d"

instance responseJson : ResponseJson where
  toString _ := some replyText
  fromSlice line := if line = utf8 replyText then some firstReply else none

/-- A human at a terminal meets the daemon. -/
def visit : Connection where
  env := ⟨some "/d", none, none⟩
  files := fun _ => none
  hidden := false
  reads := none
  dirs := none
  saves := none
  rng := fun _ => some fun _ => 7
  connects := none
  verified := true
  sent := []
  sends := fun _ => none
  incoming := [utf8 replyText ++ [lf]]
  stops := none
  tty := some (.ok "yes\n")

def firstWorld : World := ⟨fun _ => none, fun _ => .fresh, []⟩

theorem firstWorld_fresh : firstWorld.Fresh := ⟨fun _ => rfl, rfl⟩

def firstContact : List Move :=
  [.begin 0 "/s" ⟨.interactive, none⟩ visit, .answer daemon (some (FixedBytes.zero 32)) firstHello.body, .reply 0 visit,
    .confirm 0 visit, .call 0 "vault.status" (.passphrase "p") .null visit]

/-- A request with credentials was written. -/
def exposes : Event → Bool
  | .wrote client req => client = 0 && req.body.auth.isSome
  | _ => false

/-- It is the last thing that happens. -/
theorem firstContact_calls : ∃ w req earlier, runs step firstWorld firstContact = some w ∧
    w.history = .wrote 0 req :: earlier ∧ req.body.auth ≠ none := by
  have hrun : ((runs step firstWorld firstContact).bind fun w => w.history.head?).any exposes = true := by
    decide +kernel
  obtain ⟨e, he, hexposes⟩ := Option.any_eq_true _ _ |>.mp hrun
  obtain ⟨w, hw, hhead⟩ := Option.bind_eq_some_iff.mp he
  obtain ⟨earlier, hearlier⟩ := List.head?_eq_some_iff.mp hhead
  cases e with
  | wrote client req =>
    rw [exposes, Bool.and_eq_true, decide_eq_true_eq] at hexposes
    obtain ⟨rfl, hauth⟩ := hexposes
    exact ⟨w, req, earlier, hw, hearlier, Option.isSome_iff_ne_none.mp hauth⟩
  | signed signing n sn canon => cases hexposes
  | confirmed client l line => cases hexposes
  | connected client l => cases hexposes

theorem firstReply_presents {sig : FixedBytes 64} (h : visit.Presents sig) :
    sig = firstSignature daemon.signing firstMessage := by
  obtain ⟨line, resp, result, hline, hparse, hresult, hsig⟩ := h
  have hread : (readLine visit.stops visit.incoming).1 = .ok (utf8 replyText) := by decide +kernel
  rw [hread] at hline
  cases hline
  have hreply : ResponseJson.fromSlice (utf8 replyText) = some firstReply := if_pos rfl
  have hversion : firstReply.v = VERSION := rfl
  rw [parseResponse, hreply] at hparse
  dsimp only at hparse
  rw [if_neg (by simp [hversion])] at hparse
  cases hparse
  rw [firstReply_eq] at hresult
  cases hresult
  rw [hexField_signature] at hsig
  cases hsig
  rw [show daemon.canon = "/s" by decide +kernel]
  rfl

theorem firstContact_unforged : Along step (Unforged (· = daemon.signing)) firstWorld firstContact := by
  refine ⟨trivial, fun w₁ _ => ⟨trivial, fun w₂ h₂ => ⟨fun k hk m sig hpresents hverify => ?_, fun w₃ _ =>
    ⟨trivial, fun w₄ _ => ⟨trivial, fun _ _ => trivial⟩⟩⟩⟩⟩
  subst hk
  refine ⟨sevens 32, FixedBytes.zero 32, "/s", ?_, ?_⟩
  · rw [firstReply_presents hpresents] at hverify
    by_contra hne
    have hsig : firstSignature daemon.signing firstMessage = firstSignature daemon.signing m :=
      of_decide_eq_true hverify
    rw [firstSignature, if_pos rfl] at hsig
    have hzero : firstSignature daemon.signing m = FixedBytes.zero 64 := if_neg hne
    rw [hzero] at hsig
    exact absurd hsig (by decide +kernel)
  · cases h₂
    have hcanon : daemon.canon = "/s" := by decide +kernel
    rw [World.answer, firstHello, hexField_hello]
    dsimp only [Identity.helloReply]
    rw [hcanon]
    exact List.mem_cons_self

theorem credentials_go_to_confirmed_broker_once : ∃ w req earlier, runs step firstWorld firstContact = some w ∧
    w.history = .wrote 0 req :: earlier ∧ ∃ l, .connected 0 l ∈ earlier ∧ l.Verified ∧
      (∃ id, .wrote 0 (helloRequest id l.hello.clientNonce) ∈ earlier) ∧ l.Trusted firstWorld.files earlier ∧
        l.Answered (· = daemon.signing) earlier := by
  obtain ⟨w, req, earlier, hr, heq, hauth⟩ := firstContact_calls
  have heq' : w.history = [] ++ .wrote 0 req :: earlier := heq
  exact ⟨w, req, earlier, hr, heq, credentials_go_to_confirmed_broker firstWorld_fresh firstContact_unforged hr
    heq' hauth⟩

theorem honest_broker_is_accepted_iff_once : ((connectWith "/s" ⟨.interactive, none⟩).run visit).1 = .ok () := by
  let c₁ : Connection := ((Trust.begin ⟨.interactive, none⟩).run visit).2
  have hbegin : (Trust.begin ⟨.interactive, none⟩).run visit = (.ok (sevens 32, hex (sevens 8).1), c₁) :=
    Prod.ext (by decide +kernel) rfl
  have hline : (readLine c₁.stops c₁.incoming).1 = .ok (utf8 replyText) := by decide +kernel
  have hjson : ResponseJson.fromSlice (utf8 replyText) = some (wire (daemon.answerHello (some (FixedBytes.zero 32))
      (helloRequest (hex (sevens 8).1) (sevens 32)).body)) := if_pos rfl
  have hunpinned : Unpinned visit.files visit.env "/s" := ⟨_, rfl, rfl⟩
  refine (honest_broker_is_accepted_iff hbegin hline hjson (by decide +kernel) rfl rfl).mpr
    (Or.inr ⟨hunpinned, rfl, ?_, ?_, rfl, rfl⟩)
  · intro fp hfp
    cases hfp
  · exact ⟨"yes\n", rfl, by decide +kernel⟩

theorem pins_are_confirmed_once : ∃ w, runs step firstWorld firstContact = some w ∧
    w.files = pinsAfter firstWorld.files w.history := by
  obtain ⟨w, -, -, hr, -⟩ := firstContact_calls
  exact ⟨w, hr, (pins_are_confirmed firstWorld_fresh hr).1⟩

end FirstContact

end SecretsVault.Trust
