import SecretsVault.DotenvReader
import SecretsVault.Fdpass
import SecretsVault.Mcp.Adapter
import SecretsVault.Paths

/-!
# The identity of the broker

Before it sends a credential, a client lets the broker sign a fresh nonce, and compares the key with the one that is
pinned for the socket. The first key of a socket is pinned when a human has confirmed it at the terminal.

- `Connection`: what one connection of a client reads and writes, and what its calls meet.
- `handshakeStrict`, `handshakeInteractive`, `connectWith`, `call`: the client.
- `Identity.answerHello`: the daemon.
- `readPin_pinDoc`, `parseHello_helloValue`: what is written is read back.
-/

namespace SecretsVault.Trust

open Lib Lib.Prog Mcp Fdpass
open Value (json)

/-- A signature scheme; a private key is a seed. -/
class Ed25519 where
  verifyingKey : FixedBytes 32 → FixedBytes 32
  sign : FixedBytes 32 → Bytes → FixedBytes 64
  /-- The bytes are those of a public key. -/
  wellFormed : FixedBytes 32 → Bool
  verify : FixedBytes 32 → Bytes → FixedBytes 64 → Bool

/-- A signature verifies. -/
class LawfulEd25519 [Ed25519] : Prop where
  wellFormed_verifyingKey (k : FixedBytes 32) : Ed25519.wellFormed (Ed25519.verifyingKey k) = true
  verify_sign (k : FixedBytes 32) (m : Bytes) : Ed25519.verify (Ed25519.verifyingKey k) m (Ed25519.sign k m) = true

/-- A response under the version it names. -/
structure WireResponse where
  v : Nat
  id : String
  ok : Bool
  result : Option Value
  error : Option WireError

/-- The JSON codec of responses. -/
class ResponseJson where
  toString : WireResponse → Option String
  fromSlice : Bytes → Option WireResponse

/-- A response as the daemon writes it. -/
def wire (r : Response) : WireResponse :=
  match r.outcome with
  | .ok result => ⟨VERSION, r.id, true, some result, none⟩
  | .error e => ⟨VERSION, r.id, false, none, some e⟩

def DOMAIN : Bytes := utf8 "svault/broker-hello/v1"

def NONCE_LEN : Nat := 32

def HELLO_OP : String := "broker.hello"

abbrev Key := FixedBytes 32

abbrev HelloNonce := FixedBytes 32

/-! ## Paths -/

/-- What a process takes from its surroundings. -/
structure Environment where
  xdgDataHome : Option String
  home : Option String
  /-- The working directory, where it can be found. -/
  cwd : Option Path
  deriving DecidableEq, Repr

/-- A path put behind another. -/
def push (base p : Path) : Path := if base = "" then p else joinPath base p

/-- One component is applied to the names that lead to it. -/
def lexical (parts : List String) : PathComponent → List String
  | .rootDir => []
  | .curDir => parts
  | .parentDir => parts.dropLast
  | .normal c => parts ++ [c]

/-- The form in which a socket path is hashed, signed and compared. -/
def canonicalSocketPath (cwd : Option Path) (socket : Path) : Path :=
  let abs := if isAbsolute socket then socket else push (cwd.getD "/") socket
  absolutePath ((pathComponents abs).foldl lexical [])

/-- The data of a user who has not named a place for it. -/
def localShare (env : Environment) : Except VaultError Path :=
  match env.home with
  | some home => .ok (push home ".local/share")
  | none => .error (.io none "HOME not set")

/-- Where the pins are. -/
def pinDir (env : Environment) : Except VaultError Path := do
  let base ← match env.xdgDataHome with
    | some v => if v ≠ "" then .ok v else localShare env
    | none => localShare env
  .ok (push (push base "svault") "pins")

/-- The file of the pin for a socket. -/
def pinPath [Crypto] (env : Environment) (socket : Path) : Except VaultError Path := do
  let dir ← pinDir env
  .ok (push dir (hex (Crypto.sha256 (utf8 (canonicalSocketPath env.cwd socket))).1 ++ ".pin"))

/-! ## Hex -/

/-- The bytes that a string of hex digits names, in either case. -/
def unhexDigits : List Char → Option Bytes
  | [] => some []
  | [_] => none
  | a :: b :: rest => do
    let hi ← hexVal a
    let lo ← hexVal b
    let xs ← unhexDigits rest
    some (UInt8.ofNat (16 * hi + lo) :: xs)

def unhex (s : String) : Option Bytes := unhexDigits s.toList

def fingerprint (publicKey : Key) : String := hex publicKey.1

/-- A fingerprint is 64 hex digits. -/
def parseFingerprint (s : String) : Except VaultError Key :=
  if s.utf8ByteSize ≠ 64 ∨ ¬ s.toList.all (fun c => (hexVal c).isSome) then
    .error (.invalidInput "fingerprint must be 64 hex characters")
  else
    ((unhex s).bind (FixedBytes.ofBytes? 32)).elim
      (.error (.invalidInput "fingerprint must be 64 hex characters")) .ok

/-- A field of an object that is a string of `n` bytes in hex. -/
def hexField (n : Nat) (v : Value) (field : String) : Option (FixedBytes n) :=
  (((v.get? field).bind Value.asStr).bind unhex).bind (FixedBytes.ofBytes? n)

/-! ## A connection -/

/-- One connection of a client: the pin files, what is on the socket, and what its calls meet. -/
structure Connection where
  env : Environment
  /-- The pin files. -/
  files : Path → Option Bytes
  /-- Whether a file is there cannot be found out. -/
  hidden : Bool
  reads : Option IoError
  dirs : Option IoError
  saves : Option IoError
  rng : Nat → Option (Nat → UInt8)
  /-- Connecting fails, or the process behind the socket does not hold its lock. -/
  connects : Option IoError
  verified : Bool
  /-- What was written to the socket, and which writes fail. -/
  sent : List WireRequest
  sends : Nat → Option IoError
  /-- What the socket delivers, and the error at the end of it, if it is no end of file. -/
  incoming : BufRead
  stops : Option IoError
  /-- What is typed at the terminal, if there is one. -/
  tty : Option (Except IoError String)

abbrev Client (α : Type) := Prog VaultError Connection α

def randomBytes (n : Nat) : Client (FixedBytes n) := .step fun c =>
  (.ofOption (.io none "csprng failure") ((c.rng 0).map fun f => .ofFn fun i => f i),
   { c with rng := fun i => c.rng (i + 1) })

/-- The identifier of a request. -/
def requestId : Client String := do
  let b ← randomBytes 8
  pure (hex b.1)

section Wire
variable [RequestJson] [ResponseJson]

/-- Write a request; where that fails, a part of it may be out. -/
def send (req : WireRequest) : Client Unit := .step fun c =>
  match RequestJson.toString req with
  | none => (.error (.protocol "request serialization"), c)
  | some _ => (.ofExcept ((c.sends 0).elim (.ok ()) fun e => .error e.toVaultError),
      { c with sent := c.sent ++ [req], sends := fun i => c.sends (i + 1) })

/-- What is left when a buffered reader is dropped: its buffer is lost. -/
def dropReader (before after : BufRead) : BufRead :=
  if before.drop (before.length - after.length) = after then after else after.tail

/-- Read one line; what cannot be read is no end of file. -/
def readLine (stops : Option IoError) (stream : BufRead) : Except VaultError Bytes × BufRead :=
  match readLineBounded [] stream, stops with
  | (.error (.protocol _), rest), some e => (.error e.toVaultError, rest)
  | read, _ => read

def parseResponse (line : Bytes) : Except VaultError WireResponse :=
  match ResponseJson.fromSlice line with
  | none => .error (.protocol "invalid response")
  | some resp => if resp.v ≠ VERSION then .error (.protocol "unsupported protocol version") else .ok resp

/-- Read one response through a reader of its own. -/
def readResponse : Client WireResponse := .step fun c =>
  let (line, rest) := readLine c.stops c.incoming
  (.ofExcept (line.bind parseResponse), { c with incoming := dropReader c.incoming rest })

end Wire

/-! ## Pins -/

/-- What a pin says. -/
def pinValue (canon : Path) (key : Key) : Value := json [("socket", .string canon), ("key_hex", .string (hex key.1))]

/-- The content of a pin. -/
def pinDoc [Json] (canon : Path) (key : Key) : Bytes := utf8 (Json.render (pinValue canon key))

/-- The text of a pin is that of an object, and is read as what was written. -/
class LawfulPins [Json] : Prop where
  head_pin (canon : Path) (key : Key) : (Json.render (pinValue canon key)).toList.head? = some '{'
  parse_pin (canon : Path) (key : Key) : Json.parse (Json.render (pinValue canon key)) = some (pinValue canon key)

def corruptPin : VaultError := .brokerUntrusted "broker pin file is corrupt; delete it and re-pin at a TTY"

/-- The key in a pin for a socket. A pin of an older version is the key itself. -/
def readPin [Json] (canon : Path) (bytes : Bytes) : Except VaultError Key :=
  match if bytes.head? = some 0x7b then none else FixedBytes.ofBytes? 32 bytes with
  | some key => .ok key
  | none => do
    let v ← ((fromUtf8 bytes).bind Json.parse).elim (.error corruptPin) .ok
    let stored ← ((v.get? "socket").bind Value.asStr).elim (.error corruptPin) .ok
    if stored ≠ canon then
      .error (.brokerUntrusted
        "broker pin is for a different socket path; refusing to send credentials (re-pin this exact path at a TTY)")
    else (hexField 32 v "key_hex").elim (.error corruptPin) .ok

section Pins
variable [Crypto] [Json]

/-- The key that is pinned for a socket. -/
def loadPin (socket : Path) : Client (Option Key) := do
  let c ← .get
  let path ← .lift (.ofExcept (pinPath c.env socket))
  match if c.hidden then none else c.files path with
  | none => pure none
  | some bytes => do
    .lift (.ofExcept (c.reads.elim (.ok ()) fun e => .error e.toVaultError))
    let key ← .lift (.ofExcept (readPin (canonicalSocketPath c.env.cwd socket) bytes))
    pure (some key)

/-- Pin a key for a socket. -/
def storePin (socket : Path) (key : Key) : Client Unit := do
  let c ← .get
  let path ← .lift (.ofExcept (pinPath c.env socket))
  .lift (.ofExcept (c.dirs.elim (.ok ()) fun e => .error e.toVaultError))
  .lift (.ofExcept (c.saves.elim (.ok ()) fun e => .error e.toVaultError))
  .modify fun c => { c with
    files := Function.update c.files path (some (pinDoc (canonicalSocketPath c.env.cwd socket) key)) }

/-- What is to be done with the key that a broker presents. -/
inductive PinDecision where
  | proceed (pinned : Key)
  | needHumanConfirm (presented : Key)

def decidePin (socket : Path) (presented : Key) (helloOk : Bool) (trustFingerprint : Option Key) (interactive : Bool) :
    Client PinDecision := do
  match ← loadPin socket with
  | some pinned =>
    if helloOk ∧ pinned = presented then pure (.proceed pinned)
    else .fail (.brokerUntrusted ("broker identity does not match the pinned key; refusing to send credentials " ++
      "(run `svault trust show` to compare, `trust reset` + re-pin after investigation)"))
  | none =>
    if ¬helloOk then .fail (.brokerUntrusted "broker signature verification failed")
    else if trustFingerprint.any fun fp => fp ≠ presented then
      .fail (.brokerUntrusted
        "broker fingerprint does not match --trust-fingerprint; refusing to send credentials")
    else if ¬interactive then
      .fail (.brokerUntrusted ("no pinned broker identity for this socket; refusing to send credentials " ++
        "(a human must pin once at a TTY: run any svault command interactively, verify the fingerprint out-of-band, " ++
        "answer `yes`)"))
    else pure (.needHumanConfirm presented)

end Pins

/-! ## The handshake -/

/-- The bytes that the daemon signs. -/
def signedMessage (clientNonce serverNonce : HelloNonce) (canon : Path) : Bytes :=
  DOMAIN ++ clientNonce.1 ++ serverNonce.1 ++ utf8 canon

/-- What an exchange of nonces came to. -/
structure Hello where
  clientNonce : HelloNonce
  serverNonce : HelloNonce
  /-- The key that the broker presented. -/
  key : Key
  signature : FixedBytes 64

/-- The line without credentials that begins a connection. -/
def helloRequest (id : String) (clientNonce : HelloNonce) : WireRequest :=
  ⟨VERSION, { id, op := HELLO_OP, auth := none, params := json [("client_nonce", .string (hex clientNonce.1))] }⟩

section Handshake
variable [Ed25519]

/-- The key has signed the nonces for the socket. -/
def verifyHello (canon : Path) (h : Hello) : Except VaultError Unit :=
  if Ed25519.wellFormed h.key = false then .error (.brokerUntrusted "broker public key is malformed")
  else if Ed25519.verify h.key (signedMessage h.clientNonce h.serverNonce canon) h.signature then .ok ()
  else .error (.brokerUntrusted "broker signature verification failed")

/-- What a result presents, for the nonce that was sent. -/
def parseHello (clientNonce : HelloNonce) (result : Value) : Except VaultError Hello := do
  let key ← (hexField 32 result "public_key").elim
    (.error (.brokerUntrusted "broker handshake presented no public key")) .ok
  let serverNonce ← (hexField NONCE_LEN result "server_nonce").elim
    (.error (.brokerUntrusted "broker handshake presented no server nonce")) .ok
  let signature ← (hexField 64 result "signature").elim
    (.error (.brokerUntrusted "broker handshake presented no signature")) .ok
  .ok { clientNonce, serverNonce, key, signature }

variable [RequestJson] [ResponseJson]

/-- Send a fresh nonce. -/
def greet : Client (HelloNonce × String) := do
  let clientNonce ← randomBytes NONCE_LEN
  let id ← requestId
  send (helloRequest id clientNonce)
  pure (clientNonce, id)

/-- The result that a response carries. -/
def helloResult (refused : Option WireError → String) (resp : WireResponse) : Except VaultError Value :=
  match resp.ok, resp.result with
  | true, some result => .ok result
  | true, none => .error (.brokerUntrusted "broker handshake empty")
  | false, _ => .error (.brokerUntrusted (refused resp.error))

/-- Read the reply and check the signature. The two handshakes differ in what they say of a failure. -/
def checkReply (readError : VaultError → VaultError) (refused : Option WireError → String)
    (badSignature : VaultError → VaultError) (socket : Path) (clientNonce : HelloNonce) (id : String) :
    Client Hello := do
  let resp ← readResponse.mapError readError
  if resp.id ≠ id then .fail (.brokerUntrusted "broker handshake id mismatch")
  else
    let result ← .lift (.ofExcept (helloResult refused resp))
    let h ← .lift (.ofExcept (parseHello clientNonce result))
    let c ← .get
    .lift (.ofExcept ((verifyHello (canonicalSocketPath c.env.cwd socket) h).mapError badSignature))
    pure h

def checkStrict (socket : Path) : HelloNonce → String → Client Hello :=
  checkReply (fun _ => .brokerUntrusted "broker handshake failed") (fun _ => "broker handshake refused") id socket

def checkInteractive (socket : Path) : HelloNonce → String → Client Hello :=
  checkReply id (fun error => "broker handshake refused" ++ (error.map fun e => ": " ++ e.msg).getD "")
    (fun _ => .brokerUntrusted "broker signature verification failed") socket

variable [Crypto] [Json]

/-- The handshake of a client that nobody sits at. -/
def handshakeStrict (socket : Path) : Client Unit := do
  let (clientNonce, id) ← greet
  let h ← checkStrict socket clientNonce id
  match ← decidePin socket h.key true none false with
  | .proceed _ => pure ()
  | .needHumanConfirm _ => .fail (.brokerUntrusted
      ("no pinned broker identity for this socket; refusing to send credentials " ++
        "(a human must pin once at a TTY: run any `svault` command interactively, " ++
        "verify the fingerprint out-of-band, answer `yes`)"))

/-- The human at the terminal types `yes`. -/
def confirmBrokerPin (fingerprint : Key) (expected : Option Key) : Client Unit := do
  if expected.any fun fp => fp ≠ fingerprint then
    .fail (.brokerUntrusted "broker fingerprint does not match --trust-fingerprint; refusing to send credentials")
  else
    let c ← .get
    match c.tty with
    | none => .fail (.brokerUntrusted ("no pinned broker identity for this socket; refusing to send credentials " ++
        "(a human must pin once at a TTY: run any svault command interactively, verify the fingerprint out-of-band, " ++
        "answer `yes`)"))
    | some (.error e) => .fail e.toVaultError
    | some (.ok line) =>
      if trim line.toList ≠ "yes".toList then
        .fail (.brokerUntrusted "broker identity not confirmed; refusing to send credentials")
      else pure ()

inductive TrustMode where
  | nonInteractive
  | interactive
  deriving DecidableEq, Repr

structure ConnectOptions where
  trust : TrustMode
  trustFingerprint : Option Key

def handshakeInteractive (socket : Path) (opts : ConnectOptions) : Client Unit := do
  let (clientNonce, id) ← greet
  let h ← checkInteractive socket clientNonce id
  match ← decidePin socket h.key true opts.trustFingerprint true with
  | .proceed _ => pure ()
  | .needHumanConfirm fp => do
    confirmBrokerPin fp opts.trustFingerprint
    storePin socket h.key

def handshake (socket : Path) (opts : ConnectOptions) : Client Unit :=
  if opts.trust ≠ .interactive then
    if opts.trustFingerprint.isSome then .fail (.brokerUntrusted
      ("refusing to pin a broker identity non-interactively; refusing to send credentials " ++
        "(a human must pin once at a TTY: run any `svault` command interactively, " ++
        "verify the fingerprint out-of-band, answer `yes`)"))
    else handshakeStrict socket
  else handshakeInteractive socket opts

/-- The process behind the socket is the one that holds its lock. -/
def reach (refused : VaultError) : Client Unit := do
  let c ← .get
  .lift (.ofExcept (c.connects.elim (.ok ()) fun e => .error e.toVaultError))
  if c.verified then pure () else .fail refused

def connectWith (socket : Path) (opts : ConnectOptions) : Client Unit := do
  reach (.brokerUntrusted ("server identity could not be verified; refusing to send credentials " ++
    "(no svault daemon holds the instance lock for this socket)"))
  handshake socket opts

/-! ## Calls -/

def checkedResult (resp : WireResponse) (id : String) : Except VaultError Value :=
  if resp.id ≠ id then .error (.protocol "response id mismatch")
  else if resp.ok then .ok (resp.result.getD .null)
  else match resp.error with
    | some err =>
      if err.code = "E_SESSION_EXPIRED" then .error .sessionExpired
      else if err.code = "E_AUTH" then .error .auth
      else .error (.protocol err.msg)
    | none => .error (.protocol "error without message")

/-- One request and its response. -/
def call (op : String) (auth : Auth) (params : Value) : Client Value := do
  let id ← requestId
  send ⟨VERSION, { id, op, auth := authField auth, params }⟩
  let resp ← readResponse
  .lift (.ofExcept (checkedResult resp id))

end Handshake

/-! ## The daemon -/

/-- The identity of a daemon, and where it serves. -/
structure Identity where
  signing : Key
  socketPath : Path
  cwd : Option Path

section Daemon
variable [Ed25519]

def Identity.publicKey (d : Identity) : Key := Ed25519.verifyingKey d.signing

def Identity.canon (d : Identity) : Path := canonicalSocketPath d.cwd d.socketPath

/-- The signature over the nonces; the server's is drawn, if one can be. -/
def Identity.helloReply (d : Identity) (clientNonce : HelloNonce) (drawn : Option HelloNonce) :
    Except VaultError (HelloNonce × FixedBytes 64) :=
  match drawn with
  | none => .error (.io none "csprng failure")
  | some serverNonce => .ok (serverNonce, Ed25519.sign d.signing (signedMessage clientNonce serverNonce d.canon))

/-- What the daemon presents. -/
def helloValue (key : Key) (serverNonce : HelloNonce) (signature : FixedBytes 64) : Value :=
  json [("public_key", .string (hex key.1)), ("server_nonce", .string (hex serverNonce.1)),
    ("signature", .string (hex signature.1))]

/-- Answer a hello. -/
def Identity.answerHello (d : Identity) (drawn : Option HelloNonce) (req : Request) : Response :=
  match hexField NONCE_LEN req.params "client_nonce" with
  | none => ⟨req.id, .error (.of "E_PROTOCOL" "broker.hello needs a 32-byte hex client_nonce")⟩
  | some clientNonce =>
    match d.helloReply clientNonce drawn with
    | .ok (serverNonce, sig) => ⟨req.id, .ok (helloValue d.publicKey serverNonce sig)⟩
    | .error e => ⟨req.id, .error e.wire⟩

end Daemon

/-! ## What is written is read -/

/-- The digits that a byte string is written with name it. -/
theorem unhex_of_hex (b : Bytes) : unhex (hex b) = some b := by
  rw [unhex, hex, String.toList_ofList]
  induction b with
  | nil => rfl
  | cons x xs ih =>
    have hx : x.toNat < 256 := x.toNat_lt
    obtain ⟨h1, -, -⟩ := hexDigit_spec (x.toNat / 16) (by omega)
    obtain ⟨h2, -, -⟩ := hexDigit_spec (x.toNat % 16) (by omega)
    have hval : 16 * (x.toNat / 16) + x.toNat % 16 = x.toNat := by omega
    rw [hexChars, List.flatMap_cons]
    change unhexDigits (_ :: _ :: hexChars xs) = _
    rw [unhexDigits, h1, h2, ih]
    simp only [Option.bind_eq_bind, Option.bind_some, hval, UInt8.ofNat_toNat]

theorem hexField_eq {n : Nat} {v : Value} {field : String} (b : FixedBytes n)
    (h : v.get? field = some (.string (hex b.1))) :
    hexField n v field = some b := by
  rw [hexField, h]
  simp only [Option.bind_some, Value.asStr, unhex_of_hex, FixedBytes.ofBytes?_val]

theorem utf8_injective : Function.Injective utf8 := by
  intro a b h
  have hread := fromUtf8_utf8 a
  rw [h, fromUtf8_utf8] at hread
  exact (Option.some.inj hread).symm

/-- The signed bytes name the nonces and the socket. -/
theorem signedMessage_inj {n n' sn sn' : HelloNonce} {canon canon' : Path}
    (h : signedMessage n sn canon = signedMessage n' sn' canon') : n = n' ∧ sn = sn' ∧ canon = canon' := by
  simp only [signedMessage, List.append_assoc] at h
  obtain ⟨hn, h⟩ := List.append_inj (List.append_cancel_left h) (by rw [n.2, n'.2])
  obtain ⟨hsn, h⟩ := List.append_inj h (by rw [sn.2, sn'.2])
  exact ⟨Subtype.ext hn, Subtype.ext hsn, utf8_injective h⟩

theorem helloValue_eq (key : Key) (serverNonce : HelloNonce) (signature : FixedBytes 64) :
    helloValue key serverNonce signature = .object [("public_key", .string (hex key.1)),
      ("server_nonce", .string (hex serverNonce.1)), ("signature", .string (hex signature.1))] := by
  have h1 : "public_key" < "server_nonce" := by decide
  have h2 : "public_key" < "signature" := by decide
  have h3 : "server_nonce" < "signature" := by decide
  simp [helloValue, json, Value.insertEntry, h1.not_gt, h2.not_gt, h3.not_gt]

theorem hexField_signature (key : Key) (serverNonce : HelloNonce) (signature : FixedBytes 64) :
    hexField 64 (helloValue key serverNonce signature) "signature" = some signature :=
  hexField_eq signature (by simp [helloValue_eq, Value.get?])

/-- What a daemon presents is read. -/
theorem parseHello_helloValue (clientNonce : HelloNonce) (key : Key) (serverNonce : HelloNonce)
    (signature : FixedBytes 64) :
    parseHello clientNonce (helloValue key serverNonce signature) = .ok ⟨clientNonce, serverNonce, key, signature⟩ := by
  have hkey : hexField 32 (helloValue key serverNonce signature) "public_key" = some key :=
    hexField_eq key (by simp [helloValue_eq, Value.get?])
  have hnonce : hexField NONCE_LEN (helloValue key serverNonce signature) "server_nonce" = some serverNonce :=
    hexField_eq serverNonce (by simp [helloValue_eq, Value.get?])
  rw [parseHello, hkey, hnonce, hexField_signature]
  rfl

theorem hexField_hello (id : String) (clientNonce : HelloNonce) :
    hexField NONCE_LEN (helloRequest id clientNonce).body.params "client_nonce" = some clientNonce :=
  hexField_eq clientNonce (by simp [helloRequest, json, Value.insertEntry, Value.get?])

/-- A daemon that can draw a nonce signs every hello. -/
theorem answerHello_hello [Ed25519] (d : Identity) (drawn : HelloNonce) (id : String) (clientNonce : HelloNonce) :
    d.answerHello (some drawn) (helloRequest id clientNonce).body = ⟨id, .ok (helloValue d.publicKey drawn
      (Ed25519.sign d.signing (signedMessage clientNonce drawn d.canon)))⟩ := by
  rw [Identity.answerHello, hexField_hello]
  rfl

theorem pinValue_eq (canon : Path) (key : Key) :
    pinValue canon key = .object [("key_hex", .string (hex key.1)), ("socket", .string canon)] := by
  have hlt : "key_hex" < "socket" := by decide
  simp [pinValue, json, Value.insertEntry, hlt]

theorem pinValue_socket (canon : Path) (key : Key) : (pinValue canon key).get? "socket" = some (.string canon) := by
  simp [pinValue_eq, Value.get?]

theorem pinValue_key (canon : Path) (key : Key) : (pinValue canon key).get? "key_hex" = some (.string (hex key.1)) := by
  simp [pinValue_eq, Value.get?]

section Pins
variable [Json] [LawfulPins]

theorem pinDoc_head (canon : Path) (key : Key) : (pinDoc canon key).head? = some 0x7b := by
  have hbytes : pinDoc canon key = (Json.render (pinValue canon key)).toList.flatMap String.utf8EncodeChar := by
    have hs : (Json.render (pinValue canon key)).toUTF8 = (Json.render (pinValue canon key)).toList.utf8Encode := by
      simp
    rw [pinDoc, utf8, hs, List.utf8Encode, List.toList_data_toByteArray]
  obtain ⟨rest, hrest⟩ := List.head?_eq_some_iff.mp (LawfulPins.head_pin canon key)
  rw [hbytes, hrest, List.flatMap_cons]
  rfl

/-- A pin is read for the socket that it was written for, and for no other. -/
theorem readPin_pinDoc (canon canon' : Path) (key : Key) : readPin canon' (pinDoc canon key) =
    if canon = canon' then .ok key else .error (.brokerUntrusted
      "broker pin is for a different socket path; refusing to send credentials (re-pin this exact path at a TTY)") := by
  rw [readPin, if_pos (pinDoc_head canon key), pinDoc, fromUtf8_utf8, Option.bind_some, LawfulPins.parse_pin]
  have hok : ∀ (v : Value) (f : Value → Except VaultError Key), (Except.ok v >>= f) = f v := fun _ _ => rfl
  simp only [Option.elim_some, hok, pinValue_socket, hexField_eq key (pinValue_key canon key), Option.bind_some,
    Value.asStr]
  by_cases hc : canon = canon'
  · subst hc
    rw [if_pos rfl]
    exact if_neg (not_not.mpr rfl)
  · rw [if_neg hc]
    exact if_pos hc

end Pins

end SecretsVault.Trust
