import Mathlib.Data.String.Basic
import SecretsVault.Broker
import SecretsVault.Mcp.Framing

/-!
# The adapter for agents

The adapter reads JSON-RPC messages, one in a line, and makes at most one broker request for each. A lease credential
that the broker issues stays in the adapter, under the handle of its lease; a later call that names the handle is sent
with the credential in its place.

`handleMessage` is one message up to the request it needs, with what happens on its answer; `serve` is the loop.
-/

namespace SecretsVault

open Lib

/-! ## Objects -/

namespace Value

/-- The entries of an object are in the order of their keys. -/
def insertEntry (key : String) (v : Value) : List (String × Value) → List (String × Value)
  | [] => [(key, v)]
  | (k, x) :: rest =>
    if k = key then (key, v) :: rest
    else if key < k then (key, v) :: (k, x) :: rest
    else (k, x) :: insertEntry key v rest

/-- An entry of an object is set. -/
def set (v : Value) (key : String) (x : Value) : Value :=
  match v with
  | .object entries => .object (insertEntry key x entries)
  | v => v

/-- An entry of an object is removed. -/
def remove (v : Value) (key : String) : Value :=
  match v with
  | .object entries => .object (entries.filter fun e => e.1 != key)
  | v => v

/-- An object with these entries. -/
def json (entries : List (String × Value)) : Value := .object (entries.foldl (fun es e => insertEntry e.1 e.2 es) [])

def isObject : Value → Bool
  | .object _ => true
  | _ => false

end Value

/-- Reading and writing the text of a value. -/
class Json where
  parse : String → Option Value
  render : Value → String

namespace Mcp

open Value (json)

/-! ## The client -/

/-- With what the client authenticates. -/
inductive Auth where
  | none
  | agentToken (token : String)
  | passphrase (passphrase : String)
  | session (credential : String)

def authField : Auth → Option AuthField
  | .none => .none
  | .agentToken t => some { token := some t, passphrase := .none, session := .none }
  | .passphrase p => some { token := .none, passphrase := some p, session := .none }
  | .session s => some { token := .none, passphrase := .none, session := some s }

/-- A failure of a call, whether the broker refused or could not be reached. -/
abbrev BrokerError := WireError

/-- What is sent to the broker. -/
structure Sent where
  op : String
  auth : Option AuthField
  params : Value

abbrev Answer := Except BrokerError Value

/-- The broker behind the socket: what it answers in a state, and the state after. -/
abbrev Broker (σ : Type) := σ → Sent → Answer × σ

/-! ## The tools -/

/-- The operation of a tool. -/
def toolOp (name : String) : Option String :=
  match name with
  | "list_secrets" => some "secrets.list"
  | "inject_file" => some "inject_file"
  | "reveal" => some "reveal"
  | "approval_status" => some "approvals.status"
  | "lease_create" => some "lease.create"
  | "lease_revoke" => some "lease.revoke"
  | _ => none

/-- The operation of the tool can be narrowed by a lease. -/
def consumesLease (tool : String) : Bool := tool = "list_secrets" || tool = "inject_file" || tool = "reveal"

def strProp (desc : String) : Value := json [("type", .string "string"), ("description", .string desc)]

def toolSchema (name description : String) (required : List String) (properties : List (String × Value)) : Value :=
  json [("name", .string name), ("description", .string description),
    ("inputSchema", json [("type", .string "object"), ("required", .array (required.map .string)),
      ("properties", json properties)])]

def leaseIdProp : Value := strProp "Optional lease handle from lease_create (the credential stays server-side)"

/-- The tools as they are advertised. -/
def toolsList : Value :=
  .array [
    toolSchema "list_secrets" "List a project's secret key names and metadata — never values." ["project"]
      [("project", strProp "Project name"), ("lease_id", leaseIdProp)],
    toolSchema "inject_file"
      "Write project secrets to a dotenv file under an authorized folder; returns names and counts only."
      ["project", "path"]
      [("project", strProp "Project name"), ("path", strProp "Relative destination path under an authorized folder"),
        ("keys", json [("type", .string "array"), ("items", json [("type", .string "string")]),
          ("description", .string "Secret names to write (omitted = all)")]),
        ("lease_id", leaseIdProp)],
    toolSchema "reveal"
      "Reveal one secret value. Without approval_id this requests approval (E_APPROVAL_PENDING with approval_id); with an approved approval_id it claims the value exactly once."
      ["project", "key"]
      [("project", strProp "Project name"), ("key", strProp "Secret key name"),
        ("approval_id", strProp "Approval from a prior pending reveal"), ("lease_id", leaseIdProp)],
    toolSchema "approval_status" "Poll an own approval's state: pending | approved | denied | expired | consumed."
      ["approval_id"] [("approval_id", strProp "Approval id from a pending reveal")],
    toolSchema "lease_create"
      "Create a lease: a TTL-bound subset of the caller's own grant on a project. Returns the public lease handle; the lease credential is retained server-side and is never returned to the model."
      ["project", "ops", "ttl_secs"]
      [("project", strProp "Project name"), ("ops", strProp "Comma-separated op subset, e.g. read,inject"),
        ("ttl_secs", json [("type", .string "integer"), ("minimum", .posInt 1),
          ("description", .string "Time to live in seconds")])],
    toolSchema "lease_revoke" "Revoke an owned lease immediately." ["lease_id"]
      [("lease_id", strProp "Lease handle from lease_create")]]

/-! ## One message -/

/-- The credential that is held for a handle. -/
abbrev Leases := String → Option String

structure Adapter where
  auth : Auth
  leases : Leases

/-- The string of an entry. -/
def strOf (v : Value) (key : String) : Option String := (v.get? key).bind Value.asStr

/-- The arguments with the credential in place of the handle, or why they are refused. -/
def Adapter.applyLease (adapter : Adapter) (args : Value) : Except (String × String) Value :=
  if args.present "lease" then
    .error ("E_INVALID_INPUT", "lease credentials are not accepted from the caller; use lease_id")
  else
    match strOf args "lease_id" with
    | none => .ok args
    | some handle =>
      match adapter.leases handle with
      | none => .error ("E_LEASE_EXPIRED", s!"unknown lease: {handle}")
      | some credential => .ok ((args.set "lease" (.string credential)).remove "lease_id")

def rpcResult (id result : Value) : Value := json [("jsonrpc", .string "2.0"), ("id", id), ("result", result)]

def rpcError (id : Value) (code : Int) (message : String) : Value :=
  json [("jsonrpc", .string "2.0"), ("id", id), ("error", json [("code", .negInt code), ("message", .string message)])]

/-- A message up to the request that it needs: then what is answered, and the adapter after. -/
inductive Handling where
  | done (resp : Option Value) (adapter : Adapter)
  | ask (sent : Sent) (answered : Answer → Option Value × Adapter)

/-- A human session is refused before anything is sent. -/
def brokerCall (auth : Auth) (op : String) (params : Value) (answered : Answer → Option Value × Adapter) : Handling :=
  match auth with
  | .session _ =>
    let (resp, adapter) := answered (.error (.of "E_PROTOCOL" "human sessions are not available to agent tools"))
    .done resp adapter
  | auth => .ask { op, auth := authField auth, params } answered

/-- The credential of a new lease is kept under its handle. -/
def keepCredential (leases : Leases) (body : Value) : Leases :=
  match strOf body "lease_id", strOf body "lease_credential" with
  | some handle, some credential => Function.update leases handle (some credential)
  | _, _ => leases

/-- The credential of a revoked lease is dropped. -/
def dropCredential (leases : Leases) (body : Value) : Leases :=
  match strOf body "lease_id" with
  | some handle => Function.update leases handle none
  | none => leases

section Messages

variable [Json]

def toolText (text : Value) : Value := json [("type", .string "text"), ("text", .string (Json.render text))]

/-- The answer to a tool call that succeeded, and to one that failed. -/
def toolResult (id body : Value) : Value := rpcResult id (json [("content", .array [toolText body])])

def toolError (id detail : Value) : Value :=
  rpcResult id (json [("content", .array [toolText detail]), ("isError", .bool true)])

/-- What the adapter makes of the answer of the broker. -/
def answered (adapter : Adapter) (id : Value) (name : String) : Answer → Option Value × Adapter
  | .ok result =>
    let leases := if name = "lease_create" then keepCredential adapter.leases result else adapter.leases
    let body := if name = "lease_create" then result.remove "lease_credential" else result
    let leases := if name = "lease_revoke" then dropCredential leases body else leases
    (some (toolResult id body), { adapter with leases })
  | .error e =>
    let detail := json [("code", .string e.code), ("message", .string e.msg)]
    let detail := match e.data with
      | some d => detail.set "data" d
      | none => detail
    (some (toolError id detail), adapter)

/-- The tool that a message calls, and the arguments as they are passed. -/
def toolName (msg : Value) : String := (strOf (msg.index "params") "name").getD ""

def toolArgs (msg : Value) : Value := ((msg.index "params").get? "arguments").getD (json [])

/-- The arguments as they are sent; what is no object counts for an empty one. -/
def callArgs (adapter : Adapter) (msg : Value) : Except (String × String) Value :=
  let args := if (toolArgs msg).isObject then toolArgs msg else json []
  if consumesLease (toolName msg) then adapter.applyLease args else .ok args

def toolsCall (adapter : Adapter) (id msg : Value) : Handling :=
  let name := toolName msg
  match toolOp name with
  | none => .done (some (rpcError id (-32602) s!"unknown tool: {name}")) adapter
  | some op =>
    match callArgs adapter msg with
    | .error (code, why) =>
      .done (some (toolError id (json [("code", .string code), ("message", .string why)]))) adapter
    | .ok args => brokerCall adapter.auth op args (answered adapter id name)

def methodOf (msg : Value) : String := (strOf msg "method").getD ""

def handshake (msg : Value) : Value :=
  json [("protocolVersion", .string ((strOf (msg.index "params") "protocolVersion").getD "2024-11-05")),
    ("capabilities", json [("tools", json [])]),
    ("serverInfo", json [("name", .string "svault"), ("version", .string "0.1.0")])]

def handleMessage (adapter : Adapter) (msg : Value) : Handling :=
  let id := msg.index "id"
  let hasId := msg.present "id"
  match methodOf msg with
  | "initialize" => .done (some (rpcResult id (handshake msg))) adapter
  | "ping" => .done (some (rpcResult id (json []))) adapter
  | "tools/list" => .done (some (rpcResult id (json [("tools", toolsList)]))) adapter
  | "tools/call" => toolsCall adapter id msg
  | "notifications/initialized" | "notifications/cancelled" => .done none adapter
  | "" => .done (if hasId then some (rpcError id (-32600) "invalid request") else none) adapter
  | _ => .done (if hasId then some (rpcError id (-32601) "method not found") else none) adapter

/-! ## The loop -/

/-- A message that was handled, with the call that was made for it. -/
structure Event where
  msg : Value
  call : Option (Sent × Answer)

/-- Where the loop is: the adapter, the broker, what was written and the messages that were handled. -/
structure Serving (σ : Type) where
  adapter : Adapter
  broker : σ
  out : Bytes
  log : List Event

variable {σ : Type}

/-- A response is one line. -/
def line (resp : Value) : Bytes := utf8 (Json.render resp) ++ [lf]

def Serving.say (t : Serving σ) (resp : Value) : Serving σ := { t with out := t.out ++ line resp }

def Serving.message (broker : Broker σ) (t : Serving σ) (msg : Value) : Serving σ :=
  match handleMessage t.adapter msg with
  | .done resp adapter =>
    { t with adapter, out := t.out ++ resp.elim [] line, log := t.log ++ [⟨msg, none⟩] }
  | .ask sent answered =>
    let (answer, after) := broker t.broker sent
    let (resp, adapter) := answered answer
    { adapter, broker := after, out := t.out ++ resp.elim [] line, log := t.log ++ [⟨msg, some (sent, answer)⟩] }

/-- A line that is not UTF-8 or not JSON is answered, a blank one is not. -/
def Serving.line (broker : Broker σ) (t : Serving σ) (raw : Bytes) : Serving σ :=
  match fromUtf8 raw with
  | none => t.say (rpcError .null (-32700) "parse error")
  | some text =>
    if (trim text.toList).isEmpty then t
    else
      match Json.parse text with
      | none => t.say (rpcError .null (-32700) "parse error")
      | some msg => t.message broker msg

def serveFrames (broker : Broker σ) (t : Serving σ) : List Frame → Serving σ
  | [] | .eof :: _ => t
  | .oversize resynced :: rest =>
    let t := t.say (rpcError .null (-32700) "parse error: message too large")
    if resynced then serveFrames broker t rest else t
  | .line raw :: rest => serveFrames broker (t.line broker raw) rest

/-- With a token every call is authenticated; without one the broker refuses. -/
def serveStart (token : Option String) (s : σ) : Serving σ :=
  { adapter := { auth := token.elim .none .agentToken, leases := fun _ => none }, broker := s, out := [], log := [] }

def serve (broker : Broker σ) (token : Option String) (s : σ) (stdin : BufRead) : Serving σ :=
  serveFrames broker (serveStart token s) (frames stdin)

end Messages

end Mcp
end SecretsVault
