import SecretsVault.Error

/-!
# The wire

What a request and its answer are once the JSON has been read: `Value` is a JSON value, `Request` names an operation
with its credentials and parameters, and an answer is a value or a `WireError`. The typed reads of a parameter give
nothing when the parameter is missing or of another type.
-/

namespace SecretsVault

/-- A JSON value. A number is a 64-bit integer or a float; a float is kept as it is written. -/
inductive Value where
  | null
  | bool (b : Bool)
  | posInt (n : UInt64)
  | negInt (n : Int)
  | float (text : String)
  | string (s : String)
  | array (items : List Value)
  | object (entries : List (String × Value))

namespace Value

/-- The entry of an object. -/
def get? (v : Value) (key : String) : Option Value :=
  match v with
  | .object entries => (entries.find? fun e => e.1 == key).map (·.2)
  | _ => none

/-- The entry of an object, or null. -/
def index (v : Value) (key : String) : Value := (v.get? key).getD .null

def asStr : Value → Option String
  | .string s => some s
  | _ => none

def asU64 : Value → Option Nat
  | .posInt n => some n.toNat
  | _ => none

def asArray : Value → Option (List Value)
  | .array items => some items
  | _ => none

def asObject : Value → Option (List (String × Value))
  | .object entries => some entries
  | _ => none

def isNull : Value → Bool
  | .null => true
  | _ => false

/-- A count. -/
def count (n : Nat) : Value := .posInt (UInt64.ofNat n)

/-- The entry is there, and is not null. -/
def present (v : Value) (key : String) : Bool :=
  match v.get? key with
  | some x => !x.isNull
  | none => false

end Value

/-- The credentials of a request. -/
structure AuthField where
  token : Option String
  passphrase : Option String
  session : Option String
  deriving DecidableEq, Repr

/-- A request of the protocol version this daemon speaks. -/
structure Request where
  id : String
  op : String
  auth : Option AuthField
  params : Value

namespace Request

def token (r : Request) : Option String := r.auth.bind (·.token)

def passphrase (r : Request) : Option String := r.auth.bind (·.passphrase)

def session (r : Request) : Option String := r.auth.bind (·.session)

/-- A parameter that is a string. -/
def str (r : Request) (key : String) : Option String := (r.params.index key).asStr

end Request

/-- Why a request was refused. -/
structure WireError where
  code : String
  msg : String
  data : Option Value

/-- An answer carries a result or an error. -/
structure Response where
  id : String
  outcome : Except WireError Value

namespace WireError

/-- A refusal that carries no data. -/
def of (code msg : String) : WireError := { code, msg, data := none }

/-- A refusal for the shape of the parameters. -/
def invalidInput (msg : String) : WireError := .of "E_INVALID_INPUT" msg

end WireError

/-- An error as it is answered. -/
def VaultError.wire (e : VaultError) : WireError := .of e.code e.display

@[simp] theorem VaultError.wire_code (e : VaultError) : e.wire.code = e.code := rfl

end SecretsVault
