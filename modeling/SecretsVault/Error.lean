/-!
# Errors

`VaultError` is the error taxonomy of the vault: `code` is the stable code of audit `reason` fields and of the wire,
`display` the message.
-/

namespace SecretsVault

/-- What an operation can fail with. -/
inductive VaultError where
  | auth
  | locked
  | busy
  | corrupt (why : String)
  | insecureParams
  | weakPassphrase
  | humanRequired
  | exists_
  | notFound
  | permission
  | pathNotAuthorized
  | leaseExpired
  | sessionExpired
  | approvalPending (approvalId : String) (expiresIn : Nat)
  | approvalDenied
  | approvalConsumed
  | approvalExpired
  | tooLarge
  | vaultTooLarge
  | invalidInput (why : String)
  | auditWrite (e : String)
  | auditFull (why : String)
  | mismatch
  | brokerUntrusted (why : String)
  | io (errno : Option Nat) (e : String)
  | protocol (s : String)
  deriving DecidableEq, Repr

namespace VaultError

/-- Stable error code for audit `reason` fields and responses. -/
def code : VaultError → String
  | auth => "E_AUTH"
  | locked => "E_LOCKED"
  | busy => "E_BUSY"
  | corrupt _ => "E_VAULT_CORRUPT"
  | insecureParams => "E_INSECURE_PARAMS"
  | weakPassphrase => "E_WEAK_PASSPHRASE"
  | humanRequired => "E_HUMAN_REQUIRED"
  | exists_ => "E_EXISTS"
  | notFound => "E_NOT_FOUND"
  | permission => "E_PERMISSION"
  | pathNotAuthorized => "E_PATH_NOT_AUTHORIZED"
  | leaseExpired => "E_LEASE_EXPIRED"
  | sessionExpired => "E_SESSION_EXPIRED"
  | approvalPending _ _ => "E_APPROVAL_PENDING"
  | approvalDenied => "E_APPROVAL_DENIED"
  | approvalConsumed => "E_APPROVAL_CONSUMED"
  | approvalExpired => "E_APPROVAL_EXPIRED"
  | tooLarge => "E_TOO_LARGE"
  | vaultTooLarge => "E_VAULT_TOO_LARGE"
  | invalidInput _ => "E_INVALID_INPUT"
  | auditWrite _ => "E_AUDIT_WRITE"
  | auditFull _ => "E_AUDIT_FULL"
  | mismatch => "E_MISMATCH"
  | brokerUntrusted _ => "E_BROKER_UNTRUSTED"
  | io _ _ => "E_IO"
  | protocol _ => "E_PROTOCOL"

/-- The message; it never embeds secret values or key material. -/
def display : VaultError → String
  | auth => "authentication failed"
  | locked => "vault is locked"
  | busy => "too many concurrent operations"
  | corrupt why => "vault file corrupted: " ++ why
  | insecureParams => "kdf parameters outside accepted bounds"
  | weakPassphrase => "passphrase must be at least 12 characters"
  | humanRequired =>
    "interactive passphrase required and no terminal is available; use --passphrase-file for non-interactive use"
  | exists_ => "vault already exists"
  | mismatch => "passphrases do not match"
  | notFound => "not found"
  | permission => "permission denied"
  | pathNotAuthorized => "path outside authorized folders"
  | leaseExpired => "lease expired or revoked"
  | sessionExpired => "session expired or revoked"
  | approvalPending _ _ => "approval pending"
  | approvalDenied => "approval denied"
  | approvalConsumed => "approval already claimed"
  | approvalExpired => "approval expired"
  | tooLarge => "message too large"
  | vaultTooLarge =>
    "vault would exceed the maximum vault size; refusing to store a vault that could not be reopened"
  | invalidInput why => "invalid input: " ++ why
  | auditWrite e => "vault change committed but the audit event failed to write: " ++ e
  | auditFull why => "audit log is full: " ++ why
  | brokerUntrusted why => "broker identity could not be verified; refusing to send credentials: " ++ why
  | io _ e => "io error: " ++ e
  | protocol s => "protocol error: " ++ s

end VaultError

end SecretsVault
