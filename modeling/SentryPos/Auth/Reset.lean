import SentryPos.Auth.Login

/-!
This module contains the confirmation of a password reset.
-/

namespace SentryPos.Auth

open ReadCommitted

structure PasswordResetConfirmDto where
  token : String
  password : String
  token_ne : token ≠ ""
  password_length : 8 ≤ password.length

def consumeToken (svc : Services) (token : String) (kind : AuthTokenKind) : AuthCall AuthToken := do
  let found ← Call.queryOnTx .findToken fun db =>
    db.authTokens.find? fun t => t.tokenHash = svc.sha256 token
  match found with
  | none => throw .invalidToken
  | some row =>
    if row.kind ≠ kind || row.usedAt.isSome then
      throw .invalidToken
    let now ← AuthCall.now
    if row.expiresAt < now then
      throw .invalidToken
    let usedAt ← AuthCall.now
    Call.write .updateToken (fun _ => [.authToken row.id]) fun view =>
      if (view.authToken? row.id).any (·.usedAt.isNone) then .ok [.useAuthToken row.id usedAt]
      else .error .invalidToken
    return row

/-- `salt` is the one of the new password's hash. -/
def confirmReset (svc : Services) (dto : PasswordResetConfirmDto) (salt : String)
    : AuthCall Unit := do
  let passwordHash := svc.hashSecret salt dto.password
  Call.transaction .commit do
    let row ← consumeToken svc dto.token .reset
    AuthCall.execute .updateUser (.setPassword row.userId passwordHash)
    revokeAll row.userId

end SentryPos.Auth
