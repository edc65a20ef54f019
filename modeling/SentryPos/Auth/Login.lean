import SentryPos.Auth.Lockout

/-!
This module contains the log in with a password and the refresh tokens: minting, rotation and
log out.
-/

namespace SentryPos.Auth

open ReadCommitted

structure LoginDto where
  email : String
  password : String
  password_ne : password ≠ ""

structure RefreshDto where
  refreshToken : String
  refreshToken_ne : refreshToken ≠ ""

structure FreshToken where
  rawRefresh : String
  id : Uuid

structure TokenPair where
  accessToken : String
  refreshToken : String
  deriving DecidableEq

inductive LoginResult where
  | tokens (pair : TokenPair)
  | totpRequired (preAuthToken : String)
  | totpSetupRequired (preAuthToken : String)
  deriving DecidableEq

def ACCESS_TTL : ℤ := 15 * 60

def PREAUTH_TTL : ℤ := 5 * 60

def REFRESH_TTL_DAYS : ℤ := 30

def REFRESH_TTL : ℤ := REFRESH_TTL_DAYS * 24 * 60 * 60 * 1000

def OwnerStatus.isSuspended : OwnerStatus → Bool
  | .active => false
  | .suspended | .hard_suspended | .closed => true

def refreshTokenRow (svc : Services) (userId : Uuid) (fresh : FreshToken) (now : DateTime)
    : RefreshToken where
  id := fresh.id
  tokenHash := svc.sha256 fresh.rawRefresh
  userId
  expiresAt := now + REFRESH_TTL
  revokedAt := none

def mintTokenPair (svc : Services) (userId : Uuid) (role : UserRole) (ownerId : Option Uuid)
    (fresh : FreshToken) : AuthCall TokenPair := do
  let now ← AuthCall.now
  AuthCall.update .createToken (.insertRefreshToken (refreshTokenRow svc userId fresh now))
  let signedAt ← AuthCall.now
  return {
    accessToken := svc.sign signedAt ACCESS_TTL
      { sub := userId, kind := none, role := some role, sid := some fresh.id, ownerId }
    refreshToken := fresh.rawRefresh
  }

def preauthPayload (userId : Uuid) : JwtPayload where
  sub := userId
  kind := some "preauth"
  role := none
  sid := none
  ownerId := none

def assertNotSuspended (user : User) : AuthCall Unit :=
  match user.ownerId with
  | some ownerId => do
    let owner ← Call.query .findOwner (·.owner? ownerId)
    if owner.any (·.status.isSuspended) then
      throw .ownerSuspended
  | none => return

def issueTokens (svc : Services) (user : User) (fresh : FreshToken) : AuthCall LoginResult :=
  match user.role with
  | .platform_admin => do
    let now ← AuthCall.now
    let preAuthToken := svc.sign now PREAUTH_TTL (preauthPayload user.id)
    if (truthy user.totpSecret).isSome then
      return .totpRequired preAuthToken
    else
      return .totpSetupRequired preAuthToken
  | .owner => do
    let pair ← mintTokenPair svc user.id user.role user.ownerId fresh
    return .tokens pair

def finishLogin (svc : Services) (user : User) (fresh : FreshToken) : AuthCall LoginResult := do
  assertNotSuspended user
  issueTokens svc user fresh

def passwordMatches (svc : Services) (user : User) (password : String) : Bool :=
  user.passwordHash.any fun passwordHash => svc.verifySecret passwordHash password

def login (svc : Services) (dto : LoginDto) (fresh : FreshToken) : AuthCall LoginResult := do
  match ← Call.query .findUser fun db => db.users.find? fun u => u.email = dto.email with
  | none => throw (.loginInvalid 3)
  | some user =>
    withLockout user .login (passwordMatches svc user dto.password) (finishLogin svc user fresh)

/-- `updateMany` on the tokens of a user that have not been revoked: it locks the ones it finds. -/
def revokeAll (userId : Uuid) : AuthCall Unit := do
  let now ← AuthCall.now
  let ids ← Call.queryOnTx .findTokens fun db =>
    (db.refreshTokens.filter fun r => r.userId = userId && r.revokedAt.isNone).map (·.id)
  Call.write .updateToken (fun _ => ids.map .refreshToken) fun view =>
    .ok <| (ids.filter fun id => (view.refreshToken? id).any (·.revokedAt.isNone)).map
      (.revokeRefreshToken · now)

def findRefreshToken (svc : Services) (rawToken : String) : AuthCall (Option RefreshToken) :=
  Call.query .findToken fun db =>
    db.refreshTokens.find? fun r => r.tokenHash = svc.sha256 rawToken

def revokePresented (row : RefreshToken) : AuthCall Unit := do
  let revokedAt ← AuthCall.now
  AuthCall.update .updateToken (.revokeRefreshToken row.id revokedAt)

def refresh (svc : Services) (dto : RefreshDto) (fresh : FreshToken) : AuthCall TokenPair := do
  let found ← Call.query .findToken fun db =>
    (db.refreshTokens.find? fun r => r.tokenHash = svc.sha256 dto.refreshToken).map fun row =>
      (row, db.user? row.userId)
  match found with
  | none => throw (.unauthorized "Invalid refresh token.")
  | some (row, user) =>
    if row.revokedAt.isSome then
      Call.transaction .commit (revokeAll row.userId)
      throw (.unauthorized "Refresh token reuse detected.")
    let now ← AuthCall.now
    if row.expiresAt < now then
      revokePresented row
      throw (.unauthorized "Refresh token has expired.")
    revokePresented row
    match user with
    | none => throw .recordNotFound
    | some user => mintTokenPair svc user.id user.role user.ownerId fresh

def logout (svc : Services) (dto : RefreshDto) : AuthCall Unit := do
  match ← findRefreshToken svc dto.refreshToken with
  | none => return
  | some row => if row.revokedAt.isNone then revokePresented row

end SentryPos.Auth
