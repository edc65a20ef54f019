import SentryPos.Pos.Schema
import SentryPos.ReadCommitted.Locking

/-!
This module contains the tables that authentication works on, its write statements and the locks
and unique indexes of the tables. The clock of the server is part of the state, so that time may
pass between any two statements of a request.
-/

namespace SentryPos.Auth

open ReadCommitted

inductive OwnerStatus where
  | active
  | suspended
  | hard_suspended
  | closed
  deriving DecidableEq

inductive UserRole where
  | platform_admin
  | owner
  deriving DecidableEq

inductive AuthTokenKind where
  | invite
  | reset
  deriving DecidableEq

inductive LockoutKind where
  | pin
  | login
  deriving DecidableEq

structure Owner where
  id : Uuid
  status : OwnerStatus

structure User where
  id : Uuid
  email : String
  passwordHash : Option String
  role : UserRole
  ownerId : Option Uuid
  pinHash : Option String
  totpSecret : Option String
  totpPendingSecret : Option String
  totpLastTimeStep : Option ℤ
  totpRecoveryCodes : List String
  failedLoginCount : Nat
  loginLockedUntil : Option DateTime
  failedPinCount : Nat
  pinLockedUntil : Option DateTime
  deletedAt : Option DateTime
  deriving DecidableEq

structure RefreshToken where
  id : Uuid
  tokenHash : String
  userId : Uuid
  expiresAt : DateTime
  revokedAt : Option DateTime
  deriving DecidableEq

structure AuthToken where
  id : Uuid
  kind : AuthTokenKind
  tokenHash : String
  userId : Uuid
  expiresAt : DateTime
  usedAt : Option DateTime
  deriving DecidableEq

structure Database where
  clock : DateTime
  owners : List Owner
  users : List User
  refreshTokens : List RefreshToken
  authTokens : List AuthToken

namespace User

def failedCount (user : User) : LockoutKind → Nat
  | .pin => user.failedPinCount
  | .login => user.failedLoginCount

def lockedUntil (user : User) : LockoutKind → Option DateTime
  | .pin => user.pinLockedUntil
  | .login => user.loginLockedUntil

/-- `lockedUntil` is left as it is when it is `none`. -/
def setFailures (user : User) (kind : LockoutKind) (count : Nat)
    (lockedUntil : Option (Option DateTime)) : User :=
  match kind with
  | .pin =>
    { user with
      failedPinCount := count
      pinLockedUntil := lockedUntil.getD user.pinLockedUntil }
  | .login =>
    { user with
      failedLoginCount := count
      loginLockedUntil := lockedUntil.getD user.loginLockedUntil }

end User

namespace Database

def owner? (db : Database) (id : Uuid) : Option Owner :=
  Table.get (·.id) db.owners id

def user? (db : Database) (id : Uuid) : Option User :=
  Table.get (·.id) db.users id

def refreshToken? (db : Database) (id : Uuid) : Option RefreshToken :=
  Table.get (·.id) db.refreshTokens id

def authToken? (db : Database) (id : Uuid) : Option AuthToken :=
  Table.get (·.id) db.authTokens id

end Database

/-- The write statements. `tick` is the time that passes, in milliseconds. -/
inductive Write where
  | tick (ms : Nat)
  | setFailures (userId : Uuid) (kind : LockoutKind) (count : Nat)
      (lockedUntil : Option (Option DateTime))
  | setPendingSecret (userId : Uuid) (secret : String)
  | enableTotp (userId : Uuid) (secret : String) (recoveryCodes : List String)
  | setLastTimeStep (userId : Uuid) (timeStep : ℤ)
  | setRecoveryCodes (userId : Uuid) (recoveryCodes : List String)
  | setPassword (userId : Uuid) (passwordHash : String)
  | insertRefreshToken (row : RefreshToken)
  | revokeRefreshToken (id : Uuid) (revokedAt : DateTime)
  | useAuthToken (id : Uuid) (usedAt : DateTime)

namespace Write

def onUser (w : Write) (user : User) : User :=
  match w with
  | setFailures _ kind count lockedUntil => user.setFailures kind count lockedUntil
  | setPendingSecret _ secret => { user with totpPendingSecret := some secret }
  | enableTotp _ secret recoveryCodes =>
    { user with
      totpSecret := some secret
      totpPendingSecret := none
      totpRecoveryCodes := recoveryCodes }
  | setLastTimeStep _ timeStep => { user with totpLastTimeStep := some timeStep }
  | setRecoveryCodes _ recoveryCodes => { user with totpRecoveryCodes := recoveryCodes }
  | setPassword _ passwordHash => { user with passwordHash := some passwordHash }
  | _ => user

def userId? : Write → Option Uuid
  | setFailures userId .. | setPendingSecret userId _ | enableTotp userId .. => some userId
  | setLastTimeStep userId _ | setRecoveryCodes userId _ | setPassword userId _ => some userId
  | _ => none

def apply (w : Write) (db : Database) : Database :=
  match w with
  | tick ms => { db with clock := db.clock + ms }
  | insertRefreshToken row => { db with refreshTokens := db.refreshTokens ++ [row] }
  | revokeRefreshToken id revokedAt =>
    { db with
      refreshTokens := Table.modify (·.id) db.refreshTokens id fun row =>
        { row with revokedAt := some revokedAt } }
  | useAuthToken id usedAt =>
    { db with
      authTokens := Table.modify (·.id) db.authTokens id fun row =>
        { row with usedAt := some usedAt } }
  | w =>
    match w.userId? with
    | some userId => { db with users := Table.modify (·.id) db.users userId w.onUser }
    | none => db

end Write

instance : Store Write Database where
  apply := Write.apply

@[simp]
theorem store_apply (w : Write) (db : Database) : Store.apply w db = w.apply db := rfl

inductive Key where
  | user (id : Uuid)
  | refreshToken (id : Uuid)
  | tokenHash (hash : String)
  | authToken (id : Uuid)
  deriving DecidableEq

def Write.keys : Write → List Key
  | tick _ => []
  | setFailures userId .. | setPendingSecret userId _ | enableTotp userId .. => [.user userId]
  | setLastTimeStep userId _ | setRecoveryCodes userId _ | setPassword userId _ => [.user userId]
  | insertRefreshToken row => [.refreshToken row.id, .tokenHash row.tokenHash]
  | revokeRefreshToken id _ => [.refreshToken id]
  | useAuthToken id _ => [.authToken id]

end SentryPos.Auth
