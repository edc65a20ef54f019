import SentryPos.Auth.Schema

/-!
This module contains what the calls of authentication are made of: their errors, the statements, the
services they use and the constraints that the database checks.
-/

namespace SentryPos.Auth

open ReadCommitted

/-- What a call may end with instead of a result. -/
inductive ApiError where
  | loginInvalid (attemptsRemaining : Nat)
  | loginLocked (retryAfterSeconds : ℤ)
  | pinInvalid (attemptsRemaining : Nat)
  | pinLocked (retryAfterSeconds : ℤ)
  | totpInvalid
  | unauthorized (message : String)
  | ownerSuspended
  | invalidToken
  | validationFailed (message : String)
  | uniqueViolation
  | foreignKeyViolation
  | recordNotFound
  | aborted
  deriving DecidableEq

/--
The names of the statements. The ones of a check of a secret carry the account that is checked, and
the read of the clock the lock that it is compared with.
-/
inductive Stmt where
  | findUser
  | assertNotLocked (userId : Uuid) (kind : LockoutKind) (lockedUntil : DateTime)
  | verifySecret (userId : Uuid) (kind : LockoutKind)
  | findFailures (userId : Uuid) (kind : LockoutKind)
  | lockFrom (userId : Uuid) (kind : LockoutKind)
  | updateFailures (userId : Uuid) (kind : LockoutKind)
  | findOwner
  | findToken
  | findTokens
  | now
  | updateUser
  | updateToken
  | createToken
  | commit
  | tick
  deriving DecidableEq

abbrev AuthCall (R : Type) :=
  Call ApiError Database Write Key Stmt R

structure JwtPayload where
  sub : Uuid
  kind : Option String
  role : Option UserRole
  sid : Option Uuid
  ownerId : Option Uuid
  deriving DecidableEq

/--
The services that the calls use. `verifySecret` compares a hash with a secret, `hashSecret` hashes a
secret with a salt, `verifySync` gives the time step that a TOTP code matches at a time, after the
last one that was used, and `verifyJwt` the claims of a token that is signed and has not expired.
-/
structure Services where
  verifySecret : String → String → Bool
  hashSecret : String → String → String
  sha256 : String → String
  verifySync : String → String → DateTime → Option ℤ → Option ℤ
  generateURI : String → String → String
  sign : DateTime → ℤ → JwtPayload → String
  verifyJwt : DateTime → String → Option JwtPayload

def Write.violation (w : Write) (view : Database) : Option ApiError :=
  match w with
  | insertRefreshToken row =>
    if view.refreshTokens.any fun r => r.id = row.id || r.tokenHash = row.tokenHash then
      some .uniqueViolation
    else if (view.user? row.userId).isNone then some .foreignKeyViolation
    else none
  | revokeRefreshToken id _ => if (view.refreshToken? id).isNone then some .recordNotFound else none
  | useAuthToken id _ => if (view.authToken? id).isNone then some .recordNotFound else none
  | tick _ => none
  | w => if w.userId?.any fun id => (view.user? id).isNone then some .recordNotFound else none

namespace AuthCall

def execute (tag : Stmt) (w : Write) : AuthCall Unit :=
  Call.write tag (fun _ => w.keys) fun view =>
    match w.violation view with
    | some e => .error e
    | none => .ok [w]

/-- A write statement that is a transaction of its own. -/
def update (tag : Stmt) (w : Write) : AuthCall Unit :=
  Call.transaction tag (execute tag w)

/-- The read of the server's clock. -/
def now : AuthCall DateTime :=
  Call.query .now (·.clock)

def findUniqueOrThrow (tag : Stmt) (userId : Uuid) : AuthCall User :=
  Call.check tag fun db => (db.user? userId).elim (.error .recordNotFound) .ok

end AuthCall

def truthy (text : Option String) : Option String :=
  text.filter (· ≠ "")

end SentryPos.Auth
