import SentryPos.Auth.Client

/-!
This module contains the lockout: the counter of failed attempts and the lock of an account, and
the check of a PIN against them.
-/

namespace SentryPos.Auth

open ReadCommitted

def LockoutKind.lockedError (kind : LockoutKind) (retryAfterSeconds : ℤ) : ApiError :=
  match kind with
  | .pin => .pinLocked retryAfterSeconds
  | .login => .loginLocked retryAfterSeconds

def LockoutKind.invalidError (kind : LockoutKind) (attemptsRemaining : Nat) : ApiError :=
  match kind with
  | .pin => .pinInvalid attemptsRemaining
  | .login => .loginInvalid attemptsRemaining

def assertNotLocked (user : User) (kind : LockoutKind) : AuthCall Unit :=
  match user.lockedUntil kind with
  | some lockedUntil => do
    let now ← Call.query (.assertNotLocked user.id kind lockedUntil) (·.clock)
    if now < lockedUntil then
      throw (kind.lockedError ⌈((lockedUntil - now : ℤ) : ℚ) / 1000⌉)
  | none => return

def lockAfter (newCount : Nat) (now : DateTime) : Option (Option DateTime) :=
  if MAX_ATTEMPTS ≤ newCount then some (some (now + LOCKOUT_SECONDS * 1000)) else none

def recordFailure {R : Type} (userId : Uuid) (kind : LockoutKind) : AuthCall R := do
  let user ← AuthCall.findUniqueOrThrow (.findFailures userId kind) userId
  let newCount := user.failedCount kind + 1
  let now ← Call.query (.lockFrom userId kind) (·.clock)
  AuthCall.update (.updateFailures userId kind)
    (.setFailures userId kind newCount (lockAfter newCount now))
  throw (kind.invalidError (MAX_ATTEMPTS - newCount))

def recordSuccess (userId : Uuid) (kind : LockoutKind) : AuthCall Unit :=
  AuthCall.update .updateUser (.setFailures userId kind 0 (some none))

/--
The check of a secret behind the lockout, as a PIN and a password go through it: a wrong one counts
as a failed attempt, the right one clears the counter before the call goes on.
-/
def withLockout {R : Type} (user : User) (kind : LockoutKind) (valid : Bool) (next : AuthCall R)
    : AuthCall R := do
  assertNotLocked user kind
  if ← Call.query (.verifySecret user.id kind) fun _ => valid then
    recordSuccess user.id kind
    next
  else
    recordFailure user.id kind

def verifyPinWithLockout (svc : Services) (ownerId : Uuid) (pin : String) : AuthCall Unit := do
  let found ← Call.query .findUser fun db =>
    db.users.find? fun u => u.ownerId = some ownerId && u.deletedAt.isNone
  match found with
  | none => throw (.validationFailed "set the refund PIN in the portal")
  | some user =>
    match truthy user.pinHash with
    | none => throw (.validationFailed "set the refund PIN in the portal")
    | some pinHash => withLockout user .pin (svc.verifySecret pinHash pin) (pure ())

end SentryPos.Auth
