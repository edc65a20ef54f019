import SentryPos.Pos.Client

/-!
This module contains the PIN lockout: a check of the PIN against the owner's, with a counter of
failed attempts and a lock.
-/

namespace SentryPos

open ReadCommitted

/-- `pinLockedUntil` and `now` are in milliseconds. -/
def assertNotLocked (user : User) (now : DateTime) : Except ApiError Unit :=
  match user.pinLockedUntil with
  | some lockedUntil =>
    if now < lockedUntil then .error (.pinLocked ⌈((lockedUntil - now : ℤ) : ℚ) / 1000⌉) else .ok ()
  | none => .ok ()

def recordFailure (userId : Uuid) (now : DateTime) : PosCall Unit := do
  let user ← Call.check .findUser fun db => (db.user? userId).elim (.error .recordNotFound) .ok
  let newCount := user.failedPinCount + 1
  let lockedUntil := if MAX_ATTEMPTS ≤ newCount then some (some (now + LOCKOUT_SECONDS * 1000)) else none
  Call.transaction .commit do
    PosCall.execute .updateUser (.setPin userId newCount lockedUntil)
  throw (.pinInvalid (MAX_ATTEMPTS - newCount))

def recordSuccess (userId : Uuid) : PosCall Unit :=
  Call.transaction .commit do
    PosCall.execute .updateUser (.setPin userId 0 (some none))

/-- `verifySecret` compares a hash with a secret. -/
def verifyPinWithLockout (verifySecret : String → String → Bool) (ownerId : Uuid) (pin : String)
    (now : DateTime) : PosCall Unit := do
  let found ← Call.query .findUser fun db =>
    db.users.find? fun u => u.ownerId = some ownerId && u.deletedAt.isNone
  match found with
  | none => throw (.validationFailed "set the refund PIN in the portal")
  | some user =>
    match user.pinHash with
    | none => throw (.validationFailed "set the refund PIN in the portal")
    | some pinHash =>
      Call.ofExcept (assertNotLocked user now)
      if verifySecret pinHash pin then recordSuccess user.id else recordFailure user.id now

end SentryPos
