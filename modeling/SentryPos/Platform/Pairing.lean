import SentryPos.Auth.Safe
import SentryPos.Platform.Businesses

/-!
This module contains the pairing of terminals with a branch and how they are unpaired, on the
terminal and from the portal.
-/

namespace SentryPos.Platform

open ReadCommitted

structure PairDto where
  businessId : Uuid
  branchId : Uuid
  terminalName : String

structure FreshTerminal where
  deviceToken : String
  id : Nat → Uuid

structure PairResult where
  deviceToken : String
  terminalName : String
  terminalCode : String
  deriving DecidableEq

def ownedBusiness (ownerId businessId : Uuid) : PlatformCall Business := do
  let found ← Call.query .findBusiness fun db =>
    db.businesses.find? fun b => b.id = businessId && b.ownerId = ownerId && b.deletedAt.isNone
  PlatformCall.ofOption (.notFound "Business not found.") found

/-- The code of the terminal after the first `n` of a branch. -/
def terminalCode (n : Nat) : String :=
  s!"T{n + 1}"

def newTerminal (svc : Auth.Services) (branchId : Uuid) (name : String) (fresh : FreshTerminal)
    (attempt priorCount : Nat) : Terminal where
  id := fresh.id attempt
  branchId
  name
  code := terminalCode priorCount
  deviceTokenHash := some (svc.sha256 fresh.deviceToken)
  deletedAt := none

def attemptTerminal (svc : Auth.Services) (branchId : Uuid) (name : String) (fresh : FreshTerminal)
    (attempt : Nat) : PlatformCall Terminal := do
  let priorCount ← Call.query .countTerminals fun db =>
    db.terminals.countP fun t => t.branchId = branchId
  let row := newTerminal svc branchId name fresh attempt priorCount
  PlatformCall.update .create (.insertTerminal row)
  return row

def createTerminal (svc : Auth.Services) (branchId : Uuid) (name : String) (fresh : FreshTerminal)
    : Nat → PlatformCall Terminal
  | 0 => attemptTerminal svc branchId name fresh 0
  | retries + 1 =>
    tryCatch (attemptTerminal svc branchId name fresh (retries + 1)) fun e =>
      if e = .uniqueViolation then createTerminal svc branchId name fresh retries else throw e

def pairingLog (action : String) (actorId ownerId businessId entityId : Uuid) : AuditLog where
  actorType := .owner
  actorId := some actorId
  ownerId := some ownerId
  businessId := some businessId
  action
  entityType := "terminal"
  entityId := some entityId

def pair (svc : Auth.Services) (ownerId ownerUserId : Uuid) (dto : PairDto) (fresh : FreshTerminal)
    : PlatformCall PairResult := do
  let business ← ownedBusiness ownerId dto.businessId
  let foundBranch ← Call.query .findBranch fun db =>
    db.branches.find? fun b =>
      b.id = dto.branchId && b.businessId = business.id && b.deletedAt.isNone
  let branch ← PlatformCall.ofOption (.notFound "Branch not found.") foundBranch
  let foundOwner ← Call.query .findOwner (·.auth.owner? ownerId)
  let owner ← PlatformCall.ofOption .recordNotFound foundOwner
  if owner.status ≠ .active then
    throw .ownerSuspended
  let terminal ← createTerminal svc branch.id dto.terminalName fresh 3
  PlatformCall.update .audit <| .insertAudit <|
    pairingLog "terminal.pair" ownerUserId ownerId business.id terminal.id
  return {
    deviceToken := fresh.deviceToken
    terminalName := terminal.name
    terminalCode := terminal.code
  }

/-- The check of an owner's password that pairing goes through. Suspension is left to the caller. -/
def verifyOwnerCredentials (svc : Auth.Services) (dto : Auth.LoginDto) (failAction : String)
    : PlatformCall (Auth.User × Auth.Owner) := do
  match ← Call.query .findUser fun db => db.auth.users.find? fun u => u.email = dto.email with
  | none => throw (.auth (.loginInvalid 3))
  | some user =>
    Call.lift authPart (Auth.assertNotLocked user .login)
    let valid ← Call.query (.auth (.verifySecret user.id .login)) fun _ =>
      Auth.passwordMatches svc user dto.password
    if !valid then
      PlatformCall.update .audit (.insertAudit (authLog failAction user.id user.ownerId))
      Call.lift authPart (Auth.recordFailure user.id .login)
    else if user.deletedAt.isSome || user.role ≠ .owner then
      throw (.forbidden "This account cannot pair terminals.")
    else
      let ownerId ← PlatformCall.ofOption (.forbidden "This account cannot pair terminals.")
        user.ownerId
      Call.lift authPart (Auth.recordSuccess user.id .login)
      let found ← Call.query .findOwner (·.auth.owner? ownerId)
      let owner ← PlatformCall.ofOption (.forbidden "This account cannot pair terminals.") found
      return (user, owner)

def findPaired (svc : Auth.Services) (deviceToken : String)
    : PlatformCall (Terminal × Option Uuid) := do
  let found ← Call.query .findTerminal fun db =>
    (db.terminals.find? fun t =>
      t.deviceTokenHash = some (svc.sha256 deviceToken) && t.deletedAt.isNone).map fun t =>
        (t, (db.branches.find? fun b => b.id = t.branchId).map (·.businessId))
  PlatformCall.ofOption .unauthorized found

def unpair (svc : Auth.Services) (deviceToken : String) (dto : Auth.LoginDto)
    : PlatformCall Unit := do
  let (terminal, branchBusinessId) ← findPaired svc deviceToken
  let (user, owner) ← verifyOwnerCredentials svc dto "auth.unpair_failed"
  let businessId ← PlatformCall.ofOption .recordNotFound branchBusinessId
  let foundBusiness ← Call.query .findBusiness fun db =>
    db.businesses.find? fun b => b.id = businessId
  let business ← PlatformCall.ofOption .recordNotFound foundBusiness
  if owner.id ≠ business.ownerId then
    throw .unauthorized
  PlatformCall.update .update (.clearDeviceToken terminal.id)
  PlatformCall.update .audit <| .insertAudit <|
    pairingLog "terminal.unpair" user.id owner.id businessId terminal.id

def unpairRemotely (actorId ownerId : Option Uuid) (id : Uuid) : PlatformCall Unit := do
  findTarget .terminal ownerId false "update" id
  Call.transaction .commit do
    PlatformCall.execute .update (.clearDeviceToken id)
    PlatformCall.audit (scopedLog .terminal "update" actorId ownerId id)

section Safe

variable {P : Write → Prop}

theorem safe_attemptTerminal (h : ∀ row, P (.insertTerminal row)) (svc : Auth.Services)
    (branchId : Uuid) (name : String) (fresh : FreshTerminal) (attempt : Nat)
    : Safe True P (attemptTerminal svc branchId name fresh attempt) := by
  unfold attemptTerminal
  apply Call.Safe.bind (.query _)
  intro priorCount
  apply Call.Safe.bind (safe_update (h _))
  intro _
  exact .pure _

theorem safe_createTerminal (h : ∀ row, P (.insertTerminal row)) (svc : Auth.Services)
    (branchId : Uuid) (name : String) (fresh : FreshTerminal) (retries : Nat)
    : Safe True P (createTerminal svc branchId name fresh retries) := by
  induction retries with
  | zero => exact safe_attemptTerminal h ..
  | succ retries ih =>
    apply Call.Safe.tryCatch (safe_attemptTerminal h ..)
    intro e
    split
    . exact ih
    . exact .throw _

theorem safe_pair (haudit : ∀ row, P (.insertAudit row)) (h : ∀ row, P (.insertTerminal row))
    (svc : Auth.Services) (ownerId ownerUserId : Uuid) (dto : PairDto) (fresh : FreshTerminal)
    : Safe True P (pair svc ownerId ownerUserId dto fresh) := by
  unfold pair ownedBusiness
  apply Call.Safe.bind
  . apply Call.Safe.bind (.query _)
    intro found
    exact safe_ofOption found
  . intro business
    apply Call.Safe.bind (.query _)
    intro foundBranch
    apply Call.Safe.bind (safe_ofOption foundBranch)
    intro branch
    apply Call.Safe.bind (.query _)
    intro foundOwner
    apply Call.Safe.bind (safe_ofOption foundOwner)
    intro owner
    split
    . exact .throw _
    . apply Call.Safe.bind (safe_createTerminal h ..)
      intro terminal
      apply Call.Safe.bind (safe_update (haudit _))
      intro _
      exact .pure _

theorem safe_verifyOwnerCredentials (haudit : ∀ row, P (.insertAudit row))
    (hauth : ∀ w, Auth.Write.SparesTokens w → P (.auth w)) (svc : Auth.Services)
    (dto : Auth.LoginDto) (failAction : String)
    : Safe True P (verifyOwnerCredentials svc dto failAction) := by
  unfold verifyOwnerCredentials
  apply Call.Safe.bind (.query _)
  intro found
  cases found with
  | none => exact .throw _
  | some user =>
    apply Call.Safe.bind
    . exact safe_lift hauth (Auth.safe_assertNotLocked user .login)
    . intro _
      apply Call.Safe.bind (.query _)
      intro valid
      split
      . apply Call.Safe.bind (safe_update (haudit _))
        intro _
        exact safe_lift hauth (Auth.safe_recordFailure Auth.routine_sparesTokens user.id .login)
      . split
        . exact .throw _
        . apply Call.Safe.bind (safe_ofOption _)
          intro ownerId
          apply Call.Safe.bind
          . exact safe_lift hauth (Auth.safe_recordSuccess Auth.routine_sparesTokens user.id .login)
          . intro _
            apply Call.Safe.bind (.query _)
            intro foundOwner
            apply Call.Safe.bind (safe_ofOption foundOwner)
            intro owner
            exact .pure _

theorem safe_unpair (haudit : ∀ row, P (.insertAudit row)) (hclear : ∀ id, P (.clearDeviceToken id))
    (hauth : ∀ w, Auth.Write.SparesTokens w → P (.auth w)) (svc : Auth.Services)
    (deviceToken : String) (dto : Auth.LoginDto) : Safe True P (unpair svc deviceToken dto) := by
  unfold unpair findPaired
  apply Call.Safe.bind
  . apply Call.Safe.bind (.query _)
    intro found
    exact safe_ofOption found
  . intro terminal
    apply Call.Safe.bind (safe_verifyOwnerCredentials haudit hauth ..)
    intro owner
    apply Call.Safe.bind (safe_ofOption _)
    intro businessId
    apply Call.Safe.bind (.query _)
    intro foundBusiness
    apply Call.Safe.bind (safe_ofOption foundBusiness)
    intro business
    split
    . exact .throw _
    . apply Call.Safe.bind (safe_update (hclear _))
      intro _
      exact safe_update (haudit _)

theorem safe_unpairRemotely (haudit : ∀ row, P (.insertAudit row))
    (hclear : ∀ id, P (.clearDeviceToken id)) (actorId ownerId : Option Uuid) (id : Uuid)
    : Safe True P (unpairRemotely actorId ownerId id) := by
  unfold unpairRemotely
  apply Call.Safe.bind (safe_findTarget ..)
  intro _
  apply Call.Safe.transaction
  apply Call.Safe.bind (safe_execute (hclear id))
  intro _
  exact safe_audit haudit _

end Safe

end SentryPos.Platform
