import SentryPos.Platform.Valid

/-!
This module contains the administration of owners: provisioning with an invite, changes, suspension
and reinstatement.
-/

namespace SentryPos.Platform

open ReadCommitted

structure CreateOwnerDto where
  name : String
  email : String
  maxBusinesses : Nat
  maxBusinesses_pos : 1 ≤ maxBusinesses
  maxBusinesses_le : maxBusinesses ≤ 1000

structure UpdateOwnerDto where
  name : Option String
  maxBusinesses : Option Nat
  maxBusinesses_pos : ∀ n ∈ maxBusinesses, 1 ≤ n
  maxBusinesses_le : ∀ n ∈ maxBusinesses, n ≤ 1000

inductive SuspendTier where
  | default
  | hard
  deriving DecidableEq

structure FreshAuthToken where
  rawToken : String
  id : Uuid

structure FreshOwner where
  ownerId : Uuid
  userId : Uuid
  invite : FreshAuthToken

def INVITE_TTL_MS : ℤ := 7 * 24 * 60 * 60 * 1000

def RESET_TTL_MS : ℤ := 60 * 60 * 1000

def createInvite (svc : Auth.Services) (userId : Uuid) (fresh : FreshAuthToken)
    : PlatformCall Unit := do
  let found ← Call.query .findUser (·.auth.user? userId)
  let user ← PlatformCall.ofOption .recordNotFound found
  let now ← PlatformCall.now
  PlatformCall.update .create <| .insertAuthToken {
    id := fresh.id
    kind := .invite
    tokenHash := svc.sha256 fresh.rawToken
    userId := user.id
    expiresAt := now + INVITE_TTL_MS
    usedAt := none
  }

def ownerUser (dto : CreateOwnerDto) (fresh : FreshOwner) : Auth.User where
  id := fresh.userId
  email := dto.email
  passwordHash := none
  role := .owner
  ownerId := some fresh.ownerId
  pinHash := none
  totpSecret := none
  totpPendingSecret := none
  totpLastTimeStep := none
  totpRecoveryCodes := []
  failedLoginCount := 0
  loginLockedUntil := none
  failedPinCount := 0
  pinLockedUntil := none
  deletedAt := none

def newAccount (dto : CreateOwnerDto) (fresh : FreshOwner) : Account where
  id := fresh.ownerId
  name := dto.name
  email := dto.email
  maxBusinesses := dto.maxBusinesses
  suspendedAt := none
  deletedAt := none

def createOwner (svc : Auth.Services) (dto : CreateOwnerDto) (fresh : FreshOwner)
    : PlatformCall Unit := do
  tryCatch
    (Call.transaction .commit do
      PlatformCall.execute .create
        (.insertOwner { id := fresh.ownerId, status := .active } (newAccount dto fresh))
      PlatformCall.execute .create (.insertUser (ownerUser dto fresh)))
    fun e => throw (if e = .uniqueViolation then .emailTaken else e)
  createInvite svc fresh.userId fresh.invite
  logAdmin "admin.owner.create" fresh.ownerId

def getOwner (id : Uuid) : PlatformCall Account := do
  let found ← Call.query .findOwner fun db => (db.account? id).filter (·.deletedAt.isNone)
  PlatformCall.ofOption (.notFound "Owner not found.") found

def updateOwner (id : Uuid) (dto : UpdateOwnerDto) : PlatformCall Unit := do
  let _ ← getOwner id
  PlatformCall.update .update (.setAccount id dto.name dto.maxBusinesses)
  logAdmin "admin.owner.update" id

def SuspendTier.status : SuspendTier → Auth.OwnerStatus
  | .hard => .hard_suspended
  | .default => .suspended

def suspend (id : Uuid) (tier : SuspendTier) : PlatformCall Unit := do
  let _ ← getOwner id
  let suspendedAt ← PlatformCall.now
  PlatformCall.update .update (.setStatus id tier.status (some suspendedAt))
  logAdmin "admin.owner.suspend" id

def reinstate (id : Uuid) : PlatformCall Unit := do
  let _ ← getOwner id
  PlatformCall.update .update (.setStatus id .active none)
  logAdmin "admin.owner.reinstate" id

section Safe

variable {P : Write → Prop}

theorem safe_logAdmin (haudit : ∀ row, P (.insertAudit row)) (action : String) (ownerId : Uuid)
    : Safe True P (logAdmin action ownerId) :=
  safe_update (haudit _)

theorem safe_getOwner (id : Uuid) : Safe True P (getOwner id) := by
  unfold getOwner
  apply Call.Safe.bind (.query _)
  intro found
  exact safe_ofOption found

theorem safe_createOwner (haudit : ∀ row, P (.insertAudit row)) (svc : Auth.Services)
    (dto : CreateOwnerDto) (fresh : FreshOwner)
    (howner : P (.insertOwner { id := fresh.ownerId, status := .active } (newAccount dto fresh)))
    (huser : P (.insertUser (ownerUser dto fresh)))
    (htoken : ∀ row : Auth.AuthToken, row.usedAt = none → P (.insertAuthToken row))
    : Safe True P (createOwner svc dto fresh) := by
  unfold createOwner createInvite PlatformCall.now
  apply Call.Safe.bind
  . apply Call.Safe.tryCatch
    . apply Call.Safe.transaction
      apply Call.Safe.bind (safe_execute howner)
      intro _
      exact safe_execute huser
    . intro e
      exact .throw _
  . intro _
    apply Call.Safe.bind
    . apply Call.Safe.bind (.query _)
      intro found
      apply Call.Safe.bind (safe_ofOption found)
      intro user
      apply Call.Safe.bind (.query _)
      intro now
      exact safe_update (htoken _ rfl)
    . intro _
      exact safe_logAdmin haudit _ _

theorem safe_updateOwner (haudit : ∀ row, P (.insertAudit row)) {id : Uuid} {dto : UpdateOwnerDto}
    (hset : P (.setAccount id dto.name dto.maxBusinesses))
    : Safe True P (updateOwner id dto) := by
  unfold updateOwner
  apply Call.Safe.bind (safe_getOwner id)
  intro _
  apply Call.Safe.bind (safe_update hset)
  intro _
  exact safe_logAdmin haudit _ _

theorem safe_suspend (haudit : ∀ row, P (.insertAudit row)) {id : Uuid} {tier : SuspendTier}
    (hset : ∀ suspendedAt, P (.setStatus id tier.status suspendedAt))
    : Safe True P (suspend id tier) := by
  unfold suspend PlatformCall.now
  apply Call.Safe.bind (safe_getOwner id)
  intro _
  apply Call.Safe.bind (.query _)
  intro suspendedAt
  apply Call.Safe.bind (safe_update (hset _))
  intro _
  exact safe_logAdmin haudit _ _

theorem safe_reinstate (haudit : ∀ row, P (.insertAudit row)) {id : Uuid}
    (hset : P (.setStatus id .active none)) : Safe True P (reinstate id) := by
  unfold reinstate
  apply Call.Safe.bind (safe_getOwner id)
  intro _
  apply Call.Safe.bind (safe_update hset)
  intro _
  exact safe_logAdmin haudit _ _

end Safe

end SentryPos.Platform
