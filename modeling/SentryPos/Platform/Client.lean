import SentryPos.Auth.Requests
import SentryPos.Platform.Schema
import SentryPos.ReadCommitted.Lift

/-!
This module contains what the calls of the platform are made of: their errors, their statements, the
constraints that the database checks and the calls of authentication as parts of them.
-/

namespace SentryPos.Platform

open ReadCommitted

inductive ApiError where
  | auth (e : Auth.ApiError)
  | emailTaken
  | notFound (message : String)
  | forbidden (message : String)
  | unauthorized
  | ownerSuspended
  | maxBusinessesReached
  | tenantScope (message : String)
  | demoSeed (message : String)
  | uniqueViolation
  | foreignKeyViolation
  | recordNotFound
  | aborted
  deriving DecidableEq

inductive Stmt where
  | auth (tag : Auth.Stmt)
  | now
  | findOwner
  | lockOwner
  | findUser
  | findBusiness
  | countBusinesses
  | findBranch
  | findTerminal
  | countTerminals
  | scope
  | target
  | create
  | update
  | audit
  | commit
  deriving DecidableEq

abbrev PlatformCall (R : Type) :=
  Call ApiError Database Write Key Stmt R

def authPart : Part Auth.Database Auth.Write Auth.Key Auth.Stmt Auth.ApiError Database Write Key Stmt
    ApiError where
  get := (·.auth)
  write := .auth
  key := .auth
  tag := .auth
  error := .auth

def Write.violation (w : Write) (view : Database) : Option ApiError :=
  match w with
  | auth w => (w.violation view.auth).map .auth
  | insertAuthToken row =>
    if view.auth.authTokens.any fun t => t.id = row.id || t.tokenHash = row.tokenHash then
      some .uniqueViolation
    else if (view.auth.user? row.userId).isNone then some .foreignKeyViolation
    else none
  | insertOwner _ account =>
    if view.accounts.any fun a => a.id = account.id || a.email = account.email then
      some .uniqueViolation
    else none
  | insertUser row =>
    if view.auth.users.any fun u => u.id = row.id || u.email = row.email then some .uniqueViolation
    else none
  | setAccount id .. | setStatus id .. =>
    if (view.account? id).isNone then some .recordNotFound else none
  | insertBusiness row =>
    if view.businesses.any fun b => b.id = row.id then some .uniqueViolation
    else if (view.account? row.ownerId).isNone then some .foreignKeyViolation
    else none
  | insertBranch row =>
    if view.branches.any fun b => b.id = row.id || (b.businessId = row.businessId && b.code = row.code)
    then some .uniqueViolation
    else if view.businesses.all fun b => b.id ≠ row.businessId then some .foreignKeyViolation
    else none
  | insertTerminal row =>
    if view.terminals.any fun t => t.id = row.id || (t.branchId = row.branchId && t.code = row.code)
    then some .uniqueViolation
    else if view.branches.all fun b => b.id ≠ row.branchId then some .foreignKeyViolation
    else none
  | archive .business id _ =>
    if view.businesses.all fun b => b.id ≠ id then some .recordNotFound else none
  | archive .branch id _ =>
    if view.branches.all fun b => b.id ≠ id then some .recordNotFound else none
  | archive .terminal id _ | clearDeviceToken id =>
    if view.terminals.all fun t => t.id ≠ id then some .recordNotFound else none
  | insertCatalog _ | insertAudit _ => none

namespace PlatformCall

def execute (tag : Stmt) (w : Write) : PlatformCall Unit :=
  Call.write tag (fun _ => w.keys) fun view =>
    match w.violation view with
    | some e => .error e
    | none => .ok [w]

/-- A write statement that is a transaction of its own. -/
def update (tag : Stmt) (w : Write) : PlatformCall Unit :=
  Call.transaction tag (execute tag w)

def now : PlatformCall DateTime :=
  Call.query .now (·.auth.clock)

def ofOption {R : Type} (e : ApiError) : Option R → PlatformCall R
  | some r => return r
  | none => throw e

def audit (row : AuditLog) : PlatformCall Unit :=
  execute .audit (.insertAudit row)

end PlatformCall

def logAdmin (action : String) (ownerId : Uuid) : PlatformCall Unit :=
  PlatformCall.update .audit <| .insertAudit {
    actorType := .platform_admin
    actorId := none
    ownerId := none
    businessId := none
    action
    entityType := "owner"
    entityId := some ownerId
  }

def authLog (action : String) (userId : Uuid) (ownerId : Option Uuid) : AuditLog where
  actorType := if ownerId.isSome then .owner else .platform_admin
  actorId := some userId
  ownerId
  businessId := none
  action
  entityType := "user"
  entityId := some userId

def logAuth (action : String) (userId : Uuid) (ownerId : Option Uuid) : PlatformCall Unit :=
  PlatformCall.audit (authLog action userId ownerId)

end SentryPos.Platform
