import SentryPos.Platform.Valid

/-!
This module contains the creation of businesses under the cap of their owner, and the archiving of
rows through the scoped client.
-/

namespace SentryPos.Platform

open ReadCommitted

def allowedBusinessIds (ownerId : Option Uuid) : PlatformCall (List Uuid) :=
  Call.query .scope fun db =>
    (db.businesses.filter fun b => ownerId.all (· = b.ownerId) && b.deletedAt.isNone).map (·.id)

def allowedBranchIds (businessIds : List Uuid) : PlatformCall (List Uuid) :=
  Call.query .scope fun db =>
    (db.branches.filter fun b => b.businessId ∈ businessIds && b.deletedAt.isNone).map (·.id)

/-- The identifiers that the rows of a table have to refer to, read once for each request. -/
def scopeIds (table : Archived) (ownerId : Option Uuid) : PlatformCall (List Uuid) :=
  match table with
  | .business => return []
  | .branch => allowedBusinessIds ownerId
  | .terminal => do
    let businessIds ← allowedBusinessIds ownerId
    if businessIds = [] then return [] else allowedBranchIds businessIds

/-- The row is in the scope of a request, and not archived if it has to be `live`. -/
def inScope (table : Archived) (ownerId : Option Uuid) (ids : List Uuid) (live : Bool) (id : Uuid)
    (db : Database) : Bool :=
  match table with
  | .business => db.businesses.any fun b =>
      b.id = id && ownerId = some b.ownerId && (!live || b.deletedAt.isNone)
  | .branch => db.branches.any fun b =>
      b.id = id && b.businessId ∈ ids && (!live || b.deletedAt.isNone)
  | .terminal => db.terminals.any fun t =>
      t.id = id && t.branchId ∈ ids && (!live || t.deletedAt.isNone)

def Archived.model : Archived → String
  | business => "business"
  | branch => "branch"
  | terminal => "terminal"

def Archived.notFound : Archived → ApiError
  | business => .notFound "Business not found."
  | branch => .notFound "Branch not found."
  | terminal => .notFound "Terminal not found."

def scopedLog (table : Archived) (operation : String) (actorId ownerId : Option Uuid) (id : Uuid)
    : AuditLog where
  actorType := .owner
  actorId
  ownerId
  businessId := none
  action := s!"{table.model}.{operation}"
  entityType := table.model
  entityId := some id

/-- A read of a row through the scoped client, and then the target of the write that follows. -/
def findTarget (table : Archived) (ownerId : Option Uuid) (live : Bool) (operation : String)
    (id : Uuid) : PlatformCall Unit := do
  let ids ← scopeIds table ownerId
  let found ← Call.query .target (inScope table ownerId ids true id)
  if !found then
    throw table.notFound
  let target ← Call.query .target (inScope table ownerId ids live id)
  if !target then
    throw (.tenantScope s!"{table.model}.{operation} target not found within scope")

def remove (table : Archived) (actorId ownerId : Option Uuid) (id : Uuid) : PlatformCall Unit := do
  findTarget table ownerId true "delete" id
  Call.transaction .commit do
    let deletedAt ← PlatformCall.now
    PlatformCall.execute .update (.archive table id deletedAt)
    PlatformCall.audit (scopedLog table "delete" actorId ownerId id)

def newBusiness (ownerId id : Uuid) (name : String) : Business where
  id
  ownerId
  name
  isDemo := false
  deletedAt := none

def createCapped (actorId : Option Uuid) (ownerId : Uuid) (name : String) (id : Uuid)
    : PlatformCall Unit := do
  let found ← Call.queryOnTx .findOwner (·.account? ownerId)
  let owner ← PlatformCall.ofOption .recordNotFound found
  let count ← Call.queryOnTx .countBusinesses (·.liveBusinesses ownerId)
  if owner.maxBusinesses ≤ count then
    throw .maxBusinessesReached
  PlatformCall.execute .create (.insertBusiness (newBusiness ownerId id name))
  PlatformCall.audit (scopedLog .business "create" actorId (some ownerId) id)

def createBusiness (actorId ownerId : Option Uuid) (name : String) (id : Uuid)
    : PlatformCall Unit :=
  match ownerId with
  | none => throw (.forbidden "Portal access requires an owner account.")
  | some ownerId =>
    Call.transaction .commit do
      Call.selectForUpdate .lockOwner (fun _ => [.owner ownerId]) fun _ => ()
      createCapped actorId ownerId name id

section Safe

variable {P : Write → Prop}

theorem safe_scopeIds (table : Archived) (ownerId : Option Uuid)
    : Safe True P (scopeIds table ownerId) := by
  cases table with
  | business => exact .pure _
  | branch => exact .query _
  | terminal =>
    apply Call.Safe.bind (.query _)
    intro businessIds
    split
    . exact .pure _
    . exact .query _

theorem safe_findTarget (table : Archived) (ownerId : Option Uuid) (live : Bool)
    (operation : String) (id : Uuid) : Safe True P (findTarget table ownerId live operation id) := by
  unfold findTarget
  apply Call.Safe.bind (safe_scopeIds table ownerId)
  intro ids
  apply Call.Safe.bind (.query _)
  intro found
  split
  . exact .throw _
  . apply Call.Safe.bind (.query _)
    intro target
    split
    . exact .throw _
    . exact .pure _

theorem safe_remove (haudit : ∀ row, P (.insertAudit row)) {table : Archived} {id : Uuid}
    (harchive : ∀ deletedAt, P (.archive table id deletedAt)) (actorId ownerId : Option Uuid)
    : Safe True P (remove table actorId ownerId id) := by
  unfold remove PlatformCall.now
  apply Call.Safe.bind (safe_findTarget ..)
  intro _
  apply Call.Safe.transaction
  apply Call.Safe.bind (.query _)
  intro deletedAt
  apply Call.Safe.bind (safe_execute (harchive _))
  intro _
  exact safe_audit haudit _

theorem safe_createBusiness (haudit : ∀ row, P (.insertAudit row)) {name : String} {id : Uuid}
    (hinsert : ∀ ownerId, P (.insertBusiness (newBusiness ownerId id name)))
    (actorId ownerId : Option Uuid) : Safe True P (createBusiness actorId ownerId name id) := by
  unfold createBusiness
  cases ownerId with
  | none => exact .throw _
  | some ownerId =>
    apply Call.Safe.transaction
    apply Call.Safe.bind (.selectForUpdate _ _)
    intro _
    apply Call.Safe.bind (.queryOnTx _)
    intro found
    apply Call.Safe.bind (safe_ofOption found)
    intro owner
    apply Call.Safe.bind (.queryOnTx _)
    intro count
    split
    . exact .throw _
    . apply Call.Safe.bind (safe_execute (hinsert ownerId))
      intro _
      exact safe_audit haudit _

end Safe

end SentryPos.Platform
