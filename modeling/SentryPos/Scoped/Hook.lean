import SentryPos.Scoped.Schema

/-!
This module contains the hook through which every operation of the scoped client goes: scope and
policing with the memo of a request, mutations with their audit rows and the dispatch on contexts and
operations. A request is a service over it, and requests run interleaved.
-/

namespace SentryPos.ScopedClient

open ReadCommitted ChokePoint

/-- Who acts in tenant scope. A terminal has the business and the branch that its guard has found. -/
inductive Actor where
  | owner (userId : Uuid)
  | terminal (id businessId branchId : Uuid)

structure Tenant where
  ownerId : Uuid
  actor : Actor

namespace Tenant

def businessId (t : Tenant) : Option Uuid :=
  match t.actor with
  | .owner _ => none
  | .terminal _ businessId _ => some businessId

def branchId (t : Tenant) : Option Uuid :=
  match t.actor with
  | .owner _ => none
  | .terminal _ _ branchId => some branchId

def actorType (t : Tenant) : ActorType :=
  match t.actor with
  | .owner _ => .owner
  | .terminal .. => .terminal

def actorId (t : Tenant) : Uuid :=
  match t.actor with
  | .owner userId => userId
  | .terminal id _ _ => id

end Tenant

inductive RequestContext where
  | unauthenticated
  | platform (adminId : Uuid)
  | tenant (t : Tenant)

structure ScopeCache where
  businessIds : Option (List Uuid)
  branchIds : Option (List Uuid)
  branchBusiness : List (Uuid × Option Uuid)
  refBusiness : List (Key × Option Uuid)

def ScopeCache.empty : ScopeCache where
  businessIds := none
  branchIds := none
  branchBusiness := []
  refBusiness := []

inductive HookError where
  | noContext
  | platformWrite
  | platformModel
  | childOnly
  | unmapped
  | unsupported
  | requiresScope
  | prismaValidation
  | immutableAudits
  | scope (e : ScopeError)

/-- The names of the statements. -/
inductive Stmt where
  | businesses
  | branches
  | branch
  | ref
  | target
  | read
  | insert
  | update
  | audit
  | commit
  | rollback
  deriving DecidableEq

abbrev Hook (R : Type) := StateCall ScopeCache HookError Database Write Key Stmt R

def allowedBusinessIds (t : Tenant) : Hook (List Uuid) :=
  StateCall.memo (·.businessIds) (fun ids cache => { cache with businessIds := some ids }) <|
    StateCall.query .businesses fun db =>
      ((db.table .business).filter fun r =>
        r.ref "ownerId" = some t.ownerId ∧ r.deletedAt = none).map (·.id)

def allowedBranchIds (t : Tenant) : Hook (List Uuid) :=
  StateCall.memo (·.branchIds) (fun ids cache => { cache with branchIds := some ids }) do
    let businessIds ← allowedBusinessIds t
    if businessIds = [] then
      return []
    else
      StateCall.query .branches fun db =>
        ((db.table .branch).filter fun r =>
          (∃ id ∈ businessIds, r.ref "businessId" = some id) ∧ r.deletedAt = none).map (·.id)

/-- The business of a branch, `none` if there is no such branch. -/
def branchToBusiness (branchId : Uuid) : Hook (Option Uuid) :=
  StateCall.memo
    (fun cache => (cache.branchBusiness.find? fun entry => entry.1 = branchId).map (·.2))
    (fun businessId cache =>
      { cache with branchBusiness := (branchId, businessId) :: cache.branchBusiness })
    (StateCall.query .branch fun db =>
      (db.get (.branch, branchId)).bind fun e => e.row.ref "businessId")

/-- The `refBusiness` entry of a row. -/
def memoRef (key : Key) (resolve : Hook (Option Uuid)) : Hook (Option Uuid) :=
  StateCall.memo (fun cache => (cache.refBusiness.find? fun entry => entry.1 = key).map (·.2))
    (fun businessId cache => { cache with refBusiness := (key, businessId) :: cache.refBusiness })
    resolve

def findRef (key : Key) (column : String) : Hook (Option Uuid) :=
  StateCall.query .ref fun db => (db.get key).bind fun e => e.row.ref column

/-- `resolveRefBusinessId` for the models with a scope column. -/
def resolveDirect (model : Model) (id : Uuid) : Hook (Option Uuid) :=
  memoRef (model, id) do
    match model.tenantDirect with
    | some .ownerId => StateCall.query .ref fun db => (db.get (model, id)).map (·.row.id)
    | some .businessId => findRef (model, id) "businessId"
    | some .branchId =>
      match ← findRef (model, id) "branchId" with
      | some branchId => branchToBusiness branchId
      | none => return none
    | none => return none

/-- The business of a row, through its parent for a child-only model. No parent is such a model. -/
def resolveRefBusinessId (model : Model) (id : Uuid) : Hook (Option Uuid) :=
  match model.childParent with
  | none => resolveDirect model id
  | some parent =>
    memoRef (model, id) do
      match model.childParentFk parent with
      | none => return none
      | some fk =>
        match ← findRef (model, id) fk with
        | some parentId => resolveDirect parent parentId
        | none => return none

def tenantWhereFor (t : Tenant) (model : Model) : Hook (Row → Bool) := do
  match model.tenantDirect with
  | some .ownerId => return fun r => r.ref "ownerId" = some t.ownerId
  | some .businessId =>
    let businessIds ← allowedBusinessIds t
    return fun r => ∃ id ∈ businessIds, r.ref "businessId" = some id
  | _ =>
    match t.branchId with
    | some branchId => return fun r => r.ref "branchId" = some branchId
    | none =>
      let branchIds ← allowedBranchIds t
      return fun r => ∃ id ∈ branchIds, r.ref "branchId" = some id

/-- `tenantWhereFor` of `auditLog` -/
def auditWhere (t : Tenant) : Hook (Stamp → Bool) := do
  let businessIds ← allowedBusinessIds t
  return fun stamp =>
    stamp.actorType ≠ .platform_admin
      ∧ ((∃ id ∈ businessIds, stamp.businessId = some id)
        ∨ (stamp.businessId = none ∧ stamp.ownerId = some t.ownerId))

def setRef (data : Row) (column : String) (id : Uuid) : Row :=
  { data with columns := Arg.Fields.set data.columns column (.uuid id) }

/-- A foreign key of new data, its scope column apart, points into one of the businesses. -/
def policeRef (model : Model) (data : Row) (allowed : List Uuid) (ref : String × Model) : Hook Unit :=
  if model.tenantDirect.map (·.name) = some ref.1 ∨ ref.2.isPlatform then
    return
  else
    match Arg.Fields.get data.columns ref.1 with
    | some (.uuid id) => do
      let businessId ← resolveRefBusinessId ref.2 id
      if ∃ id ∈ allowed, businessId = some id then
        return
      else
        throw (.scope .outsideScope)
    -- a text that is no id fails the query
    | some (.str _) => throw .prismaValidation
    | _ => return

def policeCreateRefs (t : Tenant) (model : Model) (data : Row) : Hook Row := do
  let allowed ← allowedBusinessIds t
  model.fkRefs.forM (policeRef model data allowed)
  return data

/-- `data[column] != null` and then one of the ids -/
def policeScope (data : Row) (column : String) (ids : List Uuid) (fallback : Option Uuid)
    : Hook Row :=
  match Arg.Fields.get data.columns column with
  | some (.uuid id) => if id ∈ ids then return data else throw (.scope .outsideScope)
  | none | some .null =>
    match fallback with
    | some id => return setRef data column id
    | none => throw .requiresScope
  | some _ => throw (.scope .outsideScope)

def policeCreateData (t : Tenant) (model : Model) (data : Row) : Hook Row :=
  match model.tenantDirect with
  | none => return data
  | some .ownerId => return setRef data "ownerId" t.ownerId
  | some .businessId => do
    let businessIds ← allowedBusinessIds t
    let out ← policeScope data "businessId" businessIds t.businessId
    policeCreateRefs t model out
  | some .branchId =>
    match t.branchId with
    | some branchId => policeCreateRefs t model (setRef data "branchId" branchId)
    | none => do
      let branchIds ← allowedBranchIds t
      let out ← policeScope data "branchId" branchIds none
      policeCreateRefs t model out

def stampScope (t : Tenant) (model : Model) (entity : Row) : Hook (Option Uuid × Option Uuid) := do
  let businessId :=
    if model = .business then some entity.id else (entity.ref "businessId").or t.businessId
  let branchId := (entity.ref "branchId").or t.branchId
  match businessId, branchId with
  | none, some id => return (← branchToBusiness id, some id)
  | _, _ => return (businessId, branchId)

def writeAudit (t : Tenant) (model : Model) (entry : AuditLog) (entity : Row) : Hook Unit := do
  let scope ← stampScope t model entity
  let stamp : Stamp := {
    actorType := t.actorType
    actorId := t.actorId
    ownerId := some t.ownerId
    businessId := scope.1
    branchId := scope.2 }
  StateCall.write .audit (fun _ => []) fun _ => .ok ([.audit (.recorded stamp model entry)], ())

/-- `tx[delegate].createManyAndReturn` -/
def insertRows (model : Model) (rows : List Row) : Hook Unit :=
  StateCall.write .insert (fun _ => rows.map fun row => (model, row.id)) fun view =>
    if (rows.map (·.id)).Nodup ∧ ∀ row ∈ rows, (view.get (model, row.id)).isNone then
      .ok (rows.map fun row => .insert ⟨model, row⟩, ())
    else
      .error (.scope .uniqueConstraint)

def createRows (t : Tenant) (model : Model) (operation : Operation) (rows : List Row) : Hook Unit := do
  insertRows model rows
  rows.forM fun row => writeAudit t model ⟨operation, row.id, none, some row⟩ row

/-- `tx[delegate].update` of the row with an id: it changes the row that the transaction sees. -/
def changeRow (model : Model) (data : Patch) (id : Uuid) : Hook Row :=
  StateCall.write .update (fun _ => [(model, id)]) fun view =>
    match view.get (model, id) with
    | none => .error (.scope .recordNotFound)
    | some current => .ok ([.update (model, id) data], data.apply current.row)

/-- An update of a row and its audit row: `before` is what the mutation has found. -/
def updateRow (t : Tenant) (model : Model) (data : Patch) (before : Row) : Hook Row := do
  let after ← changeRow model data before.id
  writeAudit t model ⟨.update, before.id, some before, some after⟩ after
  return after

def deleteRow (t : Tenant) (model : Model) (now : DateTime) (before : Row) : Hook Row := do
  let after ← changeRow model (deletedAt now) before.id
  writeAudit t model ⟨.delete, before.id, some before, none⟩ before
  return after

def atomically {R : Type} (registered : Bool) (work : Hook R) : Hook R :=
  if registered then work else StateCall.transaction .commit work

inductive Response where
  | rows (rows : List Row)
  | row (row : Row)
  | count (n : Nat)
  | audits (rows : List AuditRow)

def findFirst (model : Model) (p : Row → Bool) : Hook (Option Row) :=
  StateCall.query .target fun db => (db.table model).find? p

def findMany (model : Model) (p : Row → Bool) : Hook (List Row) :=
  StateCall.query .target fun db => (db.table model).filter p

/-- The create of `create` and of `upsert`. -/
def createPoliced (t : Tenant) (registered : Bool) (model : Model) (data : Row) : Hook Response := do
  let data ← policeCreateData t model data
  atomically registered do
    createRows t model .create [data]
    return .row data

def runMutation (t : Tenant) (registered : Bool) (now : DateTime) (model : Model) (m : Mutation)
    : Hook Response := do
  let scopeWhere ← tenantWhereFor t model
  match m with
  | .create data => createPoliced t registered model data
  | .createMany data =>
    let policed ← data.mapM (policeCreateData t model)
    atomically registered do
      createRows t model .createMany policed
      return .count policed.length
  | .upsert where_ create update =>
    match ← findFirst model fun r => where_ r && scopeWhere r && isLive r with
    | some before => atomically registered do return .row (← updateRow t model update before)
    | none => createPoliced t registered model create
  | .delete where_ =>
    match ← findFirst model fun r => where_ r && scopeWhere r && isLive r with
    | none => throw (.scope (.targetNotFound .delete))
    | some before => atomically registered do return .row (← deleteRow t model now before)
  | .deleteMany where_ =>
    let targets ← findMany model fun r => where_ r && scopeWhere r && isLive r
    atomically registered do
      targets.forM fun before => discard (deleteRow t model now before)
      return .count targets.length
  | .update where_ data =>
    match ← findFirst model fun r => where_ r && scopeWhere r with
    | none => throw (.scope (.targetNotFound .update))
    | some before => atomically registered do return .row (← updateRow t model data before)
  | .updateMany where_ data =>
    let targets ← findMany model fun r => where_ r && scopeWhere r
    atomically registered do
      targets.forM fun before => discard (updateRow t model data before)
      return .count targets.length

/-- The models of the tables other than `audit_logs`. -/
abbrev TableModel := { model : Model // model ≠ .auditLog }

theorem product_ne_auditLog : Model.product ≠ .auditLog := by decide

theorem shift_ne_auditLog : Model.shift ≠ .auditLog := by decide

inductive CreateOperation where
  | create
  | createMany
  | createManyAndReturn
  deriving DecidableEq

/-- An operation of the client with its arguments, without nested writes, connects and `select`. -/
inductive Call where
  | read (model : TableModel) (where_ : Row → Bool) (includeDeleted : Bool)
  | mutation (model : TableModel) (m : Mutation)
  | createManyAndReturn (model : TableModel) (data : List Row)
  | updateManyAndReturn (model : TableModel) (where_ : Row → Bool) (includeDeleted : Bool)
      (data : Patch)
  | readAudits (where_ : AuditRow → Bool)
  | createAudits (operation : CreateOperation) (data : List (Stamp × String))
  -- update, updateMany, upsert, delete and deleteMany
  | changeAudits
  | updateAuditsAndReturn (where_ : AuditRow → Bool)

namespace Call

/-- `MUTATION_OPS.has(operation)` -/
def isMutation : Call → Bool
  | read .. | updateManyAndReturn .. | readAudits _ | updateAuditsAndReturn .. => false
  | mutation .. | createManyAndReturn .. | createAudits .. | changeAudits => true

/-- Calls that `query` passes on to the base client and that write. -/
def isDirect : Call → Bool
  | updateManyAndReturn .. | createAudits .. | updateAuditsAndReturn .. => true
  | _ => false

end Call

def AuditRow.stamp : AuditRow → Stamp
  | recorded stamp .. => stamp
  | added stamp _ => stamp

/-- `query` on the base client, with the rows of the tables that the operation reaches. -/
def query (rows : Row → Bool) (audits : Stamp → Bool) : Call → Hook Response
  | .read model where_ _ =>
    StateCall.query .read fun db => .rows ((db.table model).filter fun r => where_ r && rows r)
  | .updateManyAndReturn model where_ _ data =>
    StateCall.transaction .commit <|
      StateCall.write .update
        (fun view =>
          ((view.table model).filter fun r => where_ r && rows r).map fun r => (model.1, r.id))
        (fun view =>
          let found := (view.table model).filter fun r => where_ r && rows r
          .ok (found.map fun r => .update (model, r.id) data, .rows (found.map data.apply)))
  | .readAudits where_ =>
    StateCall.query .read fun db => .audits (db.audits.filter fun a => where_ a && audits a.stamp)
  | .createAudits _ data =>
    StateCall.transaction .commit <|
      StateCall.write .audit (fun _ => []) fun _ =>
        .ok (data.map fun a => .audit (.added a.1 a.2), .count data.length)
  | .updateAuditsAndReturn where_ =>
    StateCall.transaction .commit <|
      StateCall.write .audit (fun _ => []) fun view =>
        -- the trigger `audit_logs_immutable`, on every row that would be changed
        if view.audits.any fun a => where_ a && audits a.stamp then .error .immutableAudits
        else .ok ([], .audits [])
  | _ => throw .unsupported

def assertTenantModel (model : Model) : Hook Unit :=
  if model.isPlatform then
    throw .platformModel
  else if model.childParent.isSome then
    throw .childOnly
  else if model.tenantDirect.isNone then
    throw .unmapped
  -- the table has no `branchId` to scope it by
  else if model = .stockBatch then
    throw .prismaValidation
  else
    return

def allOperations (ctx : RequestContext) (registered : Bool) (now : DateTime) (call : Call)
    : Hook Response :=
  match ctx with
  | .unauthenticated => throw .noContext
  | .platform _ =>
    match call with
    | .createAudits .create _ => query (fun _ => true) (fun _ => true) call
    | _ =>
      if call.isMutation then
        throw .platformWrite
      else
        query (fun _ => true) (fun _ => true) call
  | .tenant t =>
    match call with
    | .changeAudits => throw (.scope .appendOnly)
    | .createAudits .. => query (fun _ => true) (fun _ => true) call
    | .readAudits _ | .updateAuditsAndReturn .. => do
      query (fun _ => true) (← auditWhere t) call
    | .read model _ includeDeleted | .updateManyAndReturn model _ includeDeleted _ => do
      assertTenantModel model
      let scopeWhere ← tenantWhereFor t model
      query (fun r => scopeWhere r && (includeDeleted || isLive r)) (fun _ => true) call
    | .mutation model m => do
      assertTenantModel model
      runMutation t registered now model m
    | .createManyAndReturn model _ => do
      assertTenantModel model
      discard (tenantWhereFor t model)
      throw .unsupported

/--
What a service does with the client: its calls, each with the clock time of the call, and the
transactions that it opens and registers. A call that goes past the registered transaction to the
base client and writes is not made inside one.
-/
inductive Service : Bool → Type where
  | done : Service false
  | call {registered : Bool} (c : Call) (now : DateTime) (h : registered → ¬ c.isDirect)
      (next : Except HookError Response → Service registered) : Service registered
  | begin (next : Service true) : Service false
  | commit (next : Service false) : Service true
  | rollback (next : Service false) : Service true

def Service.prog (ctx : RequestContext) {registered : Bool} (service : Service registered)
    (cache : ScopeCache) : Prog Database Write Key Stmt Unit :=
  match service with
  | done => .ret ()
  | call c now _ next => do
    let r ← allOperations ctx registered now c cache
    (next r.1).prog ctx r.2
  | begin next => next.prog ctx cache
  | commit next => .commit .commit (next.prog ctx cache)
  | rollback next => .rollback .rollback (next.prog ctx cache)

structure Request where
  ctx : RequestContext
  service : Service false

def Request.prog (q : Request) : Prog Database Write Key Stmt Unit :=
  q.service.prog q.ctx .empty

/-- All calls that a service may make have a property. -/
def Service.All (p : Call → Prop) {registered : Bool} : Service registered → Prop
  | done => True
  | call c _ _ next => p c ∧ ∀ r, (next r).All p
  | begin next => next.All p
  | commit next => next.All p
  | rollback next => next.All p

section Reads

variable (t : Tenant)

theorem reads_allowedBusinessIds : StateCall.Reads (allowedBusinessIds t) :=
  .memo (.query _ _)

theorem reads_allowedBranchIds : StateCall.Reads (allowedBranchIds t) := by
  apply StateCall.Reads.memo
  apply StateCall.Reads.bind (reads_allowedBusinessIds t)
  intro businessIds
  split
  . exact .pure _
  . exact .query _ _

theorem reads_branchToBusiness (branchId : Uuid) : StateCall.Reads (branchToBusiness branchId) :=
  .memo (.query _ _)

theorem reads_findRef (key : Key) (column : String) : StateCall.Reads (findRef key column) :=
  .query _ _

theorem reads_resolveDirect (model : Model) (id : Uuid) : StateCall.Reads (resolveDirect model id) := by
  apply StateCall.Reads.memo
  split
  . exact .query _ _
  . exact reads_findRef _ _
  . apply StateCall.Reads.bind (reads_findRef _ _)
    intro branchId
    split
    . exact reads_branchToBusiness _
    . exact .pure _
  . exact .pure _

theorem reads_resolveRefBusinessId (model : Model) (id : Uuid)
    : StateCall.Reads (resolveRefBusinessId model id) := by
  unfold resolveRefBusinessId
  split
  . exact reads_resolveDirect model id
  . apply StateCall.Reads.memo
    split
    . exact .pure _
    . apply StateCall.Reads.bind (reads_findRef _ _)
      intro parentId
      split
      . exact reads_resolveDirect _ _
      . exact .pure _

theorem reads_tenantWhereFor (model : Model) : StateCall.Reads (tenantWhereFor t model) := by
  unfold tenantWhereFor
  split
  . exact .pure _
  . apply StateCall.Reads.bind (reads_allowedBusinessIds t)
    intro _
    exact .pure _
  . split
    . exact .pure _
    . apply StateCall.Reads.bind (reads_allowedBranchIds t)
      intro _
      exact .pure _

theorem reads_auditWhere : StateCall.Reads (auditWhere t) := by
  apply StateCall.Reads.bind (reads_allowedBusinessIds t)
  intro _
  exact .pure _

theorem reads_policeRef (model : Model) (data : Row) (allowed : List Uuid) (ref : String × Model)
    : StateCall.Reads (policeRef model data allowed ref) := by
  unfold policeRef
  split
  . exact .pure _
  . split
    . apply StateCall.Reads.bind (reads_resolveRefBusinessId _ _)
      intro businessId
      split
      . exact .pure _
      . exact .throw _
    . exact .throw _
    . exact .pure _

theorem reads_policeCreateRefs (model : Model) (data : Row)
    : StateCall.Reads (policeCreateRefs t model data) := by
  apply StateCall.Reads.bind (reads_allowedBusinessIds t)
  intro allowed
  apply StateCall.Reads.bind
  . apply StateCall.Reads.forM
    intro ref _
    exact reads_policeRef _ _ _ _
  . intro _
    exact .pure _

theorem reads_policeScope (data : Row) (column : String) (ids : List Uuid) (fallback : Option Uuid)
    : StateCall.Reads (policeScope data column ids fallback) := by
  unfold policeScope
  split
  . split
    . exact .pure _
    . exact .throw _
  . split
    . exact .pure _
    . exact .throw _
  . split
    . exact .pure _
    . exact .throw _
  . exact .throw _

theorem reads_policeCreateData (model : Model) (data : Row)
    : StateCall.Reads (policeCreateData t model data) := by
  unfold policeCreateData
  split
  . exact .pure _
  . exact .pure _
  . apply StateCall.Reads.bind (reads_allowedBusinessIds t)
    intro ids
    apply StateCall.Reads.bind (reads_policeScope _ _ _ _)
    intro out
    exact reads_policeCreateRefs _ _ _
  . split
    . exact reads_policeCreateRefs _ _ _
    . apply StateCall.Reads.bind (reads_allowedBranchIds t)
      intro ids
      apply StateCall.Reads.bind (reads_policeScope _ _ _ _)
      intro out
      exact reads_policeCreateRefs _ _ _

theorem reads_assertTenantModel (model : Model) : StateCall.Reads (assertTenantModel model) := by
  unfold assertTenantModel
  repeat' split
  all_goals first | exact .throw _ | exact .pure _

end Reads

end SentryPos.ScopedClient
