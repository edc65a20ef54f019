import SentryPos.Scoped.Args
import SentryPos.Scoped.Models
import SentryPos.Table

/-!
This module contains the mutations of the scoped client on the rows of a tenant table. A mutation
finds its targets with the base client, which sees what is committed, and writes them and their audit
rows in a transaction, which sees its own changes too.
-/

namespace SentryPos.ChokePoint

structure Row where
  id : Uuid
  deletedAt : Option DateTime
  columns : Arg.Fields

abbrev get (rows : List Row) (id : Uuid) : Option Row :=
  Table.get Row.id rows id

structure Patch where
  apply : Row → Row
  id_apply : ∀ r, (apply r).id = r.id

def deletedAt (now : DateTime) : Patch where
  apply := fun r => { r with deletedAt := some now }
  id_apply := fun _ => rfl

inductive Operation where
  | create
  | createMany
  | update
  | updateMany
  | upsert
  | delete
  | deleteMany
  deriving DecidableEq

structure AuditLog where
  operation : Operation
  entityId : Uuid
  before : Option Row
  after : Option Row

inductive ScopeError where
  | appendOnly
  | targetNotFound (operation : Operation)
  | outsideScope
  | recordNotFound
  | uniqueConstraint
  deriving DecidableEq

/-- The rows in the caller's scope, and the check of the data of a create. -/
structure Context where
  scope : Row → Bool
  police : Row → Except ScopeError Row

/-- A mutation with its arguments. A new row comes with its id. -/
inductive Mutation where
  | create (data : Row)
  | createMany (data : List Row)
  | update (where_ : Row → Bool) (data : Patch)
  | updateMany (where_ : Row → Bool) (data : Patch)
  | upsert (where_ : Row → Bool) (create : Row) (update : Patch)
  | delete (where_ : Row → Bool)
  | deleteMany (where_ : Row → Bool)

def Mutation.operation : Mutation → Operation
  | create _ => .create
  | createMany _ => .createMany
  | update _ _ => .update
  | updateMany _ _ => .updateMany
  | upsert _ _ _ => .upsert
  | delete _ => .delete
  | deleteMany _ => .deleteMany

/-- The rows and the audit rows that a transaction sees or adds. -/
structure Writes where
  rows : List Row
  audits : List AuditLog

/-- `create` -/
def insert (rows : List Row) (data : Row) : Except ScopeError (List Row) :=
  match get rows data.id with
  | some _ => .error .uniqueConstraint
  | none => .ok (rows ++ [data])

def insertRow (operation : Operation) (data : Row) (w : Writes) : Except ScopeError Writes := do
  let rows ← insert w.rows data
  return ⟨rows, w.audits ++ [⟨operation, data.id, none, some data⟩]⟩

/-- `update` of the row with an id, and its audit row: `before` is what the mutation found. -/
def updateRow (operation : Operation) (data : Patch) (w : Writes) (before : Row)
    : Except ScopeError Writes :=
  match get w.rows before.id with
  | none => .error .recordNotFound
  | some current =>
    let after := data.apply current
    .ok {
      rows := Table.modify Row.id w.rows before.id data.apply
      audits := w.audits ++ [{
        operation
        entityId := before.id
        before := some before
        after := if operation = .delete then none else some after }] }

def isLive (r : Row) : Bool :=
  r.deletedAt.isNone

/-- `runMutation`, with what the base client sees and what the transaction sees. -/
def runMutation (ctx : Context) (now : DateTime) (base tx : List Row)
    : Mutation → Except ScopeError Writes
  | .create data => do
    let data ← ctx.police data
    insertRow .create data ⟨tx, []⟩
  | .createMany data => do
    let policed ← data.mapM ctx.police
    policed.foldlM (fun w row => insertRow .createMany row w) ⟨tx, []⟩
  | .upsert where_ create update =>
    match base.find? fun r => where_ r && ctx.scope r && isLive r with
    | some existing => updateRow .update update ⟨tx, []⟩ existing
    | none => do
      let data ← ctx.police create
      insertRow .create data ⟨tx, []⟩
  | .delete where_ =>
    match base.find? fun r => where_ r && ctx.scope r && isLive r with
    | none => .error (.targetNotFound .delete)
    | some before => updateRow .delete (deletedAt now) ⟨tx, []⟩ before
  | .deleteMany where_ =>
    (base.filter fun r => where_ r && ctx.scope r && isLive r).foldlM
      (updateRow .delete (deletedAt now)) ⟨tx, []⟩
  | .update where_ data =>
    match base.find? fun r => where_ r && ctx.scope r with
    | none => .error (.targetNotFound .update)
    | some before => updateRow .update data ⟨tx, []⟩ before
  | .updateMany where_ data =>
    (base.filter fun r => where_ r && ctx.scope r).foldlM (updateRow .update data) ⟨tx, []⟩

def appendAudits (tx : List Row) : Mutation → Except ScopeError Writes
  | .create data => do
    let rows ← insert tx data
    return ⟨rows, []⟩
  | .createMany data => do
    let rows ← data.foldlM insert tx
    return ⟨rows, []⟩
  | _ => .error .appendOnly

def mutate (model : Model) (ctx : Context) (now : DateTime) (base tx : List Row) (m : Mutation)
    : Except ScopeError Writes :=
  if model = .auditLog then appendAudits tx m else runMutation ctx now base tx m

end SentryPos.ChokePoint
