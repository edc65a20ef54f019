import SentryPos.Scoped.Args
import SentryPos.Scoped.Models

/-!
This module contains how the scoped client rewrites the nested writes of a mutation: a nested delete
becomes an update that sets `deletedAt`.
-/

namespace SentryPos

open Arg (Fields)

/-- A nested mutation of a child, for the audit. -/
structure Touched where
  model : Model
  op : String
  where_ : Option Arg

/-- An update that sets `deletedAt`. -/
def softDelete (now : DateTime) (target : Arg) : Arg :=
  .obj [("where", target), ("data", .obj [("deletedAt", .date now)])]

/-- A nested `delete`, rewritten. Every model can be soft-deleted. -/
def rewriteDelete (now : DateTime) (model : Model) (nested : Fields) : Fields × List Touched :=
  match Fields.get nested "delete" with
  | none => (nested, [])
  | some del =>
    let dels := del.elements
    let update := Fields.get nested "update"
    let updates := elementsIf update ++ dels.map (softDelete now)
    let isArray := (update.map Arg.isArray).getD false
    let rewritten :=
      match updates with
      | [one] => if !isArray && dels.length = 1 then one else .arr updates
      | _ => .arr updates
    (Fields.set (Fields.erase nested "delete") "update" rewritten,
      dels.map fun d => Touched.mk model "delete" (some d))

/-- A condition of a nested `deleteMany`, with or without its `where`. -/
def condition (cond : Arg) : Arg :=
  if truthy (cond.get "where") then (cond.get "where").getD cond else cond

/-- A nested `deleteMany`, rewritten. -/
def rewriteDeleteMany (now : DateTime) (model : Model) (nested : Fields) : Fields × List Touched :=
  match Fields.get nested "deleteMany" with
  | none => (nested, [])
  | some dm =>
    let conditions := dm.elements.map condition
    let updateMany :=
      elementsIf (Fields.get nested "updateMany") ++ conditions.map (softDelete now)
    (Fields.set (Fields.erase nested "deleteMany") "updateMany" (.arr updateMany),
      conditions.map fun w => Touched.mk model "deleteMany" (some w))

/-- Only `deletedAt` is set. -/
def isSoftDelete : Arg → Bool
  | .obj [(key, _)] => key = "deletedAt"
  | _ => false

/--
An update with `where` and `data`, and what its data is rewritten to. It is recorded unless it
deletes.
-/
def recordUpdate (model : Model) (update : Fields) (rewritten : Fields × List Touched)
    : Arg × List Touched :=
  if truthy (Fields.get update "where") && truthy (Fields.get update "data") then
    let recorded :=
      if (Fields.get update "data").any isSoftDelete then []
      else [Touched.mk model "update" (Fields.get update "where")]
    (.obj rewritten.1, recorded ++ rewritten.2)
  else
    (.obj update, [])

mutual

/-- The data of a mutation as it goes to the database, and the nested mutations to audit. -/
def rewriteNestedWrites (now : DateTime) (model : Model) : Arg → Arg × List Touched
  | .obj fields =>
    let fields' := rewriteFields now model fields
    (.obj fields'.1, fields'.2)
  | .date _ => (.obj [], [])
  | data => (data, [])
termination_by structural data => data

def rewriteFields (now : DateTime) (model : Model)
    : List (String × Arg) → List (String × Arg) × List Touched
  | [] => ([], [])
  | (key, value) :: fields =>
    let value' :=
      match model.relationTarget key with
      | none => (value, [])
      | some target => rewriteNested now target value
    let fields' := rewriteFields now model fields
    ((key, value'.1) :: fields'.1, value'.2 ++ fields'.2)
termination_by structural fields => fields

/--
The writes nested under a relation. The walk into the updates comes first here: it leaves those that
a rewritten delete adds as they are.
-/
def rewriteNested (now : DateTime) (model : Model) : Arg → Arg × List Touched
  | .obj nested =>
    let updated := rewriteUpdateField now model nested
    let deleted := rewriteDelete now model updated.1
    let deletedMany := rewriteDeleteMany now model deleted.1
    let created := if Fields.has nested "create" then [Touched.mk model "create" none] else []
    (.obj deletedMany.1, deleted.2 ++ deletedMany.2 ++ updated.2 ++ created)
  | .arr values => (.obj (values.zipIdx.map fun (v, i) => (toString i, v)), [])
  | .date _ => (.obj [], [])
  | value => (value, [])
termination_by structural value => value

def rewriteUpdateField (now : DateTime) (model : Model)
    : List (String × Arg) → List (String × Arg) × List Touched
  | [] => ([], [])
  | (key, value) :: fields =>
    if key = "update" then
      let value' := rewriteUpdates now model value
      ((key, value'.1) :: fields, value'.2)
    else
      let fields' := rewriteUpdateField now model fields
      ((key, value) :: fields'.1, fields'.2)
termination_by structural fields => fields

def rewriteUpdates (now : DateTime) (model : Model) : Arg → Arg × List Touched
  | .arr updates =>
    let updates' := rewriteEach now model updates
    (.arr updates'.1, updates'.2)
  | .obj update => recordUpdate model update (rewriteData now model update)
  | update => (update, [])
termination_by structural update => update

def rewriteEach (now : DateTime) (model : Model) : List Arg → List Arg × List Touched
  | [] => ([], [])
  | update :: updates =>
    let update' :=
      match update with
      | .obj update => recordUpdate model update (rewriteData now model update)
      | update => (update, [])
    let updates' := rewriteEach now model updates
    (update'.1 :: updates'.1, update'.2 ++ updates'.2)
termination_by structural updates => updates

def rewriteData (now : DateTime) (model : Model)
    : List (String × Arg) → List (String × Arg) × List Touched
  | [] => ([], [])
  | (key, value) :: fields =>
    if key = "data" then
      let value' := rewriteNestedWrites now model value
      ((key, value'.1) :: fields, value'.2)
    else
      let fields' := rewriteData now model fields
      ((key, value) :: fields'.1, fields'.2)
termination_by structural fields => fields

end

end SentryPos
