import SentryPos.Checks
import SentryPos.Scoped.NestedWrites

/-!
This module contains what the client makes of the writes nested under a list of children, and what
is left of a replace-set once its deletes are rewritten.
-/

namespace SentryPos

open Arg (Fields)

/-- How the writes of a child model are read: a create with its place among the creates. -/
structure ChildReader (ω : Type) where
  create : ℕ → Arg → Option ω
  update : Uuid → Arg → Option ω

/-- The `id` of a unique condition. -/
def uniqueId (condition : Arg) : Option Uuid :=
  match condition.get "id" with
  | some (.uuid id) => some id
  | _ => none

namespace ChildReader

variable {ω : Type} (reader : ChildReader ω)

def readUpdate (update : Arg) : Option ω := do
  let condition ← update.get "where"
  let id ← uniqueId condition
  let data ← update.get "data"
  reader.update id data

/-- The writes of one operation. A nested delete would remove the row: it is none of them. -/
def fieldWrites (field : String × Arg) : Option (List ω) :=
  if field.1 = "create" then
    field.2.elements.zipIdx.mapM fun (data, i) => reader.create i data
  else if field.1 = "update" then
    field.2.elements.mapM reader.readUpdate
  else
    none

/-- The writes nested under a relation, in the order the client makes them. -/
def childWrites : Arg → Option (List ω)
  | .obj fields => (fields.mapM reader.fieldWrites).map List.flatten
  | _ => none

end ChildReader

/-- The condition on a child with an id. -/
def whereId (id : Uuid) : Arg :=
  .obj [("id", .uuid id)]

def updateArg (update : Uuid × Fields) : Arg :=
  .obj [("where", whereId update.1), ("data", .obj update.2)]

/-- The nested writes of a replace-set: an operation without elements is left out. -/
def replaceArgs (creates : List Arg) (updates : List (Uuid × Fields)) (deletes : List Uuid) : Arg :=
  .obj <|
    (if creates.isEmpty then [] else [("create", .arr creates)]) ++
    (if updates.isEmpty then [] else [("update", .arr (updates.map updateArg))]) ++
    (if deletes.isEmpty then [] else [("delete", .arr (deletes.map whereId))])

def Plain (model : Model) (fields : Fields) : Prop :=
  ∀ f ∈ fields, model.relationTarget f.1 = none

section Rewrite

variable {now : DateTime} {model : Model}

theorem rewriteFields_plain {fields : Fields} (h : Plain model fields)
    : rewriteFields now model fields = (fields, []) := by
  induction fields with
  | nil => rfl
  | cons f fields ih =>
    have hf := h f List.mem_cons_self
    have hfields := ih fun g hg => h g (List.mem_cons_of_mem _ hg)
    unfold rewriteFields
    simp [hf, hfields]

theorem get_rewriteFields (now : DateTime) {key : String} {target : Model} (h : model.relationTarget key = some target)
    (fields : Fields)
    : Fields.get (rewriteFields now model fields).1 key
        = (Fields.get fields key).map fun value => (rewriteNested now target value).1 := by
  induction fields with
  | nil => rfl
  | cons f fields ih =>
    unfold rewriteFields
    unfold Fields.get at ih ⊢
    simp only [List.find?_cons]
    by_cases hkey : f.1 = key
    . simp [hkey, h]
    . simp only [hkey, decide_false]
      exact ih

theorem get_rewriteFields_plain (now : DateTime) {key : String} (h : model.relationTarget key = none)
    (fields : Fields)
    : Fields.get (rewriteFields now model fields).1 key = Fields.get fields key := by
  induction fields with
  | nil => rfl
  | cons f fields ih =>
    unfold rewriteFields
    unfold Fields.get at ih ⊢
    simp only [List.find?_cons]
    by_cases hkey : f.1 = key
    . simp [hkey, h]
    . simp only [hkey, decide_false]
      exact ih

theorem recordUpdate_updateArg (now : DateTime) (update : Uuid × Fields) (h : Plain model update.2)
    : (recordUpdate model [("where", whereId update.1), ("data", .obj update.2)]
        (rewriteData now model [("where", whereId update.1), ("data", .obj update.2)])).1
        = updateArg update := by
  simp [rewriteData, rewriteNestedWrites, rewriteFields_plain h, recordUpdate, updateArg, Fields.get,
    truthy, Arg.truthy, whereId]

theorem rewriteEach_updateArgs (now : DateTime) {updates : List (Uuid × Fields)}
    (h : ∀ update ∈ updates, Plain model update.2)
    : (rewriteEach now model (updates.map updateArg)).1 = updates.map updateArg := by
  induction updates with
  | nil => rfl
  | cons update updates ih =>
    have hupdate := recordUpdate_updateArg now update (h update List.mem_cons_self)
    have hupdates := ih fun u hu => h u (List.mem_cons_of_mem _ hu)
    unfold updateArg at hupdate
    rw [List.map_cons]
    unfold rewriteEach
    dsimp only
    rw [hupdates]
    unfold updateArg
    dsimp only
    rw [hupdate]

/-- What the updates and the deletes of a replace-set become: one of them stands alone. -/
def updateField (now : DateTime) (updates : List (Uuid × Fields)) (deletes : List Uuid) : Arg :=
  match updates, deletes with
  | [], [id] => softDelete now (whereId id)
  | _, _ => .arr (updates.map updateArg ++ deletes.map fun id => softDelete now (whereId id))

theorem elements_updateField (now : DateTime) (updates : List (Uuid × Fields))
    (deletes : List Uuid)
    : (updateField now updates deletes).elements
        = updates.map updateArg ++ deletes.map fun id => softDelete now (whereId id) := by
  unfold updateField
  split <;> rfl

theorem rewriteNested_replaceArgs (creates : List Arg) {updates : List (Uuid × Fields)}
    (hupdates : ∀ update ∈ updates, Plain model update.2) (deletes : List Uuid)
    : (rewriteNested now model (replaceArgs creates updates deletes)).1
        =
      .obj ((if creates.isEmpty then [] else [("create", .arr creates)]) ++
        (if updates.isEmpty && deletes.isEmpty then []
          else [("update", updateField now updates deletes)])) := by
  have heach := rewriteEach_updateArgs now hupdates
  -- Of the deletes it matters whether there is none, one or more of them.
  cases creates <;> cases updates <;> cases deletes with
  | nil =>
    simp_all [replaceArgs, rewriteNested, rewriteUpdateField, rewriteUpdates, rewriteDelete,
      rewriteDeleteMany, Fields.get, updateField]
  | cons id ids =>
    cases ids <;>
      simp_all [replaceArgs, rewriteNested, rewriteUpdateField, rewriteUpdates, rewriteDelete,
        rewriteDeleteMany, Fields.get, Fields.set, Fields.erase, Fields.has, updateField,
        elementsIf, truthy, Arg.truthy, Arg.elements]

end Rewrite

namespace ChildReader

variable {ω : Type} {reader : ChildReader ω} {now : DateTime} {model : Model}

@[simp]
theorem readUpdate_updateArg (update : Uuid × Fields)
    : reader.readUpdate (updateArg update) = reader.update update.1 (.obj update.2) := rfl

@[simp]
theorem readUpdate_softDelete (id : Uuid)
    : reader.readUpdate (softDelete now (whereId id))
        = reader.update id (.obj [("deletedAt", .date now)]) := rfl

theorem childWrites_replaceArgs (creates : List Arg) {updates : List (Uuid × Fields)}
    (hupdates : ∀ update ∈ updates, Plain model update.2) (deletes : List Uuid)
    {created updated deleted : List ω}
    (hcreated : (creates.zipIdx.mapM fun (data, i) => reader.create i data) = some created)
    (hupdated : (updates.mapM fun u => reader.update u.1 (.obj u.2)) = some updated)
    (hdeleted : (deletes.mapM fun id => reader.update id (.obj [("deletedAt", .date now)]))
      = some deleted)
    : reader.childWrites (rewriteNested now model (replaceArgs creates updates deletes)).1
        = some (created ++ updated ++ deleted) := by
  rw [rewriteNested_replaceArgs creates hupdates deletes]
  have hread : (updates.map updateArg ++ deletes.map fun id => softDelete now (whereId id)).mapM
      reader.readUpdate = some (updated ++ deleted) := by
    have hupdated' : updates.mapM (reader.readUpdate ∘ updateArg) = some updated := hupdated
    have hdeleted' : deletes.mapM (reader.readUpdate ∘ fun id => softDelete now (whereId id))
        = some deleted := hdeleted
    rw [List.mapM_append, List.mapM_map, List.mapM_map, hupdated', hdeleted']
    rfl
  have hcreate : reader.fieldWrites ("create", .arr creates) = some created := hcreated
  have hupdate : reader.fieldWrites ("update", updateField now updates deletes)
      = some (updated ++ deleted) := by
    unfold fieldWrites
    dsimp only
    rw [if_neg (by decide), if_pos rfl, elements_updateField, hread]
  have hnone : (updates.isEmpty && deletes.isEmpty) = true → updated ++ deleted = [] := by
    intro h
    rw [Bool.and_eq_true, List.isEmpty_iff, List.isEmpty_iff] at h
    rw [h.1, h.2] at hread
    simpa using hread
  unfold childWrites
  cases hempty : updates.isEmpty && deletes.isEmpty with
  | true =>
    rw [List.append_assoc, hnone hempty]
    cases creates with
    | nil =>
      cases hcreated
      rfl
    | cons => simp [hcreate]
  | false =>
    cases creates with
    | nil =>
      cases hcreated
      simp [hupdate]
    | cons => simp [hcreate, hupdate]

end ChildReader

end SentryPos
