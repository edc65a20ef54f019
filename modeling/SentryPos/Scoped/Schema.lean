import SentryPos.ReadCommitted.Stateful
import SentryPos.Scoped.ChokePoint

/-!
This module contains the tables that requests share through the scoped client, with the audit rows,
the columns that scope and connect them, and the write statements with their locks.
-/

namespace SentryPos

inductive ScopeColumn where
  | ownerId
  | businessId
  | branchId
  deriving DecidableEq

def ScopeColumn.name : ScopeColumn → String
  | ownerId => "ownerId"
  | businessId => "businessId"
  | branchId => "branchId"

/-- `PLATFORM_MODEL_SET` -/
def Model.isPlatform : Model → Bool
  | .owner | .user | .authToken | .refreshToken => true
  | _ => false

/-- `TENANT_DIRECT` -/
def Model.tenantDirect : Model → Option ScopeColumn
  | .business => some .ownerId
  | .branch | .category | .product | .modifierGroup | .discount => some .businessId
  | .notification | .auditLog => some .businessId
  | .terminal | .branchStock | .stockMovement | .shift | .sale => some .branchId
  | .stockCount | .stockBatch => some .branchId
  | _ => none

/-- `CHILD_PARENT` -/
def Model.childParent : Model → Option Model
  | .productVariant => some .product
  | .modifier => some .modifierGroup
  | .productModifierGroup => some .product
  | .saleItem => some .sale
  | .salePayment => some .sale
  | .shiftCashMovement => some .shift
  | .stockCountItem => some .stockCount
  | _ => none

/-- `CHILD_PARENT_FK` -/
def Model.childParentFk (model parent : Model) : Option String :=
  (model.relations.find? fun r => r.target = parent ∧ r.fkColumn.isSome).bind (·.fkColumn)

/-- `FK_REFS`: the columns that are foreign keys, with the models they point to. -/
def Model.fkRefs (model : Model) : List (String × Model) :=
  model.relations.filterMap fun r => r.fkColumn.map fun column => (column, r.target)

def Model.references (model : Model) : List String :=
  (model.tenantDirect.map (·.name)).toList ++ model.fkRefs.map (·.1)

def ChokePoint.Row.ref (r : ChokePoint.Row) (column : String) : Option Uuid :=
  match Arg.Fields.get r.columns column with
  | some (.uuid id) => some id
  | _ => none

namespace ScopedClient

open ReadCommitted ChokePoint

structure Entity where
  model : Model
  row : Row

abbrev Key := Model × Uuid

def Entity.key (e : Entity) : Key :=
  (e.model, e.row.id)

inductive ActorType where
  | owner
  | terminal
  | platform_admin
  deriving DecidableEq

structure Stamp where
  actorType : ActorType
  actorId : Uuid
  ownerId : Option Uuid
  businessId : Option Uuid
  branchId : Option Uuid

/-- A row of `audit_logs`: what the client writes of a mutation, or what a service adds. -/
inductive AuditRow where
  | recorded (stamp : Stamp) (entityType : Model) (entry : AuditLog)
  | added (stamp : Stamp) (action : String)

structure Database where
  entities : List Entity
  audits : List AuditRow

namespace Database

def get (db : Database) (key : Key) : Option Entity :=
  Table.get Entity.key db.entities key

def table (db : Database) (model : Model) : List Row :=
  (db.entities.filter fun e => e.model = model).map (·.row)

end Database

def Entity.patch (data : Patch) (e : Entity) : Entity :=
  { e with row := data.apply e.row }

inductive Write where
  | insert (e : Entity)
  | update (key : Key) (data : Patch)
  | audit (row : AuditRow)

def Write.apply (w : Write) (db : Database) : Database :=
  match w with
  | insert e => { db with entities := db.entities ++ [e] }
  | update key data =>
    { db with entities := Table.modify Entity.key db.entities key (Entity.patch data) }
  | audit row => { db with audits := db.audits ++ [row] }

instance : Store Write Database where
  apply := Write.apply

@[simp]
theorem store_apply (w : Write) (db : Database) : Store.apply w db = w.apply db := rfl

def Write.keys : Write → List Key
  | insert e => [e.key]
  | update key _ => [key]
  | audit _ => []

@[simp]
theorem key_patch (data : Patch) (e : Entity) : (e.patch data).key = e.key := by
  unfold Entity.patch Entity.key
  rw [data.id_apply]

section

variable {db : Database} {key : Key}

theorem get_insert_of_ne {e : Entity} (h : e.key ≠ key)
    : ((Write.insert e).apply db).get key = db.get key := by
  unfold Write.apply Database.get
  rw [Table.get_append, Table.get_singleton_ne h]
  simp

theorem get_insert_self {e : Entity} (h : db.get e.key = none)
    : ((Write.insert e).apply db).get e.key = some e := by
  unfold Write.apply Database.get
  unfold Database.get at h
  rw [Table.get_append, h, Table.get_singleton_self]
  rfl

theorem get_insert_of_some {e e' : Entity} (h : db.get key = some e)
    : ((Write.insert e').apply db).get key = some e :=
  Table.get_append_of_some h

theorem get_update_of_ne {key' : Key} {data : Patch} (h : key ≠ key')
    : ((Write.update key' data).apply db).get key = db.get key :=
  Table.get_modify_ne (key_patch data) h

theorem get_update_self {data : Patch}
    : ((Write.update key data).apply db).get key = (db.get key).map (Entity.patch data) :=
  Table.get_modify_self (key_patch data)

@[simp]
theorem get_audit {row : AuditRow} : ((Write.audit row).apply db).get key = db.get key := rfl

theorem get_apply_of_notMem {w : Write} (h : key ∉ w.keys) : (w.apply db).get key = db.get key := by
  cases w with
  | insert e => exact get_insert_of_ne fun heq => h (by simp [Write.keys, heq])
  | update key' data => exact get_update_of_ne fun heq => h (by simp [Write.keys, heq])
  | audit => rfl

end

instance : Locking Write Database Key where
  keys := Write.keys
  Kept key db db' := db.get key = db'.get key
  kept_refl _ _ := rfl
  kept_trans _ _ _ _ h h' := h.trans h'
  frame _ _ _ h := (get_apply_of_notMem h).symm

/-- What a write makes of a row depends on that row only. -/
instance : LockedRow Write Database Key Key (Option Entity) where
  row key db := db.get key
  key := id
  row_congr := by
    intro w key db db' h
    cases w with
    | insert e =>
      simp only [store_apply, Write.apply, Database.get] at h ⊢
      rw [Table.get_append, Table.get_append, h]
    | update key' data =>
      by_cases heq : key = key'
      . subst heq
        simp only [store_apply, get_update_self, h]
      . simp only [store_apply, get_update_of_ne heq, h]
    | audit => exact h
  row_frame _ _ _ h := get_apply_of_notMem h
  kept _ _ _ h := h.symm

def Write.added : Write → List Key
  | insert e => [e.key]
  | _ => []

/-- The primary keys. -/
instance : UniqueIndex Write Database Key Key where
  entries db := db.entities.map Entity.key
  added := Write.added
  key := id
  entries_apply := by
    intro w db
    cases w with
    | insert e => simp [Write.apply, Write.added]
    | update key data =>
      simp only [store_apply, Write.apply, Write.added, List.append_nil]
      rw [Table.map_modify (key_patch data)]
    | audit => simp [Write.apply, Write.added]
  key_mem := by
    intro w key hkey
    cases w with
    | insert e => exact hkey
    | update | audit => simp [Write.added] at hkey
  kept := by
    intro key db db' h hnot
    have hnone : db.get key = none := by
      apply Table.get_eq_none.mpr
      intro e he heq
      exact hnot (List.mem_map.mpr ⟨e, he, heq⟩)
    have hnone' : db'.get key = none := Eq.trans (Eq.symm h) hnone
    intro hmem
    obtain ⟨e, he, heq⟩ := List.mem_map.mp hmem
    exact Table.get_eq_none.mp hnone' e he heq

/-- No two rows have the same model and id. -/
abbrev Database.Valid (db : Database) : Prop :=
  UniqueIndex.Unique Write db

theorem valid_constraint : Constraint Write Database.Valid where
  stable _ _ _ _ hcovered hkept hdb' h := UniqueIndex.Unique.stable hcovered hkept hdb' h

section Valid

variable {db : Database}

theorem Database.Valid.get (h : db.Valid) {e : Entity} (he : e ∈ db.entities)
    : db.get e.key = some e :=
  Table.get_of_mem h he

theorem mem_table {model : Model} {r : Row} : r ∈ db.table model ↔ ⟨model, r⟩ ∈ db.entities := by
  unfold Database.table
  constructor
  . intro h
    obtain ⟨e, he, hrow⟩ := List.mem_map.mp h
    rw [List.mem_filter, decide_eq_true_eq] at he
    rw [← hrow, ← he.2]
    exact he.1
  . intro h
    exact List.mem_map.mpr ⟨⟨model, r⟩, List.mem_filter.mpr ⟨h, by simp⟩, rfl⟩

theorem Database.Valid.get_of_table (h : db.Valid) {model : Model} {r : Row} (hr : r ∈ db.table model)
    : db.get (model, r.id) = some ⟨model, r⟩ :=
  h.get (mem_table.mp hr)

theorem Database.Valid.insert (h : db.Valid) {e : Entity} (hnone : db.get e.key = none)
    : ((Write.insert e).apply db).Valid := by
  apply UniqueIndex.Unique.apply h (List.nodup_singleton _)
  intro key hkey hmem
  rw [List.mem_singleton.mp hkey] at hmem
  obtain ⟨e', he', heq⟩ := List.mem_map.mp hmem
  exact Table.get_eq_none.mp hnone e' he' heq

theorem Database.Valid.update (h : db.Valid) (key : Key) (data : Patch)
    : ((Write.update key data).apply db).Valid :=
  UniqueIndex.Unique.apply h List.nodup_nil (by simp [UniqueIndex.added, Write.added])

theorem Database.Valid.audit (h : db.Valid) (row : AuditRow) : ((Write.audit row).apply db).Valid :=
  UniqueIndex.Unique.apply h List.nodup_nil (by simp [UniqueIndex.added, Write.added])

theorem Database.Valid.replay_of_added (h : db.Valid) {log : List Write}
    (hlog : ∀ w ∈ log, w.added = []) : (replay log db).Valid := by
  apply replay_induction h
  intro w hw db hdb
  apply UniqueIndex.Unique.apply hdb
  . change w.added.Nodup
    rw [hlog w hw]
    exact List.nodup_nil
  . change ∀ key ∈ w.added, _
    rw [hlog w hw]
    simp

theorem Database.Valid.inserts {model : Model} {rows : List Row} {view : Database} (hview : view.Valid)
    (hnodup : (rows.map (·.id)).Nodup)
    (hnew : ∀ row ∈ rows, (view.get (model, row.id)).isNone)
    : (replay (rows.map fun row => Write.insert ⟨model, row⟩) view).Valid := by
  induction rows generalizing view with
  | nil => exact hview
  | cons row rows ih =>
    rw [List.map_cons, List.nodup_cons] at hnodup
    rw [List.map_cons, replay_cons]
    have hnone : view.get (Entity.key ⟨model, row⟩) = none :=
      Option.isNone_iff_eq_none.mp (hnew row List.mem_cons_self)
    apply ih (hview.insert hnone) hnodup.2
    intro row' hrow'
    have hne : Entity.key ⟨model, row⟩ ≠ (model, row'.id) := by
      intro heq
      apply hnodup.1
      rw [show row.id = row'.id from congrArg Prod.snd heq]
      exact List.mem_map_of_mem hrow'
    rw [get_insert_of_ne hne]
    exact hnew row' (List.mem_cons_of_mem _ hrow')

end Valid

end ScopedClient

end SentryPos
