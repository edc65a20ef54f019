import SentryPos.Platform.Client

/-!
This module contains the constraint on the identifiers of tokens, what every write of the platform
leaves as it is, and that its write statements are safe.
-/

namespace SentryPos.Platform

open ReadCommitted

def Database.tokenIds (db : Database) : List Uuid :=
  db.auth.authTokens.map (·.id)

namespace Write

def tokenIds : Write → List Uuid
  | insertAuthToken row => [row.id]
  | _ => []

theorem tokenIds_apply (w : Write) (db : Database)
    : (w.apply db).tokenIds = db.tokenIds ++ w.tokenIds := by
  cases w with
  | auth w =>
    cases w with
    | useAuthToken id usedAt =>
      unfold Database.tokenIds apply Auth.Write.apply tokenIds
      dsimp only
      rw [List.append_nil, Table.map_modify (by simp)]
    | _ => simp [Database.tokenIds, apply, Auth.Write.apply, Auth.Write.userId?, tokenIds]
  | insertAuthToken row => simp [Database.tokenIds, apply, tokenIds]
  | archive table => cases table <;> simp [Database.tokenIds, apply, tokenIds]
  | _ => simp [Database.tokenIds, apply, tokenIds]

end Write

theorem Database.authToken?_eq_none {db : Database} {id : Uuid}
    : db.auth.authToken? id = none ↔ id ∉ db.tokenIds := by
  unfold Auth.Database.authToken? tokenIds
  rw [Table.get_eq_none, List.mem_map]
  simp

instance : UniqueIndex Write Database Key Uuid where
  entries := Database.tokenIds
  added := Write.tokenIds
  key id := .auth (.authToken id)
  entries_apply := by
    intro w db
    rw [store_apply, w.tokenIds_apply]
  key_mem := by
    intro w id hid
    cases w with
    | insertAuthToken row =>
      rw [List.mem_singleton.mp hid]
      exact List.mem_cons_self
    | _ => cases hid
  kept := by
    intro id db db' hkept hid
    have heq : db'.auth.authToken? id = db.auth.authToken? id := hkept
    rw [← Database.authToken?_eq_none] at hid ⊢
    rw [heq, hid]

/-- The constraint of the tables that the calls here rely on. -/
def Database.Valid (db : Database) : Prop :=
  UniqueIndex.Unique Write db

theorem Database.Valid.authToken_eq {db : Database} (h : db.Valid) {row : Auth.AuthToken}
    (hrow : row ∈ db.auth.authTokens) : db.auth.authToken? row.id = some row :=
  Table.get_of_mem h hrow

theorem constraint : Constraint Write Database.Valid where
  stable := by
    intro log locks db db' hcovered hkept hdb' hview
    exact UniqueIndex.Unique.stable hcovered hkept hdb' hview

theorem Write.valid_apply_of {w : Write} (hw : w.tokenIds = []) {db : Database} (h : db.Valid)
    : (w.apply db).Valid := by
  apply UniqueIndex.Unique.apply h
  . show w.tokenIds.Nodup
    simp [hw]
  . intro id hid
    rw [show UniqueIndex.added w = w.tokenIds from rfl, hw] at hid
    cases hid

theorem Write.valid_apply {w : Write} {db : Database} (h : db.Valid)
    (hviolation : w.violation db = none) : (w.apply db).Valid := by
  cases w with
  | insertAuthToken row =>
    apply UniqueIndex.Unique.apply h
    . show [row.id].Nodup
      simp
    . intro id hid
      have hid : id = row.id := List.mem_singleton.mp hid
      unfold violation at hviolation
      dsimp only at hviolation
      split at hviolation
      . cases hviolation
      . next hnew =>
        intro hmem
        obtain ⟨row', hrow', heq⟩ := List.mem_map.mp hmem
        apply hnew
        rw [List.any_eq_true]
        exact ⟨row', hrow', by simp [heq, hid]⟩
  | _ => exact valid_apply_of rfl h

structure Database.Grows (db db' : Database) : Prop where
  clock : db.auth.clock ≤ db'.auth.clock
  authTokens : ∀ id row, db.auth.authToken? id = some row →
    ∃ usedAt, db'.auth.authToken? id = some { row with usedAt }
      ∧ (row.usedAt.isSome → usedAt.isSome)
  codes : ∀ branchId, db.codes branchId <+: db'.codes branchId

theorem Write.clock_apply (w : Write) (db : Database)
    : db.auth.clock ≤ (w.apply db).auth.clock := by
  cases w with
  | auth w =>
    cases w with
    | tick ms => exact Int.le_add_of_nonneg_right (Int.natCast_nonneg ms)
    | _ => exact le_rfl
  | archive table => cases table <;> exact le_rfl
  | _ => exact le_rfl

theorem Write.authToken?_apply (w : Write) {db : Database} {id : Uuid} {row : Auth.AuthToken}
    (h : db.auth.authToken? id = some row)
    : (w.apply db).auth.authToken? id
        =
      match w with
      | auth (.useAuthToken id' usedAt) =>
        if id' = id then some { row with usedAt := some usedAt } else some row
      | _ => some row := by
  cases w with
  | auth w =>
    cases w with
    | useAuthToken id' usedAt =>
      unfold apply Auth.Write.apply
      dsimp only
      split
      . next hid =>
        subst hid
        unfold Auth.Database.authToken? at h ⊢
        rw [Table.get_modify_self (by simp), h]
        rfl
      . next hid =>
        unfold Auth.Database.authToken? at h ⊢
        rw [Table.get_modify_ne (by simp) (Ne.symm hid), h]
    | _ => exact h
  | insertAuthToken row' =>
    unfold Auth.Database.authToken? apply at *
    exact Table.get_append_of_some h
  | archive table => cases table <;> exact h
  | _ => exact h

theorem growth : Growth Write Database.Grows where
  refl := by
    intro db
    exact ⟨le_rfl, fun id row hrow => ⟨row.usedAt, hrow, fun h => h⟩, fun _ => List.prefix_rfl⟩
  trans := by
    intro db db' db'' h h'
    constructor
    . exact h.clock.trans h'.clock
    . intro id row hrow
      obtain ⟨usedAt, hrow', hused⟩ := h.authTokens id row hrow
      obtain ⟨usedAt', hrow'', hused'⟩ := h'.authTokens id _ hrow'
      exact ⟨usedAt', hrow'', fun hsome => hused' (hused hsome)⟩
    . intro branchId
      exact (h.codes branchId).trans (h'.codes branchId)
  apply := by
    intro w db
    rw [store_apply]
    constructor
    . exact w.clock_apply db
    . intro id row hrow
      rw [w.authToken?_apply hrow]
      split
      . split
        . exact ⟨_, rfl, fun _ => rfl⟩
        . exact ⟨row.usedAt, rfl, fun h => h⟩
      . exact ⟨row.usedAt, rfl, fun h => h⟩
    . intro branchId
      rw [w.codes_apply]
      exact List.prefix_append _ _

/-- Calls whose writes have a property, keep the constraint and are covered by their locks. -/
abbrev Safe (ends : Prop) (P : Write → Prop) {R : Type} (p : PlatformCall R) : Prop :=
  Call.Safe ends Database.Valid P p

section Safe

variable {ends : Prop} {P : Write → Prop} {tag : Stmt}

theorem safe_execute {w : Write} (h : P w) : Safe ends P (PlatformCall.execute tag w) := by
  apply Call.Safe.write
  intro view ws hcheck
  split at hcheck
  . cases hcheck
  . next hviolation =>
    cases hcheck
    constructor
    . intro hview
      exact Write.valid_apply hview hviolation
    . intro w' hw'
      rw [List.mem_singleton.mp hw']
      exact h
    . intro w' hw' k hk
      rw [List.mem_singleton.mp hw'] at hk
      exact hk

theorem safe_update {w : Write} (h : P w) : Safe True P (PlatformCall.update tag w) :=
  .transaction (safe_execute h)

theorem safe_ofOption {R : Type} {e : ApiError} (o : Option R)
    : Safe ends P (PlatformCall.ofOption e o) := by
  cases o with
  | none => exact .throw e
  | some r => exact .pure r

theorem safe_audit (haudit : ∀ row, P (.insertAudit row)) (row : AuditLog)
    : Safe ends P (PlatformCall.audit row) :=
  safe_execute (haudit row)

theorem safe_lift {R : Type} {Q : Auth.Write → Prop} (hq : ∀ w, Q w → P (.auth w))
    {p : Auth.AuthCall R} (h : Call.Safe ends (fun _ => True) Q p)
    : Safe ends P (Call.lift authPart p) := by
  apply Call.Safe.lift _ hq _ h
  . intro w
    rfl
  . intro w _ db hdb
    exact Write.valid_apply_of rfl hdb

end Safe

end SentryPos.Platform
