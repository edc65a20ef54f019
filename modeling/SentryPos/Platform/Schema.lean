import SentryPos.Auth.Valid
import SentryPos.Totals.Basic

/-!
This module contains the tables of the platform: owners, their businesses, branches and terminals, and
the tables of authentication as a part of them; their write statements and locks.
-/

namespace SentryPos.Platform

open ReadCommitted

/-- An owner, its `status` apart, which is the one of the table that authentication reads. -/
structure Account where
  id : Uuid
  name : String
  email : String
  maxBusinesses : Nat
  suspendedAt : Option DateTime
  deletedAt : Option DateTime
  deriving DecidableEq

structure Business where
  id : Uuid
  ownerId : Uuid
  name : String
  isDemo : Bool
  deletedAt : Option DateTime
  deriving DecidableEq

structure Branch where
  id : Uuid
  businessId : Uuid
  name : String
  code : String
  deletedAt : Option DateTime
  deriving DecidableEq

structure Terminal where
  id : Uuid
  branchId : Uuid
  name : String
  code : String
  deviceTokenHash : Option String
  deletedAt : Option DateTime
  deriving DecidableEq

inductive DiscountKind where
  | percent
  | fixed
  deriving DecidableEq

inductive DiscountAppliesTo where
  | line
  | order
  | both
  deriving DecidableEq

inductive CatalogRow where
  | category (id businessId : Uuid) (name : String) (sortOrder : ℤ)
  | modifierGroup (id businessId : Uuid) (name : String) (minSelect maxSelect : ℤ)
  | modifier (groupId : Uuid) (name : String) (priceDelta : ℤ)
  | discount (businessId : Uuid) (name : String) (kind : DiscountKind) (value : ℤ)
      (appliesTo : DiscountAppliesTo) (active : Bool)
  | product (id businessId categoryId : Uuid) (name sku : String) (barcode : Option String)
      (price : ℤ) (soldBy : SoldBy) (trackStock : Bool) (lowStockThreshold : Option ℚ)
  | variant (productId : Uuid) (name : String) (sku barcode : Option String) (price : ℤ)
  | productModifierGroup (productId groupId : Uuid)
  | branchStock (branchId productId : Uuid) (qty : Qty)
  deriving DecidableEq

inductive ActorType where
  | owner
  | terminal
  | platform_admin
  deriving DecidableEq

structure AuditLog where
  actorType : ActorType
  actorId : Option Uuid
  ownerId : Option Uuid
  businessId : Option Uuid
  action : String
  entityType : String
  entityId : Option Uuid
  deriving DecidableEq

structure Database where
  auth : Auth.Database
  accounts : List Account
  businesses : List Business
  branches : List Branch
  terminals : List Terminal
  catalog : List CatalogRow
  auditLogs : List AuditLog

inductive Archived where
  | business
  | branch
  | terminal
  deriving DecidableEq

namespace Database

def account? (db : Database) (id : Uuid) : Option Account :=
  Table.get (·.id) db.accounts id

/-- The number of live businesses of an owner, demo businesses apart. -/
def liveBusinesses (db : Database) (ownerId : Uuid) : Nat :=
  db.businesses.countP fun b => b.ownerId = ownerId && !b.isDemo && b.deletedAt.isNone

/-- The codes of all terminals ever created for a branch, in the order of their creation. -/
def codes (db : Database) (branchId : Uuid) : List String :=
  (db.terminals.filter fun t => t.branchId = branchId).map (·.code)

end Database

inductive Write where
  | auth (w : Auth.Write)
  | insertAuthToken (row : Auth.AuthToken)
  | insertOwner (owner : Auth.Owner) (account : Account)
  | insertUser (row : Auth.User)
  | setAccount (id : Uuid) (name : Option String) (maxBusinesses : Option Nat)
  | setStatus (id : Uuid) (status : Auth.OwnerStatus) (suspendedAt : Option DateTime)
  | insertBusiness (row : Business)
  | insertBranch (row : Branch)
  | insertCatalog (row : CatalogRow)
  | insertTerminal (row : Terminal)
  | archive (table : Archived) (id : Uuid) (deletedAt : DateTime)
  | clearDeviceToken (id : Uuid)
  | insertAudit (row : AuditLog)

def Write.apply (w : Write) (db : Database) : Database :=
  match w with
  | auth w => { db with auth := w.apply db.auth }
  | insertAuthToken row => { db with auth.authTokens := db.auth.authTokens ++ [row] }
  | insertOwner owner account =>
    { db with
      auth.owners := db.auth.owners ++ [owner]
      accounts := db.accounts ++ [account] }
  | insertUser row => { db with auth.users := db.auth.users ++ [row] }
  | setAccount id name maxBusinesses =>
    { db with
      accounts := Table.modify (·.id) db.accounts id fun row =>
        { row with
          name := name.getD row.name
          maxBusinesses := maxBusinesses.getD row.maxBusinesses } }
  | setStatus id status suspendedAt =>
    { db with
      auth.owners := Table.modify (·.id) db.auth.owners id fun row => { row with status }
      accounts := Table.modify (·.id) db.accounts id fun row => { row with suspendedAt } }
  | insertBusiness row => { db with businesses := db.businesses ++ [row] }
  | insertBranch row => { db with branches := db.branches ++ [row] }
  | insertCatalog row => { db with catalog := db.catalog ++ [row] }
  | insertTerminal row => { db with terminals := db.terminals ++ [row] }
  | archive .business id deletedAt =>
    { db with
      businesses := Table.modify (·.id) db.businesses id fun row =>
        { row with deletedAt := some deletedAt } }
  | archive .branch id deletedAt =>
    { db with
      branches := Table.modify (·.id) db.branches id fun row =>
        { row with deletedAt := some deletedAt } }
  | archive .terminal id deletedAt =>
    { db with
      terminals := Table.modify (·.id) db.terminals id fun row =>
        { row with deletedAt := some deletedAt } }
  | clearDeviceToken id =>
    { db with
      terminals := Table.modify (·.id) db.terminals id fun row =>
        { row with deviceTokenHash := none } }
  | insertAudit row => { db with auditLogs := db.auditLogs ++ [row] }

instance : Store Write Database where
  apply := Write.apply

@[simp]
theorem store_apply (w : Write) (db : Database) : Store.apply w db = w.apply db := rfl

inductive Key where
  | auth (k : Auth.Key)
  | owner (id : Uuid)
  | business (id : Uuid)
  | branch (id : Uuid)
  | terminal (id : Uuid)
  | ownerEmail (email : String)
  | userEmail (email : String)
  | authTokenHash (hash : String)
  | branchCode (businessId : Uuid) (code : String)
  | terminalCode (branchId : Uuid) (code : String)
  deriving DecidableEq

def Archived.key (table : Archived) (id : Uuid) : Key :=
  match table with
  | business => .business id
  | branch => .branch id
  | terminal => .terminal id

def Write.keys : Write → List Key
  | auth w => w.keys.map .auth
  | insertAuthToken row => [.auth (.authToken row.id), .authTokenHash row.tokenHash]
  | insertOwner _ account => [.owner account.id, .ownerEmail account.email]
  | insertUser row => [.auth (.user row.id), .userEmail row.email]
  | setAccount id .. | setStatus id .. => [.owner id]
  | insertBusiness row => [.business row.id, .owner row.ownerId]
  | insertBranch row => [.branch row.id, .branchCode row.businessId row.code]
  | insertTerminal row => [.terminal row.id, .terminalCode row.branchId row.code]
  | archive table id _ => [table.key id]
  | clearDeviceToken id => [.terminal id]
  | insertCatalog _ | insertAudit _ => []

def Key.Kept (k : Key) (db db' : Database) : Prop :=
  match k with
  | .auth k => k.Kept db.auth db'.auth
  | .owner id => db'.account? id = db.account? id ∧ db'.liveBusinesses id ≤ db.liveBusinesses id
  | .terminalCode branchId code => code ∉ db.codes branchId → code ∉ db'.codes branchId
  | _ => True

section Frame

variable {w : Write} {db : Database}

theorem Write.account?_apply {id : Uuid} (h : .owner id ∉ w.keys)
    : (w.apply db).account? id = db.account? id := by
  cases w with
  | insertOwner owner account =>
    have hid : account.id ≠ id := by
      intro heq
      apply h
      simp [keys, heq]
    unfold Database.account? apply
    dsimp only
    rw [Table.get_append, Table.get_singleton_ne hid, Option.or_none]
  | setAccount id' | setStatus id' =>
    have hid : id ≠ id' := by
      simpa [keys] using h
    apply Table.get_modify_ne _ hid
    intro row
    rfl
  | archive table => cases table <;> rfl
  | _ => rfl

theorem Write.liveBusinesses_apply {id : Uuid} (h : .owner id ∉ w.keys)
    : (w.apply db).liveBusinesses id ≤ db.liveBusinesses id := by
  cases w with
  | insertBusiness row =>
    have hid : row.ownerId ≠ id := by
      intro heq
      apply h
      simp [keys, heq]
    unfold Database.liveBusinesses apply
    dsimp only
    rw [List.countP_append]
    simp [hid]
  | archive table id' deletedAt =>
    cases table with
    | business =>
      unfold Database.liveBusinesses apply Table.modify
      dsimp only
      rw [List.countP_map]
      apply List.countP_mono_left
      intro b _ hb
      simp only [Function.comp_apply] at hb
      split at hb
      . simp at hb
      . exact hb
    | branch | terminal => exact le_rfl
  | _ => exact le_rfl

theorem Write.codes_apply (w : Write) (db : Database) (branchId : Uuid)
    : (w.apply db).codes branchId
        =
      db.codes branchId ++
        match w with
        | insertTerminal row => if row.branchId = branchId then [row.code] else []
        | _ => [] := by
  cases w with
  | insertTerminal row =>
    unfold Database.codes apply
    dsimp only
    rw [List.filter_append, List.map_append]
    congr 1
    by_cases h : row.branchId = branchId <;> simp [h]
  | archive table id deletedAt =>
    cases table with
    | terminal =>
      unfold Database.codes apply
      dsimp only
      rw [List.append_nil, Table.filter_modify (by simp), Table.map_modify (by simp)]
    | business | branch => simp [apply, Database.codes]
  | clearDeviceToken id =>
    unfold Database.codes apply
    dsimp only
    rw [List.append_nil, Table.filter_modify (by simp), Table.map_modify (by simp)]
  | _ => simp [apply, Database.codes]

theorem Write.auth_kept {k : Auth.Key} (h : .auth k ∉ w.keys)
    : k.Kept db.auth (w.apply db).auth := by
  have hrefl : k.Kept db.auth db.auth := Locking.kept_refl (W := Auth.Write) k db.auth
  cases w with
  | auth w =>
    apply Locking.frame k w db.auth
    intro hk
    exact h (List.mem_map_of_mem hk)
  | insertAuthToken row =>
    cases k with
    | authToken id =>
      have hid : row.id ≠ id := by
        intro heq
        apply h
        simp [keys, heq]
      unfold Auth.Key.Kept Auth.Database.authToken? apply
      dsimp only
      rw [Table.get_append, Table.get_singleton_ne hid, Option.or_none]
    | _ => exact hrefl
  | insertUser row =>
    cases k with
    | user id =>
      have hid : row.id ≠ id := by
        intro heq
        apply h
        simp [keys, heq]
      unfold Auth.Key.Kept Auth.Database.user? apply
      dsimp only
      rw [Table.get_append, Table.get_singleton_ne hid, Option.or_none]
    | _ => exact hrefl
  | insertOwner | setStatus =>
    cases k <;> exact hrefl
  | archive table =>
    cases table <;> exact hrefl
  | _ => exact hrefl

end Frame

instance : Locking Write Database Key where
  keys := Write.keys
  Kept := Key.Kept
  kept_refl := by
    intro k db
    cases k with
    | auth k => exact Locking.kept_refl (W := Auth.Write) k db.auth
    | owner => exact ⟨rfl, le_rfl⟩
    | terminalCode => exact fun h => h
    | _ => trivial
  kept_trans := by
    intro k db db' db'' h h'
    cases k with
    | auth k => exact Locking.kept_trans (W := Auth.Write) k db.auth db'.auth db''.auth h h'
    | owner => exact ⟨h'.1.trans h.1, h'.2.trans h.2⟩
    | terminalCode => exact fun hcode => h' (h hcode)
    | _ => trivial
  frame := by
    intro k w db hk
    rw [store_apply]
    cases k with
    | auth k => exact Write.auth_kept hk
    | owner id => exact ⟨Write.account?_apply hk, Write.liveBusinesses_apply hk⟩
    | terminalCode branchId code =>
      intro hcode
      rw [w.codes_apply, List.mem_append, not_or]
      refine ⟨hcode, ?_⟩
      cases w with
      | insertTerminal row =>
        dsimp only
        split
        . next hbranch =>
          intro hmem
          apply hk
          simp [Write.keys, List.mem_singleton.mp hmem, hbranch]
        . simp
      | _ => simp
    | _ => trivial

end SentryPos.Platform
