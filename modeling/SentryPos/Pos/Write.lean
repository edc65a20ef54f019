import SentryPos.Pos.Schema
import SentryPos.ReadCommitted.Locking

/-!
This module contains the write statements of the point of sale, the locks they take and the
constraints of the tables.
-/

namespace SentryPos

open ReadCommitted

/-- The entries of the unique indexes. `level` is the partial index on the live stock rows. -/
inductive IndexEntry where
  | branchStock (id : Uuid)
  | level (key : StockKey)
  | shift (id : Uuid)
  | shiftCashMovement (id : Uuid)
  | sale (id : Uuid)
  | receipt (terminalId : Uuid) (receiptNo : String)
  | salePayment (id : Uuid)
  deriving DecidableEq

/-- Row locks and the locks on entries of unique indexes. -/
inductive Key where
  | terminal (id : Uuid)
  | product (id : Uuid)
  | productVariant (id : Uuid)
  | user (id : Uuid)
  | branchStock (id : Uuid)
  | shift (id : Uuid)
  | sale (id : Uuid)
  | entry (e : IndexEntry)
  deriving DecidableEq

/-- `setPin` leaves the lock as it is when it is not given one. -/
inductive Write where
  | setReceiptSeq (terminalId : Uuid) (receiptSeq : ℤ)
  | setProductCost (id : Uuid) (cost : ℤ)
  | setVariantCost (id : Uuid) (cost : ℤ)
  | setPin (userId : Uuid) (failedPinCount : Nat) (pinLockedUntil : Option (Option DateTime))
  | addStock (id : Uuid) (qty : ℤ)
  | setStock (id : Uuid) (qty : ℤ)
  | insertStock (id : Uuid) (key : StockKey) (qty : ℤ)
  | insertMovement (row : StockMovement)
  | insertShift (row : Shift)
  | closeShift (id : Uuid) (closedAt : DateTime) (closingCash expectedCash : ℤ)
  | insertCashMovement (row : ShiftCashMovement)
  | insertSale (row : Sale)
  | insertItem (row : SaleItem)
  | insertPayment (row : SalePayment)
  | voidSale (id : Uuid) (voidedAt : DateTime) (reason : String)
  | refundSale (id : Uuid) (refundedAt : DateTime) (reason : String) (refundShiftId : Option Uuid)

def Sale.void (s : Sale) (voidedAt : DateTime) (reason : String) : Sale :=
  { s with status := .voided, voidedAt := some voidedAt, statusReason := some reason }

def Sale.refund (s : Sale) (refundedAt : DateTime) (reason : String) (refundShiftId : Option Uuid)
    : Sale :=
  {
    s with
      status := .refunded
      refundedAt := some refundedAt
      statusReason := some reason
      refundShiftId
  }

def Shift.close (s : Shift) (closedAt : DateTime) (closingCash expectedCash : ℤ) : Shift :=
  {
    s with
      closedAt := some closedAt
      closingCash := some closingCash
      expectedCash := some expectedCash
  }

namespace Write

def apply (w : Write) (db : Database) : Database :=
  match w with
  | setReceiptSeq id receiptSeq =>
    { db with terminals := Table.modify (·.id) db.terminals id ({ · with receiptSeq }) }
  | setProductCost id cost =>
    { db with products := Table.modify (·.id) db.products id ({ · with cost := some cost }) }
  | setVariantCost id cost =>
    {
      db with
        productVariants := Table.modify (·.id) db.productVariants id ({ · with cost := some cost })
    }
  | setPin id failedPinCount pinLockedUntil =>
    {
      db with
        users := Table.modify (·.id) db.users id fun u =>
          { u with failedPinCount, pinLockedUntil := pinLockedUntil.getD u.pinLockedUntil }
    }
  | addStock id qty =>
    {
      db with
        branchStock := Table.modify (·.id) db.branchStock id fun r => { r with qty := r.qty + qty }
    }
  | setStock id qty =>
    { db with branchStock := Table.modify (·.id) db.branchStock id ({ · with qty }) }
  | insertStock id key qty =>
    { db with branchStock := db.branchStock ++ [{ key with id, qty, deletedAt := none }] }
  | insertMovement row => { db with stockMovements := db.stockMovements ++ [row] }
  | insertShift row => { db with shifts := db.shifts ++ [row] }
  | closeShift id closedAt closingCash expectedCash =>
    {
      db with
        shifts := Table.modify (·.id) db.shifts id (·.close closedAt closingCash expectedCash)
    }
  | insertCashMovement row => { db with shiftCashMovements := db.shiftCashMovements ++ [row] }
  | insertSale row => { db with sales := db.sales ++ [row] }
  | insertItem row => { db with saleItems := db.saleItems ++ [row] }
  | insertPayment row => { db with salePayments := db.salePayments ++ [row] }
  | voidSale id voidedAt reason =>
    { db with sales := Table.modify (·.id) db.sales id (·.void voidedAt reason) }
  | refundSale id refundedAt reason refundShiftId =>
    {
      db with
        sales := Table.modify (·.id) db.sales id (·.refund refundedAt reason refundShiftId)
    }

/-- The index entries of the row a write inserts. -/
def added : Write → List IndexEntry
  | insertStock id key _ => [.branchStock id, .level key]
  | insertShift row => [.shift row.id]
  | insertCashMovement row => [.shiftCashMovement row.id]
  | insertSale row => [.sale row.id, .receipt row.terminalId row.receiptNo]
  | insertPayment row => [.salePayment row.id]
  | _ => []

def updated : Write → List Key
  | setReceiptSeq id _ => [.terminal id]
  | setProductCost id _ => [.product id]
  | setVariantCost id _ => [.productVariant id]
  | setPin id _ _ => [.user id]
  | addStock id _ => [.branchStock id]
  | setStock id _ => [.branchStock id]
  | insertStock id _ _ => [.branchStock id]
  | closeShift id _ _ _ => [.shift id]
  | voidSale id _ _ => [.sale id]
  | refundSale id _ _ _ => [.sale id]
  | _ => []

def keys (w : Write) : List Key :=
  w.updated ++ w.added.map .entry

def reversed? : Write → Option Uuid
  | voidSale id _ _ => some id
  | refundSale id _ _ _ => some id
  | _ => none

end Write

instance : Store Write Database where
  apply := Write.apply

theorem store_apply (w : Write) (db : Database) : Store.apply w db = w.apply db := rfl

namespace Database

def entries (db : Database) : List IndexEntry :=
  db.branchStock.map (.branchStock ·.id)
    ++ (db.branchStock.filter (·.deletedAt.isNone)).map (.level ·.toStockKey)
    ++ db.shifts.map (.shift ·.id)
    ++ db.shiftCashMovements.map (.shiftCashMovement ·.id)
    ++ db.sales.map (.sale ·.id)
    ++ db.sales.map (fun s => .receipt s.terminalId s.receiptNo)
    ++ db.salePayments.map (.salePayment ·.id)

def Kept (k : Key) (db db' : Database) : Prop :=
  match k with
  | .branchStock id => db'.stock? id = db.stock? id
  | .sale id => ∀ s, db.sale? id = some s → db'.sale? id = some s
  | .entry e => e ∉ db.entries → e ∉ db'.entries
  | _ => True

end Database

theorem Write.entries_apply (w : Write) (db : Database)
    : (w.apply db).entries.Perm (db.entries ++ w.added) := by
  rw [List.perm_iff_count]
  intro e
  cases w with
  | setReceiptSeq | setProductCost | setVariantCost | setPin | insertMovement
  | insertItem =>
    simp [apply, added, Database.entries]
  | addStock | setStock =>
    simp [apply, added, Database.entries, Table.map_modify, Table.filter_modify]
  | closeShift => simp [apply, added, Database.entries, Table.map_modify, Shift.close]
  | voidSale => simp [apply, added, Database.entries, Table.map_modify, Sale.void]
  | refundSale => simp [apply, added, Database.entries, Table.map_modify, Sale.refund]
  | insertStock | insertShift | insertCashMovement | insertSale =>
    simp [apply, added, Database.entries, List.count_cons]
    omega
  | insertPayment => simp [apply, added, Database.entries, List.count_cons]

theorem Write.stock?_apply {w : Write} {id : Uuid} (h : .branchStock id ∉ w.keys) (db : Database)
    : (w.apply db).stock? id = db.stock? id := by
  cases w with
  | addStock id' | setStock id' =>
    have hne : id ≠ id' := by simpa [keys, updated, added] using h
    unfold apply Database.stock?
    apply Table.get_modify_ne _ hne
    intro r
    rfl
  | insertStock id' key qty =>
    have hne : id ≠ id' := by simpa [keys, updated, added] using h
    unfold apply Database.stock?
    dsimp only
    rw [Table.get_append, Table.get_singleton_ne, Option.or_none]
    exact Ne.symm hne
  | _ => rfl

theorem Write.sale?_apply {w : Write} {id : Uuid} {s : Sale} {db : Database}
    (h : .sale id ∉ w.keys) (hs : db.sale? id = some s) : (w.apply db).sale? id = some s := by
  cases w with
  | voidSale id' =>
    have hne : id ≠ id' := by simpa [keys, updated, added] using h
    rw [← hs]
    unfold apply Database.sale?
    apply Table.get_modify_ne _ hne
    intro r
    rfl
  | refundSale id' =>
    have hne : id ≠ id' := by simpa [keys, updated, added] using h
    rw [← hs]
    unfold apply Database.sale?
    apply Table.get_modify_ne _ hne
    intro r
    rfl
  | insertSale row => exact Table.get_append_of_some hs
  | _ => exact hs

theorem Write.kept_apply (k : Key) (w : Write) (db : Database) (h : k ∉ w.keys)
    : db.Kept k (w.apply db) := by
  cases k with
  | branchStock id => exact w.stock?_apply h db
  | sale id =>
    intro s hs
    exact w.sale?_apply h hs
  | entry e =>
    intro habsent hmem
    rw [(w.entries_apply db).mem_iff, List.mem_append] at hmem
    cases hmem with
    | inl hmem => exact habsent hmem
    | inr hmem =>
      apply h
      simp [keys, hmem]
  | _ => trivial

theorem Database.kept_trans (k : Key) (db db' db'' : Database) (h : db.Kept k db')
    (h' : db'.Kept k db'') : db.Kept k db'' := by
  cases k with
  | branchStock id => exact Eq.trans h' h
  | sale id =>
    intro s hs
    exact h' s (h s hs)
  | entry e =>
    intro habsent
    exact h' (h habsent)
  | _ => trivial

theorem Database.kept_refl (k : Key) (db : Database) : db.Kept k db := by
  cases k <;> simp [Kept]

instance : Locking Write Database Key where
  keys := Write.keys
  Kept := Database.Kept
  kept_refl := Database.kept_refl
  kept_trans := Database.kept_trans
  frame := Write.kept_apply

instance : UniqueIndex Write Database Key IndexEntry where
  entries := Database.entries
  added := Write.added
  key := .entry
  entries_apply := Write.entries_apply
  key_mem := by
    intro w e he
    simp [Locking.keys, Write.keys, he]
  kept := by
    intro e db db' hkept
    exact hkept

theorem Write.stock?_congr (w : Write) (id : Uuid) (db db' : Database)
    (h : db.stock? id = db'.stock? id) : (w.apply db).stock? id = (w.apply db').stock? id := by
  by_cases hkey : .branchStock id ∈ w.keys
  . cases w with
    | addStock id' qty =>
      have heq : id = id' := by simpa [keys, updated, added] using hkey
      subst heq
      unfold apply Database.stock? at *
      rw [Table.get_modify_self, Table.get_modify_self, h]
      . intro r
        rfl
      . intro r
        rfl
    | setStock id' qty =>
      have heq : id = id' := by simpa [keys, updated, added] using hkey
      subst heq
      unfold apply Database.stock? at *
      rw [Table.get_modify_self, Table.get_modify_self, h]
      . intro r
        rfl
      . intro r
        rfl
    | insertStock id' key qty =>
      unfold apply Database.stock? at *
      simp only [Table.get_append, h]
    | _ => simp [keys, updated, added] at hkey
  . rw [w.stock?_apply hkey, w.stock?_apply hkey, h]

instance : LockedRow Write Database Key Uuid (Option BranchStock) where
  row := fun id db => db.stock? id
  key := .branchStock
  row_congr := Write.stock?_congr
  row_frame := by
    intro w id db h
    exact w.stock?_apply h db
  kept := by
    intro id db db' hkept
    exact hkept

end SentryPos
