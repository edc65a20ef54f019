import SentryPos.Analytics.BusinessDay
import SentryPos.Pos.Schema

/-!
This module contains the tables that the reports read and how a row of one is archived.
-/

namespace SentryPos.Analytics

structure Business where
  id : Uuid
  ownerId : Uuid
  name : String
  dayStartTime : List Char
  taxRate : ℚ
  isDemo : Bool
  deletedAt : Option DateTime
  dayStart_ok : (parseDayStart dayStartTime).isOk

structure Branch where
  id : Uuid
  businessId : Uuid
  name : String
  deletedAt : Option DateTime
  deriving DecidableEq

structure Category where
  id : Uuid
  businessId : Uuid
  name : String
  deletedAt : Option DateTime
  deriving DecidableEq

structure Product where
  id : Uuid
  businessId : Uuid
  categoryId : Uuid
  name : String
  active : Bool
  deletedAt : Option DateTime
  deriving DecidableEq

structure ProductVariant where
  id : Uuid
  productId : Uuid
  name : String
  deletedAt : Option DateTime
  deriving DecidableEq

structure ModifierGroup where
  id : Uuid
  businessId : Uuid
  deletedAt : Option DateTime
  deriving DecidableEq

structure Discount where
  id : Uuid
  businessId : Uuid
  name : String
  active : Bool
  deletedAt : Option DateTime
  deriving DecidableEq

structure SaleLine extends SaleItem where
  deletedAt : Option DateTime
  deriving DecidableEq

structure Movement extends StockMovement where
  id : Uuid
  createdAt : DateTime
  deriving DecidableEq

structure AuditLog where
  actorType : String
  actorId : Option Uuid
  action : String
  entityId : Option Uuid
  createdAt : DateTime
  deriving DecidableEq

/-- The rows of every table are in the order of their `createdAt`. -/
structure Database where
  businesses : List Business
  branches : List Branch
  categories : List Category
  products : List Product
  variants : List ProductVariant
  modifierGroups : List ModifierGroup
  discounts : List Discount
  sales : List Sale
  saleLines : List SaleLine
  salePayments : List SalePayment
  movements : List Movement
  auditLogs : List AuditLog

/-- The primary and the foreign keys. -/
structure Database.Valid (db : Database) : Prop where
  businesses : (db.businesses.map (·.id)).Nodup
  branches : (db.branches.map (·.id)).Nodup
  products : (db.products.map (·.id)).Nodup
  variants : (db.variants.map (·.id)).Nodup
  movements : (db.movements.map (·.id)).Nodup
  movement_branch : ∀ m ∈ db.movements, m.branchId ∈ db.branches.map (·.id)
  movement_product : ∀ m ∈ db.movements, m.productId ∈ db.products.map (·.id)

end SentryPos.Analytics
