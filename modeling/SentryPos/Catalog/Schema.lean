import Mathlib.Algebra.Order.Round
import Mathlib.Data.NNRat.Defs
import Mathlib.Data.Rat.Floor
import SentryPos.Checks
import SentryPos.Pos.Schema

/-!
This module contains the tables of the catalog, the writes on them and what makes the database
refuse one.
-/

namespace SentryPos.Catalog

inductive SoldBy where
  | unit
  | weight
  deriving DecidableEq

structure Business where
  id : Uuid
  ownerId : Uuid
  deletedAt : Option DateTime
  deriving DecidableEq

structure Category where
  id : Uuid
  businessId : Uuid
  deletedAt : Option DateTime
  deriving DecidableEq

/-- `lowStockThreshold` is in thousandths. -/
structure Product where
  id : Uuid
  businessId : Uuid
  categoryId : Uuid
  name : String
  sku : Option String
  barcode : Option String
  price : ℤ
  cost : Option ℤ
  soldBy : SoldBy
  lowStockThreshold : Option ℤ
  imagePath : Option String
  trackStock : Bool
  trackExpiry : Bool
  active : Bool
  deletedAt : Option DateTime
  deriving DecidableEq

structure ProductVariant where
  id : Uuid
  productId : Uuid
  name : String
  sku : Option String
  barcode : Option String
  price : ℤ
  cost : Option ℤ
  deletedAt : Option DateTime
  deriving DecidableEq

structure ProductModifierGroup where
  productId : Uuid
  groupId : Uuid
  deletedAt : Option DateTime
  deriving DecidableEq

structure SaleItem where
  productId : Option Uuid
  deletedAt : Option DateTime
  deriving DecidableEq

/-- The rows of every table are in the order of their `createdAt`. -/
structure Database where
  businesses : List Business
  categories : List Category
  products : List Product
  variants : List ProductVariant
  productModifierGroups : List ProductModifierGroup
  saleItems : List SaleItem
  deriving DecidableEq

/-- The two columns that identify what is sold. -/
inductive Identifier where
  | sku
  | barcode
  deriving DecidableEq

def Product.identifier (p : Product) : Identifier → Option String
  | .sku => p.sku
  | .barcode => p.barcode

def ProductVariant.identifier (v : ProductVariant) : Identifier → Option String
  | .sku => v.sku
  | .barcode => v.barcode

/-- The columns that an update of a product sets. -/
structure ProductUpdate where
  categoryId : Option Uuid := none
  name : Option String := none
  sku : Option (Option String) := none
  barcode : Option (Option String) := none
  price : Option ℤ := none
  cost : Option (Option ℤ) := none
  soldBy : Option SoldBy := none
  lowStockThreshold : Option (Option ℤ) := none
  imagePath : Option (Option String) := none
  trackStock : Option Bool := none
  trackExpiry : Option Bool := none
  active : Option Bool := none
  deriving DecidableEq

def ProductUpdate.apply (u : ProductUpdate) (p : Product) : Product :=
  { p with
    categoryId := u.categoryId.getD p.categoryId
    name := u.name.getD p.name
    sku := u.sku.getD p.sku
    barcode := u.barcode.getD p.barcode
    price := u.price.getD p.price
    cost := u.cost.getD p.cost
    soldBy := u.soldBy.getD p.soldBy
    lowStockThreshold := u.lowStockThreshold.getD p.lowStockThreshold
    imagePath := u.imagePath.getD p.imagePath
    trackStock := u.trackStock.getD p.trackStock
    trackExpiry := u.trackExpiry.getD p.trackExpiry
    active := u.active.getD p.active }

@[simp]
theorem ProductUpdate.apply_id (u : ProductUpdate) (p : Product) : (u.apply p).id = p.id := rfl

@[simp]
theorem ProductUpdate.apply_businessId (u : ProductUpdate) (p : Product)
    : (u.apply p).businessId = p.businessId := rfl

@[simp]
theorem ProductUpdate.apply_deletedAt (u : ProductUpdate) (p : Product)
    : (u.apply p).deletedAt = p.deletedAt := rfl

structure VariantData where
  name : String
  sku : Option String
  barcode : Option String
  price : ℤ
  cost : Option ℤ
  deriving DecidableEq

def ProductVariant.data (v : ProductVariant) : VariantData :=
  { name := v.name, sku := v.sku, barcode := v.barcode, price := v.price, cost := v.cost }

def VariantData.identifier (d : VariantData) : Identifier → Option String
  | .sku => d.sku
  | .barcode => d.barcode

/-- What an update of a variant sets: the columns of a submission, or `deletedAt`. -/
inductive VariantUpdate where
  | data (d : VariantData)
  | delete (now : DateTime)
  deriving DecidableEq

def VariantUpdate.apply (u : VariantUpdate) (v : ProductVariant) : ProductVariant :=
  match u with
  | data d => { v with name := d.name, sku := d.sku, barcode := d.barcode, price := d.price,
                       cost := d.cost }
  | delete now => { v with deletedAt := some now }

@[simp]
theorem VariantUpdate.apply_id (u : VariantUpdate) (v : ProductVariant)
    : (u.apply v).id = v.id := by
  cases u <;> rfl

@[simp]
theorem VariantUpdate.apply_productId (u : VariantUpdate) (v : ProductVariant)
    : (u.apply v).productId = v.productId := by
  cases u <;> rfl

inductive Write where
  | insertProduct (row : Product)
  | insertVariant (row : ProductVariant)
  | updateProduct (id : Uuid) (data : ProductUpdate)
  | deleteProduct (id : Uuid) (now : DateTime)
  | updateVariant (id : Uuid) (data : VariantUpdate)
  deriving DecidableEq

namespace Write

def apply (w : Write) (db : Database) : Database :=
  match w with
  | insertProduct row => { db with products := db.products ++ [row] }
  | insertVariant row => { db with variants := db.variants ++ [row] }
  | updateProduct id data =>
    { db with products := Table.modify Product.id db.products id data.apply }
  | deleteProduct id now =>
    { db with products :=
        Table.modify Product.id db.products id fun p => { p with deletedAt := some now } }
  | updateVariant id data =>
    { db with variants := Table.modify ProductVariant.id db.variants id data.apply }

/-- The columns of a unique index, as the error of the database names them. -/
inductive Target where
  | id
  | identifier (identifier : Identifier)
  deriving DecidableEq

inductive Entry where
  | id (id : Uuid)
  | identifier (parentId : Uuid) (value : String)
  deriving DecidableEq

/-- The unique indexes of `products`. -/
def productEntry (p : Product) : Target → Option Entry
  | .id => some (.id p.id)
  | .identifier i =>
    if p.deletedAt.isNone then (p.identifier i).map (.identifier p.businessId) else none

/-- The unique indexes of `product_variants`, which cover the deleted rows as well. -/
def variantEntry (v : ProductVariant) : Target → Option Entry
  | .id => some (.id v.id)
  | .identifier i => (v.identifier i).map (.identifier v.productId)

/-- The first unique index with two equal entries, in the order they were created in. -/
def violated {α : Type} (rows : List α) (entry : α → Target → Option Entry) : Option Target :=
  [.id, .identifier .sku, .identifier .barcode].find? fun target =>
    !decide (rows.filterMap (entry · target)).Nodup

def violation (w : Write) (db : Database) : Option Target :=
  match w with
  | insertProduct _ | updateProduct _ _ | deleteProduct _ _ =>
    violated (w.apply db).products productEntry
  | insertVariant _ | updateVariant _ _ => violated (w.apply db).variants variantEntry

end Write

end SentryPos.Catalog
