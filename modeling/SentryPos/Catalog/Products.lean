import SentryPos.Catalog.Schema

/-!
This module contains the portal's calls on products with their variants: `create`, `update` and
`remove`. Each of them is one step here.
-/

namespace SentryPos.Catalog

inductive ApiError where
  | notFound (message : String)
  | validationFailed (message : String)
  | typeError
  | prismaValidation
  | numericOverflow
  deriving DecidableEq

/-- A field of a body: `none` when it is absent, `some none` when it is `null`. -/
abbrev Field (α : Type) := Option (Option α)

/-- The client rejects a `null` for a column that is not nullable. -/
def Field.required {α : Type} : Field α → Except ApiError (Option α)
  | none => .ok none
  | some none => .error .prismaValidation
  | some (some a) => .ok (some a)

/-- A number as the column `Decimal(10, 3)` stores it, in thousandths. -/
def decimal10_3 (q : ℚ≥0) : Except ApiError ℤ :=
  let milli := round ((q : ℚ) * 1000)
  if milli < 10 ^ 10 then .ok milli else .error .numericOverflow

def Field.threshold : Field ℚ≥0 → Except ApiError (Option (Option ℤ))
  | none => .ok none
  | some none => .ok (some none)
  | some (some q) => do
    let milli ← decimal10_3 q
    return some (some milli)

/-- `undefined` and `null` are the same in every field that is an `Option` here. -/
structure VariantInputDto where
  id : Option Uuid
  name : String
  sku : Option String
  barcode : Option String
  priceC : ℤ
  costC : Option ℤ
  deriving DecidableEq

def VariantInputDto.data (v : VariantInputDto) : VariantData :=
  { name := v.name, sku := v.sku, barcode := v.barcode, price := v.priceC, cost := v.costC }

structure CreateProductDto where
  categoryId : Uuid
  name : String
  sku : Option String
  barcode : Option String
  priceC : ℤ
  costC : Option ℤ
  soldBy : Field SoldBy
  lowStockThreshold : Field ℚ≥0
  trackStock : Field Bool
  trackExpiry : Field Bool
  active : Field Bool
  imagePath : Field String
  variants : Option (List VariantInputDto)

structure UpdateProductDto where
  categoryId : Field Uuid
  name : Field String
  sku : Field String
  barcode : Field String
  priceC : Field ℤ
  costC : Field ℤ
  soldBy : Field SoldBy
  lowStockThreshold : Field ℚ≥0
  trackStock : Field Bool
  trackExpiry : Field Bool
  active : Field Bool
  imagePath : Field String
  variants : Field (List VariantInputDto)

structure ProductResponse where
  product : Product
  variants : List ProductVariant
  modifierGroupIds : List Uuid
  deriving DecidableEq

namespace Database

variable (db : Database)

def allowedBusinessIds (ownerId : Uuid) : List Uuid :=
  (db.businesses.filter fun b => b.ownerId = ownerId ∧ b.deletedAt.isNone).map (·.id)

def liveVariants (productId : Uuid) : List ProductVariant :=
  db.variants.filter fun v => v.productId = productId ∧ v.deletedAt.isNone

def liveProducts (businessId : Uuid) : List Product :=
  db.products.filter fun p => p.businessId = businessId ∧ p.deletedAt.isNone

/-- A product with the relations of `PRODUCT_INCLUDE`. -/
def serializeProduct (p : Product) : ProductResponse where
  product := p
  variants := db.liveVariants p.id
  modifierGroupIds :=
    (db.productModifierGroups.filter fun g => g.productId = p.id ∧ g.deletedAt.isNone).map (·.groupId)

def assertBusinessOwned (ownerId businessId : Uuid) : Except ApiError Unit :=
  if businessId ∈ db.allowedBusinessIds ownerId then .ok ()
  else .error (.notFound "Business not found.")

def loadOwned (ownerId id : Uuid) : Except ApiError Product :=
  let owned := db.products.find? fun p =>
    p.id = id ∧ p.deletedAt.isNone ∧ p.businessId ∈ db.allowedBusinessIds ownerId
  match owned with
  | none => .error (.notFound "Product not found.")
  | some p => .ok p

def assertCategoryInBusiness (businessId categoryId : Uuid) : Except ApiError Unit :=
  let inBusiness := db.categories.any fun c =>
    c.id = categoryId ∧ c.businessId = businessId ∧ c.deletedAt.isNone
  if inBusiness then .ok ()
  else .error (.validationFailed "categoryId does not reference a category in this business.")

end Database

def collect (own : Option String) (many : List (Option String)) : List String :=
  ((own :: many).filterMap id).filter (· ≠ "")

def firstDuplicate (values : List String) : Option String :=
  go [] values
where
  go (seen : List String) : List String → Option String
    | [] => none
    | v :: vs => if v ∈ seen then some v else go (v :: seen) vs

def Database.identifiers (db : Database) (i : Identifier) (p : Product) : List String :=
  collect (p.identifier i) ((db.liveVariants p.id).map (·.identifier i))

def Database.taken (db : Database) (i : Identifier) (products : List Product) : List String :=
  products.flatMap (db.identifiers i)

def Database.others (db : Database) (businessId : Uuid) (excludeProductId : Option Uuid)
    : List Product :=
  (db.liveProducts businessId).filter fun p => some p.id ≠ excludeProductId

def reject {α : Type} (found : Option α) (error : α → ApiError) : Except ApiError Unit :=
  match found with
  | some a => .error (error a)
  | none => .ok ()

theorem reject_eq_ok {α : Type} {found : Option α} {error : α → ApiError}
    : reject found error = .ok () ↔ found = none := by
  cases found with
  | some a => simp [reject]
  | none => simp [reject]

def assertUniqueIdentifiers (db : Database) (businessId : Uuid) (excludeProductId : Option Uuid)
    (skus barcodes : List String) : Except ApiError Unit := do
  reject (firstDuplicate skus) fun dupSku =>
    .validationFailed s!"Duplicate SKU \"{dupSku}\" in this submission."
  reject (firstDuplicate barcodes) fun dupBarcode =>
    .validationFailed s!"Duplicate barcode \"{dupBarcode}\" in this submission."
  if skus.isEmpty ∧ barcodes.isEmpty then
    return
  else
    let products := db.others businessId excludeProductId
    reject (skus.find? (· ∈ db.taken .sku products)) fun s =>
      .validationFailed s!"SKU \"{s}\" is already in use."
    reject (barcodes.find? (· ∈ db.taken .barcode products)) fun b =>
      .validationFailed s!"Barcode \"{b}\" is already in use."

/-- The error of a write that violates a unique index. -/
def mapCatalogWriteError (target : Write.Target) : ApiError :=
  let field := if target = .identifier .barcode then "barcode" else "SKU"
  .validationFailed s!"This {field} is already in use."

/-- The writes of one statement of the client, of which all or none is kept. -/
def Database.write (db : Database) (writes : List Write) : Except ApiError Database :=
  writes.foldlM (fun db w =>
    match w.violation db with
    | some target => .error (mapCatalogWriteError target)
    | none => .ok (w.apply db)) db

def createdVariants (productId : Uuid) (variantIds : Nat → Uuid) (variants : List VariantInputDto)
    : List ProductVariant :=
  variants.zipIdx.map fun (v, i) =>
    { id := variantIds i, productId, name := v.name, sku := v.sku, barcode := v.barcode,
      price := v.priceC, cost := v.costC, deletedAt := none }

def create (ownerId businessId : Uuid) (dto : CreateProductDto) (productId : Uuid)
    (variantIds : Nat → Uuid) (db : Database) : Except ApiError (ProductResponse × Database) := do
  db.assertBusinessOwned ownerId businessId
  db.assertCategoryInBusiness businessId dto.categoryId
  let variants := dto.variants.getD []
  assertUniqueIdentifiers db businessId none
    (collect dto.sku (variants.map (·.sku)))
    (collect dto.barcode (variants.map (·.barcode)))
  let soldBy ← dto.soldBy.required
  let lowStockThreshold ← dto.lowStockThreshold.threshold
  let trackStock ← dto.trackStock.required
  let trackExpiry ← dto.trackExpiry.required
  let active ← dto.active.required
  let product : Product :=
    { id := productId
      businessId
      categoryId := dto.categoryId
      name := dto.name
      sku := dto.sku
      barcode := dto.barcode
      price := dto.priceC
      cost := dto.costC
      soldBy := soldBy.getD .unit
      lowStockThreshold := lowStockThreshold.getD none
      imagePath := dto.imagePath.getD none
      trackStock := trackStock.getD true
      trackExpiry := trackExpiry.getD false
      active := active.getD true
      deletedAt := none }
  let db ← db.write
    (.insertProduct product ::
      (createdVariants productId variantIds variants).map .insertVariant)
  return (db.serializeProduct product, db)

/-- The nested writes that make the live variants of a product those of a submission. -/
def buildVariantReplaceSet (productId : Uuid) (variantIds : Nat → Uuid) (now : DateTime)
    (current : List ProductVariant) (submitted : List VariantInputDto)
    : Except ApiError (List Write) := do
  let currentIds := current.map (·.id)
  let submittedIds := submitted.filterMap (·.id)
  reject (submittedIds.find? (· ∉ currentIds)) fun unknown =>
    .validationFailed s!"Unknown variant id \"{unknown}\"."
  if submittedIds.length ≠ submittedIds.dedup.length then
    throw (.validationFailed "The same variant id appears more than once in this submission.")
  let toCreate := submitted.filter fun v => v.id.isNone
  let toUpdate := submitted.filterMap fun v => v.id.map fun id => (id, v.data)
  let toDelete := current.filter fun v => v.id ∉ submittedIds
  return (createdVariants productId variantIds toCreate).map .insertVariant ++
    toUpdate.map (fun (id, data) => .updateVariant id (.data data)) ++
    toDelete.map (fun v => .updateVariant v.id (.delete now))

/-- The columns that the body of an update sets. -/
def UpdateProductDto.data (dto : UpdateProductDto) : Except ApiError ProductUpdate := do
  let categoryId ← dto.categoryId.required
  let name ← dto.name.required
  let price ← dto.priceC.required
  let soldBy ← dto.soldBy.required
  let lowStockThreshold ← dto.lowStockThreshold.threshold
  let trackStock ← dto.trackStock.required
  let trackExpiry ← dto.trackExpiry.required
  let active ← dto.active.required
  return { categoryId, name, sku := dto.sku, barcode := dto.barcode, price, cost := dto.costC, soldBy,
           lowStockThreshold, imagePath := dto.imagePath, trackStock, trackExpiry, active }

/-- The variants after an update: those of its body, or else the ones there are. -/
def UpdateProductDto.finalVariants (dto : UpdateProductDto) (current : List ProductVariant)
    : List VariantData :=
  match dto.variants.join with
  | some submitted => submitted.map VariantInputDto.data
  | none => current.map ProductVariant.data

/-- A `null` is not a list to search for unknown identifiers. -/
def UpdateProductDto.variantWrites (dto : UpdateProductDto) (productId : Uuid)
    (variantIds : Nat → Uuid) (now : DateTime) (current : List ProductVariant)
    : Except ApiError (List Write) :=
  match dto.variants with
  | none => .ok []
  | some none => .error .typeError
  | some (some submitted) => buildVariantReplaceSet productId variantIds now current submitted

def update (ownerId id : Uuid) (dto : UpdateProductDto) (variantIds : Nat → Uuid) (now : DateTime)
    (db : Database) : Except ApiError (ProductResponse × Database) := do
  let current ← db.loadOwned ownerId id
  let currentVariants := db.liveVariants id
  let categoryId ← dto.categoryId.required
  categoryId.forM (db.assertCategoryInBusiness current.businessId)
  let finalSku := dto.sku.getD current.sku
  let finalBarcode := dto.barcode.getD current.barcode
  let finalVariants := dto.finalVariants currentVariants
  assertUniqueIdentifiers db current.businessId (some id)
    (collect finalSku (finalVariants.map (·.sku)))
    (collect finalBarcode (finalVariants.map (·.barcode)))
  let variantWrites ← dto.variantWrites id variantIds now currentVariants
  let data ← dto.data
  if data = {} ∧ dto.variants.isNone then
    return (db.serializeProduct current, db)
  let db ← db.write (.updateProduct id data :: variantWrites)
  let product ← db.loadOwned ownerId id
  return (db.serializeProduct product, db)

def remove (ownerId id : Uuid) (now : DateTime) (db : Database)
    : Except ApiError (ProductResponse × Database) := do
  let current ← db.loadOwned ownerId id
  let soldCount := db.saleItems.countP fun s => s.productId = some id ∧ s.deletedAt.isNone
  if soldCount > 0 then
    let db ← db.write [.updateProduct id { active := some false }]
    let product ← db.loadOwned ownerId id
    return (db.serializeProduct product, db)
  else
    let response := db.serializeProduct current
    let db ← db.write [.deleteProduct id now]
    return ({ response with product := { current with deletedAt := some now } }, db)

inductive Request where
  | create (ownerId businessId : Uuid) (dto : CreateProductDto) (productId : Uuid)
      (variantIds : Nat → Uuid)
  | update (ownerId id : Uuid) (dto : UpdateProductDto) (variantIds : Nat → Uuid) (now : DateTime)
  | remove (ownerId id : Uuid) (now : DateTime)

def Request.call : Request → Database → Except ApiError (ProductResponse × Database)
  | create ownerId businessId dto productId variantIds =>
    Catalog.create ownerId businessId dto productId variantIds
  | update ownerId id dto variantIds now => Catalog.update ownerId id dto variantIds now
  | remove ownerId id now => Catalog.remove ownerId id now

/-- A request that fails leaves the tables as they are. -/
def Request.step (req : Request) (db : Database) : Except ApiError ProductResponse × Database :=
  match req.call db with
  | .ok (response, db) => (.ok response, db)
  | .error e => (.error e, db)

/-- The tables that a sequence of requests can lead to, with any changes to the other tables. -/
inductive Reachable : Database → Prop where
  | empty {db : Database} (hproducts : db.products = []) (hvariants : db.variants = [])
      : Reachable db
  | request {db : Database} (h : Reachable db) (req : Request) : Reachable (req.step db).2
  | elsewhere {db db' : Database} (h : Reachable db) (hproducts : db'.products = db.products)
      (hvariants : db'.variants = db.variants) : Reachable db'

end SentryPos.Catalog
