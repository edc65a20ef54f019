import SentryPos.Catalog.ModifierGroups
import SentryPos.Catalog.Products
import SentryPos.Pos.Stock

/-!
This module contains what a terminal pulls of the catalog, and the portal's calls on the rows that the
payload refers to: those on categories, on products and on stock levels. Each call is one step here.
-/

namespace SentryPos.Catalog.Pull

open ModifierGroups (ModifierGroup Modifier)

structure Branch where
  id : Uuid
  businessId : Uuid
  name : String
  code : String
  address : String
  deletedAt : Option DateTime
  deriving DecidableEq

structure Terminal where
  id : Uuid
  branchId : Uuid
  name : String
  code : String
  deletedAt : Option DateTime
  deriving DecidableEq

structure Category extends Catalog.Category where
  name : String
  sortOrder : ℤ
  deriving DecidableEq

inductive DiscountKind where
  | percent
  | fixed
  deriving DecidableEq

inductive DiscountAppliesTo where
  | line
  | order
  | both
  deriving DecidableEq

structure Discount where
  id : Uuid
  businessId : Uuid
  name : String
  kind : DiscountKind
  value : ℤ
  appliesTo : DiscountAppliesTo
  active : Bool
  deletedAt : Option DateTime
  deriving DecidableEq

/-- The rows of every table are in the order of their `createdAt`. -/
structure State where
  businesses : List Business
  branches : List Branch
  terminals : List Terminal
  categories : List Category
  products : List Product
  variants : List ProductVariant
  modifierGroups : List ModifierGroup
  modifiers : List Modifier
  productModifierGroups : List ProductModifierGroup
  discounts : List Discount
  branchStock : List BranchStock
  saleItems : List SaleItem
  deriving DecidableEq

namespace State

variable (s : State)

/-- The tables that the calls on products read. -/
def catalog : Database where
  businesses := s.businesses
  categories := s.categories.map (·.toCategory)
  products := s.products
  variants := s.variants
  productModifierGroups := s.productModifierGroups
  saleItems := s.saleItems

def allowedBusinessIds (ownerId : Uuid) : List Uuid :=
  s.catalog.allowedBusinessIds ownerId

def liveVariants (productId : Uuid) : List ProductVariant :=
  s.catalog.liveVariants productId

/-- The scope that the guard of the terminals stamps on a request. -/
def terminalContext (terminalId : Uuid) : Option TerminalContext := do
  let terminal ← s.terminals.find? fun t => t.id = terminalId ∧ t.deletedAt.isNone
  let branch ← s.branches.find? fun b => b.id = terminal.branchId
  let business ← s.businesses.find? fun b => b.id = branch.businessId
  return {
    ownerId := business.ownerId
    businessId := branch.businessId
    branchId := terminal.branchId
    terminalId
    terminalCode := some terminal.code
  }

end State

/-! Stock levels. -/

structure StockLevel where
  productId : Uuid
  productName : String
  variantId : Option Uuid
  variantName : Option String
  qty : ℤ
  deriving DecidableEq

def assertBranch (ownerId branchId : Uuid) (s : State) : Except ApiError Branch :=
  let found := s.branches.find? fun b =>
    b.id = branchId ∧ b.businessId ∈ s.allowedBusinessIds ownerId ∧ b.deletedAt.isNone
  match found with
  | none => .error (.notFound "Branch not found.")
  | some branch => .ok branch

def trackedRows (branchId : Uuid) (s : State) : List BranchStock :=
  s.branchStock.filter fun r =>
    r.branchId = branchId ∧ r.deletedAt.isNone ∧
      s.products.any fun p => p.id = r.productId ∧ p.trackStock

def productNames (ownerId : Uuid) (s : State) : List (Uuid × String) :=
  (s.products.filter fun p =>
    p.deletedAt.isNone ∧ p.businessId ∈ s.allowedBusinessIds ownerId).map fun p => (p.id, p.name)

def variantNames (ownerId : Uuid) (s : State) : List (Uuid × String) :=
  (productNames ownerId s).flatMap fun p => (s.liveVariants p.1).map fun v => (v.id, v.name)

def levels (ownerId branchId : Uuid) (s : State) : Except ApiError (List StockLevel) := do
  let _ ← assertBranch ownerId branchId s
  return (trackedRows branchId s).map fun r =>
    {
      productId := r.productId
      productName := ((productNames ownerId s).lookup r.productId).getD ""
      variantId := r.variantId
      variantName := r.variantId.bind fun id => (variantNames ownerId s).lookup id
      qty := r.qty
    }

/-! The payload of a terminal. -/

structure CatalogBranch where
  id : Uuid
  name : String
  code : String
  address : String
  deriving DecidableEq

structure CatalogVariant where
  id : Uuid
  name : String
  sku : Option String
  barcode : Option String
  priceC : ℤ
  deriving DecidableEq

structure CatalogProduct where
  id : Uuid
  categoryId : Uuid
  name : String
  sku : Option String
  barcode : Option String
  priceC : ℤ
  soldBy : SoldBy
  lowStockThreshold : Option ℤ
  trackStock : Bool
  active : Bool
  variants : List CatalogVariant
  modifierGroupIds : List Uuid
  deriving DecidableEq

structure CatalogCategory where
  id : Uuid
  name : String
  sortOrder : ℤ
  deriving DecidableEq

structure CatalogModifier where
  id : Uuid
  name : String
  priceDeltaC : ℤ
  deriving DecidableEq

structure CatalogModifierGroup where
  id : Uuid
  name : String
  minSelect : ℤ
  maxSelect : ℤ
  modifiers : List CatalogModifier
  deriving DecidableEq

structure CatalogDiscount where
  id : Uuid
  name : String
  kind : DiscountKind
  value : ℤ
  appliesTo : DiscountAppliesTo
  active : Bool
  deriving DecidableEq

structure CatalogStockLevel where
  productId : Uuid
  variantId : Option Uuid
  qty : ℤ
  deriving DecidableEq

structure CatalogPayload where
  branch : CatalogBranch
  terminal : String × String
  categories : List CatalogCategory
  products : List CatalogProduct
  modifierGroups : List CatalogModifierGroup
  discounts : List CatalogDiscount
  stock : List CatalogStockLevel
  deriving DecidableEq

def serializeVariant (v : ProductVariant) : CatalogVariant :=
  { id := v.id, name := v.name, sku := v.sku, barcode := v.barcode, priceC := v.price }

/-- A link can outlive its group: only the groups in the payload are kept. -/
def serializeProduct (s : State) (liveGroupIds : List Uuid) (p : Product) : CatalogProduct where
  id := p.id
  categoryId := p.categoryId
  name := p.name
  sku := p.sku
  barcode := p.barcode
  priceC := p.price
  soldBy := p.soldBy
  lowStockThreshold := p.lowStockThreshold
  trackStock := p.trackStock
  active := p.active
  variants := (s.liveVariants p.id).map serializeVariant
  modifierGroupIds :=
    ((s.productModifierGroups.filter fun l => l.productId = p.id ∧ l.deletedAt.isNone).map
      (·.groupId)).filter (· ∈ liveGroupIds)

def serializeCategory (c : Category) : CatalogCategory :=
  { id := c.id, name := c.name, sortOrder := c.sortOrder }

def serializeGroup (s : State) (g : ModifierGroup) : CatalogModifierGroup where
  id := g.id
  name := g.name
  minSelect := g.minSelect
  maxSelect := g.maxSelect
  modifiers := (s.modifiers.filter (Child.live g.id)).map fun m =>
    { id := m.id, name := m.data.name, priceDeltaC := m.data.priceDelta }

def serializeDiscount (d : Discount) : CatalogDiscount :=
  { id := d.id, name := d.name, kind := d.kind, value := d.value, appliesTo := d.appliesTo,
    active := d.active }

section Rows

variable (ctx : TerminalContext) (s : State)

/-- `scoped.category.findMany`, in the order of `sortOrder`, then of `createdAt`. -/
def findCategories : List Category :=
  (s.categories.filter fun c =>
    c.businessId = ctx.businessId ∧ c.businessId ∈ s.allowedBusinessIds ctx.ownerId
      ∧ c.deletedAt.isNone).mergeSort fun a b => a.sortOrder ≤ b.sortOrder

def findProducts : List Product :=
  s.products.filter fun p =>
    p.businessId = ctx.businessId ∧ p.active ∧ p.businessId ∈ s.allowedBusinessIds ctx.ownerId
      ∧ p.deletedAt.isNone

def findGroups : List ModifierGroup :=
  s.modifierGroups.filter fun g =>
    g.businessId = ctx.businessId ∧ g.businessId ∈ s.allowedBusinessIds ctx.ownerId
      ∧ g.deletedAt.isNone

def findDiscounts : List Discount :=
  s.discounts.filter fun d =>
    d.businessId = ctx.businessId ∧ d.active ∧ d.businessId ∈ s.allowedBusinessIds ctx.ownerId
      ∧ d.deletedAt.isNone

end Rows

def pull (ctx : TerminalContext) (s : State) : Except ApiError CatalogPayload := do
  if ctx.businessId ∉ s.allowedBusinessIds ctx.ownerId then
    throw (.notFound "Business not found.")
  let branch ← assertBranch ctx.ownerId ctx.branchId s
  let found := s.terminals.find? fun t =>
    t.id = ctx.terminalId ∧ t.branchId = ctx.branchId ∧ t.deletedAt.isNone
  match found with
  | none => throw (.notFound "Terminal not found.")
  | some terminal =>
    let levels ← levels ctx.ownerId ctx.branchId s
    let modifierGroups := findGroups ctx s
    let liveGroupIds := modifierGroups.map (·.id)
    return {
      branch :=
        { id := branch.id, name := branch.name, code := branch.code, address := branch.address }
      terminal := (terminal.name, terminal.code)
      categories := (findCategories ctx s).map serializeCategory
      products := (findProducts ctx s).map (serializeProduct s liveGroupIds)
      modifierGroups := modifierGroups.map (serializeGroup s)
      discounts := (findDiscounts ctx s).map serializeDiscount
      stock := levels.map fun l => { productId := l.productId, variantId := l.variantId, qty := l.qty }
    }

/-! The portal's calls on categories. -/

structure CreateCategoryDto where
  name : String
  sortOrder : Field ℤ

structure UpdateCategoryDto where
  name : Field String
  sortOrder : Field ℤ

def createCategory (ownerId businessId : Uuid) (dto : CreateCategoryDto) (newId : Uuid) (s : State)
    : Except ApiError (Category × State) := do
  s.catalog.assertBusinessOwned ownerId businessId
  let sortOrder ← dto.sortOrder.required
  let row : Category :=
    { id := newId, businessId, name := dto.name, sortOrder := sortOrder.getD 0, deletedAt := none }
  return (row, { s with categories := s.categories ++ [row] })

def getCategory (ownerId id : Uuid) (s : State) : Except ApiError Category :=
  let found := s.categories.find? fun c =>
    c.id = id ∧ c.businessId ∈ s.allowedBusinessIds ownerId ∧ c.deletedAt.isNone
  match found with
  | none => .error (.notFound "Category not found.")
  | some category => .ok category

def updateCategory (ownerId id : Uuid) (dto : UpdateCategoryDto) (s : State)
    : Except ApiError (Category × State) := do
  let existing ← getCategory ownerId id s
  let name ← dto.name.required
  let sortOrder ← dto.sortOrder.required
  let change (c : Category) : Category :=
    { c with name := name.getD c.name, sortOrder := sortOrder.getD c.sortOrder }
  return (change existing,
    { s with categories := Table.modify (·.id) s.categories id change })

def removeCategory (ownerId id : Uuid) (now : DateTime) (s : State)
    : Except ApiError (Category × State) := do
  let existing ← getCategory ownerId id s
  let archive (c : Category) : Category := { c with deletedAt := some now }
  return (archive existing,
    { s with categories := Table.modify (·.id) s.categories id archive })

/-! The portal's calls on stock. -/

def loadProduct (ownerId businessId productId : Uuid) (s : State) : Except ApiError Product :=
  let found := s.products.find? fun p =>
    p.id = productId ∧ p.businessId = businessId ∧ p.businessId ∈ s.allowedBusinessIds ownerId
      ∧ p.deletedAt.isNone
  match found with
  | none =>
    .error (.validationFailed "productId does not reference a product in this branch business.")
  | some product => .ok product

def assertVariantIntegrity (variants : List ProductVariant) (variantId : Option Uuid)
    : Except ApiError Unit :=
  if variants ≠ [] then
    match variantId with
    | none => .error (.validationFailed "variantId is required for a product with variants.")
    | some id =>
      if variants.any fun v => v.id = id then .ok ()
      else .error (.validationFailed "variantId does not belong to this product.")
  else if variantId.isSome then
    .error (.validationFailed "variantId is not allowed for a product without variants.")
  else
    .ok ()

def findLevel (key : StockKey) (s : State) : Option BranchStock :=
  s.branchStock.find? fun r => r.toStockKey = key ∧ r.deletedAt.isNone

def checkQty (qty : ℤ) : Except ApiError Unit :=
  if qty < 10 ^ 10 then .ok () else .error .numericOverflow

def writeLevel (key : StockKey) (qty : ℤ) (newId : Uuid) (s : State) : Except ApiError State := do
  checkQty qty
  match findLevel key s with
  | some existing =>
    return { s with
      branchStock := Table.modify BranchStock.id s.branchStock existing.id fun r => { r with qty } }
  | none =>
    return { s with
      branchStock := s.branchStock ++ [{ key with id := newId, qty, deletedAt := none }] }

def addToLevel (key : StockKey) (qty : ℤ) (newId : Uuid) (s : State) : Except ApiError State :=
  writeLevel key (((findLevel key s).map (·.qty)).getD 0 + qty) newId s

def applyCost (line : ReceiveLineDto) (s : State) : State :=
  match line.unitCostC, line.variantId with
  | some cost, some variantId =>
    { s with variants :=
        Table.modify ProductVariant.id s.variants variantId fun v => { v with cost := some cost } }
  | some cost, none =>
    { s with products :=
        Table.modify Product.id s.products line.productId fun p => { p with cost := some cost } }
  | none, _ => s

def receiveLine (ownerId : Uuid) (branch : Branch) (line : ReceiveLineDto) (newId : Uuid) (s : State)
    : Except ApiError State := do
  let product ← loadProduct ownerId branch.businessId line.productId s
  assertVariantIntegrity (s.liveVariants product.id) line.variantId
  if product.trackExpiry && line.expiryDate.isNone then
    throw (.validationFailed "expiryDate is required when receiving a track_expiry product.")
  let s ← addToLevel (line.key branch.id) line.qty.milli newId s
  if product.trackExpiry && line.expiryDate.any (·.date.isNone) then
    throw .prismaValidation
  return applyCost line s

/-- `newIds` are the ids of the stock rows that the lines have to create. -/
def receive (ownerId branchId : Uuid) (dto : ReceiveDto) (newIds : Nat → Uuid) (s : State)
    : Except ApiError State := do
  if ¬ (dto.lines.map fun l => (l.productId, l.variantId)).Nodup then
    throw (.validationFailed
      "Duplicate line for the same product/variant in one receive; combine them.")
  let branch ← assertBranch ownerId branchId s
  dto.lines.zipIdx.foldlM (fun s (line, i) => receiveLine ownerId branch line (newIds i) s) s

def adjust (ownerId branchId : Uuid) (dto : AdjustStockDto) (newId : Uuid) (s : State)
    : Except ApiError State := do
  let branch ← assertBranch ownerId branchId s
  let product ← loadProduct ownerId branch.businessId dto.productId s
  assertVariantIntegrity (s.liveVariants product.id) dto.variantId
  writeLevel (dto.key branch.id) dto.newQty.milli newId s

/-! The portal. -/

inductive Operation where
  | createCategory (ownerId businessId : Uuid) (dto : CreateCategoryDto) (newId : Uuid)
  | updateCategory (ownerId id : Uuid) (dto : UpdateCategoryDto)
  | removeCategory (ownerId id : Uuid) (now : DateTime)
  | product (req : Request)
  | receive (ownerId branchId : Uuid) (dto : ReceiveDto) (newIds : Nat → Uuid)
  | adjust (ownerId branchId : Uuid) (dto : AdjustStockDto) (newId : Uuid)

def Operation.call (s : State) : Operation → Except ApiError State
  | createCategory ownerId businessId dto newId =>
    (Pull.createCategory ownerId businessId dto newId s).map (·.2)
  | updateCategory ownerId id dto => (Pull.updateCategory ownerId id dto s).map (·.2)
  | removeCategory ownerId id now => (Pull.removeCategory ownerId id now s).map (·.2)
  | product req =>
    (req.call s.catalog).map fun (_, db) => { s with products := db.products, variants := db.variants }
  | receive ownerId branchId dto newIds => Pull.receive ownerId branchId dto newIds s
  | adjust ownerId branchId dto newId => Pull.adjust ownerId branchId dto newId s

/-- A call that fails leaves the tables as they are. -/
def Operation.step (op : Operation) (s : State) : State :=
  match op.call s with
  | .ok s' => s'
  | .error _ => s

end SentryPos.Catalog.Pull
