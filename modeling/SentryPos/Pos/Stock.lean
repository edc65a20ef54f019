import SentryPos.Pos.Sales

/-!
This module contains the stock operations of the portal: receiving and adjusting stock.
-/

namespace SentryPos

open ReadCommitted

structure ReceiveLineDto where
  productId : Uuid
  variantId : Option Uuid
  qty : Qty
  unitCostC : Option ℤ
  expiryDate : Option IsoDate
  qty_pos : 0 < qty.milli
  qty_le : qty.milli ≤ MAX_QTY
  unitCostC_nonneg : ∀ c ∈ unitCostC, 0 ≤ c
  unitCostC_le : ∀ c ∈ unitCostC, c ≤ MAX_CENTAVOS

structure ReceiveDto where
  lines : List ReceiveLineDto
  lines_ne : lines ≠ []
  lines_length : lines.length ≤ 500

structure AdjustStockDto where
  productId : Uuid
  variantId : Option Uuid
  newQty : Qty
  reasonCategory : ReasonCategory
  note : Option String
  newQty_nonneg : 0 ≤ newQty.milli
  newQty_le : newQty.milli ≤ MAX_QTY

def ReceiveLineDto.key (line : ReceiveLineDto) (branchId : Uuid) : StockKey :=
  { branchId, productId := line.productId, variantId := line.variantId }

def AdjustStockDto.key (dto : AdjustStockDto) (branchId : Uuid) : StockKey :=
  { branchId, productId := dto.productId, variantId := dto.variantId }

structure ReceiveResponse where
  operationId : Uuid
  movements : List StockMovement

structure AdjustResponse where
  productId : Uuid
  variantId : Option Uuid
  qty : Qty
  movement : StockMovement

/-- Retry the whole operation on a unique violation: two more attempts, numbered from 0. -/
def withLevelCreateRetry {R : Type} (op : Nat → PosCall R) : PosCall R :=
  tryCatch (op 0) fun err =>
    if err = .uniqueViolation then
      tryCatch (op 1) fun err => if err = .uniqueViolation then op 2 else throw err
    else
      throw err

def assertNoDuplicateLines (lines : List ReceiveLineDto) : Except ApiError Unit :=
  if (lines.map fun l => (l.productId, l.variantId)).Nodup then
    .ok ()
  else
    .error (.validationFailed
      "Duplicate line for the same product/variant in one receive; combine them.")

def assertBranch (ctx : RequestContext) (branchId : Uuid) : PosCall Branch :=
  Call.check .findBranch fun db =>
    let found := db.branches.find? fun b =>
      b.id = branchId && ctx.ownsBusiness db b.businessId && b.deletedAt.isNone
    found.elim (.error (.notFound "Branch not found.")) .ok

def loadProduct (ctx : RequestContext) (businessId productId : Uuid)
    : PosCall ProductWithVariants :=
  Call.check .findProducts fun db =>
    (findProducts ctx businessId [productId] db).head?.elim
      (.error
        (.validationFailed "productId does not reference a product in this branch business."))
      .ok

def assertVariantIntegrity (product : ProductWithVariants) (variantId : Option Uuid)
    : Except ApiError Unit :=
  if product.variants ≠ [] then
    match variantId with
    | none => .error (.validationFailed "variantId is required for a product with variants.")
    | some id =>
      if product.variants.any fun v => v.id = id then .ok ()
      else .error (.validationFailed "variantId does not belong to this product.")
  else if variantId.isSome then
    .error (.validationFailed "variantId is not allowed for a product without variants.")
  else
    .ok ()

/--
Latest-cost overwrite of the product or the variant. A product with `trackExpiry` also gets a stock
batch, which needs a date.
-/
def applyCostAndBatch (ctx : RequestContext) (product : ProductWithVariants) (line : ReceiveLineDto)
    : PosCall Unit := do
  if line.unitCostC.isSome || product.product.trackExpiry then
    PosCall.target .target "product" fun db =>
      db.products.any fun p => p.id = product.product.id && ctx.ownsBusiness db p.businessId
    if product.product.trackExpiry && line.expiryDate.any (·.date.isNone) then
      throw .prismaValidation
    match line.unitCostC, line.variantId with
    | some cost, some variantId =>
      PosCall.execute .updateProduct (.setVariantCost variantId cost)
    | some cost, none => PosCall.execute .updateProduct (.setProductCost product.product.id cost)
    | none, _ => return ()

def receiveMovement (branchId operationId : Uuid) (line : ReceiveLineDto) : StockMovement :=
  {
    line.key branchId with
      type := .receive
      refId := operationId
      qtyDelta := line.qty.milli
      reasonCategory := none
      unitCost := line.unitCostC
      note := none
      deletedAt := none
  }

def receiveLine (ctx : RequestContext) (branch : Branch) (operationId : Uuid) (line : ReceiveLineDto)
    (newId : Uuid) : PosCall Unit := do
  let product ← loadProduct ctx branch.businessId line.productId
  Call.ofExcept (assertVariantIntegrity product line.variantId)
  if product.product.trackExpiry && line.expiryDate.isNone then
    throw (.validationFailed "expiryDate is required when receiving a track_expiry product.")
  addToLevel ctx (line.key branch.id) line.qty.milli newId
  let refs := movementRefs (line.productId, line.variantId)
  let branchId ← Call.check .police (policeCreateData ctx "stockMovement" branch.id refs)
  PosCall.execute .createMovement (.insertMovement (receiveMovement branchId operationId line))
  applyCostAndBatch ctx product line

/-- `newIds` are the ids of the stock rows that the lines of an attempt have to create. -/
def receive (ctx : RequestContext) (branchId : Uuid) (dto : ReceiveDto) (operationId : Uuid)
    (newIds : Nat → Nat → Uuid) : PosCall ReceiveResponse := do
  Call.ofExcept (assertNoDuplicateLines dto.lines)
  withLevelCreateRetry fun attempt =>
    Call.transaction .commit do
      let branch ← assertBranch ctx branchId
      dto.lines.zipIdx.forM fun (line, i) =>
        receiveLine ctx branch operationId line (newIds attempt i)
      return { operationId, movements := dto.lines.map (receiveMovement branchId operationId) }

def adjustMovement (branchId movementId : Uuid) (dto : AdjustStockDto) (qtyDelta : ℤ)
    : StockMovement :=
  {
    dto.key branchId with
      type := .adjustment
      refId := movementId
      qtyDelta
      reasonCategory := some dto.reasonCategory
      unitCost := none
      note := dto.note
      deletedAt := none
  }

def setLevel (ctx : RequestContext) (existing : Option BranchStock) (key : StockKey) (qty : ℤ)
    (newId : Uuid) : PosCall Unit := do
  match existing with
  | some row =>
    PosCall.target .target "branchStock" fun db =>
      db.branchStock.any fun r => r.id = row.id && ctx.ownsBranch db r.branchId
    PosCall.execute .updateStock (.setStock row.id qty)
  | none =>
    let refs := movementRefs (key.productId, key.variantId)
    let branchId ← Call.check .police (policeCreateData ctx "branchStock" key.branchId refs)
    PosCall.execute .createStock (.insertStock newId { key with branchId } qty)

/-- The delta of the movement is computed from the quantity read before the level is set. -/
def adjust (ctx : RequestContext) (branchId : Uuid) (dto : AdjustStockDto)
    (movementIds newIds : Nat → Uuid) : PosCall AdjustResponse :=
  withLevelCreateRetry fun attempt =>
    Call.transaction .commit do
      let branch ← assertBranch ctx branchId
      let product ← loadProduct ctx branch.businessId dto.productId
      Call.ofExcept (assertVariantIntegrity product dto.variantId)
      let key := dto.key branchId
      let existing ← Call.query .findLevel (findLevel ctx key)
      let currentQty := (existing.map (·.qty)).getD 0
      let qtyDelta := dto.newQty.milli - currentQty
      setLevel ctx existing key dto.newQty.milli (newIds attempt)
      let refs := movementRefs (dto.productId, dto.variantId)
      let pinned ← Call.check .police (policeCreateData ctx "stockMovement" branchId refs)
      let movement := adjustMovement pinned (movementIds attempt) dto qtyDelta
      PosCall.execute .createMovement (.insertMovement movement)
      return { productId := dto.productId, variantId := dto.variantId, qty := dto.newQty, movement }

end SentryPos
