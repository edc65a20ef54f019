import SentryPos.Js.Text
import SentryPos.Pos.Lockout

/-!
This module contains the sales of a terminal: completing, voiding and refunding a sale.
-/

namespace SentryPos

open ReadCommitted

structure CompletedSale where
  draft : SaleDraftDto
  status : SaleStatus
  statusReason : Option String
  createdAt : DateTime
  voidedAt : Option DateTime
  refundedAt : Option DateTime
  refundShiftId : Option Uuid

structure SaleResponse where
  replayed : Bool
  sale : CompletedSale

def seqOf (receiptNo : String) : ℤ :=
  let digits := ((receiptNo.toList.reverse.dropWhile JsString.isSpace).takeWhile Char.isDigit).reverse
  JsString.parseDigits digits

def canonical (value : Json) : List Char :=
  value.sortKeys.stringify

/-- `keyOf`, within a branch. -/
abbrev LevelKey := Uuid × Option Uuid

def LevelKey.inBranch (k : LevelKey) (branchId : Uuid) : StockKey :=
  { branchId, productId := k.1, variantId := k.2 }

/-- The level a line takes stock from: only lines with a product and `trackStock` do. -/
def CartLineDto.trackedKey (l : CartLineDto) : Option LevelKey :=
  if l.trackStock then l.productId.map fun productId => (productId, l.variantId) else none

/-- A map in insertion order: add to the value of a key. -/
def addTo (m : List (LevelKey × ℤ)) (k : LevelKey) (milli : ℤ) : List (LevelKey × ℤ) :=
  match m with
  | [] => [(k, milli)]
  | (k', milli') :: m => if k' = k then (k', milli' + milli) :: m else (k', milli') :: addTo m k milli

def valueOf (m : List (LevelKey × ℤ)) (k : LevelKey) : ℤ :=
  ((m.find? fun entry => entry.1 = k).map (·.2)).getD 0

def assemble (row : Sale) : CompletedSale where
  draft := row.draft
  status := row.status
  statusReason := row.statusReason
  createdAt := row.createdAt
  voidedAt := row.voidedAt
  refundedAt := row.refundedAt
  refundShiftId := row.refundShiftId

section Validation

structure ProductWithVariants where
  product : Product
  variants : List ProductVariant

def validateLine (products : List ProductWithVariants) (line : CartLineDto)
    : Except ApiError (List (Uuid × Option ℤ)) :=
  match line.productId with
  | none => .ok []
  | some productId =>
    match products.find? fun p => p.product.id = productId with
    | none =>
      .error (.validationFailed s!"Line {line.id}: product does not exist in this business.")
    | some p =>
      if p.variants ≠ [] then
        match line.variantId.bind fun id => p.variants.find? fun v => v.id = id with
        | none =>
          .error
            (.validationFailed s!"Line {line.id}: a valid variantId is required for this product.")
        | some variant => .ok [(line.id, variant.cost)]
      else if line.variantId.isSome then
        .error (.validationFailed s!"Line {line.id}: this product has no variants.")
      else
        .ok [(line.id, p.product.cost)]

def findProducts (ctx : RequestContext) (businessId : Uuid) (ids : List Uuid) (db : Database)
    : List ProductWithVariants :=
  (db.products.filter fun p =>
    p.id ∈ ids && p.businessId = businessId && ctx.ownsBusiness db p.businessId
      && p.deletedAt.isNone).map fun product =>
    {
      product
      variants := db.productVariants.filter fun v => v.productId = product.id && v.deletedAt.isNone
    }

def productIds (lines : List CartLineDto) : List Uuid :=
  (lines.filterMap (·.productId)).dedup

def costsOfLines (ctx : TerminalContext) (lines : List CartLineDto) (db : Database)
    : Except ApiError (List (Uuid × Option ℤ)) := do
  let products := findProducts ctx.request ctx.businessId (productIds lines) db
  let costs ← lines.mapM (validateLine products)
  return costs.flatten

def validateLines (ctx : TerminalContext) (lines : List CartLineDto)
    : PosCall (List (Uuid × Option ℤ)) :=
  if productIds lines = [] then return []
  else Call.check .findProducts (costsOfLines ctx lines)

/-- `costByLine.get`: a later line with the same id has replaced the cost of an earlier one. -/
def costOf (costByLine : List (Uuid × Option ℤ)) (lineId : Uuid) : Option ℤ :=
  (costByLine.reverse.find? fun entry => entry.1 = lineId).bind (·.2)

def namedIds (dto : SaleDraftDto) : List (Option Uuid) :=
  ((dto.orderDiscount :: dto.lines.map (·.discount)).filterMap fun d =>
    d.filter fun d => d.source = some "named").map (·.discountId)

def ownsDiscounts (ctx : TerminalContext) (dto : SaleDraftDto) (db : Database) : Bool :=
  (namedIds dto).all fun discountId =>
    db.discounts.any fun d =>
      some d.id = discountId && ctx.request.ownsBusiness db d.businessId && d.deletedAt.isNone

def validateDiscounts (ctx : TerminalContext) (dto : SaleDraftDto) : PosCall Unit :=
  if namedIds dto = [] then
    return ()
  else if none ∈ namedIds dto then
    throw (.validationFailed "A named discount reference is malformed.")
  else
    Call.check .findDiscounts fun db =>
      if ownsDiscounts ctx dto db then .ok ()
      else .error (.validationFailed "Unknown discount reference.")

def assertPayment [Rounding] (payment : SalePaymentDto) (totalC : JsNumber) : Except ApiError Unit :=
  if !(payment.amountC : JsNumber).strictEq totalC then
    .error (.validationFailed "Payment amount does not match the total.")
  else if payment.method = .cash then
    if JsNumber.blt payment.tenderedC totalC then
      .error (.validationFailed "Tendered cash is less than the total.")
    else if !(payment.changeC : JsNumber).strictEq (payment.tenderedC - totalC) then
      .error (.validationFailed "Change does not equal tendered minus total.")
    else
      .ok ()
  else
    .ok ()

end Validation

section Stock

def lockStock (branchId : Uuid) (productIds : List Uuid) : PosCall (List BranchStock) :=
  let rows (view : Database) := view.branchStock.filter fun r =>
    r.branchId = branchId && r.deletedAt.isNone && r.productId ∈ productIds
  if productIds = [] then
    return []
  else
    Call.selectForUpdate .lockStock (fun view => (rows view).map (.branchStock ·.id)) rows

def lockedRow (rows : List BranchStock) (k : LevelKey) : Option BranchStock :=
  rows.reverse.find? fun r => (r.productId, r.variantId) = k

def availableMilli (rows : List BranchStock) (k : LevelKey) : ℤ :=
  ((lockedRow rows k).map (·.qty)).getD 0

/-- The lines that ask for more than what the lines before them leave. -/
def detectConflicts (available : LevelKey → ℤ) (claimed : List (LevelKey × ℤ))
    : List CartLineDto → List StockConflict
  | [] => []
  | line :: lines =>
    match line.trackedKey with
    | none => detectConflicts available claimed lines
    | some k =>
      let want := valueOf claimed k + line.qty.milli
      let claimed := addTo claimed k line.qty.milli
      if available k < want then
        {
          lineId := line.id
          productId := k.1
          variantId := k.2
          availableQty := milliToQty (available k)
        } :: detectConflicts available claimed lines
      else
        detectConflicts available claimed lines

def trackedLines (lines : List CartLineDto) : List (LevelKey × ℤ) :=
  lines.filterMap fun l => l.trackedKey.map fun k => (k, l.qty.milli)

def wantedMilli (lines : List CartLineDto) : List (LevelKey × ℤ) :=
  (trackedLines lines).foldl (fun wanted l => addTo wanted l.1 l.2) []

def decrementLevel (ctx : TerminalContext) (rows : List BranchStock) (wanted : LevelKey × ℤ)
    : PosCall Unit :=
  match lockedRow rows wanted.1 with
  | none => throw (.validationFailed "Stock level not found for a tracked line.")
  | some row => do
    PosCall.target .target "branchStock" fun db =>
      db.branchStock.any fun r => r.id = row.id && ctx.request.ownsBranch db r.branchId
    PosCall.execute .updateStock (.addStock row.id (-wanted.2))

end Stock

section Persist

def intColumn : JsNumber → Except ApiError ℤ
  | .fin q => if q.den = 1 && -2 ^ 31 ≤ q && q < 2 ^ 31 then .ok q.num else .error .prismaValidation
  | _ => .error .prismaValidation

def namedDiscountId (d : Option DiscountSpec) : Option Uuid :=
  (d.filter fun d => d.source = some "named").bind (·.discountId)

def buildItem [Rounding] (dto : SaleDraftDto) (totals : CartTotals) (costByLine : List (Uuid × Option ℤ))
    (line : CartLineDto) : Except ApiError SaleItem := do
  let lt := totals.lines.find? fun x => x.lineId = line.id
  let appliedC := lt.elim 0 fun lt => lt.grossC - lt.netC
  let discount ← intColumn appliedC
  return {
    saleId := dto.id
    productId := line.productId
    variantId := line.variantId
    nameSnapshot := line.name
    qty := line.qty
    unitPrice := line.unitPriceC
    costSnapshot := costOf costByLine line.id
    discount
    discountId := if (lt.bind (·.applied)) = some .promo then namedDiscountId line.discount else none
    modifiers := line.modifiers
  }

structure SaleData where
  sale : Sale
  items : List SaleItem
  payment : SalePayment

def buildSaleData [Rounding] (dto : SaleDraftDto) (totals : CartTotals) (costByLine : List (Uuid × Option ℤ))
    (branchId terminalId : Uuid) (now : DateTime) : Except ApiError SaleData := do
  let items ← dto.lines.mapM (buildItem dto totals costByLine)
  let subtotal ← intColumn totals.subtotalC
  let discount ← intColumn totals.promoDiscountC
  let serviceCharge ← intColumn totals.serviceChargeC
  let scPwdDiscount ← intColumn totals.scPwdDiscountC
  let vatExemptSales ← intColumn totals.vatExemptSalesC
  let tax ← intColumn totals.vatC
  let total ← intColumn totals.totalC
  let createdAtDevice ← dto.createdAtDevice.date.elim (.error .prismaValidation) .ok
  return {
    sale := {
      id := dto.id
      branchId
      terminalId
      shiftId := some dto.shiftId
      receiptNo := dto.receiptNo
      orderType := dto.orderType
      status := .completed
      statusReason := none
      subtotal
      discount
      discountId := namedDiscountId dto.orderDiscount
      serviceCharge
      scPwd := dto.scPwd
      scPwdDiscount
      vatExemptSales
      tax
      total
      createdAtDevice
      syncedAt := some now
      voidedAt := none
      refundedAt := none
      refundShiftId := none
      draft := dto
      createdAt := now
      deletedAt := none
    }
    items
    payment := {
      id := dto.payment.id
      saleId := dto.id
      method := dto.payment.method
      reference := dto.payment.referenceNo
      amount := dto.payment.amountC
      tendered := dto.payment.tenderedC
      change := dto.payment.changeC
      deletedAt := none
    }
  }

def saleMovement (branchId saleId : Uuid) (line : LevelKey × ℤ) : StockMovement :=
  {
    line.1.inBranch branchId with
      type := .sale
      refId := saleId
      qtyDelta := -line.2
      reasonCategory := none
      unitCost := none
      note := none
      deletedAt := none
  }

def movementRefs (k : LevelKey) : List Ref :=
  .product k.1 :: (k.2.map .productVariant).toList

def insertSaleData (data : SaleData) : PosCall Unit := do
  PosCall.execute .createSale (.insertSale data.sale)
  data.items.forM fun item => PosCall.execute .createItem (.insertItem item)
  PosCall.execute .createPayment (.insertPayment data.payment)

def createSale [Rounding] (ctx : TerminalContext) (dto : SaleDraftDto) (totals : CartTotals)
    (costByLine : List (Uuid × Option ℤ)) (now : DateTime) : PosCall Sale := do
  let refs :=
    [.terminal ctx.terminalId, .shift dto.shiftId]
      ++ ((namedDiscountId dto.orderDiscount).map .discount).toList
  let branchId ← Call.check .police (policeCreateData ctx.request "sale" ctx.branchId refs)
  let data ← Call.ofExcept (buildSaleData dto totals costByLine branchId ctx.terminalId now)
  insertSaleData data
  return data.sale

def createSaleMovement (ctx : TerminalContext) (saleId : Uuid) (line : LevelKey × ℤ)
    : PosCall Unit := do
  let refs := movementRefs line.1
  let branchId ← Call.check .police (policeCreateData ctx.request "stockMovement" ctx.branchId refs)
  PosCall.execute .createMovement (.insertMovement (saleMovement branchId saleId line))

def bumpReceiptSeq (ctx : TerminalContext) (receiptNo : String) : PosCall Unit := do
  match ← Call.queryOnTx .findTerminal fun view => view.terminal? ctx.terminalId with
  | none => return ()
  | some term =>
    let nextSeq := max term.receiptSeq (seqOf receiptNo + 1)
    if nextSeq ≠ term.receiptSeq then
      let receiptSeq ← Call.ofExcept (intColumn nextSeq)
      PosCall.execute .updateTerminal (.setReceiptSeq ctx.terminalId receiptSeq)

def post [Rounding] (ctx : TerminalContext) (dto : SaleDraftDto) (totals : CartTotals)
    (costByLine : List (Uuid × Option ℤ)) (now : DateTime) (rows : List BranchStock)
    : PosCall CompletedSale := do
  let conflicts := detectConflicts (availableMilli rows) [] dto.lines
  if conflicts ≠ [] then
    throw (.stockConflict conflicts)
  (wantedMilli dto.lines).forM (decrementLevel ctx rows)
  let created ← createSale ctx dto totals costByLine now
  (trackedLines dto.lines).forM (createSaleMovement ctx created.id)
  bumpReceiptSeq ctx dto.receiptNo
  return assemble created

/-- The transaction body. The re-check for the sale is made on the transaction, without scope. -/
def persist [Rounding] (ctx : TerminalContext) (dto : SaleDraftDto) (totals : CartTotals)
    (costByLine : List (Uuid × Option ℤ)) (now : DateTime) : PosCall CompletedSale := do
  let rows ← lockStock ctx.branchId ((trackedLines dto.lines).map (·.1.1)).dedup
  match ← Call.queryOnTx .recheckSale fun view => view.sale? dto.id with
  | some concurrent => return assemble concurrent
  | none => post ctx dto totals costByLine now rows

end Persist

def findSale (ctx : TerminalContext) (id : Uuid) (db : Database) : Option Sale :=
  db.sales.find? fun s => s.id = id && s.branchId = ctx.branchId && s.deletedAt.isNone

def findOpenShift (ctx : TerminalContext) (db : Database) : Option Shift :=
  db.shifts.find? fun s =>
    s.terminalId = ctx.terminalId && s.closedAt.isNone && s.branchId = ctx.branchId
      && s.deletedAt.isNone

def findBusiness (ctx : TerminalContext) (db : Database) : Option Business :=
  db.businesses.find? fun b =>
    b.id = ctx.businessId && b.ownerId = ctx.ownerId && b.deletedAt.isNone

def SaleDraftDto.cart (dto : SaleDraftDto) : Cart where
  id := dto.id
  orderType := dto.orderType
  lines := dto.lines.map (·.toCartLine)
  orderDiscount := dto.orderDiscount
  scPwd := dto.scPwd

def Business.rates [Rounding] (b : Business) : Rates where
  taxRate := JsNumber.number b.taxRate
  serviceChargeRate := JsNumber.number b.serviceChargeRate

/-- What `completeSale` checks before its transaction: it leaves the totals and the line costs. -/
def checkDraft [Rounding] (ctx : TerminalContext) (dto : SaleDraftDto)
    : PosCall (CartTotals × List (Uuid × Option ℤ)) := do
  let shift ← Call.query .findOpenShift (findOpenShift ctx)
  if shift.map (·.id) ≠ some dto.shiftId then
    throw (.validationFailed "The sale's shift is not open.")
  match ← Call.query .findBusiness (findBusiness ctx) with
  | none => throw (.notFound "Business not found.")
  | some business =>
    let costByLine ← validateLines ctx dto.lines
    validateDiscounts ctx dto
    let totals := computeTotals dto.cart business.rates
    if canonical totals.toJson ≠ canonical dto.totals then
      throw (.validationFailed "Totals do not match a server-side recompute.")
    Call.ofExcept (assertPayment dto.payment totals.totalC)
    return (totals, costByLine)

def recoverSale (ctx : TerminalContext) (dto : SaleDraftDto) : PosCall SaleResponse := do
  match ← Call.query .recoverSale (findSale ctx dto.id) with
  | some dup => return { replayed := true, sale := assemble dup }
  | none => throw (.validationFailed "This receipt number is already in use.")

def completeSale [Rounding] (ctx : TerminalContext) (dto : SaleDraftDto) (now : DateTime)
    : PosCall SaleResponse := do
  match ← Call.query .findSale (findSale ctx dto.id) with
  | some existing => return { replayed := true, sale := assemble existing }
  | none =>
    let (totals, costByLine) ← checkDraft ctx dto
    tryCatch
      (do
        let sale ← Call.transaction .commit (persist ctx dto totals costByLine now)
        return { replayed := false, sale })
      fun err => if err = .uniqueViolation then recoverSale ctx dto else throw err

section Reversal

def lockSale (id branchId : Uuid) : PosCall (Option (SaleStatus × Option Uuid)) :=
  let rows (view : Database) := view.sales.filter fun s =>
    s.id = id && s.branchId = branchId && s.deletedAt.isNone
  Call.selectForUpdate .lockSale (fun view => (rows view).map (.sale ·.id)) fun view =>
    (rows view).head?.map fun s => (s.status, s.shiftId)

def findLevel (ctx : RequestContext) (key : StockKey) (db : Database) : Option BranchStock :=
  db.branchStock.find? fun r =>
    r.toStockKey = key && ctx.ownsBranch db r.branchId && r.deletedAt.isNone

def addToLevel (ctx : RequestContext) (key : StockKey) (qty : ℤ) (newId : Uuid) : PosCall Unit := do
  match ← Call.query .findLevel (findLevel ctx key) with
  | some existing =>
    PosCall.target .target "branchStock" fun db =>
      db.branchStock.any fun r => r.id = existing.id && ctx.ownsBranch db r.branchId
    PosCall.execute .updateStock (.addStock existing.id qty)
  | none =>
    let refs := movementRefs (key.productId, key.variantId)
    let branchId ← Call.check .police (policeCreateData ctx "branchStock" key.branchId refs)
    PosCall.execute .createStock (.insertStock newId { key with branchId } qty)

def restoreMovement (m : StockMovement) (branchId : Uuid) (type : MovementType) : StockMovement :=
  {
    m with
      branchId
      type
      qtyDelta := -m.qtyDelta
      reasonCategory := none
      unitCost := none
      note := none
      deletedAt := none
  }

def restoreMove (ctx : TerminalContext) (type : MovementType) (m : StockMovement) (newId : Uuid)
    : PosCall Unit := do
  addToLevel ctx.request m.toStockKey (-m.qtyDelta) newId
  let refs := movementRefs (m.productId, m.variantId)
  let branchId ← Call.check .police (policeCreateData ctx.request "stockMovement" m.branchId refs)
  PosCall.execute .createMovement (.insertMovement (restoreMovement m branchId type))

/-- `newIds` are the ids of the stock rows that have to be created. -/
def restoreStock (ctx : TerminalContext) (saleId : Uuid) (type : MovementType) (newIds : Nat → Uuid)
    : PosCall Unit := do
  let saleMoves ← Call.query .findMoves fun db =>
    db.stockMovements.filter fun m =>
      m.refId = saleId && m.type = .sale && m.branchId = ctx.branchId && m.deletedAt.isNone
  saleMoves.zipIdx.forM fun (m, i) => restoreMove ctx type m (newIds i)

def updateSale (ctx : TerminalContext) (id : Uuid) (w : Write) : PosCall Sale := do
  PosCall.target .target "sale" fun db =>
    db.sales.any fun s => s.id = id && ctx.request.ownsBranch db s.branchId
  PosCall.execute .updateSale w
  match ← Call.queryOnTx .updateSale fun view => view.sale? id with
  | some after => return after
  | none => throw .recordNotFound

def voidSale (ctx : TerminalContext) (id : Uuid) (reason : String) (now : DateTime)
    (newIds : Nat → Uuid) : PosCall CompletedSale := do
  let trimmed := JsString.trim reason
  if trimmed = "" then
    throw (.validationFailed "A reason is required.")
  Call.transaction .commit do
    match ← lockSale id ctx.branchId with
    | none => throw (.notFound "Sale not found.")
    | some (status, shiftId) =>
      if status ≠ .completed then
        throw (.validationFailed s!"A {status.text} sale cannot be voided.")
      let shift ← Call.query .findOpenShift (findOpenShift ctx)
      if shift.isNone || shift.map (·.id) ≠ shiftId then
        throw (.validationFailed "Voids are only allowed while the sale's shift is open.")
      let after ← updateSale ctx id (.voidSale id now trimmed)
      restoreStock ctx id .void newIds
      return assemble after

def refundSale (verifySecret : String → String → Bool) (ctx : TerminalContext) (id : Uuid)
    (reason pin : String) (now : DateTime) (newIds : Nat → Uuid) : PosCall CompletedSale := do
  verifyPinWithLockout verifySecret ctx.ownerId pin now
  let trimmed := JsString.trim reason
  if trimmed = "" then
    throw (.validationFailed "A reason is required.")
  Call.transaction .commit do
    match ← lockSale id ctx.branchId with
    | none => throw (.notFound "Sale not found.")
    | some (status, shiftId) =>
      if status ≠ .completed then
        throw (.validationFailed s!"A {status.text} sale cannot be refunded.")
      let shift ← Call.query .findOpenShift (findOpenShift ctx)
      let refundShiftId := if shift.map (·.id) = shiftId then shift.map (·.id) else none
      let after ← updateSale ctx id (.refundSale id now trimmed refundShiftId)
      restoreStock ctx id .refund newIds
      return assemble after

end Reversal

end SentryPos
