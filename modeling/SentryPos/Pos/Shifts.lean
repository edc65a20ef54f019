import SentryPos.Pos.Sales

/-!
This module contains the shifts of a terminal: opening, cash movements, totals and closing.
-/

namespace SentryPos

open ReadCommitted

structure OpenShiftDto where
  openingCashC : ℤ
  openingCashC_nonneg : 0 ≤ openingCashC
  openingCashC_le : openingCashC ≤ MAX_CENTAVOS

structure CashMovementDto where
  type : CashMovementType
  amountC : ℤ
  reason : String
  amountC_pos : 1 ≤ amountC
  amountC_le : amountC ≤ MAX_CENTAVOS

structure CloseShiftDto where
  countedCashC : ℤ
  countedCashC_nonneg : 0 ≤ countedCashC
  countedCashC_le : countedCashC ≤ MAX_CENTAVOS

structure ShiftWithMovements where
  shift : Shift
  cashMovements : List ShiftCashMovement

structure SaleWithPayments where
  sale : Sale
  payments : List SalePayment

structure ShiftTotals where
  grossC : ℤ
  saleCount : Nat
  byMethod : PaymentMethod → ℤ
  voidCount : Nat
  voidAmountC : ℤ
  refundCount : Nat
  refundAmountC : ℤ
  scPwdDiscountC : ℤ
  serviceChargeC : ℤ
  cashSalesC : ℤ
  cashRefundsC : ℤ
  cashInC : ℤ
  cashOutC : ℤ
  expectedCashC : ℤ

structure ZReport where
  totals : ShiftTotals
  shiftId : Uuid
  openedAt : DateTime
  closedAt : DateTime
  openingCashC : ℤ
  countedCashC : ℤ
  overShortC : ℤ
  branchCode : String
  terminalCode : String

def withPayments (db : Database) (sale : Sale) : SaleWithPayments where
  sale
  payments := db.salePayments.filter fun p => p.saleId = sale.id && p.deletedAt.isNone

def withMovements (db : Database) (shift : Shift) : ShiftWithMovements where
  shift
  cashMovements := db.shiftCashMovements.filter fun m =>
    m.shiftId = shift.id && m.deletedAt.isNone

def findOpenShiftWithMovements (ctx : TerminalContext) (db : Database)
    : Option ShiftWithMovements :=
  (findOpenShift ctx db).map (withMovements db)

/-- The sales of a shift as the scoped client finds them. -/
def findSalesOfShift (ctx : TerminalContext) (shiftId : Uuid) (db : Database)
    : List SaleWithPayments :=
  (db.sales.filter fun s =>
    s.shiftId = some shiftId && s.branchId = ctx.branchId && s.deletedAt.isNone).map
      (withPayments db)

def findRefundsOfShift (ctx : TerminalContext) (shiftId : Uuid) (db : Database)
    : List SaleWithPayments :=
  (db.sales.filter fun s =>
    s.status = .refunded && s.refundShiftId = some shiftId && s.branchId = ctx.branchId
      && s.deletedAt.isNone).map (withPayments db)

def SaleWithPayments.methodOf (s : SaleWithPayments) : Option PaymentMethod :=
  s.payments.head?.map (·.method)

def sumTotals (sales : List SaleWithPayments) : ℤ :=
  (sales.map (·.sale.total)).sum

def computeShiftTotals (shift : ShiftWithMovements) (ofShift refunds : List SaleWithPayments)
    : ShiftTotals :=
  let sold := ofShift.filter fun s => s.sale.status ≠ .voided
  let voided := ofShift.filter fun s => s.sale.status = .voided
  let byMethod (method : PaymentMethod) := sumTotals (sold.filter fun s => s.methodOf = some method)
  let cashSalesC := sumTotals (sold.filter fun s => s.methodOf = some .cash)
  let cashRefundsC := sumTotals (refunds.filter fun s => s.methodOf = some .cash)
  let cashInC := ((shift.cashMovements.filter (·.type = .cash_in)).map (·.amount)).sum
  let cashOutC := ((shift.cashMovements.filter (·.type = .cash_out)).map (·.amount)).sum
  {
    grossC := sumTotals sold
    saleCount := sold.length
    byMethod
    voidCount := voided.length
    voidAmountC := sumTotals voided
    refundCount := refunds.length
    refundAmountC := sumTotals refunds
    scPwdDiscountC := (sold.map (·.sale.scPwdDiscount)).sum
    serviceChargeC := (sold.map (·.sale.serviceCharge)).sum
    cashSalesC
    cashRefundsC
    cashInC
    cashOutC
    expectedCashC := shift.shift.openingCash + cashSalesC - cashRefundsC + cashInC - cashOutC
  }

def openShift (ctx : TerminalContext) (dto : OpenShiftDto) (shiftId : Uuid) (now : DateTime)
    : PosCall Shift := do
  let existing ← Call.query .findOpenShift (findOpenShift ctx)
  if existing.isSome then
    throw (.validationFailed "A shift is already open on this terminal.")
  let refs := [.terminal ctx.terminalId]
  let branchId ← Call.check .police (policeCreateData ctx.request "shift" ctx.branchId refs)
  let created : Shift := {
    id := shiftId
    branchId
    terminalId := ctx.terminalId
    openedAt := now
    closedAt := none
    openingCash := dto.openingCashC
    closingCash := none
    expectedCash := none
    deletedAt := none
  }
  Call.transaction .commit do
    PosCall.execute .createShift (.insertShift created)
  return created

def addCashMovement (ctx : TerminalContext) (dto : CashMovementDto) (movementId : Uuid)
    (now : DateTime) : PosCall ShiftCashMovement := do
  let reason := JsString.trim dto.reason
  if reason = "" then
    throw (.validationFailed "A reason is required.")
  match ← Call.query .findOpenShift (findOpenShiftWithMovements ctx) with
  | none => throw (.validationFailed "No shift is open.")
  | some found =>
    let shift := found.shift
    PosCall.target .target "shift" fun db =>
      db.shifts.any fun s => s.id = shift.id && ctx.request.ownsBranch db s.branchId
    Call.transaction .commit do
      PosCall.execute .createCashMovement <| .insertCashMovement {
        id := movementId
        shiftId := shift.id
        type := dto.type
        amount := dto.amountC
        reason
        createdAt := now
        deletedAt := none
      }
    let refreshed ← Call.query .findCashMovement fun db =>
      (db.shifts.find? fun s =>
        s.id = shift.id && s.branchId = ctx.branchId && s.deletedAt.isNone).bind fun s =>
          (withMovements db s).cashMovements.find? fun m => m.id = movementId
    match refreshed with
    | none => throw (.notFound "Cash movement not found.")
    | some movement => return movement

/-- The X totals of the open shift. -/
def totals (ctx : TerminalContext) : PosCall ShiftTotals := do
  match ← Call.query .findOpenShift (findOpenShiftWithMovements ctx) with
  | none => throw (.validationFailed "No shift is open.")
  | some shift =>
    let ofShift ← Call.query .findSale (findSalesOfShift ctx shift.shift.id)
    let refunds ← Call.query .findSale (findRefundsOfShift ctx shift.shift.id)
    return computeShiftTotals shift ofShift refunds

def closeShift (ctx : TerminalContext) (dto : CloseShiftDto) (closedAt : DateTime)
    : PosCall ZReport := do
  match ← Call.query .findOpenShift (findOpenShiftWithMovements ctx) with
  | none => throw (.validationFailed "No shift is open.")
  | some found =>
    let shift := found.shift
    let ofShift ← Call.query (.close shift.id .sales) (findSalesOfShift ctx shift.id)
    let refunds ← Call.query (.close shift.id .refunds) (findRefundsOfShift ctx shift.id)
    let totals := computeShiftTotals found ofShift refunds
    PosCall.target (.close shift.id .target) "shift" fun db =>
      db.shifts.any fun s => s.id = shift.id && ctx.request.ownsBranch db s.branchId
    Call.transaction (.close shift.id .commit) do
      PosCall.execute (.close shift.id .update)
        (.closeShift shift.id closedAt dto.countedCashC totals.expectedCashC)
    let branch ← Call.query .findBranch fun db =>
      db.branches.find? fun b =>
        b.id = shift.branchId && ctx.request.ownsBusiness db b.businessId && b.deletedAt.isNone
    return {
      totals
      shiftId := shift.id
      openedAt := shift.openedAt
      closedAt
      openingCashC := shift.openingCash
      countedCashC := dto.countedCashC
      overShortC := dto.countedCashC - totals.expectedCashC
      branchCode := (branch.map (·.code)).getD ""
      terminalCode := ctx.terminalCode.getD ""
    }

end SentryPos
