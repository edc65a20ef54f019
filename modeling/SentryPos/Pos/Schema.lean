import SentryPos.Table
import SentryPos.Totals.Basic

/-!
This module contains the tables the point of sale works on and the request bodies it stores in them.
-/

namespace SentryPos

/-- Milliseconds since the epoch. -/
abbrev DateTime := ℤ

inductive SaleStatus where
  | completed
  | voided
  | refunded
  deriving DecidableEq

def SaleStatus.text : SaleStatus → String
  | .completed => "completed"
  | .voided => "voided"
  | .refunded => "refunded"

inductive PaymentMethod where
  | cash
  | card
  | gcash
  | maya
  | other
  deriving DecidableEq

inductive MovementType where
  | sale
  | void
  | refund
  | adjustment
  | receive
  | transfer_out
  | transfer_in
  deriving DecidableEq

def MovementType.isReversal : MovementType → Bool
  | .void | .refund => true
  | _ => false

inductive ReasonCategory where
  | damage
  | expiry
  | theft_loss
  | count_correction
  | other
  deriving DecidableEq

inductive CashMovementType where
  | cash_in
  | cash_out
  deriving DecidableEq

def MAX_CENTAVOS : ℤ := 100000000

def MAX_QTY : ℤ := 1000000 * 1000

def MAX_ATTEMPTS : Nat := 4

def LOCKOUT_SECONDS : ℤ := 300

structure CartLineDto extends CartLine where
  qty_pos : 0 < qty.milli
  qty_le : qty.milli ≤ MAX_QTY
  unitPriceC_nonneg : 0 ≤ unitPriceC
  unitPriceC_le : unitPriceC ≤ MAX_CENTAVOS
  priceDeltaC_ge : ∀ m ∈ modifiers, -MAX_CENTAVOS ≤ m.priceDeltaC
  priceDeltaC_le : ∀ m ∈ modifiers, m.priceDeltaC ≤ MAX_CENTAVOS

structure SalePaymentDto where
  id : Uuid
  method : PaymentMethod
  referenceNo : Option String
  amountC : ℤ
  tenderedC : ℤ
  changeC : ℤ
  amountC_nonneg : 0 ≤ amountC
  amountC_le : amountC ≤ MAX_CENTAVOS
  tenderedC_nonneg : 0 ≤ tenderedC
  tenderedC_le : tenderedC ≤ MAX_CENTAVOS
  changeC_nonneg : 0 ≤ changeC
  changeC_le : changeC ≤ MAX_CENTAVOS

/-- An ISO 8601 text and the date `new Date` makes of it, `none` for an invalid date. -/
structure IsoDate where
  text : String
  date : Option DateTime
  deriving DecidableEq

structure SaleDraftDto where
  id : Uuid
  receiptNo : String
  shiftId : Uuid
  orderType : OrderType
  lines : List CartLineDto
  orderDiscount : Option DiscountSpec
  scPwd : Option ScPwdInfo
  totals : Json
  payment : SalePaymentDto
  createdAtDevice : IsoDate
  receiptNo_length : receiptNo.length ≤ 120
  lines_ne : lines ≠ []

structure StockKey where
  branchId : Uuid
  productId : Uuid
  variantId : Option Uuid
  deriving DecidableEq

structure Business where
  id : Uuid
  ownerId : Uuid
  taxRate : ℚ
  serviceChargeRate : ℚ
  deletedAt : Option DateTime

structure Branch where
  id : Uuid
  businessId : Uuid
  code : String
  deletedAt : Option DateTime

structure Terminal where
  id : Uuid
  branchId : Uuid
  receiptSeq : ℤ

structure Product where
  id : Uuid
  businessId : Uuid
  cost : Option ℤ
  trackExpiry : Bool
  deletedAt : Option DateTime

structure ProductVariant where
  id : Uuid
  productId : Uuid
  cost : Option ℤ
  deletedAt : Option DateTime

structure Discount where
  id : Uuid
  businessId : Uuid
  deletedAt : Option DateTime

structure User where
  id : Uuid
  ownerId : Option Uuid
  pinHash : Option String
  failedPinCount : Nat
  pinLockedUntil : Option DateTime
  deletedAt : Option DateTime

/-- `qty` is in thousandths. -/
structure BranchStock extends StockKey where
  id : Uuid
  qty : ℤ
  deletedAt : Option DateTime
  deriving DecidableEq

/-- `qtyDelta` is in thousandths. -/
structure StockMovement extends StockKey where
  type : MovementType
  refId : Uuid
  qtyDelta : ℤ
  reasonCategory : Option ReasonCategory
  unitCost : Option ℤ
  note : Option String
  deletedAt : Option DateTime
  deriving DecidableEq

structure Shift where
  id : Uuid
  branchId : Uuid
  terminalId : Uuid
  openedAt : DateTime
  closedAt : Option DateTime
  openingCash : ℤ
  closingCash : Option ℤ
  expectedCash : Option ℤ
  deletedAt : Option DateTime
  deriving DecidableEq

structure ShiftCashMovement where
  id : Uuid
  shiftId : Uuid
  type : CashMovementType
  amount : ℤ
  reason : String
  createdAt : DateTime
  deletedAt : Option DateTime
  deriving DecidableEq

structure Sale where
  id : Uuid
  branchId : Uuid
  terminalId : Uuid
  shiftId : Option Uuid
  receiptNo : String
  orderType : OrderType
  status : SaleStatus
  statusReason : Option String
  subtotal : ℤ
  discount : ℤ
  discountId : Option Uuid
  serviceCharge : ℤ
  scPwd : Option ScPwdInfo
  scPwdDiscount : ℤ
  vatExemptSales : ℤ
  tax : ℤ
  total : ℤ
  createdAtDevice : DateTime
  syncedAt : Option DateTime
  voidedAt : Option DateTime
  refundedAt : Option DateTime
  refundShiftId : Option Uuid
  draft : SaleDraftDto
  createdAt : DateTime
  deletedAt : Option DateTime

structure SaleItem where
  saleId : Uuid
  productId : Option Uuid
  variantId : Option Uuid
  nameSnapshot : String
  qty : Qty
  unitPrice : ℤ
  costSnapshot : Option ℤ
  discount : ℤ
  discountId : Option Uuid
  modifiers : List CartModifier
  deriving DecidableEq

structure SalePayment where
  id : Uuid
  saleId : Uuid
  method : PaymentMethod
  reference : Option String
  amount : ℤ
  tendered : ℤ
  change : ℤ
  deletedAt : Option DateTime
  deriving DecidableEq

structure Database where
  businesses : List Business
  branches : List Branch
  terminals : List Terminal
  products : List Product
  productVariants : List ProductVariant
  discounts : List Discount
  users : List User
  branchStock : List BranchStock
  stockMovements : List StockMovement
  shifts : List Shift
  shiftCashMovements : List ShiftCashMovement
  sales : List Sale
  saleItems : List SaleItem
  salePayments : List SalePayment

namespace Database

def business? (db : Database) : Uuid → Option Business :=
  Table.get (·.id) db.businesses

def branch? (db : Database) : Uuid → Option Branch :=
  Table.get (·.id) db.branches

def terminal? (db : Database) : Uuid → Option Terminal :=
  Table.get (·.id) db.terminals

def product? (db : Database) : Uuid → Option Product :=
  Table.get (·.id) db.products

def productVariant? (db : Database) : Uuid → Option ProductVariant :=
  Table.get (·.id) db.productVariants

def discount? (db : Database) : Uuid → Option Discount :=
  Table.get (·.id) db.discounts

def user? (db : Database) : Uuid → Option User :=
  Table.get (·.id) db.users

def stock? (db : Database) : Uuid → Option BranchStock :=
  Table.get (·.id) db.branchStock

def shift? (db : Database) : Uuid → Option Shift :=
  Table.get (·.id) db.shifts

def sale? (db : Database) : Uuid → Option Sale :=
  Table.get (·.id) db.sales

/-- The stock of a level: 0 when it has no live row. -/
def level (db : Database) (key : StockKey) : ℤ :=
  ((db.branchStock.filter fun r => r.toStockKey = key && r.deletedAt.isNone).map (·.qty)).sum

end Database

end SentryPos
