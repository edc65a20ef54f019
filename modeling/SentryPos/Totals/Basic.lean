import SentryPos.Js.Json

/-!
This module contains the totals engine: money and quantity arithmetic, carts and `computeTotals`.
All money is in centavos.
-/

namespace SentryPos

/-- Identifiers, compared as values. -/
abbrev Uuid := Nat

structure Qty where
  milli : ℤ
  deriving DecidableEq

def Qty.val (q : Qty) : ℚ :=
  q.milli / 1000

def milliToQty (m : ℤ) : ℚ :=
  JsNumber.number (m / 1000)

/-- `round` of a numeric in SQL: to the nearest integer, ties away from zero. -/
def sqlRound (q : ℚ) : ℤ :=
  if q < 0 then -⌊-q + 1 / 2⌋ else ⌊q + 1 / 2⌋

section Arithmetic

variable [Rounding]

/-- The error names the quantity, too. -/
def qtyToMilli (q : JsNumber) : Except String JsNumber :=
  let m := q * 1000
  let rounded := m.round
  if JsNumber.blt (JsNumber.number (1 / 1000000)) (m - rounded).abs then
    .error "quantity exceeds 3 decimal places"
  else
    .ok rounded

def halfUp (x : JsNumber) : JsNumber :=
  x.sign * x.abs.round

theorem halfUp_ofRat (q : ℚ) : halfUp (.fin q) = Rounding.ofRat (sqlRound q) := by
  unfold halfUp JsNumber.sign JsNumber.abs JsNumber.round sqlRound
  dsimp only
  rcases lt_trichotomy q 0 with hq | hq | hq
  . rw [if_neg (by linarith), if_pos hq, if_pos hq, abs_of_neg hq]
    change Rounding.ofRat _ = _
    push_cast
    rw [neg_one_mul]
  . rw [if_neg (by linarith), if_neg (by linarith), if_neg (by linarith), hq]
    change Rounding.ofRat _ = _
    norm_num
  . rw [if_pos hq, if_neg (by linarith), abs_of_pos hq]
    change Rounding.ofRat _ = _
    rw [Nat.cast_one, one_mul]

def mulRate (c rate : JsNumber) : JsNumber :=
  halfUp (c * rate)

def pct (c percent : JsNumber) : JsNumber :=
  halfUp (c * percent / 100)

def vatIncluded (totalC rate : JsNumber) : JsNumber :=
  if rate = 0 then 0
  else halfUp (totalC * rate / (1 + rate))

def mulQtyPriceC (qty : Qty) (unitPriceC : JsNumber) : JsNumber :=
  halfUp (qty.milli * unitPriceC / 1000)

end Arithmetic

inductive OrderType where
  | dine_in
  | takeout
  | none
  deriving DecidableEq

inductive SoldBy where
  | unit
  | weight
  deriving DecidableEq

/--
A discount as it is read from unvalidated JSON. A property that is missing or not of the right
type is `none`; `value` is what the engine's arithmetic makes of it as a number.
-/
structure DiscountSpec where
  source : Option String
  discountId : Option Uuid
  kind : Option String
  value : JsNumber
  deriving DecidableEq

structure CartModifier where
  groupId : String
  modifierId : String
  name : String
  priceDeltaC : ℤ
  deriving DecidableEq

structure CartLine where
  id : Uuid
  productId : Option Uuid
  variantId : Option Uuid
  name : String
  soldBy : SoldBy
  qty : Qty
  unitPriceC : ℤ
  modifiers : List CartModifier
  discount : Option DiscountSpec
  scPwdMarked : Bool
  trackStock : Bool
  deriving DecidableEq

structure ScPwdInfo where
  idNo : String
  name : String
  deriving DecidableEq

structure Cart where
  id : Uuid
  orderType : OrderType
  lines : List CartLine
  orderDiscount : Option DiscountSpec
  scPwd : Option ScPwdInfo

def lineUnitWithModsC [Rounding] (line : CartLine) : JsNumber :=
  line.modifiers.foldl (fun sum m => sum + m.priceDeltaC) line.unitPriceC

section Exact

attribute [local instance] JsNumber.exact

theorem foldl_priceDelta (mods : List CartModifier) (c : ℤ)
    : mods.foldl (fun sum m => sum + (m.priceDeltaC : JsNumber)) (c : JsNumber)
        =
      ((c + (mods.map (·.priceDeltaC)).sum : ℤ) : JsNumber) := by
  induction mods generalizing c with
  | nil => simp
  | cons m mods ih =>
    rw [List.foldl_cons, JsNumber.fin_add, ← Int.cast_add, ih, List.map_cons, List.sum_cons, add_assoc]

theorem lineUnitWithModsC_eq (line : CartLine)
    : lineUnitWithModsC line
        =
      ((line.unitPriceC + (line.modifiers.map (·.priceDeltaC)).sum : ℤ) : JsNumber) :=
  foldl_priceDelta line.modifiers line.unitPriceC

end Exact

inductive Applied where
  | promo
  | scpwd
  deriving DecidableEq

structure LineTotals where
  lineId : Uuid
  grossC : JsNumber
  promoDiscountC : JsNumber
  scPwdDiscountC : JsNumber
  applied : Option Applied
  netC : JsNumber
  deriving DecidableEq

structure CartTotals where
  lines : List LineTotals
  subtotalC : JsNumber
  promoDiscountC : JsNumber
  scPwdDiscountC : JsNumber
  discountedSubtotalC : JsNumber
  serviceChargeC : JsNumber
  totalC : JsNumber
  vatExemptSalesC : JsNumber
  vatC : JsNumber
  vatableSalesC : JsNumber
  deriving DecidableEq

structure Rates where
  taxRate : ℚ
  serviceChargeRate : ℚ

def discountAmountC [Rounding] (d : Option DiscountSpec) (baseC : JsNumber) : JsNumber :=
  match d with
  | none => 0
  | some d =>
    if baseC.ble 0 then 0
    else
      let raw := if d.kind = some "percent" then pct baseC d.value else d.value
      raw.min baseC

def lineTotals [Rounding] (cart : Cart) (s : Rates) (line : CartLine) : LineTotals :=
  let grossC := mulQtyPriceC line.qty (lineUnitWithModsC line)
  let promoDiscountC := discountAmountC line.discount grossC
  -- SC/PWD: VAT comes off first, then 20%.
  let scPwdDiscountC : JsNumber :=
    if cart.scPwd.isSome && line.scPwdMarked then
      let base := halfUp (grossC / (1 + .fin s.taxRate))
      grossC - pct base 80
    else 0
  let applied :=
    if JsNumber.blt 0 promoDiscountC || JsNumber.blt 0 scPwdDiscountC then
      if promoDiscountC.ble scPwdDiscountC then some .scpwd else some .promo
    else none
  let appliedC : JsNumber :=
    match applied with
    | some .scpwd => scPwdDiscountC
    | some .promo => promoDiscountC
    | none => 0
  {
    lineId := line.id
    grossC
    promoDiscountC
    scPwdDiscountC
    applied
    netC := grossC - appliedC
  }

def takenC (applied : Option Applied) (promoC scPwdC : JsNumber) : JsNumber :=
  match applied with
  | some .scpwd => scPwdC
  | some .promo => promoC
  | none => 0

theorem lineTotals_netC [Rounding] (cart : Cart) (s : Rates) (line : CartLine)
    : (lineTotals cart s line).netC
        =
      (lineTotals cart s line).grossC
        - takenC (lineTotals cart s line).applied (lineTotals cart s line).promoDiscountC
            (lineTotals cart s line).scPwdDiscountC := rfl

def computeTotals [Rounding] (cart : Cart) (s : Rates) : CartTotals :=
  let lines := cart.lines.map (lineTotals cart s)
  let subtotalC := lines.foldl (fun sum l => sum + l.grossC) 0
  let linePromoC :=
    lines.foldl (fun sum l => if l.applied = some .promo then sum + l.promoDiscountC else sum) 0
  let scPwdDiscountC :=
    lines.foldl (fun sum l => if l.applied = some .scpwd then sum + l.scPwdDiscountC else sum) 0
  let orderBaseC :=
    lines.foldl (fun sum l => if l.applied = some .scpwd then sum else sum + l.netC) 0
  let orderDiscountC := discountAmountC cart.orderDiscount orderBaseC
  let promoDiscountC := linePromoC + orderDiscountC
  let discountedSubtotalC := subtotalC - promoDiscountC - scPwdDiscountC
  let serviceChargeC :=
    if cart.orderType = .dine_in then mulRate discountedSubtotalC (.fin s.serviceChargeRate) else 0
  let totalC := discountedSubtotalC + serviceChargeC
  let vatExemptSalesC :=
    lines.foldl (fun sum l => if l.applied = some .scpwd then sum + l.netC else sum) 0
  let vatC := vatIncluded (totalC - vatExemptSalesC) (.fin s.taxRate)
  let vatableSalesC := totalC - vatExemptSalesC - vatC
  {
    lines
    subtotalC
    promoDiscountC
    scPwdDiscountC
    discountedSubtotalC
    serviceChargeC
    totalC
    vatExemptSalesC
    vatC
    vatableSalesC
  }

def Applied.toJson : Option Applied → Json
  | some .promo => .str "promo"
  | some .scpwd => .str "scpwd"
  | none => .null

def LineTotals.toJson (l : LineTotals) : Json :=
  .obj [
    ("lineId", .num l.lineId),
    ("grossC", .ofNumber l.grossC),
    ("promoDiscountC", .ofNumber l.promoDiscountC),
    ("scPwdDiscountC", .ofNumber l.scPwdDiscountC),
    ("applied", Applied.toJson l.applied),
    ("netC", .ofNumber l.netC)
  ]

def CartTotals.toJson (t : CartTotals) : Json :=
  .obj [
    ("lines", .arr (t.lines.map LineTotals.toJson)),
    ("subtotalC", .ofNumber t.subtotalC),
    ("promoDiscountC", .ofNumber t.promoDiscountC),
    ("scPwdDiscountC", .ofNumber t.scPwdDiscountC),
    ("discountedSubtotalC", .ofNumber t.discountedSubtotalC),
    ("serviceChargeC", .ofNumber t.serviceChargeC),
    ("totalC", .ofNumber t.totalC),
    ("vatExemptSalesC", .ofNumber t.vatExemptSalesC),
    ("vatC", .ofNumber t.vatC),
    ("vatableSalesC", .ofNumber t.vatableSalesC)
  ]

end SentryPos
