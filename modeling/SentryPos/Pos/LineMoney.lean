import SentryPos.Pos.ExactlyOnce

/-!
This module contains the money of the stored lines of a sale as reports compute it, and when it is the
money that the totals engine has computed for the lines of the draft, in exact arithmetic.
-/

namespace SentryPos

open ReadCommitted

def SaleItem.modsC (item : SaleItem) : ℤ :=
  (item.modifiers.map (·.priceDeltaC)).sum

/-- `LINE_NET_C`: the revenue of a line after its own discount. -/
def SaleItem.netC (item : SaleItem) : ℤ :=
  sqlRound (item.qty.val * (item.unitPrice + item.modsC : ℤ)) - item.discount

def LineTotals.appliedC [Rounding] (lt : LineTotals) : JsNumber :=
  lt.grossC - lt.netC

def CartTotals.linePromoC [Rounding] (totals : CartTotals) : JsNumber :=
  totals.lines.foldl (fun sum l => if l.applied = some .promo then sum + l.promoDiscountC else sum) 0

def orderDiscountC [Rounding] (cart : Cart) (s : Rates) : JsNumber :=
  discountAmountC cart.orderDiscount <|
    (computeTotals cart s).lines.foldl
      (fun sum l => if l.applied = some .scpwd then sum else sum + l.netC) 0

def CartLine.isNamed (line : CartLine) : Bool :=
  line.discount.any fun d => d.source = some "named"

def ownProduct (ctx : TerminalContext) (db : Database) (productId : Uuid) : Option Product :=
  db.products.find? fun p =>
    p.id = productId && p.businessId = ctx.businessId && ctx.request.ownsBusiness db p.businessId
      && p.deletedAt.isNone

def ownCost (ctx : TerminalContext) (db : Database) (line : CartLineDto) : Option ℤ :=
  (line.productId.bind (ownProduct ctx db)).bind fun product =>
    match line.variantId with
    | none => product.cost
    | some variantId =>
      (db.productVariants.find? fun v =>
        v.id = variantId && v.productId = product.id && v.deletedAt.isNone).bind (·.cost)

/-- The stored row has the money, the cost and the discount of its own line. -/
structure ReportsLine (ctx : TerminalContext) (db : Database) (line : CartLineDto) (lt : LineTotals)
    (item : SaleItem) : Prop where
  net : ((item.netC : ℤ) : JsNumber) = lt.netC
  cost : item.costSnapshot = ownCost ctx db line
  discountId : item.discountId.isSome ↔ lt.applied = some .promo ∧ line.isNamed

/-- The stored rows of a sale agree with the totals engine, line by line and in their sums. -/
structure LinesReported [Rounding] (ctx : TerminalContext) (dto : SaleDraftDto) (rates : Rates) (db : Database)
    (data : SaleData) : Prop where
  lines : List.Forall₂ (fun x item => ReportsLine ctx db x.1 x.2 item)
    (dto.lines.zip (computeTotals dto.cart rates).lines) data.items
  sum : (((data.items.map (·.discount)).sum : ℤ) : JsNumber)
    = ((data.sale.scPwdDiscount : ℤ) : JsNumber) + (computeTotals dto.cart rates).linePromoC
  order : ((data.sale.discount - ((data.items.map (·.discount)).sum - data.sale.scPwdDiscount) : ℤ)
    : JsNumber) = orderDiscountC dto.cart rates

def lastCost (ctx : TerminalContext) (db : Database) (lines : List CartLineDto) (id : Uuid)
    : Option ℤ :=
  ((lines.filter (·.productId.isSome)).reverse.find? fun line => line.id = id).bind (ownCost ctx db)

/--
Lines with one id agree: the engine gives a line the same discount as the first line with its id,
and the last one that has a product costs the same.
-/
structure LinesAgree [Rounding] (ctx : TerminalContext) (dto : SaleDraftDto) (rates : Rates) (db : Database)
    : Prop where
  discount : ∀ line ∈ dto.lines, ∀ first, dto.lines.find? (·.id = line.id) = some first →
    (lineTotals dto.cart rates first.toCartLine).appliedC
        = (lineTotals dto.cart rates line.toCartLine).appliedC
      ∧ (line.isNamed → ((lineTotals dto.cart rates first.toCartLine).applied = some .promo
        ↔ (lineTotals dto.cart rates line.toCartLine).applied = some .promo))
  cost : ∀ line ∈ dto.lines, lastCost ctx db dto.lines line.id = ownCost ctx db line

attribute [local instance] JsNumber.exact

section Engine

variable {cart : Cart} {s : Rates} {line : CartLine}

theorem halfUp_fin (q : ℚ) : halfUp (.fin q) = ((sqlRound q : ℤ) : JsNumber) :=
  halfUp_ofRat q

theorem grossC_eq (cart : Cart) (s : Rates) (line : CartLine)
    : (lineTotals cart s line).grossC
        =
      ((sqlRound (line.qty.val * (line.unitPriceC + (line.modifiers.map (·.priceDeltaC)).sum : ℤ)) : ℤ)
        : JsNumber) := by
  have hprice : (lineTotals cart s line).grossC
      = halfUp (line.qty.milli * lineUnitWithModsC line / 1000) := rfl
  unfold Qty.val
  rw [hprice, lineUnitWithModsC_eq, JsNumber.fin_mul, JsNumber.ofNat_eq, JsNumber.fin_div (by norm_num), halfUp_fin]
  congr 3
  push_cast
  ring

theorem sub_sub_fin {g d : ℚ} {x : JsNumber} (h : JsNumber.fin g - (JsNumber.fin g - x) = .fin d)
    : x = .fin d := by
  cases x with
  | fin a =>
    rw [JsNumber.fin_sub, JsNumber.fin_sub, JsNumber.fin.injEq] at h
    rw [← h]
    congr 1
    ring
  | nan | posInf | negInf => cases h

theorem applied_amount {d : ℤ} (h : (lineTotals cart s line).appliedC = ((d : ℤ) : JsNumber))
    : match (lineTotals cart s line).applied with
      | some .scpwd => (lineTotals cart s line).scPwdDiscountC = ((d : ℤ) : JsNumber)
      | some .promo => (lineTotals cart s line).promoDiscountC = ((d : ℤ) : JsNumber)
      | none => d = 0 := by
  have hgross := grossC_eq cart s line
  have hnet : (lineTotals cart s line).netC
      = (lineTotals cart s line).grossC - (match (lineTotals cart s line).applied with
        | some .scpwd => (lineTotals cart s line).scPwdDiscountC
        | some .promo => (lineTotals cart s line).promoDiscountC
        | none => 0) := rfl
  unfold LineTotals.appliedC at h
  rw [hnet, hgross] at h
  have hamount := sub_sub_fin h
  generalize (lineTotals cart s line).applied = applied at hamount ⊢
  cases applied with
  | none =>
    rw [JsNumber.ofNat_eq, JsNumber.fin.injEq] at hamount
    exact_mod_cast hamount.symm
  | some applied => cases applied <;> exact hamount

end Engine

section Rows

variable {ctx : TerminalContext} {dto : SaleDraftDto} {rates : Rates} {db : Database}
  {costByLine : List (Uuid × Option ℤ)} {line : CartLineDto} {item : SaleItem}

theorem find?_lineTotals [Rounding] (dto : SaleDraftDto) (rates : Rates) (id : Uuid)
    : ((computeTotals dto.cart rates).lines.find? fun x => x.lineId = id)
        =
      (dto.lines.find? (·.id = id)).map fun line => lineTotals dto.cart rates line.toCartLine := by
  have hlines : (computeTotals dto.cart rates).lines
      = dto.lines.map fun line => lineTotals dto.cart rates line.toCartLine := by
    change (dto.lines.map (·.toCartLine)).map (lineTotals dto.cart rates) = _
    rw [List.map_map]
    rfl
  rw [hlines, List.find?_map]
  rfl

theorem exists_first (hline : line ∈ dto.lines)
    : ∃ first, dto.lines.find? (·.id = line.id) = some first := by
  rw [← Option.isSome_iff_exists, List.find?_isSome]
  exact ⟨line, hline, by simp⟩

theorem buildItem_eq [Rounding] {first : CartLineDto} (hfirst : dto.lines.find? (·.id = line.id) = some first)
    (h : buildItem dto (computeTotals dto.cart rates) costByLine line = .ok item)
    : (lineTotals dto.cart rates first.toCartLine).appliedC = ((item.discount : ℤ) : JsNumber)
        ∧ item.discountId = (if (lineTotals dto.cart rates first.toCartLine).applied = some .promo
          then namedDiscountId line.discount else none)
        ∧ item.costSnapshot = costOf costByLine line.id ∧ item.qty = line.qty
        ∧ item.unitPrice = line.unitPriceC ∧ item.modifiers = line.modifiers := by
  unfold buildItem at h
  rw [find?_lineTotals, hfirst, Checks.bind_eq_ok] at h
  obtain ⟨discount, hdiscount, h⟩ := h
  cases h
  exact ⟨intColumn_eq_ok hdiscount, rfl, rfl, rfl, rfl, rfl⟩

theorem namedDiscountId_isSome (hdiscounts : ownsDiscounts ctx dto db) (hline : line ∈ dto.lines)
    : (namedDiscountId line.discount).isSome ↔ line.isNamed := by
  unfold namedDiscountId CartLine.isNamed
  cases hdiscount : line.discount with
  | none => simp
  | some d =>
    by_cases hsource : d.source = some "named"
    . have hmem : d.discountId ∈ namedIds dto := by
        unfold namedIds
        rw [List.mem_map]
        refine ⟨d, ?_, rfl⟩
        rw [List.mem_filterMap]
        refine ⟨some d, List.mem_cons_of_mem _ ?_, by simp [hsource]⟩
        rw [List.mem_map]
        exact ⟨line, hline, hdiscount⟩
      have hown := List.all_eq_true.mp hdiscounts _ hmem
      simp only [List.any_eq_true, Bool.and_eq_true, decide_eq_true_eq] at hown
      obtain ⟨owned, _, heq⟩ := hown
      have hid : d.discountId = some owned.id := heq.1.1.symm
      simp [Option.filter, hsource, hid]
    . simp [Option.filter, hsource]

theorem net_iff {lt : LineTotals} {d : ℤ} {g : ℤ} (hgross : lt.grossC = ((g : ℤ) : JsNumber))
    : ((g - d : ℤ) : JsNumber) = lt.netC ↔ lt.appliedC = ((d : ℤ) : JsNumber) := by
  unfold LineTotals.appliedC
  rw [hgross]
  constructor
  . intro h
    rw [← h, JsNumber.fin_sub]
    congr 1
    push_cast
    ring
  . intro h
    cases hnet : lt.netC with
    | fin n =>
      rw [hnet, JsNumber.fin_sub, JsNumber.fin.injEq] at h
      congr 1
      push_cast
      linarith
    | nan | posInf | negInf =>
      rw [hnet] at h
      cases h

theorem reportsLine_iff {first : CartLineDto}
    (hfirst : dto.lines.find? (·.id = line.id) = some first)
    (hbuild : buildItem dto (computeTotals dto.cart rates) costByLine line = .ok item)
    (hcosts : costOf costByLine line.id = lastCost ctx db dto.lines line.id)
    (hnamed : (namedDiscountId line.discount).isSome ↔ line.isNamed)
    : ReportsLine ctx db line (lineTotals dto.cart rates line.toCartLine) item
        ↔ (lineTotals dto.cart rates first.toCartLine).appliedC
            = (lineTotals dto.cart rates line.toCartLine).appliedC
          ∧ (line.isNamed → ((lineTotals dto.cart rates first.toCartLine).applied = some .promo
            ↔ (lineTotals dto.cart rates line.toCartLine).applied = some .promo))
          ∧ lastCost ctx db dto.lines line.id = ownCost ctx db line := by
  obtain ⟨hdiscount, hdiscountId, hcost, hqty, hprice, hmods⟩ := buildItem_eq hfirst hbuild
  have hnet : ((item.netC : ℤ) : JsNumber) = (lineTotals dto.cart rates line.toCartLine).netC
      ↔ (lineTotals dto.cart rates first.toCartLine).appliedC
        = (lineTotals dto.cart rates line.toCartLine).appliedC := by
    have hgross := grossC_eq dto.cart rates line.toCartLine
    unfold SaleItem.netC SaleItem.modsC
    rw [hqty, hprice, hmods, net_iff hgross, hdiscount]
    exact eq_comm
  have hid : item.discountId.isSome
      ↔ (lineTotals dto.cart rates first.toCartLine).applied = some .promo ∧ line.isNamed := by
    rw [hdiscountId]
    split
    . next happlied => simp [happlied, hnamed]
    . next happlied => simp [happlied]
  rw [hcosts] at hcost
  constructor
  . intro h
    refine ⟨hnet.mp h.net, ?_, ?_⟩
    . intro hline
      have hboth := hid.symm.trans h.discountId
      simpa [hline] using hboth
    . rw [← hcost]
      exact h.cost
  . intro ⟨happlied, hpromo, hown⟩
    refine ⟨hnet.mpr happlied, hcost.trans hown, hid.trans ?_⟩
    constructor
    . intro h
      exact ⟨(hpromo h.2).mp h.1, h.2⟩
    . intro h
      exact ⟨(hpromo h.2).mpr h.1, h.2⟩

/-- A relation that each pair of another one decides by its left side holds if all of them do. -/
theorem forall₂_iff {α β : Type} {R B : α → β → Prop} {C : α → Prop} {xs : List α} {ys : List β}
    (h : List.Forall₂ B xs ys) (hiff : ∀ x ∈ xs, ∀ y, B x y → (R x y ↔ C x))
    : List.Forall₂ R xs ys ↔ ∀ x ∈ xs, C x := by
  induction h with
  | nil => simp
  | @cons x y xs ys hxy _ ih =>
    rw [List.forall₂_cons, List.forall_mem_cons, hiff x List.mem_cons_self y hxy,
      ih fun x hx => hiff x (List.mem_cons_of_mem _ hx)]

theorem zip_lineTotals [Rounding] (dto : SaleDraftDto) (rates : Rates)
    : dto.lines.zip (computeTotals dto.cart rates).lines
        =
      dto.lines.map fun line => (line, lineTotals dto.cart rates line.toCartLine) := by
  have hlines : (computeTotals dto.cart rates).lines
      = dto.lines.map fun line => lineTotals dto.cart rates line.toCartLine := by
    change (dto.lines.map (·.toCartLine)).map (lineTotals dto.cart rates) = _
    rw [List.map_map]
    rfl
  have hzip := List.zip_map' (f := id)
    (g := fun line : CartLineDto => lineTotals dto.cart rates line.toCartLine) (l := dto.lines)
  rw [hlines]
  simpa using hzip

theorem find?_findProducts {ids : List Uuid} {productId : Uuid} (hmem : productId ∈ ids)
    : ((findProducts ctx.request ctx.businessId ids db).find? fun p => p.product.id = productId)
        =
      (ownProduct ctx db productId).map fun product =>
        {
          product
          variants := db.productVariants.filter fun v =>
            v.productId = product.id && v.deletedAt.isNone
        } := by
  unfold findProducts ownProduct
  rw [List.find?_map, List.find?_filter]
  congr 2
  funext p
  grind

theorem validateLine_ok {ids : List Uuid} {costs : List (Uuid × Option ℤ)}
    (hmem : ∀ productId, line.productId = some productId → productId ∈ ids)
    (h : validateLine (findProducts ctx.request ctx.businessId ids db) line = .ok costs)
    : costs = if line.productId.isSome then [(line.id, ownCost ctx db line)] else [] := by
  unfold validateLine at h
  unfold ownCost
  cases hid : line.productId with
  | none =>
    rw [hid] at h
    cases h
    rfl
  | some productId =>
    rw [hid] at h
    dsimp only at h
    rw [find?_findProducts (hmem productId hid)] at h
    rw [Option.bind_some]
    cases hproduct : ownProduct ctx db productId with
    | none =>
      rw [hproduct] at h
      cases h
    | some product =>
      rw [hproduct] at h
      dsimp only [Option.map_some] at h
      simp only [Option.isSome_some, if_true, Option.bind_some]
      cases hvariant : line.variantId with
      | none =>
        rw [hvariant] at h
        split at h
        . cases h
        . cases h
          rfl
      | some variantId =>
        rw [hvariant] at h
        split at h
        . rw [Option.bind_some, List.find?_filter] at h
          split at h
          . cases h
          . next variant hfound =>
            cases h
            have heq : (db.productVariants.find? fun v =>
                v.id = variantId && v.productId = product.id && v.deletedAt.isNone)
                  = some variant := by
              rw [← hfound]
              congr 1
              funext v
              grind
            dsimp only
            rw [heq]
            rfl
        . cases h

theorem costsOfLines_ok (h : costsOfLines ctx dto.lines db = .ok costByLine)
    : costByLine
        =
      (dto.lines.filter (·.productId.isSome)).map fun line => (line.id, ownCost ctx db line) := by
  unfold costsOfLines at h
  simp only [Checks.bind_eq_ok] at h
  obtain ⟨costs, hcosts, heq⟩ := h
  cases heq
  have hids : ∀ line ∈ dto.lines, ∀ productId, line.productId = some productId →
      productId ∈ productIds dto.lines := by
    intro line hline productId hid
    unfold productIds
    rw [List.mem_dedup, List.mem_filterMap]
    exact ⟨line, hline, hid⟩
  generalize productIds dto.lines = ids at hcosts hids
  have hpairs := Checks.mapM_eq_ok hcosts
  generalize dto.lines = lines at hpairs hids ⊢
  clear hcosts
  induction hpairs with
  | nil => rfl
  | @cons line cs lines css hline _ ih =>
    rw [List.flatten_cons, ih fun l hl => hids l (List.mem_cons_of_mem _ hl),
      validateLine_ok (hids line List.mem_cons_self) hline, List.filter_cons]
    split
    . rfl
    . rfl

theorem costOf_eq (h : costsOfLines ctx dto.lines db = .ok costByLine) (id : Uuid)
    : costOf costByLine id = lastCost ctx db dto.lines id := by
  unfold costOf lastCost
  rw [costsOfLines_ok h, ← List.map_reverse, List.find?_map, Option.bind_map]
  rfl

theorem linesReported_iff {data : SaleData} (hdiscounts : ∃ db, ownsDiscounts ctx dto db)
    (hcosts : costsOfLines ctx dto.lines db = .ok costByLine)
    (hitems : dto.lines.mapM (buildItem dto (computeTotals dto.cart rates) costByLine) = .ok data.items)
    : List.Forall₂ (fun x item => ReportsLine ctx db x.1 x.2 item)
        (dto.lines.zip (computeTotals dto.cart rates).lines) data.items
      ↔ LinesAgree ctx dto rates db := by
  obtain ⟨db0, hdiscounts⟩ := hdiscounts
  rw [zip_lineTotals, List.forall₂_map_left_iff]
  rw [forall₂_iff (C := fun line => (∀ first, dto.lines.find? (·.id = line.id) = some first →
        (lineTotals dto.cart rates first.toCartLine).appliedC
            = (lineTotals dto.cart rates line.toCartLine).appliedC
          ∧ (line.isNamed → ((lineTotals dto.cart rates first.toCartLine).applied = some .promo
            ↔ (lineTotals dto.cart rates line.toCartLine).applied = some .promo)))
      ∧ lastCost ctx db dto.lines line.id = ownCost ctx db line) (Checks.mapM_eq_ok hitems)]
  . constructor
    . intro h
      exact ⟨fun line hline => (h line hline).1, fun line hline => (h line hline).2⟩
    . intro h line hline
      exact ⟨h.discount line hline, h.cost line hline⟩
  . intro line hline item hbuild
    obtain ⟨first, hfirst⟩ := exists_first hline
    rw [reportsLine_iff hfirst hbuild (costOf_eq hcosts _) (namedDiscountId_isSome hdiscounts hline)]
    constructor
    . intro h
      refine ⟨?_, h.2.2⟩
      intro first' hfirst'
      rw [hfirst] at hfirst'
      cases hfirst'
      exact ⟨h.1, h.2.1⟩
    . intro h
      exact ⟨(h.1 first hfirst).1, (h.1 first hfirst).2, h.2⟩

theorem foldl_applied {cart : Cart} {lines : List CartLineDto} {items : List SaleItem}
    (h : List.Forall₂ (fun line item => (lineTotals cart rates line.toCartLine).appliedC
      = ((item.discount : ℤ) : JsNumber)) lines items) (a b : ℤ)
    : ∃ promos scPwds : ℤ,
        (lines.map fun line => lineTotals cart rates line.toCartLine).foldl
            (fun sum l => if l.applied = some .promo then sum + l.promoDiscountC else sum)
            ((a : ℤ) : JsNumber)
          = ((a + promos : ℤ) : JsNumber)
        ∧ (lines.map fun line => lineTotals cart rates line.toCartLine).foldl
            (fun sum l => if l.applied = some .scpwd then sum + l.scPwdDiscountC else sum)
            ((b : ℤ) : JsNumber)
          = ((b + scPwds : ℤ) : JsNumber)
        ∧ (items.map (·.discount)).sum = scPwds + promos := by
  -- A line is in one of the sums at most, by what has been applied to it.
  induction h generalizing a b with
  | nil => exact ⟨0, 0, by simp, by simp, rfl⟩
  | @cons line item lines items hline _ ih =>
    have hamount := applied_amount hline
    simp only [List.map_cons, List.foldl_cons, List.sum_cons]
    cases happlied : (lineTotals cart rates line.toCartLine).applied with
    | none =>
      rw [happlied] at hamount
      obtain ⟨promos, scPwds, hpromos, hscPwds, hsum⟩ := ih a b
      refine ⟨promos, scPwds, by simpa using hpromos, by simpa using hscPwds, ?_⟩
      have hzero : item.discount = 0 := hamount
      omega
    | some applied =>
      rw [happlied] at hamount
      cases applied with
      | promo =>
        have hpromo : (lineTotals cart rates line.toCartLine).promoDiscountC
            = ((item.discount : ℤ) : JsNumber) := hamount
        obtain ⟨promos, scPwds, hpromos, hscPwds, hsum⟩ := ih (a + item.discount) b
        refine ⟨item.discount + promos, scPwds, ?_, by simpa using hscPwds, by omega⟩
        rw [if_pos rfl, hpromo, JsNumber.fin_add, ← Int.cast_add, hpromos, add_assoc]
      | scpwd =>
        have hscPwd : (lineTotals cart rates line.toCartLine).scPwdDiscountC
            = ((item.discount : ℤ) : JsNumber) := hamount
        obtain ⟨promos, scPwds, hpromos, hscPwds, hsum⟩ := ih a (b + item.discount)
        refine ⟨promos, item.discount + scPwds, by simpa using hpromos, ?_, by omega⟩
        rw [if_pos rfl, hscPwd, JsNumber.fin_add, ← Int.cast_add, hscPwds, add_assoc]

theorem fin_add_eq {a q : ℤ} {x : JsNumber} (h : ((a : ℤ) : JsNumber) + x = ((q : ℤ) : JsNumber))
    : ((q - a : ℤ) : JsNumber) = x := by
  cases x with
  | fin b =>
    rw [JsNumber.fin_add, JsNumber.fin.injEq] at h
    congr 1
    push_cast
    linarith
  | nan | posInf | negInf => cases h

theorem sums_of_linesAgree {data : SaleData} {branchId terminalId : Uuid} {now : DateTime}
    (hdata : buildSaleData dto (computeTotals dto.cart rates) costByLine branchId terminalId now
      = .ok data) (hagree : LinesAgree ctx dto rates db)
    : (((data.items.map (·.discount)).sum : ℤ) : JsNumber)
          = ((data.sale.scPwdDiscount : ℤ) : JsNumber) + (computeTotals dto.cart rates).linePromoC
        ∧ ((data.sale.discount - ((data.items.map (·.discount)).sum - data.sale.scPwdDiscount) : ℤ)
          : JsNumber) = orderDiscountC dto.cart rates := by
  have hbuilt := buildSaleData_ok hdata
  have happlied : List.Forall₂ (fun line item =>
      (lineTotals dto.cart rates line.toCartLine).appliedC = ((item.discount : ℤ) : JsNumber))
      dto.lines data.items := by
    rw [forall₂_iff (C := fun line => line ∈ dto.lines) (Checks.mapM_eq_ok hbuilt.items)]
    . exact fun _ h => h
    . intro line hline item hbuild
      obtain ⟨first, hfirst⟩ := exists_first hline
      have hdiscount := (buildItem_eq hfirst hbuild).1
      rw [(hagree.discount line hline first hfirst).1] at hdiscount
      exact ⟨fun _ => hline, fun _ => hdiscount⟩
  have hzero : ((0 : ℤ) : JsNumber) = 0 := by
    rw [JsNumber.ofNat_eq, Int.cast_zero, Nat.cast_zero]
  obtain ⟨promos, scPwds, hpromos, hscPwds, hsum⟩ := foldl_applied happlied 0 0
  rw [hzero, zero_add] at hpromos hscPwds
  have hlines : (computeTotals dto.cart rates).lines
      = dto.lines.map fun line => lineTotals dto.cart rates line.toCartLine := by
    change (dto.lines.map (·.toCartLine)).map (lineTotals dto.cart rates) = _
    rw [List.map_map]
    rfl
  have hlinePromo : (computeTotals dto.cart rates).linePromoC = ((promos : ℤ) : JsNumber) := by
    unfold CartTotals.linePromoC
    rw [hlines]
    exact hpromos
  have hscPwd : (computeTotals dto.cart rates).scPwdDiscountC = ((scPwds : ℤ) : JsNumber) := by
    have hfold : (computeTotals dto.cart rates).scPwdDiscountC
        = (computeTotals dto.cart rates).lines.foldl
          (fun sum l => if l.applied = some .scpwd then sum + l.scPwdDiscountC else sum) 0 := rfl
    rw [hfold, hlines]
    exact hscPwds
  have hstored := intColumn_eq_ok hbuilt.scPwdDiscount
  rw [hscPwd, JsNumber.fin.injEq, Int.cast_inj] at hstored
  have hpromoDiscount := intColumn_eq_ok hbuilt.discount
  have hparts : (computeTotals dto.cart rates).promoDiscountC
      = (computeTotals dto.cart rates).linePromoC + orderDiscountC dto.cart rates := rfl
  rw [hparts, hlinePromo] at hpromoDiscount
  rw [hlinePromo, hsum, ← hstored]
  constructor
  . rw [JsNumber.fin_add]
    push_cast
    rfl
  . rw [← fin_add_eq hpromoDiscount]
    congr 2
    ring

end Rows

section Run

/-- What a call has posted: from the rates of its business and the costs of a committed database. -/
structure Recorded [Rounding] (states : Database → Prop) (ctx : TerminalContext) (dto : SaleDraftDto)
    (now : DateTime) (rates : Rates) (costs : Database) (data : SaleData) (db db' : Database)
    : Prop where
  business : ∃ d b, states d ∧ findBusiness ctx d = some b ∧ b.rates = rates
  state : states costs
  built : ∃ costByLine, costsOfLines ctx dto.lines costs = .ok costByLine
    ∧ buildSaleData dto (computeTotals dto.cart rates) costByLine ctx.branchId ctx.terminalId now
      = .ok data
  sales : db'.sales = db.sales ++ [data.sale]
  saleItems : db'.saleItems = db.saleItems ++ data.items

variable {ctx : TerminalContext} {dto : SaleDraftDto} {now : DateTime}

theorem LinesAgree.of_nodup [Rounding] (hids : (dto.lines.map (·.id)).Nodup) (rates : Rates) (db : Database)
    : LinesAgree ctx dto rates db := by
  have hsame : ∀ line ∈ dto.lines, ∀ line' ∈ dto.lines, line'.id = line.id → line' = line := by
    intro line hline line' hline' hid
    exact List.inj_on_of_nodup_map hids hline' hline hid
  constructor
  . intro line hline first hfirst
    have heq := hsame line hline first (List.mem_of_find?_eq_some hfirst)
      (by simpa using List.find?_some hfirst)
    rw [heq]
    exact ⟨rfl, fun _ => Iff.rfl⟩
  . intro line hline
    unfold lastCost
    cases hfind : ((dto.lines.filter (·.productId.isSome)).reverse.find? fun l => l.id = line.id) with
    | some last =>
      have hmem := List.mem_of_find?_eq_some hfind
      rw [List.mem_reverse] at hmem
      have heq := hsame line hline last (List.mem_of_mem_filter hmem)
        (by simpa using List.find?_some hfind)
      rw [heq]
      rfl
    | none =>
      rw [List.find?_eq_none] at hfind
      have hnone : line.productId = none := by
        by_contra hsome
        have hmem : line ∈ (dto.lines.filter (·.productId.isSome)).reverse := by
          simp [hline, Option.isSome_iff_ne_none, hsome]
        exact absurd (hfind line hmem) (by simp)
      have hcost : ownCost ctx db line = none := by
        unfold ownCost
        rw [hnone]
        rfl
      rw [hcost]
      rfl

theorem Recorded.linesReported_iff {states : Database → Prop} {rates : Rates} {costs : Database}
    {data : SaleData} {db db' : Database} (h : Recorded states ctx dto now rates costs data db db')
    (hdiscounts : ∃ db, ownsDiscounts ctx dto db)
    : LinesReported ctx dto rates costs data ↔ LinesAgree ctx dto rates costs := by
  obtain ⟨costByLine, hcosts, hdata⟩ := h.built
  have hlines := SentryPos.linesReported_iff hdiscounts hcosts (buildSaleData_ok hdata).items
  constructor
  . intro hreported
    exact hlines.mp hreported.lines
  . intro hagree
    have hsums := sums_of_linesAgree hdata hagree
    exact ⟨hlines.mpr hagree, hsums.1, hsums.2⟩

theorem Posted.recorded [Rounding] {states : Database → Prop}
    {keeps : Option Stmt → Database → Database → Prop}
    {assume : Stmt → List Write → Database → Prop} {totals : CartTotals}
    {costByLine : List (Uuid × Option ℤ)} {p : Posting} {db db' : Database}
    (haccepted : Accepted (Env.ofRun states keeps assume) ctx dto totals costByLine db)
    (hposted : Posted ctx dto totals costByLine now p db db')
    : ∃ rates costs, Recorded states ctx dto now rates costs p.data db db' := by
  obtain ⟨d, hd, ⟨b, hbusiness, htotals⟩, _⟩ := haccepted.business
  obtain ⟨d', hd', hcosts, _⟩ := haccepted.costs
  have hdata := hposted.data
  rw [htotals] at hdata
  exact ⟨b.rates, d', ⟨d, b, hd.2, hbusiness, rfl⟩, hd'.2, ⟨costByLine, hcosts, hdata⟩, hposted.sales,
    hposted.saleItems⟩

/--
Whatever a call of a run posts has, line by line and in its sums, the money of the totals engine if
and only if the lines of the draft that have one id agree.
-/
theorem line_money_reported {ι : Type} [DecidableEq ι] {reqs : ι → Request} {db : Database}
    (hdb : db.Valid) {c : System ι} (hrun : Run (.error .aborted) (System.start db reqs) c)
    {e : Event ι Database} (he : e ∈ c.history) (hreq : reqs e.client = .completeSale ctx dto now)
    : e.after = e.before
        ∨ ∃ rates costs data,
            Recorded (· ∈ c.databases db) ctx dto now rates costs data e.before e.after
            ∧ (LinesReported ctx dto rates costs data ↔ LinesAgree ctx dto rates costs) := by
  have hok := (keeps_databases reqs db c).ok hdb List.mem_cons_self hrun.within
  have hevent := hok.events e he
  rw [hreq] at hevent
  obtain ⟨log, _, _, hcommit, hafter⟩ := hevent.commit
  cases hcommit with
  | found => exact .inl hafter
  | posted haccepted hposted =>
    rw [← hafter] at hposted
    obtain ⟨rates, costs, hrecorded⟩ := hposted.recorded haccepted
    obtain ⟨d, _, hdiscounts, _⟩ := haccepted.discounts
    exact .inr ⟨rates, costs, _, hrecorded, hrecorded.linesReported_iff ⟨d, hdiscounts⟩⟩

end Run

namespace Cafe

/-- Two cups more, at half the price, under the id of the first line. -/
def halfPrice : CartLineDto :=
  { line with
    discount := some { source := some "manual", discountId := none, kind := some "percent", value := 50 }
    qty_pos := line.qty_pos
    qty_le := line.qty_le
    unitPriceC_nonneg := line.unitPriceC_nonneg
    unitPriceC_le := line.unitPriceC_le
    priceDeltaC_ge := line.priceDeltaC_ge
    priceDeltaC_le := line.priceDeltaC_le }

def sameIdCart : Cart where
  id := 7
  orderType := .takeout
  lines := [line.toCartLine, halfPrice.toCartLine]
  orderDiscount := none
  scPwd := none

def sameId : SaleDraftDto :=
  { sale with
    lines := [line, halfPrice]
    totals := (computeTotals sameIdCart business.rates).toJson
    payment := { payment 7 with
      id := 1007
      amountC := 300
      tenderedC := 300
      amountC_nonneg := by decide
      amountC_le := by decide
      tenderedC_nonneg := by decide
      tenderedC_le := by decide
      changeC_nonneg := by decide
      changeC_le := by decide }
    receiptNo_length := sale.receiptNo_length
    lines_ne := by simp }

def sameIdSystem : System Unit :=
  System.start database fun _ => .completeSale terminal sameId 100

def oneAfterOther : List Unit :=
  List.replicate 20 ()

theorem sameIdSystem_facts
    : (sameIdSystem.turns oneAfterOther).map (fun c =>
          (c.history.any fun e => e.before.saleItems.length ≠ e.after.saleItems.length,
            (c.databases database).all fun d => (findBusiness terminal d).all fun b =>
              b.taxRate = 0 ∧ b.serviceChargeRate = 0))
        =
      some (true, true) := by
  decide +kernel

theorem sameId_applied
    : (lineTotals sameId.cart business.rates line.toCartLine).appliedC
        ≠ (lineTotals sameId.cart business.rates halfPrice.toCartLine).appliedC := by
  decide +kernel

end Cafe

/-- Half the price of the second line of a draft is lost if it has the id of the first. -/
theorem line_money_not_reported
    : ¬ ∀ (reqs : Unit → Request) (db : Database), db.Valid → ∀ c : System Unit,
        Run (.error .aborted) (System.start db reqs) c → ∀ e ∈ c.history, ∀ ctx dto now,
          reqs e.client = .completeSale ctx dto now →
            e.after = e.before
              ∨ ∃ rates costs data,
                  Recorded (· ∈ c.databases db) ctx dto now rates costs data e.before e.after
                  ∧ LinesReported ctx dto rates costs data := by
  intro hall
  have hfacts := Cafe.sameIdSystem_facts
  rw [Option.map_eq_some_iff] at hfacts
  obtain ⟨c, hturns, hfacts⟩ := hfacts
  rw [Prod.mk.injEq] at hfacts
  obtain ⟨hposts, hrates⟩ := hfacts
  simp only [List.any_eq_true, decide_eq_true_eq] at hposts
  obtain ⟨e, he, hlengths⟩ := hposts
  have hrun : Run (.error .aborted) Cafe.sameIdSystem c := Config.run_of_turns _ _ hturns
  cases hall _ _ Cafe.database_valid c hrun e he Cafe.terminal Cafe.sameId 100 rfl with
  | inl hsame =>
    rw [hsame] at hlengths
    exact hlengths rfl
  | inr hposted =>
    obtain ⟨rates, costs, data, hrecorded, hreported⟩ := hposted
    obtain ⟨d, b, hd, hbusiness, hb⟩ := hrecorded.business
    have hzero := List.all_eq_true.mp hrates d hd
    rw [hbusiness] at hzero
    simp only [Option.all_some, decide_eq_true_eq] at hzero
    have heq : rates = Cafe.business.rates := by
      rw [← hb]
      unfold Business.rates
      rw [hzero.1, hzero.2]
      rfl
    have hdiscounts : ownsDiscounts Cafe.terminal Cafe.sameId Cafe.database := by
      decide
    have hagree := (hrecorded.linesReported_iff ⟨_, hdiscounts⟩).mp hreported
    rw [heq] at hagree
    exact Cafe.sameId_applied (hagree.discount Cafe.halfPrice
      (List.mem_cons_of_mem _ List.mem_cons_self) Cafe.line rfl).1

theorem Cafe.exactRace_level
    : (Cafe.race.turns Cafe.schedule).map (·.db.level ⟨20, 50, none⟩) = some 3000 := by
  decide +kernel

theorem line_money_reported_cafe
    : ∃ c, Cafe.race.turns Cafe.schedule = some c
        ∧ ∀ e ∈ c.history, e.after = e.before
          ∨ ∃ rates costs data,
              Recorded (· ∈ c.databases Cafe.database) Cafe.terminal Cafe.sale 100 rates costs data
                e.before e.after
              ∧ LinesReported Cafe.terminal Cafe.sale rates costs data := by
  have hlevel := Cafe.exactRace_level
  rw [Option.map_eq_some_iff] at hlevel
  obtain ⟨c, hturns, _⟩ := hlevel
  have hrun : Run (.error .aborted) Cafe.race c := Config.run_of_turns _ _ hturns
  refine ⟨c, hturns, ?_⟩
  intro e he
  cases line_money_reported Cafe.database_valid hrun he rfl with
  | inl hsame => exact .inl hsame
  | inr hposted =>
    obtain ⟨rates, costs, data, hrecorded, hiff⟩ := hposted
    have hids : (Cafe.sale.lines.map (·.id)).Nodup := by
      decide
    exact .inr ⟨rates, costs, data, hrecorded, hiff.mpr (.of_nodup hids rates costs)⟩

end SentryPos
