import SentryPos.Pos.LineMoney

/-!
This module contains what a stored sale refers to, and when that is all of the terminal's own
business.
-/

namespace SentryPos

open ReadCommitted

variable {ctx : TerminalContext} {dto : SaleDraftDto} {now : DateTime} {db db' : Database}

def OwnDiscount (ctx : TerminalContext) (db : Database) (id : Uuid) : Prop :=
  ∃ d ∈ db.discounts, d.id = id ∧ d.businessId = ctx.businessId ∧ d.deletedAt = none

def OwnProduct (ctx : TerminalContext) (db : Database) (productId variantId : Option Uuid) : Prop :=
  match productId with
  | none => variantId = none
  | some productId =>
    (ownProduct ctx db productId).isSome
      ∧ ∀ id, variantId = some id → ∃ v ∈ db.productVariants,
        v.id = id ∧ v.productId = productId ∧ v.deletedAt = none

/-- What the rows of a sale refer to. Its products are looked up in a database of their own. -/
structure OwnReferences (states : Database → Prop) (ctx : TerminalContext)
    (products discounts : Database) (data : SaleData) : Prop where
  products : ∀ item ∈ data.items, OwnProduct ctx products item.productId item.variantId
  lines : ∀ item ∈ data.items, ∀ id, item.discountId = some id → OwnDiscount ctx discounts id
  order : ∀ id, data.sale.discountId = some id → OwnDiscount ctx discounts id
  shift : ∃ d s, states d ∧ findOpenShift ctx d = some s ∧ data.sale.shiftId = some s.id

def NotForeign (ctx : TerminalContext) (db : Database) (id : Uuid) : Prop :=
  ∀ d ∈ db.discounts, d.id = id → d.businessId = ctx.businessId

/--
A line without a product has no variant either, and neither the named discount of the order nor one
that a line takes is of another business.
-/
structure OwnDraft (ctx : TerminalContext) (dto : SaleDraftDto) (rates : Rates) (db : Database)
    : Prop where
  variants : ∀ line ∈ dto.lines, line.productId = none → line.variantId = none
  lines : ∀ line ∈ dto.lines, ∀ first, dto.lines.find? (·.id = line.id) = some first →
    (lineTotals dto.cart rates first.toCartLine).applied = some .promo →
      ∀ id, namedDiscountId line.discount = some id → NotForeign ctx db id
  order : ∀ id, namedDiscountId dto.orderDiscount = some id → NotForeign ctx db id

theorem discounts_replay (log : List Write) (db : Database)
    : (replay log db).discounts = db.discounts := by
  apply replay_induction (P := fun db' : Database => db'.discounts = db.discounts) rfl
  intro w _ db' hdb'
  rw [← hdb']
  cases w <;> rfl

theorem businesses_replay (log : List Write) (db : Database)
    : (replay log db).businesses = db.businesses := by
  apply replay_induction (P := fun db' : Database => db'.businesses = db.businesses) rfl
  intro w _ db' hdb'
  rw [← hdb']
  cases w <;> rfl

theorem validateLine_own {line : CartLineDto} {ids : List Uuid} {costs : List (Uuid × Option ℤ)}
    (hmem : ∀ productId, line.productId = some productId → productId ∈ ids)
    (h : validateLine (findProducts ctx.request ctx.businessId ids db) line = .ok costs)
    : OwnProduct ctx db line.productId line.variantId
        ↔ (line.productId = none → line.variantId = none) := by
  unfold validateLine at h
  unfold OwnProduct
  cases hid : line.productId with
  | none => simp
  | some productId =>
    rw [hid] at h
    dsimp only at h
    rw [find?_findProducts (hmem productId hid)] at h
    cases hproduct : ownProduct ctx db productId with
    | none =>
      rw [hproduct] at h
      cases h
    | some product =>
      have hproductId : product.id = productId := by
        unfold ownProduct at hproduct
        have hfound := List.find?_some hproduct
        simp only [Bool.and_eq_true, decide_eq_true_eq] at hfound
        exact hfound.1.1.1
      rw [hproduct] at h
      dsimp only [Option.map_some] at h
      simp only [hproduct, Option.isSome_some, true_and, reduceCtorEq, false_implies, iff_true]
      intro variantId hvariant
      rw [hvariant] at h
      split at h
      . rw [Option.bind_some] at h
        split at h
        . cases h
        . next v hfound =>
          have hv := List.mem_of_find?_eq_some hfound
          have hvId := List.find?_some hfound
          rw [List.mem_filter] at hv
          simp only [Bool.and_eq_true, decide_eq_true_eq, Option.isNone_iff_eq_none] at hv hvId
          exact ⟨v, hv.1, hvId, hv.2.1.trans hproductId, hv.2.2⟩
      . cases h

/-- A discount that passes is one of the business unless it is one of another business. -/
theorem ownDiscount_iff (hids : (db.discounts.map (·.id)).Nodup) (hdiscounts : ownsDiscounts ctx dto db)
    {id : Uuid} (hmem : some id ∈ namedIds dto) : OwnDiscount ctx db id ↔ NotForeign ctx db id := by
  constructor
  . intro ⟨d, hd, hid, hbusiness, _⟩ d' hd' hid'
    rw [List.inj_on_of_nodup_map hids hd' hd (hid'.trans hid.symm)]
    exact hbusiness
  . intro hown
    unfold ownsDiscounts at hdiscounts
    have hfound := List.all_eq_true.mp hdiscounts (some id) hmem
    simp only [List.any_eq_true, Bool.and_eq_true, decide_eq_true_eq, Option.some.injEq,
      Option.isNone_iff_eq_none] at hfound
    obtain ⟨d, hd, ⟨hid, _⟩, hlive⟩ := hfound
    exact ⟨d, hd, hid, hown d hd hid, hlive⟩

theorem mem_namedIds {spec : Option DiscountSpec}
    (hspec : spec ∈ dto.orderDiscount :: dto.lines.map (·.discount)) {id : Uuid}
    (hid : namedDiscountId spec = some id) : some id ∈ namedIds dto := by
  unfold namedDiscountId at hid
  obtain ⟨d, hd, hdId⟩ := Option.bind_eq_some_iff.mp hid
  unfold namedIds
  rw [List.mem_map]
  refine ⟨d, ?_, hdId⟩
  rw [List.mem_filterMap]
  exact ⟨spec, hspec, hd⟩

theorem item_own {rates : Rates} {costByLine : List (Uuid × Option ℤ)} {line first : CartLineDto}
    {item : SaleItem} (hfirst : dto.lines.find? (·.id = line.id) = some first)
    (h : buildItem dto (computeTotals dto.cart rates) costByLine line = .ok item)
    : item.productId = line.productId ∧ item.variantId = line.variantId
        ∧ item.discountId = if (lineTotals dto.cart rates first.toCartLine).applied = some .promo
          then namedDiscountId line.discount else none := by
  have hdiscount := (buildItem_eq hfirst h).2.1
  refine ⟨?_, ?_, hdiscount⟩
  all_goals
    unfold buildItem at h
    rw [Checks.bind_eq_ok] at h
    obtain ⟨_, _, h⟩ := h
    cases h
    rfl

theorem ownReferences_iff {states : Database → Prop} {rates : Rates} {products : Database}
    {costByLine : List (Uuid × Option ℤ)} {data : SaleData}
    (hids : (db.discounts.map (·.id)).Nodup) (hdiscounts : ownsDiscounts ctx dto db)
    (hcosts : costsOfLines ctx dto.lines products = .ok costByLine)
    (hdata : buildSaleData dto (computeTotals dto.cart rates) costByLine ctx.branchId ctx.terminalId
      now = .ok data)
    (hshift : ∃ d s, states d ∧ findOpenShift ctx d = some s ∧ s.id = dto.shiftId)
    : OwnReferences states ctx products db data ↔ OwnDraft ctx dto rates db := by
  have hbuilt := buildSaleData_ok hdata
  have hitems := Checks.mapM_eq_ok hbuilt.items
  have horder : ∀ id, namedDiscountId dto.orderDiscount = some id →
      (OwnDiscount ctx db id ↔ NotForeign ctx db id) := by
    intro id hid
    exact ownDiscount_iff hids hdiscounts (mem_namedIds List.mem_cons_self hid)
  have hline : ∀ line ∈ dto.lines, ∀ id, namedDiscountId line.discount = some id →
      (OwnDiscount ctx db id ↔ NotForeign ctx db id) := by
    intro line hline id hid
    exact ownDiscount_iff hids hdiscounts
      (mem_namedIds (List.mem_cons_of_mem _ (List.mem_map_of_mem hline)) hid)
  have hproduct : ∀ line ∈ dto.lines, OwnProduct ctx products line.productId line.variantId
      ↔ (line.productId = none → line.variantId = none) := by
    intro line hline
    unfold costsOfLines at hcosts
    simp only [Checks.bind_eq_ok] at hcosts
    obtain ⟨costs, hcosts, _⟩ := hcosts
    obtain ⟨cs, _, hcs⟩ := Checks.exists_of_mem_left (Checks.mapM_eq_ok hcosts) hline
    apply validateLine_own _ hcs
    intro productId hid
    unfold productIds
    rw [List.mem_dedup, List.mem_filterMap]
    exact ⟨line, hline, hid⟩
  constructor
  . intro h
    constructor
    . intro line hmem hnone
      obtain ⟨item, hitem, hbuild⟩ := Checks.exists_of_mem_left hitems hmem
      obtain ⟨first, hfirst⟩ := exists_first hmem
      obtain ⟨hproductId, hvariantId, _⟩ := item_own hfirst hbuild
      have hown := h.products item hitem
      rw [hproductId, hvariantId] at hown
      exact (hproduct line hmem).mp hown hnone
    . intro line hmem first hfirst happlied id hid
      obtain ⟨item, hitem, hbuild⟩ := Checks.exists_of_mem_left hitems hmem
      obtain ⟨_, _, hdiscountId⟩ := item_own hfirst hbuild
      rw [if_pos happlied, hid] at hdiscountId
      exact (hline line hmem id hid).mp (h.lines item hitem id hdiscountId)
    . intro id hid
      apply (horder id hid).mp
      apply h.order
      rw [hbuilt.discountId, hid]
  . intro h
    constructor
    . intro item hitem
      obtain ⟨line, hmem, hbuild⟩ := Checks.exists_of_mem_right hitems hitem
      obtain ⟨first, hfirst⟩ := exists_first hmem
      obtain ⟨hproductId, hvariantId, _⟩ := item_own hfirst hbuild
      rw [hproductId, hvariantId]
      exact (hproduct line hmem).mpr (h.variants line hmem)
    . intro item hitem id hid
      obtain ⟨line, hmem, hbuild⟩ := Checks.exists_of_mem_right hitems hitem
      obtain ⟨first, hfirst⟩ := exists_first hmem
      obtain ⟨_, _, hdiscountId⟩ := item_own hfirst hbuild
      rw [hid] at hdiscountId
      split at hdiscountId
      . next happlied =>
        exact (hline line hmem id hdiscountId.symm).mpr
          (h.lines line hmem first hfirst happlied id hdiscountId.symm)
      . cases hdiscountId
    . intro id hid
      rw [hbuilt.discountId] at hid
      exact (horder id hid).mpr (h.order id hid)
    . obtain ⟨d, s, hd, hopen, hid⟩ := hshift
      refine ⟨d, s, hd, hopen, ?_⟩
      rw [hbuilt.shiftId, hid]

section Run

variable {ι : Type} [DecidableEq ι] {reqs : ι → Request} {c : System ι}

theorem unchanged_databases (hdb : db.Valid) (hrun : Run (.error .aborted) (System.start db reqs) c)
    : ∀ d ∈ c.databases db, d.discounts = db.discounts ∧ d.businesses = db.businesses := by
  have hok := (keeps_databases reqs db c).ok hdb List.mem_cons_self hrun.within
  have hchain : Chain db c.history c.db := hrun.chain
  apply hchain.of_first (r := fun d d' => d'.discounts = d.discounts ∧ d'.businesses = d.businesses)
  . intro _
    exact ⟨rfl, rfl⟩
  . intro _ _ _ h h'
    exact ⟨h'.1.trans h.1, h'.2.trans h.2⟩
  . intro e he
    obtain ⟨log, _, _, _, hafter⟩ := (hok.events e he).commit
    rw [hafter]
    exact ⟨discounts_replay log _, businesses_replay log _⟩

theorem Posted.references {states : Database → Prop}
    {keeps : Option Stmt → Database → Database → Prop}
    {assume : Stmt → List Write → Database → Prop} {totals : CartTotals}
    {costByLine : List (Uuid × Option ℤ)} {p : Posting} (hids : (db.discounts.map (·.id)).Nodup)
    (hsame : ∀ d, states d → d.discounts = db.discounts ∧ d.businesses = db.businesses)
    {before after : Database}
    (haccepted : Accepted (Env.ofRun states keeps assume) ctx dto totals costByLine before)
    (hposted : Posted ctx dto totals costByLine now p before after)
    : ∃ rates products, Recorded states ctx dto now rates products p.data before after
        ∧ (OwnReferences states ctx products db p.data ↔ OwnDraft ctx dto rates db) := by
  obtain ⟨d1, hd1, ⟨b, hbusiness, htotals⟩, _⟩ := haccepted.business
  obtain ⟨d2, hd2, hcosts, _⟩ := haccepted.costs
  obtain ⟨d3, hd3, hdiscounts, _⟩ := haccepted.discounts
  obtain ⟨d4, hd4, ⟨s, hopen, hid⟩, _⟩ := haccepted.shift
  have hdata := hposted.data
  rw [htotals] at hdata
  have howned : ownsDiscounts ctx dto db := by
    obtain ⟨hsameDiscounts, hsameBusinesses⟩ := hsame d3 hd3.2
    unfold ownsDiscounts RequestContext.ownsBusiness RequestContext.allowedBusinessIds at hdiscounts ⊢
    rw [← hsameDiscounts, ← hsameBusinesses]
    exact hdiscounts
  refine ⟨b.rates, d2, ?_, ownReferences_iff hids howned hcosts hdata ⟨d4, s, hd4.2, hopen, hid⟩⟩
  exact ⟨⟨d1, b, hd1.2, hbusiness, rfl⟩, hd2.2, ⟨costByLine, hcosts, hdata⟩, hposted.sales,
    hposted.saleItems⟩

/--
Whatever a call of a run posts refers to the terminal's own business and what was live of it if and
only if the draft names no discount of another business and no variant without a product.
-/
theorem references_own (hdb : db.Valid) (hids : (db.discounts.map (·.id)).Nodup)
    (hrun : Run (.error .aborted) (System.start db reqs) c) {e : Event ι Database}
    (he : e ∈ c.history) (hreq : reqs e.client = .completeSale ctx dto now)
    : e.after = e.before
        ∨ ∃ rates products data,
            Recorded (· ∈ c.databases db) ctx dto now rates products data e.before e.after
            ∧ (OwnReferences (· ∈ c.databases db) ctx products db data ↔ OwnDraft ctx dto rates db) := by
  have hok := (keeps_databases reqs db c).ok hdb List.mem_cons_self hrun.within
  have hsame := unchanged_databases hdb hrun
  have hevent := hok.events e he
  rw [hreq] at hevent
  obtain ⟨log, _, _, hcommit, hafter⟩ := hevent.commit
  cases hcommit with
  | found => exact .inl hafter
  | posted haccepted hposted =>
    rw [← hafter] at hposted
    obtain ⟨rates, products, hboth⟩ := hposted.references hids hsame haccepted
    exact .inr ⟨rates, products, _, hboth⟩

end Run

namespace Cafe

def foreignDiscount : DiscountSpec where
  source := some "named"
  discountId := some 70
  kind := some "percent"
  value := 50

def twoBusinesses : Database :=
  { database with
    businesses := [business, { business with id := 11 }]
    discounts := [⟨70, 11, none⟩] }

def discounted : SaleDraftDto :=
  { sale with
    orderDiscount := some foreignDiscount
    totals := (computeTotals { cart 7 with orderDiscount := some foreignDiscount } business.rates).toJson
    payment := { payment 7 with
      id := 1007
      amountC := 100
      tenderedC := 100
      amountC_nonneg := cupC_nonneg
      amountC_le := cupC_le
      tenderedC_nonneg := cupC_nonneg
      tenderedC_le := cupC_le
      changeC_nonneg := zeroC_nonneg
      changeC_le := zeroC_le }
    receiptNo_length := sale.receiptNo_length
    lines_ne := sale.lines_ne }

theorem twoBusinesses_valid : twoBusinesses.Valid where
  unique := by
    unfold UniqueIndex.Unique
    decide
  stock := nonNegative_stock? (by decide)

def discountedSystem : System Unit :=
  System.start twoBusinesses fun _ => .completeSale terminal discounted 100

theorem discountedSystem_facts
    : (discountedSystem.turns (List.replicate 18 ())).map (fun c =>
          c.history.any fun e => e.before.sales.length ≠ e.after.sales.length)
        =
      some true := by
  decide +kernel

end Cafe

/-- The discount of another business of the owner passes. -/
theorem references_foreign
    : ¬ ∀ (reqs : Unit → Request) (db : Database), db.Valid → (db.discounts.map (·.id)).Nodup →
        ∀ c : System Unit, Run (.error .aborted) (System.start db reqs) c →
          ∀ e ∈ c.history, ∀ ctx dto now, reqs e.client = .completeSale ctx dto now →
            e.after = e.before
              ∨ ∃ rates products data,
                  Recorded (· ∈ c.databases db) ctx dto now rates products data e.before e.after
                  ∧ OwnReferences (· ∈ c.databases db) ctx products db data := by
  intro hall
  have hfacts := Cafe.discountedSystem_facts
  rw [Option.map_eq_some_iff] at hfacts
  obtain ⟨c, hturns, hposts⟩ := hfacts
  simp only [List.any_eq_true, decide_eq_true_eq] at hposts
  obtain ⟨e, he, hlengths⟩ := hposts
  have hrun : Run (.error .aborted) Cafe.discountedSystem c := Config.run_of_turns _ _ hturns
  have hids : (Cafe.twoBusinesses.discounts.map (·.id)).Nodup := by
    decide
  cases hall _ _ Cafe.twoBusinesses_valid hids c hrun e he Cafe.terminal Cafe.discounted 100 rfl with
  | inl hsame =>
    rw [hsame] at hlengths
    exact hlengths rfl
  | inr hposted =>
    obtain ⟨rates, products, data, hrecorded, hown⟩ := hposted
    obtain ⟨costByLine, _, hdata⟩ := hrecorded.built
    have hnamed : data.sale.discountId = some 70 := (buildSaleData_ok hdata).discountId
    obtain ⟨d, hd, hid, hbusiness, _⟩ := hown.order 70 hnamed
    have hforeign : ∀ d ∈ Cafe.twoBusinesses.discounts, d.businessId ≠ Cafe.terminal.businessId := by
      decide
    exact hforeign d hd hbusiness

theorem references_own_cafe
    : ∃ c, Cafe.race.turns Cafe.schedule = some c
        ∧ ∀ e ∈ c.history, e.after = e.before
          ∨ ∃ rates products data,
              Recorded (· ∈ c.databases Cafe.database) Cafe.terminal Cafe.sale 100 rates products data
                e.before e.after
              ∧ OwnReferences (· ∈ c.databases Cafe.database) Cafe.terminal products Cafe.database
                data := by
  have hlevel := Cafe.race_level
  rw [Option.map_eq_some_iff] at hlevel
  obtain ⟨c, hturns, _⟩ := hlevel
  have hrun : Run (.error .aborted) Cafe.race c := Config.run_of_turns _ _ hturns
  refine ⟨c, hturns, ?_⟩
  intro e he
  have hids : (Cafe.database.discounts.map (·.id)).Nodup := by
    decide
  cases references_own Cafe.database_valid hids hrun he rfl with
  | inl hsame => exact .inl hsame
  | inr hposted =>
    obtain ⟨rates, products, data, hrecorded, hiff⟩ := hposted
    have hdraft : OwnDraft Cafe.terminal Cafe.sale rates Cafe.database := by
      constructor
      . intro line hline hnone
        have hvariants : ∀ line ∈ Cafe.sale.lines, line.productId = none → line.variantId = none := by
          decide
        exact hvariants line hline hnone
      . intro _ _ _ _ _ _ _ d hd
        cases hd
      . intro _ _ d hd
        cases hd
    exact .inr ⟨rates, products, data, hrecorded, hiff.mpr hdraft⟩

end SentryPos
