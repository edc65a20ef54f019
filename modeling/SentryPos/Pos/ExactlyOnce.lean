import SentryPos.Pos.Effects
import SentryPos.Pos.System

/-!
This module contains the proof that a draft is posted at most once, by however many calls and in
whatever order they run.
-/

namespace SentryPos

open ReadCommitted

variable {ι : Type} [DecidableEq ι] {ctx : TerminalContext} {dto : SaleDraftDto} {now : DateTime}
  {db db' : Database}

structure ItemOf (dto : SaleDraftDto) (line : CartLineDto) (item : SaleItem) : Prop where
  saleId : item.saleId = dto.id
  productId : item.productId = line.productId
  variantId : item.variantId = line.variantId
  qty : item.qty = line.qty
  unitPrice : item.unitPrice = line.unitPriceC
  modifiers : item.modifiers = line.modifiers

/-- One posting of a draft on top of a database: the sale, an item for each line and the payment. -/
structure PostedOnce (ctx : TerminalContext) (dto : SaleDraftDto) (now : DateTime)
    (db db' : Database) (data : SaleData) : Prop where
  built : ∃ totals costByLine,
    buildSaleData dto totals costByLine ctx.branchId ctx.terminalId now = .ok data
  sale : data.sale.id = dto.id ∧ data.sale.draft = dto ∧ data.sale.status = .completed
    ∧ data.sale.branchId = ctx.branchId ∧ data.sale.terminalId = ctx.terminalId
  items : List.Forall₂ (ItemOf dto) dto.lines data.items
  payment : data.payment.id = dto.payment.id ∧ data.payment.saleId = dto.id
    ∧ data.payment.method = dto.payment.method
  sales : db'.sales = db.sales ++ [data.sale]
  saleItems : db'.saleItems = db.saleItems ++ data.items
  salePayments : db'.salePayments = db.salePayments ++ [data.payment]
  stockMovements : db'.stockMovements
    = db.stockMovements ++ (trackedLines dto.lines).map (saleMovement ctx.branchId dto.id)
  level : ∀ key, db'.level key = db.level key - dto.taken ctx.branchId key

theorem itemOf_of_buildItem {totals : CartTotals} {costByLine : List (Uuid × Option ℤ)}
    {line : CartLineDto} {item : SaleItem} (h : buildItem dto totals costByLine line = .ok item)
    : ItemOf dto line item := by
  unfold buildItem at h
  simp only [Checks.bind_eq_ok] at h
  obtain ⟨discount, _, h⟩ := h
  cases h
  exact ⟨rfl, rfl, rfl, rfl, rfl, rfl⟩

theorem Posted.once {totals : CartTotals} {costByLine : List (Uuid × Option ℤ)} {p : Posting}
    (h : Posted ctx dto totals costByLine now p db db') : PostedOnce ctx dto now db db' p.data where
  built := ⟨totals, costByLine, h.data⟩
  sale := by
    have hbuilt := buildSaleData_ok h.data
    exact ⟨hbuilt.id, hbuilt.draft, hbuilt.status, hbuilt.branchId, hbuilt.terminalId⟩
  items := by
    have hitems := Checks.mapM_eq_ok (buildSaleData_ok h.data).items
    exact hitems.imp fun _ _ => itemOf_of_buildItem
  payment := by
    have hbuilt := buildSaleData_ok h.data
    exact ⟨hbuilt.paymentId, hbuilt.paymentSaleId, hbuilt.paymentMethod⟩
  sales := h.sales
  saleItems := h.saleItems
  salePayments := h.salePayments
  stockMovements := h.stockMovements
  level := h.level

theorem sale?_completeSale {l : Env Database Write Key Stmt} {log : List Write}
    (h : Request.Commit l (.completeSale ctx dto now) log db) {id : Uuid} {s : Sale}
    (hs : db.sale? id = some s) : (replay log db).sale? id = some s := by
  apply replay_induction (P := fun db : Database => db.sale? id = some s) hs
  intro w hw db' hdb'
  apply w.sale?_frozen hdb'
  cases h with
  | found => cases hw
  | posted => rw [Posting.not_reversed hw]; simp

theorem keeps_sales (ctx : TerminalContext) (dto : SaleDraftDto) (now : ι → DateTime)
    : Keeps (fun _ _ _ => True) (fun i => .completeSale ctx dto (now i)) (fun _ => True)
        (fun _ _ db db' => ∀ id s, db.sale? id = some s → db'.sale? id = some s) fun _ _ _ => True where
  refl := by
    intro _ _ _ id s hs
    exact hs
  trans := by
    intro _ _ _ _ _ h h' id s hs
    exact h' id s (h id s hs)
  promised := by simp
  state := by simp
  commit := by
    intro c i tag next _ _ _ _ hcommit j _ id s hs
    exact sale?_completeSale hcommit hs

def OncePosted (ctx : TerminalContext) (dto : SaleDraftDto) (now : ι → DateTime)
    (db db' : Database) : Prop :=
  db' = db ∨ ∃ i data, PostedOnce ctx dto (now i) db db' data ∧ db'.sale? dto.id = some data.sale

omit [DecidableEq ι] in
theorem oncePosted_event {now : ι → DateTime} {l : Env Database Write Key Stmt} {i : ι}
    {db0 : Database} (h : OncePosted ctx dto now db0 db)
    (hevent : (Request.completeSale ctx dto (now i)).Event l db db')
    : OncePosted ctx dto now db0 db' := by
  obtain ⟨log, _, _, hcommit, hafter⟩ := hevent.commit
  cases hcommit with
  | found =>
    rw [hafter]
    exact h
  | posted _ hposted =>
    rw [← hafter] at hposted
    cases h with
    | inl h =>
      rw [h] at hposted
      exact .inr ⟨i, _, hposted.once, hposted.sale?⟩
    | inr h =>
      -- The id of a posted sale is new, and the sale of the first posting is still there.
      obtain ⟨_, _, _, hs⟩ := h
      rw [hposted.fresh] at hs
      cases hs

theorem SaleResult.stored {states : Database → Prop}
    {keeps : Option Stmt → Database → Database → Prop}
    {assume : Stmt → List Write → Database → Prop} {r : SaleResponse}
    {commits : List (Database × Database)}
    (h : SaleResult (Env.ofRun states keeps assume) ctx dto now r commits db)
    (hkeeps : ∀ tag db db', keeps tag db db' →
      ∀ id s, db.sale? id = some s → db'.sale? id = some s)
    : ∃ s, db.sale? dto.id = some s ∧ r.sale = assemble s := by
  have hpast
      : ∀ {db db'}, (Env.ofRun states keeps assume).Past db db' → ∀ s, db.sale? dto.id = some s →
          db'.sale? dto.id = some s := by
    intro db db' hpast
    induction hpast with
    | refl => exact fun _ hs => hs
    | tail _ hstep ih =>
      obtain ⟨tag, _, hrely⟩ := hstep
      intro s hs
      exact hkeeps tag _ _ hrely.2 _ s (ih s hs)
  cases h with
  | existing s hfind =>
    obtain ⟨db0, hdb0, hs, hdb⟩ := hfind
    unfold findSale at hs
    have hmem := List.mem_of_find?_eq_some hs
    have hfound := List.find?_some hs
    simp only [Bool.and_eq_true, decide_eq_true_eq] at hfound
    have hget : db0.sale? dto.id = some s := by
      rw [← hfound.1.1]
      exact Table.get_of_mem hdb0.1.sale_ids_nodup hmem
    exact ⟨s, hpast hdb s hget, rfl⟩
  | concurrent s hrecheck hseen =>
    obtain ⟨db0, _, hs, hbefore⟩ := hrecheck
    obtain ⟨db1, _, heq, hdb⟩ := hseen
    subst heq
    exact ⟨s, hpast hdb s (hpast hbefore s hs.1), rfl⟩
  | posted _ hposted hafter => exact ⟨_, hpast hafter _ hposted.sale?, rfl⟩

/--
Any number of calls that complete the same draft, interleaved in any way: at most one of them posts
it, all that return return the stored sale, and those that throw have committed nothing.
-/
theorem completeSale_posts_once (ctx : TerminalContext) (dto : SaleDraftDto) (now : ι → DateTime)
    {db : Database} (hdb : db.Valid) {c : System ι}
    (hrun : Run (.error .aborted)
      (System.start db fun i => .completeSale ctx dto (now i)) c)
    : (c.db.sales.filter fun s => s.id = dto.id).length ≤ 1
        ∧ (c.db = db ∨ ∃ i data, PostedOnce ctx dto (now i) db c.db data)
        ∧ (∀ i r, (c.procs i).prog.result? = some (.ok (.sale r)) →
            ∃ s, c.db.sale? dto.id = some s ∧ r.sale = assemble s)
        ∧ (∀ i e, (c.procs i).prog.result? = some (.error e) → c.commitsOf i = []) := by
  have hkeeps := keeps_sales ctx dto now
  have hok := hkeeps.ok hdb trivial hrun
  refine ⟨?_, ?_, ?_, ?_⟩
  . exact Table.length_filter_le hok.inv.1.sale_ids_nodup dto.id
  . have honce : OncePosted ctx dto now db c.db := by
      apply hrun.chain.keeps (P := OncePosted ctx dto now db)
      . intro e he h
        exact oncePosted_event h (hok.events e he)
      . exact .inl rfl
    cases honce with
    | inl h => exact .inl h
    | inr h =>
      obtain ⟨i, data, h, _⟩ := h
      exact .inr ⟨i, data, h⟩
  . intro i r hr
    have hpost := hkeeps.returned hdb trivial hrun hr
    exact SaleResult.stored hpost.outcome fun _ _ _ h => h
  . intro i e he
    exact (hkeeps.returned hdb trivial hrun he).failed e rfl

namespace Cafe

/-! A branch with one terminal, one product and an open shift. -/

def terminal : TerminalContext where
  ownerId := 1
  businessId := 10
  branchId := 20
  terminalId := 30
  terminalCode := some "T1"

def business : Business where
  id := 10
  ownerId := 1
  taxRate := 0
  serviceChargeRate := 0
  deletedAt := none

theorem zeroC_nonneg : (0 : ℤ) ≤ 0 := le_refl 0

theorem zeroC_le : (0 : ℤ) ≤ MAX_CENTAVOS := by decide

theorem cupC_nonneg : (0 : ℤ) ≤ 100 := by decide

theorem cupC_le : (100 : ℤ) ≤ MAX_CENTAVOS := by decide

theorem cupsC_nonneg : (0 : ℤ) ≤ 200 := by decide

theorem cupsC_le : (200 : ℤ) ≤ MAX_CENTAVOS := by decide

/-- Two cups at one peso each. -/
def line : CartLineDto where
  id := 1
  productId := some 50
  variantId := none
  name := "Coffee"
  soldBy := .unit
  qty := ⟨2000⟩
  unitPriceC := 100
  modifiers := []
  discount := none
  scPwdMarked := false
  trackStock := true
  qty_pos := by decide
  qty_le := by decide
  unitPriceC_nonneg := cupC_nonneg
  unitPriceC_le := cupC_le
  priceDeltaC_ge := by simp
  priceDeltaC_le := by simp

def cart (id : Uuid) : Cart where
  id
  orderType := .takeout
  lines := [line.toCartLine]
  orderDiscount := none
  scPwd := none

def payment (id : Uuid) : SalePaymentDto where
  id
  method := .cash
  referenceNo := none
  amountC := 200
  tenderedC := 200
  changeC := 0
  amountC_nonneg := cupsC_nonneg
  amountC_le := cupsC_le
  tenderedC_nonneg := cupsC_nonneg
  tenderedC_le := cupsC_le
  changeC_nonneg := zeroC_nonneg
  changeC_le := zeroC_le

def draft (id : Uuid) (receiptNo : String) (receiptNo_length : receiptNo.length ≤ 120)
    : SaleDraftDto where
  id
  receiptNo
  shiftId := 40
  orderType := .takeout
  lines := [line]
  orderDiscount := none
  scPwd := none
  totals := (computeTotals (cart id) business.rates).toJson
  payment := payment (id + 1000)
  createdAtDevice := ⟨"2026-01-01T00:00:00Z", some 0⟩
  receiptNo_length
  lines_ne := by simp

def sale : SaleDraftDto :=
  draft 7 "T1-000001" (by decide)

def shift : Shift where
  id := 40
  branchId := 20
  terminalId := 30
  openedAt := 0
  closedAt := none
  openingCash := 0
  closingCash := none
  expectedCash := none
  deletedAt := none

def database : Database where
  businesses := [business]
  branches := [⟨20, 10, "B1", none⟩, ⟨21, 10, "B2", none⟩]
  terminals := [⟨30, 20, 1⟩, ⟨31, 21, 1⟩]
  products := [⟨50, 10, some 40, false, none⟩]
  productVariants := []
  discounts := []
  users := []
  branchStock := [⟨⟨20, 50, none⟩, 60, 5000, none⟩]
  stockMovements := []
  shifts := [shift]
  shiftCashMovements := []
  sales := []
  saleItems := []
  salePayments := []

theorem database_valid : database.Valid where
  unique := by
    unfold UniqueIndex.Unique
    decide
  stock := nonNegative_stock? (by decide)

/-- Two calls check the draft before either posts it; the second waits for the stock row. -/
def schedule : List Bool :=
  List.replicate 4 true ++ List.replicate 4 false ++ List.replicate 13 true
    ++ List.replicate 3 false

def race [Rounding] : System Bool :=
  System.start database fun _ => .completeSale terminal sale 100

theorem race_level : (race.turns schedule).map (·.db.level ⟨20, 50, none⟩) = some 3000 := by
  decide +kernel

end Cafe

theorem completeSale_posts_once_cafe
    : ∃ c, Cafe.race.turns Cafe.schedule = some c
        ∧ c.db.level ⟨20, 50, none⟩ = 3000
        ∧ (c.db.sales.filter fun s => s.id = 7).length ≤ 1
        ∧ (c.db = Cafe.database ∨ ∃ data,
            PostedOnce Cafe.terminal Cafe.sale 100 Cafe.database c.db data) := by
  have hlevel := Cafe.race_level
  rw [Option.map_eq_some_iff] at hlevel
  obtain ⟨c, hturns, hlevel⟩ := hlevel
  have hrun : Run (.error .aborted) Cafe.race c := Config.run_of_turns _ _ hturns
  have honce := completeSale_posts_once Cafe.terminal Cafe.sale (fun _ => 100)
    Cafe.database_valid hrun
  refine ⟨c, hturns, hlevel, honce.1, ?_⟩
  cases honce.2.1 with
  | inl h => exact .inl h
  | inr h =>
    obtain ⟨_, data, h⟩ := h
    exact .inr ⟨data, h⟩

end SentryPos
