import SentryPos.Pos.Books
import SentryPos.Pos.LineMoney

/-!
This module contains that every sale is accounted for: its lines add up to its subtotal, its amounts
to its total, and its one payment is the total. Every request keeps the stored sales so.
-/

namespace SentryPos

open ReadCommitted

variable {l : Env Database Write Key Stmt} {req : Request} {db db' : Database}

def SaleItem.grossC (item : SaleItem) : ℤ :=
  sqlRound (item.qty.val * (item.unitPrice + item.modsC : ℤ))

def CartLineDto.grossC (line : CartLineDto) : ℤ :=
  sqlRound (line.qty.val * (line.unitPriceC + (line.modifiers.map (·.priceDeltaC)).sum : ℤ))

theorem SaleItem.netC_eq (item : SaleItem) : item.netC = item.grossC - item.discount := rfl

/-- The rows of a sale are of one account. -/
structure Database.Accounted (db : Database) : Prop where
  total : ∀ s ∈ db.sales, s.total = s.subtotal - s.discount - s.scPwdDiscount + s.serviceCharge
  paid : ∀ s ∈ db.sales, ∃ p, (withPayments db s).payments = [p] ∧ p.amount = s.total
  items : ∀ item ∈ db.saleItems, ∃ s ∈ db.sales, s.id = item.saleId
  payments : ∀ p ∈ db.salePayments, ∃ s ∈ db.sales, s.id = p.saleId

/-- The lines of a sale add up to its subtotal, and what they sell is in the catalog. -/
structure Database.Itemized (db : Database) : Prop where
  subtotal : ∀ s ∈ db.sales,
    ((db.saleItems.filter fun item => item.saleId = s.id).map (·.grossC)).sum = s.subtotal
  product : ∀ item ∈ db.saleItems, ∀ id, item.productId = some id → id ∈ db.products.map (·.id)

section Built

variable {dto : SaleDraftDto} {rates : Rates} {costByLine : List (Uuid × Option ℤ)}
  {branchId terminalId : Uuid} {data : SaleData}

namespace SaleData.BuiltFrom

variable [Rounding] (h : data.BuiltFrom dto (computeTotals dto.cart rates) costByLine branchId terminalId)

include h

theorem item_line
    : List.Forall₂ (fun line item => item.saleId = dto.id ∧ item.productId = line.productId
        ∧ item.grossC = line.grossC) dto.lines data.items := by
  rw [forall₂_iff (C := fun line => line ∈ dto.lines) (Checks.mapM_eq_ok h.items)]
  . exact fun _ hline => hline
  . intro line hline item hbuild
    refine ⟨fun _ => hline, fun _ => ?_⟩
    unfold buildItem at hbuild
    rw [Checks.bind_eq_ok] at hbuild
    obtain ⟨discount, _, hbuild⟩ := hbuild
    cases hbuild
    exact ⟨rfl, rfl, rfl⟩

theorem item_saleId {item : SaleItem} (hitem : item ∈ data.items)
    : item.saleId = dto.id := by
  obtain ⟨line, _, hline⟩ := Checks.exists_of_mem_right h.item_line hitem
  exact hline.1

theorem total_eq
    : data.sale.total
        =
      data.sale.subtotal - data.sale.discount - data.sale.scPwdDiscount + data.sale.serviceCharge
    := by
  have htotalC : (computeTotals dto.cart rates).totalC
      = (computeTotals dto.cart rates).subtotalC - (computeTotals dto.cart rates).promoDiscountC
        - (computeTotals dto.cart rates).scPwdDiscountC
        + (computeTotals dto.cart rates).serviceChargeC := rfl
  have hsubtotal := abs_le.mp (abs_le_of_intColumn h.subtotal)
  have hdiscount := abs_le.mp (abs_le_of_intColumn h.discount)
  have hscPwd := abs_le.mp (abs_le_of_intColumn h.scPwdDiscount)
  have hservice := abs_le.mp (abs_le_of_intColumn h.serviceCharge)
  -- Numbers of 32 bits are added without rounding.
  rw [intColumn_eq_ok h.total, intColumn_eq_ok h.subtotal, intColumn_eq_ok h.discount,
    intColumn_eq_ok h.scPwdDiscount, intColumn_eq_ok h.serviceCharge,
    JsNumber.int_sub (abs_le.mpr (by omega)), JsNumber.int_sub (abs_le.mpr (by omega)),
    JsNumber.int_add (abs_le.mpr (by omega)), JsNumber.fin.injEq] at htotalC
  exact_mod_cast htotalC

end SaleData.BuiltFrom

theorem payment_of_buildSaleData [Rounding] {now : DateTime}
    (h : buildSaleData dto (computeTotals dto.cart rates) costByLine branchId terminalId now
      = .ok data) : data.payment.amount = dto.payment.amountC := by
  unfold buildSaleData at h
  simp only [Checks.bind_eq_ok] at h
  obtain ⟨_, _, _, _, _, _, _, _, _, _, _, _, _, _, _, _, _, _, h⟩ := h
  cases h
  rfl

end Built

/-- The lines, the payments and what is written once of the sales are the same. -/
structure Database.KeepsPostings (db db' : Database) : Prop where
  items : db'.saleItems = db.saleItems
  payments : db'.salePayments = db.salePayments
  ids : db'.sales.map (·.id) = db.sales.map (·.id)
  sales : ∀ s' ∈ db'.sales, ∃ s ∈ db.sales, s'.posting = s.posting

structure Sale.SameAmounts (s s' : Sale) : Prop where
  id : s'.id = s.id
  subtotal : s'.subtotal = s.subtotal
  discount : s'.discount = s.discount
  scPwdDiscount : s'.scPwdDiscount = s.scPwdDiscount
  serviceCharge : s'.serviceCharge = s.serviceCharge
  total : s'.total = s.total

theorem Database.KeepsPostings.columns (h : db.KeepsPostings db') {s' : Sale} (hs' : s' ∈ db'.sales)
    : ∃ s ∈ db.sales, s.SameAmounts s' := by
  obtain ⟨s, hs, hposting⟩ := h.sales s' hs'
  have hall : (s'.posting.id, s'.posting.subtotal, s'.posting.discount, s'.posting.scPwdDiscount,
        s'.posting.serviceCharge, s'.posting.total)
      = (s.posting.id, s.posting.subtotal, s.posting.discount, s.posting.scPwdDiscount,
        s.posting.serviceCharge, s.posting.total) := by
    rw [hposting]
  simp only [Sale.posting, Prod.mk.injEq] at hall
  exact ⟨s, hs, hall.1, hall.2.1, hall.2.2.1, hall.2.2.2.1, hall.2.2.2.2.1, hall.2.2.2.2.2⟩

theorem Posted.ne_id [Rounding] {ctx : TerminalContext} {dto : SaleDraftDto} {totals : CartTotals}
    {costByLine : List (Uuid × Option ℤ)} {now : DateTime} {p : Posting}
    (h : Posted ctx dto totals costByLine now p db db') {s : Sale} (hs : s ∈ db.sales)
    : dto.id ≠ s.id := by
  intro hid
  have hget := Table.get_of_mem h.valid.sale_ids_nodup hs
  have hfresh := h.fresh
  unfold Database.sale? at hfresh
  rw [← hid, hfresh] at hget
  cases hget

namespace Database.Accounted

variable (h : db.Accounted)

include h

theorem posted [Rounding] {ctx : TerminalContext} {dto : SaleDraftDto} {totals : CartTotals}
    {costByLine : List (Uuid × Option ℤ)} {now : DateTime} {p : Posting}
    (haccepted : Accepted l ctx dto totals costByLine db)
    (hposted : Posted ctx dto totals costByLine now p db db') : db'.Accounted := by
  obtain ⟨_, _, ⟨b, _, htotals⟩, _⟩ := haccepted.business
  have hdata := hposted.data
  have hpayment := haccepted.payment
  rw [htotals] at hdata hpayment
  have hbuild := buildSaleData_ok hdata
  have hmem : ∀ s ∈ db'.sales, s ∈ db.sales ∨ s = p.data.sale := by
    intro s hs
    rw [hposted.sales, List.mem_append, List.mem_singleton] at hs
    exact hs
  constructor
  . intro s hs
    cases hmem s hs with
    | inl hs => exact h.total s hs
    | inr hs =>
      rw [hs]
      exact hbuild.total_eq
  . intro s hs
    cases hmem s hs with
    | inl hs =>
      rw [withPayments_append hposted.salePayments]
      . exact h.paid s hs
      . rw [hbuild.paymentSaleId]
        exact hposted.ne_id hs
    | inr hs =>
      refine ⟨p.data.payment, ?_, ?_⟩
      . have hnone : (db.salePayments.filter fun q => q.saleId = dto.id && q.deletedAt.isNone) = [] := by
          rw [List.filter_eq_nil_iff]
          intro q hq hboth
          simp only [Bool.and_eq_true, decide_eq_true_eq] at hboth
          obtain ⟨s', hs', hid⟩ := h.payments q hq
          exact hposted.ne_id hs' (by rw [hid, hboth.1])
        unfold withPayments
        dsimp only
        rw [hs, hbuild.id, hposted.salePayments, List.filter_append, hnone]
        simp [hbuild.paymentSaleId, hbuild.paymentDeletedAt]
      . rw [hs, payment_of_buildSaleData hdata]
        exact (intColumn_of_assertPayment hpayment hbuild.total).symm
  . intro item hitem
    rw [hposted.saleItems, List.mem_append] at hitem
    rw [hposted.sales]
    cases hitem with
    | inl hitem =>
      obtain ⟨s, hs, hid⟩ := h.items item hitem
      exact ⟨s, by simp [hs], hid⟩
    | inr hitem =>
      refine ⟨p.data.sale, by simp, ?_⟩
      rw [hbuild.item_saleId hitem, hbuild.id]
  . intro q hq
    rw [hposted.salePayments, List.mem_append, List.mem_singleton] at hq
    rw [hposted.sales]
    cases hq with
    | inl hq =>
      obtain ⟨s, hs, hid⟩ := h.payments q hq
      exact ⟨s, by simp [hs], hid⟩
    | inr hq =>
      refine ⟨p.data.sale, by simp, ?_⟩
      rw [hq, hbuild.id, hbuild.paymentSaleId]

theorem of_kept (hkept : db.KeepsPostings db') : db'.Accounted := by
  have hexists : ∀ id, (∃ s ∈ db.sales, s.id = id) → ∃ s ∈ db'.sales, s.id = id := by
    intro id hid
    rw [← List.mem_map, hkept.ids, List.mem_map]
    exact hid
  constructor
  . intro s' hs'
    obtain ⟨s, hs, hsame⟩ := hkept.columns hs'
    rw [hsame.subtotal, hsame.discount, hsame.scPwdDiscount, hsame.serviceCharge, hsame.total]
    exact h.total s hs
  . intro s' hs'
    obtain ⟨s, hs, hsame⟩ := hkept.columns hs'
    obtain ⟨p, hp, hamount⟩ := h.paid s hs
    refine ⟨p, ?_, by rw [hamount, hsame.total]⟩
    unfold withPayments at hp ⊢
    rw [hsame.id, hkept.payments]
    exact hp
  . intro item hitem
    rw [hkept.items] at hitem
    exact hexists _ (h.items item hitem)
  . intro p hp
    rw [hkept.payments] at hp
    exact hexists _ (h.payments p hp)

end Database.Accounted

theorem Request.Commit.kind_items [Rounding] {log : List Write} (h : req.Commit l log db)
    : (∃ ctx dto totals costByLine now p, req = .completeSale ctx dto now
          ∧ Accepted l ctx dto totals costByLine db
          ∧ Posted ctx dto totals costByLine now p db (replay log db))
        ∨ (replay log db).saleItems = db.saleItems := by
  have hside : ∀ w : Write, w.isSide → w.items = [] := by
    intro w hw
    cases w <;> simp_all [Write.isSide, Write.items]
  have hreversed : ∀ {id ctx type s w}, w.reversed? = some id → Reversed ctx id type s w log db →
      ∀ w ∈ log, w.items = [] := by
    intro id ctx type s w hw h w' hw'
    obtain ⟨restores, hlog, hbatch⟩ := h.log
    rw [hlog] at hw'
    cases List.mem_cons.mp hw' with
    | inl heq =>
      rw [heq]
      cases w <;> simp_all [Write.reversed?, Write.items]
    | inr hmem =>
      obtain ⟨m, _, ws, hws, hmem⟩ := hbatch.mem hmem
      exact hside w' (hws.side w' hmem)
  have hnone : (∀ w ∈ log, w.items = []) → (replay log db).saleItems = db.saleItems := by
    intro h
    rw [items_replay, List.append_right_eq_self, List.flatMap_eq_nil_iff]
    exact h
  cases h with
  | posted haccepted hposted => exact .inl ⟨_, _, _, _, _, _, rfl, haccepted, hposted⟩
  | found => exact .inr rfl
  | voided h =>
    obtain ⟨s, h, _⟩ := h.reversed
    exact .inr (hnone (hreversed rfl h))
  | refunded h =>
    obtain ⟨s, _, h, _⟩ := h.reversed
    exact .inr (hnone (hreversed rfl h))
  | pin h => exact .inr (hnone fun w hw => hside w (h.side w hw).1)
  | received h =>
    right
    apply hnone
    intro w hw
    obtain ⟨line, _, ws, hws, hmem⟩ := h.mem hw
    exact hside w (hws.side w hmem).1
  | adjusted h => exact .inr (hnone fun w hw => hside w (h.side w hw).1)
  | opened h =>
    right
    rw [h.log]
    rfl
  | cashMoved h =>
    obtain ⟨shift, hlog, _⟩ := h.moved
    right
    rw [hlog]
    rfl
  | closed h =>
    obtain ⟨_, _, _, _, _, _, _, _, _, _, _, hlog⟩ := h.closed
    right
    rw [hlog]
    rfl

theorem Request.Event.posted_or_kept [Rounding] (h : req.Event l db db')
    : (∃ ctx dto totals costByLine now p, req = .completeSale ctx dto now
          ∧ Accepted l ctx dto totals costByLine db
          ∧ Posted ctx dto totals costByLine now p db db')
        ∨ db.KeepsPostings db' := by
  obtain ⟨log, locks, hpending, hcommit, hafter⟩ := h.commit
  subst hafter
  cases hcommit.kind_items with
  | inl hposted => exact .inl hposted
  | inr hitems =>
    cases hcommit.kind with
    | posting hreq _ haccepted hposted => exact .inl ⟨_, _, _, _, _, _, hreq, haccepted, hposted⟩
    | @reversal id h =>
      obtain @⟨ctx, _, type, s, w, _, _, hw, _, hreversed⟩ := h
      have hsales := hreversed.sales
      refine .inr ⟨hitems, hreversed.salePayments hw, ?_, ?_⟩
      . rw [hsales]
        cases w with
        | voidSale | refundSale =>
          apply Table.map_modify
          intro r
          rfl
        | _ => simp [Write.reversed?] at hw
      . intro s' hs'
        rw [hsales] at hs'
        cases w with
        | voidSale | refundSale =>
          cases Table.mem_modify hs' with
          | inl hs' => exact ⟨s', hs'.2, rfl⟩
          | inr hs' =>
            obtain ⟨r, hr, _, heq⟩ := hs'
            rw [heq]
            exact ⟨r, hr, rfl⟩
        | _ => simp [Write.reversed?] at hw
    | unrelated h _ =>
      have hsales := sales_replay_unrelated h db
      refine .inr ⟨hitems, salePayments_replay_unrelated h db, ?_, ?_⟩
      . rw [hsales]
      . intro s hs
        rw [hsales] at hs
        exact ⟨s, hs, rfl⟩

theorem Request.Event.accounted [Rounding] (h : req.Event l db db') (hdb : db.Accounted)
    : db'.Accounted := by
  cases h.posted_or_kept with
  | inl hposted =>
    obtain ⟨_, _, _, _, _, _, _, haccepted, hposted⟩ := hposted
    exact hdb.posted haccepted hposted
  | inr hkept => exact hdb.of_kept hkept

theorem run_valid [Rounding] {ι : Type} [DecidableEq ι] {reqs : ι → Request} {c : System ι} (hdb : db.Valid)
    (hrun : ReadCommitted.Run (.error .aborted) (System.start db reqs) c) : c.db.Valid :=
  ((keeps_databases reqs db c).ok hdb List.mem_cons_self hrun.within).inv.1

theorem run_accounted [Rounding] {ι : Type} [DecidableEq ι] {reqs : ι → Request} {c : System ι}
    (hdb : db.Valid) (haccounted : db.Accounted)
    (hrun : ReadCommitted.Run (.error .aborted) (System.start db reqs) c) : c.db.Accounted :=
  (run_keeps hdb hrun (fun _ _ _ hevent hP => hevent.accounted hP) haccounted).1

section Itemized

/-- What the engine works out for the lines of a draft together is what they come to in SQL. -/
def SaleDraftDto.AddsUp [Rounding] (dto : SaleDraftDto) : Prop :=
  ∀ rates, (computeTotals dto.cart rates).subtotalC
    = (((dto.lines.map (·.grossC)).sum : ℤ) : JsNumber)

section Exact

-- Sums of any size are exact without rounding only.
attribute [local instance] JsNumber.exact

theorem SaleDraftDto.addsUp_exact (dto : SaleDraftDto) : dto.AddsUp := by
  intro rates
  have hlines : (computeTotals dto.cart rates).subtotalC
      = (dto.lines.map fun line => lineTotals dto.cart rates line.toCartLine).foldl
        (fun sum l => sum + l.grossC) 0 := by
    change ((dto.lines.map (·.toCartLine)).map (lineTotals dto.cart rates)).foldl _ 0 = _
    rw [List.map_map]
    rfl
  have hadd : ∀ line ∈ dto.lines, ∀ a : ℚ,
      JsNumber.fin a + (lineTotals dto.cart rates line.toCartLine).grossC
        = .fin (a + ((line.grossC : ℤ) : ℚ)) := by
    intro line _ a
    rw [grossC_eq, JsNumber.fin_add]
    rfl
  have hcast : ∀ xs : List ℤ, ((xs.sum : ℤ) : ℚ) = (xs.map fun n : ℤ => (n : ℚ)).sum :=
    map_list_sum (Int.castAddHom ℚ)
  rw [hlines, List.foldl_map, JsNumber.zero_eq, JsNumber.foldl_fin hadd, zero_add, hcast,
    List.map_map]
  rfl

end Exact

theorem product_ids_replay (log : List Write) (db : Database)
    : (replay log db).products.map (·.id) = db.products.map (·.id) := by
  apply replay_induction
    (P := fun db' : Database => db'.products.map (·.id) = db.products.map (·.id)) rfl
  intro w _ db' hdb'
  rw [← hdb']
  cases w with
  | setProductCost =>
    apply Table.map_modify
    intro r
    rfl
  | _ => rfl

theorem product_of_validateLine {ctx : TerminalContext} {ids : List Uuid} {line : CartLineDto}
    {costs : List (Uuid × Option ℤ)}
    (h : validateLine (findProducts ctx.request ctx.businessId ids db) line = .ok costs) {id : Uuid}
    (hid : line.productId = some id) : id ∈ db.products.map (·.id) := by
  unfold validateLine at h
  rw [hid] at h
  dsimp only at h
  split at h
  . cases h
  . next p hfound =>
    have hmem := List.mem_of_find?_eq_some hfound
    unfold findProducts at hmem
    obtain ⟨product, hproduct, heq⟩ := List.mem_map.mp hmem
    rw [List.mem_map]
    refine ⟨product, List.mem_of_mem_filter hproduct, ?_⟩
    have hsame := List.find?_some hfound
    rw [← heq] at hsame
    simpa using hsame

theorem product_of_costsOfLines {ctx : TerminalContext} {lines : List CartLineDto}
    {costs : List (Uuid × Option ℤ)} (h : costsOfLines ctx lines db = .ok costs)
    : ∀ line ∈ lines, ∀ id, line.productId = some id → id ∈ db.products.map (·.id) := by
  intro line hline id hid
  unfold costsOfLines at h
  rw [Checks.bind_eq_ok] at h
  obtain ⟨css, hcss, _⟩ := h
  obtain ⟨cs, _, hcs⟩ := Checks.exists_of_mem_left (Checks.mapM_eq_ok hcss) hline
  exact product_of_validateLine hcs hid

theorem product_ids_databases [Rounding] {ι : Type} [DecidableEq ι] {reqs : ι → Request} {c : System ι}
    (hdb : db.Valid) (hrun : ReadCommitted.Run (.error .aborted) (System.start db reqs) c)
    : ∀ d ∈ c.databases db, d.products.map (·.id) = db.products.map (·.id) := by
  have hchain : Chain db c.history c.db := hrun.chain
  apply hchain.of_first (r := fun d d' => d'.products.map (·.id) = d.products.map (·.id))
  . intro _
    rfl
  . intro _ _ _ h h'
    exact h'.trans h
  . intro e he
    obtain ⟨log, _, _, _, hafter⟩ := (run_events hdb hrun e he).commit
    rw [hafter]
    exact product_ids_replay log _

theorem SaleData.BuiltFrom.sum_gross [Rounding] {dto : SaleDraftDto} {rates : Rates}
    {costByLine : List (Uuid × Option ℤ)} {branchId terminalId : Uuid} {data : SaleData}
    (h : data.BuiltFrom dto (computeTotals dto.cart rates) costByLine branchId terminalId)
    (hadds : dto.AddsUp) : (data.items.map (·.grossC)).sum = data.sale.subtotal := by
  have hitems := h.item_line
  have hsubtotal := intColumn_eq_ok h.subtotal
  rw [hadds, JsNumber.fin.injEq, Int.cast_inj] at hsubtotal
  rw [← hsubtotal]
  generalize dto.lines = lines at hitems
  generalize data.items = items at hitems
  clear h hsubtotal
  induction hitems with
  | nil => rfl
  | cons hitem _ ih => rw [List.map_cons, List.sum_cons, List.map_cons, List.sum_cons, ih, hitem.2.2]

theorem Posted.itemized [Rounding] {states : Database → Prop} {keeps : Option Stmt → Database → Database → Prop}
    {assume : Stmt → List Write → Database → Prop} {ctx : TerminalContext} {dto : SaleDraftDto}
    {totals : CartTotals} {costByLine : List (Uuid × Option ℤ)} {now : DateTime} {p : Posting}
    (hsame : ∀ d, states d → d.products.map (·.id) = db'.products.map (·.id))
    (hadds : dto.AddsUp) (haccounted : db.Accounted) (h : db.Itemized)
    (haccepted : Accepted (Env.ofRun states keeps assume) ctx dto totals costByLine db)
    (hposted : Posted ctx dto totals costByLine now p db db') : db'.Itemized := by
  obtain ⟨_, _, ⟨b, _, htotals⟩, _⟩ := haccepted.business
  obtain ⟨d, hd, hcosts, _⟩ := haccepted.costs
  have hdata := hposted.data
  rw [htotals] at hdata
  have hbuild := buildSaleData_ok hdata
  have hcatalog : db'.products.map (·.id) = db.products.map (·.id) := by
    rw [hposted.after]
    exact product_ids_replay _ db
  constructor
  . intro s hs
    rw [hposted.saleItems, List.filter_append, List.map_append, List.sum_append]
    rw [hposted.sales, List.mem_append, List.mem_singleton] at hs
    cases hs with
    | inl hs =>
      have hnone : (p.data.items.filter fun item => item.saleId = s.id) = [] := by
        rw [List.filter_eq_nil_iff]
        intro item hitem hid
        rw [decide_eq_true_eq, hbuild.item_saleId hitem] at hid
        exact hposted.ne_id hs hid
      rw [hnone, h.subtotal s hs]
      simp
    | inr hs =>
      have hnone : (db.saleItems.filter fun item => item.saleId = dto.id) = [] := by
        rw [List.filter_eq_nil_iff]
        intro item hitem hid
        rw [decide_eq_true_eq] at hid
        obtain ⟨s', hs', heq⟩ := haccounted.items item hitem
        exact hposted.ne_id hs' (by rw [heq, hid])
      have hall : (p.data.items.filter fun item => item.saleId = dto.id) = p.data.items := by
        rw [List.filter_eq_self]
        intro item hitem
        simpa using hbuild.item_saleId hitem
      rw [hs, hbuild.id, hnone, hall, hbuild.sum_gross hadds]
      simp
  . intro item hitem id hid
    rw [hposted.saleItems, List.mem_append] at hitem
    cases hitem with
    | inl hitem =>
      rw [hcatalog]
      exact h.product item hitem id hid
    | inr hitem =>
      obtain ⟨line, hline, hrow⟩ := Checks.exists_of_mem_right hbuild.item_line hitem
      rw [← hsame d hd.2]
      exact product_of_costsOfLines hcosts line hline id (hrow.2.1.symm.trans hid)

theorem Database.Itemized.of_kept (h : db.Itemized) (hkept : db.KeepsPostings db')
    (hcatalog : db'.products.map (·.id) = db.products.map (·.id)) : db'.Itemized := by
  constructor
  . intro s' hs'
    obtain ⟨s, hs, hsame⟩ := hkept.columns hs'
    rw [hkept.items, hsame.id, hsame.subtotal]
    exact h.subtotal s hs
  . intro item hitem
    rw [hcatalog]
    rw [hkept.items] at hitem
    exact h.product item hitem

theorem run_itemized [Rounding] {ι : Type} [DecidableEq ι] {reqs : ι → Request} {c : System ι}
    (hdb : db.Valid) (haccounted : db.Accounted) (hitemized : db.Itemized)
    (hadds : ∀ i ctx dto now, reqs i = .completeSale ctx dto now → dto.AddsUp)
    (hrun : ReadCommitted.Run (.error .aborted) (System.start db reqs) c) : c.db.Itemized := by
  have hsame := product_ids_databases hdb hrun
  have hkeep := run_keeps (P := fun d => d.Accounted ∧ d.Itemized
    ∧ d.products.map (·.id) = db.products.map (·.id)) hdb hrun
  refine (hkeep ?_ ⟨haccounted, hitemized, rfl⟩).1.2.1
  intro i db1 db2 hevent ⟨haccounted, hitemized, hids⟩
  have hcatalog : db2.products.map (·.id) = db1.products.map (·.id) := by
    obtain ⟨log, _, _, _, hafter⟩ := hevent.commit
    rw [hafter]
    exact product_ids_replay log _
  refine ⟨hevent.accounted haccounted, ?_, hcatalog.trans hids⟩
  cases hevent.posted_or_kept with
  | inl hposted =>
    obtain ⟨ctx, dto, _, _, now, _, hreq, haccepted, hposted⟩ := hposted
    apply hposted.itemized _ (hadds i ctx dto now hreq) haccounted hitemized haccepted
    intro d hd
    rw [hsame d hd, hcatalog, hids]
  | inr hkept => exact hitemized.of_kept hkept hcatalog

end Itemized

end SentryPos
