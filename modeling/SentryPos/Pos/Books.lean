import SentryPos.Pos.Commits

/-!
This module contains the books of a shift: the rows its totals are computed from, what each kind of
commit does to them and the invariants that tie sales, payments and shifts together.
-/

namespace SentryPos

open ReadCommitted

variable {l : Env Database Write Key Stmt} {req : Request} {log : List Write} {db db' : Database}
  {shiftId : Uuid}

/-- The sales that were completed in a shift. -/
def Database.salesOfShift (db : Database) (shiftId : Uuid) : List SaleWithPayments :=
  (db.sales.filter fun s => s.shiftId = some shiftId && s.deletedAt.isNone).map (withPayments db)

def Database.refundsOfShift (db : Database) (shiftId : Uuid) : List SaleWithPayments :=
  (db.sales.filter fun s =>
    s.status = .refunded && s.refundShiftId = some shiftId && s.deletedAt.isNone).map
      (withPayments db)

def Database.totalsOf (db : Database) (shift : Shift) : ShiftTotals :=
  computeShiftTotals (withMovements db shift) (db.salesOfShift shift.id)
    (db.refundsOfShift shift.id)

/-- A refunded sale counts as a completed one among the sales of its shift. -/
def SaleWithPayments.asSold (s : SaleWithPayments) : SaleWithPayments :=
  { s with sale := { s.sale.posting with status := if s.sale.status = .voided then .voided else .completed } }

@[simp]
theorem asSold_voided (s : SaleWithPayments)
    : s.asSold.sale.status = .voided ↔ s.sale.status = .voided := by
  unfold SaleWithPayments.asSold
  dsimp only
  split
  . next h => simp [h]
  . next h => simp [h]

theorem computeShiftTotals_asSold (shift : ShiftWithMovements)
    (ofShift refunds : List SaleWithPayments)
    : computeShiftTotals shift (ofShift.map (·.asSold)) refunds
        =
      computeShiftTotals shift ofShift refunds := by
  have hfilter : ∀ (p : SaleWithPayments → Bool) (xs : List SaleWithPayments), (∀ s, p s.asSold = p s) →
      (xs.map (·.asSold)).filter p = (xs.filter p).map (·.asSold) := by
    intro p xs hp
    rw [List.filter_map]
    congr 1
    apply List.filter_congr
    intro s _
    exact hp s
  have hsold := hfilter (fun s => s.sale.status ≠ .voided) ofShift (by simp)
  have hvoided := hfilter (fun s => s.sale.status = .voided) ofShift (by simp)
  have hmethod : ∀ method (xs : List SaleWithPayments), (xs.map (·.asSold)).filter (fun s => s.methodOf = some method)
      = (xs.filter fun s => s.methodOf = some method).map (·.asSold) := by
    intro method xs
    apply hfilter
    intro s
    rfl
  have hsum : ∀ xs : List SaleWithPayments, sumTotals (xs.map (·.asSold)) = sumTotals xs := by
    intro xs
    unfold sumTotals
    rw [List.map_map]
    rfl
  have hcolumn : ∀ (f : SaleWithPayments → ℤ) (xs : List SaleWithPayments),
      (∀ s, f s.asSold = f s) → ((xs.map (·.asSold)).map f).sum = (xs.map f).sum := by
    intro f xs hf
    rw [List.map_map]
    congr 1
    apply List.map_congr_left
    intro s _
    exact hf s
  unfold computeShiftTotals
  simp only [hsold, hvoided, hmethod, hsum, List.length_map]
  rw [hcolumn (·.sale.scPwdDiscount) _ fun _ => rfl, hcolumn (·.sale.serviceCharge) _ fun _ => rfl]

inductive Book where
  | cashMovements
  | sales
  | refunds
  deriving DecidableEq

/-- The books of which shifts a write changes, other than by moving a sale to a refund. -/
def Write.booked (w : Write) (db : Database) : List (Book × Uuid) :=
  match w with
  | insertCashMovement row => [(.cashMovements, row.shiftId)]
  | insertSale row => row.shiftId.toList.map (.sales, ·)
  | voidSale id _ _ => ((db.sale? id).bind (·.shiftId)).toList.map (.sales, ·)
  | refundSale _ _ _ refundShiftId => refundShiftId.toList.map (.refunds, ·)
  | _ => []

def bookedBy (log : List Write) (db : Database) : List (Book × Uuid) :=
  log.flatMap (·.booked db)

def SameBook (book : Book) (shiftId : Uuid) (db db' : Database) : Prop :=
  match book with
  | .cashMovements =>
    db'.shiftCashMovements.filter (·.shiftId = shiftId)
      = db.shiftCashMovements.filter (·.shiftId = shiftId)
  | .sales => (db'.salesOfShift shiftId).map (·.asSold) = (db.salesOfShift shiftId).map (·.asSold)
  | .refunds => db'.refundsOfShift shiftId = db.refundsOfShift shiftId

namespace SameBook

variable {book : Book}

theorem refl (book : Book) (shiftId : Uuid) (db : Database) : SameBook book shiftId db db := by
  cases book <;> rfl

theorem trans {db'' : Database} (h : SameBook book shiftId db db')
    (h' : SameBook book shiftId db' db'') : SameBook book shiftId db db'' := by
  cases book with
  | cashMovements => exact Eq.trans h' h
  | sales => exact Eq.trans h' h
  | refunds => exact Eq.trans h' h

end SameBook

theorem totalsOf_eq {db1 db2 db3 : Database} {shift shift' : Shift} (hid : shift'.id = shift.id)
    (hcash : shift'.openingCash = shift.openingCash)
    (hmovements : SameBook .cashMovements shift.id db1 db)
    (hsales : SameBook .sales shift.id db2 db) (hrefunds : SameBook .refunds shift.id db3 db)
    : db.totalsOf shift'
        =
      computeShiftTotals (withMovements db1 shift) (db2.salesOfShift shift.id)
        (db3.refundsOfShift shift.id) := by
  have hfilter : ∀ (db : Database) (id : Uuid), (db.shiftCashMovements.filter fun m =>
      m.shiftId = id && m.deletedAt.isNone)
        = (db.shiftCashMovements.filter (·.shiftId = id)).filter (·.deletedAt.isNone) := by
    intro db id
    rw [List.filter_filter]
    apply List.filter_congr
    intro m _
    exact Bool.and_comm _ _
  have hrows : (withMovements db shift').cashMovements = (withMovements db1 shift).cashMovements := by
    unfold withMovements
    dsimp only
    rw [hid, hfilter db, hfilter db1, hmovements]
  have hopening : (withMovements db shift').shift.openingCash
      = (withMovements db1 shift).shift.openingCash := hcash
  unfold SameBook at hsales hrefunds
  dsimp only at hsales hrefunds
  unfold Database.totalsOf
  rw [hid, hrefunds, ← computeShiftTotals_asSold (withMovements db shift'), hsales,
    computeShiftTotals_asSold]
  unfold computeShiftTotals
  rw [hrows, hopening]

theorem totalsOf_congr {shift shift' : Shift} (hid : shift'.id = shift.id)
    (hcash : shift'.openingCash = shift.openingCash)
    (h : ∀ book, SameBook book shift.id db db') : db'.totalsOf shift' = db.totalsOf shift :=
  totalsOf_eq hid hcash (h .cashMovements) (h .sales) (h .refunds)

def Write.cashMovements : Write → List ShiftCashMovement
  | insertCashMovement row => [row]
  | _ => []

theorem cashMovements_replay (log : List Write) (db : Database)
    : (replay log db).shiftCashMovements
        =
      db.shiftCashMovements ++ log.flatMap Write.cashMovements := by
  apply replay_appends Database.shiftCashMovements
  intro w _ db
  cases w <;> simp [store_apply, Write.apply, Write.cashMovements]

theorem sameBook_cashMovements (h : (.cashMovements, shiftId) ∉ bookedBy log db)
    : SameBook .cashMovements shiftId db (replay log db) := by
  have hnone : (log.flatMap Write.cashMovements).filter (·.shiftId = shiftId) = [] := by
    rw [List.filter_eq_nil_iff]
    intro m hm hid
    obtain ⟨w, hw, hm⟩ := List.mem_flatMap.mp hm
    cases w with
    | insertCashMovement row =>
      apply h
      have heq : m = row := List.mem_singleton.mp hm
      simp only [decide_eq_true_eq] at hid
      apply List.mem_flatMap.mpr
      refine ⟨_, hw, ?_⟩
      rw [← hid, heq]
      exact List.mem_singleton_self _
    | _ => cases hm
  have hrows := cashMovements_replay log db
  unfold SameBook
  rw [hrows, List.filter_append, hnone, List.append_nil]

theorem withPayments_append {db db' : Database} {p : SalePayment}
    (h : db'.salePayments = db.salePayments ++ [p]) {s : Sale} (hs : p.saleId ≠ s.id)
    : withPayments db' s = withPayments db s := by
  unfold withPayments
  rw [h, List.filter_append]
  simp [hs]

theorem withPayments_congr {db db' : Database} (h : db'.salePayments = db.salePayments)
    : withPayments db' = withPayments db := by
  funext s
  unfold withPayments
  rw [h]

namespace Posted

variable {ctx : TerminalContext} {dto : SaleDraftDto} {totals : CartTotals}
  {costByLine : List (Uuid × Option ℤ)} {now : DateTime} {p : Posting}

theorem map_withPayments (h : Posted ctx dto totals costByLine now p db db') (sales : List Sale)
    (hsales : ∀ s ∈ sales, s ∈ db.sales)
    : sales.map (withPayments db') = sales.map (withPayments db) := by
  apply List.map_congr_left
  intro s hs
  apply withPayments_append h.salePayments
  intro hid
  have hget := Table.get_of_mem h.valid.sale_ids_nodup (hsales s hs)
  have hfresh := h.fresh
  have hbuild := buildSaleData_ok h.data
  unfold Database.sale? at hfresh
  rw [← hid, hbuild.paymentSaleId, hfresh] at hget
  cases hget

theorem salesOfShift (h : Posted ctx dto totals costByLine now p db db') (shiftId : Uuid)
    : db'.salesOfShift shiftId
        =
      db.salesOfShift shiftId
        ++ if dto.shiftId = shiftId then [withPayments db' p.data.sale] else [] := by
  have hbuild := buildSaleData_ok h.data
  have hold := h.map_withPayments (db.sales.filter
    fun s => s.shiftId = some shiftId && s.deletedAt.isNone) fun s hs => (List.mem_filter.mp hs).1
  unfold Database.salesOfShift
  rw [h.sales, List.filter_append, List.map_append, hold]
  congr 1
  simp only [List.filter_singleton, hbuild.shiftId, hbuild.deletedAt, Option.some.injEq,
    Option.isNone_none, Bool.and_true]
  by_cases hid : dto.shiftId = shiftId
  . simp [hid]
  . simp [hid]

theorem refundsOfShift (h : Posted ctx dto totals costByLine now p db db') (shiftId : Uuid)
    : db'.refundsOfShift shiftId = db.refundsOfShift shiftId := by
  have hbuild := buildSaleData_ok h.data
  have hold := h.map_withPayments (db.sales.filter fun s => s.status = .refunded
    && s.refundShiftId = some shiftId && s.deletedAt.isNone) fun s hs => (List.mem_filter.mp hs).1
  unfold Database.refundsOfShift
  rw [h.sales, List.filter_append, List.map_append, hold]
  simp [hbuild.status]

end Posted

namespace Reversed

variable {ctx : TerminalContext} {id : Uuid} {type : MovementType} {s : Sale} {w : Write}

theorem salePayments (h : Reversed ctx id type s w log db) (hw : w.reversed? = some id)
    : (replay log db).salePayments = db.salePayments := by
  obtain ⟨restores, hlog, hbatch⟩ := h.log
  have hrestores := restores_not_reversed hbatch
  have hfirst : w.payments = [] := by
    cases w <;> simp_all [Write.payments, Write.reversed?]
  rw [payments_replay, List.append_right_eq_self, List.flatMap_eq_nil_iff]
  intro w' hw'
  rw [hlog] at hw'
  cases List.mem_cons.mp hw' with
  | inl hw' =>
    rw [hw']
    exact hfirst
  | inr hw' => exact (hrestores w' hw').2.1

theorem row_eq (h : Reversed ctx id type s w log db) (hdb : db.Valid) {r : Sale}
    (hr : r ∈ db.sales) (hid : r.id = id) : r = s := by
  have hget := Table.get_of_mem hdb.sale_ids_nodup hr
  have hs := h.sale
  unfold Database.sale? at hs
  rw [hid, hs] at hget
  exact (Option.some.inj hget).symm

theorem sameBook_sales (h : Reversed ctx id type s w log db) (hdb : db.Valid)
    (hw : w.reversed? = some id) (hbook : (.sales, shiftId) ∉ w.booked db)
    : SameBook .sales shiftId db (replay log db) := by
  have hpayments := withPayments_congr (h.salePayments hw)
  unfold SameBook Database.salesOfShift
  dsimp only
  rw [h.sales, hpayments, List.map_map, List.map_map]
  cases w with
  | voidSale id' voidedAt reason =>
    have heq : id' = id := by simpa [Write.reversed?] using hw
    subst heq
    congr 1
    apply Table.filter_modify_of
    intro r hr hid
    have hrow := h.row_eq hdb hr hid
    have hnot : r.shiftId ≠ some shiftId := by
      rw [hrow]
      simpa [Write.booked, h.sale] using hbook
    simp [Sale.void, hnot]
  | refundSale id' refundedAt reason refundShiftId =>
    have heq : id' = id := by simpa [Write.reversed?] using hw
    subst heq
    unfold Write.apply
    dsimp only
    rw [Table.filter_modify]
    . apply Table.map_modify_of
      intro r hr hid
      have hrow := h.row_eq hdb (List.mem_filter.mp hr).1 hid
      have hstatus : r.status = .completed := by
        rw [hrow]
        exact h.completed
      unfold SaleWithPayments.asSold
      simp [withPayments, Sale.refund, Sale.posting, hstatus]
    . intro r
      rfl
  | _ => simp [Write.reversed?] at hw

theorem sameBook_refunds (h : Reversed ctx id type s w log db) (hdb : db.Valid)
    (hw : w.reversed? = some id) (hbook : (.refunds, shiftId) ∉ w.booked db)
    : SameBook .refunds shiftId db (replay log db) := by
  have hpayments := withPayments_congr (h.salePayments hw)
  unfold SameBook Database.refundsOfShift
  dsimp only
  rw [h.sales, hpayments]
  congr 1
  cases w with
  | voidSale id' voidedAt reason =>
    have heq : id' = id := by simpa [Write.reversed?] using hw
    subst heq
    apply Table.filter_modify_of
    intro r hr hid
    have hrow := h.row_eq hdb hr hid
    have hstatus : r.status = .completed := by
      rw [hrow]
      exact h.completed
    simp [Sale.void, hstatus]
  | refundSale id' refundedAt reason refundShiftId =>
    have heq : id' = id := by simpa [Write.reversed?] using hw
    subst heq
    apply Table.filter_modify_of
    intro r hr hid
    have hrow := h.row_eq hdb hr hid
    have hstatus : r.status = .completed := by
      rw [hrow]
      exact h.completed
    have hnot : refundShiftId ≠ some shiftId := by
      simpa [Write.booked] using hbook
    simp [Sale.refund, hstatus, hnot]
  | _ => simp [Write.reversed?] at hw

end Reversed

theorem salePayments_replay_unrelated (h : ∀ w ∈ log, w.Unrelated) (db : Database)
    : (replay log db).salePayments = db.salePayments := by
  rw [payments_replay, List.append_right_eq_self, List.flatMap_eq_nil_iff]
  intro w hw
  exact (h w hw).payments

theorem sameBook_unrelated (h : ∀ w ∈ log, w.Unrelated)
    : SameBook .sales shiftId db (replay log db) ∧ SameBook .refunds shiftId db (replay log db) := by
  have hsales := sales_replay_unrelated h db
  have hpayments := withPayments_congr (salePayments_replay_unrelated h db)
  unfold SameBook Database.salesOfShift Database.refundsOfShift
  rw [hsales, hpayments]
  exact ⟨rfl, rfl⟩

theorem notMem_booked {w : Write} {book : Book} (hw : w ∈ log)
    (h : (book, shiftId) ∉ bookedBy log db) : (book, shiftId) ∉ w.booked db := by
  intro hmem
  apply h
  exact List.mem_flatMap.mpr ⟨w, hw, hmem⟩

theorem Request.Commit.sameBook (h : req.Commit l log db) (hdb : db.Valid) (book : Book)
    (hbook : (book, shiftId) ∉ bookedBy log db) : SameBook book shiftId db (replay log db) := by
  cases hkind : h.kind with
  | @posting ctx dto now totals costByLine p _ hlog _ hposted =>
    cases book with
    | cashMovements => exact sameBook_cashMovements hbook
    | sales =>
      have hbuild := buildSaleData_ok hposted.data
      have hinsert : .insertSale p.data.sale ∈ log := by
        simp [hlog, Posting.log, saleLog]
      have hnot : dto.shiftId ≠ shiftId := by
        intro heq
        apply notMem_booked hinsert hbook
        simp [Write.booked, hbuild.shiftId, heq]
      unfold SameBook
      rw [hposted.salesOfShift, if_neg hnot, List.append_nil]
    | refunds => exact hposted.refundsOfShift shiftId
  | @reversal id h =>
    obtain ⟨_, _, hw, _, hreversed⟩ := h
    obtain ⟨restores, hlog, _⟩ := hreversed.log
    have hfirst := notMem_booked (by rw [hlog]; exact List.mem_cons_self) hbook
    cases book with
    | cashMovements => exact sameBook_cashMovements hbook
    | sales => exact hreversed.sameBook_sales hdb hw hfirst
    | refunds => exact hreversed.sameBook_refunds hdb hw hfirst
  | unrelated h _ =>
    cases book with
    | cashMovements => exact sameBook_cashMovements hbook
    | sales => exact (sameBook_unrelated h).1
    | refunds => exact (sameBook_unrelated h).2

section Booked

/-- What ties sales, payments and shifts together in the databases that requests leave behind. -/
structure Database.Booked (db : Database) : Prop where
  shift : ∀ s ∈ db.sales, ∀ S, s.shiftId = some S →
    ∃ sh, db.shift? S = some sh ∧ sh.branchId = s.branchId
  refund : ∀ s ∈ db.sales, ∀ S, s.refundShiftId = some S → s.shiftId = some S
  total : ∀ s ∈ db.sales, 0 ≤ s.total
  paid : ∀ s ∈ db.sales, ∃ p, (withPayments db s).payments = [p]
  payments : ∀ p ∈ db.salePayments, ∃ s ∈ db.sales, s.id = p.saleId

theorem PosEnv.past_grows (hl : PosEnv l) (h : l.Past db db') : db.Grows db' := by
  induction h with
  | refl => exact .refl db
  | tail _ hstep ih =>
    obtain ⟨tag, locks, hrely⟩ := hstep
    exact ih.trans (hl.rely _ _ _ _ hrely).grows

theorem Database.Grows.shift_branch (h : db.Grows db') {sh : Shift}
    (hsh : db.shift? shiftId = some sh)
    : ∃ sh', db'.shift? shiftId = some sh' ∧ sh'.branchId = sh.branchId := by
  obtain ⟨sh', hsh', hopening⟩ := h.shift shiftId sh hsh
  have hsame : sh'.opening.branchId = sh.opening.branchId := by
    rw [hopening]
  exact ⟨sh', hsh', hsame⟩

theorem findOpenShift_some {ctx : TerminalContext} {sh : Shift} (hdb : db.Valid)
    (h : findOpenShift ctx db = some sh)
    : db.shift? sh.id = some sh ∧ sh.terminalId = ctx.terminalId ∧ sh.branchId = ctx.branchId
        ∧ sh.closedAt = none := by
  unfold findOpenShift at h
  have hmem := List.mem_of_find?_eq_some h
  have hfound := List.find?_some h
  simp only [Bool.and_eq_true, decide_eq_true_eq, Option.isNone_iff_eq_none] at hfound
  exact ⟨Table.get_of_mem hdb.shift_ids_nodup hmem, hfound.1.1.1, hfound.1.2, hfound.1.1.2⟩

theorem Env.SeenOpen.shift (hl : PosEnv l) {ctx : TerminalContext}
    (h : Env.SeenOpen l ctx shiftId db)
    : ∃ sh, db.shift? shiftId = some sh ∧ sh.branchId = ctx.branchId := by
  obtain ⟨db0, hinv, ⟨sh0, hopen, hid⟩, hpast⟩ := h
  obtain ⟨hsh0, _, hbranch, _⟩ := findOpenShift_some (hl.valid db0 hinv) hopen
  obtain ⟨sh, hsh, hsame⟩ := (hl.past_grows hpast).shift_branch hsh0
  rw [hid] at hsh
  exact ⟨sh, hsh, hsame.trans hbranch⟩

theorem Accepted.seenOpen {ctx : TerminalContext} {dto : SaleDraftDto} {totals : CartTotals}
    {costByLine : List (Uuid × Option ℤ)} (h : Accepted l ctx dto totals costByLine db)
    : Env.SeenOpen l ctx dto.shiftId db :=
  h.shift

theorem totalC_of_assertPayment [Rounding] {payment : SalePaymentDto} {totalC : JsNumber}
    (h : assertPayment payment totalC = .ok ()) : totalC = ((payment.amountC : ℤ) : JsNumber) := by
  unfold assertPayment at h
  split at h
  . cases h
  . next hne =>
    have heq : JsNumber.strictEq (payment.amountC : JsNumber) totalC = true := by simpa using hne
    exact JsNumber.eq_fin_of_strictEq heq

theorem intColumn_of_assertPayment [Rounding] {payment : SalePaymentDto} {totalC : JsNumber} {total : ℤ}
    (hpayment : assertPayment payment totalC = .ok ()) (htotal : intColumn totalC = .ok total)
    : total = payment.amountC := by
  have hpaid := totalC_of_assertPayment hpayment
  rw [intColumn_eq_ok htotal, JsNumber.fin.injEq] at hpaid
  exact_mod_cast hpaid

namespace Database.Booked

variable (h : db.Booked)

include h

theorem posted (hl : PosEnv l) {ctx : TerminalContext} {dto : SaleDraftDto} {totals : CartTotals}
    {costByLine : List (Uuid × Option ℤ)} {now : DateTime} {p : Posting}
    (haccepted : Accepted l ctx dto totals costByLine db)
    (hposted : Posted ctx dto totals costByLine now p db db') (hgrows : db.Grows db')
    : db'.Booked := by
  have hbuild := buildSaleData_ok hposted.data
  have hold : ∀ s ∈ db.sales, dto.id ≠ s.id := by
    intro s hs hid
    have hget := Table.get_of_mem hposted.valid.sale_ids_nodup hs
    have hfresh := hposted.fresh
    unfold Database.sale? at hfresh
    rw [← hid, hfresh] at hget
    cases hget
  have hmem : ∀ s ∈ db'.sales, s ∈ db.sales ∨ s = p.data.sale := by
    intro s hs
    rw [hposted.sales, List.mem_append, List.mem_singleton] at hs
    exact hs
  constructor
  . intro s hs S hS
    cases hmem s hs with
    | inl hs =>
      obtain ⟨sh, hsh, hbranch⟩ := h.shift s hs S hS
      obtain ⟨sh', hsh', hsame⟩ := hgrows.shift_branch hsh
      exact ⟨sh', hsh', hsame.trans hbranch⟩
    | inr hs =>
      rw [hs, hbuild.shiftId, Option.some.injEq] at hS
      obtain ⟨sh, hsh, hbranch⟩ := haccepted.seenOpen.shift hl
      obtain ⟨sh', hsh', hsame⟩ := hgrows.shift_branch hsh
      rw [← hS, hs, hbuild.branchId]
      exact ⟨sh', hsh', hsame.trans hbranch⟩
  . intro s hs S hS
    cases hmem s hs with
    | inl hs => exact h.refund s hs S hS
    | inr hs =>
      rw [hs, hbuild.refundShiftId] at hS
      cases hS
  . intro s hs
    cases hmem s hs with
    | inl hs => exact h.total s hs
    | inr hs =>
      rw [hs, intColumn_of_assertPayment haccepted.payment hbuild.total]
      exact dto.payment.amountC_nonneg
  . intro s hs
    cases hmem s hs with
    | inl hs =>
      rw [withPayments_append hposted.salePayments]
      . exact h.paid s hs
      . rw [hbuild.paymentSaleId]
        exact hold s hs
    | inr hs =>
      refine ⟨p.data.payment, ?_⟩
      have hnone : db.salePayments.filter (fun q => q.saleId = dto.id && q.deletedAt.isNone) = [] := by
        rw [List.filter_eq_nil_iff]
        intro q hq hboth
        simp only [Bool.and_eq_true, decide_eq_true_eq] at hboth
        obtain ⟨s', hs', hid⟩ := h.payments q hq
        exact hold s' hs' (by rw [hid, hboth.1])
      unfold withPayments
      dsimp only
      rw [hs, hbuild.id, hposted.salePayments, List.filter_append, hnone]
      simp [hbuild.paymentSaleId, hbuild.paymentDeletedAt]
  . intro q hq
    rw [hposted.salePayments, List.mem_append, List.mem_singleton] at hq
    rw [hposted.sales]
    cases hq with
    | inl hq =>
      obtain ⟨s, hs, hid⟩ := h.payments q hq
      exact ⟨s, by simp [hs], hid⟩
    | inr hq =>
      refine ⟨p.data.sale, by simp, ?_⟩
      rw [hq, hbuild.id, hbuild.paymentSaleId]

theorem of_sales (hgrows : db.Grows db') (hpayments : db'.salePayments = db.salePayments)
    (hids : db'.sales.map (·.id) = db.sales.map (·.id))
    (hsales : ∀ s' ∈ db'.sales, ∃ s ∈ db.sales, s'.posting = s.posting
      ∧ ∀ S, s'.refundShiftId = some S → s.shiftId = some S)
    : db'.Booked := by
  have hcolumns : ∀ {s s' : Sale}, s'.posting = s.posting →
      s'.id = s.id ∧ s'.shiftId = s.shiftId ∧ s'.branchId = s.branchId ∧ s'.total = s.total := by
    intro s s' hposting
    have hall : (s'.posting.id, s'.posting.shiftId, s'.posting.branchId, s'.posting.total)
        = (s.posting.id, s.posting.shiftId, s.posting.branchId, s.posting.total) := by
      rw [hposting]
    simpa [Sale.posting] using hall
  constructor
  . intro s' hs' S hS
    obtain ⟨s, hs, hposting, _⟩ := hsales s' hs'
    obtain ⟨_, hshift, hbranch, _⟩ := hcolumns hposting
    rw [hshift] at hS
    obtain ⟨sh, hsh, hbranch0⟩ := h.shift s hs S hS
    obtain ⟨sh', hsh', hsame⟩ := hgrows.shift_branch hsh
    exact ⟨sh', hsh', by rw [hsame, hbranch0, hbranch]⟩
  . intro s' hs' S hS
    obtain ⟨s, hs, hposting, hrefund⟩ := hsales s' hs'
    rw [(hcolumns hposting).2.1]
    exact hrefund S hS
  . intro s' hs'
    obtain ⟨s, hs, hposting, _⟩ := hsales s' hs'
    rw [(hcolumns hposting).2.2.2]
    exact h.total s hs
  . intro s' hs'
    obtain ⟨s, hs, hposting, _⟩ := hsales s' hs'
    obtain ⟨p, hp⟩ := h.paid s hs
    refine ⟨p, ?_⟩
    unfold withPayments at hp ⊢
    rw [(hcolumns hposting).1, hpayments]
    exact hp
  . intro p hp
    rw [hpayments] at hp
    obtain ⟨s, hs, hid⟩ := h.payments p hp
    have hmem : p.saleId ∈ db'.sales.map (·.id) := by
      rw [hids, ← hid]
      exact List.mem_map_of_mem hs
    obtain ⟨s', hs', hid'⟩ := List.mem_map.mp hmem
    exact ⟨s', hs', hid'⟩

end Database.Booked

theorem Request.Event.booked (hl : PosEnv l) (h : req.Event l db db') (hdb : db.Booked)
    : db'.Booked := by
  have hvalid := h.valid
  obtain ⟨log, locks, hpending, hcommit, hafter⟩ := h.commit
  have hgrows : db.Grows db' := by
    rw [hafter]
    exact .replay log db
  subst hafter
  cases hcommit.kind with
  | posting _ _ haccepted hposted => exact hdb.posted hl haccepted hposted hgrows
  | @reversal id h =>
    obtain @⟨ctx, _, type, s, w, _, _, hw, hshift, hreversed⟩ := h
    have hsales := hreversed.sales
    apply hdb.of_sales hgrows (hreversed.salePayments hw)
    . rw [hsales]
      cases w with
      | voidSale | refundSale =>
        apply Table.map_modify
        intro r
        rfl
      | _ => simp [Write.reversed?] at hw
    . intro s' hs'
      rw [hsales] at hs'
      cases w with
      | voidSale id' voidedAt reason =>
        cases Table.mem_modify hs' with
        | inl hs' => exact ⟨s', hs'.2, rfl, hdb.refund s' hs'.2⟩
        | inr hs' =>
          obtain ⟨r, hr, _, heq⟩ := hs'
          rw [heq]
          exact ⟨r, hr, rfl, hdb.refund r hr⟩
      | refundSale id' refundedAt reason refundShiftId =>
        have hid' : id' = id := by simpa [Write.reversed?] using hw
        cases Table.mem_modify hs' with
        | inl hs' => exact ⟨s', hs'.2, rfl, hdb.refund s' hs'.2⟩
        | inr hs' =>
          obtain ⟨r, hr, hid, heq⟩ := hs'
          have hrow := hreversed.row_eq hvalid hr (hid.trans hid')
          rw [heq]
          refine ⟨r, hr, rfl, ?_⟩
          intro S hS
          rw [hrow]
          exact (hshift S hS).1
      | _ => simp [Write.reversed?] at hw
  | unrelated h _ =>
    have hsales := sales_replay_unrelated h db
    apply hdb.of_sales hgrows (salePayments_replay_unrelated h db)
    . rw [hsales]
    . intro s hs
      rw [hsales] at hs
      exact ⟨s, hs, rfl, hdb.refund s hs⟩

theorem Database.Booked.findSales (h : db.Booked) {ctx : TerminalContext} {sh : Shift}
    (hsh : db.shift? shiftId = some sh) (hbranch : sh.branchId = ctx.branchId)
    : findSalesOfShift ctx shiftId db = db.salesOfShift shiftId
        ∧ findRefundsOfShift ctx shiftId db = db.refundsOfShift shiftId := by
  have hin : ∀ s ∈ db.sales, s.shiftId = some shiftId → s.branchId = ctx.branchId := by
    intro s hs hshift
    obtain ⟨sh', hsh', hsame⟩ := h.shift s hs shiftId hshift
    rw [hsh, Option.some.injEq] at hsh'
    rw [← hsame, ← hsh', hbranch]
  unfold findSalesOfShift Database.salesOfShift findRefundsOfShift Database.refundsOfShift
  constructor
  . congr 1
    apply List.filter_congr
    intro s hs
    by_cases hshift : s.shiftId = some shiftId
    . simp [hshift, hin s hs hshift]
    . simp [hshift]
  . congr 1
    apply List.filter_congr
    intro s hs
    by_cases hrefund : s.refundShiftId = some shiftId
    . simp [hrefund, hin s hs (h.refund s hs shiftId hrefund)]
    . simp [hrefund]

theorem Request.Commit.bookedOpen (h : req.Commit l log db) {book : Book}
    (hbook : (book, shiftId) ∈ bookedBy log db) : ∃ ctx, Env.SeenOpen l ctx shiftId db := by
  obtain ⟨w', hw', hbooked⟩ := List.mem_flatMap.mp hbook
  cases h.kind with
  | @posting ctx dto now totals costByLine p _ hlog haccepted hposted =>
    have hbuild := buildSaleData_ok hposted.data
    have hrow : w' = .insertSale p.data.sale := by
      rw [hlog] at hw'
      rcases Posting.mem_log hw' with h | h | ⟨_, _, h⟩ | h | ⟨_, _, h⟩ | ⟨_, h⟩
      . obtain ⟨_, _, _, _, h⟩ := mem_stockLog h
        rw [h] at hbooked
        cases hbooked
      . exact h
      all_goals
        rw [h] at hbooked
        cases hbooked
    rw [hrow] at hbooked
    simp only [Write.booked, hbuild.shiftId, Option.toList_some, List.map_cons, List.map_nil,
      List.mem_singleton, Prod.mk.injEq] at hbooked
    rw [hbooked.2]
    exact ⟨ctx, haccepted.seenOpen⟩
  | @reversal id h =>
    obtain @⟨ctx, _, type, s, w, _, _, hw, hshift, hreversed⟩ := h
    have hrow : w' = w := by
      obtain ⟨restores, hlog, hbatch⟩ := hreversed.log
      rw [hlog] at hw'
      cases List.mem_cons.mp hw' with
      | inl heq => exact heq
      | inr hmem =>
        obtain ⟨m, _, ws, hws, hmem⟩ := hbatch.mem hmem
        have hside := hws.side w' hmem
        cases w' <;> simp_all [Write.isSide, Write.booked]
    refine ⟨ctx, (hshift shiftId ?_).2⟩
    rw [hrow] at hbooked
    cases w with
    | voidSale id' voidedAt reason =>
      have hid : id' = id := by simpa [Write.reversed?] using hw
      simp only [Write.booked, hid, hreversed.sale, Option.bind_some, List.mem_map,
        Option.mem_toList, Prod.mk.injEq] at hbooked
      obtain ⟨S, hS, _, heq⟩ := hbooked
      rw [← heq]
      exact hS
    | refundSale id' refundedAt reason refundShiftId =>
      simp only [Write.booked, List.mem_map, Option.mem_toList, Prod.mk.injEq] at hbooked
      obtain ⟨S, hS, _, heq⟩ := hbooked
      rw [← heq]
      exact hS
    | _ => simp [Write.reversed?] at hw
  | unrelated h hcash =>
    have hunrelated := h w' hw'
    cases w' with
    | insertCashMovement row =>
      have heq : shiftId = row.shiftId := by
        simp only [Write.booked, List.mem_singleton, Prod.mk.injEq] at hbooked
        exact hbooked.2
      rw [heq]
      exact hcash row hw'
    | insertSale row => cases hunrelated.sales
    | voidSale | refundSale => cases hunrelated.reversed
    | _ => cases hbooked

end Booked

end SentryPos
