import SentryPos.Pos.ZFigures

/-!
This module contains the reconciliation of the totals of a shift: how its figures relate to each
other, to the sales completed in it and to its close, after any requests one after the other.
-/

namespace SentryPos

open ReadCommitted

variable {db db' : Database} {shiftId : Uuid}

/-- Requests taken as atomic steps, one after the other. -/
def Request.runAll (reqs : List Request) (db : Database) : Database :=
  reqs.foldl (fun db req => (req.step db).2) db

theorem Request.step_keeps {P : Database → Prop} {req : Request} (hdb : db.Valid)
    (hkeep : ∀ db db', req.Event Env.sequential db db' → P db → P db') (hP : P db)
    : P (req.step db).2 := by
  obtain ⟨_, own, hlinked, hown, _⟩ := req.step_spec hdb
  apply hlinked.keeps _ hP
  intro c hc
  exact hkeep c.1 c.2 (hown c hc)

theorem Request.runAll_keeps {P : Database → Prop} {reqs : List Request} (hdb : db.Valid)
    (hkeep : ∀ req ∈ reqs, ∀ db db', req.Event Env.sequential db db' → P db → P db') (hP : P db)
    : (runAll reqs db).Valid ∧ P (runAll reqs db) := by
  -- Each request starts from a valid database, as the ones before it keep it valid.
  induction reqs generalizing db with
  | nil => exact ⟨hdb, hP⟩
  | cons req reqs ih =>
    apply ih
    . exact (req.step_spec hdb).1
    . intro req' hreq'
      exact hkeep req' (List.mem_cons_of_mem req hreq')
    . exact Request.step_keeps hdb (hkeep req List.mem_cons_self) hP

/-- The totals of a shift as `computeTotals` computes them for a terminal. -/
def shiftTotals (ctx : TerminalContext) (sh : Shift) (db : Database) : ShiftTotals :=
  computeShiftTotals (withMovements db sh) (findSalesOfShift ctx sh.id db)
    (findRefundsOfShift ctx sh.id db)

theorem shiftTotals_eq (h : db.Booked) {ctx : TerminalContext} {sh : Shift}
    (hsh : db.shift? sh.id = some sh) (hbranch : sh.branchId = ctx.branchId)
    : shiftTotals ctx sh db = db.totalsOf sh := by
  obtain ⟨hsales, hrefunds⟩ := h.findSales hsh hbranch
  unfold shiftTotals Database.totalsOf
  rw [hsales, hrefunds]

section Figures

def ShiftTotals.allMethods (t : ShiftTotals) : ℤ :=
  t.byMethod .cash + t.byMethod .card + t.byMethod .gcash + t.byMethod .maya + t.byMethod .other

theorem sumTotals_methods {xs : List SaleWithPayments} (h : ∀ s ∈ xs, s.methodOf.isSome)
    : sumTotals xs
        =
      sumTotals (xs.filter fun s => s.methodOf = some .cash)
        + sumTotals (xs.filter fun s => s.methodOf = some .card)
        + sumTotals (xs.filter fun s => s.methodOf = some .gcash)
        + sumTotals (xs.filter fun s => s.methodOf = some .maya)
        + sumTotals (xs.filter fun s => s.methodOf = some .other) := by
  induction xs with
  | nil => rfl
  | cons s xs ih =>
    have hrest := ih fun s' hs' => h s' (List.mem_cons_of_mem s hs')
    obtain ⟨method, hmethod⟩ := Option.isSome_iff_exists.mp (h s List.mem_cons_self)
    unfold sumTotals at hrest ⊢
    cases method <;> simp [hmethod, hrest] <;> ring

theorem sum_filter_le {α : Type} {xs : List α} {p q : α → Bool} {f : α → ℤ}
    (hpq : ∀ x ∈ xs, p x → q x) (hf : ∀ x ∈ xs, 0 ≤ f x)
    : ((xs.filter p).map f).sum ≤ ((xs.filter q).map f).sum := by
  induction xs with
  | nil => rfl
  | cons x xs ih =>
    have hrest := ih (fun y hy => hpq y (List.mem_cons_of_mem x hy))
      fun y hy => hf y (List.mem_cons_of_mem x hy)
    have hx := hf x List.mem_cons_self
    have hp := hpq x List.mem_cons_self
    by_cases hpx : p x
    . simp only [List.filter_cons, hpx, hp hpx, if_true, List.map_cons, List.sum_cons]
      omega
    . by_cases hqx : q x
      . simp only [List.filter_cons, hpx, hqx, if_true, List.map_cons, List.sum_cons]
        simp only [Bool.false_eq_true, if_false]
        omega
      . simpa [List.filter_cons, hpx, hqx] using hrest

/-- How the figures of a shift relate to each other. -/
structure ShiftTotals.Consistent (t : ShiftTotals) (openingCash : ℤ) : Prop where
  gross : t.grossC = t.allMethods
  cashSales : t.cashSalesC = t.byMethod .cash
  refundAmount : t.refundAmountC ≤ t.grossC
  cashRefunds : t.cashRefundsC ≤ t.cashSalesC
  expectedCash : openingCash + t.cashInC - t.cashOutC ≤ t.expectedCashC

def Database.soldInShift (db : Database) (shiftId : Uuid) : List SaleWithPayments :=
  (db.salesOfShift shiftId).filter fun s => s.sale.status ≠ .voided

namespace Database.Booked

variable (h : db.Booked)

include h

theorem refund_sold {s : SaleWithPayments} (hs : s ∈ db.refundsOfShift shiftId)
    : s ∈ db.soldInShift shiftId := by
  unfold Database.refundsOfShift at hs
  obtain ⟨row, hrow, heq⟩ := List.mem_map.mp hs
  obtain ⟨hmem, hrow⟩ := List.mem_filter.mp hrow
  simp only [Bool.and_eq_true, decide_eq_true_eq] at hrow
  obtain ⟨⟨hstatus, hrefund⟩, hlive⟩ := hrow
  have hshift := h.refund row hmem shiftId hrefund
  unfold Database.soldInShift Database.salesOfShift
  rw [List.mem_filter, ← heq]
  constructor
  . apply List.mem_map_of_mem
    rw [List.mem_filter]
    exact ⟨hmem, by simp [hshift, hlive]⟩
  . simp [withPayments, hstatus]

theorem refundsOfShift_eq
    : db.refundsOfShift shiftId
        =
      (db.soldInShift shiftId).filter fun s =>
        s.sale.status = .refunded && s.sale.refundShiftId = some shiftId := by
  unfold Database.refundsOfShift Database.soldInShift Database.salesOfShift
  rw [List.filter_filter, List.filter_map, List.filter_filter]
  congr 1
  apply List.filter_congr
  intro s hs
  by_cases hrefund : s.refundShiftId = some shiftId
  . have hshift := h.refund s hs shiftId hrefund
    by_cases hstatus : s.status = .refunded
    . simp [withPayments, hrefund, hshift, hstatus]
    . simp [withPayments, hstatus]
  . simp [withPayments, hrefund]

theorem sold_row {s : SaleWithPayments} (hs : s ∈ db.soldInShift shiftId)
    : 0 ≤ s.sale.total ∧ s.methodOf.isSome := by
  unfold Database.soldInShift Database.salesOfShift at hs
  obtain ⟨row, hrow, heq⟩ := List.mem_map.mp (List.mem_filter.mp hs).1
  have hmem := (List.mem_filter.mp hrow).1
  obtain ⟨p, hp⟩ := h.paid row hmem
  rw [← heq]
  constructor
  . exact h.total row hmem
  . simp [SaleWithPayments.methodOf, hp]

theorem consistent (sh : Shift) : (db.totalsOf sh).Consistent sh.openingCash := by
  have htotal : ∀ s ∈ db.soldInShift sh.id, 0 ≤ s.sale.total := fun s hs => (h.sold_row hs).1
  have hrefunds : db.refundsOfShift sh.id = (db.soldInShift sh.id).filter fun s =>
      s.sale.status = .refunded && s.sale.refundShiftId = some sh.id := h.refundsOfShift_eq
  have hamount : sumTotals (db.refundsOfShift sh.id) ≤ sumTotals (db.soldInShift sh.id) := by
    have hle := sum_filter_le (p := fun s : SaleWithPayments =>
      s.sale.status = .refunded && s.sale.refundShiftId = some sh.id) (q := fun _ => true)
      (fun _ _ _ => rfl) htotal
    rw [← hrefunds, List.filter_true] at hle
    exact hle
  have hcash : sumTotals ((db.refundsOfShift sh.id).filter fun s => s.methodOf = some .cash)
      ≤ sumTotals ((db.soldInShift sh.id).filter fun s => s.methodOf = some .cash) := by
    rw [hrefunds, List.filter_filter]
    apply sum_filter_le _ htotal
    intro s _ hboth
    rw [Bool.and_eq_true] at hboth
    exact hboth.1
  constructor
  . exact sumTotals_methods fun s hs => (h.sold_row hs).2
  . rfl
  . exact hamount
  . exact hcash
  . have hexpected : (db.totalsOf sh).expectedCashC = sh.openingCash
        + (db.totalsOf sh).cashSalesC - (db.totalsOf sh).cashRefundsC
        + (db.totalsOf sh).cashInC - (db.totalsOf sh).cashOutC := rfl
    have hle : (db.totalsOf sh).cashRefundsC ≤ (db.totalsOf sh).cashSalesC := hcash
    omega

end Database.Booked

end Figures

section Completions

def Request.completes (shiftId : Uuid) (req : Request) (db : Database) : Bool :=
  match req with
  | .completeSale _ dto _ =>
    dto.shiftId = shiftId && (db.sale? dto.id).isNone && (req.step db).1.isOk
  | _ => false

/-- How many sales a run completes in the shift. -/
def completions (shiftId : Uuid) : List Request → Database → Nat
  | [], _ => 0
  | req :: reqs, db =>
    (if req.completes shiftId db then 1 else 0) + completions shiftId reqs (req.step db).2

theorem Request.Event.salesOfShift_length {l : Env Database Write Key Stmt} {req : Request}
    (h : req.Event l db db') (hreq : ∀ ctx dto now, req ≠ .completeSale ctx dto now)
    : (db'.salesOfShift shiftId).length = (db.salesOfShift shiftId).length := by
  obtain ⟨log, locks, _, hcommit, hafter⟩ := h.commit
  rw [hafter]
  unfold Database.salesOfShift
  rw [List.length_map, List.length_map]
  cases hcommit.kind with
  | posting hposting => exact absurd hposting (hreq _ _ _)
  | @reversal id h =>
    obtain @⟨_, _, _, _, w, _, _, hw, _, hreversed⟩ := h
    rw [hreversed.sales]
    cases w with
    | voidSale | refundSale =>
      unfold Write.apply
      dsimp only
      rw [Table.filter_modify]
      . unfold Table.modify
        exact List.length_map _
      . intro r
        rfl
    | _ => simp [Write.reversed?] at hw
  | unrelated h _ => rw [sales_replay_unrelated h]

theorem findSale_sale? {ctx : TerminalContext} {id : Uuid} {s : Sale} (hdb : db.Valid)
    (h : findSale ctx id db = some s) : db.sale? id = some s := by
  unfold findSale at h
  have hfound := List.find?_some h
  simp only [Bool.and_eq_true, decide_eq_true_eq] at hfound
  have hget := Table.get_of_mem hdb.sale_ids_nodup (List.mem_of_find?_eq_some h)
  rw [hfound.1.1] at hget
  exact hget

theorem SaleResult.salesOfShift {ctx : TerminalContext} {dto : SaleDraftDto} {now : DateTime}
    {r : SaleResponse} {own : List (Database × Database)}
    (h : SaleResult Env.sequential ctx dto now r own db') (hlinked : Linked db own db')
    (hdb : db.Valid)
    : (db'.salesOfShift shiftId).length
        =
      (db.salesOfShift shiftId).length
        + if dto.shiftId = shiftId ∧ db.sale? dto.id = none then 1 else 0 := by
  have hold : ∀ s, db.sale? dto.id = some s → ¬ (dto.shiftId = shiftId ∧ db.sale? dto.id = none) := by
    intro s hs hnew
    rw [hs] at hnew
    cases hnew.2
  cases h with
  | existing s hfind =>
    have hsame : db = db' := hlinked
    have hfound := Env.seen_alone hfind
    rw [← hsame] at hfound
    rw [if_neg (hold s (findSale_sale? hdb hfound)), ← hsame, Nat.add_zero]
  | @concurrent _ before s hrecheck hseen =>
    obtain ⟨hbefore, hsame⟩ := hlinked
    have hbefore : before = db := hbefore
    have hsame : before = db' := hsame
    have hfound := (Env.seen_alone hrecheck).1
    rw [hbefore] at hfound
    rw [if_neg (hold s hfound), ← hsame, hbefore, Nat.add_zero]
  | @posted _ before after totals costByLine p haccepted hposted hpast =>
    obtain ⟨hbefore, hsame⟩ := hlinked
    have hbefore : before = db := hbefore
    have hsame : after = db' := hsame
    have hfresh : db.sale? dto.id = none := by
      rw [← hbefore]
      exact hposted.fresh
    rw [← hsame, hposted.salesOfShift, List.length_append, hbefore]
    by_cases hshift : dto.shiftId = shiftId
    . simp [hshift, hfresh]
    . simp [hshift]

theorem Request.step_salesOfShift (req : Request) (hdb : db.Valid)
    : ((req.step db).2.salesOfShift shiftId).length
        =
      (db.salesOfShift shiftId).length + if req.completes shiftId db then 1 else 0 := by
  have hother : (∀ ctx dto now, req ≠ .completeSale ctx dto now) →
      ((req.step db).2.salesOfShift shiftId).length = (db.salesOfShift shiftId).length := by
    intro hreq
    apply Request.step_keeps (P := fun d : Database =>
      (d.salesOfShift shiftId).length = (db.salesOfShift shiftId).length) hdb _ rfl
    intro db1 db2 hevent hP
    rw [hevent.salesOfShift_length hreq, hP]
  cases req with
  | completeSale ctx dto now =>
    obtain ⟨_, own, hlinked, _, hpost⟩ := Request.step_spec (.completeSale ctx dto now) hdb
    have houtcome := hpost.outcome
    have hfailed := hpost.failed
    unfold completes
    dsimp only
    cases hresult : ((Request.completeSale ctx dto now).step db).1 with
    | error e =>
      have hown : own = [] := hfailed e hresult
      rw [hown] at hlinked
      have hsame : db = ((Request.completeSale ctx dto now).step db).2 := hlinked
      rw [← hsame]
      simp [Except.isOk, Except.toBool]
    | ok a =>
      rw [hresult] at houtcome
      cases a with
      | sale r =>
        have hresult : SaleResult Env.sequential ctx dto now r own
            ((Request.completeSale ctx dto now).step db).2 := houtcome
        rw [hresult.salesOfShift hlinked hdb]
        simp [Except.isOk, Except.toBool]
      | _ => exact houtcome.elim
  | _ => exact hother (by simp)

theorem Request.runAll_salesOfShift (reqs : List Request) (hdb : db.Valid)
    : ((runAll reqs db).salesOfShift shiftId).length
        =
      (db.salesOfShift shiftId).length + completions shiftId reqs db := by
  induction reqs generalizing db with
  | nil => rfl
  | cons req reqs ih =>
    have hstep : ((req.step db).2.salesOfShift shiftId).length = (db.salesOfShift shiftId).length
        + if req.completes shiftId db then 1 else 0 := Request.step_salesOfShift req hdb
    have hrest := ih (req.step_spec hdb).1
    unfold completions
    unfold runAll at hrest ⊢
    rw [List.foldl_cons, hrest, hstep]
    omega

theorem totalsOf_counts (db : Database) (sh : Shift)
    : (db.totalsOf sh).saleCount + (db.totalsOf sh).voidCount
        =
      (db.salesOfShift sh.id).length := by
  have hsplit := List.length_eq_length_filter_add (l := db.salesOfShift sh.id)
    fun s => s.sale.status ≠ .voided
  unfold Database.totalsOf computeShiftTotals
  dsimp only
  rw [hsplit]
  congr 2
  apply List.filter_congr
  intro s _
  simp

end Completions

section Closed

structure Database.KeepsClosed (sh : Shift) (db db' : Database) : Prop where
  shift : db'.shift? sh.id = some sh
  books : ∀ book, SameBook book sh.id db db'

theorem Closed.shift_ne {ctx : TerminalContext} {dto : CloseShiftDto} {closedAt : DateTime}
    {log : List Write} {sh : Shift} (h : Closed Env.sequential ctx dto closedAt log db)
    (hsh : db.shift? sh.id = some sh) (hclosed : sh.closedAt ≠ none)
    : (replay log db).shift? sh.id = some sh := by
  obtain ⟨shift, db1, db2, db3, hfound, hinv1, _, _, hpast2, hpast3, hpast, hlog⟩ := h.closed
  have hsame : db = db1 := (Env.pastAt_alone hpast).trans
    ((Env.pastAt_alone hpast3).trans (Env.pastAt_alone hpast2))
  rw [← hsame] at hfound hinv1
  obtain ⟨hshift, _, _, hopen⟩ := findOpenShift_some hinv1 hfound
  have hne : sh.id ≠ shift.id := by
    intro hid
    rw [hid, hshift, Option.some.injEq] at hsh
    rw [hsh] at hopen
    exact hclosed hopen
  rw [hlog]
  unfold Database.shift? at hsh ⊢
  rw [← hsh]
  apply Table.get_modify_ne _ hne
  intro r
  rfl

theorem Request.Event.keepsClosed {req : Request} {sh : Shift} {db0 : Database}
    (h : req.Event Env.sequential db db') (hclosed : sh.closedAt ≠ none)
    (hkeeps : Database.KeepsClosed sh db0 db) : Database.KeepsClosed sh db0 db' := by
  have hvalid := h.valid
  obtain ⟨log, locks, _, hcommit, hafter⟩ := h.commit
  subst hafter
  constructor
  . rcases hcommit.shifts with hnone | ⟨ctx, dto, shiftId, now, hopened⟩ | ⟨ctx, dto, closedAt, h⟩
    . unfold Database.shift?
      rw [shifts_replay hnone]
      exact hkeeps.shift
    . rw [hopened.log]
      exact Table.get_append_of_some hkeeps.shift
    . exact h.shift_ne hkeeps.shift hclosed
  . intro book
    apply (hkeeps.books book).trans
    apply hcommit.sameBook hvalid
    intro hbook
    -- What is booked is booked on a shift that is open.
    obtain ⟨ctx, hopen⟩ := hcommit.bookedOpen hbook
    obtain ⟨sh', hfound, hid⟩ := Env.seen_alone hopen
    obtain ⟨hsh', _, _, hopen'⟩ := findOpenShift_some hvalid hfound
    have hsame := hkeeps.shift
    rw [← hid, hsh', Option.some.injEq] at hsame
    rw [hsame] at hopen'
    exact hclosed hopen'

end Closed

/--
The figures of every shift are consistent after any requests, count each sale completed in it once,
and are the same ever after when the shift is closed.
-/
theorem totals_reconcile (reqs : List Request) (hdb : db.Valid) (hbooked : db.Booked) {sh : Shift}
    {ctx : TerminalContext} (hsh : (Request.runAll reqs db).shift? sh.id = some sh)
    (hbranch : sh.branchId = ctx.branchId)
    : (shiftTotals ctx sh (Request.runAll reqs db)).Consistent sh.openingCash
        ∧ (∀ s ∈ findRefundsOfShift ctx sh.id (Request.runAll reqs db),
            s ∈ (findSalesOfShift ctx sh.id (Request.runAll reqs db)).filter
              fun s => s.sale.status ≠ .voided)
        ∧ (shiftTotals ctx sh (Request.runAll reqs db)).saleCount
              + (shiftTotals ctx sh (Request.runAll reqs db)).voidCount
            = (db.salesOfShift sh.id).length + completions sh.id reqs db
        ∧ (sh.closedAt ≠ none → ∀ later,
            (Request.runAll (reqs ++ later) db).shift? sh.id = some sh
              ∧ shiftTotals ctx sh (Request.runAll (reqs ++ later) db)
                = shiftTotals ctx sh (Request.runAll reqs db)) := by
  have hbooks : ∀ db0 reqs, db0.Valid → db0.Booked →
      (Request.runAll reqs db0).Valid ∧ (Request.runAll reqs db0).Booked := by
    intro db0 reqs hdb0 hbooked0
    apply Request.runAll_keeps hdb0 _ hbooked0
    intro req _ db1 db2 hevent hbooked1
    exact hevent.booked Env.sequential_pos hbooked1
  obtain ⟨hvalid, hbooked'⟩ := hbooks db reqs hdb hbooked
  have htotals := shiftTotals_eq hbooked' hsh hbranch
  obtain ⟨hsales, hrefunds⟩ := hbooked'.findSales hsh hbranch
  refine ⟨?_, ?_, ?_, ?_⟩
  . rw [htotals]
    exact hbooked'.consistent sh
  . intro s hs
    rw [hrefunds] at hs
    rw [hsales]
    exact hbooked'.refund_sold hs
  . rw [htotals, totalsOf_counts, Request.runAll_salesOfShift reqs hdb]
  . intro hclosed later
    have happend : Request.runAll (reqs ++ later) db
        = Request.runAll later (Request.runAll reqs db) := by
      unfold Request.runAll
      exact List.foldl_append
    rw [happend]
    have hkeeps : Database.KeepsClosed sh (Request.runAll reqs db)
        (Request.runAll later (Request.runAll reqs db)) := by
      apply (Request.runAll_keeps hvalid _ ⟨hsh, fun book => .refl book _ _⟩).2
      intro req _ db1 db2 hevent
      exact hevent.keepsClosed hclosed
    have hlater := (hbooks _ later hvalid hbooked').2
    refine ⟨hkeeps.shift, ?_⟩
    rw [shiftTotals_eq hlater hkeeps.shift hbranch, htotals]
    exact totalsOf_congr rfl rfl hkeeps.books

namespace Cafe

/-- A sale, the close of its shift and a void that comes too late. -/
def day : List Request :=
  [
    .completeSale terminal sale 100,
    .closeShift terminal ⟨200, cupsC_nonneg, cupsC_le⟩ 500,
    .voidSale terminal 7 "Wrong cup" 600 id
  ]

def closedShift : Shift :=
  shift.close 500 200 200

theorem day_closes : (Request.runAll day database).shift? 40 = some closedShift := by
  decide +kernel

end Cafe

theorem totals_reconcile_cafe
    : (shiftTotals Cafe.terminal Cafe.closedShift (Request.runAll Cafe.day Cafe.database)).saleCount
          + (shiftTotals Cafe.terminal Cafe.closedShift
              (Request.runAll Cafe.day Cafe.database)).voidCount
        = 0 + completions 40 Cafe.day Cafe.database
      ∧ completions 40 Cafe.day Cafe.database = 1 := by
  have hbranch : Cafe.closedShift.branchId = Cafe.terminal.branchId := rfl
  have htotals := totals_reconcile Cafe.day Cafe.database_valid Cafe.database_booked
    Cafe.day_closes hbranch
  refine ⟨htotals.2.2.1, ?_⟩
  decide +kernel

end SentryPos
