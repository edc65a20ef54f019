import SentryPos.Pos.Level
import SentryPos.Pos.Posting

/-!
This module contains what a posting does to the tables: the rows it adds, the levels it lowers and
the movements it records.
-/

namespace SentryPos

open ReadCommitted

namespace Write

def sales : Write → List Sale
  | insertSale row => [row]
  | _ => []

def items : Write → List SaleItem
  | insertItem row => [row]
  | _ => []

def payments : Write → List SalePayment
  | insertPayment row => [row]
  | _ => []

end Write

/-- Writes that neither void nor refund a sale leave the sales alone, but for new ones. -/
theorem sales_replay {log : List Write} (hlog : ∀ w ∈ log, w.reversed? = none) (db : Database)
    : (replay log db).sales = db.sales ++ log.flatMap Write.sales := by
  apply replay_appends Database.sales
  intro w hw db
  have hnone := hlog w hw
  cases w <;> simp_all [store_apply, Write.apply, Write.sales, Write.reversed?]

theorem items_replay (log : List Write) (db : Database)
    : (replay log db).saleItems = db.saleItems ++ log.flatMap Write.items := by
  apply replay_appends Database.saleItems
  intro w _ db
  cases w <;> simp [store_apply, Write.apply, Write.items]

theorem payments_replay (log : List Write) (db : Database)
    : (replay log db).salePayments = db.salePayments ++ log.flatMap Write.payments := by
  apply replay_appends Database.salePayments
  intro w _ db
  cases w <;> simp [store_apply, Write.apply, Write.payments]

/-- What the tracked lines of a draft take from a level of their branch. -/
def SaleDraftDto.taken (dto : SaleDraftDto) (branchId : Uuid) (key : StockKey) : ℤ :=
  if key.branchId = branchId then takes dto.lines (key.productId, key.variantId) else 0

theorem taken_inBranch (dto : SaleDraftDto) (branchId : Uuid) (k : LevelKey)
    : dto.taken branchId (k.inBranch branchId) = takes dto.lines k := by
  simp [SaleDraftDto.taken, LevelKey.inBranch]

theorem inBranch_eq_iff {k : LevelKey} {branchId : Uuid} {key : StockKey}
    : k.inBranch branchId = key ↔ key.branchId = branchId ∧ k = (key.productId, key.variantId) := by
  obtain ⟨productId, variantId⟩ := k
  obtain ⟨branchId', productId', variantId'⟩ := key
  simp only [LevelKey.inBranch, StockKey.mk.injEq, Prod.mk.injEq]
  constructor
  . rintro ⟨rfl, rfl, rfl⟩
    exact ⟨rfl, rfl, rfl⟩
  . rintro ⟨rfl, rfl, rfl⟩
    exact ⟨rfl, rfl, rfl⟩

theorem sum_ite_neg {α : Type} (xs : List α) (p : α → Prop) [DecidablePred p] (f : α → ℤ)
    : (xs.map fun x => if p x then -f x else 0).sum = -(xs.map fun x => if p x then f x else 0).sum
    := by
  induction xs with
  | nil => rfl
  | cons x xs ih =>
    rw [List.map_cons, List.sum_cons, ih, List.map_cons, List.sum_cons]
    split
    . ring
    . ring

theorem sum_trackedLines (dto : SaleDraftDto) (branchId : Uuid) (key : StockKey)
    : ((trackedLines dto.lines).map fun l => if l.1.inBranch branchId = key then l.2 else 0).sum
        =
      dto.taken branchId key := by
  unfold SaleDraftDto.taken takes
  simp only [inBranch_eq_iff]
  by_cases hbranch : key.branchId = branchId
  . simp only [hbranch, true_and, if_true]
    rw [List.sum_map_ite]
    simp
  . simp [hbranch]

section Posting

variable {ctx : TerminalContext} {dto : SaleDraftDto} {totals : CartTotals}
  {costByLine : List (Uuid × Option ℤ)} {now : DateTime} {p : Posting} {db db' : Database}

theorem mem_stockLog {rows : List BranchStock} {wanted : List (LevelKey × ℤ)} {w : Write}
    (h : w ∈ stockLog rows wanted)
    : ∃ want ∈ wanted, ∃ r, lockedRow rows want.1 = some r ∧ w = .addStock r.id (-want.2) := by
  simp only [stockLog, decrements, List.mem_map, List.mem_filterMap, Option.map_eq_some_iff] at h
  obtain ⟨d, ⟨want, hwant, r, hr, hd⟩, hw⟩ := h
  subst hd hw
  exact ⟨want, hwant, r, hr, rfl⟩

theorem Posting.mem_log {w : Write} (h : w ∈ p.log ctx dto)
    : w ∈ stockLog p.rows (wantedMilli dto.lines) ∨ w = .insertSale p.data.sale
        ∨ (∃ item ∈ p.data.items, w = .insertItem item) ∨ w = .insertPayment p.data.payment
        ∨ (∃ l ∈ trackedLines dto.lines, w = .insertMovement (saleMovement ctx.branchId dto.id l))
        ∨ ∃ receiptSeq, w = .setReceiptSeq ctx.terminalId receiptSeq := by
  unfold log saleLog movementLog at h
  simp only [List.mem_append, List.mem_cons, List.mem_map, List.not_mem_nil, or_false,
    Option.mem_toList, Option.map_eq_some_iff] at h
  grind

theorem Posting.not_reversed {w : Write} (h : w ∈ p.log ctx dto) : w.reversed? = none := by
  rcases mem_log h with h | h | ⟨_, _, h⟩ | h | ⟨_, _, h⟩ | ⟨_, h⟩
  . obtain ⟨_, _, _, _, h⟩ := mem_stockLog h
    rw [h]
    rfl
  all_goals
    rw [h]
    rfl

theorem Posting.flatMap_log {α : Type} {rows : Write → List α}
    (hstock : ∀ id qty, rows (.addStock id qty) = [])
    (hseq : ∀ id receiptSeq, rows (.setReceiptSeq id receiptSeq) = [])
    : (p.log ctx dto).flatMap rows
        =
      rows (.insertSale p.data.sale)
        ++ p.data.items.flatMap (fun item => rows (.insertItem item))
        ++ rows (.insertPayment p.data.payment)
        ++ (trackedLines dto.lines).flatMap
            fun l => rows (.insertMovement (saleMovement ctx.branchId dto.id l)) := by
  have hstockLog : (stockLog p.rows (wantedMilli dto.lines)).flatMap rows = [] := by
    rw [List.flatMap_eq_nil_iff]
    intro w hw
    obtain ⟨want, _, r, _, heq⟩ := mem_stockLog hw
    rw [heq, hstock]
  have hseqLog : ((p.receiptSeq.map (.setReceiptSeq ctx.terminalId)).toList).flatMap rows = [] := by
    cases p.receiptSeq with
    | none => rfl
    | some n => simp [hseq]
  unfold log
  rw [List.flatMap_append, List.flatMap_append, List.flatMap_append, hstockLog, hseqLog]
  simp [saleLog, movementLog, List.flatMap_map]

theorem Posting.sum_log {f : Write → ℤ} (hsale : ∀ row, f (.insertSale row) = 0)
    (hitem : ∀ row, f (.insertItem row) = 0) (hpayment : ∀ row, f (.insertPayment row) = 0)
    (hseq : ∀ id receiptSeq, f (.setReceiptSeq id receiptSeq) = 0)
    : ((p.log ctx dto).map f).sum
        =
      ((stockLog p.rows (wantedMilli dto.lines)).map f).sum
        + ((trackedLines dto.lines).map
            fun l => f (.insertMovement (saleMovement ctx.branchId dto.id l))).sum := by
  have hitems : (p.data.items.map fun item => f (.insertItem item)).sum = 0 := by
    simp [hitem]
  have hseqLog : (((p.receiptSeq.map (.setReceiptSeq ctx.terminalId)).toList).map f).sum = 0 := by
    cases p.receiptSeq with
    | none => rfl
    | some n => simp [hseq]
  unfold log saleLog movementLog
  simp only [List.map_append, List.sum_append, List.map_cons, List.sum_cons, List.map_map,
    Function.comp_def, hsale, hpayment, hitems, hseqLog]
  simp

theorem Posting.sum_movedDelta (key : StockKey)
    : ((p.log ctx dto).map (·.movedDelta key)).sum = -dto.taken ctx.branchId key := by
  rw [Posting.sum_log (fun _ => rfl) (fun _ => rfl) (fun _ => rfl) fun _ _ => rfl,
    ← sum_trackedLines, ← sum_ite_neg]
  have hstock : ((stockLog p.rows (wantedMilli dto.lines)).map (·.movedDelta key)).sum = 0 := by
    simp [stockLog, Write.movedDelta, Function.comp_def]
  have hmoved
      : ∀ l : LevelKey × ℤ,
          (Write.insertMovement (saleMovement ctx.branchId dto.id l)).movedDelta key
            =
          if l.1.inBranch ctx.branchId = key then -l.2 else 0 := by
    intro l
    by_cases hkey : l.1.inBranch ctx.branchId = key
    . simp [Write.movedDelta, saleMovement, hkey]
    . simp [Write.movedDelta, saleMovement, hkey]
  simp only [hstock, hmoved, zero_add]

variable [Rounding] (h : Posted ctx dto totals costByLine now p db db')

include h

theorem Posted.sales : db'.sales = db.sales ++ [p.data.sale] := by
  rw [h.after, sales_replay fun w hw => Posting.not_reversed hw,
    Posting.flatMap_log (fun _ _ => rfl) fun _ _ => rfl]
  simp [Write.sales]

theorem Posted.saleItems : db'.saleItems = db.saleItems ++ p.data.items := by
  rw [h.after, items_replay, Posting.flatMap_log (fun _ _ => rfl) fun _ _ => rfl]
  simp [Write.items]

theorem Posted.salePayments : db'.salePayments = db.salePayments ++ [p.data.payment] := by
  rw [h.after, payments_replay, Posting.flatMap_log (fun _ _ => rfl) fun _ _ => rfl]
  have hitems : p.data.items.flatMap (fun item => (Write.insertItem item).payments) = [] := by
    simp [Write.payments]
  rw [hitems]
  simp [Write.payments]

theorem Posted.stockMovements
    : db'.stockMovements
        =
      db.stockMovements ++ (trackedLines dto.lines).map (saleMovement ctx.branchId dto.id) := by
  rw [h.after, movements_replay, Posting.flatMap_log (fun _ _ => rfl) fun _ _ => rfl]
  simp [Write.movements, List.map_eq_flatMap]

theorem Posted.fresh : db.sale? dto.id = none := by
  have hunique : UniqueIndex.Unique Write (replay (p.log ctx dto) db) := by
    rw [← h.after]
    exact h.valid'.unique
  have hrow : .insertSale p.data.sale ∈ p.log ctx dto := by
    simp [Posting.log, saleLog]
  have hadded : IndexEntry.sale dto.id ∈ (Write.insertSale p.data.sale).added := by
    simp [Write.added, (buildSaleData_ok h.data).id]
  have habsent := hunique.absent hrow hadded
  cases hs : db.sale? dto.id with
  | none => rfl
  | some s => exact absurd (Database.mem_entries_sale hs) habsent

theorem Posted.sale? : db'.sale? dto.id = some p.data.sale := by
  have hid := (buildSaleData_ok h.data).id
  have hfresh := h.fresh
  unfold Database.sale? at hfresh ⊢
  rw [h.sales, Table.get_append, hfresh, Option.none_or, ← hid, Table.get_singleton_self]

theorem Posted.locked {want : LevelKey × ℤ} (hwant : want ∈ wantedMilli dto.lines)
    : ∃ r, lockedRow p.rows want.1 = some r ∧ want.2 ≤ r.qty
        ∧ ∀ qty, Restock db (want.1.inBranch ctx.branchId) qty (.addStock r.id qty) := by
  obtain ⟨hpos, hle⟩ := le_available_of_wanted h.pass hwant
  unfold availableMilli at hle
  cases hrow : lockedRow p.rows want.1 with
  | none =>
    rw [hrow] at hle
    simp only [Option.map_none, Option.getD_none] at hle
    omega
  | some r =>
    rw [hrow] at hle
    obtain ⟨hmem, hkey⟩ := lockedRow_mem hrow
    obtain ⟨hstock, hbranch, hlive⟩ := h.rows r hmem
    refine ⟨r, rfl, hle, ?_⟩
    intro qty
    apply Restock.add hstock _ hlive
    rw [← hkey, ← hbranch]
    rfl

theorem Posted.steady : ∀ w ∈ p.log ctx dto, w.Steady db := by
  intro w hw
  rcases Posting.mem_log hw with hw | hw | ⟨_, _, hw⟩ | hw | ⟨_, _, hw⟩ | ⟨_, hw⟩
  . obtain ⟨want, hwant, r, hr, heq⟩ := mem_stockLog hw
    obtain ⟨r', hr', _, hrestock⟩ := h.locked hwant
    rw [hr] at hr'
    cases hr'
    rw [heq]
    exact (hrestock _).steady
  all_goals
    rw [hw]
    intro _ _ _
    rfl

theorem Posted.sum_stockLog (key : StockKey) {wanted : List (LevelKey × ℤ)}
    (hwanted : wanted ⊆ wantedMilli dto.lines)
    : ((stockLog p.rows wanted).map (·.levelDelta db key)).sum
        =
      (wanted.map fun want => if want.1.inBranch ctx.branchId = key then -want.2 else 0).sum := by
  induction wanted with
  | nil => rfl
  | cons want wanted ih =>
    rw [List.cons_subset] at hwanted
    obtain ⟨r, hr, _, hrestock⟩ := h.locked hwanted.1
    have hcons
        : stockLog p.rows (want :: wanted)
            =
          .addStock r.id (-want.2) :: stockLog p.rows wanted := by
      simp [stockLog, decrements, hr]
    rw [hcons, List.map_cons, List.sum_cons, List.map_cons, List.sum_cons, ih hwanted.2,
      (hrestock (-want.2)).levelDelta]

theorem Posted.sum_levelDelta (key : StockKey)
    : ((p.log ctx dto).map (·.levelDelta db key)).sum = -dto.taken ctx.branchId key := by
  rw [Posting.sum_log (fun _ => rfl) (fun _ => rfl) (fun _ => rfl) fun _ _ => rfl,
    h.sum_stockLog key (List.Subset.refl _), ← sum_trackedLines]
  have hsum := sum_wantedMilli dto.lines fun k => k.inBranch ctx.branchId = key
  simp only [decide_eq_true_eq] at hsum
  rw [← hsum, sum_ite_neg]
  simp [Write.levelDelta]

theorem Posted.level (key : StockKey)
    : db'.level key = db.level key - dto.taken ctx.branchId key := by
  have hunique : UniqueIndex.Unique Write (replay (p.log ctx dto) db) := by
    rw [← h.after]
    exact h.valid'.unique
  rw [h.after, level_replay hunique h.steady, h.sum_levelDelta]
  ring

theorem Posted.balanced : Balanced db (p.log ctx dto) := by
  intro key
  rw [h.sum_levelDelta, Posting.sum_movedDelta]

end Posting

end SentryPos
