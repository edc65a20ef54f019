import Mathlib.Data.List.Pairwise
import SentryPos.Pos.Commits
import SentryPos.Pos.Ledger

/-!
This module contains the proof that a sale is voided or refunded at most once, and that the one
reversal gives back what the sale took.
-/

namespace SentryPos

open ReadCommitted

variable {l : Env Database Write Key Stmt} {req : Request} {log : List Write} {locks : List Key}
  {db db' : Database} {id : Uuid}

/-- What movements add to a level. -/
def netOf (ms : List StockMovement) (key : StockKey) : ℤ :=
  (ms.map fun m => if m.toStockKey = key then m.qtyDelta else 0).sum

/-- What a sale has taken from a level. -/
def Database.taken (db : Database) (id : Uuid) (key : StockKey) : ℤ :=
  -netOf (db.saleMoves id) key

/-- What a sale and its reversal have added to a level. -/
def Database.netOfSale (db : Database) (id : Uuid) (key : StockKey) : ℤ :=
  netOf (db.stockMovements.filter fun m => m.refId = id && (m.type = .sale || m.type.isReversal)) key

/-- The sale has been voided or refunded. -/
def Database.IsReversed (id : Uuid) (db : Database) : Prop :=
  ∃ s, db.sale? id = some s ∧ s.status ≠ .completed

theorem netOf_restored {ms : List StockMovement} {branchId : Uuid} {type : MovementType}
    (h : ∀ m ∈ ms, m.branchId = branchId) (key : StockKey)
    : netOf (ms.map fun m => restoreMovement m branchId type) key = -netOf ms key := by
  unfold netOf
  induction ms with
  | nil => rfl
  | cons m ms ih =>
    have hkey : (restoreMovement m branchId type).toStockKey = m.toStockKey := by
      rw [← h m (by simp)]
      rfl
    have hdelta : (restoreMovement m branchId type).qtyDelta = -m.qtyDelta := rfl
    simp only [List.map_cons, List.sum_cons, hkey, hdelta]
    rw [ih]
    . split
      . ring
      . ring
    . intro m' hm'
      exact h m' (List.mem_cons_of_mem m hm')

theorem Database.netOfSale_eq (db : Database) (id : Uuid) (key : StockKey)
    : db.netOfSale id key = netOf (db.reversalMoves id) key - db.taken id key := by
  unfold netOfSale taken saleMoves reversalMoves netOf
  induction db.stockMovements with
  | nil => rfl
  | cons m ms ih =>
    by_cases hid : m.refId = id
    . by_cases hsale : m.type = .sale
      . have hnot : MovementType.sale.isReversal = false := rfl
        simp only [List.filter_cons, hid, hsale, hnot, decide_true,
          Bool.true_or, Bool.and_self, if_true, List.map_cons, List.sum_cons, ih,
          Bool.false_and, Bool.false_eq_true, if_false]
        ring
      . by_cases hreversal : m.type.isReversal
        . simp only [List.filter_cons, hid, hsale, hreversal, decide_true, decide_false,
            Bool.or_true, Bool.and_self, if_true, List.map_cons, List.sum_cons, ih,
            Bool.false_and, Bool.false_eq_true, if_false]
          ring
        . simpa [List.filter_cons, hid, hsale, hreversal] using ih
    . simpa [List.filter_cons, hid] using ih

theorem sum_neg_netOf (ms : List StockMovement) (key : StockKey)
    : (ms.map fun m => if m.toStockKey = key then -m.qtyDelta else 0).sum = -netOf ms key := by
  exact sum_ite_neg ms (fun m => m.toStockKey = key) (·.qtyDelta)

namespace Reversed

variable {ctx : TerminalContext} {type : MovementType} {s : Sale} {w : Write}

theorem restorable (h : Reversed ctx id type s w log db) (hdb : db.Traced)
    : SentryPos.restorable ctx id db = db.saleMoves id
        ∧ ∀ m ∈ db.saleMoves id, m.branchId = ctx.branchId := by
  have heq := restorable_eq hdb h.sale h.branch
  refine ⟨heq, ?_⟩
  intro m hm
  rw [← heq] at hm
  simp only [SentryPos.restorable, List.mem_filter, Bool.and_eq_true, decide_eq_true_eq] at hm
  exact hm.2.1

theorem level (h : Reversed ctx id type s w log db) (hdb : db.Traced) (hw : w.reversed? = some id)
    (hunique : UniqueIndex.Unique Write (replay log db)) (key : StockKey)
    : (replay log db).level key = db.level key + db.taken id key := by
  have hsteady := (h.doubleEntry hw).steady
  obtain ⟨restores, hlog, hbatch⟩ := h.log
  obtain ⟨hmoves, _⟩ := h.restorable hdb
  have hsum
      : (restores.map (·.levelDelta db key)).sum
          =
        ((db.saleMoves id).map fun m => if m.toStockKey = key then -m.qtyDelta else 0).sum := by
    rw [← hmoves]
    apply hbatch.sum
    intro m _ ws hws
    obtain ⟨restock, hrestock, hws⟩ := hws
    have hmovement
        : (Write.insertMovement (restoreMovement m ctx.branchId type)).levelDelta db key = 0 := rfl
    rw [hws]
    simp [hrestock.levelDelta, hmovement]
  have hfirst : w.levelDelta db key = 0 := (Write.reversed_neutral hw).1 db key
  rw [level_replay hunique hsteady, hlog, List.map_cons, List.sum_cons, hfirst, hsum, sum_neg_netOf]
  unfold Database.taken
  ring

theorem reversalMoves (h : Reversed ctx id type s w log db) (hdb : db.Traced)
    (hw : w.reversed? = some id) (htype : type.isReversal)
    : (replay log db).reversalMoves id
        =
      (db.saleMoves id).map fun m => restoreMovement m ctx.branchId type := by
  obtain ⟨restores, hlog, hbatch⟩ := h.log
  obtain ⟨hmoves, _⟩ := h.restorable hdb
  rw [hmoves] at hbatch
  have hfirst : w.movements = [] := by
    cases w <;> simp_all [Write.movements, Write.reversed?]
  have hrecorded
      : restores.flatMap Write.movements
          =
        (db.saleMoves id).map fun m => restoreMovement m ctx.branchId type := by
    apply hbatch.flatMap
    intro m _ ws hws
    obtain ⟨restock, hrestock, hws⟩ := hws
    rw [hws]
    cases hrestock <;> rfl
  have hnone : db.reversalMoves id = [] := by
    unfold Database.reversalMoves
    rw [List.filter_eq_nil_iff]
    intro m hm hboth
    simp only [Bool.and_eq_true, decide_eq_true_eq] at hboth
    obtain ⟨s', hs', hstatus⟩ := hdb.reversals m hm hboth.1
    rw [hboth.2, h.sale] at hs'
    cases hs'
    exact hstatus h.completed
  have hall
      : ((db.saleMoves id).map fun m => restoreMovement m ctx.branchId type).filter
            (fun m => m.type.isReversal && m.refId = id)
          =
        (db.saleMoves id).map fun m => restoreMovement m ctx.branchId type := by
    rw [List.filter_eq_self]
    intro m hm
    obtain ⟨m', hm', heq⟩ := List.mem_map.mp hm
    simp only [Database.saleMoves, List.mem_filter, Bool.and_eq_true, decide_eq_true_eq] at hm'
    rw [← heq]
    simp [restoreMovement, htype, hm'.2.2]
  unfold Database.reversalMoves at hnone ⊢
  rw [movements_replay, List.filter_append, hnone, List.nil_append, hlog, List.flatMap_cons, hfirst,
    List.nil_append, hrecorded, hall]

end Reversed


theorem Database.IsReversed.kept (h : db.IsReversed id) (hevent : req.Event l db db')
    : db'.sale? id = db.sale? id ∧ db'.saleMoves id = db.saleMoves id
        ∧ db'.reversalMoves id = db.reversalMoves id := by
  obtain ⟨s, hs, hstatus⟩ := h
  obtain ⟨log, locks, hpending, _, hafter⟩ := hevent.commit
  rw [hafter]
  refine ⟨?_, hpending.saleMoves_replay hs, hpending.reversalMoves_replay hs hstatus⟩
  rw [hs]
  exact hpending.sale?_replay hs hstatus

theorem Reversed.flips {ctx : TerminalContext} {type : MovementType} {s : Sale} {w : Write}
    (h : Reversed ctx id type s w log db) (hw : w.reversed? = some id)
    : ¬ db.IsReversed id ∧ (replay log db).IsReversed id := by
  constructor
  . rintro ⟨s', hs', hstatus⟩
    rw [h.sale] at hs'
    cases hs'
    exact hstatus h.completed
  . apply Database.reversed_replay h.sale
    obtain ⟨restores, hlog, _⟩ := h.log
    exact .inl ⟨w, by simp [hlog], hw⟩

namespace Reversal

theorem flips (h : Reversal l req log db id)
    : ¬ db.IsReversed id ∧ (replay log db).IsReversed id := by
  obtain ⟨_, _, hw, _, hreversed⟩ := h
  exact hreversed.flips hw

theorem restores (h : Reversal l req log db id) (hpending : Pending log locks db) (hdb : db.Traced)
    (key : StockKey)
    : (replay log db).level key = db.level key + db.taken id key
        ∧ (replay log db).saleMoves id = db.saleMoves id
        ∧ netOf ((replay log db).reversalMoves id) key = db.taken id key := by
  obtain ⟨_, htype, hw, _, hreversed⟩ := h
  refine ⟨hreversed.level hdb hw hpending.unique key, hpending.saleMoves_replay hreversed.sale, ?_⟩
  rw [hreversed.reversalMoves hdb hw htype, netOf_restored (hreversed.restorable hdb).2]
  rfl

end Reversal

theorem Request.Event.reversal (h : req.Event l db db') (hbefore : ¬ db.IsReversed id)
    (hafter : db'.IsReversed id)
    : ∃ log locks, Pending log locks db ∧ Reversal l req log db id ∧ db' = replay log db := by
  cases h.saleStep id with
  | same hsame =>
    exfalso
    apply hbefore
    unfold Database.IsReversed at hafter ⊢
    rwa [← hsame]
  | posted _ hid _ hposted =>
    exfalso
    obtain ⟨s, hs, hstatus⟩ := hafter
    have hsale := hposted.sale?
    rw [hid, hs] at hsale
    cases hsale
    apply hstatus
    exact (buildSaleData_ok hposted.data).status
  | reversed hpending hreversal hlog => exact ⟨_, _, hpending, hreversal, hlog⟩

theorem Request.Event.status (h : req.Event l db db') {s : Sale} (hs : db.sale? id = some s)
    : ∃ s', db'.sale? id = some s'
        ∧ (s' = s
          ∨ s.status = .completed ∧ (s'.status = .voided ∨ s'.status = .refunded)
              ∧ req.Reverses id) := by
  cases h.saleStep id with
  | same hsame => exact ⟨s, by rw [hsame, hs], .inl rfl⟩
  | posted _ hid _ hposted =>
    have hfresh := hposted.fresh
    rw [hid, hs] at hfresh
    cases hfresh
  | reversed hpending hreversal hlog =>
    obtain ⟨s', hs', hstatus⟩ := hreversal.flips.2
    rw [← hlog] at hs'
    refine ⟨s', hs', .inr ?_⟩
    obtain ⟨hreq, _, hw, _, hreversed⟩ := hreversal
    have hcompleted := hreversed.completed
    rw [hreversed.sale] at hs
    cases hs
    refine ⟨hcompleted, ?_, hreq⟩
    cases hstatus' : s'.status with
    | completed => exact absurd hstatus' hstatus
    | voided => exact .inl rfl
    | refunded => exact .inr rfl

theorem Posted.taken {ctx : TerminalContext} {dto : SaleDraftDto} {totals : CartTotals}
    {costByLine : List (Uuid × Option ℤ)} {now : DateTime} {p : Posting}
    (h : Posted ctx dto totals costByLine now p db db') (hdb : db.Traced) (key : StockKey)
    : db'.taken dto.id key = dto.taken ctx.branchId key := by
  have hnone : db.saleMoves dto.id = [] := by
    unfold Database.saleMoves
    rw [List.filter_eq_nil_iff]
    intro m hm hboth
    simp only [Bool.and_eq_true, decide_eq_true_eq] at hboth
    obtain ⟨s, hs, _⟩ := hdb.saleMoves m hm hboth.1
    rw [hboth.2, h.fresh] at hs
    cases hs
  have hall
      : ((trackedLines dto.lines).map (saleMovement ctx.branchId dto.id)).filter
            (fun m => m.type = .sale && m.refId = dto.id)
          =
        (trackedLines dto.lines).map (saleMovement ctx.branchId dto.id) := by
    rw [List.filter_eq_self]
    intro m hm
    obtain ⟨line, _, heq⟩ := List.mem_map.mp hm
    rw [← heq]
    simp [saleMovement]
  unfold Database.taken Database.saleMoves at *
  rw [h.stockMovements, List.filter_append, hnone, List.nil_append, hall]
  unfold netOf
  rw [List.map_map]
  have hline
      : (fun m : StockMovement => if m.toStockKey = key then m.qtyDelta else 0)
            ∘ saleMovement ctx.branchId dto.id
          =
        fun l => if l.1.inBranch ctx.branchId = key then -l.2 else 0 := rfl
  rw [hline, sum_ite_neg _ (fun l : LevelKey × ℤ => l.1.inBranch ctx.branchId = key) (·.2),
    neg_neg, sum_trackedLines]

/-- The tables that a reversal writes to are the same before and after. -/
structure SameStock (db db' : Database) : Prop where
  sales : db'.sales = db.sales
  branchStock : db'.branchStock = db.branchStock
  stockMovements : db'.stockMovements = db.stockMovements

theorem PinChecked.sameStock (h : PinChecked log) : SameStock db (replay log db) := by
  obtain ⟨_, _, _, hlog⟩ := h
  rw [hlog]
  exact ⟨rfl, rfl, rfl⟩

section Run

variable {ι : Type} [DecidableEq ι] {reqs : ι → Request} {c : System ι}

/--
What a run leaves of the reversals of one sale: `once` and `winner` say that at most one commits,
`restored` what it gives back of what the sale took, and `others` and `failed` that no other
void or refund changes a thing.
-/
structure ReversedOnce (reqs : ι → Request) (c : System ι) (id : Uuid) : Prop where
  status : ∀ e ∈ c.history, ∀ s, e.before.sale? id = some s → ∃ s', e.after.sale? id = some s'
    ∧ (s' = s
      ∨ s.status = .completed ∧ (s'.status = .voided ∨ s'.status = .refunded)
          ∧ (reqs e.client).Reverses id)
  once : c.history.Pairwise fun e e' =>
    ¬ (e.Flips (Database.IsReversed id) ∧ e'.Flips (Database.IsReversed id))
  winner : ∀ i j r r', (reqs i).Reverses id → (reqs j).Reverses id →
    (c.procs i).prog.result? = some (.ok r) → (c.procs j).prog.result? = some (.ok r') → i = j
  restored : ∀ e ∈ c.history, e.Flips (Database.IsReversed id) → ∀ key,
    e.after.level key = e.before.level key + c.db.taken id key ∧ c.db.netOfSale id key = 0
  taken : ∀ e ∈ c.history, e.before.sale? id = none → e.after.sale? id ≠ none → ∀ key,
    e.after.level key = e.before.level key - c.db.taken id key
  others : ∀ e ∈ c.history, (reqs e.client).Reverses id → ¬ e.Flips (Database.IsReversed id) →
    SameStock e.before e.after
  failed : ∀ i r, (reqs i).Reverses id → (c.procs i).prog.result? = some (.error r) →
    ∀ e ∈ c.history, e.client = i → SameStock e.before e.after

theorem taken_kept (hdb : db.Valid) (hrun : Run (.error .aborted) (System.start db reqs) c)
    {e : Event ι Database} (he : e ∈ c.history) {s : Sale} (hs : e.after.sale? id = some s)
    : c.db.saleMoves id = e.after.saleMoves id := by
  have hkept : (∃ s, c.db.sale? id = some s) ∧ c.db.saleMoves id = e.after.saleMoves id := by
    apply run_keeps_from (P := fun d : Database =>
      (∃ s, d.sale? id = some s) ∧ d.saleMoves id = e.after.saleMoves id) hdb hrun _ he
    . exact ⟨⟨s, hs⟩, rfl⟩
    . rintro i db1 db2 hevent ⟨⟨s, hs⟩, hmoves⟩
      obtain ⟨log, locks, hpending, _, hafter⟩ := hevent.commit
      rw [hafter, hpending.saleMoves_replay hs]
      obtain ⟨s', hs', _⟩ := (Database.Grows.replay log db1).sale id s hs
      exact ⟨⟨s', hs'⟩, hmoves⟩
  exact hkept.2

theorem commitsOf_flips {i : ι} {log : List Write} {before : Database}
    (hmem : (before, replay log before) ∈ c.commitsOf i)
    (hflips : ¬ before.IsReversed id ∧ (replay log before).IsReversed id)
    : ∃ e ∈ c.history, e.client = i ∧ e.Flips (Database.IsReversed id) := by
  unfold Config.commitsOf at hmem
  obtain ⟨e, he, heq⟩ := List.mem_map.mp hmem
  simp only [List.mem_filter, decide_eq_true_eq] at he
  simp only [Prod.mk.injEq] at heq
  refine ⟨e, he.1, he.2, ?_⟩
  unfold Event.Flips
  rw [heq.1, heq.2]
  exact hflips

theorem returned_flips (hdb : db.Valid) (hrun : Run (.error .aborted) (System.start db reqs) c)
    {i : ι} {r : Response} (hreq : (reqs i).Reverses id)
    (hr : (c.procs i).prog.result? = some (.ok r))
    : ∃ e ∈ c.history, e.client = i ∧ e.Flips (Database.IsReversed id) := by
  have houtcome := (run_returned hdb hrun hr).outcome
  cases hi : reqs i with
  | voidSale ctx id' reason now newIds =>
    rw [hi] at houtcome hreq
    obtain ⟨before, log, hvoided, hcommits⟩ := houtcome
    obtain ⟨s, hreversed, _⟩ := hvoided.reversed
    have hid : id' = id := hreq
    subst hid
    have hmem : (before, replay log before) ∈ c.commitsOf i := by
      rw [hcommits]
      exact List.mem_singleton_self _
    exact commitsOf_flips hmem (hreversed.flips rfl)
  | refundSale verifySecret ctx id' reason pin now newIds =>
    rw [hi] at houtcome hreq
    obtain ⟨pins, own, _, ⟨before, log, hrefunded, hown⟩, hcommits⟩ := houtcome
    obtain ⟨s, _, hreversed, _⟩ := hrefunded.reversed
    have hid : id' = id := hreq
    subst hid
    have hmem : (before, replay log before) ∈ c.commitsOf i := by
      rw [hcommits, hown]
      exact List.mem_append_right pins (List.mem_singleton_self _)
    exact commitsOf_flips hmem (hreversed.flips rfl)
  | _ =>
    rw [hi] at hreq
    exact hreq.elim

theorem Request.Event.others (h : req.Event l db db') (hreq : req.Reverses id)
    (hflips : ¬ (¬ db.IsReversed id ∧ db'.IsReversed id)) : SameStock db db' := by
  obtain ⟨log, _, _, hcommit, hafter⟩ := h.commit
  subst hafter
  cases hcommit with
  | voided h =>
    exfalso
    apply hflips
    obtain ⟨s, hreversed, _⟩ := h.reversed
    cases hreq
    exact hreversed.flips rfl
  | refunded h =>
    exfalso
    apply hflips
    obtain ⟨s, _, hreversed, _⟩ := h.reversed
    cases hreq
    exact hreversed.flips rfl
  | pin h => exact h.sameStock
  | _ => exact hreq.elim

/-- In every run a sale is voided or refunded at most once, and then gets back what it took. -/
theorem reversed_once (reqs : ι → Request) (id : Uuid) (hdb : db.Valid) (htraced : db.Traced)
    (hrun : Run (.error .aborted) (System.start db reqs) c) : ReversedOnce reqs c id := by
  have hevents := run_events hdb hrun
  have htraces := run_keeps hdb hrun (fun _ _ _ hevent => hevent.traced) htraced
  have hkept : ∀ e ∈ c.history, e.before.IsReversed id → e.after.IsReversed id := by
    intro e he hbefore
    have hsame := (hbefore.kept (hevents e he)).1
    unfold Database.IsReversed at hbefore ⊢
    rwa [hsame]
  have honce := hrun.chain.flips_once (P := Database.IsReversed id) hkept
  constructor
  . intro e he s hs
    exact (hevents e he).status hs
  . exact honce
  . intro i j r r' hi hj hri hrj
    obtain ⟨e, he, hclient, hflips⟩ := returned_flips hdb hrun hi hri
    obtain ⟨e', he', hclient', hflips'⟩ := returned_flips hdb hrun hj hrj
    by_contra hne
    have hdistinct : e ≠ e' := by
      intro heq
      apply hne
      rw [← hclient, ← hclient', heq]
    have : Std.Symm fun e e' : Event ι Database =>
        ¬ (e.Flips (Database.IsReversed id) ∧ e'.Flips (Database.IsReversed id)) := by
      constructor
      intro _ _ h h'
      exact h h'.symm
    exact honce.forall he he' hdistinct ⟨hflips, hflips'⟩
  . intro e he hflips key
    obtain ⟨log, locks, hpending, hreversal, hafter⟩ :=
      (hevents e he).reversal hflips.1 hflips.2
    obtain ⟨hlevel, hmoves, hnet⟩ := hreversal.restores hpending (htraces.2 e he).1 key
    rw [← hafter] at hlevel hmoves hnet
    obtain ⟨s, hs, _⟩ := hflips.2
    have htaken : c.db.saleMoves id = e.before.saleMoves id := by
      rw [taken_kept hdb hrun he hs, hmoves]
    have hreversals : c.db.IsReversed id ∧ c.db.reversalMoves id = e.after.reversalMoves id := by
      apply run_keeps_from (P := fun d : Database =>
        d.IsReversed id ∧ d.reversalMoves id = e.after.reversalMoves id) hdb hrun _ he
      . exact ⟨hflips.2, rfl⟩
      . rintro i db1 db2 hevent ⟨hreversed, hsame⟩
        obtain ⟨hsale, _, hback⟩ := hreversed.kept hevent
        refine ⟨?_, hback.trans hsame⟩
        unfold Database.IsReversed at hreversed ⊢
        rwa [hsale]
    constructor
    . rw [hlevel]
      unfold Database.taken
      rw [htaken]
    . rw [Database.netOfSale_eq, hreversals.2, hnet]
      unfold Database.taken
      rw [htaken]
      ring
  . intro e he hnone hsome key
    cases (hevents e he).saleStep id with
    | same hsame =>
      rw [hsame] at hsome
      exact absurd hnone hsome
    | posted _ hid _ hposted =>
      subst hid
      have htaken := taken_kept hdb hrun he hposted.sale?
      rw [hposted.level, ← hposted.taken (htraces.2 e he).1 key]
      unfold Database.taken
      rw [htaken]
    | reversed _ hreversal _ =>
      obtain ⟨_, _, _, _, hreversed⟩ := hreversal
      rw [hreversed.sale] at hnone
      cases hnone
  . intro e he hreq hflips
    exact (hevents e he).others hreq hflips
  . intro i r hreq hr e he hclient
    have hcommit : (e.before, e.after) ∈ c.commitsOf i := by
      unfold Config.commitsOf
      apply List.mem_map.mpr
      exact ⟨e, by simp [he, hclient], rfl⟩
    have hfailed := (run_returned hdb hrun hr).failed r rfl
    cases hi : reqs i with
    | voidSale =>
      rw [hi] at hfailed
      rw [show c.commitsOf i = [] from hfailed] at hcommit
      cases hcommit
    | refundSale =>
      rw [hi] at hfailed
      obtain ⟨log, hpin, hafter⟩ := hfailed _ hcommit
      have hlog : e.after = replay log e.before := hafter
      rw [hlog]
      exact hpin.sameStock
    | _ =>
      rw [hi] at hreq
      exact hreq.elim

end Run

namespace Cafe

theorem database_traced : database.Traced where
  drafts := by simp [database]
  saleMoves := by simp [database]
  reversals := by simp [database]

/-- Three cups, received under an operation id that the next sale reuses as its own id. -/
def delivery : ReceiveDto where
  lines := [⟨50, none, ⟨3000⟩, none, none, by decide, by decide, by simp, by simp⟩]
  lines_ne := by simp
  lines_length := by simp

def reuse : System (Fin 3) :=
  System.start database fun i =>
    match i with
    | 0 => .receive 1 20 delivery 7 fun _ _ => 0
    | 1 => .completeSale terminal sale 100
    | 2 => .voidSale terminal 7 "spilled" 200 fun _ => 0

def reuseSchedule : List (Fin 3) :=
  inRounds 2 [[8, 17, 12]]

theorem reuse_moves
    : (reuse.turns reuseSchedule).map (fun c =>
          (c.db.level ⟨20, 50, none⟩,
            netOf (c.db.stockMovements.filter (·.refId = 7)) ⟨20, 50, none⟩,
            c.history.map fun e =>
              ((e.before.sale? 7).map (·.status), (e.after.sale? 7).map (·.status))))
        =
      some (8000, 3000, [(none, none), (none, some .completed), (some .completed, some .voided)])
    := by
  decide +kernel

end Cafe

theorem Cafe.reuse_flips {c : System (Fin 3)} (h : reuse.turns reuseSchedule = some c)
    : ∃ e ∈ c.history, e.Flips (Database.IsReversed 7) := by
  have hmoves := reuse_moves
  rw [h, Option.map_some, Option.some.injEq, Prod.mk.injEq, Prod.mk.injEq] at hmoves
  have hlast
      : (some .completed, some .voided)
          ∈ c.history.map fun e =>
              ((e.before.sale? 7).map (·.status), (e.after.sale? 7).map (·.status)) := by
    rw [hmoves.2.2]
    simp
  obtain ⟨e, he, hstatus⟩ := List.mem_map.mp hlast
  simp only [Prod.mk.injEq, Option.map_eq_some_iff] at hstatus
  obtain ⟨⟨s, hs, hcompleted⟩, s', hs', hvoided⟩ := hstatus
  refine ⟨e, he, ?_, s', hs', by simp [hvoided]⟩
  rintro ⟨s'', hs'', hstatus⟩
  rw [hs] at hs''
  cases hs''
  exact hstatus hcompleted

/-- A movement of another kind may carry the id of a sale, so that not all of them cancel. -/
theorem movements_with_sale_id_not_zero
    : ¬ ∀ (reqs : Fin 3 → Request) (id : Uuid) (db : Database) (c : System (Fin 3)), db.Valid →
        db.Traced → Run (.error .aborted) (System.start db reqs) c →
          ∀ e ∈ c.history, e.Flips (Database.IsReversed id) → ∀ key,
            netOf (c.db.stockMovements.filter (·.refId = id)) key = 0 := by
  intro hall
  have hmoves := Cafe.reuse_moves
  rw [Option.map_eq_some_iff] at hmoves
  obtain ⟨c, hturns, hmoves⟩ := hmoves
  rw [Prod.mk.injEq, Prod.mk.injEq] at hmoves
  obtain ⟨e, he, hflips⟩ := Cafe.reuse_flips hturns
  have hzero := hall _ 7 _ c Cafe.database_valid Cafe.database_traced
    (Config.run_of_turns _ _ hturns) e he hflips ⟨20, 50, none⟩
  rw [hmoves.2.1] at hzero
  cases hzero

theorem reversed_once_cafe
    : ∃ c, Cafe.reuse.turns Cafe.reuseSchedule = some c
        ∧ ∃ e ∈ c.history, e.after.level ⟨20, 50, none⟩
            = e.before.level ⟨20, 50, none⟩ + c.db.taken 7 ⟨20, 50, none⟩
          ∧ c.db.netOfSale 7 ⟨20, 50, none⟩ = 0 := by
  have hmoves := Cafe.reuse_moves
  rw [Option.map_eq_some_iff] at hmoves
  obtain ⟨c, hturns, _⟩ := hmoves
  obtain ⟨e, he, hflips⟩ := Cafe.reuse_flips hturns
  have honce := reversed_once _ 7 Cafe.database_valid Cafe.database_traced
    (Config.run_of_turns _ _ hturns)
  exact ⟨c, hturns, e, he, honce.restored e he hflips ⟨20, 50, none⟩⟩

end SentryPos
