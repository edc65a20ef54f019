import SentryPos.Pos.Effects
import SentryPos.Pos.System

/-!
This module contains the three kinds of commits: a posting, the reversal of a sale and all that
leave the sales alone. What a run does to the sales follows from what each kind does.
-/

namespace SentryPos

open ReadCommitted

variable {l : Env Database Write Key Stmt} {req : Request} {log : List Write} {db db' : Database}

/-- A write that is neither about a sale nor a movement of one. -/
structure Write.Unrelated (w : Write) : Prop where
  sales : w.sales = []
  payments : w.payments = []
  reversed : w.reversed? = none
  movements : ∀ m ∈ w.movements, m.type ≠ .sale ∧ m.type.isReversal = false

def Request.Reverses (req : Request) (id : Uuid) : Prop :=
  match req with
  | .voidSale _ id' .. => id' = id
  | .refundSale _ _ id' .. => id' = id
  | _ => False

def Env.SeenOpen (l : Env Database Write Key Stmt) (ctx : TerminalContext) (shiftId : Uuid)
    (db : Database) : Prop :=
  l.Seen (fun db0 => ∃ sh, findOpenShift ctx db0 = some sh ∧ sh.id = shiftId) db

def Write.bookedOn (w : Write) (s : Sale) : Option Uuid :=
  match w with
  | voidSale .. => s.shiftId
  | refundSale _ _ _ refundShiftId => refundShiftId
  | _ => none

/-- The request takes the sale out of the status `completed`. -/
inductive Reversal (l : Env Database Write Key Stmt) (req : Request) (log : List Write)
    (db : Database) : Uuid → Prop where
  | intro {ctx : TerminalContext} {id : Uuid} {type : MovementType} {s : Sale} {w : Write}
      (hreq : req.Reverses id) (htype : type.isReversal) (hw : w.reversed? = some id)
      (hshift : ∀ S, w.bookedOn s = some S → s.shiftId = some S ∧ Env.SeenOpen l ctx S db)
      (h : Reversed ctx id type s w log db) : Reversal l req log db id

/-- A write to a table that neither the sales nor the shifts are in. -/
def Write.isSide : Write → Bool
  | setReceiptSeq .. | setProductCost .. | setVariantCost .. | setPin .. | addStock ..
  | setStock .. | insertStock .. | insertMovement .. => true
  | _ => false

theorem Restock.side {key : StockKey} {qty : ℤ} {w : Write} (h : Restock db key qty w)
    : w.isSide ∧ w.movements = [] := by
  cases h with
  | add => exact ⟨rfl, rfl⟩
  | insert => exact ⟨rfl, rfl⟩

theorem Restored.side {branchId : Uuid} {type : MovementType} {m : StockMovement} {ws : List Write}
    (h : Restored branchId type db m ws) : ∀ w ∈ ws, w.isSide := by
  obtain ⟨restock, hrestock, hws⟩ := h
  intro w hw
  rw [hws] at hw
  simp only [List.mem_cons, List.not_mem_nil, or_false] at hw
  cases hw with
  | inl hw =>
    rw [hw]
    exact hrestock.side.1
  | inr hw =>
    rw [hw]
    rfl

theorem Write.unrelated_of_side {w : Write} (h : w.isSide)
    (hmovements : ∀ m ∈ w.movements, m.type ≠ .sale ∧ m.type.isReversal = false)
    : w.Unrelated := by
  cases w with
  | setReceiptSeq | setProductCost | setVariantCost | setPin | addStock | setStock | insertStock
  | insertMovement => exact ⟨rfl, rfl, rfl, hmovements⟩
  | _ => cases h

theorem Received.side {branchId operationId : Uuid} {line : ReceiveLineDto} {ws : List Write}
    (h : Received branchId operationId db line ws) : ∀ w ∈ ws, w.isSide ∧ w.Unrelated := by
  obtain ⟨restock, costs, hrestock, hcosts, hws⟩ := h
  have hside : ∀ w : Write, w.isSide → w.movements = [] → w.isSide ∧ w.Unrelated := by
    intro w hw hmovements
    refine ⟨hw, Write.unrelated_of_side hw ?_⟩
    simp [hmovements]
  intro w hw
  rw [hws] at hw
  simp only [List.mem_cons] at hw
  rcases hw with hw | hw | hw
  . rw [hw]
    exact hside restock hrestock.side.1 hrestock.side.2
  . rw [hw]
    refine ⟨rfl, Write.unrelated_of_side rfl ?_⟩
    simp [Write.movements, receiveMovement, MovementType.isReversal]
  . obtain ⟨id, cost, hcost⟩ := hcosts w hw
    cases hcost with
    | inl h =>
      rw [h]
      exact hside _ rfl rfl
    | inr h =>
      rw [h]
      exact hside _ rfl rfl

theorem Adjusted.side {ctx : RequestContext} {branchId : Uuid} {dto : AdjustStockDto}
    (h : Adjusted l ctx branchId dto log db) : ∀ w ∈ log, w.isSide ∧ w.Unrelated := by
  obtain ⟨existing, set, movementId, hlog, hset, _⟩ := h.log
  intro w hw
  rw [hlog] at hw
  simp only [List.mem_cons, List.not_mem_nil, or_false] at hw
  cases hw with
  | inl hw =>
    rw [hw]
    cases hset with
    | update => exact ⟨rfl, Write.unrelated_of_side rfl (by simp [Write.movements])⟩
    | insert => exact ⟨rfl, Write.unrelated_of_side rfl (by simp [Write.movements])⟩
  | inr hw =>
    rw [hw]
    refine ⟨rfl, Write.unrelated_of_side rfl ?_⟩
    simp [Write.movements, adjustMovement, MovementType.isReversal]

theorem PinChecked.side (h : PinChecked log) : ∀ w ∈ log, w.isSide ∧ w.Unrelated := by
  obtain ⟨_, _, _, hlog⟩ := h
  intro w hw
  rw [hlog, List.mem_singleton] at hw
  rw [hw]
  exact ⟨rfl, Write.unrelated_of_side rfl (by simp [Write.movements])⟩

inductive Request.Commit.Kind [Rounding] (l : Env Database Write Key Stmt) (req : Request) (log : List Write)
    (db : Database) : Prop where
  | posting {ctx : TerminalContext} {dto : SaleDraftDto} {now : DateTime} {totals : CartTotals}
      {costByLine : List (Uuid × Option ℤ)} {p : Posting}
      (hreq : req = .completeSale ctx dto now) (hlog : log = p.log ctx dto)
      (haccepted : Accepted l ctx dto totals costByLine db)
      (hposted : Posted ctx dto totals costByLine now p db (replay log db))
      : Kind l req log db
  | reversal {id : Uuid} (h : Reversal l req log db id) : Kind l req log db
  | unrelated (h : ∀ w ∈ log, w.Unrelated)
      (hcash : ∀ row, .insertCashMovement row ∈ log → ∃ ctx, Env.SeenOpen l ctx row.shiftId db)
      : Kind l req log db

theorem Voided.reversal {ctx : TerminalContext} {reason : String} {now : DateTime} {id : Uuid}
    (h : Voided l ctx id reason now log db) (hreq : req.Reverses id)
    : Reversal l req log db id := by
  obtain ⟨s, hreversed, hseen⟩ := h.reversed
  refine .intro hreq rfl rfl ?_ hreversed
  intro S hS
  refine ⟨hS, hseen.mono ?_⟩
  intro db0 _ hopen
  obtain ⟨sh, hsh, hid⟩ := hopen
  have hS : s.shiftId = some S := hS
  rw [hid, Option.some.injEq] at hS
  exact ⟨sh, hsh, hS⟩

theorem Refunded.reversal {ctx : TerminalContext} {reason : String} {now : DateTime} {id : Uuid}
    (h : Refunded l ctx id reason now log db) (hreq : req.Reverses id)
    : Reversal l req log db id := by
  obtain ⟨s, refundShiftId, hreversed, hseen⟩ := h.reversed
  refine .intro hreq rfl rfl ?_ hreversed
  intro S hS
  have hopen : ∀ db0, refundShiftId = refundShiftOf ctx s db0 →
      s.shiftId = some S ∧ ∃ sh, findOpenShift ctx db0 = some sh ∧ sh.id = S := by
    intro db0 heq
    have hS : refundShiftId = some S := hS
    rw [heq] at hS
    unfold refundShiftOf at hS
    dsimp only at hS
    split at hS
    . next hsame =>
      refine ⟨by rw [← hsame, hS], ?_⟩
      exact Option.map_eq_some_iff.mp hS
    . cases hS
  obtain ⟨db0, hinv, heq, hpast⟩ := hseen
  exact ⟨(hopen db0 heq).1, db0, hinv, (hopen db0 heq).2, hpast⟩

theorem Request.Commit.Kind.of_side [Rounding] (h : ∀ w ∈ log, w.isSide ∧ w.Unrelated) : Request.Commit.Kind l req log db := by
  apply Request.Commit.Kind.unrelated
  . intro w hw
    exact (h w hw).2
  . intro row hrow
    cases (h _ hrow).1

theorem Request.Commit.kind [Rounding] (h : req.Commit l log db) : Commit.Kind l req log db := by
  have hone : ∀ w : Write, log = [w] → w.Unrelated → ∀ w ∈ log, w.Unrelated := by
    intro w hlog hw w' hw'
    rw [hlog, List.mem_singleton] at hw'
    rw [hw']
    exact hw
  cases h with
  | found => exact .unrelated (by simp) (by simp)
  | posted haccepted hposted => exact .posting rfl rfl haccepted hposted
  | voided h => exact .reversal (h.reversal rfl)
  | refunded h => exact .reversal (h.reversal rfl)
  | pin h => exact .of_side h.side
  | received h =>
    apply Commit.Kind.of_side
    intro w hw
    obtain ⟨line, _, ws, hws, hmem⟩ := h.mem hw
    exact hws.side w hmem
  | adjusted h => exact .of_side h.side
  | opened h =>
    apply Kind.unrelated
    . exact hone _ h.log ⟨rfl, rfl, rfl, by simp [Write.movements]⟩
    . simp [h.log]
  | @cashMoved ctx _ _ _ _ _ h =>
    obtain ⟨shift, hlog, hseen⟩ := h.moved
    apply Kind.unrelated
    . exact hone _ hlog ⟨rfl, rfl, rfl, by simp [Write.movements]⟩
    . intro row hrow
      rw [hlog, List.mem_singleton] at hrow
      cases hrow
      refine ⟨ctx, hseen.mono ?_⟩
      intro db0 _ hopen
      exact ⟨shift, hopen, rfl⟩
  | closed h =>
    obtain ⟨_, _, _, _, _, _, _, _, _, _, _, hlog⟩ := h.closed
    apply Kind.unrelated
    . exact hone _ hlog ⟨rfl, rfl, rfl, by simp [Write.movements]⟩
    . simp [hlog]

def Write.onShifts : Write → Bool
  | insertShift .. | closeShift .. => true
  | _ => false

theorem Write.onShifts_of_side {w : Write} (h : w.isSide) : w.onShifts = false := by
  cases w <;> simp_all [isSide, Write.onShifts]

def Request.onShifts : Request → Bool
  | openShift .. | closeShift .. => true
  | _ => false

theorem Request.Commit.offShifts (h : req.Commit l log db) (hreq : req.onShifts = false)
    : ∀ w ∈ log, w.onShifts = false := by
  have hside : (∀ w ∈ log, w.isSide ∧ w.Unrelated) → ∀ w ∈ log, w.onShifts = false := by
    intro h w hw
    exact Write.onShifts_of_side (h w hw).1
  have hreversed : ∀ {id ctx type s w}, w.reversed? = some id → Reversed ctx id type s w log db →
      ∀ w ∈ log, w.onShifts = false := by
    intro id ctx type s w hw h w' hw'
    obtain ⟨restores, hlog, hbatch⟩ := h.log
    rw [hlog] at hw'
    cases List.mem_cons.mp hw' with
    | inl heq =>
      rw [heq]
      cases w <;> simp_all [Write.reversed?, Write.onShifts]
    | inr hmem =>
      obtain ⟨m, _, ws, hws, hmem⟩ := hbatch.mem hmem
      exact Write.onShifts_of_side (hws.side w' hmem)
  cases h with
  | found => simp
  | posted _ _ =>
    intro w hw
    rcases Posting.mem_log hw with h | h | ⟨_, _, h⟩ | h | ⟨_, _, h⟩ | ⟨_, h⟩
    . obtain ⟨_, _, _, _, h⟩ := mem_stockLog h
      rw [h]
      rfl
    all_goals
      rw [h]
      rfl
  | voided h =>
    obtain ⟨s, h, _⟩ := h.reversed
    exact hreversed rfl h
  | refunded h =>
    obtain ⟨s, _, h, _⟩ := h.reversed
    exact hreversed rfl h
  | pin h => exact hside h.side
  | received h =>
    intro w hw
    obtain ⟨line, _, ws, hws, hmem⟩ := h.mem hw
    exact Write.onShifts_of_side (hws.side w hmem).1
  | adjusted h => exact hside h.side
  | opened h => cases hreq
  | cashMoved h =>
    obtain ⟨shift, hlog, _⟩ := h.moved
    intro w hw
    rw [hlog, List.mem_singleton] at hw
    rw [hw]
    rfl
  | closed h => cases hreq

theorem Request.Commit.shifts (h : req.Commit l log db)
    : (∀ w ∈ log, w.onShifts = false)
        ∨ (∃ ctx dto shiftId now, Opened l ctx dto shiftId now log db)
        ∨ ∃ ctx dto closedAt, Closed l ctx dto closedAt log db := by
  by_cases hreq : req.onShifts
  . cases h with
    | opened h => exact .inr (.inl ⟨_, _, _, _, h⟩)
    | closed h => exact .inr (.inr ⟨_, _, _, h⟩)
    | _ => cases hreq
  . left
    apply h.offShifts
    simpa using hreq

theorem shifts_replay (h : ∀ w ∈ log, w.onShifts = false) (db : Database)
    : (replay log db).shifts = db.shifts := by
  apply replay_induction (P := fun db' : Database => db'.shifts = db.shifts) rfl
  intro w hw db' hdb'
  have hnot := h w hw
  cases w with
  | insertShift | closeShift => cases hnot
  | _ => exact hdb'

theorem sales_replay_unrelated (h : ∀ w ∈ log, w.Unrelated) (db : Database)
    : (replay log db).sales = db.sales := by
  rw [sales_replay fun w hw => (h w hw).reversed, List.append_right_eq_self,
    List.flatMap_eq_nil_iff]
  intro w hw
  exact (h w hw).sales

namespace Reversed

variable {ctx : TerminalContext} {id : Uuid} {type : MovementType} {s : Sale} {w : Write}

theorem restores_not_reversed {restores : List Write} {ms : List StockMovement}
    (h : Batch (Restored ctx.branchId type db) ms restores)
    : ∀ w ∈ restores, w.sales = [] ∧ w.payments = [] ∧ w.reversed? = none := by
  intro w hw
  obtain ⟨m, _, ws, hws, hmem⟩ := h.mem hw
  have hside := hws.side w hmem
  cases w <;> simp_all [Write.isSide, Write.sales, Write.payments, Write.reversed?]

theorem sales (h : Reversed ctx id type s w log db)
    : (replay log db).sales = (w.apply db).sales := by
  obtain ⟨restores, hlog, hbatch⟩ := h.log
  have hrestores := restores_not_reversed hbatch
  rw [hlog, replay_cons, store_apply, sales_replay fun w hw => (hrestores w hw).2.2,
    List.append_right_eq_self, List.flatMap_eq_nil_iff]
  intro w hw
  exact (hrestores w hw).1

theorem sale?_ne (h : Reversed ctx id type s w log db) (hw : w.reversed? = some id) {id' : Uuid}
    (hne : id' ≠ id) : (replay log db).sale? id' = db.sale? id' := by
  have hsales := h.sales
  have hother : (w.apply db).sale? id' = db.sale? id' := by
    cases w with
    | voidSale id'' | refundSale id'' =>
      have heq : id'' = id := by simpa [Write.reversed?] using hw
      subst heq
      apply Table.get_modify_ne _ hne
      intro r
      rfl
    | _ => simp [Write.reversed?] at hw
  rw [← hother]
  unfold Database.sale?
  rw [hsales]

end Reversed

inductive SaleStep (l : Env Database Write Key Stmt) (req : Request) (db db' : Database) (id : Uuid)
    : Prop where
  | same (h : db'.sale? id = db.sale? id) : SaleStep l req db db' id
  | posted {ctx : TerminalContext} {dto : SaleDraftDto} {now : DateTime} {totals : CartTotals}
      {costByLine : List (Uuid × Option ℤ)} {p : Posting} (hreq : req = .completeSale ctx dto now)
      (hid : dto.id = id) (haccepted : Accepted l ctx dto totals costByLine db)
      (hposted : Posted ctx dto totals costByLine now p db db') : SaleStep l req db db' id
  | reversed {log : List Write} {locks : List Key} (hpending : Pending log locks db)
      (h : Reversal l req log db id) (hafter : db' = replay log db) : SaleStep l req db db' id

theorem Request.Event.saleStep (h : req.Event l db db') (id : Uuid) : SaleStep l req db db' id := by
  obtain ⟨log, locks, hpending, hcommit, hafter⟩ := h.commit
  cases hcommit.kind with
  | @posting ctx dto now totals costByLine p hreq _ haccepted hposted =>
    rw [← hafter] at hposted
    by_cases hid : dto.id = id
    . exact .posted hreq hid haccepted hposted
    . apply SaleStep.same
      unfold Database.sale?
      rw [hposted.sales, Table.get_append, Table.get_singleton_ne, Option.or_none]
      rw [(buildSaleData_ok hposted.data).id]
      exact hid
  | @reversal id' h =>
    by_cases hid : id' = id
    . subst hid
      exact .reversed hpending h hafter
    . apply SaleStep.same
      obtain ⟨_, _, hw, _, hreversed⟩ := h
      rw [hafter]
      exact hreversed.sale?_ne hw (Ne.symm hid)
  | unrelated h _ =>
    apply SaleStep.same
    unfold Database.sale?
    rw [hafter, sales_replay_unrelated h]

theorem Request.Event.traced (h : req.Event l db db') (hdb : db.Traced) : db'.Traced := by
  obtain ⟨log, locks, hpending, _, hafter⟩ := h.commit
  rw [hafter]
  exact hpending.traced hdb

section Run

variable {ι : Type} [DecidableEq ι] {reqs : ι → Request} {c : System ι}

/-- The environment of the requests of a run: they see its databases. -/
abbrev Env.within (c : System ι) (db : Database) : Env Database Write Key Stmt :=
  Env.ofRun (· ∈ c.databases db) (fun _ _ _ => True) fun _ _ _ => True

theorem run_events [Rounding] (hdb : db.Valid) (hrun : Run (.error .aborted) (System.start db reqs) c)
    : ∀ e ∈ c.history, (reqs e.client).Event (Env.within c db) e.before e.after := by
  have hstart : db ∈ c.databases db := by simp [Config.databases]
  exact ((keeps_databases reqs db c).ok hdb hstart hrun.within).events

theorem run_returned (hdb : db.Valid) (hrun : Run (.error .aborted) (System.start db reqs) c)
    {i : ι} {r : Except ApiError Response} (hr : (c.procs i).prog.result? = some r)
    : (reqs i).Post (Env.within c db) r (c.commitsOf i) (c.procs i).log (c.procs i).locks c.db := by
  have hstart : db ∈ c.databases db := by simp [Config.databases]
  exact (keeps_databases reqs db c).returned hdb hstart hrun.within hr

theorem run_keeps [Rounding] {P : Database → Prop} (hdb : db.Valid)
    (hrun : Run (.error .aborted) (System.start db reqs) c)
    (hkeep : ∀ i db1 db2, (reqs i).Event (Env.within c db) db1 db2 → P db1 → P db2) (hP : P db)
    : P c.db ∧ ∀ e ∈ c.history, P e.before ∧ P e.after := by
  have hevents := run_events hdb hrun
  have hkeeps : ∀ e ∈ c.history, P e.before → P e.after := by
    intro e he
    exact hkeep e.client e.before e.after (hevents e he)
  refine ⟨hrun.chain.keeps hkeeps hP, ?_⟩
  intro e he
  obtain ⟨es, _, hes, hchain, _⟩ := hrun.chain.split he
  have hbefore : P e.before := by
    apply hchain.keeps _ hP
    intro e' he'
    apply hkeeps
    simp [hes, he']
  exact ⟨hbefore, hkeeps e he hbefore⟩

theorem run_keeps_from {P : Database → Prop} (hdb : db.Valid)
    (hrun : Run (.error .aborted) (System.start db reqs) c)
    (hkeep : ∀ i db1 db2, (reqs i).Event (Env.within c db) db1 db2 → P db1 → P db2)
    {e : Event ι Database} (he : e ∈ c.history) (hP : P e.after) : P c.db := by
  have hevents := run_events hdb hrun
  obtain ⟨_, es, hes, _, hchain⟩ := hrun.chain.split he
  apply hchain.keeps _ hP
  intro e' he'
  have hmem : e' ∈ c.history := by simp [hes, he']
  exact hkeep e'.client e'.before e'.after (hevents e' hmem)

end Run

end SentryPos
