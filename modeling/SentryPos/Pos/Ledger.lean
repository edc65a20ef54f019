import SentryPos.Pos.ExactlyOnce

/-!
This module contains the proof that the requests keep the stock ledger: the difference of a level
and the sum of its movements never changes.
-/

namespace SentryPos

open ReadCommitted

variable {db db' : Database} {log : List Write}

/-- A log that records every change of a level as a movement. -/
structure DoubleEntry (db : Database) (log : List Write) : Prop where
  steady : ∀ w ∈ log, w.Steady db
  balanced : Balanced db log

theorem DoubleEntry.of_neutral (h : ∀ w ∈ log, w.Neutral) (db : Database) : DoubleEntry db log where
  steady := by
    intro w hw
    exact (h w hw).steady db
  balanced := .of_neutral h db

theorem Restored.doubleEntry {branchId : Uuid} {type : MovementType} {m : StockMovement}
    {ws : List Write} (h : Restored branchId type db m ws) (hbranch : m.branchId = branchId)
    : DoubleEntry db ws := by
  obtain ⟨w, hw, hws⟩ := h
  have hkey : (restoreMovement m branchId type).toStockKey = m.toStockKey := by
    rw [← hbranch]
    rfl
  have hrestock
      : Restock db (restoreMovement m branchId type).toStockKey
          (restoreMovement m branchId type).qtyDelta w := by
    rw [hkey]
    exact hw
  subst hws
  constructor
  . intro w' hw'
    simp only [List.mem_cons, List.not_mem_nil, or_false] at hw'
    cases hw' with
    | inl hw' =>
      rw [hw']
      exact hw.steady
    | inr hw' =>
      rw [hw']
      intro _ _ _
      rfl
  . exact hrestock.balanced rfl

theorem Write.reversed_neutral {w : Write} {id : Uuid} (h : w.reversed? = some id) : w.Neutral := by
  cases w with
  | voidSale | refundSale => exact ⟨fun _ _ => rfl, fun _ => rfl⟩
  | _ => simp [reversed?] at h

theorem Reversed.doubleEntry {ctx : TerminalContext} {id : Uuid} {type : MovementType} {s : Sale}
    {w : Write} (h : Reversed ctx id type s w log db) (hw : w.reversed? = some id)
    : DoubleEntry db log := by
  obtain ⟨restores, hlog, hbatch⟩ := h.log
  have hneutral := Write.reversed_neutral hw
  have hentry : ∀ m ∈ restorable ctx id db, ∀ ws, Restored ctx.branchId type db m ws →
      DoubleEntry db ws := by
    intro m hm ws hws
    simp only [restorable, List.mem_filter, Bool.and_eq_true, decide_eq_true_eq] at hm
    exact hws.doubleEntry hm.2.1
  rw [hlog]
  constructor
  . intro w' hw'
    cases List.mem_cons.mp hw' with
    | inl hw' =>
      rw [hw']
      exact hneutral.steady db
    | inr hw' =>
      obtain ⟨m, hm, ws, hws, hmem⟩ := hbatch.mem hw'
      exact (hentry m hm ws hws).steady w' hmem
  . have hone : Balanced db [w] := by
      apply Balanced.of_neutral
      intro w' hw'
      rw [List.mem_singleton.mp hw']
      exact hneutral
    exact hone.append (hbatch.balanced fun m hm ws hws => (hentry m hm ws hws).balanced)

theorem Received.doubleEntry {branchId operationId : Uuid} {line : ReceiveLineDto} {ws : List Write}
    (h : Received branchId operationId db line ws) : DoubleEntry db ws := by
  obtain ⟨w, costs, hw, hcosts, hws⟩ := h
  have hneutral : ∀ c ∈ costs, c.Neutral := by
    intro c hc
    obtain ⟨id, cost, hcost⟩ := hcosts c hc
    cases hcost with
    | inl hcost =>
      rw [hcost]
      exact ⟨fun _ _ => rfl, fun _ => rfl⟩
    | inr hcost =>
      rw [hcost]
      exact ⟨fun _ _ => rfl, fun _ => rfl⟩
  have hrestock
      : Restock db (receiveMovement branchId operationId line).toStockKey
          (receiveMovement branchId operationId line).qtyDelta w := hw
  subst hws
  constructor
  . intro w' hw'
    simp only [List.mem_cons] at hw'
    rcases hw' with hw' | hw' | hw'
    . rw [hw']
      exact hw.steady
    . rw [hw']
      intro _ _ _
      rfl
    . exact (hneutral w' hw').steady db
  . have hboth := hrestock.balanced rfl
    exact hboth.append (.of_neutral hneutral db)

theorem Adjusted.ledger {ctx : RequestContext} {branchId : Uuid} {dto : AdjustStockDto}
    (h : Adjusted Env.sequential ctx branchId dto log db) (hdb : db.Valid)
    (hunique : UniqueIndex.Unique Write (replay log db)) (key : StockKey)
    : (replay log db).level key - (replay log db).moved key = db.level key - db.moved key := by
  obtain ⟨existing, w, movementId, hlog, hset, hseen⟩ := h.log
  have hfound := Env.seen_alone hseen
  have hdelta
      : w.levelDelta db key
          =
        (Write.insertMovement (adjustMovement branchId movementId dto
          (dto.newQty.milli - (existing.map (·.qty)).getD 0))).movedDelta key := by
    cases hset with
    | @update row r hrow hkey hlive =>
      -- The row that was found is the current one.
      have hsame : r = row := by
        unfold findLevel at hfound
        have hget := Table.get_of_mem hdb.stock_ids_nodup (List.mem_of_find?_eq_some hfound)
        unfold Database.stock? at hrow
        rw [hrow] at hget
        exact Option.some.inj hget
      subst hsame
      by_cases hk : dto.key branchId = key
      . simp [Write.levelDelta, Write.movedDelta, adjustMovement, hrow, Option.filter, hkey, hlive,
          hk]
      . simp [Write.levelDelta, Write.movedDelta, adjustMovement, hrow, Option.filter, hkey, hk]
    | insert id => simp [Write.levelDelta, Write.movedDelta, adjustMovement]
  have hids := hdb.stock_ids_nodup
  have hids' : ((w.apply db).branchStock.map (·.id)).Nodup := by
    apply Database.stock_ids_nodup_of_unique
    rw [hlog, replay_cons] at hunique
    exact hunique.of_replay
  have hw0 : ∀ m key, (Write.insertMovement m).levelDelta (w.apply db) key = 0 := by
    intro _ _
    rfl
  have hm0 : w.movedDelta key = 0 := by
    cases hset <;> rfl
  rw [hlog, replay_cons, replay_cons, replay_nil, store_apply, store_apply,
    Write.level_apply _ hids', Write.level_apply _ hids, Write.moved_apply, Write.moved_apply, hw0,
    hm0, hdelta]
  ring

theorem Request.Event.ledger {req : Request} (h : req.Event Env.sequential db db') (key : StockKey)
    : db'.level key - db'.moved key = db.level key - db.moved key := by
  have hdb := h.valid
  obtain ⟨log, locks, hpending, hcommit, hafter⟩ := h.commit
  have hentry : DoubleEntry db log →
      (replay log db).level key - (replay log db).moved key = db.level key - db.moved key := by
    intro hentry
    exact hentry.balanced.ledger hpending.unique hentry.steady key
  have hneutral : (∀ w ∈ log, w.Neutral) →
      (replay log db).level key - (replay log db).moved key = db.level key - db.moved key := by
    intro hneutral
    exact hentry (.of_neutral hneutral db)
  have hone : ∀ w : Write, log = [w] → (∀ db key, w.levelDelta db key = 0) →
      (∀ key, w.movedDelta key = 0) →
        (replay log db).level key - (replay log db).moved key = db.level key - db.moved key := by
    intro w hw hlevel hmoved
    apply hneutral
    intro w' hw'
    rw [hw, List.mem_singleton] at hw'
    rw [hw']
    exact ⟨hlevel, hmoved⟩
  rw [hafter]
  cases hcommit with
  | found => rfl
  | posted _ hposted => exact hentry ⟨hposted.steady, hposted.balanced⟩
  | voided h =>
    obtain ⟨s, hreversed, _⟩ := h.reversed
    exact hentry (hreversed.doubleEntry rfl)
  | refunded h =>
    obtain ⟨s, _, hreversed, _⟩ := h.reversed
    exact hentry (hreversed.doubleEntry rfl)
  | pin h =>
    obtain ⟨_, _, _, hlog⟩ := h
    exact hone _ hlog (fun _ _ => rfl) fun _ => rfl
  | received h =>
    apply hentry
    constructor
    . intro w hw
      obtain ⟨line, _, ws, hws, hmem⟩ := h.mem hw
      exact hws.doubleEntry.steady w hmem
    . exact h.balanced fun line _ ws hws => hws.doubleEntry.balanced
  | adjusted h => exact h.ledger hdb hpending.unique key
  | opened h => exact hone _ h.log (fun _ _ => rfl) fun _ => rfl
  | cashMoved h =>
    obtain ⟨_, hlog, _⟩ := h.moved
    exact hone _ hlog (fun _ _ => rfl) fun _ => rfl
  | closed h =>
    obtain ⟨_, _, _, _, _, _, _, _, _, _, _, hlog⟩ := h.closed
    exact hone _ hlog (fun _ _ => rfl) fun _ => rfl

/--
The stock ledger over any sequence of requests: every level keeps its distance from the sum of its
movements, and levels that started as that sum stay so.
-/
theorem ledger_kept {db db' : Database} {reqs : List (Request × Except ApiError Response)}
    (hdb : db.Valid) (hrun : Sequence db reqs db')
    : (∀ key, db'.level key - db'.moved key = db.level key - db.moved key)
        ∧ ((∀ key, db.level key = db.moved key) → ∀ key, db'.level key = db'.moved key) := by
  have hkept : ∀ key, db'.level key - db'.moved key = db.level key - db.moved key := by
    intro key
    apply hrun.keeps (P := fun db0 => db0.level key - db0.moved key = db.level key - db.moved key)
    . exact hdb
    . intro r _ db1 db2 hevent h
      rw [hevent.ledger key, h]
    . rfl
  refine ⟨hkept, ?_⟩
  intro hequal key
  have := hkept key
  have := hequal key
  omega

namespace Cafe

def afterSale : Database :=
  ((Request.completeSale terminal sale 100).step database).2

def afterVoid : Database :=
  ((Request.voidSale terminal 7 "spilled" 200 fun _ => 0).step afterSale).2

theorem afterSale_level : afterSale.level ⟨20, 50, none⟩ = 3000 := by
  decide +kernel

end Cafe

theorem ledger_kept_cafe
    : Cafe.afterSale.level ⟨20, 50, none⟩ = 3000
        ∧ ∀ key, Cafe.afterVoid.level key - Cafe.afterVoid.moved key
            = Cafe.database.level key - Cafe.database.moved key := by
  have hrun : Sequence Cafe.database _ Cafe.afterVoid := .snoc (.snoc .nil)
  exact ⟨Cafe.afterSale_level, (ledger_kept Cafe.database_valid hrun).1⟩

end SentryPos
