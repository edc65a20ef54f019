import SentryPos.Pos.Level
import SentryPos.Pos.Sales

/-!
This module contains the specification of `voidSale` and `refundSale`: the update of the sale's
status and, for each movement the sale took its stock with, a restock and the movement back.
-/

namespace SentryPos

open ReadCommitted

variable {l : Logic Database Write Key Stmt} {R : Type} {ok : Post Database Write Key R}
  {err : Post Database Write Key ApiError} {commits : List (Database × Database)}
  {log : List Write} {locks : List Key} {db db' : Database}

theorem wp_addToLevel (hl : PosEnv l) (hmid : l.Mid commits) {ctx : RequestContext}
    {key : StockKey} {qty : ℤ} {newId : Uuid} {ok : Post Database Write Key Unit}
    (htargets : ctx.Targets key.branchId) (hpending : Pending log locks db)
    (hok : ∀ db' needs w, Later l locks db db' → Restock db' key qty w →
      Pending (log ++ [w]) (locks ++ needs) db' → ok () commits (log ++ [w]) (locks ++ needs) db')
    (herr : ∀ e log' locks' db', Later l locks db db' → err e commits log' locks' db')
    : Call.wp l (addToLevel ctx key qty newId) ok err commits log locks db := by
  unfold addToLevel
  rw [Call.wp_bind]
  apply PosCall.wp_query hl hmid
  intro db1 hlater1 _
  split
  . next r hr =>
    have hrestock : Restock db1 key qty (.addStock r.id qty) := by
      unfold findLevel at hr
      have hmem := List.mem_of_find?_eq_some hr
      have hfound := List.find?_some hr
      simp only [Bool.and_eq_true, decide_eq_true_eq, Option.isNone_iff_eq_none] at hfound
      exact .add (Table.get_of_mem hlater1.valid.stock_ids_nodup hmem) hfound.1.1 hfound.2
    rw [Call.wp_bind]
    apply PosCall.wp_target hl hmid
    . intro db2 hlater2 _ _
      have hfits : ∀ db', (Write.addStock r.id qty).Fits log db' := fun _ => trivial
      have hlater := hlater1.trans hlater2
      apply PosCall.wp_execute hl hmid (hlater.pending hpending) fun _ _ => hfits _
      . intro db3 hlater3 _ _ hpending3
        apply hok db3 _ _ (hlater.trans hlater3) _ hpending3
        exact hrestock.grows (hlater2.rely.grows.trans hlater3.rely.grows)
      . intro db3 e hlater3 _
        exact herr e _ _ db3 (hlater.trans hlater3)
    . intro db2 hlater2 _
      exact herr _ _ _ db2 (hlater1.trans hlater2)
  . rw [Call.wp_bind]
    apply PosCall.wp_police hl hmid htargets
    . intro db2 hlater2
      have hfits : ∀ db', (Write.insertStock newId key qty).Fits log db' := fun _ => trivial
      have hlater := hlater1.trans hlater2
      apply PosCall.wp_execute hl hmid (hlater.pending hpending) fun _ _ => hfits _
      . intro db3 hlater3 _ _ hpending3
        exact hok db3 _ _ (hlater.trans hlater3) (.insert newId) hpending3
      . intro db3 e hlater3 _
        exact herr e _ _ db3 (hlater.trans hlater3)
    . intro message db2 hlater2
      exact herr _ _ _ db2 (hlater1.trans hlater2)

theorem wp_batch {α : Type} (hl : PosEnv l) (hmid : l.Mid commits) {f : α × Nat → PosCall PUnit}
    {P : Database → α → List Write → Prop} {xs : List α} {ok : Post Database Write Key PUnit}
    (hgrows : ∀ db db' x ws, db.Grows db' → P db x ws → P db' x ws) (hinv : l.Inv db)
    (hpending : Pending log locks db)
    (hf : ∀ x ∈ xs, ∀ i done locks' db' (ok : Post Database Write Key PUnit), l.Inv db' →
      db.Grows db' → Pending (log ++ done) locks' db' →
      (∀ db'' needs ws, Later l locks' db' db'' → P db'' x ws →
        Pending (log ++ done ++ ws) (locks' ++ needs) db'' →
          ok () commits (log ++ done ++ ws) (locks' ++ needs) db'') →
      (∀ e log'' locks'' db'', Later l locks' db' db'' → err e commits log'' locks'' db'') →
        Call.wp l (f (x, i)) ok err commits (log ++ done) locks' db')
    (hok : ∀ db' needs ws, Later l locks db db' → Batch (P db') xs ws →
      Pending (log ++ ws) (locks ++ needs) db' → ok () commits (log ++ ws) (locks ++ needs) db')
    (herr : ∀ e log' locks' db', Later l locks db db' → err e commits log' locks' db')
    : Call.wp l (xs.zipIdx.forM f) ok err commits log locks db := by
  apply Call.wp_forM fun done commits' log' locks' db' =>
    commits' = commits ∧ Later l locks db db' ∧ ∃ needs ws, locks' = locks ++ needs
      ∧ log' = log ++ ws ∧ Batch (P db') (done.map (·.1)) ws ∧ Pending log' locks' db'
  . intro done x rest commits' log' locks' db' hxs hdone
    obtain ⟨hcommits, hlater, needs, ws, hneeds, hlog, hbatch, hpending'⟩ := hdone
    subst hcommits hneeds hlog
    have hmem : x.1 ∈ xs := by
      have hx : x.1 ∈ xs.zipIdx.map (·.1) := by
        rw [hxs]
        simp
      rwa [List.zipIdx_map_fst] at hx
    apply hf x.1 hmem x.2 ws _ _ _ hlater.inv hlater.rely.grows hpending'
    . intro db'' needs' ws' hlater' hws' hpending''
      have hgrown : Batch (P db'') (done.map (·.1)) ws := by
        apply hbatch.mono
        intro y ys
        exact hgrows db' db'' y ys hlater'.rely.grows
      refine ⟨rfl, hlater.trans hlater', needs ++ needs', ws ++ ws', ?_, ?_, ?_, hpending''⟩
      . rw [List.append_assoc]
      . rw [List.append_assoc]
      . rw [List.map_append]
        exact hgrown.snoc hws'
    . intro e log'' locks'' db'' hlater'
      exact herr e _ _ db'' (hlater.trans hlater')
  . intro commits' log' locks' db' hdone
    obtain ⟨hcommits, hlater, needs, ws, hneeds, hlog, hbatch, hpending'⟩ := hdone
    subst hcommits hneeds hlog
    rw [List.zipIdx_map_fst] at hbatch
    exact hok db' needs ws hlater hbatch hpending'
  . exact ⟨rfl, .refl hl hinv locks, [], [], by simp, by simp, .nil, hpending⟩

/-- What is written for a movement of the sale: a restock and the movement back. -/
def Restored (branchId : Uuid) (type : MovementType) (db : Database) (m : StockMovement)
    (ws : List Write) : Prop :=
  ∃ w, Restock db m.toStockKey (-m.qtyDelta) w
    ∧ ws = [w, .insertMovement (restoreMovement m branchId type)]

theorem Restored.grows {branchId : Uuid} {type : MovementType} (db db' : Database)
    (m : StockMovement) (ws : List Write) (hgrows : db.Grows db')
    (h : Restored branchId type db m ws) : Restored branchId type db' m ws := by
  obtain ⟨w, hw, hws⟩ := h
  exact ⟨w, hw.grows hgrows, hws⟩

theorem wp_restoreMove (hl : PosEnv l) (hmid : l.Mid commits) {ctx : TerminalContext}
    {type : MovementType} {m : StockMovement} {newId : Uuid} {ok : Post Database Write Key Unit}
    (hpending : Pending log locks db) (htype : type.isReversal) (hbranch : m.branchId = ctx.branchId)
    (hreversed : ∃ w ∈ log, w.reversed? = some m.refId)
    (hok : ∀ db' needs ws, Later l locks db db' → Restored ctx.branchId type db' m ws →
      Pending (log ++ ws) (locks ++ needs) db' → ok () commits (log ++ ws) (locks ++ needs) db')
    (herr : ∀ e log' locks' db', Later l locks db db' → err e commits log' locks' db')
    : Call.wp l (restoreMove ctx type m newId) ok err commits log locks db := by
  have htargets : ctx.request.Targets m.branchId := by
    rw [hbranch]
    exact .terminal ctx
  unfold restoreMove
  rw [Call.wp_bind]
  apply wp_addToLevel hl hmid htargets hpending
  . intro db1 needs1 w hlater1 hrestock hpending1
    rw [Call.wp_bind]
    apply PosCall.wp_police hl hmid htargets
    . intro db2 hlater2
      have hfits
          : ∀ db', (Write.insertMovement (restoreMovement m m.branchId type)).Fits (log ++ [w])
              db' := by
        intro _
        refine ⟨?_, ?_⟩
        . intro hsale
          have hsale : type = .sale := hsale
          rw [hsale] at htype
          cases htype
        . intro _
          obtain ⟨w', hw', hid⟩ := hreversed
          exact ⟨w', by simp [hw'], hid⟩
      apply PosCall.wp_execute hl hmid (hlater2.pending hpending1) fun _ _ => hfits _
      . intro db3 hlater3 _ _ hpending3
        rw [List.append_assoc] at hpending3 ⊢
        rw [List.append_assoc] at hpending3 ⊢
        apply hok db3 _ _ (hlater1.trans (hlater2.trans hlater3)) _ hpending3
        refine ⟨w, hrestock.grows (hlater2.rely.grows.trans hlater3.rely.grows), ?_⟩
        rw [hbranch]
        rfl
      . intro db3 e hlater3 _
        exact herr e _ _ db3 (hlater1.trans (hlater2.trans hlater3))
    . intro message db2 hlater2
      exact herr _ _ _ db2 (hlater1.trans hlater2)
  . intro e log' locks' db1 hlater1
    exact herr e _ _ db1 hlater1

/-- The movements of a sale that `restoreStock` finds. -/
def restorable (ctx : TerminalContext) (id : Uuid) (db : Database) : List StockMovement :=
  (db.saleMoves id).filter fun m => m.branchId = ctx.branchId && m.deletedAt.isNone

theorem findMoves_eq (ctx : TerminalContext) (id : Uuid) (db : Database)
    : (db.stockMovements.filter fun m =>
          m.refId = id && m.type = .sale && m.branchId = ctx.branchId && m.deletedAt.isNone)
        =
      restorable ctx id db := by
  unfold restorable Database.saleMoves
  rw [List.filter_filter]
  apply List.filter_congr
  intro m _
  grind

theorem restorable_later {ctx : TerminalContext} {id : Uuid} {s : Sale} (h : db.Rely locks db')
    (hs : db.sale? id = some s) : restorable ctx id db' = restorable ctx id db := by
  unfold restorable
  rw [h.saleMoves id s hs]

theorem restorable_eq {ctx : TerminalContext} {id : Uuid} {s : Sale} (hdb : db.Traced)
    (hs : db.sale? id = some s) (hbranch : s.branchId = ctx.branchId)
    : restorable ctx id db = db.saleMoves id := by
  unfold restorable
  rw [List.filter_eq_self]
  intro m hm
  simp only [Database.saleMoves, List.mem_filter, Bool.and_eq_true, decide_eq_true_eq] at hm
  obtain ⟨s', hs', hbranch', hlive⟩ := hdb.saleMoves m hm.1 hm.2.1
  rw [hm.2.2, hs] at hs'
  cases hs'
  simp [← hbranch', hbranch, hlive]

theorem wp_restoreStock (hl : PosEnv l) (hmid : l.Mid commits) {ctx : TerminalContext} {id : Uuid}
    {type : MovementType} {newIds : Nat → Uuid} {s : Sale} {ok : Post Database Write Key Unit}
    (hpending : Pending log locks db) (htype : type.isReversal)
    (hreversed : ∃ w ∈ log, w.reversed? = some id) (hs : db.sale? id = some s)
    (hlock : .sale id ∈ locks)
    (hok : ∀ db' needs ws, Later l locks db db' →
      Batch (Restored ctx.branchId type db') (restorable ctx id db') ws →
      Pending (log ++ ws) (locks ++ needs) db' → ok () commits (log ++ ws) (locks ++ needs) db')
    (herr : ∀ e log' locks' db', Later l locks db db' → err e commits log' locks' db')
    : Call.wp l (restoreStock ctx id type newIds) ok err commits log locks db := by
  unfold restoreStock
  rw [Call.wp_bind]
  apply PosCall.wp_query hl hmid
  intro db1 hlater1 _
  have hs1 : db1.sale? id = some s := hlater1.rely.kept _ hlock s hs
  rw [findMoves_eq]
  apply wp_batch hl hmid Restored.grows hlater1.inv (hlater1.pending hpending)
  . intro m hm i done locks' db' ok' _ _ hpending' hok' herr'
    simp only [restorable, Database.saleMoves, List.mem_filter, Bool.and_eq_true,
      decide_eq_true_eq] at hm
    obtain ⟨⟨_, _, hid⟩, hbranch, _⟩ := hm
    have hreversed' : ∃ w ∈ log ++ done, w.reversed? = some m.refId := by
      obtain ⟨w, hw, hw'⟩ := hreversed
      rw [hid]
      exact ⟨w, by simp [hw], hw'⟩
    apply wp_restoreMove hl hmid hpending' htype hbranch hreversed'
    . exact hok'
    . exact herr'
  . intro db2 needs ws hlater2 hbatch hpending2
    apply hok db2 needs ws (hlater1.trans hlater2) _ hpending2
    rw [restorable_later hlater2.rely hs1]
    exact hbatch
  . intro e log' locks' db2 hlater2
    exact herr e _ _ db2 (hlater1.trans hlater2)

theorem wp_lockSale (hl : PosEnv l) (hmid : l.Mid commits) {id branchId : Uuid}
    {ok : Post Database Write Key (Option (SaleStatus × Option Uuid))}
    (hnone : ∀ db' needs, Later l locks db db' → ok none commits [] (locks ++ needs) db')
    (hsome : ∀ db' needs s, Later l locks db db' → db'.sale? id = some s → s.branchId = branchId →
      s.deletedAt = none → .sale id ∈ locks ++ needs →
        ok (some (s.status, s.shiftId)) commits [] (locks ++ needs) db')
    : Call.wp l (lockSale id branchId) ok err commits [] locks db := by
  unfold lockSale
  apply PosCall.wp_selectForUpdate hl hmid
  intro db' hlater
  rw [replay_nil]
  cases hrow : (db'.sales.filter fun s =>
      s.id = id && s.branchId = branchId && s.deletedAt.isNone).head? with
  | none => exact hnone db' _ hlater
  | some s =>
    have hmem := List.mem_of_head? hrow
    have hlock := List.mem_map_of_mem (f := fun s : Sale => Key.sale s.id) hmem
    simp only [List.mem_filter, Bool.and_eq_true, decide_eq_true_eq, Option.isNone_iff_eq_none]
      at hmem
    obtain ⟨hmem, ⟨hid, hbranch⟩, hlive⟩ := hmem
    have hs : db'.sale? id = some s := by
      rw [← hid]
      exact Table.get_of_mem hlater.valid.sale_ids_nodup hmem
    apply hsome db' _ s hlater hs hbranch hlive
    rw [List.mem_append]
    rw [hid] at hlock
    exact .inr hlock

structure Reversed (ctx : TerminalContext) (id : Uuid) (type : MovementType) (s : Sale) (w : Write)
    (log : List Write) (db : Database) : Prop where
  sale : db.sale? id = some s
  branch : s.branchId = ctx.branchId
  live : s.deletedAt = none
  completed : s.status = .completed
  log : ∃ restores, log = w :: restores
    ∧ Batch (Restored ctx.branchId type db) (restorable ctx id db) restores

theorem Reversed.later {ctx : TerminalContext} {id : Uuid} {type : MovementType} {s : Sale}
    {w : Write} (h : Reversed ctx id type s w log db) (hlater : Later l locks db db')
    (hlock : .sale id ∈ locks) : Reversed ctx id type s w log db' where
  sale := hlater.rely.kept _ hlock s h.sale
  branch := h.branch
  live := h.live
  completed := h.completed
  log := by
    obtain ⟨restores, hlog, hbatch⟩ := h.log
    refine ⟨restores, hlog, ?_⟩
    rw [restorable_later hlater.rely h.sale]
    apply hbatch.mono
    intro m ws
    exact Restored.grows db db' m ws hlater.rely.grows

theorem Write.reversed_fits {w : Write} {id : Uuid} {s : Sale} (hw : w.reversed? = some id)
    (hs : db.sale? id = some s) (hstatus : s.status = .completed) : w.Fits log db := by
  cases w with
  | voidSale id' | refundSale id' =>
    have heq : id' = id := by simpa [reversed?] using hw
    subst heq
    exact ⟨s, hs, hstatus⟩
  | _ => simp [reversed?] at hw

theorem wp_updateSale (hl : PosEnv l) (hmid : l.Mid commits) {ctx : TerminalContext} {id : Uuid}
    {w : Write} {s : Sale} {ok : Post Database Write Key Sale} (hpending : Pending [] locks db)
    (hw : w.reversed? = some id) (hs : db.sale? id = some s) (hstatus : s.status = .completed)
    (hlock : .sale id ∈ locks)
    (hok : ∀ db' needs after, Later l locks db db' → (w.apply db').sale? id = some after →
      Pending [w] (locks ++ needs) db' → ok after commits [w] (locks ++ needs) db')
    (herr : ∀ e log' locks' db', Later l locks db db' → err e commits log' locks' db')
    : Call.wp l (updateSale ctx id w) ok err commits [] locks db := by
  unfold updateSale
  rw [Call.wp_bind]
  apply PosCall.wp_target hl hmid
  . intro db1 hlater1 _ _
    rw [Call.wp_bind]
    apply PosCall.wp_execute hl hmid (hlater1.pending hpending)
    . intro db2 hlater2
      apply Write.reversed_fits hw _ hstatus
      exact (hlater1.trans hlater2).rely.kept _ hlock s hs
    . intro db2 hlater2 _ _ hpending2
      rw [Call.wp_bind]
      apply PosCall.wp_queryOnTx hl hmid
      intro db3 hlater3 _
      have hlater := hlater1.trans (hlater2.trans hlater3)
      split
      . next after hafter => exact hok db3 _ after hlater hafter (hlater3.pending hpending2)
      . exact herr _ _ _ db3 hlater
    . intro db2 e hlater2 _
      exact herr e _ _ db2 (hlater1.trans hlater2)
  . intro db1 hlater1 _
    exact herr _ _ _ db1 hlater1

theorem wp_reverse (hl : PosEnv l) (hmid : l.Mid commits) {ctx : TerminalContext} {id : Uuid}
    {type : MovementType} {newIds : Nat → Uuid} {w : Write} {s : Sale}
    {ok : Post Database Write Key CompletedSale} (hinv : l.Inv db) (htype : type.isReversal)
    (hw : w.reversed? = some id) (hs : db.sale? id = some s) (hbranch : s.branchId = ctx.branchId)
    (hlive : s.deletedAt = none) (hstatus : s.status = .completed) (hlock : .sale id ∈ locks)
    (hok : ∀ db' log' needs after, Later l locks db db' → Reversed ctx id type s w log' db' →
      Pending log' (locks ++ needs) db' → (w.apply db').sale? id = some after →
        ok (assemble after) commits log' (locks ++ needs) db')
    (herr : ∀ e log' locks' db', Later l locks db db' → err e commits log' locks' db')
    : Call.wp l (do
        let after ← updateSale ctx id w
        restoreStock ctx id type newIds
        return assemble after) ok err commits [] locks db := by
  have hpending : Pending [] locks db := .nil (hl.valid db hinv) locks
  rw [Call.wp_bind]
  apply wp_updateSale hl hmid hpending hw hs hstatus hlock
  . intro db1 needs1 after hlater1 hafter hpending1
    have hs1 := hlater1.rely.kept _ hlock s hs
    have hlock1 : .sale id ∈ locks ++ needs1 := List.mem_append_left needs1 hlock
    have hin : ∃ w' ∈ [w], w'.reversed? = some id := ⟨w, by simp, hw⟩
    rw [Call.wp_bind]
    apply wp_restoreStock hl hmid hpending1 htype hin hs1 hlock1
    . intro db2 needs2 ws hlater2 hbatch hpending2
      have hs2 := hlater2.rely.kept _ hlock1 s hs1
      rw [List.append_assoc] at hpending2 ⊢
      apply hok db2 _ _ after (hlater1.trans hlater2) _ hpending2
      . rw [← hafter]
        apply Write.sale?_congr hw
        rw [hs1, hs2]
      . exact ⟨hs2, hbranch, hlive, hstatus, ws, rfl, hbatch⟩
    . intro e log' locks' db2 hlater2
      exact herr e _ _ db2 (hlater1.trans hlater2)
  . exact herr

/-- What `voidSale` commits, and the shift it has seen open. -/
structure Voided (l : Env Database Write Key Stmt) (ctx : TerminalContext) (id : Uuid)
    (reason : String) (now : DateTime) (log : List Write) (db : Database) : Prop where
  reversed : ∃ s, Reversed ctx id .void s (.voidSale id now (JsString.trim reason)) log db
    ∧ l.Seen (fun db0 => ∃ sh, findOpenShift ctx db0 = some sh ∧ s.shiftId = some sh.id) db

def refundShiftOf (ctx : TerminalContext) (s : Sale) (db : Database) : Option Uuid :=
  let shift := findOpenShift ctx db
  if shift.map (·.id) = s.shiftId then shift.map (·.id) else none

/-- What `refundSale` commits, and the shift it books the refund on. -/
structure Refunded (l : Env Database Write Key Stmt) (ctx : TerminalContext) (id : Uuid)
    (reason : String) (now : DateTime) (log : List Write) (db : Database) : Prop where
  reversed : ∃ s refundShiftId,
    Reversed ctx id .refund s (.refundSale id now (JsString.trim reason) refundShiftId) log db
      ∧ l.Seen (fun db0 => refundShiftId = refundShiftOf ctx s db0) db

def PinChecked (log : List Write) : Prop :=
  ∃ userId failedPinCount pinLockedUntil, log = [.setPin userId failedPinCount pinLockedUntil]

theorem wp_voidSale (hl : PosEnv l) (hmid : l.Mid []) {ctx : TerminalContext} {id : Uuid}
    {reason : String} {now : DateTime} {newIds : Nat → Uuid}
    (hguar : ∀ locks log db, Pending log locks db → db.Valid → Voided l ctx id reason now log db →
      l.Guar locks log db)
    : Call.wp l (voidSale ctx id reason now newIds)
        (fun _ commits log locks _ => log = [] ∧ locks = []
          ∧ OneCommit (Voided l ctx id reason now) commits)
        (fun _ commits log locks _ => log = [] ∧ locks = [] ∧ commits = [])
        [] [] [] db := by
  unfold voidSale
  dsimp only
  split
  . rw [Call.wp_bind]
    exact ⟨rfl, rfl, rfl⟩
  . apply Call.wp_transaction
    rw [Call.wp_bind]
    apply wp_lockSale hl hmid
    . intro db1 needs1 _
      exact ⟨hmid, fun _ _ _ => ⟨rfl, rfl, rfl⟩⟩
    . intro db1 needs1 s hlater1 hs hbranch hlive hlock
      dsimp only
      split
      . rw [Call.wp_bind]
        exact ⟨hmid, fun _ _ _ => ⟨rfl, rfl, rfl⟩⟩
      . next hstatus =>
        rw [not_not] at hstatus
        rw [Call.wp_bind]
        apply PosCall.wp_query hl hmid
        intro db2 hlater2 _
        split
        . rw [Call.wp_bind]
          exact ⟨hmid, fun _ _ _ => ⟨rfl, rfl, rfl⟩⟩
        . next hshift =>
          have hs2 := hlater2.rely.kept _ hlock s hs
          apply wp_reverse hl hmid hlater2.inv rfl rfl hs2 hbranch hlive hstatus hlock
          . intro db3 log3 needs3 after hlater3 hreversed hpending _
            refine ⟨hmid, ?_⟩
            intro db4 hrely hinv4 _
            have hlater4 : Later l _ db3 db4 := .of_rely hl hrely hinv4
            have hvoided : Voided l ctx id reason now log3 db4 := by
              refine ⟨s, hreversed.later hlater4 (List.mem_append_left needs3 hlock), ?_⟩
              apply hlater4.seen
              apply hlater3.seen
              apply Env.Seen.now hlater2.inv
              cases hopen : findOpenShift ctx db2 with
              | none => simp [hopen] at hshift
              | some sh =>
                have hid : some sh.id = s.shiftId := by simpa [hopen] using hshift
                exact ⟨sh, rfl, hid.symm⟩
            refine ⟨?_, rfl, rfl, db4, log3, hvoided, rfl⟩
            exact hguar _ log3 db4 (hlater4.pending hpending) hlater4.valid hvoided
          . intro e log3 locks3 db3 hlater3
            exact ⟨hmid, fun _ _ _ => ⟨rfl, rfl, rfl⟩⟩

def PinCommits (commits : List (Database × Database)) : Prop :=
  ∀ c ∈ commits, ∃ log, PinChecked log ∧ c.2 = replay log c.1

theorem wp_setPin (hl : PosEnv l) (hmid : l.Mid []) {userId : Uuid} {count : Nat}
    {lock : Option (Option DateTime)} {ok : Post Database Write Key Unit} (hinv : l.Inv db)
    (hguar : ∀ locks log db, Pending log locks db → db.Valid → PinChecked log → l.Guar locks log db)
    (hok : ∀ db' commits', PinCommits commits' → ok () commits' [] [] db')
    (herr : ∀ e db', err e [] [] [] db')
    : Call.wp l (Call.transaction .commit do
        PosCall.execute .updateUser (.setPin userId count lock)) ok err [] [] [] db := by
  apply Call.wp_transaction
  have hfits : ∀ db', (Write.setPin userId count lock).Fits [] db' := fun _ => trivial
  have hpending : Pending [] [] db := .nil (hl.valid db hinv) []
  apply PosCall.wp_execute hl hmid hpending fun _ _ => hfits _
  . intro db1 hlater1 _ _ hpending1
    refine ⟨hmid, ?_⟩
    intro db2 hrely hinv2 _
    have hlater2 : Later l _ db1 db2 := .of_rely hl hrely hinv2
    have hpending2 := hlater2.pending hpending1
    have hpin : PinChecked [.setPin userId count lock] := ⟨userId, count, lock, rfl⟩
    refine ⟨hguar _ _ db2 hpending2 hlater2.valid hpin, ?_⟩
    apply hok
    intro c hc
    rw [List.nil_append, List.mem_singleton] at hc
    rw [hc]
    exact ⟨_, hpin, rfl⟩
  . intro db1 e _ _
    exact ⟨hmid, fun _ _ _ => herr e _⟩

theorem wp_verifyPin (hl : PosEnv l) (hmid : l.Mid []) {verifySecret : String → String → Bool}
    {ownerId : Uuid} {pin : String} {now : DateTime} {ok : Post Database Write Key Unit}
    (hguar : ∀ locks log db, Pending log locks db → db.Valid → PinChecked log → l.Guar locks log db)
    (hok : ∀ db' commits', PinCommits commits' → ok () commits' [] [] db')
    (herr : ∀ e db' commits', PinCommits commits' → err e commits' [] [] db')
    : Call.wp l (verifyPinWithLockout verifySecret ownerId pin now) ok err [] [] [] db := by
  have hnone : PinCommits [] := by simp [PinCommits]
  unfold verifyPinWithLockout
  rw [Call.wp_bind]
  apply PosCall.wp_query hl hmid
  intro db1 hlater1 _
  split
  . exact herr _ _ _ hnone
  . next user _ =>
    split
    . exact herr _ _ _ hnone
    . rw [Call.wp_bind]
      apply Call.wp_ofExcept
      . intro _ _
        split
        . apply wp_setPin hl hmid hlater1.inv hguar hok
          intro e db'
          exact herr e db' [] hnone
        . unfold recordFailure
          rw [Call.wp_bind]
          apply PosCall.wp_check hl hmid
          . intro db2 found hlater2 _ _
            dsimp only
            rw [Call.wp_bind]
            apply wp_setPin hl hmid hlater2.inv hguar
            . intro db3 commits3 hcommits3
              exact herr _ _ _ hcommits3
            . intro e db'
              exact herr e db' [] hnone
          . intro db2 e _ _
            exact herr e db2 [] hnone
      . intro e _
        exact herr e _ _ hnone

theorem wp_refundSale (hl : PosEnv l) (hmid : ∀ commits, PinCommits commits → l.Mid commits)
    {verifySecret : String → String → Bool} {ctx : TerminalContext} {id : Uuid}
    {reason pin : String} {now : DateTime} {newIds : Nat → Uuid}
    (hpin : ∀ locks log db, Pending log locks db → db.Valid → PinChecked log → l.Guar locks log db)
    (hguar : ∀ locks log db, Pending log locks db → db.Valid → Refunded l ctx id reason now log db →
      l.Guar locks log db)
    : Call.wp l (refundSale verifySecret ctx id reason pin now newIds)
        (fun _ commits log locks _ => log = [] ∧ locks = []
          ∧ ∃ pins own, PinCommits pins ∧ OneCommit (Refunded l ctx id reason now) own
            ∧ commits = pins ++ own)
        (fun _ commits log locks _ => log = [] ∧ locks = [] ∧ PinCommits commits)
        [] [] [] db := by
  have hnone : PinCommits [] := by simp [PinCommits]
  unfold refundSale
  rw [Call.wp_bind]
  apply wp_verifyPin hl (hmid _ hnone) hpin
  . intro db0 pins hpins
    have hmid := hmid pins hpins
    dsimp only
    split
    . rw [Call.wp_bind]
      exact ⟨rfl, rfl, hpins⟩
    . apply Call.wp_transaction
      rw [Call.wp_bind]
      apply wp_lockSale hl hmid
      . intro db1 needs1 _
        exact ⟨hmid, fun _ _ _ => ⟨rfl, rfl, hpins⟩⟩
      . intro db1 needs1 s hlater1 hs hbranch hlive hlock
        dsimp only
        split
        . rw [Call.wp_bind]
          exact ⟨hmid, fun _ _ _ => ⟨rfl, rfl, hpins⟩⟩
        . next hstatus =>
          rw [not_not] at hstatus
          rw [Call.wp_bind]
          apply PosCall.wp_query hl hmid
          intro db2 hlater2 _
          have hs2 := hlater2.rely.kept _ hlock s hs
          apply wp_reverse hl hmid hlater2.inv rfl rfl hs2 hbranch hlive hstatus hlock
          . intro db3 log3 needs3 after hlater3 hreversed hpending _
            refine ⟨hmid, ?_⟩
            intro db4 hrely hinv4 _
            have hlater4 : Later l _ db3 db4 := .of_rely hl hrely hinv4
            have hrefunded : Refunded l ctx id reason now log3 db4 := by
              refine ⟨s, _, hreversed.later hlater4 (List.mem_append_left needs3 hlock), ?_⟩
              apply hlater4.seen
              apply hlater3.seen
              exact Env.Seen.now hlater2.inv rfl
            refine ⟨?_, rfl, rfl, pins, _, hpins, ⟨db4, log3, hrefunded, rfl⟩, rfl⟩
            exact hguar _ log3 db4 (hlater4.pending hpending) hlater4.valid hrefunded
          . intro e log3 locks3 db3 hlater3
            exact ⟨hmid, fun _ _ _ => ⟨rfl, rfl, hpins⟩⟩
  . intro e db' commits' hcommits'
    exact ⟨rfl, rfl, hcommits'⟩

end SentryPos
