import SentryPos.Pos.Reversal
import SentryPos.Pos.Stock

/-!
This module contains the specification of `receive` and `adjust`: what each commits.
-/

namespace SentryPos

open ReadCommitted

variable {l : Logic Database Write Key Stmt} {R : Type} {ok : Post Database Write Key R}
  {err : Post Database Write Key ApiError} {commits : List (Database × Database)}
  {log : List Write} {locks : List Key} {db db' : Database} {ctx : RequestContext} {branchId : Uuid}

def Write.SetsCost (w : Write) : Prop :=
  ∃ id cost, w = .setProductCost id cost ∨ w = .setVariantCost id cost

def Received (branchId operationId : Uuid) (db : Database) (line : ReceiveLineDto)
    (ws : List Write) : Prop :=
  ∃ w costs, Restock db (line.key branchId) line.qty.milli w ∧ (∀ c ∈ costs, c.SetsCost)
    ∧ ws = w :: .insertMovement (receiveMovement branchId operationId line) :: costs

theorem Received.grows {operationId : Uuid} (db db' : Database) (line : ReceiveLineDto)
    (ws : List Write) (hgrows : db.Grows db') (h : Received branchId operationId db line ws)
    : Received branchId operationId db' line ws := by
  obtain ⟨w, costs, hw, hcosts, hws⟩ := h
  exact ⟨w, costs, hw.grows hgrows, hcosts, hws⟩

theorem wp_applyCostAndBatch (hl : PosEnv l) (hmid : l.Mid commits)
    {product : ProductWithVariants} {line : ReceiveLineDto} {ok : Post Database Write Key Unit}
    (hinv : l.Inv db) (hpending : Pending log locks db)
    (hok : ∀ db' needs costs, Later l locks db db' → (∀ c ∈ costs, c.SetsCost) →
      Pending (log ++ costs) (locks ++ needs) db' →
        ok () commits (log ++ costs) (locks ++ needs) db')
    (herr : ∀ e log' locks' db', Later l locks db db' → err e commits log' locks' db')
    : Call.wp l (applyCostAndBatch ctx product line) ok err commits log locks db := by
  have hsame : ∀ db', Later l locks db db' → ok () commits log locks db' := by
    intro db' hlater
    have h := hok db' [] [] hlater (by simp)
    simp only [List.append_nil] at h
    exact h (hlater.pending hpending)
  unfold applyCostAndBatch
  split
  . rw [Call.wp_bind]
    apply PosCall.wp_target hl hmid
    . intro db1 hlater1 _ _
      dsimp only
      split
      . rw [Call.wp_bind]
        exact herr _ _ _ db1 hlater1
      . split
        . next cost variantId _ _ =>
          have hfits : ∀ db', (Write.setVariantCost variantId cost).Fits log db' := fun _ => trivial
          apply PosCall.wp_execute hl hmid (hlater1.pending hpending) fun _ _ => hfits _
          . intro db2 hlater2 _ _ hpending2
            apply hok db2 _ _ (hlater1.trans hlater2) _ hpending2
            intro c hc
            exact ⟨variantId, cost, .inr (List.mem_singleton.mp hc)⟩
          . intro db2 e hlater2 _
            exact herr e _ _ db2 (hlater1.trans hlater2)
        . next cost _ _ =>
          have hfits : ∀ db', (Write.setProductCost product.product.id cost).Fits log db' :=
            fun _ => trivial
          apply PosCall.wp_execute hl hmid (hlater1.pending hpending) fun _ _ => hfits _
          . intro db2 hlater2 _ _ hpending2
            apply hok db2 _ _ (hlater1.trans hlater2) _ hpending2
            intro c hc
            exact ⟨product.product.id, cost, .inl (List.mem_singleton.mp hc)⟩
          . intro db2 e hlater2 _
            exact herr e _ _ db2 (hlater1.trans hlater2)
        . exact hsame db1 hlater1
    . intro db1 hlater1 _
      exact herr _ _ _ db1 hlater1
  . exact hsame db (.refl hl hinv locks)

theorem wp_receiveLine (hl : PosEnv l) (hmid : l.Mid commits) {branch : Branch}
    {operationId newId : Uuid} {line : ReceiveLineDto} {ok : Post Database Write Key Unit}
    (htargets : ctx.Targets branch.id) (hpending : Pending log locks db)
    (hok : ∀ db' needs ws, Later l locks db db' → Received branch.id operationId db' line ws →
      Pending (log ++ ws) (locks ++ needs) db' → ok () commits (log ++ ws) (locks ++ needs) db')
    (herr : ∀ e log' locks' db', Later l locks db db' → err e commits log' locks' db')
    : Call.wp l (receiveLine ctx branch operationId line newId) ok err commits log locks db := by
  unfold receiveLine
  rw [Call.wp_bind]
  apply PosCall.wp_check hl hmid
  . intro db1 product hlater1 _ _
    rw [Call.wp_bind]
    apply Call.wp_ofExcept
    . intro _ _
      dsimp only
      split
      . rw [Call.wp_bind]
        exact herr _ _ _ db1 hlater1
      . rw [Call.wp_bind]
        have htargets' : ctx.Targets (line.key branch.id).branchId := htargets
        apply wp_addToLevel hl hmid htargets' (hlater1.pending hpending)
        . intro db2 needs2 w hlater2 hrestock hpending2
          rw [Call.wp_bind]
          apply PosCall.wp_police hl hmid htargets
          . intro db3 hlater3
            have hfits
                : ∀ db', (Write.insertMovement (receiveMovement branch.id operationId line)).Fits
                    (log ++ [w]) db' := by
              intro _
              simp [Write.Fits, receiveMovement, MovementType.isReversal]
            rw [Call.wp_bind]
            apply PosCall.wp_execute hl hmid (hlater3.pending hpending2) fun _ _ => hfits _
            . intro db4 hlater4 _ _ hpending4
              apply wp_applyCostAndBatch hl hmid hlater4.inv hpending4
              . intro db5 needs5 costs hlater5 hcosts hpending5
                have hlater := hlater2.trans (hlater3.trans (hlater4.trans hlater5))
                have hgrows := hlater3.rely.grows.trans
                  (hlater4.rely.grows.trans hlater5.rely.grows)
                simp only [List.append_assoc] at hpending5 ⊢
                exact hok db5 _ _ (hlater1.trans hlater)
                  ⟨w, costs, hrestock.grows hgrows, hcosts, rfl⟩ hpending5
              . intro e log' locks' db5 hlater5
                have hlater := hlater2.trans (hlater3.trans (hlater4.trans hlater5))
                exact herr e _ _ db5 (hlater1.trans hlater)
            . intro db4 e hlater4 _
              exact herr e _ _ db4 (hlater1.trans (hlater2.trans (hlater3.trans hlater4)))
          . intro message db3 hlater3
            exact herr _ _ _ db3 (hlater1.trans (hlater2.trans hlater3))
        . intro e log' locks' db2 hlater2
          exact herr e _ _ db2 (hlater1.trans hlater2)
    . intro e _
      exact herr e _ _ db1 hlater1
  . intro db1 e hlater1 _
    exact herr e _ _ db1 hlater1

theorem wp_withLevelCreateRetry {op : Nat → PosCall R} (hinv : l.Inv db)
    (h : ∀ attempt db', l.Inv db' →
      Call.wp l (op attempt) ok
        (fun e commits log locks db' => commits = [] ∧ log = [] ∧ locks = [] ∧ l.Inv db'
          ∧ err e commits log locks db')
        [] [] [] db')
    : Call.wp l (withLevelCreateRetry op) ok err [] [] [] db := by
  unfold withLevelCreateRetry
  rw [Call.wp_tryCatch]
  refine Call.wp_mono (fun _ _ _ _ _ hr => hr) ?_ (h 0 db hinv)
  intro e commits log locks db1 he
  obtain ⟨hcommits, hlog, hlocks, hinv1, he⟩ := he
  subst hcommits hlog hlocks
  split
  . rw [Call.wp_tryCatch]
    refine Call.wp_mono (fun _ _ _ _ _ hr => hr) ?_ (h 1 db1 hinv1)
    intro e commits log locks db2 he
    obtain ⟨hcommits, hlog, hlocks, hinv2, he⟩ := he
    subst hcommits hlog hlocks
    split
    . refine Call.wp_mono (fun _ _ _ _ _ hr => hr) ?_ (h 2 db2 hinv2)
      intro e commits log locks db3 he
      exact he.2.2.2.2
    . exact he
  . exact he

theorem wp_assertBranch (hl : PosEnv l) (hmid : l.Mid commits)
    {ok : Post Database Write Key Branch}
    (hok : ∀ db' branch, Later l locks db db' → branch.id = branchId → branch ∈ db'.branches →
      ctx.ownsBusiness db' branch.businessId → branch.deletedAt = none →
        ok branch commits log locks db')
    (herr : ∀ e db', Later l locks db db' → err e commits log locks db')
    : Call.wp l (assertBranch ctx branchId) ok err commits log locks db := by
  unfold assertBranch
  apply PosCall.wp_check hl hmid
  . intro db1 branch hlater1 _ hquery
    dsimp only at hquery
    cases hfound : db1.branches.find? fun b =>
        b.id = branchId && ctx.ownsBusiness db1 b.businessId && b.deletedAt.isNone with
    | none =>
      rw [hfound] at hquery
      cases hquery
    | some b =>
      rw [hfound] at hquery
      cases hquery
      have hmem := List.mem_of_find?_eq_some hfound
      have hb := List.find?_some hfound
      simp only [Bool.and_eq_true, decide_eq_true_eq, Option.isNone_iff_eq_none] at hb
      exact hok db1 branch hlater1 hb.1.1 hmem hb.1.2 hb.2
  . intro db1 e hlater1 _
    exact herr e db1 hlater1

theorem wp_receive (hl : PosEnv l) (hmid : l.Mid []) {dto : ReceiveDto} {operationId : Uuid}
    {newIds : Nat → Nat → Uuid} (hinv : l.Inv db) (howner : ctx.terminalBranchId = none)
    (hguar : ∀ locks log db, Pending log locks db → db.Valid →
      Batch (Received branchId operationId db) dto.lines log → l.Guar locks log db)
    : Call.wp l (receive ctx branchId dto operationId newIds)
        (fun _ commits log locks _ => log = [] ∧ locks = []
          ∧ OneCommit (fun log db => Batch (Received branchId operationId db) dto.lines log) commits)
        (fun _ commits log locks _ => log = [] ∧ locks = [] ∧ commits = [])
        [] [] [] db := by
  unfold receive
  rw [Call.wp_bind]
  apply Call.wp_ofExcept
  . intro _ _
    apply wp_withLevelCreateRetry hinv
    intro attempt db0 hinv0
    apply Call.wp_transaction
    rw [Call.wp_bind]
    apply wp_assertBranch hl hmid
    . intro db1 branch hlater1 hid _ _ _
      subst hid
      have htargets : ctx.Targets branch.id := by
        intro id hid
        rw [howner] at hid
        cases hid
      rw [Call.wp_bind]
      apply wp_batch hl hmid (P := Received branch.id operationId) Received.grows hlater1.inv
        (.nil hlater1.valid [])
      . intro line _ i done locks' db' ok' _ _ hpending' hok' herr'
        exact wp_receiveLine hl hmid htargets hpending' hok' herr'
      . intro db2 needs2 rlog hlater2 hbatch hpending2
        rw [List.nil_append, List.nil_append] at hpending2 ⊢
        refine ⟨hmid, ?_⟩
        intro db3 hrely hinv3 _
        have hlater3 : Later l _ db2 db3 := .of_rely hl hrely hinv3
        have hbatch3 : Batch (Received branch.id operationId db3) dto.lines rlog := by
          apply hbatch.mono
          intro line ws
          exact Received.grows db2 db3 line ws hlater3.rely.grows
        refine ⟨?_, rfl, rfl, db3, rlog, hbatch3, rfl⟩
        exact hguar _ rlog db3 (hlater3.pending hpending2) hlater3.valid hbatch3
      . intro e log' locks' db2 hlater2
        exact ⟨hmid, fun _ _ hinv' => ⟨rfl, rfl, rfl, hinv', rfl, rfl, rfl⟩⟩
    . intro e db1 hlater1
      exact ⟨hmid, fun _ _ hinv' => ⟨rfl, rfl, rfl, hinv', rfl, rfl, rfl⟩⟩
  . intro e _
    exact ⟨rfl, rfl, rfl⟩

inductive SetLevel (db : Database) (key : StockKey) (qty : ℤ) : Option BranchStock → Write → Prop
    where
  | update {row r : BranchStock} (hrow : db.stock? row.id = some r) (hkey : r.toStockKey = key)
      (hlive : r.deletedAt = none) : SetLevel db key qty (some row) (.setStock row.id qty)
  | insert (id : Uuid) : SetLevel db key qty none (.insertStock id key qty)

theorem SetLevel.grows {key : StockKey} {qty : ℤ} {existing : Option BranchStock} {w : Write}
    (h : SetLevel db key qty existing w) (hgrows : db.Grows db')
    : SetLevel db' key qty existing w := by
  cases h with
  | update hrow hkey hlive =>
    obtain ⟨r', hr', hkey', hlive'⟩ := hgrows.stock _ _ hrow
    exact .update hr' (hkey'.trans hkey) (hlive'.trans hlive)
  | insert id => exact .insert id

/-- What `adjust` commits, and the row it has seen before it set the level. -/
structure Adjusted (l : Env Database Write Key Stmt) (ctx : RequestContext) (branchId : Uuid)
    (dto : AdjustStockDto) (log : List Write) (db : Database) : Prop where
  log : ∃ existing w movementId,
    log = [w, .insertMovement (adjustMovement branchId movementId dto
        (dto.newQty.milli - (existing.map (·.qty)).getD 0))]
      ∧ SetLevel db (dto.key branchId) dto.newQty.milli existing w
      ∧ l.Seen (fun db0 => findLevel ctx (dto.key branchId) db0 = existing) db
  branch : l.Seen (fun db0 => branchId ∈ ctx.allowedBranchIds db0) db

theorem wp_setLevel (hl : PosEnv l) (hmid : l.Mid commits) {existing : Option BranchStock}
    {key : StockKey} {qty : ℤ} {newId : Uuid} {ok : Post Database Write Key Unit}
    (htargets : ctx.Targets key.branchId) (hpending : Pending log locks db)
    (hexisting : ∀ row ∈ existing,
      db.stock? row.id = some row ∧ row.toStockKey = key ∧ row.deletedAt = none)
    (hok : ∀ db' needs w, Later l locks db db' → SetLevel db' key qty existing w →
      Pending (log ++ [w]) (locks ++ needs) db' → ok () commits (log ++ [w]) (locks ++ needs) db')
    (herr : ∀ e log' locks' db', Later l locks db db' → err e commits log' locks' db')
    : Call.wp l (setLevel ctx existing key qty newId) ok err commits log locks db := by
  unfold setLevel
  split
  . next row =>
    obtain ⟨hrow, hkey, hlive⟩ := hexisting row rfl
    have hset : SetLevel db key qty (some row) (.setStock row.id qty) := .update hrow hkey hlive
    rw [Call.wp_bind]
    apply PosCall.wp_target hl hmid
    . intro db1 hlater1 _ _
      have hfits : ∀ db', (Write.setStock row.id qty).Fits log db' := fun _ => trivial
      apply PosCall.wp_execute hl hmid (hlater1.pending hpending) fun _ _ => hfits _
      . intro db2 hlater2 _ _ hpending2
        have hlater := hlater1.trans hlater2
        exact hok db2 _ _ hlater (hset.grows hlater.rely.grows) hpending2
      . intro db2 e hlater2 _
        exact herr e _ _ db2 (hlater1.trans hlater2)
    . intro db1 hlater1 _
      exact herr _ _ _ db1 hlater1
  . rw [Call.wp_bind]
    apply PosCall.wp_police hl hmid htargets
    . intro db1 hlater1
      have hfits : ∀ db', (Write.insertStock newId key qty).Fits log db' := fun _ => trivial
      apply PosCall.wp_execute hl hmid (hlater1.pending hpending) fun _ _ => hfits _
      . intro db2 hlater2 _ _ hpending2
        exact hok db2 _ _ (hlater1.trans hlater2) (.insert newId) hpending2
      . intro db2 e hlater2 _
        exact herr e _ _ db2 (hlater1.trans hlater2)
    . intro message db1 hlater1
      exact herr _ _ _ db1 hlater1

theorem mem_allowedBranchIds {branch : Branch} (hmem : branch ∈ db.branches)
    (howns : ctx.ownsBusiness db branch.businessId) (hlive : branch.deletedAt = none)
    : branch.id ∈ ctx.allowedBranchIds db := by
  unfold RequestContext.allowedBranchIds
  apply List.mem_map_of_mem
  unfold RequestContext.ownsBusiness at howns
  simp only [List.mem_filter, Bool.and_eq_true, decide_eq_true_eq, Option.isNone_iff_eq_none]
  exact ⟨hmem, by simpa using howns, hlive⟩

theorem wp_adjust (hl : PosEnv l) (hmid : l.Mid []) {dto : AdjustStockDto}
    {movementIds newIds : Nat → Uuid} (hinv : l.Inv db) (htargets : ctx.Targets branchId)
    (hguar : ∀ locks log db, Pending log locks db → db.Valid → Adjusted l ctx branchId dto log db →
      l.Guar locks log db)
    : Call.wp l (adjust ctx branchId dto movementIds newIds)
        (fun _ commits log locks _ => log = [] ∧ locks = []
          ∧ OneCommit (Adjusted l ctx branchId dto) commits)
        (fun _ commits log locks _ => log = [] ∧ locks = [] ∧ commits = [])
        [] [] [] db := by
  unfold adjust
  apply wp_withLevelCreateRetry hinv
  intro attempt db0 hinv0
  apply Call.wp_transaction
  rw [Call.wp_bind]
  apply wp_assertBranch hl hmid
  . intro db1 branch hlater1 hid hmem howns hlive
    have hallowed : branchId ∈ ctx.allowedBranchIds db1 := by
      rw [← hid]
      exact mem_allowedBranchIds hmem howns hlive
    rw [Call.wp_bind]
    apply PosCall.wp_check hl hmid
    . intro db2 product hlater2 _ _
      rw [Call.wp_bind]
      apply Call.wp_ofExcept
      . intro _ _
        rw [Call.wp_bind]
        apply PosCall.wp_query hl hmid
        intro db3 hlater3 _
        have hexisting
            : ∀ row ∈ findLevel ctx (dto.key branchId) db3, db3.stock? row.id = some row
                ∧ row.toStockKey = dto.key branchId ∧ row.deletedAt = none := by
          intro row hrow
          unfold findLevel at hrow
          have hmem := List.mem_of_find?_eq_some hrow
          have hfound := List.find?_some hrow
          simp only [Bool.and_eq_true, decide_eq_true_eq, Option.isNone_iff_eq_none] at hfound
          exact ⟨Table.get_of_mem hlater3.valid.stock_ids_nodup hmem, hfound.1.1, hfound.2⟩
        rw [Call.wp_bind]
        apply wp_setLevel hl hmid htargets (.nil hlater3.valid []) hexisting
        . intro db4 needs4 w hlater4 hset hpending4
          rw [Call.wp_bind]
          apply PosCall.wp_police hl hmid htargets
          . intro db5 hlater5
            rw [Call.wp_bind]
            have hfits
                : ∀ m : StockMovement, m.type = .adjustment →
                    ∀ db', (Write.insertMovement m).Fits ([] ++ [w]) db' := by
              intro m htype _
              simp [Write.Fits, htype, MovementType.isReversal]
            apply PosCall.wp_execute hl hmid (hlater5.pending hpending4) fun _ _ => hfits _ rfl _
            . intro db6 hlater6 _ _ hpending6
              refine ⟨hmid, ?_⟩
              intro db7 hrely hinv7 _
              have hlater7 : Later l _ db6 db7 := .of_rely hl hrely hinv7
              have hlater47 := hlater5.trans (hlater6.trans hlater7)
              have hadjusted
                  : Adjusted l ctx branchId dto
                      [w, .insertMovement (adjustMovement branchId (movementIds attempt) dto
                        (dto.newQty.milli
                          - ((findLevel ctx (dto.key branchId) db3).map (·.qty)).getD 0))] db7 := by
                constructor
                . refine ⟨findLevel ctx (dto.key branchId) db3, w, movementIds attempt, rfl, ?_, ?_⟩
                  . exact hset.grows hlater47.rely.grows
                  . apply (hlater4.trans hlater47).seen
                    exact Env.Seen.now hlater3.inv rfl
                . apply (hlater2.trans (hlater3.trans (hlater4.trans hlater47))).seen
                  exact Env.Seen.now hlater1.inv hallowed
              refine ⟨?_, rfl, rfl, db7, _, hadjusted, rfl⟩
              exact hguar _ _ db7 (hlater7.pending hpending6) hlater7.valid hadjusted
            . intro db6 e hlater6 _
              exact ⟨hmid, fun _ _ hinv' => ⟨rfl, rfl, rfl, hinv', rfl, rfl, rfl⟩⟩
          . intro message db5 hlater5
            exact ⟨hmid, fun _ _ hinv' => ⟨rfl, rfl, rfl, hinv', rfl, rfl, rfl⟩⟩
        . intro e log' locks' db4 hlater4
          exact ⟨hmid, fun _ _ hinv' => ⟨rfl, rfl, rfl, hinv', rfl, rfl, rfl⟩⟩
      . intro e _
        exact ⟨hmid, fun _ _ hinv' => ⟨rfl, rfl, rfl, hinv', rfl, rfl, rfl⟩⟩
    . intro db2 e hlater2 _
      exact ⟨hmid, fun _ _ hinv' => ⟨rfl, rfl, rfl, hinv', rfl, rfl, rfl⟩⟩
  . intro e db1 hlater1
    exact ⟨hmid, fun _ _ hinv' => ⟨rfl, rfl, rfl, hinv', rfl, rfl, rfl⟩⟩

end SentryPos
