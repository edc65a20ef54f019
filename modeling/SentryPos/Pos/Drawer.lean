import SentryPos.Pos.Shifts

/-!
This module contains the specification of the calls on a shift: opening it, moving cash in or out
of the drawer and closing it.
-/

namespace SentryPos

open ReadCommitted

variable {l : Logic Database Write Key Stmt} {db db' : Database} {ctx : TerminalContext}

def openedShift (ctx : TerminalContext) (dto : OpenShiftDto) (shiftId : Uuid) (now : DateTime)
    : Shift where
  id := shiftId
  branchId := ctx.branchId
  terminalId := ctx.terminalId
  openedAt := now
  closedAt := none
  openingCash := dto.openingCashC
  closingCash := none
  expectedCash := none
  deletedAt := none

def cashMovementRow (shiftId : Uuid) (dto : CashMovementDto) (movementId : Uuid) (now : DateTime)
    : ShiftCashMovement where
  id := movementId
  shiftId
  type := dto.type
  amount := dto.amountC
  reason := JsString.trim dto.reason
  createdAt := now
  deletedAt := none

/-- What `openShift` commits. -/
structure Opened (l : Env Database Write Key Stmt) (ctx : TerminalContext) (dto : OpenShiftDto)
    (shiftId : Uuid) (now : DateTime) (log : List Write) (db : Database) : Prop where
  log : log = [.insertShift (openedShift ctx dto shiftId now)]
  noneOpen : l.Seen (findOpenShift ctx · = none) db

/-- What `addCashMovement` commits, on the shift it has seen open. -/
structure CashMoved (l : Env Database Write Key Stmt) (ctx : TerminalContext)
    (dto : CashMovementDto) (movementId : Uuid) (now : DateTime) (log : List Write) (db : Database)
    : Prop where
  moved : ∃ shift,
    log = [.insertCashMovement (cashMovementRow shift.id dto movementId now)]
      ∧ l.Seen (findOpenShift ctx · = some shift) db

def Stmt.closesAt (shiftId : Uuid) (stmts : List CloseStmt) (tag : Stmt) : Prop :=
  ∃ stmt ∈ stmts, tag = .close shiftId stmt

/-- What `closeShift` commits. Each of its queries has seen a database of its own. -/
structure Closed (l : Env Database Write Key Stmt) (ctx : TerminalContext) (dto : CloseShiftDto)
    (closedAt : DateTime) (log : List Write) (db : Database) : Prop where
  closed : ∃ shift db1 db2 db3,
    findOpenShift ctx db1 = some shift
      ∧ l.Inv db1
      ∧ l.Inv db2
      ∧ l.Inv db3
      ∧ l.PastAt (Stmt.closesAt shift.id [.sales]) db1 db2
      ∧ l.PastAt (Stmt.closesAt shift.id [.refunds]) db2 db3
      ∧ l.PastAt (Stmt.closesAt shift.id [.target, .update, .commit]) db3 db
      ∧ log = [.closeShift shift.id closedAt dto.countedCashC
          (computeShiftTotals (withMovements db1 shift) (findSalesOfShift ctx shift.id db2)
            (findRefundsOfShift ctx shift.id db3)).expectedCashC]

theorem wp_openShift (hl : PosEnv l) (hmid : l.Mid []) {dto : OpenShiftDto} {shiftId : Uuid}
    {now : DateTime}
    (hguar : ∀ locks log db, Pending log locks db → db.Valid →
      Opened l ctx dto shiftId now log db → l.Guar locks log db)
    : Call.wp l (openShift ctx dto shiftId now)
        (fun _ commits log locks _ => log = [] ∧ locks = []
          ∧ OneCommit (Opened l ctx dto shiftId now) commits)
        (fun _ commits log locks _ => log = [] ∧ locks = [] ∧ commits = [])
        [] [] [] db := by
  unfold openShift
  rw [Call.wp_bind]
  apply PosCall.wp_query hl hmid
  intro db1 hlater1 _
  dsimp only
  split
  . rw [Call.wp_bind]
    exact ⟨rfl, rfl, rfl⟩
  . next hopen =>
    have hnone : findOpenShift ctx db1 = none := by simpa using hopen
    rw [Call.wp_bind]
    apply PosCall.wp_police hl hmid (.terminal ctx)
    . intro db2 hlater2
      rw [Call.wp_bind]
      apply Call.wp_transaction
      have hfits : ∀ row db', (Write.insertShift row).Fits [] db' := fun _ _ => trivial
      apply PosCall.wp_execute hl hmid (.nil hlater2.valid []) fun _ _ => hfits _ _
      . intro db3 hlater3 _ _ hpending3
        refine ⟨hmid, ?_⟩
        intro db4 hrely hinv4 _
        have hlater4 : Later l _ db3 db4 := .of_rely hl hrely hinv4
        have hopened
            : Opened l ctx dto shiftId now [.insertShift (openedShift ctx dto shiftId now)] db4 := by
          refine ⟨rfl, ?_⟩
          apply (hlater2.trans (hlater3.trans hlater4)).seen
          exact Env.Seen.now hlater1.inv hnone
        refine ⟨?_, rfl, rfl, db4, _, hopened, rfl⟩
        exact hguar _ _ db4 (hlater4.pending hpending3) hlater4.valid hopened
      . intro db3 e hlater3 _
        exact ⟨hmid, fun _ _ _ => ⟨rfl, rfl, rfl⟩⟩
    . intro message db2 hlater2
      exact ⟨rfl, rfl, rfl⟩

theorem wp_addCashMovement (hl : PosEnv l) {dto : CashMovementDto} {movementId : Uuid}
    {now : DateTime}
    (hmid : ∀ commits, (commits = [] ∨ OneCommit (CashMoved l ctx dto movementId now) commits) →
      l.Mid commits)
    (hguar : ∀ locks log db, Pending log locks db → db.Valid →
      CashMoved l ctx dto movementId now log db → l.Guar locks log db)
    : Call.wp l (addCashMovement ctx dto movementId now)
        (fun _ commits log locks _ => log = [] ∧ locks = []
          ∧ OneCommit (CashMoved l ctx dto movementId now) commits)
        (fun _ commits log locks _ => log = [] ∧ locks = []
          ∧ (commits = [] ∨ OneCommit (CashMoved l ctx dto movementId now) commits))
        [] [] [] db := by
  unfold addCashMovement
  dsimp only
  split
  . rw [Call.wp_bind]
    exact ⟨rfl, rfl, .inl rfl⟩
  . rw [Call.wp_bind]
    apply PosCall.wp_query hl (hmid [] (.inl rfl))
    intro db1 hlater1 _
    split
    . exact ⟨rfl, rfl, .inl rfl⟩
    . next found hfound =>
      have hopen : findOpenShift ctx db1 = some found.shift := by
        unfold findOpenShiftWithMovements at hfound
        rw [Option.map_eq_some_iff] at hfound
        obtain ⟨shift, hshift, heq⟩ := hfound
        rw [hshift, ← heq]
        rfl
      rw [Call.wp_bind]
      apply PosCall.wp_target hl (hmid [] (.inl rfl))
      . intro db2 hlater2 _ _
        rw [Call.wp_bind]
        apply Call.wp_transaction
        have hfits : ∀ row db', (Write.insertCashMovement row).Fits [] db' := fun _ _ => trivial
        apply PosCall.wp_execute hl (hmid [] (.inl rfl)) (.nil hlater2.valid []) fun _ _ =>
          hfits _ _
        . intro db3 hlater3 _ _ hpending3
          refine ⟨hmid [] (.inl rfl), ?_⟩
          intro db4 hrely hinv4 _
          have hlater4 : Later l _ db3 db4 := .of_rely hl hrely hinv4
          have hmoved
              : CashMoved l ctx dto movementId now
                  [.insertCashMovement (cashMovementRow found.shift.id dto movementId now)] db4 := by
            refine ⟨found.shift, rfl, ?_⟩
            apply (hlater2.trans (hlater3.trans hlater4)).seen
            exact Env.Seen.now hlater1.inv hopen
          refine ⟨hguar _ _ db4 (hlater4.pending hpending3) hlater4.valid hmoved, ?_⟩
          have hcommit : OneCommit (CashMoved l ctx dto movementId now) _ :=
            ⟨db4, _, hmoved, rfl⟩
          rw [Call.wp_bind]
          apply PosCall.wp_query hl (hmid _ (.inr hcommit))
          intro db5 hlater5 _
          split
          . exact ⟨rfl, rfl, .inr hcommit⟩
          . exact ⟨rfl, rfl, hcommit⟩
        . intro db3 e hlater3 _
          exact ⟨hmid [] (.inl rfl), fun _ _ _ => ⟨rfl, rfl, .inl rfl⟩⟩
      . intro db2 hlater2 _
        exact ⟨rfl, rfl, .inl rfl⟩

theorem wp_closeShift (hl : PosEnv l) {dto : CloseShiftDto} {closedAt : DateTime}
    (hmid : ∀ commits, (commits = [] ∨ OneCommit (Closed l ctx dto closedAt) commits) →
      l.Mid commits)
    (hguar : ∀ locks log db, Pending log locks db → db.Valid → Closed l ctx dto closedAt log db →
      l.Guar locks log db)
    : Call.wp l (closeShift ctx dto closedAt)
        (fun _ commits log locks _ => log = [] ∧ locks = []
          ∧ OneCommit (Closed l ctx dto closedAt) commits)
        (fun _ commits log locks _ => log = [] ∧ locks = []
          ∧ (commits = [] ∨ OneCommit (Closed l ctx dto closedAt) commits))
        [] [] [] db := by
  have hnil := hmid [] (.inl rfl)
  unfold closeShift
  rw [Call.wp_bind]
  apply PosCall.wp_query hl hnil
  intro db1 hlater1 _
  split
  . exact ⟨rfl, rfl, .inl rfl⟩
  . next found hfound =>
    obtain ⟨shift, hopen, heq⟩
        : ∃ shift, findOpenShift ctx db1 = some shift ∧ withMovements db1 shift = found := by
      unfold findOpenShiftWithMovements at hfound
      rwa [Option.map_eq_some_iff] at hfound
    subst heq
    rw [Call.wp_bind]
    apply Call.wp_query hnil
    intro db2 hrely2 hinv2 _
    have hpast2 : l.PastAt (Stmt.closesAt shift.id [.sales]) db1 db2 :=
      .single ⟨_, _, ⟨_, by simp, rfl⟩, hrely2⟩
    rw [Call.wp_bind]
    apply Call.wp_query hnil
    intro db3 hrely3 hinv3 _
    have hpast3 : l.PastAt (Stmt.closesAt shift.id [.refunds]) db2 db3 :=
      .single ⟨_, _, ⟨_, by simp, rfl⟩, hrely3⟩
    rw [Call.wp_bind]
    apply Call.wp_check hnil
    . intro db4 _ hrely4 hinv4 _ _
      rw [Call.wp_bind]
      apply Call.wp_transaction
      have hpending4 : Pending [] [] db4 := .nil (hl.valid db4 hinv4) []
      apply Call.wp_write hnil
      . intro db5 ws hrely5 hinv5 _ hcheck
        have hlater5 : Later l [] db4 db5 := .of_rely hl hrely5 hinv5
        split at hcheck
        . cases hcheck
        . next hviolation =>
          cases hcheck
          have hpending5 := (hlater5.pending hpending4).snoc hviolation trivial
          refine ⟨hnil, ?_⟩
          intro db6 hrely6 hinv6 _
          have hlater6 : Later l _ db5 db6 := .of_rely hl hrely6 hinv6
          have hpast6 : l.PastAt (Stmt.closesAt shift.id [.target, .update, .commit]) db3 db6 :=
            (Relation.ReflTransGen.single ⟨_, _, ⟨_, by simp, rfl⟩, hrely4⟩).tail
              ⟨_, _, ⟨_, by simp, rfl⟩, hrely5⟩ |>.tail ⟨_, _, ⟨_, by simp, rfl⟩, hrely6⟩
          have hclosed : Closed l ctx dto closedAt _ db6 :=
            ⟨shift, db1, db2, db3, hopen, hlater1.inv, hinv2, hinv3, hpast2, hpast3, hpast6, rfl⟩
          refine ⟨hguar _ _ db6 (hlater6.pending hpending5) hlater6.valid hclosed, ?_⟩
          have hcommit : OneCommit (Closed l ctx dto closedAt) _ := ⟨db6, _, hclosed, rfl⟩
          rw [Call.wp_bind]
          apply PosCall.wp_query hl (hmid _ (.inr hcommit))
          intro db7 _ _
          exact ⟨rfl, rfl, hcommit⟩
      . intro db5 e _ _ _
        exact ⟨hnil, fun _ _ _ => ⟨rfl, rfl, .inl rfl⟩⟩
    . intro db4 e _ _ _
      exact ⟨rfl, rfl, .inl rfl⟩

end SentryPos
