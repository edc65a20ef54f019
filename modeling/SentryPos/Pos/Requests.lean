import SentryPos.Pos.CompleteSale
import SentryPos.Pos.Drawer
import SentryPos.Pos.Receiving

/-!
This module contains the requests of the point of sale as one system: what each may commit, and the
proof that each does nothing else in any run with any other requests.
-/

namespace SentryPos

open ReadCommitted

inductive Request where
  | completeSale (ctx : TerminalContext) (dto : SaleDraftDto) (now : DateTime)
  | voidSale (ctx : TerminalContext) (id : Uuid) (reason : String) (now : DateTime)
      (newIds : Nat → Uuid)
  | refundSale (verifySecret : String → String → Bool) (ctx : TerminalContext) (id : Uuid)
      (reason pin : String) (now : DateTime) (newIds : Nat → Uuid)
  | receive (ownerId branchId : Uuid) (dto : ReceiveDto) (operationId : Uuid)
      (newIds : Nat → Nat → Uuid)
  | adjust (ownerId branchId : Uuid) (dto : AdjustStockDto) (movementIds newIds : Nat → Uuid)
  | openShift (ctx : TerminalContext) (dto : OpenShiftDto) (shiftId : Uuid) (now : DateTime)
  | addCashMovement (ctx : TerminalContext) (dto : CashMovementDto) (movementId : Uuid)
      (now : DateTime)
  | closeShift (ctx : TerminalContext) (dto : CloseShiftDto) (closedAt : DateTime)

inductive Response where
  | sale (r : SaleResponse)
  | reversed (sale : CompletedSale)
  | received (r : ReceiveResponse)
  | adjusted (r : AdjustResponse)
  | shift (s : Shift)
  | cashMovement (m : ShiftCashMovement)
  | zReport (z : ZReport)

/-- The scope of an owner's portal. -/
def RequestContext.owner (ownerId : Uuid) : RequestContext :=
  { ownerId, terminalBranchId := none }

def Request.call [Rounding] : Request → PosCall Response
  | .completeSale ctx dto now => do
    let r ← SentryPos.completeSale ctx dto now
    return .sale r
  | .voidSale ctx id reason now newIds => do
    let sale ← SentryPos.voidSale ctx id reason now newIds
    return .reversed sale
  | .refundSale verifySecret ctx id reason pin now newIds => do
    let sale ← SentryPos.refundSale verifySecret ctx id reason pin now newIds
    return .reversed sale
  | .receive ownerId branchId dto operationId newIds => do
    let r ← SentryPos.receive (.owner ownerId) branchId dto operationId newIds
    return .received r
  | .adjust ownerId branchId dto movementIds newIds => do
    let r ← SentryPos.adjust (.owner ownerId) branchId dto movementIds newIds
    return .adjusted r
  | .openShift ctx dto shiftId now => do
    let s ← SentryPos.openShift ctx dto shiftId now
    return .shift s
  | .addCashMovement ctx dto movementId now => do
    let m ← SentryPos.addCashMovement ctx dto movementId now
    return .cashMovement m
  | .closeShift ctx dto closedAt => do
    let z ← SentryPos.closeShift ctx dto closedAt
    return .zReport z

abbrev Program :=
  Prog Database Write Key Stmt (Except ApiError Response)

def Request.prog [Rounding] (req : Request) : Program :=
  req.call.run

/-- What a request may commit. A `completeSale` also commits a transaction that found the sale. -/
inductive Request.Commit [Rounding] (l : Env Database Write Key Stmt)
    : Request → List Write → Database → Prop where
  | found {ctx : TerminalContext} {dto : SaleDraftDto} {now : DateTime} {db : Database}
      : Commit l (.completeSale ctx dto now) [] db
  | posted {ctx : TerminalContext} {dto : SaleDraftDto} {now : DateTime} {db : Database}
      {totals : CartTotals} {costByLine : List (Uuid × Option ℤ)} {p : Posting}
      (haccepted : Accepted l ctx dto totals costByLine db)
      (hposted : Posted ctx dto totals costByLine now p db (replay (p.log ctx dto) db))
      (hbumped : Bumped l ctx.terminalId dto.receiptNo p.receiptSeq db)
      : Commit l (.completeSale ctx dto now) (p.log ctx dto) db
  | voided {ctx : TerminalContext} {id : Uuid} {reason : String} {now : DateTime}
      {newIds : Nat → Uuid} {log : List Write} {db : Database}
      (h : Voided l ctx id reason now log db)
      : Commit l (.voidSale ctx id reason now newIds) log db
  | pin {verifySecret : String → String → Bool} {ctx : TerminalContext} {id : Uuid}
      {reason pin : String} {now : DateTime} {newIds : Nat → Uuid} {log : List Write}
      {db : Database} (h : PinChecked log)
      : Commit l (.refundSale verifySecret ctx id reason pin now newIds) log db
  | refunded {verifySecret : String → String → Bool} {ctx : TerminalContext} {id : Uuid}
      {reason pin : String} {now : DateTime} {newIds : Nat → Uuid} {log : List Write}
      {db : Database} (h : Refunded l ctx id reason now log db)
      : Commit l (.refundSale verifySecret ctx id reason pin now newIds) log db
  | received {ownerId branchId : Uuid} {dto : ReceiveDto} {operationId : Uuid}
      {newIds : Nat → Nat → Uuid} {log : List Write} {db : Database}
      (h : Batch (Received branchId operationId db) dto.lines log)
      : Commit l (.receive ownerId branchId dto operationId newIds) log db
  | adjusted {ownerId branchId : Uuid} {dto : AdjustStockDto} {movementIds newIds : Nat → Uuid}
      {log : List Write} {db : Database} (h : Adjusted l (.owner ownerId) branchId dto log db)
      : Commit l (.adjust ownerId branchId dto movementIds newIds) log db
  | opened {ctx : TerminalContext} {dto : OpenShiftDto} {shiftId : Uuid} {now : DateTime}
      {log : List Write} {db : Database} (h : Opened l ctx dto shiftId now log db)
      : Commit l (.openShift ctx dto shiftId now) log db
  | cashMoved {ctx : TerminalContext} {dto : CashMovementDto} {movementId : Uuid} {now : DateTime}
      {log : List Write} {db : Database} (h : CashMoved l ctx dto movementId now log db)
      : Commit l (.addCashMovement ctx dto movementId now) log db
  | closed {ctx : TerminalContext} {dto : CloseShiftDto} {closedAt : DateTime} {log : List Write}
      {db : Database} (h : Closed l ctx dto closedAt log db)
      : Commit l (.closeShift ctx dto closedAt) log db

/-- One committed transaction of a request. -/
structure Request.Event [Rounding] (l : Env Database Write Key Stmt) (req : Request) (db db' : Database)
    : Prop where
  valid : db.Valid
  commit : ∃ log locks, Pending log locks db ∧ req.Commit l log db ∧ db' = replay log db

def Request.Partial (req : Request) (commits : List (Database × Database)) : Prop :=
  match req with
  | .refundSale .. => PinCommits commits
  | .addCashMovement .. | .closeShift .. => True
  | _ => commits = []

def Request.Outcome [Rounding] (l : Env Database Write Key Stmt) (req : Request)
    (r : Except ApiError Response) (commits : List (Database × Database)) (db : Database) : Prop :=
  match req, r with
  | .completeSale ctx dto now, .ok (.sale r) => SaleResult l ctx dto now r commits db
  | .completeSale .., .ok _ => False
  | .completeSale ctx dto _, .error e => e = .aborted ∨ SaleError l ctx dto e db
  | .voidSale ctx id reason now _, .ok _ => OneCommit (Voided l ctx id reason now) commits
  | .refundSale _ ctx id reason _ now _, .ok _ =>
    ∃ pins own, PinCommits pins ∧ OneCommit (Refunded l ctx id reason now) own
      ∧ commits = pins ++ own
  | _, _ => True

theorem Request.Outcome.past [Rounding] {l : Env Database Write Key Stmt} {req : Request}
    {r : Except ApiError Response} {commits : List (Database × Database)} {db db' : Database}
    (h : req.Outcome l r commits db) (hpast : l.Past db db') : req.Outcome l r commits db' := by
  cases req with
  | completeSale ctx dto now =>
    cases r with
    | ok a =>
      cases a with
      | sale r => exact SaleResult.past h hpast
      | _ => exact h
    | error e =>
      cases h with
      | inl h => exact .inl h
      | inr h => exact .inr (h.past hpast)
  | voidSale | refundSale => cases r <;> exact h
  | _ => trivial

structure Request.Post [Rounding] (l : Env Database Write Key Stmt) (req : Request)
    (r : Except ApiError Response) (commits : List (Database × Database)) (log : List Write)
    (locks : List Key) (db : Database) : Prop where
  log : log = []
  locks : locks = []
  failed : ∀ e, r = .error e → req.Partial commits
  outcome : req.Outcome l r commits db

def Request.logic [Rounding] (l : Env Database Write Key Stmt) (req : Request)
    : Logic Database Write Key Stmt where
  toEnv := l
  Guar locks log db := Pending log locks db ∧ db.Valid ∧ req.Commit l log db
  Mid := req.Partial

variable {l : Env Database Write Key Stmt}

theorem Request.wp_prog [Rounding] (hl : PosEnv l) (req : Request) {db : Database} (hinv : l.Inv db)
    : req.prog.wp (req.logic l) (req.Post l) [] [] [] db := by
  unfold prog
  rw [Call.wp_run]
  cases req with
  | completeSale ctx dto now =>
    unfold call
    rw [Call.wp_bind]
    refine Call.wp_mono ?_ ?_ (wp_completeSale hl rfl ?_)
    . intro r commits log locks db' h
      exact ⟨h.1, h.2.1, by simp, h.2.2⟩
    . intro e commits log locks db' h
      exact ⟨h.1, h.2.1, fun _ _ => h.2.2.1, .inr h.2.2.2⟩
    . intro locks log db' hpending hdb' h
      refine ⟨hpending, hdb', ?_⟩
      cases h with
      | inl h =>
        rw [h]
        exact .found
      | inr h =>
        obtain ⟨totals, costByLine, p, hlog, haccepted, hposted, hbumped⟩ := h
        subst hlog
        exact .posted haccepted hposted hbumped
  | voidSale ctx id reason now newIds =>
    unfold call
    rw [Call.wp_bind]
    refine Call.wp_mono ?_ ?_ (wp_voidSale hl rfl ?_)
    . intro r commits log locks db' h
      exact ⟨h.1, h.2.1, by simp, h.2.2⟩
    . intro e commits log locks db' h
      exact ⟨h.1, h.2.1, fun _ _ => h.2.2, trivial⟩
    . intro locks log db' hpending hdb' h
      exact ⟨hpending, hdb', .voided h⟩
  | refundSale verifySecret ctx id reason pin now newIds =>
    unfold call
    rw [Call.wp_bind]
    refine Call.wp_mono ?_ ?_ (wp_refundSale hl (fun _ h => h) ?_ ?_)
    . intro r commits log locks db' h
      exact ⟨h.1, h.2.1, by simp, h.2.2⟩
    . intro e commits log locks db' h
      exact ⟨h.1, h.2.1, fun _ _ => h.2.2, trivial⟩
    . intro locks log db' hpending hdb' h
      exact ⟨hpending, hdb', .pin h⟩
    . intro locks log db' hpending hdb' h
      exact ⟨hpending, hdb', .refunded h⟩
  | receive ownerId branchId dto operationId newIds =>
    unfold call
    rw [Call.wp_bind]
    refine Call.wp_mono ?_ ?_ (wp_receive hl rfl hinv rfl ?_)
    . intro r commits log locks db' h
      exact ⟨h.1, h.2.1, by simp, trivial⟩
    . intro e commits log locks db' h
      exact ⟨h.1, h.2.1, fun _ _ => h.2.2, trivial⟩
    . intro locks log db' hpending hdb' h
      exact ⟨hpending, hdb', .received h⟩
  | adjust ownerId branchId dto movementIds newIds =>
    unfold call
    rw [Call.wp_bind]
    refine Call.wp_mono ?_ ?_ (wp_adjust hl rfl hinv (.unpinned rfl branchId) ?_)
    . intro r commits log locks db' h
      exact ⟨h.1, h.2.1, by simp, trivial⟩
    . intro e commits log locks db' h
      exact ⟨h.1, h.2.1, fun _ _ => h.2.2, trivial⟩
    . intro locks log db' hpending hdb' h
      exact ⟨hpending, hdb', .adjusted h⟩
  | openShift ctx dto shiftId now =>
    unfold call
    rw [Call.wp_bind]
    refine Call.wp_mono ?_ ?_ (wp_openShift hl rfl ?_)
    . intro r commits log locks db' h
      exact ⟨h.1, h.2.1, by simp, trivial⟩
    . intro e commits log locks db' h
      exact ⟨h.1, h.2.1, fun _ _ => h.2.2, trivial⟩
    . intro locks log db' hpending hdb' h
      exact ⟨hpending, hdb', .opened h⟩
  | addCashMovement ctx dto movementId now =>
    unfold call
    rw [Call.wp_bind]
    refine Call.wp_mono ?_ ?_ (wp_addCashMovement hl ?_ ?_)
    . intro r commits log locks db' h
      exact ⟨h.1, h.2.1, by simp, trivial⟩
    . intro e commits log locks db' h
      exact ⟨h.1, h.2.1, fun _ _ => trivial, trivial⟩
    . intro commits _
      trivial
    . intro locks log db' hpending hdb' h
      exact ⟨hpending, hdb', .cashMoved h⟩
  | closeShift ctx dto closedAt =>
    unfold call
    rw [Call.wp_bind]
    refine Call.wp_mono ?_ ?_ (wp_closeShift hl ?_ ?_)
    . intro r commits log locks db' h
      exact ⟨h.1, h.2.1, by simp, trivial⟩
    . intro e commits log locks db' h
      exact ⟨h.1, h.2.1, fun _ _ => trivial, trivial⟩
    . intro commits _
      trivial
    . intro locks log db' hpending hdb' h
      exact ⟨hpending, hdb', .closed h⟩

end SentryPos
