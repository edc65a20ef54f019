import SentryPos.Platform.Owners
import SentryPos.Pos.System

/-!
This module contains the guard of the point of sale's routes, the requests of terminals that pass it
and an admin's suspensions of their owners. Each of them is one step here, at a time of its own.
-/

namespace SentryPos.Gate

def LAST_SEEN_THROTTLE_MS : ℤ := 60000

def SUSPEND_GRACE_MS : ℤ := 24 * 60 * 60 * 1000

structure Owner where
  id : Uuid
  status : Auth.OwnerStatus
  suspendedAt : Option DateTime
  deletedAt : Option DateTime
  deriving DecidableEq

structure Terminal where
  id : Uuid
  branchId : Uuid
  code : String
  deviceTokenHash : Option String
  lastSeenAt : Option DateTime
  deletedAt : Option DateTime
  deriving DecidableEq

structure State where
  owners : List Owner
  terminals : List Terminal
  db : Database

inductive GuardError where
  | unauthorized
  | ownerSuspended
  deriving DecidableEq

def isOpenOn (terminalId : Uuid) (shift : Shift) : Bool :=
  shift.terminalId = terminalId && shift.closedAt.isNone && shift.deletedAt.isNone

def Owner.gate (owner : Owner) (hasOpenShift : Bool) (now : DateTime) : Except GuardError Unit :=
  if owner.status = .hard_suspended ∨ owner.status = .closed then
    .error .unauthorized
  else if owner.status = .suspended then
    let withinGrace := owner.suspendedAt.any fun suspendedAt => now - suspendedAt < SUSPEND_GRACE_MS
    if withinGrace ∧ hasOpenShift then .ok () else .error .ownerSuspended
  else
    .ok ()

namespace State

variable (s : State)

def owner? (id : Uuid) : Option Owner :=
  Table.get Owner.id s.owners id

def hasOpenShift (terminalId : Uuid) : Bool :=
  s.db.shifts.any (isOpenOn terminalId)

/-- The terminal of a device token with its branch and its owner. -/
def resolve (deviceTokenHash : String) : Option (Terminal × Branch × Owner) := do
  let terminal ← s.terminals.find? fun t =>
    t.deviceTokenHash = some deviceTokenHash ∧ t.deletedAt.isNone
  let branch ← s.db.branch? terminal.branchId
  let business ← s.db.business? branch.businessId
  let owner ← s.owner? business.ownerId
  return (terminal, branch, owner)

/-- The liveness timestamp of a terminal. -/
def seen (terminal : Terminal) (now : DateTime) : State :=
  let stale := terminal.lastSeenAt.all fun lastSeenAt => LAST_SEEN_THROTTLE_MS < now - lastSeenAt
  if stale then
    { s with terminals :=
        Table.modify Terminal.id s.terminals terminal.id ({ · with lastSeenAt := some now }) }
  else
    s

end State

/-- `deviceToken` is the one of the header `Authorization: Bearer`, if the request has it. -/
def canActivate (sha256 : String → String) (deviceToken : Option String) (now : DateTime)
    (s : State) : Except GuardError (TerminalContext × State) :=
  match deviceToken.bind fun token => s.resolve (sha256 token) with
  | none => .error .unauthorized
  | some (terminal, branch, owner) => do
    owner.gate (s.hasOpenShift terminal.id) now
    let ctx : TerminalContext := {
      ownerId := owner.id
      businessId := branch.businessId
      branchId := terminal.branchId
      terminalId := terminal.id
      terminalCode := some terminal.code
    }
    return (ctx, s.seen terminal now)

/-- A request of a terminal. `read` stands for those that write nothing. -/
inductive TerminalRequest where
  | completeSale (dto : SaleDraftDto)
  | voidSale (id : Uuid) (reason : String) (newIds : Nat → Uuid)
  | refundSale (verifySecret : String → String → Bool) (id : Uuid) (reason pin : String)
      (newIds : Nat → Uuid)
  | adjust (dto : AdjustStockDto) (movementIds newIds : Nat → Uuid)
  | openShift (dto : OpenShiftDto) (shiftId : Uuid)
  | addCashMovement (dto : CashMovementDto) (movementId : Uuid)
  | closeShift (dto : CloseShiftDto)
  | read

def TerminalRequest.call? (ctx : TerminalContext) (now : DateTime)
    : TerminalRequest → Option (PosCall Response)
  | completeSale dto => some (Request.completeSale ctx dto now).call
  | voidSale id reason newIds => some (Request.voidSale ctx id reason now newIds).call
  | refundSale verifySecret id reason pin newIds =>
    some (Request.refundSale verifySecret ctx id reason pin now newIds).call
  | adjust dto movementIds newIds => some do
    let r ← SentryPos.adjust ctx.request ctx.branchId dto movementIds newIds
    return .adjusted r
  | openShift dto shiftId => some (Request.openShift ctx dto shiftId now).call
  | addCashMovement dto movementId => some (Request.addCashMovement ctx dto movementId now).call
  | closeShift dto => some (Request.closeShift ctx dto now).call
  | read => none

def TerminalRequest.serve (req : TerminalRequest) (ctx : TerminalContext) (now : DateTime)
    (db : Database) : Option (Except ApiError Response) × Database :=
  match req.call? ctx now with
  | none => (none, db)
  | some call =>
    let r := call.run.solo [] db
    (some r.1, r.2)

inductive Event where
  | suspend (ownerId : Uuid) (tier : Platform.SuspendTier)
  | reinstate (ownerId : Uuid)
  | request (deviceToken : Option String) (req : TerminalRequest)

inductive Outcome where
  | updated
  | ownerNotFound
  | denied (e : GuardError)
  | served (ctx : TerminalContext) (r : Option (Except ApiError Response))

def State.setStatus (s : State) (ownerId : Uuid) (status : Auth.OwnerStatus)
    (suspendedAt : Option DateTime) : Outcome × State :=
  match (s.owner? ownerId).filter (·.deletedAt.isNone) with
  | none => (.ownerNotFound, s)
  | some _ =>
    (.updated,
      { s with owners :=
          Table.modify Owner.id s.owners ownerId ({ · with status, suspendedAt }) })

def Event.step (sha256 : String → String) (now : DateTime) (s : State) : Event → Outcome × State
  | suspend ownerId tier => s.setStatus ownerId tier.status (some now)
  | reinstate ownerId => s.setStatus ownerId .active none
  | request deviceToken req =>
    match canActivate sha256 deviceToken now s with
    | .error e => (.denied e, s)
    | .ok (ctx, s) =>
      let r := req.serve ctx now s.db
      (.served ctx r.1, { s with db := r.2 })

/-- An event at its time, with the state it finds. -/
structure Step where
  time : DateTime
  event : Event
  before : State

def Step.outcome (sha256 : String → String) (st : Step) : Outcome :=
  (st.event.step sha256 st.time st.before).1

def Step.after (sha256 : String → String) (st : Step) : State :=
  (st.event.step sha256 st.time st.before).2

/-- Events one after the other, at times that do not decrease. -/
inductive Run (sha256 : String → String) : State → List Step → State → Prop where
  | nil {s : State} : Run sha256 s [] s
  | snoc {s s' : State} {steps : List Step} (h : Run sha256 s steps s') {st : Step}
      (hbefore : st.before = s') (htime : ∀ earlier ∈ steps, earlier.time ≤ st.time)
      : Run sha256 s (steps ++ [st]) (st.after sha256)

/--
The states that events can lead to from one without shifts. Everything else may change the other
tables, but that a terminal keeps its branch and that a new terminal has no shift.
-/
inductive Reachable (sha256 : String → String) : State → Prop where
  | start {s : State} (hdb : s.db.Valid) (hterminals : (s.terminals.map Terminal.id).Nodup)
      (hshifts : s.db.shifts = []) : Reachable sha256 s
  | event {s : State} (h : Reachable sha256 s) (e : Event) (now : DateTime)
      : Reachable sha256 (e.step sha256 now s).2
  | elsewhere {s s' : State} (h : Reachable sha256 s) (hdb : s'.db.Valid)
      (hterminals : (s'.terminals.map Terminal.id).Nodup) (hshifts : s'.db.shifts = s.db.shifts)
      (hbranch : ∀ t ∈ s'.terminals,
        (∃ t₀ ∈ s.terminals, t₀.id = t.id ∧ t₀.branchId = t.branchId) ∨
          ∀ shift ∈ s.db.shifts, shift.terminalId ≠ t.id) : Reachable sha256 s'

/-- The guard admits the request of a step. -/
def Step.Admits (sha256 : String → String) (st : Step) (ctx : TerminalContext) : Prop :=
  ∃ deviceToken req s, st.event = .request deviceToken req ∧
    canActivate sha256 deviceToken st.time st.before = .ok (ctx, s)

def Step.Closes (sha256 : String → String) (st : Step) (terminalId : Uuid) : Prop :=
  ∃ deviceToken dto ctx r, st.event = .request deviceToken (.closeShift dto) ∧
    st.outcome sha256 = .served ctx (some (.ok r)) ∧ ctx.terminalId = terminalId

def Event.suspends (ownerId : Uuid) : Event → Bool
  | suspend id _ => id = ownerId
  | _ => false

/-- The time of the latest suspension of an owner, when the first one was at `t₀`. -/
def latestSuspension (ownerId : Uuid) (t₀ : DateTime) (steps : List Step) : DateTime :=
  steps.foldl (fun t st => if st.event.suspends ownerId then st.time else t) t₀

end SentryPos.Gate
