import SentryPos.Gate.TerminalGuard
import SentryPos.Pos.Commits
import SentryPos.Pos.ExactlyOnce

/-!
This module contains the proof that the terminals of a suspended owner drain: each goes on with the
shift it has open, for at most a day after the latest suspension, and opens no other one.
-/

namespace SentryPos.Gate

open ReadCommitted

/-! ### What a request does to the shifts -/

section Shifts

variable {ctx : TerminalContext} {now : DateTime} {db db' : Database}

/-- The logic of a request that runs alone and may commit what `G` says. -/
def soloLogic (G : List Write → Database → Prop) : Logic Database Write Key Stmt where
  toEnv := Env.sequential
  Guar locks log db := Pending log locks db ∧ db.Valid ∧ G log db
  Mid _ := True

theorem solo_spec {call : PosCall Response} {G : List Write → Database → Prop}
    {post : Post Database Write Key (Except ApiError Response)} (hdb : db.Valid)
    (h : call.run.wp (soloLogic G) post [] [] [] db)
    : (call.run.solo [] db).2.Valid ∧ ∃ own log locks, Linked db own (call.run.solo [] db).2 ∧
        (∀ c ∈ own, ∃ log, G log c.1 ∧ c.2 = replay log c.1) ∧
        post (call.run.solo [] db).1 own log locks (call.run.solo [] db).2 := by
  have hrely : ∀ tag locks db, (soloLogic G).Rely tag locks db db := by
    intro _ _ _
    rfl
  have hassume : ∀ tag log db, (soloLogic G).Assume tag log db := by
    intro _ _ _
    trivial
  have hguar : ∀ locks log db, (soloLogic G).Inv db → (soloLogic G).Guar locks log db →
      (soloLogic G).Inv (replay log db) := by
    intro locks log db _ h
    exact h.1.valid
  obtain ⟨hvalid, own, log, locks, hlinked, hown, hpost⟩ :=
    Prog.solo_of_wp hrely hassume hguar hdb h
  rw [List.nil_append] at hpost
  refine ⟨hvalid, own, log, locks, hlinked, ?_, hpost⟩
  intro c hc
  obtain ⟨_, log, hguar, heq⟩ := hown c hc
  exact ⟨log, hguar.2.2, heq⟩

theorem shifts_eq_of_linked {own : List (Database × Database)} (hlinked : Linked db own db')
    (hown : ∀ c ∈ own, ∃ log : List Write, (∀ w ∈ log, w.onShifts = false) ∧
      c.2 = replay log c.1)
    : db'.shifts = db.shifts := by
  apply hlinked.keeps (P := fun d => d.shifts = db.shifts) _ rfl
  intro c hc h
  obtain ⟨log, hlog, heq⟩ := hown c hc
  rw [heq, shifts_replay hlog, h]

theorem oneCommit_linked {P : List Write → Database → Prop} {own : List (Database × Database)}
    (h : OneCommit P own) (hlinked : Linked db own db') : ∃ log, P log db ∧ db' = replay log db := by
  obtain ⟨before, log, hP, heq⟩ := h
  rw [heq] at hlinked
  obtain ⟨hbefore, hafter⟩ := hlinked
  dsimp only at hbefore hafter
  rw [hbefore] at hP hafter
  exact ⟨log, hP, hafter.symm⟩

inductive ShiftsAfter (ctx : TerminalContext) (now : DateTime) (db : Database)
    : TerminalRequest → List Shift → Prop where
  | same {req : TerminalRequest} : ShiftsAfter ctx now db req db.shifts
  | opened {dto : OpenShiftDto} {shiftId : Uuid} (hnone : findOpenShift ctx db = none)
      : ShiftsAfter ctx now db (.openShift dto shiftId)
          (db.shifts ++ [openedShift ctx dto shiftId now])
  | closed {dto : CloseShiftDto} {shift : Shift} {expectedCash : ℤ}
      (hopen : findOpenShift ctx db = some shift)
      : ShiftsAfter ctx now db (.closeShift dto)
          (Table.modify (·.id) db.shifts shift.id (·.close now dto.countedCashC expectedCash))

theorem request_shifts {req : Request} (hreq : req.onShifts = false) (hdb : db.Valid)
    : (req.step db).2.Valid ∧ (req.step db).2.shifts = db.shifts := by
  obtain ⟨hvalid, own, hlinked, hown, _⟩ := req.step_spec hdb
  refine ⟨hvalid, shifts_eq_of_linked hlinked ?_⟩
  intro c hc
  obtain ⟨log, locks, _, hcommit, heq⟩ := (hown c hc).commit
  exact ⟨log, hcommit.offShifts hreq, heq⟩

theorem openShift_shifts (hdb : db.Valid) {dto : OpenShiftDto} {shiftId : Uuid}
    : ((Request.openShift ctx dto shiftId now).step db).2.Valid ∧
        ShiftsAfter ctx now db (.openShift dto shiftId)
          ((Request.openShift ctx dto shiftId now).step db).2.shifts := by
  have hwp : (Request.openShift ctx dto shiftId now).call.run.wp
      (soloLogic (Opened Env.sequential ctx dto shiftId now))
      (fun _ commits _ _ _ => commits = [] ∨
        OneCommit (Opened Env.sequential ctx dto shiftId now) commits) [] [] [] db := by
    rw [Call.wp_run]
    unfold Request.call
    rw [Call.wp_bind]
    refine Call.wp_mono ?_ ?_ (wp_openShift (by exact Env.sequential_pos) trivial ?_)
    . intro r commits log locks db' h
      exact .inr h.2.2
    . intro e commits log locks db' h
      exact .inl h.2.2
    . intro locks log db' hpending hdb' h
      exact ⟨hpending, hdb', h⟩
  obtain ⟨hvalid, own, _, _, hlinked, _, hpost⟩ := solo_spec hdb hwp
  refine ⟨hvalid, ?_⟩
  cases hpost with
  | inl hnil =>
    rw [hnil] at hlinked
    have hsame : ((Request.openShift ctx dto shiftId now).step db).2 = db := hlinked.symm
    rw [hsame]
    exact .same
  | inr hone =>
    obtain ⟨log, hopened, heq⟩ := oneCommit_linked hone hlinked
    have hafter : ((Request.openShift ctx dto shiftId now).step db).2.shifts =
        db.shifts ++ [openedShift ctx dto shiftId now] := by
      unfold Request.step Request.prog
      rw [heq, hopened.log]
      rfl
    have hnone : findOpenShift ctx db = none :=
      Env.seen_alone (P := fun db => findOpenShift ctx db = none) hopened.noneOpen
    rw [hafter]
    exact .opened hnone

theorem closeShift_shifts (hdb : db.Valid) {dto : CloseShiftDto}
    : ((Request.closeShift ctx dto now).step db).2.Valid ∧
        ((((Request.closeShift ctx dto now).step db).2.shifts = db.shifts ∧
            ∀ r, ((Request.closeShift ctx dto now).step db).1 ≠ .ok r) ∨
          ∃ shift expectedCash, findOpenShift ctx db = some shift ∧
            ((Request.closeShift ctx dto now).step db).2.shifts =
              Table.modify (·.id) db.shifts shift.id
                (·.close now dto.countedCashC expectedCash)) := by
  have hwp : (Request.closeShift ctx dto now).call.run.wp
      (soloLogic (Closed Env.sequential ctx dto now))
      (fun r commits _ _ _ => (commits = [] ∧ ∀ a, r ≠ .ok a) ∨
        OneCommit (Closed Env.sequential ctx dto now) commits) [] [] [] db := by
    rw [Call.wp_run]
    unfold Request.call
    rw [Call.wp_bind]
    refine Call.wp_mono ?_ ?_ (wp_closeShift (by exact Env.sequential_pos) ?_ ?_)
    . intro r commits log locks db' h
      exact .inr h.2.2
    . intro e commits log locks db' h
      cases h.2.2 with
      | inl h =>
        left
        refine ⟨h, ?_⟩
        intro a ha
        cases ha
      | inr h => exact .inr h
    . intro commits _
      trivial
    . intro locks log db' hpending hdb' h
      exact ⟨hpending, hdb', h⟩
  obtain ⟨hvalid, own, _, _, hlinked, _, hpost⟩ := solo_spec hdb hwp
  refine ⟨hvalid, ?_⟩
  cases hpost with
  | inl hnil =>
    left
    rw [hnil.1] at hlinked
    have hsame : ((Request.closeShift ctx dto now).step db).2 = db := hlinked.symm
    rw [hsame]
    exact ⟨rfl, hnil.2⟩
  | inr hone =>
    right
    obtain ⟨log, hclosed, heq⟩ := oneCommit_linked hone hlinked
    obtain ⟨shift, db1, db2, db3, hopen, _, _, _, h1, h2, h3, hlog⟩ := hclosed.closed
    have hdb1 : db = db1 := (Env.pastAt_alone h3).trans ((Env.pastAt_alone h2).trans
      (Env.pastAt_alone h1))
    rw [← hdb1] at hopen
    refine ⟨shift, (computeShiftTotals (withMovements db1 shift) (findSalesOfShift ctx shift.id db2)
      (findRefundsOfShift ctx shift.id db3)).expectedCashC, hopen, ?_⟩
    unfold Request.step Request.prog
    rw [heq, hlog]
    rfl

theorem adjust_shifts (hdb : db.Valid) {dto : AdjustStockDto} {movementIds newIds : Nat → Uuid}
    : ((TerminalRequest.adjust dto movementIds newIds).serve ctx now db).2.Valid ∧
        ((TerminalRequest.adjust dto movementIds newIds).serve ctx now db).2.shifts =
          db.shifts := by
  have hwp : (do
      let r ← SentryPos.adjust ctx.request ctx.branchId dto movementIds newIds
      return .adjusted r : PosCall Response).run.wp
      (soloLogic (Adjusted Env.sequential ctx.request ctx.branchId dto))
      (fun _ _ _ _ _ => True) [] [] [] db := by
    rw [Call.wp_run, Call.wp_bind]
    refine Call.wp_mono ?_ ?_ (wp_adjust (by exact Env.sequential_pos) trivial hdb
      (.terminal ctx) ?_)
    . intro r commits log locks db' h
      trivial
    . intro e commits log locks db' h
      trivial
    . intro locks log db' hpending hdb' h
      exact ⟨hpending, hdb', h⟩
  obtain ⟨hvalid, own, _, _, hlinked, hown, _⟩ := solo_spec hdb hwp
  refine ⟨hvalid, shifts_eq_of_linked hlinked ?_⟩
  intro c hc
  obtain ⟨log, hadjusted, heq⟩ := hown c hc
  refine ⟨log, ?_, heq⟩
  intro w hw
  exact Write.onShifts_of_side (hadjusted.side w hw).1

theorem TerminalRequest.serve_shifts (req : TerminalRequest) (hdb : db.Valid)
    : (req.serve ctx now db).2.Valid ∧ ShiftsAfter ctx now db req (req.serve ctx now db).2.shifts := by
  have hother : ∀ {r : Request}, r.onShifts = false →
      (r.step db).2.Valid ∧ ShiftsAfter ctx now db req (r.step db).2.shifts := by
    intro r hr
    obtain ⟨hvalid, hsame⟩ := request_shifts hr hdb
    rw [hsame]
    exact ⟨hvalid, .same⟩
  cases req with
  | completeSale dto => exact hother (r := .completeSale ctx dto now) rfl
  | voidSale id reason newIds => exact hother (r := .voidSale ctx id reason now newIds) rfl
  | refundSale verifySecret id reason pin newIds =>
    exact hother (r := .refundSale verifySecret ctx id reason pin now newIds) rfl
  | adjust dto movementIds newIds =>
    obtain ⟨hvalid, hsame⟩ := @adjust_shifts ctx now db hdb dto movementIds newIds
    rw [hsame]
    exact ⟨hvalid, .same⟩
  | openShift dto shiftId => exact openShift_shifts hdb
  | addCashMovement dto movementId =>
    exact hother (r := .addCashMovement ctx dto movementId now) rfl
  | closeShift dto =>
    obtain ⟨hvalid, h⟩ := @closeShift_shifts ctx now db hdb dto
    refine ⟨hvalid, ?_⟩
    cases h with
    | inl h =>
      have hsame : (TerminalRequest.serve (.closeShift dto) ctx now db).2.shifts = db.shifts := h.1
      rw [hsame]
      exact .same
    | inr h =>
      obtain ⟨shift, expectedCash, hopen, h⟩ := h
      have hafter : (TerminalRequest.serve (.closeShift dto) ctx now db).2.shifts = _ := h
      rw [hafter]
      exact .closed hopen
  | read => exact ⟨hdb, .same⟩

end Shifts

/-! ### What the steps keep -/

structure State.Valid (s : State) : Prop where
  db : s.db.Valid
  terminals : (s.terminals.map Terminal.id).Nodup
  branch : ∀ t ∈ s.terminals, ∀ shift ∈ s.db.shifts, isOpenOn t.id shift →
    shift.branchId = t.branchId
  one : ∀ shift ∈ s.db.shifts, ∀ shift' ∈ s.db.shifts, ∀ terminalId, isOpenOn terminalId shift →
    isOpenOn terminalId shift' → shift = shift'

theorem Owner.gate_eq_ok {owner : Owner} {hasOpenShift : Bool} {now : DateTime}
    (h : owner.gate hasOpenShift now = .ok ())
    : owner.status = .active ∨ owner.status = .suspended ∧ hasOpenShift ∧
        ∃ suspendedAt, owner.suspendedAt = some suspendedAt ∧
          now < suspendedAt + SUSPEND_GRACE_MS := by
  unfold gate at h
  split at h
  . cases h
  next hhard =>
  split at h
  . next hsuspended =>
    dsimp only at h
    split at h
    . next hgrace =>
      obtain ⟨hwithin, hopen⟩ := hgrace
      rw [Option.any_eq_true] at hwithin
      obtain ⟨suspendedAt, hat, hlt⟩ := hwithin
      have hlt : now - suspendedAt < SUSPEND_GRACE_MS := of_decide_eq_true hlt
      exact .inr ⟨hsuspended, hopen, suspendedAt, hat, sub_lt_iff_lt_add'.mp hlt⟩
    . cases h
  . next hsuspended =>
    left
    cases hstatus : owner.status with
    | active => rfl
    | suspended => exact absurd hstatus hsuspended
    | hard_suspended => exact absurd (.inl hstatus) hhard
    | closed => exact absurd (.inr hstatus) hhard

structure Admission (now : DateTime) (s : State) (ctx : TerminalContext) (s' : State) (t : Terminal)
    (owner : Owner) : Prop where
  terminal : t ∈ s.terminals
  id : ctx.terminalId = t.id
  branch : ctx.branchId = t.branchId
  chain : ∃ branch business, s.db.branch? t.branchId = some branch ∧
    s.db.business? branch.businessId = some business ∧ business.ownerId = ctx.ownerId
  found : s.owner? ctx.ownerId = some owner
  gate : owner.gate (s.hasOpenShift t.id) now = .ok ()
  after : s' = s.seen t now

theorem canActivate_eq_ok {sha256 : String → String} {deviceToken : Option String} {now : DateTime}
    {s s' : State} {ctx : TerminalContext}
    (h : canActivate sha256 deviceToken now s = .ok (ctx, s'))
    : ∃ t owner, Admission now s ctx s' t owner := by
  unfold canActivate at h
  cases hresolve : deviceToken.bind fun token => s.resolve (sha256 token) with
  | none =>
    rw [hresolve] at h
    cases h
  | some resolved =>
  obtain ⟨t, branch, owner⟩ := resolved
  rw [hresolve] at h
  dsimp only at h
  rw [Checks.bind_eq_ok] at h
  obtain ⟨_, hgate, h⟩ := h
  cases h
  rw [Option.bind_eq_some_iff] at hresolve
  obtain ⟨token, _, hresolve⟩ := hresolve
  unfold State.resolve at hresolve
  simp only [Option.bind_eq_bind, Option.bind_eq_some_iff, Option.pure_def, Option.some.injEq,
    Prod.mk.injEq] at hresolve
  obtain ⟨t', hfound, branch', hbranch, business, hbusiness, owner', howner, ht, hb, ho⟩ := hresolve
  subst ht hb ho
  have hkey : owner'.id = business.ownerId := Table.key_of_get howner
  refine ⟨t', owner', List.mem_of_find?_eq_some hfound, rfl, rfl,
    ⟨branch', business, hbranch, hbusiness, hkey.symm⟩, ?_, hgate, rfl⟩
  dsimp only
  rw [hkey]
  exact howner

theorem isOpenOn_iff {terminalId : Uuid} {shift : Shift}
    : isOpenOn terminalId shift ↔
        shift.terminalId = terminalId ∧ shift.closedAt = none ∧ shift.deletedAt = none := by
  unfold isOpenOn
  simp [and_assoc]

theorem ShiftsAfter.of_open {ctx : TerminalContext} {now : DateTime} {db : Database}
    {req : TerminalRequest} {shifts : List Shift} (h : ShiftsAfter ctx now db req shifts)
    {shift : Shift} (hmem : shift ∈ shifts) {terminalId : Uuid} (hopen : isOpenOn terminalId shift)
    : shift ∈ db.shifts ∨
        findOpenShift ctx db = none ∧ shift.terminalId = ctx.terminalId ∧
          shift.branchId = ctx.branchId ∧ ∃ row, shifts = db.shifts ++ [row] ∧ shift = row := by
  cases h with
  | same => exact .inl hmem
  | opened hnone =>
    cases List.mem_append.mp hmem with
    | inl hmem => exact .inl hmem
    | inr hmem =>
      have heq := List.mem_singleton.mp hmem
      right
      refine ⟨hnone, ?_, ?_, _, rfl, heq⟩
      . rw [heq]
        rfl
      . rw [heq]
        rfl
  | closed hfound =>
    cases Table.mem_modify hmem with
    | inl h => exact .inl h.2
    | inr h =>
      obtain ⟨old, _, _, heq⟩ := h
      rw [heq, isOpenOn_iff] at hopen
      cases hopen.2.1

theorem findOpenShift_eq_none {ctx : TerminalContext} {db : Database}
    (h : findOpenShift ctx db = none) {shift : Shift} (hmem : shift ∈ db.shifts)
    (hbranch : shift.branchId = ctx.branchId) : isOpenOn ctx.terminalId shift = false := by
  unfold findOpenShift at h
  have hnot := List.find?_eq_none.mp h shift hmem
  rw [Bool.eq_false_iff]
  intro hopen
  rw [isOpenOn_iff] at hopen
  apply hnot
  simp [hopen, hbranch]

namespace State

variable {s : State} {t : Terminal} {now : DateTime}

@[simp]
theorem seen_db : (s.seen t now).db = s.db := by
  unfold seen
  dsimp only
  split <;> rfl

@[simp]
theorem seen_owners : (s.seen t now).owners = s.owners := by
  unfold seen
  dsimp only
  split <;> rfl

theorem seen_ids : (s.seen t now).terminals.map Terminal.id = s.terminals.map Terminal.id := by
  unfold seen
  dsimp only
  split
  . exact Table.map_modify fun _ => rfl
  . rfl

theorem seen_branchId {terminalId : Uuid}
    : (Table.get Terminal.id (s.seen t now).terminals terminalId).map (·.branchId) =
        (Table.get Terminal.id s.terminals terminalId).map (·.branchId) := by
  unfold seen
  dsimp only
  split
  . have hid : ∀ r : Terminal,
        decide (({ r with lastSeenAt := some now } : Terminal).id = terminalId) =
          decide (r.id = terminalId) := by
      intro r
      rfl
    unfold Table.get
    dsimp only
    rw [Table.find?_modify hid, Option.map_map]
    congr 1
    funext t₀
    dsimp only [Function.comp_apply]
    split <;> rfl
  . rfl

theorem mem_seen {t' : Terminal} (h : t' ∈ (s.seen t now).terminals)
    : ∃ t₀ ∈ s.terminals, t₀.id = t'.id ∧ t₀.branchId = t'.branchId := by
  unfold seen at h
  dsimp only at h
  split at h
  . cases Table.mem_modify h with
    | inl h => exact ⟨t', h.2, rfl, rfl⟩
    | inr h =>
      obtain ⟨t₀, ht₀, _, heq⟩ := h
      refine ⟨t₀, ht₀, ?_, ?_⟩
      . rw [heq]
      . rw [heq]
  . exact ⟨t', h, rfl, rfl⟩

end State

theorem State.Valid.served {now : DateTime} {s s' : State} {ctx : TerminalContext} {t : Terminal}
    {owner : Owner} (hs : s.Valid) (h : Admission now s ctx s' t owner) (req : TerminalRequest)
    : { s' with db := (req.serve ctx now s'.db).2 : State }.Valid := by
  have hdb' : s'.db = s.db := by
    rw [h.after, State.seen_db]
  rw [hdb']
  obtain ⟨hvalid, hshifts⟩ := @TerminalRequest.serve_shifts ctx now _ req hs.db
  have hopens : ∀ shift ∈ (req.serve ctx now s.db).2.shifts, ∀ terminalId,
      isOpenOn terminalId shift → shift ∈ s.db.shifts ∨
        findOpenShift ctx s.db = none ∧ shift.terminalId = ctx.terminalId ∧
          shift.branchId = ctx.branchId ∧
          ∃ row, (req.serve ctx now s.db).2.shifts = s.db.shifts ++ [row] ∧ shift = row :=
    fun shift hmem terminalId hopen => hshifts.of_open hmem hopen
  constructor
  . exact hvalid
  . dsimp only
    rw [h.after, State.seen_ids]
    exact hs.terminals
  . intro t' ht' shift hmem hopen
    dsimp only at ht' hmem
    rw [h.after] at ht'
    obtain ⟨t₀, ht₀, hid, hbranch⟩ := State.mem_seen ht'
    rw [← hbranch]
    rw [← hid] at hopen
    cases hopens shift hmem _ hopen with
    | inl hold => exact hs.branch t₀ ht₀ shift hold hopen
    | inr hnew =>
      obtain ⟨_, hterminal, hshift, _⟩ := hnew
      have hopen_id := (isOpenOn_iff.mp hopen).1
      have heq : t₀ = t := by
        apply List.inj_on_of_nodup_map hs.terminals ht₀ h.terminal
        rw [← hopen_id, hterminal, h.id]
      rw [hshift, h.branch, heq]
  . intro shift hmem shift' hmem' terminalId hopen hopen'
    -- an opened shift is the only one of its terminal
    have hnew : ∀ a b, a ∈ s.db.shifts → findOpenShift ctx s.db = none →
        b.terminalId = ctx.terminalId → isOpenOn terminalId a → isOpenOn terminalId b → False := by
      intro a b ha hnone hb hopen_a hopen_b
      have hid : ctx.terminalId = terminalId := by
        rw [← hb]
        exact (isOpenOn_iff.mp hopen_b).1
      rw [← hid] at hopen_a
      have hbranch := hs.branch t h.terminal a ha (by rw [← h.id]; exact hopen_a)
      have hclosed := findOpenShift_eq_none hnone ha (hbranch.trans h.branch.symm)
      rw [hclosed] at hopen_a
      cases hopen_a
    cases hopens shift hmem _ hopen with
    | inl hold =>
      cases hopens shift' hmem' _ hopen' with
      | inl hold' => exact hs.one shift hold shift' hold' terminalId hopen hopen'
      | inr hnew' => exact (hnew shift shift' hold hnew'.1 hnew'.2.1 hopen hopen').elim
    | inr hnew₁ =>
      cases hopens shift' hmem' _ hopen' with
      | inl hold' => exact (hnew shift' shift hold' hnew₁.1 hnew₁.2.1 hopen' hopen).elim
      | inr hnew₂ =>
        obtain ⟨_, _, _, row, hrow, heq⟩ := hnew₁
        obtain ⟨_, _, _, row', hrow', heq'⟩ := hnew₂
        rw [hrow] at hrow'
        have hsame := List.append_cancel_left hrow'
        rw [heq, heq']
        simpa using hsame

theorem State.Valid.of_owners {s s' : State} (hs : s.Valid) (hdb : s'.db = s.db)
    (hterminals : s'.terminals = s.terminals) : s'.Valid := by
  constructor
  . rw [hdb]
    exact hs.db
  . rw [hterminals]
    exact hs.terminals
  . rw [hdb, hterminals]
    exact hs.branch
  . rw [hdb]
    exact hs.one

theorem State.setStatus_eq {s : State} {ownerId : Uuid} {status : Auth.OwnerStatus}
    {suspendedAt : Option DateTime}
    : (s.setStatus ownerId status suspendedAt).2.db = s.db ∧
        (s.setStatus ownerId status suspendedAt).2.terminals = s.terminals := by
  unfold setStatus
  split
  . exact ⟨rfl, rfl⟩
  . exact ⟨rfl, rfl⟩

theorem Event.step_valid (sha256 : String → String) (now : DateTime) {s : State} (hs : s.Valid)
    (e : Event) : (e.step sha256 now s).2.Valid := by
  cases e with
  | suspend ownerId tier =>
    obtain ⟨hdb, hterminals⟩ := @State.setStatus_eq s ownerId tier.status (some now)
    exact hs.of_owners hdb hterminals
  | reinstate ownerId =>
    obtain ⟨hdb, hterminals⟩ := @State.setStatus_eq s ownerId .active none
    exact hs.of_owners hdb hterminals
  | request deviceToken req =>
    unfold step
    dsimp only
    split
    . exact hs
    . next ctx s' h =>
      obtain ⟨t, owner, hadmission⟩ := canActivate_eq_ok h
      exact hs.served hadmission req

theorem Reachable.valid {sha256 : String → String} {s : State} (h : Reachable sha256 s)
    : s.Valid := by
  induction h with
  | start hdb hterminals hshifts =>
    refine ⟨hdb, hterminals, ?_, ?_⟩ <;> simp [hshifts]
  | event _ e now ih => exact e.step_valid sha256 now ih
  | elsewhere _ hdb hterminals hshifts hbranch ih =>
    refine ⟨hdb, hterminals, ?_, ?_⟩
    . intro t ht shift hmem hopen
      rw [hshifts] at hmem
      cases hbranch t ht with
      | inl h =>
        obtain ⟨t₀, ht₀, hid, heq⟩ := h
        rw [← hid] at hopen
        rw [← heq]
        exact ih.branch t₀ ht₀ shift hmem hopen
      | inr h => exact absurd (isOpenOn_iff.mp hopen).1 (h shift hmem)
    . rw [hshifts]
      exact ih.one

/-! ### The owner of a terminal -/

def State.ownerIdOf (s : State) (terminalId : Uuid) : Option Uuid :=
  ((Table.get Terminal.id s.terminals terminalId).map (·.branchId)).bind fun branchId =>
    (s.db.branch? branchId).bind fun branch =>
      (s.db.business? branch.businessId).map (·.ownerId)

theorem TerminalRequest.serve_chain (req : TerminalRequest) (ctx : TerminalContext) (now : DateTime)
    (db : Database)
    : (req.serve ctx now db).2.branches = db.branches ∧
        (req.serve ctx now db).2.businesses = db.businesses := by
  unfold serve
  split
  . exact ⟨rfl, rfl⟩
  . next call _ =>
    have hw : ∀ (w : Write) (d : Database),
        d.branches = db.branches ∧ d.businesses = db.businesses →
          (Store.apply w d).branches = db.branches ∧ (Store.apply w d).businesses = db.businesses := by
      intro w d hd
      rw [store_apply]
      cases w <;> exact hd
    exact Prog.solo_induction (P := fun d : Database =>
      d.branches = db.branches ∧ d.businesses = db.businesses) hw ⟨rfl, rfl⟩

theorem Event.step_ownerIdOf (sha256 : String → String) (now : DateTime) (s : State) (e : Event)
    (terminalId : Uuid) : (e.step sha256 now s).2.ownerIdOf terminalId = s.ownerIdOf terminalId := by
  cases e with
  | suspend ownerId tier =>
    obtain ⟨hdb, hterminals⟩ := @State.setStatus_eq s ownerId tier.status (some now)
    unfold State.ownerIdOf step
    rw [hdb, hterminals]
  | reinstate ownerId =>
    obtain ⟨hdb, hterminals⟩ := @State.setStatus_eq s ownerId .active none
    unfold State.ownerIdOf step
    rw [hdb, hterminals]
  | request deviceToken req =>
    unfold step
    dsimp only
    split
    . rfl
    . next ctx s' h =>
      obtain ⟨t, owner, hadmission⟩ := canActivate_eq_ok h
      obtain ⟨hbranches, hbusinesses⟩ := req.serve_chain ctx now s'.db
      have hbranch : (Table.get Terminal.id s'.terminals terminalId).map (·.branchId) =
          (Table.get Terminal.id s.terminals terminalId).map (·.branchId) := by
        rw [hadmission.after]
        exact State.seen_branchId
      unfold State.ownerIdOf Database.branch? Database.business?
      dsimp only
      rw [hbranches, hbusinesses, hbranch, hadmission.after, State.seen_db]

theorem Admission.ownerIdOf {now : DateTime} {s s' : State} {ctx : TerminalContext} {t : Terminal}
    {owner : Owner} (hs : s.Valid) (h : Admission now s ctx s' t owner)
    : s.ownerIdOf ctx.terminalId = some ctx.ownerId := by
  obtain ⟨branch, business, hbranch, hbusiness, howner⟩ := h.chain
  unfold State.ownerIdOf
  rw [h.id, Table.get_of_mem hs.terminals h.terminal, Option.map_some, Option.bind_some, hbranch,
    Option.bind_some, hbusiness, Option.map_some, howner]

/-! ### The runs after a suspension -/

theorem Event.step_shut (sha256 : String → String) (now : DateTime) {s : State} (hs : s.Valid)
    {o terminalId : Uuid} (howner : s.ownerIdOf terminalId = some o)
    (hactive : ∀ owner, s.owner? o = some owner → owner.status ≠ .active)
    (hshut : s.hasOpenShift terminalId = false) (e : Event)
    : (e.step sha256 now s).2.hasOpenShift terminalId = false := by
  unfold State.hasOpenShift at hshut ⊢
  cases e with
  | suspend ownerId tier =>
    unfold step
    rw [State.setStatus_eq.1]
    exact hshut
  | reinstate ownerId =>
    unfold step
    rw [State.setStatus_eq.1]
    exact hshut
  | request deviceToken req =>
    unfold step
    dsimp only
    split
    . exact hshut
    . next ctx s' h =>
      obtain ⟨t, owner, hadmission⟩ := canActivate_eq_ok h
      have hne : ctx.terminalId ≠ terminalId := by
        intro heq
        have hctx := hadmission.ownerIdOf hs
        rw [heq, howner] at hctx
        have hid : o = ctx.ownerId := Option.some.inj hctx
        rw [hid] at hactive
        have hgate := hadmission.gate
        rw [← hadmission.id, heq] at hgate
        cases Owner.gate_eq_ok hgate with
        | inl h => exact hactive owner hadmission.found h
        | inr h =>
          unfold State.hasOpenShift at h
          rw [hshut] at h
          cases h.2.1
      have hdb : s'.db = s.db := by
        rw [hadmission.after, State.seen_db]
      dsimp only
      rw [hdb]
      obtain ⟨_, hshifts⟩ :=
        @TerminalRequest.serve_shifts ctx now _ req hs.db
      rw [List.any_eq_false]
      intro shift hmem hopen
      cases hshifts.of_open hmem hopen with
      | inl hold =>
        rw [List.any_eq_false] at hshut
        exact hshut shift hold hopen
      | inr hnew =>
        apply hne
        rw [← hnew.2.1]
        exact (isOpenOn_iff.mp hopen).1

theorem Step.Closes.shut {sha256 : String → String} {st : Step} {terminalId : Uuid}
    (hs : st.before.Valid) (h : st.Closes sha256 terminalId)
    : (st.after sha256).hasOpenShift terminalId = false := by
  obtain ⟨deviceToken, dto, ctx, r, hevent, houtcome, hterminal⟩ := h
  unfold Step.outcome Event.step at houtcome
  unfold Step.after Event.step
  rw [hevent] at houtcome ⊢
  dsimp only at houtcome ⊢
  cases hguard : canActivate sha256 deviceToken st.time st.before with
  | error e =>
    rw [hguard] at houtcome
    cases houtcome
  | ok admitted =>
    obtain ⟨ctx', s'⟩ := admitted
    rw [hguard] at houtcome
    dsimp only at houtcome ⊢
    injection houtcome with hctx hr
    subst hctx
    obtain ⟨t, owner, hadmission⟩ := canActivate_eq_ok hguard
    have hdb : s'.db = st.before.db := by
      rw [hadmission.after, State.seen_db]
    rw [hdb] at hr ⊢
    obtain ⟨_, hclose⟩ := @closeShift_shifts ctx' st.time _ hs.db dto
    cases hclose with
    | inl h => exact absurd (Option.some.inj hr) (h.2 r)
    | inr h =>
      obtain ⟨shift, expectedCash, hfound, hafter⟩ := h
      have hafter' : (TerminalRequest.serve (.closeShift dto) ctx' st.time st.before.db).2.shifts =
        _ := hafter
      have hmem := List.mem_of_find?_eq_some hfound
      have hopen : isOpenOn ctx'.terminalId shift := by
        have hp := List.find?_some hfound
        simp only [Bool.and_eq_true, decide_eq_true_eq, Option.isNone_iff_eq_none] at hp
        rw [isOpenOn_iff]
        exact ⟨hp.1.1.1, hp.1.1.2, hp.2⟩
      unfold State.hasOpenShift
      dsimp only
      rw [hafter', List.any_eq_false]
      intro other hother hother_open
      rw [← hterminal] at hother_open
      cases Table.mem_modify hother with
      | inl h =>
        apply h.1
        rw [hs.one other h.2 shift hmem _ hother_open hopen]
      | inr h =>
        obtain ⟨old, _, _, heq⟩ := h
        rw [heq, isOpenOn_iff] at hother_open
        cases hother_open.2.1

def Suspended (s : State) (o : Uuid) (since : DateTime) : Prop :=
  ∃ owner, s.owner? o = some owner ∧ owner.deletedAt = none ∧ owner.status ≠ .active ∧
    owner.status ≠ .closed ∧ owner.suspendedAt = some since

theorem Suspended.not_active {s : State} {o : Uuid} {since : DateTime} (h : Suspended s o since)
    : ∀ owner, s.owner? o = some owner → owner.status ≠ .active := by
  intro owner howner
  obtain ⟨found, hfound, _, hactive, _, _⟩ := h
  rw [hfound] at howner
  cases howner
  exact hactive

theorem State.owner?_setStatus {s : State} {ownerId id : Uuid} {status : Auth.OwnerStatus}
    {suspendedAt : Option DateTime} {owner : Owner} (hfound : s.owner? ownerId = some owner)
    (hlive : owner.deletedAt = none)
    : (s.setStatus ownerId status suspendedAt).2.owner? id =
        if id = ownerId then some { owner with status, suspendedAt } else s.owner? id := by
  unfold setStatus
  rw [hfound]
  simp only [Option.filter, hlive, Option.isNone_none, if_true]
  unfold owner? at hfound ⊢
  split
  . next heq =>
    have hid : ∀ r : Owner, ({ r with status, suspendedAt } : Owner).id = r.id := by
      intro r
      rfl
    dsimp only
    rw [heq, Table.get_modify_self hid, hfound, Option.map_some, hlive]
  . next hne => exact Table.get_modify_ne (fun _ => rfl) hne

theorem State.owner?_setStatus_ne {s : State} {ownerId id : Uuid} {status : Auth.OwnerStatus}
    {suspendedAt : Option DateTime} (hne : id ≠ ownerId)
    : (s.setStatus ownerId status suspendedAt).2.owner? id = s.owner? id := by
  unfold setStatus
  split
  . rfl
  . exact Table.get_modify_ne (fun _ => rfl) hne

theorem tier_status (tier : Platform.SuspendTier)
    : tier.status ≠ .active ∧ tier.status ≠ .closed := by
  cases tier <;> exact ⟨by decide, by decide⟩

theorem Suspended.of_suspend {s : State} {o : Uuid} {owner : Owner} {now : DateTime}
    (hfound : s.owner? o = some owner) (hlive : owner.deletedAt = none)
    (tier : Platform.SuspendTier) : Suspended (s.setStatus o tier.status (some now)).2 o now := by
  refine ⟨{ owner with status := tier.status, suspendedAt := some now }, ?_, hlive,
    (tier_status tier).1, (tier_status tier).2, rfl⟩
  rw [State.owner?_setStatus hfound hlive, if_pos rfl]

theorem Step.suspended {sha256 : String → String} {st : Step} {o : Uuid} {since : DateTime}
    (h : Suspended st.before o since) (hno : st.event ≠ .reinstate o)
    : Suspended (st.after sha256) o (if st.event.suspends o then st.time else since) := by
  unfold Step.after
  cases hevent : st.event with
  | suspend ownerId tier =>
    unfold Event.step Event.suspends
    dsimp only
    by_cases heq : ownerId = o
    . rw [heq]
      obtain ⟨owner, hfound, hlive, _⟩ := h
      simp only [decide_true, if_true]
      exact .of_suspend hfound hlive tier
    . rw [if_neg (by simpa using heq)]
      unfold Suspended
      rw [State.owner?_setStatus_ne (Ne.symm heq)]
      exact h
  | reinstate ownerId =>
    unfold Event.step Event.suspends
    dsimp only
    have hne : o ≠ ownerId := by
      intro heq
      apply hno
      rw [hevent, heq]
    unfold Suspended
    rw [State.owner?_setStatus_ne hne]
    exact h
  | request deviceToken req =>
    unfold Event.step Event.suspends
    dsimp only
    split
    . exact h
    . next ctx s' hguard =>
      obtain ⟨t, owner, hadmission⟩ := canActivate_eq_ok hguard
      unfold Suspended State.owner?
      dsimp only
      rw [hadmission.after, State.seen_owners]
      exact h

/-- What holds after the steps of a run that follow a suspension. -/
structure Draining (sha256 : String → String) (o : Uuid) (t₀ : DateTime) (s₁ : State)
    (steps : List Step) (s : State) : Prop where
  valid : s.Valid
  suspended : Suspended s o (latestSuspension o t₀ steps)
  chain : ∀ terminalId, s.ownerIdOf terminalId = s₁.ownerIdOf terminalId
  shut : ∀ st ∈ steps, ∀ terminalId, st.Closes sha256 terminalId →
    s₁.ownerIdOf terminalId = some o → s.hasOpenShift terminalId = false

theorem Run.draining {sha256 : String → String} {o : Uuid} {t₀ : DateTime} {s₁ s : State}
    {steps : List Step} (hrun : Run sha256 s₁ steps s) (hvalid : s₁.Valid)
    (hsuspended : Suspended s₁ o t₀) (hno : ∀ st ∈ steps, st.event ≠ .reinstate o)
    : Draining sha256 o t₀ s₁ steps s := by
  -- Earlier steps have shut their terminals, and none of these opens again.
  induction hrun with
  | nil => exact ⟨hvalid, hsuspended, fun _ => rfl, by simp⟩
  | @snoc s' steps _ st hbefore _ ih =>
    have hprev := ih fun earlier hmem => hno earlier (List.mem_append_left _ hmem)
    subst hbefore
    have hlast : st.event ≠ .reinstate o := hno st (by simp)
    constructor
    . exact Event.step_valid sha256 st.time hprev.valid st.event
    . have hafter := @Step.suspended sha256 _ _ _ hprev.suspended hlast
      unfold latestSuspension
      rw [List.foldl_append]
      exact hafter
    . intro terminalId
      unfold Step.after
      rw [Event.step_ownerIdOf, hprev.chain]
    . intro closing hmem terminalId hcloses howner
      have howner' := howner
      rw [← hprev.chain] at howner'
      cases List.mem_append.mp hmem with
      | inl hmem =>
        have hshut := hprev.shut closing hmem terminalId hcloses howner
        exact Event.step_shut sha256 st.time hprev.valid howner' hprev.suspended.not_active hshut
          st.event
      | inr hmem =>
        rw [List.mem_singleton.mp hmem] at hcloses
        exact hcloses.shut hprev.valid

theorem Run.eq_of_nil {sha256 : String → String} {s s' : State} (h : Run sha256 s [] s')
    : s' = s := by
  generalize hall : ([] : List Step) = all at h
  cases h with
  | nil => rfl
  | snoc => simp at hall

theorem Run.tail {sha256 : String → String} {s s' : State} {first : Step} {steps : List Step}
    (h : Run sha256 s (first :: steps) s')
    : first.before = s ∧ Run sha256 (first.after sha256) steps s' := by
  generalize hall : first :: steps = all at h
  induction h generalizing steps with
  | nil => cases hall
  | @snoc s' earlier hprev st hbefore htime ih =>
    cases earlier with
    | nil =>
      cases hall
      rw [hprev.eq_of_nil] at hbefore
      exact ⟨hbefore, .nil⟩
    | cons e es =>
      cases hall
      obtain ⟨hfirst, hrun⟩ := ih rfl
      refine ⟨hfirst, .snoc hrun hbefore ?_⟩
      intro x hx
      exact htime x (List.mem_cons_of_mem _ hx)

theorem Run.upTo {sha256 : String → String} {s s' : State} {pre post : List Step} {st : Step}
    (h : Run sha256 s (pre ++ st :: post) s') : Run sha256 s pre st.before := by
  generalize hall : pre ++ st :: post = all at h
  induction h generalizing post with
  | nil => simp at hall
  | @snoc s' earlier hprev last hbefore _ ih =>
    cases List.eq_nil_or_concat post with
    | inl hnil =>
      rw [hnil] at hall
      obtain ⟨hpre, hlast⟩ := List.append_inj' hall rfl
      cases hlast
      rw [hpre, hbefore]
      exact hprev
    | inr h =>
      obtain ⟨post', x, hpost⟩ := h
      rw [hpost] at hall
      have hall' : (pre ++ st :: post') ++ [x] = earlier ++ [last] := by
        simpa using hall
      exact ih (List.append_inj' hall' rfl).1

/-- What is true of a request that the guard admits after the steps `pre`. -/
structure Drains (sha256 : String → String) (o : Uuid) (t₀ : DateTime) (pre : List Step) (st : Step)
    (ctx : TerminalContext) : Prop where
  suspended : ∃ owner, st.before.owner? o = some owner ∧ owner.status = .suspended
  inGrace : st.time < latestSuspension o t₀ pre + SUSPEND_GRACE_MS
  hasOpenShift : ∃ shift ∈ st.before.db.shifts, isOpenOn ctx.terminalId shift
  opensNone : (st.after sha256).db.shifts.map (·.id) = st.before.db.shifts.map (·.id)
  notClosed : ∀ earlier ∈ pre, ¬earlier.Closes sha256 ctx.terminalId

/--
While an owner is suspended its terminals go on with the shifts they have open, until a day after its
latest suspension.
-/
theorem suspension_drains {sha256 : String → String} {s s' : State} {o : Uuid}
    {tier : Platform.SuspendTier} {first st : Step} {pre post : List Step} {ctx : TerminalContext}
    (hs : Reachable sha256 s) (hrun : Run sha256 s (first :: pre ++ st :: post) s')
    (hactive : (s.owner? o).map (·.status) = some .active) (hfirst : first.event = .suspend o tier)
    (hleft : ((first.after sha256).owner? o).map (·.status) ≠ some .active)
    (hno : ∀ earlier ∈ pre, earlier.event ≠ .reinstate o)
    (hadmits : st.Admits sha256 ctx) (howner : ctx.ownerId = o)
    : Drains sha256 o first.time pre st ctx := by
  obtain ⟨hbefore, hrest⟩ := hrun.tail
  have hvalid : (first.after sha256).Valid := by
    rw [← hbefore] at hs
    exact Event.step_valid sha256 first.time hs.valid first.event
  have hsuspended : Suspended (first.after sha256) o first.time := by
    unfold Step.after Event.step at hleft ⊢
    rw [hfirst, hbefore] at hleft ⊢
    dsimp only at hleft ⊢
    rw [Option.map_eq_some_iff] at hactive
    obtain ⟨owner, hfound, hstatus⟩ := hactive
    cases hlive : owner.deletedAt with
    | none => exact .of_suspend hfound hlive tier
    | some _ =>
      exfalso
      apply hleft
      unfold State.setStatus
      rw [hfound]
      simp [Option.filter, hlive, hfound, hstatus]
  have hdraining := hrest.upTo.draining hvalid hsuspended hno
  obtain ⟨deviceToken, req, s₁, hevent, hguard⟩ := hadmits
  obtain ⟨t, owner, hadmission⟩ := canActivate_eq_ok hguard
  have hchain := hadmission.ownerIdOf hdraining.valid
  have hfound := hadmission.found
  have hgate := hadmission.gate
  rw [howner] at hchain hfound
  rw [← hadmission.id] at hgate
  obtain ⟨found, hfound', _, hnot_active, _, hsince⟩ := hdraining.suspended
  rw [hfound] at hfound'
  cases hfound'
  cases Owner.gate_eq_ok hgate with
  | inl h => exact absurd h hnot_active
  | inr h =>
    obtain ⟨hstatus, hopen, suspendedAt, hat, hgrace⟩ := h
    rw [hsince] at hat
    cases hat
    have hshift : ∃ shift ∈ st.before.db.shifts, isOpenOn ctx.terminalId shift := by
      unfold State.hasOpenShift at hopen
      rw [List.any_eq_true] at hopen
      exact hopen
    refine ⟨⟨owner, hfound, hstatus⟩, hgrace, hshift, ?_, ?_⟩
    . obtain ⟨shift, hmem, hshift_open⟩ := hshift
      unfold Step.after Event.step
      rw [hevent]
      dsimp only
      rw [hguard]
      dsimp only
      rw [hadmission.after, State.seen_db]
      obtain ⟨_, hshifts⟩ :=
        @TerminalRequest.serve_shifts ctx st.time _ req hdraining.valid.db
      generalize (req.serve ctx st.time st.before.db).2.shifts = shifts at hshifts ⊢
      cases hshifts with
      | same => rfl
      | opened hnone =>
        rw [hadmission.id] at hshift_open
        have hbranch := hdraining.valid.branch t hadmission.terminal shift hmem hshift_open
        rw [← hadmission.id] at hshift_open
        rw [findOpenShift_eq_none hnone hmem (hbranch.trans hadmission.branch.symm)] at hshift_open
        cases hshift_open
      | closed hfound => exact Table.map_modify fun _ => rfl
    . intro earlier hearlier hcloses
      rw [hdraining.chain] at hchain
      rw [hdraining.shut earlier hearlier _ hcloses hchain] at hopen
      cases hopen

namespace Cafe

def hours (n : ℤ) : DateTime :=
  n * (60 * 60 * 1000)

/-- The tables of the café before its terminal has opened a shift. -/
def state : State where
  owners := [{ id := 1, status := .active, suspendedAt := none, deletedAt := none }]
  terminals :=
    [{ id := 30, branchId := 20, code := "T1", deviceTokenHash := some "token", lastSeenAt := none,
       deletedAt := none }]
  db := { SentryPos.Cafe.database with shifts := [] }

def openingCash : OpenShiftDto where
  openingCashC := 0
  openingCashC_nonneg := SentryPos.Cafe.zeroC_nonneg
  openingCashC_le := SentryPos.Cafe.zeroC_le

def opened : State :=
  (Event.step id 0 state (.request (some "token") (.openShift openingCash 40))).2

theorem opened_reachable : Reachable id opened := by
  apply Reachable.event
  apply Reachable.start
  . constructor
    . unfold UniqueIndex.Unique
      decide
    . exact nonNegative_stock? (by decide)
  . decide
  . rfl

def first : Step where
  time := hours 1
  event := .suspend 1 .default
  before := opened

def again : Step where
  time := hours 21
  event := .suspend 1 .default
  before := first.after id

def read : Step where
  time := hours 30
  event := .request (some "token") .read
  before := again.after id

theorem run : Run id opened [first, again, read] (read.after id) := by
  have h1 : Run id opened [first] (first.after id) := .snoc .nil rfl (by simp)
  have h2 : Run id opened [first, again] (again.after id) := by
    apply Run.snoc h1 rfl
    intro earlier h
    rw [List.mem_singleton.mp h]
    decide
  apply Run.snoc h2 rfl
  intro earlier h
  rw [List.mem_cons, List.mem_singleton] at h
  cases h with
  | inl h =>
    rw [h]
    decide
  | inr h =>
    rw [h]
    decide

theorem read_admitted : read.Admits id SentryPos.Cafe.terminal := by
  exact ⟨some "token", .read, _, rfl, rfl⟩

end Cafe

theorem suspension_drains_cafe
    : Drains id 1 Cafe.first.time [Cafe.again] Cafe.read SentryPos.Cafe.terminal ∧
        Cafe.read.time = Cafe.first.time + 29 * (60 * 60 * 1000) := by
  constructor
  . have hrun : Run id Cafe.opened (Cafe.first :: [Cafe.again] ++ Cafe.read :: [])
        (Cafe.read.after id) := Cafe.run
    apply @suspension_drains _ _ _ _ .default _ _ _ _ _ Cafe.opened_reachable hrun rfl rfl
    . decide +kernel
    . intro earlier h
      rw [List.mem_singleton.mp h]
      intro hevent
      cases hevent
    . exact Cafe.read_admitted
    . rfl
  . decide

/-- A second suspension within the day lets the terminals go on for another one. -/
theorem suspension_extended
    : ¬∀ (sha256 : String → String) (s s' : State) (o : Uuid) (tier : Platform.SuspendTier)
        (first st : Step) (pre post : List Step) (ctx : TerminalContext), Reachable sha256 s →
        Run sha256 s (first :: pre ++ st :: post) s' →
        (s.owner? o).map (·.status) = some .active → first.event = .suspend o tier →
        ((first.after sha256).owner? o).map (·.status) ≠ some .active →
        (∀ earlier ∈ pre, earlier.event ≠ .reinstate o) → st.Admits sha256 ctx →
        ctx.ownerId = o → st.time < first.time + SUSPEND_GRACE_MS := by
  intro h
  have hlate := h id Cafe.opened _ 1 .default Cafe.first Cafe.read [Cafe.again] []
    SentryPos.Cafe.terminal Cafe.opened_reachable Cafe.run rfl rfl (by decide +kernel)
    (by
      intro earlier hmem
      rw [List.mem_singleton.mp hmem]
      intro hevent
      cases hevent)
    Cafe.read_admitted rfl
  revert hlate
  decide

end SentryPos.Gate
