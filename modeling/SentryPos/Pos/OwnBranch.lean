import SentryPos.Pos.ExactlyOnce
import SentryPos.ReadCommitted.Writes

/-!
This module contains which sales `completeSale` may return: those of the terminal's branch, unless the
draft has the id of a sale of another branch.
-/

namespace SentryPos

open ReadCommitted

variable {ctx : TerminalContext} {dto : SaleDraftDto} {now : DateTime} {db db' : Database}

def checked (ctx : TerminalContext) (dto : SaleDraftDto) (db : Database)
    : Except ApiError (CartTotals × List (Uuid × Option ℤ)) :=
  ((checkDraft ctx dto).alone [] db).1

/-- The sale with the draft's id, if there is one, is of the branch, or the draft is not accepted. -/
def OwnId (ctx : TerminalContext) (dto : SaleDraftDto) (db : Database) : Prop :=
  ∀ s, db.sale? dto.id = some s → s.branchId = ctx.branchId ∨ ∀ r, checked ctx dto db ≠ .ok r

/-- The call, as the only one, returns a stored sale of the terminal's branch if it returns. -/
def ReturnsOwn (ctx : TerminalContext) (dto : SaleDraftDto) (now : DateTime) (db : Database) : Prop :=
  ∀ r, ((Request.completeSale ctx dto now).step db).1 = .ok (.sale r) →
    ∃ s, ((Request.completeSale ctx dto now).step db).2.sale? dto.id = some s
      ∧ s.branchId = ctx.branchId ∧ r.sale = assemble s

/-- The databases differ in the sales of other branches at most. -/
structure SameOwnSales (ctx : TerminalContext) (db db' : Database) : Prop where
  sales : (db'.sales.filter fun s => s.branchId = ctx.branchId)
    = db.sales.filter fun s => s.branchId = ctx.branchId
  rest : db' = { db with
    sales := db'.sales
    saleItems := db'.saleItems
    salePayments := db'.salePayments
    stockMovements := db'.stockMovements }

theorem SameOwnSales.findSale (h : SameOwnSales ctx db db') (id : Uuid)
    : findSale ctx id db' = findSale ctx id db := by
  have hfilter : ∀ db : Database, SentryPos.findSale ctx id db
      = (db.sales.filter fun s => s.branchId = ctx.branchId).find? fun s =>
        s.id = id && s.deletedAt.isNone := by
    intro db
    unfold SentryPos.findSale
    rw [List.find?_filter]
    congr 1
    funext s
    grind
  rw [hfilter, hfilter, h.sales]

theorem reads_validateLines (ctx : TerminalContext) (lines : List CartLineDto)
    : Call.OnlyWrites (fun _ : Write => False) (validateLines ctx lines) := by
  unfold validateLines
  split
  . exact .pure _
  . exact .check _

theorem reads_validateDiscounts (ctx : TerminalContext) (dto : SaleDraftDto)
    : Call.OnlyWrites (fun _ : Write => False) (validateDiscounts ctx dto) := by
  unfold validateDiscounts
  split
  . exact .pure _
  . split
    . exact .throw _
    . exact .check _

theorem reads_checkDraft (ctx : TerminalContext) (dto : SaleDraftDto)
    : Call.OnlyWrites (fun _ : Write => False) (checkDraft ctx dto) := by
  unfold checkDraft
  apply Call.OnlyWrites.bind (.query _)
  intro shift
  dsimp only
  split
  . exact .throw_bind _ _
  . apply Call.OnlyWrites.bind (.query _)
    intro business
    split
    . exact .throw _
    . apply Call.OnlyWrites.bind (reads_validateLines _ _)
      intro costByLine
      apply Call.OnlyWrites.bind (reads_validateDiscounts _ _)
      intro _
      split
      . exact .throw_bind _ _
      . apply Call.OnlyWrites.bind (.ofExcept _)
        intro _
        exact .pure _

theorem alone_checkDraft (ctx : TerminalContext) (dto : SaleDraftDto) (db : Database)
    : (checkDraft ctx dto).alone [] db = (checked ctx dto db, [], db) := by
  have hnil : ∀ w ∈ ([] : List Write), False := by simp
  have hreads := (reads_checkDraft ctx dto).alone (Q := fun db' => db' = db)
    (fun _ _ hw => hw.elim) hnil rfl
  unfold checked
  cases halone : (checkDraft ctx dto).alone [] db with
  | mk r rest =>
    rw [halone] at hreads
    obtain ⟨hlog, hdb⟩ := hreads
    dsimp only at hlog hdb
    have hnil : rest.1 = [] := List.eq_nil_iff_forall_not_mem.mpr hlog
    rw [← hnil, ← hdb]

theorem alone_validateLines (ctx : TerminalContext) (lines : List CartLineDto) (db : Database)
    : (validateLines ctx lines).alone [] db
        =
      (if productIds lines = [] then .ok [] else costsOfLines ctx lines db, [], db) := by
  unfold validateLines
  split
  . rfl
  . rw [Call.alone_check]

theorem alone_validateDiscounts (ctx : TerminalContext) (dto : SaleDraftDto)
    : ∃ result : Bool → Except ApiError Unit, ∀ db,
        (validateDiscounts ctx dto).alone [] db = (result (ownsDiscounts ctx dto db), [], db) := by
  unfold validateDiscounts
  split
  . exact ⟨fun _ => .ok (), fun _ => rfl⟩
  . split
    . exact ⟨fun _ => .error _, fun _ => rfl⟩
    . refine ⟨fun owns => if owns then .ok () else .error (.validationFailed "Unknown discount reference."), ?_⟩
      intro db
      rw [Call.alone_check]

theorem SameOwnSales.checked (h : SameOwnSales ctx db db') (dto : SaleDraftDto)
    : checked ctx dto db' = checked ctx dto db := by
  have hshift : findOpenShift ctx db' = findOpenShift ctx db := by
    rw [h.rest]
    rfl
  have hbusiness : findBusiness ctx db' = findBusiness ctx db := by
    rw [h.rest]
    rfl
  have hcosts : costsOfLines ctx dto.lines db' = costsOfLines ctx dto.lines db := by
    rw [h.rest]
    rfl
  have hdiscounts : ownsDiscounts ctx dto db' = ownsDiscounts ctx dto db := by
    rw [h.rest]
    rfl
  unfold SentryPos.checked checkDraft
  simp only [Call.alone_bind, Call.alone_query, hshift]
  split
  . rfl
  . simp only [Call.alone_bind, Call.alone_query, hbusiness]
    split
    . rfl
    . next business _ =>
      simp only [Call.alone_bind, alone_validateLines, hcosts]
      generalize (if productIds dto.lines = [] then .ok [] else costsOfLines ctx dto.lines db) = costs
      cases costs with
      | error e => rfl
      | ok costs =>
        obtain ⟨result, hresult⟩ := alone_validateDiscounts ctx dto
        simp only [hresult, hdiscounts]
        generalize result (ownsDiscounts ctx dto db) = discounts
        cases discounts with
        | error e => rfl
        | ok _ =>
          dsimp only
          split
          . rfl
          . simp only [Call.alone_bind, Call.alone_ofExcept]
            cases assertPayment dto.payment (computeTotals dto.cart business.rates).totalC with
            | error e => rfl
            | ok _ => rfl

section Step

theorem alone_lockStock (branchId : Uuid) (ids : List Uuid) (db : Database)
    : ∃ rows, (lockStock branchId ids).alone [] db = (.ok rows, [], db) := by
  unfold lockStock
  split
  . exact ⟨_, rfl⟩
  . exact ⟨_, rfl⟩

theorem step_completeSale (ctx : TerminalContext) (dto : SaleDraftDto) (now : DateTime) (db : Database)
    : (Request.completeSale ctx dto now).step db
        =
      ((((completeSale ctx dto now).alone [] db).1.map Response.sale),
        ((completeSale ctx dto now).alone [] db).2.2) := by
  have hcall : ((Request.completeSale ctx dto now).call).alone [] db
      = (do let r ← completeSale ctx dto now; return Response.sale r : PosCall Response).alone [] db := rfl
  unfold Request.step Request.prog
  rw [Prog.solo_eq]
  change (((Request.completeSale ctx dto now).call.alone [] db).1,
    ((Request.completeSale ctx dto now).call.alone [] db).2.2) = _
  rw [hcall, Call.alone_bind]
  cases (completeSale ctx dto now).alone [] db with
  | mk r rest => cases r <;> rfl

theorem alone_found {s : Sale} (h : findSale ctx dto.id db = some s)
    : (completeSale ctx dto now).alone [] db
        =
      (.ok { replayed := true, sale := assemble s }, [], db) := by
  unfold completeSale
  rw [Call.alone_bind, Call.alone_query, h]
  rfl

theorem alone_rejected {e : ApiError} (h : findSale ctx dto.id db = none)
    (hchecked : checked ctx dto db = .error e)
    : (completeSale ctx dto now).alone [] db = (.error e, [], db) := by
  unfold completeSale
  rw [Call.alone_bind, Call.alone_query, h]
  dsimp only
  rw [Call.alone_bind, alone_checkDraft, hchecked]

theorem alone_concurrent {s : Sale} {checks : CartTotals × List (Uuid × Option ℤ)}
    (h : findSale ctx dto.id db = none) (hchecked : checked ctx dto db = .ok checks)
    (hs : db.sale? dto.id = some s)
    : (completeSale ctx dto now).alone [] db
        =
      (.ok { replayed := false, sale := assemble s }, [], db) := by
  obtain ⟨rows, hrows⟩ := alone_lockStock ctx.branchId
    ((trackedLines dto.lines).map (·.1.1)).dedup db
  have hpersist : (persist ctx dto checks.1 checks.2 now).alone [] db = (.ok (assemble s), [], db) := by
    unfold persist
    rw [Call.alone_bind, hrows]
    dsimp only
    rw [Call.alone_bind, Call.alone_queryOnTx, replay_nil, hs]
    rfl
  unfold completeSale
  rw [Call.alone_bind, Call.alone_query, h]
  dsimp only
  rw [Call.alone_bind, alone_checkDraft, hchecked]
  dsimp only
  rw [Call.alone_tryCatch, Call.alone_bind, Call.alone_transaction, hpersist]
  rfl

theorem sale?_of_findSale {s : Sale} (hdb : db.Valid) (h : findSale ctx dto.id db = some s)
    : db.sale? dto.id = some s ∧ s.branchId = ctx.branchId := by
  unfold findSale at h
  have hmem := List.mem_of_find?_eq_some h
  have hfound := List.find?_some h
  simp only [Bool.and_eq_true, decide_eq_true_eq] at hfound
  refine ⟨?_, hfound.1.2⟩
  rw [← hfound.1.1]
  exact Table.get_of_mem hdb.sale_ids_nodup hmem

theorem posted_of_step (hdb : db.Valid) (hfind : findSale ctx dto.id db = none)
    (hnone : db.sale? dto.id = none) {r : SaleResponse}
    (hr : ((Request.completeSale ctx dto now).step db).1 = .ok (.sale r))
    : ∃ business costByLine data, findBusiness ctx db = some business
        ∧ costsOfLines ctx dto.lines db = .ok costByLine
        ∧ buildSaleData dto (computeTotals dto.cart business.rates) costByLine ctx.branchId
          ctx.terminalId now = .ok data
        ∧ ((Request.completeSale ctx dto now).step db).2.sale? dto.id = some data.sale
        ∧ r = { replayed := false, sale := assemble data.sale } := by
  obtain ⟨_, own, hlinked, _, hpost⟩ := (Request.completeSale ctx dto now).step_spec hdb
  have houtcome := hpost.outcome
  rw [hr] at houtcome
  have hresult : SaleResult Env.sequential ctx dto now r own _ := houtcome
  generalize ((Request.completeSale ctx dto now).step db).2 = db' at hlinked hresult ⊢
  cases hresult with
  | existing s hfound =>
    have heq : db = db' := hlinked
    rw [← heq] at hfound
    rw [Env.seen_alone hfound] at hfind
    cases hfind
  | @concurrent _ before s hrecheck hseen =>
    have heq : before = db := hlinked.1
    rw [heq] at hrecheck
    rw [(Env.seen_alone hrecheck).1] at hnone
    cases hnone
  | @posted _ before after totals costByLine p haccepted hposted hpast =>
    have heq : before = db := hlinked.1
    have heq' : after = db' := hlinked.2
    rw [heq] at haccepted hposted
    rw [heq'] at hposted
    obtain ⟨business, hbusiness, htotals⟩ := Env.seen_alone haccepted.business
    rw [htotals] at hposted
    have hcosts : costsOfLines ctx dto.lines db = .ok costByLine :=
      Env.seen_alone (P := fun db0 => costsOfLines ctx dto.lines db0 = .ok costByLine)
        haccepted.costs
    exact ⟨business, costByLine, p.data, hbusiness, hcosts, hposted.data, hposted.sale?, rfl⟩

theorem returnsOwn_iff (now : DateTime) (hdb : db.Valid) : ReturnsOwn ctx dto now db ↔ OwnId ctx dto db := by
  constructor
  . intro hown s hs
    by_contra hnot
    push Not at hnot
    obtain ⟨hforeign, checks, hchecked⟩ := hnot
    have hfind : findSale ctx dto.id db = none := by
      cases hfind : findSale ctx dto.id db with
      | none => rfl
      | some s' =>
        obtain ⟨hs', hbranch⟩ := sale?_of_findSale hdb hfind
        rw [hs] at hs'
        cases hs'
        exact absurd hbranch hforeign
    have hstep : (Request.completeSale ctx dto now).step db
        = (.ok (.sale { replayed := false, sale := assemble s }), db) := by
      rw [step_completeSale, alone_concurrent hfind hchecked hs]
      rfl
    obtain ⟨s', hs', hbranch, _⟩ := hown _ (by rw [hstep])
    rw [hstep, hs] at hs'
    cases hs'
    exact hforeign hbranch
  . intro hid r hr
    cases hfind : findSale ctx dto.id db with
    | some s =>
      obtain ⟨hs, hbranch⟩ := sale?_of_findSale hdb hfind
      rw [step_completeSale, alone_found hfind] at hr ⊢
      cases hr
      exact ⟨s, hs, hbranch, rfl⟩
    | none =>
      cases hs : db.sale? dto.id with
      | none =>
        obtain ⟨_, _, data, _, _, hdata, hstored, heq⟩ := posted_of_step hdb hfind hs hr
        refine ⟨data.sale, hstored, (buildSaleData_ok hdata).branchId, ?_⟩
        rw [heq]
      | some s =>
        cases hchecked : checked ctx dto db with
        | error e =>
          rw [step_completeSale, alone_rejected hfind hchecked] at hr
          cases hr
        | ok checks =>
          rw [step_completeSale, alone_concurrent hfind hchecked hs] at hr ⊢
          cases hr
          refine ⟨s, hs, ?_, rfl⟩
          cases hid s hs with
          | inl hbranch => exact hbranch
          | inr hfails => exact absurd hchecked (hfails checks)

theorem SameOwnSales.symm (h : SameOwnSales ctx db db') : SameOwnSales ctx db' db where
  sales := h.sales.symm
  rest := by
    rw [h.rest]

theorem SameOwnSales.sale? (h : SameOwnSales ctx db db') (hdb' : db'.Valid) {id : Uuid} {s : Sale}
    (hs : db.sale? id = some s) (hbranch : s.branchId = ctx.branchId)
    : db'.sale? id = some s := by
  have hmem : s ∈ db.sales.filter fun s => s.branchId = ctx.branchId :=
    List.mem_filter.mpr ⟨Table.mem_of_get hs, by simpa using hbranch⟩
  rw [← h.sales] at hmem
  rw [← show s.id = id from Table.key_of_get hs]
  exact Table.get_of_mem hdb'.sale_ids_nodup (List.mem_of_mem_filter hmem)

theorem checked_of_step (hfind : findSale ctx dto.id db = none) {r : SaleResponse}
    (hr : ((Request.completeSale ctx dto now).step db).1 = .ok (.sale r))
    : ∃ checks, checked ctx dto db = .ok checks := by
  cases hchecked : checked ctx dto db with
  | ok checks => exact ⟨checks, rfl⟩
  | error e =>
    rw [step_completeSale, alone_rejected hfind hchecked] at hr
    cases hr

theorem step_eq_of_sameOwnSales (hdb : db.Valid) (hdb' : db'.Valid) (hsame : SameOwnSales ctx db db')
    (hid : OwnId ctx dto db) (hid' : OwnId ctx dto db') {r r' : SaleResponse}
    (hr : ((Request.completeSale ctx dto now).step db).1 = .ok (.sale r))
    (hr' : ((Request.completeSale ctx dto now).step db').1 = .ok (.sale r')) : r = r' := by
  cases hfind : findSale ctx dto.id db with
  | some s =>
    have hfind' := hsame.findSale dto.id
    rw [hfind] at hfind'
    rw [step_completeSale, alone_found hfind] at hr
    rw [step_completeSale, alone_found hfind'] at hr'
    cases hr
    cases hr'
    rfl
  | none =>
    have hfind' := hsame.findSale dto.id
    rw [hfind] at hfind'
    obtain ⟨checks, hchecked⟩ := checked_of_step hfind hr
    have hchecked' : checked ctx dto db' = .ok checks := by
      rw [hsame.checked, hchecked]
    have hown : ∀ s, db.sale? dto.id = some s → db'.sale? dto.id = some s := by
      intro s hs
      exact hsame.sale? hdb' hs ((hid s hs).resolve_right fun h => h checks hchecked)
    have hown' : ∀ s, db'.sale? dto.id = some s → db.sale? dto.id = some s := by
      intro s hs
      exact hsame.symm.sale? hdb hs ((hid' s hs).resolve_right fun h => h checks hchecked')
    cases hs : db.sale? dto.id with
    | some s =>
      rw [step_completeSale, alone_concurrent hfind hchecked hs] at hr
      rw [step_completeSale, alone_concurrent hfind' hchecked' (hown s hs)] at hr'
      cases hr
      cases hr'
      rfl
    | none =>
      have hs' : db'.sale? dto.id = none := by
        cases hs' : db'.sale? dto.id with
        | none => rfl
        | some s' =>
          rw [hown' s' hs'] at hs
          cases hs
      obtain ⟨b, costs, data, hb, hcosts, hdata, _, heq⟩ := posted_of_step hdb hfind hs hr
      obtain ⟨b', costs', data', hb', hcosts', hdata', _, heq'⟩ := posted_of_step hdb' hfind' hs' hr'
      have hbusiness : findBusiness ctx db' = findBusiness ctx db := by
        rw [hsame.rest]
        rfl
      have hcostsEq : costsOfLines ctx dto.lines db' = costsOfLines ctx dto.lines db := by
        rw [hsame.rest]
        rfl
      rw [hbusiness, hb] at hb'
      cases hb'
      rw [hcostsEq, hcosts] at hcosts'
      cases hcosts'
      rw [hdata] at hdata'
      cases hdata'
      rw [heq, heq']

end Step

theorem run_returnsOwn {ι : Type} [DecidableEq ι] {reqs : ι → Request} {c : System ι}
    (hdb : db.Valid) (hrun : Run (.error .aborted) (System.start db reqs) c)
    (hid : ∀ d ∈ c.databases db, ∀ s, d.sale? dto.id = some s → s.branchId = ctx.branchId) {i : ι}
    (hreq : reqs i = .completeSale ctx dto now) {r : SaleResponse}
    (hr : (c.procs i).prog.result? = some (.ok (.sale r)))
    : ∃ d ∈ c.databases db, ∃ s, d.sale? dto.id = some s ∧ s.branchId = ctx.branchId
      ∧ r.sale = assemble s := by
  have hpost := (keeps_databases reqs db c).returned hdb List.mem_cons_self hrun.within hr
  have houtcome := hpost.outcome
  rw [hreq] at houtcome
  have hresult : SaleResult _ ctx dto now r (c.commitsOf i) c.db := houtcome
  generalize hcommits : c.commitsOf i = commits at hresult
  cases hresult with
  | existing s hfound =>
    obtain ⟨d, hd, hfound, _⟩ := hfound
    obtain ⟨hs, hbranch⟩ := sale?_of_findSale hd.1 hfound
    exact ⟨d, hd.2, s, hs, hbranch, rfl⟩
  | concurrent s hrecheck =>
    obtain ⟨d, hd, hs, _⟩ := hrecheck
    exact ⟨d, hd.2, s, hs.1, hid d hd.2 s hs.1, rfl⟩
  | @posted _ before after _ _ p _ hposted =>
    have hafter : after ∈ c.databases db := by
      have hmem : (before, after) ∈ c.commitsOf i := by
        rw [hcommits]
        exact List.mem_singleton_self _
      unfold Config.commitsOf at hmem
      obtain ⟨e, he, heq⟩ := List.mem_map.mp hmem
      rw [Prod.mk.injEq] at heq
      rw [← heq.2]
      exact List.mem_cons_of_mem db (List.mem_map_of_mem (List.mem_of_mem_filter he))
    exact ⟨after, hafter, p.data.sale, hposted.sale?, (buildSaleData_ok hposted.data).branchId, rfl⟩

/--
A call returns sales of the terminal's branch only, and nothing that depends on sales of other
branches, if and only if no sale of another branch has the id of a draft that passes the checks.
-/
theorem completeSale_returns_own (ctx : TerminalContext) (dto : SaleDraftDto) (now : DateTime)
    : (∀ db db' : Database, db.Valid → db'.Valid → SameOwnSales ctx db db' →
          ((ReturnsOwn ctx dto now db ∧ ReturnsOwn ctx dto now db' ∧ ∀ r r',
              ((Request.completeSale ctx dto now).step db).1 = .ok (.sale r) →
                ((Request.completeSale ctx dto now).step db').1 = .ok (.sale r') → r = r')
            ↔ OwnId ctx dto db ∧ OwnId ctx dto db'))
        ∧ ∀ (ι : Type) [DecidableEq ι] (reqs : ι → Request) (db : Database) (c : System ι), db.Valid →
          Run (.error .aborted) (System.start db reqs) c →
            (∀ d ∈ c.databases db, ∀ s, d.sale? dto.id = some s → s.branchId = ctx.branchId) →
              ∀ i r, reqs i = .completeSale ctx dto now →
                (c.procs i).prog.result? = some (.ok (.sale r)) →
                  ∃ d ∈ c.databases db, ∃ s, d.sale? dto.id = some s ∧ s.branchId = ctx.branchId
                    ∧ r.sale = assemble s := by
  constructor
  . intro db db' hdb hdb' hsame
    constructor
    . intro h
      exact ⟨(returnsOwn_iff now hdb).mp h.1, (returnsOwn_iff now hdb').mp h.2.1⟩
    . intro h
      refine ⟨(returnsOwn_iff now hdb).mpr h.1, (returnsOwn_iff now hdb').mpr h.2, ?_⟩
      intro r r' hr hr'
      exact step_eq_of_sameOwnSales hdb hdb' hsame h.1 h.2 hr hr'
  . intro ι _ reqs db c hdb hrun hid i r hreq hr
    exact run_returnsOwn hdb hrun hid hreq hr

namespace Cafe

def otherSale (id : Uuid) : Sale where
  id
  branchId := 21
  terminalId := 31
  shiftId := none
  receiptNo := "T2-000001"
  orderType := .takeout
  status := .completed
  statusReason := none
  subtotal := 200
  discount := 0
  discountId := none
  serviceCharge := 0
  scPwd := none
  scPwdDiscount := 0
  vatExemptSales := 0
  tax := 0
  total := 200
  createdAtDevice := 0
  syncedAt := none
  voidedAt := none
  refundedAt := none
  refundShiftId := none
  draft := draft id "T2-000001" (by decide)
  createdAt := 0
  deletedAt := none

/-- The other branch has a sale. -/
def otherBranch (id : Uuid) : Database :=
  { database with sales := [otherSale id] }

theorem otherBranch_valid (id : Uuid) : (otherBranch id).Valid where
  unique := by
    unfold UniqueIndex.Unique
    simp [UniqueIndex.entries, otherBranch, database, Database.entries]
  stock := nonNegative_stock? (by simp [otherBranch, database])

theorem otherBranch_checked : (checked terminal sale (otherBranch 7)).toOption.isSome := by
  decide +kernel

theorem ownId_otherBranch : OwnId terminal sale (otherBranch 9) := by
  intro s hs
  have hnone : (otherBranch 9).sale? sale.id = none := rfl
  rw [hnone] at hs
  cases hs

theorem ownId_database : OwnId terminal sale database := by
  intro s hs
  have hnone : database.sale? sale.id = none := rfl
  rw [hnone] at hs
  cases hs

theorem race_own
    : (race.turns schedule).map (fun c => (c.databases database).all fun d =>
          d.sales.all fun s => s.branchId = terminal.branchId)
        =
      some true := by
  decide +kernel

end Cafe

/-- The terminal gets the sale of the other branch that has the id of its draft. -/
theorem completeSale_returns_foreign
    : ¬ ∀ (ctx : TerminalContext) (dto : SaleDraftDto) (now : DateTime) (db : Database), db.Valid →
        ReturnsOwn ctx dto now db := by
  intro hall
  have hown := hall Cafe.terminal Cafe.sale 100 _ (Cafe.otherBranch_valid 7)
  rw [returnsOwn_iff 100 (Cafe.otherBranch_valid 7)] at hown
  cases hown (Cafe.otherSale 7) rfl with
  | inl hbranch => cases hbranch
  | inr hfails =>
    have hchecked := Cafe.otherBranch_checked
    cases h : checked Cafe.terminal Cafe.sale (Cafe.otherBranch 7) with
    | ok checks => exact hfails checks h
    | error e =>
      rw [h] at hchecked
      cases hchecked

theorem completeSale_returns_own_cafe
    : ReturnsOwn Cafe.terminal Cafe.sale 100 (Cafe.otherBranch 9)
        ∧ ∃ c, Cafe.race.turns Cafe.schedule = some c ∧ ∀ i r,
          (c.procs i).prog.result? = some (.ok (.sale r)) →
            ∃ d ∈ c.databases Cafe.database, ∃ s, d.sale? Cafe.sale.id = some s ∧ s.branchId = 20
              ∧ r.sale = assemble s := by
  have hown := completeSale_returns_own Cafe.terminal Cafe.sale 100
  constructor
  . have hsame : SameOwnSales Cafe.terminal Cafe.database (Cafe.otherBranch 9) := ⟨rfl, rfl⟩
    exact ((hown.1 _ _ Cafe.database_valid (Cafe.otherBranch_valid 9) hsame).mpr
      ⟨Cafe.ownId_database, Cafe.ownId_otherBranch⟩).2.1
  . have hrace := Cafe.race_own
    rw [Option.map_eq_some_iff] at hrace
    obtain ⟨c, hturns, hbranches⟩ := hrace
    simp only [List.all_eq_true, decide_eq_true_eq] at hbranches
    have hrun : Run (.error .aborted) Cafe.race c := Config.run_of_turns _ _ hturns
    refine ⟨c, hturns, ?_⟩
    intro i r hr
    apply hown.2 Bool _ Cafe.database c Cafe.database_valid hrun _ i r rfl hr
    intro d hd s hs
    exact hbranches d hd s (Table.mem_of_get hs)

end SentryPos
