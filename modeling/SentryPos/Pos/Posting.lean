import SentryPos.Pos.Basket

/-!
This module contains what a committed `completeSale` does to the database, and the proof that the
transaction of `completeSale` does nothing else, whatever commits while it runs.
-/

namespace SentryPos

open ReadCommitted

/-- What the transaction found and computed: the locked stock rows and the rows it inserts. -/
structure Posting where
  rows : List BranchStock
  data : SaleData
  receiptSeq : Option ℤ

def decrements (rows : List BranchStock) (wanted : List (LevelKey × ℤ)) : List (Uuid × ℤ) :=
  wanted.filterMap fun w => (lockedRow rows w.1).map fun r => (r.id, w.2)

def stockLog (rows : List BranchStock) (wanted : List (LevelKey × ℤ)) : List Write :=
  (decrements rows wanted).map fun d => .addStock d.1 (-d.2)

def saleLog (data : SaleData) : List Write :=
  .insertSale data.sale :: data.items.map .insertItem ++ [.insertPayment data.payment]

def movementLog (ctx : TerminalContext) (saleId : Uuid) (lines : List (LevelKey × ℤ)) : List Write :=
  lines.map fun l => .insertMovement (saleMovement ctx.branchId saleId l)

def Posting.log (p : Posting) (ctx : TerminalContext) (dto : SaleDraftDto) : List Write :=
  stockLog p.rows (wantedMilli dto.lines)
    ++ saleLog p.data
    ++ movementLog ctx dto.id (trackedLines dto.lines)
    ++ (p.receiptSeq.map (.setReceiptSeq ctx.terminalId)).toList

/-- The step of the abstract model that a `completeSale` takes when it commits. -/
structure Posted [Rounding] (ctx : TerminalContext) (dto : SaleDraftDto) (totals : CartTotals)
    (costByLine : List (Uuid × Option ℤ)) (now : DateTime) (p : Posting) (db db' : Database)
    : Prop where
  data : buildSaleData dto totals costByLine ctx.branchId ctx.terminalId now = .ok p.data
  rows : ∀ r ∈ p.rows, db.stock? r.id = some r ∧ r.branchId = ctx.branchId ∧ r.deletedAt = none
  pass : detectConflicts (availableMilli p.rows) [] dto.lines = []
  after : db' = replay (p.log ctx dto) db
  valid : db.Valid
  valid' : db'.Valid

/-- Where a sale stands that has read the sequence of its terminal. -/
def Stmt.afterTerminal : Stmt → Bool
  | updateTerminal | commit => true
  | _ => false

/--
What a posting does to the sequence of its terminal: it has read one that is not past its own number
and writes the successor of that number, or has read a sequence that is there already.
-/
inductive Bumped (l : Env Database Write Key Stmt) (terminalId : Uuid) (receiptNo : String)
    : Option ℤ → Database → Prop where
  | set {db0 db : Database}
    (hread : ∀ term, db0.terminal? terminalId = some term → term.receiptSeq ≤ seqOf receiptNo)
    (hpast : l.PastAt (·.afterTerminal) db0 db)
    : Bumped l terminalId receiptNo (some (seqOf receiptNo + 1)) db
  | kept {db : Database} (h : l.Seen (fun db0 => ∀ term, db0.terminal? terminalId = some term →
      seqOf receiptNo < term.receiptSeq) db) : Bumped l terminalId receiptNo none db

theorem Bumped.committing {l : Env Database Write Key Stmt} {terminalId : Uuid} {receiptNo : String}
    {receiptSeq : Option ℤ} {locks : List Key} {db db' : Database}
    (h : Bumped l terminalId receiptNo receiptSeq db) (hrely : l.Rely (some .commit) locks db db')
    : Bumped l terminalId receiptNo receiptSeq db' := by
  cases h with
  | set hread hpast => exact .set hread (hpast.tail ⟨_, locks, rfl, hrely⟩)
  | kept h => exact .kept (h.step hrely)

/-- Neither a stock conflict nor one of the errors that no `completeSale` ends with. -/
def ApiError.Expected (e : ApiError) : Prop :=
  (∀ conflicts, e ≠ .stockConflict conflicts)
    ∧ e ≠ .checkViolation
    ∧ e ≠ .validationFailed "Stock level not found for a tracked line."

@[simp]
theorem expected_tenantScope (message : String) : (ApiError.tenantScope message).Expected := by
  simp [ApiError.Expected]

theorem intColumn_eq_ok {x : JsNumber} {d : ℤ} (h : intColumn x = .ok d)
    : x = ((d : ℤ) : JsNumber) := by
  unfold intColumn at h
  split at h
  . next q =>
    split at h
    . next hq =>
      cases h
      simp only [Bool.and_eq_true, decide_eq_true_eq] at hq
      rw [JsNumber.fin.injEq]
      exact (Rat.den_eq_one_iff q).mp hq.1.1 |>.symm
    . cases h
  . cases h

theorem abs_le_of_intColumn {x : JsNumber} {d : ℤ} (h : intColumn x = .ok d)
    : |d| ≤ 2 ^ 31 := by
  have hd := intColumn_eq_ok h
  rw [hd] at h
  unfold intColumn at h
  dsimp only at h
  split at h
  . next hrange =>
    simp only [Bool.and_eq_true, decide_eq_true_eq] at hrange
    rw [abs_le]
    constructor
    . exact_mod_cast hrange.1.2
    . exact_mod_cast hrange.2.le
  . cases h

theorem intColumn_error {n : JsNumber} {e : ApiError} (h : intColumn n = .error e)
    : e = .prismaValidation := by
  unfold intColumn at h
  split at h
  . split at h
    . simp at h
    . simpa using h.symm
  . simpa using h.symm

section Wp

variable {l : Logic Database Write Key Stmt} {R : Type} {ok : Post Database Write Key R}
  {err : Post Database Write Key ApiError} {commits : List (Database × Database)}
  {log : List Write} {locks : List Key} {db : Database} {ctx : TerminalContext}

theorem wp_decrementLevel (hl : PosEnv l) (hmid : l.Mid commits) {rows : List BranchStock}
    {wanted : LevelKey × ℤ} {row : BranchStock} {ok : Post Database Write Key Unit}
    (hpending : Pending log locks db) (hrow : lockedRow rows wanted.1 = some row)
    (hlock : .branchStock row.id ∈ locks) (hstock : db.stock? row.id = some row)
    (huntouched : ∀ w ∈ log, .branchStock row.id ∉ w.keys) (hle : wanted.2 ≤ row.qty)
    (hok : ∀ db' needs, Later l locks db db' →
      Pending (log ++ [.addStock row.id (-wanted.2)]) (locks ++ needs) db' →
        ok () commits (log ++ [.addStock row.id (-wanted.2)]) (locks ++ needs) db')
    (herr : ∀ e locks' db', Later l locks db db' → e.Expected → err e commits log locks' db')
    : Call.wp l (decrementLevel ctx rows wanted) ok err commits log locks db := by
  unfold decrementLevel
  rw [hrow]
  dsimp only
  rw [Call.wp_bind]
  apply PosCall.wp_target hl hmid
  . intro db1 hlater1 _ _
    have hfits : ∀ db', (Write.addStock row.id (-wanted.2)).Fits log db' := fun _ => trivial
    apply PosCall.wp_execute hl hmid (hlater1.pending hpending) fun _ _ => hfits _
    . intro db2 hlater2 _ _ hpending'
      exact hok db2 _ (hlater1.trans hlater2) hpending'
    . intro db2 e hlater2 hviolation
      have hlater := hlater1.trans hlater2
      apply herr e _ db2 hlater
      -- The row is locked and no earlier decrement was of it, so the view still has `row`.
      have hview : (replay log db2).stock? row.id = some row := by
        rw [← hstock, ← hlater.rely.kept _ hlock]
        exact LockedRow.row_replay_frame huntouched db2
      simp only [Write.violation, hview, qtyViolation] at hviolation
      split at hviolation
      . simp only [Option.some.injEq] at hviolation
        subst hviolation
        simp [ApiError.Expected]
      . split at hviolation
        . omega
        . simp at hviolation
  . intro db1 hlater1 _
    exact herr _ _ db1 hlater1 (expected_tenantScope _)

theorem stockLog_append (rows : List BranchStock) (done : List (LevelKey × ℤ)) (w : LevelKey × ℤ)
    {row : BranchStock} (hrow : lockedRow rows w.1 = some row)
    : stockLog rows (done ++ [w]) = stockLog rows done ++ [.addStock row.id (-w.2)] := by
  simp [stockLog, decrements, hrow]

theorem lockedRow_mem {rows : List BranchStock} {k : LevelKey} {row : BranchStock}
    (h : lockedRow rows k = some row) : row ∈ rows ∧ (row.productId, row.variantId) = k := by
  unfold lockedRow at h
  have hmem := List.mem_of_find?_eq_some h
  have hkey := List.find?_some h
  rw [List.mem_reverse] at hmem
  exact ⟨hmem, by simpa using hkey⟩

theorem stockLog_untouched {rows : List BranchStock} {done : List (LevelKey × ℤ)} {k : LevelKey}
    {row : BranchStock} (hrow : lockedRow rows k = some row)
    (hrows : ∀ r ∈ rows, db.stock? r.id = some r) (hk : k ∉ done.map (·.1))
    : ∀ w ∈ stockLog rows done, .branchStock row.id ∉ w.keys := by
  intro w hw hkey
  simp only [stockLog, decrements, List.mem_map, List.mem_filterMap, Option.map_eq_some_iff] at hw
  obtain ⟨d, ⟨want, hwant, row', hrow', hd⟩, hw⟩ := hw
  subst hd hw
  simp only [Write.keys, Write.updated, Write.added, List.map_nil, List.append_nil,
    List.mem_singleton, Key.branchStock.injEq] at hkey
  obtain ⟨hmem, hk1⟩ := lockedRow_mem hrow
  obtain ⟨hmem', hk2⟩ := lockedRow_mem hrow'
  have heq : some row = some row' := by
    rw [← hrows row hmem, ← hrows row' hmem', hkey]
  apply hk
  rw [List.mem_map]
  refine ⟨want, hwant, ?_⟩
  rw [← hk1, ← hk2, Option.some.inj heq]

theorem wp_decrementLevels (hl : PosEnv l) (hmid : l.Mid commits) {rows : List BranchStock}
    {lines : List CartLineDto} {ok : Post Database Write Key PUnit} (hinv : l.Inv db)
    (hpending : Pending [] locks db) (hlocks : ∀ r ∈ rows, .branchStock r.id ∈ locks)
    (hrows : ∀ r ∈ rows, db.stock? r.id = some r)
    (hpass : detectConflicts (availableMilli rows) [] lines = [])
    (hok : ∀ db' needs, Later l locks db db' →
      Pending (stockLog rows (wantedMilli lines)) (locks ++ needs) db' →
        ok () commits (stockLog rows (wantedMilli lines)) (locks ++ needs) db')
    (herr : ∀ e log' locks' db', Later l locks db db' → e.Expected → err e commits log' locks' db')
    : Call.wp l ((wantedMilli lines).forM (decrementLevel ctx rows)) ok err commits [] locks db := by
  apply Call.wp_forM fun done commits' log' locks' db' =>
    commits' = commits ∧ log' = stockLog rows done ∧ Later l locks db db' ∧
      ∃ needs, locks' = locks ++ needs ∧ Pending log' locks' db'
  . intro done w rest commits' log' locks' db' hwanted hdone
    obtain ⟨hcommits, hlog, hlater, needs, hneeds, hpending'⟩ := hdone
    subst hcommits hneeds
    have hmem : (w.1, w.2) ∈ wantedMilli lines := by
      rw [hwanted]
      simp
    obtain ⟨hpos, hle⟩ := le_available_of_wanted hpass hmem
    obtain ⟨row, hrow, hqty⟩
        : ∃ row, lockedRow rows w.1 = some row ∧ w.2 ≤ row.qty := by
      unfold availableMilli at hle
      cases hrow : lockedRow rows w.1 with
      | none =>
        rw [hrow] at hle
        simp only [Option.map_none, Option.getD_none] at hle
        omega
      | some row =>
        rw [hrow] at hle
        exact ⟨row, rfl, hle⟩
    have hrowmem := (lockedRow_mem hrow).1
    have hrows' : ∀ r ∈ rows, db'.stock? r.id = some r := by
      intro r hr
      rw [← hrows r hr]
      exact hlater.rely.kept _ (hlocks r hr)
    have hnew : w.1 ∉ done.map (·.1) := by
      have hnodup := nodup_wantedMilli lines
      rw [hwanted, List.map_append, List.nodup_append] at hnodup
      intro hin
      exact hnodup.2.2 _ hin w.1 (by simp) rfl
    have hlock : .branchStock row.id ∈ locks ++ needs := by
      rw [List.mem_append]
      exact .inl (hlocks row hrowmem)
    have huntouched : ∀ w' ∈ log', .branchStock row.id ∉ w'.keys := by
      rw [hlog]
      exact stockLog_untouched hrow hrows' hnew
    apply wp_decrementLevel hl hmid hpending' hrow hlock (hrows' row hrowmem) huntouched hqty
    . intro db'' needs' hlater' hpending''
      refine ⟨rfl, ?_, hlater.trans hlater', needs ++ needs', ?_, hpending''⟩
      . rw [hlog, stockLog_append rows done w hrow]
      . rw [List.append_assoc]
    . intro e locks'' db'' hlater' he
      exact herr e _ _ db'' (hlater.trans hlater') he
  . intro commits' log' locks' db' hdone
    obtain ⟨hcommits, hlog, hlater, needs, hneeds, hpending'⟩ := hdone
    subst hcommits hlog hneeds
    exact hok db' needs hlater hpending'
  . exact ⟨rfl, rfl, .refl hl hinv locks, [], by simp, hpending⟩

theorem wp_inserts {α : Type} (hl : PosEnv l) (hmid : l.Mid commits) {f : α → PosCall PUnit}
    {g : α → Write} {xs : List α} {ok : Post Database Write Key PUnit} (hinv : l.Inv db)
    (hpending : Pending log locks db)
    (hf : ∀ x ∈ xs, ∀ done locks' db' (ok : Post Database Write Key PUnit), done ⊆ xs →
      Pending (log ++ done.map g) locks' db' →
      (∀ db'' needs, Later l locks' db' db'' →
        Pending (log ++ (done ++ [x]).map g) (locks' ++ needs) db'' →
          ok () commits (log ++ (done ++ [x]).map g) (locks' ++ needs) db'') →
      (∀ e log'' locks'' db'', Later l locks' db' db'' → e.Expected →
        err e commits log'' locks'' db'') →
      Call.wp l (f x) ok err commits (log ++ done.map g) locks' db')
    (hok : ∀ db' needs, Later l locks db db' → Pending (log ++ xs.map g) (locks ++ needs) db' →
      ok () commits (log ++ xs.map g) (locks ++ needs) db')
    (herr : ∀ e log' locks' db', Later l locks db db' → e.Expected → err e commits log' locks' db')
    : Call.wp l (xs.forM f) ok err commits log locks db := by
  apply Call.wp_forM fun done commits' log' locks' db' =>
    commits' = commits ∧ log' = log ++ done.map g ∧ Later l locks db db' ∧
      ∃ needs, locks' = locks ++ needs ∧ Pending log' locks' db'
  . intro done x rest commits' log' locks' db' hxs hdone
    obtain ⟨hcommits, hlog, hlater, needs, hneeds, hpending'⟩ := hdone
    subst hcommits hlog hneeds
    apply hf x (by simp [hxs]) done _ _ _ (by simp [hxs]) hpending'
    . intro db'' needs' hlater' hpending''
      refine ⟨rfl, rfl, hlater.trans hlater', needs ++ needs', ?_, hpending''⟩
      rw [List.append_assoc]
    . intro e log'' locks'' db'' hlater' he
      exact herr e _ _ db'' (hlater.trans hlater') he
  . intro commits' log' locks' db' hdone
    obtain ⟨hcommits, hlog, hlater, needs, hneeds, hpending'⟩ := hdone
    subst hcommits hlog hneeds
    exact hok db' needs hlater hpending'
  . exact ⟨rfl, by simp, .refl hl hinv locks, [], by simp, hpending⟩

structure SaleData.BuiltFrom [Rounding] (data : SaleData) (dto : SaleDraftDto) (totals : CartTotals)
    (costByLine : List (Uuid × Option ℤ)) (branchId terminalId : Uuid) : Prop where
  id : data.sale.id = dto.id
  draft : data.sale.draft = dto
  branchId : data.sale.branchId = branchId
  terminalId : data.sale.terminalId = terminalId
  shiftId : data.sale.shiftId = some dto.shiftId
  receiptNo : data.sale.receiptNo = dto.receiptNo
  status : data.sale.status = .completed
  refundShiftId : data.sale.refundShiftId = none
  deletedAt : data.sale.deletedAt = none
  discount : intColumn totals.promoDiscountC = .ok data.sale.discount
  scPwdDiscount : intColumn totals.scPwdDiscountC = .ok data.sale.scPwdDiscount
  total : intColumn totals.totalC = .ok data.sale.total
  subtotal : intColumn totals.subtotalC = .ok data.sale.subtotal
  serviceCharge : intColumn totals.serviceChargeC = .ok data.sale.serviceCharge
  vatExemptSales : intColumn totals.vatExemptSalesC = .ok data.sale.vatExemptSales
  tax : intColumn totals.vatC = .ok data.sale.tax
  discountId : data.sale.discountId = namedDiscountId dto.orderDiscount
  items : dto.lines.mapM (buildItem dto totals costByLine) = .ok data.items
  paymentId : data.payment.id = dto.payment.id
  paymentSaleId : data.payment.saleId = dto.id
  paymentMethod : data.payment.method = dto.payment.method
  paymentDeletedAt : data.payment.deletedAt = none

theorem buildSaleData_ok [Rounding] {dto : SaleDraftDto} {totals : CartTotals}
    {costByLine : List (Uuid × Option ℤ)} {branchId terminalId : Uuid} {now : DateTime}
    {data : SaleData}
    (h : buildSaleData dto totals costByLine branchId terminalId now = .ok data)
    : data.BuiltFrom dto totals costByLine branchId terminalId := by
  unfold buildSaleData at h
  simp only [Checks.bind_eq_ok] at h
  obtain ⟨items, hitems, subtotal, hsubtotal, discount, hdiscount, serviceCharge, hserviceCharge,
    scPwdDiscount, hscPwdDiscount, vatExemptSales, hvatExemptSales, tax, htax, total, htotal,
    createdAtDevice, _, h⟩ := h
  cases h
  exact ⟨rfl, rfl, rfl, rfl, rfl, rfl, rfl, rfl, rfl, hdiscount, hscPwdDiscount, htotal, hsubtotal,
    hserviceCharge, hvatExemptSales, htax, rfl, hitems, rfl, rfl, rfl, rfl⟩

theorem buildSaleData_error [Rounding] {dto : SaleDraftDto} {totals : CartTotals}
    {costByLine : List (Uuid × Option ℤ)} {branchId terminalId : Uuid} {now : DateTime}
    {e : ApiError} (h : buildSaleData dto totals costByLine branchId terminalId now = .error e)
    : e = .prismaValidation := by
  have hitem : ∀ line, buildItem dto totals costByLine line = .error e → e = .prismaValidation := by
    intro line hline
    unfold buildItem at hline
    simp only [Checks.bind_eq_error, Checks.pure_ne_error, and_false, exists_false, or_false]
      at hline
    exact intColumn_error hline
  unfold buildSaleData at h
  rw [Checks.bind_eq_error] at h
  cases h with
  | inl hitems =>
    obtain ⟨line, _, hline⟩ := Checks.mapM_eq_error hitems
    exact hitem line hline
  | inr h =>
    obtain ⟨_, _, h⟩ := h
    simp only [Checks.bind_eq_error, Checks.pure_ne_error, and_false, exists_false, or_false] at h
    rcases h with h | ⟨_, _, h | ⟨_, _, h | ⟨_, _, h | ⟨_, _, h | ⟨_, _, h | ⟨_, _, h | ⟨_, _, h⟩⟩⟩⟩⟩⟩⟩
    all_goals try exact intColumn_error h
    cases hdate : dto.createdAtDevice.date with
    | none =>
      rw [hdate] at h
      cases h
      rfl
    | some date =>
      rw [hdate] at h
      cases h

@[simp]
theorem expected_prismaValidation : ApiError.prismaValidation.Expected := by
  simp [ApiError.Expected]

theorem Write.uniqueViolation_expected {w : Write} {view : Database} {e : ApiError}
    (h : w.uniqueViolation view = some e) : e.Expected := by
  unfold uniqueViolation at h
  split at h
  . cases h
    simp [ApiError.Expected]
  . cases h

theorem Write.insert_expected {w : Write} {view : Database} {e : ApiError}
    (hw : (∃ row, w = .insertSale row) ∨ (∃ row, w = .insertItem row)
      ∨ (∃ row, w = .insertPayment row) ∨ (∃ row, w = .insertMovement row))
    (h : w.violation view = some e) : e.Expected := by
  rcases hw with ⟨row, rfl⟩ | ⟨row, rfl⟩ | ⟨row, rfl⟩ | ⟨row, rfl⟩
  . unfold violation at h
    rw [Option.or_eq_some_iff] at h
    cases h with
    | inl h => exact uniqueViolation_expected h
    | inr h =>
      have hforeign := h.2
      split at hforeign
      . cases hforeign
      . cases hforeign
        simp [ApiError.Expected]
  . cases h
  . exact uniqueViolation_expected h
  . cases h

theorem wp_insert (hl : PosEnv l) (hmid : l.Mid commits) {tag : Stmt} {w : Write}
    {ok : Post Database Write Key Unit} (hpending : Pending log locks db)
    (hw : (∃ row, w = .insertSale row) ∨ (∃ row, w = .insertItem row)
      ∨ (∃ row, w = .insertPayment row) ∨ (∃ row, w = .insertMovement row))
    (hfits : ∀ db', Later l locks db db' → w.Fits log db')
    (hok : ∀ db' needs, Later l locks db db' → Pending (log ++ [w]) (locks ++ needs) db' →
      ok () commits (log ++ [w]) (locks ++ needs) db')
    (herr : ∀ e log' locks' db', Later l locks db db' → e.Expected → err e commits log' locks' db')
    : Call.wp l (PosCall.execute tag w) ok err commits log locks db := by
  apply PosCall.wp_execute hl hmid hpending hfits
  . intro db' hlater _ _ hpending'
    exact hok db' _ hlater hpending'
  . intro db' e hlater hviolation
    exact herr e _ _ db' hlater (Write.insert_expected hw hviolation)

theorem wp_insertSaleData (hl : PosEnv l) (hmid : l.Mid commits) {data : SaleData}
    {ok : Post Database Write Key Unit} (hpending : Pending log locks db)
    (hdraft : data.sale.draft.id = data.sale.id)
    (hok : ∀ db' needs, Later l locks db db' →
      Pending (log ++ saleLog data) (locks ++ needs) db' →
        ok () commits (log ++ saleLog data) (locks ++ needs) db')
    (herr : ∀ e log' locks' db', Later l locks db db' → e.Expected → err e commits log' locks' db')
    : Call.wp l (insertSaleData data) ok err commits log locks db := by
  unfold insertSaleData
  rw [Call.wp_bind]
  apply wp_insert hl hmid hpending (.inl ⟨_, rfl⟩) fun _ _ => hdraft
  . intro db1 needs1 hlater1 hpending1
    rw [Call.wp_bind]
    apply wp_inserts hl hmid (g := .insertItem) hlater1.inv hpending1
    . intro item _ done locks' db' ok' _ hpending' hok' herr'
      have hlog
          : log ++ [.insertSale data.sale] ++ done.map .insertItem ++ [.insertItem item]
              =
            log ++ [.insertSale data.sale] ++ (done ++ [item]).map .insertItem := by
        simp
      apply wp_insert hl hmid hpending' (.inr (.inl ⟨_, rfl⟩)) fun _ _ => trivial
      . intro db'' needs'' hlater'' hpending''
        rw [hlog] at hpending'' ⊢
        exact hok' db'' _ hlater'' hpending''
      . exact herr'
    . intro db2 needs2 hlater2 hpending2
      have hlog
          : log ++ [.insertSale data.sale] ++ data.items.map .insertItem
                ++ [.insertPayment data.payment]
              =
            log ++ saleLog data := by
        simp [saleLog]
      apply wp_insert hl hmid hpending2 (.inr (.inr (.inl ⟨_, rfl⟩))) fun _ _ => trivial
      . intro db3 needs3 hlater3 hpending3
        rw [hlog, List.append_assoc, List.append_assoc] at hpending3 ⊢
        exact hok db3 _ (hlater1.trans (hlater2.trans hlater3)) hpending3
      . intro e log' locks' db3 hlater3 he
        exact herr e _ _ db3 (hlater1.trans (hlater2.trans hlater3)) he
    . intro e log' locks' db2 hlater2 he
      exact herr e _ _ db2 (hlater1.trans hlater2) he
  . exact herr

theorem wp_createSale [Rounding] (hl : PosEnv l) (hmid : l.Mid commits) {dto : SaleDraftDto}
    {totals : CartTotals} {costByLine : List (Uuid × Option ℤ)} {now : DateTime}
    {ok : Post Database Write Key Sale} (hpending : Pending log locks db)
    (hok : ∀ db' needs data, Later l locks db db' →
      buildSaleData dto totals costByLine ctx.branchId ctx.terminalId now = .ok data →
      Pending (log ++ saleLog data) (locks ++ needs) db' →
        ok data.sale commits (log ++ saleLog data) (locks ++ needs) db')
    (herr : ∀ e log' locks' db', Later l locks db db' → e.Expected → err e commits log' locks' db')
    : Call.wp l (createSale ctx dto totals costByLine now) ok err commits log locks db := by
  unfold createSale
  rw [Call.wp_bind]
  apply PosCall.wp_police hl hmid (.terminal ctx)
  . intro db1 hlater1
    rw [Call.wp_bind]
    apply Call.wp_ofExcept
    . intro data hdata
      have hbuild := buildSaleData_ok hdata
      have hdraft : data.sale.draft.id = data.sale.id := by
        rw [hbuild.draft, hbuild.id]
      rw [Call.wp_bind]
      apply wp_insertSaleData hl hmid (hlater1.pending hpending) hdraft
      . intro db2 needs hlater2 hpending2
        exact hok db2 needs data (hlater1.trans hlater2) hdata hpending2
      . intro e log' locks' db2 hlater2 he
        exact herr e _ _ db2 (hlater1.trans hlater2) he
    . intro e he
      rw [buildSaleData_error he]
      exact herr _ _ _ db1 hlater1 expected_prismaValidation
  . intro message db1 hlater1
    exact herr _ _ _ db1 hlater1 (expected_tenantScope message)

theorem wp_createSaleMovements (hl : PosEnv l) (hmid : l.Mid commits) {saleId : Uuid}
    {lines : List (LevelKey × ℤ)} {ok : Post Database Write Key PUnit} (hinv : l.Inv db)
    (hpending : Pending log locks db)
    (hsale : ∃ row, .insertSale row ∈ log ∧ row.id = saleId ∧ row.branchId = ctx.branchId)
    (hok : ∀ db' needs, Later l locks db db' →
      Pending (log ++ movementLog ctx saleId lines) (locks ++ needs) db' →
        ok () commits (log ++ movementLog ctx saleId lines) (locks ++ needs) db')
    (herr : ∀ e log' locks' db', Later l locks db db' → e.Expected → err e commits log' locks' db')
    : Call.wp l (lines.forM (createSaleMovement ctx saleId)) ok err commits log locks db := by
  apply wp_inserts (f := createSaleMovement ctx saleId)
    (g := fun l => .insertMovement (saleMovement ctx.branchId saleId l)) hl hmid hinv hpending
  . intro line _ done locks' db' ok' _ hpending' hok' herr'
    unfold createSaleMovement
    rw [Call.wp_bind]
    apply PosCall.wp_police hl hmid (.terminal ctx)
    . intro db1 hlater1
      have hfits
          : ∀ db', (Write.insertMovement (saleMovement ctx.branchId saleId line)).Fits
              (log ++ done.map fun l => .insertMovement (saleMovement ctx.branchId saleId l)) db' := by
        intro _
        obtain ⟨row, hrow, hid, hbranch⟩ := hsale
        refine ⟨?_, by simp [saleMovement, MovementType.isReversal]⟩
        intro _
        exact ⟨row, by simp [hrow], hid, hbranch, rfl⟩
      apply wp_insert hl hmid (hlater1.pending hpending') (.inr (.inr (.inr ⟨_, rfl⟩)))
        fun _ _ => hfits _
      . intro db2 needs hlater2 hpending2
        have hlog
            : log ++ done.map (fun l => .insertMovement (saleMovement ctx.branchId saleId l))
                  ++ [.insertMovement (saleMovement ctx.branchId saleId line)]
                =
              log ++ (done ++ [line]).map
                fun l => .insertMovement (saleMovement ctx.branchId saleId l) := by
          simp
        rw [hlog] at hpending2 ⊢
        exact hok' db2 needs (hlater1.trans hlater2) hpending2
      . intro e log' locks'' db2 hlater2 he
        exact herr' e _ _ db2 (hlater1.trans hlater2) he
    . intro message db1 hlater1
      exact herr' _ _ _ db1 hlater1 (expected_tenantScope message)
  . exact hok
  . exact herr

theorem terminal?_replay (hlog : ∀ w ∈ log, ∀ id n, w ≠ .setReceiptSeq id n) (db : Database)
    (id : Uuid) : (replay log db).terminal? id = db.terminal? id := by
  apply replay_induction (P := fun db' : Database => db'.terminal? id = db.terminal? id) rfl
  intro w hw db' hdb'
  rw [← hdb']
  have hne := hlog w hw
  cases w with
  | setReceiptSeq id n => exact absurd rfl (hne id n)
  | _ => rfl

theorem wp_bumpReceiptSeq (hl : PosEnv l) (hmid : l.Mid commits) {receiptNo : String}
    {ok : Post Database Write Key Unit} (hpending : Pending log locks db)
    (hlog : ∀ w ∈ log, ∀ id n, w ≠ .setReceiptSeq id n)
    (hok : ∀ db' needs (receiptSeq : Option ℤ), Later l locks db db' →
      Bumped l.toEnv ctx.terminalId receiptNo receiptSeq db' →
      Pending (log ++ (receiptSeq.map (.setReceiptSeq ctx.terminalId)).toList) (locks ++ needs) db' →
        ok () commits (log ++ (receiptSeq.map (.setReceiptSeq ctx.terminalId)).toList)
          (locks ++ needs) db')
    (herr : ∀ e log' locks' db', Later l locks db db' → e.Expected → err e commits log' locks' db')
    : Call.wp l (bumpReceiptSeq ctx receiptNo) ok err commits log locks db := by
  have hsame : ∀ db', Later l locks db db' →
      (∀ term, db'.terminal? ctx.terminalId = some term → seqOf receiptNo < term.receiptSeq) →
        ok () commits log locks db' := by
    intro db' hlater hpassed
    have := hok db' [] none hlater (.kept (.now hlater.inv hpassed))
    simp only [Option.map_none, Option.toList_none, List.append_nil] at this
    exact this (hlater.pending hpending)
  unfold bumpReceiptSeq
  rw [Call.wp_bind]
  apply PosCall.wp_queryOnTx hl hmid
  intro db1 hlater1 _
  rw [terminal?_replay hlog]
  split
  . next hnone =>
    apply hsame db1 hlater1
    intro term hterm
    rw [hnone] at hterm
    cases hterm
  . next term hterm =>
    dsimp only
    split
    . next hchanged =>
      have hnext : max term.receiptSeq (seqOf receiptNo + 1) = seqOf receiptNo + 1 := by
        omega
      rw [hnext, Call.wp_bind]
      apply Call.wp_ofExcept
      . intro n hn
        have hvalue : n = seqOf receiptNo + 1 := by
          have heq := intColumn_eq_ok hn
          rw [JsNumber.fin.injEq] at heq
          exact_mod_cast heq.symm
        rw [hvalue]
        have hfits
            : ∀ db', (Write.setReceiptSeq ctx.terminalId (seqOf receiptNo + 1)).Fits log db' :=
          fun _ => trivial
        have hread : ∀ term', db1.terminal? ctx.terminalId = some term' →
            term'.receiptSeq ≤ seqOf receiptNo := by
          intro term' hterm'
          rw [hterm] at hterm'
          cases hterm'
          omega
        apply PosCall.wp_executeAt hl hmid (hlater1.pending hpending) fun _ _ => hfits _
        . intro db2 hrely2 hlater2 _ _ hpending2
          have hbumped : Bumped l.toEnv ctx.terminalId receiptNo (some (seqOf receiptNo + 1)) db2 :=
            .set hread (.single ⟨_, locks, rfl, hrely2⟩)
          exact hok db2 _ (some _) (hlater1.trans hlater2) hbumped hpending2
        . intro db2 e hlater2 hviolation
          apply herr e _ _ db2 (hlater1.trans hlater2)
          simp only [Write.violation] at hviolation
          split at hviolation
          . cases hviolation
            simp [ApiError.Expected]
          . split at hviolation
            . cases hviolation
              simp [ApiError.Expected]
            . cases hviolation
      . intro e he
        rw [intColumn_error he]
        apply herr _ _ _ db1 hlater1
        simp [ApiError.Expected]
    . next hsameSeq =>
      apply hsame db1 hlater1
      intro term' hterm'
      rw [hterm] at hterm'
      cases hterm'
      omega

/-- The live rows of a branch with stock of these products. -/
def stockRows (branchId : Uuid) (productIds : List Uuid) (db : Database) : List BranchStock :=
  db.branchStock.filter fun r =>
    r.branchId = branchId && r.deletedAt.isNone && r.productId ∈ productIds

theorem stock?_of_mem_stockRows (hdb : db.Valid) {branchId : Uuid} {productIds : List Uuid}
    {r : BranchStock} (h : r ∈ stockRows branchId productIds db)
    : db.stock? r.id = some r ∧ r.branchId = branchId ∧ r.deletedAt = none := by
  unfold stockRows at h
  simp only [List.mem_filter, Bool.and_eq_true, decide_eq_true_eq, Option.isNone_iff_eq_none] at h
  refine ⟨?_, h.2.1.1, h.2.1.2⟩
  apply Table.get_of_mem hdb.stock_ids_nodup h.1

theorem wp_lockStock (hl : PosEnv l) (hmid : l.Mid commits) {branchId : Uuid}
    {productIds : List Uuid} {ok : Post Database Write Key (List BranchStock)} (hinv : l.Inv db)
    (hok : ∀ db' needs, Later l locks db db' →
      (∀ r ∈ stockRows branchId productIds db', .branchStock r.id ∈ locks ++ needs) →
        ok (stockRows branchId productIds db') commits [] (locks ++ needs) db')
    : Call.wp l (lockStock branchId productIds) ok err commits [] locks db := by
  unfold lockStock
  dsimp only
  split
  . next hnil =>
    have hrows : stockRows branchId productIds db = [] := by
      simp [stockRows, hnil]
    have h := hok db [] (.refl hl hinv locks)
    rw [hrows, List.append_nil] at h
    apply h
    intro r hr
    cases hr
  . apply PosCall.wp_selectForUpdate hl hmid
    intro db' hlater
    apply hok db' _ hlater
    intro r hr
    rw [List.mem_append, List.mem_map]
    exact .inr ⟨r, hr, rfl⟩

theorem wp_post [Rounding] (hl : PosEnv l) (hmid : l.Mid commits) {dto : SaleDraftDto}
    {totals : CartTotals} {costByLine : List (Uuid × Option ℤ)} {now : DateTime}
    {rows : List BranchStock} {ok : Post Database Write Key CompletedSale} (hinv : l.Inv db)
    (hpending : Pending [] locks db) (hlocks : ∀ r ∈ rows, .branchStock r.id ∈ locks)
    (hrows : ∀ r ∈ rows, db.stock? r.id = some r)
    (hok : ∀ db' needs (p : Posting), Later l locks db db' → p.rows = rows →
      buildSaleData dto totals costByLine ctx.branchId ctx.terminalId now = .ok p.data →
      detectConflicts (availableMilli rows) [] dto.lines = [] →
      Bumped l.toEnv ctx.terminalId dto.receiptNo p.receiptSeq db' →
      Pending (p.log ctx dto) (locks ++ needs) db' →
        ok (assemble p.data.sale) commits (p.log ctx dto) (locks ++ needs) db')
    (hconflict : detectConflicts (availableMilli rows) [] dto.lines ≠ [] →
      err (.stockConflict (detectConflicts (availableMilli rows) [] dto.lines)) commits [] locks db)
    (herr : ∀ e log' locks' db', Later l locks db db' → e.Expected → err e commits log' locks' db')
    : Call.wp l (post ctx dto totals costByLine now rows) ok err commits [] locks db := by
  unfold post
  dsimp only
  split
  . next hne =>
    rw [Call.wp_bind]
    exact hconflict hne
  . next hnil =>
    have hpass := not_not.mp hnil
    rw [Call.wp_bind]
    apply wp_decrementLevels hl hmid hinv hpending hlocks hrows hpass
    . intro db1 needs1 hlater1 hpending1
      rw [Call.wp_bind]
      apply wp_createSale hl hmid hpending1
      . intro db2 needs2 data hlater2 hdata hpending2
        have hbuild := buildSaleData_ok hdata
        have hsale : ∃ row, .insertSale row ∈ stockLog rows (wantedMilli dto.lines) ++ saleLog data
            ∧ row.id = data.sale.id ∧ row.branchId = ctx.branchId :=
          ⟨data.sale, by simp [saleLog], rfl, hbuild.branchId⟩
        rw [Call.wp_bind]
        apply wp_createSaleMovements hl hmid hlater2.inv hpending2 hsale
        . intro db3 needs3 hlater3 hpending3
          rw [Call.wp_bind]
          apply wp_bumpReceiptSeq hl hmid hpending3
          . intro w hw id n heq
            rw [heq] at hw
            simp [stockLog, saleLog, movementLog] at hw
          . intro db4 needs4 receiptSeq hlater4 hbumped hpending4
            rw [Call.wp_pure]
            have h := hok db4 (needs1 ++ (needs2 ++ (needs3 ++ needs4))) ⟨rows, data, receiptSeq⟩
              (hlater1.trans (hlater2.trans (hlater3.trans hlater4))) rfl hdata hpass hbumped
            simp only [Posting.log, List.append_assoc] at h
            simp only [hbuild.id, List.append_assoc] at hpending4 ⊢
            exact h hpending4
          . intro e log' locks' db4 hlater4 he
            exact herr e _ _ db4 (hlater1.trans (hlater2.trans (hlater3.trans hlater4))) he
        . intro e log' locks' db3 hlater3 he
          exact herr e _ _ db3 (hlater1.trans (hlater2.trans hlater3)) he
      . intro e log' locks' db2 hlater2 he
        exact herr e _ _ db2 (hlater1.trans hlater2) he
    . exact herr

end Wp

end SentryPos
