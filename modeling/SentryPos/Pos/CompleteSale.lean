import SentryPos.Pos.Posting

/-!
This module contains the specification of `completeSale`: what a call that returns has seen and
committed, and what a call that throws leaves behind.
-/

namespace SentryPos

open ReadCommitted

variable {ctx : TerminalContext} {dto : SaleDraftDto} {totals : CartTotals}
  {costByLine : List (Uuid × Option ℤ)} {now : DateTime} {db db' : Database}

/-- What `completeSale` has checked before its transaction, each in a state it has seen. -/
structure Accepted [Rounding] (l : Env Database Write Key Stmt) (ctx : TerminalContext) (dto : SaleDraftDto)
    (totals : CartTotals) (costByLine : List (Uuid × Option ℤ)) (db : Database) : Prop where
  shift : l.Seen (fun db0 => ∃ s, findOpenShift ctx db0 = some s ∧ s.id = dto.shiftId) db
  business : l.Seen
    (fun db0 => ∃ b, findBusiness ctx db0 = some b ∧ totals = computeTotals dto.cart b.rates) db
  costs : l.Seen (fun db0 => costsOfLines ctx dto.lines db0 = .ok costByLine) db
  discounts : l.Seen (fun db0 => ownsDiscounts ctx dto db0) db
  canonical : canonical totals.toJson = SentryPos.canonical dto.totals
  payment : assertPayment dto.payment totals.totalC = .ok ()

theorem Accepted.past [Rounding] {l : Env Database Write Key Stmt}
    (h : Accepted l ctx dto totals costByLine db) (hpast : l.Past db db')
    : Accepted l ctx dto totals costByLine db' where
  shift := h.shift.past hpast
  business := h.business.past hpast
  costs := h.costs.past hpast
  discounts := h.discounts.past hpast
  canonical := h.canonical
  payment := h.payment

/-- The products whose stock rows `persist` locks. -/
def trackedProductIds (dto : SaleDraftDto) : List Uuid :=
  ((trackedLines dto.lines).map (·.1.1)).dedup

/--
What a call that returns has done: it has found the sale on the scoped client, or on its
transaction without scope, or it has posted it.
-/
inductive SaleResult [Rounding] (l : Env Database Write Key Stmt) (ctx : TerminalContext) (dto : SaleDraftDto)
    (now : DateTime) : SaleResponse → List (Database × Database) → Database → Prop where
  | existing {db : Database} (s : Sale) (hfind : l.Seen (findSale ctx dto.id · = some s) db)
      : SaleResult l ctx dto now { replayed := true, sale := assemble s } [] db
  | concurrent {db before : Database} (s : Sale)
      (hrecheck : l.Seen
        (fun db0 => db0.sale? dto.id = some s ∧ l.Assume .recheckSale [] db0) before)
      (hseen : l.Seen (· = before) db)
      : SaleResult l ctx dto now { replayed := false, sale := assemble s } [(before, before)] db
  | posted {db before after : Database} {totals : CartTotals}
      {costByLine : List (Uuid × Option ℤ)} {p : Posting}
      (haccepted : Accepted l ctx dto totals costByLine before)
      (hposted : Posted ctx dto totals costByLine now p before after)
      (hpast : l.Past after db)
      : SaleResult l ctx dto now { replayed := false, sale := assemble p.data.sale }
          [(before, after)] db

inductive SaleError (l : Env Database Write Key Stmt) (ctx : TerminalContext) (dto : SaleDraftDto)
    : ApiError → Database → Prop where
  | expected {e : ApiError} {db : Database} (h : e.Expected) : SaleError l ctx dto e db
  | conflict {db : Database} {conflicts : List StockConflict} (hne : conflicts ≠ [])
      (h : l.Seen (fun db0 => conflicts = detectConflicts
        (availableMilli (stockRows ctx.branchId (trackedProductIds dto) db0)) [] dto.lines) db)
      : SaleError l ctx dto (.stockConflict conflicts) db

theorem SaleResult.past [Rounding] {l : Env Database Write Key Stmt} {r : SaleResponse} {commits : List (Database × Database)}
    (h : SaleResult l ctx dto now r commits db) (hpast : l.Past db db')
    : SaleResult l ctx dto now r commits db' := by
  cases h with
  | existing s hfind => exact .existing s (hfind.past hpast)
  | concurrent s hrecheck hseen => exact .concurrent s hrecheck (hseen.past hpast)
  | posted haccepted hposted hpast' => exact .posted haccepted hposted (hpast'.trans hpast)

theorem SaleError.past {l : Env Database Write Key Stmt} {e : ApiError}
    (h : SaleError l ctx dto e db) (hpast : l.Past db db')
    : SaleError l ctx dto e db' := by
  cases h with
  | expected h => exact .expected h
  | conflict hne h => exact .conflict hne (h.past hpast)

section Wp

variable {l : Logic Database Write Key Stmt} {R : Type} {ok : Post Database Write Key R}
  {err : Post Database Write Key ApiError} {commits : List (Database × Database)}
  {log : List Write} {locks : List Key}

theorem toString_string (s : String) : toString s = s := rfl

theorem expected_validationFailed {message : String}
    (h : message.toList.head? ≠ some 'S') : (ApiError.validationFailed message).Expected := by
  refine ⟨by simp, by simp, ?_⟩
  intro heq
  simp only [ApiError.validationFailed.injEq] at heq
  rw [heq] at h
  simp at h

theorem costsOfLines_error {e : ApiError} (h : costsOfLines ctx dto.lines db = .error e)
    : e.Expected := by
  have hline : ∀ products line, validateLine products line = .error e → e.Expected := by
    intro products line hline
    unfold validateLine at hline
    split at hline
    . cases hline
    . split at hline
      . cases hline
        apply expected_validationFailed
        simp [toString_string]
      . split at hline
        . split at hline
          . cases hline
            apply expected_validationFailed
            simp [toString_string]
          . cases hline
        . split at hline
          . cases hline
            apply expected_validationFailed
            simp [toString_string]
          . cases hline
  unfold costsOfLines at h
  rw [Checks.bind_eq_error] at h
  cases h with
  | inl h =>
    obtain ⟨line, _, hl⟩ := Checks.mapM_eq_error h
    exact hline _ line hl
  | inr h =>
    obtain ⟨_, _, h⟩ := h
    cases h

theorem wp_validateLines (hl : PosEnv l) (hmid : l.Mid commits)
    {ok : Post Database Write Key (List (Uuid × Option ℤ))} (hinv : l.Inv db)
    (hok : ∀ db' costByLine, Later l locks db db' → costsOfLines ctx dto.lines db' = .ok costByLine →
      ok costByLine commits log locks db')
    (herr : ∀ e db', Later l locks db db' → e.Expected → err e commits log locks db')
    : Call.wp l (validateLines ctx dto.lines) ok err commits log locks db := by
  unfold validateLines
  split
  . next hnil =>
    apply hok db [] (.refl hl hinv locks)
    have hline : ∀ products, ∀ line ∈ dto.lines, validateLine products line = .ok [] := by
      intro products line hline
      cases hid : line.productId with
      | none =>
        unfold validateLine
        rw [hid]
      | some id =>
        have hmem : id ∈ productIds dto.lines := by
          unfold productIds
          rw [List.mem_dedup, List.mem_filterMap]
          exact ⟨line, hline, hid⟩
        rw [hnil] at hmem
        cases hmem
    unfold costsOfLines
    dsimp only
    rw [Checks.mapM_ok (hline _)]
    simp [bind, Except.bind, pure, Except.pure]
  . apply PosCall.wp_check hl hmid
    . intro db' costByLine hlater _ hcosts
      exact hok db' costByLine hlater hcosts
    . intro db' e hlater hcosts
      exact herr e db' hlater (costsOfLines_error hcosts)

theorem wp_validateDiscounts (hl : PosEnv l) (hmid : l.Mid commits)
    {ok : Post Database Write Key Unit} (hinv : l.Inv db)
    (hok : ∀ db', Later l locks db db' → ownsDiscounts ctx dto db' → ok () commits log locks db')
    (herr : ∀ e db', Later l locks db db' → e.Expected → err e commits log locks db')
    : Call.wp l (validateDiscounts ctx dto) ok err commits log locks db := by
  unfold validateDiscounts
  split
  . next hnil =>
    apply hok db (.refl hl hinv locks)
    simp [ownsDiscounts, hnil]
  . split
    . apply herr _ db (.refl hl hinv locks)
      apply expected_validationFailed
      simp
    . apply PosCall.wp_check hl hmid
      . intro db' _ hlater _ hcheck
        split at hcheck
        . next howns => exact hok db' hlater howns
        . cases hcheck
      . intro db' e hlater hcheck
        split at hcheck
        . cases hcheck
        . cases hcheck
          apply herr _ db' hlater
          apply expected_validationFailed
          simp

theorem assertPayment_error [Rounding] {payment : SalePaymentDto} {totalC : JsNumber} {e : ApiError}
    (h : assertPayment payment totalC = .error e) : e.Expected := by
  unfold assertPayment at h
  split at h
  . cases h
    apply expected_validationFailed
    simp
  . split at h
    . split at h
      . cases h
        apply expected_validationFailed
        simp
      . split at h
        . cases h
          apply expected_validationFailed
          simp
        . cases h
    . cases h

theorem wp_checkDraft [Rounding] (hl : PosEnv l) (hmid : l.Mid commits)
    {ok : Post Database Write Key (CartTotals × List (Uuid × Option ℤ))}
    (hok : ∀ db' totals costByLine, Later l locks db db' →
      Accepted l ctx dto totals costByLine db' → ok (totals, costByLine) commits log locks db')
    (herr : ∀ e db', Later l locks db db' → e.Expected → err e commits log locks db')
    : Call.wp l (checkDraft ctx dto) ok err commits log locks db := by
  unfold checkDraft
  rw [Call.wp_bind]
  apply PosCall.wp_query hl hmid
  intro db1 hlater1 _
  dsimp only
  split
  . rw [Call.wp_bind]
    apply herr _ db1 hlater1
    apply expected_validationFailed
    simp
  . next hshift =>
    have hopen : ∃ s, findOpenShift ctx db1 = some s ∧ s.id = dto.shiftId := by
      rw [not_not, Option.map_eq_some_iff] at hshift
      exact hshift
    rw [Call.wp_bind]
    apply PosCall.wp_query hl hmid
    intro db2 hlater2 _
    split
    . apply herr _ db2 (hlater1.trans hlater2)
      simp [ApiError.Expected]
    . next business hbusiness =>
      rw [Call.wp_bind]
      apply wp_validateLines hl hmid hlater2.inv
      . intro db3 costByLine hlater3 hcosts
        rw [Call.wp_bind]
        apply wp_validateDiscounts hl hmid hlater3.inv
        . intro db4 hlater4 hdiscounts
          have hlater := hlater1.trans (hlater2.trans (hlater3.trans hlater4))
          split
          . rw [Call.wp_bind]
            apply herr _ db4 hlater
            apply expected_validationFailed
            simp
          . next hcanonical =>
            rw [Call.wp_bind]
            apply Call.wp_ofExcept
            . intro _ hpayment
              apply hok db4 _ costByLine hlater
              constructor
              . have hseen := Env.Seen.now (l := l.toEnv)
                  (P := fun db0 => ∃ s, findOpenShift ctx db0 = some s ∧ s.id = dto.shiftId)
                  hlater1.inv hopen
                exact hlater4.seen (hlater3.seen (hlater2.seen hseen))
              . have hseen := Env.Seen.now (l := l.toEnv)
                  (P := fun db0 => ∃ b, findBusiness ctx db0 = some b
                    ∧ computeTotals dto.cart business.rates = computeTotals dto.cart b.rates)
                  hlater2.inv ⟨business, hbusiness, rfl⟩
                exact hlater4.seen (hlater3.seen hseen)
              . exact hlater4.seen (.now hlater3.inv hcosts)
              . exact .now hlater4.inv hdiscounts
              . exact not_not.mp hcanonical
              . exact hpayment
            . intro e hpayment
              exact herr e db4 hlater (assertPayment_error hpayment)
        . intro e db4 hlater4 he
          exact herr e db4 (hlater1.trans (hlater2.trans (hlater3.trans hlater4))) he
      . intro e db3 hlater3 he
        exact herr e db3 (hlater1.trans (hlater2.trans hlater3)) he

structure Posting.Ready [Rounding] (p : Posting) (ctx : TerminalContext) (dto : SaleDraftDto)
    (totals : CartTotals) (costByLine : List (Uuid × Option ℤ)) (now : DateTime)
    (locks : List Key) (db : Database) : Prop where
  data : buildSaleData dto totals costByLine ctx.branchId ctx.terminalId now = .ok p.data
  rows : ∀ r ∈ p.rows, r.branchId = ctx.branchId ∧ r.deletedAt = none
  pass : detectConflicts (availableMilli p.rows) [] dto.lines = []
  locked : ∀ r ∈ p.rows, .branchStock r.id ∈ locks
  stock : ∀ r ∈ p.rows, db.stock? r.id = some r
  pending : Pending (p.log ctx dto) locks db

namespace Posting.Ready

variable {p : Posting}

theorem later [Rounding] (h : p.Ready ctx dto totals costByLine now locks db) (hlater : Later l locks db db')
    : p.Ready ctx dto totals costByLine now locks db' where
  data := h.data
  rows := h.rows
  pass := h.pass
  locked := h.locked
  stock := by
    intro r hr
    rw [← h.stock r hr]
    exact hlater.rely.kept _ (h.locked r hr)
  pending := hlater.pending h.pending

theorem posted [Rounding] (h : p.Ready ctx dto totals costByLine now locks db) (hdb : db.Valid)
    : Posted ctx dto totals costByLine now p db (replay (p.log ctx dto) db) where
  data := h.data
  rows := by
    intro r hr
    exact ⟨h.stock r hr, h.rows r hr⟩
  pass := h.pass
  after := rfl
  valid := hdb
  valid' := h.pending.valid

end Posting.Ready

theorem wp_persist [Rounding] (hl : PosEnv l) (hmid : l.Mid commits) (hinv : l.Inv db)
    {ok : Post Database Write Key CompletedSale}
    (hfound : ∀ db' locks' s, Later l locks db db' →
      l.Seen (fun db0 => db0.sale? dto.id = some s ∧ l.Assume .recheckSale [] db0) db' →
        ok (assemble s) commits [] locks' db')
    (hready : ∀ db' locks' p, Later l locks db db' →
      Posting.Ready p ctx dto totals costByLine now locks' db' →
      Bumped l.toEnv ctx.terminalId dto.receiptNo p.receiptSeq db' →
        ok (assemble p.data.sale) commits (p.log ctx dto) locks' db')
    (herr : ∀ e log' locks' db', Later l locks db db' → SaleError l ctx dto e db' →
      err e commits log' locks' db')
    : Call.wp l (persist ctx dto totals costByLine now) ok err commits [] locks db := by
  unfold persist
  rw [Call.wp_bind]
  apply wp_lockStock hl hmid hinv
  intro db1 needs hlater1 hlocked
  rw [Call.wp_bind]
  apply PosCall.wp_queryOnTx hl hmid
  intro db2 hlater2 hassume
  have hlater := hlater1.trans hlater2
  split
  . next s hs =>
    apply hfound db2 _ s hlater
    exact .now hlater2.inv ⟨hs, hassume⟩
  . have hrows : ∀ r ∈ stockRows ctx.branchId (trackedProductIds dto) db1,
        db2.stock? r.id = some r := by
      intro r hr
      rw [← (stock?_of_mem_stockRows hlater1.valid hr).1]
      exact hlater2.rely.kept _ (hlocked r hr)
    apply wp_post hl hmid hlater2.inv (.nil hlater2.valid _) hlocked hrows
    . intro db3 needs3 p hlater3 hp hdata hpass hbumped hpending
      apply hready db3 _ p (hlater.trans hlater3) _ hbumped
      constructor
      . exact hdata
      . intro r hr
        rw [hp] at hr
        exact (stock?_of_mem_stockRows hlater1.valid hr).2
      . rw [hp]
        exact hpass
      . intro r hr
        rw [hp] at hr
        exact List.mem_append_left needs3 (hlocked r hr)
      . intro r hr
        rw [hp] at hr
        rw [← hrows r hr]
        exact hlater3.rely.kept _ (hlocked r hr)
      . exact hpending
    . intro hne
      apply herr _ _ _ db2 hlater
      apply SaleError.conflict hne
      exact hlater2.seen (.now hlater1.inv rfl)
    . intro e log' locks' db3 hlater3 he
      exact herr e _ _ db3 (hlater.trans hlater3) (.expected he)

theorem wp_recoverSale [Rounding] (hl : PosEnv l) (hmid : l.Mid [])
    {ok : Post Database Write Key SaleResponse}
    (hok : ∀ db' r, Later l locks db db' → SaleResult l ctx dto now r [] db' → ok r [] log locks db')
    (herr : ∀ e db', Later l locks db db' → SaleError l ctx dto e db' → err e [] log locks db')
    : Call.wp l (recoverSale ctx dto) ok err [] log locks db := by
  unfold recoverSale
  rw [Call.wp_bind]
  apply PosCall.wp_query hl hmid
  intro db1 hlater1 _
  split
  . next s hs => exact hok db1 _ hlater1 (.existing s (.now hlater1.inv hs))
  . apply herr _ db1 hlater1
    apply SaleError.expected
    apply expected_validationFailed
    simp

theorem wp_completeSale [Rounding] (hl : PosEnv l) (hmid : l.Mid [])
    (hguar : ∀ locks log db, Pending log locks db → db.Valid →
      (log = [] ∨ ∃ totals costByLine p, log = Posting.log p ctx dto
        ∧ Accepted l ctx dto totals costByLine db
        ∧ Posted ctx dto totals costByLine now p db (replay log db)
        ∧ Bumped l.toEnv ctx.terminalId dto.receiptNo p.receiptSeq db) → l.Guar locks log db)
    : Call.wp l (completeSale ctx dto now)
        (fun r commits log locks db => log = [] ∧ locks = [] ∧ SaleResult l ctx dto now r commits db)
        (fun e commits log locks db =>
          log = [] ∧ locks = [] ∧ commits = [] ∧ SaleError l ctx dto e db)
        [] [] [] db := by
  unfold completeSale
  rw [Call.wp_bind]
  apply PosCall.wp_query hl hmid
  intro db1 hlater1 _
  split
  . next s hs => exact ⟨rfl, rfl, .existing s (.now hlater1.inv hs)⟩
  . rw [Call.wp_bind]
    apply wp_checkDraft hl hmid
    . intro db2 totals costByLine hlater2 haccepted
      rw [Call.wp_tryCatch, Call.wp_bind]
      apply Call.wp_transaction
      apply wp_persist hl hmid hlater2.inv
      . intro db3 locks3 s hlater3 hseen
        refine ⟨hmid, ?_⟩
        intro db4 hrely hinv _
        have hlater4 : Later l locks3 db3 db4 := .of_rely hl hrely hinv
        refine ⟨?_, rfl, rfl, ?_⟩
        . exact hguar locks3 [] db4 (.nil hlater4.valid locks3) hlater4.valid (.inl rfl)
        . exact .concurrent s (hlater4.seen hseen) (.now hlater4.inv rfl)
      . intro db3 locks3 p hlater3 hready hbumped
        refine ⟨hmid, ?_⟩
        intro db4 hrely hinv _
        have hlater4 : Later l locks3 db3 db4 := .of_rely hl hrely hinv
        have hready4 := hready.later hlater4
        have hposted := hready4.posted hlater4.valid
        have haccepted4 := haccepted.past (hlater3.past.trans hlater4.past)
        refine ⟨?_, rfl, rfl, ?_⟩
        . apply hguar locks3 _ db4 hready4.pending hlater4.valid
          exact .inr ⟨totals, costByLine, p, rfl, haccepted4, hposted, hbumped.committing hrely⟩
        . exact .posted haccepted4 hposted .refl
      . intro e log3 locks3 db3 hlater3 he
        refine ⟨hmid, ?_⟩
        intro db4 hrely hinv
        have hlater4 : Later l locks3 db3 db4 := .of_rely hl hrely hinv
        split
        . apply wp_recoverSale hl hmid
          . intro db5 r hlater5 hr
            exact ⟨rfl, rfl, hr⟩
          . intro e db5 hlater5 he
            exact ⟨rfl, rfl, rfl, he⟩
        . exact ⟨rfl, rfl, rfl, he.past hlater4.past⟩
    . intro e db2 hlater2 he
      exact ⟨rfl, rfl, rfl, .expected he⟩

end Wp

end SentryPos
