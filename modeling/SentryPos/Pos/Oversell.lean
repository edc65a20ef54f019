import SentryPos.Pos.Ledger

/-!
This module contains the proof that stock is not oversold: the conflict pass decides by the levels
under their locks, and no commit of any request leaves a negative quantity.
-/

namespace SentryPos

open ReadCommitted

variable {ctx : TerminalContext} {dto : SaleDraftDto} {db : Database}

theorem Database.Valid.qty_nonneg (h : db.Valid) {r : BranchStock} (hr : r ∈ db.branchStock)
    : 0 ≤ r.qty := by
  have hrow := h.stock r.id
  unfold Database.stock? at hrow
  rw [Table.get_of_mem h.stock_ids_nodup hr] at hrow
  exact hrow

theorem Database.Valid.level_nonneg (h : db.Valid) (key : StockKey) : 0 ≤ db.level key := by
  apply List.sum_nonneg
  intro q hq
  simp only [List.mem_map, List.mem_filter] at hq
  obtain ⟨r, hr, rfl⟩ := hq
  exact h.qty_nonneg hr.1

theorem availableMilli_stockRows (h : db.Valid) (branchId : Uuid) {productIds : List Uuid}
    {k : LevelKey} (hk : k.1 ∈ productIds)
    : availableMilli (stockRows branchId productIds db) k = db.level (k.inBranch branchId) := by
  have hmem
      : ∀ r, (r ∈ stockRows branchId productIds db ∧ (r.productId, r.variantId) = k)
          ↔ r ∈ db.branchStock.filter
              fun r => r.toStockKey = k.inBranch branchId && r.deletedAt.isNone := by
    intro r
    have hkey
        : r.toStockKey = k.inBranch branchId
            ↔ r.branchId = branchId ∧ (r.productId, r.variantId) = k := by
      rw [eq_comm, inBranch_eq_iff, eq_comm (a := k)]
    simp only [stockRows, List.mem_filter, Bool.and_eq_true, decide_eq_true_eq, hkey]
    constructor
    . rintro ⟨⟨hr, ⟨hbranch, hlive⟩, _⟩, heq⟩
      exact ⟨hr, ⟨hbranch, heq⟩, hlive⟩
    . rintro ⟨hr, ⟨hbranch, heq⟩, hlive⟩
      refine ⟨⟨hr, ⟨hbranch, hlive⟩, ?_⟩, heq⟩
      rw [← heq] at hk
      exact hk
  have hlength := h.level_rows (k.inBranch branchId)
  unfold availableMilli Database.level
  cases hrow : lockedRow (stockRows branchId productIds db) k with
  | none =>
    unfold lockedRow at hrow
    simp only [List.find?_eq_none, List.mem_reverse, decide_eq_true_eq] at hrow
    have hnil : (db.branchStock.filter
        fun r => r.toStockKey = k.inBranch branchId && r.deletedAt.isNone) = [] := by
      rw [List.eq_nil_iff_forall_not_mem]
      intro r hr
      have hboth := (hmem r).mpr hr
      exact hrow r hboth.1 hboth.2
    rw [hnil]
    rfl
  | some r =>
    have hr := (hmem r).mp (lockedRow_mem hrow)
    obtain ⟨r', hr'⟩ := List.length_eq_one_iff.mp
      (Nat.le_antisymm hlength (List.length_pos_of_mem hr))
    rw [hr', List.mem_singleton] at hr
    rw [hr', hr]
    simp

theorem conflicts_iff (h : db.Valid) (ctx : TerminalContext) (dto : SaleDraftDto)
    : detectConflicts (availableMilli (stockRows ctx.branchId (trackedProductIds dto) db)) []
          dto.lines ≠ []
        ↔
      ∃ k : LevelKey, db.level (k.inBranch ctx.branchId) < takes dto.lines k := by
  have havailable
      : ∀ k ∈ (trackedLines dto.lines).map (·.1),
          availableMilli (stockRows ctx.branchId (trackedProductIds dto) db) k
            =
          db.level (k.inBranch ctx.branchId) := by
    intro k hk
    apply availableMilli_stockRows h
    obtain ⟨l, hl, hlk⟩ := List.mem_map.mp hk
    unfold trackedProductIds
    rw [List.mem_dedup, List.mem_map]
    exact ⟨l, hl, by rw [hlk]⟩
  rw [Ne, detectConflicts_eq_nil]
  constructor
  . intro hconflict
    push Not at hconflict
    obtain ⟨k, hk, hlt⟩ := hconflict
    rw [havailable k hk] at hlt
    exact ⟨k, hlt⟩
  . rintro ⟨k, hlt⟩ hall
    have hpos := h.level_nonneg (k.inBranch ctx.branchId)
    have hk : k ∈ (trackedLines dto.lines).map (·.1) := by
      by_contra hk
      have hzero : takes dto.lines k = 0 := takes_eq_zero hk
      omega
    have hle := hall k hk
    rw [havailable k hk] at hle
    omega

/-- A request that runs alone and has nothing to show for its commits. -/
def trivialLogic : Logic Database Write Key Stmt where
  toEnv := Env.sequential
  Guar _ _ _ := True
  Mid _ := True

theorem post_rejects_iff (h : db.Valid) (ctx : TerminalContext) (dto : SaleDraftDto)
    (totals : CartTotals) (costByLine : List (Uuid × Option ℤ)) (now : DateTime)
    : (∃ conflicts,
          post ctx dto totals costByLine now (stockRows ctx.branchId (trackedProductIds dto) db)
            =
          throw (.stockConflict conflicts))
        ↔
      ∃ k : LevelKey, db.level (k.inBranch ctx.branchId) < takes dto.lines k := by
  rw [← conflicts_iff h]
  constructor
  . rintro ⟨conflicts, hpost⟩ hnil
    have hwp : Call.wp trivialLogic
        (post ctx dto totals costByLine now (stockRows ctx.branchId (trackedProductIds dto) db))
        (fun _ _ _ _ _ => True) (fun e _ _ _ _ => e.Expected) []
        [] ((stockRows ctx.branchId (trackedProductIds dto) db).map (.branchStock ·.id)) db := by
      apply wp_post (l := trivialLogic) Env.sequential_pos trivial h (.nil h _)
      . intro r hr
        exact List.mem_map_of_mem hr
      . intro r hr
        exact (stock?_of_mem_stockRows h hr).1
      . simp
      . intro hne
        exact absurd hnil hne
      . intro e _ _ _ _ he
        exact he
    rw [hpost, Call.wp_throw] at hwp
    exact hwp.1 conflicts rfl
  . intro hne
    refine ⟨detectConflicts
      (availableMilli (stockRows ctx.branchId (trackedProductIds dto) db)) [] dto.lines, ?_⟩
    unfold post
    dsimp only
    rw [if_pos hne]
    rfl

theorem Posted.takes_le {totals : CartTotals} {costByLine : List (Uuid × Option ℤ)}
    {now : DateTime} {p : Posting} {db' : Database}
    (h : Posted ctx dto totals costByLine now p db db') (k : LevelKey)
    : takes dto.lines k ≤ db.level (k.inBranch ctx.branchId)
        ∧ db'.level (k.inBranch ctx.branchId)
            = db.level (k.inBranch ctx.branchId) - takes dto.lines k := by
  have hlevel := h.level (k.inBranch ctx.branchId)
  rw [taken_inBranch] at hlevel
  have hnonneg := h.valid'.level_nonneg (k.inBranch ctx.branchId)
  exact ⟨by omega, hlevel⟩

section Run

variable {ι : Type} [DecidableEq ι] {reqs : ι → Request} {c : System ι}

theorem databases_valid (hdb : db.Valid)
    (hrun : Run (.error .aborted) (System.start db reqs) c) : ∀ d ∈ c.databases db, d.Valid := by
  have hok := (keeps_databases reqs db c).ok hdb (by simp [Config.databases]) hrun.within
  intro d hd
  cases List.mem_cons.mp hd with
  | inl hd =>
    rw [hd]
    exact hdb
  | inr hd =>
    obtain ⟨e, he, hafter⟩ := List.mem_map.mp hd
    obtain ⟨log, _, hpending, _, hlog⟩ := (hok.events e he).commit
    rw [← hafter, hlog]
    exact hpending.valid

/--
In every run of any requests no committed quantity is negative; the conflict pass on the levels
under their locks rejects a sale iff it asks for more than one of them; a sale that is posted takes
what is there, and no sale ends for lack of a stock row or with a violated check.
-/
theorem no_oversell (reqs : ι → Request) (hdb : db.Valid)
    (hrun : Run (.error .aborted) (System.start db reqs) c)
    : (∀ d ∈ c.databases db, ∀ r ∈ d.branchStock, 0 ≤ r.qty)
        ∧ (∀ d ∈ c.databases db, ∀ ctx dto totals costByLine now,
            (∃ conflicts,
                post ctx dto totals costByLine now
                    (stockRows ctx.branchId (trackedProductIds dto) d)
                  =
                throw (.stockConflict conflicts))
              ↔
            ∃ k : LevelKey, d.level (k.inBranch ctx.branchId) < takes dto.lines k)
        ∧ (∀ i ctx dto now, reqs i = .completeSale ctx dto now →
            (∀ conflicts, (c.procs i).prog.result? = some (.error (.stockConflict conflicts)) →
              ∃ d ∈ c.databases db,
                conflicts = detectConflicts
                    (availableMilli (stockRows ctx.branchId (trackedProductIds dto) d)) [] dto.lines
                  ∧ ∃ k : LevelKey, d.level (k.inBranch ctx.branchId) < takes dto.lines k)
              ∧ (∀ e, (c.procs i).prog.result? = some (.error e) →
                  e ≠ .checkViolation
                    ∧ e ≠ .validationFailed "Stock level not found for a tracked line.")
              ∧ (∀ e ∈ c.history, e.client = i → e.after ≠ e.before → ∀ k : LevelKey,
                  takes dto.lines k ≤ e.before.level (k.inBranch ctx.branchId)
                    ∧ e.after.level (k.inBranch ctx.branchId)
                        = e.before.level (k.inBranch ctx.branchId) - takes dto.lines k)) := by
  have hkeeps := keeps_databases reqs db c
  have hstart : db ∈ c.databases db := by simp [Config.databases]
  have hvalid := databases_valid hdb hrun
  refine ⟨?_, ?_, ?_⟩
  . intro d hd r hr
    exact (hvalid d hd).qty_nonneg hr
  . intro d hd ctx dto totals costByLine now
    exact post_rejects_iff (hvalid d hd) ctx dto totals costByLine now
  . intro i ctx dto now hreq
    have hfailed : ∀ e, (c.procs i).prog.result? = some (.error e) →
        e = .aborted ∨ SaleError (Env.ofRun (· ∈ c.databases db) (fun _ _ _ => True)
          fun _ _ _ => True) ctx dto e c.db := by
      intro e he
      have hpost := (hkeeps.returned hdb hstart hrun.within he).outcome
      rw [hreq] at hpost
      exact hpost
    refine ⟨?_, ?_, ?_⟩
    . intro conflicts he
      cases hfailed _ he with
      | inl h => cases h
      | inr h =>
        cases h with
        | expected h => exact absurd rfl (h.1 conflicts)
        | conflict hne hseen =>
          obtain ⟨d, hd, hconflicts, _⟩ := hseen
          refine ⟨d, hd.2, hconflicts, ?_⟩
          rw [hconflicts] at hne
          exact (conflicts_iff hd.1 ctx dto).mp hne
    . intro e he
      cases hfailed e he with
      | inl h =>
        rw [h]
        simp
      | inr h =>
        cases h with
        | expected h => exact h.2
        | conflict => simp
    . intro e he hclient hchanged k
      have hevent := (hkeeps.ok hdb hstart hrun.within).events e he
      rw [hclient, hreq] at hevent
      obtain ⟨log, _, _, hcommit, hafter⟩ := hevent.commit
      cases hcommit with
      | found => exact absurd hafter hchanged
      | posted _ hposted =>
        rw [← hafter] at hposted
        exact hposted.takes_le k

end Run

namespace Cafe

/-- Three sales of two cups each, from a stock of five. -/
def rush : System (Fin 3) :=
  System.start database fun i =>
    .completeSale terminal
      (match i with
        | 0 => sale
        | 1 => draft 8 "T1-000002" (by decide)
        | 2 => draft 9 "T1-000003" (by decide))
      100

/-- All three check their drafts before the first is posted. -/
def rushSchedule : List (Fin 3) :=
  inRounds 2 [[4, 4, 4], [13, 13, 3]]

def conflictsOf (r : Option (Except ApiError Response)) : List StockConflict :=
  match r with
  | some (.error (.stockConflict conflicts)) => conflicts
  | _ => []

theorem result_of_conflictsOf {r : Option (Except ApiError Response)}
    (h : conflictsOf r ≠ []) : r = some (.error (.stockConflict (conflictsOf r))) := by
  unfold conflictsOf at h ⊢
  split at h
  . rfl
  . exact absurd rfl h

theorem rush_conflicts
    : (rush.turns rushSchedule).map (fun c => conflictsOf (c.procs 2).prog.result?)
        =
      some [⟨1, 50, none, milliToQty 1000⟩] := by
  decide +kernel

end Cafe

theorem no_oversell_cafe
    : ∃ c, Cafe.rush.turns Cafe.rushSchedule = some c
        ∧ (∀ d ∈ c.databases Cafe.database, ∀ r ∈ d.branchStock, 0 ≤ r.qty)
        ∧ ∃ d ∈ c.databases Cafe.database, ∃ k : LevelKey,
            d.level (k.inBranch 20) < takes [Cafe.line] k := by
  have hconflicts := Cafe.rush_conflicts
  rw [Option.map_eq_some_iff] at hconflicts
  obtain ⟨c, hturns, hconflicts⟩ := hconflicts
  have hrun : Run (.error .aborted) Cafe.rush c := Config.run_of_turns _ _ hturns
  obtain ⟨hnonneg, _, hsales⟩ := no_oversell _ Cafe.database_valid hrun
  have hresult := Cafe.result_of_conflictsOf (r := (c.procs 2).prog.result?) (by simp [hconflicts])
  obtain ⟨d, hd, _, hshort⟩ := (hsales 2 _ _ _ rfl).1 _ hresult
  exact ⟨c, hturns, hnonneg, d, hd, hshort⟩

end SentryPos
