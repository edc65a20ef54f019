import SentryPos.Platform.Effects

/-!
This module contains that the codes of the terminals of a branch are numbered without gaps and never
used again.
-/

namespace SentryPos.Platform

open ReadCommitted

theorem terminalCode_inj {m n : Nat} : terminalCode m = terminalCode n ↔ m = n := by
  constructor
  . intro h
    have hrepr : (m + 1).repr = (n + 1).repr := by simpa [terminalCode] using h
    have hdigits : Nat.toDigits 10 (m + 1) = Nat.toDigits 10 (n + 1) := by
      rw [← Nat.toList_repr, hrepr, Nat.toList_repr]
    have heq : m + 1 = n + 1 := by
      rw [← @Nat.ofDigitChars_ten_toDigits (m + 1), hdigits, Nat.ofDigitChars_ten_toDigits]
    omega
  . intro h
    rw [h]

/-- The codes of the first `n` terminals of a branch. -/
def terminalCodes (n : Nat) : List String :=
  (List.range n).map terminalCode

theorem mem_terminalCodes {m n : Nat} : terminalCode m ∈ terminalCodes n ↔ m < n := by
  simp [terminalCodes, terminalCode_inj]

theorem terminalCodes_succ (n : Nat) : terminalCodes (n + 1) = terminalCodes n ++ [terminalCode n] := by
  simp [terminalCodes, List.range_succ]

theorem nodup_terminalCodes (n : Nat) : (terminalCodes n).Nodup := by
  apply List.nodup_range.map
  intro m m' heq
  exact terminalCode_inj.mp heq

/-- The codes of a branch are those of as many terminals as were ever created for it. -/
def Database.Numbered (db : Database) (branchId : Uuid) : Prop :=
  db.codes branchId = terminalCodes (db.terminals.countP fun t => t.branchId = branchId)

theorem numbered_iff {db : Database} {branchId : Uuid}
    : db.Numbered branchId ↔ ∃ n, db.codes branchId = terminalCodes n := by
  unfold Database.Numbered
  rw [← db.length_codes branchId]
  constructor
  . intro h
    exact ⟨_, h⟩
  . intro h
    obtain ⟨n, hn⟩ := h
    rw [hn]
    simp [terminalCodes]

variable {svc : Auth.Services} {since : DateTime} {states : Database → Prop} {db db' : Database}

theorem numbered_committed {req : Request} (h : (req.contract svc since states).Committed db db')
    {branchId : Uuid} (hdb : db.Numbered branchId) : db'.Numbered branchId := by
  rw [numbered_iff] at hdb ⊢
  obtain ⟨n, hn⟩ := hdb
  cases codes_committed h branchId with
  | inl hsame => exact ⟨n, hsame.trans hn⟩
  | inr hnew =>
    obtain ⟨m, hm, hfresh, hcodes⟩ := hnew
    rw [hn] at hm hfresh hcodes
    rw [mem_terminalCodes] at hfresh
    have hlength : (terminalCodes n).length = n := by simp [terminalCodes]
    have heq : m = n := by omega
    refine ⟨n + 1, ?_⟩
    rw [hcodes, heq, terminalCodes_succ]

section Run

variable {ι : Type} [DecidableEq ι] {catalog : DemoCatalog} {reqs : ι → Request} {c : System ι}

theorem numbered_run (hdb : db.Valid) (hnumbered : ∀ branchId, db.Numbered branchId)
    (hrun : Run (.error .aborted) (System.start svc catalog db reqs) c)
    : ∀ db' ∈ c.databases db, ∀ branchId, db'.Numbered branchId := by
  have hevents := (run_kept hdb hrun).events
  have hchain := hrun.chain
  intro db' hdb' branchId
  have hfirst := hchain.of_first
    (r := fun (d d' : Database) => d.Numbered branchId → d'.Numbered branchId) (fun _ h => h) (fun _ _ _ h h' hd => h' (h hd))
    (fun e he hbefore => numbered_committed (hevents e he) hbefore)
  exact hfirst db' hdb' (hnumbered branchId)

/--
In every committed database the codes of a branch are those of all its terminals in their order, and
a pairing that succeeds returns a code that no terminal of the branch had before.
-/
theorem terminal_codes_numbered (hdb : db.Valid) (hnumbered : ∀ branchId, db.Numbered branchId)
    (hrun : Run (.error .aborted) (System.start svc catalog db reqs) c)
    : (∀ db' ∈ c.databases db, ∀ branchId, db'.Numbered branchId)
        ∧ ∀ i ownerId ownerUserId dto fresh result,
            reqs i = .pair ownerId ownerUserId dto fresh →
            (c.procs i).prog = .ret (.ok (.paired result)) →
              ∃ e ∈ c.history, e.client = i
                ∧ e.after.codes dto.branchId = e.before.codes dto.branchId ++ [result.terminalCode]
                ∧ result.terminalCode ∉ e.before.codes dto.branchId := by
  have hall := numbered_run hdb hnumbered hrun
  refine ⟨hall, ?_⟩
  intro i ownerId ownerUserId dto fresh result hreq hret
  have hpost := (run_kept hdb hrun).returned i _ hret
  simp only [hreq] at hpost
  obtain ⟨commit, hcommit, hcodes⟩ := hpost result rfl
  unfold Config.commitsOf at hcommit
  obtain ⟨e, he, heq⟩ := List.mem_map.mp hcommit
  obtain ⟨he, hclient⟩ := List.mem_filter.mp he
  subst heq
  refine ⟨e, he, by simpa using hclient, hcodes, ?_⟩
  have hafter := hall e.after (List.mem_cons_of_mem _ (List.mem_map_of_mem he)) dto.branchId
  have hnodup : (e.after.codes dto.branchId).Nodup := by
    rw [hafter]
    exact nodup_terminalCodes _
  rw [hcodes] at hnodup
  have hnew := (List.nodup_append.mp hnodup).2.2
  intro hmem
  exact hnew _ hmem _ (List.mem_singleton_self _) rfl

end Run

namespace Shop

/-- Two terminals that are paired with one branch at the same time. -/
def rush : Fin 2 → Request
  | 0 => .pair 1 2 ⟨10, 20, "Counter"⟩ ⟨"first", fun attempt => 30 + attempt⟩
  | 1 => .pair 1 2 ⟨10, 20, "Drive-through"⟩ ⟨"second", fun attempt => 40 + attempt⟩

/-- Both count before the first one inserts its terminal. -/
def rushSchedule : List (Fin 2) :=
  inRounds 1 [[4, 4], [4, 7]]

theorem rush_paired
    : ((System.start services catalog database rush).turns rushSchedule).map
          (fun c => (c.db.codes 20, (c.procs 1).prog.result?))
        = some (["T1", "T2"], some (.ok (.paired ⟨"second", "Drive-through", "T2"⟩))) := by
  decide +kernel

end Shop

theorem terminal_codes_numbered_shop
    : ∃ c, Run (.error .aborted)
            (System.start Shop.services Shop.catalog Shop.database Shop.rush) c
        ∧ c.db.codes 20 = ["T1", "T2"]
        ∧ c.db.Numbered 20
        ∧ ∃ e ∈ c.history, e.client = 1 ∧ "T2" ∉ e.before.codes 20 := by
  have hpaired := Shop.rush_paired
  rw [Option.map_eq_some_iff] at hpaired
  obtain ⟨c, hturns, hc⟩ := hpaired
  rw [Prod.mk.injEq] at hc
  have hrun := Config.run_of_turns (.error .aborted) _ hturns
  have hnumbered : ∀ branchId, Shop.database.Numbered branchId := fun _ => rfl
  obtain ⟨hall, hpairs⟩ := terminal_codes_numbered Shop.database_valid hnumbered hrun
  obtain ⟨e, he, hclient, _, hnew⟩ := hpairs 1 1 2 _ _ _ rfl (Prog.eq_ret hc.2)
  refine ⟨c, hrun, hc.1, ?_, e, he, hclient, hnew⟩
  apply hall
  exact hrun.chain.last_mem

end SentryPos.Platform
