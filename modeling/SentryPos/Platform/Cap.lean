import SentryPos.Platform.Effects

/-!
This module contains that the live businesses of an owner stay under their cap whenever one is
created, and that demo businesses do not count.
-/

namespace SentryPos.Platform

open ReadCommitted

theorem Write.liveBusinesses_le {w : Write} (h : ∀ row, w = .insertBusiness row → row.isDemo)
    (db : Database) (ownerId : Uuid)
    : (w.apply db).liveBusinesses ownerId ≤ db.liveBusinesses ownerId := by
  cases w with
  | insertBusiness row =>
    have hdemo := h row rfl
    unfold Database.liveBusinesses apply
    dsimp only
    rw [List.countP_append]
    simp [hdemo]
  | archive table id deletedAt =>
    apply liveBusinesses_apply
    cases table <;> simp [keys, Archived.key]
  | _ => exact le_rfl

variable {svc : Auth.Services} {since : DateTime} {states : Database → Prop} {db db' : Database}

theorem liveBusinesses_committed {req : Request}
    (h : (req.contract svc since states).Committed db db')
    (hreq : ∀ actorId ownerId name id, req ≠ .createBusiness actorId ownerId name id)
    (ownerId : Uuid) : db'.liveBusinesses ownerId ≤ db.liveBusinesses ownerId := by
  obtain ⟨log, hlog, rfl⟩ := committed_may h
  refine replay_induction
    (P := fun db' : Database => db'.liveBusinesses ownerId ≤ db.liveBusinesses ownerId) le_rfl ?_
  intro w hw db' hdb'
  refine le_trans (w.liveBusinesses_le ?_ db' ownerId) hdb'
  intro row heq
  rw [heq] at hw
  cases may_insertBusiness (hlog _ hw) with
  | inl hdemo => exact hdemo
  | inr hcreate =>
    obtain ⟨actorId, ownerId, name, id, heq⟩ := hcreate
    exact absurd heq (hreq actorId ownerId name id)

theorem underCap_committed {actorId ownerId : Option Uuid} {name : String} {id : Uuid}
    (h : ((Request.createBusiness actorId ownerId name id).contract svc since states).Committed db
      db')
    : ∃ owner account,
        ownerId = some owner ∧ db'.account? owner = some account
          ∧ db'.liveBusinesses owner ≤ account.maxBusinesses := by
  obtain ⟨locks, log, _, ⟨owner, howner, hbelow, hlog⟩, rfl⟩ := h
  obtain ⟨account, haccount, hcount⟩ := hbelow
  refine ⟨owner, account, howner, ?_, ?_⟩
  . rw [hlog]
    exact haccount
  . have hnew : (replay log db).liveBusinesses owner = db.liveBusinesses owner + 1 := by
      rw [hlog]
      show List.countP _ (db.businesses ++ [newBusiness owner id name]) = _
      rw [List.countP_append]
      simp [newBusiness, Database.liveBusinesses]
    omega

section Run

variable {ι : Type} [DecidableEq ι] {catalog : DemoCatalog} {reqs : ι → Request} {c : System ι}

/--
A business that is created leaves its owner with at most as many live businesses as the cap allows at
that commit. No other commit makes them more, be it one that seeds a demo business, and a creation is
only turned down when, between its start and its return, there have been as many live businesses as the
cap allows without the demo ones.
-/
theorem business_cap (hdb : db.Valid)
    (hrun : Run (.error .aborted) (System.start svc catalog db reqs) c)
    : (∀ e ∈ c.history, ∀ actorId ownerId name id,
          reqs e.client = .createBusiness actorId ownerId name id →
            ∃ owner account,
              ownerId = some owner ∧ e.after.account? owner = some account
                ∧ e.after.liveBusinesses owner ≤ account.maxBusinesses)
        ∧ (∀ e ∈ c.history,
            (∀ actorId ownerId name id, reqs e.client ≠ .createBusiness actorId ownerId name id) →
              ∀ ownerId, e.after.liveBusinesses ownerId ≤ e.before.liveBusinesses ownerId)
        ∧ ∀ i actorId ownerId name id, reqs i = .createBusiness actorId ownerId name id →
            (c.procs i).prog = .ret (.error .maxBusinessesReached) → ∀ c0,
              RunWhere (.error .aborted) (fun _ j _ => j ≠ i) (System.start svc catalog db reqs) c0 →
                Run (.error .aborted) c0 c →
                  ∃ owner, ownerId = some owner ∧ ∃ db' ∈ c.databasesSince c0, db'.AtCap owner := by
  have hkept := run_kept hdb hrun
  refine ⟨?_, ?_, ?_⟩
  . intro e he actorId ownerId name id hreq
    have hevent := hkept.events e he
    simp only [hreq] at hevent
    exact underCap_committed hevent
  . intro e he hreq ownerId
    exact liveBusinesses_committed (hkept.events e he) hreq ownerId
  . intro i actorId ownerId name id hreq hret c0 hbefore hafter
    have hpost := (run_kept_late hdb hbefore hafter).returned i _ hret
    simp only [if_pos, hreq] at hpost
    exact hpost.2 rfl

end Run

namespace Shop

/-- Two new businesses of an owner who may have one more. -/
def branching : Fin 2 → Request
  | 0 => .createBusiness (some 2) (some 1) "Bakery" 11
  | 1 => .createBusiness (some 2) (some 1) "Grocery" 12

theorem branching_capped
    : ((System.start services catalog database branching).turnsWhere (fun _ j => j ≠ 1)
            (List.replicate 6 0)).bind
          (fun c0 => (c0.turns (List.replicate 4 1)).map
            fun c => (c.history.map (·.client), (c.procs 1).prog.result?))
        = some ([0], some (.error .maxBusinessesReached)) := by
  decide +kernel

end Shop

theorem business_cap_shop
    : ∃ c0 c, Run (.error .aborted)
            (System.start Shop.services Shop.catalog Shop.database Shop.branching) c0
        ∧ Run (.error .aborted) c0 c
        ∧ (∃ e ∈ c.history, ∃ account,
            e.after.account? 1 = some account ∧ e.after.liveBusinesses 1 ≤ account.maxBusinesses)
        ∧ ∃ db' ∈ c.databasesSince c0, db'.AtCap 1 := by
  have hcapped := Shop.branching_capped
  rw [Option.bind_eq_some_iff] at hcapped
  obtain ⟨c0, hbefore, hcapped⟩ := hcapped
  rw [Option.map_eq_some_iff] at hcapped
  obtain ⟨c, hturns, hc⟩ := hcapped
  rw [Prod.mk.injEq] at hc
  have hothers : RunWhere (.error .aborted) (fun _ j _ => j ≠ 1)
      (System.start Shop.services Shop.catalog Shop.database Shop.branching) c0 :=
    Config.run_of_turnsWhere _ (fun _ _ _ hj _ => of_decide_eq_true hj) _ hbefore
  have hafter := Config.run_of_turns (.error .aborted) _ hturns
  obtain ⟨hcreated, _, hrefused⟩ := business_cap Shop.database_valid (hothers.toRun.trans hafter)
  refine ⟨c0, c, hothers.toRun, hafter, ?_, ?_⟩
  . obtain ⟨e, he, hclient⟩ : ∃ e ∈ c.history, e.client = 0 := by
      have hmem : (0 : Fin 2) ∈ c.history.map (·.client) := by
        rw [hc.1]
        exact List.mem_cons_self
      exact List.mem_map.mp hmem
    obtain ⟨owner, account, howner, haccount, hcount⟩ :=
      hcreated e he (some 2) (some 1) "Bakery" 11 (by rw [hclient]; rfl)
    cases howner
    exact ⟨e, he, account, haccount, hcount⟩
  . obtain ⟨owner, howner, hcap⟩ :=
      hrefused 1 (some 2) (some 1) "Grocery" 12 rfl (Prog.eq_ret hc.2) c0 hothers hafter
    cases howner
    exact hcap

end SentryPos.Platform
