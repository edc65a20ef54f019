import SentryPos.Platform.Tokens

/-!
This module contains how an owner who is suspended becomes active again.
-/

namespace SentryPos.Platform

open ReadCommitted

/-- The owner is there with a status other than active. -/
def Database.Inactive (ownerId : Uuid) (db : Database) : Prop :=
  ∃ owner, db.auth.owner? ownerId = some owner ∧ owner.status ≠ .active

def Database.Active (ownerId : Uuid) (db : Database) : Prop :=
  ∃ owner, db.auth.owner? ownerId = some owner ∧ owner.status = .active

theorem Write.owner?_apply (w : Write) {db : Database} {ownerId : Uuid} {owner : Auth.Owner}
    (h : db.auth.owner? ownerId = some owner)
    : (w.apply db).auth.owner? ownerId
        =
      match w with
      | setStatus id status _ => if id = ownerId then some { owner with status } else some owner
      | _ => some owner := by
  cases w with
  | auth w =>
    cases w with
    | _ => exact h
  | insertOwner owner' account =>
    unfold Auth.Database.owner? apply at *
    exact Table.get_append_of_some h
  | setStatus id status suspendedAt =>
    unfold apply Auth.Database.owner?
    dsimp only
    split
    . next hid =>
      subst hid
      rw [Table.get_modify_self (by simp), show Table.get _ _ _ = some owner from h]
      rfl
    . next hid =>
      rw [Table.get_modify_ne (by simp) (Ne.symm hid)]
      exact h
  | archive table => cases table <;> exact h
  | _ => exact h

theorem inactive_replay {log : List Write} {db : Database} {ownerId : Uuid}
    (h : db.Inactive ownerId) (hlog : ∀ suspendedAt, .setStatus ownerId .active suspendedAt ∉ log)
    : (replay log db).Inactive ownerId := by
  refine replay_induction (P := fun db' : Database => db'.Inactive ownerId) h ?_
  intro w hw db' hdb'
  obtain ⟨owner, howner, hstatus⟩ := hdb'
  have hafter := w.owner?_apply howner
  split at hafter
  . next id status suspendedAt =>
    split at hafter
    . next hid =>
      refine ⟨_, hafter, ?_⟩
      intro heq
      have heq : status = .active := heq
      rw [hid, heq] at hw
      exact hlog _ hw
    . exact ⟨owner, hafter, hstatus⟩
  . exact ⟨owner, hafter, hstatus⟩

section Run

variable {ι : Type} [DecidableEq ι] {svc : Auth.Services} {catalog : DemoCatalog} {db : Database}
  {reqs : ι → Request} {c : System ι}

/-- The commit accepts an invite of a user of the owner. -/
def AcceptsInvite (svc : Auth.Services) (ownerId : Uuid) (req : Request) (before after : Database)
    : Prop :=
  ∃ dto salt fresh row,
    req = .acceptInvite dto salt fresh
      ∧ UsedToken svc dto.token .invite (svc.hashSecret salt dto.password) row before after
      ∧ before.ownerOf row.userId = some ownerId

theorem accepts_of_log {since : DateTime} {states : Database → Prop} {dto : InviteAcceptDto}
    {salt : String} {fresh : FreshDemo} {locks : List Key} {log : List Write} {ownerId : Uuid}
    {status : Auth.OwnerStatus} {suspendedAt : Option DateTime}
    (h : ((Request.acceptInvite dto salt fresh).contract svc since states).Commit locks log db)
    (hmem : .setStatus ownerId status suspendedAt ∈ log)
    : AcceptsInvite svc ownerId (.acceptInvite dto salt fresh) db (replay log db) := by
  obtain ⟨row, usedAt, rest, hrow, hlog, hrest⟩ := h
  subst hlog
  rw [List.mem_cons, List.mem_cons] at hmem
  rcases hmem with hmem | hmem | hmem
  . cases hmem
  . cases hmem
  . refine ⟨dto, salt, fresh, row, rfl, usedToken_replay hrow (users_activates hrest), ?_⟩
    cases howner : db.ownerOf row.userId with
    | none =>
      rw [howner] at hrest
      exact (hrest _ hmem).elim
    | some ownerId' =>
      rw [howner] at hrest
      obtain ⟨contents, heq, hcontents⟩ := hrest
      rw [heq, List.mem_cons, List.mem_cons] at hmem
      rcases hmem with hmem | hmem | hmem
      . cases hmem
        rfl
      . cases hmem
      . exact (hcontents _ hmem).elim

/--
An owner who is not active becomes active by reinstatement or by the acceptance of an unused invite of
one of the owner's users, and by no other commit.
-/
theorem reactivated_by (hdb : db.Valid)
    (hrun : Run (.error .aborted) (System.start svc catalog db reqs) c)
    : ∀ e ∈ c.history, ∀ ownerId, e.before.Inactive ownerId → e.after.Active ownerId →
        reqs e.client = .reinstate ownerId
          ∨ AcceptsInvite svc ownerId (reqs e.client) e.before e.after := by
  intro e he ownerId hinactive hactive
  obtain ⟨locks, log, _, hcommit, hafter⟩ := (run_kept hdb hrun).events e he
  have hmay := Request.may_of_commit hcommit
  obtain ⟨suspendedAt, hmem⟩ : ∃ suspendedAt, .setStatus ownerId .active suspendedAt ∈ log := by
    by_contra hnone
    obtain ⟨owner, howner, hstatus⟩ := inactive_replay hinactive (not_exists.mp hnone)
    obtain ⟨owner', howner', hstatus'⟩ := hactive
    rw [hafter, howner] at howner'
    cases howner'
    exact hstatus hstatus'
  rcases may_setStatus (hmay _ hmem) with hreq | ⟨dto, salt, fresh, hreq⟩
  . exact .inl hreq
  . right
    rw [hafter]
    simp only [hreq] at hcommit ⊢
    exact accepts_of_log hcommit hmem

end Run

namespace Shop

/-- An owner who is suspended and then accepts an invite that was sent before. -/
def locked : Fin 2 → Request
  | 0 => .suspend 1 .hard
  | 1 => .acceptInvite acceptance "salt" demo

def lockedSchedule : List (Fin 2) :=
  inRounds 1 [[6, 14]]

theorem locked_accepted
    : ((System.start services catalog invited locked).turns lockedSchedule).map
          (fun c => c.history.map fun e =>
            (e.client, (e.before.auth.owner? 1).map (·.status), (e.after.auth.owner? 1).map (·.status)))
        = some [
          (0, some .active, some .hard_suspended),
          (0, some .hard_suspended, some .hard_suspended),
          (1, some .hard_suspended, some .active)] := by
  decide +kernel

theorem locked_reactivated
    : ∃ c, Run (.error .aborted) (System.start services catalog invited locked) c
        ∧ ∃ e ∈ c.history, e.client = 1 ∧ e.before.Inactive 1 ∧ e.after.Active 1 := by
  have haccepted := locked_accepted
  rw [Option.map_eq_some_iff] at haccepted
  obtain ⟨c, hturns, hc⟩ := haccepted
  refine ⟨c, Config.run_of_turns (.error .aborted) _ hturns, ?_⟩
  have hmem : (1, some .hard_suspended, some .active) ∈ c.history.map fun e =>
      (e.client, (e.before.auth.owner? 1).map (·.status), (e.after.auth.owner? 1).map (·.status)) := by
    rw [hc]
    simp
  obtain ⟨e, he, heq⟩ := List.mem_map.mp hmem
  simp only [Prod.mk.injEq, Option.map_eq_some_iff] at heq
  obtain ⟨hclient, ⟨before, hbefore, hstatus⟩, after, hafter, hstatus'⟩ := heq
  refine ⟨e, he, hclient, ⟨before, hbefore, ?_⟩, after, hafter, hstatus'⟩
  rw [hstatus]
  simp

end Shop

/-- The acceptance of an invite lifts a suspension. -/
theorem reactivated_by_invite
    : ¬ ∀ (svc : Auth.Services) (catalog : DemoCatalog) (db : Database) (reqs : Fin 2 → Request)
        (c : System (Fin 2)), db.Valid →
          Run (.error .aborted) (System.start svc catalog db reqs) c →
            ∀ e ∈ c.history, ∀ ownerId, e.before.Inactive ownerId → e.after.Active ownerId →
              reqs e.client = .reinstate ownerId := by
  intro hall
  obtain ⟨c, hrun, e, he, hclient, hinactive, hactive⟩ := Shop.locked_reactivated
  have hreq := hall _ _ _ _ c Shop.invited_valid hrun e he 1 hinactive hactive
  rw [hclient] at hreq
  cases hreq

theorem reactivated_by_shop
    : ∃ c, Run (.error .aborted) (System.start Shop.services Shop.catalog Shop.invited Shop.locked) c
        ∧ ∃ e ∈ c.history,
            AcceptsInvite Shop.services 1 (Shop.locked e.client) e.before e.after := by
  obtain ⟨c, hrun, e, he, hclient, hinactive, hactive⟩ := Shop.locked_reactivated
  refine ⟨c, hrun, e, he, ?_⟩
  have hby := reactivated_by Shop.invited_valid hrun e he 1 hinactive hactive
  cases hby with
  | inl hreq =>
    rw [hclient] at hreq
    cases hreq
  | inr haccepts => exact haccepts

end SentryPos.Platform
