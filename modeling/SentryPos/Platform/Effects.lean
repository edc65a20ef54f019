import SentryPos.Platform.Contracts

/-!
This module contains what the commits of the requests do to tokens, to the status of owners, to their
live businesses and to the codes of terminals.
-/

namespace SentryPos.Platform

open ReadCommitted

def Request.May (req : Request) (w : Write) : Prop :=
  match req with
  | acceptInvite _ _ fresh =>
    w.Plain ∨ (∃ id usedAt, w = .auth (.useAuthToken id usedAt))
      ∨ (∃ ownerId, w = .setStatus ownerId .active none)
      ∨ ∃ ownerId, w = .insertBusiness (demoBusiness ownerId fresh)
  | confirmReset .. => w.Plain ∨ ∃ id usedAt, w = .auth (.useAuthToken id usedAt)
  | createBusiness _ _ name id =>
    w.Plain ∨ ∃ ownerId, w = .insertBusiness (newBusiness ownerId id name)
  | pair .. => w.Plain ∨ ∃ row, w = .insertTerminal row
  | req => req.Writes w

theorem Write.IsContent.plain {w : Write} (h : w.IsContent) : w.Plain := by
  cases w with
  | insertBranch | insertCatalog | insertAudit => trivial
  | _ => exact h.elim

theorem Write.IsRevocation.plain {w : Write} (h : w.IsRevocation) : w.Plain := by
  cases w with
  | auth w =>
    cases w with
    | revokeRefreshToken => simp [Write.Plain, Auth.Write.SparesTokens]
    | _ => exact h.elim
  | insertAudit => trivial
  | _ => exact h.elim

variable {svc : Auth.Services} {since : DateTime} {states : Database → Prop} {log : List Write}
  {db db' : Database}

theorem UsesToken.writes {token passwordHash : String} {kind : Auth.AuthTokenKind}
    {Rest : Option Uuid → List Write → Prop} {May : Write → Prop}
    (h : UsesToken svc since token passwordHash kind Rest log db)
    (huse : ∀ id usedAt, May (.auth (.useAuthToken id usedAt)))
    (hset : ∀ userId passwordHash, May (.auth (.setPassword userId passwordHash)))
    (hrest : ∀ ownerId rest, Rest ownerId rest → ∀ w ∈ rest, May w) : ∀ w ∈ log, May w := by
  obtain ⟨row, usedAt, rest, _, hlog, hfinish⟩ := h
  subst hlog
  intro w hw
  rcases List.mem_cons.mp hw with hw | hw
  . rw [hw]
    exact huse _ _
  . rcases List.mem_cons.mp hw with hw | hw
    . rw [hw]
      exact hset _ _
    . exact hrest _ rest hfinish w hw

theorem Request.may_of_commit {req : Request} {locks : List Key}
    (h : (req.contract svc since states).Commit locks log db) : ∀ w ∈ log, req.May w := by
  have hset : ∀ userId passwordHash,
      Write.Plain (.auth (.setPassword userId passwordHash)) := by
    simp [Write.Plain, Auth.Write.SparesTokens]
  cases req with
  | acceptInvite dto salt fresh =>
    refine UsesToken.writes h ?_ ?_ ?_
    . intro id usedAt
      exact .inr (.inl ⟨id, usedAt, rfl⟩)
    . intro userId passwordHash
      exact .inl (hset _ _)
    . intro ownerId rest hrest w hw
      cases ownerId with
      | none => exact .inl (hrest w hw).plain
      | some ownerId =>
        obtain ⟨contents, heq, hcontents⟩ := hrest
        rw [heq, List.mem_cons, List.mem_cons] at hw
        rcases hw with hw | hw | hw
        . exact .inr (.inr (.inl ⟨ownerId, hw⟩))
        . exact .inr (.inr (.inr ⟨ownerId, hw⟩))
        . exact .inl (hcontents w hw).plain
  | confirmReset dto salt =>
    refine UsesToken.writes h ?_ ?_ ?_
    . intro id usedAt
      exact .inr ⟨id, usedAt, rfl⟩
    . intro userId passwordHash
      exact .inl (hset _ _)
    . intro ownerId rest hrest w hw
      exact .inl (hrest w hw).plain
  | createBusiness actorId ownerId name id =>
    obtain ⟨owner, _, _, hlog⟩ := h
    intro w hw
    rw [hlog, List.mem_cons, List.mem_singleton] at hw
    rcases hw with hw | hw
    . exact .inr ⟨owner, hw⟩
    . rw [hw]
      exact .inl trivial
  | pair ownerId ownerUserId dto fresh =>
    intro w hw
    cases h with
    | inl hplain => exact .inl (hplain w hw)
    | inr hnew =>
      obtain ⟨row, hlog, _⟩ := hnew
      rw [hlog, List.mem_singleton] at hw
      exact .inr ⟨row, hw⟩
  | createOwner | updateOwner | suspend | reinstate | requestReset | auth | remove | unpair
  | unpairRemotely => exact h

theorem committed_may {req : Request} (h : (req.contract svc since states).Committed db db')
    : ∃ log, (∀ w ∈ log, req.May w) ∧ db' = replay log db := by
  obtain ⟨locks, log, _, hcommit, rfl⟩ := h
  exact ⟨log, Request.may_of_commit hcommit, rfl⟩

section May

variable {req : Request}

theorem may_insertTerminal {row : Terminal} (h : req.May (.insertTerminal row))
    : ∃ ownerId ownerUserId dto fresh, req = .pair ownerId ownerUserId dto fresh := by
  cases req with
  | pair ownerId ownerUserId dto fresh => exact ⟨ownerId, ownerUserId, dto, fresh, rfl⟩
  | _ => simp [Request.May, Request.Writes, Write.Plain] at h

theorem may_insertBusiness {row : Business} (h : req.May (.insertBusiness row))
    : row.isDemo ∨ ∃ actorId ownerId name id, req = .createBusiness actorId ownerId name id := by
  cases req with
  | createBusiness actorId ownerId name id => exact .inr ⟨actorId, ownerId, name, id, rfl⟩
  | acceptInvite dto salt fresh =>
    simp only [Request.May, Write.Plain, reduceCtorEq, exists_false, false_or,
      Write.insertBusiness.injEq] at h
    obtain ⟨ownerId, heq⟩ := h
    rw [heq]
    exact .inl rfl
  | _ => simp [Request.May, Request.Writes, Write.Plain] at h

theorem may_setStatus {id : Uuid} {suspendedAt : Option DateTime}
    (h : req.May (.setStatus id .active suspendedAt))
    : req = .reinstate id ∨ ∃ dto salt fresh, req = .acceptInvite dto salt fresh := by
  cases req with
  | acceptInvite dto salt fresh => exact .inr ⟨dto, salt, fresh, rfl⟩
  | reinstate id' =>
    simp only [Request.May, Request.Writes, Write.Plain, false_or, Write.setStatus.injEq] at h
    rw [h.1]
    exact .inl rfl
  | suspend id' tier =>
    cases tier <;> simp [Request.May, Request.Writes, Write.Plain, SuspendTier.status] at h
  | _ => simp [Request.May, Request.Writes, Write.Plain] at h

theorem may_useAuthToken {id : Uuid} {usedAt : DateTime}
    (h : req.May (.auth (.useAuthToken id usedAt)))
    : (∃ dto salt fresh, req = .acceptInvite dto salt fresh)
        ∨ ∃ dto salt, req = .confirmReset dto salt := by
  cases req with
  | acceptInvite dto salt fresh => exact .inl ⟨dto, salt, fresh, rfl⟩
  | confirmReset dto salt => exact .inr ⟨dto, salt, rfl⟩
  | _ => simp [Request.May, Request.Writes, Write.Plain, Auth.Write.SparesTokens] at h

theorem may_insertAuthToken {row : Auth.AuthToken} (h : req.May (.insertAuthToken row))
    : row.usedAt = none := by
  cases req <;> simpa [Request.May, Request.Writes, Write.Plain] using h

end May

theorem codes_replay {branchId : Uuid} (h : ∀ w ∈ log, ∀ row, w ≠ .insertTerminal row)
    : (replay log db).codes branchId = db.codes branchId := by
  refine replay_induction (P := fun db' : Database => db'.codes branchId = db.codes branchId) rfl ?_
  intro w hw db' hdb'
  rw [store_apply, w.codes_apply, ← hdb']
  cases w with
  | insertTerminal row => exact absurd rfl (h _ hw row)
  | _ => simp

theorem codes_committed {req : Request} (h : (req.contract svc since states).Committed db db')
    (branchId : Uuid)
    : db'.codes branchId = db.codes branchId
        ∨ ∃ n ≤ (db.codes branchId).length,
            terminalCode n ∉ db.codes branchId
              ∧ db'.codes branchId = db.codes branchId ++ [terminalCode n] := by
  obtain ⟨locks, log, _, hcommit, rfl⟩ := h
  by_cases hpair : ∃ w ∈ log, ∃ row, w = .insertTerminal row
  . obtain ⟨w, hw, row, rfl⟩ := hpair
    obtain ⟨ownerId, ownerUserId, dto, fresh, rfl⟩ :=
      may_insertTerminal (Request.may_of_commit hcommit _ hw)
    cases hcommit with
    | inl hplain => exact (hplain _ hw).elim
    | inr hnew =>
      obtain ⟨row', hlog, hbranch, hfresh, n, hn, hcode⟩ := hnew
      rw [hlog, replay_cons, replay_nil, store_apply, Write.codes_apply]
      dsimp only
      split
      . next heq =>
        rw [hbranch] at heq
        subst heq
        rw [hcode] at hfresh ⊢
        exact .inr ⟨n, hn, hfresh, rfl⟩
      . rw [List.append_nil]
        exact .inl rfl
  . left
    apply codes_replay
    intro w hw row heq
    exact hpair ⟨w, hw, row, heq⟩

end SentryPos.Platform
