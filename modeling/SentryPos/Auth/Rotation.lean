import SentryPos.Auth.Attempts
import SentryPos.Auth.Commits

/-!
This module contains the rotation of refresh tokens: a token is traded once, and the tokens that
descend from one another end with a revocation of all, as long as refreshes do not overtake it.
-/

namespace SentryPos.Auth

open ReadCommitted

variable {ι : Type} [DecidableEq ι]

/-- The refresh of client `i` has traded the token `old` for `new`. -/
structure Traded (svc : Services) (reqs : ι → Request) (c : System ι) (i : ι)
    (old new : RefreshToken) : Prop where
  presented : ∃ dto fresh, reqs i = .refresh dto fresh ∧ old.tokenHash = svc.sha256 dto.refreshToken
  minted : ∃ e ∈ c.history, e.client = i ∧ new.id ∉ e.before.refreshTokens.map (·.id)
    ∧ new.id ∈ e.after.refreshTokens.map (·.id)
  old_mem : old ∈ c.db.refreshTokens
  new_mem : new ∈ c.db.refreshTokens

def Descends (svc : Services) (reqs : ι → Request) (c : System ι)
    : RefreshToken → RefreshToken → Prop :=
  Relation.ReflTransGen fun old new => ∃ i, Traded svc reqs c i old new

def RefreshToken.Live (row : RefreshToken) (db : Database) : Prop :=
  row.revokedAt = none ∧ db.clock ≤ row.expiresAt

/-- The event is the detection of a reuse or the reset of a password, of the user. -/
def RevokesAll (svc : Services) (reqs : ι → Request) (c : System ι) (e : Event ι Database)
    (userId : Uuid) : Prop :=
  match reqs e.client with
  | .refresh dto _ =>
    (c.procs e.client).prog.result? = some reuseDetected
      ∧ ∃ row ∈ e.before.refreshTokens,
          row.tokenHash = svc.sha256 dto.refreshToken ∧ row.userId = userId
  | .confirmReset dto _ =>
    ∃ row ∈ e.before.authTokens, row.tokenHash = svc.sha256 dto.token ∧ row.userId = userId
  | _ => False

/--
A commit of a client is not overtaken.

- `unrevoked`: when a refresh mints a token, the one that it presents was not revoked when it revoked
  it itself, and nothing has revoked all tokens of the user since.
- `complete`: when a transaction revokes all tokens of a user, it has locked all that are not revoked.
-/
structure NotOvertaken (svc : Services) (reqs : ι → Request) (c : System ι) (i : ι) (c' : System ι)
    : Prop where
  unrevoked : c'.history = c.history ++ [⟨i, c.db, c'.db⟩] → ∀ dto fresh row,
    reqs i = .refresh dto fresh → (c.procs i).log = [.insertRefreshToken row] →
      ∃ es1 e es2, c.history = es1 ++ e :: es2 ∧ e.client = i
        ∧ (∃ old ∈ e.before.refreshTokens,
            old.tokenHash = svc.sha256 dto.refreshToken ∧ old.revokedAt = none)
        ∧ ∀ e' ∈ es2, ¬ RevokesAll svc reqs c e' row.userId
  complete : c'.history = c.history ++ [⟨i, c.db, c'.db⟩] → ∀ userId,
    RevokesAll svc reqs c' ⟨i, c.db, c'.db⟩ userId → ∀ row ∈ c.db.refreshTokens,
      row.userId = userId → row.revokedAt = none → .refreshToken row.id ∈ (c.procs i).locks

def IsRevoked (tokenHash : String) (db : Database) : Prop :=
  ∃ row ∈ db.refreshTokens, row.tokenHash = tokenHash ∧ row.revokedAt ≠ none

theorem IsRevoked.grows {tokenHash : String} {db db' : Database} (h : IsRevoked tokenHash db)
    (hgrows : db.Grows db') : IsRevoked tokenHash db' := by
  obtain ⟨row, hrow, hhash, hrevoked⟩ := h
  obtain ⟨row', hrow', holder⟩ := hgrows.tokens row hrow
  exact ⟨row', hrow', holder.tokenHash.trans hhash, fun hnone => hrevoked (holder.revoked hnone)⟩

theorem Database.Valid.token_eq {db : Database} (hdb : db.Valid) {row row' : RefreshToken}
    (hrow : row ∈ db.refreshTokens) (hrow' : row' ∈ db.refreshTokens)
    (hhash : row.tokenHash = row'.tokenHash) : row = row' :=
  List.inj_on_of_nodup_map hdb.tokenHashes hrow hrow' hhash

theorem Database.Valid.token_eq_of_id {db : Database} (hdb : db.Valid) {row row' : RefreshToken}
    (hrow : row ∈ db.refreshTokens) (hrow' : row' ∈ db.refreshTokens) (hid : row.id = row'.id)
    : row = row' :=
  List.inj_on_of_nodup_map hdb.tokenIds hrow hrow' hid

theorem not_isRevoked {db : Database} (hdb : db.Valid) {row : RefreshToken}
    (hrow : row ∈ db.refreshTokens) (hnone : row.revokedAt = none) : ¬ IsRevoked row.tokenHash db := by
  intro ⟨row', hrow', hhash, hrevoked⟩
  rw [hdb.token_eq hrow' hrow hhash] at hrevoked
  exact hrevoked hnone

variable {svc : Services} {reqs : ι → Request} {db : Database} {c c' : System ι} {i j : ι}

structure Exchange (svc : Services) (reqs : ι → Request) (c : System ι) (i : ι) (dto : RefreshDto)
    (fresh : FreshToken) (id : Uuid) : Prop where
  fresh_id : id = fresh.id
  rotation : ∃ oldId userId, c.db.HasToken (svc.sha256 dto.refreshToken) oldId userId
    ∧ (∃ row ∈ (c.view i).refreshTokens, row.id = id ∧ row.userId = userId)
    ∧ ∃ es1 e es2, c.history = es1 ++ e :: es2 ∧ e.client = i
      ∧ ¬ IsRevoked (svc.sha256 dto.refreshToken) e.before
      ∧ IsRevoked (svc.sha256 dto.refreshToken) e.after
      ∧ ∀ e' ∈ es2, ¬ RevokesAll svc reqs c e' userId

theorem exchange_of_mint (hdb : db.Valid)
    (hrun : RunWhere (.error .aborted) (NotOvertaken svc reqs) (System.start svc db reqs) c)
    {tag : Stmt} {next : Program} (hprog : (c.procs i).prog = .commit tag next)
    (hallowed : NotOvertaken svc reqs c i (c.commit i next)) {dto : RefreshDto} {fresh : FreshToken}
    (hreq : reqs i = .refresh dto fresh) {id : Uuid} (hbefore : id ∉ c.db.refreshTokens.map (·.id))
    (hafter : id ∈ (c.view i).refreshTokens.map (·.id)) : Exchange svc reqs c i dto fresh id := by
  have hview : c.view i = replay (c.procs i).log c.db := rfl
  have hnot : ¬ SameTokens c.db (c.view i) := by
    intro hsame
    rw [hsame] at hafter
    exact hbefore hafter
  obtain ⟨hpending, hcommit, _⟩ := run_committing hdb hrun promised_unpromised hprog trivial
  rw [hreq] at hcommit
  have hexchanged : ∃ oldId userId now, c.db.HasToken (svc.sha256 dto.refreshToken) oldId userId
      ∧ (c.procs i).log = [.insertRefreshToken (refreshTokenRow svc userId fresh now)] := by
    rw [hview] at hnot
    generalize (c.procs i).log = log at hcommit hnot
    generalize (c.procs i).locks = locks at hcommit
    cases hcommit with
    | neutral hreq => cases hreq
    | rotated =>
      apply absurd _ hnot
      apply Table.map_modify
      intro row
      rfl
    | reused h => exact absurd h.sameTokens hnot
    | exchanged htoken => exact ⟨_, _, _, htoken, rfl⟩
  obtain ⟨oldId, userId, now, htoken, hlog⟩ := hexchanged
  have hnew : (c.view i).refreshTokens
      = c.db.refreshTokens ++ [refreshTokenRow svc userId fresh now] := by
    rw [hview, hlog]
    rfl
  have hid : id = fresh.id := by
    rw [hnew, List.map_append, List.mem_append] at hafter
    cases hafter with
    | inl hafter => exact absurd hafter hbefore
    | inr hafter => exact List.mem_singleton.mp hafter
  obtain ⟨es1, e, es2, hhistory, hclient, hold, hnone⟩ := hallowed.unrevoked rfl dto fresh _ hreq hlog
  obtain ⟨old, hmem, hhash, hlive⟩ := hold
  have hevent := run_event hdb hrun (show e ∈ c.history by simp [hhistory])
  refine ⟨hid, oldId, userId, htoken, ?_, es1, e, es2, hhistory, hclient, ?_, ?_, hnone⟩
  . rw [hnew, hid]
    exact ⟨_, List.mem_append_right _ (List.mem_singleton_self _), rfl, rfl⟩
  . rw [← hhash]
    exact not_isRevoked hevent.1 hmem hlive
  . -- The event was the first commit of the client, which revokes the token that it presents.
    have hmade := run_made hdb (hrun.step hallowed (.commit hprog)) promised_unpromised i
    rw [Config.commitsOf_commit_self, hreq] at hmade
    have hcommitted : (e.before, e.after) ∈ c.commitsOf i := by
      unfold Config.commitsOf
      exact List.mem_map_of_mem (List.mem_filter.mpr ⟨by simp [hhistory], by simpa using hclient⟩)
    cases hcommits : c.commitsOf i with
    | nil =>
      rw [hcommits] at hcommitted
      cases hcommitted
    | cons first rest =>
      rw [hcommits] at hmade hcommitted
      obtain ⟨_, hrevoked, hlength⟩ := hmade first (rest ++ [(c.db, c.view i)]) rfl
      rw [List.length_append, List.length_singleton] at hlength
      have hnil : rest = [] := List.eq_nil_of_length_eq_zero (by omega)
      rw [hnil, List.mem_singleton] at hcommitted
      obtain ⟨row, hrow, holder⟩ := hevent.2.tokens old hmem
      have hrowHash : row.tokenHash = svc.sha256 dto.refreshToken := holder.tokenHash.trans hhash
      rw [← hcommitted] at hrevoked
      exact ⟨row, hrow, hrowHash, hrevoked row hrow hrowHash⟩

theorem exchange_at (hdb : db.Valid) {c0 : System ι}
    (hrun0 : RunWhere (.error .aborted) (NotOvertaken svc reqs) (System.start svc db reqs) c0)
    (hrun : RunWhere (.error .aborted) (NotOvertaken svc reqs) c0 c) {dto : RefreshDto}
    {fresh : FreshToken} {e : Event ι Database} (hreq : reqs e.client = .refresh dto fresh)
    {es1 es2 : List (Event ι Database)} (heq : c.history = c0.history ++ es1 ++ e :: es2) {id : Uuid}
    (hbefore : id ∉ e.before.refreshTokens.map (·.id))
    (hafter : id ∈ e.after.refreshTokens.map (·.id))
    : ∃ c' tag next, CommittedAt (.error .aborted) (NotOvertaken svc reqs) c0 c (c0.history ++ es1) e
        c' tag next ∧ Exchange svc reqs c' e.client dto fresh id := by
  obtain ⟨c', tag, next, hcommitted⟩ := hrun.event heq
  have hevent := hcommitted.event
  rw [hevent] at hbefore hafter
  refine ⟨c', tag, next, hcommitted, ?_⟩
  exact exchange_of_mint hdb (hrun0.trans hcommitted.reached) hcommitted.prog hcommitted.committed hreq
    hbefore hafter

theorem Traded.exchange (hdb : db.Valid)
    (hrun : RunWhere (.error .aborted) (NotOvertaken svc reqs) (System.start svc db reqs) c)
    {old new : RefreshToken} (h : Traded svc reqs c i old new) {dto : RefreshDto} {fresh : FreshToken}
    (hreq : reqs i = .refresh dto fresh)
    : ∃ es e c' tag next, e.client = i ∧ CommittedAt (.error .aborted) (NotOvertaken svc reqs)
        (System.start svc db reqs) c es e c' tag next ∧ Exchange svc reqs c' i dto fresh new.id := by
  obtain ⟨e, he, hclient, hbefore, hafter⟩ := h.minted
  obtain ⟨es1, es2, heq⟩ := List.append_of_mem he
  rw [← hclient] at hreq
  obtain ⟨c', tag, next, hcommitted, hexchange⟩ := exchange_at hdb .refl hrun hreq heq hbefore hafter
  rw [hclient] at hexchange
  exact ⟨_, e, c', tag, next, hclient, hcommitted, hexchange⟩

theorem Traded.rotation (hdb : db.Valid)
    (hrun : RunWhere (.error .aborted) (NotOvertaken svc reqs) (System.start svc db reqs) c)
    {old new : RefreshToken} (h : Traded svc reqs c i old new)
    : ∃ e ∈ c.history, e.client = i ∧ e.Flips (IsRevoked old.tokenHash) := by
  obtain ⟨dto, fresh, hreq, hhash⟩ := h.presented
  obtain ⟨_, _, c', _, _, _, hcommitted, hexchange⟩ := h.exchange hdb hrun hreq
  obtain ⟨_, _, _, _, es1, e, es2, hhistory, hclient, hflip1, hflip2, _⟩ := hexchange.rotation
  have hinit : c'.history <+: c.history :=
    (List.prefix_append _ _).trans hcommitted.rest.history_prefix
  refine ⟨e, hinit.subset (by simp [hhistory]), hclient, ?_⟩
  rw [hhash]
  exact ⟨hflip1, hflip2⟩

theorem Traded.once (hdb : db.Valid)
    (hrun : RunWhere (.error .aborted) (NotOvertaken svc reqs) (System.start svc db reqs) c)
    {old new new' : RefreshToken} (h : Traded svc reqs c i old new)
    (h' : Traded svc reqs c j old new') : i = j ∧ new = new' := by
  obtain ⟨e, he, hclient, hflips⟩ := h.rotation hdb hrun
  obtain ⟨e', he', hclient', hflips'⟩ := h'.rotation hdb hrun
  have hij : i = j := by
    rw [← hclient, ← hclient']
    have hsame : e = e' := hrun.chain.flips_unique
      (fun e he hrevoked => hrevoked.grows (run_event hdb hrun he).2) he he' hflips hflips'
    rw [hsame]
  refine ⟨hij, ?_⟩
  rw [← hij] at h'
  obtain ⟨dto, fresh, hreq, _⟩ := h.presented
  apply (run_valid hdb hrun).token_eq_of_id h.new_mem h'.new_mem
  obtain ⟨_, _, _, _, _, _, _, hexchange⟩ := h.exchange hdb hrun hreq
  obtain ⟨_, _, _, _, _, _, _, hexchange'⟩ := h'.exchange hdb hrun hreq
  rw [hexchange.fresh_id, hexchange'.fresh_id]

theorem Descends.total (hdb : db.Valid)
    (hrun : RunWhere (.error .aborted) (NotOvertaken svc reqs) (System.start svc db reqs) c)
    {row new new' : RefreshToken} (h : Descends svc reqs c row new)
    (h' : Descends svc reqs c row new') : Descends svc reqs c new new' ∨ Descends svc reqs c new' new := by
  apply Relation.ReflTransGen.total_of_right_unique _ h h'
  intro old new1 new2 ⟨i, h1⟩ ⟨j, h2⟩
  exact (h1.once hdb hrun h2).2

theorem Traded.not_live (hdb : db.Valid)
    (hrun : RunWhere (.error .aborted) (NotOvertaken svc reqs) (System.start svc db reqs) c)
    {old new : RefreshToken} (h : Traded svc reqs c i old new) : old.revokedAt ≠ none := by
  intro hnone
  obtain ⟨e, he, _, hflips⟩ := h.rotation hdb hrun
  have hvalid := run_valid hdb hrun
  apply not_isRevoked hvalid h.old_mem hnone
  obtain ⟨es1, es2, heq⟩ := List.append_of_mem he
  obtain ⟨es1', es2', heq', _, hrest⟩ := hrun.chain.split he
  apply hrest.keeps _ hflips.2
  intro e' he' hrevoked
  apply hrevoked.grows (run_event hdb hrun _).2
  rw [heq']
  simp [he']

theorem Descends.live_unique (hdb : db.Valid)
    (hrun : RunWhere (.error .aborted) (NotOvertaken svc reqs) (System.start svc db reqs) c)
    {row new new' : RefreshToken} (h : Descends svc reqs c row new)
    (h' : Descends svc reqs c row new') (hlive : new.Live c.db) (hlive' : new'.Live c.db)
    : new = new' := by
  have hlast : ∀ {a b : RefreshToken}, Descends svc reqs c a b → a.revokedAt = none → a = b := by
    intro a b hab hnone
    cases hab.cases_head with
    | inl heq => exact heq
    | inr hstep =>
      obtain ⟨_, ⟨i, htraded⟩, _⟩ := hstep
      exact absurd hnone (htraded.not_live hdb hrun)
  cases h.total hdb hrun h' with
  | inl hdesc => exact hlast hdesc hlive.1
  | inr hdesc => exact (hlast hdesc hlive'.1).symm

theorem isRevoked_replay {log : List Write} {row : RefreshToken} {revokedAt : DateTime}
    (hrow : row ∈ db.refreshTokens) (hlog : .revokeRefreshToken row.id revokedAt ∈ log)
    : IsRevoked row.tokenHash (replay log db) := by
  obtain ⟨log1, log2, heq⟩ := List.append_of_mem hlog
  rw [heq, replay_append, replay_cons, store_apply]
  apply IsRevoked.grows _ (.replay log2 _)
  obtain ⟨row', hrow', holder⟩ := (Database.Grows.replay log1 db).tokens row hrow
  refine ⟨{ row' with revokedAt := some revokedAt }, ?_, holder.tokenHash, by simp⟩
  change _ ∈ Table.modify (·.id) (replay log1 db).refreshTokens row.id _
  unfold Table.modify
  rw [List.mem_map]
  exact ⟨row', hrow', by simp [holder.id]⟩

theorem revoked_after (hdb : db.Valid)
    (hrun : RunWhere (.error .aborted) (NotOvertaken svc reqs) (System.start svc db reqs) c)
    (hstep : Step (.error .aborted) c i c') (hallowed : NotOvertaken svc reqs c i c')
    (hcommits : c'.history = c.history ++ [⟨i, c.db, c'.db⟩]) {userId : Uuid}
    (hall : RevokesAll svc reqs c' ⟨i, c.db, c'.db⟩ userId)
    : SameTokens c.db c'.db
        ∧ ∀ row ∈ c.db.refreshTokens, row.userId = userId → IsRevoked row.tokenHash c'.db := by
  have hcomplete := hallowed.complete hcommits userId hall
  have hstep' := hstep
  cases hstep with
  | exec | rollback | abort =>
    have hlength := congrArg List.length hcommits
    simp [Config.setProc] at hlength
  | @commit tag next hprog =>
    obtain ⟨hpending, hcommit, _⟩ := run_committing hdb hrun promised_unpromised hprog trivial
    have hrun' : Run (.error .aborted) (System.start svc db reqs) (c.commit i next) :=
      hrun.toRun.step trivial hstep'
    have hview : (c.commit i next).db = replay (c.procs i).log c.db := rfl
    have hlocked : SameTokens c.db (c.commit i next).db
        ∧ ∀ row ∈ c.db.refreshTokens, .refreshToken row.id ∈ (c.procs i).locks →
          row.revokedAt = none → ∃ revokedAt, .revokeRefreshToken row.id revokedAt ∈ (c.procs i).log := by
      unfold RevokesAll at hall
      dsimp only at hall
      cases hreq : reqs i with
      | refresh dto fresh =>
        rw [hreq] at hall hcommit
        have hlength := run_reuse hdb hrun' hreq hall.1
        have hmade := run_made hdb hrun' promised_unpromised i
        rw [Config.commitsOf_commit_self] at hlength hmade
        rw [List.length_append, List.length_singleton] at hlength
        have hnil : c.commitsOf i = [] := List.eq_nil_of_length_eq_zero (by omega)
        rw [hnil, hreq] at hmade
        refine ⟨(hmade _ [] rfl).1, ?_⟩
        intro row hrow hlock hnone
        generalize (c.procs i).log = log at hcommit hpending
        generalize (c.procs i).locks = locks at hcommit hlock hpending
        cases hcommit with
        | neutral hreq => cases hreq
        | rotated =>
          rw [List.mem_singleton] at hlock
          cases hlock
          exact ⟨_, List.mem_singleton_self _⟩
        | @exchanged _ fresh =>
          -- The token that is minted is not there yet.
          have habsent := hpending.unique.absent (List.mem_singleton_self _)
            (show IndexEntry.tokenId fresh.id ∈ _ by
              simp [UniqueIndex.added, Write.inserted, RefreshToken.entries, refreshTokenRow])
          apply absurd _ habsent
          apply Database.mem_entries.mpr
          have hid : row.id = fresh.id := by
            simpa [Write.keys, refreshTokenRow] using hlock
          exact ⟨row, hrow, .inl (by rw [hid])⟩
        | reused h => exact h.revoked row hrow hlock hnone
      | confirmReset dto salt =>
        rw [hreq] at hcommit
        rw [hview]
        generalize (c.procs i).log = log at hcommit
        generalize (c.procs i).locks = locks at hcommit
        cases hcommit with
        | neutral hreq => cases hreq
        | reset h => exact ⟨h.sameTokens, h.revoked⟩
      | _ =>
        rw [hreq] at hall
        cases hall
    refine ⟨hlocked.1, ?_⟩
    intro row hrow huser
    by_cases hnone : row.revokedAt = none
    . obtain ⟨revokedAt, hlog⟩ := hlocked.2 row hrow (hcomplete row hrow huser hnone) hnone
      rw [hview]
      exact isRevoked_replay hrow hlog
    . have hrevoked : IsRevoked row.tokenHash c.db := ⟨row, hrow, rfl, hnone⟩
      exact hrevoked.grows (.replay _ _)

theorem Database.Grows.older {db' : Database} (h : db.Grows db') (hdb' : db'.Valid)
    {row row' : RefreshToken} (hrow : row ∈ db.refreshTokens) (hrow' : row' ∈ db'.refreshTokens)
    (hid : row.id = row'.id) : row.Older row' := by
  obtain ⟨row'', hrow'', holder⟩ := h.tokens row hrow
  rw [hdb'.token_eq_of_id hrow' hrow'' (by rw [← hid, holder.id])]
  exact holder

theorem RevokesAll.persists {e : Event ι Database} {userId : Uuid}
    (h : RevokesAll svc reqs c e userId) (hrun : Run (.error .aborted) c c')
    : RevokesAll svc reqs c' e userId := by
  unfold RevokesAll at h ⊢
  split at h
  . rw [hrun.returned (Prog.eq_ret h.1)]
    exact ⟨rfl, h.2⟩
  . exact h
  . exact h

theorem Traded.userId (hdb : db.Valid)
    (hrun : RunWhere (.error .aborted) (NotOvertaken svc reqs) (System.start svc db reqs) c)
    {old new : RefreshToken} (h : Traded svc reqs c i old new) : new.userId = old.userId := by
  have hvalid := run_valid hdb hrun
  obtain ⟨dto, fresh, hreq, hhash⟩ := h.presented
  obtain ⟨_, _, c', tag, next, hclient, hcommitted, hexchange⟩ := h.exchange hdb hrun hreq
  have hrest := hcommitted.rest
  rw [hclient] at hrest
  obtain ⟨oldId, userId, htoken, ⟨row, hrow, hid, huser⟩, _⟩ := hexchange.rotation
  have hgrows : (c'.view i).Grows c.db := run_grows hrest
  have holder := hgrows.older hvalid hrow h.new_mem hid
  have htoken' := htoken.grows ((Database.Grows.replay _ _).trans hgrows)
  rw [holder.userId, huser, (htoken'.unique hvalid h.old_mem hhash).2]

theorem Database.Grows.mem_ids {db' : Database} (h : db.Grows db') {id : Uuid}
    (hid : id ∈ db.refreshTokens.map (·.id)) : id ∈ db'.refreshTokens.map (·.id) := by
  obtain ⟨row, hrow, heq⟩ := List.mem_map.mp hid
  obtain ⟨row', hrow', holder⟩ := h.tokens row hrow
  rw [← heq, ← holder.id]
  exact List.mem_map_of_mem hrow'

theorem exchange_after (hdb : db.Valid) {c1 c2 : System ι}
    (hrun2 : RunWhere (.error .aborted) (NotOvertaken svc reqs) (System.start svc db reqs) c2)
    (hcommits : c2.history = c1.history ++ [⟨i, c1.db, c2.db⟩]) {dto : RefreshDto}
    {fresh : FreshToken} {es : List (Event ι Database)} {e : Event ι Database} {tag : Stmt}
    {next : Program} (hreq : reqs e.client = .refresh dto fresh)
    (hcommitted : CommittedAt (.error .aborted) (NotOvertaken svc reqs) c2 c (c2.history ++ es) e c'
      tag next) {id : Uuid} (hexchange : Exchange svc reqs c' e.client dto fresh id)
    {row : RefreshToken} (hrow : row ∈ c'.db.refreshTokens)
    (hhash : row.tokenHash = svc.sha256 dto.refreshToken)
    (hall : RevokesAll svc reqs c2 ⟨i, c1.db, c2.db⟩ row.userId)
    : ¬ IsRevoked row.tokenHash c2.db := by
  intro hrevoked
  have hrun' := hrun2.trans hcommitted.reached
  have hother : e.client ≠ i := by
    intro heq
    have hresult := hall
    unfold RevokesAll at hresult
    dsimp only at hresult
    rw [← heq, hreq] at hresult
    have hprog := hcommitted.prog
    rw [hcommitted.reached.returned (Prog.eq_ret hresult.1)] at hprog
    cases hprog
  obtain ⟨oldId, userId, htoken, _, es1, e1, es2, hhistory, hclient, hflip1, _, hnone⟩ :=
    hexchange.rotation
  rw [(htoken.unique (run_valid hdb hrun') hrow hhash).2] at hall
  rw [hhash] at hrevoked
  have hsame : es1 ++ e1 :: es2 = c1.history ++ ⟨i, c1.db, c2.db⟩ :: es := by
    rw [← hhistory, hcommitted.history, hcommits]
    simp
  rcases event_order hsame with hmem | heq | ⟨es', hes⟩
  . exact hnone _ hmem (hall.persists hcommitted.reached.toRun)
  . rw [heq] at hclient
    exact hother hclient.symm
  . have hchain : Chain db c'.history c'.db := hrun'.chain
    rw [hhistory, hsame, hes] at hchain
    have hbetween := hchain.of_append.2.of_append.1
    apply hflip1
    apply hbetween.keeps _ hrevoked
    intro e' he' hrevoked'
    apply hrevoked'.grows (run_event hdb hrun' _).2
    rw [hhistory, hsame, hes]
    simp [he']

theorem Traded.before_revocation (hdb : db.Valid) {c1 c2 : System ι}
    (hrun1 : RunWhere (.error .aborted) (NotOvertaken svc reqs) (System.start svc db reqs) c1)
    (hstep : Step (.error .aborted) c1 i c2) (hallowed : NotOvertaken svc reqs c1 i c2)
    (hcommits : c2.history = c1.history ++ [⟨i, c1.db, c2.db⟩])
    (hrun2 : RunWhere (.error .aborted) (NotOvertaken svc reqs) c2 c) {old new : RefreshToken}
    (hall : RevokesAll svc reqs c2 ⟨i, c1.db, c2.db⟩ old.userId)
    (htraded : Traded svc reqs c j old new) (hold : old.id ∈ c1.db.refreshTokens.map (·.id))
    : new.id ∈ c1.db.refreshTokens.map (·.id) := by
  have hnext : RunWhere (.error .aborted) (NotOvertaken svc reqs) c1 c2 := .step .refl hallowed hstep
  have hrun := (hrun1.trans hnext).trans hrun2
  have hvalid := run_valid hdb hrun
  obtain ⟨row, hrow, hid⟩ := List.mem_map.mp hold
  have holder := (run_grows (hnext.trans hrun2)).older hvalid hrow htraded.old_mem hid
  obtain ⟨hsame, hrevoked⟩ := revoked_after hdb hrun1 hstep hallowed hcommits hall
  obtain ⟨dto, fresh, hreq, hhash⟩ := htraded.presented
  obtain ⟨e, he, hclient, hbefore, hafter⟩ := htraded.minted
  obtain ⟨rest, hrest⟩ := hrun2.history_prefix
  have hthree : e ∈ c1.history ∨ e = ⟨i, c1.db, c2.db⟩ ∨ e ∈ rest := by
    rw [← hrest, hcommits] at he
    simpa [or_assoc] using he
  rcases hthree with he | heq | he
  . obtain ⟨_, _, heq, _, hchain⟩ := hrun1.chain.split he
    apply hchain.keeps (P := fun db => new.id ∈ db.refreshTokens.map (·.id)) _ hafter
    intro e' he' hmem
    apply (run_event hdb hrun1 _).2.mem_ids hmem
    rw [heq]
    simp [he']
  . rw [heq] at hbefore hafter
    rw [← hsame]
    exact hafter
  . obtain ⟨es1, es2, heq⟩ := List.append_of_mem he
    have heq' : c.history = c2.history ++ es1 ++ e :: es2 := by
      rw [← hrest, heq, List.append_assoc]
    rw [← hclient] at hreq
    obtain ⟨c', tag, next, hcommitted, hexchange⟩ :=
      exchange_at hdb (hrun1.trans hnext) hrun2 hreq heq' hbefore hafter
    -- The row as it was when the refresh committed.
    obtain ⟨row', hrow', holder'⟩ := (run_grows (hnext.trans hcommitted.reached)).tokens row hrow
    apply absurd (hrevoked row hrow holder.userId.symm)
    rw [← holder'.tokenHash]
    apply exchange_after hdb (hrun1.trans hnext) hcommits hreq hcommitted hexchange hrow'
    . rw [holder'.tokenHash, ← holder.tokenHash, hhash]
    . rw [holder'.userId, ← holder.userId]
      exact hall

theorem Descends.not_live (hdb : db.Valid) {c1 c2 : System ι}
    (hrun1 : RunWhere (.error .aborted) (NotOvertaken svc reqs) (System.start svc db reqs) c1)
    (hstep : Step (.error .aborted) c1 i c2) (hallowed : NotOvertaken svc reqs c1 i c2)
    (hcommits : c2.history = c1.history ++ [⟨i, c1.db, c2.db⟩])
    (hrun2 : RunWhere (.error .aborted) (NotOvertaken svc reqs) c2 c) {row new : RefreshToken}
    (hall : RevokesAll svc reqs c2 ⟨i, c1.db, c2.db⟩ row.userId) (hrow : row ∈ c.db.refreshTokens)
    (hid : row.id ∈ c1.db.refreshTokens.map (·.id)) (hdesc : Descends svc reqs c row new)
    : ¬ new.Live c.db := by
  have hnext : RunWhere (.error .aborted) (NotOvertaken svc reqs) c1 c2 := .step .refl hallowed hstep
  have hrun := (hrun1.trans hnext).trans hrun2
  have hvalid := run_valid hdb hrun
  have hnew : new ∈ c.db.refreshTokens ∧ new.userId = row.userId
      ∧ new.id ∈ c1.db.refreshTokens.map (·.id) := by
    -- What a token from before the revocation was traded for is from before it, too.
    induction hdesc with
    | refl => exact ⟨hrow, rfl, hid⟩
    | tail _ htraded ih =>
      obtain ⟨j, htraded⟩ := htraded
      refine ⟨htraded.new_mem, (htraded.userId hdb hrun).trans ih.2.1, ?_⟩
      apply htraded.before_revocation hdb hrun1 hstep hallowed hcommits hrun2 _ ih.2.2
      rw [ih.2.1]
      exact hall
  obtain ⟨hmem, huser, hnewId⟩ := hnew
  obtain ⟨row1, hrow1, heq⟩ := List.mem_map.mp hnewId
  have holder := (run_grows (hnext.trans hrun2)).older hvalid hrow1 hmem heq
  have hrevoked : IsRevoked new.tokenHash c.db := by
    rw [holder.tokenHash]
    apply IsRevoked.grows _ (run_grows hrun2)
    apply (revoked_after hdb hrun1 hstep hallowed hcommits hall).2 row1 hrow1
    rw [← holder.userId, huser]
  intro hlive
  exact not_isRevoked hvalid hmem hlive.1 hrevoked

/--
What rotation promises in a state of the system.

- `once`: a token is traded once at most.
- `chain`: of two tokens that descend from a third, one descends from the other.
- `live`: at most one of them is live.
- `ended`: if a commit has revoked all tokens of a user, none that descends from them is live.
-/
structure Rotation (allowed : System ι → ι → System ι → Prop) (svc : Services) (db : Database)
    (reqs : ι → Request) (c : System ι) : Prop where
  once : ∀ i j old new new', Traded svc reqs c i old new → Traded svc reqs c j old new' →
    i = j ∧ new = new'
  chain : ∀ row new new', Descends svc reqs c row new → Descends svc reqs c row new' →
    Descends svc reqs c new new' ∨ Descends svc reqs c new' new
  live : ∀ row new new', Descends svc reqs c row new → Descends svc reqs c row new' →
    new.Live c.db → new'.Live c.db → new = new'
  ended : ∀ c1 i c2, RunWhere (.error .aborted) allowed (System.start svc db reqs) c1 →
    Step (.error .aborted) c1 i c2 → allowed c1 i c2 → RunWhere (.error .aborted) allowed c2 c →
      c2.history = c1.history ++ [⟨i, c1.db, c2.db⟩] → ∀ row ∈ c.db.refreshTokens,
        RevokesAll svc reqs c2 ⟨i, c1.db, c2.db⟩ row.userId →
          row.id ∈ c1.db.refreshTokens.map (·.id) →
            ∀ new, Descends svc reqs c row new → ¬ new.Live c.db

theorem rotation_holds {svc : Services} {reqs : ι → Request} {db : Database} {c : System ι}
    (hdb : db.Valid)
    (hrun : RunWhere (.error .aborted) (NotOvertaken svc reqs) (System.start svc db reqs) c)
    : Rotation (NotOvertaken svc reqs) svc db reqs c where
  once _ _ _ _ _ h h' := h.once hdb hrun h'
  chain _ _ _ h h' := h.total hdb hrun h'
  live _ _ _ h h' hlive hlive' := h.live_unique hdb hrun h' hlive hlive'
  ended _ _ _ hrun1 hstep hallowed hrun2 hcommits _ hrow hall hid _ hdesc :=
    hdesc.not_live hdb hrun1 hstep hallowed hcommits hrun2 hall hrow hid

def unovertaken (svc : Services) (reqs : ι → Request) (c : System ι) (i : ι) : Bool :=
  (match reqs i, (c.procs i).log with
    | .refresh dto _, [.insertRefreshToken _] => c.history.getLast?.any fun e =>
        e.client = i && e.before.refreshTokens.any fun old =>
          old.tokenHash = svc.sha256 dto.refreshToken && old.revokedAt.isNone
    | _, _ => true)
    && match (c.procs i).prog with
      | .commit .. => c.db.refreshTokens.all fun row =>
          row.revokedAt.isSome || decide (.refreshToken row.id ∈ (c.procs i).locks)
      | _ => true

theorem unovertaken_sound [Fintype ι] (h : unovertaken svc reqs c i) (hturn : c.turn i = some c')
    : NotOvertaken svc reqs c i c' := by
  unfold unovertaken at h
  rw [Bool.and_eq_true] at h
  constructor
  . intro _ dto fresh row hreq hlog
    have hlast := h.1
    rw [hreq, hlog] at hlast
    simp only [Option.any_eq_true, Bool.and_eq_true, decide_eq_true_eq, List.any_eq_true,
      Option.isNone_iff_eq_none] at hlast
    obtain ⟨e, he, hclient, hold⟩ := hlast
    obtain ⟨es, heq⟩ := List.getLast?_eq_some_iff.mp he
    refine ⟨es, e, [], heq, hclient, hold, ?_⟩
    simp
  . intro hcommits userId _ row hrow _ hnone
    have hlocked := h.2
    unfold Config.turn at hturn
    cases hprog : (c.procs i).prog with
    | commit tag next =>
      rw [hprog] at hlocked
      simp only [List.all_eq_true] at hlocked
      simpa [hnone] using hlocked row hrow
    | ret r => simp [hprog] at hturn
    | exec tag needs writes next =>
      rw [hprog] at hturn
      dsimp only at hturn
      split at hturn
      . cases hturn
        have hlength := congrArg List.length hcommits
        simp [Config.setProc] at hlength
      . cases hturn
    | rollback tag next =>
      rw [hprog] at hturn
      cases hturn
      have hlength := congrArg List.length hcommits
      simp [Config.setProc] at hlength

namespace Office

def token : RefreshToken where
  id := 10
  tokenHash := "first"
  userId := 1
  expiresAt := 1000
  revokedAt := none

def signedIn : Database :=
  { database with refreshTokens := [token] }

theorem signedIn_valid : signedIn.Valid where
  userIds := by decide
  unique := by
    unfold UniqueIndex.Unique
    decide

def trade (isFirst : Bool) : Request :=
  .refresh ⟨"first", by decide⟩ (if isFirst then ⟨"second", 11⟩ else ⟨"third", 12⟩)

def trades : System Bool :=
  .start services signedIn trade

def minters (c : System Bool) (id : Uuid) : List Bool :=
  (c.history.filter fun e =>
    id ∉ e.before.refreshTokens.map (·.id) && id ∈ e.after.refreshTokens.map (·.id)).map (·.client)

theorem traded_of_minters {c : System Bool} {i : Bool} {old new : RefreshToken}
    (hminters : i ∈ minters c new.id) (hhash : old.tokenHash = "first")
    (hold : old ∈ c.db.refreshTokens) (hnew : new ∈ c.db.refreshTokens)
    : Traded services trade c i old new where
  presented := ⟨_, _, rfl, hhash⟩
  minted := by
    unfold minters at hminters
    simp only [List.mem_map, List.mem_filter, Bool.and_eq_true, decide_eq_true_eq] at hminters
    obtain ⟨e, ⟨he, hbefore, hafter⟩, hclient⟩ := hminters
    refine ⟨e, he, hclient, ?_, ?_⟩
    . simpa using hbefore
    . simpa using hafter
  old_mem := hold
  new_mem := hnew

def second (revokedAt : Option DateTime) : RefreshToken :=
  { id := 11, tokenHash := "second", userId := 1, expiresAt := REFRESH_TTL, revokedAt }

def third : RefreshToken :=
  { id := 12, tokenHash := "third", userId := 1, expiresAt := REFRESH_TTL, revokedAt := none }

theorem trades_overlapping
    : (trades.turns ([true, false] ++ List.replicate 8 true ++ List.replicate 8 false)).map
          (fun c => (c.db.refreshTokens, minters c 11, minters c 12))
        =
      some ([{ token with revokedAt := some 0 }, second none, third], [true], [false]) := by
  decide +kernel

theorem trades_inTurn
    : (trades.turnsWhere (unovertaken services trade)
          (List.replicate 9 true ++ List.replicate 5 false)).map
          (fun c => (c.db.refreshTokens, minters c 11, (c.procs false).prog.result?))
        =
      some ([{ token with revokedAt := some 0 }, second (some 0)], [true], some reuseDetected) := by
  decide +kernel

end Office

/-- Refreshes that overtake each other trade one token twice. -/
theorem rotation_not_kept
    : ¬ ∀ (svc : Services) (db : Database) (reqs : Bool → Request) (c : System Bool), db.Valid →
        Run (.error .aborted) (System.start svc db reqs) c →
          Rotation (fun _ _ _ => True) svc db reqs c := by
  intro hall
  have hoverlapping := Office.trades_overlapping
  rw [Option.map_eq_some_iff] at hoverlapping
  obtain ⟨c, hturns, hfacts⟩ := hoverlapping
  rw [Prod.mk.injEq, Prod.mk.injEq] at hfacts
  obtain ⟨htokens, hsecond, hthird⟩ := hfacts
  have hrotation := hall Office.services Office.signedIn Office.trade c Office.signedIn_valid
    (Config.run_of_turns _ _ hturns)
  have htrade : ∀ i new, new ∈ c.db.refreshTokens → i ∈ Office.minters c new.id →
      Traded Office.services Office.trade c i { Office.token with revokedAt := some 0 } new := by
    intro i new hnew hminters
    apply Office.traded_of_minters hminters rfl _ hnew
    simp [htokens]
  have hfirst : true = false ∧ Office.second none = Office.third := by
    apply hrotation.once
    . apply htrade
      . simp [htokens]
      . rw [show (Office.second none).id = 11 from rfl, hsecond]
        exact List.mem_singleton_self _
    . apply htrade
      . simp [htokens]
      . rw [show Office.third.id = 12 from rfl, hthird]
        exact List.mem_singleton_self _
  cases hfirst.1

theorem rotation_holds_inTurn
    : ∃ c, c.db.refreshTokens
          = [{ Office.token with revokedAt := some 0 }, Office.second (some 0)]
        ∧ Office.minters c 11 = [true] ∧ (c.procs false).prog.result? = some reuseDetected
        ∧ Rotation (NotOvertaken Office.services Office.trade) Office.services Office.signedIn
          Office.trade c := by
  have hinTurn := Office.trades_inTurn
  rw [Option.map_eq_some_iff] at hinTurn
  obtain ⟨c, hturns, hfacts⟩ := hinTurn
  rw [Prod.mk.injEq, Prod.mk.injEq] at hfacts
  have hrun : RunWhere (.error .aborted) (NotOvertaken Office.services Office.trade) Office.trades c :=
    Config.run_of_turnsWhere _ (fun _ _ _ => unovertaken_sound) _ hturns
  exact ⟨c, hfacts.1, hfacts.2.1, hfacts.2.2, rotation_holds Office.signedIn_valid hrun⟩

end SentryPos.Auth
