import SentryPos.Platform.Effects

/-!
This module contains that the tokens of invites and resets are used once, by calls that do all that
belongs to it or nothing.
-/

namespace SentryPos.Platform

open ReadCommitted

/-- The token is marked as used. -/
def Database.Used (id : Uuid) (db : Database) : Prop :=
  ∃ row, db.auth.authToken? id = some row ∧ row.usedAt.isSome

theorem Database.Grows.used {db db' : Database} (h : db.Grows db') {id : Uuid} (hused : db.Used id)
    : db'.Used id := by
  obtain ⟨row, hrow, hsome⟩ := hused
  obtain ⟨usedAt, hrow', hkeeps⟩ := h.authTokens id row hrow
  exact ⟨_, hrow', hkeeps hsome⟩

theorem notUsed_replay {log : List Write} {db : Database} {id : Uuid} (h : ¬ db.Used id)
    (hinsert : ∀ row, .insertAuthToken row ∈ log → row.usedAt = none)
    (huse : ∀ usedAt, .auth (.useAuthToken id usedAt) ∉ log) : ¬ (replay log db).Used id := by
  refine replay_induction (P := fun db' : Database => ¬ db'.Used id) h ?_
  intro w hw db' hdb' hused
  apply hdb'
  rw [store_apply] at hused
  obtain ⟨row, hrow, hsome⟩ := hused
  cases hbefore : db'.auth.authToken? id with
  | some row' =>
    rw [w.authToken?_apply hbefore] at hrow
    refine ⟨row', hbefore, ?_⟩
    split at hrow
    . next id' usedAt =>
      have hid : id' ≠ id := by
        intro heq
        rw [heq] at hw
        exact huse _ hw
      rw [if_neg hid] at hrow
      cases hrow
      exact hsome
    . cases hrow
      exact hsome
  | none =>
    exfalso
    have hids := w.tokenIds_apply db'
    rw [Database.authToken?_eq_none] at hbefore
    have hmem : id ∈ (w.apply db').tokenIds := by
      by_contra hnone
      rw [Database.authToken?_eq_none.mpr hnone] at hrow
      cases hrow
    rw [hids, List.mem_append] at hmem
    have hnew := hmem.resolve_left hbefore
    cases w with
    | insertAuthToken row' =>
      have hid : id = row'.id := List.mem_singleton.mp hnew
      subst hid
      unfold Auth.Database.authToken? Write.apply at hrow
      dsimp only at hrow
      rw [Table.get_append, Table.get_eq_none.mpr, Option.none_or, Table.get_singleton_self] at hrow
      . cases hrow
        rw [hinsert _ hw] at hsome
        cases hsome
      . intro r hr heq
        apply hbefore
        rw [← heq]
        exact List.mem_map_of_mem hr
    | _ => cases hnew

theorem users_replay {log : List Write} {db : Database}
    (h : ∀ w ∈ log, ∀ db, (w.apply db).auth.users = db.auth.users)
    : (replay log db).auth.users = db.auth.users := by
  refine replay_induction (P := fun db' : Database => db'.auth.users = db.auth.users) rfl ?_
  intro w hw db' hdb'
  rw [store_apply, h w hw, hdb']

theorem Write.IsContent.apply {w : Write} (h : w.IsContent) (db : Database)
    : (w.apply db).auth = db.auth ∧ (w.apply db).businesses = db.businesses := by
  cases w with
  | insertBranch | insertCatalog | insertAudit => exact ⟨rfl, rfl⟩
  | _ => exact h.elim

theorem contents_replay {log : List Write} (h : ∀ w ∈ log, w.IsContent) (db : Database)
    : (replay log db).auth = db.auth ∧ (replay log db).businesses = db.businesses := by
  refine replay_induction (P := fun db' : Database =>
    db'.auth = db.auth ∧ db'.businesses = db.businesses) ⟨rfl, rfl⟩ ?_
  intro w hw db' hdb'
  have hsame := (h w hw).apply db'
  exact ⟨hsame.1.trans hdb'.1, hsame.2.trans hdb'.2⟩

theorem Write.IsRevocation.users {w : Write} (h : w.IsRevocation) (db : Database)
    : (w.apply db).auth.users = db.auth.users := by
  cases w with
  | auth w =>
    cases w with
    | revokeRefreshToken => rfl
    | _ => exact h.elim
  | insertAudit => rfl
  | _ => exact h.elim

structure UsedToken (svc : Auth.Services) (token : String) (kind : Auth.AuthTokenKind)
    (passwordHash : String) (row : Auth.AuthToken) (before after : Database) : Prop where
  found : before.auth.authToken? row.id = some row
  tokenHash : row.tokenHash = svc.sha256 token
  kind : row.kind = kind
  unused : row.usedAt = none
  used : after.Used row.id
  password : after.auth.user? row.userId
    = (before.auth.user? row.userId).map fun user => { user with passwordHash := some passwordHash }

/-- What the acceptance of an invite does to the owner of the user. -/
def Activated (fresh : FreshDemo) (ownerId : Option Uuid) (before after : Database) : Prop :=
  match ownerId with
  | some ownerId =>
    after.auth.owner? ownerId
        = (before.auth.owner? ownerId).map (fun owner => { owner with status := .active })
      ∧ after.businesses = before.businesses ++ [demoBusiness ownerId fresh]
  | none => after.auth.owners = before.auth.owners ∧ after.businesses = before.businesses

theorem UsedToken.flips {svc : Auth.Services} {token passwordHash : String}
    {kind : Auth.AuthTokenKind} {row : Auth.AuthToken} {ι : Type} {e : Event ι Database}
    (h : UsedToken svc token kind passwordHash row e.before e.after)
    : e.Flips (Database.Used row.id) := by
  refine ⟨?_, h.used⟩
  intro hused
  obtain ⟨row', hrow', hsome⟩ := hused
  rw [h.found] at hrow'
  cases hrow'
  rw [h.unused] at hsome
  cases hsome

section Committed

variable {svc : Auth.Services} {since : DateTime} {states : Database → Prop} {db : Database}
  {token passwordHash : String} {kind : Auth.AuthTokenKind} {row : Auth.AuthToken}
  {usedAt : DateTime} {rest : List Write}

/-- The first two writes of a call that uses a token, and what the others leave as it is. -/
theorem usedToken_replay (hrow : Consumed svc since token kind row db)
    (hrest : ∀ w ∈ rest, ∀ db, (w.apply db).auth.users = db.auth.users)
    : UsedToken svc token kind passwordHash row db
        (replay
          (.auth (.useAuthToken row.id usedAt) :: .auth (.setPassword row.userId passwordHash) :: rest)
          db) where
  found := hrow.authToken
  tokenHash := hrow.tokenHash
  kind := hrow.kind
  unused := hrow.unused
  used := by
    rw [replay_cons, store_apply]
    apply (growth.replay _ _).used
    have hmarked := Write.authToken?_apply (.auth (.useAuthToken row.id usedAt)) hrow.authToken
    dsimp only at hmarked
    rw [if_pos rfl] at hmarked
    exact ⟨_, hmarked, rfl⟩
  password := by
    have husers : (replay rest (Write.apply (.auth (.setPassword row.userId passwordHash))
          (Write.apply (.auth (.useAuthToken row.id usedAt)) db))).auth.users
        = (Write.apply (.auth (.setPassword row.userId passwordHash))
          (Write.apply (.auth (.useAuthToken row.id usedAt)) db)).auth.users :=
      users_replay hrest
    rw [replay_cons, replay_cons, store_apply, store_apply]
    unfold Auth.Database.user?
    rw [husers]
    exact Table.get_modify_self (fun _ => rfl)

variable {db' : Database}

theorem users_activates {fresh : FreshDemo} {ownerId : Option Uuid} (h : Activates fresh ownerId rest)
    : ∀ w ∈ rest, ∀ db, (w.apply db).auth.users = db.auth.users := by
  have hcontent : ∀ w : Write, w.IsContent → ∀ db, (w.apply db).auth.users = db.auth.users := by
    intro w hw db
    rw [(hw.apply db).1]
  intro w hw
  cases ownerId with
  | none => exact hcontent w (h w hw)
  | some ownerId =>
    obtain ⟨contents, heq, hcontents⟩ := h
    rw [heq, List.mem_cons, List.mem_cons] at hw
    rcases hw with hw | hw | hw
    . rw [hw]
      exact fun _ => rfl
    . rw [hw]
      exact fun _ => rfl
    . exact hcontent w (hcontents w hw)

theorem accepted_committed {dto : InviteAcceptDto} {salt : String} {fresh : FreshDemo}
    (h : ((Request.acceptInvite dto salt fresh).contract svc since states).Committed db db')
    : ∃ row, since ≤ row.expiresAt
        ∧ UsedToken svc dto.token .invite (svc.hashSecret salt dto.password) row db db'
        ∧ Activated fresh (db.ownerOf row.userId) db db' := by
  obtain ⟨locks, log, _, ⟨row, usedAt, rest, hrow, hlog, hrest⟩, rfl⟩ := h
  subst hlog
  refine ⟨row, hrow.since, usedToken_replay hrow (users_activates hrest), ?_⟩
  rw [replay_cons, replay_cons, store_apply, store_apply]
  cases howner : db.ownerOf row.userId with
  | none =>
    rw [howner] at hrest
    have hsame := contents_replay hrest
    exact ⟨congrArg (·.owners) (hsame _).1, (hsame _).2⟩
  | some ownerId =>
    rw [howner] at hrest
    obtain ⟨contents, heq, hcontents⟩ := hrest
    subst heq
    rw [replay_cons, replay_cons, store_apply, store_apply]
    have hsame := contents_replay hcontents
    constructor
    . unfold Auth.Database.owner?
      rw [(hsame _).1]
      exact Table.get_modify_self (fun _ => rfl)
    . rw [(hsame _).2]
      rfl

theorem reset_committed {dto : Auth.PasswordResetConfirmDto} {salt : String}
    (h : ((Request.confirmReset dto salt).contract svc since states).Committed db db')
    : ∃ row, since ≤ row.expiresAt
        ∧ UsedToken svc dto.token .reset (svc.hashSecret salt dto.password) row db db' := by
  obtain ⟨locks, log, _, ⟨row, usedAt, rest, hrow, hlog, hrest⟩, rfl⟩ := h
  subst hlog
  exact ⟨row, hrow.since, usedToken_replay hrow fun w hw => (hrest w hw).users⟩

theorem used_id {Rest : Option Uuid → List Write → Prop} {log : List Write} {id : Uuid}
    (h : UsesToken svc since token passwordHash kind Rest log db)
    (hrest : ∀ ownerId rest, Rest ownerId rest → ∀ w ∈ rest, ∀ id usedAt,
      w ≠ .auth (.useAuthToken id usedAt))
    (hmem : .auth (.useAuthToken id usedAt) ∈ log)
    : ∃ row, row.id = id ∧ Consumed svc since token kind row db := by
  obtain ⟨row, usedAt', rest, hrow, hlog, hfinish⟩ := h
  rw [hlog, List.mem_cons, List.mem_cons] at hmem
  rcases hmem with hmem | hmem | hmem
  . cases hmem
    exact ⟨row, rfl, hrow⟩
  . cases hmem
  . exact absurd rfl (hrest _ _ hfinish _ hmem id usedAt)

end Committed

def Request.Presents (svc : Auth.Services) (row : Auth.AuthToken) : Request → Prop
  | acceptInvite dto _ _ => row.kind = .invite ∧ row.tokenHash = svc.sha256 dto.token
  | confirmReset dto _ => row.kind = .reset ∧ row.tokenHash = svc.sha256 dto.token
  | _ => False

theorem flips_committed {svc : Auth.Services} {since : DateTime} {states : Database → Prop}
    {req : Request} {ι : Type} {e : Event ι Database} {id : Uuid}
    (h : (req.contract svc since states).Committed e.before e.after)
    (hflips : e.Flips (Database.Used id))
    : ∃ row, e.before.auth.authToken? id = some row ∧ since ≤ row.expiresAt ∧ req.Presents svc row
    := by
  obtain ⟨locks, log, _, hcommit, hafter⟩ := h
  have hmay := Request.may_of_commit hcommit
  obtain ⟨usedAt, hmem⟩ : ∃ usedAt, .auth (.useAuthToken id usedAt) ∈ log := by
    by_contra hnone
    apply notUsed_replay hflips.1 _ (not_exists.mp hnone)
    . rw [← hafter]
      exact hflips.2
    . intro row hrow
      exact may_insertAuthToken (hmay _ hrow)
  rcases may_useAuthToken (hmay _ hmem) with ⟨dto, salt, fresh, hreq⟩ | ⟨dto, salt, hreq⟩
  . subst hreq
    have hrest : ∀ ownerId rest, Activates fresh ownerId rest → ∀ w ∈ rest, ∀ id usedAt,
        w ≠ .auth (.useAuthToken id usedAt) := by
      intro ownerId rest hrest w hw id usedAt heq
      cases ownerId with
      | none =>
        have hcontent : w.IsContent := hrest w hw
        rw [heq] at hcontent
        exact hcontent
      | some ownerId =>
        obtain ⟨contents, hlog, hcontents⟩ := hrest
        rw [hlog, heq, List.mem_cons, List.mem_cons] at hw
        rcases hw with hw | hw | hw
        . cases hw
        . cases hw
        . exact hcontents _ hw
    obtain ⟨row, hid, hrow⟩ := used_id hcommit hrest hmem
    rw [← hid]
    exact ⟨row, hrow.authToken, hrow.since, hrow.kind, hrow.tokenHash⟩
  . subst hreq
    have hrest : ∀ ownerId rest, Resets ownerId rest → ∀ w ∈ rest, ∀ id usedAt,
        w ≠ .auth (.useAuthToken id usedAt) := by
      intro ownerId rest hrest w hw id usedAt heq
      have hrevocation := hrest w hw
      rw [heq] at hrevocation
      exact hrevocation
    obtain ⟨row, hid, hrow⟩ := used_id hcommit hrest hmem
    rw [← hid]
    exact ⟨row, hrow.authToken, hrow.since, hrow.kind, hrow.tokenHash⟩

section Run

variable {ι : Type} [DecidableEq ι] {svc : Auth.Services} {catalog : DemoCatalog} {db : Database}
  {reqs : ι → Request} {c : System ι}

/--
What holds of tokens in a run: no two commits use one token, the call that does presents it to the
endpoint of its kind and has not begun after the expiry of the token. Every commit of such a call uses
the token that it presents, along with all that goes with it, and a call that throws has not committed
anything.
-/
structure TokensOnce (svc : Auth.Services) (catalog : DemoCatalog) (db : Database)
    (reqs : ι → Request) (c : System ι) : Prop where
  once : ∀ id, ∀ e ∈ c.history, ∀ e' ∈ c.history,
    e.Flips (Database.Used id) → e'.Flips (Database.Used id) → e = e'
  own : ∀ id, ∀ e ∈ c.history, e.Flips (Database.Used id) →
    ∃ row, e.before.auth.authToken? id = some row ∧ (reqs e.client).Presents svc row
  inTime : ∀ i c1,
    RunWhere (.error .aborted) (fun _ j _ => j ≠ i) (System.start svc catalog db reqs) c1 →
      Run (.error .aborted) c1 c → ∀ id, ∀ e ∈ c.history, e.client = i →
        e.Flips (Database.Used id) →
          ∃ row, e.before.auth.authToken? id = some row ∧ c1.db.auth.clock ≤ row.expiresAt
  accepts : ∀ e ∈ c.history, ∀ dto salt fresh, reqs e.client = .acceptInvite dto salt fresh →
    ∃ row, e.Flips (Database.Used row.id)
      ∧ UsedToken svc dto.token .invite (svc.hashSecret salt dto.password) row e.before e.after
      ∧ Activated fresh (e.before.ownerOf row.userId) e.before e.after
  resets : ∀ e ∈ c.history, ∀ dto salt, reqs e.client = .confirmReset dto salt →
    ∃ row, e.Flips (Database.Used row.id)
      ∧ UsedToken svc dto.token .reset (svc.hashSecret salt dto.password) row e.before e.after
  atomic : ∀ i r, (c.procs i).prog = .ret r →
    ((∃ dto salt fresh, reqs i = .acceptInvite dto salt fresh)
      ∨ ∃ dto salt, reqs i = .confirmReset dto salt) → OneCommit r (c.commitsOf i)

theorem tokens_used_once (hdb : db.Valid)
    (hrun : Run (.error .aborted) (System.start svc catalog db reqs) c)
    : TokensOnce svc catalog db reqs c := by
  have hkept := run_kept hdb hrun
  constructor
  . intro id e he e' he' hflips hflips'
    apply hrun.chain.flips_unique _ he he' hflips hflips'
    intro e'' he'' hused
    obtain ⟨log, _, hafter⟩ := committed_may (hkept.events e'' he'')
    rw [hafter]
    exact (growth.replay log _).used hused
  . intro id e he hflips
    obtain ⟨row, hrow, _, hpresents⟩ := flips_committed (hkept.events e he) hflips
    exact ⟨row, hrow, hpresents⟩
  . intro i c1 hbefore hafter id e he hclient hflips
    have hevent := (run_kept_late hdb hbefore hafter).events e he
    simp only [if_pos hclient] at hevent
    obtain ⟨row, hrow, hsince, _⟩ := flips_committed hevent hflips
    exact ⟨row, hrow, hsince⟩
  . intro e he dto salt fresh hreq
    have hevent := hkept.events e he
    simp only [hreq] at hevent
    obtain ⟨row, _, hused, hactivated⟩ := accepted_committed hevent
    exact ⟨row, hused.flips, hused, hactivated⟩
  . intro e he dto salt hreq
    have hevent := hkept.events e he
    simp only [hreq] at hevent
    obtain ⟨row, _, hused⟩ := reset_committed hevent
    exact ⟨row, hused.flips, hused⟩
  . intro i r hret hreq
    have hpost := hkept.returned i r hret
    rcases hreq with ⟨dto, salt, fresh, hreq⟩ | ⟨dto, salt, hreq⟩
    . simp only [hreq] at hpost
      exact hpost
    . simp only [hreq] at hpost
      exact hpost

end Run

namespace Shop

/-- The owner has not accepted the invite yet, which expires after 100 milliseconds. -/
def invited : Database :=
  { database with
    auth.users := [{ user with passwordHash := none }]
    auth.authTokens := [⟨5, .invite, "invite", 2, 100, none⟩] }

def acceptance : InviteAcceptDto where
  token := "invite"
  password := "password"
  token_ne := by decide
  password_length := by decide

def demo : FreshDemo where
  businessId := 12
  branchId := 22
  categoryId _ := 50
  groupId _ := 51
  productId _ := 52

/-- An acceptance while time passes. -/
def late : Fin 2 → Request
  | 0 => .acceptInvite acceptance "salt" demo
  | 1 => .auth (.tick 200) (by simp)

/-- The expiry is checked before the time passes and the token is marked after. -/
def lateSchedule : List (Fin 2) :=
  inRounds 1 [[2, 2], [12, 0]]

def token (usedAt : Option DateTime) : Auth.AuthToken where
  id := 5
  kind := .invite
  tokenHash := "invite"
  userId := 2
  expiresAt := 100
  usedAt

theorem late_accepted
    : ((System.start services catalog invited late).turns lateSchedule).map
          (fun c => (
            c.history.map fun e => (e.before.auth.authToken? 5, e.after.auth.authToken? 5),
            (c.procs 0).prog.result?))
        = some ([
            (some (token none), some (token none)),
            (some (token none), some (token (some 200)))],
          some (.ok .done)) := by
  decide +kernel

theorem invited_valid : invited.Valid := by
  unfold Database.Valid UniqueIndex.Unique
  exact List.nodup_singleton _

end Shop

/-- A token may be used after its expiry, if that comes between the check and the update. -/
theorem tokens_used_late
    : ¬ ∀ (svc : Auth.Services) (catalog : DemoCatalog) (db : Database) (reqs : Fin 2 → Request)
        (c : System (Fin 2)), db.Valid →
          Run (.error .aborted) (System.start svc catalog db reqs) c →
            ∀ e ∈ c.history, ∀ id row row' usedAt, e.Flips (Database.Used id) →
              e.before.auth.authToken? id = some row → e.after.auth.authToken? id = some row' →
                row'.usedAt = some usedAt → usedAt < row.expiresAt := by
  intro hall
  have haccepted := Shop.late_accepted
  rw [Option.map_eq_some_iff] at haccepted
  obtain ⟨c, hturns, hc⟩ := haccepted
  rw [Prod.mk.injEq] at hc
  have hrun := Config.run_of_turns (.error .aborted) _ hturns
  have hmem : (some (Shop.token none), some (Shop.token (some 200)))
      ∈ c.history.map fun e => (e.before.auth.authToken? 5, e.after.auth.authToken? 5) := by
    rw [hc.1]
    simp
  obtain ⟨e, he, heq⟩ := List.mem_map.mp hmem
  rw [Prod.mk.injEq] at heq
  have hflips : e.Flips (Database.Used 5) := by
    constructor
    . intro hused
      obtain ⟨row, hrow, hsome⟩ := hused
      rw [heq.1] at hrow
      cases hrow
      cases hsome
    . exact ⟨_, heq.2, rfl⟩
  have hlate := hall _ _ _ _ c Shop.invited_valid hrun e he 5 _ _ 200 hflips heq.1 heq.2 rfl
  exact absurd hlate (by decide)

theorem tokens_used_once_shop
    : ∃ c, Run (.error .aborted) (System.start Shop.services Shop.catalog Shop.invited Shop.late) c
        ∧ TokensOnce Shop.services Shop.catalog Shop.invited Shop.late c
        ∧ (c.procs 0).prog = .ret (.ok .done) := by
  have haccepted := Shop.late_accepted
  rw [Option.map_eq_some_iff] at haccepted
  obtain ⟨c, hturns, hc⟩ := haccepted
  rw [Prod.mk.injEq] at hc
  have hrun := Config.run_of_turns (.error .aborted) _ hturns
  exact ⟨c, hrun, tokens_used_once Shop.invited_valid hrun, Prog.eq_ret hc.2⟩

end SentryPos.Platform
