import SentryPos.Auth.Effects

/-!
This module contains what each request of authentication may commit, and the proof that it commits
nothing else in any run with any other requests.
-/

namespace SentryPos.Auth

open ReadCommitted

/-- A write that concerns neither the refresh tokens nor an enrolled second factor. -/
def Write.isNeutral : Write → Bool
  | tick _ | setFailures .. | setPendingSecret .. | setLastTimeStep .. => true
  | _ => false

def Write.isRevocation : Write → Bool
  | useAuthToken .. | setPassword .. | revokeRefreshToken .. => true
  | _ => false

structure RevokedAll (locks : List Key) (log : List Write) (db : Database) : Prop where
  writes : ∀ w ∈ log, w.isRevocation
  revoked : ∀ row ∈ db.refreshTokens, .refreshToken row.id ∈ locks → row.revokedAt = none →
    ∃ revokedAt, .revokeRefreshToken row.id revokedAt ∈ log

def Database.HasToken (db : Database) (tokenHash : String) (id userId : Uuid) : Prop :=
  ∃ row ∈ db.refreshTokens, row.tokenHash = tokenHash ∧ row.id = id ∧ row.userId = userId

def ValidCode (svc : Services) (l : Env Database Write Key Stmt) (userId : Uuid) (code : String)
    : Prop :=
  ∃ user secret timeStep, Saw l (fun db => db.user? userId = some user)
    ∧ truthy user.totpSecret = some secret
    ∧ Saw l fun db => svc.verifySync code secret db.clock user.totpLastTimeStep = some timeStep

def RecoveryCode (svc : Services) (l : Env Database Write Key Stmt) (userId : Uuid) (code : String)
    (codes : List String) (k : Nat) : Prop :=
  ∃ user, Saw l (fun db => db.user? userId = some user) ∧ user.totpRecoveryCodes = codes
    ∧ matchRecoveryCode svc user code = some k

def Request.isNeutral : Request → Bool
  | .login .. | .setup .. | .verify .. | .verifyPin .. | .tick _ => true
  | _ => false

inductive Request.Commit (svc : Services) (l : Env Database Write Key Stmt)
    : Request → List Key → List Write → Database → Prop where
  | neutral {req : Request} {locks : List Key} {w : Write} {db : Database} (hreq : req.isNeutral)
      (hw : w.isNeutral) : Commit svc l req locks [w] db
  | enabled {bearer : Option String} {dto : TotpEnableDto} {fresh : FreshCodes} {userId : Uuid}
      {secret : String} {codes : List String} {locks : List Key} {db : Database}
      : Commit svc l (.enable bearer dto fresh) locks [.enableTotp userId secret codes] db
  | recovered {dto : TotpVerifyDto} {fresh : FreshToken} {userId : Uuid} {codes : List String}
      {k : Nat} {locks : List Key} {db : Database}
      (hcode : RecoveryCode svc l userId dto.code codes k)
      : Commit svc l (.verify dto fresh) locks [.setRecoveryCodes userId (codes.eraseIdx k)] db
  | verified {dto : TotpVerifyDto} {fresh : FreshToken} {userId : Uuid} {now : DateTime}
      {locks : List Key} {db : Database}
      : Commit svc l (.verify dto fresh) locks
          [.insertRefreshToken (refreshTokenRow svc userId fresh now)] db
  | loggedIn {dto : LoginDto} {fresh : FreshToken} {user : User} {now : DateTime}
      {locks : List Key} {db : Database} (hrole : (user.id, UserRole.owner) ∈
        db.users.map fun u => (u.id, u.role))
      : Commit svc l (.login dto fresh) locks
          [.insertRefreshToken (refreshTokenRow svc user.id fresh now)] db
  | rotated {dto : RefreshDto} {fresh : FreshToken} {id userId : Uuid} {revokedAt : DateTime}
      {db : Database} (htoken : db.HasToken (svc.sha256 dto.refreshToken) id userId)
      : Commit svc l (.refresh dto fresh) [.refreshToken id] [.revokeRefreshToken id revokedAt] db
  | exchanged {dto : RefreshDto} {fresh : FreshToken} {id userId : Uuid} {now : DateTime}
      {db : Database} (htoken : db.HasToken (svc.sha256 dto.refreshToken) id userId)
      : Commit svc l (.refresh dto fresh)
          (Write.insertRefreshToken (refreshTokenRow svc userId fresh now)).keys
          [.insertRefreshToken (refreshTokenRow svc userId fresh now)] db
  | reused {dto : RefreshDto} {fresh : FreshToken} {locks : List Key} {log : List Write}
      {db : Database} (h : RevokedAll locks log db)
      : Commit svc l (.refresh dto fresh) locks log db
  | loggedOut {dto : RefreshDto} {id : Uuid} {revokedAt : DateTime} {locks : List Key}
      {db : Database} : Commit svc l (.logout dto) locks [.revokeRefreshToken id revokedAt] db
  | reset {dto : PasswordResetConfirmDto} {salt : String} {locks : List Key} {log : List Write}
      {db : Database} (h : RevokedAll locks log db)
      : Commit svc l (.confirmReset dto salt) locks log db

def SameTokens (db db' : Database) : Prop :=
  db'.refreshTokens.map (·.id) = db.refreshTokens.map (·.id)

/-- The recovery code has been taken off the list by the transaction. -/
def UsedCode (svc : Services) (l : Env Database Write Key Stmt) (userId : Uuid) (code : String)
    (e : Database × Database) : Prop :=
  ∃ codes k, RecoveryCode svc l userId code codes k
    ∧ e.2 = (Write.setRecoveryCodes userId (codes.eraseIdx k)).apply e.1
    ∧ l.Assume .updateUser [.setRecoveryCodes userId (codes.eraseIdx k)] e.1

/--
What the commits of a request are like together. A refresh first revokes the token that it presents
and then commits once more at most, a verification only mints a token after a right code.
-/
def Request.Made (svc : Services) (l : Env Database Write Key Stmt) (req : Request)
    (commits : List (Database × Database)) : Prop :=
  match req with
  | .refresh dto _ =>
    ∀ e rest, commits = e :: rest → SameTokens e.1 e.2
      ∧ (∀ row ∈ e.2.refreshTokens, row.tokenHash = svc.sha256 dto.refreshToken →
          row.revokedAt ≠ none)
      ∧ rest.length ≤ 1
  | .verify dto _ =>
    ∀ e ∈ commits, SameTokens e.1 e.2
      ∨ ∃ userId now fresh,
          e.2 = (Write.insertRefreshToken (refreshTokenRow svc userId fresh now)).apply e.1
            ∧ (ValidCode svc l userId dto.code ∨ ∃ e' ∈ commits, UsedCode svc l userId dto.code e')
  | _ => True

def reuseDetected : Except ApiError Response :=
  .error (.unauthorized "Refresh token reuse detected.")

structure Request.Post (svc : Services) (l : Env Database Write Key Stmt) (req : Request)
    (r : Except ApiError Response) (commits : List (Database × Database)) (log : List Write)
    (locks : List Key) (db : Database) : Prop where
  log : log = []
  locks : locks = []
  made : req.Made svc l commits
  reuse : ∀ dto fresh, req = .refresh dto fresh → r = reuseDetected → commits.length ≤ 1

def Request.logic (svc : Services) (l : Env Database Write Key Stmt) (req : Request)
    : Logic Database Write Key Stmt where
  toEnv := l
  Guar locks log db := Pending log locks db ∧ db.Valid ∧ req.Commit svc l locks log db
  Mid := req.Made svc l

/-- A property of the commits of a request that commits of neutral writes keep. -/
structure Neutral (l : Logic Database Write Key Stmt) (J : List (Database × Database) → Prop)
    : Prop where
  mid : ∀ commits, J commits → l.Mid commits
  guar : ∀ (w : Write) db, w.isNeutral → l.Inv db → Pending [w] w.keys db → l.Guar w.keys [w] db
  keep : ∀ commits (w : Write) db, J commits → w.isNeutral → J (commits ++ [(db, w.apply db)])

section Rules

variable {svc : Services} {l : Logic Database Write Key Stmt} {R : Type}
  {J : List (Database × Database) → Prop} {ok : Post Database Write Key R}
  {err : Post Database Write Key ApiError} {commits : List (Database × Database)} {db : Database}
  {tag : Stmt} {kind : LockoutKind} {userId : Uuid}

theorem wp_update_neutral (hl : AuthEnv l) (hn : Neutral l J) {w : Write} (hw : w.isNeutral)
    {ok : Post Database Write Key Unit} (hJ : J commits)
    (hok : ∀ db', db.Grows db' → l.Inv db' →
      ok () (commits ++ [(db', w.apply db')]) [] [] (w.apply db'))
    (herr : ∀ db' e, db.Grows db' → l.Inv db' → err e commits [] [] db')
    : Call.wp l (AuthCall.update tag w) ok err commits [] [] db := by
  apply AuthCall.wp_update hl (hn.mid _ hJ)
  . intro db' hgrows hinv hpending _
    exact ⟨hn.guar w db' hw hinv hpending, hok db' hgrows hinv⟩
  . exact herr

theorem wp_assertNotLocked (hl : AuthEnv l) (hmid : l.Mid commits) (user : User)
    {ok : Post Database Write Key Unit} (hok : ∀ db', db.Grows db' → ok () commits [] [] db')
    (herr : ∀ db' e, db.Grows db' → err e commits [] [] db')
    : Call.wp l (assertNotLocked user kind) ok err commits [] [] db := by
  unfold assertNotLocked
  split
  . rw [Call.wp_bind]
    apply AuthCall.wp_query hl hmid
    intro db' hgrows _
    split
    . exact herr db' _ hgrows
    . exact hok db' hgrows
  . exact hok db (.refl db)

theorem wp_recordFailure (hl : AuthEnv l) (hn : Neutral l J) (hJ : J commits)
    (herr : ∀ e commits db', J commits → db.Grows db' → err e commits [] [] db')
    : Call.wp l (recordFailure userId kind : AuthCall R) ok err commits [] [] db := by
  unfold recordFailure
  rw [Call.wp_bind]
  apply AuthCall.wp_findUniqueOrThrow hl (hn.mid _ hJ)
  . intro db1 user hgrows1 _ _
    rw [Call.wp_bind]
    apply AuthCall.wp_query hl (hn.mid _ hJ)
    intro db2 hgrows2 _
    rw [Call.wp_bind]
    apply wp_update_neutral hl hn rfl hJ
    . intro db3 hgrows3 _
      apply herr _ _ _ (hn.keep _ _ _ hJ rfl)
      exact ((hgrows1.trans hgrows2).trans hgrows3).trans (.apply _ db3)
    . intro db3 e hgrows3 _
      exact herr e _ db3 hJ ((hgrows1.trans hgrows2).trans hgrows3)
  . intro db1 hgrows1 _
    exact herr _ _ db1 hJ hgrows1

theorem wp_recordSuccess (hl : AuthEnv l) (hn : Neutral l J) (hJ : J commits)
    {ok : Post Database Write Key Unit}
    (hok : ∀ commits db', J commits → db.Grows db' → ok () commits [] [] db')
    (herr : ∀ e commits db', J commits → db.Grows db' → err e commits [] [] db')
    : Call.wp l (recordSuccess userId kind) ok err commits [] [] db := by
  unfold recordSuccess
  apply wp_update_neutral hl hn rfl hJ
  . intro db' hgrows _
    exact hok _ _ (hn.keep _ _ _ hJ rfl) (hgrows.trans (.apply _ db'))
  . intro db' e hgrows _
    exact herr e _ db' hJ hgrows

theorem wp_withLockout (hl : AuthEnv l) (hn : Neutral l J) (hJ : J commits) (user : User)
    (valid : Bool) {next : AuthCall R}
    (hok : ∀ commits db', J commits → db.Grows db' → Call.wp l next ok err commits [] [] db')
    (herr : ∀ e commits db', J commits → db.Grows db' → err e commits [] [] db')
    : Call.wp l (withLockout user kind valid next) ok err commits [] [] db := by
  unfold withLockout
  rw [Call.wp_bind]
  apply wp_assertNotLocked hl (hn.mid _ hJ)
  . intro db1 hgrows1
    rw [Call.wp_bind]
    apply AuthCall.wp_query hl (hn.mid _ hJ)
    intro db2 hgrows2 _
    have hgrows := hgrows1.trans hgrows2
    cases valid with
    | true =>
      simp only [if_true]
      rw [Call.wp_bind]
      apply wp_recordSuccess hl hn hJ
      . intro commits db3 hJ3 hgrows3
        exact hok commits db3 hJ3 (hgrows.trans hgrows3)
      . intro e commits db3 hJ3 hgrows3
        exact herr e commits db3 hJ3 (hgrows.trans hgrows3)
    | false =>
      simp only [Bool.false_eq_true, if_false]
      apply wp_recordFailure hl hn hJ
      intro e commits db3 hJ3 hgrows3
      exact herr e commits db3 hJ3 (hgrows.trans hgrows3)
  . intro db1 e hgrows1
    exact herr e _ db1 hJ hgrows1

theorem wp_mintTokenPair (hl : AuthEnv l) (hmid : l.Mid commits) {role : UserRole}
    {ownerId : Option Uuid} {fresh : FreshToken} {ok : Post Database Write Key TokenPair}
    (hok : ∀ now db', db.Grows db' → l.Inv db' →
      Pending [.insertRefreshToken (refreshTokenRow svc userId fresh now)]
          (Write.insertRefreshToken (refreshTokenRow svc userId fresh now)).keys db' →
        l.Guar (Write.insertRefreshToken (refreshTokenRow svc userId fresh now)).keys
            [.insertRefreshToken (refreshTokenRow svc userId fresh now)] db'
          ∧ l.Mid (commits ++
              [(db', (Write.insertRefreshToken (refreshTokenRow svc userId fresh now)).apply db')])
          ∧ ∀ pair db'', ok pair (commits ++
              [(db', (Write.insertRefreshToken (refreshTokenRow svc userId fresh now)).apply db')])
              [] [] db'')
    (herr : ∀ e db', err e commits [] [] db')
    : Call.wp l (mintTokenPair svc userId role ownerId fresh) ok err commits [] [] db := by
  unfold mintTokenPair AuthCall.now
  rw [Call.wp_bind]
  apply AuthCall.wp_query hl hmid
  intro db1 hgrows1 _
  rw [Call.wp_bind]
  apply AuthCall.wp_update hl hmid
  . intro db2 hgrows2 hinv2 hpending _
    obtain ⟨hguar, hmid', hpost⟩ := hok _ db2 (hgrows1.trans hgrows2) hinv2 hpending
    refine ⟨hguar, ?_⟩
    rw [Call.wp_bind]
    apply AuthCall.wp_query hl hmid'
    intro db3 _ _
    exact hpost _ db3
  . intro db2 e _ _
    exact herr e db2

theorem wp_revokeAll (hl : AuthEnv l) (hmid : l.Mid commits) {log : List Write} {locks : List Key}
    (hpending : Pending log locks db) (hlog : ∀ w ∈ log, w.isRevocation ∧ w.revoked? = none)
    (hlocks : ∀ id, .refreshToken id ∉ locks) {ok : Post Database Write Key Unit}
    (hok : ∀ db' log' locks', db.Grows db' → Pending log' locks' db' →
      (∀ db'', KeptAll Write locks' db' db'' → db''.Valid → RevokedAll locks' log' db'') →
        ok () commits log' locks' db')
    : Call.wp l (revokeAll userId) ok err commits log locks db := by
  unfold revokeAll AuthCall.now
  rw [Call.wp_bind]
  apply Call.wp_query hmid
  intro db1 hrely1 hinv1 _
  rw [Call.wp_bind]
  apply Call.wp_queryOnTx hmid
  intro db2 hrely2 hinv2 _
  generalize hids : ((replay log db2).refreshTokens.filter fun r =>
    r.userId = userId && r.revokedAt.isNone).map (·.id) = ids
  apply Call.wp_write hmid
  . intro db3 ws hrely3 hinv3 _ hcheck
    cases hcheck
    have hkept : KeptAll Write locks db db3 :=
      ((hl.kept _ _ _ _ hrely1).trans (hl.kept _ _ _ _ hrely2)).trans (hl.kept _ _ _ _ hrely3)
    have hgrows : db.Grows db3 :=
      ((hl.grows _ _ _ _ hrely1).trans (hl.grows _ _ _ _ hrely2)).trans (hl.grows _ _ _ _ hrely3)
    have hpending3 := hpending.stable hkept (hl.valid db3 hinv3)
    have hview : ∀ id, (replay log db3).refreshToken? id = db3.refreshToken? id := by
      intro id
      apply replay_induction
        (P := fun db' : Database => db'.refreshToken? id = db3.refreshToken? id) rfl
      intro w hw db' hdb'
      rw [store_apply, Write.refreshToken?_apply _ db', hdb']
      have hrevoked := (hlog w hw)
      cases w with
      | useAuthToken | setPassword => simp [Write.keys]
      | revokeRefreshToken => simp [Write.revoked?] at hrevoked
      | _ => simp [Write.isRevocation] at hrevoked
    have hws : ∀ w ∈ (ids.filter fun id =>
        ((replay log db3).refreshToken? id).any (·.revokedAt.isNone)).map
          (Write.revokeRefreshToken · db1.clock),
        ∃ id ∈ ids, w = .revokeRefreshToken id db1.clock := by
      intro w hw
      obtain ⟨id, hid, heq⟩ := List.mem_map.mp hw
      exact ⟨id, List.mem_of_mem_filter hid, heq.symm⟩
    apply hok db3 _ _ hgrows
    . constructor
      . apply hpending3.covered.append
        intro w hw k hk
        obtain ⟨id, hid, heq⟩ := hws w hw
        rw [heq] at hk
        rw [List.mem_singleton.mp hk]
        exact List.mem_map_of_mem hid
      . rw [replay_append]
        unfold UniqueIndex.Unique
        rw [(UniqueIndex.entries_replay _ _).nodup_iff, List.nodup_append]
        refine ⟨hpending3.unique, ?_, ?_⟩
        all_goals
          have hnone : ∀ w ∈ (ids.filter fun id =>
              ((replay log db3).refreshToken? id).any (·.revokedAt.isNone)).map
                (Write.revokeRefreshToken · db1.clock), UniqueIndex.added w = [] := by
            intro w hw
            obtain ⟨id, _, heq⟩ := hws w hw
            rw [heq]
            rfl
          rw [List.flatMap_eq_nil_iff.mpr hnone]
          simp
    . intro db4 hkept4 hvalid4
      constructor
      . intro w hw
        cases List.mem_append.mp hw with
        | inl hw => exact (hlog w hw).1
        | inr hw =>
          obtain ⟨id, _, heq⟩ := hws w hw
          rw [heq]
          rfl
      . intro row hrow hlock hnone
        have hsame : db4.refreshToken? row.id = db3.refreshToken? row.id := (hkept4 _ hlock).1
        have hid : row.id ∈ ids := by
          cases List.mem_append.mp hlock with
          | inl hlock => exact absurd hlock (hlocks row.id)
          | inr hlock =>
            obtain ⟨id, hid, heq⟩ := List.mem_map.mp hlock
            cases heq
            exact hid
        refine ⟨db1.clock, List.mem_append_right _ (List.mem_map_of_mem ?_)⟩
        rw [List.mem_filter]
        refine ⟨hid, ?_⟩
        rw [hview, ← hsame, hvalid4.refreshToken_eq hrow, Option.any_some, hnone]
        rfl
  . intro db3 e _ _ hcheck
    cases hcheck

theorem wp_consumeToken (hl : AuthEnv l) (hmid : l.Mid commits) {token : String}
    {kind : AuthTokenKind} {ok : Post Database Write Key AuthToken}
    (hok : ∀ row usedAt db', Pending [.useAuthToken row.id usedAt] [.authToken row.id] db' →
      ok row commits [.useAuthToken row.id usedAt] [.authToken row.id] db')
    (herr : ∀ e locks db', err e commits [] locks db')
    : Call.wp l (consumeToken svc token kind) ok err commits [] [] db := by
  unfold consumeToken AuthCall.now
  rw [Call.wp_bind]
  apply Call.wp_queryOnTx hmid
  intro db1 _ _ _
  split
  . exact herr _ _ _
  . split
    . exact herr _ _ _
    . rw [Call.wp_bind]
      apply AuthCall.wp_query hl hmid
      intro db2 _ _
      split
      . exact herr _ _ _
      . rw [Call.wp_bind]
        apply AuthCall.wp_query hl hmid
        intro db3 _ _
        rw [Call.wp_bind]
        apply Call.wp_write hmid
        . intro db4 ws _ hinv4 _ hcheck
          split at hcheck
          . cases hcheck
            apply hok
            constructor
            . intro w hw k hk
              rw [List.mem_singleton.mp hw] at hk
              exact hk
            . exact (hl.valid db4 hinv4).unique
          . cases hcheck
        . intro db4 e _ _ _
          exact herr _ _ _

end Rules

section Requests

variable {svc : Services} {l : Env Database Write Key Stmt} {db : Database}
  {commits : List (Database × Database)}

theorem sameTokens_neutral {w : Write} (hw : w.isNeutral) (db : Database)
    : SameTokens db (w.apply db) := by
  unfold SameTokens
  rw [w.refreshTokens_apply]
  cases w with
  | insertRefreshToken | revokeRefreshToken => cases hw
  | _ => rfl

theorem neutral_of_made (hl : AuthEnv l) {req : Request} (hreq : req.isNeutral) (hmade : ∀ commits, req.Made svc l commits)
    : Neutral (req.logic svc l) fun _ => True where
  mid commits _ := hmade commits
  guar _ db hw hinv hpending := ⟨hpending, hl.valid db hinv, .neutral hreq hw⟩
  keep _ _ _ _ _ := trivial

theorem Request.Post.of_made {req : Request} (hmade : ∀ commits, req.Made svc l commits)
    (hreq : ∀ dto fresh, req ≠ .refresh dto fresh) (r : Except ApiError Response)
    (commits : List (Database × Database)) (db : Database) : req.Post svc l r commits [] [] db :=
  ⟨rfl, rfl, hmade commits, fun dto fresh heq _ => absurd heq (hreq dto fresh)⟩

theorem wp_preauthGuard (hl : AuthEnv l) {req : Request} (hmade : ∀ commits, req.Made svc l commits)
    {bearer : Option String} {ok : Post Database Write Key JwtPayload}
    {err : Post Database Write Key ApiError}
    (hok : ∀ payload db', db.Grows db' → ok payload commits [] [] db')
    (herr : ∀ e db', err e commits [] [] db')
    : Call.wp (req.logic svc l) (preauthGuard svc bearer) ok err commits [] [] db := by
  unfold preauthGuard AuthCall.now
  cases bearer with
  | none => exact herr _ db
  | some token =>
    dsimp only
    rw [Call.wp_bind]
    apply AuthCall.wp_query hl (hmade commits)
    intro db1 hgrows _
    split
    . exact herr _ db1
    . split
      . exact herr _ db1
      . exact hok _ db1 hgrows

theorem wp_setup (hl : AuthEnv l) (bearer : Option String) (secret : String)
    : ((Request.setup bearer secret).prog svc).wp ((Request.setup bearer secret).logic svc l)
        ((Request.setup bearer secret).Post svc l) [] [] [] db := by
  have hmade : ∀ commits, (Request.setup bearer secret).Made svc l commits := fun _ => trivial
  have hpost := Request.Post.of_made hmade (by simp)
  have hn := neutral_of_made hl rfl hmade
  unfold Request.prog
  rw [Call.wp_run]
  unfold Request.call setup generateSetup
  rw [Call.wp_bind, Call.wp_bind]
  apply wp_preauthGuard hl hmade
  . intro payload db1 hgrows1
    rw [Call.wp_bind]
    apply AuthCall.wp_findUniqueOrThrow hl trivial
    . intro db2 user hgrows2 _ _
      rw [Call.wp_bind]
      apply wp_update_neutral hl hn rfl trivial
      . intro db3 _ _
        exact hpost _ _ _
      . intro db3 e _ _
        exact hpost _ _ _
    . intro db2 _ _
      exact hpost _ _ _
  . intro e db1
    exact hpost _ _ _

theorem wp_enable (hl : AuthEnv l) (bearer : Option String) (dto : TotpEnableDto) (fresh : FreshCodes)
    : ((Request.enable bearer dto fresh).prog svc).wp ((Request.enable bearer dto fresh).logic svc l)
        ((Request.enable bearer dto fresh).Post svc l) [] [] [] db := by
  have hmade : ∀ commits, (Request.enable bearer dto fresh).Made svc l commits := fun _ => trivial
  have hpost := Request.Post.of_made hmade (by simp)
  unfold Request.prog
  rw [Call.wp_run]
  unfold Request.call enable enableTotp
  rw [Call.wp_bind, Call.wp_bind]
  apply wp_preauthGuard hl hmade
  . intro payload db1 _
    rw [Call.wp_bind]
    apply AuthCall.wp_findUniqueOrThrow hl trivial
    . intro db2 user _ _ _
      split
      . exact hpost _ _ _
      . next pending _ =>
        unfold AuthCall.now
        rw [Call.wp_bind]
        apply AuthCall.wp_query hl trivial
        intro db3 _ _
        split
        . exact hpost _ _ _
        . rw [Call.wp_bind]
          apply AuthCall.wp_update hl trivial
          . intro db4 _ hinv4 hpending _
            exact ⟨⟨hpending, hl.valid db4 hinv4, .enabled⟩, hpost _ _ _⟩
          . intro db4 e _ _
            exact hpost _ _ _
    . intro db2 _ _
      exact hpost _ _ _
  . intro e db1
    exact hpost _ _ _

theorem wp_login (hl : AuthEnv l) (dto : LoginDto) (fresh : FreshToken)
    : ((Request.login dto fresh).prog svc).wp ((Request.login dto fresh).logic svc l)
        ((Request.login dto fresh).Post svc l) [] [] [] db := by
  have hmade : ∀ commits, (Request.login dto fresh).Made svc l commits := fun _ => trivial
  have hpost := Request.Post.of_made hmade (by simp)
  have hn := neutral_of_made hl rfl hmade
  unfold Request.prog
  rw [Call.wp_run]
  unfold Request.call login
  rw [Call.wp_bind, Call.wp_bind]
  apply AuthCall.wp_query hl trivial
  intro db1 _ _
  split
  . exact hpost _ _ _
  . next user hfind =>
    have hrole : (user.id, user.role) ∈ db1.users.map fun u => (u.id, u.role) :=
      List.mem_map_of_mem (List.mem_of_find?_eq_some hfind)
    apply wp_withLockout hl hn trivial
    . intro commits db2 _ hgrows2
      unfold finishLogin assertNotSuspended
      rw [Call.wp_bind]
      have hissue : ∀ db3, db2.Grows db3 →
          Call.wp ((Request.login dto fresh).logic svc l) (issueTokens svc user fresh)
            (fun r commits log locks db => ((Request.login dto fresh).Post svc l) (.ok (.login r))
              commits log locks db)
            (fun e commits log locks db => ((Request.login dto fresh).Post svc l) (.error e) commits
              log locks db) commits [] [] db3 := by
        intro db3 hgrows3
        unfold issueTokens AuthCall.now
        cases hadmin : user.role with
        | platform_admin =>
          dsimp only
          rw [Call.wp_bind]
          apply AuthCall.wp_query hl trivial
          intro db4 _ _
          split
          . exact hpost _ _ _
          . exact hpost _ _ _
        | owner =>
          dsimp only
          rw [Call.wp_bind]
          apply wp_mintTokenPair hl trivial
          . intro now db4 hgrows4 hinv4 hpending
            rw [hadmin, ← hgrows2.users, ← hgrows3.users, ← hgrows4.users] at hrole
            exact ⟨⟨hpending, hl.valid db4 hinv4, .loggedIn hrole⟩, trivial, fun _ _ => hpost _ _ _⟩
          . intro e db4
            exact hpost _ _ _
      split
      . rw [Call.wp_bind]
        apply AuthCall.wp_query hl trivial
        intro db3 hgrows3 _
        split
        . exact hpost _ _ _
        . exact hissue db3 hgrows3
      . exact hissue db2 (.refl db2)
    . intro e commits db2 _ _
      exact hpost _ _ _

theorem wp_logout (hl : AuthEnv l) (dto : RefreshDto)
    : ((Request.logout dto).prog svc).wp ((Request.logout dto).logic svc l)
        ((Request.logout dto).Post svc l) [] [] [] db := by
  have hmade : ∀ commits, (Request.logout dto).Made svc l commits := fun _ => trivial
  have hpost := Request.Post.of_made hmade (by simp)
  unfold Request.prog
  rw [Call.wp_run]
  unfold Request.call logout findRefreshToken revokePresented AuthCall.now
  rw [Call.wp_bind, Call.wp_bind]
  apply AuthCall.wp_query hl trivial
  intro db1 _ _
  split
  . exact hpost _ _ _
  . split
    . rw [Call.wp_bind]
      apply AuthCall.wp_query hl trivial
      intro db2 _ _
      apply AuthCall.wp_update hl trivial
      . intro db3 _ hinv3 hpending _
        exact ⟨⟨hpending, hl.valid db3 hinv3, .loggedOut⟩, hpost _ _ _⟩
      . intro db3 e _ _
        exact hpost _ _ _
    . exact hpost _ _ _

theorem wp_verifyPin (hl : AuthEnv l) (ownerId : Uuid) (pin : String)
    : ((Request.verifyPin ownerId pin).prog svc).wp ((Request.verifyPin ownerId pin).logic svc l)
        ((Request.verifyPin ownerId pin).Post svc l) [] [] [] db := by
  have hmade : ∀ commits, (Request.verifyPin ownerId pin).Made svc l commits := fun _ => trivial
  have hpost := Request.Post.of_made hmade (by simp)
  have hn := neutral_of_made hl rfl hmade
  unfold Request.prog
  rw [Call.wp_run]
  unfold Request.call verifyPinWithLockout
  rw [Call.wp_bind, Call.wp_bind]
  apply AuthCall.wp_query hl trivial
  intro db1 _ _
  split
  . exact hpost _ _ _
  . split
    . exact hpost _ _ _
    . apply wp_withLockout hl hn trivial
      . intro commits db2 _ _
        exact hpost _ _ _
      . intro e commits db2 _ _
        exact hpost _ _ _

theorem wp_tick (hl : AuthEnv l) (ms : Nat)
    : ((Request.tick ms).prog svc).wp ((Request.tick ms).logic svc l)
        ((Request.tick ms).Post svc l) [] [] [] db := by
  have hmade : ∀ commits, (Request.tick ms).Made svc l commits := fun _ => trivial
  have hpost := Request.Post.of_made hmade (by simp)
  unfold Request.prog
  rw [Call.wp_run]
  unfold Request.call
  rw [Call.wp_bind]
  apply wp_update_neutral hl (neutral_of_made hl rfl hmade) rfl trivial
  . intro db1 _ _
    exact hpost _ _ _
  . intro db1 e _ _
    exact hpost _ _ _

theorem wp_confirmReset (hl : AuthEnv l) (dto : PasswordResetConfirmDto) (salt : String)
    : ((Request.confirmReset dto salt).prog svc).wp ((Request.confirmReset dto salt).logic svc l)
        ((Request.confirmReset dto salt).Post svc l) [] [] [] db := by
  have hmade : ∀ commits, (Request.confirmReset dto salt).Made svc l commits := fun _ => trivial
  have hpost := Request.Post.of_made hmade (by simp)
  unfold Request.prog
  rw [Call.wp_run]
  unfold Request.call confirmReset
  rw [Call.wp_bind]
  apply Call.wp_transaction
  rw [Call.wp_bind]
  apply wp_consumeToken hl trivial
  . intro row usedAt db1 hpending1
    rw [Call.wp_bind]
    apply AuthCall.wp_execute hl trivial hpending1
    . intro db2 hpending2
      apply wp_revokeAll hl trivial hpending2
      . simp [Write.isRevocation, Write.revoked?]
      . simp [Write.keys]
      . intro db3 log locks _ hpending3 hrevoked
        refine ⟨trivial, ?_⟩
        intro db4 hrely4 hinv4 _
        have hkept := hl.kept _ _ _ _ hrely4
        have hvalid := hl.valid db4 hinv4
        exact ⟨⟨hpending3.stable hkept hvalid, hvalid, .reset (hrevoked db4 hkept hvalid)⟩,
          hpost _ _ _⟩
    . intro db2 e
      refine ⟨trivial, ?_⟩
      intro _ _ _
      exact hpost _ _ _
  . intro e locks db1
    refine ⟨trivial, ?_⟩
    intro _ _ _
    exact hpost _ _ _

theorem Database.HasToken.grows {db db' : Database} {tokenHash : String} {id userId : Uuid}
    (h : db.HasToken tokenHash id userId) (hgrows : db.Grows db') : db'.HasToken tokenHash id userId := by
  obtain ⟨row, hrow, hhash, hid, huser⟩ := h
  obtain ⟨row', hrow', holder⟩ := hgrows.tokens row hrow
  exact ⟨row', hrow', holder.tokenHash.trans hhash, holder.id.trans hid, holder.userId.trans huser⟩

theorem Database.HasToken.unique {tokenHash : String} {id userId : Uuid}
    (h : db.HasToken tokenHash id userId) (hdb : db.Valid) {row : RefreshToken}
    (hrow : row ∈ db.refreshTokens) (hhash : row.tokenHash = tokenHash)
    : row.id = id ∧ row.userId = userId := by
  obtain ⟨row', hrow', hhash', hid, huser⟩ := h
  have heq : row = row' := by
    apply List.inj_on_of_nodup_map hdb.tokenHashes hrow hrow'
    rw [hhash, hhash']
  rw [heq]
  exact ⟨hid, huser⟩

theorem made_rotated {dto : RefreshDto} {fresh : FreshToken} {id userId : Uuid} {revokedAt : DateTime}
    (hdb : db.Valid) (htoken : db.HasToken (svc.sha256 dto.refreshToken) id userId)
    : (Request.refresh dto fresh).Made svc l [(db, (Write.revokeRefreshToken id revokedAt).apply db)] := by
  intro e rest heq
  cases heq
  refine ⟨?_, ?_, Nat.zero_le 1⟩
  . unfold SameTokens
    apply Table.map_modify
    intro row
    rfl
  . intro row hrow hhash
    cases Table.mem_modify hrow with
    | inl hrow => exact absurd (htoken.unique hdb hrow.2 hhash).1 hrow.1
    | inr hrow =>
      obtain ⟨_, _, _, heq⟩ := hrow
      rw [heq]
      simp

theorem RevokedAll.sameTokens {locks : List Key} {log : List Write} (h : RevokedAll locks log db)
    : SameTokens db (replay log db) := by
  apply replay_induction (P := SameTokens db) rfl
  intro w hw db' hdb'
  unfold SameTokens at hdb' ⊢
  rw [← hdb', store_apply, w.refreshTokens_apply]
  cases w with
  | revokeRefreshToken =>
    apply Table.map_modify
    intro row
    rfl
  | useAuthToken | setPassword => rfl
  | _ => cases h.writes _ hw

theorem made_reused {dto : RefreshDto} {fresh : FreshToken} {row : RefreshToken} {db' : Database}
    {locks : List Key} {log : List Write} (hrow : row ∈ db.refreshTokens)
    (hhash : row.tokenHash = svc.sha256 dto.refreshToken) (hrevoked : row.revokedAt.isSome)
    (hgrows : db.Grows db') (hdb' : db'.Valid) (hpending : Pending log locks db')
    (hall : RevokedAll locks log db')
    : (Request.refresh dto fresh).Made svc l [(db', replay log db')] := by
  intro e rest heq
  cases heq
  refine ⟨hall.sameTokens, ?_, Nat.zero_le 1⟩
  intro row' hrow' hhash' hnone
  obtain ⟨later, hlater, holder⟩ := (hgrows.trans (.replay log db')).tokens row hrow
  have heq : row' = later := by
    apply List.inj_on_of_nodup_map (hpending.valid hdb').tokenHashes hrow' hlater
    rw [hhash', holder.tokenHash, hhash]
  rw [heq] at hnone
  rw [holder.revoked hnone] at hrevoked
  cases hrevoked

theorem wp_rotation (hl : AuthEnv l) (hinv : l.Inv db) {dto : RefreshDto} {fresh : FreshToken}
    {row : RefreshToken} (hrow : row ∈ db.refreshTokens)
    (hhash : row.tokenHash = svc.sha256 dto.refreshToken) {rest : AuthCall TokenPair}
    {ok : Post Database Write Key TokenPair} {err : Post Database Write Key ApiError}
    (hrest : ∀ db' revokedAt, db'.Valid →
      db'.HasToken (svc.sha256 dto.refreshToken) row.id row.userId →
        Call.wp ((Request.refresh dto fresh).logic svc l) rest ok err
          [(db', (Write.revokeRefreshToken row.id revokedAt).apply db')] [] []
          ((Write.revokeRefreshToken row.id revokedAt).apply db'))
    (herr : ∀ e commits db', (Request.refresh dto fresh).Made svc l commits → commits.length ≤ 1 →
      err e commits [] [] db')
    : Call.wp ((Request.refresh dto fresh).logic svc l)
        (do
          if row.revokedAt.isSome then
            Call.transaction .commit (revokeAll row.userId)
            throw (.unauthorized "Refresh token reuse detected.")
          let now ← AuthCall.now
          if row.expiresAt < now then
            revokePresented row
            throw (.unauthorized "Refresh token has expired.")
          revokePresented row
          rest) ok err [] [] [] db := by
  have hnil : (Request.refresh dto fresh).Made svc l [] := by
    intro e rest heq
    cases heq
  have htoken : db.HasToken (svc.sha256 dto.refreshToken) row.id row.userId :=
    ⟨row, hrow, hhash, rfl, rfl⟩
  split
  . next hrevoked =>
    rw [Call.wp_bind]
    apply Call.wp_transaction
    apply wp_revokeAll hl hnil (.nil (hl.valid db hinv) []) (by simp) (by simp)
    intro db1 log locks hgrows1 hpending1 hall
    refine ⟨hnil, ?_⟩
    intro db2 hrely2 hinv2 _
    have hkept := hl.kept _ _ _ _ hrely2
    have hvalid := hl.valid db2 hinv2
    have hpending2 := hpending1.stable hkept hvalid
    have hgrows2 := hgrows1.trans (hl.grows _ _ _ _ hrely2)
    have hmade : (Request.refresh dto fresh).Made svc l [(db2, replay log db2)] :=
      made_reused hrow hhash hrevoked hgrows2 hvalid hpending2 (hall db2 hkept hvalid)
    exact ⟨⟨hpending2, hvalid, .reused (hall db2 hkept hvalid)⟩, herr _ _ _ hmade (le_refl 1)⟩
  . unfold revokePresented AuthCall.now
    rw [Call.wp_bind]
    apply AuthCall.wp_query hl hnil
    intro db1 hgrows1 _
    split
    . rw [Call.wp_bind, Call.wp_bind]
      apply AuthCall.wp_query hl hnil
      intro db2 hgrows2 _
      apply AuthCall.wp_update hl hnil
      . intro db3 hgrows3 hinv3 hpending _
        have htoken3 := htoken.grows ((hgrows1.trans hgrows2).trans hgrows3)
        have hvalid := hl.valid db3 hinv3
        exact ⟨⟨hpending, hvalid, .rotated htoken3⟩,
          herr _ _ _ (made_rotated hvalid htoken3) (le_refl 1)⟩
      . intro db3 e _ _
        exact herr _ _ _ hnil (Nat.zero_le 1)
    . rw [Call.wp_bind, Call.wp_bind]
      apply AuthCall.wp_query hl hnil
      intro db2 hgrows2 _
      apply AuthCall.wp_update hl hnil
      . intro db3 hgrows3 hinv3 hpending _
        have htoken3 := htoken.grows ((hgrows1.trans hgrows2).trans hgrows3)
        have hvalid := hl.valid db3 hinv3
        exact ⟨⟨hpending, hvalid, .rotated htoken3⟩, hrest db3 _ hvalid htoken3⟩
      . intro db3 e _ _
        exact herr _ _ _ hnil (Nat.zero_le 1)

theorem wp_refresh (hl : AuthEnv l) (dto : RefreshDto) (fresh : FreshToken)
    : ((Request.refresh dto fresh).prog svc).wp ((Request.refresh dto fresh).logic svc l)
        ((Request.refresh dto fresh).Post svc l) [] [] [] db := by
  have hnil : (Request.refresh dto fresh).Made svc l [] := by
    intro e rest heq
    cases heq
  have hfail : ∀ e commits db', (Request.refresh dto fresh).Made svc l commits → commits.length ≤ 1 →
      (Request.refresh dto fresh).Post svc l (.error e) commits [] [] db' := by
    intro e commits db' hmade hlength
    exact ⟨rfl, rfl, hmade, fun _ _ _ _ => hlength⟩
  unfold Request.prog
  rw [Call.wp_run]
  unfold Request.call refresh
  rw [Call.wp_bind, Call.wp_bind]
  apply AuthCall.wp_query hl hnil
  intro db1 hgrows1 hinv1
  split
  . exact hfail _ _ _ hnil (Nat.zero_le 1)
  . next row user hfound =>
    obtain ⟨row', hfind, heq⟩ := Option.map_eq_some_iff.mp hfound
    cases heq
    have hrow := List.mem_of_find?_eq_some hfind
    have hhash : row.tokenHash = svc.sha256 dto.refreshToken := by
      simpa using List.find?_some hfind
    split
    . apply wp_rotation hl hinv1 hrow hhash
      . intro db2 revokedAt hvalid htoken
        exact hfail _ _ _ (made_rotated hvalid htoken) (le_refl 1)
      . exact hfail
    . next user huser =>
      have hid : user.id = row.userId := Table.key_of_get huser
      apply wp_rotation hl hinv1 hrow hhash
      . intro db2 revokedAt hvalid htoken
        have hmade : (Request.refresh dto fresh).Made svc l
            [(db2, (Write.revokeRefreshToken row.id revokedAt).apply db2)] :=
          made_rotated hvalid htoken
        apply wp_mintTokenPair hl hmade
        . intro now db3 hgrows3 hinv3 hpending
          have htoken3 := (htoken.grows (.apply _ db2)).grows hgrows3
          have hboth : ∀ e, (Request.refresh dto fresh).Made svc l
              [(db2, (Write.revokeRefreshToken row.id revokedAt).apply db2), e] := by
            intro e e0 rest heq
            cases heq
            obtain ⟨hsame, hrevoked, _⟩ := hmade _ [] rfl
            exact ⟨hsame, hrevoked, le_refl 1⟩
          rw [hid] at hpending ⊢
          refine ⟨⟨hpending, hl.valid db3 hinv3, .exchanged htoken3⟩, hboth _, ?_⟩
          intro pair db4
          exact ⟨rfl, rfl, hboth _, fun _ _ _ hr => by cases hr⟩
        . intro e db3
          exact hfail e _ db3 hmade (le_refl 1)
      . exact hfail

def Unminted (commits : List (Database × Database)) : Prop :=
  ∀ e ∈ commits, SameTokens e.1 e.2

def RightCode (svc : Services) (l : Env Database Write Key Stmt) (userId : Uuid) (code : String)
    (commits : List (Database × Database)) : Prop :=
  Unminted commits ∧ (ValidCode svc l userId code ∨ ∃ e ∈ commits, UsedCode svc l userId code e)

theorem Unminted.snoc (h : Unminted commits) {e : Database × Database} (he : SameTokens e.1 e.2)
    : Unminted (commits ++ [e]) := by
  intro e' he'
  cases List.mem_append.mp he' with
  | inl he' => exact h e' he'
  | inr he' =>
    rw [List.mem_singleton.mp he']
    exact he

theorem Unminted.made (h : Unminted commits) (dto : TotpVerifyDto) (fresh : FreshToken)
    : (Request.verify dto fresh).Made svc l commits := by
  intro e he
  exact .inl (h e he)

theorem neutral_unminted (hl : AuthEnv l) (dto : TotpVerifyDto) (fresh : FreshToken)
    : Neutral ((Request.verify dto fresh).logic svc l) Unminted where
  mid _ h := h.made dto fresh
  guar _ db hw hinv hpending := ⟨hpending, hl.valid db hinv, .neutral rfl hw⟩
  keep _ _ db h hw := h.snoc (sameTokens_neutral hw db)

theorem RightCode.snoc {userId : Uuid} {code : String} (h : RightCode svc l userId code commits)
    {e : Database × Database} (he : SameTokens e.1 e.2)
    : RightCode svc l userId code (commits ++ [e]) := by
  refine ⟨h.1.snoc he, h.2.imp id ?_⟩
  intro ⟨e', he', hused⟩
  exact ⟨e', List.mem_append_left _ he', hused⟩

theorem neutral_rightCode (hl : AuthEnv l) (dto : TotpVerifyDto) (fresh : FreshToken) (userId : Uuid)
    : Neutral ((Request.verify dto fresh).logic svc l) (RightCode svc l userId dto.code) where
  mid _ h := h.1.made dto fresh
  guar _ db hw hinv hpending := ⟨hpending, hl.valid db hinv, .neutral rfl hw⟩
  keep _ _ db h hw := h.snoc (sameTokens_neutral hw db)

theorem wp_useRecoveryCode (hl : AuthEnv l) {dto : TotpVerifyDto} {fresh : FreshToken} {user : User}
    (hsaw : Saw l fun db => db.user? user.id = some user) (hJ : Unminted commits)
    {ok : Post Database Write Key Unit} {err : Post Database Write Key ApiError}
    (hok : ∀ commits db', RightCode svc l user.id dto.code commits → ok () commits [] [] db')
    (herr : ∀ e db', err e commits [] [] db')
    : Call.wp ((Request.verify dto fresh).logic svc l) (useRecoveryCode svc user dto.code) ok err
        commits [] [] db := by
  unfold useRecoveryCode
  split
  . exact herr _ db
  . next k hmatch =>
    have hcode : RecoveryCode svc l user.id dto.code user.totpRecoveryCodes k :=
      ⟨user, hsaw, rfl, hmatch⟩
    apply AuthCall.wp_update hl (hJ.made dto fresh)
    . intro db' _ hinv hpending hassume
      refine ⟨⟨hpending, hl.valid db' hinv, .recovered hcode⟩, ?_⟩
      apply hok
      refine ⟨hJ.snoc rfl, .inr ⟨_, List.mem_append_right _ (List.mem_singleton_self _), ?_⟩⟩
      exact ⟨user.totpRecoveryCodes, k, hcode, rfl, hassume⟩
    . intro db' e _ _
      exact herr e db'

theorem wp_verifyTotp (hl : AuthEnv l) {dto : TotpVerifyDto} {fresh : FreshToken} {userId : Uuid}
    (hJ : Unminted commits) {ok : Post Database Write Key Unit}
    {err : Post Database Write Key ApiError}
    (hok : ∀ commits db', RightCode svc l userId dto.code commits → ok () commits [] [] db')
    (herr : ∀ e commits db', Unminted commits → err e commits [] [] db')
    : Call.wp ((Request.verify dto fresh).logic svc l) (verifyTotp svc userId dto.code) ok err
        commits [] [] db := by
  unfold verifyTotp
  rw [Call.wp_bind]
  apply AuthCall.wp_findUniqueOrThrow hl (hJ.made dto fresh)
  . intro db1 user _ hinv1 huser
    have hid : user.id = userId := Table.key_of_get huser
    have hsaw : Saw l fun db => db.user? userId = some user := ⟨db1, hinv1, huser⟩
    subst hid
    split
    . exact herr _ _ _ hJ
    . next secret hsecret =>
      unfold AuthCall.now
      rw [Call.wp_bind]
      apply AuthCall.wp_query hl (hJ.made dto fresh)
      intro db2 _ hinv2
      split
      . next timeStep hverified =>
        have hvalid : ValidCode svc l user.id dto.code :=
          ⟨user, secret, timeStep, hsaw, hsecret, db2, hinv2, hverified⟩
        rw [Call.wp_tryCatch]
        apply wp_update_neutral hl (neutral_unminted hl dto fresh) rfl hJ
        . intro db3 _ _
          exact hok _ _ ⟨hJ.snoc rfl, .inl hvalid⟩
        . intro db3 e _ _
          exact wp_useRecoveryCode hl hsaw hJ hok fun e db' => herr e _ db' hJ
      . exact wp_useRecoveryCode hl hsaw hJ hok fun e db' => herr e _ db' hJ
  . intro db1 _ _
    exact herr _ _ _ hJ

theorem wp_verify (hl : AuthEnv l) (dto : TotpVerifyDto) (fresh : FreshToken)
    : ((Request.verify dto fresh).prog svc).wp ((Request.verify dto fresh).logic svc l)
        ((Request.verify dto fresh).Post svc l) [] [] [] db := by
  have hfail : ∀ r commits db', (Request.verify dto fresh).Made svc l commits →
      (Request.verify dto fresh).Post svc l r commits [] [] db' :=
    fun r commits db' hmade => ⟨rfl, rfl, hmade, by simp⟩
  have hnil : Unminted [] := by
    intro e he
    cases he
  have hn : Neutral ((Request.verify dto fresh).logic svc l) Unminted := neutral_unminted hl dto fresh
  unfold Request.prog
  rw [Call.wp_run]
  unfold Request.call verify AuthCall.now
  rw [Call.wp_bind, Call.wp_bind]
  apply AuthCall.wp_query hl (hnil.made dto fresh)
  intro db1 _ _
  split
  . exact hfail _ _ _ (hnil.made dto fresh)
  . next payload _ =>
    split
    . exact hfail _ _ _ (hnil.made dto fresh)
    . rw [Call.wp_bind]
      apply AuthCall.wp_findUniqueOrThrow hl (hnil.made dto fresh)
      . intro db2 user _ _ _
        rw [Call.wp_bind]
        apply wp_assertNotLocked hl (hnil.made dto fresh)
        . intro db3 _
          rw [Call.wp_bind, Call.wp_tryCatch]
          apply wp_verifyTotp hl hnil
          . intro commits db4 hright
            rw [Call.wp_bind]
            apply wp_recordSuccess hl (neutral_rightCode hl dto fresh payload.sub) hright
            . intro commits db5 hright5 _
              rw [Call.wp_bind]
              apply wp_mintTokenPair hl (hright5.1.made dto fresh)
              . intro now db6 _ hinv6 hpending
                have hmade : (Request.verify dto fresh).Made svc l (commits ++ [(db6,
                    (Write.insertRefreshToken (refreshTokenRow svc payload.sub fresh now)).apply db6)]) := by
                  intro e he
                  cases List.mem_append.mp he with
                  | inl he => exact .inl (hright5.1 e he)
                  | inr he =>
                    rw [List.mem_singleton.mp he]
                    refine .inr ⟨payload.sub, now, fresh, rfl, hright5.2.imp id ?_⟩
                    intro ⟨e', he', hused⟩
                    exact ⟨e', List.mem_append_left _ he', hused⟩
                refine ⟨⟨hpending, hl.valid db6 hinv6, .verified⟩, hmade, ?_⟩
                intro pair db7
                exact hfail _ _ _ hmade
              . intro e db6
                exact hfail _ _ _ (hright5.1.made dto fresh)
            . intro e commits db5 hright5 _
              exact hfail _ _ _ (hright5.1.made dto fresh)
          . intro e commits db4 hJ4
            rw [Call.wp_bind, Call.wp_tryCatch]
            apply wp_recordFailure hl hn hJ4
            intro e commits db5 hJ5 _
            exact hfail _ _ _ (hJ5.made dto fresh)
        . intro db3 e _
          exact hfail _ _ _ (hnil.made dto fresh)
      . intro db2 _ _
        exact hfail _ _ _ (hnil.made dto fresh)

theorem Request.wp_prog (hl : AuthEnv l) (req : Request)
    : (req.prog svc).wp (req.logic svc l) (req.Post svc l) [] [] [] db := by
  cases req with
  | login dto fresh => exact wp_login hl dto fresh
  | setup bearer secret => exact wp_setup hl bearer secret
  | enable bearer dto fresh => exact wp_enable hl bearer dto fresh
  | verify dto fresh => exact wp_verify hl dto fresh
  | refresh dto fresh => exact wp_refresh hl dto fresh
  | logout dto => exact wp_logout hl dto
  | confirmReset dto salt => exact wp_confirmReset hl dto salt
  | verifyPin ownerId pin => exact wp_verifyPin hl ownerId pin
  | tick ms => exact wp_tick hl ms

end Requests

section Runs

variable {ι : Type} [DecidableEq ι] {svc : Services} {reqs : ι → Request} {db : Database}
  {c : System ι}

/-- The environment of a run on some databases, with a promise about its steps. -/
def Env.on (assume : Stmt → List Write → Database → Prop) (states : List Database)
    : Env Database Write Key Stmt where
  Rely _ locks db db' := KeptAll Write locks db db' ∧ db.Grows db'
  Assume := assume
  Inv db := db.Valid ∧ db ∈ states

theorem Env.on_auth (assume : Stmt → List Write → Database → Prop) (states : List Database)
    : AuthEnv (Env.on assume states) where
  kept _ _ _ _ h := h.1
  grows _ _ _ _ h := h.2
  valid _ h := h.1

/-- One committed transaction of a request. -/
def Request.Event (svc : Services) (l : Env Database Write Key Stmt) (req : Request)
    (db db' : Database) : Prop :=
  db.Valid ∧ ∃ locks log, Pending log locks db ∧ req.Commit svc l locks log db ∧ db' = replay log db

/-- The promise holds of the step that a client is about to take. -/
def Promised (assume : Stmt → List Write → Database → Prop) (c : System ι) (i : ι) : Prop :=
  ∀ tag, (c.procs i).prog.tag? = some tag → assume tag (c.procs i).log c.db

def unpromised : Stmt → List Write → Database → Prop :=
  fun _ _ _ => True

omit [DecidableEq ι] in
theorem promised_unpromised {allowed : System ι → ι → System ι → Prop} (c : System ι) (i : ι)
    (c' : System ι) (_ : allowed c i c') : Promised unpromised c i :=
  fun _ _ => trivial

variable {assume : Stmt → List Write → Database → Prop} {allowed : System ι → ι → System ι → Prop}

theorem compatible (svc : Services) (assume : Stmt → List Write → Database → Prop)
    (reqs : ι → Request) (db : Database) (c : System ι)
    : Compatible (.error .aborted)
        (fun c' i next => Promised assume c' i ∧ next.history <+: c.history)
        (fun i => (reqs i).logic svc (Env.on assume (c.databases db)))
        (fun db' => db'.Valid ∧ db' ∈ c.databases db)
        (fun i => (reqs i).Event svc (Env.on assume (c.databases db)))
        (fun i => (reqs i).Post svc (Env.on assume (c.databases db))) where
  lawful := by
    intro i
    constructor
    . intro tag locks db
      exact ⟨.refl locks db, .refl db⟩
    . intro tag locks db db' db'' h h'
      exact ⟨h.1.trans h'.1, h.2.trans h'.2⟩
  invOf _ _ h := h
  assume _ _ _ tag hallowed _ htag := hallowed.1 tag htag
  stable _ _ _ _ _ _ _ _ _ h := ⟨h.log, h.locks, h.made, h.reuse⟩
  guar := by
    intro c' i tag next hallowed hinv hdisjoint _ hguar
    obtain ⟨hpending, hvalid, hcommit⟩ := hguar
    have hlast : ⟨i, c'.db, c'.view i⟩ ∈ (c'.commit i next).history := by
      simp [Config.commit]
    refine ⟨⟨hpending.valid hvalid, ?_⟩, ⟨hvalid, _, _, hpending, hcommit, rfl⟩, ?_⟩
    . exact List.mem_cons_of_mem db (List.mem_map_of_mem (hallowed.2.subset hlast))
    . intro j hj
      exact ⟨KeptAll.replay hpending.covered (hdisjoint i j (Ne.symm hj)) c'.db, .replay _ _⟩
  crash := by
    intro i commits db' hmid _
    refine ⟨rfl, rfl, hmid, ?_⟩
    intro _ _ _ hr
    cases hr

theorem run_ok (hdb : db.Valid)
    (hrun : RunWhere (.error .aborted) allowed (System.start svc db reqs) c)
    (hpromised : ∀ c i c', allowed c i c' → Promised assume c i)
    : c.Ok (fun i => (reqs i).logic svc (Env.on assume (c.databases db)))
        (fun db' => db'.Valid ∧ db' ∈ c.databases db)
        (fun i => (reqs i).Event svc (Env.on assume (c.databases db)))
        (fun i => (reqs i).Post svc (Env.on assume (c.databases db))) := by
  apply (compatible svc assume reqs db c).sound ⟨hdb, List.mem_cons_self⟩
  . intro i
    exact Request.wp_prog (Env.on_auth _ _) (reqs i)
  . apply hrun.withHistory.mono
    intro c i c' h
    exact ⟨hpromised c i c' h.1, h.2⟩

theorem Request.made_of_wp {req : Request} {l : Env Database Write Key Stmt} {prog : Program}
    {commits : List (Database × Database)} {log : List Write} {locks : List Key}
    (hwp : prog.wp (req.logic svc l) (req.Post svc l) commits log locks db)
    : req.Made svc l commits := by
  cases prog with
  | ret r => exact Request.Post.made hwp
  | exec | commit | rollback => exact hwp.1

theorem run_made (hdb : db.Valid)
    (hrun : RunWhere (.error .aborted) allowed (System.start svc db reqs) c)
    (hpromised : ∀ c i c', allowed c i c' → Promised assume c i) (i : ι)
    : (reqs i).Made svc (Env.on assume (c.databases db)) (c.commitsOf i) :=
  Request.made_of_wp ((run_ok hdb hrun hpromised).wp i)

theorem run_committing (hdb : db.Valid)
    (hrun : RunWhere (.error .aborted) allowed (System.start svc db reqs) c)
    (hpromised : ∀ c i c', allowed c i c' → Promised assume c i) {i : ι} {tag : Stmt}
    {next : Program} (hprog : (c.procs i).prog = .commit tag next)
    (hassume : assume tag (c.procs i).log c.db)
    : Pending (c.procs i).log (c.procs i).locks c.db
        ∧ (reqs i).Commit svc (Env.on assume (c.databases db)) (c.procs i).locks (c.procs i).log c.db
        ∧ (reqs i).Made svc (Env.on assume (c.databases db))
          (c.commitsOf i ++ [(c.db, c.view i)]) := by
  have hok := run_ok hdb hrun hpromised
  have hwp := hok.wp i
  rw [hprog] at hwp
  have hrely := ((compatible svc assume reqs db c).lawful i).refl (some tag) (c.procs i).locks c.db
  obtain ⟨⟨hpending, _, hcommit⟩, hnext⟩ := hwp.2 c.db hrely hok.inv hassume
  exact ⟨hpending, hcommit, Request.made_of_wp hnext⟩

theorem run_reuse (hdb : db.Valid)
    (hrun : RunWhere (.error .aborted) allowed (System.start svc db reqs) c) {i : ι}
    {dto : RefreshDto} {fresh : FreshToken} (hreq : reqs i = .refresh dto fresh)
    (hr : (c.procs i).prog.result? = some reuseDetected) : (c.commitsOf i).length ≤ 1 := by
  have hwp := (run_ok hdb hrun promised_unpromised).wp i
  rw [Prog.eq_ret hr] at hwp
  exact Request.Post.reuse hwp dto fresh hreq rfl

theorem run_valid (hdb : db.Valid)
    (hrun : RunWhere (.error .aborted) allowed (System.start svc db reqs) c) : c.db.Valid :=
  (run_ok hdb hrun promised_unpromised).inv.1

theorem run_event (hdb : db.Valid)
    (hrun : RunWhere (.error .aborted) allowed (System.start svc db reqs) c) {e : Event ι Database}
    (he : e ∈ c.history) : e.before.Valid ∧ e.before.Grows e.after := by
  obtain ⟨hvalid, _, _, _, _, hafter⟩ := (run_ok hdb hrun promised_unpromised).events e he
  rw [hafter]
  exact ⟨hvalid, .replay _ _⟩

theorem run_grows {c' : System ι}
    (hrun : RunWhere (.error .aborted) allowed c c') : c.db.Grows c'.db := by
  induction hrun with
  | refl => exact .refl _
  | step _ _ hstep ih =>
    cases hstep with
    | commit => exact ih.trans (.replay _ _)
    | exec | rollback | abort => exact ih

end Runs

end SentryPos.Auth
