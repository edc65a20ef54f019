import SentryPos.Platform.Requests

/-!
This module contains the contracts of the requests: what the ones that use a token, create a business
or pair a terminal commit, and that every request keeps its contract.
-/

namespace SentryPos.Platform

open ReadCommitted

/-- The token that a call presents, as it is before the call uses it. -/
structure Consumed (svc : Auth.Services) (since : DateTime) (token : String)
    (kind : Auth.AuthTokenKind) (row : Auth.AuthToken) (db : Database) : Prop where
  authToken : db.auth.authToken? row.id = some row
  tokenHash : row.tokenHash = svc.sha256 token
  kind : row.kind = kind
  unused : row.usedAt = none
  since : since ≤ row.expiresAt

def Database.ownerOf (db : Database) (userId : Uuid) : Option Uuid :=
  (db.auth.user? userId).bind (·.ownerId)

def UsesToken (svc : Auth.Services) (since : DateTime) (token passwordHash : String)
    (kind : Auth.AuthTokenKind) (Rest : Option Uuid → List Write → Prop) (log : List Write)
    (db : Database) : Prop :=
  ∃ row usedAt rest,
    Consumed svc since token kind row db
      ∧ log
          =
        .auth (.useAuthToken row.id usedAt) :: .auth (.setPassword row.userId passwordHash) :: rest
      ∧ Rest (db.ownerOf row.userId) rest

/-- What follows in the acceptance of an invite, given the owner of the user. -/
def Activates (fresh : FreshDemo) (ownerId : Option Uuid) (rest : List Write) : Prop :=
  match ownerId with
  | some ownerId =>
    ∃ contents,
      rest = .setStatus ownerId .active none :: .insertBusiness (demoBusiness ownerId fresh) :: contents
        ∧ ∀ w ∈ contents, w.IsContent
  | none => ∀ w ∈ rest, w.IsContent

def Write.IsRevocation : Write → Prop
  | auth (.revokeRefreshToken ..) | insertAudit _ => True
  | _ => False

def Resets (_ : Option Uuid) (rest : List Write) : Prop :=
  ∀ w ∈ rest, w.IsRevocation

def Database.BelowCap (db : Database) (ownerId : Uuid) : Prop :=
  ∃ account, db.account? ownerId = some account ∧ db.liveBusinesses ownerId < account.maxBusinesses

def Database.AtCap (db : Database) (ownerId : Uuid) : Prop :=
  ∃ account, db.account? ownerId = some account ∧ account.maxBusinesses ≤ db.liveBusinesses ownerId

def NewTerminal (branchId : Uuid) (row : Terminal) (db : Database) : Prop :=
  row.branchId = branchId
    ∧ row.code ∉ db.codes branchId
    ∧ ∃ n ≤ (db.codes branchId).length, row.code = terminalCode n

/-- A call that commits once if it returns and never if it throws. -/
def OneCommit (r : Except ApiError Response) (commits : List (Database × Database)) : Prop :=
  match r with
  | .ok _ => ∃ before after, commits = [(before, after)]
  | .error _ => commits = []

abbrev RequestContract :=
  Contract Database Write Key (Except ApiError Response)

def atomicContract (Commit : List Write → Database → Prop) : RequestContract where
  Commit _ log db := Commit log db
  Mid commits := commits = []
  Post := OneCommit

def plainContract (req : Request) : RequestContract where
  Commit _ log _ := ∀ w ∈ log, req.Writes w
  Mid _ := True
  Post _ _ := True

/--
The contract of a request on the databases of a run, none of which has a clock before `since`.
-/
def Request.contract (svc : Auth.Services) (since : DateTime) (states : Database → Prop)
    (req : Request) : RequestContract :=
  match req with
  | acceptInvite dto salt fresh =>
    atomicContract <| UsesToken svc since dto.token (svc.hashSecret salt dto.password) .invite
      (Activates fresh)
  | confirmReset dto salt =>
    atomicContract <| UsesToken svc since dto.token (svc.hashSecret salt dto.password) .reset Resets
  | createBusiness actorId ownerId name id => {
      Commit _ log db :=
        ∃ owner, ownerId = some owner
          ∧ db.BelowCap owner
          ∧ log = [
              .insertBusiness (newBusiness owner id name),
              .insertAudit (scopedLog .business "create" actorId (some owner) id)]
      Mid commits := commits = []
      Post r commits :=
        OneCommit r commits
          ∧ (r = .error .maxBusinessesReached →
              ∃ owner, ownerId = some owner ∧ ∃ db, states db ∧ db.AtCap owner) }
  | pair _ _ dto _ => {
      Commit _ log db :=
        (∀ w ∈ log, w.Plain) ∨ ∃ row, log = [.insertTerminal row] ∧ NewTerminal dto.branchId row db
      Mid _ := True
      Post r commits :=
        ∀ result, r = .ok (.paired result) →
          ∃ c ∈ commits,
            c.2.codes dto.branchId = c.1.codes dto.branchId ++ [result.terminalCode] }
  | _ => plainContract req

abbrev platformEnv (states : Database → Prop) : Env Database Write Key Stmt :=
  Env.shared Write Stmt Database.Grows states Database.Valid

section Wp

variable {states : Database → Prop} {Guar : List Key → List Write → Database → Prop}
  {Mid : List (Database × Database) → Prop} {R : Type} {ok : Post Database Write Key R}
  {err : Post Database Write Key ApiError} {commits : List (Database × Database)}
  {log : List Write} {locks : List Key} {db : Database}

theorem wp_execute {tag : Stmt} {w : Write} {ok : Post Database Write Key Unit} (hmid : Mid commits)
    (hok : ∀ db', KeptAll Write locks db db' → db.Grows db' →
      w.violation (replay log db') = none → ok () commits (log ++ [w]) (locks ++ w.keys) db')
    (herr : ∀ e locks db', w.violation (replay log db') = some e → err e commits log locks db')
    : Call.wp { toEnv := platformEnv states, Guar, Mid } (PlatformCall.execute tag w) ok err commits
        log locks db := by
  apply Call.wp_write hmid
  . intro db' ws hrely _ _ hcheck
    split at hcheck
    . cases hcheck
    . next hviolation =>
      cases hcheck
      exact hok db' hrely.1 hrely.2 hviolation
  . intro db' e _ _ hcheck
    apply herr e _ db'
    split at hcheck
    . next hviolation =>
      cases hcheck
      exact hviolation
    . cases hcheck

theorem wp_ofOption {e : ApiError} {o : Option R}
    (hok : ∀ r, o = some r → ok r commits log locks db) (herr : err e commits log locks db)
    : Call.wp { toEnv := platformEnv states, Guar, Mid } (PlatformCall.ofOption e o) ok err commits
        log locks db := by
  cases o with
  | none => exact herr
  | some r => exact hok r rfl


theorem wp_safe {P : Write → Prop} {p : PlatformCall R} (hp : Safe False P p) (hmid : Mid commits)
    (hok : ∀ r db' ws ks, KeptAll Write locks db db' → db.Grows db' → (∀ w ∈ ws, P w) →
      ok r commits (log ++ ws) (locks ++ ks) db')
    (herr : ∀ e log locks db', err e commits log locks db')
    : Call.wp { toEnv := platformEnv states, Guar, Mid } p ok err commits log locks db := by
  apply Prog.Safe.wp_body growth hp hmid
  intro r db' ws ks hkept hgrows hws
  cases r with
  | ok r => exact hok r db' ws ks hkept hgrows hws
  | error e => exact herr e _ _ _

theorem wp_consumeToken {svc : Auth.Services} {since : DateTime} {token : String}
    {kind : Auth.AuthTokenKind} {ok : Post Database Write Key Auth.AuthToken} (hmid : Mid commits)
    (hsince : since ≤ db.auth.clock)
    (hok : ∀ row usedAt db', db.Grows db' → Consumed svc since token kind row db' →
      ok row commits [.auth (.useAuthToken row.id usedAt)] [.auth (.authToken row.id)] db')
    (herr : ∀ e locks db', err e commits [] locks db')
    : Call.wp { toEnv := platformEnv states, Guar, Mid }
        (Call.lift authPart (Auth.consumeToken svc token kind)) ok err commits [] [] db := by
  unfold Auth.consumeToken Auth.AuthCall.now
  rw [Call.lift_bind, Call.wp_bind, Call.lift_queryOnTx]
  apply Call.wp_queryOnTx hmid
  intro db1 hrely1 hinv1 _
  rw [replay_nil]
  cases hfind : authPart.get db1 |>.authTokens.find? fun t => t.tokenHash = svc.sha256 token with
  | none => exact herr _ _ _
  | some row =>
    have hhash : row.tokenHash = svc.sha256 token := by simpa using List.find?_some hfind
    have hrow : db1.auth.authToken? row.id = some row :=
      hinv1.2.authToken_eq (List.mem_of_find?_eq_some hfind)
    by_cases hbad : row.kind ≠ kind || row.usedAt.isSome
    . simp only [hbad, if_true]
      exact herr _ _ _
    . simp only [hbad]
      rw [Bool.or_eq_true, not_or] at hbad
      rw [if_neg Bool.false_ne_true, Call.lift_bind, Call.wp_bind, Call.lift_query]
      apply Call.wp_query hmid
      intro db2 hrely2 _ _
      by_cases hexpired : row.expiresAt < (authPart.get db2).clock
      . simp only [hexpired, if_true]
        exact herr _ _ _
      . simp only [hexpired, if_false]
        rw [Call.lift_bind, Call.wp_bind, Call.lift_query]
        apply Call.wp_query hmid
        intro db3 hrely3 _ _
        rw [Call.lift_bind, Call.wp_bind, Call.lift_write]
        apply Call.wp_write hmid
        . intro db4 ws hrely4 _ _ hcheck
          have hgrows12 := growth.trans _ _ _ hrely2.2 hrely3.2
          have hgrows14 := growth.trans _ _ _ hgrows12 hrely4.2
          obtain ⟨usedAt, hrow4, _⟩ := hgrows14.authTokens row.id row hrow
          have hunused : row.usedAt = none := by simpa using hbad.2
          have hlookup : (authPart.get db4).authToken? row.id = some { row with usedAt } := hrow4
          rw [replay_nil, hlookup] at hcheck
          cases usedAt with
          | some usedAt => simp at hcheck
          | none =>
            have heq : { row with usedAt := none } = row := by rw [← hunused]
            rw [heq] at hrow4
            simp only [Option.any_some, Option.isNone_none, if_true, Except.ok.injEq] at hcheck
            rw [← hcheck]
            apply hok row _ db4 (growth.trans _ _ _ hrely1.2 hgrows14)
            exact {
              authToken := hrow4
              tokenHash := hhash
              kind := by simpa using hbad.1
              unused := hunused
              since := by
                have hclock := (growth.trans _ _ _ hrely1.2 hrely2.2).clock
                exact hsince.trans (hclock.trans (not_lt.mp hexpired))
            }
        . intro db4 e _ _ _
          exact herr _ _ _

end Wp

theorem wp_atomic {states : Database → Prop} {Commit : List Write → Database → Prop}
    {body : PlatformCall Unit} {db : Database}
    (hbody : Call.wp {
          toEnv := platformEnv states
          Guar := fun _ log db => Commit log db
          Mid := fun commits => commits = [] }
        body
        (fun _ commits log locks db =>
          commits = [] ∧ ∀ db', KeptAll Write locks db db' → Commit log db')
        (fun _ commits _ _ _ => commits = []) [] [] [] db)
    : Prog.wp ((atomicContract Commit).own (platformEnv states))
        (PlatformCall.done (Call.transaction .commit body)).run
        (atomicContract Commit).toPost [] [] [] db := by
  unfold PlatformCall.done
  rw [Call.wp_run, Call.wp_bind]
  apply Call.wp_transaction
  refine Call.wp_mono ?_ ?_ hbody
  . intro _ commits log locks db' h
    obtain ⟨hcommits, hcommit⟩ := h
    subst hcommits
    refine ⟨rfl, ?_⟩
    intro db'' hrely _ _
    exact ⟨hcommit db'' hrely.1, db'', _, rfl⟩
  . intro e commits log locks db' hcommits
    subst hcommits
    refine ⟨rfl, ?_⟩
    intro _ _ _
    rfl

theorem Consumed.later {svc : Auth.Services} {since : DateTime} {token : String}
    {kind : Auth.AuthTokenKind} {row : Auth.AuthToken} {locks : List Key} {db db' : Database}
    (h : Consumed svc since token kind row db) (hkept : KeptAll Write locks db db')
    (hlock : .auth (.authToken row.id) ∈ locks) : Consumed svc since token kind row db' := by
  have hsame : db'.auth.authToken? row.id = db.auth.authToken? row.id := hkept _ hlock
  exact { h with authToken := by rw [hsame, h.authToken] }

theorem ownerOf_later {userId : Uuid} {locks : List Key} {db db' : Database}
    (hkept : KeptAll Write locks db db') (hlock : .auth (.user userId) ∈ locks)
    : db'.ownerOf userId = db.ownerOf userId := by
  have hsame : db'.auth.user? userId = db.auth.user? userId := hkept _ hlock
  unfold Database.ownerOf
  rw [hsame]

theorem ownerOf_apply (w : Auth.Write) (db : Database) (userId : Uuid)
    : (Write.apply (.auth w) db).ownerOf userId = db.ownerOf userId := by
  have huser : (Write.apply (.auth w) db).auth.user? userId
      = if w.userId? = some userId then (db.auth.user? userId).map w.onUser
        else db.auth.user? userId :=
    w.user?_apply db.auth userId
  unfold Database.ownerOf
  rw [huser]
  split
  . cases db.auth.user? userId with
    | none => rfl
    | some user =>
      cases w with
      | setFailures _ kind => cases kind <;> rfl
      | _ => rfl
  . rfl

/-- What the calls that use a token leave in their log once the password is set. -/
structure Finishes (states : Database → Prop) (finish : Uuid → Option Uuid → PlatformCall Unit)
    (Rest : Option Uuid → List Write → Prop) : Prop where
  wp : ∀ (Guar : List Key → List Write → Database → Prop) userId ownerId log locks db,
    Call.wp { toEnv := platformEnv states, Guar, Mid := fun commits => commits = [] }
      (finish userId ownerId)
      (fun _ commits log' locks' db' =>
        commits = [] ∧ KeptAll Write locks db db' ∧ locks ⊆ locks'
          ∧ ∃ rest, log' = log ++ rest ∧ Rest ownerId rest)
      (fun _ commits _ _ _ => commits = []) [] log locks db

theorem wp_usesToken {states : Database → Prop} {svc : Auth.Services} {since : DateTime}
    {token passwordHash : String} {kind : Auth.AuthTokenKind}
    {Rest : Option Uuid → List Write → Prop} {finish : Uuid → Option Uuid → PlatformCall Unit}
    {db : Database} (hsince : since ≤ db.auth.clock) (hfinish : Finishes states finish Rest)
    : Prog.wp
        ((atomicContract (UsesToken svc since token passwordHash kind Rest)).own (platformEnv states))
        (PlatformCall.done <| Call.transaction .commit do
          let row ← Call.lift authPart (Auth.consumeToken svc token kind)
          let ownerId ← setPassword row.userId passwordHash
          finish row.userId ownerId).run
        (atomicContract (UsesToken svc since token passwordHash kind Rest)).toPost [] [] [] db := by
  apply wp_atomic
  rw [Call.wp_bind]
  refine wp_consumeToken (by rfl) hsince ?_ ?_
  . intro row usedAt db1 _ hrow1
    unfold setPassword
    rw [Call.wp_bind, Call.wp_bind]
    refine wp_execute (by rfl) ?_ ?_
    . intro db2 hkept2 _ _
      have hrow2 := hrow1.later hkept2 List.mem_cons_self
      refine Call.wp_queryOnTx (by rfl) ?_
      intro db3 hrely3 _ _
      have hrow3 := hrow2.later hrely3.1 List.mem_cons_self
      refine Call.wp_mono ?_ (fun _ _ _ _ _ h => h) (hfinish.wp _ row.userId _ _ _ db3)
      intro _ commits log locks db4 h
      obtain ⟨hcommits, hkept4, hlocks, rest, hlog, hrest⟩ := h
      refine ⟨hcommits, ?_⟩
      intro db5 hkept5
      have hkept35 := hkept4.trans (hkept5.weaken hlocks)
      refine ⟨row, usedAt, rest, hrow3.later hkept35 List.mem_cons_self, ?_, ?_⟩
      . rw [hlog]
        rfl
      . rw [ownerOf_later hkept35 (by simp [Write.keys, Auth.Write.keys])]
        have howner : Database.ownerOf
            (replay ([Write.auth (.useAuthToken row.id usedAt)]
              ++ [Write.auth (.setPassword row.userId passwordHash)]) db3) row.userId
            = db3.ownerOf row.userId := by
          rw [replay_append, replay_cons, replay_nil, replay_cons, replay_nil, store_apply,
            store_apply, ownerOf_apply, ownerOf_apply]
        rw [← howner]
        exact hrest
    . intro _ _ _ _
      rfl
  . intro _ _ _
    rfl

theorem finishes_invite (states : Database → Prop) (catalog : DemoCatalog) (fresh : FreshDemo)
    : Finishes states (finishInvite catalog fresh) (Activates fresh) where
  wp := by
    intro Guar userId ownerId log locks db
    have haudit : ∀ row, Write.IsContent (.insertAudit row) := fun _ => trivial
    cases ownerId with
    | none =>
      refine wp_safe (safe_audit haudit _) (by rfl) ?_ ?_
      . intro _ db1 ws ks hkept1 _ hws
        exact ⟨rfl, hkept1, List.subset_append_left _ _, ws, rfl, hws⟩
      . intro _ _ _ _
        rfl
    | some ownerId =>
      have hfinish : finishInvite catalog fresh userId (some ownerId)
          = (PlatformCall.execute .update (.setStatus ownerId .active none) >>= fun _ =>
              PlatformCall.execute .create (.insertBusiness (demoBusiness ownerId fresh)) >>= fun _ =>
                seedContents catalog ownerId fresh >>= fun _ =>
                  logAuth "auth.invite_accepted" userId (some ownerId)) := by
        unfold finishInvite activateOwner seedDemoBusiness
        simp only [bind_assoc]
      have hcontents : Safe False Write.IsContent
          (seedContents catalog ownerId fresh >>= fun _ =>
            logAuth "auth.invite_accepted" userId (some ownerId)) := by
        apply Call.Safe.bind (safe_seedContents ..)
        intro _
        exact safe_audit haudit _
      rw [hfinish, Call.wp_bind]
      refine wp_execute (by rfl) ?_ ?_
      . intro db1 hkept1 _ _
        rw [Call.wp_bind]
        refine wp_execute (by rfl) ?_ ?_
        . intro db2 hkept2 _ _
          refine wp_safe hcontents (by rfl) ?_ ?_
          . intro _ db3 ws ks hkept3 _ hws
            refine ⟨rfl, ?_, ?_, ?_⟩
            . apply hkept1.trans
              apply (hkept2.weaken (List.subset_append_left _ _)).trans
              apply hkept3.weaken
              intro k hk
              simp [hk]
            . intro k hk
              simp [hk]
            . refine ⟨_, ?_, ws, rfl, hws⟩
              simp
          . intro _ _ _ _
            rfl
        . intro _ _ _ _
          rfl
      . intro _ _ _ _
        rfl

theorem finishes_reset (states : Database → Prop) : Finishes states finishReset Resets where
  wp := by
    intro Guar userId ownerId log locks db
    have hrevokes : Safe False Write.IsRevocation (finishReset userId ownerId) :=
      safe_finishReset (fun _ => trivial) (fun _ _ => trivial) userId ownerId
    refine wp_safe hrevokes (by rfl) ?_ ?_
    . intro _ db1 ws ks hkept1 _ hws
      exact ⟨rfl, hkept1, List.subset_append_left _ _, ws, rfl, hws⟩
    . intro _ _ _ _
      rfl

theorem BelowCap_later {ownerId : Uuid} {locks : List Key} {db db' : Database}
    (hkept : KeptAll Write locks db db') (hlock : .owner ownerId ∈ locks) (h : db.BelowCap ownerId)
    : db'.BelowCap ownerId := by
  obtain ⟨account, haccount, hcount⟩ := h
  obtain ⟨hsame, hle⟩ : db'.account? ownerId = db.account? ownerId
      ∧ db'.liveBusinesses ownerId ≤ db.liveBusinesses ownerId := hkept _ hlock
  refine ⟨account, ?_, ?_⟩
  . rw [hsame, haccount]
  . omega

theorem Write.violation_ne (w : Write) (view : Database)
    : w.violation view ≠ some .maxBusinessesReached := by
  cases w with
  | auth w => simp [violation]
  | archive table => cases table <;> (unfold violation; dsimp only; split <;> simp)
  | insertAuthToken | insertBusiness | insertBranch | insertTerminal =>
    unfold violation
    dsimp only
    split
    . simp
    . split <;> simp
  | insertOwner | insertUser | setAccount | setStatus | clearDeviceToken =>
    unfold violation
    dsimp only
    split <;> simp
  | insertCatalog | insertAudit => simp [violation]

/-- The row of the owner is locked while the account is read and the businesses are counted. -/
theorem wp_createBusiness (svc : Auth.Services) (catalog : DemoCatalog) (since : DateTime)
    (states : Database → Prop) (actorId ownerId : Option Uuid) (name : String) (id : Uuid)
    (db : Database)
    : Prog.wp
        (((Request.createBusiness actorId ownerId name id).contract svc since states).own
          (platformEnv states))
        ((Request.createBusiness actorId ownerId name id).prog svc catalog)
        ((Request.createBusiness actorId ownerId name id).contract svc since states).toPost [] [] []
        db := by
  cases ownerId with
  | none => exact ⟨rfl, fun h => by cases h⟩
  | some owner =>
    have hthrow : ∀ e, e ≠ .maxBusinessesReached →
        ((Request.createBusiness actorId (some owner) name id).contract svc since states).Post
          (.error e) [] := by
      intro e he
      refine ⟨rfl, fun h => ?_⟩
      cases h
      exact absurd rfl he
    unfold Request.prog Request.call PlatformCall.done createBusiness createCapped
    rw [Call.wp_run, Call.wp_bind]
    apply Call.wp_transaction
    rw [Call.wp_bind]
    refine Call.wp_selectForUpdate (by rfl) ?_
    intro db1 hrely1 _ _
    rw [Call.wp_bind]
    refine Call.wp_queryOnTx (by rfl) ?_
    intro db2 hrely2 _ _
    rw [Call.wp_bind]
    apply wp_ofOption
    . intro account haccount
      rw [replay_nil] at haccount
      rw [Call.wp_bind]
      refine Call.wp_queryOnTx (by rfl) ?_
      intro db3 hrely3 hinv3 _
      have hlock : .owner owner ∈ ([] ++ [Key.owner owner]) := List.mem_cons_self
      have hkept3 : db3.account? owner = db2.account? owner
          ∧ db3.liveBusinesses owner ≤ db2.liveBusinesses owner := hrely3.1 _ hlock
      rw [replay_nil]
      by_cases hcap : account.maxBusinesses ≤ db3.liveBusinesses owner
      . simp only [hcap, if_true]
        refine ⟨rfl, ?_⟩
        intro _ _ _
        refine ⟨rfl, fun _ => ⟨owner, rfl, db3, hinv3.1, account, ?_, hcap⟩⟩
        rw [hkept3.1, haccount]
      . simp only [hcap, if_false]
        have hbelow : db3.BelowCap owner := by
          refine ⟨account, ?_, not_le.mp hcap⟩
          rw [hkept3.1, haccount]
        rw [Call.wp_bind]
        refine wp_execute (by rfl) ?_ ?_
        . intro db4 hkept4 _ _
          have hbelow4 := BelowCap_later hkept4 hlock hbelow
          refine wp_execute (by rfl) ?_ ?_
          . intro db5 hkept5 _ _
            have hbelow5 := BelowCap_later hkept5 (List.mem_append_left _ hlock) hbelow4
            refine ⟨rfl, ?_⟩
            intro db6 hrely6 _ _
            have hbelow6 := BelowCap_later hrely6.1 (by simp) hbelow5
            refine ⟨⟨owner, rfl, hbelow6, rfl⟩, ?_⟩
            exact ⟨⟨_, _, rfl⟩, fun h => by cases h⟩
          . intro e _ _ hviolation
            refine ⟨rfl, fun _ _ _ => hthrow e ?_⟩
            intro he
            rw [he] at hviolation
            exact Write.violation_ne _ _ hviolation
        . intro e _ _ hviolation
          refine ⟨rfl, fun _ _ _ => hthrow e ?_⟩
          intro he
          rw [he] at hviolation
          exact Write.violation_ne _ _ hviolation
    . refine ⟨rfl, fun _ _ _ => hthrow _ ?_⟩
      simp

theorem Database.length_codes (db : Database) (branchId : Uuid)
    : (db.codes branchId).length = db.terminals.countP fun t => t.branchId = branchId := by
  unfold codes
  rw [List.length_map, List.countP_eq_length_filter]

theorem notMem_codes {row : Terminal} {db : Database}
    (h : (Write.insertTerminal row).violation db = none) : row.code ∉ db.codes row.branchId := by
  unfold Write.violation at h
  dsimp only at h
  split at h
  . cases h
  . next hnew =>
    intro hmem
    obtain ⟨row', hrow', hcode⟩ := List.mem_map.mp hmem
    obtain ⟨hrow', hbranch⟩ := List.mem_filter.mp hrow'
    apply hnew
    rw [List.any_eq_true]
    refine ⟨row', hrow', ?_⟩
    simp only [decide_eq_true_eq] at hbranch
    simp [hbranch, hcode]

section Pair

variable {svc : Auth.Services} {since : DateTime} {states : Database → Prop}
  {ownerId ownerUserId : Uuid} {dto : PairDto} {fresh : FreshTerminal}
  {commits : List (Database × Database)} {db : Database}

def Created (branchId : Uuid) (row : Terminal) (commits : List (Database × Database)) : Prop :=
  ∃ c ∈ commits, c.2.codes branchId = c.1.codes branchId ++ [row.code]

theorem wp_attemptTerminal {ok : Post Database Write Key Terminal}
    {err : Post Database Write Key ApiError} (name : String) (attempt : Nat)
    (hok : ∀ row commits' db', Created dto.branchId row commits' → ok row commits' [] [] db')
    (herr : ∀ e db', err e commits [] [] db')
    : Call.wp
        (((Request.pair ownerId ownerUserId dto fresh).contract svc since states).own
          (platformEnv states))
        (attemptTerminal svc dto.branchId name fresh attempt) ok err commits [] [] db := by
  unfold attemptTerminal PlatformCall.update
  rw [Call.wp_bind]
  refine Call.wp_query trivial ?_
  intro db1 _ _ _
  rw [← db1.length_codes dto.branchId]
  generalize hrow : newTerminal svc dto.branchId name fresh attempt (db1.codes dto.branchId).length
    = row
  have hbranch : row.branchId = dto.branchId := by
    rw [← hrow]
    rfl
  have hcode : row.code = terminalCode (db1.codes dto.branchId).length := by
    rw [← hrow]
    rfl
  rw [Call.wp_bind]
  apply Call.wp_transaction
  refine wp_execute trivial ?_ ?_
  . intro db2 _ hgrows2 hviolation
    refine ⟨trivial, ?_⟩
    intro db3 hrely3 _ _
    have hnew2 : row.code ∉ db2.codes row.branchId := notMem_codes hviolation
    have hlock : Key.terminalCode row.branchId row.code ∈ [] ++ (Write.insertTerminal row).keys := by
      simp [Write.keys]
    have hnew3 : row.code ∉ db3.codes row.branchId := hrely3.1 _ hlock hnew2
    have hlength := ((growth.trans _ _ _ hgrows2 hrely3.2).codes dto.branchId).length_le
    rw [hbranch] at hnew3
    refine ⟨.inr ⟨row, rfl, hbranch, hnew3, _, hlength, hcode⟩, ?_⟩
    apply hok
    refine ⟨_, List.mem_append_right _ (List.mem_singleton_self _), ?_⟩
    show (Write.apply (.insertTerminal row) db3).codes dto.branchId = _
    rw [Write.codes_apply]
    simp [hbranch]
  . intro e _ _ _
    exact ⟨trivial, fun _ _ _ => herr e _⟩

theorem wp_createTerminal {ok : Post Database Write Key Terminal}
    {err : Post Database Write Key ApiError} (name : String) (retries : Nat)
    (hok : ∀ row commits' db', Created dto.branchId row commits' → ok row commits' [] [] db')
    (herr : ∀ e db', err e commits [] [] db')
    : Call.wp
        (((Request.pair ownerId ownerUserId dto fresh).contract svc since states).own
          (platformEnv states))
        (createTerminal svc dto.branchId name fresh retries) ok err commits [] [] db := by
  -- A code that is taken costs a retry; every other error ends the call.
  induction retries generalizing db with
  | zero => exact wp_attemptTerminal name 0 hok herr
  | succ retries ih =>
    unfold createTerminal
    rw [Call.wp_tryCatch]
    apply wp_attemptTerminal name _ hok
    intro e db'
    split
    . exact ih
    . exact herr e db'

theorem wp_pair (catalog : DemoCatalog)
    : Prog.wp
        (((Request.pair ownerId ownerUserId dto fresh).contract svc since states).own
          (platformEnv states))
        ((Request.pair ownerId ownerUserId dto fresh).prog svc catalog)
        ((Request.pair ownerId ownerUserId dto fresh).contract svc since states).toPost [] [] [] db
    := by
  have hthrow : ∀ e commits,
      ((Request.pair ownerId ownerUserId dto fresh).contract svc since states).Post (.error e)
        commits := by
    intro e commits result h
    cases h
  unfold Request.prog Request.call pair ownedBusiness
  rw [Call.wp_run, Call.wp_bind, Call.wp_bind, Call.wp_bind]
  refine Call.wp_query trivial ?_
  intro db1 _ _ _
  apply wp_ofOption _ (hthrow _ _)
  intro business _
  rw [Call.wp_bind]
  refine Call.wp_query trivial ?_
  intro db2 _ _ _
  rw [Call.wp_bind]
  apply wp_ofOption _ (hthrow _ _)
  intro branch hbranch
  have hid : branch.id = dto.branchId := by
    have hfound := List.find?_some hbranch
    simp only [Bool.and_eq_true, decide_eq_true_eq] at hfound
    exact hfound.1.1
  rw [Call.wp_bind]
  refine Call.wp_query trivial ?_
  intro db3 _ _ _
  rw [Call.wp_bind]
  apply wp_ofOption _ (hthrow _ _)
  intro owner _
  split
  . exact hthrow _ _
  . rw [Call.wp_bind, hid]
    apply wp_createTerminal
    . intro row commits' db4 hcreated
      rw [Call.wp_bind]
      apply Call.wp_transaction
      refine wp_execute trivial ?_ ?_
      . intro db5 _ _ _
        refine ⟨trivial, ?_⟩
        intro db6 _ _ _
        refine ⟨.inl ?_, ?_⟩
        . intro w hw
          rw [List.nil_append, List.mem_singleton] at hw
          rw [hw]
          trivial
        . intro result hresult
          cases hresult
          obtain ⟨c, hc, hcodes⟩ := hcreated
          exact ⟨c, List.mem_append_left _ hc, hcodes⟩
      . intro e _ _ _
        exact ⟨trivial, fun _ _ _ => hthrow e _⟩
    . intro e db4
      exact hthrow e _

end Pair

theorem wp_plain {svc : Auth.Services} {catalog : DemoCatalog} {states : Database → Prop}
    {db : Database} (hdb : db.Valid) (req : Request)
    : (req.prog svc catalog).wp ((plainContract req).own (platformEnv states))
        (plainContract req).toPost [] [] [] db := by
  apply Prog.Safe.wp constraint (req.safe_call svc catalog) _ _ _ (.nil []) (by simp) hdb
  . intro _ log _ _ _ _ hlog
    exact hlog
  . intro _
    trivial
  . intro _ _ _ _ _
    trivial

variable {svc : Auth.Services} {since : DateTime} {states : Database → Prop}

theorem Request.wp_own {db : Database} (catalog : DemoCatalog) (req : Request) (hdb : db.Valid)
    (hsince : since ≤ db.auth.clock)
    : (req.prog svc catalog).wp ((req.contract svc since states).own (platformEnv states))
        (req.contract svc since states).toPost [] [] [] db := by
  cases req with
  | acceptInvite dto salt fresh => exact wp_usesToken hsince (finishes_invite states catalog fresh)
  | confirmReset dto salt => exact wp_usesToken hsince (finishes_reset states)
  | createBusiness actorId ownerId name id => exact wp_createBusiness ..
  | pair ownerId ownerUserId dto fresh => exact wp_pair catalog
  | createOwner | updateOwner | suspend | reinstate | requestReset | auth | remove | unpair
  | unpairRemotely => exact wp_plain hdb _

theorem Request.wp_logic {db : Database} (catalog : DemoCatalog) (req : Request) (hdb : db.Valid)
    (hsince : since ≤ db.auth.clock)
    : (req.prog svc catalog).wp
        ((req.contract svc since states).logic Database.Valid (platformEnv states))
        (req.contract svc since states).toPost [] [] [] db :=
  Prog.Safe.logic constraint (req.safe_call svc catalog) hdb (req.wp_own catalog hdb hsince)

theorem Request.post_aborted (req : Request) (commits : List (Database × Database))
    (h : (req.contract svc since states).Mid commits)
    : (req.contract svc since states).Post (.error .aborted) commits := by
  cases req with
  | acceptInvite | confirmReset => exact h
  | createBusiness => exact ⟨h, fun hcap => by cases hcap⟩
  | pair =>
    intro result hresult
    cases hresult
  | createOwner | updateOwner | suspend | reinstate | requestReset | auth | remove | unpair
  | unpairRemotely => trivial

section Run

variable {ι : Type} [DecidableEq ι] {catalog : DemoCatalog} {db : Database} {reqs : ι → Request}
  {c c' : System ι}

theorem run_kept (hdb : db.Valid)
    (hrun : Run (.error .aborted) (System.start svc catalog db reqs) c)
    : Contract.Kept
        (fun i => (reqs i).contract svc db.auth.clock (· ∈ c.databases db)) Database.Valid c :=
  Contract.sound growth (fun i => (reqs i).post_aborted) hdb
    (fun i => (reqs i).wp_logic catalog hdb le_rfl) hrun

/-- A request that has not begun yet keeps the contract of the time when it does and of what follows. -/
theorem run_kept_late {i : ι} (hdb : db.Valid)
    (hbefore : RunWhere (.error .aborted) (fun _ j _ => j ≠ i) (System.start svc catalog db reqs) c)
    (hrun : Run (.error .aborted) c c')
    : Contract.Kept
        (fun j => if j = i then (reqs j).contract svc c.db.auth.clock (· ∈ c'.databasesSince c)
          else (reqs j).contract svc db.auth.clock (· ∈ c'.databases db)) Database.Valid c' := by
  refine Contract.sound_late growth ?_ (fun j => (reqs j).post_aborted) ?_ hdb
    (fun j => (reqs j).wp_logic catalog hdb le_rfl) ?_ hbefore hrun
  . intro j hj
    rw [if_neg hj]
  . intro j commits h
    split at h
    . next hj =>
      rw [if_pos hj]
      exact (reqs j).post_aborted commits h
    . next hj =>
      rw [if_neg hj]
      exact (reqs j).post_aborted commits h
  . intro hc
    rw [if_pos rfl]
    exact (reqs i).wp_logic catalog hc le_rfl

end Run

end SentryPos.Platform
