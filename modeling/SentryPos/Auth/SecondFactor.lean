import SentryPos.Auth.Attempts
import SentryPos.Auth.Commits

/-!
This module contains the second factor of an admin over whole runs: it stays what it is and every
token that is minted for the admin comes after a right code, as long as it is not enrolled again.
-/

namespace SentryPos.Auth

open ReadCommitted

variable {ι : Type} [DecidableEq ι]

/-- The enrolled second factor of a user: the secret and the hashes of the recovery codes. -/
def Database.factor (db : Database) (u : Uuid) : Option (Option String × List String) :=
  (db.user? u).map fun user => (user.totpSecret, user.totpRecoveryCodes)

/-- A recovery code of the user that matches a code is taken off the list. -/
def Consumes (svc : Services) (u : Uuid) (code : String) (db db' : Database) : Prop :=
  ∃ user k, db.user? u = some user ∧ matchRecoveryCode svc user code = some k
    ∧ db'.factor u = some (user.totpSecret, user.totpRecoveryCodes.eraseIdx k)

/--
What the second factor of the admin promises in a state of the system.

- `changes`: it is what it was, but for the recovery codes that verifications take off.
- `minted`: a token is minted for the admin by a verification whose code was valid for the secret in
  a database before, or was a recovery code that it has taken off.
-/
structure SecondFactor (svc : Services) (u : Uuid) (secret : String) (db : Database)
    (reqs : ι → Request) (c : System ι) : Prop where
  changes : ∀ e ∈ c.history, e.after.factor u = e.before.factor u
    ∨ ∃ dto fresh, reqs e.client = .verify dto fresh ∧ Consumes svc u dto.code e.before e.after
  minted : ∀ es1 e es2, c.history = es1 ++ e :: es2 → ∀ row ∈ e.after.refreshTokens,
    row.id ∉ e.before.refreshTokens.map (·.id) → row.userId = u →
      ∃ dto fresh, reqs e.client = .verify dto fresh
        ∧ ((∃ db' ∈ db :: es1.map (·.after), ∃ after timeStep,
              svc.verifySync dto.code secret db'.clock after = some timeStep)
            ∨ ∃ e' ∈ es1, e'.client = e.client ∧ Consumes svc u dto.code e'.before e'.after)

/-- A platform admin with an enrolled secret. -/
def Enrolled (u : Uuid) (secret : String) (db : Database) : Prop :=
  ∃ user, db.user? u = some user ∧ user.role = .platform_admin
    ∧ truthy user.totpSecret = some secret

/--
The writes of a client keep the second factor of the user.

- An enrollment finds the user without a secret.
- New recovery codes are the current ones but one.
-/
structure KeepsFactor (u : Uuid) (log : List Write) (db : Database) : Prop where
  enable : ∀ secret codes, log = [.enableTotp u secret codes] → ∀ user, db.user? u = some user →
    truthy user.totpSecret = none
  recover : ∀ codes, log = [.setRecoveryCodes u codes] → ∀ user, db.user? u = some user →
    ∃ k, k < user.totpRecoveryCodes.length ∧ codes = user.totpRecoveryCodes.eraseIdx k

/-- The steps of clients whose writes keep the second factor of the user. -/
def FactorKept (u : Uuid) (c : System ι) (i : ι) (_ : System ι) : Prop :=
  KeepsFactor u (c.procs i).log c.db

/-- The second factor is the same, but for recovery codes that have been used. -/
def Shrinks (u : Uuid) (db db' : Database) : Prop :=
  ∀ f', db'.factor u = some f' → ∃ f, db.factor u = some f ∧ f'.1 = f.1 ∧ f'.2.Sublist f.2

theorem Shrinks.refl (u : Uuid) (db : Database) : Shrinks u db db :=
  fun f hf => ⟨f, hf, rfl, .refl f.2⟩

theorem Shrinks.trans {u : Uuid} {db db' db'' : Database} (h : Shrinks u db db')
    (h' : Shrinks u db' db'') : Shrinks u db db'' := by
  intro f'' hf''
  obtain ⟨f', hf', hsecret', hcodes'⟩ := h' f'' hf''
  obtain ⟨f, hf, hsecret, hcodes⟩ := h f' hf'
  exact ⟨f, hf, hsecret'.trans hsecret, hcodes'.trans hcodes⟩

def Write.sparesFactor : Write → Bool
  | enableTotp .. | setRecoveryCodes .. => false
  | _ => true

variable {svc : Services} {u : Uuid} {db db' : Database} {log : List Write} {w : Write}

theorem factor_apply (hw : w.sparesFactor) (db : Database) : (w.apply db).factor u = db.factor u := by
  unfold Database.factor
  rw [w.user?_apply]
  split
  . rw [Option.map_map]
    congr 1
    funext user
    cases w with
    | enableTotp | setRecoveryCodes => cases hw
    | setFailures _ kind => cases kind <;> rfl
    | _ => rfl
  . rfl

theorem factor_apply_ne (hw : w.userId? ≠ some u) (db : Database)
    : (w.apply db).factor u = db.factor u := by
  unfold Database.factor
  rw [w.user?_apply, if_neg hw]

theorem factor_replay (hlog : ∀ w ∈ log, w.sparesFactor) (db : Database)
    : (replay log db).factor u = db.factor u := by
  apply replay_induction (P := fun db' : Database => db'.factor u = db.factor u) rfl
  intro w hw db' hdb'
  rw [store_apply, factor_apply (hlog w hw), hdb']

theorem sparesFactor_of_revocation (hw : w.isRevocation) : w.sparesFactor := by
  cases w with
  | enableTotp | setRecoveryCodes => cases hw
  | _ => rfl

theorem sparesFactor_of_neutral (hw : w.isNeutral) : w.sparesFactor := by
  cases w with
  | enableTotp | setRecoveryCodes => cases hw
  | _ => rfl

theorem factor_setRecoveryCodes (u : Uuid) (codes : List String) (db : Database)
    : ((Write.setRecoveryCodes u codes).apply db).factor u
        =
      (db.factor u).map fun f => (f.1, codes) := by
  unfold Database.factor
  rw [Write.user?_apply, if_pos (by rfl), Option.map_map, Option.map_map]
  rfl

theorem Consumes.shrinks {code : String} (h : Consumes svc u code db db') : Shrinks u db db' := by
  obtain ⟨user, k, huser, _, hafter⟩ := h
  intro f' hf'
  rw [hafter] at hf'
  cases hf'
  refine ⟨(user.totpSecret, user.totpRecoveryCodes), ?_, rfl, List.eraseIdx_sublist _ _⟩
  unfold Database.factor
  rw [huser]
  rfl

/--
A client that writes the recovery codes that it has read but one takes one off, as the codes that it
has read are the current ones.
-/
theorem consumes_of_seen {seen : Database} {user : User} {code : String} {k : Nat}
    (hseen : seen.user? u = some user) (hmatch : matchRecoveryCode svc user code = some k)
    (hrecover : ∀ current, db.user? u = some current → ∃ k', k' < current.totpRecoveryCodes.length
      ∧ user.totpRecoveryCodes.eraseIdx k = current.totpRecoveryCodes.eraseIdx k')
    (husers : (db.user? u).isSome)
    (horder : Shrinks u seen db
      ∨ Shrinks u ((Write.setRecoveryCodes u (user.totpRecoveryCodes.eraseIdx k)).apply db) seen)
    : Consumes svc u code db
        ((Write.setRecoveryCodes u (user.totpRecoveryCodes.eraseIdx k)).apply db) := by
  obtain ⟨current, hcurrent⟩ := Option.isSome_iff_exists.mp husers
  have hfactor : seen.factor u = some (user.totpSecret, user.totpRecoveryCodes) := by
    simp [Database.factor, hseen]
  have hfactor' : db.factor u = some (current.totpSecret, current.totpRecoveryCodes) := by
    simp [Database.factor, hcurrent]
  have hk : k < user.totpRecoveryCodes.length := (List.findIdx?_eq_some_iff_findIdx_eq.mp hmatch).1
  obtain ⟨k', hk', heq⟩ := hrecover current hcurrent
  have hlength := congrArg List.length heq
  rw [List.length_eraseIdx_of_lt hk, List.length_eraseIdx_of_lt hk'] at hlength
  cases horder with
  | inl hshrinks =>
    obtain ⟨f, hf, hsecret, hsublist⟩ := hshrinks _ hfactor'
    rw [hfactor] at hf
    cases hf
    have hle : current.totpRecoveryCodes.Sublist user.totpRecoveryCodes := hsublist
    have hsame : current.totpRecoveryCodes = user.totpRecoveryCodes := hle.eq_of_length (by omega)
    refine ⟨current, k, hcurrent, ?_, ?_⟩
    . unfold matchRecoveryCode at hmatch ⊢
      rw [hsame]
      exact hmatch
    . rw [factor_setRecoveryCodes, hfactor', hsame]
      rfl
  | inr hshrinks =>
    obtain ⟨f, hf, _, hsublist⟩ := hshrinks _ hfactor
    rw [factor_setRecoveryCodes, hfactor'] at hf
    cases hf
    have hle : user.totpRecoveryCodes.length ≤ (user.totpRecoveryCodes.eraseIdx k).length :=
      hsublist.length_le
    rw [List.length_eraseIdx_of_lt hk] at hle
    omega

omit [DecidableEq ι] in
theorem consumes_of_commit {reqs : ι → Request} {i : ι} {states : List Database} {locks : List Key}
    {assume : Stmt → List Write → Database → Prop} {codes : List String}
    (hcommit : (reqs i).Commit svc (Env.on assume states) locks [.setRecoveryCodes u codes] db)
    (hrecover : ∀ user, db.user? u = some user →
      ∃ k, k < user.totpRecoveryCodes.length ∧ codes = user.totpRecoveryCodes.eraseIdx k)
    (hseen : ∀ d ∈ states, Shrinks u d db)
    (husers : ∀ d ∈ states, (d.user? u).isSome → (db.user? u).isSome)
    : ∃ dto fresh, reqs i = .verify dto fresh
        ∧ Consumes svc u dto.code db ((Write.setRecoveryCodes u codes).apply db) := by
  generalize reqs i = req at hcommit
  generalize hlog : [Write.setRecoveryCodes u codes] = log at hcommit
  cases hcommit with
  | neutral _ hw =>
    rw [← (List.cons.inj hlog).1] at hw
    cases hw
  | @recovered dto fresh userId codes' k _ _ hcode =>
    cases hlog
    obtain ⟨user, ⟨seen, hinv, huser⟩, hcodes, hmatch⟩ := hcode
    subst hcodes
    refine ⟨dto, fresh, rfl, ?_⟩
    apply consumes_of_seen huser hmatch hrecover _ (.inl (hseen seen hinv.2))
    apply husers seen hinv.2
    rw [huser]
    rfl
  | enabled | verified | loggedIn | rotated | exchanged | loggedOut => cases hlog
  | reused h | reset h =>
    have hrevocation := h.writes (.setRecoveryCodes u codes) (by rw [← hlog]; simp)
    cases hrevocation

omit [DecidableEq ι] in
theorem changes_of_commit {reqs : ι → Request} {i : ι} {states : List Database} {locks : List Key}
    {assume : Stmt → List Write → Database → Prop}
    (hcommit : (reqs i).Commit svc (Env.on assume states) locks log db)
    (henable : ∀ bearer dto fresh, reqs i = .enable bearer dto fresh →
      ∀ secret codes, log ≠ [.enableTotp u secret codes])
    (hrecover : ∀ codes, log = [.setRecoveryCodes u codes] → ∀ user, db.user? u = some user →
      ∃ k, k < user.totpRecoveryCodes.length ∧ codes = user.totpRecoveryCodes.eraseIdx k)
    (hseen : ∀ d ∈ states, Shrinks u d db)
    (husers : ∀ d ∈ states, (d.user? u).isSome → (db.user? u).isSome)
    : (replay log db).factor u = db.factor u
        ∨ ∃ dto fresh, reqs i = .verify dto fresh ∧ Consumes svc u dto.code db (replay log db) := by
  generalize hreq : reqs i = req at hcommit
  have hone : ∀ w : Write, w.sparesFactor → (replay [w] db).factor u = db.factor u :=
    fun w hw => factor_apply hw db
  have hother : ∀ w : Write, w.userId? ≠ some u → (replay [w] db).factor u = db.factor u :=
    fun w hw => factor_apply_ne hw db
  cases hcommit with
  | neutral _ hw => exact .inl (hone _ (sparesFactor_of_neutral hw))
  | @enabled _ _ _ userId secret' codes =>
    left
    apply hother
    intro heq
    rw [Option.some.inj heq] at henable
    exact henable _ _ _ hreq _ _ rfl
  | @recovered dto fresh userId codes k _ _ hcode =>
    by_cases hid : userId = u
    . subst hid
      right
      rw [← hreq]
      have hcommit : (reqs i).Commit svc (Env.on assume states) locks
          [.setRecoveryCodes userId (codes.eraseIdx k)] db := by
        rw [hreq]
        exact .recovered hcode
      exact consumes_of_commit hcommit (hrecover _ rfl) hseen husers
    . left
      apply hother
      intro heq
      exact hid (Option.some.inj heq)
  | verified | loggedIn | rotated | exchanged | loggedOut => exact .inl (hone _ rfl)
  | reused h | reset h =>
    exact .inl (factor_replay (fun w hw => sparesFactor_of_revocation (h.writes w hw)) db)

omit [DecidableEq ι] in
theorem changes_of_keeps {reqs : ι → Request} {i : ι} {states : List Database} {locks : List Key}
    {secret : String} (hcommit : (reqs i).Commit svc
      (Env.on (fun _ log db => KeepsFactor u log db) states) locks log db)
    (hkeeps : KeepsFactor u log db) (hseen : ∀ d ∈ states, Shrinks u d db)
    (hsecret : ∃ user, db.user? u = some user ∧ truthy user.totpSecret = some secret)
    : (replay log db).factor u = db.factor u
        ∨ ∃ dto fresh, reqs i = .verify dto fresh ∧ Consumes svc u dto.code db (replay log db) := by
  obtain ⟨user, huser, htruthy⟩ := hsecret
  apply changes_of_commit hcommit _ hkeeps.recover hseen
  . intro _ _ _
    rw [huser]
    rfl
  . intro _ _ _ _ secret' codes heq
    rw [hkeeps.enable secret' codes heq user huser] at htruthy
    cases htruthy

theorem shrinks_of_changes {req : Request} (h : db'.factor u = db.factor u
    ∨ ∃ dto fresh, req = .verify dto fresh ∧ Consumes svc u dto.code db db') : Shrinks u db db' := by
  cases h with
  | inl hsame =>
    intro f' hf'
    exact ⟨f', by rw [← hsame, hf'], rfl, .refl _⟩
  | inr hconsumes =>
    obtain ⟨_, _, _, hconsumes⟩ := hconsumes
    exact hconsumes.shrinks

theorem Enrolled.later {secret : String} (h : Enrolled u secret db) (hgrows : db.Grows db')
    (hdb' : db'.Valid) (hshrinks : Shrinks u db db') : Enrolled u secret db' := by
  obtain ⟨user, huser, hrole, hsecret⟩ := h
  have hmem : (u, UserRole.platform_admin) ∈ db'.users.map fun u => (u.id, u.role) := by
    rw [hgrows.users, List.mem_map]
    refine ⟨user, Table.mem_of_get huser, ?_⟩
    rw [show user.id = u from Table.key_of_get huser, hrole]
  obtain ⟨user', hmem', heq⟩ := List.mem_map.mp hmem
  rw [Prod.mk.injEq] at heq
  have huser' : db'.user? u = some user' := by
    rw [← heq.1]
    exact Table.get_of_mem hdb'.userIds hmem'
  refine ⟨user', huser', heq.2, ?_⟩
  obtain ⟨f, hf, hsame, _⟩ := hshrinks (user'.totpSecret, user'.totpRecoveryCodes)
    (by simp [Database.factor, huser'])
  have hfactor : db.factor u = some (user.totpSecret, user.totpRecoveryCodes) := by
    simp [Database.factor, huser]
  rw [hfactor] at hf
  cases hf
  rw [← hsecret]
  exact congrArg truthy hsame

variable {reqs : ι → Request} {c : System ι} {secret : String}

omit [DecidableEq ι] in
theorem promised_factorKept (c : System ι) (i : ι) (c' : System ι) (h : FactorKept u c i c')
    : Promised (fun _ log db => KeepsFactor u log db) c i :=
  fun _ _ => h

theorem run_shrinks (hdb : db.Valid) (henrolled : Enrolled u secret db)
    (hrun : RunWhere (.error .aborted) (FactorKept u) (System.start svc db reqs) c)
    : ∀ d ∈ c.databases db, Shrinks u d c.db := by
  -- A commit leaves less of the factor than all databases before it had.
  induction hrun with
  | refl =>
    intro d hd
    rw [List.mem_singleton.mp hd]
    exact .refl u db
  | @step c1 c2 i hrun hallowed hstep ih =>
    cases hstep with
    | exec | rollback | abort => exact ih
    | @commit tag next hprog =>
      have hseen := ih
      have hgrows : db.Grows c1.db := run_grows hrun
      obtain ⟨user, huser, _, hsecret⟩ :=
        henrolled.later hgrows (run_valid hdb hrun) (hseen db List.mem_cons_self)
      obtain ⟨_, hcommit, _⟩ := run_committing hdb hrun promised_factorKept hprog hallowed
      have hshrinks : Shrinks u c1.db (c1.view i) :=
        shrinks_of_changes (changes_of_keeps hcommit hallowed hseen ⟨user, huser, hsecret⟩)
      intro d hd
      have hd' : d ∈ c1.databases db ∨ d = c1.view i := by
        simpa [Config.databases, Config.commit, or_assoc] using hd
      cases hd' with
      | inl hd' => exact (hseen d hd').trans hshrinks
      | inr hd' =>
        rw [hd']
        exact .refl u _

omit [DecidableEq ι] in
theorem verifies_of_mint {i : ι} {states : List Database} {locks : List Key} {log : List Write}
    (hcommit : (reqs i).Commit svc (Env.on (fun _ log db => KeepsFactor u log db) states) locks log db)
    (hdb : db.Valid) (hreqs : ∀ dto fresh, reqs i ≠ .refresh dto fresh)
    (henrolled : Enrolled u secret db) {row : RefreshToken}
    (hrow : row ∈ (replay log db).refreshTokens) (hnew : row.id ∉ db.refreshTokens.map (·.id))
    (huser : row.userId = u) : ∃ dto fresh, reqs i = .verify dto fresh := by
  have hnot : ¬ SameTokens db (replay log db) := by
    intro hsame
    apply hnew
    rw [← hsame]
    exact List.mem_map_of_mem hrow
  generalize reqs i = req at hcommit hreqs
  cases hcommit with
  | neutral _ hw => exact absurd (sameTokens_neutral hw db) hnot
  | enabled => exact absurd rfl hnot
  | recovered | verified => exact ⟨_, _, rfl⟩
  | @loggedIn _ fresh user now _ _ hrole =>
    -- The user of the token is an owner, and ids are unique.
    obtain ⟨admin, hadmin, hadminRole, _⟩ := henrolled
    have htokens : (replay [Write.insertRefreshToken (refreshTokenRow svc user.id fresh now)] db).refreshTokens
        = db.refreshTokens ++ [refreshTokenRow svc user.id fresh now] := rfl
    rw [htokens, List.mem_append] at hrow
    cases hrow with
    | inl hrow => exact absurd (List.mem_map_of_mem hrow) hnew
    | inr hrow =>
      rw [List.mem_singleton.mp hrow] at huser
      obtain ⟨owner, howner, heq⟩ := List.mem_map.mp hrole
      rw [Prod.mk.injEq] at heq
      have hid : owner.id = admin.id := by
        rw [heq.1, show admin.id = u from Table.key_of_get hadmin]
        exact huser
      have hsame : owner = admin :=
        List.inj_on_of_nodup_map hdb.userIds howner (Table.mem_of_get hadmin) hid
      rw [hsame, hadminRole] at heq
      cases heq.2
  | rotated | exchanged | reused => exact absurd rfl (hreqs _ _)
  | loggedOut =>
    apply absurd _ hnot
    apply Table.map_modify
    intro row
    rfl
  | reset h => exact absurd h.sameTokens hnot

structure EventFacts (svc : Services) (u : Uuid) (secret : String) (db : Database)
    (reqs : ι → Request) (states : List Database) (commits : List (Database × Database))
    (e : Event ι Database) (locks : List Key) (log : List Write) : Prop where
  after : e.after = replay log e.before
  commit : (reqs e.client).Commit svc (Env.on (fun _ log db => KeepsFactor u log db) states) locks log
    e.before
  made : (reqs e.client).Made svc (Env.on (fun _ log db => KeepsFactor u log db) states)
    (commits ++ [(e.before, e.after)])
  keeps : KeepsFactor u log e.before
  shrinks : ∀ d ∈ states, Shrinks u d e.before
  enrolled : Enrolled u secret e.before
  valid : e.before.Valid

theorem event_facts (hdb : db.Valid) (henrolled : Enrolled u secret db)
    (hrun : RunWhere (.error .aborted) (FactorKept u) (System.start svc db reqs) c)
    {es1 es2 : List (Event ι Database)} {e : Event ι Database} (heq : c.history = es1 ++ e :: es2)
    : ∃ c' locks log, RunWhere (.error .aborted) (FactorKept u) (System.start svc db reqs) c'
        ∧ c'.history = es1 ∧ EventFacts svc u secret db reqs (c'.databases db)
          (c'.commitsOf e.client) e locks log := by
  obtain ⟨c', tag, next, hcommitted⟩ := hrun.event (show c.history = [] ++ es1 ++ e :: es2 from heq)
  have hreached := hcommitted.reached
  have hbefore : e.before = c'.db := by rw [hcommitted.event]
  have hafter : e.after = c'.view e.client := by rw [hcommitted.event]
  have hshrinks := run_shrinks hdb henrolled hreached
  have hgrows : db.Grows c'.db := run_grows hreached
  have hvalid := run_valid hdb hreached
  obtain ⟨_, hcommit, hmade⟩ :=
    run_committing hdb hreached promised_factorKept hcommitted.prog hcommitted.committed
  refine ⟨c', (c'.procs e.client).locks, (c'.procs e.client).log, hreached, hcommitted.history, ?_⟩
  constructor
  . rw [hafter, hbefore]
    rfl
  . rw [hbefore]
    exact hcommit
  . rw [hbefore, hafter]
    exact hmade
  . rw [hbefore]
    exact hcommitted.committed
  . rw [hbefore]
    exact hshrinks
  . rw [hbefore]
    exact henrolled.later hgrows hvalid (hshrinks db List.mem_cons_self)
  . rw [hbefore]
    exact hvalid

/-- The second factor changes by verifications that take recovery codes off, and in no other way. -/
theorem run_changes (hdb : db.Valid) (henrolled : Enrolled u secret db)
    (hrun : RunWhere (.error .aborted) (FactorKept u) (System.start svc db reqs) c)
    {e : Event ι Database} (he : e ∈ c.history) : e.after.factor u = e.before.factor u
      ∨ ∃ dto fresh, reqs e.client = .verify dto fresh ∧ Consumes svc u dto.code e.before e.after := by
  obtain ⟨es1, es2, heq⟩ := List.append_of_mem he
  obtain ⟨_, _, _, _, _, hfacts⟩ := event_facts hdb henrolled hrun heq
  obtain ⟨user, huser, _, hsecret⟩ := hfacts.enrolled
  rw [hfacts.after]
  exact changes_of_keeps hfacts.commit hfacts.keeps hfacts.shrinks ⟨user, huser, hsecret⟩

theorem validCode_secret {assume : Stmt → List Write → Database → Prop} {states : List Database}
    {code : String} (hvalid : ValidCode svc (Env.on assume states) u code)
    (henrolled : Enrolled u secret db) (hshrinks : ∀ d ∈ states, Shrinks u d db)
    : ∃ d ∈ states, ∃ after timeStep, svc.verifySync code secret d.clock after = some timeStep := by
  obtain ⟨user, secret', timeStep, ⟨d, hd, huser⟩, hsecret', ⟨d', hd', hverified⟩⟩ := hvalid
  obtain ⟨admin, hadmin, _, hsecret⟩ := henrolled
  obtain ⟨f, hf, hsame, _⟩ := hshrinks d hd.2 (admin.totpSecret, admin.totpRecoveryCodes)
    (by simp [Database.factor, hadmin])
  have hfactor : d.factor u = some (user.totpSecret, user.totpRecoveryCodes) := by
    simp [Database.factor, huser]
  rw [hfactor] at hf
  cases hf
  have heq : secret' = secret := by
    have hsame' : admin.totpSecret = user.totpSecret := hsame
    rw [hsame', hsecret'] at hsecret
    exact Option.some.inj hsecret
  rw [heq] at hverified
  exact ⟨d', hd'.2, _, _, hverified⟩

theorem usedCode_consumes (hdb : db.Valid) (henrolled : Enrolled u secret db)
    (hrun : RunWhere (.error .aborted) (FactorKept u) (System.start svc db reqs) c)
    {e : Event ι Database} (he : e ∈ c.history) {code : String}
    (hused : UsedCode svc (Env.on (fun _ log db => KeepsFactor u log db) (c.databases db)) u code
      (e.before, e.after)) : Consumes svc u code e.before e.after := by
  obtain ⟨codes, k, ⟨user, ⟨seen, hseen, huser⟩, hcodes, hmatch⟩, hafter, hkeeps⟩ := hused
  subst hcodes
  obtain ⟨es1, es2, heq, hchain1, hchain2⟩ := hrun.chain.split he
  obtain ⟨_, _, _, _, _, hfacts⟩ := event_facts hdb henrolled hrun heq
  obtain ⟨admin, hadmin, _⟩ := hfacts.enrolled
  have hevents : ∀ e ∈ c.history, Shrinks u e.before e.after :=
    fun e he => shrinks_of_changes (run_changes hdb henrolled hrun he)
  have hafter' : e.after
      = (Write.setRecoveryCodes u (user.totpRecoveryCodes.eraseIdx k)).apply e.before := hafter
  rw [hafter']
  apply consumes_of_seen huser hmatch (hkeeps.recover _ rfl)
  . rw [hadmin]
    rfl
  . rw [← hafter']
    have hcases : seen ∈ db :: es1.map (·.after) ∨ seen ∈ e.after :: es2.map (·.after) := by
      have hmem : seen ∈ db :: c.history.map (·.after) := hseen.2
      rw [heq] at hmem
      simpa [or_assoc] using hmem
    refine hcases.imp ?_ ?_
    . apply hchain1.to_last (Shrinks.refl u) (fun _ _ _ => Shrinks.trans)
      intro e' he'
      apply hevents
      simp [heq, he']
    . apply hchain2.of_first (Shrinks.refl u) (fun _ _ _ => Shrinks.trans)
      intro e' he'
      apply hevents
      simp [heq, he']

/-- The second factor of an admin stands as long as no enrollment and no lost update replaces it. -/
theorem second_factor_stands (hdb : db.Valid) (hreqs : ∀ i dto fresh, reqs i ≠ .refresh dto fresh)
    (henrolled : Enrolled u secret db)
    (hrun : RunWhere (.error .aborted) (FactorKept u) (System.start svc db reqs) c)
    : SecondFactor svc u secret db reqs c where
  changes _ he := run_changes hdb henrolled hrun he
  minted := by
    intro es1 e es2 heq row hrow hnew huser
    obtain ⟨c', locks, log, hrun', hhistory, hfacts⟩ := event_facts hdb henrolled hrun heq
    have hrow' := hrow
    rw [hfacts.after] at hrow'
    obtain ⟨dto, fresh, hreq⟩ := verifies_of_mint hfacts.commit hfacts.valid (hreqs e.client)
      hfacts.enrolled hrow' hnew huser
    have hmade := hfacts.made
    rw [hreq] at hmade
    have hnot : ¬ SameTokens e.before e.after := by
      intro hsame
      apply hnew
      rw [← hsame]
      exact List.mem_map_of_mem hrow
    have hminted := hmade (e.before, e.after) (List.mem_append_right _ (List.mem_singleton_self _))
    have hstates : c'.databases db = db :: es1.map (·.after) := by
      rw [← hhistory]
      rfl
    refine ⟨dto, fresh, hreq, ?_⟩
    cases hminted with
    | inl hsame => exact absurd hsame hnot
    | inr hminted =>
      obtain ⟨userId, now, fresh', hinsert, hright⟩ := hminted
      have hid : userId = u := by
        have htokens : e.after.refreshTokens
            = e.before.refreshTokens ++ [refreshTokenRow svc userId fresh' now] := by
          rw [show e.after = _ from hinsert]
          rfl
        rw [htokens, List.mem_append] at hrow
        cases hrow with
        | inl hrow => exact absurd (List.mem_map_of_mem hrow) hnew
        | inr hrow =>
          rw [List.mem_singleton.mp hrow] at huser
          exact huser
      subst hid
      cases hright with
      | inl hvalid =>
        left
        rw [← hstates]
        exact validCode_secret hvalid hfacts.enrolled hfacts.shrinks
      | inr hused =>
        obtain ⟨commit, hmem, hused⟩ := hused
        right
        cases List.mem_append.mp hmem with
        | inl hmem =>
          unfold Config.commitsOf at hmem
          obtain ⟨e', he', heq'⟩ := List.mem_map.mp hmem
          rw [List.mem_filter, decide_eq_true_eq] at he'
          refine ⟨e', hhistory ▸ he'.1, he'.2, ?_⟩
          rw [← heq'] at hused
          exact usedCode_consumes hdb henrolled hrun' he'.1 hused
        | inr hmem =>
          -- The commit that mints the token is not the one that takes the code off.
          rw [List.mem_singleton.mp hmem] at hused
          obtain ⟨codes, k, _, hafter, _⟩ := hused
          apply absurd _ hnot
          rw [show e.after = _ from hafter]
          rfl

/-- The check that the writes of a client keep the second factor of the user. -/
def keepsFactor (u : Uuid) (c : System ι) (i : ι) : Bool :=
  match (c.procs i).log with
  | [.enableTotp userId _ _] =>
    userId ≠ u || (c.db.user? u).all fun user => (truthy user.totpSecret).isNone
  | [.setRecoveryCodes userId codes] =>
    userId ≠ u || (c.db.user? u).all fun user =>
      (List.range user.totpRecoveryCodes.length).any fun k => codes = user.totpRecoveryCodes.eraseIdx k
  | _ => true

omit [DecidableEq ι] in
theorem keepsFactor_sound {c c' : System ι} {i : ι} (h : keepsFactor u c i) : FactorKept u c i c' := by
  unfold keepsFactor at h
  constructor
  . intro secret codes hlog user huser
    rw [hlog] at h
    simpa [huser] using h
  . intro codes hlog user huser
    rw [hlog] at h
    simpa [huser] using h

namespace Office

def enrolled : Database :=
  { database with users := [{ admin with totpRecoveryCodes := ["first", "second"] }] }

theorem enrolled_valid : enrolled.Valid where
  userIds := by decide
  unique := by simp [UniqueIndex.Unique, UniqueIndex.entries, Database.entries, enrolled, database]

theorem enrolled_admin : Enrolled 1 "secret" enrolled :=
  ⟨_, rfl, rfl, rfl⟩

def takeover : Fin 4 → Request
  | 0 => .login ⟨"admin@sentry.test", "password", password_ne⟩ ⟨"refresh", 1⟩
  | 1 => .setup (some "preauth") "stolen"
  | 2 => .enable (some "preauth") ⟨"stolen", stolen_ne⟩ [("code", "salt")]
  | 3 => .verify ⟨"preauth", "stolen", preauth_ne, stolen_ne⟩ ⟨"refresh", 2⟩

/-- The admin, who uses the second recovery code. -/
def recovery : Fin 2 → Request
  | 0 => .login ⟨"admin@sentry.test", "password", password_ne⟩ ⟨"refresh", 1⟩
  | 1 => .verify ⟨"preauth", "second", preauth_ne, second_ne⟩ ⟨"refresh", 2⟩

theorem takeover_succeeds
    : ((System.start services enrolled takeover).turns
          (List.replicate 5 0 ++ List.replicate 4 1 ++ List.replicate 5 2 ++ List.replicate 12 3)).map
          (fun c => (c.db.factor 1, (c.procs 3).prog.result?, c.db.refreshTokens.map (·.userId)))
        =
      some (some (some "stolen", ["code"]), some (.ok (.verified ⟨⟨"access", "refresh"⟩,
        .platform_admin⟩)), [1]) := by
  decide +kernel

theorem recovery_succeeds
    : ((System.start services enrolled recovery).turnsWhere (keepsFactor 1)
          (List.replicate 5 0 ++ List.replicate 12 1)).map
          (fun c => (c.db.factor 1, (c.procs 1).prog.result?, c.db.refreshTokens.map (·.userId)))
        =
      some (some (some "secret", ["first"]), some (.ok (.verified ⟨⟨"access", "refresh"⟩,
        .platform_admin⟩)), [1]) := by
  decide +kernel

end Office

/-- An actor who knows the password enrolls a secret of their own, and gets a token pair for it. -/
theorem second_factor_replaced
    : ¬ ∀ (svc : Services) (u : Uuid) (secret : String) (db : Database) (reqs : Fin 4 → Request)
        (c : System (Fin 4)), db.Valid → (∀ i dto fresh, reqs i ≠ .refresh dto fresh) →
          Enrolled u secret db → Run (.error .aborted) (System.start svc db reqs) c →
            SecondFactor svc u secret db reqs c := by
  intro hall
  have htakeover := Office.takeover_succeeds
  rw [Option.map_eq_some_iff] at htakeover
  obtain ⟨c, hturns, hfacts⟩ := htakeover
  rw [Prod.mk.injEq] at hfacts
  have hrun : Run (.error .aborted) (System.start Office.services Office.enrolled Office.takeover) c :=
    Config.run_of_turns _ _ hturns
  have hreqs : ∀ i dto fresh, Office.takeover i ≠ .refresh dto fresh := by
    intro i dto fresh heq
    unfold Office.takeover at heq
    split at heq <;> cases heq
  have hfactor := hall _ 1 "secret" _ _ c Office.enrolled_valid hreqs Office.enrolled_admin hrun
  have hshrinks : Shrinks 1 Office.enrolled c.db := by
    apply hrun.chain.to_last (Shrinks.refl 1) (fun _ _ _ => Shrinks.trans) _ _ List.mem_cons_self
    intro e he
    exact shrinks_of_changes (hfactor.changes e he)
  obtain ⟨f, hf, hsecret, _⟩ := hshrinks _ hfacts.1
  cases hf
  revert hsecret
  decide

theorem second_factor_stands_recovery
    : ∃ c, c.db.factor 1 = some (some "secret", ["first"]) ∧ c.db.refreshTokens.map (·.userId) = [1]
        ∧ SecondFactor Office.services 1 "secret" Office.enrolled Office.recovery c := by
  have hrecovery := Office.recovery_succeeds
  rw [Option.map_eq_some_iff] at hrecovery
  obtain ⟨c, hturns, hfacts⟩ := hrecovery
  rw [Prod.mk.injEq, Prod.mk.injEq] at hfacts
  have hrun : RunWhere (.error .aborted) (FactorKept 1)
      (System.start Office.services Office.enrolled Office.recovery) c :=
    Config.run_of_turnsWhere _ (fun _ _ _ hcheck _ => keepsFactor_sound hcheck) _ hturns
  have hreqs : ∀ i dto fresh, Office.recovery i ≠ .refresh dto fresh := by
    intro i dto fresh heq
    unfold Office.recovery at heq
    split at heq <;> cases heq
  exact ⟨c, hfacts.1, hfacts.2.2,
    second_factor_stands Office.enrolled_valid hreqs Office.enrolled_admin hrun⟩

end SentryPos.Auth
