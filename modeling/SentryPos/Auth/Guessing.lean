import SentryPos.Auth.Attempts
import SentryPos.Throttle

/-!
This module contains the bound on guessing the second factor: wrong codes are throttled as long as
no password login clears the counter that they are counted on, which the code does not ensure.
-/

namespace SentryPos.Auth

open ReadCommitted

variable {svc : Services} {db db' : Database} {u : Uuid}

structure Spares {R : Type} (p : AuthCall R) : Prop where
  settles : Call.Settles p
  writes : Call.OnlyWrites (fun w : Write => w.sparesFailures) p

namespace Spares

variable {R S : Type} {tag : Stmt}

theorem pure (r : R) : Spares (pure r : AuthCall R) := ⟨.pure r, .pure r⟩

theorem throw (e : ApiError) : Spares (throw e : AuthCall R) := ⟨.throw e, .throw e⟩

theorem query (q : Database → R) : Spares (Call.query tag q : AuthCall R) := ⟨.query q, .query q⟩

theorem check (q : Database → Except ApiError R) : Spares (Call.check tag q : AuthCall R) :=
  ⟨.check q, .check q⟩

theorem update {w : Write} (hw : w.sparesFailures) : Spares (AuthCall.update tag w) :=
  ⟨settles_update tag w, onlyWrites_update hw⟩

theorem bind {p : AuthCall R} {k : R → AuthCall S} (hp : Spares p) (hk : ∀ r, Spares (k r))
    : Spares (p >>= k) :=
  ⟨hp.settles.bind fun r => (hk r).settles, hp.writes.bind fun r => (hk r).writes⟩

theorem tryCatch {p : AuthCall R} {handle : ApiError → AuthCall R} (hp : Spares p)
    (hhandle : ∀ e, Spares (handle e)) : Spares (tryCatch p handle) :=
  ⟨hp.settles.tryCatch fun e => (hhandle e).settles, hp.writes.tryCatch fun e => (hhandle e).writes⟩

end Spares

theorem spares_mintTokenPair (svc : Services) (userId : Uuid) (role : UserRole)
    (ownerId : Option Uuid) (fresh : FreshToken)
    : Spares (mintTokenPair svc userId role ownerId fresh) := by
  unfold mintTokenPair
  apply Spares.bind (.query _)
  intro now
  apply Spares.bind (.update rfl)
  intro _
  apply Spares.bind (.query _)
  intro signedAt
  exact .pure _

theorem spares_finishLogin (svc : Services) (user : User) (fresh : FreshToken)
    : Spares (finishLogin svc user fresh) := by
  have hgate : Spares (assertNotSuspended user) := by
    unfold assertNotSuspended
    split
    . apply Spares.bind (.query _)
      intro owner
      split
      . exact .throw _
      . exact .pure _
    . exact .pure _
  have hissue : Spares (issueTokens svc user fresh) := by
    unfold issueTokens
    split
    . apply Spares.bind (.query _)
      intro now
      dsimp only
      split <;> exact .pure _
    . apply Spares.bind (spares_mintTokenPair svc _ _ _ _)
      intro pair
      exact .pure _
  exact .bind hgate fun _ => hissue

theorem spares_useRecoveryCode (svc : Services) (user : User) (code : String)
    : Spares (useRecoveryCode svc user code) := by
  unfold useRecoveryCode
  split
  . exact .throw _
  . exact .update rfl

theorem spares_verifyTotp (svc : Services) (userId : Uuid) (code : String)
    : Spares (verifyTotp svc userId code) := by
  unfold verifyTotp
  apply Spares.bind (.check _)
  intro user
  split
  . exact .throw _
  . apply Spares.bind (.query _)
    intro now
    split
    . apply Spares.tryCatch (.update rfl)
      intro _
      exact spares_useRecoveryCode svc user code
    . exact spares_useRecoveryCode svc user code

/-- A request as one atomic step. -/
def Request.step (svc : Services) (req : Request) (db : Database)
    : Except ApiError Response × Database :=
  (req.prog svc).solo [] db

theorem Request.step_of_alone {req : Request} {r : Except ApiError Response} {log : List Write}
    (h : (req.call svc).alone [] db = (r, log, db')) : req.step svc db = (r, db') := by
  unfold step prog
  rw [Prog.solo_eq]
  have hrun : Prog.alone (req.call svc).run [] db = (r, log, db') := h
  rw [hrun]

/--
The second-factor code of the user that a request has evaluated, and whether it was right: a request
with a pre-auth token of the user reaches the check of the code if the account is not locked.
-/
def evaluation (svc : Services) (u : Uuid) (db : Database) : Request → Option Bool
  | .verify dto _ =>
    match svc.verifyJwt db.clock dto.preAuthToken with
    | some payload =>
      if payload.kind = some "preauth" ∧ payload.sub = u
          ∧ (db.user? u).any (fun user => !user.isLocked .login db.clock) then
        some ((verifyTotp svc u dto.code).alone [] db).1.isOk
      else
        none
    | none => none
  | _ => none

def clearsByPassword (svc : Services) (u : Uuid) (db : Database) : Request → Bool
  | .login dto _ =>
    (db.users.find? fun user => user.email = dto.email).any fun user =>
      user.id = u && !user.isLocked .login db.clock && passwordMatches svc user dto.password
  | _ => false

/-- What a request does to the counter of the user. -/
inductive Effect (u : Uuid) (db db' : Database) : Option Bool → Bool → Prop where
  | same (h : db'.failures u .login = db.failures u .login) : Effect u db db' none false
  | failed (h : Failed u .login db db') : Effect u db db' none false
  | wrongCode (h : Failed u .login db db') : Effect u db db' (some false) false
  | rightCode (h : Cleared u .login db') : Effect u db db' (some true) false
  | cleared (h : Cleared u .login db') : Effect u db db' none true

structure Stepped (svc : Services) (u : Uuid) (req : Request) (db db' : Database) : Prop where
  clock : db'.clock = db.clock
  userIds : db'.users.map (·.id) = db.users.map (·.id)
  effect : Effect u db db' (evaluation svc u db req) (clearsByPassword svc u db req)

theorem Effect.sameFailures {db'' : Database} {evaluated : Option Bool} {clears : Bool}
    (h : Effect u db db' evaluated clears) (hsame : SameFailures db' db'')
    : Effect u db db'' evaluated clears := by
  have hfailures := hsame.failures u .login
  have hfailed : Failed u .login db db' → Failed u .login db db'' := by
    intro h
    exact ⟨h.notLocked, hfailures.trans h.failures⟩
  have hcleared : Cleared u .login db' → Cleared u .login db'' := by
    intro h f hf
    rw [hfailures] at hf
    exact h f hf
  cases h with
  | same h => exact .same (hfailures.trans h)
  | failed h => exact .failed (hfailed h)
  | wrongCode h => exact .wrongCode (hfailed h)
  | rightCode h => exact .rightCode (hcleared h)
  | cleared h => exact .cleared (hcleared h)

theorem alone_withLockout {R : Type} {user : User} {kind : LockoutKind} {next : AuthCall R}
    (hlocked : user.isLocked kind db.clock = false) (valid : Bool)
    : (withLockout user kind valid next).alone [] db
        =
      if valid then
        (do recordSuccess user.id kind; next : AuthCall R).alone [] db
      else
        (recordFailure user.id kind : AuthCall R).alone [] db := by
  unfold withLockout
  rw [Call.alone_bind, alone_assertNotLocked hlocked]
  dsimp only
  rw [Call.alone_bind, Call.alone_query]
  cases valid <;> rfl

theorem alone_withLockout_locked {R : Type} {user : User} {kind : LockoutKind} {next : AuthCall R}
    (hlocked : user.isLocked kind db.clock) (valid : Bool)
    : ∃ e, (withLockout user kind valid next).alone [] db = (.error e, [], db) := by
  obtain ⟨retry, halone⟩ := alone_assertNotLocked_locked hlocked
  unfold withLockout
  rw [Call.alone_bind, halone]
  exact ⟨_, rfl⟩

theorem login_alone {dto : LoginDto} {fresh : FreshToken}
    (hdb : (db.users.map (·.id)).Nodup)
    : ∃ r db', (login svc dto fresh).alone [] db = (r, [], db')
        ∧ Stepped svc u (.login dto fresh) db db' := by
  unfold login
  rw [Call.alone_bind, Call.alone_query]
  dsimp only
  cases hfind : db.users.find? fun user => user.email = dto.email with
  | none =>
    refine ⟨_, db, rfl, rfl, rfl, ?_⟩
    have hclears : clearsByPassword svc u db (.login dto fresh) = false := by
      simp [clearsByPassword, hfind]
    rw [hclears]
    exact .same rfl
  | some user =>
    have huser : db.user? user.id = some user :=
      Table.get_of_mem hdb (List.mem_of_find?_eq_some hfind)
    dsimp only
    cases hlocked : user.isLocked .login db.clock with
    | true =>
      obtain ⟨e, halone⟩ := alone_withLockout_locked hlocked (passwordMatches svc user dto.password)
      rw [halone]
      refine ⟨_, db, rfl, rfl, rfl, ?_⟩
      have hclears : clearsByPassword svc u db (.login dto fresh) = false := by
        simp [clearsByPassword, hfind, hlocked]
      rw [hclears]
      exact .same rfl
    | false =>
      rw [alone_withLockout hlocked]
      cases hvalid : passwordMatches svc user dto.password with
      | true =>
        rw [if_pos rfl, Call.alone_bind, alone_recordSuccess huser]
        dsimp only
        obtain ⟨r, db', halone, hsame⟩ := alone_sparesFailures (spares_finishLogin svc user fresh).settles
          (spares_finishLogin svc user fresh).writes
          ((Write.setFailures user.id .login 0 (some none)).apply db)
        rw [halone]
        refine ⟨r, db', rfl, hsame.clock, hsame.userIds.trans (Write.userIds_apply _ db), ?_⟩
        apply Effect.sameFailures _ hsame
        by_cases hid : user.id = u
        . have hclears : clearsByPassword svc u db (.login dto fresh) = true := by
            simp [clearsByPassword, hfind, hlocked, hvalid, hid]
          rw [hclears, hid]
          exact .cleared (cleared_setFailures u .login db)
        . have hclears : clearsByPassword svc u db (.login dto fresh) = false := by
            simp [clearsByPassword, hfind, hid]
          rw [hclears]
          apply Effect.same
          rw [failures_setFailures, if_neg fun hboth => hid hboth.1]
      | false =>
        rw [if_neg Bool.false_ne_true]
        obtain ⟨e, db', halone, hfailed, hclock, hothers, hids⟩ := alone_recordFailure huser hlocked
        rw [halone]
        refine ⟨_, db', rfl, hclock, hids, ?_⟩
        have hclears : clearsByPassword svc u db (.login dto fresh) = false := by
          simp [clearsByPassword, hfind, hvalid]
        rw [hclears]
        by_cases hid : user.id = u
        . rw [hid] at hfailed
          exact .failed hfailed
        . exact .same (hothers u .login (Ne.symm hid))

theorem alone_wrongCode {user : User} {userId : Uuid} (huser : db.user? userId = some user)
    (hlocked : user.isLocked .login db.clock = false)
    : ∃ db', (do tryCatch (recordFailure userId .login) fun _ => pure (); throw .totpInvalid
          : AuthCall Unit).alone [] db = (.error .totpInvalid, [], db')
        ∧ Failed userId .login db db'
        ∧ db'.clock = db.clock
        ∧ (∀ id kind, id ≠ userId → db'.failures id kind = db.failures id kind)
        ∧ db'.users.map (·.id) = db.users.map (·.id) := by
  obtain ⟨e, db', halone, hfailed, hclock, hothers, hids⟩ := alone_recordFailure huser hlocked
  refine ⟨db', ?_, hfailed, hclock, hothers, hids⟩
  rw [Call.alone_bind, Call.alone_tryCatch, halone]
  rfl

theorem SameFailures.user {user : User} {kind : LockoutKind} (hsame : SameFailures db db')
    (huser : db.user? u = some user) (hlocked : user.isLocked kind db.clock = false)
    : ∃ user', db'.user? u = some user' ∧ user'.isLocked kind db'.clock = false := by
  have hfailures := hsame.failures u kind
  unfold Database.failures at hfailures
  rw [huser, Option.map_some, Option.map_eq_some_iff] at hfailures
  obtain ⟨user', huser', heq⟩ := hfailures
  rw [Prod.mk.injEq] at heq
  refine ⟨user', huser', ?_⟩
  unfold User.isLocked at hlocked ⊢
  rw [heq.2, hsame.clock]
  exact hlocked

theorem SameFailures.symm (h : SameFailures db db') : SameFailures db' db :=
  ⟨h.clock.symm, fun id kind => (h.failures id kind).symm, h.userIds.symm⟩

theorem SameFailures.failed {db0 : Database} {kind : LockoutKind} (hsame : SameFailures db0 db)
    (h : Failed u kind db db') : Failed u kind db0 db' := by
  constructor
  . obtain ⟨user, huser, hlocked⟩ := h.notLocked
    exact hsame.symm.user huser hlocked
  . rw [h.failures, hsame.failures, hsame.clock]

theorem verify_alone {dto : TotpVerifyDto} {fresh : FreshToken}
    : ∃ r db', (verify svc dto fresh).alone [] db = (r, [], db')
        ∧ Stepped svc u (.verify dto fresh) db db' := by
  -- Every early end leaves the database as it was, and no code has been evaluated.
  have hnone : ∀ e : ApiError, evaluation svc u db (.verify dto fresh) = none →
      ∃ r db', ((.error e, [], db) : Except ApiError VerifyResult × List Write × Database) = (r, [], db')
        ∧ Stepped svc u (.verify dto fresh) db db' := by
    intro e hevaluation
    refine ⟨_, db, rfl, rfl, rfl, ?_⟩
    rw [hevaluation]
    exact .same rfl
  unfold verify AuthCall.now
  rw [Call.alone_bind, Call.alone_query]
  dsimp only
  cases hjwt : svc.verifyJwt db.clock dto.preAuthToken with
  | none =>
    apply hnone
    simp [evaluation, hjwt]
  | some payload =>
    by_cases hkind : payload.kind = some "preauth"
    . simp only [hkind, ne_eq, not_true_eq_false, if_false]
      rw [Call.alone_bind, alone_findUniqueOrThrow]
      cases huser : db.user? payload.sub with
      | none =>
        apply hnone
        simp only [evaluation, hjwt]
        rw [if_neg]
        intro hall
        rw [← hall.2.1, huser] at hall
        cases hall.2.2
      | some user =>
        dsimp only [Option.elim]
        rw [Call.alone_bind]
        cases hlocked : user.isLocked .login db.clock with
        | true =>
          obtain ⟨retry, halone⟩ := alone_assertNotLocked_locked hlocked
          rw [halone]
          apply hnone
          simp only [evaluation, hjwt]
          rw [if_neg]
          intro hall
          rw [← hall.2.1, huser] at hall
          simp [hlocked] at hall
        | false =>
          rw [alone_assertNotLocked hlocked]
          dsimp only
          rw [Call.alone_bind, Call.alone_tryCatch]
          have hspares := spares_verifyTotp svc payload.sub dto.code
          obtain ⟨r1, db1, hverify, hsame1⟩ := alone_sparesFailures hspares.settles hspares.writes db
          obtain ⟨user1, huser1, hlocked1⟩ := hsame1.user huser hlocked
          have hevaluation : evaluation svc u db (.verify dto fresh)
              = if payload.sub = u then some r1.isOk else none := by
            simp only [evaluation, hjwt, hkind, true_and]
            by_cases hsub : payload.sub = u
            . rw [hsub] at huser hverify
              rw [if_pos hsub, if_pos ⟨hsub, by simp [huser, hlocked]⟩, hverify]
            . rw [if_neg hsub, if_neg fun hall => hsub hall.1]
          rw [hverify]
          cases r1 with
          | error e =>
            dsimp only
            obtain ⟨db2, hwrong, hfailed, hclock, hothers, hids⟩ := alone_wrongCode huser1 hlocked1
            rw [hwrong]
            refine ⟨_, db2, rfl, hclock.trans hsame1.clock, hids.trans hsame1.userIds, ?_⟩
            rw [hevaluation]
            by_cases hsub : payload.sub = u
            . rw [if_pos hsub]
              rw [hsub] at hfailed
              exact .wrongCode (hsame1.failed hfailed)
            . rw [if_neg hsub]
              apply Effect.same
              rw [hothers u .login (Ne.symm hsub), hsame1.failures]
          | ok _ =>
            dsimp only
            rw [Call.alone_bind, alone_recordSuccess huser1]
            dsimp only
            have hmint : Spares (do
                let pair ← mintTokenPair svc payload.sub user.role none fresh
                return { pair, role := user.role } : AuthCall VerifyResult) := by
              apply Spares.bind (spares_mintTokenPair svc _ _ _ _)
              intro pair
              exact .pure _
            obtain ⟨r, db', halone, hsame⟩ := alone_sparesFailures hmint.settles hmint.writes
              ((Write.setFailures payload.sub .login 0 (some none)).apply db1)
            rw [halone]
            refine ⟨r, db', rfl, hsame.clock.trans hsame1.clock, ?_, ?_⟩
            . exact hsame.userIds.trans ((Write.userIds_apply _ db1).trans hsame1.userIds)
            . apply Effect.sameFailures _ hsame
              rw [hevaluation]
              by_cases hsub : payload.sub = u
              . rw [if_pos hsub, hsub]
                exact .rightCode (cleared_setFailures u .login db1)
              . rw [if_neg hsub]
                apply Effect.same
                rw [failures_setFailures, if_neg fun hboth => hsub hboth.1, hsame1.failures]
    . simp only [hkind, ne_eq, not_false_eq_true, if_true]
      apply hnone
      simp [evaluation, hjwt, hkind]

def Request.isLoginOrVerify : Request → Bool
  | .login .. | .verify .. => true
  | _ => false

theorem Request.stepped {req : Request} (hreq : req.isLoginOrVerify)
    (hdb : (db.users.map (·.id)).Nodup) : Stepped svc u req db (req.step svc db).2 := by
  cases req with
  | login dto fresh =>
    have hlogin : ∃ r db', (Auth.login svc dto fresh).alone [] db = (r, [], db')
        ∧ Stepped svc u (.login dto fresh) db db' := login_alone hdb
    obtain ⟨r, db', halone, hstepped⟩ := hlogin
    have hcall : ∃ r, (Request.call svc (.login dto fresh)).alone [] db = (r, [], db') := by
      unfold call
      rw [Call.alone_bind, halone]
      cases r <;> exact ⟨_, rfl⟩
    obtain ⟨r, hcall⟩ := hcall
    rw [Request.step_of_alone hcall]
    exact hstepped
  | verify dto fresh =>
    have hverify : ∃ r db', (Auth.verify svc dto fresh).alone [] db = (r, [], db')
        ∧ Stepped svc u (.verify dto fresh) db db' := verify_alone
    obtain ⟨r, db', halone, hstepped⟩ := hverify
    have hcall : ∃ r, (Request.call svc (.verify dto fresh)).alone [] db = (r, [], db') := by
      unfold call
      rw [Call.alone_bind, halone]
      cases r <;> exact ⟨_, rfl⟩
    obtain ⟨r, hcall⟩ := hcall
    rw [Request.step_of_alone hcall]
    exact hstepped
  | _ => cases hreq

/-- A sequence of requests so far: the database and when wrong codes have been evaluated since the
last right one. -/
structure Guessing where
  db : Database
  guesses : List DateTime

namespace Guessing

/-- One more request, some milliseconds after the last one. -/
def step (svc : Services) (u : Uuid) (g : Guessing) (s : Nat × Request) : Guessing :=
  let db := (Write.tick s.1).apply g.db
  {
    db := (s.2.step svc db).2
    guesses :=
      match evaluation svc u db s.2 with
      | some true => []
      | some false => g.guesses ++ [db.clock]
      | none => g.guesses
  }

def run (svc : Services) (u : Uuid) (g : Guessing) (steps : List (Nat × Request)) : Guessing :=
  steps.foldl (step svc u) g

/-- No log in clears the counter while wrong codes are counted on it. -/
def ClearsInTime (svc : Services) (u : Uuid) : Guessing → List (Nat × Request) → Prop
  | _, [] => True
  | g, s :: steps =>
    (clearsByPassword svc u ((Write.tick s.1).apply g.db) s.2 → g.guesses = [])
      ∧ ClearsInTime svc u (g.step svc u s) steps

structure Counted (u : Uuid) (g : Guessing) : Prop where
  userIds : (g.db.users.map (·.id)).Nodup
  past : ∀ t ∈ g.guesses, t ≤ g.db.clock
  throttled : Throttle.Throttled MAX_ATTEMPTS (LOCKOUT_SECONDS * 1000) g.guesses
  counted : ∀ f, g.db.failures u .login = some f → g.guesses.length ≤ f.1
  locked : ∀ f, g.db.failures u .login = some f → MAX_ATTEMPTS ≤ f.1 →
    ∀ t ∈ g.guesses.getLast?, ∃ lockedUntil, f.2 = some lockedUntil
      ∧ t + LOCKOUT_SECONDS * 1000 ≤ lockedUntil

end Guessing

theorem Guessing.Counted.step {g : Guessing} (h : g.Counted u) {s : Nat × Request}
    (hreq : s.2.isLoginOrVerify)
    (hclears : clearsByPassword svc u ((Write.tick s.1).apply g.db) s.2 → g.guesses = [])
    : (g.step svc u s).Counted u := by
  let db := (Write.tick s.1).apply g.db
  have hids : (db.users.map (·.id)).Nodup := h.userIds
  have hstepped : Stepped svc u s.2 db (s.2.step svc db).2 := Request.stepped hreq hids
  have hclock : (s.2.step svc db).2.clock = db.clock := hstepped.clock
  have hpast : ∀ t ∈ g.guesses, t ≤ db.clock := by
    intro t ht
    have htick : g.db.clock ≤ db.clock := Int.le_add_of_nonneg_right (Int.natCast_nonneg s.1)
    exact le_trans (h.past t ht) htick
  have hnow : ∀ f, db.failures u .login = some f → MAX_ATTEMPTS ≤ f.1 + 1 →
      ∀ t ∈ g.guesses.getLast?, ∃ lockedUntil,
        (lockAfter (f.1 + 1) db.clock).getD f.2 = some lockedUntil
          ∧ t + LOCKOUT_SECONDS * 1000 ≤ lockedUntil := by
    intro f _ hmax t ht
    have hle := hpast t (List.mem_of_getLast? ht)
    refine ⟨db.clock + LOCKOUT_SECONDS * 1000, ?_, Int.add_le_add_right hle _⟩
    unfold lockAfter
    rw [if_pos hmax]
    rfl
  have hids' : ((s.2.step svc db).2.users.map (·.id)).Nodup := by
    rw [hstepped.userIds]
    exact hids
  have heffect := hstepped.effect
  have hstep : g.step svc u s = {
      db := (s.2.step svc db).2
      guesses :=
        match evaluation svc u db s.2 with
        | some true => []
        | some false => g.guesses ++ [db.clock]
        | none => g.guesses } := rfl
  rw [hstep]
  -- A failed attempt leaves one more on the counter than before.
  have hfailed : Failed u .login db (s.2.step svc db).2 → ∀ f',
      (s.2.step svc db).2.failures u .login = some f' → ∃ f, db.failures u .login = some f
        ∧ f' = (f.1 + 1, (lockAfter (f.1 + 1) db.clock).getD f.2) := by
    intro hfailed f' hf'
    rw [hfailed.failures, Option.map_eq_some_iff] at hf'
    obtain ⟨f, hf, heq⟩ := hf'
    exact ⟨f, hf, heq.symm⟩
  generalize evaluation svc u db s.2 = evaluated at heffect ⊢
  generalize hclears' : clearsByPassword svc u db s.2 = clears at heffect
  cases heffect with
  | same hsame =>
    refine ⟨hids', ?_, h.throttled, ?_, ?_⟩
    . intro t ht
      rw [hclock]
      exact hpast t ht
    . intro f hf
      rw [hsame] at hf
      exact h.counted f hf
    . intro f hf
      rw [hsame] at hf
      exact h.locked f hf
  | failed hattempt =>
    refine ⟨hids', ?_, h.throttled, ?_, ?_⟩
    . intro t ht
      rw [hclock]
      exact hpast t ht
    . intro f' hf'
      obtain ⟨f, hf, heq⟩ := hfailed hattempt f' hf'
      have hle := h.counted f hf
      rw [heq]
      exact Nat.le_succ_of_le hle
    . intro f' hf' hmax t ht
      obtain ⟨f, hf, heq⟩ := hfailed hattempt f' hf'
      rw [heq] at hmax ⊢
      exact hnow f hf hmax t ht
  | wrongCode hattempt =>
    have hthrottled : Throttle.Throttled MAX_ATTEMPTS (LOCKOUT_SECONDS * 1000)
        (g.guesses ++ [db.clock]) := by
      by_cases hfree : g.guesses.length < MAX_ATTEMPTS
      . exact Throttle.Throttled.snoc_free hfree db.clock
      . -- The lock of the last guess has expired, since the account is not locked now.
        apply h.throttled.snoc
        intro t ht
        obtain ⟨user, huser, hnot⟩ := hattempt.notLocked
        have hf : db.failures u .login = some (user.failedLoginCount, user.loginLockedUntil) := by
          unfold Database.failures
          rw [huser]
          rfl
        have hcount := h.counted _ hf
        obtain ⟨lockedUntil, hlock, hlate⟩ := h.locked _ hf (by omega) t ht
        unfold User.isLocked at hnot
        rw [show user.lockedUntil .login = some lockedUntil from hlock] at hnot
        simp only [Option.any_some, decide_eq_false_iff_not, not_lt] at hnot
        exact le_trans hlate hnot
    refine ⟨hids', ?_, hthrottled, ?_, ?_⟩
    . intro t ht
      rw [hclock]
      cases List.mem_append.mp ht with
      | inl ht => exact hpast t ht
      | inr ht => exact le_of_eq (List.mem_singleton.mp ht)
    . intro f' hf'
      obtain ⟨f, hf, heq⟩ := hfailed hattempt f' hf'
      have hle := h.counted f hf
      rw [heq, List.length_append]
      exact Nat.succ_le_succ hle
    . intro f' hf' hmax t ht
      obtain ⟨f, hf, heq⟩ := hfailed hattempt f' hf'
      rw [List.getLast?_concat, Option.mem_def, Option.some.injEq] at ht
      rw [heq] at hmax ⊢
      refine ⟨db.clock + LOCKOUT_SECONDS * 1000, ?_, by rw [ht]⟩
      unfold lockAfter
      rw [if_pos hmax]
      rfl
  | rightCode hcleared =>
    refine ⟨hids', by simp, Throttle.Throttled.nil _ _, by simp, by simp⟩
  | cleared hcleared =>
    rw [hclears hclears']
    refine ⟨hids', by simp, Throttle.Throttled.nil _ _, by simp, by simp⟩

theorem Guessing.Counted.run {g : Guessing} {steps : List (Nat × Request)} (h : g.Counted u)
    (hreqs : ∀ s ∈ steps, s.2.isLoginOrVerify) (hclears : ClearsInTime svc u g steps)
    : (g.run svc u steps).Counted u := by
  -- The account after the first request is the one that the others start from.
  induction steps generalizing g with
  | nil => exact h
  | cons s steps ih =>
    obtain ⟨hfirst, hrest⟩ := hclears
    apply ih _ _ hrest
    . exact h.step (hreqs s List.mem_cons_self) hfirst
    . intro s' hs'
      exact hreqs s' (List.mem_cons_of_mem s hs')

/--
However log ins and verifications follow on each other: the wrong codes that are evaluated without a
right one in between are throttled, if no log in clears the counter between them.
-/
theorem guesses_throttled (hdb : db.Valid) (steps : List (Nat × Request))
    (hreqs : ∀ s ∈ steps, s.2.isLoginOrVerify)
    (hclears : Guessing.ClearsInTime svc u { db, guesses := [] } steps)
    : Throttle.Throttled MAX_ATTEMPTS (LOCKOUT_SECONDS * 1000)
        (Guessing.run svc u { db, guesses := [] } steps).guesses := by
  have hstart : Guessing.Counted u { db, guesses := [] } :=
    ⟨hdb.userIds, by simp, Throttle.Throttled.nil _ _, by simp, by simp⟩
  exact (hstart.run hreqs hclears).throttled

instance Guessing.decidableClearsInTime (svc : Services) (u : Uuid) (g : Guessing)
    : (steps : List (Nat × Request)) → Decidable (ClearsInTime svc u g steps)
  | [] => inferInstanceAs (Decidable True)
  | s :: steps =>
    have := decidableClearsInTime svc u (g.step svc u s) steps
    inferInstanceAs (Decidable ((_ → _) ∧ _))

namespace Office

def login : Request :=
  .login ⟨"admin@sentry.test", "password", by decide⟩ ⟨"refresh", 1⟩

def guess (code : String) (code_ne : code ≠ "") : Request :=
  .verify ⟨"preauth", code, by decide, code_ne⟩ ⟨"refresh", 2⟩

def wrong : Request :=
  guess "000000" (by decide)

/-- Three wrong codes, a log in that clears the counter and three more at the same time. -/
def interleaved : List (Nat × Request) :=
  [(0, wrong), (0, wrong), (0, wrong), (0, login), (0, wrong), (0, wrong), (0, wrong)]

/-- A log in, then wrong codes until the account is locked and once more after that. -/
def patient : List (Nat × Request) :=
  [(0, login), (0, wrong), (1, wrong), (1, wrong), (1, wrong), (5, wrong), (300000, wrong)]

end Office

theorem guesses_not_throttled
    : ¬ ∀ (svc : Services) (u : Uuid) (db : Database) (steps : List (Nat × Request)),
        db.Valid → (∀ s ∈ steps, s.2.isLoginOrVerify) →
          Throttle.Throttled MAX_ATTEMPTS (LOCKOUT_SECONDS * 1000)
            (Guessing.run svc u { db, guesses := [] } steps).guesses := by
  intro hall
  have hguesses : (Guessing.run Office.services 1 ⟨Office.database, []⟩ Office.interleaved).guesses
      = [0, 0, 0, 0, 0, 0] := by
    decide +kernel
  have hthrottled := hall Office.services 1 Office.database Office.interleaved
    Office.database_valid (by decide)
  rw [hguesses] at hthrottled
  simp [Throttle.Throttled, MAX_ATTEMPTS, LOCKOUT_SECONDS] at hthrottled

theorem guesses_throttled_patient
    : (Guessing.run Office.services 1 ⟨Office.database, []⟩ Office.patient).guesses
          = [0, 1, 2, 3, 300008]
        ∧ Throttle.Throttled MAX_ATTEMPTS (LOCKOUT_SECONDS * 1000)
          (Guessing.run Office.services 1 ⟨Office.database, []⟩ Office.patient).guesses := by
  constructor
  . decide +kernel
  . exact guesses_throttled Office.database_valid Office.patient (by decide) (by decide +kernel)

end SentryPos.Auth
