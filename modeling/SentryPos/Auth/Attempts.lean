import SentryPos.Auth.Requests
import SentryPos.Auth.Valid
import SentryPos.ReadCommitted.Writes

/-!
This module contains what the lockout does to an account when a request runs alone: which requests
are turned away, which count as a failed attempt and which clear the counter.
-/

namespace SentryPos.Auth

open ReadCommitted

variable {svc : Services} {db db' : Database} {kind : LockoutKind} {tag : Stmt} {R : Type}

def User.isLocked (user : User) (kind : LockoutKind) (now : DateTime) : Bool :=
  (user.lockedUntil kind).any fun lockedUntil => now < lockedUntil

/-- The counter of failed attempts of an account and its lock. -/
def Database.failures (db : Database) (userId : Uuid) (kind : LockoutKind)
    : Option (Nat × Option DateTime) :=
  (db.user? userId).map fun user => (user.failedCount kind, user.lockedUntil kind)

/-- A failed attempt on the account: it was not locked, and the count goes up by one. -/
structure Failed (userId : Uuid) (kind : LockoutKind) (db db' : Database) : Prop where
  notLocked : ∃ user, db.user? userId = some user ∧ user.isLocked kind db.clock = false
  failures : db'.failures userId kind = (db.failures userId kind).map fun f =>
    (f.1 + 1, (lockAfter (f.1 + 1) db.clock).getD f.2)

def Cleared (userId : Uuid) (kind : LockoutKind) (db' : Database) : Prop :=
  ∀ f, db'.failures userId kind = some f → f = (0, none)

structure SameFailures (db db' : Database) : Prop where
  clock : db'.clock = db.clock
  failures : ∀ userId kind, db'.failures userId kind = db.failures userId kind
  userIds : db'.users.map (·.id) = db.users.map (·.id)

namespace SameFailures

theorem refl (db : Database) : SameFailures db db :=
  ⟨rfl, fun _ _ => rfl, rfl⟩

theorem trans {db'' : Database} (h : SameFailures db db') (h' : SameFailures db' db'')
    : SameFailures db db'' :=
  ⟨h'.clock.trans h.clock, fun id kind => (h'.failures id kind).trans (h.failures id kind),
    h'.userIds.trans h.userIds⟩

end SameFailures

def Write.sparesFailures : Write → Bool
  | tick _ | setFailures .. => false
  | _ => true

theorem SameFailures.apply {w : Write} (hw : w.sparesFailures) (h : SameFailures db db')
    : SameFailures db (w.apply db') := by
  apply h.trans
  constructor
  . cases w with
    | tick => cases hw
    | _ => rfl
  . intro userId kind
    unfold Database.failures
    rw [w.user?_apply]
    split
    . rw [Option.map_map]
      congr 1
      funext user
      cases w with
      | tick | setFailures => cases hw
      | _ => cases kind <;> rfl
    . rfl
  . exact w.userIds_apply db'

theorem failures_setFailures (db : Database) (id userId : Uuid) (kind kind' : LockoutKind)
    (count : Nat) (lockedUntil : Option (Option DateTime))
    : ((Write.setFailures id kind count lockedUntil).apply db).failures userId kind'
        =
      if id = userId ∧ kind = kind' then
        (db.failures userId kind').map fun f => (count, lockedUntil.getD f.2)
      else
        db.failures userId kind' := by
  unfold Database.failures
  rw [Write.user?_apply]
  by_cases hid : id = userId
  . rw [if_pos (by simp [Write.userId?, hid])]
    cases kind <;> cases kind' <;>
      simp [hid, Write.onUser, User.setFailures, User.failedCount, User.lockedUntil,
        Function.comp_def]
  . simp [Write.userId?, hid]

theorem alone_update (tag : Stmt) (w : Write) (db : Database)
    : (AuthCall.update tag w).alone [] db
        =
      match w.violation db with
      | some e => (.error e, [], db)
      | none => (.ok (), [], w.apply db) := by
  unfold AuthCall.update AuthCall.execute
  rw [Call.alone_transaction, Call.alone_write]
  cases hviolation : w.violation db with
  | some e => simp [hviolation]
  | none => simp [hviolation]

theorem alone_findUniqueOrThrow (tag : Stmt) (userId : Uuid) (log : List Write) (db : Database)
    : (AuthCall.findUniqueOrThrow tag userId).alone log db
        =
      ((db.user? userId).elim (.error .recordNotFound) .ok, log, db) := by
  unfold AuthCall.findUniqueOrThrow
  rw [Call.alone_check]

theorem settles_update (tag : Stmt) (w : Write) : Call.Settles (AuthCall.update tag w) :=
  .transaction _

theorem onlyWrites_update {P : Write → Prop} {w : Write} (hw : P w)
    : Call.OnlyWrites P (AuthCall.update tag w) := by
  apply Call.OnlyWrites.transaction
  apply Call.OnlyWrites.write
  intro view ws hws w' hw'
  split at hws
  . cases hws
  . cases hws
    rw [List.mem_singleton.mp hw']
    exact hw

theorem alone_sparesFailures {p : AuthCall R} (hsettles : Call.Settles p)
    (hwrites : Call.OnlyWrites (fun w : Write => w.sparesFailures) p) (db : Database)
    : ∃ r db', p.alone [] db = (r, [], db') ∧ SameFailures db db' := by
  have hlog := hsettles db
  have hnil : ∀ w ∈ ([] : List Write), w.sparesFailures := by simp
  have hsame := hwrites.alone (Q := SameFailures db) (fun w db' hw hdb' => hdb'.apply hw) hnil
    (SameFailures.refl db)
  cases halone : p.alone [] db with
  | mk r rest =>
    cases rest with
    | mk log db' =>
      rw [halone] at hlog hsame
      dsimp only at hlog
      rw [hlog]
      exact ⟨r, db', rfl, hsame.2⟩

theorem alone_assertNotLocked_locked {user : User} {log : List Write}
    (h : user.isLocked kind db.clock)
    : ∃ retry, (assertNotLocked user kind).alone log db = (.error (kind.lockedError retry), log, db) := by
  unfold User.isLocked at h
  unfold assertNotLocked
  cases hlock : user.lockedUntil kind with
  | none => simp [hlock] at h
  | some lockedUntil =>
    have hlt : db.clock < lockedUntil := by simpa [hlock] using h
    refine ⟨⌈((lockedUntil - db.clock : ℤ) : ℚ) / 1000⌉, ?_⟩
    simp only [Call.alone_bind, Call.alone_query, if_pos hlt, Call.alone_throw]

theorem alone_assertNotLocked {user : User} {log : List Write}
    (h : user.isLocked kind db.clock = false)
    : (assertNotLocked user kind).alone log db = (.ok (), log, db) := by
  unfold User.isLocked at h
  unfold assertNotLocked
  cases hlock : user.lockedUntil kind with
  | none => rfl
  | some lockedUntil =>
    have hlt : ¬ db.clock < lockedUntil := by simpa [hlock] using h
    simp only [Call.alone_bind, Call.alone_query, if_neg hlt, Call.alone_pure]

theorem alone_recordFailure {user : User} {userId : Uuid} (huser : db.user? userId = some user)
    (hlocked : user.isLocked kind db.clock = false)
    : ∃ e db', (recordFailure userId kind : AuthCall R).alone [] db = (.error e, [], db')
        ∧ Failed userId kind db db' ∧ db'.clock = db.clock
        ∧ (∀ id kind', id ≠ userId → db'.failures id kind' = db.failures id kind')
        ∧ db'.users.map (·.id) = db.users.map (·.id) := by
  let w : Write := .setFailures userId kind (user.failedCount kind + 1)
    (lockAfter (user.failedCount kind + 1) db.clock)
  refine ⟨kind.invalidError (MAX_ATTEMPTS - (user.failedCount kind + 1)), w.apply db, ?_, ?_, rfl, ?_,
    w.userIds_apply db⟩
  . have hviolation : w.violation db = none := by
      simp [w, Write.violation, Write.userId?, huser]
    unfold recordFailure
    rw [Call.alone_bind, alone_findUniqueOrThrow, huser]
    dsimp only [Option.elim]
    rw [Call.alone_bind, Call.alone_query]
    dsimp only
    rw [Call.alone_bind, alone_update, hviolation]
    rfl
  . constructor
    . exact ⟨user, huser, hlocked⟩
    . rw [failures_setFailures, if_pos ⟨rfl, rfl⟩]
      unfold Database.failures
      rw [huser]
      rfl
  . intro id kind' hid
    rw [failures_setFailures, if_neg]
    intro hboth
    exact hid hboth.1.symm

theorem alone_recordSuccess {user : User} {userId : Uuid} (huser : db.user? userId = some user)
    : (recordSuccess userId kind).alone [] db
        =
      (.ok (), [], (Write.setFailures userId kind 0 (some none)).apply db) := by
  have hviolation : (Write.setFailures userId kind 0 (some none)).violation db = none := by
    simp [Write.violation, Write.userId?, huser]
  unfold recordSuccess
  rw [alone_update, hviolation]

theorem cleared_setFailures (userId : Uuid) (kind : LockoutKind) (db : Database)
    : Cleared userId kind ((Write.setFailures userId kind 0 (some none)).apply db) := by
  intro f hf
  rw [failures_setFailures, if_pos ⟨rfl, rfl⟩] at hf
  simp only [Option.map_eq_some_iff] at hf
  obtain ⟨_, _, hf⟩ := hf
  rw [← hf]
  rfl

namespace Office

/-! One platform admin, with services that keep secrets as they are. -/

def services : Services where
  verifySecret hash secret := hash = secret
  hashSecret _ secret := secret
  sha256 text := text
  verifySync code secret _ after := if code = secret ∧ after = none then some 1 else none
  generateURI email secret := email ++ secret
  sign _ _ payload := if payload.kind = some "preauth" then "preauth" else "access"
  verifyJwt _ token := if token = "preauth" then some (preauthPayload 1) else none

def admin : User where
  id := 1
  email := "admin@sentry.test"
  passwordHash := some "password"
  role := .platform_admin
  ownerId := none
  pinHash := none
  totpSecret := some "secret"
  totpPendingSecret := none
  totpLastTimeStep := none
  totpRecoveryCodes := []
  failedLoginCount := 0
  loginLockedUntil := none
  failedPinCount := 0
  pinLockedUntil := none
  deletedAt := none

def database : Database where
  clock := 0
  owners := []
  users := [admin]
  refreshTokens := []
  authTokens := []

theorem password_ne : "password" ≠ "" := by decide

theorem preauth_ne : "preauth" ≠ "" := by decide

theorem second_ne : "second" ≠ "" := by decide

theorem stolen_ne : "stolen" ≠ "" := by decide

theorem database_valid : database.Valid where
  userIds := by decide
  unique := by simp [UniqueIndex.Unique, UniqueIndex.entries, Database.entries, database]

end Office

end SentryPos.Auth
