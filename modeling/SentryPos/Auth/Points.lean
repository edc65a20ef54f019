import SentryPos.Auth.Attempts
import SentryPos.ReadCommitted.Observed

/-!
This module contains the control points of attempts with a wrong secret: where the program of such a
request may stand, and what a step leads to from each point.
-/

namespace SentryPos.Auth

open ReadCommitted

variable {svc : Services} {db : Database} {kind : LockoutKind} {R S : Type}

theorem recordFailure_bind (userId : Uuid) (kind : LockoutKind) (k : R → AuthCall S)
    : recordFailure userId kind >>= k = recordFailure userId kind := by
  unfold recordFailure
  simp only [bind_assoc, Call.throw_bind]

theorem withLockout_bind (user : User) (kind : LockoutKind) (valid : Bool) (next : AuthCall R)
    (k : R → AuthCall S)
    : withLockout user kind valid next >>= k = withLockout user kind valid (next >>= k) := by
  unfold withLockout
  simp only [bind_assoc]
  congr 1
  funext _
  congr 1
  funext found
  cases found with
  | true => simp only [if_true, bind_assoc]
  | false => simp only [Bool.false_eq_true, if_false, recordFailure_bind]

/-- The rest of an attempt once the secret is to be evaluated. -/
def verifying (user : User) (kind : LockoutKind) (next : AuthCall Response) : AuthCall Response := do
  if ← Call.query (.verifySecret user.id kind) fun _ => false then
    recordSuccess user.id kind
    next
  else
    recordFailure user.id kind

def timing (userId : Uuid) (kind : LockoutKind) (count : Nat) : AuthCall Response := do
  let now ← Call.query (.lockFrom userId kind) (·.clock)
  AuthCall.update (.updateFailures userId kind)
    (.setFailures userId kind (count + 1) (lockAfter (count + 1) now))
  throw (kind.invalidError (MAX_ATTEMPTS - (count + 1)))

def updating (userId : Uuid) (kind : LockoutKind) (count : Nat) (now : DateTime)
    : AuthCall Response := do
  AuthCall.update (.updateFailures userId kind)
    (.setFailures userId kind (count + 1) (lockAfter (count + 1) now))
  throw (kind.invalidError (MAX_ATTEMPTS - (count + 1)))

/-- Where a client stands that lets time pass or makes an attempt with a wrong secret. -/
inductive Point where
  | start (req : Request)
  | ticking (ms : Nat)
  | checking (user : User) (kind : LockoutKind) (lockedUntil : DateTime) (next : AuthCall Response)
  | verifying (user : User) (kind : LockoutKind) (next : AuthCall Response)
  | counting (userId : Uuid) (kind : LockoutKind)
  | timing (userId : Uuid) (kind : LockoutKind) (count : Nat)
  | updating (userId : Uuid) (kind : LockoutKind) (count : Nat) (now : DateTime)
  | committing (userId : Uuid) (kind : LockoutKind) (count : Nat) (now : DateTime)
  | returned (r : Except ApiError Response)

def Point.proc (svc : Services) : Point → Proc Database Write Key Stmt (Except ApiError Response)
  | .start req => .start (req.prog svc)
  | .ticking ms =>
    { prog := .commit .tick (.ret (.ok .done)), log := [.tick ms], locks := [] }
  | .checking user kind _ next => .start (withLockout user kind false next).run
  | .verifying user kind next => .start (Auth.verifying user kind next).run
  | .counting userId kind => .start (recordFailure userId kind : AuthCall Response).run
  | .timing userId kind count => .start (Auth.timing userId kind count).run
  | .updating userId kind count now => .start (Auth.updating userId kind count now).run
  | .committing userId kind count now => {
      prog := .commit (.updateFailures userId kind)
        (.ret (.error (kind.invalidError (MAX_ATTEMPTS - (count + 1)))))
      log := [.setFailures userId kind (count + 1) (lockAfter (count + 1) now)]
      locks := [.user userId] }
  | .returned r => .start (.ret r)

/-- An attempt on a row that has been found: the lock is only compared with the clock if there is
one. -/
def Point.found (user : User) (kind : LockoutKind) (next : AuthCall Response) : Point :=
  match user.lockedUntil kind with
  | some lockedUntil => .checking user kind lockedUntil next
  | none => .verifying user kind next

theorem Point.found_proc (svc : Services) (user : User) (kind : LockoutKind)
    (next : AuthCall Response)
    : (found user kind next).proc svc = .start (withLockout user kind false next).run := by
  unfold found
  split
  . rfl
  . next hlock =>
    unfold proc withLockout assertNotLocked
    rw [hlock]
    rfl

/-- The account that an attempt is on, by what the tables say about users. -/
def Request.account (db : Database) : Request → Option (Uuid × LockoutKind)
  | .login dto _ => (db.users.find? fun u => u.email = dto.email).map fun u => (u.id, .login)
  | .verifyPin ownerId _ =>
    ((db.users.find? fun u => u.ownerId = some ownerId && u.deletedAt.isNone).filter
      fun u => (truthy u.pinHash).isSome).map fun u => (u.id, .pin)
  | _ => none

/-- The request is an attempt with a wrong secret, or lets time pass. -/
def Request.Fails (svc : Services) (db : Database) : Request → Prop
  | .login dto _ => ∀ user, db.users.find? (fun u => u.email = dto.email) = some user →
      passwordMatches svc user dto.password = false
  | .verifyPin ownerId pin => ∀ user,
      db.users.find? (fun u => u.ownerId = some ownerId && u.deletedAt.isNone) = some user →
        ∀ pinHash, truthy user.pinHash = some pinHash → svc.verifySecret pinHash pin = false
  | .tick _ => True
  | _ => False

/-- The row that an attempt finds leads to the check of its lock, or there is no account. -/
theorem start_login {dto : LoginDto} {fresh : FreshToken}
    : (Request.login dto fresh).prog svc
        =
      .exec .findUser (fun _ => []) (fun _ _ => []) fun db _ =>
        match db.users.find? fun u => u.email = dto.email with
        | none => .ret (.error (.loginInvalid 3))
        | some user =>
          (withLockout user .login (passwordMatches svc user dto.password) do
            let r ← finishLogin svc user fresh
            return .login r : AuthCall Response).run := by
  unfold Request.prog Request.call login
  simp only [bind_assoc]
  rw [Call.run_query_bind]
  congr 1
  funext db _
  cases db.users.find? fun u => u.email = dto.email with
  | none => rfl
  | some user =>
    dsimp only
    rw [withLockout_bind]

theorem start_verifyPin {ownerId : Uuid} {pin : String}
    : (Request.verifyPin ownerId pin).prog svc
        =
      .exec .findUser (fun _ => []) (fun _ _ => []) fun db _ =>
        match db.users.find? fun u => u.ownerId = some ownerId && u.deletedAt.isNone with
        | none => .ret (.error (.validationFailed "set the refund PIN in the portal"))
        | some user =>
          match truthy user.pinHash with
          | none => .ret (.error (.validationFailed "set the refund PIN in the portal"))
          | some pinHash =>
            (withLockout user .pin (svc.verifySecret pinHash pin) (pure .done)).run := by
  unfold Request.prog Request.call verifyPinWithLockout
  simp only [bind_assoc]
  rw [Call.run_query_bind]
  congr 1
  funext db _
  cases db.users.find? fun u => u.ownerId = some ownerId && u.deletedAt.isNone with
  | none => rfl
  | some user =>
    dsimp only
    cases truthy user.pinHash with
    | none => rfl
    | some pinHash =>
      dsimp only
      rw [withLockout_bind, pure_bind]

/-- What a client commits at a point. -/
def Point.commits : Point → List Write
  | .ticking ms => [.tick ms]
  | .committing userId kind count now =>
    [.setFailures userId kind (count + 1) (lockAfter (count + 1) now)]
  | _ => []

def Point.next (svc : Services) (db : Database) : Point → Point
  | .start (.tick ms) => .ticking ms
  | .start (.login dto fresh) =>
    match db.users.find? fun u => u.email = dto.email with
    | none => .returned (.error (.loginInvalid 3))
    | some user =>
      .found user .login do
        let r ← finishLogin svc user fresh
        return .login r
  | .start (.verifyPin ownerId _) =>
    match db.users.find? fun u => u.ownerId = some ownerId && u.deletedAt.isNone with
    | none => .returned (.error (.validationFailed "set the refund PIN in the portal"))
    | some user =>
      match truthy user.pinHash with
      | none => .returned (.error (.validationFailed "set the refund PIN in the portal"))
      | some _ => .found user .pin (pure .done)
  | .start req => .start req
  | .ticking _ => .returned (.ok .done)
  | .checking user kind lockedUntil next =>
    if db.clock < lockedUntil then
      .returned (.error (kind.lockedError ⌈((lockedUntil - db.clock : ℤ) : ℚ) / 1000⌉))
    else
      .verifying user kind next
  | .verifying user kind _ => .counting user.id kind
  | .counting userId kind =>
    match db.user? userId with
    | none => .returned (.error .recordNotFound)
    | some user => .timing userId kind (user.failedCount kind)
  | .timing userId kind count => .updating userId kind count db.clock
  | .updating userId kind count now => .committing userId kind count now
  | .committing _ kind count _ =>
    .returned (.error (kind.invalidError (MAX_ATTEMPTS - (count + 1))))
  | .returned r => .returned r

/-- The secret of the attempt is wrong, and the row that it is about to write is there. -/
def Point.Wrong (svc : Services) (db : Database) : Point → Prop
  | .start req => req.Fails svc db
  | .checking user kind lockedUntil _ => user.lockedUntil kind = some lockedUntil
  | .updating userId .. => (db.user? userId).isSome
  | _ => True

variable {ι : Type} [DecidableEq ι] {c c' : System ι} {i : ι} {p : Point}

theorem Point.of_exec {tag : Stmt} {needs : Database → List Key}
    {writes : Database → Database → List Write} {next : Database → Database → Program}
    (hproc : c.procs i = .start (.exec tag needs writes next))
    (hstep : Step (.error .aborted) c i c')
    (hrunning : (c'.procs i).prog.result? ≠ some (.error .aborted))
    : c'.procs i = { prog := next c.db c.db, log := writes c.db c.db, locks := needs c.db }
        ∧ c'.db = c.db := by
  have hprog : (c.procs i).prog = .exec tag needs writes next := by rw [hproc]; rfl
  have hview : c.view i = c.db := by
    unfold Config.view
    rw [hproc]
    rfl
  cases hstep.of_exec hprog with
  | inl hc' =>
    rw [hc', hview, hproc]
    exact ⟨Function.update_self .., rfl⟩
  | inr hc' =>
    rw [hc'] at hrunning
    simp [Config.setProc, Proc.start, Prog.result?] at hrunning

theorem Point.of_commit {tag : Stmt} {next : Program}
    (hprog : (c.procs i).prog = .commit tag next) (hstep : Step (.error .aborted) c i c')
    (hrunning : (c'.procs i).prog.result? ≠ some (.error .aborted))
    : c'.procs i = .start next ∧ c'.db = c.view i := by
  cases hstep.of_commit hprog with
  | inl hc' =>
    rw [hc']
    exact ⟨Function.update_self .., rfl⟩
  | inr hc' =>
    rw [hc'] at hrunning
    simp [Config.setProc, Proc.start, Prog.result?] at hrunning

theorem Point.of_step (hp : p.Wrong svc c.db) (hproc : c.procs i = p.proc svc)
    (hstep : Step (.error .aborted) c i c')
    (hrunning : (c'.procs i).prog.result? ≠ some (.error .aborted))
    : c'.procs i = (p.next svc c.db).proc svc ∧ c'.db = replay p.commits c.db := by
  cases p with
  | start req =>
    cases req with
    | login dto fresh =>
      change c.procs i = .start ((Request.login dto fresh).prog svc) at hproc
      rw [start_login] at hproc
      obtain ⟨hproc', hdb'⟩ := of_exec hproc hstep hrunning
      refine ⟨?_, hdb'⟩
      rw [hproc']
      unfold next
      dsimp only
      cases hfind : c.db.users.find? fun u => u.email = dto.email with
      | none => rfl
      | some user =>
        dsimp only
        rw [hp user hfind, found_proc]
        rfl
    | verifyPin ownerId pin =>
      change c.procs i = .start ((Request.verifyPin ownerId pin).prog svc) at hproc
      rw [start_verifyPin] at hproc
      obtain ⟨hproc', hdb'⟩ := of_exec hproc hstep hrunning
      refine ⟨?_, hdb'⟩
      rw [hproc']
      unfold next
      dsimp only
      cases hfind : c.db.users.find? fun u => u.ownerId = some ownerId && u.deletedAt.isNone with
      | none => rfl
      | some user =>
        dsimp only
        cases hpin : truthy user.pinHash with
        | none => rfl
        | some pinHash =>
          dsimp only
          rw [hp user hfind pinHash hpin, found_proc]
          rfl
    | tick ms => exact of_exec hproc hstep hrunning
    | _ => cases hp
  | ticking ms =>
    obtain ⟨hproc', hdb'⟩ := of_commit (by rw [hproc]; rfl) hstep hrunning
    refine ⟨hproc', ?_⟩
    rw [hdb']
    unfold Config.view
    rw [hproc]
    rfl
  | checking user kind lockedUntil after =>
    change c.procs i = .start (withLockout user kind false after).run at hproc
    unfold withLockout assertNotLocked at hproc
    rw [show user.lockedUntil kind = some lockedUntil from hp] at hproc
    obtain ⟨hproc', hdb'⟩ := of_exec hproc hstep hrunning
    refine ⟨?_, hdb'⟩
    rw [hproc']
    dsimp only [next]
    change ({ prog := ((if c.db.clock < lockedUntil then throw _ else pure () : AuthCall Unit) >>= _).run
              log := [], locks := [] } : Proc Database Write Key Stmt (Except ApiError Response)) = _
    split
    . rfl
    . rfl
  | verifying user kind after => 
    exact of_exec hproc hstep hrunning
  | counting userId kind =>
    obtain ⟨hproc', hdb'⟩ := of_exec hproc hstep hrunning
    refine ⟨?_, hdb'⟩
    rw [hproc']
    unfold next
    dsimp only
    cases c.db.user? userId with
    | none => rfl
    | some user => rfl
  | timing userId kind count => exact of_exec hproc hstep hrunning
  | updating userId kind count now =>
    have hviolation : (Write.setFailures userId kind (count + 1) (lockAfter (count + 1) now)).violation
        c.db = none := by
      obtain ⟨user, huser⟩ := Option.isSome_iff_exists.mp hp
      simp [Write.violation, Write.userId?, huser]
    obtain ⟨hproc', hdb'⟩ := of_exec hproc hstep hrunning
    refine ⟨?_, hdb'⟩
    rw [hproc']
    dsimp only
    rw [hviolation]
    rfl
  | committing userId kind count now =>
    obtain ⟨hproc', hdb'⟩ := of_commit (by rw [hproc]; rfl) hstep hrunning
    refine ⟨hproc', ?_⟩
    rw [hdb']
    unfold Config.view
    rw [hproc]
    rfl
  | returned r =>
    exfalso
    apply hstep.of_ret
    rw [hproc]
    rfl

end SentryPos.Auth
