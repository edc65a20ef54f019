import SentryPos.Auth.Points
import SentryPos.Throttle

/-!
This module contains the lockout of attempts that overlap: a run of attempts with wrong secrets is a
run of the counter with its lock, as long as no attempt overtakes another one.
-/

namespace SentryPos.Auth

open ReadCommitted

variable {svc : Services} {db db' : Database} {kind : LockoutKind} {u : Uuid}

def User.profile (user : User) : User :=
  { user with
    failedLoginCount := 0
    loginLockedUntil := none
    failedPinCount := 0
    pinLockedUntil := none }

def SameProfiles (db db' : Database) : Prop :=
  db'.users.map User.profile = db.users.map User.profile

namespace SameProfiles

theorem find? (h : SameProfiles db db') {p : User → Bool} (hp : ∀ user, p user.profile = p user)
    : (db'.users.find? p).map User.profile = (db.users.find? p).map User.profile := by
  have hcomp : p = p ∘ User.profile := by
    funext user
    exact (hp user).symm
  rw [hcomp, ← List.find?_map, ← List.find?_map, h]

theorem userIds (h : SameProfiles db db') : db'.users.map (·.id) = db.users.map (·.id) := by
  have hmap := congrArg (List.map User.id) h
  rw [List.map_map, List.map_map] at hmap
  exact hmap

theorem isSome (h : SameProfiles db db') (id : Uuid) : (db'.user? id).isSome = (db.user? id).isSome := by
  have hfind := h.find? (p := fun user => user.id = id) (fun _ => rfl)
  have hsome := congrArg Option.isSome hfind
  rw [Option.isSome_map, Option.isSome_map] at hsome
  exact hsome

theorem account (h : SameProfiles db db') (req : Request) : req.account db' = req.account db := by
  cases req with
  | login dto fresh =>
    have hfind := h.find? (p := fun user => user.email = dto.email) (fun _ => rfl)
    have hmap := congrArg (Option.map fun user => (user.id, LockoutKind.login)) hfind
    rw [Option.map_map, Option.map_map] at hmap
    exact hmap
  | verifyPin ownerId pin =>
    have hfind := h.find? (p := fun user => user.ownerId = some ownerId && user.deletedAt.isNone)
      (fun _ => rfl)
    have hmap := congrArg
      (fun o => (o.filter fun user => (truthy user.pinHash).isSome).map fun user =>
        (user.id, LockoutKind.pin)) hfind
    rw [Option.filter_map, Option.filter_map, Option.map_map, Option.map_map] at hmap
    exact hmap
  | _ => rfl

theorem found (h : SameProfiles db db') {p : User → Bool} (hp : ∀ user, p user.profile = p user)
    {user' : User} (hfind : db'.users.find? p = some user')
    : ∃ user, db.users.find? p = some user ∧ user'.profile = user.profile := by
  have hmap := h.find? hp
  rw [hfind, Option.map_some] at hmap
  obtain ⟨user, huser, heq⟩ := Option.map_eq_some_iff.mp hmap.symm
  exact ⟨user, huser, heq.symm⟩

theorem fails (h : SameProfiles db db') {req : Request} (hreq : req.Fails svc db)
    : req.Fails svc db' := by
  cases req with
  | login dto fresh =>
    intro user' hfind
    obtain ⟨user, huser, heq⟩ := h.found (p := fun user => user.email = dto.email) (fun _ => rfl) hfind
    have hhash : user'.passwordHash = user.passwordHash := by
      change user'.profile.passwordHash = user.profile.passwordHash
      rw [heq]
    have hfalse := hreq user huser
    unfold passwordMatches at hfalse ⊢
    rw [hhash]
    exact hfalse
  | verifyPin ownerId pin =>
    intro user' hfind pinHash hpin
    obtain ⟨user, huser, heq⟩ := h.found
      (p := fun user => user.ownerId = some ownerId && user.deletedAt.isNone) (fun _ => rfl) hfind
    have hhash : user'.pinHash = user.pinHash := by
      change user'.profile.pinHash = user.profile.pinHash
      rw [heq]
    rw [hhash] at hpin
    exact hreq user huser pinHash hpin
  | tick ms => trivial
  | _ => exact hreq

theorem apply_setFailures (h : SameProfiles db db') (id : Uuid) (kind : LockoutKind) (count : Nat)
    (lockedUntil : Option (Option DateTime))
    : SameProfiles db ((Write.setFailures id kind count lockedUntil).apply db') := by
  unfold SameProfiles
  rw [Write.users_apply, ← h]
  apply Table.map_modify
  intro user
  cases kind <;> rfl

end SameProfiles

def LockoutKind.Counted (kind : LockoutKind) (r : Except ApiError Response) : Prop :=
  ∃ n, r = .error (kind.invalidError n)

/-- The statement belongs to an attempt on the account that has passed the lock. -/
def Stmt.isInFlight (u : Uuid) (kind : LockoutKind) : Stmt → Bool
  | .verifySecret id k | .findFailures id k | .lockFrom id k | .updateFailures id k =>
    id = u && k = kind
  | _ => false

variable {ι : Type} [DecidableEq ι]

/-- The client is at an attempt on the account that has passed the lock and has not been counted. -/
def InFlight (u : Uuid) (kind : LockoutKind) (c : System ι) (i : ι) : Bool :=
  (c.procs i).prog.tag?.any (Stmt.isInFlight u kind)

/-- The times at which secrets of the account are evaluated. -/
def verifications (u : Uuid) (kind : LockoutKind) (c : System ι) (i : ι) : List DateTime :=
  if (c.procs i).prog.tag? = some (.verifySecret u kind) then [c.db.clock] else []

/--
The step does not overtake another attempt on the account.

- `running`: the process does not crash.
- `fresh`: the lock that is compared with the clock is the one in the table.
- `few`: an attempt only passes the lock if fewer attempts are on their way than are left, or none.
- `counted`: the counter that is written is one more than the one in the table.
-/
structure InTime (u : Uuid) (kind : LockoutKind) (c : System ι) (i : ι) (c' : System ι) : Prop where
  running : (c'.procs i).prog.result? ≠ some (.error .aborted)
  fresh : ∀ lockedUntil, (c.procs i).prog.tag? = some (.assertNotLocked u kind lockedUntil) →
    InFlight u kind c' i → ∀ f ∈ c.db.failures u kind, f.2 = some lockedUntil
  few : InFlight u kind c i = false → InFlight u kind c' i →
    (∃ s : Finset ι, (∀ j, InFlight u kind c j → j ∈ s)
        ∧ ∀ f ∈ c.db.failures u kind, f.1 + s.card < MAX_ATTEMPTS)
      ∨ ∀ j, InFlight u kind c j = false
  counted : ∀ count lockedUntil, (c.procs i).log = [.setFailures u kind count lockedUntil] →
    ∀ f ∈ c.db.failures u kind, count = f.1 + 1

def Point.On (account : Option (Uuid × LockoutKind)) (req : Request) : Point → Prop
  | .start req' => req' = req
  | .ticking _ => account = none
  | .checking user kind _ _ | .verifying user kind _ => account = some (user.id, kind)
  | .counting id kind | .timing id kind _ => account = some (id, kind)
  | .updating id kind .. | .committing id kind .. => account = some (id, kind)
  | .returned _ => True

/-- The phase of an attempt on an account of kind `kind`. -/
def Point.HasPhase (kind : LockoutKind) (p : Point) (phase : Throttle.Phase) : Prop :=
  match p with
  | .start _ | .ticking _ | .checking .. => phase = .idle
  | .verifying .. => phase = .passed
  | .counting .. => ∃ t, phase = .evaluated t
  | .timing _ _ count => ∃ t, phase = .counted t count
  | .updating _ _ count now | .committing _ _ count now => ∃ t, phase = .timed t count now
  | .returned r => kind.Counted r ∧ phase = .finished ∨ ¬ kind.Counted r ∧ phase = .idle

structure Client (svc : Services) (db : Database) (u : Uuid) (kind : LockoutKind) (req : Request)
    (proc : Proc Database Write Key Stmt (Except ApiError Response)) (phase : Throttle.Phase)
    (p : Point) : Prop where
  stands : proc = p.proc svc
  wrong : p.Wrong svc db
  on : p.On (req.account db) req
  hasPhase : req.account db = some (u, kind) → p.HasPhase kind phase
  other : req.account db ≠ some (u, kind) → phase = .idle

structure Simulates (svc : Services) (db : Database) (u : Uuid) (kind : LockoutKind)
    (reqs : ι → Request) (c : System ι) (times : List DateTime) (m : Throttle.Machine ι) : Prop where
  profiles : SameProfiles db c.db
  failures : c.db.failures u kind = some (m.count, m.lock)
  clock : m.clock = c.db.clock
  times : m.times = times
  clients : ∀ i, ∃ p, Client svc db u kind (reqs i) (c.procs i) (m.phase i) p

/-- The statement that a client is about to run at a point. -/
def Point.tag? : Point → Option Stmt
  | .start (.tick _) | .ticking _ => some .tick
  | .start _ => some .findUser
  | .checking user kind lockedUntil _ => some (.assertNotLocked user.id kind lockedUntil)
  | .verifying user kind _ => some (.verifySecret user.id kind)
  | .counting id kind => some (.findFailures id kind)
  | .timing id kind _ => some (.lockFrom id kind)
  | .updating id kind .. | .committing id kind .. => some (.updateFailures id kind)
  | .returned _ => none

theorem Point.tag?_proc {p : Point} (hp : p.Wrong svc db) : (p.proc svc).prog.tag? = p.tag? := by
  cases p with
  | start req =>
    cases req with
    | login dto fresh =>
      change ((Request.login dto fresh).prog svc).tag? = _
      rw [start_login]
      rfl
    | verifyPin ownerId pin =>
      change ((Request.verifyPin ownerId pin).prog svc).tag? = _
      rw [start_verifyPin]
      rfl
    | tick ms => rfl
    | _ => cases hp
  | checking user kind lockedUntil after =>
    change (withLockout user kind false after).run.tag? = _
    unfold withLockout assertNotLocked
    rw [show user.lockedUntil kind = some lockedUntil from hp]
    rfl
  | _ => rfl

theorem Point.on_next {p : Point} {req : Request} (h : SameProfiles db db')
    (hon : p.On (req.account db) req) : (p.next svc db').On (req.account db) req := by
  rw [← h.account] at hon ⊢
  cases p with
  | start req' =>
    cases hon
    cases req with
    | login dto fresh =>
      unfold next Request.account
      dsimp only
      cases db'.users.find? fun u => u.email = dto.email with
      | none => trivial
      | some user =>
        unfold found
        dsimp only
        split <;> rfl
    | verifyPin ownerId pin =>
      unfold next Request.account
      dsimp only
      cases db'.users.find? fun u => u.ownerId = some ownerId && u.deletedAt.isNone with
      | none => trivial
      | some user =>
        dsimp only
        cases hpin : truthy user.pinHash with
        | none => trivial
        | some pinHash =>
          unfold found
          dsimp only
          split
          . simp [On, hpin]
          . simp [On, hpin]
    | tick ms => rfl
    | _ => rfl
  | checking user kind lockedUntil after =>
    dsimp only [next]
    split
    . trivial
    . exact hon
  | counting id kind =>
    unfold next
    dsimp only
    split
    . trivial
    . exact hon
  | ticking | committing | returned => trivial
  | verifying | timing | updating => exact hon

theorem Request.isSome_account {req : Request} {id : Uuid} (hdb : db.Valid)
    (h : req.account db = some (id, kind)) : (db.user? id).isSome := by
  cases req with
  | login dto fresh =>
    simp only [account, Option.map_eq_some_iff, Prod.mk.injEq] at h
    obtain ⟨user, hfind, hid, _⟩ := h
    rw [← hid, hdb.user_eq (List.mem_of_find?_eq_some hfind)]
    rfl
  | verifyPin ownerId pin =>
    simp only [account, Option.map_eq_some_iff, Option.filter_eq_some_iff, Prod.mk.injEq] at h
    obtain ⟨user, ⟨hfind, _⟩, hid, _⟩ := h
    rw [← hid, hdb.user_eq (List.mem_of_find?_eq_some hfind)]
    rfl
  | _ => cases h

theorem Point.wrong_next {p : Point} {req : Request} (hdb : db.Valid) (hon : p.On (req.account db) req)
    (hp : p.Wrong svc db) : (p.next svc db').Wrong svc db := by
  cases p with
  | start req' =>
    cases req' with
    | login dto fresh =>
      unfold next
      dsimp only
      split
      . trivial
      . next user _ =>
        unfold found
        split
        . next hlock => exact hlock
        . trivial
    | verifyPin ownerId pin =>
      unfold next
      dsimp only
      split
      . trivial
      . split
        . trivial
        . unfold found
          split
          . next hlock => exact hlock
          . trivial
    | _ => trivial
  | checking user kind lockedUntil after =>
    dsimp only [next]
    split <;> trivial
  | counting id kind =>
    unfold next
    dsimp only
    split <;> trivial
  | timing id kind count => exact Request.isSome_account hdb hon
  | ticking | committing | returned | verifying | updating => trivial

theorem Point.Wrong.of_sameProfiles {p : Point} (h : SameProfiles db db') (hp : p.Wrong svc db)
    : p.Wrong svc db' := by
  cases p with
  | start req => exact h.fails hp
  | updating id kind count now =>
    unfold Wrong at hp ⊢
    dsimp only at hp ⊢
    rw [h.isSome]
    exact hp
  | checking => exact hp
  | _ => trivial

variable {reqs : ι → Request} {c c' : System ι} {times times' : List DateTime}
  {m m' : Throttle.Machine ι} {i : ι} {p : Point} {req : Request} {ph : Throttle.Phase}
  {proc : Proc Database Write Key Stmt (Except ApiError Response)}

/-- An attempt has passed the lock in the system if and only if it has in the machine. -/
theorem Client.inFlight_iff (h : Client svc db u kind req proc ph p)
    : proc.prog.tag?.any (Stmt.isInFlight u kind) ↔ ph.InFlight := by
  rw [h.stands, Point.tag?_proc h.wrong]
  by_cases hacct : req.account db = some (u, kind)
  . have hph := h.hasPhase hacct
    have hon := h.on
    rw [hacct] at hon
    cases p with
    | start req' =>
      rw [show ph = .idle from hph]
      cases req' <;> simp [Point.tag?, Stmt.isInFlight, Throttle.Phase.InFlight]
    | ticking | checking =>
      rw [show ph = .idle from hph]
      simp [Point.tag?, Stmt.isInFlight, Throttle.Phase.InFlight]
    | returned r =>
      rcases hph with ⟨_, hph⟩ | ⟨_, hph⟩
      . simp [hph, Point.tag?, Throttle.Phase.InFlight]
      . simp [hph, Point.tag?, Throttle.Phase.InFlight]
    | verifying =>
      obtain ⟨rfl, rfl⟩ := Prod.mk.inj (Option.some.inj hon)
      rw [show ph = .passed from hph]
      simp [Point.tag?, Stmt.isInFlight, Throttle.Phase.InFlight]
    | counting | timing | updating | committing =>
      obtain ⟨rfl, rfl⟩ := Prod.mk.inj (Option.some.inj hon)
      obtain ⟨t, hph⟩ := hph
      rw [hph]
      simp [Point.tag?, Stmt.isInFlight, Throttle.Phase.InFlight]
  . rw [h.other hacct]
    apply iff_of_false _ id
    have hon := h.on
    have hne : ∀ id k, req.account db = some (id, k) → ¬ (id = u ∧ k = kind) := by
      intro id k heq hboth
      apply hacct
      rw [heq, hboth.1, hboth.2]
    cases p with
    | start req' => cases req' <;> simp [Point.tag?, Stmt.isInFlight]
    | ticking | checking | returned => simp [Point.tag?, Stmt.isInFlight]
    | verifying => simpa [Point.tag?, Stmt.isInFlight] using hne _ _ hon
    | counting | timing | updating | committing =>
      simpa [Point.tag?, Stmt.isInFlight] using hne _ _ hon

omit [DecidableEq ι] in
theorem Simulates.inFlight_iff (h : Simulates svc db u kind reqs c times m) (i : ι)
    : InFlight u kind c i ↔ (m.phase i).InFlight := by
  obtain ⟨p, hclient⟩ := h.clients i
  exact hclient.inFlight_iff

/-- What is left to show of a step that leads one client to its next point. -/
theorem Simulates.goOn (h : Simulates svc db u kind reqs c times m) (m' : Throttle.Machine ι)
    (hstep : Step (.error .aborted) c i c')
    (hclient : Client svc db u kind (reqs i) (c'.procs i) (m'.phase i) p)
    (hothers : ∀ j, j ≠ i → m'.phase j = m.phase j) (hprofiles : SameProfiles db c'.db)
    (hfailures : c'.db.failures u kind = some (m'.count, m'.lock)) (hclock : m'.clock = c'.db.clock)
    (htimes : m'.times = times') : Simulates svc db u kind reqs c' times' m' := by
  refine ⟨hprofiles, hfailures, hclock, htimes, ?_⟩
  intro j
  by_cases hj : j = i
  . rw [hj]
    exact ⟨p, hclient⟩
  . rw [hstep.procs_ne hj, hothers j hj]
    exact h.clients j

theorem SameProfiles.replay_commits (h : SameProfiles db db') (p : Point)
    : SameProfiles db (replay p.commits db') := by
  cases p with
  | committing id k count now => exact h.apply_setFailures id k (count + 1) _
  | _ => exact h

theorem SameProfiles.user_eq {user : User} (h : SameProfiles db db') (hdb : db.Valid)
    (huser : user ∈ db'.users) : db'.user? user.id = some user := by
  apply Table.get_of_mem _ huser
  rw [h.userIds]
  exact hdb.userIds

structure Moved (svc : Services) (db : Database) (u : Uuid) (kind : LockoutKind)
    (reqs : ι → Request) (c : System ι) (i : ι) (c' : System ι) (p : Point) : Prop where
  step : Step (.error .aborted) c i c'
  inTime : InTime u kind c i c'
  stands : c.procs i = p.proc svc
  wrong : p.Wrong svc db
  on : p.On ((reqs i).account db) (reqs i)
  next : c'.procs i = (p.next svc c.db).proc svc
  committed : c'.db = replay p.commits c.db
  profiles : SameProfiles db c'.db
  wrongNext : (p.next svc c.db).Wrong svc db
  onNext : (p.next svc c.db).On ((reqs i).account db) (reqs i)

theorem Simulates.moved (h : Simulates svc db u kind reqs c times m) (hdb : db.Valid)
    (hintime : InTime u kind c i c') (hstep : Step (.error .aborted) c i c')
    (hclient : Client svc db u kind (reqs i) (c.procs i) (m.phase i) p)
    : Moved svc db u kind reqs c i c' p := by
  have hwrong := hclient.wrong.of_sameProfiles h.profiles
  obtain ⟨hnext, hdb'⟩ := p.of_step hwrong hclient.stands hstep hintime.running
  refine ⟨hstep, hintime, hclient.stands, hclient.wrong, hclient.on, hnext, hdb', ?_,
    Point.wrong_next hdb hclient.on hclient.wrong, Point.on_next h.profiles hclient.on⟩
  rw [hdb']
  exact h.profiles.replay_commits p

theorem Simulates.step_other (h : Simulates svc db u kind reqs c times m)
    (hmoved : Moved svc db u kind reqs c i c' p) (hidle : m.phase i = .idle)
    (hother : (reqs i).account db ≠ some (u, kind))
    : ∃ m', (m' = m ∨ m.Step MAX_ATTEMPTS (LOCKOUT_SECONDS * 1000) m')
        ∧ Simulates svc db u kind reqs c' times m' := by
  have hclient : Client svc db u kind (reqs i) (c'.procs i) (m.phase i) (p.next svc c.db) :=
    ⟨hmoved.next, hmoved.wrongNext, hmoved.onNext, fun hacct => absurd hacct hother, fun _ => hidle⟩
  have hdb' := hmoved.committed
  cases p with
  | ticking ms =>
    refine ⟨{ m with clock := m.clock + ms }, .inr (.tick ms), ?_⟩
    apply h.goOn { m with clock := m.clock + ms } hmoved.step hclient (fun _ _ => rfl) hmoved.profiles
      _ _ h.times
    . rw [hdb']
      exact h.failures
    . rw [hdb']
      change m.clock + ms = c.db.clock + ms
      rw [h.clock]
  | committing id k count now =>
    refine ⟨m, .inl rfl, ?_⟩
    apply h.goOn m hmoved.step hclient (fun _ _ => rfl) hmoved.profiles _ _ h.times
    . have hne : ¬ (id = u ∧ k = kind) := by
        intro hboth
        apply hother
        rw [show (reqs i).account db = some (id, k) from hmoved.on, hboth.1, hboth.2]
      rw [hdb']
      unfold Point.commits
      rw [replay_cons, replay_nil, store_apply, failures_setFailures, if_neg hne]
      exact h.failures
    . rw [hdb']
      exact h.clock
  | _ =>
    refine ⟨m, .inl rfl, ?_⟩
    apply h.goOn m hmoved.step hclient (fun _ _ => rfl) hmoved.profiles _ _ h.times
    . rw [hdb']
      exact h.failures
    . rw [hdb']
      exact h.clock

theorem Simulates.proceed (h : Simulates svc db u kind reqs c times m)
    (hmoved : Moved svc db u kind reqs c i c' p) (hacct : (reqs i).account db = some (u, kind))
    (hcommits : p.commits = []) {ph : Throttle.Phase} (hph : (p.next svc c.db).HasPhase kind ph)
    (times' : List DateTime)
    : Simulates svc db u kind reqs c' times' { m.setPhase i ph with times := times' } := by
  have hdb' : c'.db = c.db := by
    rw [hmoved.committed, hcommits]
    rfl
  have hphase : (m.setPhase i ph).phase i = ph := Function.update_self ..
  have hclient : Client svc db u kind (reqs i) (c'.procs i) ((m.setPhase i ph).phase i)
      (p.next svc c.db) := by
    rw [hphase]
    exact ⟨hmoved.next, hmoved.wrongNext, hmoved.onNext, fun _ => hph, fun hne => absurd hacct hne⟩
  apply h.goOn { m.setPhase i ph with times := times' } hmoved.step hclient _ hmoved.profiles _ _ rfl
  . intro j hj
    exact Function.update_of_ne hj ..
  . rw [hdb']
    exact h.failures
  . rw [hdb']
    exact h.clock

theorem Simulates.mayPass (h : Simulates svc db u kind reqs c times m)
    (hmoved : Moved svc db u kind reqs c i c' p) (hidle : m.phase i = .idle)
    (hflying : InFlight u kind c' i) (hexpired : ∀ t ∈ m.lock, t ≤ m.clock)
    : m.MayPass MAX_ATTEMPTS := by
  have hnot : InFlight u kind c i = false := by
    rw [← Bool.not_eq_true, h.inFlight_iff, hidle]
    exact id
  refine ⟨hexpired, ?_⟩
  cases hmoved.inTime.few hnot hflying with
  | inl hfew =>
    obtain ⟨s, hs, hcard⟩ := hfew
    left
    refine ⟨s, ?_, hcard _ h.failures⟩
    intro j hj
    exact hs j ((h.inFlight_iff j).mpr hj)
  | inr hnone =>
    right
    intro j hj
    have htrue := (h.inFlight_iff j).mpr hj
    rw [hnone j] at htrue
    cases htrue

omit [DecidableEq ι] in
theorem Simulates.user (h : Simulates svc db u kind reqs c times m) {user : User}
    (huser : c.db.user? u = some user) : user.failedCount kind = m.count ∧ user.lockedUntil kind = m.lock := by
  have hfailures := h.failures
  unfold Database.failures at hfailures
  rw [huser] at hfailures
  exact Prod.mk.inj (Option.some.inj hfailures)

theorem Request.account_login {dto : LoginDto} {fresh : FreshToken}
    (h : (Request.login dto fresh).account db = some (u, kind))
    : ∃ user, (db.users.find? fun row => row.email = dto.email) = some user ∧ user.id = u
        ∧ LockoutKind.login = kind := by
  simp only [account, Option.map_eq_some_iff, Prod.mk.injEq] at h
  exact h

theorem Request.account_verifyPin {ownerId : Uuid} {pin : String}
    (h : (Request.verifyPin ownerId pin).account db = some (u, kind))
    : ∃ user pinHash,
        (db.users.find? fun row => row.ownerId = some ownerId && row.deletedAt.isNone) = some user
          ∧ truthy user.pinHash = some pinHash ∧ user.id = u ∧ LockoutKind.pin = kind := by
  simp only [account, Option.map_eq_some_iff, Option.filter_eq_some_iff, Prod.mk.injEq] at h
  obtain ⟨user, ⟨hfind, hsome⟩, hid, hkind⟩ := h
  obtain ⟨pinHash, hpin⟩ := Option.isSome_iff_exists.mp hsome
  exact ⟨user, pinHash, hfind, hpin, hid, hkind⟩

theorem Point.next_start (svc : Services) {req : Request} (hacct : req.account db = some (u, kind))
    : ∃ user after, user ∈ db.users ∧ user.id = u
        ∧ (Point.start req).next svc db = .found user kind after := by
  cases req with
  | login dto fresh =>
    obtain ⟨user, hfind, hid, hkind⟩ := Request.account_login hacct
    rw [← hkind]
    refine ⟨user, do let r ← finishLogin svc user fresh; return .login r,
      List.mem_of_find?_eq_some hfind, hid, ?_⟩
    unfold next
    dsimp only
    rw [hfind]
  | verifyPin ownerId pin =>
    obtain ⟨user, pinHash, hfind, hpin, hid, hkind⟩ := Request.account_verifyPin hacct
    rw [← hkind]
    refine ⟨user, pure .done, List.mem_of_find?_eq_some hfind, hid, ?_⟩
    unfold next
    dsimp only
    rw [hfind]
    dsimp only
    rw [hpin]
  | _ => cases hacct

theorem LockoutKind.not_counted_locked (kind : LockoutKind) (retry : ℤ)
    : ¬ kind.Counted (.error (kind.lockedError retry)) := by
  intro ⟨n, heq⟩
  cases kind <;> cases heq

theorem Simulates.step_pass (h : Simulates svc db u kind reqs c times m)
    (hmoved : Moved svc db u kind reqs c i c' p) (hacct : (reqs i).account db = some (u, kind))
    (hidle : m.phase i = .idle) (hcommits : p.commits = []) {user : User} {after : AuthCall Response}
    (hnext : p.next svc c.db = .verifying user kind after)
    (hexpired : InFlight u kind c' i → ∀ t ∈ m.lock, t ≤ m.clock)
    : ∃ m', m.Step MAX_ATTEMPTS (LOCKOUT_SECONDS * 1000) m'
        ∧ Simulates svc db u kind reqs c' times m' := by
  have hid : user.id = u := by
    have hon := hmoved.onNext
    rw [hnext, hacct] at hon
    exact (Prod.mk.inj (Option.some.inj hon)).1.symm
  have hflying : InFlight u kind c' i := by
    unfold InFlight
    rw [hmoved.next, Point.tag?_proc hmoved.wrongNext, hnext]
    simp [Point.tag?, Stmt.isInFlight, hid]
  refine ⟨m.setPhase i .passed, ?_, ?_⟩
  . exact .pass hidle (h.mayPass hmoved hidle hflying (hexpired hflying))
  . have hph : (p.next svc c.db).HasPhase kind .passed := by
      rw [hnext]
      rfl
    have htimes := h.times
    subst htimes
    exact h.proceed hmoved hacct hcommits hph m.times

theorem Simulates.step_write {now : DateTime} (h : Simulates svc db u kind reqs c times m)
    (hmoved : Moved svc db u kind reqs c i c' (.committing u kind m.count now))
    (hacct : (reqs i).account db = some (u, kind))
    : Simulates svc db u kind reqs c' times { m.setPhase i .finished with
        count := m.count + 1
        lock := if MAX_ATTEMPTS ≤ m.count + 1 then some (now + LOCKOUT_SECONDS * 1000) else m.lock } := by
  have hphase : (m.setPhase i .finished).phase i = .finished := Function.update_self ..
  have hcounted : (Point.next svc c.db (.committing u kind m.count now)).HasPhase kind .finished :=
    .inl ⟨⟨_, rfl⟩, rfl⟩
  have hclient : Client svc db u kind (reqs i) (c'.procs i) ((m.setPhase i .finished).phase i)
      (Point.next svc c.db (.committing u kind m.count now)) := by
    rw [hphase]
    exact ⟨hmoved.next, hmoved.wrongNext, hmoved.onNext, fun _ => hcounted,
      fun hne => absurd hacct hne⟩
  have hcommitted := hmoved.committed
  unfold Point.commits at hcommitted
  rw [replay_cons, replay_nil, store_apply] at hcommitted
  refine h.goOn { m.setPhase i .finished with
    count := m.count + 1
    lock := if MAX_ATTEMPTS ≤ m.count + 1 then some (now + LOCKOUT_SECONDS * 1000) else m.lock }
    hmoved.step hclient ?_ hmoved.profiles ?_ ?_ h.times
  . intro j hj
    exact Function.update_of_ne hj ..
  . rw [hcommitted, failures_setFailures, if_pos ⟨rfl, rfl⟩, h.failures]
    unfold lockAfter
    rw [Option.map_some]
    split <;> rfl
  . rw [hcommitted]
    exact h.clock

theorem Simulates.step_on (h : Simulates svc db u kind reqs c times m) (hdb : db.Valid)
    (hmoved : Moved svc db u kind reqs c i c' p) (hacct : (reqs i).account db = some (u, kind))
    (hphase : p.HasPhase kind (m.phase i))
    : ∃ m', (m' = m ∨ m.Step MAX_ATTEMPTS (LOCKOUT_SECONDS * 1000) m')
        ∧ Simulates svc db u kind reqs c' (times ++ verifications u kind c i) m' := by
  have htag : (c.procs i).prog.tag? = p.tag? := by
    rw [hmoved.stands, Point.tag?_proc hmoved.wrong]
  have hon := hmoved.on
  rw [hacct] at hon
  have htimes := h.times
  subst htimes
  have hquiet : p.tag? ≠ some (.verifySecret u kind)
      → m.times ++ verifications u kind c i = m.times := by
    intro hne
    unfold verifications
    rw [htag, if_neg hne, List.append_nil]
  have hstay : p.commits = [] → (p.next svc c.db).HasPhase kind (m.phase i) →
      Simulates svc db u kind reqs c' m.times m := by
    intro hcommits hph
    have hsame : m.setPhase i (m.phase i) = m := by
      unfold Throttle.Machine.setPhase
      rw [Function.update_eq_self]
    rw [← hsame]
    exact h.proceed hmoved hacct hcommits hph m.times
  cases p with
  | start req =>
    cases hon
    rw [hquiet (by cases reqs i <;> simp [Point.tag?])]
    have hacct' : (reqs i).account c.db = some (u, kind) := by
      rw [h.profiles.account]
      exact hacct
    obtain ⟨user, after, hmem, hid, hnext⟩ := Point.next_start svc hacct'
    unfold Point.found at hnext
    split at hnext
    . refine ⟨m, .inl rfl, hstay rfl ?_⟩
      rw [hnext]
      exact hphase
    . next hlock =>
      have hexpired : InFlight u kind c' i → ∀ t ∈ m.lock, t ≤ m.clock := by
        intro _ t ht
        have huser := h.profiles.user_eq hdb hmem
        rw [hid] at huser
        rw [← (h.user huser).2, hlock] at ht
        cases ht
      obtain ⟨m', hstep, hsim⟩ := h.step_pass hmoved hacct hphase rfl hnext hexpired
      exact ⟨m', .inr hstep, hsim⟩
  | ticking ms => cases hon
  | checking user kind' lockedUntil after =>
    obtain ⟨rfl, rfl⟩ := Prod.mk.inj (Option.some.inj hon)
    rw [hquiet (by simp [Point.tag?])]
    by_cases hlocked : c.db.clock < lockedUntil
    . refine ⟨m, .inl rfl, hstay rfl ?_⟩
      dsimp only [Point.next]
      rw [if_pos hlocked]
      exact .inr ⟨kind.not_counted_locked _, hphase⟩
    . have hnext : (Point.checking user kind lockedUntil after).next svc c.db
          = .verifying user kind after := by
        dsimp only [Point.next]
        rw [if_neg hlocked]
      have hexpired : InFlight user.id kind c' i → ∀ t ∈ m.lock, t ≤ m.clock := by
        intro hflying t ht
        have hfresh : m.lock = some lockedUntil :=
          hmoved.inTime.fresh lockedUntil htag hflying _ h.failures
        rw [hfresh, Option.mem_def, Option.some.injEq] at ht
        rw [h.clock, ← ht]
        exact not_lt.mp hlocked
      obtain ⟨m', hstep, hsim⟩ := h.step_pass hmoved hacct hphase rfl hnext hexpired
      exact ⟨m', .inr hstep, hsim⟩
  | verifying user kind' after =>
    obtain ⟨rfl, rfl⟩ := Prod.mk.inj (Option.some.inj hon)
    refine ⟨_, .inr (.evaluate hphase), ?_⟩
    have hverified : verifications user.id kind c i = [m.clock] := by
      unfold verifications
      rw [htag, h.clock]
      exact if_pos rfl
    rw [hverified]
    exact h.proceed hmoved hacct rfl ⟨m.clock, rfl⟩ (m.times ++ [m.clock])
  | counting id kind' =>
    obtain ⟨rfl, rfl⟩ := Prod.mk.inj (Option.some.inj hon)
    rw [hquiet (by simp [Point.tag?])]
    obtain ⟨t, hphase⟩ := hphase
    refine ⟨_, .inr (.read hphase), h.proceed hmoved hacct rfl ?_ m.times⟩
    dsimp only [Point.next]
    split
    . next hnone =>
      have hfailures := h.failures
      unfold Database.failures at hfailures
      rw [hnone] at hfailures
      cases hfailures
    . next user huser =>
      rw [(h.user huser).1]
      exact ⟨t, rfl⟩
  | timing id kind' count =>
    obtain ⟨rfl, rfl⟩ := Prod.mk.inj (Option.some.inj hon)
    rw [hquiet (by simp [Point.tag?])]
    obtain ⟨t, hphase⟩ := hphase
    refine ⟨_, .inr (.time hphase), h.proceed hmoved hacct rfl ?_ m.times⟩
    dsimp only [Point.next]
    rw [← h.clock]
    exact ⟨t, rfl⟩
  | updating id kind' count now =>
    obtain ⟨rfl, rfl⟩ := Prod.mk.inj (Option.some.inj hon)
    rw [hquiet (by simp [Point.tag?])]
    exact ⟨m, .inl rfl, hstay rfl hphase⟩
  | committing id kind' count now =>
    obtain ⟨rfl, rfl⟩ := Prod.mk.inj (Option.some.inj hon)
    rw [hquiet (by simp [Point.tag?])]
    obtain ⟨t, hphase⟩ := hphase
    have hcount : count = m.count := by
      have hlog
          : (c.procs i).log = [.setFailures u kind (count + 1) (lockAfter (count + 1) now)] := by
        rw [hmoved.stands]
        rfl
      exact Nat.succ.inj (hmoved.inTime.counted _ _ hlog _ h.failures)
    subst hcount
    exact ⟨_, .inr (.write hphase), h.step_write hmoved hacct⟩
  | returned r =>
    exfalso
    apply hmoved.step.of_ret
    rw [hmoved.stands]
    rfl

theorem Simulates.step (h : Simulates svc db u kind reqs c times m) (hdb : db.Valid)
    (hintime : InTime u kind c i c') (hstep : Step (.error .aborted) c i c')
    : ∃ m', (m' = m ∨ m.Step MAX_ATTEMPTS (LOCKOUT_SECONDS * 1000) m')
        ∧ Simulates svc db u kind reqs c' (times ++ verifications u kind c i) m' := by
  obtain ⟨p, hclient⟩ := h.clients i
  have hmoved := h.moved hdb hintime hstep hclient
  by_cases hacct : (reqs i).account db = some (u, kind)
  . exact h.step_on hdb hmoved hacct (hclient.hasPhase hacct)
  . have hidle := hclient.other hacct
    have hnone : verifications u kind c i = [] := by
      unfold verifications
      rw [if_neg]
      intro htag
      have hflying : InFlight u kind c i := by
        unfold InFlight
        rw [htag]
        simp [Stmt.isInFlight]
      rw [h.inFlight_iff, hidle] at hflying
      exact hflying
    rw [hnone, List.append_nil]
    exact h.step_other hmoved hidle hacct

omit [DecidableEq ι] in
theorem Simulates.start (hreqs : ∀ i, (reqs i).Fails svc db) {f : Nat × Option DateTime}
    (hf : db.failures u kind = some f)
    : Simulates svc db u kind reqs (System.start svc db reqs) []
        { count := f.1, lock := f.2, clock := db.clock, phase := fun _ => .idle, times := [] } := by
  refine ⟨rfl, hf, rfl, rfl, ?_⟩
  intro i
  refine ⟨.start (reqs i), rfl, hreqs i, rfl, ?_, ?_⟩
  . intro _
    rfl
  . intro _
    rfl

theorem Simulates.run (hdb : db.Valid) (hreqs : ∀ i, (reqs i).Fails svc db) {f : Nat × Option DateTime}
    (hf : db.failures u kind = some f)
    (hrun : ObservedRun (.error .aborted) (InTime u kind) (verifications u kind)
      (System.start svc db reqs) times c)
    : ∃ m : Throttle.Machine ι, m.Sound MAX_ATTEMPTS (LOCKOUT_SECONDS * 1000) f.1
        ∧ Simulates svc db u kind reqs c times m := by
  -- A step of the system is a step of the counter, or leaves the counter where it was.
  induction hrun with
  | refl => exact ⟨_, Throttle.Machine.sound_start _ _ _ _ _, .start hreqs hf⟩
  | step _ hintime hstep ih =>
    obtain ⟨m, hsound, hsim⟩ := ih
    obtain ⟨m', hm', hsim'⟩ := hsim.step hdb hintime hstep
    refine ⟨m', ?_, hsim'⟩
    cases hm' with
    | inl heq =>
      rw [heq]
      exact hsound
    | inr hmachine => exact hsound.step hmachine

theorem Point.result?_proc (hp : p.Wrong svc db) (htag : p.tag? ≠ none)
    : (p.proc svc).prog.result? = none := by
  rw [← p.tag?_proc hp] at htag
  cases hprog : (p.proc svc).prog with
  | ret r =>
    rw [hprog] at htag
    exact absurd rfl htag
  | _ => rfl

theorem Client.finished_iff (h : Client svc db u kind req proc ph p)
    : ph = .finished ↔ req.account db = some (u, kind) ∧ ∃ r, proc.prog.result? = some r ∧ kind.Counted r := by
  by_cases hacct : req.account db = some (u, kind)
  . have hph := h.hasPhase hacct
    have hrunning : p.tag? ≠ none → ¬ ∃ r, proc.prog.result? = some r ∧ kind.Counted r := by
      intro htag ⟨r, hresult, _⟩
      rw [h.stands, p.result?_proc h.wrong htag] at hresult
      cases hresult
    cases p with
    | returned r =>
      have hresult : proc.prog.result? = some r := by
        rw [h.stands]
        rfl
      rw [hresult]
      rcases hph with ⟨hcounted, hph⟩ | ⟨hnot, hph⟩
      . simp [hph, hacct, hcounted]
      . simp [hph, hnot]
    | start req' =>
      rw [show ph = .idle from hph]
      simp [hrunning (by cases req' <;> simp [Point.tag?])]
    | ticking | checking | verifying =>
      simp only [Point.HasPhase] at hph
      rw [hph]
      simp [hrunning (by simp [Point.tag?])]
    | counting | timing | updating | committing =>
      obtain ⟨t, hph⟩ := hph
      rw [hph]
      simp [hrunning (by simp [Point.tag?])]
  . rw [h.other hacct]
    simp [hacct]

/--
What the lockout promises of attempts with wrong secrets on an account that has failed `f.1` times:
every failed one is on the counter, and the secrets that are evaluated at `times` are throttled.
-/
structure Enforced (db : Database) (u : Uuid) (kind : LockoutKind) (f : Nat × Option DateTime)
    (reqs : ι → Request) (times : List DateTime) (c : System ι) : Prop where
  counted : ∃ s : Finset ι,
    (∀ i, i ∈ s ↔ (reqs i).account db = some (u, kind)
        ∧ ∃ r, (c.procs i).prog.result? = some r ∧ kind.Counted r)
      ∧ ∃ lockedUntil, c.db.failures u kind = some (f.1 + s.card, lockedUntil)
  throttled : Throttle.Throttled (MAX_ATTEMPTS - f.1) (LOCKOUT_SECONDS * 1000) times

/-- However attempts overlap, the lockout is enforced as long as none overtakes another one. -/
theorem lockout_enforced (hdb : db.Valid) (hreqs : ∀ i, (reqs i).Fails svc db)
    {f : Nat × Option DateTime} (hf : db.failures u kind = some f)
    (hrun : ObservedRun (.error .aborted) (InTime u kind) (verifications u kind)
      (System.start svc db reqs) times c) : Enforced db u kind f reqs times c := by
  obtain ⟨m, ⟨flying, pending, done, written, hsound⟩, hsim⟩ := Simulates.run hdb hreqs hf hrun
  refine ⟨⟨done, ?_, m.lock, ?_⟩, ?_⟩
  . intro i
    obtain ⟨p, hclient⟩ := hsim.clients i
    rw [hsound.thoseDone]
    exact hclient.finished_iff
  . rw [hsim.failures, hsound.count]
  . rw [← hsim.times]
    exact hsound.throttled

/-- A check of a turn that lets one attempt on the account run at a time. -/
def inTurn [Fintype ι] (u : Uuid) (kind : LockoutKind) (c : System ι) (i : ι) : Bool :=
  (c.turn i).all (fun c' => (c'.procs i).prog.result? ≠ some (.error .aborted))
    && decide (∀ j, j ≠ i → InFlight u kind c j = false)
    && (match (c.procs i).prog.tag? with
      | some (.assertNotLocked _ _ lockedUntil) =>
        (c.db.failures u kind).all fun f => f.2 = some lockedUntil
      | _ => true)
    && match (c.procs i).log with
      | [.setFailures _ _ count _] => (c.db.failures u kind).all fun f => count = f.1 + 1
      | _ => true

theorem inTurn_sound [Fintype ι] (h : inTurn u kind c i) (hturn : c.turn i = some c')
    : InTime u kind c i c' := by
  unfold inTurn at h
  simp only [Bool.and_eq_true, hturn, Option.all_some, decide_eq_true_eq] at h
  obtain ⟨⟨⟨hrunning, hothers⟩, hfresh⟩, hcounted⟩ := h
  constructor
  . exact hrunning
  . intro lockedUntil htag _ f hf
    rw [htag] at hfresh
    rw [Option.mem_def.mp hf] at hfresh
    simpa using hfresh
  . intro hnot _
    right
    intro j
    by_cases hj : j = i
    . rw [hj]
      exact hnot
    . exact hothers j hj
  . intro count lockedUntil hlog f hf
    rw [hlog] at hcounted
    rw [Option.mem_def.mp hf] at hcounted
    simpa using hcounted

namespace Office

def mistyped : Request :=
  .login ⟨"admin@sentry.test", "passwort", by decide⟩ ⟨"refresh", 1⟩

theorem mistyped_fails : mistyped.Fails services database := by
  intro user hfind
  simp only [database, admin, List.find?_cons] at hfind
  cases hfind
  decide

def burst : System (Fin 5) :=
  .start services database fun _ => mistyped

theorem burst_overlapping
    : (burst.observed (fun c i => (c.turn i).all fun c' =>
          (c'.procs i).prog.result? ≠ some (.error .aborted)) (verifications 1 .login)
          ((List.finRange 5).flatMap (List.replicate 4) ++ (List.finRange 5).flatMap (List.replicate 2))).map
        (fun r => (r.1, r.2.db.failures 1 .login,
          decide (∀ i, (r.2.procs i).prog.result? = some (.error (.loginInvalid 3)))))
        =
      some ([0, 0, 0, 0, 0], some (1, none), true) := by
  decide +kernel

/-- Four log ins with a wrong password, and one more when the lock has expired. -/
def inTurns : System (Fin 6) :=
  .start services database fun i => if i = 4 then .tick 300000 else mistyped

theorem inTurns_observed
    : (inTurns.observed (inTurn 1 .login) (verifications 1 .login)
          ([0, 1, 2, 3].flatMap (List.replicate 6) ++ [4, 4] ++ List.replicate 7 5)).map
        (fun r => (r.1, r.2.db.failures 1 .login))
        =
      some ([0, 0, 0, 0, 300000], some (5, some 600000)) := by
  decide +kernel

end Office

/-- Attempts that overtake each other are lost from the counter, and are not throttled. -/
theorem lockout_not_enforced
    : ¬ ∀ (svc : Services) (db : Database) (u : Uuid) (kind : LockoutKind) (f : Nat × Option DateTime)
        (reqs : Fin 5 → Request) (times : List DateTime) (c : System (Fin 5)),
        db.Valid → (∀ i, (reqs i).Fails svc db) → db.failures u kind = some f →
          ObservedRun (.error .aborted)
              (fun _ i c' => (c'.procs i).prog.result? ≠ some (.error .aborted))
              (verifications u kind) (System.start svc db reqs) times c →
            Enforced db u kind f reqs times c := by
  intro hall
  have hobserved := Office.burst_overlapping
  rw [Option.map_eq_some_iff] at hobserved
  obtain ⟨⟨times, c⟩, hobserved, hfacts⟩ := hobserved
  simp only [Prod.mk.injEq, decide_eq_true_eq] at hfacts
  obtain ⟨htimes, hfailures, hresults⟩ := hfacts
  have hrun : ObservedRun (.error .aborted)
      (fun _ i c' => (c'.procs i).prog.result? ≠ some (.error .aborted)) (verifications 1 .login)
      Office.burst times c := by
    apply Config.run_of_observed _ _ _ hobserved
    intro c i c' hcheck hturn
    rw [hturn] at hcheck
    simpa using hcheck
  have henforced := hall Office.services Office.database 1 .login (0, none) _ times c
    Office.database_valid (fun _ => Office.mistyped_fails) (by decide) hrun
  obtain ⟨s, hs, lockedUntil, hcount⟩ := henforced.counted
  have hfull : s = Finset.univ := by
    apply Finset.eq_univ_of_forall
    intro i
    rw [hs]
    exact ⟨by decide, _, hresults i, 3, rfl⟩
  have hcard : s.card = 5 := by
    rw [hfull]
    rfl
  rw [hfailures, hcard] at hcount
  cases hcount

theorem lockout_enforced_inTurns
    : ∃ c, c.db.failures 1 .login = some (5, some 600000)
        ∧ Enforced Office.database 1 .login (0, none)
          (fun i : Fin 6 => if i = 4 then .tick 300000 else Office.mistyped) [0, 0, 0, 0, 300000] c := by
  have hobserved := Office.inTurns_observed
  rw [Option.map_eq_some_iff] at hobserved
  obtain ⟨⟨times, c⟩, hobserved, hfacts⟩ := hobserved
  rw [Prod.mk.injEq] at hfacts
  obtain ⟨htimes, hfailures⟩ := hfacts
  have hrun : ObservedRun (.error .aborted) (InTime 1 .login) (verifications 1 .login)
      Office.inTurns times c :=
    Config.run_of_observed _ (fun _ _ _ => inTurn_sound) _ hobserved
  have hreqs : ∀ i : Fin 6, Request.Fails Office.services Office.database
      (if i = 4 then .tick 300000 else Office.mistyped) := by
    intro i
    split
    . trivial
    . exact Office.mistyped_fails
  have hstart : Office.database.failures 1 .login = some (0, none) := by decide
  have henforced := lockout_enforced Office.database_valid hreqs hstart hrun
  refine ⟨c, hfailures, ?_⟩
  rw [← show times = [0, 0, 0, 0, 300000] from htimes]
  exact henforced

end SentryPos.Auth
