import SentryPos.Auth.Attempts
import SentryPos.Auth.Safe

/-!
This module contains the verifications of one user as a system of callers: `verifyTotp` with what it
accepts as its result, where a verification may stand and what a step leads to from there.
-/

namespace SentryPos.Auth

open ReadCommitted

/-- What a verification accepts: a TOTP code of a time step or a recovery code. -/
inductive Accepted where
  | step (timeStep : ℤ)
  | recovery (code : String)
  deriving DecidableEq

namespace Accepted

def step? : Accepted → Option ℤ
  | step timeStep => some timeStep
  | recovery _ => none

def recovery? : Accepted → Option String
  | step _ => none
  | recovery code => some code

end Accepted

/-- The rest of `verifyTotp` once the code has been compared with the secret. -/
def acceptMatched (svc : Services) (userId : Uuid) (code : String) (user : User)
    : Option ℤ → AuthCall Accepted
  | some timeStep =>
    tryCatch (do
      AuthCall.update .updateUser (.setLastTimeStep userId timeStep)
      return .step timeStep)
      fun _ => do
        useRecoveryCode svc user code
        return .recovery code
  | none => do
    useRecoveryCode svc user code
    return .recovery code

/-- The rest of `verifyTotp` once the user has been read. -/
def acceptRead (svc : Services) (userId : Uuid) (code : String) (user : User)
    : AuthCall Accepted := do
  match truthy user.totpSecret with
  | none => throw .totpInvalid
  | some secret =>
    let now ← AuthCall.now
    acceptMatched svc userId code user (svc.verifySync code secret now user.totpLastTimeStep)

/-- `verifyTotp` with what it accepts as its result. -/
def acceptTotp (svc : Services) (userId : Uuid) (code : String) : AuthCall Accepted := do
  let user ← AuthCall.findUniqueOrThrow .findUser userId
  acceptRead svc userId code user

theorem verifyTotp_eq (svc : Services) (userId : Uuid) (code : String)
    : verifyTotp svc userId code = (do let _ ← acceptTotp svc userId code) := by
  have hcatch : ∀ (p : AuthCall Accepted) (handle : ApiError → AuthCall Accepted),
      (tryCatch p handle >>= fun _ => pure ())
        =
      (tryCatch (p >>= fun _ => pure ()) fun e => handle e >>= fun _ => pure () : AuthCall Unit) := by
    intro p handle
    change (p.run >>= _) >>= _ = (p.run >>= _) >>= _
    rw [Prog.bind_assoc, Prog.bind_assoc]
    congr 1
    funext r
    cases r <;> rfl
  unfold verifyTotp acceptTotp
  rw [bind_assoc]
  congr 1
  funext user
  unfold acceptRead
  cases truthy user.totpSecret with
  | none => rfl
  | some secret =>
    dsimp only
    rw [bind_assoc]
    congr 1
    funext now
    cases svc.verifySync code secret now user.totpLastTimeStep with
    | none =>
      dsimp only [acceptMatched]
      simp only [bind_assoc, pure_bind]
      exact (bind_pure_unit).symm
    | some timeStep =>
      dsimp only [acceptMatched]
      rw [hcatch]
      simp only [bind_assoc, pure_bind]
      congr 1
      . exact (bind_pure_unit).symm
      . funext _
        exact (bind_pure_unit).symm

/-- What a code is checked against besides the secret: the last time step and the recovery codes. -/
def Database.checked (db : Database) (u : Uuid) : Option (Option ℤ × List String) :=
  (db.user? u).map fun user => (user.totpLastTimeStep, user.totpRecoveryCodes)

/-- The write leaves what the codes of the user are checked against as it is. -/
def Write.SparesChecked (u : Uuid) (w : Write) : Prop :=
  ∀ db : Database, (w.apply db).checked u = db.checked u

theorem sparesChecked {w : Write}
    (hw : ∀ user, (w.onUser user).totpLastTimeStep = user.totpLastTimeStep
      ∧ (w.onUser user).totpRecoveryCodes = user.totpRecoveryCodes)
    (u : Uuid) : w.SparesChecked u := by
  intro db
  unfold Database.checked
  rw [w.user?_apply]
  split
  . rw [Option.map_map]
    congr 1
    funext user
    obtain ⟨hlast, hcodes⟩ := hw user
    simp [hlast, hcodes]
  . rfl

theorem sparesChecked_routine {w : Write} (hw : w.isRoutine) (u : Uuid) : w.SparesChecked u := by
  apply sparesChecked
  intro user
  cases w with
  | setFailures _ kind => cases kind <;> exact ⟨rfl, rfl⟩
  | tick | setPendingSecret | insertRefreshToken | revokeRefreshToken => exact ⟨rfl, rfl⟩
  | _ => cases hw

theorem Request.sparesChecked (svc : Services) {req : Request} (h : req.sparesFactor) (u : Uuid)
    : Call.OnlyWrites (Write.SparesChecked u) (req.call svc) := by
  have htoken : ∀ id usedAt, (Write.useAuthToken id usedAt).SparesChecked u :=
    fun _ _ => Auth.sparesChecked (fun _ => ⟨rfl, rfl⟩) u
  have hpassword : ∀ userId passwordHash, (Write.setPassword userId passwordHash).SparesChecked u :=
    fun _ _ => Auth.sparesChecked (fun _ => ⟨rfl, rfl⟩) u
  have hsafe : Safe True (Write.SparesChecked u) (req.call svc) :=
    req.safe_sparesFactor (fun w hw => sparesChecked_routine hw u) htoken hpassword svc h
  exact Prog.Safe.onlyWrites hsafe

theorem checked_setLastTimeStep (u : Uuid) (timeStep : ℤ) (db : Database)
    : ((Write.setLastTimeStep u timeStep).apply db).checked u
        =
      (db.checked u).map fun k => (some timeStep, k.2) := by
  unfold Database.checked
  rw [Write.user?_apply, if_pos (by rfl), Option.map_map, Option.map_map]
  rfl

theorem checked_setRecoveryCodes (u : Uuid) (codes : List String) (db : Database)
    : ((Write.setRecoveryCodes u codes).apply db).checked u
        =
      (db.checked u).map fun k => (k.1, codes) := by
  unfold Database.checked
  rw [Write.user?_apply, if_pos (by rfl), Option.map_map, Option.map_map]
  rfl

theorem checked_isSome (log : List Write) (u : Uuid) (db : Database)
    : ((replay log db).checked u).isSome = (db.checked u).isSome := by
  apply replay_induction (P := fun db' : Database => (db'.checked u).isSome = (db.checked u).isSome) rfl
  intro w _ db' hdb'
  rw [← hdb', store_apply]
  unfold Database.checked
  rw [w.user?_apply]
  split <;> simp

/-- A verification of the user, or a call that spares what it checks. -/
inductive Caller (u : Uuid) where
  | verifyTotp (code : String)
  | other (call : AuthCall Response) (spares : Call.OnlyWrites (Write.SparesChecked u) call)

variable {ι : Type} [DecidableEq ι] {svc : Services} {u : Uuid}

def Caller.ofRequest (svc : Services) (req : Request) (h : req.sparesFactor) : Caller u :=
  .other (req.call svc) (req.sparesChecked svc h u)

/-- The program of a client: it returns what has been accepted. -/
def Caller.prog (svc : Services)
    : Caller u → Prog Database Write Key Stmt (Except ApiError (Option Accepted))
  | .verifyTotp code => (do
      let accepted ← acceptTotp svc u code
      return some accepted : AuthCall (Option Accepted)).run
  | .other call _ => (do
      let _ ← call
      return none : AuthCall (Option Accepted)).run

abbrev Verifications (ι : Type) :=
  Config ι Database Write Key Stmt (Except ApiError (Option Accepted))

/-- All callers before their first step. -/
def Verifications.start (svc : Services) (db : Database) (callers : ι → Caller u)
    : Verifications ι :=
  .init db fun i => (callers i).prog svc

def acceptance (p : Proc Database Write Key Stmt (Except ApiError (Option Accepted)))
    : Option Accepted :=
  match p.prog.result? with
  | some (.ok accepted) => accepted
  | _ => none

inductive Stage where
  | start
  | timing (user : User) (secret : String)
  | stepping (user : User) (timeStep : ℤ)
  | recovering (user : User) (k : Nat)
  | storing (user : User) (timeStep : ℤ)
  | erasing (user : User) (k : Nat)
  | returned (r : Except ApiError (Option Accepted))

namespace Stage

def proc (svc : Services) (u : Uuid) (code : String)
    : Stage → Proc Database Write Key Stmt (Except ApiError (Option Accepted))
  | start => .start ((Caller.verifyTotp code : Caller u).prog svc)
  | timing user secret =>
    .start (do
      let now ← AuthCall.now
      let accepted ←
        acceptMatched svc u code user (svc.verifySync code secret now user.totpLastTimeStep)
      return some accepted : AuthCall (Option Accepted)).run
  | stepping user timeStep =>
    .start (do
      let accepted ← acceptMatched svc u code user (some timeStep)
      return some accepted : AuthCall (Option Accepted)).run
  | recovering user k =>
    .start (do
      AuthCall.update .updateUser (.setRecoveryCodes user.id (user.totpRecoveryCodes.eraseIdx k))
      return some (.recovery code) : AuthCall (Option Accepted)).run
  | storing _ timeStep => {
      prog := .commit .updateUser (.ret (.ok (some (.step timeStep))))
      log := [.setLastTimeStep u timeStep]
      locks := [.user u] }
  | erasing user k => {
      prog := .commit .updateUser (.ret (.ok (some (.recovery code))))
      log := [.setRecoveryCodes user.id (user.totpRecoveryCodes.eraseIdx k)]
      locks := [.user user.id] }
  | returned r => .start (.ret r)

def recover (svc : Services) (code : String) (user : User) : Stage :=
  match matchRecoveryCode svc user code with
  | none => returned (.error .totpInvalid)
  | some k => recovering user k

def next (svc : Services) (u : Uuid) (code : String) (db : Database) : Stage → Stage
  | start =>
    match db.user? u with
    | none => returned (.error .recordNotFound)
    | some user =>
      match truthy user.totpSecret with
      | none => returned (.error .totpInvalid)
      | some secret => timing user secret
  | timing user secret =>
    match svc.verifySync code secret db.clock user.totpLastTimeStep with
    | some timeStep => stepping user timeStep
    | none => recover svc code user
  | stepping user timeStep => storing user timeStep
  | recovering user k => erasing user k
  | storing _ timeStep => returned (.ok (some (.step timeStep)))
  | erasing _ _ => returned (.ok (some (.recovery code)))
  | returned r => returned r

/-- What a verification commits at a stage. -/
def commits (u : Uuid) : Stage → List Write
  | storing _ timeStep => [.setLastTimeStep u timeStep]
  | erasing user k => [.setRecoveryCodes user.id (user.totpRecoveryCodes.eraseIdx k)]
  | _ => []

/-- The row of the user that a verification has read. -/
def user? : Stage → Option User
  | start | returned _ => none
  | timing user _ | stepping user _ | recovering user _ | storing user _ | erasing user _ => some user

theorem recover_proc (svc : Services) (u : Uuid) (code : String) (user : User)
    : (recover svc code user).proc svc u code
        =
      .start (do
        let accepted ← acceptMatched svc u code user none
        return some accepted : AuthCall (Option Accepted)).run := by
  unfold recover
  dsimp only [acceptMatched]
  unfold useRecoveryCode
  cases matchRecoveryCode svc user code with
  | none => rfl
  | some k =>
    simp only [bind_assoc, pure_bind]
    rfl

variable {code : String} {c c' : Verifications ι} {i : ι} {stage : Stage}

theorem of_step (hproc : c.procs i = stage.proc svc u code)
    (huser : ∀ user, stage.user? = some user → user.id = u ∧ (c.db.user? u).isSome)
    (hstep : Step (.error .aborted) c i c')
    : c'.procs i = (stage.next svc u code c.db).proc svc u code
          ∧ c'.db = replay (stage.commits u) c.db
          ∧ (stage.commits u ≠ [] → c.history.length < c'.history.length)
        ∨ c'.procs i = .start (.ret (.error .aborted)) ∧ c'.db = c.db := by
  have hexec : ∀ {tag : Stmt} {needs : Database → List Key}
      {writes : Database → Database → List Write} {rest},
      c.procs i = .start (.exec tag needs writes rest) →
        c'.procs i = { prog := rest c.db c.db, log := writes c.db c.db, locks := needs c.db }
            ∧ c'.db = c.db
          ∨ c'.procs i = .start (.ret (.error .aborted)) ∧ c'.db = c.db := by
    intro tag needs writes rest hproc
    have hview : c.view i = c.db := by
      unfold Config.view
      rw [hproc]
      rfl
    cases hstep.of_exec (by rw [hproc]; rfl) with
    | inl hc' =>
      left
      rw [hc', hview, hproc]
      exact ⟨Function.update_self .., rfl⟩
    | inr hc' =>
      right
      rw [hc']
      exact ⟨Function.update_self .., rfl⟩
  have hcommit : ∀ {tag : Stmt} {rest}, (c.procs i).prog = .commit tag rest →
      c'.procs i = .start rest ∧ c'.db = c.view i ∧ c.history.length < c'.history.length
        ∨ c'.procs i = .start (.ret (.error .aborted)) ∧ c'.db = c.db := by
    intro tag rest hprog
    cases hstep.of_commit hprog with
    | inl hc' =>
      left
      rw [hc']
      exact ⟨Function.update_self .., rfl, by simp [Config.commit]⟩
    | inr hc' =>
      right
      rw [hc']
      exact ⟨Function.update_self .., rfl⟩
  cases stage with
  | start =>
    cases hexec hproc with
    | inl h =>
      left
      refine ⟨?_, h.2, absurd rfl⟩
      rw [h.1]
      unfold next
      dsimp only
      cases c.db.user? u with
      | none => rfl
      | some user =>
        change Proc.start (ExceptT.run (do
          let accepted ← acceptRead svc u code user
          return some accepted)) = _
        dsimp only
        unfold acceptRead
        cases truthy user.totpSecret with
        | none => rfl
        | some secret => rfl
    | inr h => exact .inr h
  | timing user secret =>
    cases hexec hproc with
    | inl h =>
      left
      refine ⟨?_, h.2, absurd rfl⟩
      rw [h.1]
      unfold next
      change Proc.start (ExceptT.run (do
        let accepted ← acceptMatched svc u code user
          (svc.verifySync code secret c.db.clock user.totpLastTimeStep)
        return some accepted)) = _
      dsimp only
      cases svc.verifySync code secret c.db.clock user.totpLastTimeStep with
      | none =>
        dsimp only
        rw [recover_proc]
      | some timeStep => rfl
    | inr h => exact .inr h
  | stepping user timeStep =>
    obtain ⟨_, hfound⟩ := huser user rfl
    have hviolation : (Write.setLastTimeStep u timeStep).violation c.db = none := by
      obtain ⟨current, hcurrent⟩ := Option.isSome_iff_exists.mp hfound
      simp [Write.violation, Write.userId?, hcurrent]
    cases hexec hproc with
    | inl h =>
      left
      refine ⟨?_, h.2, absurd rfl⟩
      rw [h.1]
      dsimp only
      rw [hviolation]
      rfl
    | inr h => exact .inr h
  | recovering user k =>
    obtain ⟨hid, hfound⟩ := huser user rfl
    have hviolation : (Write.setRecoveryCodes user.id
        (user.totpRecoveryCodes.eraseIdx k)).violation c.db = none := by
      obtain ⟨current, hcurrent⟩ := Option.isSome_iff_exists.mp hfound
      simp [Write.violation, Write.userId?, hid, hcurrent]
    cases hexec hproc with
    | inl h =>
      left
      refine ⟨?_, h.2, absurd rfl⟩
      rw [h.1]
      dsimp only
      rw [hviolation]
      rfl
    | inr h => exact .inr h
  | storing user timeStep =>
    cases hcommit (by rw [hproc]; rfl) with
    | inl h =>
      left
      refine ⟨h.1, ?_, fun _ => h.2.2⟩
      rw [h.2.1]
      unfold Config.view
      rw [hproc]
      rfl
    | inr h => exact .inr h
  | erasing user k =>
    cases hcommit (by rw [hproc]; rfl) with
    | inl h =>
      left
      refine ⟨h.1, ?_, fun _ => h.2.2⟩
      rw [h.2.1]
      unfold Config.view
      rw [hproc]
      rfl
    | inr h => exact .inr h
  | returned r =>
    exfalso
    apply hstep.of_ret
    rw [hproc]
    rfl

def accepts (code : String) : Stage → Option Accepted
  | storing _ timeStep => some (.step timeStep)
  | erasing _ _ => some (.recovery code)
  | _ => none

theorem accepts_eq_none (h : stage.commits u = []) : stage.accepts code = none := by
  cases stage with
  | storing | erasing => cases h
  | _ => rfl

theorem acceptance_next (hstage : ∀ r, stage ≠ returned r) (db : Database)
    : acceptance ((stage.next svc u code db).proc svc u code) = stage.accepts code := by
  cases stage with
  | start =>
    dsimp only [next]
    split
    . rfl
    . split <;> rfl
  | timing user secret =>
    dsimp only [next, recover]
    split
    . rfl
    . split <;> rfl
  | stepping | recovering | storing | erasing => rfl
  | returned r => exact absurd rfl (hstage r)

def Right (svc : Services) (code : String) : Stage → Prop
  | stepping user timeStep | storing user timeStep =>
    ∀ last, user.totpLastTimeStep = some last → last < timeStep
  | recovering user k | erasing user k => matchRecoveryCode svc user code = some k
  | _ => True

theorem Right.next (hafter : ∀ code secret now after timeStep,
      svc.verifySync code secret now (some after) = some timeStep → after < timeStep)
    (h : stage.Right svc code) (db : Database) : (stage.next svc u code db).Right svc code := by
  cases stage with
  | start =>
    dsimp only [Stage.next]
    split
    . trivial
    . split <;> trivial
  | timing user secret =>
    dsimp only [Stage.next]
    split
    . next timeStep hverify =>
      intro last hlast
      rw [hlast] at hverify
      exact hafter _ _ _ _ _ hverify
    . unfold recover
      split
      . trivial
      . next k hmatch => exact hmatch
  | stepping | recovering => exact h
  | storing | erasing | returned => trivial

theorem user?_next_of_commits (h : stage.commits u ≠ []) (db : Database)
    : (stage.next svc u code db).user? = none := by
  cases stage with
  | storing | erasing => rfl
  | _ => exact absurd rfl h

theorem user?_next {db : Database} {user : User}
    (h : (stage.next svc u code db).user? = some user)
    : stage.user? = some user ∨ stage = start ∧ db.user? u = some user := by
  cases stage with
  | start =>
    right
    dsimp only [next] at h
    split at h
    . cases h
    . next found hfound =>
      split at h
      . cases h
      . cases h
        exact ⟨rfl, hfound⟩
  | timing found secret =>
    left
    dsimp only [next, recover] at h
    split at h
    . exact h
    . split at h
      . cases h
      . exact h
  | stepping | recovering => exact .inl h
  | storing | erasing | returned => cases h

end Stage

end SentryPos.Auth
