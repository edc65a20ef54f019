import Mathlib.Data.List.Sublists
import SentryPos.Auth.SecondFactor
import SentryPos.Auth.Verifications

/-!
This module contains the codes that the verifications of a user accept over a run: a recovery code or
a time step is accepted once, as long as no verification commits between the read of another one and
its commit.
-/

namespace SentryPos.Auth

open ReadCommitted

variable {ι : Type} [DecidableEq ι]

/-- No code matches two of the recovery codes. -/
def Distinct (svc : Services) (codes : List String) : Prop :=
  ∀ code, codes.countP (svc.verifySecret · code) ≤ 1

/--
What the accepted codes promise in a state of the system.

- `steps`: the time steps are strictly increasing.
- `recoveries`: no recovery code is accepted twice.
- `gone`: a recovery code that was accepted does not match any longer.
-/
structure OneTime (svc : Services) (u : Uuid) (codes : List Accepted) (db : Database) : Prop where
  steps : (codes.filterMap Accepted.step?).Pairwise (· < ·)
  recoveries : (codes.filterMap Accepted.recovery?).Nodup
  gone : ∀ code ∈ codes.filterMap Accepted.recovery?, ∀ user, db.user? u = some user →
    matchRecoveryCode svc user code = none

/-- What a step of a verification shows. -/
structure Seen (ι : Type) where
  client : ι
  reads : Bool
  commits : Bool
  accepts : Option Accepted

/--
What a step shows of the verification that takes it: whether it is the read of the user, whether it
commits, and what the call returns that it has accepted.
-/
def seen {u : Uuid} (callers : ι → Caller u) (c : Verifications ι) (i : ι) (c' : Verifications ι)
    : Option (Seen ι) :=
  match callers i with
  | .verifyTotp _ => some {
      client := i
      reads := (c.procs i).prog.tag? = some .findUser
      commits := c.history.length < c'.history.length
      accepts := acceptance (c'.procs i) }
  | .other _ _ => none

/-- The codes that the calls have returned to accept, in their order. -/
def acceptedCodes (trace : List (Seen ι)) : List Accepted :=
  trace.filterMap (·.accepts)

/-- No verification commits between the read of another one and its commit. -/
def Undisturbed (trace : List (Seen ι)) : Prop :=
  ∀ read other commit, [read, other, commit].Sublist trace → read.client = commit.client →
    read.reads → other.commits → commit.commits → other.client = read.client

def Disturbed (trace : List (Seen ι)) (i : ι) : Prop :=
  ∃ read other, [read, other].Sublist trace ∧ read.client = i ∧ read.reads ∧ other.commits
    ∧ other.client ≠ i

section Trace

variable {trace trace' : List (Seen ι)} {i : ι}

omit [DecidableEq ι] in
theorem acceptedCodes_append (trace : List (Seen ι)) (s : Seen ι)
    : acceptedCodes (trace ++ [s]) = acceptedCodes trace ++ s.accepts.toList := by
  unfold acceptedCodes
  rw [List.filterMap_append]
  cases haccepts : s.accepts with
  | none => simp [haccepts]
  | some accepted => simp [haccepts]

omit [DecidableEq ι] in
theorem Undisturbed.sublist (h : Undisturbed trace') (hsub : trace.Sublist trace')
    : Undisturbed trace :=
  fun read other commit hsteps => h read other commit (hsteps.trans hsub)

omit [DecidableEq ι] in
theorem Disturbed.mono (h : Disturbed trace i) (hsub : trace.Sublist trace') : Disturbed trace' i := by
  obtain ⟨read, other, hsteps, h⟩ := h
  exact ⟨read, other, hsteps.trans hsub, h⟩

omit [DecidableEq ι] in
theorem Undisturbed.not_disturbed {s : Seen ι} (h : Undisturbed (trace ++ [s]))
    (hclient : s.client = i) (hcommits : s.commits) : ¬ Disturbed trace i := by
  intro hdisturbed
  obtain ⟨read, other, hsteps, hread, hreads, hother, hne⟩ := hdisturbed
  have hthree : [read, other, s].Sublist (trace ++ [s]) := hsteps.append (.refl [s])
  have hsame := h read other s hthree (hread.trans hclient.symm) hreads hother hcommits
  exact hne (hsame.trans hread)

end Trace

section Codes

variable {svc : Services} {u : Uuid} {db db' : Database} {codes : List Accepted}

theorem Distinct.eraseIdx {hashes : List String} {code : String} (h : Distinct svc hashes) {k : Nat}
    (hk : k < hashes.length) (hmatch : svc.verifySecret hashes[k] code)
    : (hashes.eraseIdx k).countP (svc.verifySecret · code) = 0 := by
  have hperm := (List.getElem_cons_eraseIdx_perm hk).countP_eq (svc.verifySecret · code)
  rw [List.countP_cons_of_pos (p := (svc.verifySecret · code)) hmatch] at hperm
  have hle := h code
  omega

theorem matchRecoveryCode_eq_none {user : User} {code : String}
    : matchRecoveryCode svc user code = none
        ↔ user.totpRecoveryCodes.countP (svc.verifySecret · code) = 0 := by
  unfold matchRecoveryCode
  rw [List.findIdx?_eq_none_iff, List.countP_eq_zero]
  simp

theorem checked_eq_some {user : User} (h : db.user? u = some user)
    : db.checked u = some (user.totpLastTimeStep, user.totpRecoveryCodes) := by
  unfold Database.checked
  rw [h]
  rfl

/--
What is known of the codes that have been accepted.

- `last`: an accepted time step is not after the one that is stored.
- `spent`: an accepted recovery code matches none that is left.
- `distinct`: no code matches two of those that are left.
-/
structure Spent (svc : Services) (u : Uuid) (codes : List Accepted) (db : Database) : Prop where
  steps : (codes.filterMap Accepted.step?).Pairwise (· < ·)
  last : ∀ timeStep ∈ codes.filterMap Accepted.step?, ∀ k, db.checked u = some k →
    ∃ last, k.1 = some last ∧ timeStep ≤ last
  recoveries : (codes.filterMap Accepted.recovery?).Nodup
  spent : ∀ code ∈ codes.filterMap Accepted.recovery?, ∀ k, db.checked u = some k →
    k.2.countP (svc.verifySecret · code) = 0
  distinct : ∀ k, db.checked u = some k → Distinct svc k.2

namespace Spent

theorem oneTime (h : Spent svc u codes db) : OneTime svc u codes db where
  steps := h.steps
  recoveries := h.recoveries
  gone code hcode _ huser :=
    matchRecoveryCode_eq_none.mpr (h.spent code hcode _ (checked_eq_some huser))

theorem same (h : Spent svc u codes db) (hsame : db'.checked u = db.checked u)
    : Spent svc u codes db' := by
  constructor
  . exact h.steps
  . rw [hsame]
    exact h.last
  . exact h.recoveries
  . rw [hsame]
    exact h.spent
  . rw [hsame]
    exact h.distinct

theorem step {user : User} {timeStep : ℤ} (h : Spent svc u codes db)
    (hchecked : db.checked u = some (user.totpLastTimeStep, user.totpRecoveryCodes))
    (hlater : ∀ last, user.totpLastTimeStep = some last → last < timeStep)
    : Spent svc u (codes ++ [.step timeStep]) ((Write.setLastTimeStep u timeStep).apply db) := by
  have hbefore : ∀ t ∈ codes.filterMap Accepted.step?, t < timeStep := by
    intro t ht
    obtain ⟨last, hlast, hle⟩ := h.last t ht _ hchecked
    have hlt := hlater last hlast
    omega
  have hsteps : (codes ++ [Accepted.step timeStep]).filterMap Accepted.step?
      = codes.filterMap Accepted.step? ++ [timeStep] := by
    rw [List.filterMap_append]
    rfl
  have hrecoveries : (codes ++ [Accepted.step timeStep]).filterMap Accepted.recovery?
      = codes.filterMap Accepted.recovery? := by
    rw [List.filterMap_append]
    exact List.append_nil _
  have hafter : ∀ k, ((Write.setLastTimeStep u timeStep).apply db).checked u = some k →
      k = (some timeStep, user.totpRecoveryCodes) := by
    intro k hk
    rw [checked_setLastTimeStep, hchecked] at hk
    exact (Option.some.inj hk).symm
  constructor
  . rw [hsteps, List.pairwise_append]
    refine ⟨h.steps, List.pairwise_singleton _ _, ?_⟩
    intro t ht t' ht'
    rw [List.mem_singleton.mp ht']
    exact hbefore t ht
  . rw [hsteps]
    intro t ht k hk
    refine ⟨timeStep, by rw [hafter k hk], ?_⟩
    cases List.mem_append.mp ht with
    | inl ht => exact (hbefore t ht).le
    | inr ht => exact (List.mem_singleton.mp ht).le
  . rw [hrecoveries]
    exact h.recoveries
  . rw [hrecoveries]
    intro code hcode k hk
    have hspent := h.spent code hcode _ hchecked
    rw [hafter k hk]
    exact hspent
  . intro k hk
    have hdistinct := h.distinct _ hchecked
    rw [hafter k hk]
    exact hdistinct

theorem recovery {user : User} {code : String} {k : Nat} (h : Spent svc u codes db)
    (hchecked : db.checked u = some (user.totpLastTimeStep, user.totpRecoveryCodes))
    (hmatch : matchRecoveryCode svc user code = some k)
    : Spent svc u (codes ++ [.recovery code])
        ((Write.setRecoveryCodes u (user.totpRecoveryCodes.eraseIdx k)).apply db) := by
  have hfound := hmatch
  unfold matchRecoveryCode at hfound
  rw [List.findIdx?_eq_some_iff_getElem] at hfound
  obtain ⟨hk, hverify, _⟩ := hfound
  have hsteps : (codes ++ [Accepted.recovery code]).filterMap Accepted.step?
      = codes.filterMap Accepted.step? := by
    rw [List.filterMap_append]
    exact List.append_nil _
  have hrecoveries : (codes ++ [Accepted.recovery code]).filterMap Accepted.recovery?
      = codes.filterMap Accepted.recovery? ++ [code] := by
    rw [List.filterMap_append]
    rfl
  have hafter : ∀ f, ((Write.setRecoveryCodes u (user.totpRecoveryCodes.eraseIdx k)).apply db).checked u
      = some f → f = (user.totpLastTimeStep, user.totpRecoveryCodes.eraseIdx k) := by
    intro f hf
    rw [checked_setRecoveryCodes, hchecked] at hf
    exact (Option.some.inj hf).symm
  have hleft : (user.totpRecoveryCodes.eraseIdx k).Sublist user.totpRecoveryCodes :=
    List.eraseIdx_sublist _ _
  constructor
  . rw [hsteps]
    exact h.steps
  . rw [hsteps]
    intro t ht f hf
    have hlast := h.last t ht _ hchecked
    rw [hafter f hf]
    exact hlast
  . rw [hrecoveries, List.nodup_append]
    refine ⟨h.recoveries, List.nodup_singleton _, ?_⟩
    intro code' hcode' code'' hcode'' heq
    rw [heq, List.mem_singleton.mp hcode''] at hcode'
    have hnone := matchRecoveryCode_eq_none.mpr (h.spent code hcode' _ hchecked)
    rw [hnone] at hmatch
    cases hmatch
  . rw [hrecoveries]
    intro code' hcode' f hf
    rw [hafter f hf]
    cases List.mem_append.mp hcode' with
    | inl hcode' =>
      have hzero := h.spent code' hcode' _ hchecked
      have hle := hleft.countP_le (p := (svc.verifySecret · code'))
      dsimp only at hzero ⊢
      omega
    | inr hcode' =>
      rw [List.mem_singleton.mp hcode']
      exact (h.distinct _ hchecked).eraseIdx hk hverify
  . intro f hf code'
    rw [hafter f hf]
    exact (hleft.countP_le).trans (h.distinct _ hchecked code')

end Spent

end Codes

section Runs

variable {svc : Services} {u : Uuid} {callers : ι → Caller u} {db db' : Database}
  {trace trace' : List (Seen ι)} {c c' : Verifications ι} {i : ι} {code : String} {user : User}

/--
What is known of the row that a verification has read: it says what the user's row says now, unless
another verification has committed since.
-/
structure ReadBy (u : Uuid) (trace : List (Seen ι)) (i : ι) (db : Database) (user : User) : Prop where
  id : user.id = u
  found : (db.checked u).isSome
  read : ∃ read ∈ trace, read.client = i ∧ read.reads
  current : db.checked u = some (user.totpLastTimeStep, user.totpRecoveryCodes) ∨ Disturbed trace i

/-- What holds of the callers and of the accepted codes in a run. -/
structure Kept (svc : Services) (callers : ι → Caller u) (trace : List (Seen ι))
    (c : Verifications ι) : Prop where
  spent : Spent svc u (acceptedCodes trace) c.db
  others : ∀ i call spares, callers i = .other call spares →
    (c.procs i).OnlyWrites (Write.SparesChecked u)
  stages : ∀ i code, callers i = .verifyTotp code → ∃ stage : Stage,
    c.procs i = stage.proc svc u code ∧ stage.Right svc code
      ∧ ∀ user, stage.user? = some user → ReadBy u trace i c.db user

omit [DecidableEq ι] in
theorem ReadBy.mono (h : ReadBy u trace i db user) (hsub : trace.Sublist trace')
    (hsame : db'.checked u = db.checked u) : ReadBy u trace' i db' user where
  id := h.id
  found := by
    rw [hsame]
    exact h.found
  read := by
    obtain ⟨read, hmem, hread⟩ := h.read
    exact ⟨read, hsub.subset hmem, hread⟩
  current := by
    rw [hsame]
    exact h.current.imp_right fun hdisturbed => hdisturbed.mono hsub

omit [DecidableEq ι] in
theorem ReadBy.disturb {s : Seen ι} (h : ReadBy u trace i db user) (hcommits : s.commits)
    (hne : s.client ≠ i) (hfound : (db'.checked u).isSome) : ReadBy u (trace ++ [s]) i db' user where
  id := h.id
  found := hfound
  read := by
    obtain ⟨read, hmem, hread⟩ := h.read
    exact ⟨read, List.mem_append_left _ hmem, hread⟩
  current := by
    obtain ⟨read, hmem, hread, hreads⟩ := h.read
    right
    have hsteps : [read, s].Sublist (trace ++ [s]) :=
      (List.singleton_sublist.mpr hmem).append (.refl [s])
    exact ⟨read, s, hsteps, hread, hreads, hcommits, hne⟩

theorem Kept.other {call : AuthCall Response} {spares : Call.OnlyWrites (Write.SparesChecked u) call}
    (h : Kept svc callers trace c) (hclient : callers i = .other call spares)
    (hstep : Step (.error .aborted) c i c') : Kept svc callers trace c' := by
  obtain ⟨hwrites, hdb⟩ := (h.others i call spares hclient).step hstep
  have hsame : c'.db.checked u = c.db.checked u := by
    cases hdb with
    | inl hdb => rw [hdb]
    | inr hdb =>
      obtain ⟨log, hlog, hdb⟩ := hdb
      rw [hdb]
      apply replay_induction (P := fun db' : Database => db'.checked u = c.db.checked u) rfl
      intro w hw db' hdb'
      rw [store_apply, hlog w hw, hdb']
  constructor
  . exact h.spent.same hsame
  . intro j call' spares' hother
    by_cases hj : j = i
    . rw [hj]
      exact hwrites
    . rw [hstep.procs_ne hj]
      exact h.others j call' spares' hother
  . intro j code hcode
    have hj : j ≠ i := by
      intro hj
      rw [hj, hclient] at hcode
      cases hcode
    rw [hstep.procs_ne hj]
    obtain ⟨stage, hproc, hright, hread⟩ := h.stages j code hcode
    exact ⟨stage, hproc, hright, fun user huser => (hread user huser).mono (.refl trace) hsame⟩

structure Advanced (svc : Services) (u : Uuid) (code : String) (trace : List (Seen ι)) (s : Seen ι)
    (i : ι) (db : Database) (c' : Verifications ι) : Prop where
  spent : Spent svc u (acceptedCodes (trace ++ [s])) c'.db
  found : (db.checked u).isSome → (c'.db.checked u).isSome
  same : c'.db.checked u = db.checked u ∨ s.commits
  stage : ∃ stage : Stage, c'.procs i = stage.proc svc u code ∧ stage.Right svc code
    ∧ ∀ user, stage.user? = some user → ReadBy u (trace ++ [s]) i c'.db user

theorem Kept.advance {s : Seen ι} (h : Kept svc callers trace c) (hclient : callers i = .verifyTotp code)
    (hs : s.client = i) (hstep : Step (.error .aborted) c i c')
    (hadvanced : Advanced svc u code trace s i c.db c') : Kept svc callers (trace ++ [s]) c' := by
  constructor
  . exact hadvanced.spent
  . intro j call spares hother
    have hj : j ≠ i := by
      intro hj
      rw [hj, hclient] at hother
      cases hother
    rw [hstep.procs_ne hj]
    exact h.others j call spares hother
  . intro j code' hcode
    by_cases hj : j = i
    . rw [hj, hclient] at hcode
      cases hcode
      rw [hj]
      exact hadvanced.stage
    . rw [hstep.procs_ne hj]
      obtain ⟨stage, hproc, hright, hread⟩ := h.stages j code' hcode
      refine ⟨stage, hproc, hright, ?_⟩
      intro user huser
      cases hadvanced.same with
      | inl hsame => exact (hread user huser).mono (List.sublist_append_left _ _) hsame
      | inr hcommits =>
        apply (hread user huser).disturb hcommits
        . rw [hs]
          exact Ne.symm hj
        . exact hadvanced.found (hread user huser).found

omit [DecidableEq ι] in
theorem seen_verifyTotp {s : Seen ι} (hclient : callers i = .verifyTotp code)
    (hs : seen callers c i c' = some s)
    : s.client = i ∧ (s.reads ↔ (c.procs i).prog.tag? = some .findUser)
        ∧ (s.commits ↔ c.history.length < c'.history.length)
        ∧ s.accepts = acceptance (c'.procs i) := by
  unfold seen at hs
  rw [hclient] at hs
  cases hs
  simp

omit [DecidableEq ι] in
theorem Kept.quiet {s : Seen ι} {stage : Stage} (h : Kept svc callers trace c)
    (haccepts : s.accepts = none) (hsame : c'.db.checked u = c.db.checked u)
    (hproc : c'.procs i = stage.proc svc u code) (hright : stage.Right svc code)
    (hread : ∀ user, stage.user? = some user → ReadBy u (trace ++ [s]) i c'.db user)
    : Advanced svc u code trace s i c.db c' where
  spent := by
    rw [acceptedCodes_append, haccepts, Option.toList_none, List.append_nil]
    exact h.spent.same hsame
  found := by
    rw [hsame]
    exact id
  same := .inl hsame
  stage := ⟨stage, hproc, hright, hread⟩

theorem Spent.commit {codes : List Accepted} {stage : Stage} (h : Spent svc u codes db)
    (hcommits : stage.commits u ≠ []) (hright : stage.Right svc code)
    (huser : ∀ user, stage.user? = some user →
      user.id = u ∧ db.checked u = some (user.totpLastTimeStep, user.totpRecoveryCodes))
    : Spent svc u (codes ++ (stage.accepts code).toList) (replay (stage.commits u) db) := by
  cases stage with
  | storing user timeStep =>
    obtain ⟨_, hchecked⟩ := huser user rfl
    exact h.step hchecked hright
  | erasing user k =>
    obtain ⟨hid, hchecked⟩ := huser user rfl
    dsimp only [Stage.commits]
    rw [hid]
    exact h.recovery hchecked hright
  | _ => exact absurd rfl hcommits

theorem Kept.verification {s : Seen ι} (h : Kept svc callers trace c)
    (hafter : ∀ code secret now after timeStep,
      svc.verifySync code secret now (some after) = some timeStep → after < timeStep)
    (hclient : callers i = .verifyTotp code) (hstep : Step (.error .aborted) c i c')
    (hs : seen callers c i c' = some s) (hundisturbed : Undisturbed (trace ++ [s]))
    : Kept svc callers (trace ++ [s]) c' := by
  obtain ⟨stage, hproc, hright, hread⟩ := h.stages i code hclient
  have hreturned : ∀ r, stage ≠ .returned r := by
    intro r hstage
    apply hstep.of_ret
    rw [hproc, hstage]
    rfl
  have huser : ∀ user, stage.user? = some user → user.id = u ∧ (c.db.user? u).isSome := by
    intro user huser
    have hfound := (hread user huser).found
    unfold Database.checked at hfound
    rw [Option.isSome_map] at hfound
    exact ⟨(hread user huser).id, hfound⟩
  obtain ⟨hself, hreads, hgrows, haccepts⟩ := seen_verifyTotp hclient hs
  apply h.advance hclient hself hstep
  have hmore : trace.Sublist (trace ++ [s]) := List.sublist_append_left trace _
  cases Stage.of_step hproc huser hstep with
  | inr haborted =>
    obtain ⟨hproc', hdb⟩ := haborted
    have hsame : c'.db.checked u = c.db.checked u := by rw [hdb]
    have hreturned' : c'.procs i = (Stage.returned (.error .aborted)).proc svc u code := hproc'
    apply h.quiet _ hsame hreturned' trivial
    . intro user huser
      cases huser
    . rw [haccepts, hproc']
      rfl
  | inl hnext =>
    obtain ⟨hproc', hdb, hgrown⟩ := hnext
    rw [hproc', Stage.acceptance_next hreturned] at haccepts
    by_cases hcommits : stage.commits u = []
    . have hsame : c'.db.checked u = c.db.checked u := by rw [hdb, hcommits, replay_nil]
      apply h.quiet _ hsame hproc' (hright.next hafter c.db)
      . intro user huser'
        cases Stage.user?_next huser' with
        | inl huser' => exact (hread user huser').mono hmore hsame
        | inr hstart =>
          obtain ⟨hstage, hfound⟩ := hstart
          have hchecked := checked_eq_some hfound
          rw [← hsame] at hchecked
          have hread : s.reads := by
            rw [hreads, hproc, hstage]
            rfl
          constructor
          . exact Table.key_of_get hfound
          . rw [hchecked]
            rfl
          . exact ⟨s, by simp, hself, hread⟩
          . exact .inl hchecked
      . rw [haccepts]
        exact Stage.accepts_eq_none hcommits
    . have hcommitted : s.commits := hgrows.mpr (hgrown hcommits)
      have hspent : Spent svc u (acceptedCodes trace ++ (stage.accepts code).toList)
          (replay (stage.commits u) c.db) := by
        apply h.spent.commit hcommits hright
        intro user huser
        have hknown := hread user huser
        exact ⟨hknown.id,
          hknown.current.resolve_right (hundisturbed.not_disturbed hself hcommitted)⟩
      constructor
      . rw [acceptedCodes_append, haccepts, hdb]
        exact hspent
      . rw [hdb, checked_isSome]
        exact id
      . exact .inr hcommitted
      . refine ⟨_, hproc', hright.next hafter c.db, ?_⟩
        intro user huser
        rw [Stage.user?_next_of_commits hcommits] at huser
        cases huser

theorem run_kept (hafter : ∀ code secret now after timeStep,
      svc.verifySync code secret now (some after) = some timeStep → after < timeStep)
    (hdistinct : ∀ user, db.user? u = some user → Distinct svc user.totpRecoveryCodes)
    (hrun : Traced (.error .aborted) (fun _ _ _ => True) (seen callers)
      (Verifications.start svc db callers) trace c)
    (hundisturbed : Undisturbed trace) : Kept svc callers trace c := by
  -- The start of an undisturbed trace is undisturbed, too.
  induction hrun with
  | refl =>
    constructor
    . refine ⟨.nil, by simp [acceptedCodes], .nil, by simp [acceptedCodes], ?_⟩
      intro k hk
      unfold Database.checked at hk
      obtain ⟨user, huser, hk⟩ := Option.map_eq_some_iff.mp hk
      rw [← hk]
      exact hdistinct user huser
    . intro i call spares hother
      apply Proc.OnlyWrites.start
      change Prog.OnlyWrites _ ((callers i).prog svc)
      rw [hother]
      exact Call.OnlyWrites.bind spares fun _ => .pure _
    . intro i code hcode
      refine ⟨.start, ?_, trivial, by simp [Stage.user?]⟩
      unfold Verifications.start Config.init
      dsimp only
      rw [hcode]
      rfl
  | @step c1 c2 trace i hrun hallowed hstep ih =>
    have hkept := ih (hundisturbed.sublist (List.sublist_append_left _ _))
    cases hclient : callers i with
    | other call spares =>
      have hnone : seen callers c1 i c2 = none := by
        unfold seen
        rw [hclient]
      rw [hnone, Option.toList_none, List.append_nil]
      exact hkept.other hclient hstep
    | verifyTotp code =>
      cases hs : seen callers c1 i c2 with
      | none =>
        unfold seen at hs
        rw [hclient] at hs
        cases hs
      | some s =>
        rw [hs] at hundisturbed
        exact hkept.verification hafter hclient hstep hs hundisturbed

/--
Each recovery code and each time step is accepted once, the time steps in their order, in every run
in which no verification commits between the read of another one and its commit.
-/
theorem accepted_once (hafter : ∀ code secret now after timeStep,
      svc.verifySync code secret now (some after) = some timeStep → after < timeStep)
    (hdistinct : ∀ user, db.user? u = some user → Distinct svc user.totpRecoveryCodes)
    (hrun : Traced (.error .aborted) (fun _ _ _ => True) (seen callers)
      (Verifications.start svc db callers) trace c)
    (hundisturbed : Undisturbed trace) : OneTime svc u (acceptedCodes trace) c.db :=
  (run_kept hafter hdistinct hrun hundisturbed).spent.oneTime

end Runs

/-- The check that no verification commits between the read of another one and its commit. -/
def undisturbed (trace : List (Seen ι)) : Bool :=
  (trace.sublistsLen 3).all fun steps =>
    match steps with
    | [read, other, commit] =>
      !(read.client = commit.client && read.reads && other.commits && commit.commits)
        || other.client = read.client
    | _ => true

theorem undisturbed_sound {trace : List (Seen ι)} (h : undisturbed trace) : Undisturbed trace := by
  intro read other commit hsteps hclient hread hother hcommit
  unfold undisturbed at h
  rw [List.all_eq_true] at h
  have hthree := h [read, other, commit] (List.mem_sublistsLen.mpr ⟨hsteps, rfl⟩)
  simpa [hclient, hread, hother, hcommit] using hthree

namespace Office

def codeStep : String → Option ℤ
  | "111111" => some 1
  | "222222" => some 2
  | _ => none

/-- A code is right for the time step before it, its own and the one after. -/
def totp : Services :=
  { services with
    verifySync := fun code _ now after =>
      (codeStep code).filter fun timeStep =>
        |timeStep - now / 30000| ≤ 1 && after.all (· < timeStep) }

def twice : Fin 2 → Caller 1 :=
  fun _ => .verifyTotp "second"

/-- A TOTP code, a recovery code, each of them again, and half a minute later the next TOTP code. -/
def again : Fin 6 → Caller 1
  | 0 => .verifyTotp "111111"
  | 1 => .verifyTotp "111111"
  | 2 => .verifyTotp "second"
  | 3 => .verifyTotp "second"
  | 4 => .ofRequest totp (.tick 30000) rfl
  | 5 => .verifyTotp "222222"

/-- The call has returned that the code is invalid. -/
def rejected (p : Proc Database Write Key Stmt (Except ApiError (Option Accepted))) : Bool :=
  p.prog.result?.any fun r =>
    match r with
    | .error e => e = .totpInvalid
    | .ok _ => false

theorem twice_accepted
    : ((Verifications.start totp enrolled twice).traceWhere (fun _ _ => true) (seen twice)
          (inRounds 1 [[2, 4], [2]])).map (fun t => acceptedCodes t.1)
        =
      some [.recovery "second", .recovery "second"] := by
  decide +kernel

theorem again_accepted
    : ((Verifications.start totp enrolled again).traceWhere (fun _ _ => true) (seen again)
          (inRounds 5 [[4, 2, 4, 1, 2, 2], [0, 0, 0, 1, 0, 2]])).map
        (fun t =>
          (undisturbed t.1, acceptedCodes t.1, rejected (t.2.procs 1), rejected (t.2.procs 3)))
        =
      some (true, [.step 1, .recovery "second", .step 2], true, true) := by
  decide +kernel

theorem enrolled_distinct (user : User) (huser : enrolled.user? 1 = some user)
    : Distinct totp user.totpRecoveryCodes := by
  cases huser
  intro code
  simp only [List.countP_cons, List.countP_nil, totp, services, decide_eq_true_eq]
  split
  . next hsecond =>
    rw [← hsecond]
    decide
  . split <;> omega

theorem totp_after (code secret : String) (now : DateTime) (after timeStep : ℤ)
    (h : totp.verifySync code secret now (some after) = some timeStep) : after < timeStep := by
  dsimp only [totp] at h
  rw [Option.filter_eq_some_iff, Bool.and_eq_true] at h
  simpa using h.2.2

end Office

/-- Two verifications that overlap both accept one recovery code. -/
theorem accepted_twice
    : ¬ ∀ (svc : Services) (u : Uuid) (db : Database) (callers : Fin 2 → Caller u)
        (trace : List (Seen (Fin 2))) (c : Verifications (Fin 2)), db.Valid →
          (∀ i, ∃ code, callers i = .verifyTotp code) →
            (∀ code secret now after timeStep,
              svc.verifySync code secret now (some after) = some timeStep → after < timeStep) →
              (∀ user, db.user? u = some user → Distinct svc user.totpRecoveryCodes) →
                Traced (.error .aborted) (fun _ _ _ => True) (seen callers)
                  (Verifications.start svc db callers) trace c →
                  OneTime svc u (acceptedCodes trace) c.db := by
  intro hall
  have htwice := Office.twice_accepted
  rw [Option.map_eq_some_iff] at htwice
  obtain ⟨⟨trace, c⟩, htrace, hcodes⟩ := htwice
  dsimp only at hcodes
  have hrun : Traced (.error .aborted) (fun _ _ _ => True) (seen Office.twice)
      (Verifications.start Office.totp Office.enrolled Office.twice) trace c :=
    Config.traced_of_traceWhere _ (fun _ _ _ _ _ => trivial) _ htrace
  have honce := hall _ 1 _ _ trace c Office.enrolled_valid (fun _ => ⟨_, rfl⟩) Office.totp_after
    Office.enrolled_distinct hrun
  have hnodup := honce.recoveries
  rw [hcodes] at hnodup
  exact absurd hnodup (by decide)

theorem accepted_once_again
    : ∃ trace c, Traced (.error .aborted) (fun _ _ _ => True) (seen Office.again)
          (Verifications.start Office.totp Office.enrolled Office.again) trace c
        ∧ acceptedCodes trace = [.step 1, .recovery "second", .step 2]
        ∧ Office.rejected (c.procs 1) ∧ Office.rejected (c.procs 3)
        ∧ OneTime Office.totp 1 (acceptedCodes trace) c.db := by
  have hagain := Office.again_accepted
  rw [Option.map_eq_some_iff] at hagain
  obtain ⟨⟨trace, c⟩, htrace, heq⟩ := hagain
  simp only [Prod.mk.injEq] at heq
  obtain ⟨hundisturbed, hcodes, hfirst, hsecond⟩ := heq
  have hrun : Traced (.error .aborted) (fun _ _ _ => True) (seen Office.again)
      (Verifications.start Office.totp Office.enrolled Office.again) trace c :=
    Config.traced_of_traceWhere _ (fun _ _ _ _ _ => trivial) _ htrace
  exact ⟨trace, c, hrun, hcodes, hfirst, hsecond, accepted_once Office.totp_after
    Office.enrolled_distinct hrun (undisturbed_sound hundisturbed)⟩

end SentryPos.Auth
