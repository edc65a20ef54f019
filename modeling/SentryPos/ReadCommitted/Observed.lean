import SentryPos.ReadCommitted.Call

/-!
This module contains runs with observations of their steps, and what a step of a client can be when
it is known where its program stands.
-/

namespace ReadCommitted

variable {DB W K T E R S O ι : Type}

namespace Prog

theorem bind_assoc {S' : Type} (p : Prog DB W K T R) (k : R → Prog DB W K T S)
    (k' : S → Prog DB W K T S') : p >>= k >>= k' = p >>= fun r => k r >>= k' := by
  induction p with
  | ret r => rfl
  | exec tag needs writes next ih =>
    simp only [bind_exec]
    congr 1
    funext db view
    exact ih db view
  | commit tag next ih => simp only [bind_commit, ih]
  | rollback tag next ih => simp only [bind_rollback, ih]

theorem bind_pure (p : Prog DB W K T R) : (p >>= .ret) = p := by
  induction p with
  | ret r => rfl
  | exec tag needs writes next ih =>
    simp only [bind_exec]
    congr 1
    funext db view
    exact ih db view
  | commit tag next ih => simp only [bind_commit, ih]
  | rollback tag next ih => simp only [bind_rollback, ih]

instance : LawfulMonad (Prog DB W K T) :=
  LawfulMonad.mk' _ bind_pure (fun _ _ => rfl) bind_assoc

end Prog

namespace Call

theorem throw_bind (e : E) (k : R → Call E DB W K T S)
    : (throw e : Call E DB W K T R) >>= k = throw e := rfl

theorem run_query_bind (tag : T) (q : DB → R) (k : R → Call E DB W K T S)
    : (query tag q >>= k).run
        =
      .exec tag (fun _ => []) (fun _ _ => []) fun db _ => (k (q db)).run := rfl

end Call

variable [Store W DB] [DecidableEq ι] {crash : R} {c c' : Config ι DB W K T R} {i j : ι}

namespace Step

/-- A step of one client leaves the others where they are. -/
theorem procs_ne (h : Step crash c i c') (hj : j ≠ i) : c'.procs j = c.procs j := by
  cases h with
  | exec | commit | rollback | abort => exact Function.update_of_ne hj _ _

theorem of_exec (h : Step crash c i c') {tag : T} {needs : DB → List K} {writes : DB → DB → List W}
    {next : DB → DB → Prog DB W K T R} (hprog : (c.procs i).prog = .exec tag needs writes next)
    : c' = c.setProc i {
          prog := next c.db (c.view i)
          log := (c.procs i).log ++ writes c.db (c.view i)
          locks := (c.procs i).locks ++ needs (c.view i) }
        ∨ c' = c.setProc i (.start (.ret crash)) := by
  cases h with
  | exec hprog' =>
    rw [hprog] at hprog'
    cases hprog'
    exact .inl rfl
  | commit hprog' | rollback hprog' =>
    rw [hprog] at hprog'
    cases hprog'
  | abort => exact .inr rfl

theorem of_commit (h : Step crash c i c') {tag : T} {next : Prog DB W K T R}
    (hprog : (c.procs i).prog = .commit tag next)
    : c' = c.commit i next ∨ c' = c.setProc i (.start (.ret crash)) := by
  cases h with
  | commit hprog' =>
    rw [hprog] at hprog'
    cases hprog'
    exact .inl rfl
  | exec hprog' | rollback hprog' =>
    rw [hprog] at hprog'
    cases hprog'
  | abort => exact .inr rfl

theorem of_ret (h : Step crash c i c') {r : R} (hprog : (c.procs i).prog = .ret r) : False := by
  cases h with
  | exec hprog' | commit hprog' | rollback hprog' =>
    rw [hprog] at hprog'
    cases hprog'
  | abort hprog' =>
    rw [hprog] at hprog'
    cases hprog'

end Step

/-- The runs with `allowed` steps, with what is observed of each step before it is taken. -/
inductive ObservedRun (crash : R) (allowed : Config ι DB W K T R → ι → Config ι DB W K T R → Prop)
    (observe : Config ι DB W K T R → ι → List O)
    : Config ι DB W K T R → List O → Config ι DB W K T R → Prop where
  | refl {c : Config ι DB W K T R} : ObservedRun crash allowed observe c [] c
  | step {c c' c'' : Config ι DB W K T R} {i : ι} {os : List O}
      (hrun : ObservedRun crash allowed observe c os c') (hallowed : allowed c' i c'')
      (hstep : Step crash c' i c'')
      : ObservedRun crash allowed observe c (os ++ observe c' i) c''

def Config.observed [Fintype ι] [DecidableEq K] (check : Config ι DB W K T R → ι → Bool)
    (observe : Config ι DB W K T R → ι → List O) (c : Config ι DB W K T R)
    : List ι → Option (List O × Config ι DB W K T R)
  | [] => some ([], c)
  | i :: is =>
    if check c i then
      (c.turn i).bind fun c' => (c'.observed check observe is).map fun r => (observe c i ++ r.1, r.2)
    else
      none

theorem ObservedRun.trans {allowed : Config ι DB W K T R → ι → Config ι DB W K T R → Prop}
    {observe : Config ι DB W K T R → ι → List O} {c'' : Config ι DB W K T R} {os os' : List O}
    (h : ObservedRun crash allowed observe c os c')
    (h' : ObservedRun crash allowed observe c' os' c'')
    : ObservedRun crash allowed observe c (os ++ os') c'' := by
  induction h' with
  | refl =>
    rw [List.append_nil]
    exact h
  | step _ hallowed hstep ih =>
    rw [← List.append_assoc]
    exact .step ih hallowed hstep

theorem Config.run_of_observed [Fintype ι] [DecidableEq K]
    {allowed : Config ι DB W K T R → ι → Config ι DB W K T R → Prop}
    {check : Config ι DB W K T R → ι → Bool} {observe : Config ι DB W K T R → ι → List O}
    (crash : R) (hcheck : ∀ c i c', check c i → c.turn i = some c' → allowed c i c') (is : List ι)
    {os : List O} (h : c.observed check observe is = some (os, c'))
    : ObservedRun crash allowed observe c os c' := by
  induction is generalizing c os with
  | nil =>
    simp only [observed, Option.some.injEq, Prod.mk.injEq] at h
    rw [← h.1, h.2]
    exact .refl
  | cons i is ih =>
    unfold observed at h
    split at h
    . next hpass =>
      simp only [Option.bind_eq_some_iff, Option.map_eq_some_iff] at h
      obtain ⟨c1, hturn, r, hrest, heq⟩ := h
      rw [Prod.mk.injEq] at heq
      have hfirst : ObservedRun crash allowed observe c ([] ++ observe c i) c1 :=
        .step .refl (hcheck c i c1 hpass hturn) (step_of_turn crash hturn)
      rw [← heq.1]
      apply hfirst.trans
      apply ih
      rw [hrest, ← heq.2]
    . cases h

end ReadCommitted
