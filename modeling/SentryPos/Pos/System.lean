import SentryPos.Pos.Requests

/-!
This module contains the runs of any number of requests: interleaved, statement by statement, and
one after the other. Every commit in a run is one of the events of the request that makes it.
-/

namespace SentryPos

open ReadCommitted

variable {ι : Type} [DecidableEq ι]

abbrev System (ι : Type) :=
  Config ι Database Write Key Stmt (Except ApiError Response)

/-- All requests before their first step. -/
def System.start [Rounding] (db : Database) (reqs : ι → Request) : System ι :=
  .init db fun i => (reqs i).prog

section Interleaved

/--
What a request relies on in a run: what all commits keep, and `keeps`. The databases that it may
see are `states`.
-/
def Env.ofRun (states : Database → Prop) (keeps : Option Stmt → Database → Database → Prop)
    (assume : Stmt → List Write → Database → Prop) : Env Database Write Key Stmt where
  Rely tag locks db db' := db.Rely locks db' ∧ keeps tag db db'
  Assume := assume
  Inv db := db.Valid ∧ states db

variable {states : Database → Prop} {keeps : Option Stmt → Database → Database → Prop}
  {assume : Stmt → List Write → Database → Prop}

theorem Env.ofRun_pos : PosEnv (Env.ofRun states keeps assume) where
  rely := by
    intro _ _ _ _ h
    exact h.1
  valid := by
    intro _ h
    exact h.1

/-- In the runs with `allowed` steps every commit keeps, for each of the others, its `keeps`. -/
structure Keeps [Rounding] (allowed : System ι → ι → System ι → Prop) (reqs : ι → Request)
    (states : Database → Prop) (keeps : ι → Option Stmt → Database → Database → Prop)
    (assume : Stmt → List Write → Database → Prop) : Prop where
  refl : ∀ i tag db, keeps i tag db db
  trans : ∀ i tag db db' db'', keeps i tag db db' → keeps i tag db' db'' → keeps i tag db db''
  promised : ∀ (c c' : System ι) i tag, allowed c i c' → c.db.Valid →
    (c.procs i).prog.tag? = some tag → assume tag (c.procs i).log c.db
  state : ∀ (c : System ι) i next, allowed c i (c.commit i next) → states (c.view i)
  commit : ∀ (c : System ι) i tag next, allowed c i (c.commit i next) → c.db.Valid →
    (c.procs i).prog = .commit tag next → Pending (c.procs i).log (c.procs i).locks c.db →
      (reqs i).Commit (Env.ofRun states (keeps i) assume) (c.procs i).log c.db →
        ∀ j, j ≠ i → keeps j (c.procs j).prog.tag? c.db (c.view i)

namespace Keeps

variable {allowed : System ι → ι → System ι → Prop} {reqs : ι → Request}
  {keeps : ι → Option Stmt → Database → Database → Prop}

theorem compatible [Rounding] (h : Keeps allowed reqs states keeps assume)
    : Compatible (.error .aborted) allowed
        (fun i => (reqs i).logic (Env.ofRun states (keeps i) assume))
        (fun db => db.Valid ∧ states db)
        (fun i => (reqs i).Event (Env.ofRun states (keeps i) assume))
        (fun i => (reqs i).Post (Env.ofRun states (keeps i) assume)) where
  lawful := by
    intro i
    constructor
    . intro tag locks db
      exact ⟨.refl locks db, h.refl i tag db⟩
    . intro tag locks db db' db'' h1 h2
      exact ⟨h1.1.trans h2.1, h.trans i tag db db' db'' h1.2 h2.2⟩
  invOf := by
    intro i db hdb
    exact hdb
  assume := by
    intro c c' i tag hallowed hinv
    exact h.promised c c' i tag hallowed hinv.1
  stable := by
    intro i r commits log locks db db' hrely hinv hpost
    have hpast : (Env.ofRun states (keeps i) assume).Past db db' := .single ⟨none, locks, hrely⟩
    exact ⟨hpost.log, hpost.locks, hpost.failed, hpost.outcome.past hpast⟩
  guar := by
    intro c i tag next hallowed hinv hdisjoint hprog hguar
    obtain ⟨hpending, hdb, hcommit⟩ := hguar
    refine ⟨⟨hpending.valid, h.state c i next hallowed⟩, ⟨hdb, _, _, hpending, hcommit, rfl⟩, ?_⟩
    intro j hj
    refine ⟨hpending.rely (hdisjoint i j (Ne.symm hj)), ?_⟩
    exact h.commit c i tag next hallowed hdb hprog hpending hcommit j hj
  crash := by
    intro i commits db hmid _
    refine ⟨rfl, rfl, fun _ _ => hmid, ?_⟩
    cases reqs i with
    | completeSale => exact .inl rfl
    | _ => trivial

theorem ok [Rounding] (h : Keeps allowed reqs states keeps assume) {db : Database} (hdb : db.Valid)
    (hstate : states db) {c : System ι}
    (hrun : RunWhere (.error .aborted) allowed (System.start db reqs) c)
    : c.Ok (fun i => (reqs i).logic (Env.ofRun states (keeps i) assume))
        (fun db => db.Valid ∧ states db)
        (fun i => (reqs i).Event (Env.ofRun states (keeps i) assume))
        (fun i => (reqs i).Post (Env.ofRun states (keeps i) assume)) := by
  apply h.compatible.sound ⟨hdb, hstate⟩ _ hrun
  intro i
  exact Request.wp_prog Env.ofRun_pos (reqs i) ⟨hdb, hstate⟩

theorem returned (h : Keeps allowed reqs states keeps assume) {db : Database} (hdb : db.Valid)
    (hstate : states db) {c : System ι}
    (hrun : RunWhere (.error .aborted) allowed (System.start db reqs) c) {i : ι}
    {r : Except ApiError Response} (hr : (c.procs i).prog.result? = some r)
    : (reqs i).Post (Env.ofRun states (keeps i) assume) r (c.commitsOf i) (c.procs i).log
        (c.procs i).locks c.db := by
  have hwp := (h.ok hdb hstate hrun).wp i
  cases hprog : (c.procs i).prog with
  | ret r' =>
    rw [hprog] at hwp hr
    cases hr
    exact hwp
  | exec | commit | rollback =>
    rw [hprog] at hr
    cases hr

theorem committing (h : Keeps allowed reqs states keeps fun _ _ _ => True) {db : Database}
    (hdb : db.Valid) (hstate : states db) {c : System ι}
    (hrun : RunWhere (.error .aborted) allowed (System.start db reqs) c) {i : ι} {tag : Stmt}
    {next : Program} (hprog : (c.procs i).prog = .commit tag next)
    : Pending (c.procs i).log (c.procs i).locks c.db
        ∧ (reqs i).Commit (Env.ofRun states (keeps i) fun _ _ _ => True) (c.procs i).log c.db := by
  have hok := h.ok hdb hstate hrun
  have hwp := hok.wp i
  rw [hprog] at hwp
  have hrely := (h.compatible.lawful i).refl (some tag) (c.procs i).locks c.db
  obtain ⟨hpending, _, hcommit⟩ := (hwp.2 c.db hrely hok.inv trivial).1
  exact ⟨hpending, hcommit⟩

end Keeps

theorem keeps_databases [Rounding] (reqs : ι → Request) (db : Database) (c : System ι)
    : Keeps (fun _ _ next => next.history <+: c.history) reqs (· ∈ c.databases db)
        (fun _ _ _ _ => True) fun _ _ _ => True where
  refl := by simp
  trans := by simp
  promised := by simp
  state := by
    intro c' i next hwithin
    exact Config.mem_databases hwithin
  commit := by simp

end Interleaved

section Sequence

abbrev Env.sequential : Env Database Write Key Stmt :=
  .alone Database.Valid

theorem Env.sequential_pos : PosEnv Env.sequential where
  rely := by
    intro _ locks db db' h
    rw [show db' = db from h]
    exact .refl locks db
  valid := by
    intro _ h
    exact h

/-- A request as one atomic step. -/
def Request.step (req : Request) (db : Database) : Except ApiError Response × Database :=
  req.prog.solo [] db

theorem Request.step_spec (req : Request) {db : Database} (hdb : db.Valid)
    : (req.step db).2.Valid
        ∧ ∃ own, Linked db own (req.step db).2
            ∧ (∀ c ∈ own, req.Event Env.sequential c.1 c.2)
            ∧ req.Post Env.sequential (req.step db).1 own [] [] (req.step db).2 := by
  have hrely : ∀ tag locks db, (req.logic Env.sequential).Rely tag locks db db := by
    intro _ _ _
    rfl
  have hassume : ∀ tag log db, (req.logic Env.sequential).Assume tag log db := by
    intro _ _ _
    trivial
  have hguar : ∀ locks log db, (req.logic Env.sequential).Inv db →
      (req.logic Env.sequential).Guar locks log db →
        (req.logic Env.sequential).Inv (replay log db) := by
    intro locks log db _ h
    exact h.1.valid
  have hwp := Request.wp_prog Env.sequential_pos req (show Env.sequential.Inv db from hdb)
  obtain ⟨hvalid, own, log, locks, hlinked, hown, hpost⟩ :=
    Prog.solo_of_wp hrely hassume hguar hdb hwp
  rw [List.nil_append] at hpost
  have hlog := hpost.log
  have hlocks := hpost.locks
  subst hlog hlocks
  refine ⟨hvalid, own, hlinked, ?_, hpost⟩
  intro c hc
  obtain ⟨locks, log, hguar, hc2⟩ := hown c hc
  exact ⟨hguar.2.1, log, locks, hguar.1, hguar.2.2, hc2⟩

/-- Requests taken as atomic steps, each with its result. -/
inductive Sequence : Database → List (Request × Except ApiError Response) → Database → Prop where
  | nil {db : Database} : Sequence db [] db
  | snoc {db db' : Database} {reqs : List (Request × Except ApiError Response)} {req : Request}
      (h : Sequence db reqs db')
      : Sequence db (reqs ++ [(req, (req.step db').1)]) (req.step db').2

theorem Sequence.valid {db db' : Database} {reqs : List (Request × Except ApiError Response)}
    (h : Sequence db reqs db') (hdb : db.Valid) : db'.Valid := by
  induction h with
  | nil => exact hdb
  | snoc _ ih => exact (Request.step_spec _ ih).1

theorem Sequence.keeps {P : Database → Prop} {db db' : Database}
    {reqs : List (Request × Except ApiError Response)} (h : Sequence db reqs db') (hdb : db.Valid)
    (hkeep : ∀ r ∈ reqs, ∀ db db', r.1.Event Env.sequential db db' → P db → P db') (hP : P db)
    : P db' := by
  induction h with
  | nil => exact hP
  | @snoc db' reqs req hseq ih =>
    obtain ⟨_, own, hlinked, hown, _⟩ := req.step_spec (hseq.valid hdb)
    apply hlinked.keeps
    . intro c hc
      apply hkeep (req, (req.step db').1) (by simp)
      exact hown c hc
    . apply ih
      intro r hr
      apply hkeep
      simp [hr]

end Sequence

end SentryPos
