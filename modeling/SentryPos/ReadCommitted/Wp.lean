import SentryPos.ReadCommitted.System

/-!
This module contains a rely/guarantee logic for clients at READ COMMITTED. `Prog.wp` is the
condition under which a client, in the middle of its program, ends in its postcondition whatever
the other clients commit in between; `RunWhere.sound` turns one such condition for each client into
a fact about every run of all of them.
-/

namespace ReadCommitted

variable {DB W K T R S ι : Type}

/--
What a client relies on.

- `Rely tag locks` relates the databases before and after commits of other clients while the client
  waits at the statement `tag` (`none` once it has returned) and holds `locks`.
- `Assume tag log db` is what a run promises about the step at `tag`.
- `Inv` holds of the committed database at all times.
-/
structure Env (DB W K T : Type) where
  Rely : Option T → List K → DB → DB → Prop
  Assume : T → List W → DB → Prop
  Inv : DB → Prop

/--
What a client relies on and what it has to show: `Guar locks log db` when it commits `log`, and
`Mid` of the commits it has made whenever it may be aborted.
-/
structure Logic (DB W K T : Type) extends Env DB W K T where
  Guar : List K → List W → DB → Prop
  Mid : List (DB × DB) → Prop

instance : CoeOut (Logic DB W K T) (Env DB W K T) where
  coe := Logic.toEnv

/-- The databases a client may have worked on before the current one, its own commits apart. -/
def Env.Past (l : Env DB W K T) : DB → DB → Prop :=
  Relation.ReflTransGen fun db db' => ∃ tag locks, l.Rely tag locks db db'

/-- The databases a client may have worked on while it waited at statements with property `p`. -/
def Env.PastAt (l : Env DB W K T) (p : T → Prop) : DB → DB → Prop :=
  Relation.ReflTransGen fun db db' => ∃ tag locks, p tag ∧ l.Rely (some tag) locks db db'

theorem Env.past_of_pastAt {l : Env DB W K T} {p : T → Prop} {db db' : DB}
    (h : l.PastAt p db db') : l.Past db db' := by
  induction h with
  | refl => exact .refl
  | tail _ hstep ih =>
    obtain ⟨tag, locks, _, hrely⟩ := hstep
    exact ih.tail ⟨some tag, locks, hrely⟩

/-- The client has seen a database with property `P` since its last commit. -/
def Env.Seen (l : Env DB W K T) (P : DB → Prop) (db : DB) : Prop :=
  ∃ db0, l.Inv db0 ∧ P db0 ∧ l.Past db0 db

namespace Env.Seen

variable {l : Env DB W K T} {P Q : DB → Prop} {tag : Option T} {locks : List K} {db db' : DB}

theorem now (hinv : l.Inv db) (h : P db) : l.Seen P db :=
  ⟨db, hinv, h, .refl⟩

theorem step (h : l.Seen P db) (hrely : l.Rely tag locks db db') : l.Seen P db' := by
  obtain ⟨db0, hinv, hdb0, hpast⟩ := h
  exact ⟨db0, hinv, hdb0, hpast.tail ⟨tag, locks, hrely⟩⟩

theorem past (h : l.Seen P db) (hpast : l.Past db db') : l.Seen P db' := by
  obtain ⟨db0, hinv, hdb0, hpast0⟩ := h
  exact ⟨db0, hinv, hdb0, hpast0.trans hpast⟩

theorem mono (h : l.Seen P db) (hpq : ∀ db, l.Inv db → P db → Q db) : l.Seen Q db := by
  obtain ⟨db0, hinv, hdb0, hpast⟩ := h
  exact ⟨db0, hinv, hpq db0 hinv hdb0, hpast⟩

end Env.Seen

/-- Postconditions speak of the result, the client's commits, its log, its locks and the database. -/
abbrev Post (DB W K R : Type) :=
  R → List (DB × DB) → List W → List K → DB → Prop

variable [Store W DB]

def Prog.wp (l : Logic DB W K T) (p : Prog DB W K T R) (post : Post DB W K R)
    (commits : List (DB × DB)) (log : List W) (locks : List K) (db : DB) : Prop :=
  match p with
  | .ret r => post r commits log locks db
  | .exec tag needs writes next =>
    l.Mid commits ∧
    ∀ db', l.Rely (some tag) locks db db' → l.Inv db' → l.Assume tag log db' →
      (next db' (replay log db')).wp l post commits (log ++ writes db' (replay log db'))
        (locks ++ needs (replay log db')) db'
  | .commit tag next =>
    l.Mid commits ∧
    ∀ db', l.Rely (some tag) locks db db' → l.Inv db' → l.Assume tag log db' →
      l.Guar locks log db'
        ∧ next.wp l post (commits ++ [(db', replay log db')]) [] [] (replay log db')
  | .rollback tag next =>
    l.Mid commits ∧
    ∀ db', l.Rely (some tag) locks db db' → l.Inv db' → next.wp l post commits [] [] db'

namespace Prog

variable {l : Logic DB W K T} {post : Post DB W K R} {commits : List (DB × DB)} {log : List W}
  {locks : List K} {db : DB}

@[simp]
theorem wp_ret (r : R)
    : (.ret r : Prog DB W K T R).wp l post commits log locks db = post r commits log locks db := rfl

/-- Sequencing: the rest of a program is the postcondition of its first part. -/
@[simp]
theorem wp_bind (p : Prog DB W K T R) (k : R → Prog DB W K T S) (post : Post DB W K S)
    : (p >>= k).wp l post commits log locks db
        ↔
      p.wp l (fun r => (k r).wp l post) commits log locks db := by
  induction p generalizing commits log locks db with
  | ret r => rfl
  | exec tag needs writes next ih => simp only [bind_exec, wp, ih]
  | commit tag next ih => simp only [bind_commit, wp, ih]
  | rollback tag next ih => simp only [bind_rollback, wp, ih]

theorem wp_mono {p : Prog DB W K T R} {post' : Post DB W K R}
    (hpost : ∀ r commits log locks db, post r commits log locks db →
      post' r commits log locks db)
    (h : p.wp l post commits log locks db) : p.wp l post' commits log locks db := by
  induction p generalizing commits log locks db with
  | ret r => exact hpost _ _ _ _ _ h
  | exec tag needs writes next ih =>
    refine ⟨h.1, ?_⟩
    intro db' hrely hinv hassume
    apply ih
    exact h.2 db' hrely hinv hassume
  | commit tag next ih =>
    refine ⟨h.1, ?_⟩
    intro db' hrely hinv hassume
    obtain ⟨hguar, hnext⟩ := h.2 db' hrely hinv hassume
    exact ⟨hguar, ih hnext⟩
  | rollback tag next ih =>
    refine ⟨h.1, ?_⟩
    intro db' hrely hinv
    apply ih
    exact h.2 db' hrely hinv

theorem wp_base {tag : T} {query : DB → R} (hmid : l.Mid commits)
    (h : ∀ db', l.Rely (some tag) locks db db' → l.Inv db' → l.Assume tag log db' →
      post (query db') commits log locks db')
    : (base tag query).wp l post commits log locks db := by
  refine ⟨hmid, ?_⟩
  intro db' hrely hinv hassume
  simpa using h db' hrely hinv hassume

theorem wp_onTx {tag : T} {query : DB → R} (hmid : l.Mid commits)
    (h : ∀ db', l.Rely (some tag) locks db db' → l.Inv db' → l.Assume tag log db' →
      post (query (replay log db')) commits log locks db')
    : (onTx tag query).wp l post commits log locks db := by
  refine ⟨hmid, ?_⟩
  intro db' hrely hinv hassume
  simpa using h db' hrely hinv hassume

theorem wp_selectForUpdate {tag : T} {needs : DB → List K} {query : DB → R}
    (hmid : l.Mid commits)
    (h : ∀ db', l.Rely (some tag) locks db db' → l.Inv db' → l.Assume tag log db' →
      post (query (replay log db')) commits log (locks ++ needs (replay log db')) db')
    : (selectForUpdate tag needs query).wp l post commits log locks db := by
  refine ⟨hmid, ?_⟩
  intro db' hrely hinv hassume
  simpa using h db' hrely hinv hassume

theorem wp_write {E : Type} {tag : T} {needs : DB → List K} {check : DB → Except E (List W)}
    {post : Post DB W K (Except E Unit)} (hmid : l.Mid commits)
    (hok : ∀ db' ws, l.Rely (some tag) locks db db' → l.Inv db' → l.Assume tag log db' →
      check (replay log db') = .ok ws →
        post (.ok ()) commits (log ++ ws) (locks ++ needs (replay log db')) db')
    (herror : ∀ db' e, l.Rely (some tag) locks db db' → l.Inv db' → l.Assume tag log db' →
      check (replay log db') = .error e →
        post (.error e) commits log (locks ++ needs (replay log db')) db')
    : (write tag needs check).wp l post commits log locks db := by
  refine ⟨hmid, ?_⟩
  intro db' hrely hinv hassume
  cases hcheck : check (replay log db') with
  | ok ws => simpa [hcheck] using hok db' ws hrely hinv hassume hcheck
  | error e => simpa [hcheck] using herror db' e hrely hinv hassume hcheck

end Prog

structure Logic.Lawful (l : Logic DB W K T) : Prop where
  refl : ∀ tag locks db, l.Rely tag locks db db
  trans : ∀ tag locks db db' db'', l.Rely tag locks db db' → l.Rely tag locks db' db'' →
    l.Rely tag locks db db''

/-- What a client has shown survives the commits of others. -/
theorem Prog.wp_stable {l : Logic DB W K T} (hl : l.Lawful) {p : Prog DB W K T R}
    {post : Post DB W K R} {commits : List (DB × DB)} {log : List W} {locks : List K} {db db' : DB}
    (hpost : ∀ r commits log locks db db', l.Rely none locks db db' → l.Inv db' →
      post r commits log locks db → post r commits log locks db')
    (hrely : l.Rely p.tag? locks db db') (hinv : l.Inv db')
    (h : p.wp l post commits log locks db) : p.wp l post commits log locks db' := by
  cases p with
  | ret r => exact hpost r commits log locks db db' hrely hinv h
  | exec tag needs writes next =>
    refine ⟨h.1, ?_⟩
    intro db'' hrely'
    apply h.2
    exact hl.trans _ _ _ _ _ hrely hrely'
  | commit tag next =>
    refine ⟨h.1, ?_⟩
    intro db'' hrely'
    apply h.2
    exact hl.trans _ _ _ _ _ hrely hrely'
  | rollback tag next =>
    refine ⟨h.1, ?_⟩
    intro db'' hrely'
    apply h.2
    exact hl.trans _ _ _ _ _ hrely hrely'

variable [DecidableEq ι]

omit [Store W DB] in
def Config.LocksDisjoint (c : Config ι DB W K T R) : Prop :=
  ∀ i j, i ≠ j → (c.procs i).locks.Disjoint (c.procs j).locks

omit [Store W DB] in
theorem Config.LocksDisjoint.update {c c' : Config ι DB W K T R} {i : ι}
    {p : Proc DB W K T R} (h : c.LocksDisjoint) (hprocs : c'.procs = Function.update c.procs i p)
    (hp : ∀ j, j ≠ i → p.locks.Disjoint (c.procs j).locks) : c'.LocksDisjoint := by
  intro j k hjk
  rw [hprocs]
  by_cases hj : j = i
  . subst hj
    simp only [Function.update_self]
    rw [Function.update_of_ne (Ne.symm hjk)]
    exact hp k (Ne.symm hjk)
  . rw [Function.update_of_ne hj]
    by_cases hk : k = i
    . subst hk
      simp only [Function.update_self]
      exact (hp j hj).symm
    . rw [Function.update_of_ne hk]
      exact h j k hjk

omit [Store W DB] in
@[simp]
theorem Config.commitsOf_setProc (c : Config ι DB W K T R) (i j : ι) (p : Proc DB W K T R)
    : (c.setProc i p).commitsOf j = c.commitsOf j := rfl

omit [Store W DB] in
@[simp]
theorem Config.db_setProc (c : Config ι DB W K T R) (i : ι) (p : Proc DB W K T R)
    : (c.setProc i p).db = c.db := rfl

omit [Store W DB] in
theorem Config.procs_setProc (c : Config ι DB W K T R) (i : ι) (p : Proc DB W K T R)
    : (c.setProc i p).procs = Function.update c.procs i p := rfl

theorem Config.commitsOf_commit_self (c : Config ι DB W K T R) (i : ι) (next : Prog DB W K T R)
    : (c.commit i next).commitsOf i = c.commitsOf i ++ [(c.db, c.view i)] := by
  simp [commitsOf, commit]

theorem Config.commitsOf_commit_ne (c : Config ι DB W K T R) {i j : ι} (next : Prog DB W K T R)
    (h : j ≠ i) : (c.commit i next).commitsOf j = c.commitsOf j := by
  simp [commitsOf, commit, Ne.symm h]

/--
One logic and one postcondition for each client, such that what a client guarantees at a commit
keeps the invariant, makes a good event and is what the others rely on.
-/
structure Compatible (crash : R)
    (allowed : Config ι DB W K T R → ι → Config ι DB W K T R → Prop) (l : ι → Logic DB W K T) (inv : DB → Prop) (good : ι → DB → DB → Prop)
    (post : ι → Post DB W K R) : Prop where
  lawful : ∀ i, (l i).Lawful
  invOf : ∀ i db, inv db → (l i).Inv db
  assume : ∀ (c c' : Config ι DB W K T R) i tag, allowed c i c' → inv c.db →
    (c.procs i).prog.tag? = some tag → (l i).Assume tag (c.procs i).log c.db
  stable : ∀ i r commits log locks db db', (l i).Rely none locks db db' → (l i).Inv db' →
    post i r commits log locks db → post i r commits log locks db'
  guar : ∀ (c : Config ι DB W K T R) i tag next, allowed c i (c.commit i next) → inv c.db →
    c.LocksDisjoint →
    (c.procs i).prog = .commit tag next → (l i).Guar (c.procs i).locks (c.procs i).log c.db →
      inv (c.view i)
        ∧ good i c.db (c.view i)
        ∧ ∀ j, j ≠ i → (l j).Rely (c.procs j).prog.tag? (c.procs j).locks c.db (c.view i)
  crash : ∀ i commits db, (l i).Mid commits → inv db → post i crash commits [] [] db

structure Config.Ok (l : ι → Logic DB W K T) (inv : DB → Prop) (good : ι → DB → DB → Prop)
    (post : ι → Post DB W K R) (c : Config ι DB W K T R) : Prop where
  inv : inv c.db
  events : ∀ e ∈ c.history, good e.client e.before e.after
  disjoint : c.LocksDisjoint
  wp : ∀ i, (c.procs i).prog.wp (l i) (post i) (c.commitsOf i) (c.procs i).log (c.procs i).locks
    c.db

namespace Compatible

variable {crash : R} {allowed : Config ι DB W K T R → ι → Config ι DB W K T R → Prop} {l : ι → Logic DB W K T}
  {inv : DB → Prop} {good : ι → DB → DB → Prop} {post : ι → Post DB W K R}
  {c c' : Config ι DB W K T R} {i : ι}

theorem ok_setProc (hok : c.Ok l inv good post) {p : Proc DB W K T R}
    (hlocks : ∀ j, j ≠ i → p.locks.Disjoint (c.procs j).locks)
    (hp : p.prog.wp (l i) (post i) (c.commitsOf i) p.log p.locks c.db)
    : (c.setProc i p).Ok l inv good post where
  inv := hok.inv
  events := hok.events
  disjoint := hok.disjoint.update rfl hlocks
  wp := by
    intro j
    by_cases hj : j = i
    . subst hj
      simpa [Config.procs_setProc] using hp
    . simpa [Config.procs_setProc, hj] using hok.wp j

theorem ok_exec (h : Compatible crash allowed l inv good post) (hallowed : allowed c i c')
    (hok : c.Ok l inv good post) {tag : T} {needs : DB → List K} {writes : DB → DB → List W}
    {next : DB → DB → Prog DB W K T R} (hprog : (c.procs i).prog = .exec tag needs writes next)
    (hfree : c.Free i (needs (c.view i)))
    : (c.setProc i {
        prog := next c.db (c.view i)
        log := (c.procs i).log ++ writes c.db (c.view i)
        locks := (c.procs i).locks ++ needs (c.view i)
      }).Ok l inv good post := by
  have hwp := hok.wp i
  rw [hprog] at hwp
  apply ok_setProc hok
  . intro j hj
    rw [List.disjoint_append_left]
    refine ⟨hok.disjoint i j (Ne.symm hj), ?_⟩
    intro k hk
    exact hfree j hj k hk
  . apply hwp.2
    . exact (h.lawful i).refl _ _ _
    . exact h.invOf i _ hok.inv
    . apply h.assume c c' i tag hallowed hok.inv
      rw [hprog]
      rfl

theorem ok_commit (h : Compatible crash allowed l inv good post) {tag : T}
    {next : Prog DB W K T R} (hallowed : allowed c i (c.commit i next)) (hok : c.Ok l inv good post)
    (hprog : (c.procs i).prog = .commit tag next) : (c.commit i next).Ok l inv good post := by
  have hwp := hok.wp i
  rw [hprog] at hwp
  have hassume := h.assume c _ i tag hallowed hok.inv (by rw [hprog]; rfl)
  have hnext := hwp.2 c.db ((h.lawful i).refl _ _ _) (h.invOf i _ hok.inv) hassume
  have hguar := h.guar c i tag next hallowed hok.inv hok.disjoint hprog hnext.1
  constructor
  . exact hguar.1
  . intro e he
    cases List.mem_append.mp he with
    | inl he => exact hok.events e he
    | inr he =>
      rw [List.mem_singleton] at he
      subst he
      exact hguar.2.1
  . have hprocs : (c.commit i next).procs = Function.update c.procs i (.start next) := rfl
    apply hok.disjoint.update hprocs
    intro j _
    exact List.disjoint_nil_left _
  . intro j
    by_cases hj : j = i
    . subst hj
      rw [Config.commitsOf_commit_self]
      simpa [Config.commit, Proc.start, Config.view] using hnext.2
    . rw [Config.commitsOf_commit_ne _ _ hj]
      simp only [Config.commit, ne_eq, hj, not_false_eq_true, Function.update_of_ne]
      exact Prog.wp_stable (h.lawful j) (h.stable j) (hguar.2.2 j hj) (h.invOf j _ hguar.1)
        (hok.wp j)

theorem ok_rollback (h : Compatible crash allowed l inv good post) (hok : c.Ok l inv good post)
    {tag : T} {next : Prog DB W K T R} (hprog : (c.procs i).prog = .rollback tag next)
    : (c.setProc i (.start next)).Ok l inv good post := by
  have hwp := hok.wp i
  rw [hprog] at hwp
  apply ok_setProc hok
  . intro j _
    exact List.disjoint_nil_left _
  . apply hwp.2
    . exact (h.lawful i).refl _ _ _
    . exact h.invOf i _ hok.inv

theorem ok_abort (h : Compatible crash allowed l inv good post) (hok : c.Ok l inv good post)
    (hprog : (c.procs i).prog.result? = none)
    : (c.setProc i (.start (.ret crash))).Ok l inv good post := by
  apply ok_setProc hok
  . intro j _
    exact List.disjoint_nil_left _
  . apply h.crash i _ _ _ hok.inv
    have hwp := hok.wp i
    cases hp : (c.procs i).prog with
    | ret r => simp [hp, Prog.result?] at hprog
    | exec | commit | rollback =>
      rw [hp] at hwp
      exact hwp.1

theorem ok_step (h : Compatible crash allowed l inv good post) (hallowed : allowed c i c')
    (hok : c.Ok l inv good post) (hstep : Step crash c i c') : c'.Ok l inv good post := by
  cases hstep with
  | exec hprog hfree => exact h.ok_exec hallowed hok hprog hfree
  | commit hprog => exact h.ok_commit hallowed hok hprog
  | rollback hprog => exact h.ok_rollback hok hprog
  | abort hprog => exact h.ok_abort hok hprog

/-- Soundness: clients that are fine on their own terms are fine in every run of all of them. -/
theorem sound (h : Compatible crash allowed l inv good post) {db : DB} {progs : ι → Prog DB W K T R}
    (hdb : inv db) (hprogs : ∀ i, (progs i).wp (l i) (post i) [] [] [] db)
    (hrun : RunWhere crash allowed (.init db progs) c) : c.Ok l inv good post := by
  generalize hinit : Config.init db progs = c0 at hrun
  induction hrun with
  | refl =>
    subst hinit
    constructor
    . exact hdb
    . intro e he
      cases he
    . intro i j _
      exact List.disjoint_nil_left _
    . intro i
      exact hprogs i
  | step _ hallowed hstep ih => exact h.ok_step hallowed ih hstep

end Compatible

end ReadCommitted
