import SentryPos.ReadCommitted.Locking
import SentryPos.ReadCommitted.Observed
import SentryPos.ReadCommitted.Writes

/-!
This module contains contracts of clients: what a client may commit and what it returns. Clients that
keep their contracts on their own terms keep them in every run of all of them.
-/

namespace ReadCommitted

variable {DB W K T E R S α ι : Type} [Store W DB] [Locking W DB K]

structure Growth (W : Type) [Store W DB] (grows : DB → DB → Prop) : Prop where
  refl : ∀ db, grows db db
  trans : ∀ db db' db'', grows db db' → grows db' db'' → grows db db''
  apply : ∀ (w : W) db, grows db (Store.apply w db)

omit [Locking W DB K] in
theorem Growth.replay {grows : DB → DB → Prop} (h : Growth W grows) (log : List W) (db : DB)
    : grows db (replay log db) := by
  apply replay_induction (h.refl db)
  intro w _ db' hdb'
  exact h.trans _ _ _ hdb' (h.apply w db')

/-- A constraint that holds of a transaction's view as long as the transaction holds its locks. -/
structure Constraint (W : Type) [Store W DB] [Locking W DB K] (valid : DB → Prop) : Prop where
  stable : ∀ (log : List W) locks db db', Covered log locks → KeptAll W locks db db' → valid db' →
    valid (replay log db) → valid (replay log db')

/-- What clients rely on that respect each other's locks, on databases of a run. -/
def Env.shared (W T : Type) [Store W DB] [Locking W DB K] (grows : DB → DB → Prop)
    (states valid : DB → Prop) : Env DB W K T where
  Rely _ locks db db' := KeptAll W locks db db' ∧ grows db db'
  Assume _ _ _ := True
  Inv db := states db ∧ valid db

/--
A contract: `Commit locks log db` of each transaction, `Mid` of the commits as long as the client has
not returned and `Post` of its result and its commits.
-/
structure Contract (DB W K R : Type) where
  Commit : List K → List W → DB → Prop
  Mid : List (DB × DB) → Prop
  Post : R → List (DB × DB) → Prop

namespace Contract

def own (k : Contract DB W K R) (l : Env DB W K T) : Logic DB W K T where
  toEnv := l
  Guar := k.Commit
  Mid := k.Mid

def logic (k : Contract DB W K R) (valid : DB → Prop) (l : Env DB W K T) : Logic DB W K T where
  toEnv := l
  Guar locks log db := (Covered log locks ∧ valid (replay log db)) ∧ k.Commit locks log db
  Mid := k.Mid

def toPost (k : Contract DB W K R) : ReadCommitted.Post DB W K R :=
  fun r commits _ _ _ => k.Post r commits

def Committed (k : Contract DB W K R) (db db' : DB) : Prop :=
  ∃ locks log, Covered log locks ∧ k.Commit locks log db ∧ db' = replay log db

variable {grows : DB → DB → Prop} {valid : DB → Prop} [DecidableEq ι]

theorem compatible {crash : R} (hgrows : Growth W grows) {ks : ι → Contract DB W K R}
    {allowed : Config ι DB W K T R → ι → Config ι DB W K T R → Prop} {states : ι → DB → Prop}
    (hcrash : ∀ i commits, (ks i).Mid commits → (ks i).Post crash commits)
    (hstates : ∀ (c : Config ι DB W K T R) i next, allowed c i (c.commit i next) →
      ∀ j, states j (c.view i))
    : Compatible crash allowed
        (fun i => (ks i).logic valid (Env.shared W T grows (states i) valid))
        (fun db => (∀ j, states j db) ∧ valid db) (fun i => (ks i).Committed)
        (fun i => (ks i).toPost) where
  lawful := by
    intro i
    constructor
    . intro _ locks db
      exact ⟨.refl locks db, hgrows.refl db⟩
    . intro _ _ db db' db'' h h'
      exact ⟨h.1.trans h'.1, hgrows.trans _ _ _ h.2 h'.2⟩
  invOf := by
    intro i _ hdb
    exact ⟨hdb.1 i, hdb.2⟩
  assume := by
    intros
    trivial
  stable := by
    intro _ _ _ _ _ _ _ _ _ hpost
    exact hpost
  guar := by
    intro c i tag next hallowed _ hdisjoint _ hguar
    obtain ⟨⟨hcovered, hvalid⟩, hcommit⟩ := hguar
    refine ⟨⟨hstates c i next hallowed, hvalid⟩, ⟨_, _, hcovered, hcommit, rfl⟩, ?_⟩
    intro j hj
    exact ⟨.replay hcovered (hdisjoint i j (Ne.symm hj)) c.db, hgrows.replay _ _⟩
  crash := by
    intro i commits _ hmid _
    exact hcrash i commits hmid

structure Kept (ks : ι → Contract DB W K R) (valid : DB → Prop) (c : Config ι DB W K T R)
    : Prop where
  valid : valid c.db
  events : ∀ e ∈ c.history, (ks e.client).Committed e.before e.after
  returned : ∀ i r, (c.procs i).prog = .ret r → (ks i).Post r (c.commitsOf i)

omit [Locking W DB K] in
/-- Steps of the others leave a client and its commits as they are. -/
theorem untouched {crash : R} {i : ι} {c c' : Config ι DB W K T R}
    (h : RunWhere crash (fun _ j _ => j ≠ i) c c')
    : c'.procs i = c.procs i ∧ c'.commitsOf i = c.commitsOf i := by
  induction h with
  | refl => exact ⟨rfl, rfl⟩
  | step _ hj hstep ih =>
    rw [hstep.procs_ne (Ne.symm hj), ih.1, ← ih.2]
    refine ⟨rfl, ?_⟩
    cases hstep with
    | exec | rollback | abort => exact Config.commitsOf_setProc ..
    | commit => exact Config.commitsOf_commit_ne _ _ (Ne.symm hj)

/-- The clients of a state keep their contracts from there on. -/
abbrev Keeps (ks : ι → Contract DB W K R) (grows : DB → DB → Prop) (states : ι → DB → Prop)
    (valid : DB → Prop) (c : Config ι DB W K T R) : Prop :=
  c.Ok (fun i => (ks i).logic valid (Env.shared W T grows (states i) valid))
    (fun db => (∀ j, states j db) ∧ valid db) (fun i => (ks i).Committed) (fun i => (ks i).toPost)

theorem Kept.of_ok {l : ι → Env DB W K T} {inv : DB → Prop} {ks : ι → Contract DB W K R}
    {c : Config ι DB W K T R} (hinv : ∀ db, inv db → valid db)
    (h : c.Ok (fun i => (ks i).logic valid (l i)) inv (fun i => (ks i).Committed)
      fun i => (ks i).toPost) : Kept ks valid c where
  valid := hinv _ h.inv
  events := h.events
  returned := by
    intro i r hr
    have hwp := h.wp i
    rw [hr] at hwp
    exact hwp

theorem Keeps.run {crash : R} (hgrows : Growth W grows) {ks : ι → Contract DB W K R}
    {allowed : Config ι DB W K T R → ι → Config ι DB W K T R → Prop} {states : ι → DB → Prop}
    (hcrash : ∀ i commits, (ks i).Mid commits → (ks i).Post crash commits)
    (hstates : ∀ (c : Config ι DB W K T R) i next, allowed c i (c.commit i next) →
      ∀ j, states j (c.view i))
    {c c' : Config ι DB W K T R} (h : Keeps ks grows states valid c)
    (hrun : RunWhere crash allowed c c') : Keeps ks grows states valid c' := by
  have hcompatible : Compatible crash allowed
      (fun i => (ks i).logic valid (Env.shared W T grows (states i) valid)) _ _ _ :=
    compatible hgrows hcrash hstates
  induction hrun with
  | refl => exact h
  | step _ hallowed hstep ih => exact hcompatible.ok_step hallowed ih hstep

theorem Keeps.init {ks : ι → Contract DB W K R} {states : ι → DB → Prop} {db : DB}
    {progs : ι → Prog DB W K T R} (hdb : ∀ i, states i db) (hvalid : valid db)
    (hprogs : ∀ i, (progs i).wp ((ks i).logic valid (Env.shared W T grows (states i) valid))
      (ks i).toPost [] [] [] db)
    : Keeps ks grows states valid (.init db progs) where
  inv := ⟨hdb, hvalid⟩
  events := by simp [Config.init]
  disjoint := by
    intro i j _
    exact List.disjoint_nil_left _
  wp := hprogs

/-- A client that begins late sees databases from then on, and may have a contract about them. -/
theorem sound_late {crash : R} (hgrows : Growth W grows) {ks ks' : ι → Contract DB W K R} {i : ι}
    (hks : ∀ j, j ≠ i → ks' j = ks j)
    (hcrash : ∀ j commits, (ks j).Mid commits → (ks j).Post crash commits)
    (hcrash' : ∀ j commits, (ks' j).Mid commits → (ks' j).Post crash commits) {db : DB}
    {progs : ι → Prog DB W K T R} {c c' : Config ι DB W K T R} (hvalid : valid db)
    (hprogs : ∀ j, (progs j).wp
      ((ks j).logic valid (Env.shared W T grows (· ∈ c'.databases db) valid)) (ks j).toPost [] [] [] db)
    (hlate : valid c.db → (progs i).wp
      ((ks' i).logic valid (Env.shared W T grows (· ∈ c'.databasesSince c) valid)) (ks' i).toPost [] []
      [] c.db)
    (hbefore : RunWhere crash (fun _ j _ => j ≠ i) (.init db progs) c) (hrun : Run crash c c')
    : Kept ks' valid c' := by
  have hwithin : RunWhere crash (fun _ _ next => next.history <+: c'.history) (.init db progs) c := by
    apply hbefore.withHistory.mono
    intro _ _ _ h
    exact h.2.trans hrun.history_prefix
  have hkeeps : Keeps ks grows (fun _ => (· ∈ c'.databases db)) valid c :=
    Keeps.run hgrows hcrash (fun _ _ _ hwithin _ => Config.mem_databases hwithin)
      (Keeps.init (fun _ => List.mem_cons_self) hvalid hprogs) hwithin
  obtain ⟨hproc, hcommits⟩ := untouched hbefore
  let states (j : ι) (d : DB) : Prop := if j = i then d ∈ c'.databasesSince c else d ∈ c'.databases db
  have hkeeps' : Keeps ks' grows states valid c := by
    constructor
    . refine ⟨?_, hkeeps.inv.2⟩
      intro j
      by_cases hj : j = i
      . simp only [states, if_pos hj]
        exact List.mem_cons_self
      . simp only [states, if_neg hj]
        exact hkeeps.inv.1 j
    . intro e he
      have hclient : e.client ≠ i := by
        intro heq
        have hmem : (e.before, e.after) ∈ c.commitsOf i := by
          unfold Config.commitsOf
          exact List.mem_map.mpr ⟨e, List.mem_filter.mpr ⟨he, by simpa using heq⟩, rfl⟩
        rw [hcommits] at hmem
        simp [Config.commitsOf, Config.init] at hmem
      rw [hks _ hclient]
      exact hkeeps.events e he
    . exact hkeeps.disjoint
    . intro j
      by_cases hj : j = i
      . subst hj
        simp only [states, if_pos]
        rw [hproc, hcommits]
        exact hlate hkeeps.inv.2
      . simp only [states, if_neg hj]
        rw [hks j hj]
        exact hkeeps.wp j
  refine .of_ok (fun _ h => h.2) (Keeps.run hgrows hcrash' ?_ hkeeps' hrun.between)
  intro c1 k next hbetween j
  by_cases hj : j = i
  . simp only [states, if_pos hj]
    exact Config.mem_databasesSince hbetween.1 hbetween.2
  . simp only [states, if_neg hj]
    exact Config.mem_databases hbetween.2

theorem sound {crash : R} (hgrows : Growth W grows) {ks : ι → Contract DB W K R}
    (hcrash : ∀ i commits, (ks i).Mid commits → (ks i).Post crash commits) {db : DB}
    {progs : ι → Prog DB W K T R} {c : Config ι DB W K T R} (hvalid : valid db)
    (hprogs : ∀ i, (progs i).wp
      ((ks i).logic valid (Env.shared W T grows (· ∈ c.databases db) valid)) (ks i).toPost [] [] [] db)
    (hrun : Run crash (.init db progs) c) : Kept ks valid c :=
  .of_ok (fun _ h => h.2) <|
    Keeps.run hgrows hcrash (fun _ _ _ hwithin _ => Config.mem_databases hwithin)
      (Keeps.init (fun _ => List.mem_cons_self) hvalid hprogs) hrun.within

end Contract

omit [Locking W DB K] in
/-- What a program shows of its commits it shows with what else holds of them. -/
theorem Prog.wp_and {l : Env DB W K T} {Guar Guar' : List K → List W → DB → Prop}
    {Mid : List (DB × DB) → Prop} {p : Prog DB W K T R} {post : Post DB W K R}
    {commits : List (DB × DB)} {log : List W} {locks : List K} {db : DB}
    (h' : p.wp { toEnv := l, Guar := Guar', Mid := fun _ => True } (fun _ _ _ _ _ => True) commits
      log locks db)
    (h : p.wp { toEnv := l, Guar, Mid } post commits log locks db)
    : p.wp { toEnv := l, Guar := fun locks log db => Guar' locks log db ∧ Guar locks log db, Mid }
        post commits log locks db := by
  induction p generalizing commits log locks db with
  | ret r => exact h
  | exec tag needs writes next ih =>
    refine ⟨h.1, ?_⟩
    intro db' hrely hinv hassume
    exact ih _ _ (h'.2 db' hrely hinv hassume) (h.2 db' hrely hinv hassume)
  | commit tag next ih =>
    refine ⟨h.1, ?_⟩
    intro db' hrely hinv hassume
    have hown' := h'.2 db' hrely hinv hassume
    have hown := h.2 db' hrely hinv hassume
    exact ⟨⟨hown'.1, hown.1⟩, ih hown'.2 hown.2⟩
  | rollback tag next ih =>
    refine ⟨h.1, ?_⟩
    intro db' hrely hinv
    exact ih (h'.2 db' hrely hinv) (h.2 db' hrely hinv)

/-- The writes of a statement keep a constraint, have a property and are covered by its locks. -/
structure SafeWrites (valid : DB → Prop) (P : W → Prop) (view : DB) (ws : List W) (locks : List K)
    : Prop where
  valid : valid view → valid (replay ws view)
  writes : ∀ w ∈ ws, P w
  covered : Covered ws locks

/-- All statements of a program are safe. Only if `ends` it may commit or roll back. -/
def Prog.Safe (ends : Prop) (valid : DB → Prop) (P : W → Prop) : Prog DB W K T R → Prop
  | .ret _ => True
  | .exec _ needs writes next =>
    (∀ db view, SafeWrites valid P view (writes db view) (needs view))
      ∧ ∀ db view, (next db view).Safe ends valid P
  | .commit _ next => ends ∧ next.Safe ends valid P
  | .rollback _ next => ends ∧ next.Safe ends valid P

namespace SafeWrites

variable {valid : DB → Prop} {P Q : W → Prop} {view : DB} {ws : List W} {locks : List K}

theorem nil (valid : DB → Prop) (P : W → Prop) (view : DB) (locks : List K)
    : SafeWrites valid P view [] locks where
  valid := fun h => h
  writes := by simp
  covered := .nil locks

theorem mono (h : SafeWrites valid P view ws locks) (hpq : ∀ w, P w → Q w)
    : SafeWrites valid Q view ws locks where
  valid := h.valid
  writes := fun w hw => hpq w (h.writes w hw)
  covered := h.covered

end SafeWrites

namespace Prog.Safe

variable {ends : Prop} {valid : DB → Prop} {P Q : W → Prop}

theorem bind {p : Prog DB W K T R} {k : R → Prog DB W K T S} (hp : p.Safe ends valid P)
    (hk : ∀ r, (k r).Safe ends valid P) : (p >>= k).Safe ends valid P := by
  induction p with
  | ret r => exact hk r
  | exec tag needs writes next ih => exact ⟨hp.1, fun db view => ih db view (hp.2 db view)⟩
  | commit tag next ih => exact ⟨hp.1, ih hp.2⟩
  | rollback tag next ih => exact ⟨hp.1, ih hp.2⟩

theorem mono {p : Prog DB W K T R} {ends' : Prop} (hp : p.Safe ends valid P) (hends : ends → ends')
    (hpq : ∀ w, P w → Q w) : p.Safe ends' valid Q := by
  induction p with
  | ret r => trivial
  | exec tag needs writes next ih =>
    exact ⟨fun db view => (hp.1 db view).mono hpq, fun db view => ih db view (hp.2 db view)⟩
  | commit tag next ih => exact ⟨hends hp.1, ih hp.2⟩
  | rollback tag next ih => exact ⟨hends hp.1, ih hp.2⟩

variable {grows : DB → DB → Prop} {states : DB → Prop}

/-- The commits of a safe program are covered by its locks, keep the constraint and are made of its
writes. -/
theorem onlyWrites {p : Prog DB W K T R} (hp : p.Safe ends valid P) : p.OnlyWrites P := by
  induction p with
  | ret r => trivial
  | exec tag needs writes next ih =>
    exact ⟨fun db view => (hp.1 db view).writes, fun db view => ih db view (hp.2 db view)⟩
  | commit tag next ih => exact ih hp.2
  | rollback tag next ih => exact ih hp.2

theorem wp (hstable : Constraint W valid) {p : Prog DB W K T R} (hp : p.Safe ends valid P)
    {Guar : List K → List W → DB → Prop} {Mid : List (DB × DB) → Prop} {post : Post DB W K R}
    (hguar : ∀ locks log db, states db → Covered log locks → valid (replay log db) →
      (∀ w ∈ log, P w) → Guar locks log db)
    (hmid : ∀ commits, Mid commits) (hpost : ∀ r commits log locks db, post r commits log locks db)
    {commits : List (DB × DB)} {log : List W} {locks : List K} {db : DB}
    (hcovered : Covered log locks) (hlog : ∀ w ∈ log, P w) (hvalid : valid (replay log db))
    : p.wp { toEnv := Env.shared W T grows states valid, Guar, Mid } post commits log locks db := by
  induction p generalizing commits log locks db with
  | ret r => exact hpost _ _ _ _ _
  | exec tag needs writes next ih =>
    refine ⟨hmid _, ?_⟩
    intro db' hrely hinv _
    have hview := hstable.stable log locks db db' hcovered hrely.1 hinv.2 hvalid
    have hws := hp.1 db' (replay log db')
    apply ih _ _ (hp.2 _ _) (hcovered.append hws.covered)
    . intro w hw
      cases List.mem_append.mp hw with
      | inl hw => exact hlog w hw
      | inr hw => exact hws.writes w hw
    . rw [replay_append]
      exact hws.valid hview
  | commit tag next ih =>
    refine ⟨hmid _, ?_⟩
    intro db' hrely hinv _
    have hview := hstable.stable log locks db db' hcovered hrely.1 hinv.2 hvalid
    exact ⟨hguar _ _ _ hinv.1 hcovered hview hlog, ih hp.2 (.nil _) (by simp) hview⟩
  | rollback tag next ih =>
    refine ⟨hmid _, ?_⟩
    intro db' _ hinv
    exact ih hp.2 (.nil _) (by simp) hinv.2

theorem logic (hstable : Constraint W valid) {p : Prog DB W K T R} (hp : p.Safe ends valid P)
    {k : Contract DB W K R} {db : DB} (hvalid : valid db)
    (h : p.wp (k.own (Env.shared W T grows states valid)) k.toPost [] [] [] db)
    : p.wp (k.logic valid (Env.shared W T grows states valid)) k.toPost [] [] [] db := by
  apply Prog.wp_and _ h
  apply hp.wp hstable _ _ _ (.nil []) (by simp) hvalid
  . intro locks log db' _ hcovered hview _
    exact ⟨hcovered, hview⟩
  . intro _
    trivial
  . intro _ _ _ _ _
    trivial

/-- A part of a transaction appends safe writes to its log. -/
theorem wp_body {Guar : List K → List W → DB → Prop} {Mid : List (DB × DB) → Prop}
    (hgrows : Growth W grows) {p : Prog DB W K T R} (hp : p.Safe False valid P) {post : Post DB W K R}
    {commits : List (DB × DB)} (hmid : Mid commits) {log : List W} {locks : List K} {db : DB}
    (h : ∀ r db' ws ks, KeptAll W locks db db' → grows db db' → (∀ w ∈ ws, P w) →
      post r commits (log ++ ws) (locks ++ ks) db')
    : p.wp { toEnv := Env.shared W T grows states valid, Guar, Mid } post commits log locks db := by
  induction p generalizing log locks db with
  | ret r =>
    have hnow := h r db [] [] (.refl locks db) (hgrows.refl db) (by simp)
    rw [List.append_nil, List.append_nil] at hnow
    exact hnow
  | exec tag needs writes next ih =>
    refine ⟨hmid, ?_⟩
    intro db1 hrely1 _ _
    have hws1 := hp.1 db1 (replay log db1)
    apply ih _ _ (hp.2 _ _)
    intro r db2 ws ks hkept2 hgrows2 hws
    rw [List.append_assoc, List.append_assoc]
    apply h
    . exact hrely1.1.trans (hkept2.weaken (List.subset_append_left _ _))
    . exact hgrows.trans _ _ _ hrely1.2 hgrows2
    . intro w hw
      cases List.mem_append.mp hw with
      | inl hw => exact hws1.writes w hw
      | inr hw => exact hws w hw
  | commit tag next ih => exact hp.1.elim
  | rollback tag next ih => exact hp.1.elim

end Prog.Safe

namespace Call

def Safe (ends : Prop) (valid : DB → Prop) (P : W → Prop) (p : Call E DB W K T R) : Prop :=
  Prog.Safe ends valid P p.run

namespace Safe

variable {ends : Prop} {valid : DB → Prop} {P Q : W → Prop} {tag : T}

theorem pure (r : R) : Safe ends valid P (pure r : Call E DB W K T R) := trivial

theorem throw (e : E) : Safe ends valid P (throw e : Call E DB W K T R) := trivial

theorem bind {p : Call E DB W K T R} {k : R → Call E DB W K T S} (hp : Safe ends valid P p)
    (hk : ∀ r, Safe ends valid P (k r)) : Safe ends valid P (p >>= k) := by
  have hrun : (p >>= k).run = p.run >>= ExceptT.bindCont k := rfl
  unfold Safe
  rw [hrun]
  apply Prog.Safe.bind hp
  intro r
  cases r with
  | ok r => exact hk r
  | error e => trivial

theorem tryCatch {p : Call E DB W K T R} {handle : E → Call E DB W K T R}
    (hp : Safe ends valid P p) (hhandle : ∀ e, Safe ends valid P (handle e))
    : Safe ends valid P (tryCatch p handle) := by
  apply Prog.Safe.bind hp
  intro r
  cases r with
  | ok r => trivial
  | error e => exact hhandle e

theorem mono {p : Call E DB W K T R} {ends' : Prop} (hp : Safe ends valid P p)
    (hends : ends → ends') (hpq : ∀ w, P w → Q w) : Safe ends' valid Q p :=
  Prog.Safe.mono hp hends hpq

theorem check (query : DB → Except E R)
    : Safe ends valid P (check tag query : Call E DB W K T R) :=
  ⟨fun _ _ => .nil .., fun _ _ => trivial⟩

theorem query (q : DB → R) : Safe ends valid P (query tag q : Call E DB W K T R) :=
  check _

theorem queryOnTx (q : DB → R) : Safe ends valid P (queryOnTx tag q : Call E DB W K T R) :=
  ⟨fun _ _ => .nil .., fun _ _ => trivial⟩

theorem selectForUpdate (locks : DB → List K) (q : DB → R)
    : Safe ends valid P (selectForUpdate tag locks q : Call E DB W K T R) :=
  ⟨fun _ _ => .nil .., fun _ _ => trivial⟩

theorem write {locks : DB → List K} {check : DB → Except E (List W)}
    (h : ∀ view ws, check view = .ok ws → SafeWrites valid P view ws (locks view))
    : Safe ends valid P (write tag locks check : Call E DB W K T Unit) := by
  constructor
  . intro db view
    dsimp only
    split
    . next ws hws => exact h view ws hws
    . exact .nil ..
  . intro db view
    dsimp only
    split <;> trivial

theorem transaction {body : Call E DB W K T R} (h : Safe False valid P body)
    : Safe True valid P (transaction tag body) := by
  apply Prog.Safe.bind (h.mono False.elim fun _ hw => hw)
  intro r
  cases r with
  | ok r => exact ⟨trivial, trivial⟩
  | error e => exact ⟨trivial, trivial⟩

theorem forM {f : α → Call E DB W K T PUnit} {xs : List α}
    (h : ∀ x ∈ xs, Safe ends valid P (f x)) : Safe ends valid P (xs.forM f) := by
  induction xs with
  | nil => exact pure _
  | cons x xs ih =>
    rw [List.forM]
    apply bind (h x List.mem_cons_self)
    intro _
    exact ih fun y hy => h y (List.mem_cons_of_mem _ hy)

end Safe

end Call

end ReadCommitted
