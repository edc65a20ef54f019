import SentryPos.ReadCommitted.Wp

/-!
This module contains calls: programs that may throw, the transaction around the body of a call and
the rules for their weakest preconditions. It also contains the meaning of a program that runs
alone, without any other client in between.
-/

namespace ReadCommitted

variable {DB W K T E R S α : Type}

abbrev Call (E DB W K T R : Type) :=
  ExceptT E (Prog DB W K T) R

namespace Call

def ofExcept (r : Except E R) : Call E DB W K T R :=
  ExceptT.mk (.ret r)

/-- A query on a connection of its own that may reject what it finds. -/
def check (tag : T) (query : DB → Except E R) : Call E DB W K T R :=
  ExceptT.mk (Prog.base tag query)

def query (tag : T) (query : DB → R) : Call E DB W K T R :=
  check tag fun db => .ok (query db)

def queryOnTx (tag : T) (query : DB → R) : Call E DB W K T R :=
  ExceptT.mk (Prog.onTx tag fun db => .ok (query db))

def selectForUpdate (tag : T) (locks : DB → List K) (query : DB → R) : Call E DB W K T R :=
  ExceptT.mk (Prog.selectForUpdate tag locks fun db => .ok (query db))

def write (tag : T) (locks : DB → List K) (check : DB → Except E (List W))
    : Call E DB W K T Unit :=
  ExceptT.mk (Prog.write tag locks check)

def transaction (tag : T) (body : Call E DB W K T R) : Call E DB W K T R :=
  ExceptT.mk do
    match ← body.run with
    | .ok r => .commit tag (.ret (.ok r))
    | .error e => .rollback tag (.ret (.error e))

variable [Store W DB]

/-- The condition under which a call that returns meets `ok` and one that throws meets `err`. -/
def wp (l : Logic DB W K T) (p : Call E DB W K T R) (ok : Post DB W K R) (err : Post DB W K E)
    (commits : List (DB × DB)) (log : List W) (locks : List K) (db : DB) : Prop :=
  Prog.wp l p.run
    (fun r =>
      match r with
      | .ok a => ok a
      | .error e => err e)
    commits log locks db

variable {l : Logic DB W K T} {ok : Post DB W K R} {err : Post DB W K E}
  {commits : List (DB × DB)} {log : List W} {locks : List K} {db : DB}

@[simp]
theorem wp_pure (r : R)
    : wp l (pure r : Call E DB W K T R) ok err commits log locks db
        =
      ok r commits log locks db := rfl

@[simp]
theorem wp_throw (e : E)
    : wp l (throw e : Call E DB W K T R) ok err commits log locks db
        =
      err e commits log locks db := rfl

theorem wp_run (p : Call E DB W K T R) (post : Post DB W K (Except E R))
    : p.run.wp l post commits log locks db
        ↔
      wp l p (fun r => post (.ok r)) (fun e => post (.error e)) commits log locks db := by
  unfold wp
  apply iff_of_eq
  congr 1
  funext r
  cases r <;> rfl

theorem wp_ofExcept {r : Except E R} (hok : ∀ a, r = .ok a → ok a commits log locks db)
    (herr : ∀ e, r = .error e → err e commits log locks db)
    : wp l (ofExcept r : Call E DB W K T R) ok err commits log locks db := by
  cases r with
  | ok a => exact hok a rfl
  | error e => exact herr e rfl

theorem wp_bind (p : Call E DB W K T R) (k : R → Call E DB W K T S) {ok : Post DB W K S}
    : wp l (p >>= k) ok err commits log locks db
        ↔
      wp l p (fun r => wp l (k r) ok err) err commits log locks db := by
  have hrun : (p >>= k).run = p.run >>= ExceptT.bindCont k := rfl
  unfold wp
  rw [hrun, Prog.wp_bind]
  apply iff_of_eq
  congr 1
  funext r
  cases r <;> rfl

theorem wp_mono {p : Call E DB W K T R} {ok' : Post DB W K R} {err' : Post DB W K E}
    (hok : ∀ r commits log locks db, ok r commits log locks db → ok' r commits log locks db)
    (herr : ∀ e commits log locks db, err e commits log locks db → err' e commits log locks db)
    (h : wp l p ok err commits log locks db) : wp l p ok' err' commits log locks db := by
  apply Prog.wp_mono _ h
  intro r commits log locks db hr
  cases r with
  | ok r => exact hok r commits log locks db hr
  | error e => exact herr e commits log locks db hr

theorem wp_tryCatch (p : Call E DB W K T R) (handle : E → Call E DB W K T R)
    : wp l (tryCatch p handle) ok err commits log locks db
        ↔
      wp l p ok (fun e => wp l (handle e) ok err) commits log locks db := by
  unfold wp
  have hrun
      : (tryCatch p handle).run
          =
        p.run >>= fun r =>
          match r with
          | .ok a => .ret (.ok a)
          | .error e => (handle e).run := rfl
  rw [hrun, Prog.wp_bind]
  apply iff_of_eq
  congr 1
  funext r
  cases r <;> rfl

theorem wp_check {tag : T} {query : DB → Except E R} (hmid : l.Mid commits)
    (hok : ∀ db' r, l.Rely (some tag) locks db db' → l.Inv db' → l.Assume tag log db' →
      query db' = .ok r → ok r commits log locks db')
    (herr : ∀ db' e, l.Rely (some tag) locks db db' → l.Inv db' → query db' = .error e →
      err e commits log locks db')
    : wp l (check tag query) ok err commits log locks db := by
  apply Prog.wp_base hmid
  intro db' hrely hinv hassume
  cases hquery : query db' with
  | ok r => exact hok db' r hrely hinv hassume hquery
  | error e => exact herr db' e hrely hinv hquery

theorem wp_query {tag : T} {q : DB → R} (hmid : l.Mid commits)
    (h : ∀ db', l.Rely (some tag) locks db db' → l.Inv db' → l.Assume tag log db' →
      ok (q db') commits log locks db')
    : wp l (query tag q) ok err commits log locks db := by
  apply Prog.wp_base hmid
  intro db' hrely hinv hassume
  exact h db' hrely hinv hassume

theorem wp_queryOnTx {tag : T} {q : DB → R} (hmid : l.Mid commits)
    (h : ∀ db', l.Rely (some tag) locks db db' → l.Inv db' → l.Assume tag log db' →
      ok (q (replay log db')) commits log locks db')
    : wp l (queryOnTx tag q) ok err commits log locks db := by
  apply Prog.wp_onTx hmid
  intro db' hrely hinv hassume
  exact h db' hrely hinv hassume

theorem wp_selectForUpdate {tag : T} {needs : DB → List K} {q : DB → R} (hmid : l.Mid commits)
    (h : ∀ db', l.Rely (some tag) locks db db' → l.Inv db' → l.Assume tag log db' →
      ok (q (replay log db')) commits log (locks ++ needs (replay log db')) db')
    : wp l (selectForUpdate tag needs q) ok err commits log locks db := by
  apply Prog.wp_selectForUpdate hmid
  intro db' hrely hinv hassume
  exact h db' hrely hinv hassume

theorem wp_write {tag : T} {needs : DB → List K} {check : DB → Except E (List W)}
    {ok : Post DB W K Unit} (hmid : l.Mid commits)
    (hok : ∀ db' ws, l.Rely (some tag) locks db db' → l.Inv db' → l.Assume tag log db' →
      check (replay log db') = .ok ws →
        ok () commits (log ++ ws) (locks ++ needs (replay log db')) db')
    (herr : ∀ db' e, l.Rely (some tag) locks db db' → l.Inv db' →
      check (replay log db') = .error e →
        err e commits log (locks ++ needs (replay log db')) db')
    : wp l (write tag needs check) ok err commits log locks db := by
  apply Prog.wp_write hmid
  . intro db' ws hrely hinv hassume hcheck
    exact hok db' ws hrely hinv hassume hcheck
  . intro db' e hrely hinv _ hcheck
    exact herr db' e hrely hinv hcheck

/-- A transaction: its body has to meet the guarantee whenever it returns. -/
theorem wp_transaction {tag : T} {body : Call E DB W K T R}
    (h : wp l body
      (fun r commits log locks db =>
        l.Mid commits ∧
        ∀ db', l.Rely (some tag) locks db db' → l.Inv db' → l.Assume tag log db' →
          l.Guar locks log db'
            ∧ ok r (commits ++ [(db', replay log db')]) [] [] (replay log db'))
      (fun e commits _ locks db =>
        l.Mid commits ∧
        ∀ db', l.Rely (some tag) locks db db' → l.Inv db' → err e commits [] [] db')
      commits log locks db)
    : wp l (transaction tag body) ok err commits log locks db := by
  have hrun
      : (transaction tag body).run
          =
        body.run >>= fun r =>
          match r with
          | .ok a => .commit tag (.ret (.ok a))
          | .error e => .rollback tag (.ret (.error e)) := rfl
  unfold wp
  rw [hrun, Prog.wp_bind]
  apply Prog.wp_mono _ h
  intro r commits log locks db hr
  cases r <;> exact hr

/-- The loop rule: `I done` holds once the elements `done` of the list have been handled. -/
theorem wp_forM {f : α → Call E DB W K T PUnit} {xs : List α} {ok : Post DB W K PUnit}
    (I : List α → List (DB × DB) → List W → List K → DB → Prop)
    (hstep : ∀ done x rest commits log locks db, xs = done ++ x :: rest →
      I done commits log locks db → wp l (f x) (fun _ => I (done ++ [x])) err commits log locks db)
    (hok : ∀ commits log locks db, I xs commits log locks db → ok () commits log locks db)
    (h : I [] commits log locks db) : wp l (xs.forM f) ok err commits log locks db := by
  have hloop
      : ∀ rest done commits log locks db, xs = done ++ rest → I done commits log locks db →
          wp l (rest.forM f) ok err commits log locks db := by
    intro rest
    induction rest with
    | nil =>
      intro done commits log locks db hxs hdone
      rw [List.append_nil] at hxs
      subst hxs
      exact hok _ _ _ _ hdone
    | cons x rest ih =>
      intro done commits log locks db hxs hdone
      rw [List.forM, wp_bind]
      have hx := hstep done x rest _ _ _ _ hxs hdone
      refine wp_mono ?_ (fun _ _ _ _ _ he => he) hx
      intro _ commits log locks db hdone'
      apply ih (done ++ [x]) _ _ _ _ _ hdone'
      rw [hxs, List.append_assoc]
      rfl
  exact hloop xs [] _ _ _ _ rfl h

end Call

variable [Store W DB]

namespace Prog

/-- Run a program without any other client: its result and the database it leaves behind. -/
def solo (p : Prog DB W K T R) (log : List W) (db : DB) : R × DB :=
  match p with
  | .ret r => (r, db)
  | .exec _ _ writes next => (next db (replay log db)).solo (log ++ writes db (replay log db)) db
  | .commit _ next => next.solo [] (replay log db)
  | .rollback _ next => next.solo [] db

end Prog

/-- The environment of a program that runs alone on databases that satisfy an invariant. -/
def Env.alone (inv : DB → Prop) : Env DB W K T where
  Rely _ _ db db' := db' = db
  Assume _ _ _ := True
  Inv := inv

namespace Env

omit [Store W DB] in
theorem past_alone {inv : DB → Prop} {db db' : DB}
    (h : (Env.alone inv : Env DB W K T).Past db db') : db' = db := by
  induction h with
  | refl => rfl
  | tail _ hstep ih =>
    obtain ⟨_, _, heq⟩ := hstep
    exact heq.trans ih

omit [Store W DB] in
theorem pastAt_alone {inv : DB → Prop} {p : T → Prop} {db db' : DB}
    (h : (Env.alone inv : Env DB W K T).PastAt p db db') : db' = db := by
  induction h with
  | refl => rfl
  | tail _ hstep ih =>
    obtain ⟨_, _, _, heq⟩ := hstep
    exact heq.trans ih

omit [Store W DB] in
/-- What a program that runs alone has seen still holds. -/
theorem seen_alone {inv : DB → Prop} {P : DB → Prop} {db : DB}
    (h : (Env.alone inv : Env DB W K T).Seen P db) : P db := by
  obtain ⟨db0, _, hdb0, hpast⟩ := h
  rw [past_alone hpast]
  exact hdb0

end Env

/-- Commits that lead from one database to another. -/
def Linked : DB → List (DB × DB) → DB → Prop
  | db, [], db' => db = db'
  | db, c :: cs, db' => c.1 = db ∧ Linked c.2 cs db'

omit [Store W DB] in
/-- A property that every commit keeps holds after all of them. -/
theorem Linked.keeps {P : DB → Prop} {db db' : DB} {cs : List (DB × DB)} (h : Linked db cs db')
    (hkeep : ∀ c ∈ cs, P c.1 → P c.2) (hdb : P db) : P db' := by
  induction cs generalizing db with
  | nil =>
    rw [← show db = db' from h]
    exact hdb
  | cons c cs ih =>
    obtain ⟨hc, hrest⟩ := h
    subst hc
    apply ih hrest
    . intro c' hc'
      exact hkeep c' (List.mem_cons_of_mem c hc')
    . exact hkeep c List.mem_cons_self hdb

/-- A program that runs alone keeps what every write keeps. -/
theorem Prog.solo_induction {P : DB → Prop} (hw : ∀ (w : W) db, P db → P (Store.apply w db))
    {p : Prog DB W K T R} {log : List W} {db : DB} (hdb : P db) : P (p.solo log db).2 := by
  induction p generalizing log db with
  | ret r => exact hdb
  | exec tag needs writes next ih => exact ih _ _ hdb
  | commit tag next ih =>
    apply ih
    exact replay_induction hdb fun w _ db => hw w db
  | rollback tag next ih => exact ih hdb

/-- What the logic shows of a program is true of the program when it runs alone. -/
theorem Prog.solo_of_wp {l : Logic DB W K T} (hrely : ∀ tag locks db, l.Rely tag locks db db)
    (hassume : ∀ tag log db, l.Assume tag log db)
    (hguar : ∀ locks log db, l.Inv db → l.Guar locks log db → l.Inv (replay log db))
    {p : Prog DB W K T R} {post : Post DB W K R} {commits : List (DB × DB)} {log : List W}
    {locks : List K} {db : DB} (hdb : l.Inv db) (h : p.wp l post commits log locks db)
    : l.Inv (p.solo log db).2
        ∧ ∃ own log' locks', Linked db own (p.solo log db).2
            ∧ (∀ c ∈ own, ∃ locks log, l.Guar locks log c.1 ∧ c.2 = replay log c.1)
            ∧ post (p.solo log db).1 (commits ++ own) log' locks' (p.solo log db).2 := by
  induction p generalizing commits log locks db with
  | ret r =>
    refine ⟨hdb, [], log, locks, rfl, by simp, ?_⟩
    rw [List.append_nil]
    exact h
  | exec tag needs writes next ih =>
    apply ih
    . exact hdb
    . exact h.2 db (hrely _ _ _) hdb (hassume _ _ _)
  | commit tag next ih =>
    obtain ⟨hcommit, hnext⟩ := h.2 db (hrely _ _ _) hdb (hassume _ _ _)
    obtain ⟨hinv, own, log', locks', hlinked, hown, hpost⟩ := ih (hguar _ _ _ hdb hcommit) hnext
    refine ⟨hinv, (db, replay log db) :: own, log', locks', ⟨rfl, hlinked⟩, ?_, ?_⟩
    . intro c hc
      cases List.mem_cons.mp hc with
      | inl hc =>
        subst hc
        exact ⟨locks, log, hcommit, rfl⟩
      | inr hc => exact hown c hc
    . rw [List.append_assoc, List.singleton_append] at hpost
      exact hpost
  | rollback tag next ih => exact ih hdb (h.2 db (hrely _ _ _) hdb)

end ReadCommitted
