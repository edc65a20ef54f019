import SentryPos.ReadCommitted.Call

/-!
This module contains the symbolic execution of calls that run alone: what each statement returns,
what is left in the log and the database behind it.
-/

namespace ReadCommitted

variable {DB W K T E R S : Type} [Store W DB]

/-- Run a program without any other client: its result, the uncommitted log and the database. -/
def Prog.alone (p : Prog DB W K T R) (log : List W) (db : DB) : R × List W × DB :=
  match p with
  | .ret r => (r, log, db)
  | .exec _ _ writes next => (next db (replay log db)).alone (log ++ writes db (replay log db)) db
  | .commit _ next => next.alone [] (replay log db)
  | .rollback _ next => next.alone [] db

theorem Prog.alone_bind (p : Prog DB W K T R) (k : R → Prog DB W K T S) (log : List W) (db : DB)
    : (p >>= k).alone log db
        =
      (k (p.alone log db).1).alone (p.alone log db).2.1 (p.alone log db).2.2 := by
  induction p generalizing log db with
  | ret r => rfl
  | exec tag needs writes next ih => exact ih _ _ _ _
  | commit tag next ih => exact ih _ _
  | rollback tag next ih => exact ih _ _

theorem Prog.solo_eq (p : Prog DB W K T R) (log : List W) (db : DB)
    : p.solo log db = ((p.alone log db).1, (p.alone log db).2.2) := by
  induction p generalizing log db with
  | ret r => rfl
  | exec tag needs writes next ih =>
    unfold alone solo
    rw [ih]
  | commit tag next ih =>
    unfold alone solo
    rw [ih]
  | rollback tag next ih =>
    unfold alone solo
    rw [ih]

namespace Call

def alone (p : Call E DB W K T R) (log : List W) (db : DB) : Except E R × List W × DB :=
  Prog.alone p.run log db

variable {log : List W} {db : DB} {tag : T}

@[simp]
theorem alone_pure (r : R) : alone (pure r : Call E DB W K T R) log db = (.ok r, log, db) := rfl

@[simp]
theorem alone_throw (e : E)
    : alone (throw e : Call E DB W K T R) log db = (.error e, log, db) := rfl

@[simp]
theorem alone_ofExcept (r : Except E R)
    : alone (ofExcept r : Call E DB W K T R) log db = (r, log, db) := rfl

/-- A call goes on where its first part returns and ends where it throws. -/
theorem alone_bind (p : Call E DB W K T R) (k : R → Call E DB W K T S)
    : alone (p >>= k) log db
        =
      match p.alone log db with
      | (.ok r, log', db') => (k r).alone log' db'
      | (.error e, log', db') => (.error e, log', db') := by
  have hrun : (p >>= k).run = p.run >>= ExceptT.bindCont k := rfl
  unfold alone
  rw [hrun, Prog.alone_bind]
  cases Prog.alone p.run log db with
  | mk r rest =>
    cases r with
    | ok r => rfl
    | error e => rfl

theorem alone_tryCatch (p : Call E DB W K T R) (handle : E → Call E DB W K T R)
    : alone (tryCatch p handle) log db
        =
      match p.alone log db with
      | (.ok r, log', db') => (.ok r, log', db')
      | (.error e, log', db') => (handle e).alone log' db' := by
  obtain ⟨next, hrun, hok, herror⟩
      : ∃ next : Except E R → Prog DB W K T (Except E R), (tryCatch p handle).run = p.run >>= next
          ∧ (∀ a, next (.ok a) = .ret (.ok a)) ∧ ∀ e, next (.error e) = (handle e).run :=
    ⟨_, rfl, fun _ => rfl, fun _ => rfl⟩
  unfold alone
  rw [hrun, Prog.alone_bind]
  cases Prog.alone p.run log db with
  | mk r rest =>
    cases r with
    | ok r =>
      dsimp only
      rw [hok]
      rfl
    | error e =>
      dsimp only
      rw [herror]

theorem alone_check (query : DB → Except E R)
    : alone (check tag query : Call E DB W K T R) log db = (query db, log, db) := by
  unfold alone check
  simp [Prog.base, Prog.alone, ExceptT.run, ExceptT.mk]

@[simp]
theorem alone_query (q : DB → R)
    : alone (query tag q : Call E DB W K T R) log db = (.ok (q db), log, db) := by
  unfold query
  rw [alone_check]

@[simp]
theorem alone_queryOnTx (q : DB → R)
    : alone (queryOnTx tag q : Call E DB W K T R) log db = (.ok (q (replay log db)), log, db) := by
  unfold alone queryOnTx
  simp [Prog.onTx, Prog.alone, ExceptT.run, ExceptT.mk]

theorem alone_write (locks : DB → List K) (check : DB → Except E (List W))
    : alone (write tag locks check : Call E DB W K T Unit) log db
        =
      match check (replay log db) with
      | .ok ws => (.ok (), log ++ ws, db)
      | .error e => (.error e, log, db) := by
  unfold alone write
  simp only [Prog.write, Prog.alone, ExceptT.run, ExceptT.mk]
  cases check (replay log db) with
  | ok ws => rfl
  | error e => simp [Prog.alone]

theorem alone_transaction (body : Call E DB W K T R)
    : alone (transaction tag body) log db
        =
      match body.alone log db with
      | (.ok r, log', db') => (.ok r, [], replay log' db')
      | (.error e, _, db') => (.error e, [], db') := by
  obtain ⟨next, hrun, hok, herror⟩
      : ∃ next : Except E R → Prog DB W K T (Except E R), (transaction tag body).run = body.run >>= next
          ∧ (∀ a, next (.ok a) = .commit tag (.ret (.ok a)))
          ∧ ∀ e, next (.error e) = .rollback tag (.ret (.error e)) :=
    ⟨_, rfl, fun _ => rfl, fun _ => rfl⟩
  unfold alone
  rw [hrun, Prog.alone_bind]
  cases Prog.alone body.run log db with
  | mk r rest =>
    cases r with
    | ok r =>
      dsimp only
      rw [hok]
      rfl
    | error e =>
      dsimp only
      rw [herror]
      rfl

def Settles (p : Call E DB W K T R) : Prop :=
  ∀ db, (p.alone [] db).2.1 = []

namespace Settles

omit db log

theorem pure (r : R) : Settles (pure r : Call E DB W K T R) := fun _ => rfl

theorem throw (e : E) : Settles (throw e : Call E DB W K T R) := fun _ => rfl

theorem check (query : DB → Except E R) : Settles (check tag query : Call E DB W K T R) := by
  intro db
  rw [alone_check]

theorem query (q : DB → R) : Settles (query tag q : Call E DB W K T R) :=
  check _

theorem transaction (body : Call E DB W K T R) : Settles (transaction tag body) := by
  intro db
  rw [alone_transaction]
  split <;> rfl

theorem bind {p : Call E DB W K T R} {k : R → Call E DB W K T S} (hp : Settles p)
    (hk : ∀ r, Settles (k r)) : Settles (p >>= k) := by
  intro db
  have hlog := hp db
  rw [alone_bind]
  cases halone : p.alone [] db with
  | mk r rest =>
    rw [halone] at hlog
    cases r with
    | ok r =>
      dsimp only at hlog ⊢
      rw [hlog]
      exact hk r _
    | error e => exact hlog

theorem tryCatch {p : Call E DB W K T R} {handle : E → Call E DB W K T R} (hp : Settles p)
    (hhandle : ∀ e, Settles (handle e)) : Settles (tryCatch p handle) := by
  intro db
  have hlog := hp db
  rw [alone_tryCatch]
  cases halone : p.alone [] db with
  | mk r rest =>
    rw [halone] at hlog
    cases r with
    | ok r => exact hlog
    | error e =>
      dsimp only at hlog ⊢
      rw [hlog]
      exact hhandle e _

end Settles

end Call

end ReadCommitted
