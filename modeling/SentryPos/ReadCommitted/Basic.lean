import Mathlib.Data.Fintype.Basic
import Mathlib.Logic.Function.Basic
import Mathlib.Logic.Relation

/-!
This module contains the model of a set of clients that share one database at isolation level
READ COMMITTED. A client is a program of statements; its writes stay in a private log until it
commits, and the locks it takes are held until it commits or rolls back.
-/

namespace ReadCommitted

/--
Write statements and what each does to a database. A statement changes a row as a function of
the row's current version, so a log of statements may be replayed on any later state in which the
rows it locked are unchanged.
-/
class Store (W : Type) (DB : outParam Type) where
  apply : W → DB → DB

/--
The program of one client.

- `exec` is one statement. It waits until no other client holds a lock in `needs` of its own view,
  takes them, appends `writes` to the log and goes on with `next`. Both functions are given the
  committed database first and the client's own view of it (committed rows plus its own writes)
  second: a statement on another connection only looks at the former.
- `commit` applies the log to the database and releases the locks.
- `rollback` drops the log and releases the locks.
-/
inductive Prog (DB W K T R : Type) where
  | ret (r : R)
  | exec (tag : T) (needs : DB → List K) (writes : DB → DB → List W)
      (next : DB → DB → Prog DB W K T R)
  | commit (tag : T) (next : Prog DB W K T R)
  | rollback (tag : T) (next : Prog DB W K T R)

variable {DB W K T R S ι : Type}

namespace Prog

def bind (p : Prog DB W K T R) (k : R → Prog DB W K T S) : Prog DB W K T S :=
  match p with
  | .ret r => k r
  | .exec tag needs writes next => .exec tag needs writes fun db view => (next db view).bind k
  | .commit tag next => .commit tag (next.bind k)
  | .rollback tag next => .rollback tag (next.bind k)

instance : Monad (Prog DB W K T) where
  pure := .ret
  bind := bind

@[simp]
theorem pure_eq (r : R) : (pure r : Prog DB W K T R) = .ret r := rfl

@[simp]
theorem bind_ret (r : R) (k : R → Prog DB W K T S) : (.ret r : Prog DB W K T R) >>= k = k r := rfl

@[simp]
theorem bind_exec (tag : T) (needs : DB → List K) (writes : DB → DB → List W)
    (next : DB → DB → Prog DB W K T R) (k : R → Prog DB W K T S)
    : .exec tag needs writes next >>= k
        =
      .exec tag needs writes fun db view => next db view >>= k := rfl

@[simp]
theorem bind_commit (tag : T) (next : Prog DB W K T R) (k : R → Prog DB W K T S)
    : .commit tag next >>= k = .commit tag (next >>= k) := rfl

@[simp]
theorem bind_rollback (tag : T) (next : Prog DB W K T R) (k : R → Prog DB W K T S)
    : .rollback tag next >>= k = .rollback tag (next >>= k) := rfl

/-- The name of the statement the program waits at, `none` once it has returned. -/
def tag? : Prog DB W K T R → Option T
  | .ret _ => none
  | .exec tag _ _ _ => some tag
  | .commit tag _ => some tag
  | .rollback tag _ => some tag

/-- The result of a program that has returned. -/
def result? : Prog DB W K T R → Option R
  | .ret r => some r
  | _ => none

theorem eq_ret {prog : Prog DB W K T R} {r : R} (h : prog.result? = some r) : prog = .ret r := by
  cases prog with
  | ret r' =>
    cases h
    rfl
  | exec | commit | rollback => cases h

/-- One statement on a connection of its own: it sees committed rows only. -/
def base (tag : T) (query : DB → R) : Prog DB W K T R :=
  .exec tag (fun _ => []) (fun _ _ => []) fun db _ => .ret (query db)

/-- One statement on the transaction's connection: it sees the transaction's own writes. -/
def onTx (tag : T) (query : DB → R) : Prog DB W K T R :=
  .exec tag (fun _ => []) (fun _ _ => []) fun _ view => .ret (query view)

/-- A `SELECT ... FOR UPDATE`: the rows are read once their locks are held. -/
def selectForUpdate (tag : T) (locks : DB → List K) (query : DB → R) : Prog DB W K T R :=
  .exec tag locks (fun _ _ => []) fun _ view => .ret (query view)

/--
A write statement: it waits for its row locks and unique keys, then checks the constraints on the
transaction's view, and either fails or appends its writes.
-/
def write {E : Type} (tag : T) (locks : DB → List K) (check : DB → Except E (List W))
    : Prog DB W K T (Except E Unit) :=
  .exec tag locks
    (fun _ view =>
      match check view with
      | .ok ws => ws
      | .error _ => [])
    (fun _ view =>
      match check view with
      | .ok _ => .ret (.ok ())
      | .error e => .ret (.error e))

end Prog

variable [Store W DB]

def replay (log : List W) (db : DB) : DB :=
  log.foldl (fun db w => Store.apply w db) db

@[simp]
theorem replay_nil (db : DB) : replay ([] : List W) db = db := rfl

@[simp]
theorem replay_cons (w : W) (log : List W) (db : DB)
    : replay (w :: log) db = replay log (Store.apply w db) := rfl

@[simp]
theorem replay_append (log log' : List W) (db : DB)
    : replay (log ++ log') db = replay log' (replay log db) := by
  simp [replay]

/-- A property that every statement of a log keeps is kept by the log. -/
theorem replay_induction {P : DB → Prop} {log : List W} {db : DB} (hdb : P db)
    (hstep : ∀ w ∈ log, ∀ db, P db → P (Store.apply w db)) : P (replay log db) := by
  induction log generalizing db with
  | nil => exact hdb
  | cons w log ih =>
    rw [replay_cons]
    apply ih
    . apply hstep
      . simp
      . assumption
    . intro w' hw'
      apply hstep
      simp [hw']

theorem replay_appends {α : Type} (table : DB → List α) (rows : W → List α) {log : List W}
    (hstep : ∀ w ∈ log, ∀ db, table (Store.apply w db) = table db ++ rows w) (db : DB)
    : table (replay log db) = table db ++ log.flatMap rows := by
  induction log generalizing db with
  | nil => simp
  | cons w log ih =>
    rw [replay_cons, ih, hstep w (by simp), List.flatMap_cons, List.append_assoc]
    intro w' hw'
    apply hstep
    simp [hw']

/-- A client: what is left of its program, its uncommitted writes and the locks it holds. -/
structure Proc (DB W K T R : Type) where
  prog : Prog DB W K T R
  log : List W
  locks : List K

/-- A client that has not started yet. -/
def Proc.start (prog : Prog DB W K T R) : Proc DB W K T R :=
  { prog, log := [], locks := [] }

/-- One committed transaction: who committed it, and the database before and after. -/
structure Event (ι DB : Type) where
  client : ι
  before : DB
  after : DB

/-- The whole system: the committed database, the clients and the commits so far. -/
structure Config (ι DB W K T R : Type) where
  db : DB
  procs : ι → Proc DB W K T R
  history : List (Event ι DB)

namespace Config

/-- The system before any client has taken a step. -/
def init (db : DB) (progs : ι → Prog DB W K T R) : Config ι DB W K T R :=
  { db, procs := fun i => .start (progs i), history := [] }

/-- What client `i` sees on its transaction's connection. -/
def view (c : Config ι DB W K T R) (i : ι) : DB :=
  replay (c.procs i).log c.db

/-- The commits of client `i`, as pairs of the database before and after. -/
def commitsOf [DecidableEq ι] (c : Config ι DB W K T R) (i : ι) : List (DB × DB) :=
  (c.history.filter fun e => e.client = i).map fun e => (e.before, e.after)

/-- The locks in `ks` are free for client `i`. -/
def Free (c : Config ι DB W K T R) (i : ι) (ks : List K) : Prop :=
  ∀ j, j ≠ i → ∀ k ∈ ks, k ∉ (c.procs j).locks

instance [Fintype ι] [DecidableEq ι] [DecidableEq K] (c : Config ι DB W K T R) (i : ι)
    (ks : List K) : Decidable (c.Free i ks) := by
  unfold Free
  infer_instance

end Config

end ReadCommitted
