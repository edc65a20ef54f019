import SentryPos.ReadCommitted.Alone

/-!
This module contains the frame rule of programs: a program all of whose writes have a property
changes a database only as such writes do.
-/

namespace ReadCommitted

variable {DB W K T E R S : Type}

/-- All writes that a program may append to its log satisfy `P`. -/
def Prog.OnlyWrites (P : W → Prop) : Prog DB W K T R → Prop
  | .ret _ => True
  | .exec _ _ writes next =>
    (∀ db view, ∀ w ∈ writes db view, P w) ∧ ∀ db view, (next db view).OnlyWrites P
  | .commit _ next => next.OnlyWrites P
  | .rollback _ next => next.OnlyWrites P

theorem Prog.OnlyWrites.bind {P : W → Prop} {p : Prog DB W K T R} {k : R → Prog DB W K T S}
    (hp : p.OnlyWrites P) (hk : ∀ r, (k r).OnlyWrites P) : (p >>= k).OnlyWrites P := by
  induction p with
  | ret r => exact hk r
  | exec tag needs writes next ih => exact ⟨hp.1, fun db view => ih db view (hp.2 db view)⟩
  | commit tag next ih => exact ih hp
  | rollback tag next ih => exact ih hp

/-- What the writes of a program keep holds of the log and of the database when it has run. -/
theorem Prog.OnlyWrites.alone [Store W DB] {P : W → Prop} {Q : DB → Prop} {p : Prog DB W K T R}
    (hp : p.OnlyWrites P) (hkeep : ∀ w db, P w → Q db → Q (Store.apply w db)) {log : List W}
    {db : DB} (hlog : ∀ w ∈ log, P w) (hdb : Q db)
    : (∀ w ∈ (p.alone log db).2.1, P w) ∧ Q (p.alone log db).2.2 := by
  have hreplay : ∀ log db, (∀ w ∈ log, P w) → Q db → Q (replay log db) := by
    intro log db hlog hdb
    apply replay_induction hdb
    intro w hw db hdb
    exact hkeep w db (hlog w hw) hdb
  induction p generalizing log db with
  | ret r => exact ⟨hlog, hdb⟩
  | exec tag needs writes next ih =>
    apply ih _ _ (hp.2 _ _) _ hdb
    intro w hw
    cases List.mem_append.mp hw with
    | inl hw => exact hlog w hw
    | inr hw => exact hp.1 _ _ w hw
  | commit tag next ih => exact ih hp (by simp) (hreplay log db hlog hdb)
  | rollback tag next ih => exact ih hp (by simp) hdb

/-- All writes of a client, those in its log and those to come, satisfy `P`. -/
def Proc.OnlyWrites (P : W → Prop) (p : Proc DB W K T R) : Prop :=
  (∀ w ∈ p.log, P w) ∧ p.prog.OnlyWrites P

theorem Proc.OnlyWrites.start {P : W → Prop} {prog : Prog DB W K T R} (h : prog.OnlyWrites P)
    : (Proc.start prog).OnlyWrites P :=
  ⟨by simp [Proc.start], h⟩

theorem Proc.OnlyWrites.step {ι : Type} [Store W DB] [DecidableEq ι] {P : W → Prop} {crash : R}
    {c c' : Config ι DB W K T R} {i : ι} (h : (c.procs i).OnlyWrites P) (hstep : Step crash c i c')
    : (c'.procs i).OnlyWrites P
        ∧ (c'.db = c.db ∨ ∃ log, (∀ w ∈ log, P w) ∧ c'.db = replay log c.db) := by
  obtain ⟨hlog, hprogs⟩ := h
  cases hstep with
  | exec hprog =>
    rw [hprog] at hprogs
    refine ⟨?_, .inl rfl⟩
    simp only [Config.setProc, Function.update_self]
    refine ⟨?_, hprogs.2 _ _⟩
    intro w hw
    cases List.mem_append.mp hw with
    | inl hw => exact hlog w hw
    | inr hw => exact hprogs.1 _ _ w hw
  | commit hprog =>
    rw [hprog] at hprogs
    refine ⟨?_, .inr ⟨(c.procs i).log, hlog, rfl⟩⟩
    simp only [Config.commit, Function.update_self]
    exact .start hprogs
  | rollback hprog =>
    rw [hprog] at hprogs
    refine ⟨?_, .inl rfl⟩
    simp only [Config.setProc, Function.update_self]
    exact .start hprogs
  | abort =>
    refine ⟨?_, .inl rfl⟩
    simp only [Config.setProc, Function.update_self]
    exact .start trivial

namespace Call

def OnlyWrites (P : W → Prop) (p : Call E DB W K T R) : Prop :=
  Prog.OnlyWrites P p.run

namespace OnlyWrites

variable {P : W → Prop} {tag : T}

theorem pure (r : R) : OnlyWrites P (pure r : Call E DB W K T R) := trivial

theorem throw (e : E) : OnlyWrites P (throw e : Call E DB W K T R) := trivial

theorem throw_bind (e : E) (k : R → Call E DB W K T S)
    : OnlyWrites P ((MonadExcept.throw e : Call E DB W K T R) >>= k) := trivial

theorem ofExcept (r : Except E R) : OnlyWrites P (ofExcept r : Call E DB W K T R) := trivial

theorem bind {p : Call E DB W K T R} {k : R → Call E DB W K T S} (hp : OnlyWrites P p)
    (hk : ∀ r, OnlyWrites P (k r)) : OnlyWrites P (p >>= k) := by
  have hrun : (p >>= k).run = p.run >>= ExceptT.bindCont k := rfl
  unfold OnlyWrites
  rw [hrun]
  apply Prog.OnlyWrites.bind hp
  intro r
  cases r with
  | ok r => exact hk r
  | error e => trivial

theorem tryCatch {p : Call E DB W K T R} {handle : E → Call E DB W K T R} (hp : OnlyWrites P p)
    (hhandle : ∀ e, OnlyWrites P (handle e)) : OnlyWrites P (tryCatch p handle) := by
  apply Prog.OnlyWrites.bind hp
  intro r
  cases r with
  | ok r => trivial
  | error e => exact hhandle e

theorem check (query : DB → Except E R)
    : OnlyWrites P (check tag query : Call E DB W K T R) :=
  ⟨by simp, fun _ _ => trivial⟩

theorem query (q : DB → R) : OnlyWrites P (query tag q : Call E DB W K T R) :=
  check _

theorem write {locks : DB → List K} {check : DB → Except E (List W)}
    (h : ∀ view ws, check view = .ok ws → ∀ w ∈ ws, P w)
    : OnlyWrites P (write tag locks check : Call E DB W K T Unit) := by
  constructor
  . intro db view w hw
    dsimp only at hw
    split at hw
    . next ws hws => exact h view ws hws w hw
    . cases hw
  . intro db view
    dsimp only
    split <;> trivial

theorem transaction {body : Call E DB W K T R} (h : OnlyWrites P body)
    : OnlyWrites P (transaction tag body) := by
  apply Prog.OnlyWrites.bind h
  intro r
  cases r <;> trivial

end OnlyWrites

variable [Store W DB] {log : List W} {db : DB}

theorem OnlyWrites.alone {P : W → Prop} {Q : DB → Prop} {p : Call E DB W K T R}
    (hp : OnlyWrites P p) (hkeep : ∀ w db, P w → Q db → Q (Store.apply w db))
    (hlog : ∀ w ∈ log, P w) (hdb : Q db)
    : (∀ w ∈ (p.alone log db).2.1, P w) ∧ Q (p.alone log db).2.2 :=
  Prog.OnlyWrites.alone hp hkeep hlog hdb

end Call

end ReadCommitted
