import Mathlib.Data.List.Pairwise
import SentryPos.ReadCommitted.Basic

/-!
This module contains the interleaving semantics of clients at READ COMMITTED: the step relation, the
runs it gives rise to, an executable scheduler for fixed runs and what holds of every history.
-/

namespace ReadCommitted

variable {DB W K T R ι : Type} [Store W DB] [DecidableEq ι]

/-- Put client `i` into a new state. -/
def Config.setProc (c : Config ι DB W K T R) (i : ι) (p : Proc DB W K T R)
    : Config ι DB W K T R :=
  { c with procs := Function.update c.procs i p }

/-- Commit the log of client `i`, which goes on with `next`. -/
def Config.commit (c : Config ι DB W K T R) (i : ι) (next : Prog DB W K T R)
    : Config ι DB W K T R where
  db := c.view i
  procs := Function.update c.procs i (.start next)
  history := c.history ++ [⟨i, c.db, c.view i⟩]

/--
One step of client `i`. Any client that has not returned may be aborted: a deadlock, a timeout, a
constraint of a table that is not modelled or a lost connection roll its transaction back and make
the call end with `crash`.
-/
inductive Step (crash : R) : Config ι DB W K T R → ι → Config ι DB W K T R → Prop where
  | exec {c : Config ι DB W K T R} {i : ι} {tag : T} {needs : DB → List K}
      {writes : DB → DB → List W} {next : DB → DB → Prog DB W K T R}
      (hprog : (c.procs i).prog = .exec tag needs writes next)
      (hfree : c.Free i (needs (c.view i)))
      : Step crash c i (c.setProc i {
          prog := next c.db (c.view i)
          log := (c.procs i).log ++ writes c.db (c.view i)
          locks := (c.procs i).locks ++ needs (c.view i)
        })
  | commit {c : Config ι DB W K T R} {i : ι} {tag : T} {next : Prog DB W K T R}
      (hprog : (c.procs i).prog = .commit tag next)
      : Step crash c i (c.commit i next)
  | rollback {c : Config ι DB W K T R} {i : ι} {tag : T} {next : Prog DB W K T R}
      (hprog : (c.procs i).prog = .rollback tag next)
      : Step crash c i (c.setProc i (.start next))
  | abort {c : Config ι DB W K T R} {i : ι}
      (hprog : (c.procs i).prog.result? = none)
      : Step crash c i (c.setProc i (.start (.ret crash)))

/-- The runs all of whose steps, from a state to the next by a client, satisfy `allowed`. -/
inductive RunWhere (crash : R)
    (allowed : Config ι DB W K T R → ι → Config ι DB W K T R → Prop)
    : Config ι DB W K T R → Config ι DB W K T R → Prop where
  | refl {c : Config ι DB W K T R} : RunWhere crash allowed c c
  | step {c c' c'' : Config ι DB W K T R} {i : ι} (hrun : RunWhere crash allowed c c')
      (hallowed : allowed c' i c'') (hstep : Step crash c' i c'') : RunWhere crash allowed c c''

/-- All runs. -/
abbrev Run (crash : R) : Config ι DB W K T R → Config ι DB W K T R → Prop :=
  RunWhere crash fun _ _ _ => True

/-- The step the scheduler takes when it gives client `i` its turn, `none` if the client waits. -/
def Config.turn [Fintype ι] [DecidableEq K] (c : Config ι DB W K T R) (i : ι)
    : Option (Config ι DB W K T R) :=
  match (c.procs i).prog with
  | .ret _ => none
  | .exec _ needs writes next =>
    if c.Free i (needs (c.view i)) then
      some <| c.setProc i {
        prog := next c.db (c.view i)
        log := (c.procs i).log ++ writes c.db (c.view i)
        locks := (c.procs i).locks ++ needs (c.view i)
      }
    else
      none
  | .commit _ next => some (c.commit i next)
  | .rollback _ next => some (c.setProc i (.start next))

/-- Give the clients their turns in the order of a schedule. -/
def Config.turns [Fintype ι] [DecidableEq K] (c : Config ι DB W K T R)
    : List ι → Option (Config ι DB W K T R)
  | [] => some c
  | i :: is => (c.turn i).bind fun c => c.turns is

/-- A schedule in rounds, in each of which the clients take the given numbers of turns. -/
def inRounds (n : ℕ) (rounds : List (List ℕ)) : List (Fin (n + 1)) :=
  rounds.flatMap fun counts =>
    counts.zipIdx.flatMap fun (count, i) => List.replicate count (Fin.ofNat (n + 1) i)

theorem Config.step_of_turn [Fintype ι] [DecidableEq K] {c c' : Config ι DB W K T R} {i : ι}
    (crash : R) (h : c.turn i = some c') : Step crash c i c' := by
  unfold Config.turn at h
  split at h
  . simp at h
  . next hprog =>
    split at h
    . next hfree =>
      simp only [Option.some.injEq] at h
      rw [← h]
      exact .exec hprog hfree
    . simp at h
  . next hprog =>
    simp only [Option.some.injEq] at h
    rw [← h]
    exact .commit hprog
  . next hprog =>
    simp only [Option.some.injEq] at h
    rw [← h]
    exact .rollback hprog

theorem RunWhere.trans {crash : R} {allowed : Config ι DB W K T R → ι → Config ι DB W K T R → Prop}
    {c c' c'' : Config ι DB W K T R} (h : RunWhere crash allowed c c')
    (h' : RunWhere crash allowed c' c'') : RunWhere crash allowed c c'' := by
  induction h' with
  | refl => exact h
  | step _ hallowed hstep ih => exact .step ih hallowed hstep

theorem Config.run_of_turns [Fintype ι] [DecidableEq K] {c c' : Config ι DB W K T R}
    (crash : R) (is : List ι) (h : c.turns is = some c') : Run crash c c' := by
  induction is generalizing c with
  | nil =>
    simp only [turns, Option.some.injEq] at h
    rw [h]
    exact .refl
  | cons i is ih =>
    simp only [turns, Option.bind_eq_some_iff] at h
    obtain ⟨c1, hturn, hturns⟩ := h
    have hfirst : Run crash c c1 := .step .refl trivial (step_of_turn crash hturn)
    exact hfirst.trans (ih hturns)

/-- Give the clients their turns as long as a check of the state and the client's turn passes. -/
def Config.turnsWhere [Fintype ι] [DecidableEq K] (check : Config ι DB W K T R → ι → Bool)
    (c : Config ι DB W K T R) : List ι → Option (Config ι DB W K T R)
  | [] => some c
  | i :: is => if check c i then (c.turn i).bind fun c => c.turnsWhere check is else none

theorem Config.run_of_turnsWhere [Fintype ι] [DecidableEq K] {c c' : Config ι DB W K T R}
    {allowed : Config ι DB W K T R → ι → Config ι DB W K T R → Prop}
    {check : Config ι DB W K T R → ι → Bool} (crash : R)
    (hcheck : ∀ c i c', check c i → c.turn i = some c' → allowed c i c') (is : List ι)
    (h : c.turnsWhere check is = some c') : RunWhere crash allowed c c' := by
  induction is generalizing c with
  | nil =>
    simp only [turnsWhere, Option.some.injEq] at h
    rw [h]
    exact .refl
  | cons i is ih =>
    unfold turnsWhere at h
    split at h
    . next hpass =>
      simp only [Option.bind_eq_some_iff] at h
      obtain ⟨c1, hturn, hturns⟩ := h
      have hfirst : RunWhere crash allowed c c1 :=
        .step .refl (hcheck c i c1 hpass hturn) (step_of_turn crash hturn)
      exact hfirst.trans (ih hturns)
    . cases h

theorem RunWhere.toRun {crash : R} {allowed : Config ι DB W K T R → ι → Config ι DB W K T R → Prop}
    {c c' : Config ι DB W K T R} (h : RunWhere crash allowed c c') : Run crash c c' := by
  induction h with
  | refl => exact .refl
  | step _ _ hstep ih => exact .step ih trivial hstep

theorem RunWhere.mono {crash : R}
    {allowed allowed' : Config ι DB W K T R → ι → Config ι DB W K T R → Prop}
    {c c' : Config ι DB W K T R} (h : RunWhere crash allowed c c')
    (hmono : ∀ c i c', allowed c i c' → allowed' c i c') : RunWhere crash allowed' c c' := by
  induction h with
  | refl => exact .refl
  | step _ hallowed hstep ih => exact .step ih (hmono _ _ _ hallowed) hstep

theorem Step.history_prefix {crash : R} {c c' : Config ι DB W K T R} {i : ι}
    (h : Step crash c i c') : c.history <+: c'.history := by
  cases h with
  | exec => exact List.prefix_rfl
  | commit => exact List.prefix_append _ _
  | rollback => exact List.prefix_rfl
  | abort => exact List.prefix_rfl

theorem RunWhere.history_prefix {crash : R}
    {allowed : Config ι DB W K T R → ι → Config ι DB W K T R → Prop} {c0 c : Config ι DB W K T R}
    (h : RunWhere crash allowed c0 c) : c0.history <+: c.history := by
  induction h with
  | refl => exact List.prefix_rfl
  | step _ _ hstep ih => exact ih.trans hstep.history_prefix

/-- All commits on the way are in the history of the state a run ends in. -/
theorem RunWhere.withHistory {crash : R}
    {allowed : Config ι DB W K T R → ι → Config ι DB W K T R → Prop}
    {c c' : Config ι DB W K T R} (h : RunWhere crash allowed c c')
    : RunWhere crash (fun a i next => allowed a i next ∧ next.history <+: c'.history) c c' := by
  induction h with
  | refl => exact .refl
  | step _ hallowed hstep ih =>
    have hextends := hstep.history_prefix
    apply RunWhere.step _ ⟨hallowed, List.prefix_rfl⟩ hstep
    apply ih.mono
    intro _ _ _ h
    exact ⟨h.1, h.2.trans hextends⟩

theorem RunWhere.within {crash : R} {c c' : Config ι DB W K T R} (h : Run crash c c')
    : RunWhere crash (fun _ _ next => next.history <+: c'.history) c c' := by
  apply h.withHistory.mono
  intro _ _ _ h
  exact h.2

/-- The commits on the way from one state to another come after those of the first. -/
theorem RunWhere.between {crash : R} {c c' : Config ι DB W K T R} (h : Run crash c c')
    : RunWhere crash (fun a _ next => c.history <+: a.history ∧ next.history <+: c'.history) c c' := by
  induction h with
  | refl => exact .refl
  | step hrun _ hstep ih =>
    apply RunWhere.step _ ⟨hrun.history_prefix, List.prefix_rfl⟩ hstep
    apply ih.mono
    intro _ _ _ h
    exact ⟨h.1, h.2.trans hstep.history_prefix⟩

/-- The committed databases of a run. -/
def Config.databases (c : Config ι DB W K T R) (db : DB) : List DB :=
  db :: c.history.map (·.after)

theorem Config.mem_databases {c c' : Config ι DB W K T R} {db : DB} {i : ι}
    {next : Prog DB W K T R} (hwithin : (c'.commit i next).history <+: c.history)
    : c'.view i ∈ c.databases db := by
  have hlast : ⟨i, c'.db, c'.view i⟩ ∈ (c'.commit i next).history := by
    simp [commit]
  exact List.mem_cons_of_mem db (List.mem_map_of_mem (hwithin.subset hlast))

/-- The committed databases of a run since it was in a state. -/
def Config.databasesSince (c c0 : Config ι DB W K T R) : List DB :=
  c0.db :: (c.history.drop c0.history.length).map (·.after)

theorem Config.mem_databasesSince {c c0 c' : Config ι DB W K T R} {i : ι} {next : Prog DB W K T R}
    (hsince : c0.history <+: c'.history) (hwithin : (c'.commit i next).history <+: c.history)
    : c'.view i ∈ c.databasesSince c0 := by
  have hlast : ⟨i, c'.db, c'.view i⟩ ∈ (c'.commit i next).history.drop c0.history.length := by
    unfold commit
    rw [List.drop_append_of_le_length hsince.length_le]
    exact List.mem_append_right _ List.mem_cons_self
  exact List.mem_cons_of_mem _ (List.mem_map_of_mem ((hwithin.drop _).subset hlast))

/-- The events of a history follow on from each other, from one database to another. -/
def Chain : DB → List (Event ι DB) → DB → Prop
  | db, [], db' => db = db'
  | db, e :: es, db' => e.before = db ∧ Chain e.after es db'

omit [Store W DB] [DecidableEq ι] in
theorem Chain.append {db db' db'' : DB} {es : List (Event ι DB)} {i : ι}
    (h : Chain db es db') : Chain db (es ++ [⟨i, db', db''⟩]) db'' := by
  induction es generalizing db with
  | nil =>
    simp only [Chain] at h
    simp [Chain, h]
  | cons e es ih =>
    simp only [Chain, List.cons_append] at h ⊢
    exact ⟨h.1, ih h.2⟩

/-- The history of a run leads from the first committed database to the current one. -/
theorem RunWhere.chain {crash : R} {allowed : Config ι DB W K T R → ι → Config ι DB W K T R → Prop} {db : DB}
    {progs : ι → Prog DB W K T R} {c : Config ι DB W K T R}
    (h : RunWhere crash allowed (.init db progs) c) : Chain db c.history c.db := by
  generalize hinit : Config.init db progs = c0 at h
  induction h with
  | refl =>
    rw [← hinit]
    rfl
  | step _ _ hstep ih =>
    cases hstep with
    | exec => exact ih
    | commit => exact ih.append
    | rollback => exact ih
    | abort => exact ih

omit [Store W DB] [DecidableEq ι] in
/-- A property every event keeps holds after the history if it holds before. -/
theorem Chain.keeps {P : DB → Prop} {db db' : DB} {es : List (Event ι DB)}
    (h : Chain db es db') (hkeep : ∀ e ∈ es, P e.before → P e.after) (hdb : P db) : P db' := by
  induction es generalizing db with
  | nil =>
    simp only [Chain] at h
    rw [← h]
    exact hdb
  | cons e es ih =>
    simp only [Chain] at h
    apply ih h.2
    . intro e' he'
      apply hkeep
      simp [he']
    . apply hkeep
      . simp
      . rw [h.1]
        exact hdb

omit [Store W DB] [DecidableEq ι] in
theorem Chain.of_append {db db' : DB} {es1 es2 : List (Event ι DB)} {e : Event ι DB}
    (h : Chain db (es1 ++ e :: es2) db') : Chain db es1 e.before ∧ Chain e.after es2 db' := by
  induction es1 generalizing db with
  | nil => exact ⟨h.1.symm, h.2⟩
  | cons e' es1 ih =>
    simp only [List.cons_append, Chain] at h ⊢
    exact ⟨⟨h.1, (ih h.2).1⟩, (ih h.2).2⟩

omit [Store W DB] [DecidableEq ι] in
theorem Chain.split {db db' : DB} {es : List (Event ι DB)} {e : Event ι DB} (h : Chain db es db')
    (he : e ∈ es) : ∃ es1 es2, es = es1 ++ e :: es2 ∧ Chain db es1 e.before ∧ Chain e.after es2 db' := by
  obtain ⟨es1, es2, heq⟩ := List.append_of_mem he
  rw [heq] at h
  exact ⟨es1, es2, heq, h.of_append⟩

omit [Store W DB] [DecidableEq ι] in
theorem Chain.to_last {r : DB → DB → Prop} (hrefl : ∀ db, r db db)
    (htrans : ∀ db db' db'', r db db' → r db' db'' → r db db'') {db db' : DB}
    {es : List (Event ι DB)} (h : Chain db es db') (hes : ∀ e ∈ es, r e.before e.after)
    : ∀ d ∈ db :: es.map (·.after), r d db' := by
  induction es generalizing db with
  | nil =>
    intro d hd
    rw [List.mem_singleton.mp hd, show db = db' from h]
    exact hrefl db'
  | cons e es ih =>
    have hlast := ih h.2 fun e' he' => hes e' (List.mem_cons_of_mem e he')
    intro d hd
    cases List.mem_cons.mp hd with
    | inl hd =>
      apply htrans _ e.after
      . rw [hd, ← h.1]
        exact hes e List.mem_cons_self
      . exact hlast e.after List.mem_cons_self
    | inr hd => exact hlast d hd

omit [Store W DB] [DecidableEq ι] in
theorem Chain.last_mem {db db' : DB} {es : List (Event ι DB)} (h : Chain db es db')
    : db' ∈ db :: es.map (·.after) := by
  induction es generalizing db with
  | nil =>
    rw [← show db = db' from h]
    exact List.mem_cons_self
  | cons e es ih => exact List.mem_cons_of_mem _ (ih h.2)

omit [Store W DB] [DecidableEq ι] in
theorem Chain.of_first {r : DB → DB → Prop} (hrefl : ∀ db, r db db)
    (htrans : ∀ db db' db'', r db db' → r db' db'' → r db db'') {db db' : DB}
    {es : List (Event ι DB)} (h : Chain db es db') (hes : ∀ e ∈ es, r e.before e.after)
    : ∀ d ∈ db :: es.map (·.after), r db d := by
  induction es generalizing db with
  | nil =>
    intro d hd
    rw [List.mem_singleton.mp hd]
    exact hrefl db
  | cons e es ih =>
    intro d hd
    cases List.mem_cons.mp hd with
    | inl hd =>
      rw [hd]
      exact hrefl db
    | inr hd =>
      apply htrans _ e.after
      . rw [← h.1]
        exact hes e List.mem_cons_self
      . exact ih h.2 (fun e' he' => hes e' (List.mem_cons_of_mem e he')) d hd

/-- The event makes a property of the database true. -/
def Event.Flips (P : DB → Prop) (e : Event ι DB) : Prop :=
  ¬ P e.before ∧ P e.after

omit [Store W DB] [DecidableEq ι] in
/-- If no event makes `P` false again then at most one event makes it true. -/
theorem Chain.flips_once {P : DB → Prop} {db db' : DB} {es : List (Event ι DB)}
    (h : Chain db es db') (hkeep : ∀ e ∈ es, P e.before → P e.after)
    : es.Pairwise fun e e' => ¬ (e.Flips P ∧ e'.Flips P) := by
  induction es generalizing db with
  | nil => exact .nil
  | cons e es ih =>
    simp only [Chain] at h
    refine .cons ?_ (ih h.2 ?_)
    . intro e' he' hflips
      obtain ⟨es1, es2, hes, h1, _⟩ := h.2.split he'
      apply hflips.2.1
      refine h1.keeps ?_ hflips.1.2
      intro e'' he''
      apply hkeep
      simp [hes, he'']
    . intro e' he'
      apply hkeep
      simp [he']

omit [Store W DB] [DecidableEq ι] in
theorem Chain.flips_unique {P : DB → Prop} {db db' : DB} {es : List (Event ι DB)}
    (h : Chain db es db') (hkeep : ∀ e ∈ es, P e.before → P e.after) {e e' : Event ι DB}
    (he : e ∈ es) (he' : e' ∈ es) (hflips : e.Flips P) (hflips' : e'.Flips P) : e = e' := by
  have hsymm : Std.Symm fun e e' : Event ι DB => ¬ (e.Flips P ∧ e'.Flips P) := by
    constructor
    intro e e' hnot hboth
    exact hnot ⟨hboth.2, hboth.1⟩
  by_contra hne
  exact (h.flips_once hkeep).forall he he' hne ⟨hflips, hflips'⟩

structure CommittedAt (crash : R)
    (allowed : Config ι DB W K T R → ι → Config ι DB W K T R → Prop) (c0 c : Config ι DB W K T R)
    (es : List (Event ι DB)) (e : Event ι DB) (c' : Config ι DB W K T R) (tag : T)
    (next : Prog DB W K T R) : Prop where
  reached : RunWhere crash allowed c0 c'
  history : c'.history = es
  prog : (c'.procs e.client).prog = .commit tag next
  event : e = ⟨e.client, c'.db, c'.view e.client⟩
  committed : allowed c' e.client (c'.commit e.client next)
  rest : RunWhere crash allowed (c'.commit e.client next) c

theorem CommittedAt.step {crash : R}
    {allowed : Config ι DB W K T R → ι → Config ι DB W K T R → Prop}
    {c0 c c' c'' : Config ι DB W K T R} {es : List (Event ι DB)} {e : Event ι DB} {tag : T}
    {next : Prog DB W K T R} {i : ι} (h : CommittedAt crash allowed c0 c es e c' tag next)
    (hallowed : allowed c i c'') (hstep : Step crash c i c'')
    : CommittedAt crash allowed c0 c'' es e c' tag next :=
  { h with rest := h.rest.step hallowed hstep }

theorem RunWhere.event {crash : R} {allowed : Config ι DB W K T R → ι → Config ι DB W K T R → Prop}
    {c0 c : Config ι DB W K T R} (h : RunWhere crash allowed c0 c) {es1 es2 : List (Event ι DB)}
    {e : Event ι DB} (heq : c.history = c0.history ++ es1 ++ e :: es2)
    : ∃ c' tag next, CommittedAt crash allowed c0 c (c0.history ++ es1) e c' tag next := by
  induction h generalizing es2 with
  | refl =>
    have hlength := congrArg List.length heq
    rw [List.length_append, List.length_append, List.length_cons] at hlength
    omega
  | @step c1 c2 i hrun hallowed hstep ih =>
    have hold : ∀ es, c1.history = c0.history ++ es1 ++ e :: es →
        ∃ c' tag next, CommittedAt crash allowed c0 c2 (c0.history ++ es1) e c' tag next := by
      intro es hes
      obtain ⟨c', tag, next, hcommitted⟩ := ih hes
      exact ⟨c', tag, next, hcommitted.step hallowed hstep⟩
    cases hstep with
    | exec | rollback | abort => exact hold es2 heq
    | @commit tag next hprog =>
      have heq' : c1.history ++ [⟨i, c1.db, c1.view i⟩] = c0.history ++ es1 ++ e :: es2 := heq
      cases List.eq_nil_or_concat es2 with
      | inl hnil =>
        rw [hnil] at heq'
        obtain ⟨hes1, he⟩ := List.append_inj' heq' rfl
        rw [List.cons.injEq] at he
        have hevent := he.1
        subst hevent
        exact ⟨c1, tag, next, hrun, hes1, hprog, rfl, hallowed, .refl⟩
      | inr hconcat =>
        obtain ⟨es, e', hes⟩ := hconcat
        rw [hes, List.concat_eq_append, ← List.cons_append, ← List.append_assoc] at heq'
        exact hold es (List.append_inj' heq' rfl).1

theorem RunWhere.returned {crash : R}
    {allowed : Config ι DB W K T R → ι → Config ι DB W K T R → Prop} {c0 c : Config ι DB W K T R}
    (h : RunWhere crash allowed c0 c) {i : ι} {r : R} (hr : (c0.procs i).prog = .ret r)
    : (c.procs i).prog = .ret r := by
  induction h with
  | refl => exact hr
  | @step c1 c2 j _ _ hstep ih =>
    have hne : i ≠ j := by
      intro heq
      subst heq
      cases hstep with
      | exec hprog | commit hprog | rollback hprog =>
        rw [ih] at hprog
        cases hprog
      | abort hprog =>
        rw [ih] at hprog
        cases hprog
    cases hstep with
    | exec | commit | rollback | abort =>
      rw [← ih]
      exact congrArg Proc.prog (Function.update_of_ne hne _ _)

omit [DecidableEq ι] in
/-- Of two events of a history, one comes after the other or they are the same. -/
theorem event_order {es1 es2 es1' es2' : List (Event ι DB)} {e e' : Event ι DB}
    (h : es1 ++ e :: es2 = es1' ++ e' :: es2')
    : e' ∈ es2 ∨ e = e' ∨ ∃ es, es2' = es ++ e :: es2 := by
  cases List.append_eq_append_iff.mp h with
  | inl h =>
    obtain ⟨es, _, heq⟩ := h
    cases es with
    | nil => exact .inr (.inl (List.cons.inj heq).1)
    | cons _ es => exact .inl (by simp [(List.cons.inj heq).2])
  | inr h =>
    obtain ⟨es, _, heq⟩ := h
    cases es with
    | nil => exact .inr (.inl (List.cons.inj heq).1.symm)
    | cons _ es => exact .inr (.inr ⟨es, (List.cons.inj heq).2⟩)

section Traced

variable {α : Type} {crash : R} {allowed : Config ι DB W K T R → ι → Config ι DB W K T R → Prop}
  {label : Config ι DB W K T R → ι → Config ι DB W K T R → Option α} {c c' : Config ι DB W K T R}

/-- The runs with `allowed` steps, each with the labels of its steps in their order. -/
inductive Traced (crash : R) (allowed : Config ι DB W K T R → ι → Config ι DB W K T R → Prop)
    (label : Config ι DB W K T R → ι → Config ι DB W K T R → Option α)
    : Config ι DB W K T R → List α → Config ι DB W K T R → Prop where
  | refl {c : Config ι DB W K T R} : Traced crash allowed label c [] c
  | step {c c' c'' : Config ι DB W K T R} {xs : List α} {i : ι}
      (hrun : Traced crash allowed label c xs c') (hallowed : allowed c' i c'')
      (hstep : Step crash c' i c'')
      : Traced crash allowed label c (xs ++ (label c' i c'').toList) c''

theorem Traced.trans {xs ys : List α} {c'' : Config ι DB W K T R}
    (h : Traced crash allowed label c xs c') (h' : Traced crash allowed label c' ys c'')
    : Traced crash allowed label c (xs ++ ys) c'' := by
  induction h' with
  | refl =>
    rw [List.append_nil]
    exact h
  | step _ hallowed hstep ih =>
    rw [← List.append_assoc]
    exact .step ih hallowed hstep

/-- The labels of the steps of a schedule and the state it ends in. -/
def Config.traceWhere [Fintype ι] [DecidableEq K] (check : Config ι DB W K T R → ι → Bool)
    (label : Config ι DB W K T R → ι → Config ι DB W K T R → Option α) (c : Config ι DB W K T R)
    : List ι → Option (List α × Config ι DB W K T R)
  | [] => some ([], c)
  | i :: is =>
    if check c i then
      (c.turn i).bind fun c' =>
        (c'.traceWhere check label is).map fun t => ((label c i c').toList ++ t.1, t.2)
    else
      none

theorem Config.traced_of_traceWhere [Fintype ι] [DecidableEq K]
    {check : Config ι DB W K T R → ι → Bool} (crash : R)
    (hcheck : ∀ c i c', check c i → c.turn i = some c' → allowed c i c') (is : List ι) {xs : List α}
    (h : c.traceWhere check label is = some (xs, c')) : Traced crash allowed label c xs c' := by
  induction is generalizing c xs with
  | nil =>
    simp only [traceWhere, Option.some.injEq, Prod.mk.injEq] at h
    rw [← h.1, h.2]
    exact .refl
  | cons i is ih =>
    unfold traceWhere at h
    split at h
    . next hpass =>
      simp only [Option.bind_eq_some_iff, Option.map_eq_some_iff, Prod.mk.injEq] at h
      obtain ⟨c1, hturn, ⟨ys, c2⟩, htrace, hlabels, hlast⟩ := h
      subst hlast
      have hfirst : Traced crash allowed label c ([] ++ (label c i c1).toList) c1 :=
        .step .refl (hcheck c i c1 hpass hturn) (step_of_turn crash hturn)
      rw [← hlabels]
      exact hfirst.trans (ih htrace)
    . cases h

end Traced

end ReadCommitted
