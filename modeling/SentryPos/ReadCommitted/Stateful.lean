import SentryPos.ReadCommitted.Contract

/-!
This module contains calls with a private state that outlives their errors, such as the memo of a
request, the rules for their weakest preconditions and the programs that only read. It also contains
the soundness of contracts under which databases grow by what clients commit.
-/

namespace ReadCommitted

variable {S E DB W K T R Q ι : Type}

/-- A call that keeps a state: what it has put there stays when it throws. -/
abbrev StateCall (S E DB W K T R : Type) :=
  ExceptT E (StateT S (Prog DB W K T)) R

namespace StateCall

/-- One statement on a connection of its own. -/
def query (tag : T) (q : DB → R) : StateCall S E DB W K T R :=
  fun s => .exec tag (fun _ => []) (fun _ _ => []) fun db _ => .ret (.ok (q db), s)

/-- A write statement with its locks. What it writes and returns it finds in the view. -/
def write (tag : T) (locks : DB → List K) (check : DB → Except E (List W × R))
    : StateCall S E DB W K T R :=
  fun s =>
    .exec tag locks
      (fun _ view =>
        match check view with
        | .ok r => r.1
        | .error _ => [])
      (fun _ view =>
        match check view with
        | .ok r => .ret (.ok r.2, s)
        | .error e => .ret (.error e, s))

def transaction (tag : T) (body : StateCall S E DB W K T R) : StateCall S E DB W K T R :=
  fun s => do
    let r ← body s
    match r.1 with
    | .ok _ => .commit tag (.ret r)
    | .error _ => .rollback tag (.ret r)

def memo (lookup : S → Option R) (store : R → S → S) (call : StateCall S E DB W K T R)
    : StateCall S E DB W K T R := do
  match lookup (← get) with
  | some r => return r
  | none =>
    let r ← call
    modify (store r)
    return r

variable [Store W DB]

/-- The condition under which a call that returns meets `ok` and one that throws meets `err`. -/
def wp (l : Logic DB W K T) (p : StateCall S E DB W K T R) (ok : R → S → Post DB W K Unit)
    (err : E → S → Post DB W K Unit) (commits : List (DB × DB)) (log : List W) (locks : List K)
    (db : DB) (s : S) : Prop :=
  Prog.wp l (p s)
    (fun r =>
      match r.1 with
      | .ok a => ok a r.2 ()
      | .error e => err e r.2 ())
    commits log locks db

variable {l : Logic DB W K T} {ok : R → S → Post DB W K Unit} {err : E → S → Post DB W K Unit}
  {commits : List (DB × DB)} {log : List W} {locks : List K} {db : DB} {s : S} {tag : T}

@[simp]
theorem wp_pure (r : R)
    : wp l (pure r : StateCall S E DB W K T R) ok err commits log locks db s
        = ok r s () commits log locks db := rfl

@[simp]
theorem wp_throw (e : E)
    : wp l (throw e : StateCall S E DB W K T R) ok err commits log locks db s
        = err e s () commits log locks db := rfl

@[simp]
theorem wp_bind (p : StateCall S E DB W K T R) (k : R → StateCall S E DB W K T Q)
    {ok : Q → S → Post DB W K Unit}
    : wp l (p >>= k) ok err commits log locks db s
        ↔
      wp l p (fun r s _ commits log locks db => wp l (k r) ok err commits log locks db s) err commits
        log locks db s := by
  have hrun : (p >>= k) s = p s >>= fun r => ExceptT.bindCont k r.1 r.2 := rfl
  unfold wp
  rw [hrun, Prog.wp_bind]
  apply iff_of_eq
  congr 1
  funext r
  cases r with
  | mk result s' => cases result <;> rfl

theorem wp_mono {p : StateCall S E DB W K T R} {ok' : R → S → Post DB W K Unit}
    {err' : E → S → Post DB W K Unit}
    (hok : ∀ r s commits log locks db, ok r s () commits log locks db →
      ok' r s () commits log locks db)
    (herr : ∀ e s commits log locks db, err e s () commits log locks db →
      err' e s () commits log locks db)
    (h : wp l p ok err commits log locks db s) : wp l p ok' err' commits log locks db s := by
  apply Prog.wp_mono _ h
  intro r commits log locks db hr
  cases r with
  | mk result s' =>
    cases result with
    | ok r => exact hok r s' _ _ _ _ hr
    | error e => exact herr e s' _ _ _ _ hr

@[simp]
theorem wp_get {ok : S → S → Post DB W K Unit}
    : wp l (get : StateCall S E DB W K T S) ok err commits log locks db s
        = ok s s () commits log locks db := rfl

@[simp]
theorem wp_modify (f : S → S) {ok : PUnit → S → Post DB W K Unit}
    : wp l (modify f : StateCall S E DB W K T PUnit) ok err commits log locks db s
        = ok ⟨⟩ (f s) () commits log locks db := rfl

theorem wp_query {q : DB → R} (hmid : l.Mid commits)
    (h : ∀ db', l.Rely (some tag) locks db db' → l.Inv db' → l.Assume tag log db' →
      ok (q db') s () commits log locks db')
    : wp l (query tag q : StateCall S E DB W K T R) ok err commits log locks db s := by
  refine ⟨hmid, ?_⟩
  intro db' hrely hinv hassume
  rw [List.append_nil, List.append_nil]
  exact h db' hrely hinv hassume

theorem wp_write {needs : DB → List K} {check : DB → Except E (List W × R)} (hmid : l.Mid commits)
    (hok : ∀ db' ws r, l.Rely (some tag) locks db db' → l.Inv db' → l.Assume tag log db' →
      check (replay log db') = .ok (ws, r) →
        ok r s () commits (log ++ ws) (locks ++ needs (replay log db')) db')
    (herror : ∀ db' e, l.Rely (some tag) locks db db' → l.Inv db' → l.Assume tag log db' →
      check (replay log db') = .error e →
        err e s () commits log (locks ++ needs (replay log db')) db')
    : wp l (write tag needs check : StateCall S E DB W K T R) ok err commits log locks db s := by
  refine ⟨hmid, ?_⟩
  intro db' hrely hinv hassume
  cases hcheck : check (replay log db') with
  | ok r => simpa [hcheck] using hok db' r.1 r.2 hrely hinv hassume hcheck
  | error e => simpa [hcheck] using herror db' e hrely hinv hassume hcheck

theorem wp_transaction {body : StateCall S E DB W K T R}
    (h : wp l body
      (fun r s _ commits log locks db => Prog.wp l (.commit tag (.ret (r, s)))
        (fun r => ok r.1 r.2 ()) commits log locks db)
      (fun e s _ commits log locks db => Prog.wp l (.rollback tag (.ret (e, s)))
        (fun r => err r.1 r.2 ()) commits log locks db)
      commits log locks db s)
    : wp l (transaction tag body) ok err commits log locks db s := by
  unfold wp transaction
  rw [Prog.wp_bind]
  apply Prog.wp_mono _ h
  intro r commits log locks db hr
  cases r with
  | mk result s' =>
    cases result with
    | ok r => exact hr
    | error e => exact hr

/-- A memo gives what it has been given, as long as the state keeps it. -/
theorem wp_memo {lookup : S → Option R} {store : R → S → S} {call : StateCall S E DB W K T R}
    (hhit : ∀ r, lookup s = some r → ok r s () commits log locks db)
    (hmiss : lookup s = none →
      wp l call (fun r s => ok r (store r s)) err commits log locks db s)
    : wp l (memo lookup store call) ok err commits log locks db s := by
  unfold memo
  rw [wp_bind, wp_get]
  cases hlookup : lookup s with
  | some r => exact hhit r hlookup
  | none =>
    rw [wp_bind]
    exact hmiss hlookup

end StateCall

/-- A program that only reads: it neither writes nor locks, and leaves its transaction open. -/
def Prog.Reads : Prog DB W K T R → Prop
  | .ret _ => True
  | .exec _ needs writes next =>
    (∀ db view, needs view = [] ∧ writes db view = []) ∧ ∀ db view, (next db view).Reads
  | .commit _ _ => False
  | .rollback _ _ => False

theorem Prog.Reads.bind {p : Prog DB W K T R} {k : R → Prog DB W K T Q} (hp : p.Reads)
    (hk : ∀ r, (k r).Reads) : (p >>= k).Reads := by
  induction p with
  | ret r => exact hk r
  | exec tag needs writes next ih => exact ⟨hp.1, fun db view => ih db view (hp.2 db view)⟩
  | commit tag next ih => exact hp.elim
  | rollback tag next ih => exact hp.elim

variable [Store W DB] [Locking W DB K] {grows : DB → DB → Prop} {states valid : DB → Prop}

/-- What a program that only reads leaves, after commits of the others. -/
theorem Prog.Reads.wp {p : Prog DB W K T R} (hp : p.Reads) (hrefl : ∀ db, grows db db)
    (htrans : ∀ db db' db'', grows db db' → grows db' db'' → grows db db'')
    {Guar : List K → List W → DB → Prop} {Mid : List (DB × DB) → Prop} {post : Post DB W K R}
    {commits : List (DB × DB)} (hmid : Mid commits) {log : List W} {locks : List K} {db : DB}
    (hvalid : valid db)
    (h : ∀ r db', KeptAll W locks db db' → grows db db' → valid db' → post r commits log locks db')
    : p.wp { toEnv := Env.shared W T grows states valid, Guar, Mid } post commits log locks db := by
  induction p generalizing db with
  | ret r => exact h r db (.refl locks db) (hrefl db) hvalid
  | exec tag needs writes next ih =>
    refine ⟨hmid, ?_⟩
    intro db' hrely hinv _
    rw [(hp.1 db' (ReadCommitted.replay log db')).1, (hp.1 db' (ReadCommitted.replay log db')).2,
      List.append_nil, List.append_nil]
    apply ih _ _ (hp.2 _ _) hinv.2
    intro r db'' hkept hgrows
    exact h r db'' (hrely.1.trans hkept) (htrans _ _ _ hrely.2 hgrows)
  | commit tag next ih => exact hp.elim
  | rollback tag next ih => exact hp.elim

namespace StateCall

def Reads (p : StateCall S E DB W K T R) : Prop :=
  ∀ s, (p s).Reads

namespace Reads

omit [Store W DB] [Locking W DB K]

theorem pure (r : R) : Reads (pure r : StateCall S E DB W K T R) := fun _ => trivial

theorem throw (e : E) : Reads (throw e : StateCall S E DB W K T R) := fun _ => trivial

theorem bind {p : StateCall S E DB W K T R} {k : R → StateCall S E DB W K T Q} (hp : Reads p)
    (hk : ∀ r, Reads (k r)) : Reads (p >>= k) := by
  intro s
  have hrun : (p >>= k) s = p s >>= fun r => ExceptT.bindCont k r.1 r.2 := rfl
  rw [hrun]
  apply Prog.Reads.bind (hp s)
  intro r
  cases r with
  | mk result s' =>
    cases result with
    | ok r => exact hk r s'
    | error e => trivial

theorem query (tag : T) (q : DB → R) : Reads (query tag q : StateCall S E DB W K T R) :=
  fun _ => ⟨fun _ _ => ⟨rfl, rfl⟩, fun _ _ => trivial⟩

theorem get : Reads (get : StateCall S E DB W K T S) := fun _ => trivial

theorem modify (f : S → S) : Reads (modify f : StateCall S E DB W K T PUnit) := fun _ => trivial

theorem memo {lookup : S → Option R} {store : R → S → S} {call : StateCall S E DB W K T R}
    (h : Reads call) : Reads (memo lookup store call) := by
  apply bind get
  intro s
  cases hlookup : lookup s with
  | some r => exact pure r
  | none =>
    apply bind h
    intro r
    apply bind (modify _)
    intro _
    exact pure r

theorem forM {α : Type} {f : α → StateCall S E DB W K T PUnit} {xs : List α}
    (h : ∀ x ∈ xs, Reads (f x)) : Reads (xs.forM f) := by
  induction xs with
  | nil => exact pure _
  | cons x xs ih =>
    rw [List.forM]
    apply bind (h x List.mem_cons_self)
    intro _
    exact ih fun y hy => h y (List.mem_cons_of_mem _ hy)

theorem mapM {α : Type} {f : α → StateCall S E DB W K T R} {xs : List α}
    (h : ∀ x ∈ xs, Reads (f x)) : Reads (xs.mapM f) := by
  induction xs with
  | nil =>
    rw [List.mapM_nil]
    exact pure _
  | cons x xs ih =>
    rw [List.mapM_cons]
    apply bind (h x List.mem_cons_self)
    intro _
    apply bind (ih fun y hy => h y (List.mem_cons_of_mem _ hy))
    intro _
    exact pure _

end Reads

theorem wp_reads {p : StateCall S E DB W K T R} (hp : Reads p) (hrefl : ∀ db, grows db db)
    (htrans : ∀ db db' db'', grows db db' → grows db' db'' → grows db db'')
    {Guar : List K → List W → DB → Prop} {Mid : List (DB × DB) → Prop}
    {ok : R → S → Post DB W K Unit} {err : E → S → Post DB W K Unit} {commits : List (DB × DB)}
    (hmid : Mid commits) {log : List W} {locks : List K} {db : DB} {s : S} (hvalid : valid db)
    (hok : ∀ r s db', KeptAll W locks db db' → grows db db' → valid db' →
      ok r s () commits log locks db')
    (herr : ∀ e s db', KeptAll W locks db db' → grows db db' → valid db' →
      err e s () commits log locks db')
    : wp { toEnv := Env.shared W T grows states valid, Guar, Mid } p ok err commits log locks db s := by
  apply (hp s).wp hrefl htrans hmid hvalid
  intro r db' hkept hgrows hvalid'
  cases r with
  | mk result s' =>
    cases result with
    | ok r => exact hok r s' db' hkept hgrows hvalid'
    | error e => exact herr e s' db' hkept hgrows hvalid'

end StateCall

namespace Contract

/-- A relation between databases that what clients commit under their contracts keeps. -/
structure Growing (ks : ι → Contract DB W K R) (grows : DB → DB → Prop) (valid : DB → Prop)
    : Prop where
  refl : ∀ db, grows db db
  trans : ∀ db db' db'', grows db db' → grows db' db'' → grows db db''
  commit : ∀ i locks log db, Covered log locks → valid db → valid (replay log db) →
    (ks i).Commit locks log db → grows db (replay log db)

variable [DecidableEq ι] {ks : ι → Contract DB W K R} {crash : R}

theorem Growing.compatible (h : Growing ks grows valid)
    {allowed : Config ι DB W K T R → ι → Config ι DB W K T R → Prop}
    (hcrash : ∀ i commits, (ks i).Mid commits → (ks i).Post crash commits)
    (hstates : ∀ (c : Config ι DB W K T R) i next, allowed c i (c.commit i next) → states (c.view i))
    : Compatible crash allowed
        (fun i => (ks i).logic valid (Env.shared W T grows states valid))
        (fun db => states db ∧ valid db) (fun i => (ks i).Committed) (fun i => (ks i).toPost) where
  lawful := by
    intro i
    constructor
    . intro _ locks db
      exact ⟨.refl locks db, h.refl db⟩
    . intro _ _ db db' db'' h1 h2
      exact ⟨h1.1.trans h2.1, h.trans _ _ _ h1.2 h2.2⟩
  invOf := by
    intro _ _ hdb
    exact hdb
  assume := by
    intros
    trivial
  stable := by
    intro _ _ _ _ _ _ _ _ _ hpost
    exact hpost
  guar := by
    intro c i tag next hallowed hinv hdisjoint _ hguar
    obtain ⟨⟨hcovered, hvalid⟩, hcommit⟩ := hguar
    refine ⟨⟨hstates c i next hallowed, hvalid⟩, ⟨_, _, hcovered, hcommit, rfl⟩, ?_⟩
    intro j hj
    exact ⟨.replay hcovered (hdisjoint i j (Ne.symm hj)) c.db,
      h.commit i _ _ _ hcovered hinv.2 hvalid hcommit⟩
  crash := by
    intro i commits _ hmid _
    exact hcrash i commits hmid

/-- Clients that keep their contracts on their own terms keep them in every run of all of them. -/
theorem Growing.sound (h : Growing ks grows valid)
    (hcrash : ∀ i commits, (ks i).Mid commits → (ks i).Post crash commits) {db : DB}
    {progs : ι → Prog DB W K T R} {c : Config ι DB W K T R} (hvalid : valid db)
    (hprogs : ∀ i, (progs i).wp
      ((ks i).logic valid (Env.shared W T grows (· ∈ c.databases db) valid)) (ks i).toPost [] [] [] db)
    (hrun : Run crash (.init db progs) c) : Kept ks valid c := by
  have hcompatible : Compatible crash (fun _ _ next => next.history <+: c.history)
      (fun i => (ks i).logic valid (Env.shared W T grows (· ∈ c.databases db) valid)) _ _ _ :=
    h.compatible hcrash fun _ _ _ hwithin => Config.mem_databases hwithin
  exact .of_ok (fun _ h => h.2) <| hcompatible.sound ⟨List.mem_cons_self, hvalid⟩ hprogs hrun.within

end Contract

end ReadCommitted
