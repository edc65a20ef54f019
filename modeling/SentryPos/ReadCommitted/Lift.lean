import SentryPos.ReadCommitted.Contract

/-!
This module contains the lift of calls to a store that has theirs as one of its parts, and that lifted
calls are as safe as the calls themselves.
-/

namespace ReadCommitted

variable {DB W K T E DB' W' K' T' E' R S : Type}

/-- One store as a part of another: where it is there, and its writes, locks, statements and errors. -/
structure Part (DB W K T E DB' W' K' T' E' : Type) where
  get : DB' → DB
  write : W → W'
  key : K → K'
  tag : T → T'
  error : E → E'

namespace Prog

def lift (part : Part DB W K T E DB' W' K' T' E') : Prog DB W K T R → Prog DB' W' K' T' R
  | .ret r => .ret r
  | .exec tag needs writes next =>
    .exec (part.tag tag) (fun view => (needs (part.get view)).map part.key)
      (fun db view => (writes (part.get db) (part.get view)).map part.write)
      fun db view => (next (part.get db) (part.get view)).lift part
  | .commit tag next => .commit (part.tag tag) (next.lift part)
  | .rollback tag next => .rollback (part.tag tag) (next.lift part)

theorem lift_bind (part : Part DB W K T E DB' W' K' T' E') (p : Prog DB W K T R)
    (k : R → Prog DB W K T S) : (p >>= k).lift part = p.lift part >>= fun r => (k r).lift part := by
  induction p with
  | ret r => rfl
  | exec tag needs writes next ih =>
    simp only [bind_exec, lift]
    congr 1
    funext db view
    exact ih _ _
  | commit tag next ih => simp only [bind_commit, lift, ih]
  | rollback tag next ih => simp only [bind_rollback, lift, ih]

/-- How the writes of a safe program are safe as writes of the whole. -/
theorem Safe.lift [Store W DB] [Locking W DB K] [Store W' DB'] [Locking W' DB' K']
    {part : Part DB W K T E DB' W' K' T' E'}
    (hkeys : ∀ w : W, Locking.keys (part.write w) = (Locking.keys w).map part.key) {ends : Prop}
    {valid : DB → Prop} {valid' : DB' → Prop} {P : W → Prop} {P' : W' → Prop}
    (hp : ∀ w, P w → P' (part.write w))
    (hvalid : ∀ w, P w → ∀ db', valid' db' → valid' (Store.apply (part.write w) db'))
    {p : Prog DB W K T R} (h : p.Safe ends valid P) : (p.lift part).Safe ends valid' P' := by
  induction p with
  | ret r => trivial
  | exec tag needs writes next ih =>
    refine ⟨?_, fun db view => ih _ _ (h.2 _ _)⟩
    intro db view
    have hws := h.1 (part.get db) (part.get view)
    constructor
    . intro hview
      apply replay_induction hview
      intro w' hw' db' hdb'
      obtain ⟨w, hw, rfl⟩ := List.mem_map.mp hw'
      exact hvalid w (hws.writes w hw) db' hdb'
    . intro w' hw'
      obtain ⟨w, hw, rfl⟩ := List.mem_map.mp hw'
      exact hp w (hws.writes w hw)
    . intro w' hw' k hk
      obtain ⟨w, hw, rfl⟩ := List.mem_map.mp hw'
      rw [hkeys] at hk
      obtain ⟨k', hk', rfl⟩ := List.mem_map.mp hk
      exact List.mem_map_of_mem (hws.covered w hw k' hk')
  | commit tag next ih => exact ⟨h.1, ih h.2⟩
  | rollback tag next ih => exact ⟨h.1, ih h.2⟩

end Prog

namespace Call

variable (part : Part DB W K T E DB' W' K' T' E')

def lift (p : Call E DB W K T R) : Call E' DB' W' K' T' R :=
  ExceptT.mk do
    let r ← Prog.lift part p.run
    return r.mapError part.error

theorem lift_bind (p : Call E DB W K T R) (k : R → Call E DB W K T S)
    : lift part (p >>= k) = lift part p >>= fun r => lift part (k r) := by
  have hrun : (p >>= k).run = p.run >>= ExceptT.bindCont k := rfl
  unfold lift
  rw [hrun, Prog.lift_bind, bind_assoc]
  change _ = ExceptT.mk (ExceptT.run (ExceptT.mk _) >>= ExceptT.bindCont _)
  rw [ExceptT.run_mk, bind_assoc]
  congr 1
  congr 1
  funext r
  cases r <;> rfl

theorem lift_query (tag : T) (q : DB → R)
    : lift part (query tag q) = query (part.tag tag) fun db => q (part.get db) := rfl

theorem lift_queryOnTx (tag : T) (q : DB → R)
    : lift part (queryOnTx tag q) = queryOnTx (part.tag tag) fun db => q (part.get db) := rfl

theorem lift_write (tag : T) (locks : DB → List K) (check : DB → Except E (List W))
    : lift part (write tag locks check)
        =
      write (part.tag tag) (fun view => (locks (part.get view)).map part.key) fun view =>
        match check (part.get view) with
        | .ok ws => .ok (ws.map part.write)
        | .error e => .error (part.error e) := by
  change ExceptT.mk (Prog.exec (part.tag tag) _ _ _) = ExceptT.mk (Prog.exec (part.tag tag) _ _ _)
  congr 2
  all_goals
    funext db view
    dsimp only
    cases check (part.get view) <;> rfl

variable {part}

theorem Safe.lift [Store W DB] [Locking W DB K] [Store W' DB'] [Locking W' DB' K']
    (hkeys : ∀ w : W, Locking.keys (part.write w) = (Locking.keys w).map part.key) {ends : Prop}
    {valid : DB → Prop} {valid' : DB' → Prop} {P : W → Prop} {P' : W' → Prop}
    (hp : ∀ w, P w → P' (part.write w))
    (hvalid : ∀ w, P w → ∀ db', valid' db' → valid' (Store.apply (part.write w) db'))
    {p : Call E DB W K T R} (h : Safe ends valid P p) : Safe ends valid' P' (Call.lift part p) := by
  apply Prog.Safe.bind (Prog.Safe.lift hkeys hp hvalid h)
  intro r
  trivial

end Call

end ReadCommitted
