import SentryPos.ReadCommitted.Stateful

/-!
This module contains journals: entries that transactions write beside their changes, such that the
entries of a run, done again in the order in which they were committed, give what the run has made of
the database.
-/

namespace ReadCommitted

variable {W DB K E I : Type} [Store W DB] [Locking W DB K]

/-- What is recorded of a database, the writes that are entries and what an entry says was done. -/
structure Journal (W DB E I : Type) [Store W DB] where
  image : DB → I
  entry : W → Option E
  redo : E → I → I
  image_apply : ∀ w e db, entry w = some e → image (Store.apply w db) = image db

namespace Journal

variable (J : Journal W DB E I)

def redoAll (entries : List E) (image : I) : I :=
  entries.foldl (fun image e => J.redo e image) image

omit [Locking W DB K] in
@[simp]
theorem redoAll_nil (image : I) : J.redoAll [] image = image := rfl

omit [Locking W DB K] in
@[simp]
theorem redoAll_cons (e : E) (entries : List E) (image : I)
    : J.redoAll (e :: entries) image = J.redoAll entries (J.redo e image) := rfl

omit [Locking W DB K] in
@[simp]
theorem redoAll_append (entries entries' : List E) (image : I)
    : J.redoAll (entries ++ entries') image = J.redoAll entries' (J.redoAll entries image) :=
  List.foldl_append ..

def entries (log : List W) : List E :=
  log.filterMap J.entry

/--
A transaction that has recorded what it did, up to the entries that it still has to write. This does
not depend on what other clients commit to rows that it has not locked.
-/
structure Owes (valid : DB → Prop) (log : List W) (locks : List K) (db : DB) (pending : List E)
    : Prop where
  covered : Covered log locks
  base : valid db
  view : valid (replay log db)
  image : ∀ db', KeptAll W locks db db' → valid db' →
    J.image (replay log db') = J.redoAll (J.entries log ++ pending) (J.image db')

namespace Owes

variable {J} {valid : DB → Prop} {log ws : List W} {locks needs : List K} {db db' : DB}
  {pending : List E}

theorem nil (hdb : valid db) : J.Owes valid [] locks db [] where
  covered := .nil locks
  base := hdb
  view := hdb
  image _ _ _ := rfl

theorem stable (h : J.Owes valid log locks db pending) (hvalid : Constraint W valid)
    (hkept : KeptAll W locks db db') (hdb' : valid db') : J.Owes valid log locks db' pending where
  covered := h.covered
  base := hdb'
  view := hvalid.stable log locks db db' h.covered hkept hdb' h.view
  image db'' hkept' hdb'' := h.image db'' (hkept.trans hkept') hdb''

theorem weaken (h : J.Owes valid log locks db pending) (needs : List K)
    : J.Owes valid log (locks ++ needs) db pending where
  covered := h.covered.weaken needs
  base := h.base
  view := h.view
  image db' hkept hdb' := h.image db' (KeptAll.weaken hkept (List.subset_append_left _ _)) hdb'

theorem record {w : W} {e : E} (h : J.Owes valid log locks db (e :: pending)) (he : J.entry w = some e)
    (hkeys : Covered [w] needs) (hview : valid (Store.apply w (replay log db)))
    : J.Owes valid (log ++ [w]) (locks ++ needs) db pending where
  covered := h.covered.append hkeys
  base := h.base
  view := by
    rw [replay_append]
    exact hview
  image db' hkept hdb' := by
    rw [replay_append, replay_cons, replay_nil, J.image_apply w e _ he,
      h.image db' (hkept.weaken (List.subset_append_left _ _)) hdb']
    simp [entries, he]

/-- A statement changes rows under its locks: it owes the entries that say what it did. -/
theorem change (h : J.Owes valid log locks db []) (hws : ∀ w ∈ ws, J.entry w = none)
    (hkeys : Covered ws needs) (hview : valid (replay ws (replay log db)))
    (himage : ∀ db', KeptAll W (locks ++ needs) db db' → valid (replay log db') →
      J.image (replay ws (replay log db')) = J.redoAll pending (J.image (replay log db')))
    (hvalid : Constraint W valid)
    : J.Owes valid (log ++ ws) (locks ++ needs) db pending where
  covered := h.covered.append hkeys
  base := h.base
  view := by
    rw [replay_append]
    exact hview
  image db' hkept hdb' := by
    have hkept' : KeptAll W locks db db' := hkept.weaken (List.subset_append_left _ _)
    have hview' := hvalid.stable log locks db db' h.covered hkept' hdb' h.view
    have hnone : J.entries ws = [] := List.filterMap_eq_nil_iff.mpr hws
    rw [replay_append, himage db' hkept hview', h.image db' hkept' hdb']
    simp [entries, List.filterMap_append, show ws.filterMap J.entry = [] from hnone]

/-- A transaction that owes nothing commits what its entries say. -/
theorem settled (h : J.Owes valid log locks db [])
    : J.image (replay log db) = J.redoAll (J.entries log) (J.image db) := by
  rw [h.image db (.refl locks db) h.base, List.append_nil]

end Owes

end Journal

end ReadCommitted
