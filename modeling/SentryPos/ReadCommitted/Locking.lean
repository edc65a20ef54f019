import Mathlib.Data.List.Nodup
import Mathlib.Data.List.Perm.Basic
import SentryPos.ReadCommitted.Call

/-!
This module contains the theory of locks: what a client that holds a lock may rely on, and why
constraints that hold of a transaction's view when a statement is checked still hold of it when the
transaction commits.
-/

namespace ReadCommitted

/--
The locks a write statement needs and what holding a lock keeps: `Kept k` relates the databases
before and after commits of clients that do not hold `k`.
-/
class Locking (W : Type) (DB K : outParam Type) [Store W DB] where
  keys : W → List K
  Kept : K → DB → DB → Prop
  kept_refl : ∀ k db, Kept k db db
  kept_trans : ∀ k db db' db'', Kept k db db' → Kept k db' db'' → Kept k db db''
  frame : ∀ k w db, k ∉ keys w → Kept k db (Store.apply w db)

variable {W DB K U I O : Type} [Store W DB] [Locking W DB K]

def Covered (log : List W) (locks : List K) : Prop :=
  ∀ w ∈ log, ∀ k ∈ Locking.keys w, k ∈ locks

/-- What a client that holds `locks` sees of the commits of others. -/
def KeptAll (W : Type) [Store W DB] [Locking W DB K] (locks : List K) (db db' : DB) : Prop :=
  ∀ k ∈ locks, Locking.Kept W k db db'

namespace KeptAll

theorem refl (locks : List K) (db : DB) : KeptAll W locks db db := by
  intro k _
  apply Locking.kept_refl

theorem trans {locks : List K} {db db' db'' : DB} (h : KeptAll W locks db db')
    (h' : KeptAll W locks db' db'') : KeptAll W locks db db'' := by
  intro k hk
  apply Locking.kept_trans k db db' db''
  . exact h k hk
  . exact h' k hk

theorem weaken {locks locks' : List K} {db db' : DB} (h : KeptAll W locks' db db')
    (hlocks : locks ⊆ locks') : KeptAll W locks db db' := by
  intro k hk
  exact h k (hlocks hk)

/-- A log whose locks are held elsewhere keeps what other clients have locked. -/
theorem replay {log : List W} {locks locks' : List K} (hcovered : Covered log locks)
    (hdisjoint : locks.Disjoint locks') (db : DB) : KeptAll W locks' db (replay log db) := by
  apply replay_induction (KeptAll.refl locks' db)
  intro w hw db' hkept
  apply hkept.trans
  intro k hk
  apply Locking.frame
  intro hmem
  exact hdisjoint (hcovered w hw k hmem) hk

end KeptAll

namespace Covered

theorem nil (locks : List K) : Covered ([] : List W) locks := by
  intro w hw
  cases hw

theorem append {log ws : List W} {locks needs : List K} (h : Covered log locks)
    (hws : Covered ws needs) : Covered (log ++ ws) (locks ++ needs) := by
  intro w hw k hk
  rw [List.mem_append] at hw ⊢
  cases hw with
  | inl hw => exact .inl (h w hw k hk)
  | inr hw => exact .inr (hws w hw k hk)

theorem weaken {log : List W} {locks : List K} (h : Covered log locks) (needs : List K)
    : Covered log (locks ++ needs) := by
  intro w hw k hk
  rw [List.mem_append]
  exact .inl (h w hw k hk)

end Covered

/--
Unique indexes: the entries of a database, and the entries that a write adds under the lock of
each. No write removes an entry.
-/
class UniqueIndex (W : Type) (DB K U : outParam Type) [Store W DB] [Locking W DB K] where
  entries : DB → List U
  added : W → List U
  key : U → K
  entries_apply : ∀ w db, (entries (Store.apply w db)).Perm (entries db ++ added w)
  key_mem : ∀ w, ∀ u ∈ added w, key u ∈ Locking.keys w
  kept : ∀ u db db', Locking.Kept W (key u) db db' → u ∉ entries db → u ∉ entries db'

namespace UniqueIndex

variable [UniqueIndex W DB K U]

/-- The constraint of the indexes. -/
def Unique (W : Type) [Store W DB] [Locking W DB K] [UniqueIndex W DB K U] (db : DB) : Prop :=
  (entries W db).Nodup

theorem entries_replay (log : List W) (db : DB)
    : (entries W (replay log db)).Perm (entries W db ++ log.flatMap added) := by
  induction log generalizing db with
  | nil => simp
  | cons w log ih =>
    rw [replay_cons, List.flatMap_cons, ← List.append_assoc]
    apply (ih (Store.apply w db)).trans
    apply List.Perm.append_right
    exact entries_apply w db

/-- A write that only adds entries that are not there yet keeps the constraint. -/
theorem Unique.apply {w : W} {db : DB} (h : Unique W db) (hadded : (added w).Nodup)
    (hnew : ∀ u ∈ added w, u ∉ entries W db)
    : Unique W (Store.apply w db) := by
  unfold Unique
  rw [(entries_apply w db).nodup_iff, List.nodup_append]
  refine ⟨h, hadded, ?_⟩
  intro u hu u' hu' heq
  apply hnew u' hu'
  rw [← heq]
  exact hu

/-- The constraint held before a log that it holds after. -/
theorem Unique.of_replay {log : List W} {db : DB} (h : Unique W (replay log db)) : Unique W db := by
  unfold Unique at h ⊢
  rw [(entries_replay log db).nodup_iff, List.nodup_append] at h
  exact h.1

theorem Unique.absent {log : List W} {db : DB} (h : Unique W (replay log db)) {w : W} {u : U}
    (hw : w ∈ log) (hu : u ∈ added w) : u ∉ entries W db := by
  unfold Unique at h
  rw [(entries_replay log db).nodup_iff, List.nodup_append] at h
  intro hmem
  exact h.2.2 u hmem u (List.mem_flatMap.mpr ⟨w, hw, hu⟩) rfl

/-- Entries that were unique in a transaction's view stay unique while others commit. -/
theorem Unique.stable {log : List W} {locks : List K} {db db' : DB}
    (hcovered : Covered log locks) (hkept : KeptAll W locks db db') (hdb' : Unique W db')
    (h : Unique W (replay log db)) : Unique W (replay log db') := by
  have hadded : (log.flatMap added).Nodup := by
    unfold Unique at h
    rw [(entries_replay log db).nodup_iff, List.nodup_append] at h
    exact h.2.1
  unfold Unique
  rw [(entries_replay log db').nodup_iff, List.nodup_append]
  refine ⟨hdb', hadded, ?_⟩
  intro u hu u' hu' heq
  subst heq
  obtain ⟨w, hw, hmem⟩ := List.mem_flatMap.mp hu'
  have hlock : key W u ∈ locks := hcovered w hw _ (key_mem w u hmem)
  exact kept u db db' (hkept _ hlock) (h.absent hw hmem) hu

end UniqueIndex

/--
Rows under row locks: a write changes a row as a function of its current version, and only under
the row's lock.
-/
class LockedRow (W : Type) (DB K I O : outParam Type) [Store W DB] [Locking W DB K] where
  row : I → DB → O
  key : I → K
  row_congr : ∀ (w : W) i db db', row i db = row i db' →
    row i (Store.apply w db) = row i (Store.apply w db')
  row_frame : ∀ (w : W) i db, key i ∉ Locking.keys w → row i (Store.apply w db) = row i db
  kept : ∀ i db db', Locking.Kept W (key i) db db' → row i db' = row i db

namespace LockedRow

variable [LockedRow W DB K I O]

theorem row_replay_congr (log : List W) (i : I) {db db' : DB} (h : row W i db = row W i db')
    : row W i (replay log db) = row W i (replay log db') := by
  induction log generalizing db db' with
  | nil => exact h
  | cons w log ih =>
    rw [replay_cons, replay_cons]
    apply ih
    exact row_congr w i db db' h

theorem row_replay_frame {log : List W} {i : I} (h : ∀ w ∈ log, key W i ∉ Locking.keys w) (db : DB)
    : row W i (replay log db) = row W i db := by
  induction log generalizing db with
  | nil => rfl
  | cons w log ih =>
    rw [replay_cons, ih]
    . apply row_frame
      apply h
      simp
    . intro w' hw'
      apply h
      simp [hw']

/-- A transaction's view of a row it holds the lock of does not change. -/
theorem row_replay_stable {log : List W} {locks : List K} {i : I} {db db' : DB}
    (hkept : KeptAll W locks db db') (hlock : key W i ∈ locks)
    : row W i (replay log db') = row W i (replay log db) := by
  apply row_replay_congr
  exact kept i db db' (hkept _ hlock)

/-- A condition on rows that held in a transaction's view still holds after others committed. -/
theorem stable {P : O → Prop} {log : List W} {locks : List K} {db db' : DB}
    (hcovered : Covered log locks) (hkept : KeptAll W locks db db')
    (hdb' : ∀ i : I, P (row W i db')) (h : ∀ i : I, P (row W i (replay log db))) (i : I)
    : P (row W i (replay log db')) := by
  by_cases hlock : key W i ∈ locks
  . rw [row_replay_stable hkept hlock]
    exact h i
  . rw [row_replay_frame]
    . exact hdb' i
    . intro w hw hkey
      exact hlock (hcovered w hw _ hkey)

end LockedRow

end ReadCommitted
