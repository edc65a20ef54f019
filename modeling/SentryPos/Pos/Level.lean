import SentryPos.Pos.Valid

/-!
This module contains the stock ledger: the level of a stock key, the sum of its movements, and what
each write and each log does to both.
-/

namespace SentryPos

open ReadCommitted

/-- The sum of the live movements of a stock key. -/
def Database.moved (db : Database) (key : StockKey) : ℤ :=
  ((db.stockMovements.filter fun m => m.toStockKey = key && m.deletedAt.isNone).map (·.qtyDelta)).sum

theorem Database.Valid.level_rows {db : Database} (h : db.Valid) (key : StockKey)
    : (db.branchStock.filter fun r => r.toStockKey = key && r.deletedAt.isNone).length ≤ 1 := by
  have hentries : db.entries.Nodup := h.unique
  unfold Database.entries at hentries
  simp only [List.nodup_append, List.append_assoc] at hentries
  have hlevels : ((db.branchStock.filter (·.deletedAt.isNone)).map (·.toStockKey)).Nodup := by
    exact List.Nodup.of_map _ (by simpa [Function.comp_def] using hentries.2.1.1)
  have hlength := Table.length_filter_le hlevels key
  rwa [List.filter_filter] at hlength

namespace Write

def levelDelta (w : Write) (db : Database) (key : StockKey) : ℤ :=
  let isLevel (r : BranchStock) : Bool := r.toStockKey = key && r.deletedAt.isNone
  match w with
  | addStock id qty => (((db.stock? id).filter isLevel).map fun _ => qty).getD 0
  | setStock id qty => (((db.stock? id).filter isLevel).map fun r => qty - r.qty).getD 0
  | insertStock _ key' qty => if key' = key then qty else 0
  | _ => 0

def movedDelta (w : Write) (key : StockKey) : ℤ :=
  match w with
  | insertMovement m => if m.toStockKey = key && m.deletedAt.isNone then m.qtyDelta else 0
  | _ => 0

theorem level_apply (w : Write) {db : Database} (hdb : (db.branchStock.map (·.id)).Nodup)
    (key : StockKey) : (w.apply db).level key = db.level key + w.levelDelta db key := by
  cases w with
  | addStock id qty =>
    unfold apply Database.level levelDelta
    dsimp only
    rw [Table.sum_modify hdb]
    . simp [Database.stock?]
    . intro r
      rfl
  | setStock id qty =>
    unfold apply Database.level levelDelta
    dsimp only
    rw [Table.sum_modify hdb]
    . simp [Database.stock?]
    . intro r
      rfl
  | insertStock id key' qty =>
    unfold apply Database.level levelDelta
    dsimp only
    rw [List.filter_append, List.map_append, List.sum_append]
    by_cases h : key' = key
    . simp [h]
    . simp [h]
  | _ => simp [apply, Database.level, levelDelta]

theorem moved_apply (w : Write) (db : Database) (key : StockKey)
    : (w.apply db).moved key = db.moved key + w.movedDelta key := by
  cases w with
  | insertMovement m =>
    unfold apply Database.moved movedDelta
    dsimp only
    rw [List.filter_append, List.map_append, List.sum_append]
    by_cases h : m.toStockKey = key && m.deletedAt.isNone
    . simp [h]
    . simp [h]
  | _ => simp [apply, Database.moved, movedDelta]

end Write

theorem moved_replay (log : List Write) (db : Database) (key : StockKey)
    : (replay log db).moved key = db.moved key + (log.map (·.movedDelta key)).sum := by
  induction log generalizing db with
  | nil => simp
  | cons w log ih =>
    rw [replay_cons, ih, store_apply, w.moved_apply, List.map_cons, List.sum_cons]
    ring

/-- The write adds `qty` to the level of `key`, to its live row or as a new one. -/
inductive Restock (db : Database) (key : StockKey) (qty : ℤ) : Write → Prop where
  | add {r : BranchStock} (hrow : db.stock? r.id = some r) (hkey : r.toStockKey = key)
      (hlive : r.deletedAt = none) : Restock db key qty (.addStock r.id qty)
  | insert (id : Uuid) : Restock db key qty (.insertStock id key qty)

namespace Restock

variable {db db' : Database} {key : StockKey} {qty : ℤ} {w : Write}

theorem grows (h : Restock db key qty w) (hgrows : db.Grows db') : Restock db' key qty w := by
  cases h with
  | add hrow hkey hlive =>
    obtain ⟨r', hr', hkey', hlive'⟩ := hgrows.stock _ _ hrow
    have hid : r'.id = _ := Table.key_of_get hr'
    rw [← hid]
    apply Restock.add
    . rw [hid]
      exact hr'
    . rw [hkey', hkey]
    . rw [hlive', hlive]
  | insert id => exact .insert id

theorem levelDelta (h : Restock db key qty w) (key' : StockKey)
    : w.levelDelta db key' = if key = key' then qty else 0 := by
  cases h with
  | add hrow hkey hlive =>
    unfold Write.levelDelta
    dsimp only
    rw [hrow]
    by_cases h : key = key'
    . simp [Option.filter, h, hkey, hlive]
    . simp [Option.filter, h, hkey]
  | insert id => rfl

theorem movedDelta (h : Restock db key qty w) (key' : StockKey) : w.movedDelta key' = 0 := by
  cases h <;> rfl

end Restock

/-- What the write adds to a level stays the same while the database grows. -/
def Write.Steady (db : Database) (w : Write) : Prop :=
  ∀ db', db.Grows db' → ∀ key, w.levelDelta db' key = w.levelDelta db key

theorem Restock.steady {db : Database} {key : StockKey} {qty : ℤ} {w : Write}
    (h : Restock db key qty w) : w.Steady db := by
  intro db' hgrows key'
  rw [(h.grows hgrows).levelDelta, h.levelDelta]

theorem level_replay {log : List Write} {db : Database}
    (hunique : UniqueIndex.Unique Write (replay log db)) (hsteady : ∀ w ∈ log, w.Steady db)
    (key : StockKey)
    : (replay log db).level key = db.level key + (log.map (·.levelDelta db key)).sum := by
  have hgrown
      : ∀ (rest : List Write) db', db.Grows db' → UniqueIndex.Unique Write (replay rest db') →
          (∀ w ∈ rest, w.Steady db) →
            (replay rest db').level key
              =
            db'.level key + (rest.map (·.levelDelta db key)).sum := by
    intro rest
    induction rest with
    | nil =>
      intro db' _ _ _
      simp
    | cons w rest ih =>
      intro db' hgrows hunique hsteady
      have hids : (db'.branchStock.map (·.id)).Nodup := by
        apply Database.stock_ids_nodup_of_unique
        exact hunique.of_replay
      have hw : w.levelDelta db' key = w.levelDelta db key := by
        apply hsteady w (by simp) db' hgrows
      rw [replay_cons, ih, store_apply, w.level_apply hids, hw, List.map_cons, List.sum_cons]
      . ring
      . exact hgrows.trans (w.grows db')
      . exact hunique
      . intro w' hw'
        apply hsteady
        simp [hw']
  exact hgrown log db (.refl db) hunique hsteady

/-- The writes `ws` change no level without a movement of the same quantity. -/
def Balanced (db : Database) (ws : List Write) : Prop :=
  ∀ key, (ws.map (·.levelDelta db key)).sum = (ws.map (·.movedDelta key)).sum

/-- A log that does for each element of a list, in turn, what `P` says of it. -/
inductive Batch {α : Type} (P : α → List Write → Prop) : List α → List Write → Prop where
  | nil : Batch P [] []
  | snoc {xs : List α} {log : List Write} {x : α} {ws : List Write} (h : Batch P xs log)
      (hx : P x ws) : Batch P (xs ++ [x]) (log ++ ws)

namespace Batch

variable {α : Type} {P Q : α → List Write → Prop} {xs : List α} {log : List Write}

theorem mono (h : Batch P xs log) (hpq : ∀ x ws, P x ws → Q x ws) : Batch Q xs log := by
  induction h with
  | nil => exact .nil
  | snoc _ hx ih => exact .snoc ih (hpq _ _ hx)

theorem mem (h : Batch P xs log) {w : Write} (hw : w ∈ log)
    : ∃ x ∈ xs, ∃ ws, P x ws ∧ w ∈ ws := by
  induction h with
  | nil => cases hw
  | @snoc xs log x ws _ hx ih =>
    cases List.mem_append.mp hw with
    | inl hw =>
      obtain ⟨x', hmem, h⟩ := ih hw
      exact ⟨x', List.mem_append_left [x] hmem, h⟩
    | inr hw => exact ⟨x, by simp, ws, hx, hw⟩

theorem sum (h : Batch P xs log) {f : Write → ℤ} {g : α → ℤ}
    (hsum : ∀ x ∈ xs, ∀ ws, P x ws → (ws.map f).sum = g x) : (log.map f).sum = (xs.map g).sum := by
  induction h with
  | nil => rfl
  | @snoc xs log x ws _ hx ih =>
    rw [List.map_append, List.sum_append, List.map_append, List.sum_append, ih,
      hsum x (by simp) ws hx]
    . simp
    . intro y hy
      exact hsum y (List.mem_append_left [x] hy)

theorem flatMap (h : Batch P xs log) {β : Type} {f : Write → List β} {g : α → β}
    (hone : ∀ x ∈ xs, ∀ ws, P x ws → ws.flatMap f = [g x]) : log.flatMap f = xs.map g := by
  induction h with
  | nil => rfl
  | @snoc xs log x ws _ hx ih =>
    rw [List.flatMap_append, List.map_append, ih, hone x (by simp) ws hx]
    . rfl
    . intro y hy
      exact hone y (List.mem_append_left [x] hy)

theorem balanced (h : Batch P xs log) {db : Database}
    (hbalanced : ∀ x ∈ xs, ∀ ws, P x ws → Balanced db ws) : Balanced db log := by
  intro key
  induction h with
  | nil => rfl
  | @snoc xs log x ws _ hx ih =>
    rw [List.map_append, List.sum_append, List.map_append, List.sum_append, ih]
    . rw [hbalanced x (by simp) ws hx key]
    . intro y hy
      exact hbalanced y (List.mem_append_left [x] hy)

end Batch

def Write.Neutral (w : Write) : Prop :=
  (∀ db key, w.levelDelta db key = 0) ∧ ∀ key, w.movedDelta key = 0

theorem Write.Neutral.steady {w : Write} (h : w.Neutral) (db : Database) : w.Steady db := by
  intro db' _ key
  rw [h.1, h.1]

theorem Balanced.of_neutral {ws : List Write} (h : ∀ w ∈ ws, w.Neutral) (db : Database)
    : Balanced db ws := by
  intro key
  induction ws with
  | nil => rfl
  | cons w ws ih =>
    have hw := h w (by simp)
    rw [List.map_cons, List.sum_cons, List.map_cons, List.sum_cons, hw.1, hw.2, ih]
    intro w' hw'
    exact h w' (List.mem_cons_of_mem w hw')

theorem Balanced.append {db : Database} {ws ws' : List Write} (h : Balanced db ws)
    (h' : Balanced db ws') : Balanced db (ws ++ ws') := by
  intro key
  rw [List.map_append, List.sum_append, List.map_append, List.sum_append, h key, h' key]

theorem Restock.balanced {db : Database} {m : StockMovement} {w : Write}
    (h : Restock db m.toStockKey m.qtyDelta w) (hlive : m.deletedAt = none)
    : Balanced db [w, .insertMovement m] := by
  intro key
  simp only [List.map_cons, List.map_nil, List.sum_cons, List.sum_nil, h.levelDelta, h.movedDelta]
  by_cases hkey : m.toStockKey = key
  . simp [Write.levelDelta, Write.movedDelta, hkey, hlive]
  . simp [Write.levelDelta, Write.movedDelta, hkey]

theorem Balanced.ledger {log : List Write} {db : Database} (h : Balanced db log)
    (hunique : UniqueIndex.Unique Write (replay log db)) (hsteady : ∀ w ∈ log, w.Steady db)
    (key : StockKey)
    : (replay log db).level key - (replay log db).moved key = db.level key - db.moved key := by
  rw [level_replay hunique hsteady, moved_replay, h key]
  ring

end SentryPos
