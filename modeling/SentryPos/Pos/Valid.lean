import SentryPos.Pos.Write

/-!
This module contains the invariants of the committed database, what a transaction in progress keeps
of them, and what a client may rely on while others commit.
-/

namespace SentryPos

open ReadCommitted

def Sale.posting (s : Sale) : Sale :=
  {
    s with
      status := .completed
      statusReason := none
      voidedAt := none
      refundedAt := none
      refundShiftId := none
  }

@[simp]
theorem Sale.posting_void (s : Sale) (voidedAt : DateTime) (reason : String)
    : (s.void voidedAt reason).posting = s.posting := rfl

@[simp]
theorem Sale.posting_refund (s : Sale) (refundedAt : DateTime) (reason : String)
    (refundShiftId : Option Uuid)
    : (s.refund refundedAt reason refundShiftId).posting = s.posting := rfl

theorem Sale.branchId_congr {s s' : Sale} (h : s'.posting = s.posting)
    : s'.branchId = s.branchId := by
  have hposting : s'.posting.branchId = s.posting.branchId := by
    rw [h]
  exact hposting

def Database.saleMoves (db : Database) (saleId : Uuid) : List StockMovement :=
  db.stockMovements.filter fun m => m.type = .sale && m.refId = saleId

def Database.reversalMoves (db : Database) (saleId : Uuid) : List StockMovement :=
  db.stockMovements.filter fun m => m.type.isReversal && m.refId = saleId

def Shift.opening (s : Shift) : Shift :=
  { s with closedAt := none, closingCash := none, expectedCash := none }

def NonNegative : Option BranchStock → Prop
  | some r => 0 ≤ r.qty
  | none => True

theorem nonNegative_stock? {db : Database} (h : ∀ r ∈ db.branchStock, 0 ≤ r.qty) (id : Uuid)
    : NonNegative (db.stock? id) := by
  cases hrow : db.stock? id with
  | none => trivial
  | some r => exact h r (Table.mem_of_get hrow)

/-- The constraints of the tables. -/
structure Database.Valid (db : Database) : Prop where
  unique : UniqueIndex.Unique Write db
  stock : ∀ id, NonNegative (db.stock? id)

/-- What the requests keep of the rows about sales, beyond the constraints. -/
structure Database.Traced (db : Database) : Prop where
  drafts : ∀ s ∈ db.sales, s.draft.id = s.id
  saleMoves : ∀ m ∈ db.stockMovements, m.type = .sale →
    ∃ s, db.sale? m.refId = some s ∧ s.branchId = m.branchId ∧ m.deletedAt = none
  reversals : ∀ m ∈ db.stockMovements, m.type.isReversal →
    ∃ s, db.sale? m.refId = some s ∧ s.status ≠ .completed

theorem Database.stock_ids_nodup_of_unique {db : Database} (h : UniqueIndex.Unique Write db)
    : (db.branchStock.map (·.id)).Nodup := by
  have hentries : db.entries.Nodup := h
  unfold entries at hentries
  simp only [List.nodup_append, List.append_assoc] at hentries
  exact List.Nodup.of_map _ (by simpa [Function.comp_def] using hentries.1)

theorem Database.Valid.stock_ids_nodup {db : Database} (h : db.Valid)
    : (db.branchStock.map (·.id)).Nodup :=
  Database.stock_ids_nodup_of_unique h.unique

theorem Database.Valid.sale_ids_nodup {db : Database} (h : db.Valid)
    : (db.sales.map (·.id)).Nodup := by
  have hentries : db.entries.Nodup := h.unique
  unfold entries at hentries
  simp only [List.nodup_append, List.append_assoc] at hentries
  exact List.Nodup.of_map _ (by simpa [Function.comp_def] using hentries.2.1.2.1.2.1.2.1.1)

theorem Database.Valid.shift_ids_nodup {db : Database} (h : db.Valid)
    : (db.shifts.map (·.id)).Nodup := by
  have hentries : db.entries.Nodup := h.unique
  unfold entries at hentries
  simp only [List.nodup_append, List.append_assoc] at hentries
  exact List.Nodup.of_map _ (by simpa [Function.comp_def] using hentries.2.1.2.1.1)

structure Database.Grows (db db' : Database) : Prop where
  stock : ∀ id r, db.stock? id = some r →
    ∃ r', db'.stock? id = some r' ∧ r'.toStockKey = r.toStockKey ∧ r'.deletedAt = r.deletedAt
  sale : ∀ id s, db.sale? id = some s → ∃ s', db'.sale? id = some s' ∧ s'.posting = s.posting
  shift : ∀ id s, db.shift? id = some s → ∃ s', db'.shift? id = some s' ∧ s'.opening = s.opening
  movements : db.stockMovements <+: db'.stockMovements
  entries : ∀ e ∈ db.entries, e ∈ db'.entries

namespace Database.Grows

variable {db db' db'' : Database}

theorem refl (db : Database) : db.Grows db where
  stock := by
    intro id r hr
    exact ⟨r, hr, rfl, rfl⟩
  sale := by
    intro id s hs
    exact ⟨s, hs, rfl⟩
  shift := by
    intro id s hs
    exact ⟨s, hs, rfl⟩
  movements := List.prefix_rfl
  entries := by
    intro e he
    exact he

theorem trans (h : db.Grows db') (h' : db'.Grows db'') : db.Grows db'' where
  stock := by
    intro id r hr
    obtain ⟨r', hr', hkey, hdeleted⟩ := h.stock id r hr
    obtain ⟨r'', hr'', hkey', hdeleted'⟩ := h'.stock id r' hr'
    exact ⟨r'', hr'', hkey'.trans hkey, hdeleted'.trans hdeleted⟩
  sale := by
    intro id s hs
    obtain ⟨s', hs', hposting⟩ := h.sale id s hs
    obtain ⟨s'', hs'', hposting'⟩ := h'.sale id s' hs'
    exact ⟨s'', hs'', hposting'.trans hposting⟩
  shift := by
    intro id s hs
    obtain ⟨s', hs', hopening⟩ := h.shift id s hs
    obtain ⟨s'', hs'', hopening'⟩ := h'.shift id s' hs'
    exact ⟨s'', hs'', hopening'.trans hopening⟩
  movements := h.movements.trans h'.movements
  entries := by
    intro e he
    exact h'.entries e (h.entries e he)

end Database.Grows

theorem Write.stock?_grows (w : Write) {db : Database} {id : Uuid} {r : BranchStock}
    (hr : db.stock? id = some r)
    : ∃ r', (w.apply db).stock? id = some r' ∧ r'.toStockKey = r.toStockKey
        ∧ r'.deletedAt = r.deletedAt := by
  by_cases hkey : .branchStock id ∈ w.keys
  . cases w with
    | addStock id' qty =>
      have heq : id = id' := by simpa [keys, updated, added] using hkey
      subst heq
      refine ⟨{ r with qty := r.qty + qty }, ?_, rfl, rfl⟩
      unfold apply Database.stock? at *
      rw [Table.get_modify_self, hr]
      . rfl
      . intro r
        rfl
    | setStock id' qty =>
      have heq : id = id' := by simpa [keys, updated, added] using hkey
      subst heq
      refine ⟨{ r with qty }, ?_, rfl, rfl⟩
      unfold apply Database.stock? at *
      rw [Table.get_modify_self, hr]
      . rfl
      . intro r
        rfl
    | insertStock id' key qty => exact ⟨r, Table.get_append_of_some hr, rfl, rfl⟩
    | _ => simp [keys, updated, added] at hkey
  . rw [w.stock?_apply hkey]
    exact ⟨r, hr, rfl, rfl⟩

theorem Write.sale?_grows (w : Write) {db : Database} {id : Uuid} {s : Sale}
    (hs : db.sale? id = some s)
    : ∃ s', (w.apply db).sale? id = some s' ∧ s'.posting = s.posting := by
  by_cases hkey : .sale id ∈ w.keys
  . cases w with
    | voidSale id' voidedAt reason =>
      have heq : id = id' := by simpa [keys, updated, added] using hkey
      subst heq
      refine ⟨s.void voidedAt reason, ?_, rfl⟩
      unfold apply Database.sale? at *
      rw [Table.get_modify_self, hs]
      . rfl
      . intro r
        rfl
    | refundSale id' refundedAt reason refundShiftId =>
      have heq : id = id' := by simpa [keys, updated, added] using hkey
      subst heq
      refine ⟨s.refund refundedAt reason refundShiftId, ?_, rfl⟩
      unfold apply Database.sale? at *
      rw [Table.get_modify_self, hs]
      . rfl
      . intro r
        rfl
    | _ => simp [keys, updated, added] at hkey
  . exact ⟨s, w.sale?_apply hkey hs, rfl⟩

theorem Write.shift?_grows (w : Write) {db : Database} {id : Uuid} {s : Shift}
    (hs : db.shift? id = some s)
    : ∃ s', (w.apply db).shift? id = some s' ∧ s'.opening = s.opening := by
  cases w with
  | closeShift id' closedAt closingCash expectedCash =>
    unfold apply Database.shift? at *
    dsimp only
    by_cases heq : id = id'
    . subst heq
      refine ⟨s.close closedAt closingCash expectedCash, ?_, rfl⟩
      rw [Table.get_modify_self, hs]
      . rfl
      . intro r
        rfl
    . refine ⟨s, ?_, rfl⟩
      rw [Table.get_modify_ne _ heq, hs]
      intro r
      rfl
  | insertShift row => exact ⟨s, Table.get_append_of_some hs, rfl⟩
  | _ => exact ⟨s, hs, rfl⟩

theorem Write.grows (w : Write) (db : Database) : db.Grows (w.apply db) where
  stock := by
    intro id r hr
    exact w.stock?_grows hr
  sale := by
    intro id s hs
    exact w.sale?_grows hs
  shift := by
    intro id s hs
    exact w.shift?_grows hs
  movements := by
    cases w with
    | insertMovement row => exact List.prefix_append _ _
    | _ => exact List.prefix_rfl
  entries := by
    intro e he
    rw [(w.entries_apply db).mem_iff, List.mem_append]
    exact .inl he

theorem Database.Grows.replay (log : List Write) (db : Database) : db.Grows (replay log db) := by
  apply replay_induction (.refl db)
  intro w _ db' h
  exact h.trans (w.grows db')

theorem Database.mem_entries_sale {db : Database} {id : Uuid} {s : Sale}
    (h : db.sale? id = some s) : .sale id ∈ db.entries := by
  have hid := Table.key_of_get h
  have hmem := Table.mem_of_get h
  simp only [entries, List.mem_append, List.mem_map]
  exact .inl (.inl (.inr ⟨s, hmem, by rw [hid]⟩))

/-- The movements that a write records. -/
def Write.movements : Write → List StockMovement
  | insertMovement row => [row]
  | _ => []

theorem movements_replay (log : List Write) (db : Database)
    : (replay log db).stockMovements = db.stockMovements ++ log.flatMap Write.movements := by
  apply replay_appends Database.stockMovements
  intro w _ db
  cases w <;> simp [store_apply, Write.apply, Write.movements]

theorem Write.sale?_frozen {w : Write} {db : Database} {id : Uuid} {s : Sale}
    (hs : db.sale? id = some s) (hw : w.reversed? ≠ some id) : (w.apply db).sale? id = some s := by
  cases w with
  | voidSale id' | refundSale id' =>
    apply sale?_apply _ hs
    intro hkey
    apply hw
    have heq : id = id' := by simpa [keys, updated, added] using hkey
    rw [heq]
    rfl
  | insertSale row => exact Table.get_append_of_some hs
  | _ => exact hs

theorem Write.sale?_reversed {w : Write} {db : Database} {id : Uuid} {s : Sale}
    (hs : db.sale? id = some s) (hw : w.reversed? = some id ∨ s.status ≠ .completed)
    : ∃ s', (w.apply db).sale? id = some s' ∧ s'.status ≠ .completed := by
  by_cases hreversed : w.reversed? = some id
  . cases w with
    | voidSale id' voidedAt reason =>
      have heq : id' = id := by simpa [reversed?] using hreversed
      subst heq
      refine ⟨s.void voidedAt reason, ?_, by simp [Sale.void]⟩
      unfold apply Database.sale? at *
      rw [Table.get_modify_self, hs]
      . rfl
      . intro r
        rfl
    | refundSale id' refundedAt reason refundShiftId =>
      have heq : id' = id := by simpa [reversed?] using hreversed
      subst heq
      refine ⟨s.refund refundedAt reason refundShiftId, ?_, by simp [Sale.refund]⟩
      unfold apply Database.sale? at *
      rw [Table.get_modify_self, hs]
      . rfl
      . intro r
        rfl
    | _ => simp [reversed?] at hreversed
  . exact ⟨s, sale?_frozen hs hreversed, hw.resolve_left hreversed⟩

theorem Write.sale?_congr {w : Write} {db db' : Database} {id : Uuid} (hw : w.reversed? = some id)
    (h : db.sale? id = db'.sale? id) : (w.apply db).sale? id = (w.apply db').sale? id := by
  cases w with
  | voidSale id' | refundSale id' =>
    have heq : id' = id := by simpa [reversed?] using hw
    subst heq
    unfold apply Database.sale? at *
    dsimp only
    rw [Table.get_modify_self, Table.get_modify_self, h]
    . intro r
      rfl
    . intro r
      rfl
  | _ => simp [reversed?] at hw

theorem Database.reversed_replay {log : List Write} {db : Database} {id : Uuid} {s : Sale}
    (hs : db.sale? id = some s)
    (hlog : (∃ w ∈ log, w.reversed? = some id) ∨ s.status ≠ .completed)
    : ∃ s', (replay log db).sale? id = some s' ∧ s'.status ≠ .completed := by
  induction log generalizing db s with
  | nil => exact ⟨s, hs, hlog.resolve_left (by simp)⟩
  | cons w log ih =>
    rw [replay_cons]
    by_cases hhere : w.reversed? = some id ∨ s.status ≠ .completed
    . obtain ⟨s', hs', hstatus⟩ := w.sale?_reversed hs hhere
      exact ih hs' (.inr hstatus)
    . apply ih (w.sale?_frozen hs fun hw => hhere (.inl hw))
      cases hlog with
      | inr hstatus => exact .inr hstatus
      | inl hlog =>
        obtain ⟨w', hmem, hw'⟩ := hlog
        cases List.mem_cons.mp hmem with
        | inl heq =>
          exfalso
          apply hhere
          rw [← heq]
          exact .inl hw'
        | inr hmem => exact .inl ⟨w', hmem, hw'⟩

theorem Database.inserted_replay {log : List Write} {db : Database} {row : Sale}
    (hrow : .insertSale row ∈ log) (hunique : UniqueIndex.Unique Write (replay log db))
    : ∃ s, (replay log db).sale? row.id = some s ∧ s.posting = row.posting := by
  obtain ⟨before, after, heq⟩ := List.append_of_mem hrow
  rw [heq] at hunique ⊢
  simp only [replay_append, replay_cons] at hunique ⊢
  have hinserted
      : (Store.apply (Write.insertSale row) (replay before db)).sale? row.id = some row := by
    have hcons
        : UniqueIndex.Unique Write (replay (Write.insertSale row :: after) (replay before db)) :=
      hunique
    have hadded : .sale row.id ∈ UniqueIndex.added (Write.insertSale row) := by
      simp [UniqueIndex.added, Write.added]
    have habsent : .sale row.id ∉ (replay before db).entries :=
      hcons.absent List.mem_cons_self hadded
    have hnone : (replay before db).sale? row.id = none := by
      cases hs : (replay before db).sale? row.id with
      | none => rfl
      | some s => exact absurd (Database.mem_entries_sale hs) habsent
    unfold Database.sale? at hnone ⊢
    rw [store_apply]
    unfold Write.apply
    dsimp only
    rw [Table.get_append, hnone, Option.none_or, Table.get_singleton_self]
  exact (Grows.replay after _).sale row.id row hinserted

structure Database.Rely (locks : List Key) (db db' : Database) : Prop where
  kept : KeptAll Write locks db db'
  grows : db.Grows db'
  saleMoves : ∀ id s, db.sale? id = some s → db'.saleMoves id = db.saleMoves id
  reversed : ∀ id s, db.sale? id = some s → s.status ≠ .completed →
    db'.sale? id = some s ∧ db'.reversalMoves id = db.reversalMoves id

namespace Database.Rely

variable {locks : List Key} {db db' db'' : Database}

theorem refl (locks : List Key) (db : Database) : db.Rely locks db where
  kept := .refl locks db
  grows := .refl db
  saleMoves := by
    intro id s _
    rfl
  reversed := by
    intro id s hs _
    exact ⟨hs, rfl⟩

theorem trans (h : db.Rely locks db') (h' : db'.Rely locks db'') : db.Rely locks db'' where
  kept := h.kept.trans h'.kept
  grows := h.grows.trans h'.grows
  saleMoves := by
    intro id s hs
    obtain ⟨s', hs', _⟩ := h.grows.sale id s hs
    rw [h'.saleMoves id s' hs', h.saleMoves id s hs]
  reversed := by
    intro id s hs hstatus
    obtain ⟨hs', hmoves⟩ := h.reversed id s hs hstatus
    obtain ⟨hs'', hmoves'⟩ := h'.reversed id s hs' hstatus
    exact ⟨hs'', hmoves'.trans hmoves⟩

theorem weaken {locks' : List Key} (h : db.Rely locks' db') (hlocks : locks ⊆ locks')
    : db.Rely locks db' where
  kept := h.kept.weaken hlocks
  grows := h.grows
  saleMoves := h.saleMoves
  reversed := h.reversed

end Database.Rely

/--
What a transaction with the uncommitted writes `log` keeps until it commits: its locks cover its
writes, its view satisfies the constraints, movements of a sale come with its row and movements
that reverse a sale with the update of its status, which was `completed`.
-/
structure Pending (log : List Write) (locks : List Key) (db : Database) : Prop where
  covered : Covered log locks
  unique : UniqueIndex.Unique Write (replay log db)
  stock : ∀ id, NonNegative ((replay log db).stock? id)
  drafts : ∀ row, .insertSale row ∈ log → row.draft.id = row.id
  saleMoves : ∀ m, .insertMovement m ∈ log → m.type = .sale →
    ∃ row, .insertSale row ∈ log ∧ row.id = m.refId ∧ row.branchId = m.branchId ∧ m.deletedAt = none
  reversals : ∀ m, .insertMovement m ∈ log → m.type.isReversal →
    ∃ w ∈ log, w.reversed? = some m.refId
  completed : ∀ w ∈ log, ∀ id, w.reversed? = some id →
    ∃ s, db.sale? id = some s ∧ s.status = .completed

namespace Pending

variable {log ws : List Write} {locks needs : List Key} {db db' : Database}

theorem nil (h : db.Valid) (locks : List Key) : Pending [] locks db where
  covered := .nil locks
  unique := h.unique
  stock := h.stock
  drafts := by simp
  saleMoves := by simp
  reversals := by simp
  completed := by simp

theorem sale_mem_keys {w : Write} {id : Uuid} (h : w.reversed? = some id) : .sale id ∈ w.keys := by
  cases w with
  | voidSale id' | refundSale id' =>
    have heq : id' = id := by simpa [Write.reversed?] using h
    simp [Write.keys, Write.updated, heq]
  | _ => simp [Write.reversed?] at h

theorem stable (h : Pending log locks db) (hkept : KeptAll Write locks db db') (hdb' : db'.Valid)
    : Pending log locks db' where
  covered := h.covered
  unique := UniqueIndex.Unique.stable h.covered hkept hdb'.unique h.unique
  stock := LockedRow.stable h.covered hkept hdb'.stock h.stock
  drafts := h.drafts
  saleMoves := h.saleMoves
  reversals := h.reversals
  completed := by
    intro w hw id hid
    obtain ⟨s, hs, hstatus⟩ := h.completed w hw id hid
    have hlock : .sale id ∈ locks := h.covered w hw _ (sale_mem_keys hid)
    exact ⟨s, hkept _ hlock s hs, hstatus⟩

theorem sales_replay (hlog : ∀ row, .insertSale row ∈ log → row.draft.id = row.id)
    (hdb : ∀ s ∈ db.sales, s.draft.id = s.id) : ∀ s ∈ (replay log db).sales, s.draft.id = s.id := by
  have hstep
      : ∀ w ∈ log, ∀ db : Database, (∀ s ∈ db.sales, s.draft.id = s.id) →
          ∀ s ∈ (w.apply db).sales, s.draft.id = s.id := by
    intro w hw db hdb s hs
    cases w with
    | insertSale row =>
      simp only [Write.apply, List.mem_append, List.mem_singleton] at hs
      cases hs with
      | inl hs => exact hdb s hs
      | inr hs =>
        rw [hs]
        exact hlog row hw
    | voidSale =>
      cases Table.mem_modify hs with
      | inl hs => exact hdb s hs.2
      | inr hs =>
        obtain ⟨s', hs', _, heq⟩ := hs
        rw [heq]
        exact hdb s' hs'
    | refundSale =>
      cases Table.mem_modify hs with
      | inl hs => exact hdb s hs.2
      | inr hs =>
        obtain ⟨s', hs', _, heq⟩ := hs
        rw [heq]
        exact hdb s' hs'
    | _ => exact hdb s hs
  exact replay_induction hdb hstep

theorem mem_movements_replay {m : StockMovement} (h : m ∈ (replay log db).stockMovements)
    : m ∈ db.stockMovements ∨ .insertMovement m ∈ log := by
  rw [movements_replay, List.mem_append, List.mem_flatMap] at h
  cases h with
  | inl h => exact .inl h
  | inr h =>
    obtain ⟨w, hw, hm⟩ := h
    cases w with
    | insertMovement row =>
      rw [show m = row from List.mem_singleton.mp hm]
      exact .inr hw
    | _ => cases hm

theorem sale_not_added (h : Pending log locks db) {id : Uuid} {s : Sale} (hs : db.sale? id = some s)
    {row : Sale} (hrow : .insertSale row ∈ log) : row.id ≠ id := by
  intro hid
  have hadded : IndexEntry.sale id ∈ (Write.insertSale row).added := by
    simp [Write.added, hid]
  exact h.unique.absent hrow hadded (Database.mem_entries_sale hs)

theorem not_reversed (h : Pending log locks db) {id : Uuid} {s : Sale} (hs : db.sale? id = some s)
    (hstatus : s.status ≠ .completed) : ∀ w ∈ log, w.reversed? ≠ some id := by
  intro w hw hid
  obtain ⟨s', hs', hcompleted⟩ := h.completed w hw id hid
  rw [hs] at hs'
  cases hs'
  exact hstatus hcompleted

theorem sale?_replay (h : Pending log locks db) {id : Uuid} {s : Sale} (hs : db.sale? id = some s)
    (hstatus : s.status ≠ .completed) : (replay log db).sale? id = some s := by
  apply replay_induction (W := Write) (P := fun db' : Database => db'.sale? id = some s) hs
  intro w hw db' hdb'
  exact Write.sale?_frozen hdb' (h.not_reversed hs hstatus w hw)

theorem filter_movements_replay {p : StockMovement → Bool}
    (hlog : ∀ m, .insertMovement m ∈ log → p m = false) (db : Database)
    : (replay log db).stockMovements.filter p = db.stockMovements.filter p := by
  rw [movements_replay, List.filter_append, List.append_right_eq_self, List.filter_eq_nil_iff]
  intro m hm
  obtain ⟨w, hw, hm⟩ := List.mem_flatMap.mp hm
  cases w with
  | insertMovement row =>
    rw [show m = row from List.mem_singleton.mp hm, hlog row hw]
    simp
  | _ => cases hm

theorem saleMoves_replay (h : Pending log locks db) {id : Uuid} {s : Sale}
    (hs : db.sale? id = some s) : (replay log db).saleMoves id = db.saleMoves id := by
  apply filter_movements_replay
  intro m hm
  rw [Bool.and_eq_false_imp]
  intro htype
  obtain ⟨row, hrow, hid, _⟩ := h.saleMoves m hm (by simpa using htype)
  rw [← hid]
  simpa using h.sale_not_added hs hrow

theorem reversalMoves_replay (h : Pending log locks db) {id : Uuid} {s : Sale}
    (hs : db.sale? id = some s) (hstatus : s.status ≠ .completed)
    : (replay log db).reversalMoves id = db.reversalMoves id := by
  apply filter_movements_replay
  intro m hm
  rw [Bool.and_eq_false_imp]
  intro htype
  obtain ⟨w, hw, hid⟩ := h.reversals m hm htype
  simp only [decide_eq_false_iff_not]
  intro heq
  rw [heq] at hid
  exact h.not_reversed hs hstatus w hw hid

theorem valid (h : Pending log locks db) : (replay log db).Valid where
  unique := h.unique
  stock := h.stock

theorem traced (h : Pending log locks db) (hdb : db.Traced) : (replay log db).Traced where
  drafts := sales_replay h.drafts hdb.drafts
  saleMoves := by
    intro m hm htype
    cases mem_movements_replay hm with
    | inl hm =>
      obtain ⟨s, hs, hbranch, hlive⟩ := hdb.saleMoves m hm htype
      obtain ⟨s', hs', hposting⟩ := (Database.Grows.replay log db).sale _ s hs
      refine ⟨s', hs', ?_, hlive⟩
      rw [← hbranch]
      exact Sale.branchId_congr hposting
    | inr hm =>
      obtain ⟨row, hrow, hid, hbranch, hlive⟩ := h.saleMoves m hm htype
      obtain ⟨s, hs, hposting⟩ := Database.inserted_replay hrow h.unique
      rw [hid] at hs
      refine ⟨s, hs, ?_, hlive⟩
      rw [← hbranch]
      exact Sale.branchId_congr hposting
  reversals := by
    intro m hm htype
    cases mem_movements_replay hm with
    | inl hm =>
      obtain ⟨s, hs, hstatus⟩ := hdb.reversals m hm htype
      exact ⟨s, h.sale?_replay hs hstatus, hstatus⟩
    | inr hm =>
      obtain ⟨w, hw, hid⟩ := h.reversals m hm htype
      obtain ⟨s, hs, _⟩ := h.completed w hw _ hid
      exact Database.reversed_replay hs (.inl ⟨w, hw, hid⟩)

theorem rely (h : Pending log locks db) {locks' : List Key} (hdisjoint : locks.Disjoint locks')
    : db.Rely locks' (replay log db) where
  kept := .replay h.covered hdisjoint db
  grows := .replay log db
  saleMoves := by
    intro id s hs
    exact h.saleMoves_replay hs
  reversed := by
    intro id s hs hstatus
    exact ⟨h.sale?_replay hs hstatus, h.reversalMoves_replay hs hstatus⟩

end Pending

end SentryPos
