import SentryPos.Checks
import SentryPos.Pos.Schema
import SentryPos.Table

/-!
This module contains tables of children: rows under a parent that can be soft-deleted, with the
writes that a replace-set makes on them, one row at a time.
-/

namespace SentryPos

variable {δ : Type}

/-- A row under a parent, with the columns that a submission sets. -/
structure Child (δ : Type) where
  id : Uuid
  parentId : Uuid
  data : δ
  deletedAt : Option DateTime
  deriving DecidableEq

inductive ChildUpdate (δ : Type) where
  | data (d : δ)
  | deletedAt (t : Option DateTime)
  deriving DecidableEq

def ChildUpdate.apply (u : ChildUpdate δ) (r : Child δ) : Child δ :=
  match u with
  | data d => { r with data := d }
  | deletedAt t => { r with deletedAt := t }

@[simp]
theorem ChildUpdate.apply_id (u : ChildUpdate δ) (r : Child δ) : (u.apply r).id = r.id := by
  cases u <;> rfl

@[simp]
theorem ChildUpdate.apply_parentId (u : ChildUpdate δ) (r : Child δ)
    : (u.apply r).parentId = r.parentId := by
  cases u <;> rfl

inductive ChildWrite (δ : Type) where
  | create (row : Child δ)
  | update (id : Uuid) (data : ChildUpdate δ)
  deriving DecidableEq

inductive ChildError where
  | notFound
  | uniqueViolation
  deriving DecidableEq

abbrev Indexes (δ : Type) := List (Child δ → List Uuid)

def Indexes.Unique (indexes : Indexes δ) (rows : List (Child δ)) : Prop :=
  ∀ index ∈ indexes, (rows.map index).Nodup

instance (indexes : Indexes δ) (rows : List (Child δ)) : Decidable (indexes.Unique rows) := by
  unfold Indexes.Unique
  infer_instance

/-- A row that is updated has to be a child of the parent. -/
def ChildWrite.apply (indexes : Indexes δ) (parentId : Uuid) (rows : List (Child δ))
    (w : ChildWrite δ) : Except ChildError (List (Child δ)) :=
  match w with
  | create row =>
    let rows := rows ++ [row]
    if indexes.Unique rows then .ok rows else .error .uniqueViolation
  | update id data =>
    if ∃ r ∈ rows, r.id = id ∧ r.parentId = parentId then
      let rows := Table.modify Child.id rows id data.apply
      if indexes.Unique rows then .ok rows else .error .uniqueViolation
    else
      .error .notFound

theorem ChildWrite.apply_create {indexes : Indexes δ} {parentId : Uuid} {rows : List (Child δ)}
    {row : Child δ} (h : indexes.Unique (rows ++ [row]))
    : (create row).apply indexes parentId rows = .ok (rows ++ [row]) := by
  unfold ChildWrite.apply
  exact if_pos h

theorem ChildWrite.apply_update {indexes : Indexes δ} {parentId : Uuid} {rows : List (Child δ)}
    {id : Uuid} {u : ChildUpdate δ} (hfound : ∃ r ∈ rows, r.id = id ∧ r.parentId = parentId)
    (h : indexes.Unique (Table.modify Child.id rows id u.apply))
    : (update id u).apply indexes parentId rows = .ok (Table.modify Child.id rows id u.apply) := by
  unfold ChildWrite.apply
  dsimp only
  rw [if_pos hfound, if_pos h]

def applyWrites (indexes : Indexes δ) (parentId : Uuid) (writes : List (ChildWrite δ))
    (rows : List (Child δ)) : Except ChildError (List (Child δ)) :=
  writes.foldlM (fun rows w => w.apply indexes parentId rows) rows

namespace Child

def live (parentId : Uuid) (r : Child δ) : Bool :=
  decide (r.parentId = parentId ∧ r.deletedAt.isNone)

def changed (updates : List (Uuid × ChildUpdate δ)) (r : Child δ) : Child δ :=
  ((Table.get Prod.fst updates r.id).map fun u => u.2.apply r).getD r

theorem changed_of_mem {updates : List (Uuid × ChildUpdate δ)}
    (hnodup : (updates.map Prod.fst).Nodup) {r : Child δ} {u : ChildUpdate δ}
    (h : (r.id, u) ∈ updates) : changed updates r = u.apply r := by
  have hget := Table.get_of_mem hnodup h
  unfold changed
  dsimp only at hget
  rw [hget]
  rfl

theorem changed_of_notMem {updates : List (Uuid × ChildUpdate δ)} {r : Child δ}
    (h : r.id ∉ updates.map Prod.fst) : changed updates r = r := by
  have hnone : Table.get Prod.fst updates r.id = none := by
    rw [Table.get_eq_none]
    intro u hu heq
    apply h
    rw [← heq]
    exact List.mem_map_of_mem hu
  unfold changed
  rw [hnone]
  rfl

end Child

/-- The primary key. -/
def Child.key (r : Child δ) : List Uuid := [r.id]

theorem unique_key {rows : List (Child δ)}
    : Indexes.Unique [Child.key] rows ↔ (rows.map Child.id).Nodup := by
  have hmap : rows.map Child.key = (rows.map Child.id).map fun id => [id] := by
    rw [List.map_map]
    rfl
  unfold Indexes.Unique
  simp only [List.mem_singleton, forall_eq]
  rw [hmap]
  constructor
  . exact List.Nodup.of_map _
  . exact List.Nodup.map fun _ _ h => List.singleton_injective h

theorem Indexes.Unique.sublist {indexes : Indexes δ} {rows rows' : List (Child δ)}
    (h : indexes.Unique rows) (hsub : rows'.Sublist rows) : indexes.Unique rows' := by
  intro index hindex
  exact (h index hindex).sublist (hsub.map index)

theorem applyWrites_cons {indexes : Indexes δ} {parentId : Uuid} {rows rows' : List (Child δ)}
    {w : ChildWrite δ} {writes : List (ChildWrite δ)} (h : w.apply indexes parentId rows = .ok rows')
    : applyWrites indexes parentId (w :: writes) rows = applyWrites indexes parentId writes rows' := by
  unfold applyWrites
  rw [List.foldlM_cons, h]
  rfl

theorem applyWrites_append {indexes : Indexes δ} {parentId : Uuid} {rows rows' : List (Child δ)}
    {writes writes' : List (ChildWrite δ)}
    (h : applyWrites indexes parentId writes rows = .ok rows')
    : applyWrites indexes parentId (writes ++ writes') rows
        = applyWrites indexes parentId writes' rows' := by
  unfold applyWrites at h ⊢
  rw [List.foldlM_append, h]
  rfl

theorem applyWrites_unique {indexes : Indexes δ} {parentId : Uuid} {rows rows' : List (Child δ)}
    {writes : List (ChildWrite δ)} (hrows : indexes.Unique rows)
    (h : applyWrites indexes parentId writes rows = .ok rows') : indexes.Unique rows' := by
  induction writes generalizing rows with
  | nil =>
    cases h
    exact hrows
  | cons w writes ih =>
    unfold applyWrites at h
    rw [List.foldlM_cons, Checks.bind_eq_ok] at h
    obtain ⟨rows₁, hw, hrest⟩ := h
    apply ih _ hrest
    unfold ChildWrite.apply at hw
    split at hw
    . dsimp only at hw
      split at hw
      . next hunique =>
        cases hw
        exact hunique
      . cases hw
    . split at hw
      . dsimp only at hw
        split at hw
        . next hunique =>
          cases hw
          exact hunique
        . cases hw
      . cases hw

theorem applyWrites_create {indexes : Indexes δ} {parentId : Uuid} {created rows : List (Child δ)}
    (h : indexes.Unique (rows ++ created))
    : applyWrites indexes parentId (created.map .create) rows = .ok (rows ++ created) := by
  induction created generalizing rows with
  | nil =>
    rw [List.append_nil]
    rfl
  | cons row created ih =>
    have hrow : indexes.Unique (rows ++ [row]) :=
      h.sublist (List.Sublist.append_left (by simp) rows)
    have hrest : indexes.Unique (rows ++ [row] ++ created) := by
      rw [List.append_assoc]
      exact h
    rw [List.map_cons, applyWrites_cons (ChildWrite.apply_create hrow), ih hrest,
      List.append_assoc]
    rfl

theorem applyWrites_create_ok {indexes : Indexes δ} {parentId : Uuid}
    {created rows rows' : List (Child δ)} {writes : List (ChildWrite δ)} (hrows : indexes.Unique rows)
    (h : applyWrites indexes parentId (created.map .create ++ writes) rows = .ok rows')
    : indexes.Unique (rows ++ created) := by
  induction created generalizing rows with
  | nil =>
    rw [List.append_nil]
    exact hrows
  | cons row created ih =>
    unfold applyWrites at h
    rw [List.map_cons, List.cons_append, List.foldlM_cons, Checks.bind_eq_ok] at h
    obtain ⟨rows₁, hcreate, hrest⟩ := h
    unfold ChildWrite.apply at hcreate
    dsimp only at hcreate
    split at hcreate
    . next hunique =>
      cases hcreate
      have hall := ih hunique hrest
      rw [List.append_assoc] at hall
      exact hall
    . cases hcreate

theorem applyWrites_update {indexes : Indexes δ} {parentId : Uuid}
    {updates : List (Uuid × ChildUpdate δ)} {rows : List (Child δ)} (hunique : indexes.Unique rows)
    (hnodup : (updates.map Prod.fst).Nodup)
    (hfound : ∀ u ∈ updates, ∃ r ∈ rows, r.id = u.1 ∧ r.parentId = parentId)
    (hkept : ∀ u ∈ updates, ∀ index ∈ indexes, ∀ r, index (u.2.apply r) = index r)
    : applyWrites indexes parentId (updates.map fun u => .update u.1 u.2) rows
        = .ok (rows.map (Child.changed updates)) := by
  have hfold : applyWrites indexes parentId (updates.map fun u => .update u.1 u.2) rows
      = .ok (updates.foldl (fun rows u => Table.modify Child.id rows u.1 u.2.apply) rows) := by
    clear hnodup
    induction updates generalizing rows with
    | nil => rfl
    | cons u updates ih =>
      have hu := hkept u List.mem_cons_self
      have hrows : indexes.Unique (Table.modify Child.id rows u.1 u.2.apply) := by
        intro index hindex
        rw [Table.map_modify (hu index hindex)]
        exact hunique index hindex
      have hchild := hfound u List.mem_cons_self
      rw [List.map_cons, applyWrites_cons (ChildWrite.apply_update hchild hrows)]
      apply ih hrows
      . intro u' hu'
        obtain ⟨r, hr, hid, hparent⟩ := hfound u' (List.mem_cons_of_mem _ hu')
        unfold Table.modify
        refine ⟨_, List.mem_map_of_mem hr, ?_⟩
        split
        . simp [hid, hparent]
        . exact ⟨hid, hparent⟩
      . intro u' hu'
        exact hkept u' (List.mem_cons_of_mem _ hu')
  rw [hfold, Table.foldl_modify (fun u r => u.2.apply_id r) hnodup]
  rfl

end SentryPos
