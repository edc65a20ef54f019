import SentryPos.Catalog.ReplaceSet
import SentryPos.ChildTable
import SentryPos.Scoped.Children

/-!
This module contains the diff that makes the live children of a row those of a submission, and what
it leaves in the table of the children once the scoped client has rewritten it.
-/

namespace SentryPos.Catalog

open Arg (Fields)

section Build

variable {ι : Type}

/--
What `buildVariantReplaceSet` and `buildModifierReplaceSet` have in common: the nested writes of a
submission, or the message of the error that is thrown.
-/
def buildReplaceSet (noun : String) (inputId : ι → Option Uuid) (columns : ι → Fields)
    (currentIds : List Uuid) (submitted : List ι) : Except String Arg := do
  let submittedIds := submitted.filterMap inputId
  match submittedIds.find? (· ∉ currentIds) with
  | some unknown => throw s!"Unknown {noun} id \"{unknown}\"."
  | none =>
    if submittedIds.length ≠ submittedIds.dedup.length then
      throw s!"The same {noun} id appears more than once in this submission."
    let toCreate := submitted.filter fun v => (inputId v).isNone
    let toUpdate := submitted.filterMap fun v =>
      ((inputId v).filter (· ∈ currentIds)).map fun id => (id, columns v)
    let toDelete := currentIds.filter (· ∉ submittedIds)
    return replaceArgs (toCreate.map fun v => .obj (columns v)) toUpdate toDelete

/-- An id of the submission is unknown or repeated. -/
def Rejected (inputId : ι → Option Uuid) (currentIds : List Uuid) (submitted : List ι) : Prop :=
  (∃ id ∈ submitted.filterMap inputId, id ∉ currentIds) ∨ ¬ (submitted.filterMap inputId).Nodup

variable {inputId : ι → Option Uuid} {currentIds : List Uuid} {submitted : List ι}

theorem not_rejected
    : ¬ Rejected inputId currentIds submitted
        ↔ (∀ id ∈ submitted.filterMap inputId, id ∈ currentIds)
          ∧ (submitted.filterMap inputId).Nodup := by
  unfold Rejected
  rw [not_or, not_not]
  simp only [not_exists, not_and, not_not]

theorem length_dedup {l : List Uuid} : l.length = l.dedup.length ↔ l.Nodup := by
  constructor
  . exact nodup_of_length_dedup
  . intro h
    rw [h.dedup]

theorem buildReplaceSet_of_rejected (noun : String) (columns : ι → Fields)
    (h : Rejected inputId currentIds submitted)
    : ∃ message, buildReplaceSet noun inputId columns currentIds submitted = .error message := by
  unfold buildReplaceSet
  dsimp only
  split
  . exact ⟨_, rfl⟩
  . next hfind =>
    cases h with
    | inl h =>
      obtain ⟨id, hid, hnot⟩ := h
      have hknown := List.find?_eq_none.mp hfind id hid
      simp [hnot] at hknown
    | inr h =>
      rw [← length_dedup] at h
      rw [if_pos h]
      exact ⟨_, rfl⟩

theorem buildReplaceSet_of_not_rejected (noun : String) (columns : ι → Fields)
    (h : ¬ Rejected inputId currentIds submitted)
    : buildReplaceSet noun inputId columns currentIds submitted
        = .ok (replaceArgs
            ((submitted.filter fun v => (inputId v).isNone).map fun v => .obj (columns v))
            (submitted.filterMap fun v => (inputId v).map fun id => (id, columns v))
            (currentIds.filter (· ∉ submitted.filterMap inputId))) := by
  rw [not_rejected] at h
  obtain ⟨hknown, hnodup⟩ := h
  have hfind : (submitted.filterMap inputId).find? (· ∉ currentIds) = none := by
    rw [List.find?_eq_none]
    intro id hid
    simpa using hknown id hid
  have hupdate : (submitted.filterMap fun v =>
      ((inputId v).filter (· ∈ currentIds)).map fun id => (id, columns v))
        = submitted.filterMap fun v => (inputId v).map fun id => (id, columns v) := by
    apply List.filterMap_congr
    intro v hv
    cases hid : inputId v with
    | none => rfl
    | some id =>
      have hmem : id ∈ currentIds := hknown id (List.mem_filterMap.mpr ⟨v, hv, hid⟩)
      simp [hmem]
  unfold buildReplaceSet
  dsimp only
  rw [hfind]
  dsimp only
  rw [if_neg (not_not.mpr (length_dedup.mpr hnodup)), hupdate]
  rfl

end Build

section Applied

variable {ι δ : Type}

/-- What an update of a child sets: `deletedAt`, or the columns of a submission. -/
def readChildUpdate (ofArg : Arg → Option δ) (data : Arg) : Option (ChildUpdate δ) :=
  match data.get "deletedAt" with
  | some (.date t) => some (.deletedAt (some t))
  | some .null => some (.deletedAt none)
  | some _ => none
  | none => (ofArg data).map .data

def childReader (ofArg : Arg → Option δ) (parentId : Uuid) (newIds : ℕ → Uuid)
    : ChildReader (ChildWrite δ) where
  create i data := (ofArg data).map fun d => .create ⟨newIds i, parentId, d, none⟩
  update id data := (readChildUpdate ofArg data).map (.update id)

/-- How the inputs of a submission are written as arguments and read back. -/
structure InputColumns (model : Model) (ofArg : Arg → Option δ) (columns : ι → Fields)
    (data : ι → δ) : Prop where
  plain : ∀ v, Plain model (columns v)
  read : ∀ v, ofArg (.obj (columns v)) = some (data v)
  update : ∀ v, readChildUpdate ofArg (.obj (columns v)) = some (.data (data v))

def keptInputs (inputId : ι → Option Uuid) (data : ι → δ) (submitted : List ι)
    : List (Uuid × δ) :=
  submitted.filterMap fun v => (inputId v).map fun id => (id, data v)

def createdChildren (inputId : ι → Option Uuid) (data : ι → δ) (parentId : Uuid)
    (newIds : ℕ → Uuid) (submitted : List ι) : List (Child δ) :=
  (submitted.filter fun v => (inputId v).isNone).zipIdx.map fun (v, i) =>
    ⟨newIds i, parentId, data v, none⟩

/-- A row after a replace-set: a live child has the submitted columns, or it is deleted. -/
def replacedChild (parentId : Uuid) (now : DateTime) (kept : List (Uuid × δ)) (r : Child δ)
    : Child δ :=
  if r.live parentId then
    match Table.get Prod.fst kept r.id with
    | some input => { r with data := input.2 }
    | none => { r with deletedAt := some now }
  else
    r

def childUpdates (now : DateTime) (currentIds : List Uuid) (kept : List (Uuid × δ))
    : List (Uuid × ChildUpdate δ) :=
  kept.map (fun input => (input.1, .data input.2)) ++
    (currentIds.filter (· ∉ kept.map Prod.fst)).map fun id => (id, .deletedAt (some now))

variable {model : Model} {ofArg : Arg → Option δ} {inputId : ι → Option Uuid}
  {columns : ι → Fields} {data : ι → δ} {submitted : List ι} {currentIds : List Uuid}
  {parentId : Uuid} {newIds : ℕ → Uuid} {now : DateTime}

theorem map_fst_keptInputs (inputId : ι → Option Uuid) (data : ι → δ) (submitted : List ι)
    : (keptInputs inputId data submitted).map Prod.fst = submitted.filterMap inputId := by
  unfold keptInputs
  rw [List.map_filterMap]
  congr 1
  funext v
  cases inputId v <;> rfl

theorem filterMap_withId {β : Type} (f : ι → β)
    : submitted.filterMap (fun v => (inputId v).map fun id => (id, f v))
        = (submitted.filterMap fun v => (inputId v).map fun id => (id, v)).map
            fun input => (input.1, f input.2) := by
  rw [List.map_filterMap]
  congr 1
  funext v
  cases inputId v <;> rfl

theorem mapM_some {α β : Type} {f : α → Option β} {g : α → β} {xs : List α}
    (h : ∀ x ∈ xs, f x = some (g x)) : xs.mapM f = some (xs.map g) := by
  induction xs with
  | nil => rfl
  | cons x xs ih =>
    rw [List.mapM_cons, h x List.mem_cons_self, ih fun y hy => h y (List.mem_cons_of_mem _ hy)]
    rfl

theorem childWrites_of_not_rejected (noun : String) (parentId : Uuid) (newIds : ℕ → Uuid)
    (now : DateTime) (hcolumns : InputColumns model ofArg columns data)
    (h : ¬ Rejected inputId currentIds submitted)
    : ∃ nested, buildReplaceSet noun inputId columns currentIds submitted = .ok nested
        ∧ (childReader ofArg parentId newIds).childWrites (rewriteNested now model nested).1
            = some ((createdChildren inputId data parentId newIds submitted).map .create
                ++ (childUpdates now currentIds (keptInputs inputId data submitted)).map
                    fun u => .update u.1 u.2) := by
  refine ⟨_, buildReplaceSet_of_not_rejected noun columns h, ?_⟩
  have hplain : ∀ update ∈ submitted.filterMap fun v => (inputId v).map fun id => (id, columns v),
      Plain model update.2 := by
    intro update hupdate
    obtain ⟨v, _, hv⟩ := List.mem_filterMap.mp hupdate
    obtain ⟨id, _, heq⟩ := Option.map_eq_some_iff.mp hv
    rw [← heq]
    exact hcolumns.plain v
  have hcreated : ((submitted.filter fun v => (inputId v).isNone).map fun v =>
        Arg.obj (columns v)).zipIdx.mapM
      (fun d => (childReader ofArg parentId newIds).create d.2 d.1)
        = some ((createdChildren inputId data parentId newIds submitted).map .create) := by
    unfold createdChildren
    rw [List.zipIdx_map, List.mapM_map, List.map_map]
    apply mapM_some
    intro x _
    simp [childReader, hcolumns.read]
  have hupdated : (submitted.filterMap fun v => (inputId v).map fun id => (id, columns v)).mapM
      (fun u => (childReader ofArg parentId newIds).update u.1 (.obj u.2))
        = some ((keptInputs inputId data submitted).map fun input =>
            .update input.1 (.data input.2)) := by
    unfold keptInputs
    rw [filterMap_withId columns, filterMap_withId data, List.mapM_map, List.map_map]
    apply mapM_some
    intro x _
    simp [childReader, hcolumns.update]
  have hdeleted : (currentIds.filter (· ∉ submitted.filterMap inputId)).mapM
      (fun id => (childReader ofArg parentId newIds).update id (.obj [("deletedAt", .date now)]))
        = some ((currentIds.filter (· ∉ submitted.filterMap inputId)).map fun id =>
            .update id (.deletedAt (some now))) :=
    mapM_some fun id _ => rfl
  rw [ChildReader.childWrites_replaceArgs _ hplain _ hcreated hupdated hdeleted]
  unfold childUpdates
  rw [map_fst_keptInputs, List.map_append, List.map_map, List.map_map, List.append_assoc]
  rfl

/-- The ids of new rows: each is new, and none is given twice. -/
structure FreshIds (newIds : ℕ → Uuid) (ids : List Uuid) : Prop where
  injective : Function.Injective newIds
  fresh : ∀ i, newIds i ∉ ids

theorem map_id_createdChildren
    : (createdChildren inputId data parentId newIds submitted).map Child.id
        = (List.range' 0 (submitted.filter fun v => (inputId v).isNone).length).map newIds := by
  unfold createdChildren
  rw [List.map_map, ← List.zipIdx_map_snd, List.map_map]
  rfl

theorem live_createdChildren {r : Child δ}
    (h : r ∈ createdChildren inputId data parentId newIds submitted) : r.live parentId := by
  unfold createdChildren at h
  obtain ⟨x, _, heq⟩ := List.mem_map.mp h
  rw [← heq]
  simp [Child.live]

section Rows

variable {rows : List (Child δ)} {kept : List (Uuid × δ)}

/-- The ids of the live children of a row. -/
def liveIds (parentId : Uuid) (rows : List (Child δ)) : List Uuid :=
  (rows.filter (Child.live parentId)).map Child.id

theorem nodup_childUpdates (now : DateTime) (hcurrent : currentIds.Nodup) (hkept : (kept.map Prod.fst).Nodup)
    : ((childUpdates now currentIds kept).map Prod.fst).Nodup := by
  unfold childUpdates
  rw [List.map_append, List.map_map, List.map_map]
  apply List.Nodup.append
  . exact hkept
  . have hid : (Prod.fst ∘ fun id : Uuid => ((id, .deletedAt (some now)) : Uuid × ChildUpdate δ)) = id := rfl
    rw [hid, List.map_id]
    exact hcurrent.filter _
  . intro id hid hdeleted
    obtain ⟨id', hid', heq⟩ := List.mem_map.mp hdeleted
    rw [List.mem_filter, decide_eq_true_eq] at hid'
    apply hid'.2
    rw [← heq] at hid
    exact hid

theorem mem_childUpdates {u : Uuid × ChildUpdate δ} (hknown : ∀ id ∈ kept.map Prod.fst, id ∈ currentIds)
    (h : u ∈ childUpdates now currentIds kept) : u.1 ∈ currentIds := by
  unfold childUpdates at h
  cases List.mem_append.mp h with
  | inl h =>
    obtain ⟨input, hinput, heq⟩ := List.mem_map.mp h
    rw [← heq]
    exact hknown _ (List.mem_map_of_mem hinput)
  | inr h =>
    obtain ⟨id, hid, heq⟩ := List.mem_map.mp h
    rw [← heq]
    exact (List.mem_filter.mp hid).1

theorem changed_childUpdates (hids : (rows.map Child.id).Nodup)
    (hkept : (kept.map Prod.fst).Nodup)
    (hknown : ∀ id ∈ kept.map Prod.fst, id ∈ liveIds parentId rows) {r : Child δ} (hr : r ∈ rows)
    : Child.changed (childUpdates now (liveIds parentId rows) kept) r
        = replacedChild parentId now kept r := by
  have hcurrent : (liveIds parentId rows).Nodup := hids.sublist (List.filter_sublist.map _)
  have hnodup := nodup_childUpdates now hcurrent hkept
  unfold replacedChild
  split
  . next hlive =>
    split
    . next input hget =>
      have hid : input.1 = r.id := Table.key_of_get hget
      have hmem : (r.id, ChildUpdate.data input.2) ∈ childUpdates now (liveIds parentId rows) kept := by
        unfold childUpdates
        rw [← hid]
        exact List.mem_append_left _ (List.mem_map_of_mem (Table.mem_of_get hget))
      rw [Child.changed_of_mem hnodup hmem]
      rfl
    . next hget =>
      have hnot : r.id ∉ kept.map Prod.fst := by
        intro hin
        obtain ⟨input, hinput, heq⟩ := List.mem_map.mp hin
        exact Table.get_eq_none.mp hget input hinput heq
      have hmem : (r.id, ChildUpdate.deletedAt (some now))
          ∈ childUpdates now (liveIds parentId rows) kept := by
        unfold childUpdates
        apply List.mem_append_right
        apply List.mem_map_of_mem
        rw [List.mem_filter, decide_eq_true_eq]
        exact ⟨List.mem_map_of_mem (List.mem_filter.mpr ⟨hr, hlive⟩), hnot⟩
      rw [Child.changed_of_mem hnodup hmem]
      rfl
  . next hlive =>
    apply Child.changed_of_notMem
    intro hin
    obtain ⟨u, hu, heq⟩ := List.mem_map.mp hin
    have hid := mem_childUpdates hknown hu
    rw [heq] at hid
    obtain ⟨r', hr', heq'⟩ := List.mem_map.mp hid
    rw [List.mem_filter] at hr'
    have hsame : r' = r := List.inj_on_of_nodup_map hids hr'.1 hr heq'
    rw [hsame] at hr'
    exact hlive hr'.2

theorem map_changed_childUpdates {created : List (Child δ)}
    (hids : ((rows ++ created).map Child.id).Nodup) (hkept : (kept.map Prod.fst).Nodup)
    (hknown : ∀ id ∈ kept.map Prod.fst, id ∈ liveIds parentId rows)
    : (rows ++ created).map (Child.changed (childUpdates now (liveIds parentId rows) kept))
        = rows.map (replacedChild parentId now kept) ++ created := by
  rw [List.map_append, List.nodup_append] at hids
  obtain ⟨hrows, _, hdisjoint⟩ := hids
  have hold : rows.map (Child.changed (childUpdates now (liveIds parentId rows) kept))
      = rows.map (replacedChild parentId now kept) := by
    apply List.map_congr_left
    intro r hr
    exact changed_childUpdates hrows hkept hknown hr
  have hnew : created.map (Child.changed (childUpdates now (liveIds parentId rows) kept))
      = created := by
    rw [List.map_congr_left, List.map_id']
    intro r hr
    apply Child.changed_of_notMem
    intro hin
    obtain ⟨u, hu, heq⟩ := List.mem_map.mp hin
    have hid := mem_childUpdates hknown hu
    rw [heq] at hid
    have hold : r.id ∈ rows.map Child.id := (List.filter_sublist.map _).subset hid
    exact hdisjoint _ hold _ (List.mem_map_of_mem hr) rfl
  rw [List.map_append, hold, hnew]

theorem applyWrites_childUpdates {created : List (Child δ)}
    (hids : ((rows ++ created).map Child.id).Nodup) (hkept : (kept.map Prod.fst).Nodup)
    (hknown : ∀ id ∈ kept.map Prod.fst, id ∈ liveIds parentId rows)
    : applyWrites [Child.key] parentId
          (created.map .create ++ (childUpdates now (liveIds parentId rows) kept).map
            fun u => .update u.1 u.2) rows
        = .ok (rows.map (replacedChild parentId now kept) ++ created) := by
  have hunique : Indexes.Unique [Child.key] (rows ++ created) := unique_key.mpr hids
  have hrows := hids
  rw [List.map_append] at hrows
  have hcurrent : (liveIds parentId rows).Nodup :=
    hrows.of_append_left.sublist (List.filter_sublist.map _)
  rw [applyWrites_append (applyWrites_create hunique),
    applyWrites_update hunique (nodup_childUpdates now hcurrent hkept),
    map_changed_childUpdates hids hkept hknown]
  . intro u hu
    have hid := mem_childUpdates hknown hu
    obtain ⟨r, hr, heq⟩ := List.mem_map.mp hid
    rw [List.mem_filter] at hr
    have hparent : r.parentId = parentId := by
      have hlive := hr.2
      unfold Child.live at hlive
      exact (of_decide_eq_true hlive).1
    exact ⟨r, List.mem_append_left _ hr.1, heq, hparent⟩
  . intro u _ index hindex r
    rw [List.mem_singleton] at hindex
    rw [hindex]
    simp [Child.key]

theorem filterMap_get_self (hkept : (kept.map Prod.fst).Nodup)
    : (kept.map Prod.fst).filterMap (Table.get Prod.fst kept) = kept := by
  rw [List.filterMap_map]
  have hself : ∀ input ∈ kept, (Table.get Prod.fst kept ∘ Prod.fst) input = some input := by
    intro input hinput
    exact Table.get_of_mem hkept hinput
  rw [List.filterMap_congr hself, List.filterMap_some]

theorem nodup_append_created (hids : (rows.map Child.id).Nodup)
    (hfresh : FreshIds newIds (rows.map Child.id))
    : ((rows ++ createdChildren inputId data parentId newIds submitted).map Child.id).Nodup := by
  rw [List.map_append, map_id_createdChildren]
  apply List.Nodup.append hids (List.Nodup.map hfresh.injective List.nodup_range')
  intro id hid hnew
  obtain ⟨i, _, heq⟩ := List.mem_map.mp hnew
  apply hfresh.fresh i
  rw [heq]
  exact hid

theorem live_replaced_perm {created : List (Child δ)} (hids : (rows.map Child.id).Nodup)
    (hkept : (kept.map Prod.fst).Nodup)
    (hknown : ∀ id ∈ kept.map Prod.fst, id ∈ liveIds parentId rows)
    (hcreated : ∀ r ∈ created, r.live parentId)
    : (((rows.map (replacedChild parentId now kept) ++ created).filter (Child.live parentId)).map
          fun r => (r.id, r.data)).Perm (kept ++ created.map fun r => (r.id, r.data)) := by
  have hnew : created.filter (Child.live parentId) = created := List.filter_eq_self.mpr hcreated
  have hold : ((rows.map (replacedChild parentId now kept)).filter (Child.live parentId)).map
        (fun r => (r.id, r.data))
      = (liveIds parentId rows).filterMap (Table.get Prod.fst kept) := by
    unfold liveIds
    rw [← List.filterMap_eq_map, List.filterMap_filter, List.filterMap_map, List.filterMap_map,
      List.filterMap_filter]
    apply List.filterMap_congr
    intro r _
    rw [Function.comp_apply, Function.comp_apply]
    unfold replacedChild
    cases hlive : r.live parentId with
    | false => simp [hlive]
    | true =>
      have hafter : ∀ d, ({ r with data := d } : Child δ).live parentId = true := fun _ => hlive
      have hdeleted : ({ r with deletedAt := some now } : Child δ).live parentId = false := by
        simp [Child.live]
      cases hget : Table.get Prod.fst kept r.id with
      | none => simp [hdeleted, hget]
      | some input =>
        have hid : (r.id, input.2) = input := by rw [← Table.key_of_get hget]
        simp [hafter, hget, hid]
  have hcurrent : (liveIds parentId rows).Nodup := hids.sublist (List.filter_sublist.map _)
  have hperm : ((liveIds parentId rows).filterMap (Table.get Prod.fst kept)).Perm kept := by
    have hnone : ∀ id, id ∉ kept.map Prod.fst → Table.get Prod.fst kept id = none := by
      intro id hid
      rw [Table.get_eq_none]
      intro input hinput heq
      apply hid
      rw [← heq]
      exact List.mem_map_of_mem hinput
    have hcut := filterMap_perm hcurrent hkept hknown hnone
    rw [filterMap_get_self hkept] at hcut
    exact hcut
  rw [List.filter_append, List.map_append, hnew, hold]
  exact hperm.append_right _

end Rows

end Applied

end SentryPos.Catalog
