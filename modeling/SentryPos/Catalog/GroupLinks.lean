import SentryPos.Catalog.SubmittedChildren

/-!
This module contains the proof that `setProductGroups` leaves one live link for each group that was
asked for, over any history of links.
-/

namespace SentryPos.Catalog.ModifierGroups

open Arg (Fields)

def linksOf (productId : Uuid) (links : List ProductModifierGroup) : List ProductModifierGroup :=
  links.filter fun l => l.parentId = productId

/-- A link after the groups of a product are set: it is restored, kept or deleted. -/
def relinked (productId : Uuid) (now : DateTime) (groupIds : List Uuid) (l : ProductModifierGroup)
    : ProductModifierGroup :=
  if l.parentId = productId then
    if l.data ∈ groupIds then { l with deletedAt := none }
    else if l.deletedAt.isNone then { l with deletedAt := some now }
    else l
  else
    l

def newGroups (productId : Uuid) (links : List ProductModifierGroup) (groupIds : List Uuid)
    : List Uuid :=
  (distinct groupIds).filter fun gid => (byGroup (linksOf productId links) gid).isNone

def createdLinks (productId : Uuid) (newIds : ℕ → Uuid) (links : List ProductModifierGroup)
    (groupIds : List Uuid) : List ProductModifierGroup :=
  (newGroups productId links groupIds).zipIdx.map fun (gid, i) => ⟨newIds i, productId, gid, none⟩

def restoredIds (productId : Uuid) (links : List ProductModifierGroup) (groupIds : List Uuid)
    : List Uuid :=
  (distinct groupIds).filterMap fun gid =>
    ((byGroup (linksOf productId links) gid).filter fun l => l.deletedAt.isSome).map (·.id)

def droppedIds (productId : Uuid) (links : List ProductModifierGroup) (groupIds : List Uuid)
    : List Uuid :=
  ((linksOf productId links).filter fun l =>
    l.deletedAt.isNone ∧ l.data ∉ distinct groupIds).map (·.id)

@[simp]
theorem mem_distinct {gid : Uuid} {values : List Uuid} : gid ∈ distinct values ↔ gid ∈ values := by
  unfold distinct
  rw [List.mem_reverse, List.mem_dedup, List.mem_reverse]

theorem nodup_distinct (values : List Uuid) : (distinct values).Nodup := by
  unfold distinct
  exact List.nodup_reverse.mpr (List.nodup_dedup _)

theorem mem_linksOf {productId : Uuid} {links : List ProductModifierGroup}
    {l : ProductModifierGroup} : l ∈ linksOf productId links ↔ l ∈ links ∧ l.parentId = productId := by
  unfold linksOf
  rw [List.mem_filter, decide_eq_true_eq]

section Unique

variable {links : List ProductModifierGroup}

theorem ids_of_unique (h : linkIndexes.Unique links) : (links.map Child.id).Nodup := by
  apply unique_key.mp
  intro index hindex
  apply h
  rw [List.mem_singleton] at hindex
  rw [hindex]
  simp [linkIndexes]

theorem link_unique (h : linkIndexes.Unique links) {l l' : ProductModifierGroup} (hl : l ∈ links)
    (hl' : l' ∈ links) (hproduct : l.parentId = l'.parentId) (hgroup : l.data = l'.data) : l = l' := by
  have hpairs := h (fun l => [l.parentId, l.data]) (by simp [linkIndexes])
  exact List.inj_on_of_nodup_map hpairs hl hl' (by simp [hproduct, hgroup])

theorem byGroup_eq_some (h : linkIndexes.Unique links) {productId gid : Uuid}
    {l : ProductModifierGroup}
    : byGroup (linksOf productId links) gid = some l
        ↔ l ∈ links ∧ l.parentId = productId ∧ l.data = gid := by
  unfold byGroup
  constructor
  . intro hfind
    have hmem := List.mem_of_find?_eq_some hfind
    have hgroup := List.find?_some hfind
    rw [List.mem_reverse, mem_linksOf] at hmem
    rw [decide_eq_true_eq] at hgroup
    exact ⟨hmem.1, hmem.2, hgroup⟩
  . rintro ⟨hmem, hproduct, hgroup⟩
    cases hfind : (linksOf productId links).reverse.find? fun l => l.data = gid with
    | none =>
      have hnone := List.find?_eq_none.mp hfind l
        (List.mem_reverse.mpr (mem_linksOf.mpr ⟨hmem, hproduct⟩))
      simp [hgroup] at hnone
    | some l' =>
      have hmem' := List.mem_of_find?_eq_some hfind
      have hgroup' := List.find?_some hfind
      rw [List.mem_reverse, mem_linksOf] at hmem'
      rw [decide_eq_true_eq] at hgroup'
      rw [link_unique h hmem'.1 hmem (hmem'.2.trans hproduct.symm) (hgroup'.trans hgroup.symm)]

theorem byGroup_eq_none (h : linkIndexes.Unique links) {productId gid : Uuid}
    : byGroup (linksOf productId links) gid = none
        ↔ ∀ l ∈ links, l.parentId = productId → l.data ≠ gid := by
  rw [Option.eq_none_iff_forall_ne_some]
  constructor
  . intro hne l hl hproduct hgroup
    exact hne l ((byGroup_eq_some h).mpr ⟨hl, hproduct, hgroup⟩)
  . intro hnone l hl
    obtain ⟨hmem, hproduct, hgroup⟩ := (byGroup_eq_some h).mp hl
    exact hnone l hmem hproduct hgroup

theorem mem_restoredIds (h : linkIndexes.Unique links) {productId id : Uuid} {groupIds : List Uuid}
    : id ∈ restoredIds productId links groupIds
        ↔ ∃ l ∈ links, l.id = id ∧ l.parentId = productId ∧ l.data ∈ groupIds
            ∧ l.deletedAt.isSome := by
  unfold restoredIds
  rw [List.mem_filterMap]
  constructor
  . rintro ⟨gid, hgid, hid⟩
    rw [Option.map_eq_some_iff] at hid
    obtain ⟨l, hl, hid⟩ := hid
    rw [Option.filter_eq_some_iff] at hl
    obtain ⟨hmem, hproduct, hgroup⟩ := (byGroup_eq_some h).mp hl.1
    refine ⟨l, hmem, hid, hproduct, ?_, hl.2⟩
    rw [hgroup]
    exact mem_distinct.mp hgid
  . rintro ⟨l, hmem, hid, hproduct, hgroup, hdeleted⟩
    refine ⟨l.data, mem_distinct.mpr hgroup, ?_⟩
    rw [(byGroup_eq_some h).mpr ⟨hmem, hproduct, rfl⟩]
    simp [hdeleted, hid]

theorem nodup_restoredIds (h : linkIndexes.Unique links) (productId : Uuid) (groupIds : List Uuid)
    : (restoredIds productId links groupIds).Nodup := by
  unfold restoredIds
  apply List.Nodup.filterMap _ (nodup_distinct groupIds)
  intro gid gid' id hid hid'
  rw [Option.mem_def, Option.map_eq_some_iff] at hid hid'
  obtain ⟨l, hl, hid⟩ := hid
  obtain ⟨l', hl', hid'⟩ := hid'
  rw [Option.filter_eq_some_iff] at hl hl'
  obtain ⟨hmem, _, hgroup⟩ := (byGroup_eq_some h).mp hl.1
  obtain ⟨hmem', _, hgroup'⟩ := (byGroup_eq_some h).mp hl'.1
  have hsame : l = l' :=
    List.inj_on_of_nodup_map (ids_of_unique h) hmem hmem' (hid.trans hid'.symm)
  rw [← hgroup, ← hgroup', hsame]

theorem mem_droppedIds {productId id : Uuid} {groupIds : List Uuid}
    : id ∈ droppedIds productId links groupIds
        ↔ ∃ l ∈ links, l.id = id ∧ l.parentId = productId ∧ l.deletedAt.isNone
            ∧ l.data ∉ groupIds := by
  unfold droppedIds
  simp only [List.mem_map, List.mem_filter, mem_linksOf, mem_distinct, decide_eq_true_eq]
  constructor
  . rintro ⟨l, ⟨⟨hmem, hproduct⟩, hlive, hgroup⟩, hid⟩
    exact ⟨l, hmem, hid, hproduct, hlive, hgroup⟩
  . rintro ⟨l, hmem, hid, hproduct, hlive, hgroup⟩
    exact ⟨l, ⟨⟨hmem, hproduct⟩, hlive, hgroup⟩, hid⟩

theorem id_mem_restoredIds (h : linkIndexes.Unique links) (productId : Uuid) (groupIds : List Uuid)
    {l : ProductModifierGroup} (hl : l ∈ links)
    : l.id ∈ restoredIds productId links groupIds
        ↔ l.parentId = productId ∧ l.data ∈ groupIds ∧ l.deletedAt.isSome := by
  rw [mem_restoredIds h]
  constructor
  . rintro ⟨l', hl', hid, hl''⟩
    rw [List.inj_on_of_nodup_map (ids_of_unique h) hl' hl hid] at hl''
    exact hl''
  . intro hlink
    exact ⟨l, hl, rfl, hlink⟩

theorem id_mem_droppedIds (h : linkIndexes.Unique links) (productId : Uuid) (groupIds : List Uuid)
    {l : ProductModifierGroup} (hl : l ∈ links)
    : l.id ∈ droppedIds productId links groupIds
        ↔ l.parentId = productId ∧ l.deletedAt.isNone ∧ l.data ∉ groupIds := by
  rw [mem_droppedIds]
  constructor
  . rintro ⟨l', hl', hid, hl''⟩
    rw [List.inj_on_of_nodup_map (ids_of_unique h) hl' hl hid] at hl''
    exact hl''
  . intro hlink
    exact ⟨l, hl, rfl, hlink⟩

theorem nodup_droppedIds (h : linkIndexes.Unique links) (productId : Uuid) (groupIds : List Uuid)
    : (droppedIds productId links groupIds).Nodup := by
  unfold droppedIds linksOf
  rw [List.filter_filter]
  exact (ids_of_unique h).sublist (List.filter_sublist.map _)

end Unique

/-- The updates of links that set `deletedAt`. -/
def linkUpdates (productId : Uuid) (now : DateTime) (links : List ProductModifierGroup)
    (groupIds : List Uuid) : List (Uuid × ChildUpdate Uuid) :=
  (restoredIds productId links groupIds).map (fun id => (id, .deletedAt none)) ++
    (droppedIds productId links groupIds).map fun id => (id, .deletedAt (some now))

section Updates

variable {links : List ProductModifierGroup} {productId : Uuid} {now : DateTime}
  {groupIds : List Uuid} {newIds : ℕ → Uuid}

theorem map_fst_linkUpdates
    : (linkUpdates productId now links groupIds).map Prod.fst
        = restoredIds productId links groupIds ++ droppedIds productId links groupIds := by
  unfold linkUpdates
  rw [List.map_append, List.map_map, List.map_map]
  exact congrArg₂ _ (List.map_id _) (List.map_id _)

theorem nodup_linkUpdates (h : linkIndexes.Unique links)
    : ((linkUpdates productId now links groupIds).map Prod.fst).Nodup := by
  rw [map_fst_linkUpdates]
  apply List.Nodup.append (nodup_restoredIds h _ _) (nodup_droppedIds h _ _)
  intro id hrestored hdropped
  obtain ⟨l, hl, hid, _, hgroup, _⟩ := (mem_restoredIds h).mp hrestored
  obtain ⟨l', hl', hid', _, _, hgroup'⟩ := mem_droppedIds.mp hdropped
  have hsame : l = l' := List.inj_on_of_nodup_map (ids_of_unique h) hl hl' (hid.trans hid'.symm)
  rw [hsame] at hgroup
  exact hgroup' hgroup

theorem changed_linkUpdates (h : linkIndexes.Unique links) {l : ProductModifierGroup}
    (hl : l ∈ links)
    : Child.changed (linkUpdates productId now links groupIds) l
        = relinked productId now groupIds l := by
  have hnodup : ((linkUpdates productId now links groupIds).map Prod.fst).Nodup :=
    nodup_linkUpdates h
  have hrestored := id_mem_restoredIds h productId groupIds hl
  have hdropped := id_mem_droppedIds h productId groupIds hl
  by_cases hin : l.id ∈ restoredIds productId links groupIds
  . have hmem : (l.id, ChildUpdate.deletedAt none) ∈ linkUpdates productId now links groupIds := by
      unfold linkUpdates
      exact List.mem_append_left _ (List.mem_map_of_mem hin)
    rw [Child.changed_of_mem hnodup hmem]
    obtain ⟨hproduct, hgroup, _⟩ := hrestored.mp hin
    unfold relinked
    rw [if_pos hproduct, if_pos hgroup]
    rfl
  by_cases hout : l.id ∈ droppedIds productId links groupIds
  . have hmem : (l.id, ChildUpdate.deletedAt (some now))
        ∈ linkUpdates productId now links groupIds := by
      unfold linkUpdates
      exact List.mem_append_right _ (List.mem_map_of_mem hout)
    rw [Child.changed_of_mem hnodup hmem]
    obtain ⟨hproduct, hlive, hgroup⟩ := hdropped.mp hout
    unfold relinked
    rw [if_pos hproduct, if_neg hgroup, if_pos hlive]
    rfl
  . have hnot : l.id ∉ (linkUpdates productId now links groupIds).map Prod.fst := by
      rw [map_fst_linkUpdates, List.mem_append]
      exact not_or.mpr ⟨hin, hout⟩
    rw [Child.changed_of_notMem hnot]
    rw [hrestored] at hin
    rw [hdropped] at hout
    obtain ⟨id, parentId, data, deletedAt⟩ := l
    unfold relinked
    cases deletedAt <;> simp_all

theorem childWrites_links (now : DateTime) (newIds : ℕ → Uuid) {nested : Arg}
    (h : buildLinkReplaceSet (linksOf productId links) groupIds = some nested)
    : (childReader linkOfArg productId newIds).childWrites
          (rewriteNested now .productModifierGroup nested).1
        = some ((createdLinks productId newIds links groupIds).map .create
            ++ (linkUpdates productId now links groupIds).map fun u => .update u.1 u.2) := by
  unfold buildLinkReplaceSet at h
  dsimp only at h
  split at h
  . cases h
  cases h
  have hplain : ∀ update ∈ (restoredIds productId links groupIds).map
      (fun id => ((id, [("deletedAt", .null)]) : Uuid × Fields)),
        Plain .productModifierGroup update.2 := by
    intro update hupdate
    obtain ⟨id, _, heq⟩ := List.mem_map.mp hupdate
    rw [← heq]
    unfold Plain
    simp only [List.forall_mem_cons]
    exact ⟨rfl, by simp⟩
  have hcreated : ((newGroups productId links groupIds).map connectGroup).zipIdx.mapM
      (fun d => (childReader linkOfArg productId newIds).create d.2 d.1)
        = some ((createdLinks productId newIds links groupIds).map .create) := by
    unfold createdLinks
    rw [List.zipIdx_map, List.mapM_map, List.map_map]
    exact mapM_some fun _ _ => rfl
  have hrestored : ((restoredIds productId links groupIds).map
      (fun id => ((id, [("deletedAt", .null)]) : Uuid × Fields))).mapM
        (fun u => (childReader linkOfArg productId newIds).update u.1 (.obj u.2))
        = some ((restoredIds productId links groupIds).map fun id => .update id (.deletedAt none)) := by
    rw [List.mapM_map]
    exact mapM_some fun _ _ => rfl
  have hdropped : (droppedIds productId links groupIds).mapM
      (fun id => (childReader linkOfArg productId newIds).update id (.obj [("deletedAt", .date now)]))
        = some ((droppedIds productId links groupIds).map fun id =>
            .update id (.deletedAt (some now))) :=
    mapM_some fun _ _ => rfl
  unfold linkUpdates
  rw [List.map_append, List.map_map, List.map_map, ← List.append_assoc]
  exact ChildReader.childWrites_replaceArgs _ hplain _ hcreated hrestored hdropped

theorem links_unchanged (now : DateTime) (newIds : ℕ → Uuid)
    (h : buildLinkReplaceSet (linksOf productId links) groupIds = none)
    : createdLinks productId newIds links groupIds = []
        ∧ linkUpdates productId now links groupIds = [] := by
  unfold buildLinkReplaceSet at h
  dsimp only at h
  split at h
  . next hempty =>
    simp only [Bool.and_eq_true, List.isEmpty_iff] at hempty
    obtain ⟨⟨hcreate, hupdate⟩, hdel⟩ := hempty
    unfold createdLinks linkUpdates newGroups restoredIds droppedIds
    rw [hcreate, hupdate, hdel]
    exact ⟨rfl, rfl⟩
  . cases h

theorem map_id_createdLinks
    : (createdLinks productId newIds links groupIds).map Child.id
        = (List.range' 0 (newGroups productId links groupIds).length).map newIds := by
  unfold createdLinks
  rw [List.map_map, ← List.zipIdx_map_snd, List.map_map]
  rfl

theorem map_data_createdLinks (productId : Uuid) (newIds : ℕ → Uuid)
    (links : List ProductModifierGroup) (groupIds : List Uuid)
    : (createdLinks productId newIds links groupIds).map Child.data
        = newGroups productId links groupIds := by
  unfold createdLinks
  have heq : Child.data ∘ (fun x : Uuid × ℕ => (⟨newIds x.2, productId, x.1, none⟩ : Child Uuid))
      = Prod.fst := rfl
  rw [List.map_map, heq, List.zipIdx_map_fst]

theorem mem_createdLinks {l : ProductModifierGroup}
    (hl : l ∈ createdLinks productId newIds links groupIds)
    : l.parentId = productId ∧ l.data ∈ newGroups productId links groupIds ∧ l.deletedAt = none := by
  have hdata : l.data ∈ newGroups productId links groupIds := by
    rw [← map_data_createdLinks productId newIds links groupIds]
    exact List.mem_map_of_mem hl
  unfold createdLinks at hl
  obtain ⟨x, _, heq⟩ := List.mem_map.mp hl
  refine ⟨?_, hdata, ?_⟩
  . rw [← heq]
  . rw [← heq]

theorem mem_newGroups (h : linkIndexes.Unique links) {gid : Uuid}
    : gid ∈ newGroups productId links groupIds
        ↔ gid ∈ groupIds ∧ ∀ l ∈ links, l.parentId = productId → l.data ≠ gid := by
  unfold newGroups
  rw [List.mem_filter, mem_distinct, Option.isNone_iff_eq_none, byGroup_eq_none h]

theorem unique_append_created (h : linkIndexes.Unique links)
    (hfresh : FreshIds newIds (links.map Child.id))
    : linkIndexes.Unique (links ++ createdLinks productId newIds links groupIds) := by
  have hids : ((links ++ createdLinks productId newIds links groupIds).map Child.id).Nodup := by
    rw [List.map_append, map_id_createdLinks]
    apply List.Nodup.append (ids_of_unique h) (List.Nodup.map hfresh.injective List.nodup_range')
    intro id hid hnew
    obtain ⟨i, _, heq⟩ := List.mem_map.mp hnew
    apply hfresh.fresh i
    rw [heq]
    exact hid
  have hpairs : ((links ++ createdLinks productId newIds links groupIds).map
      fun l => [l.parentId, l.data]).Nodup := by
    have hcreated : (createdLinks productId newIds links groupIds).map (fun l => [l.parentId, l.data])
        = (newGroups productId links groupIds).map fun gid => [productId, gid] := by
      rw [← map_data_createdLinks productId newIds links groupIds, List.map_map]
      apply List.map_congr_left
      intro l hl
      rw [(mem_createdLinks hl).1]
      rfl
    rw [List.map_append, hcreated]
    apply List.Nodup.append
    . exact h (fun l => [l.parentId, l.data]) (by simp [linkIndexes])
    . apply List.Nodup.map
      . intro gid gid' heq
        simpa using heq
      . exact (nodup_distinct groupIds).filter _
    . intro pair hold hnew
      obtain ⟨l, hl, heq⟩ := List.mem_map.mp hold
      obtain ⟨gid, hgid, heq'⟩ := List.mem_map.mp hnew
      rw [← heq'] at heq
      simp only [List.cons.injEq, and_true] at heq
      exact ((mem_newGroups h).mp hgid).2 l hl heq.1 heq.2
  intro index hindex
  simp only [linkIndexes, List.mem_cons, List.not_mem_nil, or_false] at hindex
  cases hindex with
  | inl hindex =>
    rw [hindex]
    exact unique_key.mpr hids Child.key (List.mem_singleton_self _)
  | inr hindex =>
    rw [hindex]
    exact hpairs

theorem applyWrites_links (h : linkIndexes.Unique links)
    (hfresh : FreshIds newIds (links.map Child.id))
    : applyWrites linkIndexes productId
          ((createdLinks productId newIds links groupIds).map .create
            ++ (linkUpdates productId now links groupIds).map fun u => .update u.1 u.2) links
        = .ok (links.map (relinked productId now groupIds)
            ++ createdLinks productId newIds links groupIds) := by
  have hunique := @unique_append_created links productId groupIds newIds h hfresh
  have hnodup : ((linkUpdates productId now links groupIds).map Prod.fst).Nodup :=
    nodup_linkUpdates h
  have hchild : ∀ u ∈ linkUpdates productId now links groupIds,
      ∃ l ∈ links, l.id = u.1 ∧ l.parentId = productId := by
    intro u hu
    have hid : u.1 ∈ (linkUpdates productId now links groupIds).map Prod.fst :=
      List.mem_map_of_mem hu
    rw [map_fst_linkUpdates, List.mem_append] at hid
    cases hid with
    | inl hid =>
      obtain ⟨l, hl, heq, hproduct, _⟩ := (mem_restoredIds h).mp hid
      exact ⟨l, hl, heq, hproduct⟩
    | inr hid =>
      obtain ⟨l, hl, heq, hproduct, _⟩ := mem_droppedIds.mp hid
      exact ⟨l, hl, heq, hproduct⟩
  rw [applyWrites_append (applyWrites_create hunique), applyWrites_update hunique hnodup]
  . have hold : links.map (Child.changed (linkUpdates productId now links groupIds))
        = links.map (relinked productId now groupIds) := by
      apply List.map_congr_left
      intro l hl
      exact changed_linkUpdates h hl
    have hnew : (createdLinks productId newIds links groupIds).map
        (Child.changed (linkUpdates productId now links groupIds))
        = createdLinks productId newIds links groupIds := by
      have hids := ids_of_unique hunique
      rw [List.map_append, List.nodup_append] at hids
      rw [List.map_congr_left, List.map_id']
      intro l hl
      apply Child.changed_of_notMem
      intro hin
      obtain ⟨u, hu, heq⟩ := List.mem_map.mp hin
      obtain ⟨l', hl', hid, _⟩ := hchild u hu
      have hold : l.id ∈ links.map Child.id := by
        rw [← heq, ← hid]
        exact List.mem_map_of_mem hl'
      exact hids.2.2 _ hold _ (List.mem_map_of_mem hl) rfl
    rw [List.map_append, hold, hnew]
  . intro u hu
    obtain ⟨l, hl, hlink⟩ := hchild u hu
    exact ⟨l, List.mem_append_left _ hl, hlink⟩
  . -- An update sets `deletedAt`, which is in no index.
    intro u hu index hindex l
    have hdeleted : ∃ t, u.2 = .deletedAt t := by
      unfold linkUpdates at hu
      cases List.mem_append.mp hu with
      | inl hu =>
        obtain ⟨id, _, heq⟩ := List.mem_map.mp hu
        exact ⟨none, by rw [← heq]⟩
      | inr hu =>
        obtain ⟨id, _, heq⟩ := List.mem_map.mp hu
        exact ⟨some now, by rw [← heq]⟩
    obtain ⟨t, ht⟩ := hdeleted
    rw [ht]
    simp only [linkIndexes, List.mem_cons, List.not_mem_nil, or_false] at hindex
    cases hindex with
    | inl hindex =>
      rw [hindex]
      rfl
    | inr hindex =>
      rw [hindex]
      rfl

end Updates

theorem unique_relinked {links : List ProductModifierGroup} {productId : Uuid} {now : DateTime}
    {groupIds : List Uuid} {created : List ProductModifierGroup}
    (h : linkIndexes.Unique (links ++ created))
    : linkIndexes.Unique (links.map (relinked productId now groupIds) ++ created) := by
  intro index hindex
  have hsame : index ∘ relinked productId now groupIds = index := by
    funext l
    rw [Function.comp_apply]
    simp only [linkIndexes, List.mem_cons, List.not_mem_nil, or_false] at hindex
    unfold relinked
    cases hindex with
    | inl hindex =>
      rw [hindex]
      split
      . split
        . rfl
        . split <;> rfl
      . rfl
    | inr hindex =>
      rw [hindex]
      split
      . split
        . rfl
        . split <;> rfl
      . rfl
  rw [List.map_append, List.map_map, hsame, ← List.map_append]
  exact h index hindex

section Set

variable {ownerId productId : Uuid} {groupIds : List Uuid} {newIds : ℕ → Uuid} {now : DateTime}
  {db : Database}

/-- The product that a call is about, when it is in scope. -/
def Database.ownedProduct (db : Database) (ownerId productId : Uuid) : Option Product :=
  db.products.find? fun p =>
    p.id = productId ∧ p.deletedAt.isNone ∧ p.businessId ∈ db.allowedBusinessIds ownerId

/-- A group is a live one of a business. -/
def Database.IsLiveGroup (db : Database) (businessId groupId : Uuid) : Prop :=
  ∃ g ∈ db.modifierGroups, g.id = groupId ∧ g.businessId = businessId ∧ g.deletedAt.isNone

def Database.setLinks (db : Database) (productId : Uuid) (newIds : ℕ → Uuid) (now : DateTime)
    (groupIds : List Uuid) : Database :=
  { db with
    productModifierGroups := db.productModifierGroups.map (relinked productId now groupIds)
      ++ createdLinks productId newIds db.productModifierGroups groupIds }

theorem updateLinks_eq_ok {product : Product} (h : linkIndexes.Unique db.productModifierGroups)
    (hproduct : db.ownedProduct ownerId productId = some product)
    (hfresh : FreshIds newIds (db.productModifierGroups.map Child.id)) {nested : Arg}
    (hnested : buildLinkReplaceSet (linksOf productId db.productModifierGroups) groupIds = some nested)
    : updateLinks ownerId productId newIds now nested db
        = .ok (db.setLinks productId newIds now groupIds) := by
  have hfound := List.find?_some hproduct
  simp only [decide_eq_true_eq] at hfound
  have hscope : (db.products.any fun p =>
      p.id = productId ∧ p.businessId ∈ db.allowedBusinessIds ownerId) = true := by
    rw [List.any_eq_true]
    refine ⟨product, List.mem_of_find?_eq_some hproduct, ?_⟩
    simp only [decide_eq_true_eq]
    exact ⟨hfound.1, hfound.2.2⟩
  have hget := get_rewriteFields now (show Model.product.relationTarget "productModifierGroups"
    = some .productModifierGroup from rfl) [("productModifierGroups", nested)]
  have hchildren : writeChildren linkOfArg linkIndexes "productModifierGroups" productId newIds
      (rewriteFields now .product [("productModifierGroups", nested)]).1 db.productModifierGroups
        = .ok (db.setLinks productId newIds now groupIds).productModifierGroups := by
    have hfield : Fields.get [("productModifierGroups", nested)] "productModifierGroups"
        = some nested := rfl
    unfold writeChildren
    rw [hget, hfield, Option.map_some]
    dsimp only
    rw [childWrites_links now newIds hnested]
    dsimp only
    rw [applyWrites_links h hfresh]
    rfl
  unfold updateLinks
  dsimp only
  rw [if_pos hscope, hchildren]
  rfl

theorem setProductGroups_checked {product : Product}
    (hproduct : db.ownedProduct ownerId productId = some product)
    (hgroups : ∀ gid ∈ groupIds, db.IsLiveGroup product.businessId gid) {db' : Database}
    (h : (match buildLinkReplaceSet (linksOf productId db.productModifierGroups) groupIds with
      | none => pure db
      | some nested => updateLinks ownerId productId newIds now nested db) = Except.ok db')
    : setProductGroups ownerId productId groupIds newIds now db
        = .ok (⟨productId, (db'.liveLinks productId).map (·.data)⟩, db') := by
  have hfound := List.find?_some hproduct
  simp only [decide_eq_true_eq] at hfound
  have hmissing : groupIds.find? (· ∉ (db.modifierGroups.filter fun g =>
      g.id ∈ groupIds ∧ g.businessId = product.businessId
        ∧ g.businessId ∈ db.allowedBusinessIds ownerId ∧ g.deletedAt.isNone).map (·.id)) = none := by
    rw [List.find?_eq_none]
    intro gid hgid
    obtain ⟨g, hg, hid, hbusiness, hlive⟩ := hgroups gid hgid
    rw [decide_eq_true_eq, not_not, List.mem_map]
    refine ⟨g, ?_, hid⟩
    rw [List.mem_filter, decide_eq_true_eq, hid, hbusiness]
    exact ⟨hg, hgid, rfl, hfound.2.2, hlive⟩
  unfold Database.ownedProduct at hproduct
  unfold linksOf at h
  unfold setProductGroups
  dsimp only
  rw [hproduct]
  dsimp only
  rw [hmissing]
  dsimp only
  cases hnested : buildLinkReplaceSet
      (db.productModifierGroups.filter fun l => l.parentId = productId) groupIds with
  | none =>
    rw [hnested] at h
    cases h
    rfl
  | some nested =>
    rw [hnested] at h
    dsimp only at h ⊢
    rw [h]
    rfl

theorem setProductGroups_eq_ok {product : Product} (h : linkIndexes.Unique db.productModifierGroups)
    (hproduct : db.ownedProduct ownerId productId = some product)
    (hgroups : ∀ gid ∈ groupIds, db.IsLiveGroup product.businessId gid)
    (hfresh : FreshIds newIds (db.productModifierGroups.map Child.id))
    : setProductGroups ownerId productId groupIds newIds now db
        = .ok (⟨productId,
            ((db.setLinks productId newIds now groupIds).liveLinks productId).map (·.data)⟩,
            db.setLinks productId newIds now groupIds) := by
  apply setProductGroups_checked hproduct hgroups
  cases hnested : buildLinkReplaceSet (linksOf productId db.productModifierGroups) groupIds with
  | none =>
    obtain ⟨hcreated, hupdates⟩ := links_unchanged now newIds hnested
    have hsame : db.productModifierGroups.map (relinked productId now groupIds)
        = db.productModifierGroups := by
      rw [List.map_congr_left, List.map_id']
      intro l hl
      rw [← changed_linkUpdates h hl, hupdates]
      rfl
    unfold Database.setLinks
    rw [hcreated, hsame, List.append_nil]
    rfl
  | some nested => exact updateLinks_eq_ok h hproduct hfresh hnested

theorem relinked_parentId (l : ProductModifierGroup)
    : (relinked productId now groupIds l).parentId = l.parentId := by
  unfold relinked
  split
  . split
    . rfl
    . split <;> rfl
  . rfl

theorem relinked_data (l : ProductModifierGroup)
    : (relinked productId now groupIds l).data = l.data := by
  unfold relinked
  split
  . split
    . rfl
    . split <;> rfl
  . rfl

theorem relinked_live {l : ProductModifierGroup} (h : l.parentId = productId)
    : (relinked productId now groupIds l).live productId = true ↔ l.data ∈ groupIds := by
  unfold relinked Child.live
  rw [if_pos h]
  split
  . next hgroup => simp [h, hgroup]
  . next hgroup =>
    split
    . simp [hgroup]
    . next hlive => simp [hgroup, hlive]

theorem settled_setLinks (h : linkIndexes.Unique db.productModifierGroups) {l : ProductModifierGroup}
    (hl : l ∈ (db.setLinks productId newIds now groupIds).productModifierGroups)
    (hproduct : l.parentId = productId)
    : l.live productId = true ↔ l.data ∈ groupIds := by
  cases List.mem_append.mp hl with
  | inl hl =>
    obtain ⟨l', _, heq⟩ := List.mem_map.mp hl
    rw [← heq, relinked_parentId] at hproduct
    rw [← heq, relinked_data]
    exact relinked_live hproduct
  | inr hl =>
    obtain ⟨_, hgroup, hlive⟩ := mem_createdLinks hl
    have hin := ((mem_newGroups h).mp hgroup).1
    unfold Child.live
    simp [hproduct, hlive, hin]

theorem exists_link (h : linkIndexes.Unique db.productModifierGroups) {gid : Uuid}
    (hgid : gid ∈ groupIds)
    : ∃ l ∈ (db.setLinks productId newIds now groupIds).productModifierGroups,
        l.parentId = productId ∧ l.data = gid := by
  by_cases hlinked : ∃ l ∈ db.productModifierGroups, l.parentId = productId ∧ l.data = gid
  . obtain ⟨l, hl, hproduct, hgroup⟩ := hlinked
    refine ⟨relinked productId now groupIds l, List.mem_append_left _ (List.mem_map_of_mem hl), ?_⟩
    rw [relinked_parentId, relinked_data]
    exact ⟨hproduct, hgroup⟩
  . have hnew : gid ∈ newGroups productId db.productModifierGroups groupIds := by
      rw [mem_newGroups h]
      refine ⟨hgid, ?_⟩
      intro l hl hproduct hgroup
      exact hlinked ⟨l, hl, hproduct, hgroup⟩
    rw [← map_data_createdLinks productId newIds] at hnew
    obtain ⟨l, hl, hgroup⟩ := List.mem_map.mp hnew
    exact ⟨l, List.mem_append_right _ hl, (mem_createdLinks hl).1, hgroup⟩

theorem mem_liveGroups (h : linkIndexes.Unique db.productModifierGroups) {gid : Uuid}
    : gid ∈ ((db.setLinks productId newIds now groupIds).liveLinks productId).map (·.data)
        ↔ gid ∈ groupIds := by
  unfold Database.liveLinks
  rw [List.mem_map]
  constructor
  . rintro ⟨l, hl, hgroup⟩
    rw [List.mem_filter] at hl
    have hproduct : l.parentId = productId := by
      have hlive := hl.2
      unfold Child.live at hlive
      exact (of_decide_eq_true hlive).1
    rw [← hgroup]
    exact (settled_setLinks h hl.1 hproduct).mp hl.2
  . intro hgid
    obtain ⟨l, hl, hproduct, hgroup⟩ := @exists_link _ _ newIds now _ h _ hgid
    refine ⟨l, List.mem_filter.mpr ⟨hl, ?_⟩, hgroup⟩
    rw [← hgroup] at hgid
    exact (settled_setLinks h hl hproduct).mpr hgid

theorem nodup_liveGroups (h : linkIndexes.Unique db.productModifierGroups)
    : ((db.liveLinks productId).map (·.data)).Nodup := by
  have hpairs := h (fun l => [l.parentId, l.data]) (by simp [linkIndexes])
  have hlive := hpairs.sublist ((List.filter_sublist (p := Child.live productId)).map _)
  have heq : (db.productModifierGroups.filter (Child.live productId)).map
      (fun l => [l.parentId, l.data])
        = ((db.liveLinks productId).map (·.data)).map fun gid => [productId, gid] := by
    unfold Database.liveLinks
    rw [List.map_map]
    apply List.map_congr_left
    intro l hl
    have hlive := (List.mem_filter.mp hl).2
    unfold Child.live at hlive
    rw [(of_decide_eq_true hlive).1]
    rfl
  rw [heq] at hlive
  exact List.Nodup.of_map _ hlive

theorem buildLinkReplaceSet_eq_none {links : List ProductModifierGroup}
    (hnew : newGroups productId links groupIds = [])
    (hrestored : restoredIds productId links groupIds = [])
    (hdropped : droppedIds productId links groupIds = [])
    : buildLinkReplaceSet (linksOf productId links) groupIds = none := by
  unfold newGroups at hnew
  unfold restoredIds at hrestored
  unfold droppedIds at hdropped
  unfold buildLinkReplaceSet
  dsimp only
  rw [hnew, hrestored, hdropped]
  rfl

theorem buildLinkReplaceSet_setLinks (h : linkIndexes.Unique db.productModifierGroups)
    (hfresh : FreshIds newIds (db.productModifierGroups.map Child.id))
    : buildLinkReplaceSet (linksOf productId
        (db.setLinks productId newIds now groupIds).productModifierGroups) groupIds = none := by
  have hunique : linkIndexes.Unique
      (db.setLinks productId newIds now groupIds).productModifierGroups :=
    unique_relinked (unique_append_created h hfresh)
  apply buildLinkReplaceSet_eq_none
  . rw [List.eq_nil_iff_forall_not_mem]
    intro gid hgid
    obtain ⟨hasked, hnone⟩ := (mem_newGroups hunique).mp hgid
    have hlinked : ∃ l ∈ (db.setLinks productId newIds now groupIds).productModifierGroups,
        l.parentId = productId ∧ l.data = gid := exists_link h hasked
    obtain ⟨l, hl, hproduct, hgroup⟩ := hlinked
    exact hnone l hl hproduct hgroup
  . rw [List.eq_nil_iff_forall_not_mem]
    intro id hid
    obtain ⟨l, hl, _, hproduct, hgroup, hdeleted⟩ := (mem_restoredIds hunique).mp hid
    have hlive := (settled_setLinks h hl hproduct).mpr hgroup
    unfold Child.live at hlive
    rw [decide_eq_true_eq] at hlive
    rw [Option.isNone_iff_eq_none] at hlive
    rw [hlive.2] at hdeleted
    cases hdeleted
  . rw [List.eq_nil_iff_forall_not_mem]
    intro id hid
    obtain ⟨l, hl, _, hproduct, hlive, hgroup⟩ := mem_droppedIds.mp hid
    apply hgroup
    apply (settled_setLinks h hl hproduct).mp
    unfold Child.live
    rw [decide_eq_true_eq]
    exact ⟨hproduct, hlive⟩

theorem setProductGroups_again {product : Product} (h : linkIndexes.Unique db.productModifierGroups)
    (hproduct : db.ownedProduct ownerId productId = some product)
    (hgroups : ∀ gid ∈ groupIds, db.IsLiveGroup product.businessId gid)
    (hfresh : FreshIds newIds (db.productModifierGroups.map Child.id)) (newIds' : ℕ → Uuid)
    (now' : DateTime)
    : setProductGroups ownerId productId groupIds newIds' now'
          (db.setLinks productId newIds now groupIds)
        = .ok (⟨productId,
            ((db.setLinks productId newIds now groupIds).liveLinks productId).map (·.data)⟩,
            db.setLinks productId newIds now groupIds) := by
  have hproduct' : (db.setLinks productId newIds now groupIds).ownedProduct ownerId productId
      = some product := hproduct
  have hgroups' : ∀ gid ∈ groupIds,
      (db.setLinks productId newIds now groupIds).IsLiveGroup product.businessId gid := hgroups
  apply setProductGroups_checked hproduct' hgroups'
  rw [buildLinkReplaceSet_setLinks h hfresh]
  rfl

theorem updateLinks_unique {nested : Arg} {db' : Database}
    (hunique : linkIndexes.Unique db.productModifierGroups)
    (h : updateLinks ownerId productId newIds now nested db = .ok db')
    : linkIndexes.Unique db'.productModifierGroups := by
  unfold updateLinks at h
  dsimp only at h
  split at h
  . rw [Checks.bind_eq_ok] at h
    obtain ⟨links, hlinks, hresult⟩ := h
    cases hresult
    unfold writeChildren at hlinks
    split at hlinks
    . cases hlinks
      exact hunique
    . split at hlinks
      . cases hlinks
      . rw [Checks.mapError_eq_ok] at hlinks
        exact applyWrites_unique hunique hlinks
  . cases h

theorem setProductGroups_unique {db' : Database} {r : ProductGroupLinks}
    (hunique : linkIndexes.Unique db.productModifierGroups)
    (h : setProductGroups ownerId productId groupIds newIds now db = .ok (r, db'))
    : linkIndexes.Unique db'.productModifierGroups := by
  unfold setProductGroups at h
  dsimp only at h
  split at h
  . cases h
  . split at h
    . cases h
    . split at h
      . cases h
        exact hunique
      . rw [Checks.bind_eq_ok] at h
        obtain ⟨db₁, hwritten, hresult⟩ := h
        cases hresult
        exact updateLinks_unique hunique hwritten

end Set

/--
A database after any history of calls. Links are written by `setProductGroups`, and by the seeding
of demo data through inserts that the indexes have let through.
-/
inductive Reachable : Database → Prop where
  | start {db : Database} (h : db.productModifierGroups = []) : Reachable db
  | call {db : Database} (ownerId productId : Uuid) (groupIds : List Uuid) (newIds : ℕ → Uuid)
      (now : DateTime) (h : Reachable db)
      : Reachable (step (setProductGroups ownerId productId groupIds newIds now) db).2
  | seeded {db : Database} {links : List ProductModifierGroup} (h : Reachable db)
      (hunique : linkIndexes.Unique (db.productModifierGroups ++ links))
      : Reachable { db with productModifierGroups := db.productModifierGroups ++ links }
  | elsewhere {db db' : Database} (h : Reachable db)
      (hlinks : db'.productModifierGroups = db.productModifierGroups) : Reachable db'

theorem Reachable.unique {db : Database} (h : Reachable db)
    : linkIndexes.Unique db.productModifierGroups := by
  induction h with
  | start h =>
    intro index _
    rw [h]
    exact List.nodup_nil
  | call ownerId productId groupIds newIds now _ ih =>
    unfold step
    split
    . next hcall => exact setProductGroups_unique ih hcall
    . exact ih
  | seeded _ hunique _ => exact hunique
  | elsewhere _ hlinks ih =>
    rw [hlinks]
    exact ih

/-- The links of a product after a call. -/
structure GroupsSet (productId : Uuid) (groupIds : List Uuid) (db db' : Database) : Prop where
  live : ∀ gid, gid ∈ (db'.liveLinks productId).map (·.data) ↔ gid ∈ groupIds
  once : ((db'.liveLinks productId).map (·.data)).Nodup
  unique : linkIndexes.Unique db'.productModifierGroups
  restored : ∀ l ∈ db.productModifierGroups, l.parentId = productId → l.data ∈ groupIds →
    { l with deletedAt := none } ∈ db'.productModifierGroups
  unlinked : ∀ l ∈ db.productModifierGroups, l.parentId = productId → l.data ∉ groupIds →
    ∃ t, { l with deletedAt := some t } ∈ db'.productModifierGroups
  others : db'.productModifierGroups.filter (fun l => l.parentId ≠ productId)
    = db.productModifierGroups.filter fun l => l.parentId ≠ productId
  frame : db' = { db with productModifierGroups := db'.productModifierGroups }

section Groups

variable {productId : Uuid} {groupIds : List Uuid} {newIds : ℕ → Uuid} {now : DateTime}
  {db : Database}

theorem others_setLinks
    : (db.setLinks productId newIds now groupIds).productModifierGroups.filter
          (fun l => l.parentId ≠ productId)
        = db.productModifierGroups.filter fun l => l.parentId ≠ productId := by
  have hcreated : (createdLinks productId newIds db.productModifierGroups groupIds).filter
      (fun l => l.parentId ≠ productId) = [] := by
    rw [List.filter_eq_nil_iff]
    intro l hl
    rw [(mem_createdLinks hl).1]
    simp
  have hparent : (fun l : ProductModifierGroup => decide (l.parentId ≠ productId))
      ∘ relinked productId now groupIds = fun l => decide (l.parentId ≠ productId) := by
    funext l
    rw [Function.comp_apply, relinked_parentId]
  unfold Database.setLinks
  rw [List.filter_append, hcreated, List.append_nil, List.filter_map, hparent]
  conv_rhs => rw [← List.map_id (db.productModifierGroups.filter _)]
  apply List.map_congr_left
  intro l hl
  have hother := of_decide_eq_true (List.mem_filter.mp hl).2
  unfold relinked
  rw [if_neg hother]
  rfl

theorem groupsSet_setLinks (h : linkIndexes.Unique db.productModifierGroups)
    (hfresh : FreshIds newIds (db.productModifierGroups.map Child.id))
    : GroupsSet productId groupIds db (db.setLinks productId newIds now groupIds) := by
  have hunique : linkIndexes.Unique
      (db.setLinks productId newIds now groupIds).productModifierGroups :=
    unique_relinked (unique_append_created h hfresh)
  have hrelinked : ∀ l ∈ db.productModifierGroups, relinked productId now groupIds l
      ∈ (db.setLinks productId newIds now groupIds).productModifierGroups := by
    intro l hl
    exact List.mem_append_left _ (List.mem_map_of_mem hl)
  constructor
  . intro gid
    exact mem_liveGroups h
  . exact nodup_liveGroups hunique
  . exact hunique
  . intro l hl hproduct hgroup
    have hmem := hrelinked l hl
    unfold relinked at hmem
    rw [if_pos hproduct, if_pos hgroup] at hmem
    exact hmem
  . intro l hl hproduct hgroup
    have hmem := hrelinked l hl
    unfold relinked at hmem
    rw [if_pos hproduct, if_neg hgroup] at hmem
    split at hmem
    . exact ⟨now, hmem⟩
    . next hdeleted =>
      rw [Option.isNone_iff_eq_none, ← ne_eq, Option.ne_none_iff_exists'] at hdeleted
      obtain ⟨t, ht⟩ := hdeleted
      refine ⟨t, ?_⟩
      rw [← ht]
      exact hmem
  . exact others_setLinks
  . rfl

end Groups

/--
Over any history, a call on live groups returns and leaves one live link for each of them. A link
that was deleted is restored, and the same call changes nothing after that.
-/
theorem setProductGroups_links {db : Database} (h : Reachable db) {ownerId productId : Uuid}
    {product : Product} (hproduct : db.ownedProduct ownerId productId = some product)
    {groupIds : List Uuid} (hgroups : ∀ gid ∈ groupIds, db.IsLiveGroup product.businessId gid)
    {newIds : ℕ → Uuid} (hfresh : FreshIds newIds (db.productModifierGroups.map Child.id))
    (now : DateTime)
    : linkIndexes.Unique db.productModifierGroups
        ∧ ∃ db', step (setProductGroups ownerId productId groupIds newIds now) db
            = (.ok ⟨productId, (db'.liveLinks productId).map (·.data)⟩, db')
          ∧ GroupsSet productId groupIds db db'
          ∧ ∀ newIds' now', step (setProductGroups ownerId productId groupIds newIds' now') db'
            = (.ok ⟨productId, (db'.liveLinks productId).map (·.data)⟩, db') := by
  have hunique := h.unique
  refine ⟨hunique, db.setLinks productId newIds now groupIds, ?_, ?_, ?_⟩
  . unfold step
    rw [setProductGroups_eq_ok hunique hproduct hgroups hfresh]
  . exact groupsSet_setLinks hunique hfresh
  . intro newIds' now'
    unfold step
    rw [setProductGroups_again hunique hproduct hgroups hfresh]

/-- A product is linked to a group and unlinked again. -/
def unlinkedMenu : Database :=
  let linked := (step (setProductGroups 1 1 [5] (· + 1) 10) Shop.menu).2
  (step (setProductGroups 1 1 [] (· + 2) 20) linked).2

theorem unlinkedMenu_reachable : Reachable unlinkedMenu := by
  apply Reachable.call
  apply Reachable.call
  exact Reachable.start rfl

theorem setProductGroups_links_menu
    : unlinkedMenu.productModifierGroups = [⟨1, 1, 5, some 20⟩]
        ∧ ∃ db', step (setProductGroups 1 1 [5, 5] (· + 2) 30) unlinkedMenu
            = (.ok ⟨1, (db'.liveLinks 1).map (·.data)⟩, db')
          ∧ (⟨1, 1, 5, none⟩ : ProductModifierGroup) ∈ db'.productModifierGroups
          ∧ GroupsSet 1 [5, 5] unlinkedMenu db' := by
  have hlinks : unlinkedMenu.productModifierGroups = [⟨1, 1, 5, some 20⟩] := by
    decide +kernel
  have hproduct : ∃ product, unlinkedMenu.ownedProduct 1 1 = some product ∧ product.businessId = 1 := by
    have hbusiness : (unlinkedMenu.ownedProduct 1 1).map (·.businessId) = some 1 := by
      decide +kernel
    rw [Option.map_eq_some_iff] at hbusiness
    exact hbusiness
  obtain ⟨product, hproduct, hbusiness⟩ := hproduct
  have hgroups : ∀ gid ∈ [5, 5], unlinkedMenu.IsLiveGroup product.businessId gid := by
    have hlive : ∃ g ∈ unlinkedMenu.modifierGroups, g.id = 5 ∧ g.businessId = 1
        ∧ g.deletedAt.isNone := by
      decide +kernel
    intro gid hgid
    rw [hbusiness]
    simp only [List.mem_cons, List.not_mem_nil, or_false, or_self] at hgid
    rw [hgid]
    exact hlive
  have hfresh : FreshIds (· + 2) (unlinkedMenu.productModifierGroups.map Child.id) := by
    rw [hlinks]
    constructor
    . intro i j h
      exact Nat.add_right_cancel h
    . intro i
      simp
  obtain ⟨_, db', hstep, hset, _⟩ :=
    setProductGroups_links unlinkedMenu_reachable hproduct hgroups hfresh 30
  refine ⟨hlinks, db', hstep, ?_, hset⟩
  apply hset.restored ⟨1, 1, 5, some 20⟩
  . rw [hlinks]
    exact List.mem_singleton_self _
  . rfl
  . decide

end SentryPos.Catalog.ModifierGroups
