import Mathlib.Data.List.Dedup
import SentryPos.Catalog.Products

/-!
This module contains what the writes of a call leave in the tables: the identifiers of rows stay
unique, and after a replace-set the live variants of a product are the submitted ones.
-/

namespace SentryPos.Catalog

structure Database.UniqueIds (db : Database) : Prop where
  products : (db.products.map Product.id).Nodup
  variants : (db.variants.map ProductVariant.id).Nodup

namespace Write

theorem nodup_id_of_violated {α : Type} {rows : List α} {entry : α → Target → Option Entry}
    {id : α → Uuid} (hentry : ∀ r, entry r .id = some (.id (id r)))
    (h : violated rows entry = none) : (rows.map id).Nodup := by
  unfold violated at h
  have hid := List.find?_eq_none.mp h .id (by simp)
  simp only [hentry, Bool.not_eq_true', decide_eq_false_iff_not, not_not] at hid
  have hmap : rows.filterMap (fun r => some (Entry.id (id r))) = (rows.map id).map Entry.id := by
    rw [List.map_map, ← List.filterMap_eq_map]
    rfl
  rw [hmap] at hid
  exact List.Nodup.of_map Entry.id hid

theorem uniqueIds_of_violation {w : Write} {db : Database} (hdb : db.UniqueIds)
    (h : w.violation db = none) : (w.apply db).UniqueIds := by
  unfold violation at h
  cases w with
  | insertProduct row =>
    exact ⟨nodup_id_of_violated (fun _ => rfl) h, hdb.variants⟩
  | updateProduct id data =>
    exact ⟨nodup_id_of_violated (fun _ => rfl) h, hdb.variants⟩
  | deleteProduct id now =>
    exact ⟨nodup_id_of_violated (fun _ => rfl) h, hdb.variants⟩
  | insertVariant row =>
    exact ⟨hdb.products, nodup_id_of_violated (fun _ => rfl) h⟩
  | updateVariant id data =>
    exact ⟨hdb.products, nodup_id_of_violated (fun _ => rfl) h⟩

end Write

theorem Database.write_eq_ok {writes : List Write} {db db' : Database}
    (h : db.write writes = .ok db') (hdb : db.UniqueIds)
    : db' = writes.foldl (fun db w => w.apply db) db ∧ db'.UniqueIds := by
  unfold Database.write at h
  induction writes generalizing db with
  | nil =>
    cases h
    exact ⟨rfl, hdb⟩
  | cons w ws ih =>
    rw [List.foldlM_cons, Checks.bind_eq_ok] at h
    obtain ⟨db₁, hw, hws⟩ := h
    split at hw
    . cases hw
    next hviolation =>
    cases hw
    exact ih hws (Write.uniqueIds_of_violation hdb hviolation)

theorem foldl_insertVariant (rows : List ProductVariant) (db : Database)
    : (rows.map Write.insertVariant).foldl (fun db w => w.apply db) db =
        { db with variants := db.variants ++ rows } := by
  induction rows generalizing db with
  | nil => simp
  | cons row rows ih =>
    rw [List.map_cons, List.foldl_cons, ih]
    unfold Write.apply
    simp

/-- The update of a row with an identifier. -/
def Write.update (change : Uuid × VariantUpdate) : Write :=
  .updateVariant change.1 change.2

theorem foldl_updateVariant (changes : List (Uuid × VariantUpdate)) (db : Database)
    : (changes.map Write.update).foldl (fun db w => w.apply db) db =
        { db with
          variants := changes.foldl
            (fun t c => Table.modify ProductVariant.id t c.1 c.2.apply) db.variants } := by
  induction changes generalizing db with
  | nil => simp
  | cons c cs ih =>
    rw [List.map_cons, List.foldl_cons, ih, List.foldl_cons]
    rfl

def toUpdate (submitted : List VariantInputDto) : List (Uuid × VariantData) :=
  submitted.filterMap fun v => v.id.map fun id => (id, v.data)

def submittedIds (submitted : List VariantInputDto) : List Uuid :=
  submitted.filterMap (·.id)

/-- What a replace-set changes in the variants a product has. -/
def changes (now : DateTime) (current : List ProductVariant) (submitted : List VariantInputDto)
    : List (Uuid × VariantUpdate) :=
  (toUpdate submitted).map (fun c => (c.1, .data c.2)) ++
    (current.filter fun v => v.id ∉ submittedIds submitted).map fun v => (v.id, .delete now)

theorem map_fst_toUpdate (submitted : List VariantInputDto)
    : (toUpdate submitted).map Prod.fst = submittedIds submitted := by
  unfold toUpdate submittedIds
  rw [List.map_filterMap]
  congr 1
  funext v
  cases v.id <;> rfl

theorem nodup_of_length_dedup {l : List Uuid} (h : l.length = l.dedup.length) : l.Nodup := by
  have heq := (List.dedup_sublist l).eq_of_length h.symm
  rw [← heq]
  exact List.nodup_dedup l

theorem buildVariantReplaceSet_eq_ok {productId : Uuid} {variantIds : Nat → Uuid} {now : DateTime}
    {current : List ProductVariant} {submitted : List VariantInputDto} {writes : List Write}
    (h : buildVariantReplaceSet productId variantIds now current submitted = .ok writes)
    : (submittedIds submitted).Nodup ∧
        (∀ id ∈ submittedIds submitted, id ∈ current.map ProductVariant.id) ∧
        writes =
          (createdVariants productId variantIds (submitted.filter fun v => v.id.isNone)).map
              Write.insertVariant ++
            (changes now current submitted).map Write.update := by
  unfold buildVariantReplaceSet at h
  dsimp only at h
  rw [Checks.bind_eq_ok] at h
  obtain ⟨_, hunknown, h⟩ := h
  split at h
  . cases h
  next hlength =>
  cases h
  refine ⟨?_, ?_, ?_⟩
  . exact nodup_of_length_dedup (not_not.mp hlength)
  . intro id hid
    have hnot := List.find?_eq_none.mp (reject_eq_ok.mp hunknown) id hid
    simpa using hnot
  . unfold changes
    rw [List.map_append, List.map_map, List.map_map, List.append_assoc]
    rfl

theorem nodup_changes {now : DateTime} {current : List ProductVariant}
    {submitted : List VariantInputDto} (hcurrent : (current.map ProductVariant.id).Nodup)
    (hsubmitted : (submittedIds submitted).Nodup)
    : ((changes now current submitted).map Prod.fst).Nodup := by
  unfold changes
  rw [List.map_append, List.map_map, List.map_map]
  apply List.Nodup.append
  . have hfst := map_fst_toUpdate submitted
    rw [← hfst] at hsubmitted
    exact hsubmitted
  . exact hcurrent.sublist (List.filter_sublist.map _)
  . intro id hid hdeleted
    have hmem : id ∈ submittedIds submitted := by
      rw [← map_fst_toUpdate]
      exact hid
    rw [List.mem_map] at hdeleted
    obtain ⟨v, hv, heq⟩ := hdeleted
    rw [List.mem_filter] at hv
    have hnot := of_decide_eq_true hv.2
    apply hnot
    rw [← heq] at hmem
    exact hmem

theorem filterMap_perm {β : Type} {f : Uuid → Option β} {l l' : List Uuid} (hl : l.Nodup)
    (hl' : l'.Nodup) (hsub : ∀ x ∈ l', x ∈ l) (hnone : ∀ x, x ∉ l' → f x = none)
    : (l.filterMap f).Perm (l'.filterMap f) := by
  have hcut : l.filterMap f = (l.filter (· ∈ l')).filterMap f := by
    rw [List.filterMap_filter]
    apply List.filterMap_congr
    intro x hx
    split
    . rfl
    . next hnot =>
      apply hnone
      simpa using hnot
  rw [hcut]
  apply List.Perm.filterMap
  rw [List.perm_ext_iff_of_nodup (hl.filter _) hl']
  intro x
  rw [List.mem_filter]
  constructor
  . intro h
    exact of_decide_eq_true h.2
  . intro h
    exact ⟨hsub x h, decide_eq_true h⟩

def liveOf (productId : Uuid) (v : ProductVariant) : Bool :=
  decide (v.productId = productId ∧ v.deletedAt.isNone)

theorem productId_of_liveOf {productId : Uuid} {v : ProductVariant} (h : liveOf productId v)
    : v.productId = productId := by
  unfold liveOf at h
  simp only [decide_eq_true_eq] at h
  exact h.1

theorem liveOf_ne {productId productId' : Uuid} {v : ProductVariant} (h : liveOf productId v)
    (hne : productId' ≠ productId) : liveOf productId' v = false := by
  have hparent := productId_of_liveOf h
  unfold liveOf
  simp [hparent, hne.symm]

def changed (changes : List (Uuid × VariantUpdate)) (v : ProductVariant) : ProductVariant :=
  ((Table.get Prod.fst changes v.id).map fun c => c.2.apply v).getD v

@[simp]
theorem changed_id (changes : List (Uuid × VariantUpdate)) (v : ProductVariant)
    : (changed changes v).id = v.id := by
  unfold changed
  cases Table.get Prod.fst changes v.id with
  | none => rfl
  | some c => simp

@[simp]
theorem changed_productId (changes : List (Uuid × VariantUpdate)) (v : ProductVariant)
    : (changed changes v).productId = v.productId := by
  unfold changed
  cases Table.get Prod.fst changes v.id with
  | none => rfl
  | some c => simp

theorem changed_of_notMem {changes : List (Uuid × VariantUpdate)} {v : ProductVariant}
    (h : v.id ∉ changes.map Prod.fst) : changed changes v = v := by
  have hnone : Table.get Prod.fst changes v.id = none := by
    rw [Table.get_eq_none]
    intro c hc heq
    apply h
    rw [← heq]
    exact List.mem_map_of_mem hc
  unfold changed
  rw [hnone]
  rfl

def submittedData (submitted : List VariantInputDto) (id : Uuid) : Option VariantData :=
  (Table.get Prod.fst (toUpdate submitted) id).map Prod.snd

theorem submittedData_eq_none {submitted : List VariantInputDto} {id : Uuid}
    (h : id ∉ submittedIds submitted) : submittedData submitted id = none := by
  have hnone : Table.get Prod.fst (toUpdate submitted) id = none := by
    rw [Table.get_eq_none]
    intro c hc heq
    apply h
    rw [← map_fst_toUpdate, ← heq]
    exact List.mem_map_of_mem hc
  unfold submittedData
  rw [hnone]
  rfl

theorem filterMap_submittedData {submitted : List VariantInputDto}
    (h : (submittedIds submitted).Nodup)
    : (submittedIds submitted).filterMap (submittedData submitted) =
        (toUpdate submitted).map Prod.snd := by
  rw [← map_fst_toUpdate] at h ⊢
  rw [List.filterMap_map, ← List.filterMap_eq_map]
  apply List.filterMap_congr
  intro c hc
  unfold submittedData
  rw [Function.comp_apply, Table.get_of_mem h hc]
  rfl

theorem changed_live {now : DateTime} {current : List ProductVariant}
    {submitted : List VariantInputDto} {productId : Uuid} {v : ProductVariant}
    (hcurrent : (current.map ProductVariant.id).Nodup)
    (hsubmitted : (submittedIds submitted).Nodup) (hv : v ∈ current)
    (hlive : liveOf productId v)
    : (if liveOf productId (changed (changes now current submitted) v)
        then some (changed (changes now current submitted) v).data else none) =
        submittedData submitted v.id := by
  unfold submittedData
  have hkeys := @nodup_changes now _ _ hcurrent hsubmitted
  cases hget : Table.get Prod.fst (toUpdate submitted) v.id with
  | some c =>
    have hkey : c.1 = v.id := Table.key_of_get hget
    have hmem : (c.1, VariantUpdate.data c.2) ∈ changes now current submitted := by
      unfold changes
      rw [List.mem_append, List.mem_map]
      exact .inl ⟨c, Table.mem_of_get hget, rfl⟩
    have hfound := Table.get_of_mem hkeys hmem
    rw [hkey] at hfound
    have hafter : liveOf productId ((VariantUpdate.data c.2).apply v) := hlive
    unfold changed
    rw [hfound]
    dsimp only [Option.map_some, Option.getD_some]
    rw [if_pos hafter]
    rfl
  | none =>
    have hnot : v.id ∉ submittedIds submitted := by
      rw [← map_fst_toUpdate, List.mem_map]
      intro h
      obtain ⟨c, hc, heq⟩ := h
      exact Table.get_eq_none.mp hget c hc heq
    have hmem : (v.id, VariantUpdate.delete now) ∈ changes now current submitted := by
      unfold changes
      rw [List.mem_append, List.mem_map]
      refine .inr (List.mem_map.mpr ⟨v, ?_, rfl⟩)
      rw [List.mem_filter]
      exact ⟨hv, decide_eq_true hnot⟩
    have hfound := Table.get_of_mem hkeys hmem
    unfold changed
    rw [hfound]
    simp [liveOf, VariantUpdate.apply]

theorem toUpdate_perm (submitted : List VariantInputDto)
    : ((toUpdate submitted).map Prod.snd ++
        (submitted.filter fun v => v.id.isNone).map VariantInputDto.data).Perm
          (submitted.map VariantInputDto.data) := by
  induction submitted with
  | nil => exact List.Perm.nil
  | cons v vs ih =>
    unfold toUpdate at ih ⊢
    cases hid : v.id with
    | none =>
      simp only [List.filterMap_cons, hid, Option.map_none, List.filter_cons, Option.isNone_none,
        if_true, List.map_cons]
      exact List.perm_middle.trans (ih.cons _)
    | some id =>
      simp only [List.filterMap_cons, hid, Option.map_some, List.filter_cons, Option.isNone_some,
        List.map_cons, List.cons_append]
      exact ih.cons _

section Replaced

variable {variants created : List ProductVariant} {now : DateTime}
  {submitted : List VariantInputDto} {productId : Uuid}

theorem changed_eq_self
    (hids : ((variants ++ created).map ProductVariant.id).Nodup)
    (hknown : ∀ id ∈ submittedIds submitted,
      id ∈ (variants.filter (liveOf productId)).map ProductVariant.id)
    {v : ProductVariant} (hv : v ∈ variants ++ created)
    (hnot : v ∉ variants.filter (liveOf productId))
    : changed (changes now (variants.filter (liveOf productId)) submitted) v = v := by
  apply changed_of_notMem
  intro hin
  have hid : v.id ∈ (variants.filter (liveOf productId)).map ProductVariant.id := by
    unfold changes at hin
    rw [List.map_append, List.map_map, List.map_map, List.mem_append] at hin
    cases hin with
    | inl hin =>
      apply hknown
      rw [← map_fst_toUpdate]
      exact hin
    | inr hin => exact (List.filter_sublist.map _).subset hin
  rw [List.mem_map] at hid
  obtain ⟨w, hw, heq⟩ := hid
  have hmem : w ∈ variants ++ created :=
    List.mem_append_left created (List.mem_of_mem_filter hw)
  have hwv : w = v := List.inj_on_of_nodup_map hids hmem hv heq
  rw [hwv] at hw
  exact hnot hw

theorem replaced_perm
    (hids : ((variants ++ created).map ProductVariant.id).Nodup)
    (hsubmitted : (submittedIds submitted).Nodup)
    (hknown : ∀ id ∈ submittedIds submitted,
      id ∈ (variants.filter (liveOf productId)).map ProductVariant.id)
    (hcreated : ∀ v ∈ created, liveOf productId v)
    (hdata : created.map ProductVariant.data =
      (submitted.filter fun v => v.id.isNone).map VariantInputDto.data)
    : ((((variants ++ created).map
            (changed (changes now (variants.filter (liveOf productId)) submitted))).filter
          (liveOf productId)).map ProductVariant.data).Perm
        (submitted.map VariantInputDto.data) := by
  have hself := fun {v} => @changed_eq_self _ _ now _ _ hids hknown v
  rw [List.map_append, List.nodup_append] at hids
  obtain ⟨hvariants, -, hfresh⟩ := hids
  have hcurrent : ((variants.filter (liveOf productId)).map ProductVariant.id).Nodup :=
    hvariants.sublist (List.filter_sublist.map _)
  generalize hchanges : changes now (variants.filter (liveOf productId)) submitted = cs at hself ⊢
  -- the created rows
  have hsame : created.map (changed cs) = created := by
    rw [List.map_congr_left, List.map_id']
    intro v hv
    apply hself (List.mem_append_right variants hv)
    intro hin
    have hmem : v.id ∈ variants.map ProductVariant.id :=
      List.mem_map_of_mem (List.mem_of_mem_filter hin)
    exact hfresh _ hmem _ (List.mem_map_of_mem hv) rfl
  have hnew : created.filter (liveOf productId) = created := by
    rw [List.filter_eq_self]
    exact hcreated
  -- the rows there were
  have hold : ((variants.map (changed cs)).filter (liveOf productId)).map ProductVariant.data =
      ((variants.filter (liveOf productId)).map ProductVariant.id).filterMap
        (submittedData submitted) := by
    rw [← List.filterMap_eq_map, List.filterMap_filter, List.filterMap_map, List.filterMap_map,
      List.filterMap_filter]
    apply List.filterMap_congr
    intro v hv
    cases hlive : liveOf productId v with
    | true =>
      have hmem : v ∈ variants.filter (liveOf productId) := List.mem_filter.mpr ⟨hv, hlive⟩
      have hafter := @changed_live now _ _ _ _ hcurrent hsubmitted hmem hlive
      simpa [hchanges] using hafter
    | false =>
      have hnot : v ∉ variants.filter (liveOf productId) := by
        rw [List.mem_filter, hlive]
        intro h
        cases h.2
      simp [hself (List.mem_append_left created hv) hnot, hlive]
  have hcut : (((variants.filter (liveOf productId)).map ProductVariant.id).filterMap
      (submittedData submitted)).Perm ((toUpdate submitted).map Prod.snd) := by
    rw [← filterMap_submittedData hsubmitted]
    apply filterMap_perm hcurrent hsubmitted hknown
    intro id hid
    exact submittedData_eq_none hid
  rw [List.map_append, List.filter_append, List.map_append, hsame, hold, hnew, hdata]
  exact (hcut.append_right _).trans (toUpdate_perm submitted)

theorem replaced_others {productId' : Uuid} (hne : productId' ≠ productId)
    (hids : ((variants ++ created).map ProductVariant.id).Nodup)
    (hknown : ∀ id ∈ submittedIds submitted,
      id ∈ (variants.filter (liveOf productId)).map ProductVariant.id)
    (hcreated : ∀ v ∈ created, liveOf productId v)
    : ((variants ++ created).map
          (changed (changes now (variants.filter (liveOf productId)) submitted))).filter
        (liveOf productId') =
      variants.filter (liveOf productId') := by
  have hself := fun {v} => @changed_eq_self _ _ now _ _ hids hknown v
  generalize changes now (variants.filter (liveOf productId)) submitted = cs at hself ⊢
  have hsame : ∀ v ∈ variants ++ created,
      (liveOf productId' ∘ changed cs) v = liveOf productId' v := by
    intro v hv
    rw [Function.comp_apply]
    by_cases hmem : v ∈ variants.filter (liveOf productId)
    . have hlive := (List.mem_filter.mp hmem).2
      have hparent := productId_of_liveOf hlive
      simp [liveOf, hparent, hne.symm]
    . rw [hself hv hmem]
  have hnone : created.filter (liveOf productId') = [] := by
    rw [List.filter_eq_nil_iff]
    intro v hv
    simp [liveOf_ne (hcreated v hv) hne]
  rw [List.filter_map, List.filter_congr hsame, List.filter_append, hnone, List.append_nil,
    List.map_congr_left, List.map_id']
  intro v hv
  rw [List.mem_filter] at hv
  apply hself (List.mem_append_left created hv.1)
  intro hin
  have hlive := liveOf_ne (List.mem_filter.mp hin).2 hne
  rw [hlive] at hv
  cases hv.2

end Replaced

end SentryPos.Catalog
