import SentryPos.Catalog.ChildSets
import SentryPos.Catalog.Indexes

/-!
This module contains the proof of when an update of a product succeeds whose identifiers have passed
the check: the check is about live rows, and the indexes of the variants are about all rows.
-/

namespace SentryPos.Catalog

def VariantInputDto.identifier (v : VariantInputDto) (i : Identifier) : Option String :=
  v.data.identifier i

def UpdateProductDto.identifier (dto : UpdateProductDto) : Identifier → Field String
  | .sku => dto.sku
  | .barcode => dto.barcode

/-- The variants that the body of an update submits. -/
def UpdateProductDto.submitted (dto : UpdateProductDto) : List VariantInputDto :=
  dto.variants.join.getD []

def CreatedFree (productId : Uuid) (i : Identifier) (variants : List ProductVariant)
    (submitted : List VariantInputDto) : Prop :=
  ∀ v ∈ submitted, v.id = none → ∀ s, v.identifier i = some s →
    ∀ w ∈ variants, w.productId = productId → w.identifier i ≠ some s

/--
Another variant of the product that has an identifier of a variant to update is one that is updated
before it.
-/
def UpdatedFree (productId : Uuid) (i : Identifier) (variants : List ProductVariant)
    (submitted : List VariantInputDto) : Prop :=
  ∀ earlier v later, submitted = earlier ++ v :: later → ∀ id, v.id = some id →
    ∀ s, v.identifier i = some s →
      ∀ w ∈ variants, w.productId = productId → w.identifier i = some s →
        w.id = id ∨ some w.id ∈ earlier.map VariantInputDto.id

section ReplaceSet

variable {productId : Uuid} {i : Identifier} {variants : List ProductVariant}
  {submitted : List VariantInputDto} {variantIds : ℕ → Uuid}

abbrev createdRows (productId : Uuid) (variantIds : ℕ → Uuid) (submitted : List VariantInputDto)
    : List ProductVariant :=
  createdVariants productId variantIds (submitted.filter fun v => v.id.isNone)

theorem identifier_data (v : ProductVariant) (i : Identifier)
    : v.data.identifier i = v.identifier i := by
  cases i <;> rfl

theorem createdRows_productId {v : ProductVariant}
    (hv : v ∈ createdRows productId variantIds submitted) : v.productId = productId :=
  productId_of_liveOf (createdVariants_live v hv)

theorem createdRows_identifiers
    : (createdRows productId variantIds submitted).filterMap (·.identifier i)
        = (submitted.filter fun v => v.id.isNone).filterMap (·.identifier i) := by
  have hdata : (createdRows productId variantIds submitted).map ProductVariant.data
      = (submitted.filter fun v => v.id.isNone).map VariantInputDto.data := createdVariants_data
  have hmap := congrArg (List.filterMap fun d => d.identifier i) hdata
  rw [List.filterMap_map, List.filterMap_map] at hmap
  have hrow : (fun d : VariantData => d.identifier i) ∘ ProductVariant.data
      = fun v : ProductVariant => v.identifier i := by
    funext v
    exact identifier_data v i
  rw [hrow] at hmap
  exact hmap

theorem submitted_identifiers_perm
    : ((toUpdate submitted).filterMap (·.2.identifier i)
          ++ (createdRows productId variantIds submitted).filterMap (·.identifier i)).Perm
        (submitted.filterMap (·.identifier i)) := by
  have hperm := (toUpdate_perm submitted).filterMap fun d => d.identifier i
  rw [List.filterMap_append, List.filterMap_map, List.filterMap_map, List.filterMap_map] at hperm
  rw [createdRows_identifiers]
  exact hperm

theorem createdFree_iff
    : CreatedFree productId i variants submitted
        ↔ ∀ v ∈ createdRows productId variantIds submitted, ∀ s, v.identifier i = some s →
          ∀ w ∈ variants, w.productId = productId → w.identifier i ≠ some s := by
  have hcreated : ∀ s, (∃ v ∈ submitted, v.id = none ∧ v.identifier i = some s)
      ↔ ∃ v ∈ createdRows productId variantIds submitted, v.identifier i = some s := by
    intro s
    rw [← List.mem_filterMap, createdRows_identifiers, List.mem_filterMap]
    simp only [List.mem_filter, Option.isNone_iff_eq_none, and_assoc]
  unfold CreatedFree
  constructor
  . intro hfree v hv s hs
    obtain ⟨v', hv', hnone, hs'⟩ := (hcreated s).mpr ⟨v, hv, hs⟩
    exact hfree v' hv' hnone s hs'
  . intro hfree v hv hnone s hs
    obtain ⟨v', hv', hs'⟩ := (hcreated s).mp ⟨v, hv, hnone, hs⟩
    exact hfree v' hv' s hs'

theorem toUpdate_append (a b : List VariantInputDto)
    : toUpdate (a ++ b) = toUpdate a ++ toUpdate b := by
  unfold toUpdate
  rw [List.filterMap_append]

theorem mem_map_fst_toUpdate {id : Uuid}
    : id ∈ (toUpdate submitted).map Prod.fst ↔ some id ∈ submitted.map VariantInputDto.id := by
  rw [map_fst_toUpdate]
  unfold submittedIds
  rw [List.mem_filterMap, List.mem_map]

theorem updatedFree_iff
    : UpdatedFree productId i variants submitted
        ↔ Database.Vacated productId i variants (toUpdate submitted) := by
  constructor
  . intro hfree before c after heq s hs w hw hproduct hws
    unfold toUpdate at heq
    rw [List.filterMap_eq_append_iff] at heq
    obtain ⟨earlier, rest, hsubmitted, hbefore, hrest⟩ := heq
    rw [List.filterMap_eq_cons_iff] at hrest
    obtain ⟨skipped, v, later, hrest, hskipped, hv, _⟩ := hrest
    rw [Option.map_eq_some_iff] at hv
    obtain ⟨id, hid, hc⟩ := hv
    have hsplit : submitted = (earlier ++ skipped) ++ v :: later := by
      rw [hsubmitted, hrest, List.append_assoc]
    rw [← hc] at hs ⊢
    cases hfree _ v later hsplit id hid s hs w hw hproduct hws with
    | inl hsame => exact .inl hsame
    | inr hearlier =>
      right
      rw [← mem_map_fst_toUpdate, toUpdate_append, List.map_append, List.mem_append] at hearlier
      cases hearlier with
      | inl hearlier =>
        rw [← hbefore]
        exact hearlier
      | inr hin =>
        -- None of the variants in between has an id.
        have hnil : toUpdate skipped = [] := by
          unfold toUpdate
          rw [List.filterMap_eq_nil_iff]
          exact hskipped
        rw [hnil] at hin
        cases hin
  . intro hvacated earlier v later hsplit id hid s hs w hw hproduct hws
    have hupdates : toUpdate submitted = toUpdate earlier ++ (id, v.data) :: toUpdate later := by
      have hcons : toUpdate (v :: later) = (id, v.data) :: toUpdate later := by
        unfold toUpdate
        rw [List.filterMap_cons, hid]
        rfl
      rw [hsplit, toUpdate_append, hcons]
    rw [← mem_map_fst_toUpdate]
    exact hvacated _ _ _ hupdates s hs w hw hproduct hws

theorem vacated_append {created : List ProductVariant} {cs : List (Uuid × VariantData)}
    (hfresh : ∀ v ∈ created, v.productId = productId ∧ v.id ∉ cs.map Prod.fst)
    : Database.Vacated productId i (variants ++ created) cs
        ↔ Database.Vacated productId i variants cs
          ∧ (cs.filterMap (·.2.identifier i)).Disjoint (created.filterMap (·.identifier i)) := by
  constructor
  . intro hvacated
    refine ⟨?_, ?_⟩
    . intro before c after heq s hs w hw
      exact hvacated before c after heq s hs w (List.mem_append_left _ hw)
    . intro s hs hs'
      obtain ⟨c, hc, hcs⟩ := List.mem_filterMap.mp hs
      obtain ⟨v, hv, hvs⟩ := List.mem_filterMap.mp hs'
      obtain ⟨before, after, heq⟩ := List.append_of_mem hc
      obtain ⟨hproduct, hid⟩ := hfresh v hv
      have hin := hvacated before c after heq s hcs v (List.mem_append_right _ hv) hproduct hvs
      apply hid
      rw [heq, List.map_append, List.map_cons, List.mem_append, List.mem_cons]
      cases hin with
      | inl hin => exact .inr (.inl hin)
      | inr hin => exact .inl hin
  . rintro ⟨hvacated, hdisjoint⟩ before c after heq s hs w hw hproduct hws
    cases List.mem_append.mp hw with
    | inl hw => exact hvacated before c after heq s hs w hw hproduct hws
    | inr hw =>
      exfalso
      apply hdisjoint (a := s)
      . rw [List.mem_filterMap]
        exact ⟨c, by rw [heq]; simp, hs⟩
      . rw [List.mem_filterMap]
        exact ⟨w, hw, hws⟩

theorem map_id_createdRows
    : (createdRows productId variantIds submitted).map ProductVariant.id
        = (List.range' 0 (submitted.filter fun v => v.id.isNone).length).map variantIds := by
  unfold createdRows createdVariants
  rw [List.map_map, ← List.zipIdx_map_snd, List.map_map]
  rfl

theorem accepts_replaceSet {db : Database} {now : DateTime} {writes : List Write}
    (hdb : db.Indexed)
    (hbuild : buildVariantReplaceSet productId variantIds now (db.liveVariants productId) submitted
      = .ok writes)
    (hfresh : FreshIds variantIds (db.variants.map ProductVariant.id))
    : db.Accepts writes
        ↔ ∀ i, (submitted.filterMap (·.identifier i)).Nodup
          ∧ CreatedFree productId i db.variants submitted
          ∧ UpdatedFree productId i db.variants submitted := by
  have hindexed : Database.VariantsIndexed db.variants := Write.violated_eq_none.mp hdb.variants
  obtain ⟨hsubmitted, hknown, hwrites⟩ := buildVariantReplaceSet_eq_ok hbuild
  have hlive : ∀ id ∈ submittedIds submitted,
      ∃ v ∈ db.variants, v.id = id ∧ v.productId = productId := by
    intro id hid
    obtain ⟨v, hv, heq⟩ := List.mem_map.mp (hknown id hid)
    rw [liveVariants_eq, List.mem_filter] at hv
    exact ⟨v, hv.1, heq, productId_of_liveOf hv.2⟩
  have hnew : ∀ v ∈ createdRows productId variantIds submitted,
      v.id ∉ db.variants.map ProductVariant.id := by
    intro v hv
    have hid : v.id ∈ (createdRows productId variantIds submitted).map ProductVariant.id :=
      List.mem_map_of_mem hv
    rw [map_id_createdRows] at hid
    obtain ⟨n, _, heq⟩ := List.mem_map.mp hid
    rw [← heq]
    exact hfresh.fresh n
  have hids : ((db.variants ++ createdRows productId variantIds submitted).map
      ProductVariant.id).Nodup := by
    rw [List.map_append]
    apply List.Nodup.append hindexed.ids
    . rw [map_id_createdRows]
      exact List.Nodup.map hfresh.injective List.nodup_range'
    . intro id hold hcreated
      obtain ⟨v, hv, heq⟩ := List.mem_map.mp hcreated
      rw [← heq] at hold
      exact hnew v hv hold
  have hcreated : ∀ v ∈ createdRows productId variantIds submitted,
      v.productId = productId ∧ v.id ∉ (toUpdate submitted).map Prod.fst := by
    intro v hv
    refine ⟨createdRows_productId hv, ?_⟩
    intro hin
    rw [map_fst_toUpdate] at hin
    obtain ⟨w, hw, hid, _⟩ := hlive v.id hin
    apply hnew v hv
    rw [← hid]
    exact List.mem_map_of_mem hw
  have hcreate : db.Accepts ((createdRows productId variantIds submitted).map .insertVariant)
      ↔ Database.VariantsIndexed (db.variants ++ createdRows productId variantIds submitted) :=
    Database.accepts_insertVariants hindexed
  have hnodup : ∀ i, (submitted.filterMap (·.identifier i)).Nodup
      ↔ ((toUpdate submitted).filterMap (·.2.identifier i)).Nodup
        ∧ ((createdRows productId variantIds submitted).filterMap (·.identifier i)).Nodup
        ∧ ((toUpdate submitted).filterMap (·.2.identifier i)).Disjoint
          ((createdRows productId variantIds submitted).filterMap (·.identifier i)) := by
    intro i
    rw [← (@submitted_identifiers_perm productId _ _
      variantIds).nodup_iff, List.nodup_append']
  rw [hwrites, Database.accepts_append, foldl_insertVariant, hcreate]
  unfold changes
  rw [List.map_append, List.map_map, List.map_map, Database.accepts_append]
  have hdeletes : ∀ {db' : Database}, db'.Indexed → db'.Accepts
      (((db.liveVariants productId).filter fun v => v.id ∉ submittedIds submitted).map
        (Write.update ∘ fun v => (v.id, .delete now))) := by
    intro db' hdb'
    have hall := @Database.accepts_deleteVariants _
      (((db.liveVariants productId).filter fun v => v.id ∉ submittedIds submitted).map (·.id)) now
      (Write.violated_eq_none.mp hdb'.variants)
    rw [List.map_map] at hall
    exact hall
  have happend : Database.VariantsIndexed
        (db.variants ++ createdRows productId variantIds submitted)
      ↔ ∀ i, ((createdRows productId variantIds submitted).filterMap (·.identifier i)).Nodup
        ∧ ∀ v ∈ createdRows productId variantIds submitted, ∀ s, v.identifier i = some s →
          ∀ w ∈ db.variants, w.productId = productId → w.identifier i ≠ some s :=
    Database.variantsIndexed_append hindexed hids fun _ hv => createdRows_productId hv
  have hupdate (hset : Database.VariantsIndexed
      (db.variants ++ createdRows productId variantIds submitted))
      : ({ db with variants := db.variants ++ createdRows productId variantIds submitted }
          : Database).Accepts
          ((toUpdate submitted).map (Write.update ∘ fun c => (c.1, .data c.2)))
        ↔ ∀ i, ((toUpdate submitted).filterMap (·.2.identifier i)).Nodup
          ∧ Database.Vacated productId i
            (db.variants ++ createdRows productId variantIds submitted) (toUpdate submitted) := by
    apply Database.accepts_updateVariants hset
    . rw [map_fst_toUpdate]
      exact hsubmitted
    . intro c hc
      have hid : c.1 ∈ submittedIds submitted := by
        rw [← map_fst_toUpdate]
        exact List.mem_map_of_mem hc
      obtain ⟨v, hv, hv_id⟩ := hlive c.1 hid
      exact ⟨v, List.mem_append_left _ hv, hv_id⟩
  constructor
  . rintro ⟨hset, hupdates, _⟩ i
    obtain ⟨hnew_nodup, hfree⟩ := happend.mp hset i
    obtain ⟨hchanged_nodup, hvacated⟩ := (hupdate hset).mp hupdates i
    obtain ⟨hvacated, hdisjoint⟩ := (vacated_append hcreated).mp hvacated
    refine ⟨?_, createdFree_iff.mpr hfree, updatedFree_iff.mpr hvacated⟩
    exact (hnodup i).mpr ⟨hchanged_nodup, hnew_nodup, hdisjoint⟩
  . intro hall
    have hset : Database.VariantsIndexed
        (db.variants ++ createdRows productId variantIds submitted) := by
      apply happend.mpr
      intro i
      exact ⟨((hnodup i).mp (hall i).1).2.1, createdFree_iff.mp (hall i).2.1⟩
    have hupdates := (hupdate hset).mpr fun i =>
      ⟨((hnodup i).mp (hall i).1).1, (vacated_append hcreated).mpr
        ⟨updatedFree_iff.mp (hall i).2.2, ((hnodup i).mp (hall i).1).2.2⟩⟩
    refine ⟨hset, hupdates, hdeletes ?_⟩
    apply Database.Indexed.foldl _ hupdates
    exact ⟨hdb.products, Write.violated_eq_none.mpr hset⟩

end ReplaceSet

section Product

variable {db : Database} {current : Product} {data : ProductUpdate} {id : Uuid}

theorem productEntry_eq_some {p : Product} {i : Identifier} {businessId : Uuid} {s : String}
    : Write.productEntry p (.identifier i) = some (.identifier businessId s)
        ↔ p.deletedAt = none ∧ p.businessId = businessId ∧ p.identifier i = some s := by
  unfold Write.productEntry
  dsimp only
  rw [← Option.isNone_iff_eq_none]
  split
  . next hlive =>
    rw [Option.map_eq_some_iff]
    simp only [hlive, true_and]
    constructor
    . rintro ⟨s', hs', heq⟩
      cases heq
      exact ⟨rfl, hs'⟩
    . rintro ⟨hbusiness, hs⟩
      refine ⟨s, hs, ?_⟩
      rw [hbusiness]
  . next hdeleted => simp [hdeleted]

theorem updateProduct_violation (hdb : db.Indexed) (hids : db.UniqueIds)
    (hcurrent : current ∈ db.products) (hid : current.id = id) (hlive : current.deletedAt = none)
    : (Write.updateProduct id data).violation db = none
        ↔ ∀ i s, (data.apply current).identifier i = some s →
          ∀ q ∈ db.products, q.deletedAt = none → q.businessId = current.businessId →
            q.identifier i = some s → q.id = id := by
  have hindexed := Write.violated_eq_none.mp hdb.products
  have hkey : ((Table.modify Product.id db.products id data.apply).filterMap
      (Write.productEntry · .id)).Nodup := by
    have hmap : (Table.modify Product.id db.products id data.apply).filterMap
          (Write.productEntry · .id)
        = ((Table.modify Product.id db.products id data.apply).map Product.id).map
          Write.Entry.id := by
      rw [List.map_map, ← List.filterMap_eq_map]
      rfl
    rw [hmap, Table.map_modify (ProductUpdate.apply_id data)]
    apply List.Nodup.map _ hids.products
    intro a b h
    cases h
    rfl
  unfold Write.violation Write.apply
  dsimp only
  rw [Write.violated_eq_none]
  constructor
  . intro hall i s hs q hq hq_live hbusiness hqs
    by_contra hne
    have hfree := (Table.nodup_filterMap_modify hids.products (hindexed (.identifier i)) hcurrent
      hid).mp (hall (.identifier i))
    apply hfree (.identifier current.businessId s) _ q hq hne
    . exact productEntry_eq_some.mpr ⟨hq_live, hbusiness, hqs⟩
    . exact productEntry_eq_some.mpr ⟨hlive, rfl, hs⟩
  . intro hfree target
    cases target with
    | id => exact hkey
    | identifier i =>
      rw [Table.nodup_filterMap_modify hids.products (hindexed (.identifier i)) hcurrent hid]
      intro e he q hq hne hqe
      have hentry : ∃ s, e = .identifier current.businessId s := by
        unfold Write.productEntry at he
        dsimp only at he
        rw [ProductUpdate.apply_deletedAt, hlive, Option.isNone_none, if_pos rfl,
          Option.map_eq_some_iff] at he
        obtain ⟨s, _, heq⟩ := he
        exact ⟨s, heq.symm⟩
      obtain ⟨s, hs⟩ := hentry
      rw [hs] at he hqe
      obtain ⟨hq_live, hbusiness, hqs⟩ := productEntry_eq_some.mp hqe
      obtain ⟨_, _, hrow⟩ := productEntry_eq_some.mp he
      exact hne (hfree i s hrow q hq hq_live hbusiness hqs)

end Product

/-- What an update has checked before its write. -/
structure Checked (ownerId id : Uuid) (dto : UpdateProductDto) (variantIds : ℕ → Uuid)
    (now : DateTime) (db : Database) (current : Product) (data : ProductUpdate)
    (writes : List Write) : Prop where
  loaded : db.loadOwned ownerId id = .ok current
  category : ∃ categoryId, dto.categoryId.required = .ok categoryId
    ∧ categoryId.forM (db.assertCategoryInBusiness current.businessId) = .ok ()
  admitted : assertUniqueIdentifiers db current.businessId (some id)
    (collect (dto.sku.getD current.sku) ((dto.finalVariants (db.liveVariants id)).map (·.sku)))
    (collect (dto.barcode.getD current.barcode)
      ((dto.finalVariants (db.liveVariants id)).map (·.barcode))) = .ok ()
  variants : dto.variantWrites id variantIds now (db.liveVariants id) = .ok writes
  data : dto.data = .ok data

/-- The condition under which no index refuses an update whose identifiers have passed the check. -/
structure Free (id : Uuid) (dto : UpdateProductDto) (db : Database) (current : Product)
    (i : Identifier) : Prop where
  created : CreatedFree id i db.variants dto.submitted
  updated : UpdatedFree id i db.variants dto.submitted
  /-- The check passes over empty identifiers, and the indexes do not. -/
  emptyVariant : (dto.submitted.filterMap (·.identifier i)).count "" ≤ 1
  emptyProduct : (dto.identifier i).getD (current.identifier i) = some "" →
    ∀ q ∈ db.products, q.deletedAt = none → q.businessId = current.businessId →
      q.identifier i = some "" → q.id = id

theorem mem_collect {own : Option String} {many : List (Option String)} {s : String}
    : s ∈ collect own many ↔ (own = some s ∨ some s ∈ many) ∧ s ≠ "" := by
  unfold collect
  rw [List.mem_filter, List.mem_filterMap, decide_eq_true_eq]
  simp only [id, exists_eq_right, List.mem_cons]
  rw [eq_comm]

section Checked

variable {ownerId id : Uuid} {dto : UpdateProductDto} {variantIds : ℕ → Uuid} {now : DateTime}
  {db : Database} {current : Product} {data : ProductUpdate} {writes : List Write}

theorem loadOwned_live (h : db.loadOwned ownerId id = .ok current)
    : current ∈ db.products ∧ current.id = id ∧ current.deletedAt = none
        ∧ current.businessId ∈ db.allowedBusinessIds ownerId := by
  unfold Database.loadOwned at h
  dsimp only at h
  split at h
  . cases h
  next hfound =>
  cases h
  have hp := List.find?_some hfound
  simp only [decide_eq_true_eq, Option.isNone_iff_eq_none] at hp
  exact ⟨List.mem_of_find?_eq_some hfound, hp.1, hp.2.1, hp.2.2⟩

theorem foldl_variantWrites {db₁ : Database} {current : List ProductVariant}
    (h : dto.variantWrites id variantIds now current = .ok writes)
    : ∃ variants, writes.foldl (fun db w => w.apply db) db₁ = { db₁ with variants } := by
  unfold UpdateProductDto.variantWrites at h
  split at h
  . cases h
    exact ⟨db₁.variants, rfl⟩
  . cases h
  . obtain ⟨_, _, hwrites⟩ := buildVariantReplaceSet_eq_ok h
    rw [hwrites, List.foldl_append, foldl_insertVariant, foldl_updateVariant]
    exact ⟨_, rfl⟩

theorem loadOwned_updated {variants : List ProductVariant}
    (h : db.loadOwned ownerId id = .ok current)
    : ({ (Write.updateProduct id data).apply db with variants } : Database).loadOwned ownerId id
        = .ok (data.apply current) := by
  obtain ⟨_, hid, _⟩ := loadOwned_live h
  have hallowed : ({ (Write.updateProduct id data).apply db with variants }
      : Database).allowedBusinessIds ownerId = db.allowedBusinessIds ownerId := rfl
  unfold Database.loadOwned at h ⊢
  dsimp only at h ⊢
  rw [hallowed]
  split at h
  . cases h
  next hfound =>
  cases h
  have hfind : (Table.modify Product.id db.products id data.apply).find? (fun p =>
      p.id = id ∧ p.deletedAt.isNone ∧ p.businessId ∈ db.allowedBusinessIds ownerId)
        = some (data.apply current) := by
    rw [Table.find?_modify, hfound, Option.map_some, if_pos hid]
    intro p
    rw [ProductUpdate.apply_id, ProductUpdate.apply_deletedAt, ProductUpdate.apply_businessId]
  unfold Write.apply
  dsimp only
  rw [hfind]

theorem Checked.identifier (h : Checked ownerId id dto variantIds now db current data writes)
    (i : Identifier)
    : (data.apply current).identifier i = (dto.identifier i).getD (current.identifier i) := by
  obtain ⟨hsku, hbarcode⟩ := UpdateProductDto.data_eq_ok h.data
  cases i with
  | sku => exact congrArg (·.getD current.sku) hsku
  | barcode => exact congrArg (·.getD current.barcode) hbarcode

theorem Checked.collected (h : Checked ownerId id dto variantIds now db current data writes)
    (i : Identifier)
    : (collect ((dto.identifier i).getD (current.identifier i))
          ((dto.finalVariants (db.liveVariants id)).map (·.identifier i))).Nodup
        ∧ ∀ s ∈ collect ((dto.identifier i).getD (current.identifier i))
            ((dto.finalVariants (db.liveVariants id)).map (·.identifier i)),
          s ∉ db.taken i (db.others current.businessId (some id)) := by
  have hadmitted := @assertUniqueIdentifiers_eq_ok _ _ _ (fun i =>
    collect ((dto.identifier i).getD (current.identifier i))
      ((dto.finalVariants (db.liveVariants id)).map (·.identifier i))) h.admitted
  exact hadmitted i

theorem Checked.product_free (h : Checked ownerId id dto variantIds now db current data writes)
    {i : Identifier} {s : String} (hs : (data.apply current).identifier i = some s) (hne : s ≠ "")
    {q : Product} (hq : q ∈ db.products) (hlive : q.deletedAt = none)
    (hbusiness : q.businessId = current.businessId) (hqs : q.identifier i = some s) : q.id = id := by
  by_contra hother
  rw [h.identifier] at hs
  apply (h.collected i).2 s (mem_collect.mpr ⟨.inl hs, hne⟩)
  unfold Database.taken
  rw [List.mem_flatMap]
  refine ⟨q, ?_, mem_collect.mpr ⟨.inl hqs, hne⟩⟩
  unfold Database.others Database.liveProducts
  simp [hq, hbusiness, hlive, hother]

theorem Checked.submitted_nodup (h : Checked ownerId id dto variantIds now db current data writes)
    (i : Identifier)
    : (dto.submitted.filterMap (·.identifier i)).Nodup
        ↔ (dto.submitted.filterMap (·.identifier i)).count "" ≤ 1 := by
  have hnodup := (h.collected i).1
  unfold UpdateProductDto.finalVariants at hnodup
  unfold UpdateProductDto.submitted
  cases hvariants : dto.variants.join with
  | none => simp
  | some submitted =>
    rw [hvariants] at hnodup
    dsimp only [Option.getD_some] at hnodup ⊢
    rw [List.nodup_iff_count_le_one] at hnodup ⊢
    constructor
    . intro hall
      exact hall ""
    . intro hempty s
      by_cases hs : s = ""
      . rw [hs]
        exact hempty
      . have hcount := hnodup s
        unfold collect at hcount
        rw [List.count_filter (by simpa using hs)] at hcount
        have hsub : (submitted.filterMap (·.identifier i)).Sublist
            (((dto.identifier i).getD (current.identifier i)
              :: (submitted.map VariantInputDto.data).map (·.identifier i)).filterMap fun o => o) := by
          have heq : submitted.filterMap (·.identifier i)
              = ((submitted.map VariantInputDto.data).map (·.identifier i)).filterMap fun o => o := by
            rw [List.map_map, List.filterMap_map]
            rfl
          rw [heq]
          exact (List.sublist_cons_self _ _).filterMap _
        exact (hsub.count_le s).trans hcount

theorem Checked.update_eq (h : Checked ownerId id dto variantIds now db current data writes)
    : update ownerId id dto variantIds now db
        = if data = {} ∧ dto.variants.isNone then .ok (db.serializeProduct current, db)
          else do
            let db ← db.write (.updateProduct id data :: writes)
            let product ← db.loadOwned ownerId id
            return (db.serializeProduct product, db) := by
  obtain ⟨categoryId, hrequired, hcategory⟩ := h.category
  unfold update
  rw [h.loaded]
  simp only [bind, Except.bind]
  rw [hrequired]
  dsimp only
  rw [hcategory]
  dsimp only
  rw [h.admitted]
  dsimp only
  rw [h.variants]
  dsimp only
  rw [h.data]
  rfl

theorem Checked.accepts_iff (h : Checked ownerId id dto variantIds now db current data writes)
    (hdb : db.Indexed) (hids : db.UniqueIds)
    (hfresh : FreshIds variantIds (db.variants.map ProductVariant.id))
    : db.Accepts (.updateProduct id data :: writes) ↔ ∀ i, Free id dto db current i := by
  obtain ⟨hcurrent, hid, hlive, _⟩ := loadOwned_live h.loaded
  have hproduct : (Write.updateProduct id data).violation db = none
      ↔ ∀ i, (dto.identifier i).getD (current.identifier i) = some "" →
        ∀ q ∈ db.products, q.deletedAt = none → q.businessId = current.businessId →
          q.identifier i = some "" → q.id = id := by
    rw [updateProduct_violation hdb hids hcurrent hid hlive]
    constructor
    . intro hall i hempty
      rw [← h.identifier] at hempty
      exact hall i "" hempty
    . intro hempty i s hs
      by_cases hne : s = ""
      . rw [h.identifier] at hs
        rw [hne] at hs ⊢
        exact hempty i hs
      . intro q hq hq_live hbusiness hqs
        exact h.product_free hs hne hq hq_live hbusiness hqs
  have hvariants (hviolation : (Write.updateProduct id data).violation db = none)
      : ((Write.updateProduct id data).apply db).Accepts writes
        ↔ ∀ i, (dto.submitted.filterMap (·.identifier i)).Nodup
          ∧ CreatedFree id i db.variants dto.submitted
          ∧ UpdatedFree id i db.variants dto.submitted := by
    have hbuild := h.variants
    unfold UpdateProductDto.variantWrites at hbuild
    unfold UpdateProductDto.submitted
    split at hbuild
    . next hdto =>
      cases hbuild
      rw [hdto]
      have hcreated : ∀ i, CreatedFree id i db.variants [] := by
        intro i v hv
        cases hv
      have hupdated : ∀ i, UpdatedFree id i db.variants [] := by
        intro i earlier v later heq
        simp at heq
      simp [Database.accepts_nil, hcreated, hupdated]
    . cases hbuild
    . next submitted hdto =>
      rw [hdto]
      exact accepts_replaceSet (hdb.apply hviolation) hbuild hfresh
  rw [Database.accepts_cons]
  constructor
  . rintro ⟨hviolation, haccepts⟩ i
    obtain ⟨hnodup, hcreated, hupdated⟩ := (hvariants hviolation).mp haccepts i
    exact ⟨hcreated, hupdated, (h.submitted_nodup i).mp hnodup, hproduct.mp hviolation i⟩
  . intro hfree
    have hviolation := hproduct.mpr fun i => (hfree i).emptyProduct
    refine ⟨hviolation, (hvariants hviolation).mpr ?_⟩
    intro i
    exact ⟨(h.submitted_nodup i).mpr (hfree i).emptyVariant, (hfree i).created, (hfree i).updated⟩

theorem Checked.accepts_nothing (h : Checked ownerId id dto variantIds now db current {} writes)
    (hdb : db.Indexed) (hvariants : dto.variants = none)
    : db.Accepts (.updateProduct id {} :: writes) := by
  have hwrites := h.variants
  unfold UpdateProductDto.variantWrites at hwrites
  rw [hvariants] at hwrites
  cases hwrites
  have hsame : Table.modify Product.id db.products id ({} : ProductUpdate).apply
      = db.products := by
    unfold Table.modify
    rw [List.map_congr_left, List.map_id']
    intro p _
    split <;> rfl
  rw [Database.accepts_cons]
  refine ⟨?_, Database.accepts_nil⟩
  unfold Write.violation Write.apply
  dsimp only
  rw [hsame]
  exact hdb.products

end Checked

/--
Over any history, an update whose identifiers have passed the check succeeds if and only if they are
free in the indexes. Else the error is that an identifier is already in use.
-/
theorem update_succeeds_iff {db : Database} (h : Reachable db) {ownerId id : Uuid}
    {dto : UpdateProductDto} {variantIds : ℕ → Uuid} {now : DateTime} {current : Product}
    {data : ProductUpdate} {writes : List Write}
    (hchecked : Checked ownerId id dto variantIds now db current data writes)
    (hfresh : FreshIds variantIds (db.variants.map ProductVariant.id))
    : ((∃ r db', update ownerId id dto variantIds now db = .ok (r, db'))
          ↔ ∀ i, Free id dto db current i)
        ∧ ((¬ ∀ i, Free id dto db current i) → ∃ i : Identifier,
          update ownerId id dto variantIds now db
            = .error (mapCatalogWriteError (.identifier i))) := by
  have hindexed := h.indexed
  have haccepts := hchecked.accepts_iff hindexed h.valid.toUniqueIds hfresh
  rw [← haccepts, hchecked.update_eq]
  by_cases hnothing : data = {} ∧ dto.variants.isNone
  . obtain ⟨hdata, hvariants⟩ := hnothing
    rw [hdata] at hchecked
    rw [if_pos ⟨hdata, hvariants⟩, hdata]
    have hall := hchecked.accepts_nothing hindexed (Option.isNone_iff_eq_none.mp hvariants)
    simp [hall]
  . rw [if_neg hnothing]
    by_cases hall : db.Accepts (.updateProduct id data :: writes)
    . have hwritten : ∃ variants, db.write (.updateProduct id data :: writes)
          = .ok { (Write.updateProduct id data).apply db with variants } := by
        rw [hall.write_eq, List.foldl_cons]
        have hvariants : ∃ variants,
            writes.foldl (fun db w => w.apply db) ((Write.updateProduct id data).apply db)
              = { (Write.updateProduct id data).apply db with variants } :=
          foldl_variantWrites hchecked.variants
        obtain ⟨variants, heq⟩ := hvariants
        exact ⟨variants, by rw [heq]⟩
      obtain ⟨variants, heq⟩ := hwritten
      simp only [heq, hall, iff_true, not_true_eq_false, false_implies, and_true]
      simp only [bind, Except.bind]
      rw [loadOwned_updated hchecked.loaded]
      exact ⟨_, _, rfl⟩
    . obtain ⟨target, herror⟩ := Database.write_eq_error hall
      rw [herror]
      simp only [hall, iff_false, not_false_eq_true, true_implies]
      constructor
      . rintro ⟨r, db', hok⟩
        cases hok
      . match target with
        | .id => exact ⟨.sku, rfl⟩
        | .identifier i => exact ⟨i, rfl⟩

namespace Shop

/-- A product with two variants, of which the second one is removed again. -/
def trimmed : Database :=
  run [.create 1 1 (product "A" [variant none "A-1", variant none "A-2"]) 1 id,
    .update 1 1 (replace [variant (some 0) "A-1"]) (· + 2) 10] database

theorem trimmed_reachable : Reachable trimmed :=
  (Reachable.empty rfl rfl : Reachable database).run _

theorem trimmed_fresh : FreshIds (· + 2) (trimmed.variants.map ProductVariant.id) := by
  have hids : trimmed.variants.map ProductVariant.id = [0, 1] := by
    decide +kernel
  rw [hids]
  constructor
  . intro i j h
    exact Nat.add_right_cancel h
  . intro i
    simp

/-- A body that creates a variant beside the one there is. -/
def extend (sku : String) : UpdateProductDto :=
  replace [variant (some 0) "A-1", variant none sku]

/-- The row of the product. -/
def productA : Product where
  id := 1
  businessId := 1
  categoryId := 1
  name := "A"
  sku := some "A"
  barcode := none
  price := 100
  cost := none
  soldBy := .unit
  lowStockThreshold := none
  imagePath := none
  trackStock := true
  trackExpiry := false
  active := true
  deletedAt := none

theorem extend_checked {sku : String} {writes : List Write}
    (hadmitted : assertUniqueIdentifiers trimmed 1 (some 1) (collect (some "A") [some "A-1", some sku])
      (collect none [none, none]) = .ok ())
    (hwrites : (extend sku).variantWrites 1 (· + 2) 20 (trimmed.liveVariants 1) = .ok writes)
    : Checked 1 1 (extend sku) (· + 2) 20 trimmed productA {} writes := by
  have hloaded : trimmed.loadOwned 1 1 = .ok productA := by
    decide +kernel
  exact ⟨hloaded, ⟨none, rfl, rfl⟩, hadmitted, hwrites, rfl⟩

def extendWrites (sku : String) : List Write :=
  [.insertVariant { id := 2, productId := 1, name := sku, sku := some sku, barcode := none,
                    price := 100, cost := none, deletedAt := none },
    .updateVariant 0 (.data (variant (some 0) "A-1").data)]

end Shop

/-- The identifier of a variant that was removed earlier is not usable. -/
theorem freed_identifier_refused
    : ¬ ∀ (db : Database) (ownerId id : Uuid) (dto : UpdateProductDto) (variantIds : ℕ → Uuid)
        (now : DateTime) (current : Product) (data : ProductUpdate) (writes : List Write),
      Reachable db → Checked ownerId id dto variantIds now db current data writes →
        FreshIds variantIds (db.variants.map ProductVariant.id) →
          ∃ r db', update ownerId id dto variantIds now db = .ok (r, db') := by
  intro h
  have hchecked : Checked 1 1 (Shop.extend "A-2") (· + 2) 20 Shop.trimmed Shop.productA {}
      (Shop.extendWrites "A-2") := by
    apply Shop.extend_checked
    . decide +kernel
    . decide +kernel
  obtain ⟨r, db', hok⟩ := h _ _ _ _ _ _ _ _ _ Shop.trimmed_reachable hchecked Shop.trimmed_fresh
  have herror : update 1 1 (Shop.extend "A-2") (· + 2) 20 Shop.trimmed
      = .error (.validationFailed "This SKU is already in use.") := by
    decide +kernel
  rw [herror] at hok
  cases hok

theorem update_succeeds_iff_shop
    : (∃ r db', update 1 1 (Shop.extend "A-3") (· + 2) 20 Shop.trimmed = .ok (r, db'))
        ∧ ∀ i, Free 1 (Shop.extend "A-3") Shop.trimmed Shop.productA i := by
  have hchecked : Checked 1 1 (Shop.extend "A-3") (· + 2) 20 Shop.trimmed Shop.productA {}
      (Shop.extendWrites "A-3") := by
    apply Shop.extend_checked
    . decide +kernel
    . decide +kernel
  have hiff := (update_succeeds_iff Shop.trimmed_reachable hchecked Shop.trimmed_fresh).1
  have hrun : (update 1 1 (Shop.extend "A-3") (· + 2) 20 Shop.trimmed).toOption.isSome = true := by
    decide +kernel
  have hok : ∃ r db', update 1 1 (Shop.extend "A-3") (· + 2) 20 Shop.trimmed = .ok (r, db') := by
    cases hupdate : update 1 1 (Shop.extend "A-3") (· + 2) 20 Shop.trimmed with
    | ok x => exact ⟨x.1, x.2, rfl⟩
    | error e =>
      rw [hupdate] at hrun
      cases hrun
  exact ⟨hok, hiff.mp hok⟩

end SentryPos.Catalog
