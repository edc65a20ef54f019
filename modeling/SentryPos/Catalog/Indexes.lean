import SentryPos.Catalog.Identifiers

/-!
This module contains what the unique indexes of the catalog let through: exactly when the writes of
an update are all accepted, one row after the other.
-/

namespace SentryPos.Catalog

namespace Write

theorem violated_eq_none {α : Type} {rows : List α} {entry : α → Target → Option Entry}
    : violated rows entry = none ↔ ∀ target, (rows.filterMap (entry · target)).Nodup := by
  unfold violated
  rw [List.find?_eq_none]
  simp only [Bool.not_eq_true', decide_eq_false_iff_not, not_not]
  constructor
  . intro h target
    apply h
    match target with
    | .id => simp
    | .identifier .sku => simp
    | .identifier .barcode => simp
  . intro h target _
    exact h target

end Write

namespace Database

structure Indexed (db : Database) : Prop where
  products : Write.violated db.products Write.productEntry = none
  variants : Write.violated db.variants Write.variantEntry = none

def Accepts (db : Database) (writes : List Write) : Prop :=
  ∃ db', db.write writes = .ok db'

variable {db db' : Database} {w : Write} {writes writes' : List Write}

theorem Indexed.apply (hdb : db.Indexed) (h : w.violation db = none) : (w.apply db).Indexed := by
  unfold Write.violation at h
  cases w with
  | insertProduct row => exact ⟨h, hdb.variants⟩
  | updateProduct id data => exact ⟨h, hdb.variants⟩
  | deleteProduct id now => exact ⟨h, hdb.variants⟩
  | insertVariant row => exact ⟨hdb.products, h⟩
  | updateVariant id data => exact ⟨hdb.products, h⟩

theorem write_cons_ok (h : w.violation db = none)
    : db.write (w :: writes) = (w.apply db).write writes := by
  unfold write
  rw [List.foldlM_cons, h]
  rfl

theorem write_cons_error {target : Write.Target} (h : w.violation db = some target)
    : db.write (w :: writes) = .error (mapCatalogWriteError target) := by
  unfold write
  rw [List.foldlM_cons, h]
  rfl

theorem accepts_nil : db.Accepts [] := ⟨db, rfl⟩

theorem accepts_cons
    : db.Accepts (w :: writes) ↔ w.violation db = none ∧ (w.apply db).Accepts writes := by
  unfold Accepts
  cases h : w.violation db with
  | none =>
    rw [write_cons_ok h]
    simp
  | some target =>
    rw [write_cons_error h]
    simp

theorem accepts_append
    : db.Accepts (writes ++ writes')
        ↔ db.Accepts writes ∧ (writes.foldl (fun db w => w.apply db) db).Accepts writes' := by
  induction writes generalizing db with
  | nil => simp [accepts_nil]
  | cons w writes ih =>
    rw [List.cons_append, accepts_cons, accepts_cons, ih, List.foldl_cons, and_assoc]

theorem Accepts.write_eq (h : db.Accepts writes)
    : db.write writes = .ok (writes.foldl (fun db w => w.apply db) db) := by
  induction writes generalizing db with
  | nil => rfl
  | cons w writes ih =>
    obtain ⟨hw, hwrites⟩ := accepts_cons.mp h
    rw [write_cons_ok hw, List.foldl_cons, ih hwrites]

theorem write_eq_error (h : ¬ db.Accepts writes)
    : ∃ target, db.write writes = .error (mapCatalogWriteError target) := by
  induction writes generalizing db with
  | nil => exact absurd accepts_nil h
  | cons w writes ih =>
    rw [accepts_cons, not_and] at h
    cases hw : w.violation db with
    | none =>
      rw [write_cons_ok hw]
      exact ih (h hw)
    | some target => exact ⟨target, write_cons_error hw⟩

theorem Indexed.foldl (hdb : db.Indexed) (h : db.Accepts writes)
    : (writes.foldl (fun db w => w.apply db) db).Indexed := by
  induction writes generalizing db with
  | nil => exact hdb
  | cons w writes ih =>
    obtain ⟨hw, hwrites⟩ := accepts_cons.mp h
    rw [List.foldl_cons]
    exact ih (hdb.apply hw) hwrites

theorem Indexed.write (hdb : db.Indexed) (h : db.write writes = .ok db') : db'.Indexed := by
  have haccepts : db.Accepts writes := ⟨db', h⟩
  rw [haccepts.write_eq] at h
  cases h
  exact hdb.foldl haccepts

end Database

theorem Request.step_indexed (req : Request) {db : Database} (hdb : db.Indexed)
    : (req.step db).2.Indexed := by
  unfold Request.step
  split
  . next r db' h =>
    cases req with
    | create ownerId businessId dto productId variantIds =>
      have hcreated : ∃ row, Created ownerId businessId dto productId variantIds db db' row :=
        create_eq_ok h
      obtain ⟨row, hcreated⟩ := hcreated
      exact hdb.write hcreated.written
    | update ownerId id dto variantIds now =>
      cases update_eq_ok h with
      | inl h =>
        rw [h.2]
        exact hdb
      | inr h =>
        obtain ⟨_, _, _, _, hupdated⟩ := h
        exact hdb.write hupdated.written
    | remove ownerId id now =>
      cases remove_eq_ok h with
      | inl h => exact hdb.write h
      | inr h => exact hdb.write h
  . exact hdb

theorem Reachable.indexed {db : Database} (h : Reachable db) : db.Indexed := by
  induction h with
  | empty hproducts hvariants =>
    constructor
    . rw [hproducts]
      rfl
    . rw [hvariants]
      rfl
  | request _ req ih => exact req.step_indexed ih
  | elsewhere _ hproducts hvariants ih =>
    constructor
    . rw [hproducts]
      exact ih.products
    . rw [hvariants]
      exact ih.variants

namespace Write

theorem variantEntry_eq_some {v : ProductVariant} {i : Identifier} {productId : Uuid} {s : String}
    : variantEntry v (.identifier i) = some (.identifier productId s)
        ↔ v.productId = productId ∧ v.identifier i = some s := by
  unfold variantEntry
  dsimp only
  rw [Option.map_eq_some_iff]
  constructor
  . rintro ⟨s', hs', heq⟩
    cases heq
    exact ⟨rfl, hs'⟩
  . rintro ⟨hproduct, hs⟩
    refine ⟨s, hs, ?_⟩
    rw [hproduct]

theorem filterMap_variantEntry_id (rows : List ProductVariant)
    : (rows.filterMap (variantEntry · .id)).Nodup ↔ (rows.map ProductVariant.id).Nodup := by
  have hmap : rows.filterMap (variantEntry · .id) = (rows.map ProductVariant.id).map Entry.id := by
    rw [List.map_map, ← List.filterMap_eq_map]
    rfl
  rw [hmap]
  constructor
  . exact List.Nodup.of_map _
  . apply List.Nodup.map
    intro a b h
    cases h
    rfl

theorem filterMap_variantEntry_identifier {rows : List ProductVariant} {productId : Uuid}
    (h : ∀ v ∈ rows, v.productId = productId) (i : Identifier)
    : rows.filterMap (variantEntry · (.identifier i))
        = (rows.filterMap (·.identifier i)).map (Entry.identifier productId) := by
  rw [List.map_filterMap]
  apply List.filterMap_congr
  intro v hv
  unfold variantEntry
  rw [h v hv]

end Write

namespace Database

variable {db : Database}

def VariantsIndexed (variants : List ProductVariant) : Prop :=
  ∀ target, (variants.filterMap (Write.variantEntry · target)).Nodup

theorem VariantsIndexed.ids {variants : List ProductVariant} (h : VariantsIndexed variants)
    : (variants.map ProductVariant.id).Nodup :=
  (Write.filterMap_variantEntry_id variants).mp (h .id)

theorem variantsIndexed_iff {variants : List ProductVariant}
    : VariantsIndexed variants ↔ (variants.map ProductVariant.id).Nodup
        ∧ ∀ i, (variants.filterMap (Write.variantEntry · (.identifier i))).Nodup := by
  constructor
  . intro h
    exact ⟨h.ids, fun i => h (.identifier i)⟩
  . rintro ⟨hids, hidentifiers⟩ target
    cases target with
    | id => exact (Write.filterMap_variantEntry_id variants).mpr hids
    | identifier i => exact hidentifiers i

theorem accepts_insertVariants {rows : List ProductVariant} (hdb : VariantsIndexed db.variants)
    : db.Accepts (rows.map .insertVariant) ↔ VariantsIndexed (db.variants ++ rows) := by
  -- The rows that are inserted first are there when the next one is checked.
  induction rows generalizing db with
  | nil => simp [accepts_nil, hdb]
  | cons row rows ih =>
    have hviolation : (Write.insertVariant row).violation db = none
        ↔ VariantsIndexed (db.variants ++ [row]) := Write.violated_eq_none
    have hrest : VariantsIndexed (db.variants ++ [row]) →
        (((Write.insertVariant row).apply db).Accepts (rows.map .insertVariant)
          ↔ VariantsIndexed (db.variants ++ [row] ++ rows)) := by
      intro hrow
      exact @ih ((Write.insertVariant row).apply db) hrow
    rw [List.map_cons, accepts_cons, hviolation]
    rw [List.append_assoc, List.singleton_append] at hrest
    constructor
    . rintro ⟨hrow, haccepts⟩
      exact (hrest hrow).mp haccepts
    . intro hall
      have hrow : VariantsIndexed (db.variants ++ [row]) := by
        intro target
        have hsub : (db.variants ++ [row]).Sublist (db.variants ++ row :: rows) :=
          List.Sublist.append_left (by simp) _
        exact (hall target).sublist (hsub.filterMap _)
      exact ⟨hrow, (hrest hrow).mpr hall⟩

theorem variantsIndexed_append {variants created : List ProductVariant} {productId : Uuid}
    (h : VariantsIndexed variants) (hids : ((variants ++ created).map ProductVariant.id).Nodup)
    (hcreated : ∀ v ∈ created, v.productId = productId)
    : VariantsIndexed (variants ++ created)
        ↔ ∀ i, (created.filterMap (·.identifier i)).Nodup
          ∧ ∀ v ∈ created, ∀ s, v.identifier i = some s →
            ∀ w ∈ variants, w.productId = productId → w.identifier i ≠ some s := by
  have hvariants := variantsIndexed_iff.mp h
  rw [variantsIndexed_iff]
  simp only [hids, true_and]
  apply forall_congr'
  intro i
  have hinjective : Function.Injective (Write.Entry.identifier productId) := by
    intro a b heq
    cases heq
    rfl
  rw [List.filterMap_append, List.nodup_append',
    Write.filterMap_variantEntry_identifier hcreated i, List.nodup_map_iff hinjective]
  simp only [hvariants.2 i, true_and]
  apply and_congr_right
  intro _
  constructor
  . intro hdisjoint v hv s hs w hw hproduct hws
    apply hdisjoint (a := Write.Entry.identifier productId s)
    . rw [List.mem_filterMap]
      exact ⟨w, hw, Write.variantEntry_eq_some.mpr ⟨hproduct, hws⟩⟩
    . apply List.mem_map_of_mem
      rw [List.mem_filterMap]
      exact ⟨v, hv, hs⟩
  . intro hfree e hold hnew
    obtain ⟨s, hs, heq⟩ := List.mem_map.mp hnew
    obtain ⟨v, hv, hvs⟩ := List.mem_filterMap.mp hs
    obtain ⟨w, hw, hws⟩ := List.mem_filterMap.mp hold
    rw [← heq] at hws
    obtain ⟨hproduct, hws⟩ := Write.variantEntry_eq_some.mp hws
    exact hfree v hv s hvs w hw hproduct hws

theorem identifier_apply (d : VariantData) (v : ProductVariant) (i : Identifier)
    : ((VariantUpdate.data d).apply v).identifier i = d.identifier i := by
  cases i <;> rfl

def setVariant (variants : List ProductVariant) (c : Uuid × VariantData) : List ProductVariant :=
  Table.modify ProductVariant.id variants c.1 (VariantUpdate.data c.2).apply

def Unclaimed (productId : Uuid) (i : Identifier) (variants : List ProductVariant)
    (c : Uuid × VariantData) : Prop :=
  ∀ s, c.2.identifier i = some s →
    ∀ w ∈ variants, w.productId = productId → w.identifier i = some s → w.id = c.1

/-- An identifier of a change is free, or has been made free by the changes before it. -/
def Vacated (productId : Uuid) (i : Identifier) (variants : List ProductVariant)
    (cs : List (Uuid × VariantData)) : Prop :=
  ∀ before c after, cs = before ++ c :: after → ∀ s, c.2.identifier i = some s →
    ∀ w ∈ variants, w.productId = productId → w.identifier i = some s →
      w.id = c.1 ∨ w.id ∈ before.map Prod.fst

theorem map_id_setVariant (variants : List ProductVariant) (c : Uuid × VariantData)
    : (setVariant variants c).map ProductVariant.id = variants.map ProductVariant.id := by
  unfold setVariant
  exact Table.map_modify fun v => VariantUpdate.apply_id _ v

theorem mem_setVariant {variants : List ProductVariant} {c : Uuid × VariantData}
    {w : ProductVariant} (h : w ∈ variants)
    : (if w.id = c.1 then (VariantUpdate.data c.2).apply w else w) ∈ setVariant variants c := by
  unfold setVariant Table.modify
  exact List.mem_map_of_mem h

theorem variantsIndexed_setVariant {variants : List ProductVariant} {c : Uuid × VariantData}
    {productId : Uuid} (h : VariantsIndexed variants)
    (hknown : ∃ v ∈ variants, v.id = c.1 ∧ v.productId = productId)
    : VariantsIndexed (setVariant variants c) ↔ ∀ i, Unclaimed productId i variants c := by
  obtain ⟨v, hv, hid, hproduct⟩ := hknown
  have hids : ((setVariant variants c).map ProductVariant.id).Nodup := by
    rw [map_id_setVariant]
    exact h.ids
  rw [variantsIndexed_iff]
  simp only [hids, true_and]
  apply forall_congr'
  intro i
  unfold setVariant
  rw [Table.nodup_filterMap_modify h.ids (h (.identifier i)) hv hid]
  unfold Unclaimed
  constructor
  . intro hfree s hs w hw hw_product hws
    by_contra hne
    apply hfree (.identifier productId s) _ w hw hne
    . exact Write.variantEntry_eq_some.mpr ⟨hw_product, hws⟩
    . apply Write.variantEntry_eq_some.mpr
      rw [VariantUpdate.apply_productId, identifier_apply]
      exact ⟨hproduct, hs⟩
  . intro hfree e he w hw hne hwe
    unfold Write.variantEntry at he
    dsimp only at he
    rw [Option.map_eq_some_iff, identifier_apply, VariantUpdate.apply_productId, hproduct] at he
    obtain ⟨s, hs, heq⟩ := he
    rw [← heq] at hwe
    obtain ⟨hw_product, hws⟩ := Write.variantEntry_eq_some.mp hwe
    exact hne (hfree s hs w hw hw_product hws)

section Vacated

variable {productId : Uuid} {i : Identifier} {variants : List ProductVariant}
  {c : Uuid × VariantData} {cs : List (Uuid × VariantData)}

theorem nodup_identifiers_cons
    : ((c :: cs).filterMap (·.2.identifier i)).Nodup
        ↔ (∀ s, c.2.identifier i = some s → ∀ c' ∈ cs, c'.2.identifier i ≠ some s)
          ∧ (cs.filterMap (·.2.identifier i)).Nodup := by
  rw [List.filterMap_cons]
  cases c.2.identifier i with
  | none => simp
  | some s =>
    dsimp only
    rw [List.nodup_cons]
    apply and_congr_left
    intro _
    constructor
    . intro hnot s' hs' c' hc' heq
      cases hs'
      exact hnot (List.mem_filterMap.mpr ⟨c', hc', heq⟩)
    . intro hnot hin
      obtain ⟨c', hc', heq⟩ := List.mem_filterMap.mp hin
      exact hnot s rfl c' hc' heq

theorem vacated_cons (hknown : ∃ v ∈ variants, v.id = c.1 ∧ v.productId = productId)
    (hfst : c.1 ∉ cs.map Prod.fst)
    : (((c :: cs).filterMap (·.2.identifier i)).Nodup ∧ Vacated productId i variants (c :: cs))
        ↔ Unclaimed productId i variants c
          ∧ (cs.filterMap (·.2.identifier i)).Nodup
          ∧ Vacated productId i (setVariant variants c) cs := by
  rw [nodup_identifiers_cons]
  constructor
  . rintro ⟨⟨hdistinct, hnodup⟩, hvacated⟩
    refine ⟨?_, hnodup, ?_⟩
    . intro s hs w hw hproduct hws
      cases hvacated [] c cs rfl s hs w hw hproduct hws with
      | inl hid => exact hid
      | inr hin => cases hin
    . intro before c' after heq s hs w hw hproduct hws
      have hc' : c' ∈ cs := by
        rw [heq]
        simp
      cases Table.mem_modify hw with
      | inl hw =>
        have hold := hvacated (c :: before) c' after (by rw [heq]; rfl) s hs w hw.2 hproduct hws
        rw [List.map_cons, List.mem_cons] at hold
        rcases hold with hid | hid | hid
        . exact .inl hid
        . exact absurd hid hw.1
        . exact .inr hid
      | inr hw =>
        -- The row that was just changed has the identifier of a later change.
        obtain ⟨w', _, _, heq'⟩ := hw
        rw [heq', identifier_apply] at hws
        exact absurd hs (hdistinct s hws c' hc')
  . rintro ⟨hunclaimed, hnodup, hvacated⟩
    obtain ⟨v, hv, hid, hproduct⟩ := hknown
    constructor
    . refine ⟨?_, hnodup⟩
      intro s hs c' hc' hs'
      obtain ⟨before, after, heq⟩ := List.append_of_mem hc'
      have hrow := mem_setVariant (c := c) hv
      rw [if_pos hid] at hrow
      have hlater := hvacated before c' after heq s hs' _ hrow
        (by rw [VariantUpdate.apply_productId, hproduct]) (by rw [identifier_apply, hs])
      rw [VariantUpdate.apply_id, hid] at hlater
      apply hfst
      rw [heq, List.map_append, List.map_cons, List.mem_append, List.mem_cons]
      cases hlater with
      | inl hlater => exact .inr (.inl hlater)
      | inr hlater => exact .inl hlater
    . intro before c' after heq s hs w hw hw_product hws
      cases before with
      | nil =>
        rw [List.nil_append, List.cons.injEq] at heq
        rw [← heq.1] at hs ⊢
        exact .inl (hunclaimed s hs w hw hw_product hws)
      | cons b before =>
        rw [List.cons_append, List.cons.injEq] at heq
        rw [← heq.1, List.map_cons, List.mem_cons]
        by_cases hwid : w.id = c.1
        . exact .inr (.inl hwid)
        . have hrow := mem_setVariant (c := c) hw
          rw [if_neg hwid] at hrow
          cases hvacated before c' after heq.2 s hs w hrow hw_product hws with
          | inl hsame => exact .inl hsame
          | inr hearlier => exact .inr (.inr hearlier)

end Vacated

theorem accepts_updateVariants {productId : Uuid} {cs : List (Uuid × VariantData)}
    (hdb : VariantsIndexed db.variants) (hfst : (cs.map Prod.fst).Nodup)
    (hknown : ∀ c ∈ cs, ∃ v ∈ db.variants, v.id = c.1 ∧ v.productId = productId)
    : db.Accepts (cs.map fun c => .updateVariant c.1 (.data c.2))
        ↔ ∀ i, (cs.filterMap (·.2.identifier i)).Nodup ∧ Vacated productId i db.variants cs := by
  induction cs generalizing db with
  | nil =>
    have hvacated : ∀ i, Vacated productId i db.variants [] := by
      intro i before c after heq
      simp at heq
    simp [accepts_nil, hvacated]
  | cons c cs ih =>
    rw [List.map_cons, List.nodup_cons] at hfst
    have hc := hknown c List.mem_cons_self
    have hviolation : (Write.updateVariant c.1 (.data c.2)).violation db = none
        ↔ VariantsIndexed (setVariant db.variants c) := Write.violated_eq_none
    have hrest : VariantsIndexed (setVariant db.variants c) →
        (((Write.updateVariant c.1 (.data c.2)).apply db).Accepts
            (cs.map fun c => .updateVariant c.1 (.data c.2))
          ↔ ∀ i, (cs.filterMap (·.2.identifier i)).Nodup
            ∧ Vacated productId i (setVariant db.variants c) cs) := by
      intro hset
      apply ih hset hfst.2
      intro c' hc'
      obtain ⟨v, hv, hid, hproduct⟩ := hknown c' (List.mem_cons_of_mem _ hc')
      refine ⟨_, mem_setVariant (c := c) hv, ?_⟩
      split
      . rw [VariantUpdate.apply_id, VariantUpdate.apply_productId]
        exact ⟨hid, hproduct⟩
      . exact ⟨hid, hproduct⟩
    rw [List.map_cons, accepts_cons, hviolation]
    simp only [vacated_cons hc hfst.1, forall_and]
    rw [← variantsIndexed_setVariant hdb hc]
    apply and_congr_right
    intro hset
    rw [hrest hset, forall_and]

theorem accepts_deleteVariants {ids : List Uuid} {now : DateTime}
    (hdb : VariantsIndexed db.variants)
    : db.Accepts (ids.map fun id => .updateVariant id (.delete now)) := by
  induction ids generalizing db with
  | nil => exact accepts_nil
  | cons id ids ih =>
    have hset : VariantsIndexed (Table.modify ProductVariant.id db.variants id
        (VariantUpdate.delete now).apply) := by
      intro target
      have hsame : (Table.modify ProductVariant.id db.variants id
            (VariantUpdate.delete now).apply).filterMap (Write.variantEntry · target)
          = db.variants.filterMap (Write.variantEntry · target) := by
        unfold Table.modify
        rw [List.filterMap_map]
        apply List.filterMap_congr
        intro v _
        rw [Function.comp_apply]
        split
        . match target with
          | .id => rfl
          | .identifier .sku => rfl
          | .identifier .barcode => rfl
        . rfl
      rw [hsame]
      exact hdb target
    rw [List.map_cons, accepts_cons]
    refine ⟨Write.violated_eq_none.mpr hset, ?_⟩
    exact ih hset

end Database

end SentryPos.Catalog
