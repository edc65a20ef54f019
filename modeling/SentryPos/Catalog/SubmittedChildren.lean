import SentryPos.Catalog.Identifiers
import SentryPos.Catalog.ModifierGroups

/-!
This module contains the proof that an update leaves the submitted variants of a product, and the
submitted modifiers of a group, as its live children.
-/

namespace SentryPos.Catalog

open Arg (Fields)

/-- What a submission leaves in the table of the children. -/
structure SetReplaced {ι δ : Type} (inputId : ι → Option Uuid) (data : ι → δ) (parentId : Uuid)
    (newIds : ℕ → Uuid) (now : DateTime) (submitted : List ι) (rows rows' : List (Child δ))
    : Prop where
  rows : rows' = rows.map (replacedChild parentId now (keptInputs inputId data submitted))
    ++ createdChildren inputId data parentId newIds submitted
  ids : (rows'.map Child.id).Nodup
  live : ((rows'.filter (Child.live parentId)).map fun r => (r.id, r.data)).Perm
    (keptInputs inputId data submitted
      ++ (createdChildren inputId data parentId newIds submitted).map fun r => (r.id, r.data))

theorem map_id_replaced {δ : Type} {parentId : Uuid} {now : DateTime} {kept : List (Uuid × δ)}
    (r : Child δ) : (replacedChild parentId now kept r).id = r.id := by
  unfold replacedChild
  split
  . split <;> rfl
  . rfl

theorem SetReplaced.of_rows {ι δ : Type} {inputId : ι → Option Uuid} {data : ι → δ}
    {parentId : Uuid} {newIds : ℕ → Uuid} {now : DateTime} {submitted : List ι}
    {rows rows' : List (Child δ)} (h : ¬ Rejected inputId (liveIds parentId rows) submitted)
    (hids : ((rows ++ createdChildren inputId data parentId newIds submitted).map Child.id).Nodup)
    (hrows : rows' = rows.map (replacedChild parentId now (keptInputs inputId data submitted))
      ++ createdChildren inputId data parentId newIds submitted)
    : SetReplaced inputId data parentId newIds now submitted rows rows' where
  rows := hrows
  ids := by
    rw [hrows, List.map_append, List.map_map]
    rw [List.map_append] at hids
    have heq : Child.id ∘ replacedChild parentId now (keptInputs inputId data submitted)
        = Child.id := funext map_id_replaced
    rw [heq]
    exact hids
  live := by
    rw [not_rejected, ← map_fst_keptInputs inputId data] at h
    rw [hrows]
    rw [List.map_append] at hids
    exact live_replaced_perm hids.of_append_left h.2 h.1 fun r hr => live_createdChildren hr

namespace ModifierGroups

variable {ownerId id : Uuid} {dto : UpdateModifierGroupDto} {newIds : ℕ → Uuid} {now : DateTime}
  {db db' : Database} {submitted : List ModifierInputDto}

theorem modifier_columns
    : InputColumns .modifier ModifierData.ofArg ModifierInputDto.columns ModifierInputDto.data where
  plain := by
    intro m
    unfold Plain ModifierInputDto.columns
    simp only [List.forall_mem_cons]
    exact ⟨rfl, rfl, by simp⟩
  read := fun _ => rfl
  update := fun _ => rfl

theorem get_dataField_ne {α : Type} {key key' : String} {toArg : α → Arg} (f : Field α)
    (fields : Fields) (h : key ≠ key')
    : Fields.get (dataField key toArg f ++ fields) key' = Fields.get fields key' := by
  unfold dataField
  match f with
  | none => rfl
  | some none => simp [Fields.get, h]
  | some (some a) => simp [Fields.get, h]

theorem relationTarget_modifiers
    : Model.modifierGroup.relationTarget "modifiers" = some .modifier := rfl

/-- The fields of the data of an update with modifiers. -/
def UpdateModifierGroupDto.fields (dto : UpdateModifierGroupDto) (arg : Arg) : Fields :=
  dataField "name" .str dto.name ++ dataField "minSelect" .num dto.minSelect
    ++ dataField "maxSelect" .num dto.maxSelect ++ [("modifiers", arg)]

theorem get_modifiers (dto : UpdateModifierGroupDto) (arg : Arg)
    : Fields.get (dto.fields arg) "modifiers" = some arg := by
  unfold UpdateModifierGroupDto.fields
  rw [List.append_assoc, List.append_assoc, get_dataField_ne _ _ (by decide),
    get_dataField_ne _ _ (by decide), get_dataField_ne _ _ (by decide)]
  rfl

theorem not_rejected_of_ok {groupId : Uuid} {arg : Arg}
    (harg : buildModifierReplaceSet (db.liveModifiers groupId) submitted = .ok arg)
    : ¬ Rejected ModifierInputDto.id (liveIds groupId db.modifiers) submitted := by
  unfold buildModifierReplaceSet at harg
  rw [Checks.mapError_eq_ok] at harg
  intro hrejected
  obtain ⟨message, herror⟩ := buildReplaceSet_of_rejected "modifier" ModifierInputDto.columns
    hrejected
  have hok : buildReplaceSet "modifier" (·.id) ModifierInputDto.columns
      (liveIds groupId db.modifiers) submitted = .ok arg := harg
  rw [herror] at hok
  cases hok

theorem writeChildren_eq {groupId : Uuid} {arg : Arg}
    (harg : buildModifierReplaceSet (db.liveModifiers groupId) submitted = .ok arg)
    {data : Fields} (hdata : Fields.get data "modifiers" = some arg)
    : writeChildren ModifierData.ofArg [Child.key] "modifiers" groupId newIds
          (rewriteFields now .modifierGroup data).1 db.modifiers
        = (applyWrites [Child.key] groupId
            ((createdChildren (·.id) ModifierInputDto.data groupId newIds submitted).map .create
              ++ (childUpdates now (liveIds groupId db.modifiers)
                  (keptInputs (·.id) ModifierInputDto.data submitted)).map fun u => .update u.1 u.2)
            db.modifiers).mapError ofChildError := by
  obtain ⟨nested, hnested, hwrites⟩ := childWrites_of_not_rejected "modifier" groupId newIds now
    modifier_columns (not_rejected_of_ok harg)
  unfold buildModifierReplaceSet at harg
  rw [Checks.mapError_eq_ok] at harg
  have hnested' : buildReplaceSet "modifier" (·.id) ModifierInputDto.columns
      ((db.liveModifiers groupId).map (·.id)) submitted = .ok nested := hnested
  rw [harg] at hnested'
  cases hnested'
  have hget := get_rewriteFields now relationTarget_modifiers data
  rw [hdata, Option.map_some] at hget
  unfold writeChildren
  rw [hget]
  dsimp only
  rw [hwrites]

theorem writeChildren_modifiers (hids : (db.modifiers.map Child.id).Nodup)
    {groupId : Uuid} {arg : Arg}
    (harg : buildModifierReplaceSet (db.liveModifiers groupId) submitted = .ok arg)
    {data : Fields} (hdata : Fields.get data "modifiers" = some arg) {modifiers : List Modifier}
    (h : writeChildren ModifierData.ofArg [Child.key] "modifiers" groupId newIds
      (rewriteFields now .modifierGroup data).1 db.modifiers = .ok modifiers)
    : SetReplaced (·.id) ModifierInputDto.data groupId newIds now submitted db.modifiers modifiers := by
  have hnot := not_rejected_of_ok harg
  rw [writeChildren_eq harg hdata, Checks.mapError_eq_ok] at h
  have hunique := unique_key.mp (applyWrites_create_ok (unique_key.mpr hids) h)
  have hkept := not_rejected.mp hnot
  rw [← map_fst_keptInputs _ ModifierInputDto.data] at hkept
  rw [applyWrites_childUpdates hunique hkept.2 hkept.1] at h
  cases h
  exact SetReplaced.of_rows hnot hunique rfl

theorem writeChildren_ok (now : DateTime) (hids : (db.modifiers.map Child.id).Nodup)
    (hfresh : FreshIds newIds (db.modifiers.map Child.id)) {groupId : Uuid} {arg : Arg}
    (harg : buildModifierReplaceSet (db.liveModifiers groupId) submitted = .ok arg)
    {data : Fields} (hdata : Fields.get data "modifiers" = some arg)
    : ∃ modifiers, writeChildren ModifierData.ofArg [Child.key] "modifiers" groupId newIds
        (rewriteFields now .modifierGroup data).1 db.modifiers = .ok modifiers := by
  have hkept := not_rejected.mp (not_rejected_of_ok harg)
  rw [← map_fst_keptInputs _ ModifierInputDto.data] at hkept
  rw [writeChildren_eq harg hdata,
    applyWrites_childUpdates (nodup_append_created hids hfresh) hkept.2 hkept.1]
  exact ⟨_, rfl⟩

theorem update_eq_ok (hdto : dto.modifiers = some (some submitted)) {r : ModifierGroupResponse}
    (h : update ownerId id dto newIds now db = .ok (r, db'))
    : ∃ arg data, buildModifierReplaceSet (db.liveModifiers id) submitted = .ok arg
        ∧ Fields.get data "modifiers" = some arg
        ∧ writeChildren ModifierData.ofArg [Child.key] "modifiers" id newIds
            (rewriteFields now .modifierGroup data).1 db.modifiers = .ok db'.modifiers := by
  unfold update at h
  simp only [Checks.bind_eq_ok] at h
  obtain ⟨current, hcurrent, _, _, nested, hnested, h⟩ := h
  have hmodifiers : current.modifiers = db.liveModifiers id := by
    unfold Database.loadOwnedGroup at hcurrent
    dsimp only at hcurrent
    split at hcurrent
    . cases hcurrent
    . cases hcurrent
      rfl
  unfold UpdateModifierGroupDto.nested at hnested
  rw [hdto, hmodifiers] at hnested
  dsimp only at hnested
  rw [Checks.bind_eq_ok] at hnested
  obtain ⟨arg, harg, hnested⟩ := hnested
  cases hnested
  refine ⟨arg, _, harg, get_modifiers dto arg, ?_⟩
  split at h
  . next hempty => simp at hempty
  . simp only [Checks.bind_eq_ok] at h
    obtain ⟨db₁, hupdate, _, _, h⟩ := h
    cases h
    unfold updateGroup at hupdate
    dsimp only at hupdate
    split at hupdate
    . simp only [Checks.bind_eq_ok] at hupdate
      obtain ⟨_, _, modifiers, hchildren, h⟩ := hupdate
      cases h
      exact hchildren
    . cases hupdate

theorem update_replaced (hids : (db.modifiers.map Child.id).Nodup)
    (hdto : dto.modifiers = some (some submitted)) {r : ModifierGroupResponse}
    (h : update ownerId id dto newIds now db = .ok (r, db'))
    : SetReplaced (·.id) ModifierInputDto.data id newIds now submitted db.modifiers
        db'.modifiers := by
  obtain ⟨arg, data, harg, hdata, hchildren⟩ := update_eq_ok hdto h
  exact writeChildren_modifiers hids harg hdata hchildren

theorem update_rejected (hdto : dto.modifiers = some (some submitted))
    (h : Rejected ModifierInputDto.id (liveIds id db.modifiers) submitted)
    : ∃ e, update ownerId id dto newIds now db = .error e := by
  cases hupdate : update ownerId id dto newIds now db with
  | error e => exact ⟨e, rfl⟩
  | ok r =>
    exfalso
    obtain ⟨arg, _, harg, _⟩ := update_eq_ok hdto hupdate
    exact not_rejected_of_ok harg h

theorem get_dataField_self {α : Type} (key : String) (toArg : α → Arg) (f : Field α)
    {fields : Fields} (h : Fields.get fields key = none)
    : Fields.get (dataField key toArg f ++ fields) key
        = f.map fun value => (value.map toArg).getD .null := by
  unfold dataField
  match f with
  | none => exact h
  | some none => simp [Fields.get]
  | some (some a) => simp [Fields.get]

theorem readColumn_field {α : Type} {data : Fields} {key : String} (toArg : α → Arg)
    {ofArg : Arg → Option α} {f : Field α} (hread : ∀ a, ofArg (toArg a) = some a)
    (hget : Fields.get data key = f.map fun value => (value.map toArg).getD .null)
    (hf : f ≠ some none) : readColumn data key ofArg = .ok f.join := by
  unfold readColumn
  rw [hget]
  match f with
  | none => rfl
  | some none => exact absurd rfl hf
  | some (some a) => simp [hread]

theorem readGroup_fields (now : DateTime) (arg : Arg) (hname : dto.name ≠ some none)
    (hmin : dto.minSelect ≠ some none) (hmax : dto.maxSelect ≠ some none)
    : ∃ group, readGroup (rewriteFields now .modifierGroup (dto.fields arg)).1 = .ok group := by
  have hget : ∀ key, Model.modifierGroup.relationTarget key = none →
      Fields.get (rewriteFields now .modifierGroup (dto.fields arg)).1 key
        = Fields.get (dto.fields arg) key := by
    intro key hkey
    exact get_rewriteFields_plain now hkey _
  have hname' : readColumn (rewriteFields now .modifierGroup (dto.fields arg)).1 "name" stringOfArg
      = .ok dto.name.join := by
    apply readColumn_field .str (fun _ => rfl) _ hname
    rw [hget "name" rfl]
    unfold UpdateModifierGroupDto.fields
    rw [List.append_assoc, List.append_assoc]
    apply get_dataField_self
    rw [get_dataField_ne _ _ (by decide), get_dataField_ne _ _ (by decide)]
    rfl
  have hmin' : readColumn (rewriteFields now .modifierGroup (dto.fields arg)).1 "minSelect" intOfArg
      = .ok dto.minSelect.join := by
    apply readColumn_field .num (fun _ => rfl) _ hmin
    rw [hget "minSelect" rfl]
    unfold UpdateModifierGroupDto.fields
    rw [List.append_assoc, List.append_assoc, get_dataField_ne _ _ (by decide)]
    apply get_dataField_self
    rw [get_dataField_ne _ _ (by decide)]
    rfl
  have hmax' : readColumn (rewriteFields now .modifierGroup (dto.fields arg)).1 "maxSelect" intOfArg
      = .ok dto.maxSelect.join := by
    apply readColumn_field .num (fun _ => rfl) _ hmax
    rw [hget "maxSelect" rfl]
    unfold UpdateModifierGroupDto.fields
    rw [List.append_assoc, List.append_assoc, get_dataField_ne _ _ (by decide),
      get_dataField_ne _ _ (by decide)]
    apply get_dataField_self
    rfl
  unfold readGroup
  rw [hname', hmin', hmax']
  exact ⟨_, rfl⟩

theorem loadOwnedGroup_eq_ok {current : ModifierGroupResponse}
    (h : db.loadOwnedGroup ownerId id = .ok current)
    : (db.modifierGroups.find? fun g =>
          g.id = id ∧ g.deletedAt.isNone ∧ g.businessId ∈ db.allowedBusinessIds ownerId)
          = some current.group
        ∧ current.modifiers = db.liveModifiers id := by
  unfold Database.loadOwnedGroup at h
  dsimp only at h
  split at h
  . cases h
  . next hgroup =>
    cases h
    exact ⟨hgroup, rfl⟩

theorem loadOwnedGroup_of_find {group : ModifierGroup}
    (h : (db.modifierGroups.find? fun g =>
      g.id = id ∧ g.deletedAt.isNone ∧ g.businessId ∈ db.allowedBusinessIds ownerId) = some group)
    : db.loadOwnedGroup ownerId id = .ok { group, modifiers := db.liveModifiers id } := by
  unfold Database.loadOwnedGroup
  dsimp only
  rw [h]

theorem loadOwnedGroup_modify {current : ModifierGroupResponse}
    (h : db.loadOwnedGroup ownerId id = .ok current) (u : GroupUpdate) (modifiers : List Modifier)
    : ∃ r, Database.loadOwnedGroup
        { db with
          modifierGroups := Table.modify ModifierGroup.id db.modifierGroups id u.apply
          modifiers } ownerId id = .ok r := by
  have hfind : ((Table.modify ModifierGroup.id db.modifierGroups id u.apply).find? fun g =>
      g.id = id ∧ g.deletedAt.isNone ∧ g.businessId ∈ db.allowedBusinessIds ownerId)
        = some (if current.group.id = id then u.apply current.group else current.group) := by
    rw [Table.find?_modify (f := u.apply) fun _ => rfl, (loadOwnedGroup_eq_ok h).1]
    rfl
  exact ⟨_, loadOwnedGroup_of_find hfind⟩

theorem updateGroup_eq_ok {current : ModifierGroupResponse}
    (hcurrent : db.loadOwnedGroup ownerId id = .ok current) {data : Fields} {u : GroupUpdate}
    (hu : readGroup (rewriteFields now .modifierGroup data).1 = .ok u) {modifiers : List Modifier}
    (hmodifiers : writeChildren ModifierData.ofArg [Child.key] "modifiers" id newIds
      (rewriteFields now .modifierGroup data).1 db.modifiers = .ok modifiers)
    : updateGroup ownerId id newIds now data db = .ok { db with
        modifierGroups := Table.modify ModifierGroup.id db.modifierGroups id u.apply
        modifiers } := by
  have hgroup := (loadOwnedGroup_eq_ok hcurrent).1
  have hfound := List.find?_some hgroup
  simp only [decide_eq_true_eq] at hfound
  have hscope : (db.modifierGroups.any fun g =>
      g.id = id ∧ g.businessId ∈ db.allowedBusinessIds ownerId) = true := by
    rw [List.any_eq_true]
    refine ⟨current.group, List.mem_of_find?_eq_some hgroup, ?_⟩
    simp only [decide_eq_true_eq]
    exact ⟨hfound.1, hfound.2.2⟩
  unfold updateGroup
  dsimp only
  rw [if_pos hscope, hu, hmodifiers]
  rfl

theorem update_succeeds (hids : (db.modifiers.map Child.id).Nodup)
    (hfresh : FreshIds newIds (db.modifiers.map Child.id)) {current : ModifierGroupResponse}
    (hcurrent : db.loadOwnedGroup ownerId id = .ok current)
    (hselect : dto.minSelect.join.getD current.group.minSelect
      ≤ dto.maxSelect.join.getD current.group.maxSelect)
    (hname : dto.name ≠ some none) (hmin : dto.minSelect ≠ some none)
    (hmax : dto.maxSelect ≠ some none) (hdto : dto.modifiers = some (some submitted))
    (h : ¬ Rejected ModifierInputDto.id (liveIds id db.modifiers) submitted)
    : ∃ r db', update ownerId id dto newIds now db = .ok (r, db') := by
  obtain ⟨arg, hbuild⟩
      : ∃ arg, buildModifierReplaceSet (db.liveModifiers id) submitted = .ok arg := by
    have hok := buildReplaceSet_of_not_rejected "modifier" ModifierInputDto.columns h
    unfold buildModifierReplaceSet
    exact ⟨_, Checks.mapError_eq_ok.mpr hok⟩
  have hselect' : assertMinMax (dto.minSelect.join.getD current.group.minSelect)
      (dto.maxSelect.join.getD current.group.maxSelect) = .ok () := by
    unfold assertMinMax
    rw [if_neg (not_lt.mpr hselect)]
  have hnested : dto.nested current.modifiers = .ok [("modifiers", arg)] := by
    unfold UpdateModifierGroupDto.nested
    rw [hdto, (loadOwnedGroup_eq_ok hcurrent).2]
    dsimp only
    rw [hbuild]
    rfl
  have hdata : (dto.fields arg).isEmpty = false := by
    simp [UpdateModifierGroupDto.fields]
  obtain ⟨u, hu⟩ := readGroup_fields now arg hname hmin hmax
  obtain ⟨modifiers, hmodifiers⟩ := writeChildren_ok now hids hfresh hbuild (get_modifiers dto arg)
  have hupdate := updateGroup_eq_ok hcurrent hu hmodifiers
  obtain ⟨r, hr⟩ := loadOwnedGroup_modify hcurrent u modifiers
  unfold UpdateModifierGroupDto.fields at hdata hupdate
  refine ⟨r, { db with
    modifierGroups := Table.modify ModifierGroup.id db.modifierGroups id u.apply
    modifiers }, ?_⟩
  unfold update
  simp only [Checks.bind_eq_ok]
  refine ⟨current, hcurrent, (), hselect', [("modifiers", arg)], hnested, ?_⟩
  rw [if_neg (by rw [hdata]; exact Bool.false_ne_true)]
  simp only [Checks.bind_eq_ok]
  exact ⟨_, hupdate, r, hr, rfl⟩

end ModifierGroups

namespace Variants

/-! The variants of a product, as the data of an update nests them. -/

def optionArg {α : Type} (toArg : α → Arg) (value : Option α) : Arg :=
  (value.map toArg).getD .null

def columns (v : VariantInputDto) : Fields :=
  [("name", .str v.name), ("sku", optionArg .str v.sku), ("barcode", optionArg .str v.barcode),
    ("price", .num v.priceC), ("cost", optionArg .num v.costC)]

def buildVariantReplaceSet (current : List ProductVariant) (submitted : List VariantInputDto)
    : Except ApiError Arg :=
  (buildReplaceSet "variant" (·.id) columns (current.map (·.id)) submitted).mapError
    .validationFailed

def nullable {α : Type} (ofArg : Arg → Option α) : Arg → Option (Option α)
  | .null => some none
  | value => (ofArg value).map some

def variantOfArg (data : Arg) : Option VariantData := do
  let name ← (← data.get "name") |> ModifierGroups.stringOfArg
  let sku ← (← data.get "sku") |> nullable ModifierGroups.stringOfArg
  let barcode ← (← data.get "barcode") |> nullable ModifierGroups.stringOfArg
  let price ← (← data.get "price") |> ModifierGroups.intOfArg
  let cost ← (← data.get "cost") |> nullable ModifierGroups.intOfArg
  return { name, sku, barcode, price, cost }

/-- A variant as a child of its product. -/
def child (v : ProductVariant) : Child VariantData where
  id := v.id
  parentId := v.productId
  data := v.data
  deletedAt := v.deletedAt

def ofChild (r : Child VariantData) : ProductVariant where
  id := r.id
  productId := r.parentId
  name := r.data.name
  sku := r.data.sku
  barcode := r.data.barcode
  price := r.data.price
  cost := r.data.cost
  deletedAt := r.deletedAt

def write : ChildWrite VariantData → Option Write
  | .create row => some (.insertVariant (ofChild row))
  | .update id (.data d) => some (.updateVariant id (.data d))
  | .update id (.deletedAt (some t)) => some (.updateVariant id (.delete t))
  | .update _ (.deletedAt none) => none

/-- What the scoped client makes of the variants of an update. -/
def variantWrites (productId : Uuid) (variantIds : ℕ → Uuid) (now : DateTime) (fields : Fields)
    : Option (List Write) := do
  let nested ← Fields.get (rewriteFields now .product fields).1 "variants"
  let writes ← (childReader variantOfArg productId variantIds).childWrites nested
  writes.mapM write

theorem variant_columns
    : InputColumns .productVariant variantOfArg columns VariantInputDto.data where
  plain := by
    intro v
    unfold Plain columns
    simp only [List.forall_mem_cons]
    exact ⟨rfl, rfl, rfl, rfl, rfl, by simp⟩
  read := by
    intro v
    obtain ⟨id, name, sku, barcode, price, cost⟩ := v
    cases sku <;> cases barcode <;> cases cost <;> rfl
  update := by
    intro v
    obtain ⟨id, name, sku, barcode, price, cost⟩ := v
    cases sku <;> cases barcode <;> cases cost <;> rfl

theorem get_append_none {fields fields' : Fields} {key : String} (h : Fields.get fields key = none)
    : Fields.get (fields ++ fields') key = Fields.get fields' key := by
  unfold Fields.get at h ⊢
  rw [Option.map_eq_none_iff] at h
  rw [List.find?_append, h, Option.none_or]

theorem relationTarget_variants : Model.product.relationTarget "variants" = some .productVariant :=
  rfl

theorem mapM_write_create (rows : List (Child VariantData))
    : (rows.map ChildWrite.create).mapM write
        = some ((rows.map ofChild).map Write.insertVariant) := by
  rw [List.mapM_map, List.map_map]
  exact mapM_some fun _ _ => rfl

/-- The writes of an update are those of its nested submission, rewritten and read by the client. -/
theorem variantWrites_eq_ok {productId : Uuid} {variantIds : ℕ → Uuid} {now : DateTime}
    {current : List ProductVariant} {submitted : List VariantInputDto} {fields : Fields}
    (hfields : Fields.get fields "variants" = none)
    (h : ¬ Rejected VariantInputDto.id (current.map (·.id)) submitted)
    : ∃ nested writes, buildVariantReplaceSet current submitted = .ok nested
        ∧ Catalog.buildVariantReplaceSet productId variantIds now current submitted = .ok writes
        ∧ variantWrites productId variantIds now (fields ++ [("variants", nested)])
            = some writes := by
  obtain ⟨nested, hnested, hwrites⟩ := childWrites_of_not_rejected "variant" productId variantIds now
    variant_columns h
  have hcatalog : Catalog.buildVariantReplaceSet productId variantIds now current submitted
      = .ok ((createdVariants productId variantIds (submitted.filter fun v => v.id.isNone)).map
            .insertVariant
          ++ (submitted.filterMap fun v => v.id.map fun id => (id, v.data)).map
              (fun u => .updateVariant u.1 (.data u.2))
          ++ (current.filter fun v => v.id ∉ submitted.filterMap (·.id)).map
              fun v => .updateVariant v.id (.delete now)) := by
    obtain ⟨hknown, hnodup⟩ := not_rejected.mp h
    have hfind : (submitted.filterMap (·.id)).find? (· ∉ current.map (·.id)) = none := by
      rw [List.find?_eq_none]
      intro id hid
      simpa using hknown id hid
    unfold Catalog.buildVariantReplaceSet
    dsimp only
    rw [hfind]
    change (if _ then _ else _ : Except ApiError (List Write)) = _
    rw [if_neg (not_not.mpr (length_dedup.mpr hnodup))]
    rfl
  have hcreated : (createdChildren VariantInputDto.id VariantInputDto.data productId variantIds
      submitted).map ofChild
        = createdVariants productId variantIds (submitted.filter fun v => v.id.isNone) := by
    unfold createdChildren createdVariants
    rw [List.map_map]
    rfl
  refine ⟨nested, _, Checks.mapError_eq_ok.mpr hnested, hcatalog, ?_⟩
  have hget := get_rewriteFields now relationTarget_variants (fields ++ [("variants", nested)])
  rw [get_append_none hfields] at hget
  unfold variantWrites
  rw [hget]
  change (do
    let writes ← (childReader variantOfArg productId variantIds).childWrites
      (rewriteNested now .productVariant nested).1
    writes.mapM write) = _
  rw [hwrites]
  change List.mapM write _ = _
  have hupdated : ((keptInputs VariantInputDto.id VariantInputDto.data submitted).map
      ((fun u => ChildWrite.update u.1 u.2) ∘ fun input => (input.1, .data input.2))).mapM write
        = some ((submitted.filterMap fun v => v.id.map fun id => (id, v.data)).map
            fun u => .updateVariant u.1 (.data u.2)) := by
    rw [List.mapM_map]
    exact mapM_some fun _ _ => rfl
  have hdeleted : (((current.map (·.id)).filter (· ∉ submitted.filterMap (·.id))).map
      ((fun u => ChildWrite.update u.1 u.2) ∘ fun id => (id, .deletedAt (some now)))).mapM write
        = some ((current.filter fun v => v.id ∉ submitted.filterMap (·.id)).map
            fun v => .updateVariant v.id (.delete now)) := by
    rw [List.filter_map, List.map_map, List.mapM_map]
    exact mapM_some fun _ _ => rfl
  unfold childUpdates
  rw [map_fst_keptInputs, List.map_append, List.map_map, List.map_map, List.mapM_append,
    List.mapM_append, mapM_write_create, hcreated]
  rw [hupdated, hdeleted, List.append_assoc]
  rfl

def childUpdate (c : Uuid × VariantUpdate) : Uuid × ChildUpdate VariantData :=
  (c.1, match c.2 with
    | .data d => .data d
    | .delete t => .deletedAt (some t))

theorem child_changed (cs : List (Uuid × VariantUpdate)) (v : ProductVariant)
    : child (changed cs v) = Child.changed (cs.map childUpdate) (child v) := by
  have hget : Table.get Prod.fst (cs.map childUpdate) v.id
      = (Table.get Prod.fst cs v.id).map childUpdate := by
    unfold Table.get
    rw [List.find?_map]
    rfl
  unfold Child.changed changed
  change _ = ((Table.get Prod.fst (cs.map childUpdate) v.id).map _).getD _
  rw [hget]
  cases Table.get Prod.fst cs v.id with
  | none => rfl
  | some c =>
    obtain ⟨id, u⟩ := c
    cases u <;> rfl

theorem map_childUpdate_changes (now : DateTime) (current : List ProductVariant)
    (submitted : List VariantInputDto)
    : (changes now current submitted).map childUpdate
        = childUpdates now (current.map (·.id))
            (keptInputs VariantInputDto.id VariantInputDto.data submitted) := by
  unfold changes childUpdates
  rw [map_fst_keptInputs, List.map_append, List.map_map, List.map_map, List.filter_map, List.map_map]
  rfl

theorem liveIds_child (db : Database) (id : Uuid)
    : liveIds id (db.variants.map child) = (db.liveVariants id).map (·.id) := by
  unfold liveIds
  rw [List.filter_map, List.map_map]
  rfl

variable {ownerId id : Uuid} {dto : UpdateProductDto} {variantIds : ℕ → Uuid} {now : DateTime}
  {db db' : Database} {submitted : List VariantInputDto}

theorem update_replaced (hdb : db.UniqueIds) (hdto : dto.variants = some (some submitted))
    {r : ProductResponse} (h : update ownerId id dto variantIds now db = .ok (r, db'))
    : SetReplaced (·.id) VariantInputDto.data id variantIds now submitted (db.variants.map child)
        (db'.variants.map child) := by
  cases Catalog.update_eq_ok h with
  | inl h =>
    rw [hdto] at h
    cases h.1
  | inr h =>
    obtain ⟨current, data, writes, _, hupdated⟩ := h
    have hbuild := hupdated.variants
    unfold UpdateProductDto.variantWrites at hbuild
    rw [hdto] at hbuild
    obtain ⟨hdb', hids⟩ := Database.write_eq_ok hupdated.written hdb
    rw [List.foldl_cons] at hdb'
    obtain ⟨hafter, hrows, _⟩ := variants_of_writes hbuild (by rfl) hdb' hids hdb
    obtain ⟨hsubmitted, hknown, _⟩ := buildVariantReplaceSet_eq_ok hbuild
    have hnot : ¬ Rejected VariantInputDto.id (liveIds id (db.variants.map child)) submitted := by
      rw [liveIds_child]
      exact not_rejected.mpr ⟨hknown, hsubmitted⟩
    have hcreated : (createdVariants id variantIds (submitted.filter fun v => v.id.isNone)).map child
        = createdChildren (·.id) VariantInputDto.data id variantIds submitted := by
      unfold createdVariants createdChildren
      rw [List.map_map]
      rfl
    have hkept := not_rejected.mp hnot
    rw [← map_fst_keptInputs _ VariantInputDto.data] at hkept
    have hchildren : ((db.variants.map child
        ++ createdChildren (·.id) VariantInputDto.data id variantIds submitted).map Child.id).Nodup := by
      rw [← hcreated, ← List.map_append, List.map_map]
      exact hrows
    apply SetReplaced.of_rows hnot hchildren
    rw [← map_changed_childUpdates hchildren hkept.2 hkept.1, hafter, ← hcreated, ← List.map_append,
      List.map_map, List.map_map, liveIds_child, ← map_childUpdate_changes]
    apply List.map_congr_left
    intro v _
    exact child_changed _ v

theorem update_rejected (hdto : dto.variants = some (some submitted))
    (h : Rejected VariantInputDto.id ((db.liveVariants id).map (·.id)) submitted)
    : ∃ e, update ownerId id dto variantIds now db = .error e := by
  cases hupdate : update ownerId id dto variantIds now db with
  | error e => exact ⟨e, rfl⟩
  | ok r =>
    exfalso
    cases Catalog.update_eq_ok hupdate with
    | inl h =>
      rw [hdto] at h
      cases h.1
    | inr h =>
      obtain ⟨_, _, _, _, hupdated⟩ := h
      have hbuild := hupdated.variants
      unfold UpdateProductDto.variantWrites at hbuild
      rw [hdto] at hbuild
      obtain ⟨hsubmitted, hknown, _⟩ := buildVariantReplaceSet_eq_ok hbuild
      exact not_rejected.mpr ⟨hknown, hsubmitted⟩ h

end Variants

/--
An update that submits variants or modifiers: with an unknown or a repeated id it throws and writes
nothing, and else it leaves the submitted ones as the live children.
-/
theorem submitted_children
    : (∀ (ownerId id : Uuid) (dto : UpdateProductDto) (variantIds : ℕ → Uuid) (now : DateTime)
          (db : Database) (submitted : List VariantInputDto), db.UniqueIds →
        dto.variants = some (some submitted) →
          (Rejected VariantInputDto.id ((db.liveVariants id).map (·.id)) submitted →
            ∃ e, (Request.update ownerId id dto variantIds now).step db = (.error e, db))
          ∧ (¬ Rejected VariantInputDto.id ((db.liveVariants id).map (·.id)) submitted →
            ∀ fields, Fields.get fields "variants" = none →
              ∃ nested writes,
                Variants.buildVariantReplaceSet (db.liveVariants id) submitted = .ok nested
                ∧ Variants.variantWrites id variantIds now (fields ++ [("variants", nested)])
                    = some writes
                ∧ dto.variantWrites id variantIds now (db.liveVariants id) = .ok writes)
          ∧ ∀ r db', update ownerId id dto variantIds now db = .ok (r, db') →
            SetReplaced (·.id) VariantInputDto.data id variantIds now submitted
              (db.variants.map Variants.child) (db'.variants.map Variants.child))
      ∧ ∀ (ownerId id : Uuid) (dto : ModifierGroups.UpdateModifierGroupDto) (newIds : ℕ → Uuid)
          (now : DateTime) (db : ModifierGroups.Database)
          (submitted : List ModifierGroups.ModifierInputDto), (db.modifiers.map Child.id).Nodup →
        dto.modifiers = some (some submitted) →
          (Rejected ModifierGroups.ModifierInputDto.id (liveIds id db.modifiers) submitted →
            ∃ e, ModifierGroups.step (ModifierGroups.update ownerId id dto newIds now) db
              = (.error e, db))
          ∧ (¬ Rejected ModifierGroups.ModifierInputDto.id (liveIds id db.modifiers) submitted →
            FreshIds newIds (db.modifiers.map Child.id) →
            ∀ current, db.loadOwnedGroup ownerId id = .ok current →
              dto.minSelect.join.getD current.group.minSelect
                ≤ dto.maxSelect.join.getD current.group.maxSelect →
              dto.name ≠ some none → dto.minSelect ≠ some none → dto.maxSelect ≠ some none →
                ∃ r db', ModifierGroups.update ownerId id dto newIds now db = .ok (r, db'))
          ∧ ∀ r db', ModifierGroups.update ownerId id dto newIds now db = .ok (r, db') →
            SetReplaced (·.id) ModifierGroups.ModifierInputDto.data id newIds now submitted
              db.modifiers db'.modifiers := by
  constructor
  . intro ownerId id dto variantIds now db submitted hdb hdto
    refine ⟨?_, ?_, ?_⟩
    . intro hrejected
      have herror : ∃ e, update ownerId id dto variantIds now db = .error e :=
        Variants.update_rejected hdto hrejected
      obtain ⟨e, he⟩ := herror
      refine ⟨e, ?_⟩
      unfold Request.step Request.call
      dsimp only
      rw [he]
    . intro hnot fields hfields
      obtain ⟨nested, writes, hnested, hwrites, hvariants⟩ :=
        Variants.variantWrites_eq_ok hfields hnot
      refine ⟨nested, writes, hnested, hvariants, ?_⟩
      unfold UpdateProductDto.variantWrites
      rw [hdto]
      exact hwrites
    . intro r db' h
      exact Variants.update_replaced hdb hdto h
  . intro ownerId id dto newIds now db submitted hids hdto
    refine ⟨?_, ?_, ?_⟩
    . intro hrejected
      have herror : ∃ e, ModifierGroups.update ownerId id dto newIds now db = .error e :=
        ModifierGroups.update_rejected hdto hrejected
      obtain ⟨e, he⟩ := herror
      refine ⟨e, ?_⟩
      unfold ModifierGroups.step
      rw [he]
    . intro hnot hfresh current hcurrent hselect hname hmin hmax
      exact ModifierGroups.update_succeeds hids hfresh hcurrent hselect hname hmin hmax hdto hnot
    . intro r db' h
      exact ModifierGroups.update_replaced hids hdto h

namespace Shop

/-- A product with two variants. -/
def stocked : Database :=
  ((Request.create 1 1 (product "A" [variant none "A-1", variant none "A-2"]) 1 id).step database).2

theorem stocked_ids : stocked.UniqueIds where
  products := by decide +kernel
  variants := by decide +kernel

/-- One of the variants stays, one goes and one is new. -/
def submittedVariants : List VariantInputDto :=
  [variant (some 0) "A-3", variant none "A-4"]

/-- A group with a modifier that is deleted and two live ones. -/
def menu : ModifierGroups.Database where
  businesses := database.businesses
  products := stocked.products
  modifierGroups := [{ id := 5, businessId := 1, name := "Milk", minSelect := 0, maxSelect := 1,
                       deletedAt := none }]
  modifiers := [⟨1, 5, ⟨"Soy", 0⟩, some 3⟩, ⟨2, 5, ⟨"Oat", 500⟩, none⟩, ⟨3, 5, ⟨"Rice", 300⟩, none⟩]
  productModifierGroups := []

def submittedModifiers : List ModifierGroups.ModifierInputDto :=
  [{ id := some 3, name := "Rice milk", priceDeltaC := 400 },
    { id := none, name := "Almond", priceDeltaC := 600 }]

def edit (modifiers : List ModifierGroups.ModifierInputDto)
    : ModifierGroups.UpdateModifierGroupDto where
  name := none
  minSelect := none
  maxSelect := none
  modifiers := some (some modifiers)

end Shop

theorem submitted_children_shop
    : (∃ e, (Request.update 1 1 (Shop.replace [Shop.variant (some 9) "A-3"]) (· + 2) 10).step
          Shop.stocked = (.error e, Shop.stocked))
      ∧ (∃ r db', update 1 1 (Shop.replace Shop.submittedVariants) (· + 2) 10 Shop.stocked
            = .ok (r, db')
          ∧ db'.variants.map (fun v => (v.id, v.name, v.deletedAt))
            = [(0, "A-3", none), (1, "A-2", some 10), (2, "A-4", none)]
          ∧ SetReplaced (·.id) VariantInputDto.data 1 (· + 2) 10 Shop.submittedVariants
            (Shop.stocked.variants.map Variants.child) (db'.variants.map Variants.child))
      ∧ (∃ e, ModifierGroups.step (ModifierGroups.update 1 5 (Shop.edit
            [{ id := some 1, name := "Soy", priceDeltaC := 0 }]) (· + 4) 10) Shop.menu
          = (.error e, Shop.menu))
      ∧ ∃ r db', ModifierGroups.update 1 5 (Shop.edit Shop.submittedModifiers) (· + 4) 10 Shop.menu
          = .ok (r, db')
        ∧ SetReplaced (·.id) ModifierGroups.ModifierInputDto.data 5 (· + 4) 10
          Shop.submittedModifiers Shop.menu.modifiers db'.modifiers := by
  have hvariants := submitted_children.1 1 1
  have hmodifiers := submitted_children.2 1 5
  refine ⟨?_, ?_, ?_, ?_⟩
  . apply (hvariants _ (· + 2) 10 Shop.stocked _ Shop.stocked_ids rfl).1
    left
    exact ⟨9, by decide, by decide +kernel⟩
  . have hrun : (update 1 1 (Shop.replace Shop.submittedVariants) (· + 2) 10 Shop.stocked).toOption.map
        (fun x => x.2.variants.map fun v => (v.id, v.name, v.deletedAt))
          = some [(0, "A-3", none), (1, "A-2", some 10), (2, "A-4", none)] := by
      decide +kernel
    rw [Option.map_eq_some_iff] at hrun
    obtain ⟨⟨r, db'⟩, hok, hrows⟩ := hrun
    have hupdate : update 1 1 (Shop.replace Shop.submittedVariants) (· + 2) 10 Shop.stocked
        = .ok (r, db') := by
      revert hok
      generalize update 1 1 (Shop.replace Shop.submittedVariants) (· + 2) 10 Shop.stocked = x
      intro hok
      cases x <;> simp_all [Except.toOption]
    exact ⟨r, db', hupdate, hrows, (hvariants _ _ _ _ _ Shop.stocked_ids rfl).2.2 r db' hupdate⟩
  . apply (hmodifiers _ (· + 4) 10 Shop.menu _ (by decide) rfl).1
    left
    exact ⟨1, by decide, by decide⟩
  . have hfresh : FreshIds (· + 4) (Shop.menu.modifiers.map Child.id) := by
      constructor
      . intro i j h
        exact Nat.add_right_cancel h
      . intro i
        simp [Shop.menu]
    have hnot : ¬ Rejected ModifierGroups.ModifierInputDto.id (liveIds 5 Shop.menu.modifiers)
        Shop.submittedModifiers := by
      rw [not_rejected]
      exact ⟨by decide, by decide⟩
    have hall := hmodifiers (Shop.edit Shop.submittedModifiers) (· + 4) 10 Shop.menu
      Shop.submittedModifiers (by decide) rfl
    obtain ⟨r, db', hupdate⟩ := hall.2.1 hnot hfresh _ rfl (by decide) (by decide) (by decide)
      (by decide)
    exact ⟨r, db', hupdate, hall.2.2 r db' hupdate⟩

end SentryPos.Catalog
