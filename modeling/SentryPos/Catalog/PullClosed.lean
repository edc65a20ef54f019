import SentryPos.Catalog.FreeIdentifiers
import SentryPos.Catalog.Pull

/-!
This module contains when what a terminal pulls refers to nothing outside of it: which calls of the
portal leave a reference behind, and that without them no payload has a dangling one.
-/

namespace SentryPos.Catalog.Pull

/-- Every reference in a payload is to something in the payload. -/
structure CatalogPayload.Closed (payload : CatalogPayload) : Prop where
  categories : ∀ p ∈ payload.products, p.categoryId ∈ payload.categories.map (·.id)
  groups : ∀ p ∈ payload.products, ∀ id ∈ p.modifierGroupIds,
    id ∈ payload.modifierGroups.map (·.id)
  stock : ∀ l ∈ payload.stock, ∃ p ∈ payload.products, p.id = l.productId ∧
    ∀ id ∈ l.variantId, id ∈ p.variants.map (·.id)

structure State.Sound (s : State) : Prop where
  ids : s.catalog.UniqueIds
  branchIds : (s.branches.map Branch.id).Nodup
  categories : ∀ p ∈ s.products, p.deletedAt = none → p.active →
    ∃ c ∈ s.categories, c.id = p.categoryId ∧ c.businessId = p.businessId ∧ c.deletedAt = none
  products : ∀ r ∈ s.branchStock, r.productId ∈ s.products.map Product.id
  stock : ∀ r ∈ s.branchStock, r.deletedAt = none → ∀ p ∈ s.products, p.id = r.productId →
    p.trackStock → p.deletedAt = none ∧ p.active ∧
      ∀ id ∈ r.variantId, id ∈ (s.liveVariants p.id).map ProductVariant.id
  branches : ∀ r ∈ s.branchStock, ∀ b ∈ s.branches, b.id = r.branchId →
    ∀ p ∈ s.products, p.id = r.productId → p.businessId = b.businessId

theorem State.mem_liveVariants {s : State} {productId : Uuid} {v : ProductVariant}
    : v ∈ s.liveVariants productId ↔ v ∈ s.variants ∧ v.productId = productId ∧ v.deletedAt = none := by
  unfold State.liveVariants Database.liveVariants State.catalog
  simp

/-! The payload of a sound state. -/

section Payload

variable {s : State} {ctx : TerminalContext} {terminalId : Uuid} {payload : CatalogPayload}

theorem terminalContext_eq_some (h : s.terminalContext terminalId = some ctx)
    : ∃ b ∈ s.branches, b.id = ctx.branchId ∧ b.businessId = ctx.businessId := by
  unfold State.terminalContext at h
  simp only [Option.bind_eq_bind, Option.bind_eq_some_iff] at h
  obtain ⟨terminal, _, branch, hbranch, business, _, hctx⟩ := h
  cases hctx
  have hid := List.find?_some hbranch
  exact ⟨branch, List.mem_of_find?_eq_some hbranch, by simpa using hid, rfl⟩

theorem pull_eq_ok (h : pull ctx s = .ok payload)
    : ctx.businessId ∈ s.allowedBusinessIds ctx.ownerId ∧
        payload.categories = (findCategories ctx s).map serializeCategory ∧
        payload.products
          = (findProducts ctx s).map (serializeProduct s ((findGroups ctx s).map (·.id))) ∧
        payload.modifierGroups = (findGroups ctx s).map (serializeGroup s) ∧
        payload.stock = (trackedRows ctx.branchId s).map fun r =>
          { productId := r.productId, variantId := r.variantId, qty := r.qty } := by
  unfold pull at h
  split at h
  . cases h
  next hbusiness =>
    simp only [Checks.bind_eq_ok] at h
    obtain ⟨branch, _, h⟩ := h
    split at h
    . cases h
    . simp only [Checks.bind_eq_ok] at h
      obtain ⟨levels, hlevels, h⟩ := h
      cases h
      unfold Pull.levels at hlevels
      rw [Checks.bind_eq_ok] at hlevels
      obtain ⟨_, _, hlevels⟩ := hlevels
      cases hlevels
      refine ⟨not_not.mp hbusiness, rfl, rfl, rfl, ?_⟩
      rw [List.map_map]
      rfl

theorem pull_groups_closed (h : pull ctx s = .ok payload)
    : ∀ p ∈ payload.products, ∀ id ∈ p.modifierGroupIds, id ∈ payload.modifierGroups.map (·.id) := by
  obtain ⟨_, _, hproducts, hgroups, _⟩ := pull_eq_ok h
  intro p hp id hid
  rw [hproducts] at hp
  obtain ⟨row, _, rfl⟩ := List.mem_map.mp hp
  have hlive := (List.mem_filter.mp hid).2
  rw [hgroups, List.map_map]
  simpa [serializeGroup] using hlive

theorem State.Sound.pull_closed (hs : s.Sound) (hctx : s.terminalContext terminalId = some ctx)
    (h : pull ctx s = .ok payload) : payload.Closed := by
  obtain ⟨hbusiness, hcategories, hproducts, hgroups, hstock⟩ := pull_eq_ok h
  obtain ⟨b, hb, hid, hbusinessId⟩ := terminalContext_eq_some hctx
  constructor
  . intro p hp
    rw [hproducts] at hp
    obtain ⟨row, hrow, rfl⟩ := List.mem_map.mp hp
    simp only [findProducts, List.mem_filter, decide_eq_true_eq] at hrow
    obtain ⟨hmem, hin, hactive, hallowed, hlive⟩ := hrow
    obtain ⟨c, hc, hcid, hcbusiness, hclive⟩ :=
      hs.categories row hmem (Option.isNone_iff_eq_none.mp hlive) hactive
    rw [hcategories, List.map_map]
    apply List.mem_map.mpr
    refine ⟨c, ?_, hcid⟩
    unfold findCategories
    rw [List.mem_mergeSort]
    simp [hc, hcbusiness, hin, hclive, hbusiness]
  . exact pull_groups_closed h
  . intro l hl
    rw [hstock] at hl
    obtain ⟨r, hr, rfl⟩ := List.mem_map.mp hl
    simp only [trackedRows, List.mem_filter, decide_eq_true_eq] at hr
    obtain ⟨hmem, hbranch, hlive, htracked⟩ := hr
    obtain ⟨p, hp, hptracked⟩ := List.any_eq_true.mp htracked
    simp only [decide_eq_true_eq] at hptracked
    obtain ⟨hpid, htrack⟩ := hptracked
    obtain ⟨hplive, hactive, hvariant⟩ :=
      hs.stock r hmem (Option.isNone_iff_eq_none.mp hlive) p hp hpid htrack
    have hpbusiness := hs.branches r hmem b hb (hid.trans hbranch.symm) p hp hpid
    refine ⟨serializeProduct s ((findGroups ctx s).map (·.id)) p, ?_, hpid, ?_⟩
    . rw [hproducts]
      apply List.mem_map_of_mem
      simp [findProducts, hp, hpbusiness, hbusinessId, hactive, hplive, hbusiness]
    . intro id hidv
      have hin := hvariant id hidv
      simpa [serializeProduct, serializeVariant, Function.comp_def] using hin

end Payload

/-! Which calls leave no reference behind. -/

def State.Sells (s : State) (productId : Uuid) : Prop :=
  ∀ p ∈ s.products, p.id = productId → p.trackStock → p.active

def KeepsVariant (dto : UpdateProductDto) (variantId : Uuid) : Prop :=
  ∀ submitted, dto.variants.join = some submitted → variantId ∈ submittedIds submitted

/--
An update leaves the product in a live category if it is sold after it, and if it is tracked, it is
sold and no variant in stock is left out.
-/
structure UpdateKeeps (s : State) (p : Product) (dto : UpdateProductDto) : Prop where
  category : dto.active.join.getD p.active → dto.categoryId.join = none →
    ∃ c ∈ s.categories, c.id = p.categoryId ∧ c.businessId = p.businessId ∧ c.deletedAt = none
  stock : dto.trackStock.join.getD p.trackStock → ∀ r ∈ s.branchStock, r.deletedAt = none →
    r.productId = p.id → dto.active.join.getD p.active ∧
      ∀ id ∈ r.variantId, id ∈ (s.liveVariants p.id).map ProductVariant.id ∧ KeepsVariant dto id

/-- The calls after which nothing that is sold or stocked refers to what is archived. -/
def Keeps (s : State) : Operation → Prop
  | .removeCategory _ id _ =>
    ∀ p ∈ s.products, p.deletedAt = none → p.active → p.categoryId ≠ id
  | .product (.update _ id dto _ _) =>
    ∀ p ∈ s.products, p.id = id → p.deletedAt = none → UpdateKeeps s p dto
  | .product (.remove _ id _) =>
    ∀ p ∈ s.products, p.id = id → p.deletedAt = none → p.trackStock →
      ∀ r ∈ s.branchStock, r.deletedAt = none → r.productId ≠ id
  | .receive _ _ dto _ => ∀ line ∈ dto.lines, s.Sells line.productId
  | .adjust _ _ dto _ => s.Sells dto.productId
  | _ => True

/-! Categories. -/

section Categories

variable {s s' : State} {ownerId : Uuid} {c : Category}

theorem State.Sound.with_categories {categories : List Category} (hs : s.Sound)
    (h : ∀ p ∈ s.products, p.deletedAt = none → p.active → ∀ c ∈ s.categories, c.id = p.categoryId →
      c.deletedAt = none → ∃ c' ∈ categories, c'.id = c.id ∧ c'.businessId = c.businessId ∧
        c'.deletedAt = none)
    : ({ s with categories } : State).Sound where
  ids := ⟨hs.ids.products, hs.ids.variants⟩
  branchIds := hs.branchIds
  products := hs.products
  stock := hs.stock
  branches := hs.branches
  categories := by
    intro p hp hlive hactive
    obtain ⟨c, hc, hid, hbusiness, hclive⟩ := hs.categories p hp hlive hactive
    obtain ⟨c', hc', hid', hbusiness', hclive'⟩ := h p hp hlive hactive c hc hid hclive
    exact ⟨c', hc', hid'.trans hid, hbusiness'.trans hbusiness, hclive'⟩

theorem exists_modify {categories : List Category} {id : Uuid} {f : Category → Category}
    (hc : c ∈ categories) (hf : ∀ c, (f c).id = c.id ∧ (f c).businessId = c.businessId)
    (hlive : c.id = id → (f c).deletedAt = none) (hclive : c.deletedAt = none)
    : ∃ c' ∈ Table.modify (fun c : Category => c.id) categories id f,
        c'.id = c.id ∧ c'.businessId = c.businessId ∧ c'.deletedAt = none := by
  refine ⟨if c.id = id then f c else c, List.mem_map_of_mem hc, ?_⟩
  split
  next hid => exact ⟨(hf c).1, (hf c).2, hlive hid⟩
  next => exact ⟨rfl, rfl, hclive⟩

theorem createCategory_sound {businessId newId : Uuid} {dto : CreateCategoryDto} (hs : s.Sound)
    (h : createCategory ownerId businessId dto newId s = .ok (c, s')) : s'.Sound := by
  unfold createCategory at h
  simp only [Checks.bind_eq_ok] at h
  obtain ⟨_, _, sortOrder, _, h⟩ := h
  cases h
  apply hs.with_categories
  intro _ _ _ _ c hc _ hclive
  exact ⟨c, List.mem_append_left _ hc, rfl, rfl, hclive⟩

theorem updateCategory_sound {id : Uuid} {dto : UpdateCategoryDto} (hs : s.Sound)
    (h : updateCategory ownerId id dto s = .ok (c, s')) : s'.Sound := by
  unfold updateCategory at h
  simp only [Checks.bind_eq_ok] at h
  obtain ⟨existing, _, name, _, sortOrder, _, h⟩ := h
  cases h
  apply hs.with_categories
  intro _ _ _ _ c hc _ hclive
  exact exists_modify hc (fun _ => ⟨rfl, rfl⟩) (fun _ => hclive) hclive

theorem removeCategory_sound {id : Uuid} {now : DateTime} (hs : s.Sound)
    (hkeeps : Keeps s (.removeCategory ownerId id now))
    (h : removeCategory ownerId id now s = .ok (c, s')) : s'.Sound := by
  unfold removeCategory at h
  simp only [Checks.bind_eq_ok] at h
  obtain ⟨existing, _, h⟩ := h
  cases h
  apply hs.with_categories
  intro p hp hlive hactive c hc hid hclive
  have hne : c.id ≠ id := by
    rw [hid]
    exact hkeeps p hp hlive hactive
  exact exists_modify hc (fun _ => ⟨rfl, rfl⟩) (fun h => absurd h hne) hclive

end Categories

/-! Products. -/

section Products

variable {s : State} {db db' : Database} {ownerId : Uuid}

theorem assertCategoryInBusiness_eq_ok {businessId categoryId : Uuid}
    (h : s.catalog.assertCategoryInBusiness businessId categoryId = .ok ())
    : ∃ c ∈ s.categories, c.id = categoryId ∧ c.businessId = businessId ∧ c.deletedAt = none := by
  unfold Database.assertCategoryInBusiness at h
  dsimp only at h
  split at h
  next hin =>
    obtain ⟨_, hmem, hprop⟩ := List.any_eq_true.mp hin
    obtain ⟨c, hc, rfl⟩ := List.mem_map.mp hmem
    simp only [decide_eq_true_eq, Option.isNone_iff_eq_none] at hprop
    exact ⟨c, hc, hprop⟩
  next => cases h

theorem Field.required_eq_ok {α : Type} {field : Field α} {a : Option α}
    (h : field.required = .ok a) : a = field.join := by
  unfold Field.required at h
  split at h <;> cases h <;> rfl

theorem create_row {businessId productId : Uuid} {dto : CreateProductDto} {variantIds : Nat → Uuid}
    {r : ProductResponse} (h : create ownerId businessId dto productId variantIds db = .ok (r, db'))
    : ∃ row, Created ownerId businessId dto productId variantIds db db' row ∧
        db.assertCategoryInBusiness businessId row.categoryId = .ok () := by
  unfold create at h
  simp only [Checks.bind_eq_ok] at h
  obtain ⟨_, _, _, hcategory, _, hadmitted, soldBy, _, threshold, _, stock, _, expiry, _, active, _,
    db₁, hwrite, h⟩ := h
  cases h
  refine ⟨_, ⟨rfl, rfl, ?_, hwrite⟩, hcategory⟩
  unfold carried
  rw [List.map_map, List.map_map]
  exact hadmitted

theorem data_columns {dto : UpdateProductDto} {data : ProductUpdate} (h : dto.data = .ok data)
    : data.categoryId = dto.categoryId.join ∧ data.active = dto.active.join ∧
        data.trackStock = dto.trackStock.join := by
  unfold UpdateProductDto.data at h
  simp only [Checks.bind_eq_ok] at h
  obtain ⟨categoryId, hcategory, name, _, price, _, soldBy, _, threshold, _, stock, hstock, expiry, _,
    active, hactive, h⟩ := h
  cases h
  exact ⟨Field.required_eq_ok hcategory, Field.required_eq_ok hactive, Field.required_eq_ok hstock⟩

theorem update_row {id : Uuid} {dto : UpdateProductDto} {variantIds : Nat → Uuid} {now : DateTime}
    {r : ProductResponse} (h : update ownerId id dto variantIds now db = .ok (r, db'))
    : db' = db ∨ ∃ current data variantWrites, db.loadOwned ownerId id = .ok current ∧
        Updated id dto variantIds now db db' current data variantWrites ∧ dto.data = .ok data ∧
        ∀ categoryId, data.categoryId = some categoryId →
          db.assertCategoryInBusiness current.businessId categoryId = .ok () := by
  unfold update at h
  simp only [Checks.bind_eq_ok] at h
  obtain ⟨current, hcurrent, category, hcategory, _, hassert, _, hadmitted, variantWrites, hvariants,
    data, hdata, h⟩ := h
  obtain ⟨hsku, hbarcode⟩ := UpdateProductDto.data_eq_ok hdata
  split at h
  . cases h
    exact .inl rfl
  . simp only [Checks.bind_eq_ok] at h
    obtain ⟨db₁, hwrite, _, _, h⟩ := h
    cases h
    right
    refine ⟨current, data, variantWrites, hcurrent, ⟨?_, hvariants, hwrite⟩, hdata, ?_⟩
    . unfold carried Product.identifier ProductUpdate.apply VariantData.identifier
      dsimp only
      rw [hsku, hbarcode]
      exact hadmitted
    . intro categoryId hset
      rw [(data_columns hdata).1, ← Field.required_eq_ok hcategory] at hset
      rw [hset] at hassert
      exact hassert

theorem submittedData_ne_none {submitted : List VariantInputDto} {id : Uuid}
    (h : id ∈ submittedIds submitted) : submittedData submitted id ≠ none := by
  intro hnone
  rw [← map_fst_toUpdate] at h
  obtain ⟨c, hc, hid⟩ := List.mem_map.mp h
  exact Table.get_eq_none.mp (Option.map_eq_none_iff.mp hnone) c hc hid

theorem liveVariants_kept {id v : Uuid} {dto : UpdateProductDto} {variantIds : Nat → Uuid}
    {now : DateTime} {current : Product} {data : ProductUpdate} {variantWrites : List Write}
    (h : Updated id dto variantIds now db db' current data variantWrites) (hdb : db.UniqueIds)
    (hv : v ∈ (db.liveVariants id).map ProductVariant.id) (hkeeps : KeepsVariant dto v)
    : v ∈ (db'.liveVariants id).map ProductVariant.id := by
  obtain ⟨heq, hids⟩ := Database.write_eq_ok h.written hdb
  rw [List.foldl_cons] at heq
  have hvariants := h.variants
  unfold UpdateProductDto.variantWrites at hvariants
  split at hvariants
  next =>
    cases hvariants
    have hsame : db'.variants = db.variants := by
      rw [heq]
      rfl
    rwa [liveVariants_eq, hsame]
  next => cases hvariants
  next submitted hdto =>
    have hbefore : ((Write.updateProduct id data).apply db).variants = db.variants := rfl
    obtain ⟨hafter, _, _⟩ := variants_of_writes hvariants hbefore heq hids hdb
    obtain ⟨hsubmitted, _, _⟩ := buildVariantReplaceSet_eq_ok hvariants
    obtain ⟨row, hrow, rfl⟩ := List.mem_map.mp hv
    have hlive : liveOf id row := (List.mem_filter.mp hrow).2
    have hnodup : ((db.liveVariants id).map ProductVariant.id).Nodup :=
      hdb.variants.sublist (List.filter_sublist.map _)
    have hchanged := @changed_live now _ _ _ _ hnodup hsubmitted hrow hlive
    have hnamed : row.id ∈ submittedIds submitted := by
      apply hkeeps
      rw [hdto]
      rfl
    rw [liveVariants_eq, hafter]
    apply List.mem_map.mpr
    refine ⟨changed (changes now (db.liveVariants id) submitted) row, ?_, changed_id _ row⟩
    apply List.mem_filter.mpr
    constructor
    . exact List.mem_map_of_mem (List.mem_append_left _ (List.mem_filter.mp hrow).1)
    . cases hkept : liveOf id (changed (changes now (db.liveVariants id) submitted) row) with
      | true => rfl
      | false =>
        rw [hkept] at hchanged
        exact absurd hchanged.symm (submittedData_ne_none hnamed)

def State.withCatalog (s : State) (db : Database) : State :=
  { s with products := db.products, variants := db.variants }

theorem create_sound {businessId productId : Uuid} {dto : CreateProductDto} {variantIds : Nat → Uuid}
    {r : ProductResponse} (hs : s.Sound)
    (h : create ownerId businessId dto productId variantIds s.catalog = .ok (r, db'))
    : (s.withCatalog db').Sound := by
  obtain ⟨row, hrow, hcategory⟩ := create_row h
  obtain ⟨hproducts, hvariants, hids⟩ := hrow.tables hs.ids
  have hfresh := hrow.fresh hs.ids
  have hmem : ∀ {p}, p ∈ db'.products → p ∈ s.products ∨ p = row := by
    intro p hp
    rw [hproducts, List.mem_append, List.mem_singleton] at hp
    exact hp
  have hold : ∀ {r : BranchStock} {p}, r ∈ s.branchStock → p ∈ db'.products → p.id = r.productId →
      p ∈ s.products := by
    intro r p hr hp hid
    rcases hmem hp with hp | rfl
    . exact hp
    . rw [← hrow.id, hid] at hfresh
      exact absurd (hs.products r hr) hfresh
  constructor
  . exact ⟨hids.products, hids.variants⟩
  . exact hs.branchIds
  . intro p hp hlive hactive
    rcases hmem hp with hp | rfl
    . exact hs.categories p hp hlive hactive
    . rw [hrow.business]
      exact assertCategoryInBusiness_eq_ok hcategory
  . intro r hr
    have hin := hs.products r hr
    simp only [State.withCatalog, hproducts, List.map_append, List.mem_append]
    exact .inl hin
  . intro r hr hlive p hp hid htrack
    obtain ⟨hplive, hactive, hvariant⟩ := hs.stock r hr hlive p (hold hr hp hid) hid htrack
    refine ⟨hplive, hactive, ?_⟩
    intro id hidv
    obtain ⟨v, hv, hvid⟩ := List.mem_map.mp (hvariant id hidv)
    rw [State.mem_liveVariants] at hv
    apply List.mem_map.mpr
    refine ⟨v, ?_, hvid⟩
    rw [State.mem_liveVariants]
    refine ⟨?_, hv.2⟩
    simp only [State.withCatalog, hvariants, List.mem_append]
    exact .inl hv.1
  . intro r hr b hb hbid p hp hid
    exact hs.branches r hr b hb hbid p (hold hr hp hid) hid

theorem State.Sound.modify {id : Uuid} {f : Product → Product} (hs : s.Sound)
    (hids : db'.UniqueIds) (hproducts : db'.products = Table.modify Product.id s.products id f)
    (hf : ∀ p, (f p).id = p.id ∧ (f p).businessId = p.businessId)
    (hothers : ∀ productId ≠ id, db'.liveVariants productId = s.liveVariants productId)
    (hcategory : ∀ p ∈ s.products, p.id = id → (f p).deletedAt = none → (f p).active →
      ∃ c ∈ s.categories, c.id = (f p).categoryId ∧ c.businessId = p.businessId ∧ c.deletedAt = none)
    (hstock : ∀ r ∈ s.branchStock, r.deletedAt = none → ∀ p ∈ s.products, p.id = id →
      r.productId = id → (f p).trackStock → (f p).deletedAt = none ∧ (f p).active ∧
        ∀ v ∈ r.variantId, v ∈ (db'.liveVariants id).map ProductVariant.id)
    : (s.withCatalog db').Sound := by
  have hmem : ∀ {p}, p ∈ db'.products →
      (p.id ≠ id ∧ p ∈ s.products) ∨ ∃ q ∈ s.products, q.id = id ∧ p = f q := by
    intro p hp
    rw [hproducts] at hp
    exact Table.mem_modify hp
  have hlive : ∀ productId, (s.withCatalog db').liveVariants productId
      = db'.liveVariants productId := fun _ => rfl
  constructor
  . exact ⟨hids.products, hids.variants⟩
  . exact hs.branchIds
  . intro p hp hplive hactive
    rcases hmem hp with ⟨_, hp⟩ | ⟨q, hq, hqid, rfl⟩
    . exact hs.categories p hp hplive hactive
    . rw [(hf q).2]
      exact hcategory q hq hqid hplive hactive
  . intro r hr
    have hin := hs.products r hr
    have hsame : db'.products.map Product.id = s.products.map Product.id := by
      rw [hproducts]
      exact Table.map_modify fun p => (hf p).1
    simp only [State.withCatalog, hsame]
    exact hin
  . intro r hr hrlive p hp hpid htrack
    rw [hlive]
    rcases hmem hp with ⟨hne, hp⟩ | ⟨q, hq, hqid, rfl⟩
    . rw [hothers p.id hne]
      exact hs.stock r hr hrlive p hp hpid htrack
    . have hfid : (f q).id = id := (hf q).1.trans hqid
      rw [hfid] at hpid ⊢
      exact hstock r hr hrlive q hq hqid hpid.symm htrack
  . intro r hr b hb hbid p hp hpid
    rcases hmem hp with ⟨_, hp⟩ | ⟨q, hq, _, rfl⟩
    . exact hs.branches r hr b hb hbid p hp hpid
    . rw [(hf q).1] at hpid
      rw [(hf q).2]
      exact hs.branches r hr b hb hbid q hq hpid

theorem loadOwned_unique {id : Uuid} {current p : Product} (hdb : db.UniqueIds)
    (h : db.loadOwned ownerId id = .ok current) (hp : p ∈ db.products) (hid : p.id = id)
    : p = current := by
  obtain ⟨hmem, hcurrent⟩ := loadOwned_eq_ok h
  exact List.inj_on_of_nodup_map hdb.products hp hmem (hid.trans hcurrent.symm)

theorem update_sound {id : Uuid} {dto : UpdateProductDto} {variantIds : Nat → Uuid} {now : DateTime}
    {r : ProductResponse} (hs : s.Sound)
    (hkeeps : Keeps s (.product (.update ownerId id dto variantIds now)))
    (h : update ownerId id dto variantIds now s.catalog = .ok (r, db'))
    : (s.withCatalog db').Sound := by
  rcases update_row h with rfl | ⟨current, data, variantWrites, hcurrent, hupdated, hdata, hcategory⟩
  . exact hs
  . obtain ⟨hids, hproducts, hreplaced⟩ := hupdated.tables hs.ids
    obtain ⟨hset, hactive, htrack⟩ := data_columns hdata
    have hkept : ∀ p ∈ s.products, p.id = id → (data.apply p).deletedAt = none →
        UpdateKeeps s p dto := fun p hp hid hlive => hkeeps p hp hid hlive
    apply hs.modify hids hproducts (fun p => ⟨rfl, rfl⟩) hreplaced.others
    . intro p hp hid hlive hsold
      have hsame := loadOwned_unique hs.ids hcurrent hp hid
      unfold ProductUpdate.apply at hsold ⊢
      rw [hactive] at hsold
      dsimp only at hsold ⊢
      cases hc : data.categoryId with
      | some categoryId =>
        rw [hsame]
        exact assertCategoryInBusiness_eq_ok (hcategory categoryId hc)
      | none =>
        exact (hkept p hp hid hlive).category hsold (hset.symm.trans hc)
    . intro r hr hrlive p hp hid hrid htracked
      have hsame := loadOwned_unique hs.ids hcurrent hp hid
      have hlive : (data.apply p).deletedAt = none := by
        rw [ProductUpdate.apply_deletedAt, hsame]
        exact (loadOwned_live hcurrent).2.2.1
      unfold ProductUpdate.apply at htracked ⊢
      rw [htrack] at htracked
      obtain ⟨hsold, hvariant⟩ :=
        (hkept p hp hid hlive).stock htracked r hr hrlive (hrid.trans hid.symm)
      refine ⟨hlive, ?_, ?_⟩
      . rw [hactive]
        exact hsold
      . intro v hv
        obtain ⟨hin, hnamed⟩ := hvariant v hv
        rw [hid] at hin
        exact liveVariants_kept hupdated hs.ids hin hnamed

theorem remove_sound {id : Uuid} {now : DateTime} {r : ProductResponse} (hs : s.Sound)
    (hkeeps : Keeps s (.product (.remove ownerId id now)))
    (h : remove ownerId id now s.catalog = .ok (r, db')) : (s.withCatalog db').Sound := by
  obtain ⟨current, hcurrent⟩ : ∃ current, s.catalog.loadOwned ownerId id = .ok current := by
    unfold remove at h
    rw [Checks.bind_eq_ok] at h
    exact ⟨h.choose, h.choose_spec.1⟩
  have hunstocked : ∀ {r p}, r ∈ s.branchStock → r.deletedAt = none → p ∈ s.products → p.id = id →
      r.productId = id → ¬ p.trackStock := by
    intro r p hr hrlive hp hid hrid htrack
    have hlive : p.deletedAt = none := by
      rw [loadOwned_unique hs.ids hcurrent hp hid]
      exact (loadOwned_live hcurrent).2.2.1
    exact hkeeps p hp hid hlive htrack r hr hrlive hrid
  rcases remove_eq_ok h with hwrite | hwrite
  . obtain ⟨heq, hids⟩ := Database.write_eq_ok hwrite hs.ids
    have hproducts : db'.products = Table.modify Product.id s.products id
        (ProductUpdate.apply { active := some false }) := by
      rw [heq]
      rfl
    apply hs.modify hids hproducts fun p => ⟨rfl, rfl⟩
    . intro productId _
      rw [heq]
      rfl
    . intro p _ _ _ hactive
      contradiction
    . intro r hr hrlive p hp hid hrid htrack
      have hnot : ¬ p.trackStock := hunstocked hr hrlive hp hid hrid
      exact absurd htrack hnot
  . obtain ⟨heq, hids⟩ := Database.write_eq_ok hwrite hs.ids
    have hproducts : db'.products = Table.modify Product.id s.products id
        fun p => { p with deletedAt := some now } := by
      rw [heq]
      rfl
    apply hs.modify hids hproducts fun p => ⟨rfl, rfl⟩
    . intro productId _
      rw [heq]
      rfl
    . intro p _ _ hlive _
      contradiction
    . intro r hr hrlive p hp hid hrid htrack
      have hnot : ¬ p.trackStock := hunstocked hr hrlive hp hid hrid
      exact absurd htrack hnot

end Products

/-! Stock. -/

section Stock

variable {s s' : State} {ownerId : Uuid}

structure Stockable (s : State) (key : StockKey) : Prop where
  product : key.productId ∈ s.products.map Product.id
  sold : ∀ p ∈ s.products, p.id = key.productId → p.trackStock → p.deletedAt = none ∧ p.active ∧
    ∀ id ∈ key.variantId, id ∈ (s.liveVariants p.id).map ProductVariant.id
  branch : ∀ b ∈ s.branches, b.id = key.branchId → ∀ p ∈ s.products, p.id = key.productId →
    p.businessId = b.businessId

theorem writeLevel_sound {key : StockKey} {qty : ℤ} {newId : Uuid} (hs : s.Sound)
    (hkey : Stockable s key) (h : writeLevel key qty newId s = .ok s') : s'.Sound := by
  unfold writeLevel at h
  rw [Checks.bind_eq_ok] at h
  obtain ⟨_, _, h⟩ := h
  -- A row is one there was, with another quantity, or that of the key.
  have hrows : s' = { s with branchStock := s'.branchStock } ∧ ∀ r ∈ s'.branchStock,
      (∃ r' ∈ s.branchStock, r.toStockKey = r'.toStockKey ∧ r.deletedAt = r'.deletedAt)
        ∨ r.toStockKey = key := by
    split at h
    next existing _ =>
      cases h
      refine ⟨rfl, ?_⟩
      intro r hr
      rcases Table.mem_modify hr with ⟨_, hr⟩ | ⟨r', hr', _, rfl⟩
      . exact .inl ⟨r, hr, rfl, rfl⟩
      . exact .inl ⟨r', hr', rfl, rfl⟩
    next =>
      cases h
      refine ⟨rfl, ?_⟩
      intro r hr
      rcases List.mem_append.mp hr with hr | hr
      . exact .inl ⟨r, hr, rfl, rfl⟩
      . rw [List.mem_singleton.mp hr]
        exact .inr rfl
  obtain ⟨heq, hrows⟩ := hrows
  rw [heq]
  constructor
  . exact ⟨hs.ids.products, hs.ids.variants⟩
  . exact hs.branchIds
  . exact hs.categories
  . intro r hr
    rcases hrows r hr with ⟨r', hr', hkey', _⟩ | hkey'
    . rw [hkey']
      exact hs.products r' hr'
    . rw [hkey']
      exact hkey.product
  . intro r hr hlive p hp hid htrack
    rcases hrows r hr with ⟨r', hr', hkey', hdeleted⟩ | hkey'
    . rw [hkey'] at hid ⊢
      exact hs.stock r' hr' (hdeleted.symm.trans hlive) p hp hid htrack
    . rw [hkey'] at hid ⊢
      exact hkey.sold p hp hid htrack
  . intro r hr b hb hbid p hp hid
    rcases hrows r hr with ⟨r', hr', hkey', _⟩ | hkey'
    . rw [hkey'] at hid hbid
      exact hs.branches r' hr' b hb hbid p hp hid
    . rw [hkey'] at hid hbid
      exact hkey.branch b hb hbid p hp hid

theorem assertBranch_eq_ok {branchId : Uuid} {branch : Branch}
    (h : assertBranch ownerId branchId s = .ok branch)
    : branch ∈ s.branches ∧ branch.id = branchId := by
  unfold assertBranch at h
  dsimp only at h
  split at h
  next => cases h
  next hfound =>
    cases h
    have hprop := List.find?_some hfound
    simp only [decide_eq_true_eq] at hprop
    exact ⟨List.mem_of_find?_eq_some hfound, hprop.1⟩

theorem loadProduct_eq_ok {businessId productId : Uuid} {p : Product}
    (h : loadProduct ownerId businessId productId s = .ok p)
    : p ∈ s.products ∧ p.id = productId ∧ p.businessId = businessId ∧ p.deletedAt = none := by
  unfold loadProduct at h
  dsimp only at h
  split at h
  next => cases h
  next hfound =>
    cases h
    have hprop := List.find?_some hfound
    simp only [decide_eq_true_eq, Option.isNone_iff_eq_none] at hprop
    exact ⟨List.mem_of_find?_eq_some hfound, hprop.1, hprop.2.1, hprop.2.2.2⟩

theorem assertVariantIntegrity_eq_ok {variants : List ProductVariant} {variantId : Option Uuid}
    (h : assertVariantIntegrity variants variantId = .ok ())
    : ∀ id ∈ variantId, id ∈ variants.map ProductVariant.id := by
  intro id hid
  rw [Option.mem_def] at hid
  subst hid
  unfold assertVariantIntegrity at h
  split at h
  . dsimp only at h
    split at h
    next hany =>
      obtain ⟨v, hv, heq⟩ := List.any_eq_true.mp hany
      exact List.mem_map.mpr ⟨v, hv, by simpa using heq⟩
    next => cases h
  . contradiction

theorem stockable_of_checks {key : StockKey} {branch : Branch} {p : Product} (hs : s.Sound)
    (hbranch : branch ∈ s.branches) (hbranchId : branch.id = key.branchId)
    (hload : loadProduct ownerId branch.businessId key.productId s = .ok p)
    (hvariant : assertVariantIntegrity (s.liveVariants p.id) key.variantId = .ok ())
    (hsells : s.Sells key.productId) : Stockable s key := by
  obtain ⟨hp, hid, hbusiness, hlive⟩ := loadProduct_eq_ok hload
  have hunique : ∀ q ∈ s.products, q.id = key.productId → q = p := by
    intro q hq hqid
    exact List.inj_on_of_nodup_map hs.ids.products hq hp (hqid.trans hid.symm)
  constructor
  . rw [← hid]
    exact List.mem_map_of_mem hp
  . intro q hq hqid htrack
    have hactive := hsells q hq hqid htrack
    have hqp := hunique q hq hqid
    subst hqp
    exact ⟨hlive, hactive, assertVariantIntegrity_eq_ok hvariant⟩
  . intro b hb hbid q hq hqid
    have hbranches := List.inj_on_of_nodup_map hs.branchIds hb hbranch (hbid.trans hbranchId.symm)
    rw [hunique q hq hqid, hbranches, hbusiness]

theorem State.Sound.map_rows {f : Product → Product} {g : ProductVariant → ProductVariant}
    (hs : s.Sound)
    (hf : ∀ p, (f p).id = p.id ∧ (f p).businessId = p.businessId ∧ (f p).categoryId = p.categoryId ∧
      (f p).active = p.active ∧ (f p).trackStock = p.trackStock ∧ (f p).deletedAt = p.deletedAt)
    (hg : ∀ v, (g v).id = v.id ∧ (g v).productId = v.productId ∧ (g v).deletedAt = v.deletedAt)
    : ({ s with products := s.products.map f, variants := s.variants.map g } : State).Sound := by
  have hproducts : (s.products.map f).map Product.id = s.products.map Product.id := by
    rw [List.map_map]
    exact List.map_congr_left fun p _ => (hf p).1
  have hvariants : (s.variants.map g).map ProductVariant.id = s.variants.map ProductVariant.id := by
    rw [List.map_map]
    exact List.map_congr_left fun v _ => (hg v).1
  constructor
  . constructor
    . have hnodup := hs.ids.products
      simp only [State.catalog] at hnodup ⊢
      rwa [hproducts]
    . have hnodup := hs.ids.variants
      simp only [State.catalog] at hnodup ⊢
      rwa [hvariants]
  . exact hs.branchIds
  . intro p hp
    obtain ⟨q, hq, rfl⟩ := List.mem_map.mp hp
    obtain ⟨_, hbusiness, hcategory, hactive, _, hdeleted⟩ := hf q
    rw [hbusiness, hcategory, hactive, hdeleted]
    exact hs.categories q hq
  . intro r hr
    simp only [hproducts]
    exact hs.products r hr
  . intro r hr hlive p hp
    obtain ⟨q, hq, rfl⟩ := List.mem_map.mp hp
    obtain ⟨hid, _, _, hactive, htrack, hdeleted⟩ := hf q
    rw [hid, htrack, hactive, hdeleted]
    intro hqid htracked
    obtain ⟨hqlive, hqactive, hvariant⟩ := hs.stock r hr hlive q hq hqid htracked
    refine ⟨hqlive, hqactive, ?_⟩
    intro id hidv
    obtain ⟨v, hv, hvid⟩ := List.mem_map.mp (hvariant id hidv)
    rw [State.mem_liveVariants] at hv
    obtain ⟨hgid, hgproduct, hgdeleted⟩ := hg v
    apply List.mem_map.mpr
    refine ⟨g v, ?_, hgid.trans hvid⟩
    rw [State.mem_liveVariants]
    exact ⟨List.mem_map_of_mem hv.1, hgproduct.trans hv.2.1, hgdeleted.trans hv.2.2⟩
  . intro r hr b hb hbid p hp
    obtain ⟨q, hq, rfl⟩ := List.mem_map.mp hp
    rw [(hf q).1, (hf q).2.1]
    exact hs.branches r hr b hb hbid q hq

theorem applyCost_sound {line : ReceiveLineDto} (hs : s.Sound) : (applyCost line s).Sound := by
  unfold applyCost
  split
  next cost variantId _ _ =>
    have h := hs.map_rows (f := fun p => p)
      (g := fun v => if v.id = variantId then { v with cost := some cost } else v)
      (fun p => ⟨rfl, rfl, rfl, rfl, rfl, rfl⟩) fun v => by split <;> exact ⟨rfl, rfl, rfl⟩
    rwa [List.map_id'] at h
  next cost _ _ =>
    have h := hs.map_rows (f := fun p => if p.id = line.productId then { p with cost := some cost } else p)
      (g := fun v => v) (fun p => by split <;> exact ⟨rfl, rfl, rfl, rfl, rfl, rfl⟩)
      fun v => ⟨rfl, rfl, rfl⟩
    rwa [List.map_id'] at h
  next => exact hs

theorem writeLevel_others {key : StockKey} {qty : ℤ} {newId : Uuid}
    (h : writeLevel key qty newId s = .ok s')
    : s'.branches = s.branches ∧ s'.products = s.products := by
  unfold writeLevel at h
  rw [Checks.bind_eq_ok] at h
  obtain ⟨_, _, h⟩ := h
  split at h <;> cases h <;> exact ⟨rfl, rfl⟩

theorem applyCost_others {line : ReceiveLineDto}
    : (applyCost line s).branches = s.branches ∧
        ∀ productId, s.Sells productId → (applyCost line s).Sells productId := by
  unfold applyCost
  split
  next => exact ⟨rfl, fun _ h => h⟩
  next =>
    refine ⟨rfl, ?_⟩
    intro productId hsells p hp hid htrack
    rcases Table.mem_modify hp with ⟨_, hp⟩ | ⟨q, hq, _, rfl⟩
    . exact hsells p hp hid htrack
    . exact hsells q hq hid htrack
  next => exact ⟨rfl, fun _ h => h⟩

theorem receiveLine_sound {branch : Branch} {line : ReceiveLineDto} {newId : Uuid} (hs : s.Sound)
    (hbranch : branch ∈ s.branches) (hsells : s.Sells line.productId)
    (h : receiveLine ownerId branch line newId s = .ok s')
    : s'.Sound ∧ s'.branches = s.branches ∧
        ∀ productId, s.Sells productId → s'.Sells productId := by
  unfold receiveLine at h
  simp only [Checks.bind_eq_ok] at h
  obtain ⟨product, hload, _, hvariant, h⟩ := h
  split at h
  . cases h
  . simp only [Checks.bind_eq_ok] at h
    obtain ⟨s₁, hlevel, h⟩ := h
    split at h
    . cases h
    . cases h
      have hkey : Stockable s (line.key branch.id) :=
        stockable_of_checks hs hbranch rfl hload hvariant hsells
      obtain ⟨hbranches, hproducts⟩ := writeLevel_others hlevel
      obtain ⟨hbranches', hsells'⟩ := @applyCost_others s₁ line
      refine ⟨applyCost_sound (writeLevel_sound hs hkey hlevel), hbranches'.trans hbranches, ?_⟩
      intro productId hsold
      apply hsells'
      unfold State.Sells
      rw [hproducts]
      exact hsold

theorem receiveLines_sound {branch : Branch} {lines : List (ReceiveLineDto × Nat)}
    {newIds : Nat → Uuid} (hs : s.Sound) (hbranch : branch ∈ s.branches)
    (hsells : ∀ line ∈ lines, s.Sells line.1.productId)
    (h : lines.foldlM (fun s (line, i) => receiveLine ownerId branch line (newIds i) s) s = .ok s')
    : s'.Sound := by
  -- A line leaves the branches, and what the later lines sell.
  induction lines generalizing s with
  | nil =>
    cases h
    exact hs
  | cons line lines ih =>
    rw [List.foldlM_cons, Checks.bind_eq_ok] at h
    obtain ⟨s₁, hline, h⟩ := h
    obtain ⟨hs₁, hbranches, hkept⟩ :=
      receiveLine_sound hs hbranch (hsells line List.mem_cons_self) hline
    apply ih hs₁ (hbranches ▸ hbranch) ?_ h
    intro l hl
    exact hkept _ (hsells l (List.mem_cons_of_mem _ hl))

theorem receive_sound {branchId : Uuid} {dto : ReceiveDto} {newIds : Nat → Uuid} (hs : s.Sound)
    (hkeeps : Keeps s (.receive ownerId branchId dto newIds))
    (h : receive ownerId branchId dto newIds s = .ok s') : s'.Sound := by
  unfold receive at h
  split at h
  . cases h
  . rw [Checks.bind_eq_ok] at h
    obtain ⟨branch, hbranch, h⟩ := h
    apply receiveLines_sound hs (assertBranch_eq_ok hbranch).1 ?_ h
    intro line hline
    exact hkeeps line.1 (List.fst_mem_of_mem_zipIdx hline)

theorem adjust_sound {branchId newId : Uuid} {dto : AdjustStockDto} (hs : s.Sound)
    (hkeeps : Keeps s (.adjust ownerId branchId dto newId))
    (h : adjust ownerId branchId dto newId s = .ok s') : s'.Sound := by
  unfold adjust at h
  simp only [Checks.bind_eq_ok] at h
  obtain ⟨branch, hbranch, product, hload, _, hvariant, h⟩ := h
  apply writeLevel_sound hs ?_ h
  exact stockable_of_checks hs (assertBranch_eq_ok hbranch).1 rfl hload hvariant hkeeps

end Stock

/-! Runs of the portal. -/

theorem Operation.step_sound {s : State} {op : Operation} (hs : s.Sound) (hkeeps : Keeps s op)
    : (op.step s).Sound := by
  unfold Operation.step
  split
  next s' h =>
    cases op with
    | createCategory ownerId businessId dto newId =>
      obtain ⟨⟨c, _⟩, hcall, rfl⟩ := Checks.map_eq_ok.mp h
      exact createCategory_sound hs hcall
    | updateCategory ownerId id dto =>
      obtain ⟨⟨c, _⟩, hcall, rfl⟩ := Checks.map_eq_ok.mp h
      exact updateCategory_sound hs hcall
    | removeCategory ownerId id now =>
      obtain ⟨⟨c, _⟩, hcall, rfl⟩ := Checks.map_eq_ok.mp h
      exact removeCategory_sound hs hkeeps hcall
    | product req =>
      obtain ⟨⟨r, db'⟩, hcall, rfl⟩ := Checks.map_eq_ok.mp h
      cases req with
      | create ownerId businessId dto productId variantIds => exact create_sound hs hcall
      | update ownerId id dto variantIds now => exact update_sound hs hkeeps hcall
      | remove ownerId id now => exact remove_sound hs hkeeps hcall
    | receive ownerId branchId dto newIds => exact receive_sound hs hkeeps h
    | adjust ownerId branchId dto newId => exact adjust_sound hs hkeeps h
  next => exact hs

/--
The states that runs of the portal lead to when all their calls that succeed are allowed ones. Calls on
other tables may come in between: a branch with stock keeps its business.
-/
inductive Run (Allowed : State → Operation → Prop) : State → Prop where
  | start {s : State} (hproducts : s.products = []) (hvariants : s.variants = [])
      (hstock : s.branchStock = []) (hbranches : (s.branches.map Branch.id).Nodup) : Run Allowed s
  | call {s : State} (op : Operation) (h : Run Allowed s)
      (hallowed : (∃ s', op.call s = .ok s') → Allowed s op) : Run Allowed (op.step s)
  | elsewhere {s s' : State} (h : Run Allowed s) (hcategories : s'.categories = s.categories)
      (hproducts : s'.products = s.products) (hvariants : s'.variants = s.variants)
      (hstock : s'.branchStock = s.branchStock) (hbranches : (s'.branches.map Branch.id).Nodup)
      (hbusiness : ∀ r ∈ s.branchStock, ∀ b' ∈ s'.branches, b'.id = r.branchId →
        ∃ b ∈ s.branches, b.id = b'.id ∧ b.businessId = b'.businessId) : Run Allowed s'

theorem Run.sound {s : State} (h : Run Keeps s) : s.Sound := by
  -- A call that fails leaves the state as it is.
  induction h with
  | start hproducts hvariants hstock hbranches =>
    constructor
    . constructor <;> simp [State.catalog, hproducts, hvariants]
    . exact hbranches
    . simp [hproducts]
    . simp [hstock]
    . simp [hstock]
    . simp [hstock]
  | @call s op _ hallowed ih =>
    cases hcall : op.call s with
    | ok s' => exact op.step_sound ih (hallowed ⟨s', hcall⟩)
    | error e =>
      unfold Operation.step
      rw [hcall]
      exact ih
  | @elsewhere s s' _ hcategories hproducts hvariants hstock hbranches hbusiness ih =>
    have hlive : ∀ productId, s'.liveVariants productId = s.liveVariants productId := by
      intro productId
      unfold State.liveVariants Database.liveVariants State.catalog
      rw [hvariants]
    constructor
    . constructor
      . have hnodup := ih.ids.products
        simp only [State.catalog] at hnodup ⊢
        rwa [hproducts]
      . have hnodup := ih.ids.variants
        simp only [State.catalog] at hnodup ⊢
        rwa [hvariants]
    . exact hbranches
    . rw [hproducts, hcategories]
      exact ih.categories
    . rw [hstock, hproducts]
      exact ih.products
    . rw [hstock, hproducts]
      intro r hr hrlive p hp hid htrack
      rw [hlive]
      exact ih.stock r hr hrlive p hp hid htrack
    . rw [hstock, hproducts]
      intro r hr b' hb' hid p hp hpid
      obtain ⟨b, hb, hbid, hbbusiness⟩ := hbusiness r hr b' hb' hid
      rw [← hbbusiness]
      exact ih.branches r hr b hb (hbid.trans hid) p hp hpid

/--
In a run in which no category is archived under a product that is sold, and no product or variant is
taken off sale, or tracked again, while it has stock, every payload refers to nothing outside of it.
-/
theorem pull_closed_of_keeps {s : State} (h : Run Keeps s) {terminalId : Uuid} {ctx : TerminalContext}
    (hctx : s.terminalContext terminalId = some ctx) {payload : CatalogPayload}
    (hpull : pull ctx s = .ok payload) : payload.Closed :=
  h.sound.pull_closed hctx hpull

namespace Stall

/-- A business with a branch and its terminal, and nothing to sell. -/
def opened : State where
  businesses := [{ id := 1, ownerId := 10, deletedAt := none }]
  branches :=
    [{ id := 2, businessId := 1, name := "Main", code := "MN", address := "", deletedAt := none }]
  terminals := [{ id := 3, branchId := 2, name := "Front", code := "T1", deletedAt := none }]
  categories := []
  products := []
  variants := []
  modifierGroups := []
  modifiers := []
  productModifierGroups := []
  discounts := []
  branchStock := []
  saleItems := []

def bread : CreateProductDto where
  categoryId := 4
  name := "Bread"
  sku := none
  barcode := none
  priceC := 500
  costC := none
  soldBy := none
  lowStockThreshold := none
  trackStock := none
  trackExpiry := none
  active := none
  imagePath := none
  variants := none

theorem loaves_pos : 0 < (⟨2000⟩ : Qty).milli := by decide

theorem loaves_le : (⟨2000⟩ : Qty).milli ≤ MAX_QTY := by decide

theorem noCost_nonneg : ∀ c ∈ (none : Option ℤ), 0 ≤ c := by simp

theorem noCost_le : ∀ c ∈ (none : Option ℤ), c ≤ MAX_CENTAVOS := by simp

def delivery : ReceiveDto where
  lines := [{
    productId := 5
    variantId := none
    qty := ⟨2000⟩
    unitCostC := none
    expiryDate := none
    qty_pos := loaves_pos
    qty_le := loaves_le
    unitCostC_nonneg := noCost_nonneg
    unitCostC_le := noCost_le
  }]
  lines_ne := by simp
  lines_length := by simp

/-- A product in a category, with stock. -/
def stocked : State :=
  let s := (Operation.createCategory 10 1 { name := "Bakery", sortOrder := none } 4).step opened
  let s := (Operation.product (.create 10 1 bread 5 (· + 100))).step s
  (Operation.receive 10 2 delivery (· + 200)).step s

def archived : State :=
  (Operation.removeCategory 10 4 50).step stocked

def ctx : TerminalContext :=
  { ownerId := 10, businessId := 1, branchId := 2, terminalId := 3, terminalCode := some "T1" }

def payload (categories : List CatalogCategory) : CatalogPayload where
  branch := { id := 2, name := "Main", code := "MN", address := "" }
  terminal := ("Front", "T1")
  categories
  products := [{
    id := 5
    categoryId := 4
    name := "Bread"
    sku := none
    barcode := none
    priceC := 500
    soldBy := .unit
    lowStockThreshold := none
    trackStock := true
    active := true
    variants := []
    modifierGroupIds := []
  }]
  modifierGroups := []
  discounts := []
  stock := [{ productId := 5, variantId := none, qty := 2000 }]

theorem opened_run {Allowed : State → Operation → Prop} : Run Allowed opened :=
  .start rfl rfl rfl (by decide)

theorem stocked_run : Run Keeps stocked := by
  unfold stocked
  refine .call _ (.call _ (.call _ opened_run ?_) ?_) ?_
  . intro _
    trivial
  . intro _
    trivial
  . intro _ line hline
    rw [List.mem_singleton.mp hline]
    unfold State.Sells
    decide +kernel

theorem archived_run : Run (fun _ _ => True) archived := by
  unfold archived stocked
  refine .call _ (.call _ (.call _ (.call _ opened_run ?_) ?_) ?_) ?_ <;> exact fun _ => trivial

end Stall

theorem pull_closed_of_keeps_stall
    : (Stall.payload [{ id := 4, name := "Bakery", sortOrder := 0 }]).Closed := by
  have hctx : Stall.stocked.terminalContext 3 = some Stall.ctx := rfl
  apply pull_closed_of_keeps Stall.stocked_run hctx
  decide +kernel

theorem archived_category_dangles
    : ¬ ∀ s, Run (fun _ _ => True) s → ∀ terminalId ctx, s.terminalContext terminalId = some ctx →
        ∀ payload, pull ctx s = .ok payload → payload.Closed := by
  intro h
  have hpull : pull Stall.ctx Stall.archived = .ok (Stall.payload []) := by decide +kernel
  have hclosed := h Stall.archived Stall.archived_run 3 Stall.ctx rfl _ hpull
  have hin := hclosed.categories _ List.mem_cons_self
  contradiction

end SentryPos.Catalog.Pull
