import SentryPos.Catalog.ReplaceSet

/-!
This module contains the invariant of the identifiers of a business: no two of its live products and
their live variants carry the same one. The calls keep it although the database has no index over
both tables.
-/

namespace SentryPos.Catalog

theorem firstDuplicate.go_eq_none {seen values : List String}
    : go seen values = none ↔ values.Nodup ∧ ∀ v ∈ values, v ∉ seen := by
  -- `seen` are the values that have been passed.
  induction values generalizing seen with
  | nil => simp [go]
  | cons v vs ih =>
    unfold go
    split
    . next hseen => simp [hseen]
    . next hseen =>
      rw [ih, List.nodup_cons]
      constructor
      . intro h
        obtain ⟨hnodup, hnot⟩ := h
        have hv : v ∉ vs := by
          intro hv
          exact hnot v hv List.mem_cons_self
        refine ⟨⟨hv, hnodup⟩, ?_⟩
        intro w hw hin
        cases List.mem_cons.mp hw with
        | inl heq =>
          rw [heq] at hin
          exact hseen hin
        | inr hw => exact hnot w hw (List.mem_cons_of_mem v hin)
      . intro h
        obtain ⟨⟨hv, hnodup⟩, hnot⟩ := h
        refine ⟨hnodup, ?_⟩
        intro w hw hin
        cases List.mem_cons.mp hin with
        | inl heq =>
          rw [heq] at hw
          exact hv hw
        | inr hin => exact hnot w (List.mem_cons_of_mem v hw) hin

theorem firstDuplicate_eq_none {values : List String}
    : firstDuplicate values = none ↔ values.Nodup := by
  unfold firstDuplicate
  rw [firstDuplicate.go_eq_none]
  simp

theorem assertUniqueIdentifiers_eq_ok {db : Database} {businessId : Uuid}
    {excludeProductId : Option Uuid} {values : Identifier → List String}
    (h : assertUniqueIdentifiers db businessId excludeProductId (values .sku) (values .barcode)
      = .ok ()) (i : Identifier)
    : (values i).Nodup ∧
        ∀ s ∈ values i, s ∉ db.taken i (db.others businessId excludeProductId) := by
  unfold assertUniqueIdentifiers at h
  rw [Checks.bind_eq_ok] at h
  obtain ⟨_, hsku, h⟩ := h
  rw [Checks.bind_eq_ok] at h
  obtain ⟨_, hbarcode, h⟩ := h
  have hnodup : (values i).Nodup := by
    cases i with
    | sku => exact firstDuplicate_eq_none.mp (reject_eq_ok.mp hsku)
    | barcode => exact firstDuplicate_eq_none.mp (reject_eq_ok.mp hbarcode)
  refine ⟨hnodup, ?_⟩
  split at h
  . next hempty =>
    have hnil : values i = [] := by
      cases i with
      | sku => exact List.isEmpty_iff.mp hempty.1
      | barcode => exact List.isEmpty_iff.mp hempty.2
    simp [hnil]
  . dsimp only at h
    rw [Checks.bind_eq_ok] at h
    obtain ⟨_, hsku, hbarcode⟩ := h
    intro s hs hin
    cases i with
    | sku =>
      have hnot := List.find?_eq_none.mp (reject_eq_ok.mp hsku) s hs
      simp only [decide_eq_true_eq] at hnot
      exact hnot hin
    | barcode =>
      have hnot := List.find?_eq_none.mp (reject_eq_ok.mp hbarcode) s hs
      simp only [decide_eq_true_eq] at hnot
      exact hnot hin

/-- What the calls keep. -/
structure Database.Valid (db : Database) : Prop extends db.UniqueIds where
  parents : ∀ v ∈ db.variants, v.productId ∈ db.products.map Product.id
  within : ∀ i, ∀ p ∈ db.products, p.deletedAt = none → (db.identifiers i p).Nodup
  across : ∀ i, ∀ p ∈ db.products, ∀ q ∈ db.products, p.deletedAt = none → q.deletedAt = none →
    q.businessId = p.businessId → p.id ≠ q.id →
      (db.identifiers i p).Disjoint (db.identifiers i q)

/-- An edit of one product leaves the other ones, and no live one carries what it carries. -/
structure Edited (id : Uuid) (db db' : Database) : Prop where
  others : ∀ p ∈ db'.products, p.id ≠ id → p ∈ db.products
  variants : ∀ productId, productId ≠ id → db'.liveVariants productId = db.liveVariants productId
  within : ∀ i, ∀ p ∈ db'.products, p.id = id → p.deletedAt = none → (db'.identifiers i p).Nodup
  across : ∀ i, ∀ p ∈ db'.products, p.id = id → p.deletedAt = none →
    ∀ q ∈ db.products, q.deletedAt = none → q.businessId = p.businessId → q.id ≠ id →
      (db'.identifiers i p).Disjoint (db.identifiers i q)

theorem Edited.identifiers_eq {id : Uuid} {db db' : Database} (h : Edited id db db')
    (i : Identifier) {p : Product} (hp : p.id ≠ id) : db'.identifiers i p = db.identifiers i p := by
  unfold Database.identifiers
  rw [h.variants p.id hp]

theorem Edited.valid {id : Uuid} {db db' : Database} (h : Edited id db db') (hdb : db.Valid)
    (hids : db'.UniqueIds) (hparents : ∀ v ∈ db'.variants, v.productId ∈ db'.products.map Product.id)
    : db'.Valid where
  toUniqueIds := hids
  parents := hparents
  within := by
    intro i p hp hlive
    by_cases hid : p.id = id
    . exact h.within i p hp hid hlive
    . rw [h.identifiers_eq i hid]
      exact hdb.within i p (h.others p hp hid) hlive
  across := by
    intro i p hp q hq hplive hqlive hbusiness hne
    by_cases hpid : p.id = id
    . have hqid : q.id ≠ id := by
        rw [← hpid]
        exact hne.symm
      rw [h.identifiers_eq i hqid]
      exact h.across i p hp hpid hplive q (h.others q hq hqid) hqlive hbusiness hqid
    . have hpold := h.others p hp hpid
      rw [h.identifiers_eq i hpid]
      by_cases hqid : q.id = id
      . apply List.Disjoint.symm
        exact h.across i q hq hqid hqlive p hpold hplive hbusiness.symm hpid
      . rw [h.identifiers_eq i hqid]
        exact hdb.across i p hpold q (h.others q hq hqid) hplive hqlive hbusiness hne

theorem Edited.of_admitted {id : Uuid} {db db' : Database} {businessId : Uuid}
    {excludeProductId : Option Uuid} {values : Identifier → List String}
    (hadmitted : assertUniqueIdentifiers db businessId excludeProductId (values .sku)
      (values .barcode) = .ok ())
    (hexclude : excludeProductId = none ∨ excludeProductId = some id)
    (hothers : ∀ p ∈ db'.products, p.id ≠ id → p ∈ db.products)
    (hvariants : ∀ productId, productId ≠ id →
      db'.liveVariants productId = db.liveVariants productId)
    (hedited : ∀ p ∈ db'.products, p.id = id → p.businessId = businessId ∧
      ∀ i, (db'.identifiers i p).Perm (values i))
    : Edited id db db' where
  others := hothers
  variants := hvariants
  within := by
    intro i p hp hid _
    rw [((hedited p hp hid).2 i).nodup_iff]
    exact (assertUniqueIdentifiers_eq_ok hadmitted i).1
  across := by
    intro i p hp hid _ q hq hqlive hbusiness hne s hs hsq
    obtain ⟨hp_business, hperm⟩ := hedited p hp hid
    apply (assertUniqueIdentifiers_eq_ok hadmitted i).2 s ((hperm i).mem_iff.mp hs)
    unfold Database.taken
    rw [List.mem_flatMap]
    refine ⟨q, ?_, hsq⟩
    unfold Database.others Database.liveProducts
    rw [List.mem_filter, List.mem_filter]
    have hnot : some q.id ≠ excludeProductId := by
      cases hexclude with
      | inl h => simp [h]
      | inr h => simp [h, hne]
    simp [hq, hbusiness, hp_business, hqlive, hnot]

theorem collect_perm {own : Option String} {many many' : List (Option String)}
    (h : many.Perm many') : (collect own many).Perm (collect own many') := by
  unfold collect
  exact ((h.cons own).filterMap id).filter _

def carried (p : Product) (variants : List VariantData) (i : Identifier) : List String :=
  collect (p.identifier i) (variants.map (·.identifier i))

theorem identifiers_perm {db : Database} {p : Product} {variants : List VariantData}
    (h : ((db.liveVariants p.id).map ProductVariant.data).Perm variants) (i : Identifier)
    : (db.identifiers i p).Perm (carried p variants i) := by
  unfold Database.identifiers carried
  apply collect_perm
  have hmap := h.map (·.identifier i)
  rw [List.map_map] at hmap
  have heq : (fun v : ProductVariant => v.identifier i) =
      (fun d : VariantData => d.identifier i) ∘ ProductVariant.data := by
    funext v
    cases i <;> rfl
  rw [heq]
  exact hmap

theorem liveVariants_eq (db : Database) (productId : Uuid)
    : db.liveVariants productId = db.variants.filter (liveOf productId) := rfl

theorem createdVariants_live {productId : Uuid} {variantIds : Nat → Uuid}
    {variants : List VariantInputDto}
    : ∀ v ∈ createdVariants productId variantIds variants, liveOf productId v := by
  intro v hv
  unfold createdVariants at hv
  rw [List.mem_map] at hv
  obtain ⟨x, -, heq⟩ := hv
  rw [← heq]
  simp [liveOf]

theorem createdVariants_data {productId : Uuid} {variantIds : Nat → Uuid}
    {variants : List VariantInputDto}
    : (createdVariants productId variantIds variants).map ProductVariant.data =
        variants.map VariantInputDto.data := by
  unfold createdVariants
  rw [List.map_map]
  have heq : (ProductVariant.data ∘ fun x : VariantInputDto × Nat =>
      ({ id := variantIds x.2, productId, name := x.1.name, sku := x.1.sku, barcode := x.1.barcode,
         price := x.1.priceC, cost := x.1.costC, deletedAt := none } : ProductVariant)) =
      VariantInputDto.data ∘ Prod.fst := by
    funext x
    rfl
  rw [heq, ← List.map_map, List.zipIdx_map_fst]

structure Created (ownerId businessId : Uuid) (dto : CreateProductDto) (productId : Uuid)
    (variantIds : Nat → Uuid) (db db' : Database) (row : Product) : Prop where
  id : row.id = productId
  business : row.businessId = businessId
  admitted : assertUniqueIdentifiers db businessId none
    (carried row ((dto.variants.getD []).map VariantInputDto.data) .sku)
    (carried row ((dto.variants.getD []).map VariantInputDto.data) .barcode) = .ok ()
  written : db.write (.insertProduct row ::
    (createdVariants productId variantIds (dto.variants.getD [])).map .insertVariant) = .ok db'

theorem create_eq_ok {ownerId businessId productId : Uuid} {dto : CreateProductDto}
    {variantIds : Nat → Uuid} {db db' : Database} {r : ProductResponse}
    (h : create ownerId businessId dto productId variantIds db = .ok (r, db'))
    : ∃ row, Created ownerId businessId dto productId variantIds db db' row := by
  unfold create at h
  simp only [Checks.bind_eq_ok] at h
  obtain ⟨_, _, _, _, _, hadmitted, soldBy, _, threshold, _, stock, _, expiry, _, active, _, db₁,
    hwrite, h⟩ := h
  cases h
  refine ⟨_, rfl, rfl, ?_, hwrite⟩
  unfold carried
  rw [List.map_map, List.map_map]
  exact hadmitted

theorem liveVariants_append_of_ne {db db' : Database} {rows : List ProductVariant}
    {productId : Uuid} (h : db'.variants = db.variants ++ rows)
    (hrows : ∀ v ∈ rows, liveOf productId v = false)
    : db'.liveVariants productId = db.liveVariants productId := by
  have hnil : rows.filter (liveOf productId) = [] := by
    rw [List.filter_eq_nil_iff]
    intro v hv
    simp [hrows v hv]
  rw [liveVariants_eq, h, List.filter_append, hnil, List.append_nil]
  rfl

namespace Created

variable {ownerId businessId productId : Uuid} {dto : CreateProductDto} {variantIds : Nat → Uuid}
  {db db' : Database} {row : Product}

/-- The variants of a created product. -/
abbrev rows (productId : Uuid) (variantIds : Nat → Uuid) (dto : CreateProductDto)
    : List ProductVariant :=
  createdVariants productId variantIds (dto.variants.getD [])

theorem tables (h : Created ownerId businessId dto productId variantIds db db' row)
    (hdb : db.UniqueIds)
    : db'.products = db.products ++ [row] ∧
        db'.variants = db.variants ++ rows productId variantIds dto ∧ db'.UniqueIds := by
  obtain ⟨heq, hids⟩ := Database.write_eq_ok h.written hdb
  rw [List.foldl_cons, foldl_insertVariant] at heq
  refine ⟨?_, ?_, hids⟩
  . rw [heq]
    rfl
  . rw [heq]
    rfl

theorem fresh (h : Created ownerId businessId dto productId variantIds db db' row)
    (hdb : db.UniqueIds) : productId ∉ db.products.map Product.id := by
  obtain ⟨hproducts, -, hids⟩ := h.tables hdb
  have hnodup := hids.products
  rw [hproducts, List.map_append, List.nodup_append] at hnodup
  intro hin
  exact hnodup.2.2 _ hin _ (by simp) h.id.symm

theorem liveVariants (h : Created ownerId businessId dto productId variantIds db db' row)
    (hdb : db.Valid) : db'.liveVariants productId = rows productId variantIds dto := by
  obtain ⟨-, hvariants, -⟩ := h.tables hdb.toUniqueIds
  have hnone : db.variants.filter (liveOf productId) = [] := by
    rw [List.filter_eq_nil_iff]
    intro v hv hlive
    apply h.fresh hdb.toUniqueIds
    rw [← productId_of_liveOf hlive]
    exact hdb.parents v hv
  have hall : (rows productId variantIds dto).filter (liveOf productId) =
      rows productId variantIds dto := by
    rw [List.filter_eq_self]
    exact createdVariants_live
  rw [liveVariants_eq, hvariants, List.filter_append, hnone, hall, List.nil_append]

theorem edited (h : Created ownerId businessId dto productId variantIds db db' row)
    (hdb : db.Valid) : Edited productId db db' := by
  obtain ⟨hproducts, hvariants, -⟩ := h.tables hdb.toUniqueIds
  apply Edited.of_admitted h.admitted (.inl rfl)
  . intro p hp hne
    rw [hproducts, List.mem_append, List.mem_singleton] at hp
    cases hp with
    | inl hp => exact hp
    | inr hp =>
      rw [hp] at hne
      exact absurd h.id hne
  . intro id hne
    apply liveVariants_append_of_ne hvariants
    intro v hv
    exact liveOf_ne (createdVariants_live v hv) hne
  . intro p hp hid
    have hrow : p = row := by
      rw [hproducts, List.mem_append, List.mem_singleton] at hp
      cases hp with
      | inl hp =>
        exfalso
        apply h.fresh hdb.toUniqueIds
        rw [← hid]
        exact List.mem_map_of_mem hp
      | inr hp => exact hp
    rw [hrow]
    refine ⟨h.business, ?_⟩
    intro i
    apply identifiers_perm
    rw [h.id, h.liveVariants hdb, createdVariants_data]

end Created

theorem create_valid {ownerId businessId productId : Uuid} {dto : CreateProductDto}
    {variantIds : Nat → Uuid} {db db' : Database} {r : ProductResponse} (hdb : db.Valid)
    (h : create ownerId businessId dto productId variantIds db = .ok (r, db')) : db'.Valid := by
  obtain ⟨row, hrow⟩ := create_eq_ok h
  obtain ⟨hproducts, hvariants, hids⟩ := hrow.tables hdb.toUniqueIds
  apply (hrow.edited hdb).valid hdb hids
  intro v hv
  rw [hvariants, List.mem_append] at hv
  rw [hproducts, List.map_append, List.mem_append]
  cases hv with
  | inl hv => exact .inl (hdb.parents v hv)
  | inr hv =>
    right
    simp [productId_of_liveOf (createdVariants_live v hv), hrow.id]

/-- What an update of a product does that was found, when its body sets something. -/
structure Updated (id : Uuid) (dto : UpdateProductDto) (variantIds : Nat → Uuid) (now : DateTime)
    (db db' : Database) (current : Product) (data : ProductUpdate) (variantWrites : List Write)
    : Prop where
  admitted : assertUniqueIdentifiers db current.businessId (some id)
    (carried (data.apply current) (dto.finalVariants (db.liveVariants id)) .sku)
    (carried (data.apply current) (dto.finalVariants (db.liveVariants id)) .barcode) = .ok ()
  variants : dto.variantWrites id variantIds now (db.liveVariants id) = .ok variantWrites
  written : db.write (.updateProduct id data :: variantWrites) = .ok db'

theorem UpdateProductDto.data_eq_ok {dto : UpdateProductDto} {data : ProductUpdate}
    (h : dto.data = .ok data) : data.sku = dto.sku ∧ data.barcode = dto.barcode := by
  unfold UpdateProductDto.data at h
  simp only [Checks.bind_eq_ok] at h
  obtain ⟨categoryId, _, name, _, price, _, soldBy, _, threshold, _, stock, _, expiry, _, active, _,
    h⟩ := h
  cases h
  exact ⟨rfl, rfl⟩

theorem update_eq_ok {ownerId id : Uuid} {dto : UpdateProductDto} {variantIds : Nat → Uuid}
    {now : DateTime} {db db' : Database} {r : ProductResponse}
    (h : update ownerId id dto variantIds now db = .ok (r, db'))
    : dto.variants.isNone ∧ db' = db ∨
        ∃ current data variantWrites, db.loadOwned ownerId id = .ok current ∧
          Updated id dto variantIds now db db' current data variantWrites := by
  unfold update at h
  simp only [Checks.bind_eq_ok] at h
  obtain ⟨current, hcurrent, category, _, _, _, _, hadmitted, variantWrites, hvariants, data, hdata,
    h⟩ := h
  obtain ⟨hsku, hbarcode⟩ := UpdateProductDto.data_eq_ok hdata
  split at h
  . next hempty =>
    cases h
    exact .inl ⟨hempty.2, rfl⟩
  . simp only [Checks.bind_eq_ok] at h
    obtain ⟨db₁, hwrite, _, _, h⟩ := h
    cases h
    right
    refine ⟨current, data, variantWrites, hcurrent, ?_, hvariants, hwrite⟩
    unfold carried Product.identifier ProductUpdate.apply VariantData.identifier
    dsimp only
    rw [hsku, hbarcode]
    exact hadmitted

theorem remove_eq_ok {ownerId id : Uuid} {now : DateTime} {db db' : Database} {r : ProductResponse}
    (h : remove ownerId id now db = .ok (r, db'))
    : db.write [.updateProduct id { active := some false }] = .ok db' ∨
        db.write [.deleteProduct id now] = .ok db' := by
  unfold remove at h
  rw [Checks.bind_eq_ok] at h
  obtain ⟨current, _, h⟩ := h
  dsimp only at h
  split at h
  . simp only [Checks.bind_eq_ok] at h
    obtain ⟨db₁, hwrite, _, _, h⟩ := h
    cases h
    exact .inl hwrite
  . simp only [Checks.bind_eq_ok] at h
    obtain ⟨db₁, hwrite, h⟩ := h
    cases h
    exact .inr hwrite

theorem loadOwned_eq_ok {ownerId id : Uuid} {db : Database} {p : Product}
    (h : db.loadOwned ownerId id = .ok p) : p ∈ db.products ∧ p.id = id := by
  unfold Database.loadOwned at h
  dsimp only at h
  split at h
  . cases h
  next hfound =>
  cases h
  have hp := List.find?_some hfound
  simp only [decide_eq_true_eq] at hp
  exact ⟨List.mem_of_find?_eq_some hfound, hp.1⟩

structure Replaced (id : Uuid) (final : List VariantData) (db db' : Database) : Prop where
  live : ((db'.liveVariants id).map ProductVariant.data).Perm final
  others : ∀ productId, productId ≠ id → db'.liveVariants productId = db.liveVariants productId
  parents : ∀ v ∈ db'.variants, v.productId = id ∨ ∃ w ∈ db.variants, w.productId = v.productId

theorem Replaced.of_eq {id : Uuid} {db db' : Database} (h : db'.variants = db.variants)
    : Replaced id ((db.liveVariants id).map ProductVariant.data) db db' where
  live := by
    rw [liveVariants_eq, liveVariants_eq, h]
  others := by
    intro productId _
    rw [liveVariants_eq, liveVariants_eq, h]
  parents := by
    intro v hv
    rw [h] at hv
    exact .inr ⟨v, hv, rfl⟩

theorem variants_of_writes {id : Uuid} {variantIds : Nat → Uuid} {now : DateTime}
    {submitted : List VariantInputDto} {writes : List Write} {db db₁ db' : Database}
    (h : buildVariantReplaceSet id variantIds now (db.liveVariants id) submitted = .ok writes)
    (hvariants : db₁.variants = db.variants)
    (hdb' : db' = writes.foldl (fun db w => w.apply db) db₁) (hids : db'.UniqueIds)
    (hdb : db.UniqueIds)
    : db'.variants =
        (db.variants ++ createdVariants id variantIds (submitted.filter fun v => v.id.isNone)).map
          (changed (changes now (db.liveVariants id) submitted)) ∧
        ((db.variants ++
          createdVariants id variantIds (submitted.filter fun v => v.id.isNone)).map
            ProductVariant.id).Nodup ∧
        db'.products = db₁.products := by
  obtain ⟨hsubmitted, hknown, hwrites⟩ := buildVariantReplaceSet_eq_ok h
  rw [hwrites, List.foldl_append, foldl_insertVariant, foldl_updateVariant, hvariants] at hdb'
  generalize hcreated
    : createdVariants id variantIds (submitted.filter fun v => v.id.isNone) = created at hdb' ⊢
  have hkeys : ((changes now (db.liveVariants id) submitted).map Prod.fst).Nodup :=
    nodup_changes (hdb.variants.sublist (List.filter_sublist.map _)) hsubmitted
  have hafter : db'.variants =
      (db.variants ++ created).map (changed (changes now (db.liveVariants id) submitted)) := by
    rw [hdb']
    exact Table.foldl_modify (fun c v => c.2.apply_id v) hkeys
  refine ⟨hafter, ?_, by rw [hdb']⟩
  have hnodup := hids.variants
  rw [hafter, List.map_map] at hnodup
  have heq : ProductVariant.id ∘ changed (changes now (db.liveVariants id) submitted) =
      ProductVariant.id := by
    funext v
    simp
  rw [heq] at hnodup
  exact hnodup

theorem Replaced.of_changed {id : Uuid} {variantIds : Nat → Uuid} {now : DateTime}
    {submitted : List VariantInputDto} {writes : List Write} {db db₁ db' : Database}
    (h : buildVariantReplaceSet id variantIds now (db.liveVariants id) submitted = .ok writes)
    (hvariants : db₁.variants = db.variants)
    (hdb' : db' = writes.foldl (fun db w => w.apply db) db₁) (hids : db'.UniqueIds)
    (hdb : db.UniqueIds)
    : db'.products = db₁.products ∧
        Replaced id (submitted.map VariantInputDto.data) db db' := by
  obtain ⟨hafter, hrows, hproducts⟩ := variants_of_writes h hvariants hdb' hids hdb
  obtain ⟨hsubmitted, hknown, _⟩ := buildVariantReplaceSet_eq_ok h
  generalize hcreated
    : createdVariants id variantIds (submitted.filter fun v => v.id.isNone) = created
    at hafter hrows
  have hlive : ∀ v ∈ created, liveOf id v := by
    rw [← hcreated]
    exact createdVariants_live
  have hdata : created.map ProductVariant.data =
      (submitted.filter fun v => v.id.isNone).map VariantInputDto.data := by
    rw [← hcreated]
    exact createdVariants_data
  refine ⟨hproducts, ?_, ?_, ?_⟩
  . rw [liveVariants_eq, hafter]
    exact replaced_perm hrows hsubmitted hknown hlive hdata
  . intro productId hne
    rw [liveVariants_eq, hafter]
    exact replaced_others hne hrows hknown hlive
  . intro v hv
    rw [hafter, List.mem_map] at hv
    obtain ⟨w, hw, heq⟩ := hv
    rw [← heq, changed_productId]
    cases List.mem_append.mp hw with
    | inl hw => exact .inr ⟨w, hw, rfl⟩
    | inr hw => exact .inl (productId_of_liveOf (hlive w hw))

namespace Updated

variable {ownerId id : Uuid} {dto : UpdateProductDto} {variantIds : Nat → Uuid} {now : DateTime}
  {db db' : Database} {current : Product} {data : ProductUpdate} {variantWrites : List Write}

theorem tables
    (h : Updated id dto variantIds now db db' current data variantWrites) (hdb : db.UniqueIds)
    : db'.UniqueIds ∧ db'.products = Table.modify Product.id db.products id data.apply ∧
        Replaced id (dto.finalVariants (db.liveVariants id)) db db' := by
  obtain ⟨heq, hids⟩ := Database.write_eq_ok h.written hdb
  rw [List.foldl_cons] at heq
  refine ⟨hids, ?_⟩
  have hvariants := h.variants
  unfold UpdateProductDto.variantWrites at hvariants
  unfold UpdateProductDto.finalVariants
  split at hvariants
  . next hdto =>
    cases hvariants
    rw [hdto]
    refine ⟨?_, ?_⟩
    . rw [heq]
      rfl
    . apply Replaced.of_eq
      rw [heq]
      rfl
  . cases hvariants
  . next submitted hdto =>
    rw [hdto]
    have hreplaced := Replaced.of_changed hvariants (by rfl) heq hids hdb
    exact hreplaced

theorem edited (h : Updated id dto variantIds now db db' current data variantWrites)
    (hdb : db.Valid) (hcurrent : db.loadOwned ownerId id = .ok current) : Edited id db db' := by
  obtain ⟨-, hproducts, hreplaced⟩ := h.tables hdb.toUniqueIds
  obtain ⟨hmem, hid⟩ := loadOwned_eq_ok hcurrent
  apply Edited.of_admitted h.admitted (.inr rfl)
  . intro p hp hne
    rw [hproducts] at hp
    cases Table.mem_modify hp with
    | inl hp => exact hp.2
    | inr hp =>
      obtain ⟨q, _, hq, heq⟩ := hp
      rw [heq, ProductUpdate.apply_id] at hne
      exact absurd hq hne
  . exact hreplaced.others
  . intro p hp hp_id
    have hrow : p = data.apply current := by
      rw [hproducts] at hp
      cases Table.mem_modify hp with
      | inl hp => exact absurd hp_id hp.1
      | inr hp =>
        obtain ⟨q, hq, hq_id, heq⟩ := hp
        rw [heq, List.inj_on_of_nodup_map hdb.products hq hmem (hq_id.trans hid.symm)]
    rw [hrow]
    refine ⟨rfl, ?_⟩
    intro i
    apply identifiers_perm
    rw [ProductUpdate.apply_id, hid]
    exact hreplaced.live

end Updated

theorem update_valid {ownerId id : Uuid} {dto : UpdateProductDto} {variantIds : Nat → Uuid}
    {now : DateTime} {db db' : Database} {r : ProductResponse} (hdb : db.Valid)
    (h : update ownerId id dto variantIds now db = .ok (r, db')) : db'.Valid := by
  cases update_eq_ok h with
  | inl h =>
    rw [h.2]
    exact hdb
  | inr h =>
    obtain ⟨current, data, variantWrites, hcurrent, h⟩ := h
    obtain ⟨hids, hproducts, hreplaced⟩ := h.tables hdb.toUniqueIds
    obtain ⟨hmem, hid⟩ := loadOwned_eq_ok hcurrent
    have hsame : db'.products.map Product.id = db.products.map Product.id := by
      rw [hproducts, Table.map_modify]
      intro p
      rfl
    apply (h.edited hdb hcurrent).valid hdb hids
    intro v hv
    rw [hsame]
    cases hreplaced.parents v hv with
    | inl hv =>
      rw [hv, ← hid]
      exact List.mem_map_of_mem hmem
    | inr hv =>
      obtain ⟨w, hw, heq⟩ := hv
      rw [← heq]
      exact hdb.parents w hw

theorem Database.Valid.modify {db db' : Database} {id : Uuid} {f : Product → Product}
    (hdb : db.Valid) (hids : db'.UniqueIds)
    (hproducts : db'.products = Table.modify Product.id db.products id f)
    (hvariants : db'.variants = db.variants) (hid : ∀ p, (f p).id = p.id)
    (hbusiness : ∀ p, (f p).businessId = p.businessId)
    (hsame : ∀ p i, (f p).identifier i = p.identifier i)
    (hlive : ∀ p, (f p).deletedAt = none → p.deletedAt = none) : db'.Valid := by
  have hrow : ∀ p' ∈ db'.products, ∃ p ∈ db.products, p.id = p'.id ∧
      p.businessId = p'.businessId ∧ (∀ i, db.identifiers i p = db'.identifiers i p') ∧
      (p'.deletedAt = none → p.deletedAt = none) := by
    intro p' hp'
    unfold Database.identifiers Database.liveVariants
    rw [hvariants]
    rw [hproducts] at hp'
    cases Table.mem_modify hp' with
    | inl h =>
      refine ⟨p', h.2, rfl, rfl, ?_, ?_⟩
      . intro i
        rfl
      . intro hp
        exact hp
    | inr h =>
      obtain ⟨p, hp, -, heq⟩ := h
      rw [heq]
      refine ⟨p, hp, (hid p).symm, (hbusiness p).symm, ?_, hlive p⟩
      intro i
      rw [hsame, hid]
  constructor
  . exact hids
  . intro v hv
    rw [hvariants] at hv
    rw [hproducts, Table.map_modify hid]
    exact hdb.parents v hv
  . intro i p' hp' hlive'
    obtain ⟨p, hp, -, -, heq, hback⟩ := hrow p' hp'
    rw [← heq]
    exact hdb.within i p hp (hback hlive')
  . intro i p' hp' q' hq' hp_live hq_live hsame' hne
    obtain ⟨p, hp, hp_id, hp_business, hp_eq, hp_back⟩ := hrow p' hp'
    obtain ⟨q, hq, hq_id, hq_business, hq_eq, hq_back⟩ := hrow q' hq'
    rw [← hp_eq, ← hq_eq]
    rw [← hp_id, ← hq_id] at hne
    rw [← hp_business, ← hq_business] at hsame'
    exact hdb.across i p hp q hq (hp_back hp_live) (hq_back hq_live) hsame' hne

theorem remove_valid {ownerId id : Uuid} {now : DateTime} {db db' : Database} {r : ProductResponse}
    (hdb : db.Valid) (h : remove ownerId id now db = .ok (r, db')) : db'.Valid := by
  cases remove_eq_ok h with
  | inl h =>
    obtain ⟨heq, hids⟩ := Database.write_eq_ok h hdb.toUniqueIds
    apply hdb.modify (f := fun p => { p with active := false }) hids (by rw [heq]; rfl)
      (by rw [heq]; rfl)
    . intro p
      rfl
    . intro p
      rfl
    . intro p i
      cases i <;> rfl
    . intro p hp
      exact hp
  | inr h =>
    obtain ⟨heq, hids⟩ := Database.write_eq_ok h hdb.toUniqueIds
    apply hdb.modify (f := fun p => { p with deletedAt := some now }) hids (by rw [heq]; rfl)
      (by rw [heq]; rfl)
    . intro p
      rfl
    . intro p
      rfl
    . intro p i
      cases i <;> rfl
    . intro p hp
      cases hp

theorem Request.step_valid (req : Request) {db : Database} (hdb : db.Valid)
    : (req.step db).2.Valid := by
  unfold Request.step
  split
  . next r db' h =>
    cases req with
    | create ownerId businessId dto productId variantIds => exact create_valid hdb h
    | update ownerId id dto variantIds now => exact update_valid hdb h
    | remove ownerId id now => exact remove_valid hdb h
  . exact hdb

theorem Database.Valid.of_eq {db db' : Database} (hdb : db.Valid)
    (hproducts : db'.products = db.products) (hvariants : db'.variants = db.variants)
    : db'.Valid := by
  have hsame : ∀ i p, db'.identifiers i p = db.identifiers i p := by
    intro i p
    unfold Database.identifiers Database.liveVariants
    rw [hvariants]
  refine ⟨⟨?_, ?_⟩, ?_, ?_, ?_⟩
  . rw [hproducts]
    exact hdb.products
  . rw [hvariants]
    exact hdb.variants
  . rw [hproducts, hvariants]
    exact hdb.parents
  . intro i p hp
    rw [hproducts] at hp
    rw [hsame]
    exact hdb.within i p hp
  . intro i p hp q hq
    rw [hproducts] at hp hq
    rw [hsame, hsame]
    exact hdb.across i p hp q hq

theorem Reachable.valid {db : Database} (h : Reachable db) : db.Valid := by
  -- What happens elsewhere leaves the products and the variants alone.
  induction h with
  | empty hproducts hvariants =>
    refine ⟨⟨?_, ?_⟩, ?_, ?_, ?_⟩ <;> simp [hproducts, hvariants]
  | request _ req ih => exact req.step_valid ih
  | elsewhere _ hproducts hvariants ih => exact ih.of_eq hproducts hvariants

/-- No two live products of a business and their live variants carry one identifier. -/
theorem identifiers_distinct {db : Database} (h : Reachable db) (i : Identifier)
    (businessId : Uuid) : (db.taken i (db.liveProducts businessId)).Nodup := by
  have hdb := h.valid
  unfold Database.taken
  apply Table.nodup_flatMap (hdb.products.sublist (List.filter_sublist.map Product.id))
  . intro p hp
    simp only [List.mem_filter, decide_eq_true_eq, Option.isNone_iff_eq_none] at hp
    exact hdb.within i p hp.1 hp.2.2
  . intro p hp q hq hne
    simp only [List.mem_filter, decide_eq_true_eq, Option.isNone_iff_eq_none] at hp hq
    exact hdb.across i p hp.1 q hq.1 hp.2.2 hq.2.2 (hq.2.1.trans hp.2.1.symm) hne

/-- The tables after a sequence of requests. -/
def run (reqs : List Request) (db : Database) : Database :=
  reqs.foldl (fun db req => (req.step db).2) db

theorem Reachable.run {db : Database} (h : Reachable db) (reqs : List Request)
    : Reachable (run reqs db) := by
  unfold Catalog.run
  induction reqs generalizing db with
  | nil => exact h
  | cons req reqs ih =>
    rw [List.foldl_cons]
    exact ih (h.request req)

namespace Shop

def database : Database where
  businesses := [{ id := 1, ownerId := 1, deletedAt := none }]
  categories := [{ id := 1, businessId := 1, deletedAt := none }]
  products := []
  variants := []
  productModifierGroups := []
  saleItems := []

def variant (id : Option Uuid) (sku : String) : VariantInputDto :=
  { id, name := sku, sku := some sku, barcode := none, priceC := 100, costC := none }

def product (sku : String) (variants : List VariantInputDto) : CreateProductDto :=
  { categoryId := 1, name := sku, sku := some sku, barcode := none, priceC := 100, costC := none,
    soldBy := none, lowStockThreshold := none, trackStock := none, trackExpiry := none,
    active := none, imagePath := none, variants := some variants }

def replace (variants : List VariantInputDto) : UpdateProductDto :=
  { categoryId := none, name := none, sku := none, barcode := none, priceC := none, costC := none,
    soldBy := none, lowStockThreshold := none, trackStock := none, trackExpiry := none,
    active := none, imagePath := none, variants := some (some variants) }

/-- Among the requests are one for a taken identifier and one for an identifier that is free again. -/
def requests : List Request :=
  [.create 1 1 (product "A" [variant none "A-1", variant none "A-2"]) 1 id,
    .create 1 1 (product "A-2" []) 2 id,
    .create 1 1 (product "B" []) 2 id,
    .update 1 1 (replace [variant (some 0) "A-3", variant none "A-4"]) (· + 2) 10,
    .remove 1 2 11,
    .create 1 1 (product "A-2" [variant none "B"]) 3 (· + 3)]

end Shop

theorem identifiers_distinct_shop
    : (run Shop.requests Shop.database).taken .sku
          ((run Shop.requests Shop.database).liveProducts 1) =
        ["A", "A-3", "A-4", "A-2", "B"] ∧
      ((run Shop.requests Shop.database).taken .sku
          ((run Shop.requests Shop.database).liveProducts 1)).Nodup := by
  constructor
  . decide +kernel
  . apply identifiers_distinct
    apply Reachable.run
    exact .empty rfl rfl

end SentryPos.Catalog
