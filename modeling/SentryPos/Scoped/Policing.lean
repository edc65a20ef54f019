import SentryPos.Scoped.Ownership

/-!
This module contains what the checks of the scoped client find out about whose rows they let through,
also from an old memo and while other requests commit: its scopes, the policing of new rows and the
references that it resolves.
-/

namespace SentryPos.ScopedClient

open ReadCommitted ChokePoint

def branchBusinessFact (id b : Uuid) : Fact where
  holds db := branchBusiness db id = some b
  grows _ _ h hdb := branchBusiness_grows h hdb

/-- The guard has found the branch and the business of a terminal. -/
def tenantFact (t : Tenant) : Fact :=
  match t.actor with
  | .owner _ => .pure True
  | .terminal _ businessId branchId =>
    (branchBusinessFact branchId businessId).and (businessFact t.ownerId businessId)

structure CacheSound (t : Tenant) (db : Database) (cache : ScopeCache) : Prop where
  businessIds : ∀ ids, cache.businessIds = some ids → (Fact.all ids (businessFact t.ownerId)).holds db
  branchIds : ∀ ids, cache.branchIds = some ids → (Fact.all ids (branchFact t.ownerId)).holds db
  branchBusiness : ∀ x ∈ cache.branchBusiness, (Fact.some? x.2 (branchBusinessFact x.1)).holds db
  refBusiness : ∀ x ∈ cache.refBusiness, (Fact.some? x.2 (resolvedFact x.1)).holds db

theorem CacheSound.grows {t : Tenant} {db db' : Database} {cache : ScopeCache} (h : Grows db db')
    (hcache : CacheSound t db cache) : CacheSound t db' cache where
  businessIds ids hids := Fact.grows _ _ _ h (hcache.businessIds ids hids)
  branchIds ids hids := Fact.grows _ _ _ h (hcache.branchIds ids hids)
  branchBusiness x hx := Fact.grows _ _ _ h (hcache.branchBusiness x hx)
  refBusiness x hx := Fact.grows _ _ _ h (hcache.refBusiness x hx)

theorem CacheSound.empty (t : Tenant) (db : Database) : CacheSound t db .empty where
  businessIds _ h := by cases h
  branchIds _ h := by cases h
  branchBusiness _ h := by cases h
  refBusiness _ h := by cases h

def Write.Allowed (ctx : RequestContext) (db : Database) : Write → Prop
  | insert e => ∃ t, ctx = .tenant t ∧ NewRow t db e.model e.row
  | update key data =>
    ∃ t, ctx = .tenant t ∧ OwnRow t db key ∧ ∀ r, SameRefs key.1 r (data.apply r)
  | audit _ => True

theorem Write.Allowed.grows {ctx : RequestContext} {db db' : Database} (h : Grows db db') {w : Write}
    (hw : w.Allowed ctx db) : w.Allowed ctx db' := by
  cases w with
  | insert e =>
    obtain ⟨t, hctx, hnew⟩ := hw
    exact ⟨t, hctx, (newRowFact t e.model e.row).grows _ _ h hnew⟩
  | update key data =>
    obtain ⟨t, hctx, hown, hsame⟩ := hw
    exact ⟨t, hctx, (ownRowFact t key).grows _ _ h hown, hsame⟩
  | audit => trivial

structure Held (ctx : RequestContext) (log : List Write) (locks : List Key) (db : Database) : Prop where
  covered : Covered log locks
  base : db.Valid
  view : (replay log db).Valid
  allowed : ∀ w ∈ log, w.Allowed ctx db

theorem Held.nil {ctx : RequestContext} {locks : List Key} {db : Database} (h : db.Valid)
    : Held ctx [] locks db where
  covered := .nil locks
  base := h
  view := h
  allowed := by simp

theorem Held.stable {ctx : RequestContext} {log : List Write} {locks : List Key} {db db' : Database}
    (h : Held ctx log locks db) (hkept : KeptAll Write locks db db') (hgrows : Grows db db')
    (hdb' : db'.Valid) : Held ctx log locks db' where
  covered := h.covered
  base := hdb'
  view := valid_constraint.stable log locks db db' h.covered hkept hdb' h.view
  allowed w hw := (h.allowed w hw).grows hgrows

def tenancyContract (ctx : RequestContext) : Contract Database Write Key Unit where
  Commit _ log db := ∀ w ∈ log, w.Allowed ctx db
  Mid _ := True
  Post _ _ := True

def tenancyLogic (ctx : RequestContext) (states : Database → Prop) : Logic Database Write Key Stmt :=
  (tenancyContract ctx).logic Database.Valid (Env.shared Write Stmt Grows states Database.Valid)

structure Calm (t : Tenant) (log : List Write) (locks : List Key) (db : Database) (s : ScopeCache)
    : Prop where
  held : Held (.tenant t) log locks db
  cache : CacheSound t db s
  tenant : (tenantFact t).holds db

theorem Calm.stable {t : Tenant} {log : List Write} {locks : List Key} {db db' : Database}
    {s : ScopeCache} (h : Calm t log locks db s) (hkept : KeptAll Write locks db db')
    (hgrows : Grows db db') (hdb' : db'.Valid) : Calm t log locks db' s where
  held := h.held.stable hkept hgrows hdb'
  cache := h.cache.grows hgrows
  tenant := (tenantFact t).grows _ _ hgrows h.tenant

/-- A call that writes nothing and finds out something about the rows. -/
def Learns (t : Tenant) (states : Database → Prop) {R : Type} (P : Fact) (p : Hook R) (Q : R → Fact)
    : Prop :=
  ∀ commits log locks db s, Calm t log locks db s → P.holds db →
    StateCall.wp (tenancyLogic (.tenant t) states) p
      (fun r s' _ _ log' locks' db' =>
        (log' = log ∧ locks' = locks) ∧ Calm t log locks db' s' ∧ Grows db db' ∧ (Q r).holds db')
      (fun _ s' _ _ log' locks' db' =>
        (log' = log ∧ locks' = locks) ∧ Calm t log locks db' s' ∧ Grows db db')
      commits log locks db s

namespace Learns

variable {t : Tenant} {states : Database → Prop} {R S : Type} {P P' : Fact} {Q : R → Fact}

theorem bind {p : Hook R} {k : R → Hook S} {Q' : S → Fact} (hp : Learns t states P p Q)
    (hk : ∀ r, Learns t states (P.and (Q r)) (k r) Q') : Learns t states P (p >>= k) Q' := by
  intro commits log locks db s hcalm hP
  rw [StateCall.wp_bind]
  apply StateCall.wp_mono _ _ (hp commits log locks db s hcalm hP)
  . intro r s' commits' log' locks' db' h
    obtain ⟨⟨hlog, hlocks⟩, hcalm', hgrows, hQ⟩ := h
    subst hlog hlocks
    have hnext := hk r commits' log' locks' db' s' hcalm' ⟨P.grows _ _ hgrows hP, hQ⟩
    apply StateCall.wp_mono _ _ hnext
    . intro r' s'' commits'' log'' locks'' db'' h
      exact ⟨h.1, h.2.1, hgrows.trans h.2.2.1, h.2.2.2⟩
    . intro e s'' commits'' log'' locks'' db'' h
      exact ⟨h.1, h.2.1, hgrows.trans h.2.2⟩
  . intro e s' commits' log' locks' db' h
    exact h

theorem imp {p : Hook R} {Q' : R → Fact} (h : Learns t states P p Q)
    (himp : ∀ r db, P.holds db → (Q r).holds db → (Q' r).holds db) : Learns t states P p Q' := by
  intro commits log locks db s hcalm hP
  apply StateCall.wp_mono _ (fun _ _ _ _ _ _ h => h) (h commits log locks db s hcalm hP)
  intro r s' commits' log' locks' db' h
  exact ⟨h.1, h.2.1, h.2.2.1, himp r db' (P.grows _ _ h.2.2.1 hP) h.2.2.2⟩

theorem pure {r : R} (h : ∀ db, (tenantFact t).holds db → P.holds db → (Q r).holds db)
    : Learns t states P (pure r : Hook R) Q :=
  fun _ _ _ db _ hcalm hP => ⟨⟨rfl, rfl⟩, hcalm, .refl db, h db hcalm.tenant hP⟩

theorem throw (e : HookError) : Learns t states P (throw e : Hook R) Q :=
  fun _ _ _ db _ hcalm _ => ⟨⟨rfl, rfl⟩, hcalm, .refl db⟩

theorem query {tag : Stmt} {q : Database → R}
    (h : ∀ db : Database, db.Valid → P.holds db → (Q (q db)).holds db)
    : Learns t states P (StateCall.query tag q) Q := by
  intro commits log locks db s hcalm hP
  apply StateCall.wp_query trivial
  intro db' hrely hinv _
  have hcalm' := hcalm.stable hrely.1 hrely.2 hinv.2
  exact ⟨⟨rfl, rfl⟩, hcalm', hrely.2, h db' hinv.2 (P.grows _ _ hrely.2 hP)⟩

theorem memo {lookup : ScopeCache → Option R} {store : R → ScopeCache → ScopeCache} {call : Hook R}
    (hhit : ∀ s r db, CacheSound t db s → lookup s = some r → (Q r).holds db)
    (hstore : ∀ s r db, CacheSound t db s → (Q r).holds db → CacheSound t db (store r s))
    (hcall : Learns t states P call Q) : Learns t states P (StateCall.memo lookup store call) Q := by
  intro commits log locks db s hcalm hP
  apply StateCall.wp_memo
  . intro r hr
    exact ⟨⟨rfl, rfl⟩, hcalm, .refl db, hhit s r db hcalm.cache hr⟩
  . intro _
    apply StateCall.wp_mono _ (fun _ _ _ _ _ _ h => h) (hcall commits log locks db s hcalm hP)
    intro r s' commits' log' locks' db' h
    obtain ⟨hsame, hcalm', hgrows, hQ⟩ := h
    exact ⟨hsame, ⟨hcalm'.held, hstore s' r db' hcalm'.cache hQ, hcalm'.tenant⟩, hgrows, hQ⟩

theorem forM {α : Type} {f : α → Hook PUnit} {xs : List α} {F : α → Fact}
    (h : ∀ x ∈ xs, Learns t states P (f x) fun _ => F x)
    : Learns t states P (xs.forM f) fun _ => Fact.all xs F := by
  induction xs with
  | nil =>
    apply pure
    intro db _ _ x hx
    cases hx
  | cons x xs ih =>
    rw [List.forM]
    apply bind (h x List.mem_cons_self)
    intro _ commits log locks db s hcalm hP
    have hrest := ih (fun y hy => h y (List.mem_cons_of_mem _ hy)) commits log locks db s hcalm hP.1
    apply StateCall.wp_mono _ (fun _ _ _ _ _ _ h => h) hrest
    intro r s' commits' log' locks' db' hafter
    refine ⟨hafter.1, hafter.2.1, hafter.2.2.1, ?_⟩
    intro y hy
    cases List.mem_cons.mp hy with
    | inl heq =>
      rw [heq]
      exact (F x).grows _ _ hafter.2.2.1 hP.2
    | inr hmem => exact hafter.2.2.2 y hmem

end Learns

section Checks

variable {t : Tenant} {states : Database → Prop} {P : Fact}

theorem learns_allowedBusinessIds
    : Learns t states P (allowedBusinessIds t) fun ids => Fact.all ids (businessFact t.ownerId) := by
  apply Learns.memo
  . intro s ids db hcache hids
    exact hcache.businessIds ids hids
  . intro s ids db hcache hids
    constructor
    . intro ids' hids'
      cases hids'
      exact hids
    . exact hcache.branchIds
    . exact hcache.branchBusiness
    . exact hcache.refBusiness
  . apply Learns.query
    intro db hdb _ id hid
    obtain ⟨r, hr, heq⟩ := List.mem_map.mp hid
    obtain ⟨hr, hfilter⟩ := List.mem_filter.mp hr
    simp only [decide_eq_true_eq] at hfilter
    have hget := hdb.get_of_table hr
    rw [heq] at hget
    change businessOwner db id = _
    unfold businessOwner Database.refAt
    rw [hget]
    exact hfilter.1

theorem learns_allowedBranchIds
    : Learns t states P (allowedBranchIds t) fun ids => Fact.all ids (branchFact t.ownerId) := by
  apply Learns.memo
  . intro s ids db hcache hids
    exact hcache.branchIds ids hids
  . intro s ids db hcache hids
    constructor
    . exact hcache.businessIds
    . intro ids' hids'
      cases hids'
      exact hids
    . exact hcache.branchBusiness
    . exact hcache.refBusiness
  . apply Learns.bind learns_allowedBusinessIds
    intro businessIds
    split
    . apply Learns.pure
      intro db _ _ id hid
      cases hid
    . apply Learns.query
      intro db hdb hP id hid
      obtain ⟨r, hr, heq⟩ := List.mem_map.mp hid
      obtain ⟨hr, hfilter⟩ := List.mem_filter.mp hr
      simp only [decide_eq_true_eq] at hfilter
      obtain ⟨⟨b, hb, href⟩, _⟩ := hfilter
      have hget := hdb.get_of_table hr
      rw [heq] at hget
      refine ⟨b, ?_, hP.2 b hb⟩
      unfold branchBusiness Database.refAt
      rw [hget]
      exact href

theorem learns_branchToBusiness (id : Uuid)
    : Learns t states P (branchToBusiness id) fun b => Fact.some? b (branchBusinessFact id) := by
  apply Learns.memo
  . intro s b db hcache hb
    obtain ⟨x, hx, heq⟩ := Option.map_eq_some_iff.mp hb
    have hid := List.find?_some hx
    simp only [decide_eq_true_eq] at hid
    have hfact := hcache.branchBusiness x (List.mem_of_find?_eq_some hx)
    rw [hid, heq] at hfact
    exact hfact
  . intro s b db hcache hb
    constructor
    . exact hcache.businessIds
    . exact hcache.branchIds
    . intro x hx
      cases List.mem_cons.mp hx with
      | inl heq =>
        rw [heq]
        exact hb
      | inr hmem => exact hcache.branchBusiness x hmem
    . exact hcache.refBusiness
  . apply Learns.query
    intro db _ _ b hb
    exact hb

theorem learns_memoRef {key : Key} {resolve : Hook (Option Uuid)}
    (h : Learns t states P resolve fun b => Fact.some? b (resolvedFact key))
    : Learns t states P (memoRef key resolve) fun b => Fact.some? b (resolvedFact key) := by
  apply Learns.memo _ _ h
  . intro s b db hcache hb
    obtain ⟨x, hx, heq⟩ := Option.map_eq_some_iff.mp hb
    have hkey := List.find?_some hx
    simp only [decide_eq_true_eq] at hkey
    have hfact := hcache.refBusiness x (List.mem_of_find?_eq_some hx)
    rw [hkey, heq] at hfact
    exact hfact
  . intro s b db hcache hb
    constructor
    . exact hcache.businessIds
    . exact hcache.branchIds
    . exact hcache.branchBusiness
    . intro x hx
      cases List.mem_cons.mp hx with
      | inl heq =>
        rw [heq]
        exact hb
      | inr hmem => exact hcache.refBusiness x hmem

def refFact (key : Key) (column : String) (h : column ∈ key.1.references) (id : Uuid) : Fact where
  holds db := db.refAt key column = some id
  grows _ _ hgrows hdb := refAt_grows hgrows h hdb

theorem learns_findRef {key : Key} {column : String} (h : column ∈ key.1.references)
    : Learns t states P (findRef key column) fun id => Fact.some? id (refFact key column h) := by
  apply Learns.query
  intro db _ _ id hid
  exact hid

theorem childParent_of_tenantDirect {model : Model} {column : ScopeColumn}
    (h : model.tenantDirect = some column) : model.childParent = none := by
  cases model <;> first | rfl | cases h

theorem childParent_parent {model parent : Model} (h : model.childParent = some parent)
    : parent.childParent = none := by
  cases model <;> cases h <;> rfl

theorem businessOf_direct {db : Database} {model : Model} {id : Uuid} (h : model.childParent = none)
    : businessOf db (model, id) = (db.get (model, id)).bind fun e => directBusiness db model e.row := by
  unfold businessOf
  rw [h]

theorem learns_resolveDirect (model : Model) (id : Uuid)
    : Learns t states P (resolveDirect model id) fun b =>
        Fact.some? b (resolvedFact (model, id)) := by
  apply learns_memoRef
  split
  . next hscope =>
    apply Learns.query
    intro db _ _ b hb
    change businessOf db (model, id) = _
    rw [businessOf_direct (childParent_of_tenantDirect hscope)]
    obtain ⟨e, hget, hid⟩ := Option.map_eq_some_iff.mp hb
    rw [hget, Option.bind_some]
    unfold directBusiness
    rw [hscope]
    exact congrArg some hid
  . next hscope =>
    apply Learns.query
    intro db _ _ b hb
    change businessOf db (model, id) = _
    rw [businessOf_direct (childParent_of_tenantDirect hscope)]
    unfold directBusiness
    rw [hscope]
    exact hb
  . next hscope =>
    have hmem : "branchId" ∈ (model, id).1.references := scopeColumn_mem hscope
    apply Learns.bind (learns_findRef hmem)
    intro branchId
    split
    . next branchId =>
      apply (learns_branchToBusiness branchId).imp
      intro _ db hP hbusiness b hb
      obtain ⟨e, hget, href⟩ := Option.bind_eq_some_iff.mp (hP.2 branchId rfl)
      change businessOf db (model, id) = _
      rw [businessOf_direct (childParent_of_tenantDirect hscope), hget, Option.bind_some]
      unfold directBusiness
      rw [hscope]
      dsimp only
      rw [href]
      exact hbusiness b hb
    . apply Learns.pure
      intro db _ _ b hb
      cases hb
  . apply Learns.pure
    intro db _ _ b hb
    cases hb

theorem learns_resolveRefBusinessId (model : Model) (id : Uuid)
    : Learns t states P (resolveRefBusinessId model id) fun b =>
        Fact.some? b (resolvedFact (model, id)) := by
  unfold resolveRefBusinessId
  split
  . exact learns_resolveDirect model id
  . next parent hparent =>
    apply learns_memoRef
    split
    . apply Learns.pure
      intro db _ _ b hb
      cases hb
    . next fk hfk =>
      have hmem : fk ∈ (model, id).1.references := childParentFk_mem hfk
      apply Learns.bind (learns_findRef hmem)
      intro parentId
      split
      . next parentId =>
        apply (learns_resolveDirect parent parentId).imp
        intro _ db hP hresolved b hb
        obtain ⟨e, hget, href⟩ := Option.bind_eq_some_iff.mp (hP.2 parentId rfl)
        have hbusiness : businessOf db (parent, parentId) = some b := hresolved b hb
        rw [businessOf_direct (childParent_parent hparent)] at hbusiness
        change businessOf db (model, id) = _
        unfold businessOf
        rw [hget, Option.bind_some, hparent]
        dsimp only
        rw [hfk, Option.bind_some, href, Option.bind_some]
        exact hbusiness
      . apply Learns.pure
        intro db _ _ b hb
        cases hb

theorem ownerOf_direct {db : Database} {model : Model} {column : ScopeColumn} (r : Row)
    (h : model.tenantDirect = some column) : ownerOf db model r = directOwner db model r := by
  unfold ownerOf
  rw [childParent_of_tenantDirect h]

theorem ownerOf_businessId {db : Database} {model : Model} {r : Row} {id o : Uuid}
    (hscope : model.tenantDirect = some .businessId) (hid : r.ref "businessId" = some id)
    (ho : businessOwner db id = some o) : ownerOf db model r = some o := by
  rw [ownerOf_direct r hscope]
  unfold directOwner directBusiness
  rw [hscope]
  dsimp only
  rw [hid]
  exact ho

theorem ownerOf_branchId {db : Database} {model : Model} {r : Row} {id o : Uuid}
    (hscope : model.tenantDirect = some .branchId) (hid : r.ref "branchId" = some id)
    (ho : (branchFact o id).holds db) : ownerOf db model r = some o := by
  obtain ⟨b, hb, hbo⟩ := ho
  rw [ownerOf_direct r hscope]
  unfold directOwner directBusiness
  rw [hscope]
  dsimp only
  rw [hid, Option.bind_some, hb]
  exact hbo

theorem ownerAt_branch {db : Database} {id o : Uuid} (h : (branchFact o id).holds db)
    : ownerAt db (.branch, id) = some o := by
  obtain ⟨b, hb, hbo⟩ := h
  obtain ⟨e, hget, href⟩ := Option.bind_eq_some_iff.mp hb
  have hscope : Model.tenantDirect .branch = some .businessId := rfl
  unfold ownerAt
  rw [hget]
  exact ownerOf_businessId hscope href hbo

theorem fkRef_businessId {model : Model} {ref : String × Model} (h : ref ∈ model.fkRefs)
    (hcolumn : ref.1 = "businessId") : ref.2 = .business := by
  have hrefs : ∀ ref ∈ model.fkRefs, ref.1 = "businessId" → ref.2 = .business := by
    cases model <;> decide
  exact hrefs ref h hcolumn

theorem fkRef_branchId {model : Model} {ref : String × Model} (h : ref ∈ model.fkRefs)
    (hcolumn : ref.1 = "branchId") : ref.2 = .branch := by
  have hrefs : ∀ ref ∈ model.fkRefs, ref.1 = "branchId" → ref.2 = .branch := by
    cases model <;> decide
  exact hrefs ref h hcolumn

theorem fkRef_ownerId {model : Model} {ref : String × Model} (h : ref ∈ model.fkRefs)
    (hcolumn : ref.1 = "ownerId") : ref.2.isPlatform := by
  have hrefs : ∀ ref ∈ model.fkRefs, ref.1 = "ownerId" → ref.2.isPlatform := by
    cases model <;> decide
  exact hrefs ref h hcolumn

/-- What a check of the scope column of new data finds out. -/
def scopedFact (t : Tenant) (model : Model) (r : Row) : Fact where
  holds db := ownerOf db model r = some t.ownerId ∧ Pinned t model r
    ∧ ∀ ref ∈ model.fkRefs, model.tenantDirect.map (·.name) = some ref.1 → ¬ ref.2.isPlatform →
      ∀ id, r.ref ref.1 = some id → ownerAt db (ref.2, id) = some t.ownerId
  grows _ _ h hdb := by
    refine ⟨ownerOf_grows h (.refl _ _) hdb.1, hdb.2.1, ?_⟩
    intro ref href hcolumn hplatform id hid
    exact ownerAt_grows h (hdb.2.2 ref href hcolumn hplatform id hid)

theorem scoped_ownerId {db : Database} {model : Model} {r : Row}
    (hscope : model.tenantDirect = some .ownerId) (h : r.ref "ownerId" = some t.ownerId)
    : (scopedFact t model r).holds db := by
  refine ⟨?_, ?_, ?_⟩
  . rw [ownerOf_direct r hscope]
    unfold directOwner
    rw [hscope]
    exact h
  . intro branchId _ hbranch
    rw [hscope] at hbranch
    cases hbranch
  . intro ref href hcolumn hplatform id hid
    rw [hscope] at hcolumn
    exact absurd (fkRef_ownerId href (Option.some.inj hcolumn).symm) hplatform

theorem scoped_businessId {db : Database} {model : Model} {r : Row} {id : Uuid}
    (hscope : model.tenantDirect = some .businessId) (h : r.ref "businessId" = some id)
    (ho : businessOwner db id = some t.ownerId) : (scopedFact t model r).holds db := by
  refine ⟨ownerOf_businessId hscope h ho, ?_, ?_⟩
  . intro branchId _ hbranch
    rw [hscope] at hbranch
    cases hbranch
  . intro ref href hcolumn _ id' hid'
    rw [hscope] at hcolumn
    have hname : ref.1 = "businessId" := (Option.some.inj hcolumn).symm
    rw [hname, h] at hid'
    cases hid'
    rw [fkRef_businessId href hname]
    exact ho

theorem scoped_branchId {db : Database} {model : Model} {r : Row} {id : Uuid}
    (hscope : model.tenantDirect = some .branchId) (h : r.ref "branchId" = some id)
    (ho : (branchFact t.ownerId id).holds db) (hpinned : ∀ b, t.branchId = some b → b = id)
    : (scopedFact t model r).holds db := by
  refine ⟨ownerOf_branchId hscope h ho, ?_, ?_⟩
  . intro branchId hbranch _
    rw [h, hpinned branchId hbranch]
  . intro ref href hcolumn _ id' hid'
    rw [hscope] at hcolumn
    have hname : ref.1 = "branchId" := (Option.some.inj hcolumn).symm
    rw [hname, h] at hid'
    cases hid'
    rw [fkRef_branchId href hname]
    exact ownerAt_branch ho

theorem tenant_businessId {db : Database} {id : Uuid} (h : (tenantFact t).holds db)
    (hid : t.businessId = some id) : businessOwner db id = some t.ownerId := by
  unfold tenantFact at h
  unfold Tenant.businessId at hid
  split at hid
  . cases hid
  . next hactor =>
    cases hid
    rw [hactor] at h
    exact h.2

theorem tenant_branchId {db : Database} {id : Uuid} (h : (tenantFact t).holds db)
    (hid : t.branchId = some id) : (branchFact t.ownerId id).holds db := by
  unfold tenantFact at h
  unfold Tenant.branchId at hid
  split at hid
  . cases hid
  . next hactor =>
    cases hid
    rw [hactor] at h
    exact ⟨_, h.1, h.2⟩

theorem learns_auditWhere : Learns t states P (auditWhere t) fun _ => .pure True := by
  apply Learns.bind learns_allowedBusinessIds
  intro ids
  apply Learns.pure
  intro _ _ _
  trivial

theorem learns_tenantWhereFor {model : Model} (hmodel : model.tenantDirect.isSome)
    : Learns t states P (tenantWhereFor t model) (scopeFact t model) := by
  unfold tenantWhereFor
  split
  . next hscope =>
    apply Learns.pure
    intro db _ _ r hr
    have hscoped : (scopedFact t model r).holds db := scoped_ownerId hscope (of_decide_eq_true hr)
    exact ⟨hscoped.1, hscoped.2.1⟩
  . next hscope =>
    apply Learns.bind learns_allowedBusinessIds
    intro ids
    apply Learns.pure
    intro db _ hP r hr
    obtain ⟨id, hid, href⟩ := of_decide_eq_true hr
    have hscoped := scoped_businessId hscope href (hP.2 id hid)
    exact ⟨hscoped.1, hscoped.2.1⟩
  . next hother hbusiness =>
    have hscope : model.tenantDirect = some .branchId := by
      cases hcolumn : model.tenantDirect with
      | none =>
        rw [hcolumn] at hmodel
        cases hmodel
      | some column =>
        cases column with
        | ownerId => exact absurd hcolumn hother
        | businessId => exact absurd hcolumn hbusiness
        | branchId => rfl
    split
    . next branchId hbranch =>
      apply Learns.pure
      intro db htenant _ r hr
      have hscoped := scoped_branchId hscope (of_decide_eq_true hr)
        (tenant_branchId htenant hbranch) fun b hb => Option.some.inj (hb.symm.trans hbranch)
      exact ⟨hscoped.1, hscoped.2.1⟩
    . next hbranch =>
      apply Learns.bind learns_allowedBranchIds
      intro ids
      apply Learns.pure
      intro db _ hP r hr
      obtain ⟨id, hid, href⟩ := of_decide_eq_true hr
      have hscoped := scoped_branchId hscope href (hP.2 id hid)
        fun b hb => absurd (hb.symm.trans hbranch) (Option.some_ne_none b)
      exact ⟨hscoped.1, hscoped.2.1⟩

@[simp]
theorem ref_setRef (data : Row) (column : String) (id : Uuid)
    : (setRef data column id).ref column = some id := by
  unfold Row.ref setRef
  dsimp only
  rw [Arg.Fields.get_set, if_pos rfl]

theorem learns_policeScope {data : Row} {column : String} {ids : List Uuid} {fallback : Option Uuid}
    : Learns t states P (policeScope data column ids fallback) fun out =>
        .pure (∃ id, out.ref column = some id ∧ (id ∈ ids ∨ fallback = some id)) := by
  unfold policeScope
  split
  . next id hid =>
    split
    . next hmem =>
      apply Learns.pure
      intro _ _ _
      refine ⟨id, ?_, .inl hmem⟩
      unfold Row.ref
      rw [hid]
    . exact .throw _
  . split
    . next id =>
      apply Learns.pure
      intro _ _ _
      exact ⟨id, ref_setRef .., .inr rfl⟩
    . exact .throw _
  . split
    . next id =>
      apply Learns.pure
      intro _ _ _
      exact ⟨id, ref_setRef .., .inr rfl⟩
    . exact .throw _
  . exact .throw _

/-- A foreign key other than the scope column points to a row of the tenant. -/
def ownedRefFact (t : Tenant) (model : Model) (data : Row) (ref : String × Model) : Fact where
  holds db := ¬ (model.tenantDirect.map (·.name) = some ref.1 ∨ ref.2.isPlatform) →
    ∀ id, data.ref ref.1 = some id → ownerAt db (ref.2, id) = some t.ownerId
  grows _ _ h hdb hcolumn id hid := ownerAt_grows h (hdb hcolumn id hid)

theorem learns_policeRef {model : Model} {data : Row} {allowed : List Uuid} {ref : String × Model}
    (hallowed : ∀ db, P.holds db → (Fact.all allowed (businessFact t.ownerId)).holds db)
    : Learns t states P (policeRef model data allowed ref) fun _ =>
        ownedRefFact t model data ref := by
  unfold policeRef
  split
  . next hskip =>
    apply Learns.pure
    intro _ _ _ hcolumn
    exact absurd hskip hcolumn
  . split
    . next id hid =>
      apply Learns.bind (learns_resolveRefBusinessId _ _)
      intro businessId
      split
      . next hfound =>
        apply Learns.pure
        intro db _ hP _ id' hid'
        obtain ⟨b, hb, heq⟩ := hfound
        unfold Row.ref at hid'
        rw [hid] at hid'
        cases hid'
        exact ownerAt_of_businessOf (hP.2 b heq) (hallowed db hP.1 b hb)
      . exact .throw _
    . exact .throw _
    . next hother _ =>
      apply Learns.pure
      intro db _ _ _ id hid
      unfold Row.ref at hid
      split at hid
      . next id' hget => exact absurd hget (hother id')
      . cases hid

theorem learns_policeCreateRefs {model : Model} {data : Row}
    : Learns t states P (policeCreateRefs t model data) fun out =>
        (Fact.pure (out = data)).and (.all model.fkRefs (ownedRefFact t model data)) := by
  apply Learns.bind learns_allowedBusinessIds
  intro allowed
  apply Learns.bind
  . apply Learns.forM
    intro ref _
    exact learns_policeRef fun db hP => hP.2
  . intro _
    apply Learns.pure
    intro db _ hP
    exact ⟨rfl, hP.2⟩

theorem newRow_of_scoped {db : Database} {model : Model} {out : Row}
    (hscoped : (scopedFact t model out).holds db)
    (hrefs : (Fact.all model.fkRefs (ownedRefFact t model out)).holds db)
    : NewRow t db model out where
  owner := hscoped.1
  pinned := hscoped.2.1
  refs ref href hplatform id hid := by
    by_cases hcolumn : model.tenantDirect.map (·.name) = some ref.1
    . exact hscoped.2.2 ref href hcolumn hplatform id hid
    . apply hrefs ref href _ id hid
      intro hskip
      cases hskip with
      | inl h => exact hcolumn h
      | inr h => exact hplatform h

theorem learns_refs {model : Model} {out : Row}
    (hscoped : ∀ db, (tenantFact t).holds db → P.holds db → (scopedFact t model out).holds db)
    : Learns t states P (policeCreateRefs t model out) (newRowFact t model) := by
  intro commits log locks db s hcalm hP
  have hrefs : Learns t states (P.and (scopedFact t model out)) (policeCreateRefs t model out) _ :=
    learns_policeCreateRefs
  apply StateCall.wp_mono _ (fun _ _ _ _ _ _ h => h)
    (hrefs commits log locks db s hcalm ⟨hP, hscoped db hcalm.tenant hP⟩)
  intro r s' commits' log' locks' db' h
  refine ⟨h.1, h.2.1, h.2.2.1, ?_⟩
  have hrow := (scopedFact t model out).grows _ _ h.2.2.1 (hscoped db hcalm.tenant hP)
  rw [show r = out from h.2.2.2.1]
  exact newRow_of_scoped hrow h.2.2.2.2

theorem learns_policeCreateData {model : Model} {data : Row} (hmodel : model.tenantDirect.isSome)
    : Learns t states P (policeCreateData t model data) (newRowFact t model) := by
  unfold policeCreateData
  split
  . next hscope =>
    rw [hscope] at hmodel
    cases hmodel
  . next hscope =>
    apply Learns.pure
    intro db _ _
    apply newRow_of_scoped (scoped_ownerId hscope (ref_setRef ..))
    have hrefs : ∀ ref ∈ model.fkRefs, ref.2.isPlatform := by
      cases model <;> first | decide | cases hscope
    intro ref href hskip
    exact absurd (.inr (hrefs ref href)) hskip
  . next hscope =>
    apply Learns.bind learns_allowedBusinessIds
    intro ids
    apply Learns.bind learns_policeScope
    intro out
    apply learns_refs
    intro db htenant hP
    obtain ⟨⟨_, hids⟩, id, hid, hmem⟩ := hP
    apply scoped_businessId hscope hid
    cases hmem with
    | inl hmem => exact hids id hmem
    | inr hfallback => exact tenant_businessId htenant hfallback
  . next hscope =>
    split
    . next branchId hbranch =>
      apply learns_refs
      intro db htenant _
      apply scoped_branchId hscope (ref_setRef ..) (tenant_branchId htenant hbranch)
      intro b hb
      exact Option.some.inj (hb.symm.trans hbranch)
    . next hbranch =>
      apply Learns.bind learns_allowedBranchIds
      intro ids
      apply Learns.bind learns_policeScope
      intro out
      apply learns_refs
      intro db _ hP
      obtain ⟨⟨_, hids⟩, id, hid, hmem⟩ := hP
      apply scoped_branchId hscope hid
      . cases hmem with
        | inl hmem => exact hids id hmem
        | inr hfallback => cases hfallback
      . intro b hb
        exact absurd (hb.symm.trans hbranch) (Option.some_ne_none b)

theorem ownRow_of_scope {db : Database} {model : Model} {scopeWhere : Row → Bool} {r : Row}
    (hdb : db.Valid) (hscope : (scopeFact t model scopeWhere).holds db) (hr : r ∈ db.table model)
    (hwhere : scopeWhere r) : OwnRow t db (model, r.id) := by
  have hget := hdb.get_of_table hr
  constructor
  . unfold ownerAt
    rw [hget]
    exact (hscope r hwhere).1
  . intro e he
    rw [hget] at he
    cases he
    exact (hscope r hwhere).2

theorem learns_findFirst {model : Model} {scopeWhere p : Row → Bool}
    (hscope : ∀ db, P.holds db → (scopeFact t model scopeWhere).holds db)
    (hp : ∀ r, p r → scopeWhere r)
    : Learns t states P (findFirst model p) fun found =>
        Fact.some? found fun r => ownRowFact t (model, r.id) := by
  apply Learns.query
  intro db hdb hP r hr
  exact ownRow_of_scope hdb (hscope db hP) (List.mem_of_find?_eq_some hr)
    (hp r (List.find?_some hr))

theorem learns_findMany {model : Model} {scopeWhere p : Row → Bool}
    (hscope : ∀ db, P.holds db → (scopeFact t model scopeWhere).holds db)
    (hp : ∀ r, p r → scopeWhere r)
    : Learns t states P (findMany model p) fun found =>
        Fact.all found fun r => ownRowFact t (model, r.id) := by
  apply Learns.query
  intro db hdb hP r hr
  obtain ⟨hr, hpr⟩ := List.mem_filter.mp hr
  exact ownRow_of_scope hdb (hscope db hP) hr (hp r hpr)

end Checks

end SentryPos.ScopedClient
