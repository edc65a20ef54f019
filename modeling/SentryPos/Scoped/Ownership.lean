import SentryPos.Scoped.Hook

/-!
This module contains whose row a row is, through the references that lead to a business and its
owner, and that this does not change while rows keep their references and none is removed.
-/

namespace SentryPos.ScopedClient

open ReadCommitted ChokePoint

def SameRefs (model : Model) (r r' : Row) : Prop :=
  ∀ column ∈ model.references, r'.ref column = r.ref column

theorem SameRefs.refl (model : Model) (r : Row) : SameRefs model r r :=
  fun _ _ => rfl

theorem SameRefs.trans {model : Model} {r r' r'' : Row} (h : SameRefs model r r')
    (h' : SameRefs model r' r'') : SameRefs model r r'' :=
  fun column hcolumn => (h' column hcolumn).trans (h column hcolumn)

/-- Rows are added and change, but they stay and keep their references. -/
def Grows (db db' : Database) : Prop :=
  ∀ key e, db.get key = some e → ∃ e', db'.get key = some e' ∧ SameRefs key.1 e.row e'.row

theorem Grows.refl (db : Database) : Grows db db :=
  fun _ e h => ⟨e, h, .refl _ _⟩

theorem Grows.trans {db db' db'' : Database} (h : Grows db db') (h' : Grows db' db'')
    : Grows db db'' := by
  intro key e hget
  obtain ⟨e', hget', hsame⟩ := h key e hget
  obtain ⟨e'', hget'', hsame'⟩ := h' key e' hget'
  exact ⟨e'', hget'', hsame.trans hsame'⟩

structure Fact where
  holds : Database → Prop
  grows : ∀ db db', Grows db db' → holds db → holds db'

namespace Fact

def and (P Q : Fact) : Fact where
  holds db := P.holds db ∧ Q.holds db
  grows db db' h hdb := ⟨P.grows db db' h hdb.1, Q.grows db db' h hdb.2⟩

def pure (p : Prop) : Fact where
  holds _ := p
  grows _ _ _ h := h

/-- A fact of each element of a list. -/
def all {α : Type} (xs : List α) (P : α → Fact) : Fact where
  holds db := ∀ x ∈ xs, (P x).holds db
  grows db db' h hdb x hx := (P x).grows db db' h (hdb x hx)

def some? {α : Type} (r : Option α) (P : α → Fact) : Fact where
  holds db := ∀ a, r = some a → (P a).holds db
  grows db db' h hdb a ha := (P a).grows db db' h (hdb a ha)

end Fact

def Database.refAt (db : Database) (key : Key) (column : String) : Option Uuid :=
  (db.get key).bind fun e => e.row.ref column

theorem refAt_grows {db db' : Database} (h : Grows db db') {key : Key} {column : String} {id : Uuid}
    (hcolumn : column ∈ key.1.references) (hid : db.refAt key column = some id)
    : db'.refAt key column = some id := by
  unfold Database.refAt at hid ⊢
  obtain ⟨e, hget, hid⟩ := Option.bind_eq_some_iff.mp hid
  obtain ⟨e', hget', hsame⟩ := h key e hget
  rw [hget', Option.bind_some, hsame column hcolumn]
  exact hid

def businessOwner (db : Database) (businessId : Uuid) : Option Uuid :=
  db.refAt (.business, businessId) "ownerId"

theorem businessOwner_grows {db db' : Database} (h : Grows db db') {id o : Uuid}
    (ho : businessOwner db id = some o) : businessOwner db' id = some o :=
  refAt_grows h (by simp [Model.references, Model.tenantDirect, ScopeColumn.name]) ho

def branchBusiness (db : Database) (branchId : Uuid) : Option Uuid :=
  db.refAt (.branch, branchId) "businessId"

theorem branchBusiness_grows {db db' : Database} (h : Grows db db') {id b : Uuid}
    (hb : branchBusiness db id = some b) : branchBusiness db' id = some b :=
  refAt_grows h (by simp [Model.references, Model.tenantDirect, ScopeColumn.name]) hb

def directBusiness (db : Database) (model : Model) (r : Row) : Option Uuid :=
  match model.tenantDirect with
  | some .ownerId => some r.id
  | some .businessId => r.ref "businessId"
  | some .branchId => (r.ref "branchId").bind (branchBusiness db)
  | none => none

/-- The owner of a row of a model with a scope column. A business need not be there yet. -/
def directOwner (db : Database) (model : Model) (r : Row) : Option Uuid :=
  match model.tenantDirect with
  | some .ownerId => r.ref "ownerId"
  | _ => (directBusiness db model r).bind (businessOwner db)

def firstRef (model : Model) : Option String :=
  match model.childParent with
  | some parent => model.childParentFk parent
  | none => model.tenantDirect.map (·.name)

def ownerOf (db : Database) (model : Model) (r : Row) : Option Uuid :=
  match model.childParent with
  | none => directOwner db model r
  | some parent =>
    ((model.childParentFk parent).bind r.ref).bind fun id =>
      (db.get (parent, id)).bind fun e => directOwner db parent e.row

def ownerAt (db : Database) (key : Key) : Option Uuid :=
  (db.get key).bind fun e => ownerOf db key.1 e.row

section Grows

variable {db db' : Database} {model : Model} {r r' : Row} {o : Uuid}

theorem scopeColumn_mem {column : ScopeColumn} (h : model.tenantDirect = some column)
    : column.name ∈ model.references := by
  unfold Model.references
  rw [h]
  simp

theorem childParentFk_mem {parent : Model} {fk : String} (h : model.childParentFk parent = some fk)
    : fk ∈ model.references := by
  unfold Model.childParentFk at h
  obtain ⟨rel, hrel, hfk⟩ := Option.bind_eq_some_iff.mp h
  unfold Model.references Model.fkRefs
  apply List.mem_append_right
  apply List.mem_map.mpr
  refine ⟨(fk, rel.target), ?_, rfl⟩
  apply List.mem_filterMap.mpr
  exact ⟨rel, List.mem_of_find?_eq_some hrel, by rw [hfk]; rfl⟩

theorem directOwner_grows (h : Grows db db') (hsame : SameRefs model r r')
    (ho : directOwner db model r = some o) : directOwner db' model r' = some o := by
  unfold directOwner directBusiness at ho ⊢
  cases hscope : model.tenantDirect with
  | none =>
    rw [hscope] at ho
    cases ho
  | some column =>
    have href := hsame _ (scopeColumn_mem hscope)
    rw [hscope] at ho
    cases column with
    | ownerId =>
      dsimp only [ScopeColumn.name] at ho href ⊢
      rw [href]
      exact ho
    | businessId =>
      dsimp only [ScopeColumn.name] at ho href ⊢
      obtain ⟨b, hb, hbo⟩ := Option.bind_eq_some_iff.mp ho
      rw [href, hb]
      exact businessOwner_grows h hbo
    | branchId =>
      dsimp only [ScopeColumn.name] at ho href ⊢
      obtain ⟨b, hb, hbo⟩ := Option.bind_eq_some_iff.mp ho
      obtain ⟨branchId, hbranch, hb⟩ := Option.bind_eq_some_iff.mp hb
      rw [href, hbranch, Option.bind_some, branchBusiness_grows h hb]
      exact businessOwner_grows h hbo

theorem ownerOf_grows (h : Grows db db') (hsame : SameRefs model r r')
    (ho : ownerOf db model r = some o) : ownerOf db' model r' = some o := by
  unfold ownerOf at ho ⊢
  cases hparent : model.childParent with
  | none =>
    rw [hparent] at ho
    exact directOwner_grows h hsame ho
  | some parent =>
    rw [hparent] at ho
    dsimp only at ho ⊢
    obtain ⟨id, hid, ho⟩ := Option.bind_eq_some_iff.mp ho
    obtain ⟨fk, hfk, hid⟩ := Option.bind_eq_some_iff.mp hid
    obtain ⟨e, hget, ho⟩ := Option.bind_eq_some_iff.mp ho
    obtain ⟨e', hget', hsame'⟩ := h _ e hget
    rw [hfk, Option.bind_some, hsame _ (childParentFk_mem hfk), hid, Option.bind_some, hget']
    exact directOwner_grows h hsame' ho

theorem ownerAt_grows (h : Grows db db') {key : Key} (ho : ownerAt db key = some o)
    : ownerAt db' key = some o := by
  unfold ownerAt at ho ⊢
  obtain ⟨e, hget, ho⟩ := Option.bind_eq_some_iff.mp ho
  obtain ⟨e', hget', hsame⟩ := h key e hget
  rw [hget']
  exact ownerOf_grows h hsame ho

end Grows

/-- The business of the row with a key, as `resolveRefBusinessId` finds it without its memo. -/
def businessOf (db : Database) (key : Key) : Option Uuid :=
  (db.get key).bind fun e =>
    match key.1.childParent with
    | none => directBusiness db key.1 e.row
    | some parent =>
      ((key.1.childParentFk parent).bind e.row.ref).bind fun id =>
        (db.get (parent, id)).bind fun e' => directBusiness db parent e'.row

theorem directBusiness_grows {db db' : Database} (h : Grows db db') {model : Model} {e e' : Entity}
    {id b : Uuid} (hid : e.row.id = id) (hid' : e'.row.id = id) (hsame : SameRefs model e.row e'.row)
    (hb : directBusiness db model e.row = some b) : directBusiness db' model e'.row = some b := by
  unfold directBusiness at hb ⊢
  cases hscope : model.tenantDirect with
  | none =>
    rw [hscope] at hb
    cases hb
  | some column =>
    have href := hsame _ (scopeColumn_mem hscope)
    rw [hscope] at hb
    cases column with
    | ownerId =>
      dsimp only at hb ⊢
      rw [hid', ← hid]
      exact hb
    | businessId =>
      dsimp only [ScopeColumn.name] at hb href ⊢
      rw [href]
      exact hb
    | branchId =>
      dsimp only [ScopeColumn.name] at hb href ⊢
      obtain ⟨branchId, hbranch, hb⟩ := Option.bind_eq_some_iff.mp hb
      rw [href, hbranch]
      exact branchBusiness_grows h hb

theorem id_of_get {db : Database} {key : Key} {e : Entity} (h : db.get key = some e)
    : e.row.id = key.2 :=
  congrArg Prod.snd (Table.key_of_get h)

theorem businessOf_grows {db db' : Database} (h : Grows db db') {key : Key} {b : Uuid}
    (hb : businessOf db key = some b) : businessOf db' key = some b := by
  unfold businessOf at hb ⊢
  obtain ⟨e, hget, hb⟩ := Option.bind_eq_some_iff.mp hb
  obtain ⟨e', hget', hsame⟩ := h key e hget
  rw [hget', Option.bind_some]
  cases hparent : key.1.childParent with
  | none =>
    rw [hparent] at hb
    exact directBusiness_grows h (id_of_get hget) (id_of_get hget') hsame hb
  | some parent =>
    rw [hparent] at hb
    dsimp only at hb ⊢
    obtain ⟨id, hid, hb⟩ := Option.bind_eq_some_iff.mp hb
    obtain ⟨fk, hfk, hid⟩ := Option.bind_eq_some_iff.mp hid
    obtain ⟨p, hp, hb⟩ := Option.bind_eq_some_iff.mp hb
    obtain ⟨p', hp', hsame'⟩ := h _ p hp
    rw [hfk, Option.bind_some, hsame _ (childParentFk_mem hfk), hid, Option.bind_some, hp']
    exact directBusiness_grows h (id_of_get hp) (id_of_get hp') hsame' hb

theorem directOwner_of_business {db : Database} {model : Model} {e : Entity} {b o : Uuid}
    (hget : db.get (model, e.row.id) = some e) (hb : directBusiness db model e.row = some b)
    (ho : businessOwner db b = some o) : directOwner db model e.row = some o := by
  unfold directOwner
  cases hscope : model.tenantDirect with
  | none =>
    unfold directBusiness at hb
    rw [hscope] at hb
    cases hb
  | some column =>
    cases column with
    | businessId | branchId =>
      dsimp only
      rw [hb]
      exact ho
    | ownerId =>
      unfold directBusiness at hb
      rw [hscope] at hb
      have hmodel : model = .business := by
        cases model <;> first | rfl | cases hscope
      subst hmodel
      cases hb
      unfold businessOwner Database.refAt at ho
      rw [hget] at ho
      exact ho

theorem ownerAt_of_businessOf {db : Database} {key : Key} {b o : Uuid}
    (hb : businessOf db key = some b) (ho : businessOwner db b = some o)
    : ownerAt db key = some o := by
  unfold businessOf at hb
  unfold ownerAt ownerOf
  obtain ⟨e, hget, hb⟩ := Option.bind_eq_some_iff.mp hb
  rw [hget, Option.bind_some]
  cases hparent : key.1.childParent with
  | none =>
    rw [hparent] at hb
    apply directOwner_of_business _ hb ho
    rw [id_of_get hget]
    exact hget
  | some parent =>
    rw [hparent] at hb
    dsimp only at hb ⊢
    obtain ⟨id, hid, hb⟩ := Option.bind_eq_some_iff.mp hb
    obtain ⟨p, hp, hb⟩ := Option.bind_eq_some_iff.mp hb
    rw [hid, Option.bind_some, hp, Option.bind_some]
    apply directOwner_of_business _ hb ho
    rw [id_of_get hp]
    exact hp

/-- Every foreign key of a row to a table of the tenants points to a row of the owner. -/
def RefsOwned (db : Database) (o : Uuid) (model : Model) (r : Row) : Prop :=
  ∀ ref ∈ model.fkRefs, ¬ ref.2.isPlatform → ∀ id, r.ref ref.1 = some id →
    ownerAt db (ref.2, id) = some o

/-- A row belongs to one owner with all that it points to, or else it does not lead to an owner. -/
def Contained (db : Database) : Prop :=
  ∀ key e, db.get key = some e →
    (∀ column, firstRef key.1 = some column → e.row.ref column = none)
      ∨ ∃ o, ownerOf db key.1 e.row = some o ∧ RefsOwned db o key.1 e.row

theorem fkRef_mem {model : Model} {ref : String × Model} (h : ref ∈ model.fkRefs)
    : ref.1 ∈ model.references :=
  List.mem_append_right _ (List.mem_map_of_mem h)

theorem RefsOwned.grows {db db' : Database} (hgrows : Grows db db') {o : Uuid} {model : Model}
    {r r' : Row} (hsame : SameRefs model r r') (h : RefsOwned db o model r)
    : RefsOwned db' o model r' := by
  intro ref href hplatform id hid
  rw [hsame _ (fkRef_mem href)] at hid
  exact ownerAt_grows hgrows (h ref href hplatform id hid)

/-- A terminal acts for its own branch: a row that is scoped by its branch has this one. -/
def Pinned (t : Tenant) (model : Model) (r : Row) : Prop :=
  ∀ branchId, t.branchId = some branchId → model.tenantDirect = some .branchId →
    r.ref "branchId" = some branchId

structure NewRow (t : Tenant) (db : Database) (model : Model) (r : Row) : Prop where
  owner : ownerOf db model r = some t.ownerId
  refs : RefsOwned db t.ownerId model r
  pinned : Pinned t model r

structure OwnRow (t : Tenant) (db : Database) (key : Key) : Prop where
  owner : ownerAt db key = some t.ownerId
  pinned : ∀ e, db.get key = some e → Pinned t key.1 e.row

section Facts

variable (t : Tenant) (model : Model)

theorem Pinned.same {t : Tenant} {model : Model} {r r' : Row} (h : Pinned t model r)
    (hsame : SameRefs model r r') : Pinned t model r' := by
  intro branchId hbranch hscope
  rw [show "branchId" = ScopeColumn.name .branchId from rfl, hsame _ (scopeColumn_mem hscope)]
  exact h branchId hbranch hscope

def newRowFact (r : Row) : Fact where
  holds db := NewRow t db model r
  grows _ _ h hdb := ⟨ownerOf_grows h (.refl _ _) hdb.owner, hdb.refs.grows h (.refl _ _), hdb.pinned⟩

def ownRowFact (key : Key) : Fact where
  holds db := OwnRow t db key
  grows db db' h hdb := by
    refine ⟨ownerAt_grows h hdb.owner, ?_⟩
    intro e' hget'
    obtain ⟨e, hget, _⟩ := Option.bind_eq_some_iff.mp hdb.owner
    obtain ⟨e'', hget'', hsame⟩ := h key e hget
    rw [hget'] at hget''
    cases hget''
    exact (hdb.pinned e hget).same hsame

def scopeFact (scopeWhere : Row → Bool) : Fact where
  holds db := ∀ r, scopeWhere r → ownerOf db model r = some t.ownerId ∧ Pinned t model r
  grows _ _ h hdb r hr := ⟨ownerOf_grows h (.refl _ _) (hdb r hr).1, (hdb r hr).2⟩

def businessFact (o id : Uuid) : Fact where
  holds db := businessOwner db id = some o
  grows _ _ h hdb := businessOwner_grows h hdb

def resolvedFact (key : Key) (b : Uuid) : Fact where
  holds db := businessOf db key = some b
  grows _ _ h hdb := businessOf_grows h hdb

def branchFact (o id : Uuid) : Fact where
  holds db := ∃ b, branchBusiness db id = some b ∧ businessOwner db b = some o
  grows _ _ h hdb := by
    obtain ⟨b, hb, hbo⟩ := hdb
    exact ⟨b, branchBusiness_grows h hb, businessOwner_grows h hbo⟩

end Facts

end SentryPos.ScopedClient
