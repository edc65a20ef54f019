import SentryPos.ReadCommitted.Journal
import SentryPos.Scoped.Hook

/-!
This module contains that the audit rows are the history of all tables: done again in their order,
what they record gives what every run of requests has made of the rows.
-/

namespace SentryPos.ScopedClient

open ReadCommitted ChokePoint

/-- What an audit row records of a row: not the time of its deletion. -/
structure Image where
  model : Model
  id : Uuid
  deleted : Bool
  columns : Arg.Fields

def Image.key (i : Image) : Key :=
  (i.model, i.id)

def Entity.image (e : Entity) : Image where
  model := e.model
  id := e.row.id
  deleted := e.row.deletedAt.isSome
  columns := e.row.columns

/-- The model and the changes of an audit row that the client has written. -/
abbrev Record := Model × AuditLog

def AuditRow.record : AuditRow → Option Record
  | recorded _ model entry => some (model, entry)
  | added .. => none

/-- What a record says was done: without `before` a row is new, without `after` it is deleted. -/
def redo (record : Record) (images : List Image) : List Image :=
  match record.2.before, record.2.after with
  | none, none => images
  | none, some row => images ++ [Entity.image ⟨record.1, row⟩]
  | some _, some row =>
    Table.modify Image.key images (record.1, record.2.entityId) fun _ => Entity.image ⟨record.1, row⟩
  | some _, none =>
    Table.modify Image.key images (record.1, record.2.entityId) fun i => { i with deleted := true }

def auditJournal : Journal Write Database Record (List Image) where
  image db := db.entities.map Entity.image
  entry
    | .audit row => row.record
    | _ => none
  redo := redo
  image_apply := by
    intro w a db h
    cases w with
    | audit row => rfl
    | insert | update => cases h

section Changes

variable {db : Database} {model : Model}

theorem image_modify (f : Entity → Entity) (g : Image → Image) (key : Key)
    (h : ∀ e ∈ db.entities, e.key = key → (f e).image = g e.image)
    : (Table.modify Entity.key db.entities key f).map Entity.image
        = Table.modify Image.key (db.entities.map Entity.image) key g := by
  unfold Table.modify
  rw [List.map_map, List.map_map]
  apply List.map_congr_left
  intro e he
  have hkey : e.image.key = e.key := rfl
  simp only [Function.comp_apply, hkey]
  split
  . next heq => exact h e he heq
  . rfl

theorem image_update (hvalid : db.Valid) {id : Uuid} {current : Entity} {data : Patch}
    (hget : db.get (model, id) = some current) (operation : Operation) (before : Row)
    : auditJournal.image ((Write.update (model, id) data).apply db)
        = redo (model, ⟨operation, id, some before, some (data.apply current.row)⟩)
            (auditJournal.image db) := by
  apply image_modify
  intro e he hkey
  have hself := hvalid.get he
  rw [hkey, hget] at hself
  cases hself
  have hmodel : current.model = model := congrArg Prod.fst hkey
  unfold Entity.patch Entity.image
  rw [hmodel]

theorem image_delete (id : Uuid) (now : DateTime) (operation : Operation) (before : Row)
    : auditJournal.image ((Write.update (model, id) (deletedAt now)).apply db)
        = redo (model, ⟨operation, id, some before, none⟩) (auditJournal.image db) := by
  apply image_modify
  intro e _ _
  rfl

def newRecords (model : Model) (operation : Operation) (rows : List Row) : List Record :=
  rows.map fun row => (model, ⟨operation, row.id, none, some row⟩)

theorem image_insert (operation : Operation) (rows : List Row) (db : Database)
    : auditJournal.image (replay (rows.map fun row => Write.insert ⟨model, row⟩) db)
        = auditJournal.redoAll (newRecords model operation rows) (auditJournal.image db) := by
  induction rows generalizing db with
  | nil => rfl
  | cons row rows ih =>
    rw [List.map_cons, replay_cons, ih]
    unfold newRecords
    rw [List.map_cons, Journal.redoAll_cons]
    congr 1
    exact List.map_append

end Changes

/-- A record is of the request that writes it. -/
def AuditRow.IsOwn (ctx : RequestContext) : AuditRow → Prop
  | recorded stamp _ _ =>
    ∃ t, ctx = .tenant t ∧ stamp.actorType = t.actorType ∧ stamp.actorId = t.actorId
      ∧ stamp.ownerId = some t.ownerId
  | added .. => True

/-- Only requests in tenant scope change rows, and none changes an audit row. -/
def Write.IsOwn (ctx : RequestContext) : Write → Prop
  | insert _ | update .. => ∃ t, ctx = .tenant t
  | audit row => row.IsOwn ctx

structure Trail (ctx : RequestContext) (log : List Write) (locks : List Key) (db : Database)
    (pending : List Record) : Prop where
  owes : auditJournal.Owes Database.Valid log locks db pending
  own : ∀ w ∈ log, w.IsOwn ctx

theorem Trail.nil {ctx : RequestContext} {locks : List Key} {db : Database} (h : db.Valid)
    : Trail ctx [] locks db [] where
  owes := .nil h
  own := by simp

theorem Trail.stable {ctx : RequestContext} {log : List Write} {locks : List Key} {db db' : Database}
    {pending : List Record} (h : Trail ctx log locks db pending) (hkept : KeptAll Write locks db db')
    (hdb' : db'.Valid) : Trail ctx log locks db' pending where
  owes := h.owes.stable valid_constraint hkept hdb'
  own := h.own

/-- Writes of a statement that are what the records say, as long as its rows are what they are. -/
structure Records (ctx : RequestContext) (needs : List Key) (ws : List Write) (pending : List Record)
    (view : Database) : Prop where
  own : ∀ w ∈ ws, auditJournal.entry w = none ∧ w.IsOwn ctx
  covered : Covered ws needs
  valid : (replay ws view).Valid
  image : ∀ view' : Database, view'.Valid → (∀ key ∈ needs, view'.get key = view.get key) →
    auditJournal.image (replay ws view') = auditJournal.redoAll pending (auditJournal.image view')

def trailContract (ctx : RequestContext) : Contract Database Write Key Unit where
  Commit locks log db := Trail ctx log locks db []
  Mid _ := True
  Post _ _ := True

section Calls

variable (ctx : RequestContext) (states : Database → Prop)

def trailLogic : Logic Database Write Key Stmt :=
  (trailContract ctx).logic Database.Valid
    (Env.shared Write Stmt (fun _ _ => True) states Database.Valid)

variable {ctx states} {R : Type} {commits : List (Database × Database)} {log : List Write}
  {locks : List Key} {db : Database} {s : ScopeCache} {pending : List Record}
  {ok : R → ScopeCache → Post Database Write Key Unit}
  {err : HookError → ScopeCache → Post Database Write Key Unit}

theorem wp_reads {p : Hook R} (hp : StateCall.Reads p) (h : Trail ctx log locks db pending)
    (hok : ∀ r s db, Trail ctx log locks db pending → ok r s () commits log locks db)
    (herr : ∀ e s db, Trail ctx log locks db pending → err e s () commits log locks db)
    : StateCall.wp (trailLogic ctx states) p ok err commits log locks db s := by
  apply StateCall.wp_reads hp (fun _ => trivial) (fun _ _ _ _ _ => trivial) trivial h.owes.base
  . intro r s db' hkept _ hvalid
    exact hok r s db' (h.stable hkept hvalid)
  . intro e s db' hkept _ hvalid
    exact herr e s db' (h.stable hkept hvalid)

theorem wp_change {tag : Stmt} {needs : Database → List Key}
    {check : Database → Except HookError (List Write × R)} (pendingOf : R → List Record)
    (h : Trail ctx log locks db [])
    (hcheck : ∀ view ws r, view.Valid → check view = .ok (ws, r) →
      Records ctx (needs view) ws (pendingOf r) view)
    (hok : ∀ r s log locks db, Trail ctx log locks db (pendingOf r) →
      ok r s () commits log locks db)
    (herr : ∀ e s log locks db, Trail ctx log locks db [] → err e s () commits log locks db)
    : StateCall.wp (trailLogic ctx states) (StateCall.write tag needs check) ok err commits log locks
        db s := by
  apply StateCall.wp_write trivial
  . intro db' ws r hrely hinv _ hresult
    have h' := h.stable hrely.1 hinv.2
    have hrecords := hcheck _ ws r h'.owes.view hresult
    apply hok
    constructor
    . apply h'.owes.change (fun w hw => (hrecords.own w hw).1) hrecords.covered hrecords.valid _
        valid_constraint
      intro db'' hkept hview
      apply hrecords.image _ hview
      intro key hkey
      have hget : db'.get key = db''.get key := hkept key (List.mem_append_right _ hkey)
      exact (LockedRow.row_replay_congr log key hget).symm
    . intro w hw
      cases List.mem_append.mp hw with
      | inl hw => exact h'.own w hw
      | inr hw => exact (hrecords.own w hw).2
  . intro db' e hrely hinv _ _
    have h' := h.stable hrely.1 hinv.2
    apply herr
    exact ⟨h'.owes.weaken _, h'.own⟩

theorem wp_stampScope {t : Tenant} {model : Model} {entity : Row}
    {ok : Option Uuid × Option Uuid → ScopeCache → Post Database Write Key Unit}
    (h : Trail ctx log locks db pending)
    (hok : ∀ r s db, Trail ctx log locks db pending → ok r s () commits log locks db)
    : StateCall.wp (trailLogic ctx states) (stampScope t model entity) ok err commits log locks db
        s := by
  unfold stampScope
  dsimp only
  split
  . rw [StateCall.wp_bind]
    apply StateCall.wp_memo
    . intro r _
      exact hok _ s db h
    . intro _
      apply StateCall.wp_query trivial
      intro db' hrely hinv _
      exact hok _ _ db' (h.stable hrely.1 hinv.2)
  . exact hok _ s db h

variable {t : Tenant} {model : Model}

theorem wp_writeAudit {entry : AuditLog} {entity : Row}
    {ok : Unit → ScopeCache → Post Database Write Key Unit}
    (h : Trail (.tenant t) log locks db ((model, entry) :: pending))
    (hok : ∀ s log locks db, Trail (.tenant t) log locks db pending → ok () s () commits log locks db)
    : StateCall.wp (trailLogic (.tenant t) states) (writeAudit t model entry entity) ok err commits log
        locks db s := by
  unfold writeAudit
  rw [StateCall.wp_bind]
  apply wp_stampScope h
  intro scope s' db' h'
  apply StateCall.wp_write trivial
  . intro db'' ws r hrely hinv _ hresult
    have h'' := h'.stable hrely.1 hinv.2
    cases hresult
    apply hok
    constructor
    . apply h''.owes.record rfl
      . intro w hw key hkey
        rw [List.mem_singleton.mp hw] at hkey
        cases hkey
      . exact h''.owes.view.audit _
    . intro w hw
      cases List.mem_append.mp hw with
      | inl hw => exact h''.own w hw
      | inr hw =>
        rw [List.mem_singleton.mp hw]
        exact ⟨t, rfl, rfl, rfl, rfl⟩
  . intro db'' e _ _ _ hresult
    cases hresult

theorem wp_writeAudits {operation : Operation} {rows : List Row}
    {ok : PUnit → ScopeCache → Post Database Write Key Unit}
    (h : Trail (.tenant t) log locks db (newRecords model operation rows))
    (hok : ∀ s log locks db, Trail (.tenant t) log locks db [] → ok ⟨⟩ s () commits log locks db)
    : StateCall.wp (trailLogic (.tenant t) states)
        (rows.forM fun row => writeAudit t model ⟨operation, row.id, none, some row⟩ row) ok err commits
        log locks db s := by
  induction rows generalizing s log locks db with
  | nil => exact hok s log locks db h
  | cons row rows ih =>
    rw [List.forM, StateCall.wp_bind]
    apply wp_writeAudit h
    intro s' log' locks' db' h'
    exact ih h'

theorem wp_createRows {operation : Operation} {rows : List Row}
    {ok : Unit → ScopeCache → Post Database Write Key Unit}
    (h : Trail (.tenant t) log locks db [])
    (hok : ∀ s log locks db, Trail (.tenant t) log locks db [] → ok () s () commits log locks db)
    (herr : ∀ e s log locks db, Trail (.tenant t) log locks db [] → err e s () commits log locks db)
    : StateCall.wp (trailLogic (.tenant t) states) (createRows t model operation rows) ok err commits
        log locks db s := by
  unfold createRows insertRows
  rw [StateCall.wp_bind]
  apply wp_change (fun _ => newRecords model operation rows) h _ _ herr
  . intro view ws r hview hresult
    split at hresult
    . next hfree =>
      cases hresult
      constructor
      . intro w hw
        obtain ⟨row, _, heq⟩ := List.mem_map.mp hw
        rw [← heq]
        exact ⟨rfl, t, rfl⟩
      . intro w hw key hkey
        obtain ⟨row, hrow, heq⟩ := List.mem_map.mp hw
        rw [← heq] at hkey
        rw [List.mem_singleton.mp hkey]
        exact List.mem_map.mpr ⟨row, hrow, rfl⟩
      . exact hview.inserts hfree.1 hfree.2
      . intro view' _ _
        exact image_insert operation rows view'
    . cases hresult
  . intro _ s' log' locks' db' h'
    exact wp_writeAudits h' hok

theorem wp_changeRow {data : Patch} {before : Row} (entryOf : Row → AuditLog)
    {ok : Row → ScopeCache → Post Database Write Key Unit}
    (h : Trail (.tenant t) log locks db [])
    (hentry : ∀ (view : Database) (current : Entity), view.Valid →
      view.get (model, before.id) = some current →
        auditJournal.image ((Write.update (model, before.id) data).apply view)
          = redo (model, entryOf (data.apply current.row)) (auditJournal.image view))
    (hok : ∀ r s log locks db, Trail (.tenant t) log locks db [(model, entryOf r)] →
      ok r s () commits log locks db)
    (herr : ∀ e s log locks db, Trail (.tenant t) log locks db [] → err e s () commits log locks db)
    : StateCall.wp (trailLogic (.tenant t) states) (changeRow model data before.id) ok err commits log
        locks db s := by
  unfold changeRow
  apply wp_change (fun r => [(model, entryOf r)]) h _ hok herr
  intro view ws r hview hresult
  split at hresult
  . cases hresult
  . next current hcurrent =>
    cases hresult
    constructor
    . intro w hw
      rw [List.mem_singleton.mp hw]
      exact ⟨rfl, t, rfl⟩
    . intro w hw key hkey
      rw [List.mem_singleton.mp hw] at hkey
      exact hkey
    . exact hview.update _ _
    . intro view' hview' hsame
      rw [← hsame _ List.mem_cons_self] at hcurrent
      exact hentry view' current hview' hcurrent

theorem wp_updateRow {data : Patch} {before : Row}
    {ok : Row → ScopeCache → Post Database Write Key Unit}
    (h : Trail (.tenant t) log locks db [])
    (hok : ∀ r s log locks db, Trail (.tenant t) log locks db [] → ok r s () commits log locks db)
    (herr : ∀ e s log locks db, Trail (.tenant t) log locks db [] → err e s () commits log locks db)
    : StateCall.wp (trailLogic (.tenant t) states) (updateRow t model data before) ok err commits log
        locks db s := by
  unfold updateRow
  rw [StateCall.wp_bind]
  apply wp_changeRow (fun after => ⟨.update, before.id, some before, some after⟩) h _ _ herr
  . intro view current hview hcurrent
    exact image_update hview hcurrent _ _
  . intro after s' log' locks' db' h'
    rw [StateCall.wp_bind]
    apply wp_writeAudit h'
    intro s'' log'' locks'' db'' h''
    exact hok _ _ _ _ _ h''

theorem wp_deleteRow {now : DateTime} {before : Row}
    {ok : Row → ScopeCache → Post Database Write Key Unit}
    (h : Trail (.tenant t) log locks db [])
    (hok : ∀ r s log locks db, Trail (.tenant t) log locks db [] → ok r s () commits log locks db)
    (herr : ∀ e s log locks db, Trail (.tenant t) log locks db [] → err e s () commits log locks db)
    : StateCall.wp (trailLogic (.tenant t) states) (deleteRow t model now before) ok err commits log
        locks db s := by
  unfold deleteRow
  rw [StateCall.wp_bind]
  apply wp_changeRow (fun _ => ⟨.delete, before.id, some before, none⟩) h _ _ herr
  . intro view current _ _
    exact image_delete _ _ _ _
  . intro after s' log' locks' db' h'
    rw [StateCall.wp_bind]
    apply wp_writeAudit h'
    intro s'' log'' locks'' db'' h''
    exact hok _ _ _ _ _ h''

end Calls

theorem entities_replay {log : List Write}
    (h : ∀ w ∈ log, ∀ db : Database, (w.apply db).entities = db.entities) (db : Database)
    : (replay log db).entities = db.entities := by
  induction log generalizing db with
  | nil => rfl
  | cons w log ih =>
    rw [replay_cons, ih fun w' hw' => h w' (List.mem_cons_of_mem w hw')]
    exact h w List.mem_cons_self db

/-- Between two calls: what is not committed is recorded, and it is on a registered transaction. -/
structure Between (ctx : RequestContext) (registered : Bool) (log : List Write) (locks : List Key)
    (db : Database) : Prop where
  trail : Trail ctx log locks db []
  registered : ¬ registered → log = []

def KeepsTrail (ctx : RequestContext) (states : Database → Prop) (registered : Bool) {R : Type}
    (p : Hook R) : Prop :=
  ∀ commits log locks db s, Between ctx registered log locks db →
    StateCall.wp (trailLogic ctx states) p (fun _ _ _ _ => Between ctx registered)
      (fun _ _ _ _ => Between ctx registered) commits log locks db s

namespace KeepsTrail

variable {ctx : RequestContext} {states : Database → Prop} {registered : Bool} {R Q : Type}

theorem bind {p : Hook R} {k : R → Hook Q} (hp : KeepsTrail ctx states registered p)
    (hk : ∀ r, KeepsTrail ctx states registered (k r))
    : KeepsTrail ctx states registered (p >>= k) := by
  intro commits log locks db s h
  rw [StateCall.wp_bind]
  apply StateCall.wp_mono _ _ (hp commits log locks db s h)
  . intro r s' commits' log' locks' db' h'
    exact hk r commits' log' locks' db' s' h'
  . intro e s' commits' log' locks' db' h'
    exact h'

theorem reads {p : Hook R} (hp : StateCall.Reads p) : KeepsTrail ctx states registered p := by
  intro commits log locks db s h
  apply wp_reads hp h.trail
  . intro r s' db' h'
    exact ⟨h', h.registered⟩
  . intro e s' db' h'
    exact ⟨h', h.registered⟩

theorem pure (r : R) : KeepsTrail ctx states registered (pure r : Hook R) :=
  reads (.pure r)

theorem throw (e : HookError) : KeepsTrail ctx states registered (throw e : Hook R) :=
  reads (.throw e)

theorem forM {α : Type} {f : α → Hook PUnit} {xs : List α}
    (h : ∀ x ∈ xs, KeepsTrail ctx states registered (f x))
    : KeepsTrail ctx states registered (xs.forM f) := by
  induction xs with
  | nil => exact pure _
  | cons x xs ih =>
    rw [List.forM]
    apply bind (h x List.mem_cons_self)
    intro _
    exact ih fun y hy => h y (List.mem_cons_of_mem _ hy)

theorem transaction {tag : Stmt} {work : Hook R} (hwork : KeepsTrail ctx states true work)
    : KeepsTrail ctx states false (StateCall.transaction tag work) := by
  intro commits log locks db s h
  have hlog := h.registered (by simp)
  subst hlog
  have htrue : Between ctx true [] locks db := ⟨h.trail, by simp⟩
  apply StateCall.wp_transaction
  apply StateCall.wp_mono _ _ (hwork commits [] locks db s htrue)
  . intro r s' commits' log' locks' db' h'
    refine ⟨trivial, ?_⟩
    intro db'' hrely hinv _
    have h'' := h'.trail.stable hrely.1 hinv.2
    exact ⟨⟨⟨h''.owes.covered, h''.owes.view⟩, h''⟩, .nil h''.owes.view, fun _ => rfl⟩
  . intro e s' commits' log' locks' db' h'
    refine ⟨trivial, ?_⟩
    intro db'' hrely hinv
    exact ⟨.nil hinv.2, fun _ => rfl⟩

theorem atomically {work : Hook R} (hwork : KeepsTrail ctx states true work)
    : KeepsTrail ctx states registered (atomically registered work) := by
  cases registered with
  | true => exact hwork
  | false => exact transaction hwork

variable {t : Tenant} {model : Model}

theorem createRows (operation : Operation) (rows : List Row)
    : KeepsTrail (.tenant t) states true (createRows t model operation rows) := by
  intro commits log locks db s h
  apply wp_createRows h.trail
  . intro s' log' locks' db' h'
    exact ⟨h', by simp⟩
  . intro e s' log' locks' db' h'
    exact ⟨h', by simp⟩

theorem updateRow (data : Patch) (before : Row)
    : KeepsTrail (.tenant t) states true (updateRow t model data before) := by
  intro commits log locks db s h
  apply wp_updateRow h.trail
  . intro r s' log' locks' db' h'
    exact ⟨h', by simp⟩
  . intro e s' log' locks' db' h'
    exact ⟨h', by simp⟩

theorem deleteRow (now : DateTime) (before : Row)
    : KeepsTrail (.tenant t) states true (deleteRow t model now before) := by
  intro commits log locks db s h
  apply wp_deleteRow h.trail
  . intro r s' log' locks' db' h'
    exact ⟨h', by simp⟩
  . intro e s' log' locks' db' h'
    exact ⟨h', by simp⟩

theorem createPoliced (data : Row)
    : KeepsTrail (.tenant t) states registered (createPoliced t registered model data) := by
  apply bind (reads (reads_policeCreateData t model data))
  intro data'
  apply atomically
  apply bind (createRows _ _)
  intro _
  exact pure _

theorem runMutation (now : DateTime) (m : Mutation)
    : KeepsTrail (.tenant t) states registered (runMutation t registered now model m) := by
  apply bind (reads (reads_tenantWhereFor t model))
  intro scopeWhere
  have hfind : ∀ p, StateCall.Reads (findFirst model p) := fun _ => .query _ _
  have hfindMany : ∀ p, StateCall.Reads (findMany model p) := fun _ => .query _ _
  have hupdate : ∀ data before,
      KeepsTrail (.tenant t) states true (discard (ScopedClient.updateRow t model data before)) := by
    intro data before
    apply bind (updateRow data before)
    intro _
    exact pure _
  have hdelete : ∀ before,
      KeepsTrail (.tenant t) states true (discard (ScopedClient.deleteRow t model now before)) := by
    intro before
    apply bind (deleteRow now before)
    intro _
    exact pure _
  cases m with
  | create data => exact createPoliced data
  | createMany data =>
    apply bind (reads (.mapM fun row _ => reads_policeCreateData t model row))
    intro policed
    apply atomically
    apply bind (createRows _ _)
    intro _
    exact pure _
  | upsert where_ create update =>
    apply bind (reads (hfind _))
    intro existing
    cases existing with
    | none => exact createPoliced create
    | some before =>
      apply atomically
      apply bind (updateRow _ _)
      intro _
      exact pure _
  | delete where_ =>
    apply bind (reads (hfind _))
    intro existing
    cases existing with
    | none => exact throw _
    | some before =>
      apply atomically
      apply bind (deleteRow _ _)
      intro _
      exact pure _
  | deleteMany where_ =>
    apply bind (reads (hfindMany _))
    intro targets
    apply atomically
    apply bind (forM fun before _ => hdelete before)
    intro _
    exact pure _
  | update where_ data =>
    apply bind (reads (hfind _))
    intro existing
    cases existing with
    | none => exact throw _
    | some before =>
      apply atomically
      apply bind (updateRow _ _)
      intro _
      exact pure _
  | updateMany where_ data =>
    apply bind (reads (hfindMany _))
    intro targets
    apply atomically
    apply bind (forM fun before _ => hupdate _ before)
    intro _
    exact pure _

theorem addsAudits {tag tag' : Stmt} {check : Database → Except HookError (List Write × Response)}
    (h : ∀ view ws r, check view = .ok (ws, r) → ∀ w ∈ ws, ∃ stamp text, w = .audit (.added stamp text))
    : KeepsTrail ctx states false
        (StateCall.transaction tag (StateCall.write tag' (fun _ => []) check)) := by
  apply transaction
  intro commits log locks db s hbetween
  apply wp_change (fun _ => []) hbetween.trail
  . intro view ws r hview hresult
    have haudits : ∀ w ∈ ws,
        auditJournal.entry w = none ∧ w.IsOwn ctx ∧ w.keys = []
          ∧ ∀ db : Database, (w.apply db).entities = db.entities := by
      intro w hw
      obtain ⟨stamp, text, heq⟩ := h view ws r hresult w hw
      rw [heq]
      exact ⟨rfl, trivial, rfl, fun _ => rfl⟩
    have hentities : ∀ view' : Database, (replay ws view').entities = view'.entities := by
      intro view'
      exact entities_replay (fun w hw => (haudits w hw).2.2.2) view'
    constructor
    . intro w hw
      exact ⟨(haudits w hw).1, (haudits w hw).2.1⟩
    . intro w hw key hkey
      rw [show Locking.keys w = [] from (haudits w hw).2.2.1] at hkey
      cases hkey
    . unfold Database.Valid UniqueIndex.Unique
      rw [show UniqueIndex.entries Write _ = _ from congrArg (List.map Entity.key) (hentities view)]
      exact hview
    . intro view' _ _
      exact congrArg (List.map Entity.image) (hentities view')
  . intro r s' log' locks' db' h'
    exact ⟨h', by simp⟩
  . intro e s' log' locks' db' h'
    exact ⟨h', by simp⟩

end KeepsTrail

/-- The calls that write an audit row of every row that they change. -/
def Call.isRecorded : Call → Bool
  | updateManyAndReturn .. => false
  | _ => true

section Requests

variable {ctx : RequestContext} {states : Database → Prop} {registered : Bool}

theorem keepsTrail_query {rows : Row → Bool} {audits : Stamp → Bool} {c : Call}
    (hdirect : registered → ¬ c.isDirect) (hrecorded : c.isRecorded)
    : KeepsTrail ctx states registered (query rows audits c) := by
  cases c with
  | read => exact .reads (.query _ _)
  | readAudits => exact .reads (.query _ _)
  | mutation | createManyAndReturn | changeAudits => exact .throw _
  | updateManyAndReturn => cases hrecorded
  | createAudits operation data =>
    cases registered with
    | true => exact absurd rfl (hdirect rfl)
    | false =>
      apply KeepsTrail.addsAudits
      intro view ws r hresult w hw
      cases hresult
      obtain ⟨a, _, heq⟩ := List.mem_map.mp hw
      exact ⟨a.1, a.2, heq.symm⟩
  | updateAuditsAndReturn where_ =>
    cases registered with
    | true => exact absurd rfl (hdirect rfl)
    | false =>
      apply KeepsTrail.addsAudits
      intro view ws r hresult w hw
      split at hresult
      . cases hresult
      . cases hresult
        cases hw

theorem keepsTrail_allOperations {now : DateTime} {c : Call} (hdirect : registered → ¬ c.isDirect)
    (hrecorded : c.isRecorded)
    : KeepsTrail ctx states registered (allOperations ctx registered now c) := by
  have hquery : ∀ rows audits, KeepsTrail ctx states registered (query rows audits c) :=
    fun _ _ => keepsTrail_query hdirect hrecorded
  unfold allOperations
  cases ctx with
  | unauthenticated => exact .throw _
  | platform adminId =>
    dsimp only
    split
    . exact hquery _ _
    . split
      . exact .throw _
      . exact hquery _ _
  | tenant t =>
    dsimp only
    split
    . exact .throw _
    . exact hquery _ _
    . exact .bind (.reads (reads_auditWhere t)) fun _ => hquery _ _
    . exact .bind (.reads (reads_auditWhere t)) fun _ => hquery _ _
    . apply KeepsTrail.bind (.reads (reads_assertTenantModel _))
      intro _
      exact .bind (.reads (reads_tenantWhereFor t _)) fun _ => hquery _ _
    . apply KeepsTrail.bind (.reads (reads_assertTenantModel _))
      intro _
      exact .bind (.reads (reads_tenantWhereFor t _)) fun _ => hquery _ _
    . apply KeepsTrail.bind (.reads (reads_assertTenantModel _))
      intro _
      exact .runMutation _ _
    . apply KeepsTrail.bind (.reads (reads_assertTenantModel _))
      intro _
      apply KeepsTrail.bind
      . exact .bind (.reads (reads_tenantWhereFor t _)) fun _ => .pure _
      . intro _
        exact .throw _

theorem Service.wp_trail (service : Service registered) (h : service.All (·.isRecorded))
    {commits : List (Database × Database)} {log : List Write} {locks : List Key} {db : Database}
    {cache : ScopeCache} (hbetween : Between ctx registered log locks db)
    : (service.prog ctx cache).wp (trailLogic ctx states) (trailContract ctx).toPost commits log locks
        db := by
  -- Between two calls nothing is left to be recorded.
  induction service generalizing commits log locks db cache with
  | done => trivial
  | call c now hdirect next ih =>
    unfold Service.prog
    rw [Prog.wp_bind]
    have hcall : KeepsTrail ctx states _ (allOperations ctx _ now c) :=
      keepsTrail_allOperations hdirect h.1
    apply Prog.wp_mono _ (hcall commits log locks db cache hbetween)
    intro r commits' log' locks' db' h'
    apply ih _ (h.2 _)
    cases r with
    | mk result cache' => cases result <;> exact h'
  | begin next ih => exact ih h ⟨hbetween.trail, by simp⟩
  | commit next ih =>
    refine ⟨trivial, ?_⟩
    intro db' hrely hinv _
    have h' := hbetween.trail.stable hrely.1 hinv.2
    exact ⟨⟨⟨h'.owes.covered, h'.owes.view⟩, h'⟩, ih h ⟨.nil h'.owes.view, fun _ => rfl⟩⟩
  | rollback next ih =>
    refine ⟨trivial, ?_⟩
    intro db' _ hinv
    exact ih h ⟨.nil hinv.2, fun _ => rfl⟩

end Requests

/-- The audit rows that were added are the history of what was done to the rows. -/
structure Explains (added : List AuditRow) (db db' : Database) : Prop where
  audits : db'.audits = db.audits ++ added
  images : auditJournal.image db'
    = auditJournal.redoAll (added.filterMap AuditRow.record) (auditJournal.image db)

theorem Explains.trans {added added' : List AuditRow} {db db' db'' : Database}
    (h : Explains added db db') (h' : Explains added' db' db'') : Explains (added ++ added') db db'' where
  audits := by rw [h'.audits, h.audits, List.append_assoc]
  images := by rw [h'.images, h.images, List.filterMap_append, Journal.redoAll_append]

theorem audits_replay {ctx : RequestContext} {log : List Write} (h : ∀ w ∈ log, w.IsOwn ctx)
    (db : Database)
    : ∃ added, (replay log db).audits = db.audits ++ added
        ∧ added.filterMap AuditRow.record = auditJournal.entries log ∧ ∀ row ∈ added, row.IsOwn ctx := by
  induction log generalizing db with
  | nil => exact ⟨[], by simp, rfl, by simp⟩
  | cons w log ih =>
    have hw := h w List.mem_cons_self
    obtain ⟨added, haudits, hentries, hown⟩ :=
      ih (fun w' hw' => h w' (List.mem_cons_of_mem w hw')) (w.apply db)
    rw [replay_cons, store_apply]
    cases w with
    | insert | update => exact ⟨added, haudits, hentries, hown⟩
    | audit row =>
      refine ⟨row :: added, ?_, ?_, ?_⟩
      . rw [haudits]
        simp [Write.apply]
      . unfold Journal.entries at hentries ⊢
        rw [List.filterMap_cons, List.filterMap_cons, hentries]
        rfl
      . intro row' hrow'
        cases List.mem_cons.mp hrow' with
        | inl heq =>
          rw [heq]
          exact hw
        | inr hmem => exact hown row' hmem

theorem Trail.explains {ctx : RequestContext} {log : List Write} {locks : List Key} {db : Database}
    (h : Trail ctx log locks db [])
    : (∃ added, Explains added db (replay log db) ∧ ∀ row ∈ added, row.IsOwn ctx)
        ∧ ((∀ t, ctx ≠ .tenant t) → (replay log db).entities = db.entities) := by
  constructor
  . obtain ⟨added, haudits, hentries, hown⟩ := audits_replay h.own db
    refine ⟨added, ⟨haudits, ?_⟩, hown⟩
    rw [hentries]
    exact h.owes.settled
  . intro hctx
    apply entities_replay
    intro w hw db'
    have hown := h.own w hw
    cases w with
    | insert | update =>
      obtain ⟨t, ht⟩ := hown
      exact absurd ht (hctx t)
    | audit => rfl

namespace Stall

def owner : Tenant := ⟨1, .owner 2⟩

def till : Tenant := ⟨1, .terminal 25 10 20⟩

def database : Database where
  entities := [
    ⟨.business, ⟨10, none, [("ownerId", .uuid 1)]⟩⟩,
    ⟨.branch, ⟨20, none, [("businessId", .uuid 10)]⟩⟩,
    ⟨.terminal, ⟨25, none, [("branchId", .uuid 20)]⟩⟩,
    ⟨.category, ⟨30, none, [("businessId", .uuid 10)]⟩⟩,
    ⟨.product, ⟨40, none, [("businessId", .uuid 10), ("categoryId", .uuid 30)]⟩⟩]
  audits := []

def priced : Patch where
  apply r := { r with columns := Arg.Fields.set r.columns "price" (.num 4500) }
  id_apply _ := rfl

def product : TableModel := ⟨.product, product_ne_auditLog⟩

def shift : TableModel := ⟨.shift, shift_ne_auditLog⟩

/-- The owner changes the price of the product and takes it off the menu, in one transaction. -/
def repriced : Request where
  ctx := .tenant owner
  service :=
    .begin <|
      .call (.mutation product (.update (fun r => r.id = 40) priced)) 100 nofun fun _ =>
        .call (.mutation product (.delete fun r => r.id = 40)) 101 nofun fun _ =>
          .commit .done

/-- The till opens a shift meanwhile. -/
def opened : Request where
  ctx := .tenant till
  service :=
    .call (.mutation shift (.create ⟨60, none, [("terminalId", .uuid 25)]⟩)) 100 nofun fun _ => .done

def requests : Fin 2 → Request
  | 0 => repriced
  | 1 => opened

/-- The shift is opened after the price has changed and before it is committed. -/
def schedule : List (Fin 2) :=
  inRounds 1 [[3, 4], [5, 2]]

theorem valid_database : database.Valid := by
  unfold Database.Valid UniqueIndex.Unique
  decide

theorem recorded_requests (i : Fin 2) : (requests i).service.All (·.isRecorded) := by
  match i with
  | 0 => exact ⟨rfl, fun _ => ⟨rfl, fun _ => trivial⟩⟩
  | 1 => exact ⟨rfl, fun _ => trivial⟩

theorem schedule_commits
    : ((Config.init database fun i => (requests i).prog).turns schedule).map (fun c =>
        (c.history.map (·.client), c.db.audits.length, c.db.entities.length))
      = some ([0, 1], 3, 6) := by
  decide +kernel

/-- An administrator changes all prices with an operation that the hook takes for a read. -/
def quiet : Request where
  ctx := .platform 9
  service :=
    .call (.updateManyAndReturn product (fun _ => true) true priced) 100 nofun fun _ => .done

theorem quiet_commits
    : ((Config.init database fun _ : Fin 1 => quiet.prog).turns [0, 0]).map (fun c =>
        (c.db.audits.length, (auditJournal.image c.db).map fun i => Arg.Fields.has i.columns "price"))
      = some (0, [false, false, false, false, true]) := by
  decide +kernel

end Stall

theorem audit_log_has_gaps
    : ∃ c, Run () (.init Stall.database fun _ : Fin 1 => Stall.quiet.prog) c
        ∧ ¬ ∃ added, Explains added Stall.database c.db := by
  have hcommits := Stall.quiet_commits
  simp only [Option.map_eq_some_iff, Prod.mk.injEq] at hcommits
  obtain ⟨c, hturns, haudits, hprices⟩ := hcommits
  refine ⟨c, Config.run_of_turns () _ hturns, ?_⟩
  intro ⟨added, hadded⟩
  have hnone : added = [] := by
    have haudits' := hadded.audits
    rw [List.length_eq_zero_iff.mp haudits] at haudits'
    simpa [Stall.database] using haudits'.symm
  have himages := hadded.images
  rw [hnone] at himages
  rw [himages] at hprices
  exact absurd hprices (by decide)

end SentryPos.ScopedClient
