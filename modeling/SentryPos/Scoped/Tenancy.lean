import SentryPos.Scoped.Policing

/-!
This module contains that the scoped client keeps tenants apart: in every run of requests of any
owners and terminals, each changes rows of its own owner only, and no row ever points to a row of
another owner, as long as the data of updates leave the references of a row alone.
-/

namespace SentryPos.ScopedClient

open ReadCommitted ChokePoint

/-- Between two statements: the writes of the open transaction keep tenants apart. -/
structure Apart (ctx : RequestContext) (registered : Bool) (log : List Write) (locks : List Key)
    (db : Database) (s : ScopeCache) : Prop where
  held : Held ctx log locks db
  registered : ¬ registered → log = []
  tenant : ∀ t, ctx = .tenant t → CacheSound t db s ∧ (tenantFact t).holds db

theorem Apart.stable {ctx : RequestContext} {registered : Bool} {log : List Write} {locks : List Key}
    {db db' : Database} {s : ScopeCache} (h : Apart ctx registered log locks db s)
    (hkept : KeptAll Write locks db db') (hgrows : Grows db db') (hdb' : db'.Valid)
    : Apart ctx registered log locks db' s where
  held := h.held.stable hkept hgrows hdb'
  registered := h.registered
  tenant t ht := ⟨(h.tenant t ht).1.grows hgrows, (tenantFact t).grows _ _ hgrows (h.tenant t ht).2⟩

theorem Apart.calm {t : Tenant} {registered : Bool} {log : List Write} {locks : List Key}
    {db : Database} {s : ScopeCache} (h : Apart (.tenant t) registered log locks db s)
    : Calm t log locks db s :=
  ⟨h.held, (h.tenant t rfl).1, (h.tenant t rfl).2⟩

theorem Calm.apart {t : Tenant} {registered : Bool} {log : List Write} {locks : List Key}
    {db : Database} {s : ScopeCache} (h : Calm t log locks db s)
    (hregistered : ¬ registered → log = []) : Apart (.tenant t) registered log locks db s where
  held := h.held
  registered := hregistered
  tenant t' ht := by
    cases ht
    exact ⟨h.cache, h.tenant⟩

theorem Write.Allowed.apply_grows {ctx : RequestContext} {db : Database} {w : Write}
    (h : w.Allowed ctx db) (cur : Database) : Grows cur (w.apply cur) := by
  intro key e hget
  cases w with
  | insert e' => exact ⟨e, get_insert_of_some hget, .refl _ _⟩
  | update key' data =>
    by_cases heq : key = key'
    . subst heq
      obtain ⟨t, _, _, hsame⟩ := h
      rw [get_update_self, hget]
      exact ⟨_, rfl, hsame e.row⟩
    . rw [get_update_of_ne heq]
      exact ⟨e, hget, .refl _ _⟩
  | audit => exact ⟨e, hget, .refl _ _⟩

theorem grows_replay {ctx : RequestContext} {db : Database} {log : List Write}
    (h : ∀ w ∈ log, w.Allowed ctx db) (cur : Database) : Grows cur (replay log cur) := by
  induction log generalizing cur with
  | nil => exact .refl cur
  | cons w log ih =>
    rw [replay_cons]
    apply ((h w List.mem_cons_self).apply_grows cur).trans
    exact ih (fun w' hw' => h w' (List.mem_cons_of_mem w hw')) _

def KeepsApart (ctx : RequestContext) (states : Database → Prop) (registered : Bool) (P : Fact)
    {R : Type} (p : Hook R) : Prop :=
  ∀ commits log locks db s, Apart ctx registered log locks db s → P.holds db →
    StateCall.wp (tenancyLogic ctx states) p
      (fun _ s' _ _ log' locks' db' => Apart ctx registered log' locks' db' s' ∧ Grows db db')
      (fun _ s' _ _ log' locks' db' => Apart ctx registered log' locks' db' s' ∧ Grows db db')
      commits log locks db s

namespace KeepsApart

variable {ctx : RequestContext} {states : Database → Prop} {registered : Bool} {P P' : Fact}
  {R S : Type}

theorem bind {p : Hook R} {k : R → Hook S} (hp : KeepsApart ctx states registered P p)
    (hk : ∀ r, KeepsApart ctx states registered P (k r))
    : KeepsApart ctx states registered P (p >>= k) := by
  intro commits log locks db s h hP
  rw [StateCall.wp_bind]
  apply StateCall.wp_mono _ (fun _ _ _ _ _ _ h => h) (hp commits log locks db s h hP)
  intro r s' commits' log' locks' db' h'
  apply StateCall.wp_mono _ _ (hk r commits' log' locks' db' s' h'.1 (P.grows _ _ h'.2 hP))
  . intro r' s'' commits'' log'' locks'' db'' h''
    exact ⟨h''.1, h'.2.trans h''.2⟩
  . intro e s'' commits'' log'' locks'' db'' h''
    exact ⟨h''.1, h'.2.trans h''.2⟩

theorem learns {t : Tenant} {p : Hook R} {Q : R → Fact} {k : R → Hook S}
    (hp : Learns t states P p Q)
    (hk : ∀ r, KeepsApart (.tenant t) states registered (P.and (Q r)) (k r))
    : KeepsApart (.tenant t) states registered P (p >>= k) := by
  intro commits log locks db s h hP
  rw [StateCall.wp_bind]
  apply StateCall.wp_mono _ _ (hp commits log locks db s h.calm hP)
  . intro r s' commits' log' locks' db' h'
    obtain ⟨⟨hlog, hlocks⟩, hcalm, hgrows, hQ⟩ := h'
    subst hlog hlocks
    have hnext := hk r commits' log' locks' db' s' (hcalm.apart h.registered)
      ⟨P.grows _ _ hgrows hP, hQ⟩
    apply StateCall.wp_mono _ _ hnext
    . intro r' s'' commits'' log'' locks'' db'' h''
      exact ⟨h''.1, hgrows.trans h''.2⟩
    . intro e s'' commits'' log'' locks'' db'' h''
      exact ⟨h''.1, hgrows.trans h''.2⟩
  . intro e s' commits' log' locks' db' h'
    obtain ⟨⟨hlog, hlocks⟩, hcalm, hgrows⟩ := h'
    subst hlog hlocks
    exact ⟨hcalm.apart h.registered, hgrows⟩

theorem pure (r : R) : KeepsApart ctx states registered P (pure r : Hook R) :=
  fun _ _ _ db _ h _ => ⟨h, .refl db⟩

theorem throw (e : HookError) : KeepsApart ctx states registered P (throw e : Hook R) :=
  fun _ _ _ db _ h _ => ⟨h, .refl db⟩

theorem query (tag : Stmt) (q : Database → R)
    : KeepsApart ctx states registered P (StateCall.query tag q) := by
  intro commits log locks db s h _
  apply StateCall.wp_query trivial
  intro db' hrely hinv _
  exact ⟨h.stable hrely.1 hrely.2 hinv.2, hrely.2⟩

theorem forM {α : Type} {f : α → Hook PUnit} {xs : List α}
    (h : ∀ x ∈ xs, KeepsApart ctx states registered P (f x))
    : KeepsApart ctx states registered P (xs.forM f) := by
  induction xs with
  | nil => exact pure _
  | cons x xs ih =>
    rw [List.forM]
    apply bind (h x List.mem_cons_self)
    intro _
    exact ih fun y hy => h y (List.mem_cons_of_mem _ hy)

/-- A statement of an open transaction: it writes what a tenant may write, whatever it sees. -/
theorem write {tag : Stmt} {needs : Database → List Key}
    {check : Database → Except HookError (List Write × R)}
    (h : ∀ view ws r, view.Valid → check view = .ok (ws, r) →
      Covered ws (needs view) ∧ (replay ws view).Valid
        ∧ ∀ db, P.holds db → ∀ w ∈ ws, w.Allowed ctx db)
    : KeepsApart ctx states true P (StateCall.write tag needs check) := by
  intro commits log locks db s hapart hP
  apply StateCall.wp_write trivial
  . intro db' ws r hrely hinv _ hresult
    have hapart' := hapart.stable hrely.1 hrely.2 hinv.2
    obtain ⟨hcovered, hview, hallowed⟩ := h _ ws r hapart'.held.view hresult
    refine ⟨⟨⟨?_, hinv.2, ?_, ?_⟩, by simp, hapart'.tenant⟩, hrely.2⟩
    . exact hapart'.held.covered.append hcovered
    . rw [replay_append]
      exact hview
    . intro w hw
      cases List.mem_append.mp hw with
      | inl hw => exact hapart'.held.allowed w hw
      | inr hw => exact hallowed db' (P.grows _ _ hrely.2 hP) w hw
  . intro db' e hrely hinv _ _
    have hapart' := hapart.stable hrely.1 hrely.2 hinv.2
    refine ⟨⟨⟨?_, hinv.2, hapart'.held.view, hapart'.held.allowed⟩, by simp, hapart'.tenant⟩, hrely.2⟩
    exact hapart'.held.covered.weaken _

theorem transaction {tag : Stmt} {work : Hook R} (hwork : KeepsApart ctx states true P work)
    : KeepsApart ctx states false P (StateCall.transaction tag work) := by
  intro commits log locks db s h hP
  have hlog := h.registered (by simp)
  subst hlog
  have htrue : Apart ctx true [] locks db s := ⟨h.held, by simp, h.tenant⟩
  apply StateCall.wp_transaction
  apply StateCall.wp_mono _ _ (hwork commits [] locks db s htrue hP)
  . intro r s' commits' log' locks' db' h'
    refine ⟨trivial, ?_⟩
    intro db'' hrely hinv _
    have h'' := h'.1.stable hrely.1 hrely.2 hinv.2
    have hgrows := grows_replay h''.held.allowed db''
    refine ⟨⟨⟨h''.held.covered, h''.held.view⟩, h''.held.allowed⟩, ⟨?_, fun _ => rfl, ?_⟩, ?_⟩
    . exact .nil h''.held.view
    . intro t ht
      exact ⟨(h''.tenant t ht).1.grows hgrows, (tenantFact t).grows _ _ hgrows (h''.tenant t ht).2⟩
    . exact (h'.2.trans hrely.2).trans hgrows
  . intro e s' commits' log' locks' db' h'
    refine ⟨trivial, ?_⟩
    intro db'' hrely hinv
    have h'' := h'.1.stable hrely.1 hrely.2 hinv.2
    exact ⟨⟨.nil hinv.2, fun _ => rfl, h''.tenant⟩, h'.2.trans hrely.2⟩

theorem atomically {work : Hook R} (hwork : KeepsApart ctx states true P work)
    : KeepsApart ctx states registered P (atomically registered work) := by
  cases registered with
  | true => exact hwork
  | false => exact transaction hwork

end KeepsApart

/-- Data of an update that leaves the references of a row alone. -/
def Patch.KeepsRefs (model : Model) (data : Patch) : Prop :=
  ∀ r, SameRefs model r (data.apply r)

theorem keepsRefs_deletedAt (model : Model) (now : DateTime)
    : Patch.KeepsRefs model (deletedAt now) :=
  fun _ _ _ => rfl

def Mutation.KeepsRefs (model : Model) : Mutation → Prop
  | .upsert _ _ data | .update _ data | .updateMany _ data => Patch.KeepsRefs model data
  | _ => True

/--
The data of updates leave references alone, and an administrator makes none of the updates that the
hook takes for reads.
-/
def Call.IsTame (ctx : RequestContext) : Call → Prop
  | mutation model m => Mutation.KeepsRefs model m
  | updateManyAndReturn model _ _ data => (∃ t, ctx = .tenant t) ∧ Patch.KeepsRefs model data
  | _ => True

namespace KeepsApart

variable {states : Database → Prop} {registered : Bool} {P : Fact} {t : Tenant} {model : Model}

theorem learns_stampScope {entity : Row}
    : Learns t states P (stampScope t model entity) fun _ => .pure True := by
  unfold stampScope
  dsimp only
  split
  . apply Learns.bind (learns_branchToBusiness _)
    intro _
    apply Learns.pure
    intro _ _ _
    trivial
  . apply Learns.pure
    intro _ _ _
    trivial

theorem writeAudit (entry : AuditLog) (entity : Row)
    : KeepsApart (.tenant t) states true P (writeAudit t model entry entity) := by
  apply learns learns_stampScope
  intro scope
  apply write
  intro view ws r hview hresult
  cases hresult
  refine ⟨?_, hview.audit _, ?_⟩
  . intro w hw key hkey
    rw [List.mem_singleton.mp hw] at hkey
    cases hkey
  . intro db _ w hw
    rw [List.mem_singleton.mp hw]
    trivial

theorem createRows (operation : Operation) {rows : List Row}
    (hrows : ∀ db, P.holds db → (Fact.all rows (newRowFact t model)).holds db)
    : KeepsApart (.tenant t) states true P (createRows t model operation rows) := by
  apply bind
  . apply write
    intro view ws r hview hresult
    split at hresult
    . next hfree =>
      cases hresult
      refine ⟨?_, hview.inserts hfree.1 hfree.2, ?_⟩
      . intro w hw key hkey
        obtain ⟨row, hrow, heq⟩ := List.mem_map.mp hw
        rw [← heq] at hkey
        rw [List.mem_singleton.mp hkey]
        exact List.mem_map.mpr ⟨row, hrow, rfl⟩
      . intro db hP w hw
        obtain ⟨row, hrow, heq⟩ := List.mem_map.mp hw
        rw [← heq]
        exact ⟨t, rfl, hrows db hP row hrow⟩
    . cases hresult
  . intro _
    apply forM
    intro row _
    exact writeAudit _ _

theorem changeRow {data : Patch} {id : Uuid} (hdata : Patch.KeepsRefs model data)
    (hown : ∀ db, P.holds db → OwnRow t db (model, id))
    : KeepsApart (.tenant t) states true P (changeRow model data id) := by
  apply write
  intro view ws r hview hresult
  split at hresult
  . cases hresult
  . cases hresult
    refine ⟨?_, hview.update _ _, ?_⟩
    . intro w hw key hkey
      rw [List.mem_singleton.mp hw] at hkey
      exact hkey
    . intro db hP w hw
      rw [List.mem_singleton.mp hw]
      exact ⟨t, rfl, hown db hP, hdata⟩

theorem updateRow {data : Patch} {before : Row} (hdata : Patch.KeepsRefs model data)
    (hown : ∀ db, P.holds db → OwnRow t db (model, before.id))
    : KeepsApart (.tenant t) states true P (updateRow t model data before) := by
  apply bind (changeRow hdata hown)
  intro after
  apply bind (writeAudit _ _)
  intro _
  exact pure _

theorem deleteRow (now : DateTime) {before : Row}
    (hown : ∀ db, P.holds db → OwnRow t db (model, before.id))
    : KeepsApart (.tenant t) states true P (deleteRow t model now before) := by
  apply bind (changeRow (keepsRefs_deletedAt model now) hown)
  intro after
  apply bind (writeAudit _ _)
  intro _
  exact pure _

theorem createPoliced (hmodel : model.tenantDirect.isSome) (data : Row)
    : KeepsApart (.tenant t) states registered P (createPoliced t registered model data) := by
  apply learns (learns_policeCreateData hmodel)
  intro data'
  apply atomically
  apply bind
  . apply createRows
    intro db hP row hrow
    rw [List.mem_singleton.mp hrow]
    exact hP.2
  . intro _
    exact pure _

theorem learns_policed (hmodel : model.tenantDirect.isSome) (data : List Row)
    : Learns t states P (data.mapM (policeCreateData t model)) fun policed =>
        Fact.all policed (newRowFact t model) := by
  induction data generalizing P with
  | nil =>
    rw [List.mapM_nil]
    apply Learns.pure
    intro db _ _ row hrow
    cases hrow
  | cons row data ih =>
    rw [List.mapM_cons]
    apply Learns.bind (learns_policeCreateData hmodel)
    intro out
    apply Learns.bind ih
    intro policed
    apply Learns.pure
    intro db _ hP row' hrow'
    cases List.mem_cons.mp hrow' with
    | inl heq =>
      rw [heq]
      exact hP.1.2
    | inr hmem => exact hP.2 row' hmem

theorem runMutation (hmodel : model.tenantDirect.isSome) (now : DateTime) {m : Mutation}
    (hm : Mutation.KeepsRefs model m)
    : KeepsApart (.tenant t) states registered P (runMutation t registered now model m) := by
  apply learns (learns_tenantWhereFor hmodel)
  intro scopeWhere
  have hscope : ∀ db, (P.and (scopeFact t model scopeWhere)).holds db →
      (scopeFact t model scopeWhere).holds db := fun _ hP => hP.2
  -- the filters of all mutations are narrower than the scope
  have hlive : ∀ (where_ : Row → Bool) r, (where_ r && scopeWhere r && isLive r) = true →
      scopeWhere r = true := by
    intro where_ r h
    simp only [Bool.and_eq_true] at h
    exact h.1.2
  have hall : ∀ (where_ : Row → Bool) r, (where_ r && scopeWhere r) = true →
      scopeWhere r = true := by
    intro where_ r h
    simp only [Bool.and_eq_true] at h
    exact h.2
  cases m with
  | create data => exact createPoliced hmodel data
  | createMany data =>
    apply learns (learns_policed hmodel data)
    intro policed
    apply atomically
    apply bind
    . apply createRows
      intro db hP
      exact hP.2
    . intro _
      exact pure _
  | upsert where_ create update =>
    apply learns (learns_findFirst hscope (hlive where_))
    intro existing
    cases existing with
    | none => exact createPoliced hmodel create
    | some before =>
      apply atomically
      apply bind
      . apply updateRow hm
        intro db hP
        exact hP.2 before rfl
      . intro _
        exact pure _
  | delete where_ =>
    apply learns (learns_findFirst hscope (hlive where_))
    intro existing
    cases existing with
    | none => exact throw _
    | some before =>
      apply atomically
      apply bind
      . apply deleteRow now
        intro db hP
        exact hP.2 before rfl
      . intro _
        exact pure _
  | deleteMany where_ =>
    apply learns (learns_findMany hscope (hlive where_))
    intro targets
    apply atomically
    apply bind
    . apply forM
      intro before hbefore
      apply bind
      . apply deleteRow now
        intro db hP
        exact hP.2 before hbefore
      . intro _
        exact pure _
    . intro _
      exact pure _
  | update where_ data =>
    apply learns (learns_findFirst hscope (hall where_))
    intro existing
    cases existing with
    | none => exact throw _
    | some before =>
      apply atomically
      apply bind
      . apply updateRow hm
        intro db hP
        exact hP.2 before rfl
      . intro _
        exact pure _
  | updateMany where_ data =>
    apply learns (learns_findMany hscope (hall where_))
    intro targets
    apply atomically
    apply bind
    . apply forM
      intro before hbefore
      apply bind
      . apply updateRow hm
        intro db hP
        exact hP.2 before hbefore
      . intro _
        exact pure _
    . intro _
      exact pure _

end KeepsApart

namespace KeepsApart

variable {ctx : RequestContext} {states : Database → Prop} {registered : Bool} {P : Fact} {R : Type}

/-- A statement of the base client in a transaction of its own: it writes from what is committed. -/
theorem direct {tag tag' : Stmt} {needs : Database → List Key}
    {check : Database → Except HookError (List Write × R)}
    (h : ∀ db ws r, db.Valid → P.holds db → check db = .ok (ws, r) →
      Covered ws (needs db) ∧ (replay ws db).Valid ∧ ∀ w ∈ ws, w.Allowed ctx db)
    : KeepsApart ctx states false P (StateCall.transaction tag (StateCall.write tag' needs check)) := by
  intro commits log locks db s hapart hP
  have hlog := hapart.registered (by simp)
  subst hlog
  apply StateCall.wp_transaction
  apply StateCall.wp_write trivial
  . intro db' ws r hrely hinv _ hresult
    have hP' := P.grows _ _ hrely.2 hP
    obtain ⟨hcovered, hview, hallowed⟩ := h db' ws r hinv.2 hP' hresult
    have hheld : Held ctx ([] ++ ws) (locks ++ needs db') db' := by
      constructor
      . exact Covered.append (.nil locks) hcovered
      . exact hinv.2
      . exact hview
      . exact hallowed
    refine ⟨trivial, ?_⟩
    intro db'' hrely' hinv' _
    have hheld' := hheld.stable hrely'.1 hrely'.2 hinv'.2
    have hgrows := (hrely.2.trans hrely'.2).trans (grows_replay hheld'.allowed db'')
    refine ⟨⟨⟨hheld'.covered, hheld'.view⟩, hheld'.allowed⟩, ⟨.nil hheld'.view, fun _ => rfl, ?_⟩,
      hgrows⟩
    intro t ht
    exact ⟨(hapart.tenant t ht).1.grows hgrows,
      (tenantFact t).grows _ _ hgrows (hapart.tenant t ht).2⟩
  . intro db' e hrely hinv _ _
    refine ⟨trivial, ?_⟩
    intro db'' hrely' hinv'
    have hgrows := hrely.2.trans hrely'.2
    refine ⟨⟨.nil hinv'.2, fun _ => rfl, ?_⟩, hgrows⟩
    intro t ht
    exact ⟨(hapart.tenant t ht).1.grows hgrows,
      (tenantFact t).grows _ _ hgrows (hapart.tenant t ht).2⟩

theorem updateManyAndReturn {t : Tenant} {model : TableModel} {where_ rows : Row → Bool}
    {includeDeleted : Bool} {data : Patch} {audits : Stamp → Bool}
    (hdata : Patch.KeepsRefs model data)
    (hscope : ∀ db, P.holds db → db.Valid → ∀ r ∈ db.table model, rows r → OwnRow t db (model, r.id))
    : KeepsApart (.tenant t) states false P
        (ScopedClient.query rows audits
          (.updateManyAndReturn model where_ includeDeleted data)) := by
  apply direct
  intro db ws r hdb hP hresult
  cases hresult
  have hwrites : ∀ w ∈ ((db.table model).filter fun r => where_ r && rows r).map fun r =>
      Write.update (model, r.id) data, ∃ r ∈ db.table model, (where_ r && rows r) = true
        ∧ w = .update (model, r.id) data := by
    intro w hw
    obtain ⟨r, hr, heq⟩ := List.mem_map.mp hw
    obtain ⟨hr, hrows⟩ := List.mem_filter.mp hr
    exact ⟨r, hr, hrows, heq.symm⟩
  refine ⟨?_, ?_, ?_⟩
  . intro w hw key hkey
    obtain ⟨r, hr, hrows, heq⟩ := hwrites w hw
    rw [heq] at hkey
    rw [List.mem_singleton.mp hkey]
    exact List.mem_map.mpr ⟨r, List.mem_filter.mpr ⟨hr, hrows⟩, rfl⟩
  . apply hdb.replay_of_added
    intro w hw
    obtain ⟨r, _, _, heq⟩ := hwrites w hw
    rw [heq]
    rfl
  . intro w hw
    obtain ⟨r, hr, hrows, heq⟩ := hwrites w hw
    simp only [Bool.and_eq_true] at hrows
    rw [heq]
    exact ⟨t, rfl, hscope db hP hdb r hr hrows.2, hdata⟩

theorem audits {needs : Database → List Key} {tag tag' : Stmt}
    {check : Database → Except HookError (List Write × R)}
    (h : ∀ db ws r, check db = .ok (ws, r) → ∀ w ∈ ws, ∃ row, w = .audit row)
    : KeepsApart ctx states false P
        (StateCall.transaction tag (StateCall.write tag' needs check)) := by
  apply direct
  intro db ws r hdb _ hresult
  have hws := h db ws r hresult
  refine ⟨?_, ?_, ?_⟩
  . intro w hw key hkey
    obtain ⟨row, heq⟩ := hws w hw
    rw [heq] at hkey
    cases hkey
  . apply hdb.replay_of_added
    intro w hw
    obtain ⟨row, heq⟩ := hws w hw
    rw [heq]
    rfl
  . intro w hw
    obtain ⟨row, heq⟩ := hws w hw
    rw [heq]
    trivial

theorem query_of_audits {rows : Row → Bool} {audits : Stamp → Bool} {c : Call}
    (hdirect : registered → ¬ c.isDirect)
    (hc : ∀ model where_ includeDeleted data, c ≠ .updateManyAndReturn model where_ includeDeleted data)
    : KeepsApart ctx states registered P (ScopedClient.query rows audits c) := by
  cases c with
  | read => exact query _ _
  | readAudits => exact query _ _
  | mutation | createManyAndReturn | changeAudits => exact throw _
  | updateManyAndReturn => exact (hc _ _ _ _ rfl).elim
  | createAudits operation data =>
    cases registered with
    | true => exact absurd rfl (hdirect rfl)
    | false =>
      apply KeepsApart.audits
      intro db ws r hresult w hw
      cases hresult
      obtain ⟨a, _, heq⟩ := List.mem_map.mp hw
      exact ⟨_, heq.symm⟩
  | updateAuditsAndReturn where_ =>
    cases registered with
    | true => exact absurd rfl (hdirect rfl)
    | false =>
      apply KeepsApart.audits
      intro db ws r hresult w hw
      split at hresult
      . cases hresult
      . cases hresult
        cases hw

theorem assertTenantModel {model : Model} {k : Unit → Hook R}
    (hk : model.tenantDirect.isSome → KeepsApart ctx states registered P (k ()))
    : KeepsApart ctx states registered P (assertTenantModel model >>= k) := by
  unfold ScopedClient.assertTenantModel
  split
  . exact throw _
  . split
    . exact throw _
    . split
      . exact throw _
      . next hscope =>
        split
        . exact throw _
        . apply hk
          cases hcolumn : model.tenantDirect with
          | none =>
            rw [hcolumn] at hscope
            exact absurd rfl hscope
          | some column => rfl

end KeepsApart

section Requests

variable {ctx : RequestContext} {states : Database → Prop} {registered : Bool} {P : Fact}

theorem keepsApart_allOperations {now : DateTime} {c : Call} (hdirect : registered → ¬ c.isDirect)
    (htame : c.IsTame ctx)
    : KeepsApart ctx states registered P (allOperations ctx registered now c) := by
  unfold allOperations
  cases ctx with
  | unauthenticated => exact .throw _
  | platform adminId =>
    have hc : ∀ model where_ includeDeleted data,
        c ≠ .updateManyAndReturn model where_ includeDeleted data := by
      intro model where_ includeDeleted data heq
      rw [heq] at htame
      obtain ⟨⟨t, ht⟩, _⟩ := htame
      cases ht
    dsimp only
    split
    . exact .query_of_audits hdirect hc
    . split
      . exact .throw _
      . exact .query_of_audits hdirect hc
  | tenant t =>
    dsimp only
    split
    . exact .throw _
    . exact .query_of_audits hdirect nofun
    . exact .learns learns_auditWhere fun _ => .query_of_audits hdirect nofun
    . exact .learns learns_auditWhere fun _ => .query_of_audits hdirect nofun
    . apply KeepsApart.assertTenantModel
      intro hmodel
      exact .learns (learns_tenantWhereFor hmodel) fun _ => .query_of_audits hdirect nofun
    . apply KeepsApart.assertTenantModel
      intro hmodel
      apply KeepsApart.learns (learns_tenantWhereFor hmodel)
      intro scopeWhere
      cases registered with
      | true => exact absurd rfl (hdirect rfl)
      | false =>
        apply KeepsApart.updateManyAndReturn htame.2
        intro db hP hdb r hr hrows
        simp only [Bool.and_eq_true] at hrows
        exact ownRow_of_scope hdb hP.2 hr hrows.1
    . apply KeepsApart.assertTenantModel
      intro hmodel
      exact .runMutation hmodel now htame
    . apply KeepsApart.assertTenantModel
      intro hmodel
      apply KeepsApart.bind
      . exact .learns (learns_tenantWhereFor hmodel) fun _ => .pure _
      . intro _
        exact .throw _

theorem Service.wp_apart (service : Service registered) (h : service.All (·.IsTame ctx))
    {commits : List (Database × Database)} {log : List Write} {locks : List Key} {db : Database}
    {cache : ScopeCache} (hapart : Apart ctx registered log locks db cache)
    : (service.prog ctx cache).wp (tenancyLogic ctx states) (tenancyContract ctx).toPost commits log
        locks db := by
  -- What the request has learned in one call it still knows in the next one.
  induction service generalizing commits log locks db cache with
  | done => trivial
  | call c now hdirect next ih =>
    unfold Service.prog
    rw [Prog.wp_bind]
    have hcall : KeepsApart ctx states _ (.pure True) (allOperations ctx _ now c) :=
      keepsApart_allOperations hdirect h.1
    apply Prog.wp_mono _ (hcall commits log locks db cache hapart trivial)
    intro r commits' log' locks' db' h'
    apply ih _ (h.2 _)
    cases r with
    | mk result cache' => cases result <;> exact h'.1
  | begin next ih => exact ih h ⟨hapart.held, by simp, hapart.tenant⟩
  | commit next ih =>
    refine ⟨trivial, ?_⟩
    intro db' hrely hinv _
    have h' := hapart.stable hrely.1 hrely.2 hinv.2
    have hgrows := grows_replay h'.held.allowed db'
    refine ⟨⟨⟨h'.held.covered, h'.held.view⟩, h'.held.allowed⟩, ?_⟩
    apply ih h
    refine ⟨.nil h'.held.view, fun _ => rfl, ?_⟩
    intro t ht
    exact ⟨(h'.tenant t ht).1.grows hgrows, (tenantFact t).grows _ _ hgrows (h'.tenant t ht).2⟩
  | rollback next ih =>
    refine ⟨trivial, ?_⟩
    intro db' hrely hinv
    have h' := hapart.stable hrely.1 hrely.2 hinv.2
    exact ih h ⟨.nil hinv.2, fun _ => rfl, h'.tenant⟩

end Requests

/-- What a request may have made of a row. -/
inductive Touched (ctx : RequestContext) (db db' : Database) (key : Key) : Prop where
  | kept (h : db'.get key = db.get key)
  | changed (t : Tenant) (e e' : Entity) (hctx : ctx = .tenant t) (hown : OwnRow t db key)
    (he : db.get key = some e) (he' : db'.get key = some e') (hsame : SameRefs key.1 e.row e'.row)
  | added (t : Tenant) (e' : Entity) (hctx : ctx = .tenant t) (hnone : db.get key = none)
    (he' : db'.get key = some e') (hnew : NewRow t db key.1 e'.row)

theorem Touched.step {ctx : RequestContext} {db cur : Database} {key : Key} {w : Write}
    (hgrows : Grows db cur) (h : Touched ctx db cur key) (hw : w.Allowed ctx db)
    : Touched ctx db (w.apply cur) key := by
  have hframe : (w.apply cur).get key = cur.get key → Touched ctx db (w.apply cur) key := by
    intro heq
    cases h with
    | kept h => exact .kept (heq.trans h)
    | changed t e e' hctx hown he he' hsame =>
      exact .changed t e e' hctx hown he (heq.trans he') hsame
    | added t e' hctx hnone he' hnew => exact .added t e' hctx hnone (heq.trans he') hnew
  by_cases hkey : key ∈ w.keys
  . cases w with
    | audit => cases hkey
    | insert e =>
      have heq : key = e.key := List.mem_singleton.mp hkey
      subst heq
      cases hget : cur.get e.key with
      | some e' =>
        apply hframe
        rw [hget]
        exact get_insert_of_some hget
      | none =>
        obtain ⟨t, hctx, hnew⟩ := hw
        apply Touched.added t e hctx _ (get_insert_self hget) hnew
        cases hdb : db.get e.key with
        | none => rfl
        | some e' =>
          obtain ⟨e'', he'', _⟩ := hgrows _ e' hdb
          rw [hget] at he''
          cases he''
    | update key' data =>
      have heq : key = key' := List.mem_singleton.mp hkey
      subst heq
      obtain ⟨t, hctx, hown, hsame⟩ := hw
      obtain ⟨e, he, _⟩ := Option.bind_eq_some_iff.mp hown.owner
      obtain ⟨e', he', hsame'⟩ := hgrows _ e he
      apply Touched.changed t e (e'.patch data) hctx hown he
      . rw [get_update_self, he']
        rfl
      . exact hsame'.trans (hsame e'.row)
  . exact hframe (get_apply_of_notMem hkey)

theorem touched_replay {ctx : RequestContext} {db : Database} {log : List Write}
    (h : ∀ w ∈ log, w.Allowed ctx db) (key : Key) : Touched ctx db (replay log db) key := by
  have hboth : Grows db (replay log db) ∧ Touched ctx db (replay log db) key := by
    apply replay_induction (P := fun cur => Grows db cur ∧ Touched ctx db cur key)
      ⟨.refl db, .kept rfl⟩
    intro w hw cur hcur
    exact ⟨hcur.1.trans ((h w hw).apply_grows cur), hcur.2.step hcur.1 (h w hw)⟩
  exact hboth.2

theorem firstRef_mem {model : Model} {column : String} (h : firstRef model = some column)
    : column ∈ model.references := by
  unfold firstRef at h
  split at h
  . exact childParentFk_mem h
  . obtain ⟨scope, hscope, hname⟩ := Option.map_eq_some_iff.mp h
    rw [← hname]
    exact scopeColumn_mem hscope

theorem Contained.touched {ctx : RequestContext} {db db' : Database} (h : Contained db)
    (hgrows : Grows db db') (htouched : ∀ key, Touched ctx db db' key) : Contained db' := by
  intro key e' he'
  have hsame : ∀ e, db.get key = some e → SameRefs key.1 e.row e'.row →
      (∀ column, firstRef key.1 = some column → e'.row.ref column = none)
        ∨ ∃ o, ownerOf db' key.1 e'.row = some o ∧ RefsOwned db' o key.1 e'.row := by
    intro e he hsame
    cases h key e he with
    | inl hnone =>
      left
      intro column hcolumn
      rw [hsame column (firstRef_mem hcolumn)]
      exact hnone column hcolumn
    | inr howned =>
      obtain ⟨o, ho, hrefs⟩ := howned
      exact .inr ⟨o, ownerOf_grows hgrows hsame ho, hrefs.grows hgrows hsame⟩
  cases htouched key with
  | kept heq =>
    rw [heq] at he'
    exact hsame e' he' (.refl _ _)
  | changed t e e'' hctx hown he he'' hrefs =>
    rw [he'] at he''
    cases he''
    exact hsame e he hrefs
  | added t e'' hctx hnone he'' hnew =>
    rw [he'] at he''
    cases he''
    have hnew' := (newRowFact t key.1 e'.row).grows _ _ hgrows hnew
    exact .inr ⟨t.ownerId, hnew'.owner, hnew'.refs⟩

theorem tenancy_growing {ι : Type} (ctxOf : ι → RequestContext)
    : Contract.Growing (fun i => tenancyContract (ctxOf i)) Grows Database.Valid where
  refl := .refl
  trans _ _ _ := .trans
  commit _ _ _ db _ _ _ hallowed := grows_replay hallowed db

/--
Tenants stay apart in every run, whoever makes the requests and however they are interleaved. What a
request commits touches rows of its own tenant only; no row ever points to a row of another owner;
and a row never changes its owner.
-/
theorem tenants_stay_apart {ι : Type} [DecidableEq ι] {db : Database} (hdb : db.Valid)
    (hcontained : Contained db) {requests : ι → Request}
    (htenants : ∀ i t, (requests i).ctx = .tenant t → (tenantFact t).holds db)
    (htame : ∀ i, (requests i).service.All (·.IsTame (requests i).ctx))
    {c : Config ι Database Write Key Stmt Unit}
    (hrun : Run () (.init db fun i => (requests i).prog) c)
    : Contained c.db ∧ (∀ key o, ownerAt db key = some o → ownerAt c.db key = some o)
        ∧ ∀ e ∈ c.history, ∀ key, Touched (requests e.client).ctx e.before e.after key := by
  have hkept : Contract.Kept (fun i => tenancyContract (requests i).ctx) Database.Valid c := by
    apply (tenancy_growing fun i => (requests i).ctx).sound (fun _ _ _ => trivial) hdb _ hrun
    intro i
    apply (requests i).service.wp_apart (htame i)
    refine ⟨.nil hdb, fun _ => rfl, ?_⟩
    intro t ht
    exact ⟨.empty t db, htenants i t ht⟩
  have hevents : ∀ e ∈ c.history,
      Grows e.before e.after ∧ ∀ key, Touched (requests e.client).ctx e.before e.after key := by
    intro e he
    obtain ⟨locks, log, _, hallowed, hafter⟩ := hkept.events e he
    rw [hafter]
    exact ⟨grows_replay hallowed e.before, touched_replay hallowed⟩
  have hfirst : Grows db c.db ∧ (Contained db → Contained c.db) := by
    apply Chain.to_last (r := fun db db' => Grows db db' ∧ (Contained db → Contained db')) _ _
      hrun.chain _ db List.mem_cons_self
    . intro db
      exact ⟨.refl db, id⟩
    . intro db db' db'' h h'
      exact ⟨h.1.trans h'.1, fun hdb => h'.2 (h.2 hdb)⟩
    . intro e he
      obtain ⟨hgrows, htouched⟩ := hevents e he
      exact ⟨hgrows, fun hbefore => hbefore.touched hgrows htouched⟩
  refine ⟨hfirst.2 hcontained, ?_, ?_⟩
  . intro key o ho
    exact ownerAt_grows hfirst.1 ho
  . intro e he key
    exact (hevents e he).2 key

theorem contained_of_rows {db : Database} (owners : List Uuid)
    (h : ∀ e ∈ db.entities, ∃ o ∈ owners, ownerOf db e.model e.row = some o
      ∧ ∀ ref ∈ e.model.fkRefs, ref.2.isPlatform ∨ e.row.ref ref.1 = none
        ∨ (e.row.ref ref.1).bind (fun id => ownerAt db (ref.2, id)) = some o)
    : Contained db := by
  intro key e hget
  have hmodel : e.model = key.1 := congrArg Prod.fst (Table.key_of_get hget)
  obtain ⟨o, _, ho, hrefs⟩ := h e (Table.mem_of_get hget)
  rw [hmodel] at ho hrefs
  refine .inr ⟨o, ho, ?_⟩
  intro ref href hplatform id hid
  obtain hskip | hnone | howner := hrefs ref href
  . exact absurd hskip hplatform
  . rw [hid] at hnone
    cases hnone
  . rw [hid] at howner
    exact howner

namespace Mall

def first : Tenant := ⟨1, .owner 3⟩

def second : Tenant := ⟨2, .terminal 26 11 21⟩

def database : Database where
  entities := [
    ⟨.business, ⟨10, none, [("ownerId", .uuid 1)]⟩⟩,
    ⟨.business, ⟨11, none, [("ownerId", .uuid 2)]⟩⟩,
    ⟨.branch, ⟨21, none, [("businessId", .uuid 11)]⟩⟩,
    ⟨.terminal, ⟨26, none, [("branchId", .uuid 21)]⟩⟩,
    ⟨.category, ⟨30, none, [("businessId", .uuid 10)]⟩⟩,
    ⟨.category, ⟨31, none, [("businessId", .uuid 11)]⟩⟩,
    ⟨.product, ⟨40, none, [("businessId", .uuid 10), ("categoryId", .uuid 30)]⟩⟩]
  audits := []

def product : TableModel := ⟨.product, product_ne_auditLog⟩

def shift : TableModel := ⟨.shift, shift_ne_auditLog⟩

def renamed : Patch where
  apply r := { r with columns := Arg.Fields.set r.columns "name" (.str "Tea") }
  id_apply _ := rfl

/-- The first owner tries to add a product to a category of the second, then renames a product. -/
def stocked : Request where
  ctx := .tenant first
  service :=
    .call (.mutation product (.create ⟨41, none, [("businessId", .uuid 10), ("categoryId", .uuid 31)]⟩))
      100 nofun fun _ =>
        .call (.mutation product (.updateMany (fun _ => true) renamed)) 101 nofun fun _ => .done

/-- The till of the second owner opens a shift meanwhile. -/
def opened : Request where
  ctx := .tenant second
  service :=
    .call (.mutation shift (.create ⟨60, none, [("terminalId", .uuid 26)]⟩)) 100 nofun fun _ => .done

def requests : Fin 2 → Request
  | 0 => stocked
  | 1 => opened

/-- The first owner moves a product to a category of the second. -/
def moved : Patch where
  apply r := { r with columns := Arg.Fields.set r.columns "categoryId" (.uuid 31) }
  id_apply _ := rfl

def strayed : Request where
  ctx := .tenant first
  service :=
    .call (.mutation product (.update (fun r => r.id = 40) moved)) 100 nofun fun _ => .done

/-- The shift is opened before the new name is committed. -/
def schedule : List (Fin 2) :=
  inRounds 1 [[4, 4], [2, 2]]

theorem valid_database : database.Valid := by
  unfold Database.Valid UniqueIndex.Unique
  decide

theorem contained_database : Contained database :=
  contained_of_rows [1, 2] (by decide +kernel)

theorem found_tenants (i : Fin 2) (t : Tenant) (ht : (requests i).ctx = .tenant t)
    : (tenantFact t).holds database := by
  match i with
  | 0 =>
    cases ht
    trivial
  | 1 =>
    cases ht
    have hbranch : branchBusiness database 21 = some 11 := by decide
    have hbusiness : businessOwner database 11 = some 2 := by decide
    exact ⟨hbranch, hbusiness⟩

theorem keepsRefs_renamed : Patch.KeepsRefs .product renamed := by
  intro r column hcolumn
  have hne : ¬ "name" = column := by
    intro heq
    rw [← heq] at hcolumn
    exact absurd hcolumn (by decide)
  unfold Row.ref renamed
  dsimp only
  rw [Arg.Fields.get_set, if_neg hne]

theorem tame_requests (i : Fin 2) : (requests i).service.All (·.IsTame (requests i).ctx) := by
  match i with
  | 0 => exact ⟨trivial, fun _ => ⟨keepsRefs_renamed, fun _ => trivial⟩⟩
  | 1 => exact ⟨trivial, fun _ => trivial⟩

theorem schedule_commits
    : ((Config.init database fun i => (requests i).prog).turns schedule).map (fun c =>
        (c.history.map (·.client), c.db.audits.length, c.db.entities.length))
      = some ([0, 1], 2, 8) := by
  decide +kernel

theorem strayed_commits
    : ((Config.init database fun _ : Fin 1 => strayed.prog).turns (List.replicate 5 0)).map (fun c =>
        ((c.db.get (.product, 40)).map fun e => (e.row.ref "businessId", e.row.ref "categoryId"),
          ownerAt c.db (.product, 40), ownerAt c.db (.category, 31)))
      = some (some (some 10, some 31), some 1, some 2) := by
  decide +kernel

end Mall

theorem tenants_stay_apart_mall
    : ∃ c, Run () (.init Mall.database fun i => (Mall.requests i).prog) c
        ∧ c.history.map (·.client) = [0, 1] ∧ c.db.entities.length = 8 ∧ Contained c.db := by
  have hcommits := Mall.schedule_commits
  simp only [Option.map_eq_some_iff, Prod.mk.injEq] at hcommits
  obtain ⟨c, hturns, hhistory, _, hrows⟩ := hcommits
  have hrun := Config.run_of_turns () _ hturns
  exact ⟨c, hrun, hhistory, hrows,
    (tenants_stay_apart Mall.valid_database Mall.contained_database Mall.found_tenants
      Mall.tame_requests hrun).1⟩

theorem updates_lead_astray
    : ∃ c, Run () (.init Mall.database fun _ : Fin 1 => Mall.strayed.prog) c ∧ ¬ Contained c.db := by
  have hcommits := Mall.strayed_commits
  simp only [Option.map_eq_some_iff, Prod.mk.injEq] at hcommits
  obtain ⟨c, hturns, ⟨e, hget, hbusiness, hcategory⟩, howner, hother⟩ := hcommits
  refine ⟨c, Config.run_of_turns () _ hturns, ?_⟩
  intro hcontained
  unfold ownerAt at howner
  rw [hget, Option.bind_some] at howner
  cases hcontained _ e hget with
  | inl hnone =>
    have hnone' := hnone "businessId" rfl
    rw [hbusiness] at hnone'
    cases hnone'
  | inr howned =>
    obtain ⟨o, ho, hrefs⟩ := howned
    rw [howner] at ho
    cases ho
    have hstray := hrefs ("categoryId", .category) (by decide) (by decide) 31 hcategory
    rw [hother] at hstray
    cases hstray

end SentryPos.ScopedClient
