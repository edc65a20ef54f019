import SentryPos.Scoped.ChokePoint

/-!
This module contains which mutations leave the soft-deleted rows of a table as they are.
-/

namespace SentryPos.ChokePoint

/-- What a mutation works on: a transaction sees each committed row, as it is or changed. -/
structure Session where
  base : List Row
  tx : List Row
  base_nodup : (base.map Row.id).Nodup
  tx_nodup : (tx.map Row.id).Nodup
  kept : ∀ b ∈ base, ∃ r, get tx b.id = some r

def targets (ctx : Context) (base : List Row) : Mutation → List Row
  | .create _ => []
  | .createMany _ => []
  | .upsert where_ _ _ => (base.find? fun r => where_ r && ctx.scope r && isLive r).toList
  | .delete where_ => (base.find? fun r => where_ r && ctx.scope r && isLive r).toList
  | .deleteMany where_ => base.filter fun r => where_ r && ctx.scope r && isLive r
  | .update where_ _ => (base.find? fun r => where_ r && ctx.scope r).toList
  | .updateMany where_ _ => base.filter fun r => where_ r && ctx.scope r

def Mutation.patch (now : DateTime) : Mutation → Patch
  | create _ => ⟨id, fun _ => rfl⟩
  | createMany _ => ⟨id, fun _ => rfl⟩
  | upsert _ _ data => data
  | delete _ => deletedAt now
  | deleteMany _ => deletedAt now
  | update _ data => data
  | updateMany _ data => data

section Writes

variable {operation : Operation} {data : Patch} {rows : List Row} {w w' : Writes}

theorem get_insert {row row' : Row} {rows' : List Row} {id : Uuid} (h : insert rows row = .ok rows')
    (hget : get rows id = some row') : get rows' id = some row' := by
  unfold insert at h
  split at h
  . cases h
  . cases h
    exact Table.get_append_of_some hget

theorem insertRow_ok {row : Row} (h : insertRow operation row w = .ok w')
    : insert w.rows row = .ok w'.rows
        ∧ w'.audits = w.audits ++ [⟨operation, row.id, none, some row⟩] := by
  unfold insertRow at h
  cases hrows : insert w.rows row with
  | error e =>
    rw [hrows] at h
    cases h
  | ok rows' =>
    rw [hrows] at h
    cases h
    exact ⟨rfl, rfl⟩

theorem get_foldlM_insertRow {news : List Row} {id : Uuid} {r : Row}
    (h : news.foldlM (fun w row => insertRow operation row w) w = .ok w')
    (hget : get w.rows id = some r) : get w'.rows id = some r := by
  induction news generalizing w with
  | nil =>
    cases h
    exact hget
  | cons row news ih =>
    rw [List.foldlM_cons] at h
    cases hrow : insertRow operation row w with
    | error e =>
      rw [hrow] at h
      cases h
    | ok w₁ =>
      rw [hrow] at h
      exact ih h (get_insert (insertRow_ok hrow).1 hget)

theorem get_foldlM_insert {news rows' : List Row} {id : Uuid} {r : Row}
    (h : news.foldlM insert rows = .ok rows') (hget : get rows id = some r)
    : get rows' id = some r := by
  induction news generalizing rows with
  | nil =>
    cases h
    exact hget
  | cons row news ih =>
    rw [List.foldlM_cons] at h
    cases hrow : insert rows row with
    | error e =>
      rw [hrow] at h
      cases h
    | ok rows₁ =>
      rw [hrow] at h
      exact ih h (get_insert hrow hget)

theorem get_modify (rows : List Row) (k id : Uuid) (data : Patch)
    : get (Table.modify Row.id rows k data.apply) id
        = (get rows id).map fun r => if id = k then data.apply r else r := by
  by_cases hid : id = k
  . rw [hid]
    simp only [if_true]
    exact Table.get_modify_self data.id_apply
  . simp only [hid, if_false]
    rw [get, Table.get_modify_ne data.id_apply hid, Option.map_id']

theorem foldlM_updateRow {found : List Row} (hnodup : (found.map Row.id).Nodup)
    (hkept : ∀ t ∈ found, ∃ r, get w.rows t.id = some r)
    : ∃ w', found.foldlM (updateRow operation data) w = .ok w'
        ∧ (∀ id, get w'.rows id
            = (get w.rows id).map fun r => if id ∈ found.map Row.id then data.apply r else r)
        ∧ w'.audits.map AuditLog.entityId = w.audits.map AuditLog.entityId ++ found.map Row.id := by
  -- The rows are told apart by their ids, so no row is updated twice.
  induction found generalizing w with
  | nil =>
    refine ⟨w, rfl, ?_, ?_⟩
    . intro id
      simp
    . simp
  | cons t found ih =>
    rw [List.map_cons, List.nodup_cons] at hnodup
    obtain ⟨current, hcurrent⟩ := hkept t List.mem_cons_self
    have hstep : ∃ w₁, updateRow operation data w t = .ok w₁
        ∧ w₁.rows = Table.modify Row.id w.rows t.id data.apply
        ∧ w₁.audits.map AuditLog.entityId = w.audits.map AuditLog.entityId ++ [t.id] := by
      unfold updateRow
      rw [hcurrent]
      exact ⟨_, rfl, rfl, by rw [List.map_append]; rfl⟩
    obtain ⟨w₁, hstep, hrows, haudits⟩ := hstep
    have hkept₁ : ∀ t' ∈ found, ∃ r, get w₁.rows t'.id = some r := by
      intro t' ht'
      obtain ⟨r, hr⟩ := hkept t' (List.mem_cons_of_mem _ ht')
      rw [hrows, get_modify, hr]
      exact ⟨_, rfl⟩
    obtain ⟨w', hrun, hget, hids⟩ := ih hnodup.2 hkept₁
    refine ⟨w', ?_, ?_, ?_⟩
    . rw [List.foldlM_cons, hstep]
      exact hrun
    . intro id
      rw [hget, hrows, get_modify, Option.map_map]
      congr 1
      funext r
      simp only [Function.comp_apply, List.map_cons, List.mem_cons]
      by_cases hid : id = t.id
      . have hnot : id ∉ found.map Row.id := by
          rw [hid]
          exact hnodup.1
        simp [hid, hnodup.1]
      . simp [hid]
    . rw [hids, haudits, List.append_assoc]
      rfl

end Writes

section Frozen

variable {ctx : Context} {now : DateTime} {base tx : List Row} {m : Mutation} {w : Writes}

def Mutation.audited : Mutation → Operation
  | create _ => .create
  | createMany _ => .createMany
  | upsert _ _ _ => .update
  | delete _ => .delete
  | deleteMany _ => .delete
  | update _ _ => .update
  | updateMany _ _ => .update

theorem targets_sublist (ctx : Context) (base : List Row) (m : Mutation)
    : (targets ctx base m).Sublist base := by
  have hfind (p : Row → Bool) : (base.find? p).toList.Sublist base := by
    cases h : base.find? p with
    | none => simp
    | some r =>
      rw [Option.toList_some, List.singleton_sublist]
      exact List.mem_of_find?_eq_some h
  cases m with
  | create => exact List.nil_sublist _
  | createMany => exact List.nil_sublist _
  | update => exact hfind _
  | upsert => exact hfind _
  | delete => exact hfind _
  | updateMany => exact List.filter_sublist
  | deleteMany => exact List.filter_sublist

theorem runMutation_targets (h : targets ctx base m ≠ [])
    : runMutation ctx now base tx m
        = (targets ctx base m).foldlM (updateRow m.audited (m.patch now)) ⟨tx, []⟩ := by
  cases m with
  | create => exact absurd rfl h
  | createMany => exact absurd rfl h
  | updateMany => rfl
  | deleteMany => rfl
  | update where_ data =>
    unfold targets at h ⊢
    unfold runMutation
    dsimp only at h ⊢
    generalize List.find? _ base = found at h ⊢
    cases found with
    | none => exact absurd rfl h
    | some before =>
      rw [Option.toList_some, List.foldlM_cons]
      simp [Mutation.audited, Mutation.patch]
  | upsert where_ create update =>
    unfold targets at h ⊢
    unfold runMutation
    dsimp only at h ⊢
    generalize List.find? _ base = found at h ⊢
    cases found with
    | none => exact absurd rfl h
    | some before =>
      rw [Option.toList_some, List.foldlM_cons]
      simp [Mutation.audited, Mutation.patch]
  | delete where_ =>
    unfold targets at h ⊢
    unfold runMutation
    dsimp only at h ⊢
    generalize List.find? _ base = found at h ⊢
    cases found with
    | none => exact absurd rfl h
    | some before =>
      rw [Option.toList_some, List.foldlM_cons]
      simp [Mutation.audited, Mutation.patch]

theorem runMutation_not_found (h : targets ctx base m = [])
    (hop : m.operation = .update ∨ m.operation = .delete)
    : runMutation ctx now base tx m = .error (.targetNotFound m.operation) := by
  cases m with
  | update where_ data =>
    unfold runMutation
    dsimp only
    rw [Option.toList_eq_nil_iff.mp h]
    rfl
  | delete where_ =>
    unfold runMutation
    dsimp only
    rw [Option.toList_eq_nil_iff.mp h]
    rfl
  | _ => simp [Mutation.operation] at hop

theorem runMutation_no_targets (h : targets ctx base m = [])
    (hrun : runMutation ctx now base tx m = .ok w)
    : ∀ id r, get tx id = some r → get w.rows id = some r := by
  have hcreate {data : Row}
      (hdata : (do let data ← ctx.police data; insertRow .create data ⟨tx, []⟩) = .ok w)
      : ∀ id r, get tx id = some r → get w.rows id = some r := by
    intro id r hr
    cases hpolice : ctx.police data with
    | error e =>
      rw [hpolice] at hdata
      cases hdata
    | ok data' =>
      rw [hpolice] at hdata
      exact get_insert (insertRow_ok hdata).1 hr
  cases m with
  | create data => exact hcreate hrun
  | createMany data =>
    intro id r hr
    unfold runMutation at hrun
    dsimp only at hrun
    cases hpolice : data.mapM ctx.police with
    | error e =>
      rw [hpolice] at hrun
      cases hrun
    | ok data' =>
      rw [hpolice] at hrun
      exact get_foldlM_insertRow hrun hr
  | updateMany where_ data =>
    unfold targets at h
    unfold runMutation at hrun
    dsimp only at h hrun
    rw [h] at hrun
    cases hrun
    exact fun _ _ hr => hr
  | deleteMany where_ =>
    unfold targets at h
    unfold runMutation at hrun
    dsimp only at h hrun
    rw [h] at hrun
    cases hrun
    exact fun _ _ hr => hr
  | update where_ data =>
    rw [runMutation_not_found h (.inl rfl)] at hrun
    cases hrun
  | delete where_ =>
    rw [runMutation_not_found h (.inr rfl)] at hrun
    cases hrun
  | upsert where_ create update =>
    unfold targets at h
    unfold runMutation at hrun
    dsimp only at h hrun
    rw [Option.toList_eq_nil_iff] at h
    rw [h] at hrun
    exact hcreate hrun

end Frozen

/--
The rows that are soft-deleted when a mutation is called are the same after it, and an update or a
delete that does not find a live row throws (the audit rows take neither at all).
-/
structure Frozen (model : Model) (ctx : Context) (now : DateTime) (s : Session) (m : Mutation)
    : Prop where
  unchanged : ∀ w, mutate model ctx now s.base s.tx m = .ok w → ∀ id r, get s.tx id = some r →
    r.deletedAt.isSome → get w.rows id = some r
  throws : m.operation = .update ∨ m.operation = .delete →
    mutate model ctx now s.base s.tx m
        = .error (if model = .auditLog then .appendOnly else .targetNotFound m.operation)
      ∨ ∃ w, mutate model ctx now s.base s.tx m = .ok w
          ∧ ∀ a ∈ w.audits, ∀ r, get s.tx a.entityId = some r → r.deletedAt = none

/--
Of the rows that a mutation finds, an update or a delete finds none that is soft-deleted in its
transaction, and any other mutation leaves such a row as it is.
-/
def SparesDeleted (ctx : Context) (now : DateTime) (s : Session) (m : Mutation) : Prop :=
  ∀ t ∈ targets ctx s.base m, ∀ r, get s.tx t.id = some r → r.deletedAt.isSome →
    m.operation ≠ .update ∧ m.operation ≠ .delete ∧ (m.patch now).apply r = r

section Frozen

variable {model : Model} {ctx : Context} {now : DateTime} {s : Session} {m : Mutation}

theorem frozen_auditLog : Frozen .auditLog ctx now s m := by
  have hkept : ∀ w, mutate .auditLog ctx now s.base s.tx m = .ok w →
      (∀ id r, get s.tx id = some r → get w.rows id = some r) ∧ w.audits = [] := by
    intro w hrun
    unfold mutate at hrun
    rw [if_pos rfl] at hrun
    unfold appendAudits at hrun
    split at hrun
    . next data =>
      cases hrows : insert s.tx data with
      | error e =>
        rw [hrows] at hrun
        cases hrun
      | ok rows =>
        rw [hrows] at hrun
        cases hrun
        exact ⟨fun _ _ hr => get_insert hrows hr, rfl⟩
    . next data =>
      cases hrows : data.foldlM insert s.tx with
      | error e =>
        rw [hrows] at hrun
        cases hrun
      | ok rows =>
        rw [hrows] at hrun
        cases hrun
        exact ⟨fun _ _ hr => get_foldlM_insert hrows hr, rfl⟩
    . cases hrun
  constructor
  . intro w hrun id r hr _
    exact (hkept w hrun).1 id r hr
  . intro hop
    left
    unfold mutate
    rw [if_pos rfl, if_pos rfl]
    cases m with
    | update | delete => rfl
    | _ => simp [Mutation.operation] at hop

theorem mutate_targets (hmodel : model ≠ .auditLog) (h : targets ctx s.base m ≠ [])
    : ∃ w, mutate model ctx now s.base s.tx m = .ok w
        ∧ (∀ id, get w.rows id = (get s.tx id).map fun r =>
            if id ∈ (targets ctx s.base m).map Row.id then (m.patch now).apply r else r)
        ∧ w.audits.map AuditLog.entityId = (targets ctx s.base m).map Row.id := by
  have hsublist := targets_sublist ctx s.base m
  have hnodup := s.base_nodup.sublist (hsublist.map Row.id)
  have hkept : ∀ t ∈ targets ctx s.base m, ∃ r, get s.tx t.id = some r :=
    fun t ht => s.kept t (hsublist.subset ht)
  unfold mutate
  rw [if_neg hmodel, runMutation_targets h]
  exact foldlM_updateRow hnodup hkept

theorem frozen_of_spares (h : SparesDeleted ctx now s m) : Frozen model ctx now s m := by
  by_cases hmodel : model = .auditLog
  . rw [hmodel]
    exact frozen_auditLog
  by_cases hfound : targets ctx s.base m = []
  . have hnone {w : Writes} (hrun : mutate model ctx now s.base s.tx m = .ok w) := by
      unfold mutate at hrun
      rw [if_neg hmodel] at hrun
      exact runMutation_no_targets hfound hrun
    constructor
    . intro w hrun id r hr _
      exact hnone hrun id r hr
    . intro hop
      left
      unfold mutate
      rw [if_neg hmodel, if_neg hmodel]
      exact runMutation_not_found hfound hop
  . obtain ⟨w, hrun, hget, hids⟩ := @mutate_targets model ctx now s m hmodel hfound
    constructor
    . intro w' hrun' id r hr hdeleted
      rw [hrun, Except.ok.injEq] at hrun'
      rw [← hrun', hget, hr, Option.map_some]
      split
      . next hid =>
        obtain ⟨t, ht, heq⟩ := List.mem_map.mp hid
        rw [← heq] at hr
        rw [(h t ht r hr hdeleted).2.2]
      . rfl
    . intro hop
      refine .inr ⟨w, hrun, ?_⟩
      intro a ha r hr
      have hid : a.entityId ∈ (targets ctx s.base m).map Row.id := by
        rw [← hids]
        exact List.mem_map_of_mem ha
      obtain ⟨t, ht, heq⟩ := List.mem_map.mp hid
      rw [← heq] at hr
      by_contra hdeleted
      obtain ⟨hupdate, hdelete, _⟩ := h t ht r hr (Option.isSome_iff_ne_none.mpr hdeleted)
      cases hop with
      | inl hop => exact hupdate hop
      | inr hop => exact hdelete hop

theorem spares_of_frozen (hmodel : model ≠ .auditLog) (h : Frozen model ctx now s m)
    : SparesDeleted ctx now s m := by
  intro t ht r hr hdeleted
  have hfound : targets ctx s.base m ≠ [] := List.ne_nil_of_mem ht
  obtain ⟨w, hrun, hget, hids⟩ := @mutate_targets model ctx now s m hmodel hfound
  have hid : t.id ∈ (targets ctx s.base m).map Row.id := List.mem_map_of_mem ht
  have hlive (hop : m.operation = .update ∨ m.operation = .delete) : False := by
    rw [← hids] at hid
    obtain ⟨a, ha, heq⟩ := List.mem_map.mp hid
    rw [← heq] at hr
    cases h.throws hop with
    | inl herror =>
      rw [hrun] at herror
      cases herror
    | inr hlive =>
      obtain ⟨w', hrun', hlive⟩ := hlive
      rw [hrun, Except.ok.injEq] at hrun'
      rw [← hrun'] at hlive
      rw [hlive a ha r hr] at hdeleted
      cases hdeleted
  refine ⟨fun hop => hlive (.inl hop), fun hop => hlive (.inr hop), ?_⟩
  have hsame := h.unchanged w hrun t.id r hr hdeleted
  rw [hget, hr, Option.map_some, if_pos hid] at hsame
  exact Option.some.inj hsame

end Frozen

/--
A mutation leaves the soft-deleted rows of a tenant table alone exactly when its own query finds none
of them, or no update and none that it would change. The audit rows are out of reach of all of them.
-/
theorem frozen_iff (model : Model) (ctx : Context) (now : DateTime) (s : Session) (m : Mutation)
    : Frozen model ctx now s m ↔ model = .auditLog ∨ SparesDeleted ctx now s m := by
  constructor
  . intro h
    by_cases hmodel : model = .auditLog
    . exact .inl hmodel
    . exact .inr (spares_of_frozen hmodel h)
  . intro h
    cases h with
    | inl hmodel =>
      rw [hmodel]
      exact frozen_auditLog
    | inr hspares => exact frozen_of_spares hspares

theorem isLive_of_targets {ctx : Context} {base : List Row} {m : Mutation} {t : Row}
    (hupdate : m.operation ≠ .update) (hupdateMany : m.operation ≠ .updateMany)
    (ht : t ∈ targets ctx base m) : isLive t = true := by
  have hfind {where_ : Row → Bool}
      (h : t ∈ (base.find? fun r => where_ r && ctx.scope r && isLive r).toList)
      : isLive t = true := by
    rw [Option.mem_toList] at h
    have hp := List.find?_some h
    rw [Bool.and_eq_true] at hp
    exact hp.2
  cases m with
  | create => cases ht
  | createMany => cases ht
  | update => exact absurd rfl hupdate
  | updateMany => exact absurd rfl hupdateMany
  | upsert => exact hfind ht
  | delete => exact hfind ht
  | deleteMany =>
    have hp := (List.mem_filter.mp ht).2
    rw [Bool.and_eq_true] at hp
    exact hp.2

theorem frozen_of_fresh (model : Model) (ctx : Context) (now : DateTime) {s : Session} {m : Mutation}
    (hfresh : s.tx = s.base) (hupdate : m.operation ≠ .update)
    (hupdateMany : m.operation ≠ .updateMany) : Frozen model ctx now s m := by
  apply frozen_of_spares
  intro t ht r hr hdeleted
  have hlive := isLive_of_targets hupdate hupdateMany ht
  have hmem := (targets_sublist ctx s.base m).subset ht
  rw [hfresh, get, Table.get_of_mem s.base_nodup hmem, Option.some.injEq] at hr
  unfold isLive at hlive
  rw [hr, Option.isNone_iff_eq_none] at hlive
  rw [hlive] at hdeleted
  cases hdeleted

def deletedProduct : Row where
  id := 5
  deletedAt := some 100
  columns := [("name", .str "Bread")]

def rename : Patch where
  apply := fun r => { r with columns := Arg.Fields.set r.columns "name" (.str "Cake") }
  id_apply := fun _ => rfl

def deletedSession : Session where
  base := [deletedProduct]
  tx := [deletedProduct]
  base_nodup := List.nodup_singleton _
  tx_nodup := List.nodup_singleton _
  kept := by
    intro b hb
    rw [List.mem_singleton] at hb
    rw [hb]
    exact ⟨deletedProduct, rfl⟩

/-- An update finds a soft-deleted row as it finds any other. -/
theorem update_not_frozen
    : ¬ ∀ (model : Model) (ctx : Context) (now : DateTime) (s : Session) (m : Mutation),
        Frozen model ctx now s m := by
  intro hall
  have hfrozen := hall .product ⟨fun _ => true, .ok⟩ 200 deletedSession
    (.update (fun r => r.id = 5) rename)
  cases hfrozen.throws (.inl rfl) with
  | inl herror => cases herror
  | inr hlive =>
    obtain ⟨w, hrun, hlive⟩ := hlive
    cases hrun
    have hdeleted := hlive _ (List.mem_singleton.mpr rfl) deletedProduct rfl
    cases hdeleted

end SentryPos.ChokePoint
