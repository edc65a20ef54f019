import SentryPos.Scoped.Walk

/-!
This module contains which nested deletes the client turns into soft deletes: those that its walk
comes to, and no other.
-/

namespace SentryPos.NestedWrite

open Arg (Fields)

/-! The places in the data at which writes are nested. -/

/-- Data of a model. -/
structure Place where
  model : Model
  data : Arg

inductive Holder where
  | create
  | update
  | upsertCreate
  | upsertUpdate
  | connectOrCreate
  deriving DecidableEq

def Holder.op : Holder → String
  | create => "create"
  | update => "update"
  | upsertCreate => "upsert"
  | upsertUpdate => "upsert"
  | connectOrCreate => "connectOrCreate"

/-- The data of a write. That of an update stands under `data` or, of a single row, by itself. -/
def Holder.dataOf : Holder → Arg → Option Arg
  | create, write => some write
  | update, .obj write => some ((Fields.get write "data").getD (.obj write))
  | update, _ => none
  | upsertCreate, write => write.get "create"
  | upsertUpdate, write => write.get "update"
  | connectOrCreate, write => write.get "create"

/-- The way to one write under a relation. -/
structure Step where
  relation : String
  holder : Holder
  index : ℕ

namespace Place

/-- The writes under a relation, with the model that they write. -/
def nested (p : Place) (relation : String) : Option (Model × Fields) := do
  let target ← p.model.relationTarget relation
  let writes ← (← p.data.get relation).entries
  return (target, writes)

def write (p : Place) (s : Step) : Option (Model × Arg) := do
  let (target, writes) ← p.nested s.relation
  let write ← (elementsOf (Fields.get writes s.holder.op))[s.index]?
  return (target, write)

def step (p : Place) (s : Step) : Option Place := do
  let (target, write) ← p.write s
  let data ← s.holder.dataOf write
  return ⟨target, data⟩

def descend (p : Place) : List Step → Option Place
  | [] => some p
  | s :: path => (p.step s).bind fun q => q.descend path

/-- A write that the walk goes into: an update with `where` and `data`. -/
def walks (p : Place) (s : Step) : Bool :=
  s.holder = .update
    && (p.write s).any fun w => truthy (w.2.get "where") && truthy (w.2.get "data")

def walksAll (p : Place) : List Step → Bool
  | [] => true
  | s :: path => p.walks s && (p.step s).any fun q => q.walksAll path

/-- Whether somewhere below the data there is a write of an operation. -/
def Writes (p : Place) (path : List Step) (relation op : String) (target : Model) (value : Arg)
    : Prop :=
  ∃ q writes, p.descend path = some q ∧ q.nested relation = some (target, writes)
    ∧ Fields.get writes op = some value

def rewritten (now : DateTime) (p : Place) : Place :=
  ⟨p.model, (rewriteNestedWrites now p.model p.data).1⟩

variable {now : DateTime} {p : Place}

theorem nested_rewritten (relation : String)
    : (p.rewritten now).nested relation
        = (p.nested relation).map fun w => (w.1, rewriteOps now w.1 w.2) := by
  unfold rewritten nested
  dsimp only
  cases htarget : p.model.relationTarget relation with
  | none => rfl
  | some target =>
    cases hdata : p.data with
    | obj fields =>
      unfold rewriteNestedWrites Arg.get
      dsimp only
      rw [get_rewriteFields now htarget]
      cases hvalue : Fields.get fields relation with
      | none => rfl
      | some value =>
        change (rewriteNested now target value).1.entries.bind _ = (value.entries.bind _).map _
        rw [entries_rewriteNested]
        cases value.entries <;> rfl
    | _ => rfl

theorem write_eq_some {s : Step} {target : Model} {w : Arg}
    : p.write s = some (target, w)
        ↔
      ∃ writes, p.nested s.relation = some (target, writes)
        ∧ (elementsOf (Fields.get writes s.holder.op))[s.index]? = some w := by
  unfold write
  cases p.nested s.relation with
  | none => simp
  | some found =>
    obtain ⟨target', writes⟩ := found
    simp only [Option.bind_eq_bind, Option.bind_some, Option.pure_def, Option.bind_eq_some_iff,
      Option.some.injEq, Prod.mk.injEq]
    constructor
    . rintro ⟨_, hw, htarget, rfl⟩
      exact ⟨writes, ⟨htarget, rfl⟩, hw⟩
    . rintro ⟨_, ⟨htarget, rfl⟩, hw⟩
      exact ⟨w, hw, htarget, rfl⟩

theorem step_eq_some {s : Step} {q : Place}
    : p.step s = some q
        ↔ ∃ w, p.write s = some (q.model, w) ∧ s.holder.dataOf w = some q.data := by
  unfold step
  cases p.write s with
  | none => simp
  | some found =>
    obtain ⟨target, w⟩ := found
    obtain ⟨model, data⟩ := q
    simp only [Option.bind_eq_bind, Option.bind_some, Option.pure_def, Option.bind_eq_some_iff,
      Option.some.injEq, Prod.mk.injEq, Place.mk.injEq]
    constructor
    . rintro ⟨_, hdata, rfl, rfl⟩
      exact ⟨w, ⟨rfl, rfl⟩, hdata⟩
    . rintro ⟨_, ⟨rfl, rfl⟩, hdata⟩
      exact ⟨data, hdata, rfl, rfl⟩

theorem walks_eq {s : Step} {target : Model} {w : Arg} (h : p.write s = some (target, w))
    : p.walks s
        = (decide (s.holder = .update) && (truthy (w.get "where") && truthy (w.get "data"))) := by
  unfold walks
  rw [h]
  rfl

theorem Holder.op_ne {holder : Holder} (h : holder ≠ .update)
    : holder.op ≠ "update" ∧ holder.op ≠ "updateMany" ∧ holder.op ≠ "delete"
        ∧ holder.op ≠ "deleteMany" := by
  cases holder with
  | update => exact absurd rfl h
  | _ => decide

theorem write_rewritten {s : Step} {target : Model} {w : Arg} (h : p.write s = some (target, w))
    : (s.holder ≠ .update → (p.rewritten now).write s = some (target, w))
        ∧ (s.holder = .update → ∀ update, w = .obj update →
            (p.rewritten now).write s = some (target, (rewriteUpdate now target w).1)) := by
  obtain ⟨writes, hnested, hw⟩ := write_eq_some.mp h
  have hrewritten := @nested_rewritten now p s.relation
  rw [hnested, Option.map_some] at hrewritten
  constructor
  . intro hholder
    obtain ⟨hupdate, hupdateMany, hdelete, hdeleteMany⟩ := Holder.op_ne hholder
    rw [write_eq_some]
    refine ⟨_, hrewritten, ?_⟩
    rw [get_rewriteOps_other writes hupdate hupdateMany hdelete hdeleteMany]
    exact hw
  . intro hholder update heq
    rw [heq] at hw ⊢
    rw [write_eq_some]
    refine ⟨_, hrewritten, ?_⟩
    rw [hholder] at hw ⊢
    exact update_rewriteOps hw

theorem get_of_truthy {fields : Fields} {key : String} (h : truthy (Fields.get fields key))
    : ∃ value, Fields.get fields key = some value := by
  cases hget : Fields.get fields key with
  | none =>
    rw [hget] at h
    cases h
  | some value => exact ⟨value, rfl⟩

theorem step_rewritten {s : Step} {q : Place} (h : p.step s = some q)
    : (p.rewritten now).step s = some (if p.walks s then q.rewritten now else q) := by
  obtain ⟨w, hw, hdata⟩ := step_eq_some.mp h
  have hwalks := walks_eq hw
  have hrewritten := @write_rewritten now _ _ _ _ hw
  by_cases hholder : s.holder = .update
  . rw [hholder] at hdata hwalks
    cases w with
    | obj update =>
      have hwrite := hrewritten.2 hholder update rfl
      simp only [Holder.dataOf, Option.some.injEq] at hdata
      simp only [decide_true, Bool.true_and, Arg.get] at hwalks
      unfold rewriteUpdate recordUpdate at hwrite
      dsimp only at hwrite
      rw [← hwalks] at hwrite
      cases hwalked : p.walks s with
      | true =>
        rw [hwalked, eq_comm, Bool.and_eq_true] at hwalks
        obtain ⟨value, hvalue⟩ := get_of_truthy hwalks.2
        rw [hwalked, if_pos rfl] at hwrite
        rw [hvalue, Option.getD_some] at hdata
        rw [if_pos rfl, step_eq_some]
        refine ⟨_, hwrite, ?_⟩
        rw [hholder]
        simp only [Holder.dataOf, get_rewriteData, if_true, hvalue, Option.map_some,
          Option.getD_some, Option.some.injEq]
        unfold rewritten
        rw [hdata]
      | false =>
        rw [hwalked, if_neg Bool.false_ne_true] at hwrite
        rw [if_neg Bool.false_ne_true, step_eq_some]
        refine ⟨_, hwrite, ?_⟩
        rw [hholder, ← hdata]
        rfl
    | _ => cases hdata
  . rw [hwalks, decide_eq_false hholder, Bool.false_and, if_neg Bool.false_ne_true, step_eq_some]
    exact ⟨w, hrewritten.1 hholder, hdata⟩

theorem step_of_rewritten {s : Step} {q : Place} (h : (p.rewritten now).step s = some q)
    : (∃ r, p.step s = some r) ∨ q.data = .obj [("deletedAt", .date now)] := by
  obtain ⟨w, hw, hdata⟩ := step_eq_some.mp h
  obtain ⟨writes', hnested, hw⟩ := write_eq_some.mp hw
  rw [nested_rewritten, Option.map_eq_some_iff] at hnested
  obtain ⟨⟨target, writes⟩, hnested, heq⟩ := hnested
  simp only [Prod.mk.injEq] at heq
  obtain ⟨htarget, hwrites⟩ := heq
  rw [← hwrites] at hw
  by_cases hholder : s.holder = .update
  . rw [hholder] at hw hdata
    cases update_of_rewriteOps hw with
    | inr hsoft =>
      obtain ⟨condition, hsoft⟩ := hsoft
      rw [hsoft] at hdata
      exact .inr (Option.some.inj hdata).symm
    | inl hupdate =>
      obtain ⟨update, hupdate, heq⟩ := hupdate
      have hwrite : p.write s = some (target, update) := by
        rw [write_eq_some]
        refine ⟨writes, hnested, ?_⟩
        rw [hholder]
        exact hupdate
      cases update with
      | obj fields =>
        refine .inl ⟨⟨target, (Fields.get fields "data").getD (.obj fields)⟩, ?_⟩
        rw [step_eq_some]
        refine ⟨_, hwrite, ?_⟩
        rw [hholder]
        rfl
      | _ =>
        rw [heq] at hdata
        cases hdata
  . obtain ⟨hupdate, hupdateMany, hdelete, hdeleteMany⟩ := Holder.op_ne hholder
    rw [get_rewriteOps_other writes hupdate hupdateMany hdelete hdeleteMany] at hw
    refine .inl ⟨⟨target, q.data⟩, ?_⟩
    rw [step_eq_some]
    exact ⟨w, write_eq_some.mpr ⟨writes, hnested, hw⟩, hdata⟩

theorem descend_rewritten {path : List Step} {q : Place} (h : p.descend path = some q)
    : (p.rewritten now).descend path
        = some (if p.walksAll path then q.rewritten now else q) := by
  -- Below a place that is not walked everything stays as it is.
  induction path generalizing p with
  | nil =>
    cases h
    rfl
  | cons s path ih =>
    unfold descend at h
    rw [Option.bind_eq_some_iff] at h
    obtain ⟨r, hstep, hrest⟩ := h
    unfold descend walksAll
    rw [step_rewritten hstep, hstep, Option.bind_some, Option.any_some]
    cases p.walks s with
    | true => exact ih hrest
    | false => exact hrest

theorem nested_softDelete {q : Place} (h : q.data = .obj [("deletedAt", .date now)]) (relation : String)
    : q.nested relation = none := by
  unfold nested
  rw [h]
  cases htarget : q.model.relationTarget relation with
  | none => rfl
  | some target =>
    have hne : "deletedAt" ≠ relation := by
      intro heq
      have hnone : q.model.relationTarget "deletedAt" = none := by
        cases q.model <;> rfl
      rw [← heq, hnone] at htarget
      cases htarget
    simp [Arg.get, Fields.get_cons, hne]

theorem descend_of_rewritten {path : List Step} {q : Place}
    (h : (p.rewritten now).descend path = some q)
    : (∃ r, p.descend path = some r) ∨ q.data = .obj [("deletedAt", .date now)] := by
  -- A path ends early where a delete has become an update of `deletedAt`.
  induction path generalizing p with
  | nil => exact .inl ⟨p, rfl⟩
  | cons s path ih =>
    unfold descend at h
    rw [Option.bind_eq_some_iff] at h
    obtain ⟨r', hstep, hrest⟩ := h
    cases step_of_rewritten hstep with
    | inl hr =>
      obtain ⟨r, hr⟩ := hr
      rw [step_rewritten hr, Option.some.injEq] at hstep
      unfold descend
      rw [hr, Option.bind_some]
      rw [← hstep] at hrest
      cases hwalks : p.walks s with
      | true =>
        rw [hwalks, if_pos rfl] at hrest
        exact ih hrest
      | false =>
        rw [hwalks, if_neg Bool.false_ne_true] at hrest
        exact .inl ⟨q, hrest⟩
    | inr hsoft =>
      cases path with
      | nil =>
        cases hrest
        exact .inr hsoft
      | cons s' path =>
        have hnone : r'.step s' = none := by
          unfold step write
          rw [nested_softDelete hsoft]
          rfl
        unfold descend at hrest
        rw [hnone] at hrest
        cases hrest

theorem touched_nested {relation : String} {target : Model} {writes : Fields}
    (h : p.nested relation = some (target, writes)) {t : Touched}
    (ht : t ∈ (rewriteNested now target (.obj writes)).2)
    (hop : (Fields.get writes "update").isSome ∨ (Fields.get writes "delete").isSome
      ∨ (Fields.get writes "deleteMany").isSome)
    : t ∈ (rewriteNestedWrites now p.model p.data).2 := by
  unfold nested at h
  cases htarget : p.model.relationTarget relation with
  | none =>
    rw [htarget] at h
    cases h
  | some target' =>
    rw [htarget] at h
    simp only [Option.bind_eq_bind, Option.bind_some, Option.pure_def, Option.bind_eq_some_iff,
      Option.some.injEq, Prod.mk.injEq] at h
    obtain ⟨value, hvalue, writes', hentries, heq, hwrites⟩ := h
    rw [heq] at htarget
    rw [hwrites] at hentries
    cases hdata : p.data with
    | obj fields =>
      rw [hdata] at hvalue
      unfold rewriteNestedWrites
      refine touched_rewriteFields htarget hvalue ?_
      cases value with
      | obj nested =>
        cases hentries
        exact ht
      | arr values =>
        cases hentries
        rw [get_indexed values update_not_digits, get_indexed values delete_not_digits,
          get_indexed values deleteMany_not_digits] at hop
        simp at hop
      | date =>
        cases hentries
        simp at hop
      | _ => cases hentries
    | _ =>
      rw [hdata] at hvalue
      cases hvalue

theorem touched_step {s : Step} {q : Place} (h : p.step s = some q) (hwalks : p.walks s) {t : Touched}
    (ht : t ∈ (rewriteNestedWrites now q.model q.data).2)
    : t ∈ (rewriteNestedWrites now p.model p.data).2 := by
  obtain ⟨w, hw, hdata⟩ := step_eq_some.mp h
  obtain ⟨writes, hnested, helement⟩ := write_eq_some.mp hw
  rw [walks_eq hw, Bool.and_eq_true, decide_eq_true_eq] at hwalks
  obtain ⟨hholder, htruthy⟩ := hwalks
  rw [hholder] at hdata helement
  cases w with
  | obj update =>
    simp only [Holder.dataOf, Option.some.injEq] at hdata
    dsimp only [Arg.get] at htruthy
    obtain ⟨value, hvalue⟩ := get_of_truthy (Bool.and_eq_true_iff.mp htruthy).2
    rw [hvalue, Option.getD_some] at hdata
    have hrecorded : t ∈ (rewriteUpdate now q.model (.obj update)).2 := by
      unfold rewriteUpdate recordUpdate
      dsimp only
      rw [if_pos htruthy, touched_rewriteData hvalue, hdata]
      exact List.mem_append_right _ ht
    unfold elementsOf Holder.op at helement
    cases hupdates : Fields.get writes "update" with
    | none =>
      rw [hupdates] at helement
      cases helement
    | some updates =>
      rw [hupdates] at helement
      refine touched_nested hnested ?_ (.inl (by rw [hupdates]; rfl))
      refine (touched_rewriteNested writes).2.2 updates hupdates t ?_
      rw [(rewriteUpdates_eq updates).2.2]
      exact List.mem_flatMap_of_mem (List.mem_of_getElem? helement) hrecorded
  | _ => cases hdata

theorem touched_descend {path : List Step} {q : Place} (h : p.descend path = some q)
    (hwalks : p.walksAll path) {t : Touched} (ht : t ∈ (rewriteNestedWrites now q.model q.data).2)
    : t ∈ (rewriteNestedWrites now p.model p.data).2 := by
  induction path generalizing p with
  | nil =>
    cases h
    exact ht
  | cons s path ih =>
    unfold descend at h
    rw [Option.bind_eq_some_iff] at h
    obtain ⟨r, hstep, hrest⟩ := h
    unfold walksAll at hwalks
    rw [hstep, Option.any_some, Bool.and_eq_true] at hwalks
    exact touched_step hstep hwalks.1 (ih hrest hwalks.2)

end Place

/-! The mutations. -/

/-- The mutations that are given data. -/
inductive DataOp where
  | create
  | createMany
  | update
  | updateMany
  | upsert
  deriving DecidableEq

/-- The nested writes of the others are handed on as they are. -/
def DataOp.rewrites : DataOp → Bool
  | create => true
  | createMany => false
  | update => true
  | updateMany => false
  | upsert => true

/-- The data that a mutation hands to Prisma. -/
def DataOp.handed (now : DateTime) (op : DataOp) (p : Place) : Place :=
  if op.rewrites then p.rewritten now else p

def DataOp.touched (now : DateTime) (op : DataOp) (p : Place) : List Touched :=
  if op.rewrites then (rewriteNestedWrites now p.model p.data).2 else []

/-- What a nested write is about: the related row, or those that a condition finds. -/
inductive Targets where
  | related
  | nothing
  | found (condition : Fields)

/-- The targets of a `delete`: of a single row it is a flag or a condition. -/
def deleteTargets : Arg → Option Targets
  | .bool true => some .related
  | .bool false => some .nothing
  | .obj condition => some (.found condition)
  | _ => none

def deleteManyTargets (write : Arg) : Option Targets :=
  match condition write with
  | .obj condition => some (.found condition)
  | _ => none

def updateTargets (update : Arg) : Option Targets :=
  match update.get "where" with
  | none => some .related
  | some (.obj condition) => some (.found condition)
  | some _ => none

/--
The writes of an operation are those of the data and then, for each delete, one that sets
`deletedAt` of the same rows.
-/
def SetsDeletedAt (now : DateTime) (p' : Place) (path : List Step) (relation op : String)
    (target : Model) (own : ℕ) (targets : List (Option Targets)) : Prop :=
  ∃ q writes before added, p'.descend path = some q ∧ q.nested relation = some (target, writes)
    ∧ elementsOf (Fields.get writes op) = before ++ added ∧ before.length = own
    ∧ added.map updateTargets = targets
    ∧ ∀ u ∈ added, u.get "data" = some (.obj [("deletedAt", .date now)])

/-- The data that Prisma is handed deletes no row, sets `deletedAt` instead and is the same otherwise. -/
structure SoftDeletes (now : DateTime) (p p' : Place) (touched : List Touched) : Prop where
  no_delete : ∀ path relation op target value, op = "delete" ∨ op = "deleteMany" →
    ¬ p'.Writes path relation op target value
  delete : ∀ path q relation target writes del, p.descend path = some q →
    q.nested relation = some (target, writes) → Fields.get writes "delete" = some del →
      SetsDeletedAt now p' path relation "update" target
          (elementsIf (Fields.get writes "update")).length (del.elements.map deleteTargets)
        ∧ ∀ d ∈ del.elements, Touched.mk target "delete" (some d) ∈ touched
  deleteMany : ∀ path q relation target writes dm, p.descend path = some q →
    q.nested relation = some (target, writes) → Fields.get writes "deleteMany" = some dm →
      SetsDeletedAt now p' path relation "updateMany" target
          (elementsIf (Fields.get writes "updateMany")).length (dm.elements.map deleteManyTargets)
        ∧ ∀ c ∈ dm.elements, Touched.mk target "deleteMany" (some (condition c)) ∈ touched
  columns : ∀ path q, p.descend path = some q → ∃ q', p'.descend path = some q'
    ∧ q'.model = q.model
    ∧ ∀ key, q.model.relationTarget key = none → q'.data.get key = q.data.get key
  updates : ∀ path q s target update, p.descend path = some q → s.holder = .update →
    q.write s = some (target, .obj update) → ∃ q' update', p'.descend path = some q'
      ∧ q'.write s = some (target, .obj update')
      ∧ ∀ key, key ≠ "data" → Fields.get update' key = Fields.get update key
  others : ∀ path q relation target writes, p.descend path = some q →
    q.nested relation = some (target, writes) → ∃ q' writes', p'.descend path = some q'
      ∧ q'.nested relation = some (target, writes')
      ∧ (∀ op, op ≠ "update" → op ≠ "updateMany" → op ≠ "delete" → op ≠ "deleteMany" →
          Fields.get writes' op = Fields.get writes op)
      ∧ ∀ (i : ℕ) (update : Fields),
          (elementsOf (Fields.get writes "updateMany"))[i]? = some (.obj update) →
            (elementsOf (Fields.get writes' "updateMany"))[i]? = some (.obj update)

/--
The deletes of the data are those that the walk comes to, in a mutation that has one, and none of
them is a flag.
-/
def Reached (op : DataOp) (p : Place) : Prop :=
  ∀ path relation target value,
    (p.Writes path relation "delete" target value →
      op.rewrites ∧ p.walksAll path ∧ ∀ d ∈ value.elements, ∀ b, d ≠ .bool b)
    ∧ (p.Writes path relation "deleteMany" target value → op.rewrites ∧ p.walksAll path)

theorem updateTargets_softDelete {now : DateTime} {d : Arg} (h : ∀ b, d ≠ .bool b)
    : updateTargets (softDelete now d) = deleteTargets d := by
  cases d with
  | bool b => exact absurd rfl (h b)
  | _ => rfl

theorem updateTargets_condition {now : DateTime} (c : Arg)
    : updateTargets (softDelete now (condition c)) = deleteManyTargets c := by
  unfold deleteManyTargets
  cases condition c <;> rfl

section Handed

variable {now : DateTime} {op : DataOp} {p q : Place} {path : List Step}

theorem descend_handed (h : p.descend path = some q)
    : (op.handed now p).descend path
        = some (if op.rewrites && p.walksAll path then q.rewritten now else q) := by
  unfold DataOp.handed
  cases op.rewrites with
  | true => exact Place.descend_rewritten h
  | false => exact h

theorem nested_handed {relation : String} {target : Model} {writes : Fields}
    (h : p.descend path = some q) (hnested : q.nested relation = some (target, writes))
    : ∃ q', (op.handed now p).descend path = some q'
        ∧ q'.nested relation
            = some (target, if op.rewrites && p.walksAll path then rewriteOps now target writes
                else writes) := by
  refine ⟨_, descend_handed h, ?_⟩
  cases op.rewrites && p.walksAll path with
  | true =>
    rw [if_pos rfl, if_pos rfl, Place.nested_rewritten, hnested]
    rfl
  | false => exact hnested

theorem handed_no_delete (h : Reached op p) {relation name : String} {target : Model} {value : Arg}
    (hname : name = "delete" ∨ name = "deleteMany")
    : ¬ (op.handed now p).Writes path relation name target value := by
  intro ⟨q', writes, hdescend, hnested, hget⟩
  have hreached {r : Place} (hr : p.descend path = some r) (hr' : r.nested relation = some (target, writes))
      : op.rewrites = true ∧ p.walksAll path = true := by
    have hwrites : p.Writes path relation name target value := ⟨r, writes, hr, hr', hget⟩
    cases hname with
    | inl hname =>
      rw [hname] at hwrites
      obtain ⟨hrewrites, hwalks, _⟩ := (h path relation target value).1 hwrites
      exact ⟨hrewrites, hwalks⟩
    | inr hname =>
      rw [hname] at hwrites
      exact (h path relation target value).2 hwrites
  have hplace : ∃ r, p.descend path = some r := by
    unfold DataOp.handed at hdescend
    split at hdescend
    . cases Place.descend_of_rewritten hdescend with
      | inl hr => exact hr
      | inr hsoft =>
        rw [Place.nested_softDelete hsoft] at hnested
        cases hnested
    . exact ⟨q', hdescend⟩
  obtain ⟨r, hr⟩ := hplace
  rw [descend_handed hr, Option.some.injEq] at hdescend
  cases hwalked : op.rewrites && p.walksAll path with
  | false =>
    rw [hwalked, if_neg Bool.false_ne_true] at hdescend
    rw [← hdescend] at hnested
    obtain ⟨hrewrites, hwalks⟩ := hreached hr hnested
    rw [hrewrites, hwalks] at hwalked
    cases hwalked
  | true =>
    rw [hwalked, if_pos rfl] at hdescend
    rw [← hdescend, Place.nested_rewritten, Option.map_eq_some_iff] at hnested
    obtain ⟨⟨target', writes'⟩, _, heq⟩ := hnested
    simp only [Prod.mk.injEq] at heq
    rw [← heq.2, get_rewriteOps_deleted writes' hname] at hget
    cases hget

theorem handed_delete (h : Reached op p) {relation : String} {target : Model} {writes : Fields}
    {del : Arg} (hdescend : p.descend path = some q) (hnested : q.nested relation = some (target, writes))
    (hdel : Fields.get writes "delete" = some del)
    : SetsDeletedAt now (op.handed now p) path relation "update" target
          (elementsIf (Fields.get writes "update")).length (del.elements.map deleteTargets)
        ∧ ∀ d ∈ del.elements, Touched.mk target "delete" (some d) ∈ op.touched now p := by
  obtain ⟨hrewrites, hwalks, hflags⟩ := (h path relation target del).1
    ⟨q, writes, hdescend, hnested, hdel⟩
  obtain ⟨q', hdescend', hnested'⟩ := @nested_handed now op _ _ _ _ _ _ hdescend hnested
  rw [hrewrites, hwalks, Bool.and_self, if_pos rfl] at hnested'
  constructor
  . refine ⟨q', _, _, _, hdescend', hnested', deletes_rewriteOps hdel, ?_, ?_, ?_⟩
    . rw [List.length_map]
    . rw [List.map_map]
      apply List.map_congr_left
      intro d hd
      exact updateTargets_softDelete (hflags d hd)
    . intro u hu
      obtain ⟨d, _, heq⟩ := List.mem_map.mp hu
      rw [← heq]
      rfl
  . intro d hd
    unfold DataOp.touched
    rw [if_pos hrewrites]
    refine Place.touched_descend hdescend hwalks ?_
    refine Place.touched_nested hnested ((touched_rewriteNested writes).1 del hdel d hd) ?_
    rw [hdel]
    exact .inr (.inl rfl)

theorem handed_deleteMany (h : Reached op p) {relation : String} {target : Model} {writes : Fields}
    {dm : Arg} (hdescend : p.descend path = some q) (hnested : q.nested relation = some (target, writes))
    (hdm : Fields.get writes "deleteMany" = some dm)
    : SetsDeletedAt now (op.handed now p) path relation "updateMany" target
          (elementsIf (Fields.get writes "updateMany")).length (dm.elements.map deleteManyTargets)
        ∧ ∀ c ∈ dm.elements,
            Touched.mk target "deleteMany" (some (condition c)) ∈ op.touched now p := by
  obtain ⟨hrewrites, hwalks⟩ := (h path relation target dm).2 ⟨q, writes, hdescend, hnested, hdm⟩
  obtain ⟨q', hdescend', hnested'⟩ := @nested_handed now op _ _ _ _ _ _ hdescend hnested
  rw [hrewrites, hwalks, Bool.and_self, if_pos rfl] at hnested'
  have hmany := @deleteMany_rewriteOps now target writes
  rw [hdm] at hmany
  constructor
  . refine ⟨q', _, _, _, hdescend', hnested', hmany, rfl, ?_, ?_⟩
    . rw [List.map_map, List.map_map]
      apply List.map_congr_left
      intro c _
      exact updateTargets_condition c
    . intro u hu
      obtain ⟨d, _, heq⟩ := List.mem_map.mp hu
      rw [← heq]
      rfl
  . intro c hc
    unfold DataOp.touched
    rw [if_pos hrewrites]
    refine Place.touched_descend hdescend hwalks ?_
    refine Place.touched_nested hnested ((touched_rewriteNested writes).2.1 dm hdm c hc) ?_
    rw [hdm]
    exact .inr (.inr rfl)

theorem handed_columns (h : p.descend path = some q)
    : ∃ q', (op.handed now p).descend path = some q' ∧ q'.model = q.model
        ∧ ∀ key, q.model.relationTarget key = none → q'.data.get key = q.data.get key := by
  refine ⟨_, descend_handed h, ?_⟩
  cases op.rewrites && p.walksAll path with
  | false => exact ⟨rfl, fun _ _ => rfl⟩
  | true =>
    refine ⟨rfl, ?_⟩
    intro key hkey
    rw [if_pos rfl]
    unfold Place.rewritten
    dsimp only
    cases q.data with
    | obj fields =>
      unfold rewriteNestedWrites Arg.get
      exact get_rewriteFields_plain now hkey fields
    | _ => rfl

theorem handed_updates {s : Step} {target : Model} {update : Fields} (h : p.descend path = some q)
    (hholder : s.holder = .update) (hwrite : q.write s = some (target, .obj update))
    : ∃ q' update', (op.handed now p).descend path = some q'
        ∧ q'.write s = some (target, .obj update')
        ∧ ∀ key, key ≠ "data" → Fields.get update' key = Fields.get update key := by
  have hdescend := @descend_handed now op _ _ _ h
  cases hwalked : op.rewrites && p.walksAll path with
  | false =>
    rw [hwalked, if_neg Bool.false_ne_true] at hdescend
    exact ⟨q, update, hdescend, hwrite, fun _ _ => rfl⟩
  | true =>
    rw [hwalked, if_pos rfl] at hdescend
    have hrewritten := (@Place.write_rewritten now _ _ _ _ hwrite).2 hholder update rfl
    unfold rewriteUpdate recordUpdate at hrewritten
    dsimp only at hrewritten
    split at hrewritten
    . refine ⟨_, _, hdescend, hrewritten, ?_⟩
      intro key hkey
      rw [get_rewriteData, if_neg hkey]
    . exact ⟨_, _, hdescend, hrewritten, fun _ _ => rfl⟩

theorem handed_others {relation : String} {target : Model} {writes : Fields}
    (h : p.descend path = some q) (hnested : q.nested relation = some (target, writes))
    : ∃ q' writes', (op.handed now p).descend path = some q'
        ∧ q'.nested relation = some (target, writes')
        ∧ (∀ name, name ≠ "update" → name ≠ "updateMany" → name ≠ "delete" → name ≠ "deleteMany" →
            Fields.get writes' name = Fields.get writes name)
        ∧ ∀ (i : ℕ) (update : Fields),
            (elementsOf (Fields.get writes "updateMany"))[i]? = some (.obj update) →
              (elementsOf (Fields.get writes' "updateMany"))[i]? = some (.obj update) := by
  obtain ⟨q', hdescend, hnested'⟩ := @nested_handed now op _ _ _ _ _ _ h hnested
  refine ⟨q', _, hdescend, hnested', ?_⟩
  split
  . constructor
    . intro name hupdate hupdateMany hdelete hdeleteMany
      exact get_rewriteOps_other writes hupdate hupdateMany hdelete hdeleteMany
    . intro i update hi
      rw [deleteMany_rewriteOps]
      split
      . exact hi
      . rw [elementsIf_of_obj (List.mem_of_getElem? hi),
          List.getElem?_append_left (List.getElem?_eq_some_iff.mp hi).1]
        exact hi
  . exact ⟨fun _ _ _ _ _ => rfl, fun _ _ hi => hi⟩

theorem handed_of_reached (h : Reached op p)
    : SoftDeletes now p (op.handed now p) (op.touched now p) where
  no_delete := fun _ _ _ _ _ hname => handed_no_delete h hname
  delete := fun _ _ _ _ _ _ hdescend hnested hdel => handed_delete h hdescend hnested hdel
  deleteMany := fun _ _ _ _ _ _ hdescend hnested hdm => handed_deleteMany h hdescend hnested hdm
  columns := fun _ _ hdescend => handed_columns hdescend
  updates := fun _ _ _ _ _ hdescend hholder hwrite => handed_updates hdescend hholder hwrite
  others := fun _ _ _ _ _ hdescend hnested => handed_others hdescend hnested

theorem reached_of_gone {relation name : String} {target : Model} {value : Arg}
    (h : p.Writes path relation name target value)
    (hgone : ¬ (op.handed now p).Writes path relation name target value)
    : op.rewrites ∧ p.walksAll path := by
  obtain ⟨q, writes, hdescend, hnested, hget⟩ := h
  have hdescend' := @descend_handed now op _ _ _ hdescend
  cases hwalked : op.rewrites && p.walksAll path with
  | true => exact Bool.and_eq_true_iff.mp hwalked
  | false =>
    rw [hwalked, if_neg Bool.false_ne_true] at hdescend'
    exact absurd ⟨q, writes, hdescend', hnested, hget⟩ hgone

theorem reached_of_softDeletes (h : SoftDeletes now p (op.handed now p) (op.touched now p))
    : Reached op p := by
  intro path relation target value
  constructor
  . intro hwrites
    obtain ⟨hrewrites, hwalks⟩ := reached_of_gone hwrites
      (h.no_delete path relation "delete" target value (.inl rfl))
    refine ⟨hrewrites, hwalks, ?_⟩
    intro d hd b hflag
    obtain ⟨q, writes, hdescend, hnested, hget⟩ := hwrites
    obtain ⟨q', writes', before, added, hdescend', hnested', helements, hbefore, htargets, _⟩ :=
      (h.delete path q relation target writes value hdescend hnested hget).1
    obtain ⟨q'', hdescend'', hnested''⟩ := @nested_handed now op _ _ _ _ _ _ hdescend hnested
    rw [hrewrites, hwalks, Bool.and_self, if_pos rfl] at hnested''
    rw [hdescend', Option.some.injEq] at hdescend''
    rw [← hdescend'', hnested', Option.some.injEq, Prod.mk.injEq] at hnested''
    -- The writes that were added are the soft deletes.
    rw [hnested''.2, deletes_rewriteOps hget] at helements
    have hadded := List.append_inj_right helements (by rw [List.length_map, hbefore])
    rw [← hadded, List.map_map, List.map_inj_left] at htargets
    have htarget := htargets d hd
    rw [hflag] at htarget
    cases b <;> cases htarget
  . intro hwrites
    exact reached_of_gone hwrites (h.no_delete path relation "deleteMany" target value (.inr rfl))

end Handed

/--
A mutation sets `deletedAt` in the place of its nested deletes exactly when each of them stands below
updates with `where` and `data` only, in a mutation whose data is rewritten, and none is a flag.
-/
theorem softDeletes_iff (now : DateTime) (op : DataOp) (p : Place)
    : SoftDeletes now p (op.handed now p) (op.touched now p) ↔ Reached op p :=
  ⟨reached_of_softDeletes, handed_of_reached⟩

/-- An update of a product that takes a modifier out of the group of one of its links. -/
def unlinkedModifier : Arg :=
  .obj [("productModifierGroups", .obj [("update", .obj [
    ("where", whereId 5),
    ("data", .obj [("group", .obj [("update", .obj [
      ("modifiers", .obj [("delete", whereId 9)])])])])])])]

/-- The walk stops at the update of the group, which is one of a single row. -/
theorem unlinkedModifier_deleted
    : ¬ ∀ (now : DateTime) (op : DataOp) (p : Place),
        SoftDeletes now p (op.handed now p) (op.touched now p) := by
  intro hall
  have hsoft := hall 0 .update ⟨.product, unlinkedModifier⟩
  refine hsoft.no_delete
    [⟨"productModifierGroups", .update, 0⟩, ⟨"group", .update, 0⟩]
    "modifiers" "delete" .modifier (whereId 9) (.inl rfl) ?_
  exact ⟨_, _, rfl, rfl, rfl⟩

end SentryPos.NestedWrite
