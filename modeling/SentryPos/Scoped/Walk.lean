import SentryPos.Scoped.Children
import SentryPos.Scoped.NestedReads

/-!
This module contains what the client's walk makes of the writes nested under one relation, operation
by operation.
-/

namespace SentryPos.NestedWrite

open Arg (Fields)

section Walk

variable {now : DateTime} {model : Model}

def rewriteUpdate (now : DateTime) (model : Model) : Arg → Arg × List Touched
  | .obj update => recordUpdate model update (rewriteData now model update)
  | update => (update, [])

theorem rewriteEach_eq (updates : List Arg)
    : rewriteEach now model updates
        =
      (updates.map fun u => (rewriteUpdate now model u).1,
        updates.flatMap fun u => (rewriteUpdate now model u).2) := by
  induction updates with
  | nil => rfl
  | cons update updates ih =>
    unfold rewriteEach
    rw [ih]
    cases update <;> rfl

theorem rewriteUpdates_eq (value : Arg)
    : (rewriteUpdates now model value).1.isArray = value.isArray
        ∧ (rewriteUpdates now model value).1.elements
            = (value.elements.map fun u => (rewriteUpdate now model u).1)
        ∧ (rewriteUpdates now model value).2
            = (value.elements.flatMap fun u => (rewriteUpdate now model u).2) := by
  cases value with
  | arr updates =>
    unfold rewriteUpdates
    rw [rewriteEach_eq]
    exact ⟨rfl, rfl, rfl⟩
  | obj update =>
    unfold rewriteUpdates
    have hobj : ∃ fields, (rewriteUpdate now model (.obj update)).1 = .obj fields := by
      unfold rewriteUpdate recordUpdate
      dsimp only
      split
      . exact ⟨_, rfl⟩
      . exact ⟨_, rfl⟩
    obtain ⟨fields, hfields⟩ := hobj
    unfold rewriteUpdate at hfields
    dsimp only at hfields ⊢
    refine ⟨?_, ?_, ?_⟩
    . rw [hfields]
      rfl
    . rw [hfields]
      simp [Arg.elements, rewriteUpdate, hfields]
    . simp [Arg.elements, rewriteUpdate]
  | _ => exact ⟨rfl, rfl, rfl⟩

theorem get_rewriteUpdateField (nested : Fields) (op : String)
    : Fields.get (rewriteUpdateField now model nested).1 op
        =
      if op = "update" then
        (Fields.get nested "update").map fun v => (rewriteUpdates now model v).1
      else Fields.get nested op := by
  induction nested with
  | nil => simp [rewriteUpdateField]
  | cons f nested ih =>
    unfold rewriteUpdateField
    by_cases hf : f.1 = "update"
    . simp only [hf, if_true, Fields.get_cons, Option.map_some]
      by_cases hop : op = "update"
      . simp [hop]
      . simp [hop, Ne.symm hop]
    . simp only [hf, if_false, Fields.get_cons, ih]
      by_cases hop : op = "update"
      . simp [hop, hf]
      . simp [hop]

theorem touched_rewriteUpdateField {nested : Fields} {value : Arg}
    (h : Fields.get nested "update" = some value)
    : (rewriteUpdateField now model nested).2 = (rewriteUpdates now model value).2 := by
  induction nested with
  | nil => simp at h
  | cons f nested ih =>
    rw [Fields.get_cons] at h
    unfold rewriteUpdateField
    by_cases hf : f.1 = "update"
    . rw [if_pos hf, Option.some.injEq] at h
      simp only [hf, if_true]
      rw [h]
    . rw [if_neg hf] at h
      simp only [hf, if_false]
      exact ih h

theorem get_erase (fields : Fields) (key other : String)
    : Fields.get (Fields.erase fields key) other
        = if other = key then none else Fields.get fields other := by
  induction fields with
  | nil => simp [Fields.erase]
  | cons f fields ih =>
    unfold Fields.erase at ih ⊢
    rw [List.filter_cons]
    by_cases hf : f.1 = key
    . simp only [hf, ne_eq, not_true_eq_false, decide_false, Bool.false_eq_true, if_false]
      rw [ih, Fields.get_cons]
      by_cases ho : other = key
      . simp [ho]
      . simp [ho, hf, Ne.symm ho]
    . simp only [hf, ne_eq, not_false_eq_true, decide_true, if_true]
      rw [Fields.get_cons, Fields.get_cons, ih]
      by_cases ho : other = key
      . have hne : f.1 ≠ other := fun h => hf (h.trans ho)
        simp [ho, hf]
      . simp [ho]

def elementsOf (value : Option Arg) : List Arg :=
  (value.map Arg.elements).getD []

theorem get_rewriteDelete (nested : Fields) {op : String} (hop : op ≠ "update")
    : Fields.get (rewriteDelete now model nested).1 op
        = if op = "delete" then none else Fields.get nested op := by
  unfold rewriteDelete
  cases h : Fields.get nested "delete" with
  | none =>
    by_cases hdelete : op = "delete"
    . rw [if_pos hdelete, hdelete, h]
    . rw [if_neg hdelete]
  | some del =>
    dsimp only
    rw [Fields.get_set, if_neg (Ne.symm hop), get_erase]

theorem elements_rewriteDelete {nested : Fields} {del : Arg}
    (h : Fields.get nested "delete" = some del)
    : elementsOf (Fields.get (rewriteDelete now model nested).1 "update")
        = elementsIf (Fields.get nested "update") ++ del.elements.map (softDelete now) := by
  unfold rewriteDelete
  rw [h]
  dsimp only
  rw [Fields.get_set, if_pos rfl]
  unfold elementsOf
  split
  . next one hone =>
    split
    . next hsingle =>
      -- Without updates of its own the one element is the delete.
      have hlength : del.elements.length = 1 := by
        simp only [Bool.and_eq_true, decide_eq_true_eq] at hsingle
        exact hsingle.2
      have hempty : elementsIf (Fields.get nested "update") = [] := by
        have hlen := congrArg List.length hone
        rw [List.length_append, List.length_map, hlength, List.length_singleton] at hlen
        exact List.length_eq_zero_iff.mp (by omega)
      obtain ⟨d, hd⟩ := List.length_eq_one_iff.mp hlength
      rw [hempty, hd] at hone ⊢
      simp only [List.map_cons, List.map_nil, List.nil_append, List.cons.injEq, and_true] at hone ⊢
      rw [← hone]
      rfl
    . rw [hone]
      rfl
  . rfl

theorem get_rewriteDeleteMany {nested : Fields} (op : String)
    : Fields.get (rewriteDeleteMany now model nested).1 op
        =
      match Fields.get nested "deleteMany" with
      | none => Fields.get nested op
      | some dm =>
        if op = "updateMany" then
          some (.arr (elementsIf (Fields.get nested "updateMany")
            ++ (dm.elements.map condition).map (softDelete now)))
        else if op = "deleteMany" then none
        else Fields.get nested op := by
  unfold rewriteDeleteMany
  cases h : Fields.get nested "deleteMany" with
  | none => rfl
  | some dm =>
    dsimp only
    rw [Fields.get_set, get_erase]
    by_cases hop : op = "updateMany"
    . rw [if_pos hop.symm, if_pos hop]
    . rw [if_neg (Ne.symm hop), if_neg hop]

def rewriteOps (now : DateTime) (model : Model) (nested : Fields) : Fields :=
  (rewriteDeleteMany now model
    (rewriteDelete now model (rewriteUpdateField now model nested).1).1).1

theorem rewriteNested_obj (nested : Fields)
    : (rewriteNested now model (.obj nested)).1 = .obj (rewriteOps now model nested) := by
  unfold rewriteNested rewriteOps
  rfl

theorem get_rewriteOps_deleted (nested : Fields) {op : String} (hop : op = "delete" ∨ op = "deleteMany")
    : Fields.get (rewriteOps now model nested) op = none := by
  unfold rewriteOps
  rw [get_rewriteDeleteMany]
  cases hop with
  | inl hop =>
    have hnone : Fields.get (rewriteDelete now model (rewriteUpdateField now model nested).1).1
        "delete" = none := by
      rw [get_rewriteDelete _ (by decide), if_pos rfl]
    rw [hop]
    split
    . exact hnone
    . rw [if_neg (by decide), if_neg (by decide)]
      exact hnone
  | inr hop =>
    rw [hop]
    split
    . assumption
    . rw [if_neg (by decide), if_pos rfl]

theorem get_rewriteOps_update (nested : Fields)
    : Fields.get (rewriteOps now model nested) "update"
        = Fields.get (rewriteDelete now model (rewriteUpdateField now model nested).1).1 "update" := by
  unfold rewriteOps
  rw [get_rewriteDeleteMany]
  split
  . rfl
  . rw [if_neg (by decide), if_neg (by decide)]

theorem get_rewriteOps_other (nested : Fields) {op : String} (hupdate : op ≠ "update")
    (hupdateMany : op ≠ "updateMany") (hdelete : op ≠ "delete") (hdeleteMany : op ≠ "deleteMany")
    : Fields.get (rewriteOps now model nested) op = Fields.get nested op := by
  have hkept : Fields.get (rewriteDelete now model (rewriteUpdateField now model nested).1).1 op
      = Fields.get nested op := by
    rw [get_rewriteDelete _ hupdate, if_neg hdelete, get_rewriteUpdateField, if_neg hupdate]
  unfold rewriteOps
  rw [get_rewriteDeleteMany]
  split
  . exact hkept
  . rw [if_neg hupdateMany, if_neg hdeleteMany]
    exact hkept

theorem rewriteUpdate_isObj (update : Fields)
    : ∃ fields, (rewriteUpdate now model (.obj update)).1 = .obj fields := by
  unfold rewriteUpdate recordUpdate
  dsimp only
  split
  . exact ⟨_, rfl⟩
  . exact ⟨_, rfl⟩

theorem elementsIf_of_obj {value : Option Arg} {fields : Fields}
    (h : .obj fields ∈ elementsOf value) : elementsIf value = elementsOf value := by
  unfold elementsIf
  rw [if_pos]
  . rfl
  cases value with
  | none => cases h
  | some value =>
    cases value with
    | arr => rfl
    | obj => rfl
    | _ =>
      unfold elementsOf at h
      simp [Arg.elements] at h

theorem elementsIf_mem {value : Option Arg} {i : ℕ} {w : Arg} (h : (elementsIf value)[i]? = some w)
    : (elementsOf value)[i]? = some w := by
  unfold elementsIf at h
  split at h
  . exact h
  . cases h

theorem elementsOf_rewriteUpdates (value : Option Arg)
    : elementsOf (value.map fun v => (rewriteUpdates now model v).1)
        = (elementsOf value).map fun u => (rewriteUpdate now model u).1 := by
  cases value with
  | none => rfl
  | some value => exact (rewriteUpdates_eq value).2.1

theorem update_rewriteOps {nested : Fields} {i : ℕ} {update : Fields}
    (h : (elementsOf (Fields.get nested "update"))[i]? = some (.obj update))
    : (elementsOf (Fields.get (rewriteOps now model nested) "update"))[i]?
        = some (rewriteUpdate now model (.obj update)).1 := by
  have hmap : (elementsOf (Fields.get (rewriteUpdateField now model nested).1 "update"))[i]?
      = some (rewriteUpdate now model (.obj update)).1 := by
    rw [get_rewriteUpdateField, if_pos rfl, elementsOf_rewriteUpdates, List.getElem?_map, h]
    rfl
  rw [get_rewriteOps_update]
  cases hdelete : Fields.get (rewriteUpdateField now model nested).1 "delete" with
  | none =>
    unfold rewriteDelete
    rw [hdelete]
    exact hmap
  | some del =>
    obtain ⟨fields, hfields⟩ := @rewriteUpdate_isObj now model update
    rw [hfields] at hmap ⊢
    rw [elements_rewriteDelete hdelete, elementsIf_of_obj (List.mem_of_getElem? hmap),
      List.getElem?_append_left (List.getElem?_eq_some_iff.mp hmap).1]
    exact hmap

theorem update_of_rewriteOps {nested : Fields} {i : ℕ} {write : Arg}
    (h : (elementsOf (Fields.get (rewriteOps now model nested) "update"))[i]? = some write)
    : (∃ update, (elementsOf (Fields.get nested "update"))[i]? = some update
          ∧ write = (rewriteUpdate now model update).1)
        ∨ ∃ target, write = softDelete now target := by
  have hback {v : Arg}
      (hv : (elementsOf (Fields.get (rewriteUpdateField now model nested).1 "update"))[i]? = some v)
      : ∃ update, (elementsOf (Fields.get nested "update"))[i]? = some update
          ∧ v = (rewriteUpdate now model update).1 := by
    rw [get_rewriteUpdateField, if_pos rfl, elementsOf_rewriteUpdates, List.getElem?_map,
      Option.map_eq_some_iff] at hv
    obtain ⟨update, hupdate, heq⟩ := hv
    exact ⟨update, hupdate, heq.symm⟩
  rw [get_rewriteOps_update] at h
  cases hdelete : Fields.get (rewriteUpdateField now model nested).1 "delete" with
  | none =>
    unfold rewriteDelete at h
    rw [hdelete] at h
    exact .inl (hback h)
  | some del =>
    rw [elements_rewriteDelete hdelete, List.getElem?_append] at h
    split at h
    . exact .inl (hback (elementsIf_mem h))
    . obtain ⟨target, _, heq⟩ := List.mem_map.mp (List.mem_of_getElem? h)
      exact .inr ⟨target, heq.symm⟩

theorem elementsIf_rewriteUpdates (value : Option Arg)
    : elementsIf (value.map fun v => (rewriteUpdates now model v).1)
        = (elementsIf value).map fun u => (rewriteUpdate now model u).1 := by
  have htruthy : truthy (value.map fun v => (rewriteUpdates now model v).1) = truthy value := by
    cases value with
    | none => rfl
    | some value =>
      cases value with
      | obj update =>
        obtain ⟨fields, hfields⟩ := @rewriteUpdate_isObj now model update
        unfold rewriteUpdate at hfields
        dsimp only at hfields
        unfold truthy
        rw [Option.map_some, Option.map_some]
        unfold rewriteUpdates
        rw [hfields]
        rfl
      | _ => rfl
  have helements := @elementsOf_rewriteUpdates now model value
  unfold elementsOf at helements
  unfold elementsIf
  rw [htruthy, helements]
  split <;> rfl

theorem deletes_rewriteOps {nested : Fields} {del : Arg} (h : Fields.get nested "delete" = some del)
    : elementsOf (Fields.get (rewriteOps now model nested) "update")
        =
      (elementsIf (Fields.get nested "update")).map (fun u => (rewriteUpdate now model u).1)
        ++ del.elements.map (softDelete now) := by
  have hdelete : Fields.get (rewriteUpdateField now model nested).1 "delete" = some del := by
    rw [get_rewriteUpdateField, if_neg (by decide)]
    exact h
  rw [get_rewriteOps_update, elements_rewriteDelete hdelete, get_rewriteUpdateField, if_pos rfl,
    elementsIf_rewriteUpdates]

theorem get_before_deleteMany (nested : Fields) {op : String} (hop : op = "updateMany" ∨ op = "deleteMany")
    : Fields.get (rewriteDelete now model (rewriteUpdateField now model nested).1).1 op
        = Fields.get nested op := by
  cases hop with
  | inl hop =>
    rw [hop, get_rewriteDelete _ (by decide), if_neg (by decide), get_rewriteUpdateField,
      if_neg (by decide)]
  | inr hop =>
    rw [hop, get_rewriteDelete _ (by decide), if_neg (by decide), get_rewriteUpdateField,
      if_neg (by decide)]

theorem deleteMany_rewriteOps (nested : Fields)
    : elementsOf (Fields.get (rewriteOps now model nested) "updateMany")
        =
      match Fields.get nested "deleteMany" with
      | none => elementsOf (Fields.get nested "updateMany")
      | some dm =>
        elementsIf (Fields.get nested "updateMany")
          ++ (dm.elements.map condition).map (softDelete now) := by
  unfold rewriteOps
  rw [get_rewriteDeleteMany, get_before_deleteMany nested (.inr rfl),
    get_before_deleteMany nested (.inl rfl)]
  split
  . rfl
  . rw [if_pos rfl]
    rfl

theorem get_indexed (values : List Arg) {op : String} (hop : ∃ c ∈ op.toList, c.isDigit = false)
    : Fields.get (indexed values) op = none := by
  unfold Fields.get indexed
  rw [Option.map_eq_none_iff, List.find?_eq_none]
  intro f hf heq
  obtain ⟨d, _, hd⟩ := List.mem_map.mp hf
  obtain ⟨c, hc, hdigit⟩ := hop
  rw [decide_eq_true_eq] at heq
  rw [← heq, ← hd] at hc
  rw [isDigit_of_mem_toString hc] at hdigit
  contradiction

theorem update_not_digits : ∃ c ∈ "update".toList, c.isDigit = false :=
  ⟨'u', by decide, by decide⟩

theorem delete_not_digits : ∃ c ∈ "delete".toList, c.isDigit = false :=
  ⟨'d', by decide, by decide⟩

theorem deleteMany_not_digits : ∃ c ∈ "deleteMany".toList, c.isDigit = false :=
  ⟨'d', by decide, by decide⟩

theorem rewriteOps_indexed (values : List Arg)
    : rewriteOps now model (indexed values) = indexed values := by
  have hupdate : (rewriteUpdateField now model (indexed values)).1 = indexed values := by
    have hnone := get_indexed values update_not_digits
    generalize indexed values = fields at hnone
    induction fields with
    | nil => rfl
    | cons f fields ih =>
      rw [Fields.get_cons] at hnone
      split at hnone
      . cases hnone
      . next hf =>
        unfold rewriteUpdateField
        simp only [hf, if_false]
        rw [ih hnone]
  have hdelete := get_indexed values delete_not_digits
  have hdeleteMany := get_indexed values deleteMany_not_digits
  unfold rewriteOps
  rw [hupdate]
  unfold rewriteDelete
  rw [hdelete]
  unfold rewriteDeleteMany
  rw [hdeleteMany]

theorem entries_rewriteNested (value : Arg)
    : (rewriteNested now model value).1.entries = value.entries.map (rewriteOps now model) := by
  cases value with
  | obj nested => rw [rewriteNested_obj]; rfl
  | arr values =>
    unfold Arg.entries
    rw [Option.map_some, rewriteOps_indexed]
    rfl
  | _ => rfl

theorem get_rewriteData (update : Fields) (key : String)
    : Fields.get (rewriteData now model update).1 key
        =
      if key = "data" then
        (Fields.get update "data").map fun v => (rewriteNestedWrites now model v).1
      else Fields.get update key := by
  induction update with
  | nil => simp [rewriteData]
  | cons f update ih =>
    unfold rewriteData
    by_cases hf : f.1 = "data"
    . simp only [hf, if_true, Fields.get_cons, Option.map_some]
      by_cases hkey : key = "data"
      . simp [hkey]
      . simp [hkey, Ne.symm hkey]
    . simp only [hf, if_false, Fields.get_cons, ih]
      by_cases hkey : key = "data"
      . simp [hkey, hf]
      . simp [hkey]

theorem touched_rewriteData {update : Fields} {value : Arg}
    (h : Fields.get update "data" = some value)
    : (rewriteData now model update).2 = (rewriteNestedWrites now model value).2 := by
  induction update with
  | nil => simp at h
  | cons f update ih =>
    rw [Fields.get_cons] at h
    unfold rewriteData
    by_cases hf : f.1 = "data"
    . rw [if_pos hf, Option.some.injEq] at h
      simp only [hf, if_true]
      rw [h]
    . rw [if_neg hf] at h
      simp only [hf, if_false]
      exact ih h

theorem touched_rewriteFields {fields : Fields} {key : String} {target : Model} {value : Arg}
    (htarget : model.relationTarget key = some target) (h : Fields.get fields key = some value)
    {t : Touched} (ht : t ∈ (rewriteNested now target value).2)
    : t ∈ (rewriteFields now model fields).2 := by
  induction fields with
  | nil => simp at h
  | cons f fields ih =>
    rw [Fields.get_cons] at h
    unfold rewriteFields
    rw [List.mem_append]
    by_cases hf : f.1 = key
    . rw [if_pos hf, Option.some.injEq] at h
      rw [hf, htarget, h]
      exact .inl ht
    . rw [if_neg hf] at h
      exact .inr (ih h)

theorem touched_rewriteNested (nested : Fields)
    : (∀ del, Fields.get nested "delete" = some del → ∀ d ∈ del.elements,
        Touched.mk model "delete" (some d) ∈ (rewriteNested now model (.obj nested)).2)
      ∧ (∀ dm, Fields.get nested "deleteMany" = some dm → ∀ c ∈ dm.elements,
        Touched.mk model "deleteMany" (some (condition c))
          ∈ (rewriteNested now model (.obj nested)).2)
      ∧ ∀ v, Fields.get nested "update" = some v → ∀ t ∈ (rewriteUpdates now model v).2,
          t ∈ (rewriteNested now model (.obj nested)).2 := by
  unfold rewriteNested
  dsimp only
  refine ⟨?_, ?_, ?_⟩
  . intro del hdel d hd
    have hdelete : Fields.get (rewriteUpdateField now model nested).1 "delete" = some del := by
      rw [get_rewriteUpdateField, if_neg (by decide)]
      exact hdel
    simp only [List.mem_append]
    refine .inl (.inl (.inl ?_))
    unfold rewriteDelete
    rw [hdelete]
    exact List.mem_map_of_mem hd
  . intro dm hdm c hc
    have hdeleteMany := @get_before_deleteMany now model nested "deleteMany" (.inr rfl)
    rw [hdm] at hdeleteMany
    simp only [List.mem_append]
    refine .inl (.inl (.inr ?_))
    unfold rewriteDeleteMany
    rw [hdeleteMany]
    exact List.mem_map_of_mem (List.mem_map_of_mem hc)
  . intro v hv t ht
    simp only [List.mem_append]
    refine .inl (.inr ?_)
    rw [touched_rewriteUpdateField hv]
    exact ht

end Walk

end SentryPos.NestedWrite
