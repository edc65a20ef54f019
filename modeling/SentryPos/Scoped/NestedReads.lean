import SentryPos.Scoped.Args
import SentryPos.Scoped.Models

/-!
This module contains how the scoped client keeps soft-deleted rows out of the relations that a query
loads: every load of a list gets a `where` on `deletedAt`, at any depth.
-/

namespace SentryPos

open Arg (Fields)

/-- The relation of a model under a field: `RELATION_TARGET` and `RELATION_IS_LIST`. -/
def Model.relation (model : Model) (field : String) : Option RelationField :=
  model.relations.find? fun r => r.field = field

def indexed (values : List Arg) : Fields :=
  values.zipIdx.map fun (v, i) => (toString i, v)

/-- The entries of a value that is an object for `typeof`. -/
def Arg.entries : Arg → Option Fields
  | .obj fields => some fields
  | .arr values => some (indexed values)
  | .date _ => some []
  | _ => none

/-- `where ? { ...where } : {}` -/
def spread (where_ : Option Arg) : Fields :=
  if truthy where_ then (where_.bind Arg.entries).getD [] else []

def mergeDeletedNull (where_ : Option Arg) : Fields :=
  let w := spread where_
  if Fields.has w "deletedAt" then w else w ++ [("deletedAt", .null)]

def filtered (isList : Bool) (nested : Fields) : Fields :=
  if isList then
    Fields.set nested "where" (.obj (mergeDeletedNull (Fields.get nested "where")))
  else nested

def isClause (key : String) : Bool :=
  key = "include" || key = "select"

/-!
The filter is set after the walk into the options of a load here: the walk leaves their `where` as it
is (`injectNestedSoftDelete_filtered`). No relation is named by the index of an array, so the walk ends
at an array.
-/

mutual

/-- The arguments of a query on a model. -/
def injectNestedSoftDelete (model : Model) : List (String × Arg) → List (String × Arg)
  | [] => []
  | (key, value) :: args =>
    (key, if isClause key then walkClause model value else value)
      :: injectNestedSoftDelete model args
termination_by structural args => args

def walkClause (model : Model) : Arg → Arg
  | .obj clause => .obj (walkFields model clause)
  | .arr values => .obj (indexed values)
  | .date _ => .obj []
  | value => value
termination_by structural value => value

def walkFields (model : Model) : List (String × Arg) → List (String × Arg)
  | [] => []
  | (key, value) :: clause =>
    let value' :=
      match model.relation key with
      | none => value
      | some rel => walkLoad rel value
    (key, value') :: walkFields model clause
termination_by structural clause => clause

def walkLoad (rel : RelationField) : Arg → Arg
  | .obj nested => .obj (filtered rel.isList (injectNestedSoftDelete rel.target nested))
  | .arr values => .obj (filtered rel.isList (indexed values))
  | .date _ => .obj (filtered rel.isList [])
  | .bool true =>
    if rel.isList then .obj [("where", .obj [("deletedAt", .null)])] else .bool true
  | value => value
termination_by structural value => value

end

/-! Both walks keep the keys of an object and change its values one by one. -/

theorem injectNestedSoftDelete_eq_map (model : Model) (args : Fields)
    : injectNestedSoftDelete model args
        = args.map fun f => (f.1, if isClause f.1 then walkClause model f.2 else f.2) := by
  induction args with
  | nil => rfl
  | cons f args ih =>
    rw [List.map_cons, ← ih]
    rfl

theorem walkFields_eq_map (model : Model) (clause : Fields)
    : walkFields model clause
        = clause.map fun f =>
            (f.1, match model.relation f.1 with
              | none => f.2
              | some rel => walkLoad rel f.2) := by
  induction clause with
  | nil => rfl
  | cons f clause ih =>
    rw [List.map_cons, ← ih]
    rfl

theorem get_injectNestedSoftDelete (model : Model) (args : Fields) (key : String)
    : Fields.get (injectNestedSoftDelete model args) key
        = (Fields.get args key).map fun v => if isClause key then walkClause model v else v := by
  rw [injectNestedSoftDelete_eq_map]
  exact Fields.get_map (fun k v => if isClause k then walkClause model v else v) args key

theorem get_where_injectNestedSoftDelete (model : Model) (args : Fields)
    : Fields.get (injectNestedSoftDelete model args) "where" = Fields.get args "where" := by
  rw [get_injectNestedSoftDelete]
  simp [isClause]

theorem injectNestedSoftDelete_filtered (model : Model) (isList : Bool) (args : Fields)
    : injectNestedSoftDelete model (filtered isList args)
        = filtered isList (injectNestedSoftDelete model args) := by
  unfold filtered
  split
  next =>
    rw [get_where_injectNestedSoftDelete]
    unfold Fields.set
    have hhas : Fields.has (injectNestedSoftDelete model args) "where" = Fields.has args "where" := by
      rw [Fields.has_eq_isSome, Fields.has_eq_isSome, get_where_injectNestedSoftDelete]
    rw [hhas]
    simp only [injectNestedSoftDelete_eq_map]
    split
    next =>
      rw [List.map_map, List.map_map]
      apply List.map_congr_left
      intro f _
      by_cases hf : f.1 = "where" <;> simp [hf, isClause]
    next => simp [isClause]
  next => rfl

theorem get_mergeDeletedNull (where_ : Option Arg) (key : String)
    : Fields.get (mergeDeletedNull where_) key
        = if key = "deletedAt" then some ((Fields.get (spread where_) key).getD .null)
          else Fields.get (spread where_) key := by
  unfold mergeDeletedNull
  simp only [Fields.has_eq_isSome]
  split
  next h =>
    split
    next hkey =>
      subst hkey
      obtain ⟨v, hv⟩ := Option.isSome_iff_exists.mp h
      simp [hv]
    next => rfl
  next h =>
    have hnone : Fields.get (spread where_) "deletedAt" = none := by simpa using h
    rw [Fields.get_append, Fields.get_cons, Fields.get_nil]
    by_cases hkey : key = "deletedAt"
    . simp [hkey, hnone]
    . simp [hkey, Ne.symm hkey]

theorem mergeDeletedNull_mergeDeletedNull (where_ : Option Arg)
    : mergeDeletedNull (some (.obj (mergeDeletedNull where_))) = mergeDeletedNull where_ := by
  have hhas : Fields.has (mergeDeletedNull where_) "deletedAt" := by
    rw [Fields.has_eq_isSome, get_mergeDeletedNull]
    simp
  have hspread : spread (some (.obj (mergeDeletedNull where_))) = mergeDeletedNull where_ := rfl
  rw [mergeDeletedNull.eq_def (some _), hspread]
  simp only [hhas, if_true]

theorem filtered_filtered (isList : Bool) (nested : Fields)
    : filtered isList (filtered isList nested) = filtered isList nested := by
  cases isList with
  | false => rfl
  | true =>
    simp only [filtered, if_true, Fields.get_set, mergeDeletedNull_mergeDeletedNull,
      Fields.set_set]

/-! No field of a model has the index of an array as its name. -/

theorem relation_field {model : Model} {field : String} {rel : RelationField}
    (h : model.relation field = some rel) : rel ∈ model.relations ∧ rel.field = field := by
  unfold Model.relation at h
  have hmem := List.mem_of_find?_eq_some h
  have hfield := List.find?_some h
  exact ⟨hmem, by simpa using hfield⟩

theorem exists_not_isDigit {model : Model} {rel : RelationField} (h : rel ∈ model.relations)
    : ∃ c ∈ rel.field.toList, c.isDigit = false := by
  have hall : (model.relations.all fun rel => rel.field.toList.any fun c => !c.isDigit) = true := by
    cases model <;> decide
  simpa using List.all_eq_true.mp hall rel h

theorem isDigit_of_mem_toString {i : Nat} {c : Char} (h : c ∈ (toString i).toList)
    : c.isDigit := by
  apply Nat.isDigit_of_mem_toDigits (b := 10) (n := i) (by omega) (by omega)
  simpa using h

theorem relation_toString (model : Model) (i : Nat) : model.relation (toString i) = none := by
  cases h : model.relation (toString i) with
  | none => rfl
  | some rel =>
    obtain ⟨hmem, hfield⟩ := relation_field h
    obtain ⟨c, hc, hdigit⟩ := exists_not_isDigit hmem
    rw [hfield] at hc
    rw [isDigit_of_mem_toString hc] at hdigit
    contradiction

theorem isClause_toString (i : Nat) : isClause (toString i) = false := by
  have hne : ∀ key : String, (∃ c ∈ key.toList, c.isDigit = false) → toString i ≠ key := by
    intro key ⟨c, hc, hdigit⟩ heq
    rw [← heq] at hc
    rw [isDigit_of_mem_toString hc] at hdigit
    contradiction
  have hinclude := hne "include" ⟨'i', by decide, by decide⟩
  have hselect := hne "select" ⟨'s', by decide, by decide⟩
  simp only [isClause, hinclude, hselect, decide_false, Bool.or_false]

theorem walkFields_indexed (model : Model) (values : List Arg)
    : walkFields model (indexed values) = indexed values := by
  rw [walkFields_eq_map, indexed, List.map_map]
  apply List.map_congr_left
  intro f _
  simp only [Function.comp_apply, relation_toString]

theorem injectNestedSoftDelete_indexed (model : Model) (values : List Arg)
    : injectNestedSoftDelete model (indexed values) = indexed values := by
  rw [injectNestedSoftDelete_eq_map, indexed, List.map_map]
  apply List.map_congr_left
  intro f _
  simp only [Function.comp_apply, isClause_toString, Bool.false_eq_true, if_false]

/-- The options under which a value loads a relation: `true` loads it without any. -/
def Arg.loadOptions : Arg → Option Fields
  | .bool true => some []
  | value => value.entries

theorem filtered_nil : filtered true [] = [("where", .obj [("deletedAt", .null)])] := rfl

theorem walkLoad_of_entries (rel : RelationField) {value : Arg} {nested : Fields}
    (h : value.entries = some nested)
    : walkLoad rel value = .obj (filtered rel.isList (injectNestedSoftDelete rel.target nested)) := by
  cases value with
  | obj fields =>
    cases h
    rfl
  | arr values =>
    cases h
    rw [injectNestedSoftDelete_indexed]
    rfl
  | date t =>
    cases h
    rfl
  | _ => contradiction

theorem walkLoad_true (rel : RelationField)
    : walkLoad rel (.bool true) = if rel.isList then .obj (filtered true []) else .bool true := by
  rw [filtered_nil]
  rfl

theorem walkLoad_of_loadOptions_none (rel : RelationField) {value : Arg}
    (h : value.loadOptions = none) : walkLoad rel value = value := by
  cases value with
  | bool b =>
    cases b with
    | false => rfl
    | true => contradiction
  | obj | arr | date => contradiction
  | _ => rfl

theorem loadOptions_walkLoad (rel : RelationField) (value : Arg)
    : (walkLoad rel value).loadOptions
        = value.loadOptions.map fun nested =>
            filtered rel.isList (injectNestedSoftDelete rel.target nested) := by
  cases h : value.loadOptions with
  | none => rw [walkLoad_of_loadOptions_none rel h, h, Option.map_none]
  | some nested =>
    by_cases htrue : value = .bool true
    . subst htrue
      cases h
      rw [walkLoad_true]
      cases hlist : rel.isList <;> rfl
    . have hentries : value.entries = some nested := by
        unfold Arg.loadOptions at h
        split at h
        next => contradiction
        next => exact h
      rw [walkLoad_of_entries rel hentries]
      rfl

theorem walkClause_of_entries_none (model : Model) {value : Arg} (h : value.entries = none)
    : walkClause model value = value := by
  cases value with
  | obj | arr | date => contradiction
  | _ => rfl

theorem walkClause_of_entries (model : Model) {value : Arg} {clause : Fields}
    (h : value.entries = some clause)
    : walkClause model value = .obj (walkFields model clause) := by
  cases value with
  | obj fields =>
    cases h
    rfl
  | arr values =>
    cases h
    rw [walkFields_indexed]
    rfl
  | date t =>
    cases h
    rfl
  | _ => contradiction

mutual

theorem injectNestedSoftDelete_idempotent (model : Model) (args : List (String × Arg))
    : injectNestedSoftDelete model (injectNestedSoftDelete model args)
        = injectNestedSoftDelete model args := by
  match args with
  | [] => rfl
  | (key, value) :: args =>
    simp only [injectNestedSoftDelete]
    rw [injectNestedSoftDelete_idempotent model args]
    split
    . rw [walkClause_idempotent model value]
    . rfl

theorem walkClause_idempotent (model : Model) (value : Arg)
    : walkClause model (walkClause model value) = walkClause model value := by
  match value with
  | .obj clause =>
    simp only [walkClause]
    rw [walkFields_idempotent model clause]
  | .arr values =>
    simp only [walkClause]
    rw [walkFields_indexed]
  | .date _ => rfl
  | .null | .bool _ | .num _ | .str _ | .uuid _ => rfl

theorem walkFields_idempotent (model : Model) (clause : List (String × Arg))
    : walkFields model (walkFields model clause) = walkFields model clause := by
  match clause with
  | [] => rfl
  | (key, value) :: clause =>
    simp only [walkFields]
    rw [walkFields_idempotent model clause]
    split
    . rfl
    next rel _ => rw [walkLoad_idempotent rel value]

theorem walkLoad_idempotent (rel : RelationField) (value : Arg)
    : walkLoad rel (walkLoad rel value) = walkLoad rel value := by
  match value with
  | .obj nested =>
    simp only [walkLoad]
    rw [injectNestedSoftDelete_filtered, injectNestedSoftDelete_idempotent rel.target nested,
      filtered_filtered]
  | .arr values =>
    simp only [walkLoad]
    rw [injectNestedSoftDelete_filtered, injectNestedSoftDelete_indexed, filtered_filtered]
  | .date _ =>
    simp only [walkLoad]
    rw [injectNestedSoftDelete_filtered]
    exact congrArg Arg.obj (filtered_filtered rel.isList [])
  | .bool true =>
    rw [walkLoad_true]
    split
    next hlist =>
      rw [walkLoad, hlist, injectNestedSoftDelete_filtered]
      exact congrArg Arg.obj (filtered_filtered true [])
    next hlist => rw [walkLoad_true, if_neg hlist]
  | .bool false | .null | .num _ | .str _ | .uuid _ => rfl

end

/--
What a query on a model reads, at any depth: the rows of the query itself, and those of each relation
that the clauses of a read load. The path holds the clause and the field of every load above.
-/
inductive Reads (model : Model) (args : Fields)
    : List (String × String) → Model → Bool → Fields → Prop where
  | query : Reads model args [] model false args
  | load {path m isList options clause v fields key value rel nested}
    : Reads model args path m isList options → (clause, v) ∈ options → isClause clause →
      v.entries = some fields → (key, value) ∈ fields → m.relation key = some rel →
      value.loadOptions = some nested →
      Reads model args (path ++ [(clause, key)]) rel.target rel.isList nested

/-- A field of a clause is as it was, but for what a load of it asks for. -/
structure FieldKept (model : Model) (before after : String × Arg) : Prop where
  key : after.1 = before.1
  plain : model.relation before.1 = none ∨ before.2.loadOptions = none → after.2 = before.2
  toOne : ∀ rel, model.relation before.1 = some rel → rel.isList = false →
    before.2 = .bool true → after.2 = .bool true

structure ClauseKept (model : Model) (before after : Arg) : Prop where
  plain : before.entries = none → after = before
  fields : ∀ fields, before.entries = some fields →
    ∃ fields', after = .obj fields' ∧ List.Forall₂ (FieldKept model) fields fields'

/-- The options of a read are as they were, but for the filter of a list. -/
structure Guarded (model : Model) (isList : Bool) (before after : Fields) : Prop where
  list : isList → ∃ w, Fields.get after "where" = some (.obj w) ∧
    Fields.get w "deletedAt"
      = some ((Fields.get (spread (Fields.get before "where")) "deletedAt").getD .null) ∧
    ∀ key ≠ "deletedAt", Fields.get w key = Fields.get (spread (Fields.get before "where")) key
  toOne : isList = false → Fields.get after "where" = Fields.get before "where"
  option : ∀ key, isClause key = false → key ≠ "where" →
    Fields.get after key = Fields.get before key
  clause : ∀ key, isClause key → Option.Rel (ClauseKept model) (Fields.get before key)
    (Fields.get after key)

theorem fieldKept_walkFields (model : Model) (clause : Fields)
    : List.Forall₂ (FieldKept model) clause (walkFields model clause) := by
  induction clause with
  | nil => exact .nil
  | cons f clause ih =>
    refine .cons ⟨rfl, ?_, ?_⟩ ih
    . intro h
      cases hrel : model.relation f.1 with
      | none => rfl
      | some rel =>
        rw [hrel] at h
        have hnone : f.2.loadOptions = none := by simpa using h
        exact walkLoad_of_loadOptions_none rel hnone
    . intro rel hrel hone htrue
      simp only [hrel, htrue]
      rw [walkLoad_true, if_neg (by simp [hone])]

theorem clauseKept_walkClause (model : Model) (value : Arg)
    : ClauseKept model value (walkClause model value) where
  plain h := walkClause_of_entries_none model h
  fields clause h :=
    ⟨walkFields model clause, walkClause_of_entries model h, fieldKept_walkFields model clause⟩

theorem get_filtered_of_ne {key : String} (isList : Bool) (nested : Fields) (h : key ≠ "where")
    : Fields.get (filtered isList nested) key = Fields.get nested key := by
  unfold filtered
  split
  . rw [Fields.get_set, if_neg h.symm]
  . rfl

theorem guarded_filtered (model : Model) (isList : Bool) (options : Fields)
    : Guarded model isList options (filtered isList (injectNestedSoftDelete model options)) where
  list h := by
    refine ⟨mergeDeletedNull (Fields.get options "where"), ?_, ?_, ?_⟩
    . rw [filtered, if_pos h, Fields.get_set, if_pos rfl, get_where_injectNestedSoftDelete]
    . rw [get_mergeDeletedNull, if_pos rfl]
    . intro key hkey
      rw [get_mergeDeletedNull, if_neg hkey]
  toOne h := by
    rw [filtered, if_neg (by simp [h]), get_where_injectNestedSoftDelete]
  option key hclause hkey := by
    rw [get_filtered_of_ne isList _ hkey, get_injectNestedSoftDelete]
    simp [hclause]
  clause key hclause := by
    have hkey : key ≠ "where" := by
      intro h
      subst h
      contradiction
    rw [get_filtered_of_ne isList _ hkey, get_injectNestedSoftDelete]
    simp only [hclause, if_true]
    cases Fields.get options key with
    | none => exact .none
    | some v => exact .some (clauseKept_walkClause model v)

section Walk

variable {model : Model}

theorem mem_injectNestedSoftDelete {args : Fields} {clause : String} {v : Arg}
    (h : (clause, v) ∈ args) (hclause : isClause clause)
    : (clause, walkClause model v) ∈ injectNestedSoftDelete model args := by
  rw [injectNestedSoftDelete_eq_map]
  apply List.mem_map.mpr
  exact ⟨(clause, v), h, by simp [hclause]⟩

theorem exists_of_mem_injectNestedSoftDelete {args : Fields} {clause : String} {v' : Arg}
    (h : (clause, v') ∈ injectNestedSoftDelete model args) (hclause : isClause clause)
    : ∃ v, (clause, v) ∈ args ∧ v' = walkClause model v := by
  rw [injectNestedSoftDelete_eq_map] at h
  obtain ⟨f, hf, heq⟩ := List.mem_map.mp h
  cases heq
  exact ⟨f.2, hf, by simp [hclause]⟩

theorem mem_filtered {options : Fields} {clause : String} {v : Arg} (isList : Bool)
    (hclause : isClause clause)
    : (clause, v) ∈ filtered isList options ↔ (clause, v) ∈ options := by
  have hkey : clause ≠ "where" := by
    intro h
    subst h
    contradiction
  unfold filtered Fields.set
  split
  . split
    . constructor
      . intro h
        obtain ⟨f, hf, heq⟩ := List.mem_map.mp h
        split at heq
        . cases heq
          contradiction
        . rwa [← heq]
      . intro h
        exact List.mem_map.mpr ⟨(clause, v), h, by simp [hkey]⟩
    . simp [hkey]
  . rfl

theorem mem_walkFields {clause : Fields} {key : String} {value : Arg} {rel : RelationField}
    (h : (key, value) ∈ clause) (hrel : model.relation key = some rel)
    : (key, walkLoad rel value) ∈ walkFields model clause := by
  rw [walkFields_eq_map]
  apply List.mem_map.mpr
  exact ⟨(key, value), h, by simp only [hrel]⟩

theorem exists_of_mem_walkFields {clause : Fields} {key : String} {value' : Arg}
    {rel : RelationField} (h : (key, value') ∈ walkFields model clause)
    (hrel : model.relation key = some rel)
    : ∃ value, (key, value) ∈ clause ∧ value' = walkLoad rel value := by
  rw [walkFields_eq_map] at h
  obtain ⟨f, hf, heq⟩ := List.mem_map.mp h
  cases heq
  exact ⟨f.2, hf, by simp only [hrel]⟩

theorem entries_walkClause (value : Arg)
    : (walkClause model value).entries = value.entries.map (walkFields model) := by
  cases h : value.entries with
  | none => rw [walkClause_of_entries_none model h, h, Option.map_none]
  | some clause =>
    rw [walkClause_of_entries model h]
    rfl

theorem Reads.inject {args options : Fields} {path : List (String × String)} {m : Model}
    {isList : Bool} (h : Reads model args path m isList options)
    : Reads model (injectNestedSoftDelete model args) path m isList
        (filtered isList (injectNestedSoftDelete m options)) := by
  -- A load inside a load is filtered when the outer one is walked.
  induction h with
  | query => exact .query
  | @load path m isList options clause v fields key value rel nested _ hv hclause hentries hvalue
      hrel hnested ih =>
    have hv' := (mem_filtered isList hclause).mpr (@mem_injectNestedSoftDelete m _ _ _ hv hclause)
    have hentries' : (walkClause m v).entries = some (walkFields m fields) := by
      rw [entries_walkClause, hentries, Option.map_some]
    have hnested' : (walkLoad rel value).loadOptions
        = some (filtered rel.isList (injectNestedSoftDelete rel.target nested)) := by
      rw [loadOptions_walkLoad, hnested, Option.map_some]
    exact .load ih hv' hclause hentries' (mem_walkFields hvalue hrel) hrel hnested'

theorem Reads.of_inject {args options' : Fields} {path : List (String × String)} {m : Model}
    {isList : Bool} (h : Reads model (injectNestedSoftDelete model args) path m isList options')
    : ∃ options, Reads model args path m isList options ∧
        options' = filtered isList (injectNestedSoftDelete m options) := by
  induction h with
  | query => exact ⟨args, .query, rfl⟩
  | load _ hv' hclause hentries' hvalue' hrel hnested' ih =>
    obtain ⟨options, hreads, rfl⟩ := ih
    rw [mem_filtered _ hclause] at hv'
    obtain ⟨v, hv, rfl⟩ := exists_of_mem_injectNestedSoftDelete hv' hclause
    rw [entries_walkClause] at hentries'
    obtain ⟨fields, hentries, rfl⟩ := Option.map_eq_some_iff.mp hentries'
    obtain ⟨value, hvalue, rfl⟩ := exists_of_mem_walkFields hvalue' hrel
    rw [loadOptions_walkLoad] at hnested'
    obtain ⟨nested, hnested, rfl⟩ := Option.map_eq_some_iff.mp hnested'
    exact ⟨nested, .load hreads hv hclause hentries hvalue hrel hnested, rfl⟩

end Walk

/--
Every list that a query loads, at any depth, is filtered on `deletedAt`, no load of a single row gets a
`where`, everything else is as the caller has it, and a second pass changes nothing.
-/
theorem injectNestedSoftDelete_guards (model : Model) (args : Fields)
    : (∀ path m isList before, Reads model args path m isList before →
        ∃ after, Reads model (injectNestedSoftDelete model args) path m isList after ∧
          Guarded m isList before after) ∧
      (∀ path m isList after, Reads model (injectNestedSoftDelete model args) path m isList after →
        ∃ before, Reads model args path m isList before ∧ Guarded m isList before after) ∧
      injectNestedSoftDelete model (injectNestedSoftDelete model args)
        = injectNestedSoftDelete model args := by
  refine ⟨?_, ?_, injectNestedSoftDelete_idempotent model args⟩
  . intro path m isList before h
    exact ⟨_, h.inject, guarded_filtered m isList before⟩
  . intro path m isList after h
    obtain ⟨before, hbefore, rfl⟩ := h.of_inject
    exact ⟨before, hbefore, guarded_filtered m isList before⟩

/-- A to-one relation takes no filter, and the list under it does. -/
example
    : injectNestedSoftDelete .sale
          [("include", .obj [
            ("items", .bool true),
            ("branch", .obj [("include", .obj [("shifts", .bool true)])])])]
        = [("include", .obj [
            ("items", .obj [("where", .obj [("deletedAt", .null)])]),
            ("branch", .obj [("include", .obj [
              ("shifts", .obj [("where", .obj [("deletedAt", .null)])])])])])] := rfl

end SentryPos
