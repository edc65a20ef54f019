import Mathlib.Data.List.Basic
import Mathlib.Data.List.Nodup
import Mathlib.Algebra.BigOperators.Group.List.Basic
import Mathlib.Tactic.Ring

/-!
This module contains tables as lists of rows with a key: lookup, modification of the row with a
given key and insertion at the end.
-/

namespace Table

variable {α β κ : Type} [DecidableEq κ]

/-- The first row with key `k`. -/
def get (key : α → κ) (t : List α) (k : κ) : Option α :=
  t.find? fun r => key r = k

/-- Change the rows with key `k`. -/
def modify (key : α → κ) (t : List α) (k : κ) (f : α → α) : List α :=
  t.map fun r => if key r = k then f r else r

variable {key : α → κ} {t : List α} {k k' : κ} {f : α → α} {r : α}

theorem key_of_get (h : get key t k = some r) : key r = k := by
  have := List.find?_some h
  simpa using this

theorem mem_of_get (h : get key t k = some r) : r ∈ t :=
  List.mem_of_find?_eq_some h

theorem get_eq_none : get key t k = none ↔ ∀ r ∈ t, key r ≠ k := by
  simp [get]

theorem get_of_mem (hnodup : (t.map key).Nodup) (h : r ∈ t) : get key t (key r) = some r := by
  induction t with
  | nil => simp at h
  | cons a t ih =>
    simp only [List.map_cons, List.nodup_cons] at hnodup
    unfold get
    rw [List.find?_cons]
    split
    . next heq =>
      cases List.mem_cons.mp h with
      | inl hr => rw [hr]
      | inr hr =>
        simp only [decide_eq_true_eq] at heq
        exfalso
        apply hnodup.1
        rw [heq]
        exact List.mem_map_of_mem hr
    . next hne =>
      cases List.mem_cons.mp h with
      | inl hr => simp [hr] at hne
      | inr hr => exact ih hnodup.2 hr

theorem length_filter_le (hnodup : (t.map key).Nodup) (k : κ)
    : (t.filter fun r => key r = k).length ≤ 1 := by
  have hcount := List.nodup_iff_count_le_one.mp hnodup k
  rw [List.count, List.countP_map, List.countP_eq_length_filter] at hcount
  simpa [Function.comp_def, beq_eq_decide] using hcount

theorem filter_key (hnodup : (t.map key).Nodup) (k : κ)
    : (t.filter fun r => key r = k) = (get key t k).toList := by
  have hlength := length_filter_le hnodup k
  cases hget : get key t k with
  | none =>
    rw [get_eq_none] at hget
    rw [Option.toList_none, List.filter_eq_nil_iff]
    intro r hr
    simpa using hget r hr
  | some r =>
    have hmem : r ∈ t.filter fun r => key r = k := by
      rw [List.mem_filter]
      exact ⟨mem_of_get hget, by simpa using key_of_get hget⟩
    cases hrows : t.filter fun r => key r = k with
    | nil =>
      rw [hrows] at hmem
      cases hmem
    | cons a rest =>
      rw [hrows] at hmem hlength
      have hrest : rest = [] := by
        rw [← List.length_eq_zero_iff]
        simpa using hlength
      rw [hrest, List.mem_singleton] at hmem
      rw [hrest, hmem, Option.toList_some]


theorem get_append (t t' : List α) : get key (t ++ t') k = (get key t k).or (get key t' k) := by
  simp [get]

theorem get_append_of_some {t' : List α} (h : get key t k = some r)
    : get key (t ++ t') k = some r := by
  simp [get_append, h]

theorem get_singleton_ne (h : key r ≠ k) : get key [r] k = none := by
  simp [get, h]

@[simp]
theorem get_singleton_self (r : α) : get key [r] (key r) = some r := by
  simp [get]

theorem map_modify_of {β : Type} {g : α → β} (hg : ∀ r ∈ t, key r = k → g (f r) = g r)
    : (modify key t k f).map g = t.map g := by
  simp only [modify, List.map_map]
  apply List.map_congr_left
  intro r hr
  simp only [Function.comp_apply]
  split
  . next hk => rw [hg r hr hk]
  . rfl

theorem map_modify {β : Type} {g : α → β} (hg : ∀ r, g (f r) = g r)
    : (modify key t k f).map g = t.map g := by
  apply map_modify_of
  intro r _ _
  exact hg r

theorem filter_modify_of {p : α → Bool}
    (hp : ∀ r ∈ t, key r = k → p r = false ∧ p (f r) = false)
    : (modify key t k f).filter p = t.filter p := by
  induction t with
  | nil => rfl
  | cons a t ih =>
    have htail := ih fun r hr => hp r (List.mem_cons_of_mem a hr)
    unfold modify at htail ⊢
    rw [List.map_cons, List.filter_cons, List.filter_cons, htail]
    split
    . next hk =>
      obtain ⟨hbefore, hafter⟩ := hp a List.mem_cons_self hk
      simp [hbefore, hafter]
    . rfl

theorem filter_modify {p : α → Bool} (hp : ∀ r, p (f r) = p r)
    : (modify key t k f).filter p = modify key (t.filter p) k f := by
  simp only [modify, List.filter_map]
  congr 1
  apply List.filter_congr
  intro r _
  simp only [Function.comp_apply]
  split
  . rw [hp]
  . rfl

theorem filter_modify_of_not {p : α → Bool} (hp : ∀ r, p (f r) = false)
    : (modify key t k f).filter p = (t.filter p).filter fun r => key r ≠ k := by
  unfold modify
  induction t with
  | nil => rfl
  | cons r t ih =>
    rw [List.map_cons]
    by_cases hkey : key r = k
    . rw [if_pos hkey, List.filter_cons_of_neg (by simp [hp]), ih]
      by_cases hr : p r = true
      . rw [List.filter_cons_of_pos hr, List.filter_cons_of_neg (by simp [hkey])]
      . rw [List.filter_cons_of_neg hr]
    . rw [if_neg hkey]
      by_cases hr : p r = true
      . rw [List.filter_cons_of_pos hr, List.filter_cons_of_pos hr,
          List.filter_cons_of_pos (by simp [hkey]), ih]
      . rw [List.filter_cons_of_neg hr, List.filter_cons_of_neg hr, ih]

theorem find?_modify {p : α → Bool} (hp : ∀ r, p (f r) = p r)
    : (modify key t k f).find? p = (t.find? p).map fun r => if key r = k then f r else r := by
  induction t with
  | nil => rfl
  | cons a t ih =>
    simp only [modify, List.map_cons, List.find?_cons] at ih ⊢
    have hpa : p (if key a = k then f a else a) = p a := by
      split
      . rw [hp]
      . rfl
    rw [hpa]
    split
    . rfl
    . exact ih

theorem get_modify_self (hf : ∀ r, key (f r) = key r)
    : get key (modify key t k f) k = (get key t k).map f := by
  unfold get
  rw [find?_modify]
  . cases h : t.find? fun r => key r = k with
    | none => rfl
    | some r =>
      have : key r = k := key_of_get h
      simp [this]
  . intro r
    rw [hf]

theorem get_modify_ne (hf : ∀ r, key (f r) = key r) (h : k' ≠ k)
    : get key (modify key t k f) k' = get key t k' := by
  unfold get
  rw [find?_modify]
  . cases hget : t.find? fun r => key r = k' with
    | none => rfl
    | some r =>
      have : key r = k' := key_of_get hget
      simp [this, h]
  . intro r
    rw [hf]

theorem mem_modify (h : r ∈ modify key t k f)
    : (key r ≠ k ∧ r ∈ t) ∨ ∃ r' ∈ t, key r' = k ∧ r = f r' := by
  simp only [modify, List.mem_map] at h
  obtain ⟨r', hmem, heq⟩ := h
  split at heq
  . next hk => exact .inr ⟨r', hmem, hk, heq.symm⟩
  . next hk =>
    rw [heq] at hk hmem
    exact .inl ⟨hk, hmem⟩

theorem modify_of_notMem (h : k ∉ t.map key) : modify key t k f = t := by
  have hrow : ∀ r ∈ t, (if key r = k then f r else r) = r := by
    intro r hr
    rw [if_neg]
    intro heq
    apply h
    rw [← heq]
    exact List.mem_map_of_mem hr
  unfold modify
  rw [List.map_congr_left hrow, List.map_id']

theorem foldl_modify {change : β → κ} {f : β → α → α} (hf : ∀ c r, key (f c r) = key r)
    {cs : List β} (hnodup : (cs.map change).Nodup)
    : cs.foldl (fun t c => modify key t (change c) (f c)) t =
        t.map fun r => ((get change cs (key r)).map (f · r)).getD r := by
  induction cs generalizing t with
  | nil => simp [get]
  | cons c cs ih =>
    rw [List.map_cons, List.nodup_cons] at hnodup
    rw [List.foldl_cons, ih hnodup.2]
    unfold modify
    rw [List.map_map]
    apply List.map_congr_left
    intro r hr
    unfold get
    rw [Function.comp_apply, List.find?_cons]
    split
    . next hk =>
      have hnone : get change cs (change c) = none := by
        rw [get_eq_none]
        intro c' hc' heq
        apply hnodup.1
        rw [← heq]
        exact List.mem_map_of_mem hc'
      unfold get at hnone
      rw [hf, hk, hnone]
      simp
    . next hk =>
      have hne : ¬change c = key r := by
        intro h
        exact hk h.symm
      simp [hne]

/-- A modified row has an entry of its own when no other row has its new one. -/
theorem nodup_filterMap_modify {entry : α → Option β} (hkeys : (t.map key).Nodup)
    (h : (t.filterMap entry).Nodup) (hr : r ∈ t) (hk : key r = k)
    : ((modify key t k f).filterMap entry).Nodup
        ↔ ∀ e, entry (f r) = some e → ∀ r' ∈ t, key r' ≠ k → entry r' ≠ some e := by
  obtain ⟨before, after, heq⟩ := List.append_of_mem hr
  rw [heq] at hkeys h
  rw [List.map_append, List.map_cons, List.nodup_middle, List.nodup_cons, hk] at hkeys
  have hbefore : modify key before k f = before := by
    apply modify_of_notMem
    intro hin
    exact hkeys.1 (List.mem_append_left _ hin)
  have hafter : modify key after k f = after := by
    apply modify_of_notMem
    intro hin
    exact hkeys.1 (List.mem_append_right _ hin)
  have hmodify : modify key t k f = before ++ f r :: after := by
    rw [heq]
    unfold modify at hbefore hafter ⊢
    rw [List.map_append, List.map_cons, hbefore, hafter, if_pos hk]
  have hrest : ((before ++ after).filterMap entry).Nodup := by
    have hsub : (before ++ after).Sublist (before ++ r :: after) :=
      (List.sublist_cons_self _ _).append_left _
    exact h.sublist (hsub.filterMap entry)
  have hothers : ∀ r', r' ∈ t ∧ key r' ≠ k ↔ r' ∈ before ++ after := by
    intro r'
    rw [heq, List.mem_append, List.mem_append, List.mem_cons]
    constructor
    . rintro ⟨hr', hne⟩
      rcases hr' with hr' | hr' | hr'
      . exact .inl hr'
      . rw [hr'] at hne
        exact absurd hk hne
      . exact .inr hr'
    . intro hr'
      have hne : key r' ≠ k := by
        intro hkey
        apply hkeys.1
        rw [← hkey, ← List.map_append]
        exact List.mem_map_of_mem (List.mem_append.mpr hr')
      cases hr' with
      | inl hr' => exact ⟨.inl hr', hne⟩
      | inr hr' => exact ⟨.inr (.inr hr'), hne⟩
  rw [hmodify, List.filterMap_append]
  cases hentry : entry (f r) with
  | none =>
    rw [List.filterMap_cons_none hentry, ← List.filterMap_append]
    constructor
    . intro _ e he
      cases he
    . intro _
      exact hrest
  | some e =>
    rw [List.filterMap_cons_some hentry, List.nodup_middle, List.nodup_cons,
      ← List.filterMap_append, List.mem_filterMap]
    constructor
    . rintro ⟨hnot, _⟩ e' he' r' hr' hne heq'
      cases he'
      exact hnot ⟨r', (hothers r').mp ⟨hr', hne⟩, heq'⟩
    . intro hfree
      refine ⟨?_, hrest⟩
      rintro ⟨r', hr', heq'⟩
      obtain ⟨hmem, hne⟩ := (hothers r').mpr hr'
      exact hfree e rfl r' hmem hne heq'

omit [DecidableEq κ] in
/-- Rows with keys of their own hold distinct values when each row and any two rows do. -/
theorem nodup_flatMap {g : α → List β} (hnodup : (t.map key).Nodup)
    (hwithin : ∀ r ∈ t, (g r).Nodup)
    (hacross : ∀ r ∈ t, ∀ r' ∈ t, key r ≠ key r' → List.Disjoint (g r) (g r'))
    : (t.flatMap g).Nodup := by
  rw [List.nodup_flatMap]
  constructor
  . exact hwithin
  . unfold List.Nodup at hnodup
    rw [List.pairwise_map] at hnodup
    apply List.Pairwise.imp_of_mem _ hnodup
    intro r r' hr hr' hne
    exact hacross r hr r' hr' hne

theorem sum_modify {p : α → Bool} {g : α → ℤ} (hnodup : (t.map key).Nodup)
    (hp : ∀ r, p (f r) = p r)
    : (((modify key t k f).filter p).map g).sum
        =
      ((t.filter p).map g).sum + (((get key t k).filter p).map fun r => g (f r) - g r).getD 0 := by
  induction t with
  | nil => simp [modify, get]
  | cons a t ih =>
    simp only [List.map_cons, List.nodup_cons] at hnodup
    by_cases hk : key a = k
    . have hrest : modify key t k f = t := by
        apply modify_of_notMem
        rw [← hk]
        exact hnodup.1
      have hget : get key (a :: t) k = some a := by
        simp [get, hk]
      have hcons : modify key (a :: t) k f = f a :: modify key t k f := by
        simp [modify, hk]
      rw [hcons, hrest, hget]
      cases hpa : p a with
      | true =>
        simp [Option.filter, hp, hpa]
        ring
      | false => simp [Option.filter, hp, hpa]
    . have hget : get key (a :: t) k = get key t k := by
        simp [get, hk]
      have hcons : modify key (a :: t) k f = a :: modify key t k f := by
        simp [modify, hk]
      rw [hcons, hget]
      cases hpa : p a with
      | true =>
        rw [List.filter_cons_of_pos hpa, List.filter_cons_of_pos hpa, List.map_cons, List.map_cons,
          List.sum_cons, List.sum_cons, ih hnodup.2]
        ring
      | false =>
        rw [List.filter_cons_of_neg (by simp [hpa]), List.filter_cons_of_neg (by simp [hpa]),
          ih hnodup.2]

/-- Filtering beforehand does not change what a stronger predicate finds. -/
theorem filter_of_imp {p q : α → Bool} (h : ∀ r ∈ t, q r → p r)
    : (t.filter p).filter q = t.filter q := by
  rw [List.filter_filter]
  apply List.filter_congr
  intro r hr
  cases hq : q r with
  | false => rfl
  | true => rw [h r hr hq, Bool.true_and]

/-- A join can leave out the rows that join nothing. -/
theorem flatMap_of_nil {p : α → Bool} {join : α → List β} (h : ∀ r ∈ t, join r ≠ [] → p r)
    : (t.filter p).flatMap join = t.flatMap join := by
  induction t with
  | nil => rfl
  | cons r t ih =>
    have hrest := ih fun r' hr' => h r' (List.mem_cons_of_mem r hr')
    cases hp : p r with
    | true => rw [List.filter_cons_of_pos hp, List.flatMap_cons, List.flatMap_cons, hrest]
    | false =>
      have hnil : join r = [] := by
        by_contra hne
        rw [h r List.mem_cons_self hne] at hp
        cases hp
      rw [List.filter_cons_of_neg (by simp [hp]), List.flatMap_cons, hnil, hrest, List.nil_append]

end Table
