import Mathlib.Algebra.BigOperators.Group.List.Basic
import SentryPos.Grouping

/-!
This module contains that grouping rows, merging them into maps and filling a map up with zeros keep
what the rows add up to.
-/

namespace Grouping

variable {α β γ κ M : Type} [DecidableEq κ] [AddCommMonoid M]

section Groups

theorem sum_single {keys : List κ} (hkeys : keys.Nodup) {k : κ} (hk : k ∈ keys) (x : M)
    : (keys.map fun k' => if k' = k then x else 0).sum = x := by
  induction keys with
  | nil => cases hk
  | cons a keys ih =>
    rw [List.nodup_cons] at hkeys
    rw [List.map_cons, List.sum_cons]
    by_cases ha : a = k
    . have hrest : (keys.map fun k' => if k' = k then x else 0) = keys.map fun _ => 0 := by
        apply List.map_congr_left
        intro k' hk'
        rw [if_neg]
        intro heq
        exact hkeys.1 (by rw [ha, ← heq]; exact hk')
      rw [if_pos ha, hrest]
      simp
    . rw [if_neg ha, zero_add]
      apply ih hkeys.2
      cases List.mem_cons.mp hk with
      | inl heq => exact absurd heq.symm ha
      | inr hk => exact hk

theorem sum_filter_keys (key : α → κ) (f : α → M) {keys : List κ} (hkeys : keys.Nodup)
    {rows : List α} (h : ∀ r ∈ rows, key r ∈ keys)
    : (keys.map fun k => ((rows.filter fun r => key r = k).map f).sum).sum = (rows.map f).sum := by
  induction rows with
  | nil => simp
  | cons r rows ih =>
    have hrow : ∀ k ∈ keys, (((r :: rows).filter fun r => key r = k).map f).sum
        = (if k = key r then f r else 0) + ((rows.filter fun r => key r = k).map f).sum := by
      intro k _
      rw [List.filter_cons]
      by_cases hk : key r = k
      . rw [if_pos (by simpa using hk), if_pos hk.symm, List.map_cons, List.sum_cons]
      . rw [if_neg (by simpa using hk), if_neg (Ne.symm hk), zero_add]
    rw [List.map_congr_left hrow, List.sum_map_add, ih fun r' hr' => h r' (List.mem_cons_of_mem _ hr'),
      List.map_cons, List.sum_cons, sum_single hkeys (h r List.mem_cons_self)]

theorem sum_groupBy (key : α → κ) (f : α → M) (rows : List α)
    : ((groupBy key rows).map fun g => (g.2.map f).sum).sum = (rows.map f).sum := by
  unfold groupBy
  rw [List.map_map]
  apply sum_filter_keys key f (List.nodup_dedup _)
  intro r hr
  exact List.mem_dedup.mpr (List.mem_map_of_mem hr)

theorem nodup_groupBy (key : α → κ) (rows : List α) : ((groupBy key rows).map Prod.fst).Nodup := by
  unfold groupBy
  rw [List.map_map]
  exact (List.map_id _).symm ▸ List.nodup_dedup _

theorem keys_groupBy {key : α → κ} {rows : List α} {k : κ}
    : k ∈ (groupBy key rows).map Prod.fst ↔ k ∈ rows.map key := by
  unfold groupBy
  rw [List.map_map]
  exact (List.map_id _).symm ▸ List.mem_dedup

theorem mem_groupBy {key : α → κ} {rows : List α} {g : κ × List α}
    : g ∈ groupBy key rows ↔ g.1 ∈ rows.map key ∧ g.2 = rows.filter fun r => key r = g.1 := by
  unfold groupBy
  rw [List.mem_map]
  constructor
  . rintro ⟨k, hk, heq⟩
    rw [← heq]
    exact ⟨List.mem_dedup.mp hk, rfl⟩
  . rintro ⟨hk, hg⟩
    exact ⟨g.1, List.mem_dedup.mpr hk, by rw [← hg]⟩

omit [DecidableEq κ] in
theorem sum_filter_eq (p : α → Prop) [DecidablePred p] (f : α → M) (rows : List α)
    : ((rows.filter p).map f).sum = (rows.map fun r => if p r then f r else 0).sum := by
  rw [List.sum_map_ite]
  simp

theorem sum_filter_groupBy (key : α → κ) (f : α → M) (rows : List α) (p : κ → Prop)
    [DecidablePred p]
    : (((groupBy key rows).filter fun g => p g.1).map fun g => (g.2.map f).sum).sum
        =
      ((rows.filter fun r => p (key r)).map f).sum := by
  have hgroup : ∀ g ∈ groupBy key rows,
      (if p g.1 then (g.2.map f).sum else 0) = (g.2.map fun r => if p (key r) then f r else 0).sum := by
    intro g hg
    have hkey : ∀ r ∈ g.2, key r = g.1 := by
      intro r hr
      rw [(mem_groupBy.mp hg).2] at hr
      simpa using (List.mem_filter.mp hr).2
    split
    . next hp =>
      congr 1
      apply List.map_congr_left
      intro r hr
      rw [hkey r hr, if_pos hp]
    . next hp =>
      rw [List.map_congr_left (g := fun _ => 0)]
      . simp
      . intro r hr
        rw [hkey r hr, if_neg hp]
  rw [sum_filter_eq, sum_filter_eq, List.map_congr_left hgroup,
    sum_groupBy key fun r => if p (key r) then f r else 0]

omit [DecidableEq κ] in
theorem sum_foldl (step : β → α → β) (f : β → M) (g : α → M)
    (h : ∀ acc x, f (step acc x) = f acc + g x) (xs : List α) (acc : β)
    : f (xs.foldl step acc) = f acc + (xs.map g).sum := by
  induction xs generalizing acc with
  | nil => simp
  | cons x xs ih => rw [List.foldl_cons, ih, h, List.map_cons, List.sum_cons, add_assoc]

omit [DecidableEq κ] [AddCommMonoid M] in
theorem join_perm (rel : α → β → Bool) (xs : List α) (ys : List β)
    : (xs.flatMap fun x => (ys.filter (rel x)).map fun y => (x, y)).Perm
        (ys.flatMap fun y => (xs.filter (rel · y)).map fun x => (x, y)) := by
  induction xs with
  | nil => simp
  | cons x xs ih =>
    have hrow : ((ys.filter (rel x)).map fun y => (x, y))
        = ys.flatMap fun y => if rel x y then [(x, y)] else [] := by
      clear ih
      induction ys with
      | nil => rfl
      | cons y ys ih =>
        rw [List.filter_cons, List.flatMap_cons, ← ih]
        split
        . rfl
        . rfl
    rw [List.flatMap_cons, hrow]
    refine (ih.append_left _).trans ((List.flatMap_append_perm _ _ _).trans ?_)
    apply List.Perm.of_eq
    congr 1
    funext y
    rw [List.filter_cons]
    split
    . rfl
    . rfl

end Groups

section Segments

variable {key : β → κ} {segment : α → List β} {name : α → κ} {xs : List α}

theorem filter_segments (hkeys : (xs.map name).Nodup)
    (h : ∀ x ∈ xs, ∀ y ∈ segment x, key y = name x) {x : α} (hx : x ∈ xs)
    : (xs.flatMap segment).filter (fun y => key y = name x) = segment x := by
  induction xs with
  | nil => cases hx
  | cons x' xs ih =>
    rw [List.map_cons, List.nodup_cons] at hkeys
    rw [List.forall_mem_cons] at h
    rw [List.flatMap_cons, List.filter_append]
    cases List.mem_cons.mp hx with
    | inl heq =>
      have hself : (segment x').filter (fun y => key y = name x') = segment x' := by
        rw [List.filter_eq_self]
        intro y hy
        simpa using h.1 y hy
      have hrest : (xs.flatMap segment).filter (fun y => key y = name x') = [] := by
        rw [List.filter_eq_nil_iff]
        intro y hy heq
        obtain ⟨x'', hx'', hy⟩ := List.mem_flatMap.mp hy
        rw [decide_eq_true_eq, h.2 x'' hx'' y hy] at heq
        apply hkeys.1
        rw [← heq]
        exact List.mem_map_of_mem hx''
      rw [heq, hself, hrest, List.append_nil]
    | inr hx =>
      have hnone : (segment x').filter (fun y => key y = name x) = [] := by
        rw [List.filter_eq_nil_iff]
        intro y hy heq
        rw [decide_eq_true_eq, h.1 y hy] at heq
        apply hkeys.1
        rw [heq]
        exact List.mem_map_of_mem hx
      rw [hnone, List.nil_append, ih hkeys.2 h.2 hx]

theorem groupBy_segments (hkeys : (xs.map name).Nodup)
    (h : ∀ x ∈ xs, ∀ y ∈ segment x, key y = name x) (hne : ∀ x ∈ xs, segment x ≠ [])
    : (groupBy key (xs.flatMap segment)).Perm (xs.map fun x => (name x, segment x)) := by
  have hleft : (groupBy key (xs.flatMap segment)).Nodup := (nodup_groupBy key _).of_map
  have hright : (xs.map fun x => (name x, segment x)).Nodup := by
    apply List.Nodup.of_map Prod.fst
    rw [List.map_map]
    exact hkeys
  rw [List.perm_ext_iff_of_nodup hleft hright]
  intro g
  rw [mem_groupBy, List.mem_map, List.mem_map]
  constructor
  . rintro ⟨⟨y, hy, heq⟩, hg⟩
    obtain ⟨x, hx, hy⟩ := List.mem_flatMap.mp hy
    have hname : name x = g.1 := (h x hx y hy).symm.trans heq
    refine ⟨x, hx, ?_⟩
    rw [← hname, filter_segments hkeys h hx] at hg
    rw [← hg, hname]
  . rintro ⟨x, hx, heq⟩
    rw [← heq]
    refine ⟨?_, (filter_segments hkeys h hx).symm⟩
    obtain ⟨y, hy⟩ := List.exists_mem_of_ne_nil _ (hne x hx)
    exact ⟨y, List.mem_flatMap.mpr ⟨x, hx, hy⟩, h x hx y hy⟩

end Segments

namespace Entries

variable {measure : β → M} {m : Entries κ β} {k : κ}

/-- What the values of a map add up to. -/
def sum (measure : β → M) (m : Entries κ β) : M :=
  (m.map fun e => measure e.2).sum

def at? (measure : β → M) (m : Entries κ β) (k : κ) : M :=
  ((m.get? k).map measure).getD 0

theorem get?_cons (e : κ × β) (m : Entries κ β) (k : κ)
    : Entries.get? (e :: m) k = if e.1 = k then some e.2 else m.get? k := by
  unfold get?
  rw [List.find?_cons]
  by_cases hk : e.1 = k <;> simp [hk]

theorem get?_eq_none : m.get? k = none ↔ k ∉ m.map Prod.fst := by
  unfold get?
  rw [Option.map_eq_none_iff, List.find?_eq_none, List.mem_map]
  constructor
  . rintro h ⟨e, he, heq⟩
    exact h e he (by simpa using heq)
  . intro h e he heq
    exact h ⟨e, he, by simpa using heq⟩

omit [DecidableEq κ] in
theorem sum_append (m m' : Entries κ β) : sum measure (m ++ m') = sum measure m + sum measure m' := by
  unfold sum
  rw [List.map_append, List.sum_append]

theorem keys_set (m : Entries κ β) (k : κ) (b : β)
    : (m.set k b).map Prod.fst
        = if k ∈ m.map Prod.fst then m.map Prod.fst else m.map Prod.fst ++ [k] := by
  unfold set
  split
  . rw [List.map_map]
    apply List.map_congr_left
    intro e _
    rw [Function.comp_apply]
    split
    . next hk => exact hk.symm
    . rfl
  . rw [List.map_append]
    rfl

theorem nodup_set (hm : (m.map Prod.fst).Nodup) (k : κ) (b : β)
    : ((m.set k b).map Prod.fst).Nodup := by
  rw [keys_set]
  split
  . exact hm
  . next hk =>
    rw [List.nodup_append]
    refine ⟨hm, List.nodup_singleton k, ?_⟩
    intro a ha b hb heq
    rw [List.mem_singleton] at hb
    exact hk (by rw [← hb, ← heq]; exact ha)

theorem sum_set (hm : (m.map Prod.fst).Nodup) {b : β} {x : M} (hb : measure b = m.at? measure k + x)
    : sum measure (m.set k b) = sum measure m + x := by
  unfold set
  by_cases hk : k ∈ m.map Prod.fst
  . rw [if_pos hk]
    induction m with
    | nil => cases hk
    | cons e m ih =>
      rw [List.map_cons, List.nodup_cons] at hm
      unfold sum at ih ⊢
      simp only [List.map_cons, List.sum_cons]
      unfold at? at hb ih
      rw [get?_cons] at hb
      by_cases he : e.1 = k
      . rw [if_pos he, Option.map_some, Option.getD_some] at hb
        have hrest : (m.map fun e => if e.1 = k then (k, b) else e) = m := by
          have hself : (m.map fun e => if e.1 = k then (k, b) else e) = m.map id := by
            apply List.map_congr_left
            intro e' he'
            rw [if_neg, id]
            intro heq
            apply hm.1
            rw [he, ← heq]
            exact List.mem_map_of_mem he'
          rw [hself, List.map_id]
        rw [if_pos he, hrest]
        dsimp only
        rw [hb, add_assoc, add_comm x, ← add_assoc]
      . rw [if_neg he] at hb ⊢
        have hk' : k ∈ m.map Prod.fst := by
          cases List.mem_cons.mp hk with
          | inl heq => exact absurd heq.symm he
          | inr hk => exact hk
        rw [ih hm.2 hb hk', add_assoc]
  . rw [if_neg hk, sum_append]
    unfold at? at hb
    rw [get?_eq_none.mpr hk, Option.map_none, Option.getD_none, zero_add] at hb
    unfold sum
    rw [List.map_singleton, List.sum_singleton, hb]

omit [AddCommMonoid M] in
theorem get?_set (m : Entries κ β) (k : κ) (b : β) (k' : κ)
    : (m.set k b).get? k' = if k' = k then some b else m.get? k' := by
  unfold set
  by_cases hk : k ∈ m.map Prod.fst
  . rw [if_pos hk]
    induction m with
    | nil => cases hk
    | cons e m ih =>
      rw [List.map_cons, get?_cons, get?_cons]
      by_cases he : e.1 = k
      . rw [if_pos he]
        by_cases hk' : k' = k
        . simp [hk']
        . rw [if_neg (Ne.symm hk'), if_neg hk', if_neg (by rw [he]; exact Ne.symm hk')]
          by_cases hm : k ∈ m.map Prod.fst
          . rw [ih hm, if_neg hk']
          . have hself : (m.map fun e => if e.1 = k then (k, b) else e) = m.map id := by
              apply List.map_congr_left
              intro e' he'
              rw [if_neg, id]
              intro heq
              exact hm (by rw [← heq]; exact List.mem_map_of_mem he')
            rw [hself, List.map_id]
      . have hm : k ∈ m.map Prod.fst := by
          cases List.mem_cons.mp hk with
          | inl heq => exact absurd heq.symm he
          | inr hk => exact hk
        rw [if_neg he, ih hm]
        by_cases hk' : k' = k
        . rw [if_pos hk', if_pos hk', if_neg (by rw [hk']; exact he)]
        . rw [if_neg hk', if_neg hk']
  . rw [if_neg hk]
    unfold get?
    rw [List.find?_append]
    by_cases hk' : k' = k
    . have hnone : m.find? (fun e => e.1 = k) = none := by
        rw [List.find?_eq_none]
        intro e he heq
        rw [decide_eq_true_eq] at heq
        exact hk (by rw [← heq]; exact List.mem_map_of_mem he)
      rw [hk', hnone]
      simp
    . simp [hk', Ne.symm hk']

theorem at?_set (m : Entries κ β) (k : κ) (b : β) (k' : κ)
    : (m.set k b).at? measure k' = if k' = k then measure b else m.at? measure k' := by
  unfold at?
  rw [get?_set]
  split
  . rfl
  . rfl

theorem get?_foldl_set {key : α → κ} {value : α → β} {rows : List α} (hkeys : (rows.map key).Nodup)
    (m : Entries κ β) (k : κ)
    : (rows.foldl (fun m r => m.set (key r) (value r)) m).get? k
        =
      ((rows.find? fun r => key r = k).map value).or (m.get? k) := by
  induction rows generalizing m with
  | nil => rfl
  | cons r rows ih =>
    rw [List.map_cons, List.nodup_cons] at hkeys
    rw [List.foldl_cons, ih hkeys.2, get?_set, List.find?_cons]
    by_cases hk : key r = k
    . have hnone : rows.find? (fun r => key r = k) = none := by
        rw [List.find?_eq_none]
        intro r' hr' heq
        apply hkeys.1
        rw [hk, ← decide_eq_true_eq.mp heq]
        exact List.mem_map_of_mem hr'
      rw [hnone]
      simp [hk]
    . rw [if_neg (Ne.symm hk)]
      simp [hk]

omit [AddCommMonoid M] in
theorem get?_of_mem (hm : (m.map Prod.fst).Nodup) {e : κ × β} (he : e ∈ m)
    : m.get? e.1 = some e.2 := by
  induction m with
  | nil => cases he
  | cons e' m ih =>
    rw [List.map_cons, List.nodup_cons] at hm
    rw [get?_cons]
    cases List.mem_cons.mp he with
    | inl heq => rw [← heq, if_pos rfl]
    | inr he =>
      rw [if_neg, ih hm.2 he]
      intro heq
      exact hm.1 (by rw [heq]; exact List.mem_map_of_mem he)

theorem at?_of_mem (hm : (m.map Prod.fst).Nodup) {e : κ × β} (he : e ∈ m)
    : m.at? measure e.1 = measure e.2 := by
  unfold at?
  rw [get?_of_mem hm he]
  rfl

variable (measure) in
theorem values_of_keys (key : β → κ) (hm : (m.map Prod.fst).Nodup) (hkey : ∀ e ∈ m, key e.2 = e.1)
    : (m.map Prod.snd).map key = m.map Prod.fst
        ∧ ∀ b ∈ m.map Prod.snd, m.at? measure (key b) = measure b := by
  constructor
  . rw [List.map_map]
    apply List.map_congr_left
    intro e he
    exact hkey e he
  . intro b hb
    obtain ⟨e, he, heq⟩ := List.mem_map.mp hb
    rw [← heq, hkey e he]
    exact at?_of_mem hm he

omit [AddCommMonoid M] in
theorem mem_of_get? {b : β} (h : m.get? k = some b) : (k, b) ∈ m := by
  unfold get? at h
  obtain ⟨e, he, heq⟩ := Option.map_eq_some_iff.mp h
  have hkey : e.1 = k := by
    simpa using List.find?_some he
  rw [← hkey, ← heq]
  exact List.mem_of_find?_eq_some he

section Merge

variable {key : α → κ} {add : Option β → α → β} {f : α → M}

def Adds (measure : β → M) (add : Option β → α → β) (f : α → M) : Prop :=
  ∀ acc r, measure (add acc r) = (acc.map measure).getD 0 + f r

theorem nodup_merge (hm : (m.map Prod.fst).Nodup) (rows : List α)
    : ((m.merge key add rows).map Prod.fst).Nodup := by
  unfold merge
  induction rows generalizing m with
  | nil => exact hm
  | cons r rows ih => exact ih (nodup_set hm _ _)

theorem mem_keys_merge {rows : List α}
    : k ∈ (m.merge key add rows).map Prod.fst ↔ k ∈ m.map Prod.fst ∨ k ∈ rows.map key := by
  unfold merge
  induction rows generalizing m with
  | nil => simp
  | cons r rows ih =>
    rw [List.foldl_cons, ih, keys_set, List.map_cons, List.mem_cons]
    split
    . next hr =>
      constructor
      . rintro (h | h)
        . exact .inl h
        . exact .inr (.inr h)
      . rintro (h | h | h)
        . exact .inl h
        . exact .inl (by rw [h]; exact hr)
        . exact .inr h
    . rw [List.mem_append, List.mem_singleton, or_assoc]

theorem sum_merge (hadd : Adds measure add f) (hm : (m.map Prod.fst).Nodup) (rows : List α)
    : sum measure (m.merge key add rows) = sum measure m + (rows.map f).sum := by
  unfold merge
  -- A row adds to the sum what it adds under its key.
  induction rows generalizing m with
  | nil => simp
  | cons r rows ih =>
    rw [List.foldl_cons, ih (nodup_set hm _ _), sum_set hm (hadd _ r), List.map_cons, List.sum_cons,
      add_assoc]

theorem at?_merge (hadd : Adds measure add f) (m : Entries κ β) (rows : List α) (k : κ)
    : (m.merge key add rows).at? measure k
        =
      m.at? measure k + ((rows.filter fun r => key r = k).map f).sum := by
  unfold merge
  induction rows generalizing m with
  | nil => simp
  | cons r rows ih =>
    rw [List.foldl_cons, ih, at?_set, List.filter_cons]
    by_cases hk : key r = k
    . have hr := hadd (m.get? (key r)) r
      rw [if_pos hk.symm, if_pos (by simpa using hk), hr, List.map_cons, List.sum_cons, hk, ← add_assoc]
      rfl
    . rw [if_neg (Ne.symm hk), if_neg (by simpa using hk)]

variable (key) in
theorem mergeAll_spec (hadd : Adds measure add f) (hm : (m.map Prod.fst).Nodup)
    (rows : γ → List α) (sources : List γ)
    : ((sources.foldl (fun m s => m.merge key add (rows s)) m).map Prod.fst).Nodup
        ∧ (∀ k, k ∈ (sources.foldl (fun m s => m.merge key add (rows s)) m).map Prod.fst
          ↔ k ∈ m.map Prod.fst ∨ ∃ s ∈ sources, k ∈ (rows s).map key)
        ∧ (∀ k, at? measure (sources.foldl (fun m s => m.merge key add (rows s)) m) k
          = m.at? measure k
            + (sources.map fun s => (((rows s).filter fun r => key r = k).map f).sum).sum)
        ∧ sum measure (sources.foldl (fun m s => m.merge key add (rows s)) m)
          = sum measure m + (sources.map fun s => ((rows s).map f).sum).sum := by
  -- Each source adds its rows to what the sources before it have left under their keys.
  induction sources generalizing m with
  | nil => simp [hm]
  | cons s sources ih =>
    obtain ⟨hnodup, hmem, hat, hsum⟩ := ih (nodup_merge hm (rows s))
    rw [List.foldl_cons]
    refine ⟨hnodup, ?_, ?_, ?_⟩
    . intro k
      rw [hmem, mem_keys_merge]
      simp only [List.mem_cons, exists_eq_or_imp, or_assoc]
    . intro k
      rw [hat, at?_merge hadd, List.map_cons, List.sum_cons, add_assoc]
    . rw [hsum, sum_merge hadd hm, List.map_cons, List.sum_cons, add_assoc]

omit [AddCommMonoid M] in
theorem forall_set {P : κ → β → Prop} (hm : ∀ e ∈ m, P e.1 e.2) {b : β} (hb : P k b)
    : ∀ e ∈ m.set k b, P e.1 e.2 := by
  unfold set
  intro e he
  split at he
  . obtain ⟨e', he', heq⟩ := List.mem_map.mp he
    split at heq
    . rw [← heq]
      exact hb
    . rw [← heq]
      exact hm e' he'
  . cases List.mem_append.mp he with
    | inl he => exact hm e he
    | inr he =>
      rw [List.mem_singleton.mp he]
      exact hb

omit [AddCommMonoid M] in
theorem forall_merge {P : κ → β → Prop}
    (hadd : ∀ acc r, (∀ b, acc = some b → P (key r) b) → P (key r) (add acc r))
    (hm : ∀ e ∈ m, P e.1 e.2) (rows : List α) : ∀ e ∈ m.merge key add rows, P e.1 e.2 := by
  unfold merge
  induction rows generalizing m with
  | nil => exact hm
  | cons r rows ih =>
    apply ih
    apply forall_set hm
    apply hadd
    intro b hb
    exact hm _ (mem_of_get? hb)

omit [AddCommMonoid M] in
theorem forall_mergeAll {P : κ → β → Prop}
    (hadd : ∀ acc r, (∀ b, acc = some b → P (key r) b) → P (key r) (add acc r))
    (hm : ∀ e ∈ m, P e.1 e.2) (rows : γ → List α) (sources : List γ)
    : ∀ e ∈ sources.foldl (fun m s => m.merge key add (rows s)) m, P e.1 e.2 := by
  induction sources generalizing m with
  | nil => exact hm
  | cons s sources ih => exact ih (forall_merge hadd hm (rows s))

end Merge

omit [AddCommMonoid M] in
theorem foldl_set_new {key : α → κ} {value : α → β} {rows : List α} (hkeys : (rows.map key).Nodup)
    (h : ∀ r ∈ rows, key r ∉ m.map Prod.fst)
    : rows.foldl (fun m r => m.set (key r) (value r)) m = m ++ rows.map fun r => (key r, value r) := by
  induction rows generalizing m with
  | nil => simp
  | cons r rows ih =>
    rw [List.map_cons, List.nodup_cons] at hkeys
    have hnew : m.set (key r) (value r) = m ++ [(key r, value r)] := by
      unfold set
      rw [if_neg (h r List.mem_cons_self)]
    rw [List.foldl_cons, hnew, ih hkeys.2]
    . rw [List.append_assoc]
      rfl
    . intro r' hr'
      rw [List.map_append, List.mem_append, List.map_singleton, List.mem_singleton]
      rintro (hmem | heq)
      . exact h r' (List.mem_cons_of_mem _ hr') hmem
      . apply hkeys.1
        have heq : key r' = key r := heq
        rw [← heq]
        exact List.mem_map_of_mem hr'

theorem keys_merge_of_subset {key : α → κ} {add : Option β → α → β} {rows : List α}
    (h : ∀ r ∈ rows, key r ∈ m.map Prod.fst)
    : (m.merge key add rows).map Prod.fst = m.map Prod.fst := by
  unfold merge
  induction rows generalizing m with
  | nil => rfl
  | cons r rows ih =>
    have hset : (m.set (key r) (add (m.get? (key r)) r)).map Prod.fst = m.map Prod.fst := by
      rw [keys_set, if_pos (h r List.mem_cons_self)]
    rw [List.foldl_cons, ih, hset]
    intro r' hr'
    rw [hset]
    exact h r' (List.mem_cons_of_mem _ hr')

theorem eq_map_at? {m : Entries κ M} (hm : (m.map Prod.fst).Nodup)
    : m = (m.map Prod.fst).map fun k => (k, m.at? id k) := by
  rw [List.map_map]
  conv_lhs => rw [← List.map_id m]
  apply List.map_congr_left
  intro e he
  rw [Function.comp_apply, at?_of_mem hm he]
  rfl

theorem sum_at? (hm : (m.map Prod.fst).Nodup) {keys : List κ} (hkeys : keys.Nodup)
    (h : ∀ k ∈ m.map Prod.fst, k ∈ keys)
    : (keys.map (m.at? measure)).sum = sum measure m := by
  have hvalue : ∀ k, m.at? measure k = ((m.filter fun e => e.1 = k).map fun e => measure e.2).sum := by
    intro k
    unfold at?
    induction m with
    | nil => rfl
    | cons e m ih =>
      rw [List.map_cons, List.nodup_cons] at hm
      rw [get?_cons, List.filter_cons]
      by_cases he : e.1 = k
      . have hrest : (m.filter fun e => e.1 = k) = [] := by
          rw [List.filter_eq_nil_iff]
          intro e' he' heq
          apply hm.1
          rw [he, ← decide_eq_true_eq.mp heq]
          exact List.mem_map_of_mem he'
        simp [he, hrest]
      . simp only [he, if_false, decide_false, Bool.false_eq_true]
        exact ih hm.2 fun k' hk' => h k' (List.mem_cons_of_mem _ hk')
  rw [List.map_congr_left fun k _ => hvalue k]
  unfold sum
  apply sum_filter_keys Prod.fst _ hkeys
  intro e he
  exact h e.1 (List.mem_map_of_mem he)

end Entries

end Grouping
