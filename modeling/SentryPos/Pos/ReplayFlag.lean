import SentryPos.Pos.ExactlyOnce

/-!
This module contains which of the calls that complete a sale report that they have inserted it, and
which that they have replayed it.
-/

namespace SentryPos

open ReadCommitted

variable {ι : Type} [DecidableEq ι]

/-- The status of the response: 201 for a first insert, 200 for a replay. -/
def SaleResponse.status (r : SaleResponse) : ℕ :=
  if r.replayed then 200 else 201

theorem SaleResponse.status_eq_201 {r : SaleResponse} : r.status = 201 ↔ r.replayed = false := by
  unfold SaleResponse.status
  cases r.replayed <;> simp

theorem SaleResponse.status_eq_200 {r : SaleResponse} : r.status = 200 ↔ r.replayed = true := by
  unfold SaleResponse.status
  cases r.replayed <;> simp

def Database.Stored (id : Uuid) (db : Database) : Prop :=
  ∃ s, db.sale? id = some s

/-- The transaction of the client has inserted the sale. -/
def Inserted (c : System ι) (id : Uuid) (i : ι) : Prop :=
  ∃ e ∈ c.history, e.client = i ∧ e.Flips (Database.Stored id)

/-- The client has returned the response. -/
def Responded (c : System ι) (i : ι) (r : SaleResponse) : Prop :=
  (c.procs i).prog.result? = some (.ok (.sale r))

/-- The step is not a re-check under the lock that finds the sale. -/
def NotRechecked (id : Uuid) (c : System ι) (i : ι) (_ : System ι) : Prop :=
  (c.procs i).prog.tag? = some .recheckSale → c.db.sale? id = none

theorem mem_commitsOf {c : System ι} {i : ι} {before after : Database}
    : (before, after) ∈ c.commitsOf i
        ↔ ∃ e ∈ c.history, e.client = i ∧ (e.before, e.after) = (before, after) := by
  unfold Config.commitsOf
  simp only [List.mem_map, List.mem_filter, decide_eq_true_eq]
  constructor
  . rintro ⟨e, ⟨he, hclient⟩, heq⟩
    exact ⟨e, he, hclient, heq⟩
  . rintro ⟨e, he, hclient, heq⟩
    exact ⟨e, ⟨he, hclient⟩, heq⟩

section Flags

variable {id : Uuid} {ctx : ι → TerminalContext} {dto : ι → SaleDraftDto} {now : ι → DateTime}

theorem keeps_notRechecked (id : Uuid) (ctx : ι → TerminalContext) (dto : ι → SaleDraftDto)
    (now : ι → DateTime)
    : Keeps (NotRechecked id) (fun i => .completeSale (ctx i) (dto i) (now i)) (fun _ => True)
        (fun _ _ db db' => ∀ id s, db.sale? id = some s → db'.sale? id = some s)
        fun tag _ db => tag = .recheckSale → db.sale? id = none where
  refl := by
    intro _ _ _ id s hs
    exact hs
  trans := by
    intro _ _ _ _ _ h h' id s hs
    exact h' id s (h id s hs)
  promised := by
    intro c c' i tag hallowed _ htag heq
    rw [heq] at htag
    exact hallowed htag
  state := by simp
  commit := by
    intro c i tag next _ _ _ _ hcommit j _ id s hs
    exact sale?_completeSale hcommit hs

variable {db : Database} (hdb : db.Valid) {c : System ι}
  (hrun : RunWhere (.error .aborted) (NotRechecked id)
    (System.start db fun i => .completeSale (ctx i) (dto i) (now i)) c)

include hdb hrun

theorem stored_kept {e : Event ι Database} (he : e ∈ c.history)
    (hbefore : Database.Stored id e.before) : Database.Stored id e.after := by
  have hok := (keeps_notRechecked id ctx dto now).ok hdb trivial hrun
  obtain ⟨s, hs⟩ := hbefore
  obtain ⟨log, _, _, hcommit, hafter⟩ := (hok.events e he).commit
  rw [hafter]
  exact ⟨s, sale?_completeSale hcommit hs⟩

theorem inserted_unique {i j : ι} (hi : Inserted c id i) (hj : Inserted c id j) : i = j := by
  obtain ⟨e, he, rfl, hflips⟩ := hi
  obtain ⟨e', he', rfl, hflips'⟩ := hj
  have hkept : ∀ e ∈ c.history, Database.Stored id e.before → Database.Stored id e.after := by
    intro e he
    exact stored_kept hdb hrun he
  rw [hrun.chain.flips_unique hkept he he' hflips hflips']

theorem replayed_eq_false_iff (hid : ∀ i, (dto i).id = id) {i : ι} {r : SaleResponse}
    (hr : Responded c i r) : r.replayed = false ↔ Inserted c id i := by
  have hreturned := (keeps_notRechecked id ctx dto now).returned hdb trivial hrun hr
  have hresult : SaleResult _ (ctx i) (dto i) (now i) r (c.commitsOf i) c.db := hreturned.outcome
  generalize hcommits : c.commitsOf i = commits at hresult
  cases hresult with
  | existing s hfind =>
    constructor
    . intro h
      cases h
    . intro h
      obtain ⟨e, he, hclient, _⟩ := h
      have hmem : (e.before, e.after) ∈ c.commitsOf i := mem_commitsOf.mpr ⟨e, he, hclient, rfl⟩
      rw [hcommits] at hmem
      cases hmem
  | concurrent s hrecheck hseen =>
    -- The re-check has found the sale, in a state in which it may not be there.
    obtain ⟨db0, _, ⟨hs, hassume⟩, _⟩ := hrecheck
    rw [hid] at hs
    have hnone : db0.sale? id = none := hassume rfl
    rw [hnone] at hs
    cases hs
  | @posted _ before after _ _ p haccepted hposted hpast =>
    refine ⟨fun _ => ?_, fun _ => rfl⟩
    have hmem : (before, after) ∈ c.commitsOf i := by
      rw [hcommits]
      exact List.mem_singleton_self _
    obtain ⟨e, he, hclient, heq⟩ := mem_commitsOf.mp hmem
    rw [Prod.mk.injEq] at heq
    refine ⟨e, he, hclient, ?_, p.data.sale, ?_⟩
    . rw [heq.1, ← hid i]
      rintro ⟨s, hs⟩
      rw [hposted.fresh] at hs
      cases hs
    . rw [heq.2, ← hid i]
      exact hposted.sale?

theorem responded_of_inserted (hid : ∀ i, (dto i).id = id) {i : ι} (hi : Inserted c id i)
    {res : Except ApiError Response} (hres : (c.procs i).prog.result? = some res)
    : ∃ r, Responded c i r ∧ r.replayed = false := by
  have hreturned := (keeps_notRechecked id ctx dto now).returned hdb trivial hrun hres
  cases res with
  | error err =>
    have hcommits : c.commitsOf i = [] := hreturned.failed err rfl
    obtain ⟨e, he, hclient, _⟩ := hi
    have hmem : (e.before, e.after) ∈ c.commitsOf i := mem_commitsOf.mpr ⟨e, he, hclient, rfl⟩
    rw [hcommits] at hmem
    cases hmem
  | ok response =>
    cases response with
    | sale r => exact ⟨r, hres, (replayed_eq_false_iff hdb hrun hid hres).mpr hi⟩
    | _ => exact hreturned.outcome.elim

theorem exists_inserted (hid : ∀ i, (dto i).id = id) (hnew : db.sale? id = none) {i : ι}
    {r : SaleResponse} (hr : Responded c i r) : ∃ j, Inserted c id j := by
  by_contra hnot
  have hnone : ¬ Database.Stored id c.db := by
    apply hrun.chain.keeps (P := fun db => ¬ Database.Stored id db)
    . intro e he hbefore hafter
      exact hnot ⟨e.client, e, he, rfl, hbefore, hafter⟩
    . rintro ⟨s, hs⟩
      rw [hnew] at hs
      cases hs
  have hreturned := (keeps_notRechecked id ctx dto now).returned hdb trivial hrun hr
  obtain ⟨s, hs, _⟩ := SaleResult.stored hreturned.outcome fun _ _ _ h => h
  rw [hid] at hs
  exact hnone ⟨s, hs⟩

end Flags

/--
Of the calls that complete a sale, the one that has inserted it and no other responds with 201, in
every run in which no re-check under the lock finds the sale.
-/
theorem replay_flag (id : Uuid) (ctx : ι → TerminalContext) (dto : ι → SaleDraftDto)
    (now : ι → DateTime) (hid : ∀ i, (dto i).id = id) {db : Database} (hdb : db.Valid)
    (hnew : db.sale? id = none) {c : System ι}
    (hrun : RunWhere (.error .aborted) (NotRechecked id)
      (System.start db fun i => .completeSale (ctx i) (dto i) (now i)) c)
    : (∀ i r, Responded c i r →
          (r.replayed = false ↔ Inserted c id i) ∧ (r.status = 201 ↔ Inserted c id i)
            ∧ (r.status = 200 ↔ ¬ Inserted c id i))
        ∧ (∀ i j, Inserted c id i → Inserted c id j → i = j)
        ∧ ((∀ i, ((c.procs i).prog.result?).isSome) → (∃ i r, Responded c i r) →
            ∃! i, ∃ r, Responded c i r ∧ r.replayed = false) := by
  refine ⟨?_, ?_, ?_⟩
  . intro i r hr
    have hflag := replayed_eq_false_iff hdb hrun hid hr
    refine ⟨hflag, ?_, ?_⟩
    . rw [SaleResponse.status_eq_201, hflag]
    . rw [SaleResponse.status_eq_200, ← hflag, Bool.not_eq_false]
  . intro i j
    exact inserted_unique hdb hrun
  . intro hfinished hresponded
    obtain ⟨i, r, hr⟩ := hresponded
    obtain ⟨j, hj⟩ := exists_inserted hdb hrun hid hnew hr
    obtain ⟨res, hres⟩ := Option.isSome_iff_exists.mp (hfinished j)
    refine ⟨j, responded_of_inserted hdb hrun hid hj hres, ?_⟩
    intro k hk
    obtain ⟨r', hr', hreplayed⟩ := hk
    have hkInserted := (replayed_eq_false_iff hdb hrun hid hr').mp hreplayed
    exact inserted_unique hdb hrun hkInserted hj

namespace Cafe

def statuses (c : System Bool) : Option (ℕ × ℕ) :=
  match (c.procs true).prog.result?, (c.procs false).prog.result? with
  | some (.ok (.sale r)), some (.ok (.sale r')) => some (r.status, r'.status)
  | _, _ => none

theorem responded_of_statuses {c : System Bool} {n m : ℕ} (h : statuses c = some (n, m))
    : ∃ r r', Responded c true r ∧ r.status = n ∧ Responded c false r' ∧ r'.status = m := by
  unfold statuses at h
  split at h
  . next r r' hr hr' =>
    simp only [Option.some.injEq, Prod.mk.injEq] at h
    exact ⟨r, r', hr, h.1, hr', h.2⟩
  . cases h

theorem finished_of_responded {c : System Bool} {r r' : SaleResponse} (hr : Responded c true r)
    (hr' : Responded c false r') (i : Bool) : ((c.procs i).prog.result?).isSome := by
  unfold Responded at hr hr'
  cases i with
  | true => rw [hr]; rfl
  | false => rw [hr']; rfl

theorem race_statuses : (race.turns schedule).bind statuses = some (201, 201) := by
  decide +kernel

def notRechecked (c : System Bool) (i : Bool) : Bool :=
  match (c.procs i).prog.tag? with
  | some .recheckSale => (c.db.sale? 7).isNone
  | _ => true

theorem notRechecked_iff (c : System Bool) (i : Bool) (c' : System Bool)
    : notRechecked c i ↔ NotRechecked 7 c i c' := by
  unfold notRechecked NotRechecked
  split
  . next h => simp [h]
  . next h =>
    constructor
    . intro _ hrecheck
      exact absurd hrecheck h
    . intro _
      rfl

/-- One call posts the draft and returns, and then the other looks for the sale. -/
def afterwards : List Bool :=
  List.replicate 17 true ++ [false]

theorem afterwards_statuses
    : (race.turnsWhere notRechecked afterwards).bind statuses = some (201, 200) := by
  decide +kernel

end Cafe

/-- Two calls that complete one sale both respond with 201. -/
theorem not_exactly_one_new
    : ∃ c, Run (.error .aborted) Cafe.race c ∧ (∀ i, ((c.procs i).prog.result?).isSome)
        ∧ (∃ r r', Responded c true r ∧ r.status = 201 ∧ Responded c false r' ∧ r'.status = 201)
        ∧ ¬ ∃! i, ∃ r, Responded c i r ∧ r.replayed = false := by
  have hstatuses := Cafe.race_statuses
  rw [Option.bind_eq_some_iff] at hstatuses
  obtain ⟨c, hturns, hstatuses⟩ := hstatuses
  obtain ⟨r, r', hr, hnew, hr', hnew'⟩ := Cafe.responded_of_statuses hstatuses
  refine ⟨c, Config.run_of_turns _ _ hturns, Cafe.finished_of_responded hr hr',
    ⟨r, r', hr, hnew, hr', hnew'⟩, ?_⟩
  rintro ⟨i, _, hunique⟩
  have htrue := hunique true ⟨r, hr, SaleResponse.status_eq_201.mp hnew⟩
  have hfalse := hunique false ⟨r', hr', SaleResponse.status_eq_201.mp hnew'⟩
  rw [← htrue] at hfalse
  cases hfalse

theorem replay_flag_afterwards
    : ∃ c, Cafe.race.turnsWhere Cafe.notRechecked Cafe.afterwards = some c
        ∧ (∃ r r', Responded c true r ∧ r.status = 201 ∧ Responded c false r' ∧ r'.status = 200)
        ∧ (∀ i r, Responded c i r →
          (r.replayed = false ↔ Inserted c 7 i) ∧ (r.status = 201 ↔ Inserted c 7 i)
            ∧ (r.status = 200 ↔ ¬ Inserted c 7 i))
        ∧ ∃! i, ∃ r, Responded c i r ∧ r.replayed = false := by
  have hstatuses := Cafe.afterwards_statuses
  rw [Option.bind_eq_some_iff] at hstatuses
  obtain ⟨c, hturns, hstatuses⟩ := hstatuses
  obtain ⟨r, r', hr, hnew, hr', hnew'⟩ := Cafe.responded_of_statuses hstatuses
  have hrun : RunWhere (.error .aborted) (NotRechecked 7) Cafe.race c := by
    apply Config.run_of_turnsWhere _ _ _ hturns
    intro c i c' hcheck _
    exact (Cafe.notRechecked_iff c i c').mp hcheck
  have hflag := replay_flag 7 (fun _ => Cafe.terminal) (fun _ => Cafe.sale) (fun _ => 100)
    (fun _ => rfl) Cafe.database_valid rfl hrun
  have hfinished := Cafe.finished_of_responded hr hr'
  exact ⟨c, hturns, ⟨r, r', hr, hnew, hr', hnew'⟩, hflag.1, hflag.2.2 hfinished ⟨true, r, hr⟩⟩

end SentryPos
