import SentryPos.Checks
import SentryPos.Pos.Valid

/-!
This module contains the two database clients of a request, the scoped client and the one of its
transaction, and what their statements keep.
-/

namespace SentryPos

open ReadCommitted

structure StockConflict where
  lineId : Uuid
  productId : Uuid
  variantId : Option Uuid
  availableQty : ℚ
  deriving DecidableEq

/--
What a request may end with instead of a result. The errors from `prismaValidation` on are the ones
of the database client, `aborted` is a transaction that the database gave up.
-/
inductive ApiError where
  | validationFailed (message : String)
  | notFound (message : String)
  | stockConflict (conflicts : List StockConflict)
  | pinInvalid (attemptsRemaining : Nat)
  | pinLocked (retryAfterSeconds : ℤ)
  | tenantScope (message : String)
  | prismaValidation
  | uniqueViolation
  | foreignKeyViolation
  | recordNotFound
  | checkViolation
  | numericOverflow
  | aborted
  deriving DecidableEq

/-- The statements of a shift's close, from the first one after the shift was found. -/
inductive CloseStmt where
  | sales
  | refunds
  | target
  | update
  | commit
  deriving DecidableEq

/-- The names of the statements. -/
inductive Stmt where
  | findSale
  | findOpenShift
  | findBusiness
  | findProducts
  | findDiscounts
  | lockStock
  | recheckSale
  | recoverSale
  | lockSale
  | findMoves
  | findLevel
  | findBranch
  | findTerminal
  | findUser
  | findCashMovement
  | police
  | target
  | updateUser
  | updateStock
  | updateSale
  | updateProduct
  | updateTerminal
  | createStock
  | createMovement
  | createSale
  | createItem
  | createPayment
  | createShift
  | createCashMovement
  | commit
  | close (shiftId : Uuid) (stmt : CloseStmt)

abbrev PosCall (R : Type) :=
  Call ApiError Database Write Key Stmt R

/-- The scope of a request: a terminal's is pinned to its branch. -/
structure RequestContext where
  ownerId : Uuid
  terminalBranchId : Option Uuid

structure TerminalContext where
  ownerId : Uuid
  businessId : Uuid
  branchId : Uuid
  terminalId : Uuid
  terminalCode : Option String

def TerminalContext.request (ctx : TerminalContext) : RequestContext :=
  { ownerId := ctx.ownerId, terminalBranchId := some ctx.branchId }

namespace RequestContext

def allowedBusinessIds (ctx : RequestContext) (db : Database) : List Uuid :=
  (db.businesses.filter fun b => b.ownerId = ctx.ownerId && b.deletedAt.isNone).map (·.id)

def allowedBranchIds (ctx : RequestContext) (db : Database) : List Uuid :=
  (db.branches.filter fun b =>
    b.businessId ∈ ctx.allowedBusinessIds db && b.deletedAt.isNone).map (·.id)

/-- `tenantWhereFor` a model with a business. -/
def ownsBusiness (ctx : RequestContext) (db : Database) (businessId : Uuid) : Bool :=
  businessId ∈ ctx.allowedBusinessIds db

/-- `tenantWhereFor` a model with a branch. -/
def ownsBranch (ctx : RequestContext) (db : Database) (branchId : Uuid) : Bool :=
  match ctx.terminalBranchId with
  | some id => branchId = id
  | none => branchId ∈ ctx.allowedBranchIds db

end RequestContext

inductive Ref where
  | terminal (id : Uuid)
  | shift (id : Uuid)
  | product (id : Uuid)
  | productVariant (id : Uuid)
  | discount (id : Uuid)

def Ref.label : Ref → String
  | .terminal _ => "terminalId"
  | .shift _ => "shiftId"
  | .product _ => "productId"
  | .productVariant _ => "variantId"
  | .discount _ => "discountId"

def branchToBusiness (db : Database) (branchId : Uuid) : Option Uuid :=
  (db.branch? branchId).map (·.businessId)

def resolveRefBusinessId (db : Database) : Ref → Option Uuid
  | .terminal id => (db.terminal? id).bind fun t => branchToBusiness db t.branchId
  | .shift id => (db.shift? id).bind fun s => branchToBusiness db s.branchId
  | .product id => (db.product? id).map (·.businessId)
  | .productVariant id =>
    (db.productVariant? id).bind fun v => (db.product? v.productId).map (·.businessId)
  | .discount id => (db.discount? id).map (·.businessId)

def policeRef (ctx : RequestContext) (model : String) (db : Database) (ref : Ref)
    : Except ApiError Unit :=
  if (resolveRefBusinessId db ref).any (ctx.ownsBusiness db) then
    .ok ()
  else
    .error (.tenantScope s!"create on {model} references {ref.label} outside the owner's scope")

def policeCreateRefs (ctx : RequestContext) (model : String) (refs : List Ref) (db : Database)
    : Except ApiError Unit :=
  refs.forM (policeRef ctx model db)

def policeBranch (ctx : RequestContext) (model : String) (branchId : Uuid) (db : Database)
    : Except ApiError Uuid :=
  match ctx.terminalBranchId with
  | some id => .ok id
  | none =>
    if branchId ∈ ctx.allowedBranchIds db then .ok branchId
    else .error (.tenantScope s!"create on {model} targets branchId outside the owner's scope")

def policeCreateData (ctx : RequestContext) (model : String) (branchId : Uuid) (refs : List Ref)
    (db : Database) : Except ApiError Uuid := do
  let branchId ← policeBranch ctx model branchId db
  policeCreateRefs ctx model refs db
  return branchId

/-- Why the database rejects a quantity for a stock row of type Decimal(10,3). -/
def qtyViolation (qty : ℤ) : Option ApiError :=
  if 10 ^ 10 ≤ qty then some .numericOverflow
  else if qty < 0 then some .checkViolation
  else none

/-- Why the database rejects a new row, for its entries in the unique indexes. -/
def Write.uniqueViolation (w : Write) (view : Database) : Option ApiError :=
  if w.added.any fun e => e ∈ view.entries then some .uniqueViolation else none

def Write.violation (w : Write) (view : Database) : Option ApiError :=
  match w with
  | setReceiptSeq id receiptSeq =>
    if (view.terminal? id).isNone then some .recordNotFound
    else if 2 ^ 31 ≤ receiptSeq then some .numericOverflow
    else none
  | setProductCost id _ => if (view.product? id).isNone then some .recordNotFound else none
  | setVariantCost id _ => if (view.productVariant? id).isNone then some .recordNotFound else none
  | setPin id _ _ => if (view.user? id).isNone then some .recordNotFound else none
  | addStock id qty =>
    match view.stock? id with
    | none => some .recordNotFound
    | some r => qtyViolation (r.qty + qty)
  | setStock id qty => if (view.stock? id).isNone then some .recordNotFound else qtyViolation qty
  | insertStock _ _ qty => (qtyViolation qty).or (w.uniqueViolation view)
  | insertMovement _ => none
  | insertShift _ => w.uniqueViolation view
  | closeShift id _ _ _ => if (view.shift? id).isNone then some .recordNotFound else none
  | insertCashMovement row =>
    if (view.shift? row.shiftId).isNone then some .foreignKeyViolation
    else w.uniqueViolation view
  | insertSale row =>
    (w.uniqueViolation view).or
      (if row.shiftId.all (fun id => (view.shift? id).isSome)
          && (view.terminal? row.terminalId).isSome then none
        else some .foreignKeyViolation)
  | insertItem _ => none
  | insertPayment _ => w.uniqueViolation view
  | voidSale id _ _ => if (view.sale? id).isNone then some .recordNotFound else none
  | refundSale id _ _ _ => if (view.sale? id).isNone then some .recordNotFound else none

namespace PosCall

def execute (tag : Stmt) (w : Write) : PosCall Unit :=
  Call.write tag (fun _ => w.keys) fun view =>
    match w.violation view with
    | some e => .error e
    | none => .ok [w]

def target (tag : Stmt) (model : String) (found : Database → Bool) : PosCall Unit :=
  Call.check tag fun db =>
    if found db then .ok ()
    else .error (.tenantScope s!"{model}.update target not found within scope")

end PosCall

/-- What the proofs about the point of sale need of a logic. -/
structure PosEnv (l : Env Database Write Key Stmt) : Prop where
  rely : ∀ tag locks db db', l.Rely tag locks db db' → db.Rely locks db'
  valid : ∀ db, l.Inv db → db.Valid

/-- What a write about a sale has to come with in its transaction. -/
def Write.Fits (w : Write) (log : List Write) (db : Database) : Prop :=
  match w with
  | insertSale row => row.draft.id = row.id
  | insertMovement m =>
    (m.type = .sale → ∃ row, .insertSale row ∈ log ∧ row.id = m.refId ∧ row.branchId = m.branchId
        ∧ m.deletedAt = none)
      ∧ (m.type.isReversal → ∃ w ∈ log, w.reversed? = some m.refId)
  | voidSale id _ _ => ∃ s, db.sale? id = some s ∧ s.status = .completed
  | refundSale id _ _ _ => ∃ s, db.sale? id = some s ∧ s.status = .completed
  | _ => True

theorem qtyViolation_nonneg {qty : ℤ} (h : qtyViolation qty = none) : 0 ≤ qty := by
  unfold qtyViolation at h
  split at h
  . simp at h
  . split at h
    . simp at h
    . omega

theorem Write.stock_of_violation {w : Write} {view : Database} (h : w.violation view = none)
    (hview : ∀ id, NonNegative (view.stock? id)) (id : Uuid)
    : NonNegative ((w.apply view).stock? id) := by
  by_cases hkey : .branchStock id ∈ w.keys
  . cases w with
    | addStock id' qty =>
      have heq : id = id' := by simpa [keys, updated, added] using hkey
      subst heq
      unfold apply Database.stock?
      dsimp only
      rw [Table.get_modify_self]
      . cases hrow : view.stock? id with
        | none =>
          unfold Database.stock? at hrow
          rw [hrow]
          trivial
        | some r =>
          simp only [violation, hrow] at h
          unfold Database.stock? at hrow
          rw [hrow]
          exact qtyViolation_nonneg h
      . intro r
        rfl
    | setStock id' qty =>
      have heq : id = id' := by simpa [keys, updated, added] using hkey
      subst heq
      unfold apply Database.stock?
      dsimp only
      rw [Table.get_modify_self]
      . cases hrow : Table.get (·.id) view.branchStock id with
        | none => trivial
        | some r =>
          simp only [violation, Database.stock?, hrow, Option.isNone_some, Bool.false_eq_true,
            if_false] at h
          exact qtyViolation_nonneg h
      . intro r
        rfl
    | insertStock id' key qty =>
      unfold apply Database.stock?
      dsimp only
      rw [Table.get_append]
      have hqty : qtyViolation qty = none := by
        simp only [violation, Option.or_eq_none_iff] at h
        exact h.1
      have hold := hview id
      unfold Database.stock? at hold
      cases hrow : Table.get (·.id) view.branchStock id with
      | some r =>
        rw [hrow] at hold
        exact hold
      | none =>
        rw [Option.none_or]
        unfold Table.get
        rw [List.find?_singleton]
        split
        . exact qtyViolation_nonneg hqty
        . trivial
    | _ => simp [keys, updated, added] at hkey
  . rw [w.stock?_apply hkey]
    exact hview id

theorem Write.added_nodup (w : Write) : w.added.Nodup := by
  cases w <;> simp [added]

theorem Write.absent_of_uniqueViolation {w : Write} {view : Database}
    (h : w.uniqueViolation view = none) : ∀ e ∈ w.added, e ∉ view.entries := by
  intro e he hmem
  unfold uniqueViolation at h
  split at h
  . simp at h
  . next hnone =>
    apply hnone
    rw [List.any_eq_true]
    exact ⟨e, he, by simp [hmem]⟩

theorem Write.absent_of_violation {w : Write} {view : Database} (h : w.violation view = none)
    : ∀ e ∈ w.added, e ∉ view.entries := by
  cases w with
  | insertStock | insertSale =>
    simp only [violation, Option.or_eq_none_iff] at h
    apply absent_of_uniqueViolation
    simp [h]
  | insertShift | insertPayment => exact absent_of_uniqueViolation h
  | insertCashMovement =>
    simp only [violation] at h
    split at h
    . simp at h
    . exact absent_of_uniqueViolation h
  | _ => simp [added]

theorem Pending.snoc {log : List Write} {locks : List Key} {db : Database} {w : Write}
    (h : Pending log locks db) (hw : w.violation (replay log db) = none) (hfits : w.Fits log db)
    : Pending (log ++ [w]) (locks ++ w.keys) db where
  covered := by
    apply h.covered.append
    intro w' hw' k hk
    rw [List.mem_singleton] at hw'
    subst hw'
    exact hk
  unique := by
    rw [replay_append]
    apply h.unique.apply
    . exact w.added_nodup
    . exact Write.absent_of_violation hw
  stock := by
    rw [replay_append]
    exact Write.stock_of_violation hw h.stock
  drafts := by
    intro row hrow
    rw [List.mem_append, List.mem_singleton] at hrow
    cases hrow with
    | inl hrow => exact h.drafts row hrow
    | inr hrow =>
      subst hrow
      exact hfits
  saleMoves := by
    intro m hm htype
    rw [List.mem_append, List.mem_singleton] at hm
    have hrow : ∃ row, .insertSale row ∈ log ∧ row.id = m.refId ∧ row.branchId = m.branchId
        ∧ m.deletedAt = none := by
      cases hm with
      | inl hm => exact h.saleMoves m hm htype
      | inr hm =>
        subst hm
        exact hfits.1 htype
    obtain ⟨row, hrow, hid⟩ := hrow
    exact ⟨row, by simp [hrow], hid⟩
  reversals := by
    intro m hm htype
    rw [List.mem_append, List.mem_singleton] at hm
    have hw : ∃ w ∈ log, w.reversed? = some m.refId := by
      cases hm with
      | inl hm => exact h.reversals m hm htype
      | inr hm =>
        subst hm
        exact hfits.2 htype
    obtain ⟨w, hw, hid⟩ := hw
    exact ⟨w, by simp [hw], hid⟩
  completed := by
    intro w' hw' id hid
    rw [List.mem_append, List.mem_singleton] at hw'
    cases hw' with
    | inl hw' => exact h.completed w' hw' id hid
    | inr hw' =>
      subst hw'
      cases w' with
      | voidSale id' | refundSale id' =>
        have heq : id' = id := by simpa [Write.reversed?] using hid
        subst heq
        exact hfits
      | _ => simp [Write.reversed?] at hid

theorem policeRef_error {ctx : RequestContext} {model : String} {db : Database} {ref : Ref}
    {e : ApiError} (h : policeRef ctx model db ref = .error e) : ∃ message, e = .tenantScope message := by
  unfold policeRef at h
  split at h
  . cases h
  . cases h
    exact ⟨_, rfl⟩

theorem policeBranch_error {ctx : RequestContext} {model : String} {branchId : Uuid} {db : Database}
    {e : ApiError} (h : policeBranch ctx model branchId db = .error e)
    : ∃ message, e = .tenantScope message := by
  unfold policeBranch at h
  split at h
  . cases h
  . split at h
    . cases h
    . cases h
      exact ⟨_, rfl⟩

theorem policeCreateData_error {ctx : RequestContext} {model : String} {branchId : Uuid}
    {refs : List Ref} {db : Database} {e : ApiError}
    (h : policeCreateData ctx model branchId refs db = .error e)
    : ∃ message, e = .tenantScope message := by
  unfold policeCreateData at h
  rw [Checks.bind_eq_error] at h
  cases h with
  | inl hbranch => exact policeBranch_error hbranch
  | inr h =>
    obtain ⟨_, _, h⟩ := h
    rw [Checks.bind_eq_error] at h
    cases h with
    | inl hrefs =>
      obtain ⟨ref, _, href⟩ := Checks.forM_eq_error hrefs
      exact policeRef_error href
    | inr h =>
      obtain ⟨_, _, hpure⟩ := h
      cases hpure

/-- The branch of a row that a client creates stays the one it was given. -/
def RequestContext.Targets (ctx : RequestContext) (branchId : Uuid) : Prop :=
  ∀ id, ctx.terminalBranchId = some id → id = branchId

theorem RequestContext.Targets.unpinned {ctx : RequestContext} (h : ctx.terminalBranchId = none)
    (branchId : Uuid) : ctx.Targets branchId := by
  intro id hid
  rw [h] at hid
  cases hid

theorem RequestContext.Targets.terminal (ctx : TerminalContext)
    : ctx.request.Targets ctx.branchId := by
  intro id hid
  cases hid
  rfl

theorem policeCreateData_branch {ctx : RequestContext} {model : String} {branchId pinned : Uuid}
    {refs : List Ref} {db : Database} (htargets : ctx.Targets branchId)
    (h : policeCreateData ctx model branchId refs db = .ok pinned) : pinned = branchId := by
  unfold policeCreateData at h
  rw [Checks.bind_eq_ok] at h
  obtain ⟨id, hid, h⟩ := h
  rw [Checks.bind_eq_ok] at h
  obtain ⟨_, _, hpure⟩ := h
  cases hpure
  unfold policeBranch at hid
  split at hid
  . next hterminal =>
    cases hid
    exact htargets _ hterminal
  . split at hid
    . cases hid
      rfl
    . cases hid

/-- A later state of a client that has held `locks` since and has committed nothing. -/
structure Later (l : Env Database Write Key Stmt) (locks : List Key) (db db' : Database) : Prop
    where
  past : l.Past db db'
  rely : db.Rely locks db'
  inv : l.Inv db'
  valid : db'.Valid

namespace Later

variable {l : Env Database Write Key Stmt} {locks : List Key} {db db' db'' : Database}

theorem refl (hl : PosEnv l) (hinv : l.Inv db) (locks : List Key) : Later l locks db db where
  past := .refl
  rely := .refl locks db
  inv := hinv
  valid := hl.valid db hinv

theorem of_rely (hl : PosEnv l) {tag : Option Stmt} (h : l.Rely tag locks db db')
    (hinv : l.Inv db') : Later l locks db db' where
  past := .single ⟨tag, locks, h⟩
  rely := hl.rely _ _ _ _ h
  inv := hinv
  valid := hl.valid db' hinv

theorem trans {locks' : List Key} (h : Later l locks db db') (h' : Later l locks' db' db'')
    (hlocks : locks ⊆ locks' := by grind) : Later l locks db db'' where
  past := h.past.trans h'.past
  rely := h.rely.trans (h'.rely.weaken hlocks)
  inv := h'.inv
  valid := h'.valid

theorem seen {P : Database → Prop} (h : Later l locks db db') (hP : l.Seen P db) : l.Seen P db' :=
  hP.past h.past

theorem pending {log : List Write} (h : Later l locks db db') (hpending : Pending log locks db)
    : Pending log locks db' :=
  hpending.stable h.rely.kept h.valid

end Later

/-- One transaction has been committed, with a log that has property `P`. -/
def OneCommit (P : List Write → Database → Prop) (commits : List (Database × Database)) : Prop :=
  ∃ before log, P log before ∧ commits = [(before, replay log before)]

namespace PosCall

variable {l : Logic Database Write Key Stmt} {R : Type} {ok : Post Database Write Key R}
  {err : Post Database Write Key ApiError} {commits : List (Database × Database)}
  {log : List Write} {locks : List Key} {db : Database} {tag : Stmt}

theorem wp_query (hl : PosEnv l) {q : Database → R} (hmid : l.Mid commits)
    (h : ∀ db', Later l locks db db' → l.Assume tag log db' → ok (q db') commits log locks db')
    : Call.wp l (Call.query tag q) ok err commits log locks db := by
  apply Call.wp_query hmid
  intro db' hrely hinv hassume
  exact h db' (.of_rely hl hrely hinv) hassume

theorem wp_queryOnTx (hl : PosEnv l) {q : Database → R} (hmid : l.Mid commits)
    (h : ∀ db', Later l locks db db' → l.Assume tag log db' →
      ok (q (replay log db')) commits log locks db')
    : Call.wp l (Call.queryOnTx tag q) ok err commits log locks db := by
  apply Call.wp_queryOnTx hmid
  intro db' hrely hinv hassume
  exact h db' (.of_rely hl hrely hinv) hassume

theorem wp_selectForUpdate (hl : PosEnv l) {needs : Database → List Key} {q : Database → R}
    (hmid : l.Mid commits)
    (h : ∀ db', Later l locks db db' →
      ok (q (replay log db')) commits log (locks ++ needs (replay log db')) db')
    : Call.wp l (Call.selectForUpdate tag needs q) ok err commits log locks db := by
  apply Call.wp_selectForUpdate hmid
  intro db' hrely hinv _
  exact h db' (.of_rely hl hrely hinv)

theorem wp_check (hl : PosEnv l) {query : Database → Except ApiError R} (hmid : l.Mid commits)
    (hok : ∀ db' r, Later l locks db db' → l.Assume tag log db' → query db' = .ok r →
      ok r commits log locks db')
    (herr : ∀ db' e, Later l locks db db' → query db' = .error e → err e commits log locks db')
    : Call.wp l (Call.check tag query) ok err commits log locks db := by
  apply Call.wp_check hmid
  . intro db' r hrely hinv hassume hquery
    exact hok db' r (.of_rely hl hrely hinv) hassume hquery
  . intro db' e hrely hinv hquery
    exact herr db' e (.of_rely hl hrely hinv) hquery

theorem wp_executeAt (hl : PosEnv l) {w : Write} {ok : Post Database Write Key Unit}
    (hmid : l.Mid commits) (hpending : Pending log locks db)
    (hfits : ∀ db', Later l locks db db' → w.Fits log db')
    (hok : ∀ db', l.Rely (some tag) locks db db' → Later l locks db db' → l.Assume tag log db' →
      w.violation (replay log db') = none → Pending (log ++ [w]) (locks ++ w.keys) db' →
        ok () commits (log ++ [w]) (locks ++ w.keys) db')
    (herr : ∀ db' e, Later l locks db db' → w.violation (replay log db') = some e →
      err e commits log (locks ++ w.keys) db')
    : Call.wp l (execute tag w) ok err commits log locks db := by
  apply Call.wp_write hmid
  . intro db' ws hrely hinv hassume hcheck
    have hlater : Later l locks db db' := .of_rely hl hrely hinv
    split at hcheck
    . simp at hcheck
    . next hviolation =>
      simp only [Except.ok.injEq] at hcheck
      subst hcheck
      apply hok db' hrely hlater hassume hviolation
      exact (hlater.pending hpending).snoc hviolation (hfits db' hlater)
  . intro db' e hrely hinv hcheck
    split at hcheck
    . next hviolation =>
      simp only [Except.error.injEq] at hcheck
      subst hcheck
      exact herr db' _ (.of_rely hl hrely hinv) hviolation
    . simp at hcheck

theorem wp_execute (hl : PosEnv l) {w : Write} {ok : Post Database Write Key Unit}
    (hmid : l.Mid commits) (hpending : Pending log locks db)
    (hfits : ∀ db', Later l locks db db' → w.Fits log db')
    (hok : ∀ db', Later l locks db db' → l.Assume tag log db' →
      w.violation (replay log db') = none → Pending (log ++ [w]) (locks ++ w.keys) db' →
        ok () commits (log ++ [w]) (locks ++ w.keys) db')
    (herr : ∀ db' e, Later l locks db db' → w.violation (replay log db') = some e →
      err e commits log (locks ++ w.keys) db')
    : Call.wp l (execute tag w) ok err commits log locks db :=
  wp_executeAt hl hmid hpending hfits (fun db' _ => hok db') herr

theorem wp_target (hl : PosEnv l) {model : String} {found : Database → Bool}
    {ok : Post Database Write Key Unit} (hmid : l.Mid commits)
    (hok : ∀ db', Later l locks db db' → l.Assume tag log db' → found db' = true →
      ok () commits log locks db')
    (herr : ∀ db', Later l locks db db' → found db' = false →
      err (.tenantScope s!"{model}.update target not found within scope") commits log locks db')
    : Call.wp l (target tag model found) ok err commits log locks db := by
  apply wp_check hl hmid
  . intro db' _ hlater hassume hcheck
    split at hcheck
    . next hfound => exact hok db' hlater hassume hfound
    . simp at hcheck
  . intro db' e hlater hcheck
    split at hcheck
    . simp at hcheck
    . next hfound =>
      simp only [Except.error.injEq] at hcheck
      subst hcheck
      exact herr db' hlater (by simpa using hfound)

theorem wp_police (hl : PosEnv l) (hmid : l.Mid commits) {ctx : RequestContext} {branchId : Uuid}
    (htargets : ctx.Targets branchId) {model : String} {refs : List Ref}
    {ok : Post Database Write Key Uuid}
    (hok : ∀ db', Later l locks db db' → ok branchId commits log locks db')
    (herr : ∀ message db', Later l locks db db' → err (.tenantScope message) commits log locks db')
    : Call.wp l (Call.check tag (policeCreateData ctx model branchId refs)) ok err commits log locks
        db := by
  apply wp_check hl hmid
  . intro db' pinned hlater _ hquery
    rw [policeCreateData_branch htargets hquery]
    exact hok db' hlater
  . intro db' e hlater hquery
    obtain ⟨message, heq⟩ := policeCreateData_error hquery
    subst heq
    exact herr message db' hlater

end PosCall

end SentryPos
