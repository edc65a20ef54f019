import SentryPos.Pos.ExactlyOnce

/-!
This module contains the receipt sequence of a terminal over a run: it never decreases and stays ahead
of the numbers of all sales, as long as no sale writes it after it has gone past its own number.
-/

namespace SentryPos

open ReadCommitted

variable {ι : Type} [DecidableEq ι] {t : Uuid} {db db' : Database} {log : List Write}

def Database.receiptSeq (db : Database) (t : Uuid) : Option ℤ :=
  (db.terminal? t).map (·.receiptSeq)

def SeqGrows (t : Uuid) (db db' : Database) : Prop :=
  Option.Rel (· ≤ ·) (db.receiptSeq t) (db'.receiptSeq t)

/-- The sequence of the terminal is ahead of the number of each of its sales. -/
def Ahead (t : Uuid) (db : Database) : Prop :=
  ∀ s ∈ db.sales, s.terminalId = t → ∀ n, db.receiptSeq t = some n → seqOf s.receiptNo < n

/-- The sequence never decreases and is ahead in all committed databases of a run. -/
structure ContinuationPoint (t : Uuid) (db : Database) (c : System ι) : Prop where
  grows : ∀ e ∈ c.history, SeqGrows t e.before e.after
  ahead : ∀ d ∈ c.databases db, Ahead t d

/-- The steps that are no commits of a sequence that the terminal has gone past. -/
def NotPassed (t : Uuid) (c : System ι) (i : ι) (c' : System ι) : Prop :=
  c'.history.length ≠ c.history.length → ∀ n, .setReceiptSeq t n ∈ (c.procs i).log →
    ∀ current, c.db.receiptSeq t = some current → current ≤ n

theorem SeqGrows.of_eq (h : db'.receiptSeq t = db.receiptSeq t) : SeqGrows t db db' := by
  unfold SeqGrows
  rw [h]
  cases db.receiptSeq t with
  | none => exact .none
  | some n => exact .some le_rfl

theorem SeqGrows.trans {db'' : Database} (h : SeqGrows t db db') (h' : SeqGrows t db' db'')
    : SeqGrows t db db'' := by
  unfold SeqGrows at *
  generalize db.receiptSeq t = seq, db'.receiptSeq t = seq', db''.receiptSeq t = seq'' at h h'
  cases h with
  | none => exact h'
  | some hle =>
    cases h' with
    | some hle' => exact .some (hle.trans hle')

theorem SeqGrows.le (h : SeqGrows t db db') {n : ℤ} (hn : db'.receiptSeq t = some n)
    : ∃ m, db.receiptSeq t = some m ∧ m ≤ n := by
  unfold SeqGrows at h
  rw [hn] at h
  generalize db.receiptSeq t = seq at h
  cases h with
  | some hle => exact ⟨_, rfl, hle⟩

def Write.isNumbering : Write → Bool
  | setReceiptSeq .. | insertSale .. => true
  | _ => false

section Commits

variable {l : Env Database Write Key Stmt} {req : Request}

theorem Restock.not_numbering {key : StockKey} {qty : ℤ} {w : Write} (h : Restock db key qty w)
    : w.isNumbering = false := by
  cases h with
  | add => rfl
  | insert => rfl

theorem Reversed.not_numbering {ctx : TerminalContext} {id : Uuid} {type : MovementType} {s : Sale}
    {w : Write} (hw : w.reversed? = some id) (h : Reversed ctx id type s w log db)
    : ∀ w ∈ log, w.isNumbering = false := by
  obtain ⟨restores, hlog, hbatch⟩ := h.log
  intro w' hw'
  rw [hlog] at hw'
  cases List.mem_cons.mp hw' with
  | inl heq =>
    rw [heq]
    cases w <;> simp_all [Write.reversed?, Write.isNumbering]
  | inr hmem =>
    obtain ⟨m, _, ws, ⟨restock, hrestock, hws⟩, hmem⟩ := hbatch.mem hmem
    rw [hws] at hmem
    simp only [List.mem_cons, List.not_mem_nil, or_false] at hmem
    cases hmem with
    | inl hmem =>
      rw [hmem]
      exact hrestock.not_numbering
    | inr hmem =>
      rw [hmem]
      rfl

theorem Received.not_numbering {branchId operationId : Uuid} {line : ReceiveLineDto} {ws : List Write}
    (h : Received branchId operationId db line ws) : ∀ w ∈ ws, w.isNumbering = false := by
  obtain ⟨restock, costs, hrestock, hcosts, hws⟩ := h
  intro w hw
  rw [hws] at hw
  simp only [List.mem_cons] at hw
  rcases hw with hw | hw | hw
  . rw [hw]
    exact hrestock.not_numbering
  . rw [hw]
    rfl
  . obtain ⟨id, cost, hcost⟩ := hcosts w hw
    cases hcost with
    | inl hcost =>
      rw [hcost]
      rfl
    | inr hcost =>
      rw [hcost]
      rfl

theorem Request.Commit.numbering (h : req.Commit l log db)
    : (∀ w ∈ log, w.isNumbering = false)
        ∨ ∃ ctx dto now totals costByLine p, req = .completeSale ctx dto now
          ∧ log = Posting.log p ctx dto ∧ Posted ctx dto totals costByLine now p db (replay log db)
          ∧ Bumped l ctx.terminalId dto.receiptNo p.receiptSeq db := by
  have hone : ∀ w : Write, log = [w] → w.isNumbering = false → ∀ w ∈ log, w.isNumbering = false := by
    intro w hlog hw w' hw'
    rw [hlog, List.mem_singleton] at hw'
    rw [hw']
    exact hw
  cases h with
  | found => exact .inl (by simp)
  | posted haccepted hposted hbumped => exact .inr ⟨_, _, _, _, _, _, rfl, rfl, hposted, hbumped⟩
  | voided h =>
    obtain ⟨s, h, _⟩ := h.reversed
    exact .inl (h.not_numbering rfl)
  | refunded h =>
    obtain ⟨s, _, h, _⟩ := h.reversed
    exact .inl (h.not_numbering rfl)
  | pin h =>
    obtain ⟨_, _, _, hlog⟩ := h
    exact .inl (hone _ hlog rfl)
  | received h =>
    left
    intro w hw
    obtain ⟨line, _, ws, hws, hmem⟩ := h.mem hw
    exact hws.not_numbering w hmem
  | adjusted h =>
    obtain ⟨existing, w, movementId, hlog, hset, _⟩ := h.log
    left
    intro w' hw'
    rw [hlog] at hw'
    simp only [List.mem_cons, List.not_mem_nil, or_false] at hw'
    cases hw' with
    | inl hw' =>
      rw [hw']
      cases hset <;> rfl
    | inr hw' =>
      rw [hw']
      rfl
  | opened h => exact .inl (hone _ h.log rfl)
  | cashMoved h =>
    obtain ⟨_, hlog, _⟩ := h.moved
    exact .inl (hone _ hlog rfl)
  | closed h =>
    obtain ⟨_, _, _, _, _, _, _, _, _, _, _, hlog⟩ := h.closed
    exact .inl (hone _ hlog rfl)

def Database.numbers (db : Database) : List (Uuid × String) :=
  db.sales.map fun s => (s.terminalId, s.receiptNo)

theorem numbers_replay (h : ∀ w ∈ log, w.isNumbering = false) (db : Database)
    : (replay log db).numbers = db.numbers := by
  apply replay_induction (P := fun db' : Database => db'.numbers = db.numbers) rfl
  intro w hw db' hdb'
  rw [← hdb']
  have hnot := h w hw
  cases w with
  | setReceiptSeq | insertSale => cases hnot
  | voidSale | refundSale =>
    apply Table.map_modify
    intro s
    rfl
  | _ => rfl

theorem receiptSeq_replay (h : ∀ w ∈ log, ∀ id n, w ≠ .setReceiptSeq id n) (db : Database)
    : (replay log db).receiptSeq t = db.receiptSeq t := by
  unfold Database.receiptSeq
  rw [terminal?_replay h]

theorem not_setReceiptSeq (h : ∀ w ∈ log, w.isNumbering = false)
    : ∀ w ∈ log, ∀ id n, w ≠ .setReceiptSeq id n := by
  intro w hw id n heq
  have hnot := h w hw
  rw [heq] at hnot
  cases hnot

theorem Posting.set_of_mem {p : Posting} {ctx : TerminalContext} {dto : SaleDraftDto} {n : ℤ}
    (h : .setReceiptSeq t n ∈ p.log ctx dto) : ctx.terminalId = t ∧ p.receiptSeq = some n := by
  have hlast : p.receiptSeq = some n ∧ t = ctx.terminalId := by
    simpa [Posting.log, stockLog, saleLog, movementLog, eq_comm] using h
  exact ⟨hlast.2.symm, hlast.1⟩

theorem Posting.receiptSeq_log (p : Posting) (ctx : TerminalContext) (dto : SaleDraftDto)
    (db : Database) : (replay (p.log ctx dto) db).receiptSeq t
      = if ctx.terminalId = t then (db.receiptSeq t).map fun n => p.receiptSeq.getD n
        else db.receiptSeq t := by
  have hpre : ∀ w ∈ stockLog p.rows (wantedMilli dto.lines) ++ saleLog p.data
      ++ movementLog ctx dto.id (trackedLines dto.lines), ∀ id n, w ≠ .setReceiptSeq id n := by
    intro w hw id n heq
    rw [heq] at hw
    simp [stockLog, saleLog, movementLog] at hw
  unfold Posting.log
  rw [replay_append, ← receiptSeq_replay hpre db]
  generalize replay (stockLog p.rows (wantedMilli dto.lines) ++ saleLog p.data
    ++ movementLog ctx dto.id (trackedLines dto.lines)) db = db'
  cases p.receiptSeq with
  | none => simp
  | some n =>
    change (Table.get (·.id) (Table.modify (·.id) db'.terminals ctx.terminalId
      fun term => { term with receiptSeq := n }) t).map (·.receiptSeq) = _
    by_cases ht : ctx.terminalId = t
    . subst ht
      have hself : Table.get (·.id) (Table.modify (·.id) db'.terminals ctx.terminalId
          fun term => { term with receiptSeq := n }) ctx.terminalId
            = (db'.terminal? ctx.terminalId).map fun term => { term with receiptSeq := n } :=
        Table.get_modify_self fun _ => rfl
      rw [hself, if_pos rfl]
      unfold Database.receiptSeq
      rw [Option.map_map, Option.map_map]
      rfl
    . have hne : Table.get (·.id) (Table.modify (·.id) db'.terminals ctx.terminalId
          fun term => { term with receiptSeq := n }) t = db'.terminal? t :=
        Table.get_modify_ne (fun _ => rfl) (Ne.symm ht)
      rw [hne, if_neg ht]
      rfl

end Commits

section Runs

variable {reqs : ι → Request} {c : System ι}

theorem seq_after_commit {l : Env Database Write Key Stmt} {req : Request}
    (hcommit : req.Commit l log db)
    : (replay log db).receiptSeq t = db.receiptSeq t
        ∨ ∃ n, .setReceiptSeq t n ∈ log
            ∧ (replay log db).receiptSeq t = (db.receiptSeq t).map fun _ => n := by
  cases hcommit.numbering with
  | inl hnot => exact .inl (receiptSeq_replay (not_setReceiptSeq hnot) db)
  | inr hposted =>
    obtain ⟨ctx, dto, _, _, _, p, _, hlog, _, _⟩ := hposted
    have hafter := p.receiptSeq_log (t := t) ctx dto db
    rw [← hlog] at hafter
    split at hafter
    . next ht =>
      cases hseq : p.receiptSeq with
      | none =>
        left
        rw [hafter, hseq]
        cases db.receiptSeq t <;> rfl
      | some n =>
        refine .inr ⟨n, ?_, ?_⟩
        . rw [hlog, ← ht]
          simp [Posting.log, hseq]
        . rw [hafter, hseq]
          rfl
    . exact .inl hafter

theorem seq_of_commit {l : Env Database Write Key Stmt} {req : Request}
    (hcommit : req.Commit l log db)
    (hpassed : ∀ n, .setReceiptSeq t n ∈ log → ∀ current, db.receiptSeq t = some current → current ≤ n)
    : SeqGrows t db (replay log db) := by
  cases seq_after_commit (t := t) hcommit with
  | inl hsame => exact .of_eq hsame
  | inr hset =>
    obtain ⟨n, hmem, hafter⟩ := hset
    unfold SeqGrows
    rw [hafter]
    cases hcurrent : db.receiptSeq t with
    | none => exact .none
    | some current => exact .some (hpassed n hmem current hcurrent)

theorem keeps_receiptSeq (t : Uuid) (reqs : ι → Request)
    : Keeps (NotPassed t) reqs (fun _ => True)
        (fun _ _ db db' => SeqGrows t db db') fun _ _ _ => True where
  refl := by
    intro _ _ _
    exact .of_eq rfl
  trans := by
    intro _ _ _ _ _ h h'
    exact h.trans h'
  promised := by simp
  state := by simp
  commit := by
    intro c i tag next hallowed _ _ _ hcommit j _
    exact seq_of_commit hcommit (hallowed (by simp [Config.commit]))

theorem ahead_of_commit {req : Request}
    (hcommit : req.Commit (Env.ofRun (fun _ => True) (fun _ db db' => SeqGrows t db db')
      fun _ _ _ => True) log db)
    (hgrows : SeqGrows t db (replay log db)) (hahead : Ahead t db) : Ahead t (replay log db) := by
  intro s hs hterminal n' hn'
  obtain ⟨n, hn, hle⟩ := hgrows.le hn'
  have hold : (s.terminalId, s.receiptNo) ∈ db.numbers → seqOf s.receiptNo < n' := by
    intro hmem
    unfold Database.numbers at hmem
    obtain ⟨s', hs', heq⟩ := List.mem_map.mp hmem
    rw [Prod.mk.injEq] at heq
    have hlt := hahead s' hs' (heq.1.trans hterminal) n hn
    rw [heq.2] at hlt
    omega
  have hnumber : (s.terminalId, s.receiptNo) ∈ (replay log db).numbers :=
    List.mem_map_of_mem (f := fun s : Sale => (s.terminalId, s.receiptNo)) hs
  cases hcommit.numbering with
  | inl hnot =>
    rw [numbers_replay hnot] at hnumber
    exact hold hnumber
  | inr hposted =>
    obtain ⟨ctx, dto, now, totals, costByLine, p, _, hlog, hposted, hbumped⟩ := hposted
    unfold Database.numbers at hnumber
    rw [hposted.sales, List.map_append, List.mem_append] at hnumber
    cases hnumber with
    | inl hnumber => exact hold hnumber
    | inr hnumber =>
      have hbuilt := buildSaleData_ok hposted.data
      simp only [List.map_cons, List.map_nil, List.mem_singleton, Prod.mk.injEq] at hnumber
      rw [hbuilt.terminalId, hbuilt.receiptNo] at hnumber
      have ht : ctx.terminalId = t := hnumber.1.symm.trans hterminal
      have hafter := p.receiptSeq_log (t := t) ctx dto db
      rw [← hlog, hn', if_pos ht, hn, Option.map_some, Option.some.injEq] at hafter
      rw [hafter, hnumber.2]
      generalize p.receiptSeq = receiptSeq at hbumped ⊢
      cases hbumped with
      | set =>
        change seqOf dto.receiptNo < seqOf dto.receiptNo + 1
        omega
      | kept hseen =>
        -- The sequence that was read has grown since.
        obtain ⟨db0, hinv, hread, hpast⟩ := hseen
        have hsince : ∀ db1, (Env.ofRun (fun _ => True) (fun _ db db' => SeqGrows t db db')
            fun _ _ _ => True).Past db0 db1 → SeqGrows t db0 db1 := by
          intro db1 hpast
          induction hpast with
          | refl => exact .of_eq rfl
          | tail _ hstep ih =>
            obtain ⟨_, _, hrely⟩ := hstep
            exact ih.trans hrely.2
        obtain ⟨m, hm, hle'⟩ := (hsince db hpast).le hn
        unfold Database.receiptSeq at hm
        obtain ⟨term, hterm, heq⟩ := Option.map_eq_some_iff.mp hm
        rw [← ht] at hterm
        have hlt := hread term hterm
        change seqOf dto.receiptNo < n
        omega

/--
The sequence of a terminal never decreases and is ahead of the numbers of its sales, in every run in
which no sale sets it after it has gone past the successor of the sale's own number.
-/
theorem receipt_seq_ahead {db : Database} (hdb : db.Valid) (hahead : Ahead t db)
    (hrun : RunWhere (.error .aborted) (NotPassed t) (System.start db reqs) c)
    : ContinuationPoint t db c := by
  -- A commit that does not go back keeps the sequence ahead of all numbers.
  induction hrun with
  | refl =>
    constructor
    . intro e he
      cases he
    . intro d hd
      rw [List.mem_singleton.mp hd]
      exact hahead
  | @step c1 c2 i hrun hallowed hstep ih =>
    cases hstep with
    | exec | rollback | abort => exact ⟨ih.grows, ih.ahead⟩
    | @commit tag next hprog =>
      obtain ⟨_, hcommit⟩ := (keeps_receiptSeq t reqs).committing hdb trivial hrun hprog
      have hgrows : SeqGrows t c1.db (c1.view i) :=
        seq_of_commit hcommit (hallowed (by simp [Config.commit]))
      have hlast : c1.db ∈ c1.databases db := by
        have hchain : Chain db c1.history c1.db := hrun.chain
        apply hchain.keeps (P := fun d => d ∈ c1.databases db) _ List.mem_cons_self
        intro e he _
        exact List.mem_cons_of_mem db (List.mem_map_of_mem he)
      constructor
      . intro e he
        cases List.mem_append.mp he with
        | inl he => exact ih.grows e he
        | inr he =>
          rw [List.mem_singleton.mp he]
          exact hgrows
      . intro d hd
        have hd' : d ∈ c1.databases db ∨ d = c1.view i := by
          simpa [Config.databases, Config.commit, or_assoc] using hd
        cases hd' with
        | inl hd' => exact ih.ahead d hd'
        | inr hd' =>
          rw [hd']
          exact ahead_of_commit hcommit hgrows (ih.ahead c1.db hlast)

/--
The steps that set no sequence above the successor of the number of another sale that has read it and
has not committed.
-/
def Unsurpassed (t : Uuid) (reqs : ι → Request) (c : System ι) (i : ι) (c' : System ι) : Prop :=
  c'.history.length ≠ c.history.length → ∀ n, .setReceiptSeq t n ∈ (c.procs i).log →
    ∀ j, j ≠ i → ∀ ctx dto now, reqs j = .completeSale ctx dto now → ctx.terminalId = t →
      ∀ stmt, (c.procs j).prog.tag? = some stmt → stmt.afterTerminal → n ≤ seqOf dto.receiptNo + 1

/-- The sequence of the terminal is at most the successor of the number. -/
def AtMostNext (t : Uuid) (receiptNo : String) (db : Database) : Prop :=
  ∀ n, db.receiptSeq t = some n → n ≤ seqOf receiptNo + 1

/-- What a sale of the terminal relies on that has read the sequence. -/
def keepsAtMostNext (t : Uuid) (req : Request) (tag : Option Stmt) (db db' : Database) : Prop :=
  ∀ ctx dto now, req = .completeSale ctx dto now → ctx.terminalId = t →
    ∀ stmt, tag = some stmt → stmt.afterTerminal →
      AtMostNext t dto.receiptNo db → AtMostNext t dto.receiptNo db'

theorem keeps_unsurpassed (t : Uuid) (reqs : ι → Request)
    : Keeps (Unsurpassed t reqs) reqs (fun _ => True) (fun i => keepsAtMostNext t (reqs i))
        fun _ _ _ => True where
  refl := by
    intro _ _ _ _ _ _ _ _ _ _ _ h
    exact h
  trans := by
    intro _ _ _ _ _ h h' ctx dto now hreq ht stmt htag hstmt hdb
    exact h' ctx dto now hreq ht stmt htag hstmt (h ctx dto now hreq ht stmt htag hstmt hdb)
  promised := by simp
  state := by simp
  commit := by
    intro c i tag next hallowed _ _ _ hcommit j hj ctx dto now hreq ht stmt htag hstmt hbefore n hn
    cases seq_after_commit (t := t) hcommit with
    | inl hsame =>
      apply hbefore
      rw [← hsame]
      exact hn
    | inr hset =>
      obtain ⟨n', hmem, hafter⟩ := hset
      have hle := hallowed (by simp [Config.commit]) n' hmem j hj ctx dto now hreq ht stmt htag hstmt
      change (replay (c.procs i).log c.db).receiptSeq t = some n at hn
      rw [hafter] at hn
      obtain ⟨_, _, rfl⟩ := Option.map_eq_some_iff.mp hn
      exact hle

theorem atMostNext_of_pastAt {ctx : TerminalContext} {dto : SaleDraftDto} {now : DateTime}
    (ht : ctx.terminalId = t)
    (hpast : (Env.ofRun (fun _ => True) (keepsAtMostNext t (.completeSale ctx dto now))
      fun _ _ _ => True).PastAt (·.afterTerminal) db db')
    (h : AtMostNext t dto.receiptNo db) : AtMostNext t dto.receiptNo db' := by
  induction hpast with
  | refl => exact h
  | tail _ hstep ih =>
    obtain ⟨stmt, _, hstmt, hrely⟩ := hstep
    exact hrely.2 ctx dto now rfl ht stmt rfl hstmt ih

/-- A sale without a larger number committed since it has read the sequence does not go back. -/
theorem notPassed_of_unsurpassed {db : Database} (hdb : db.Valid)
    (hrun : RunWhere (.error .aborted) (Unsurpassed t reqs) (System.start db reqs) c)
    : RunWhere (.error .aborted) (NotPassed t) (System.start db reqs) c := by
  induction hrun with
  | refl => exact .refl
  | @step c1 c2 i hrun hallowed hstep ih =>
    apply ih.step _ hstep
    intro hlength n hn current hcurrent
    cases hstep with
    | exec | rollback | abort => exact absurd rfl hlength
    | @commit tag next hprog =>
      obtain ⟨_, hcommit⟩ := (keeps_unsurpassed t reqs).committing hdb trivial hrun hprog
      generalize hreq : reqs i = req at hcommit
      generalize hlog : (c1.procs i).log = log at hn hcommit
      cases hcommit.numbering with
      | inl hnot => exact absurd rfl (not_setReceiptSeq hnot _ hn t n)
      | inr hposted =>
        obtain ⟨ctx, dto, now, _, _, p, rfl, rfl, _, hbumped⟩ := hposted
        obtain ⟨ht, hseq⟩ := Posting.set_of_mem hn
        rw [hseq] at hbumped
        -- Only a sale that has read a sequence up to its own number sets one.
        cases hbumped with
        | set hread hpast =>
          apply atMostNext_of_pastAt ht hpast _ current hcurrent
          intro m hm
          obtain ⟨term, hterm, rfl⟩ := Option.map_eq_some_iff.mp hm
          rw [← ht] at hterm
          have hle := hread term hterm
          omega

/-- The check that a step is no commit of a sequence that the terminal has gone past. -/
def notPassed (t : Uuid) (c : System ι) (i : ι) : Bool :=
  (c.procs i).log.all fun w =>
    match w with
    | .setReceiptSeq id n => id ≠ t || (c.db.receiptSeq t).all (· ≤ n)
    | _ => true

omit [DecidableEq ι] in
theorem notPassed_sound {c c' : System ι} {i : ι} (h : notPassed t c i) : NotPassed t c i c' := by
  intro _ n hn current hcurrent
  unfold notPassed at h
  rw [List.all_eq_true] at h
  simpa [hcurrent] using h _ hn

end Runs

namespace Cafe

def untracked (id : Uuid) (receiptNo : String) (receiptNo_length : receiptNo.length ≤ 120)
    : SaleDraftDto :=
  { draft id receiptNo receiptNo_length with
    lines := [{ line with
      trackStock := false
      qty_pos := line.qty_pos
      qty_le := line.qty_le
      unitPriceC_nonneg := line.unitPriceC_nonneg
      unitPriceC_le := line.unitPriceC_le
      priceDeltaC_ge := line.priceDeltaC_ge
      priceDeltaC_le := line.priceDeltaC_le }]
    receiptNo_length
    lines_ne := by simp }

def twoDrafts : Bool → Request
  | true => .completeSale terminal (untracked 8 "T1-000009" (by decide)) 100
  | false => .completeSale terminal (untracked 9 "T1-000004" (by decide)) 100

def twoSales : System Bool :=
  System.start database twoDrafts

/-- The first sale reads the sequence, the second does, then each sets it. -/
def lostUpdate : List Bool :=
  List.replicate 10 true ++ List.replicate 10 false ++ List.replicate 2 true ++ List.replicate 2 false

def inTurn : List Bool :=
  List.replicate 12 true ++ List.replicate 11 false

theorem twoSales_lost
    : (twoSales.turns lostUpdate).map (fun c => (c.db.receiptSeq 30, c.db.numbers))
        =
      some (some 5, [(30, "T1-000009"), (30, "T1-000004")]) := by
  decide +kernel

theorem twoSales_inTurn
    : (twoSales.turnsWhere (notPassed 30) inTurn).map (fun c => (c.db.receiptSeq 30, c.db.numbers))
        =
      some (some 10, [(30, "T1-000009"), (30, "T1-000004")]) := by
  decide +kernel

theorem database_ahead : Ahead 30 database := by
  intro s hs
  cases hs

end Cafe

/-- Two sales of a terminal that overlap leave its sequence behind the number of the first. -/
theorem receipt_seq_behind
    : ¬ ∀ (t : Uuid) (db : Database) (reqs : Bool → Request) (c : System Bool), db.Valid →
        Ahead t db → (∀ i, ∃ ctx dto now, reqs i = .completeSale ctx dto now) →
          Run (.error .aborted) (System.start db reqs) c → ContinuationPoint t db c := by
  intro hall
  have hlost := Cafe.twoSales_lost
  rw [Option.map_eq_some_iff] at hlost
  obtain ⟨c, hturns, hfacts⟩ := hlost
  rw [Prod.mk.injEq] at hfacts
  have hrun : Run (.error .aborted) Cafe.twoSales c := Config.run_of_turns _ _ hturns
  have hreqs : ∀ i, ∃ ctx dto now, Cafe.twoDrafts i = .completeSale ctx dto now := by
    intro i
    cases i <;> exact ⟨_, _, _, rfl⟩
  have hpoint := hall 30 _ _ c Cafe.database_valid Cafe.database_ahead hreqs hrun
  have hahead : Ahead 30 c.db := by
    apply hrun.chain.keeps (P := Ahead 30) _ Cafe.database_ahead
    intro e he _
    exact hpoint.ahead _ (List.mem_cons_of_mem _ (List.mem_map_of_mem he))
  have hfirst : (30, "T1-000009") ∈ c.db.numbers := by
    rw [hfacts.2]
    exact List.mem_cons_self
  obtain ⟨s, hs, heq⟩ := List.mem_map.mp hfirst
  rw [Prod.mk.injEq] at heq
  have hlt := hahead s hs heq.1 5 hfacts.1
  rw [heq.2] at hlt
  revert hlt
  decide +kernel

theorem receipt_seq_ahead_cafe
    : ∃ c, Cafe.twoSales.turnsWhere (notPassed 30) Cafe.inTurn = some c
        ∧ c.db.receiptSeq 30 = some 10 ∧ ContinuationPoint 30 Cafe.database c := by
  have hturn := Cafe.twoSales_inTurn
  rw [Option.map_eq_some_iff] at hturn
  obtain ⟨c, hturns, hfacts⟩ := hturn
  rw [Prod.mk.injEq] at hfacts
  have hcheck : ∀ (c : System Bool) i c', notPassed 30 c i → c.turn i = some c' →
      NotPassed 30 c i c' :=
    fun _ _ _ hcheck _ => notPassed_sound hcheck
  have hrun : RunWhere (.error .aborted) (NotPassed 30) Cafe.twoSales c :=
    Config.run_of_turnsWhere _ hcheck _ hturns
  exact ⟨c, hturns, hfacts.1, receipt_seq_ahead Cafe.database_valid Cafe.database_ahead hrun⟩

end SentryPos
