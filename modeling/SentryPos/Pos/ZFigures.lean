import SentryPos.Pos.Books
import SentryPos.Pos.ExactlyOnce

/-!
This module contains what is true of the figures of a closed shift: they stay right as long as
nothing is booked on the shift once a close has read its books, which the code does not ensure.
-/

namespace SentryPos

open ReadCommitted

variable {ι : Type} [DecidableEq ι] {reqs : ι → Request} {c : System ι} {db db' : Database}
  {log : List Write}

def CloseStmt.hasRead (stmt : CloseStmt) (book : Book) : Bool :=
  match stmt, book with
  | _, .cashMovements => true
  | .sales, .sales => false
  | _, .sales => true
  | .sales, .refunds | .refunds, .refunds => false
  | _, .refunds => true

def Stmt.hasRead (tag : Stmt) (book : Book) (shiftId : Uuid) : Prop :=
  ∃ stmt : CloseStmt, tag = .close shiftId stmt ∧ stmt.hasRead book

/-- The stored figure of every closed shift is the one that its rows give. -/
def Database.Settled (db : Database) : Prop :=
  ∀ sh ∈ db.shifts, sh.closedAt ≠ none → sh.expectedCash = some (db.totalsOf sh).expectedCashC

/--
A commit that books on a shift finds the shift open, and no other request is closing the shift that
has read the book before.
-/
def BooksInTime (c : System ι) (i : ι) (_ : System ι) : Prop :=
  ∀ tag next, (c.procs i).prog = .commit tag next →
    ∀ book S, (book, S) ∈ bookedBy (c.procs i).log c.db →
      (∃ sh, c.db.shift? S = some sh ∧ sh.closedAt = none)
        ∧ ∀ j, j ≠ i → ∀ t, (c.procs j).prog.tag? = some t → ¬ t.hasRead book S

def keepsBooks (tag : Option Stmt) (db db' : Database) : Prop :=
  ∀ t book S, tag = some t → t.hasRead book S → SameBook book S db db'

theorem keeps_books (reqs : ι → Request) (states : Database → Prop)
    : Keeps (fun c i next => BooksInTime c i next ∧ states next.db) reqs states
        (fun _ => keepsBooks) fun _ _ _ => True where
  refl := by
    intro _ tag db t book S _ _
    exact .refl book S db
  trans := by
    intro _ tag db db' db'' h h' t book S ht hread
    exact (h t book S ht hread).trans (h' t book S ht hread)
  promised := by simp
  state := by
    intro c i next h
    exact h.2
  commit := by
    intro c i tag next hallowed hdb hprog _ hcommit j hj t book S ht hread
    by_cases hbook : (book, S) ∈ bookedBy (c.procs i).log c.db
    . have hintime := (hallowed.1 tag next hprog book S hbook).2 j hj t ht
      exact absurd hread hintime
    . exact hcommit.sameBook hdb book hbook

theorem pastAt_sameBook {states : Database → Prop} {S : Uuid} {stmts : List CloseStmt} {book : Book}
    (hread : ∀ stmt ∈ stmts, stmt.hasRead book)
    (h : (Env.ofRun states keepsBooks fun _ _ _ => True).PastAt (Stmt.closesAt S stmts) db db')
    : SameBook book S db db' := by
  induction h with
  | refl => exact .refl book S db
  | tail _ hstep ih =>
    obtain ⟨tag, locks, ⟨stmt, hstmt, htag⟩, hrely⟩ := hstep
    exact ih.trans (hrely.2 tag book S rfl ⟨stmt, htag, hread stmt hstmt⟩)

section Commit

variable {l : Env Database Write Key Stmt} {req : Request}

theorem settled_other (hcommit : req.Commit l log db) (hdb : db.Valid) (hsettled : db.Settled)
    (hopen : ∀ book S, (book, S) ∈ bookedBy log db → ∃ sh, db.shift? S = some sh ∧ sh.closedAt = none)
    {sh : Shift} (hsh : sh ∈ db.shifts) (hclosed : sh.closedAt ≠ none)
    : sh.expectedCash = some ((replay log db).totalsOf sh).expectedCashC := by
  have hbooks : ∀ book, SameBook book sh.id db (replay log db) := by
    intro book
    apply hcommit.sameBook hdb
    intro hbook
    obtain ⟨sh', hsh', hopen'⟩ := hopen book sh.id hbook
    have hget := Table.get_of_mem hdb.shift_ids_nodup hsh
    unfold Database.shift? at hsh'
    rw [hget, Option.some.injEq] at hsh'
    rw [hsh'] at hclosed
    exact hclosed hopen'
  rw [hsettled sh hsh hclosed, totalsOf_congr rfl rfl hbooks]

theorem Closed.settled {ctx : TerminalContext} {dto : CloseShiftDto} {closedAt : DateTime}
    (h : Closed (Env.ofRun Database.Booked keepsBooks fun _ _ _ => True) ctx dto closedAt log db)
    (hdb : db.Valid) (hsettled : db.Settled)
    (hcommit : req.Commit (Env.ofRun Database.Booked keepsBooks fun _ _ _ => True) log db)
    : (replay log db).Settled := by
  obtain ⟨shift, db1, db2, db3, hfound, hinv1, hinv2, hinv3, hpast2, hpast3, hpast, hlog⟩ := h.closed
  have hnone : bookedBy log db = [] := by
    rw [hlog]
    rfl
  have hshifts : (replay log db).shifts = Table.modify (·.id) db.shifts shift.id fun sh =>
      sh.close closedAt dto.countedCashC (computeShiftTotals (withMovements db1 shift)
        (findSalesOfShift ctx shift.id db2) (findRefundsOfShift ctx shift.id db3)).expectedCashC := by
    rw [hlog]
    rfl
  intro sh hsh hclosed
  rw [hshifts] at hsh
  cases Table.mem_modify hsh with
  | inl hsh =>
    apply settled_other hcommit hdb hsettled _ hsh.2 hclosed
    rw [hnone]
    simp
  | inr hsh =>
    obtain ⟨sh0, hsh0, hid, heq⟩ := hsh
    obtain ⟨hshift1, _, hbranch, _⟩ := findOpenShift_some hinv1.1 hfound
    have hgrows12 := Env.ofRun_pos.past_grows (Env.past_of_pastAt hpast2)
    have hgrows23 := Env.ofRun_pos.past_grows (Env.past_of_pastAt hpast3)
    have hgrows3 := Env.ofRun_pos.past_grows (Env.past_of_pastAt hpast)
    have hsame : ∀ book, SameBook book shift.id db (replay log db) := by
      intro book
      apply hcommit.sameBook hdb
      rw [hnone]
      simp
    -- Each book is the same from the close's read of it to its commit.
    have hmovements : SameBook .cashMovements shift.id db1 (replay log db) :=
      (pastAt_sameBook (by simp [CloseStmt.hasRead]) hpast2).trans
        ((pastAt_sameBook (by simp [CloseStmt.hasRead]) hpast3).trans
          ((pastAt_sameBook (by simp [CloseStmt.hasRead]) hpast).trans (hsame .cashMovements)))
    have hsales : SameBook .sales shift.id db2 (replay log db) :=
      (pastAt_sameBook (by simp [CloseStmt.hasRead]) hpast3).trans
        ((pastAt_sameBook (by simp [CloseStmt.hasRead]) hpast).trans (hsame .sales))
    have hrefunds : SameBook .refunds shift.id db3 (replay log db) :=
      (pastAt_sameBook (by simp [CloseStmt.hasRead]) hpast).trans (hsame .refunds)
    -- The rows that it has read are all that name the shift.
    obtain ⟨sh2, hsh2, hbranch2⟩ := hgrows12.shift_branch hshift1
    obtain ⟨sh3, hsh3, hbranch3⟩ := hgrows23.shift_branch hsh2
    have hfind2 := (hinv2.2.findSales hsh2 (hbranch2.trans hbranch)).1
    have hfind3 := (hinv3.2.findSales hsh3 (hbranch3.trans (hbranch2.trans hbranch))).2
    have hopening : sh0.opening = shift.opening := by
      obtain ⟨sh', hsh', hopening⟩ :=
        (hgrows12.trans (hgrows23.trans hgrows3)).shift shift.id shift hshift1
      have hget := Table.get_of_mem hdb.shift_ids_nodup hsh0
      unfold Database.shift? at hsh'
      rw [hid, hsh', Option.some.injEq] at hget
      rw [← hget]
      exact hopening
    have hcash : sh.openingCash = shift.openingCash := by
      have hcolumn : sh0.opening.openingCash = shift.opening.openingCash := by
        rw [hopening]
      rw [heq]
      exact hcolumn
    have hid' : sh.id = shift.id := by
      rw [heq]
      exact hid
    rw [totalsOf_eq hid' hcash hmovements hsales hrefunds, ← hfind2, ← hfind3, heq]
    rfl

theorem settled_commit
    (hcommit : req.Commit (Env.ofRun Database.Booked keepsBooks fun _ _ _ => True) log db)
    (hdb : db.Valid) (hsettled : db.Settled)
    (hopen : ∀ book S, (book, S) ∈ bookedBy log db →
      ∃ sh, db.shift? S = some sh ∧ sh.closedAt = none)
    : (replay log db).Settled := by
  rcases hcommit.shifts with hnone | ⟨ctx, dto, shiftId, now, hopened⟩ | ⟨ctx, dto, closedAt, hclosed⟩
  . intro sh hsh hclosed
    rw [shifts_replay hnone] at hsh
    exact settled_other hcommit hdb hsettled hopen hsh hclosed
  . have hshifts : (replay log db).shifts = db.shifts ++ [openedShift ctx dto shiftId now] := by
      rw [hopened.log]
      rfl
    intro sh hsh hclosed
    rw [hshifts, List.mem_append, List.mem_singleton] at hsh
    cases hsh with
    | inl hsh => exact settled_other hcommit hdb hsettled hopen hsh hclosed
    | inr hsh =>
      rw [hsh] at hclosed
      exact absurd rfl hclosed
  . exact hclosed.settled hdb hsettled hcommit

end Commit

theorem booked_run {allowed : System ι → ι → System ι → Prop} (hdb : db.Valid) (hbooked : db.Booked)
    (hrun : RunWhere (.error .aborted) allowed (System.start db reqs) c)
    : RunWhere (.error .aborted) (fun c i next => allowed c i next ∧ next.db.Booked)
        (System.start db reqs) c := by
  induction hrun with
  | refl => exact .refl
  | step hrun hallowed hstep ih =>
    apply RunWhere.step ih _ hstep
    refine ⟨hallowed, ?_⟩
    have hnext : Run _ (System.start db reqs) _ := .step hrun.toRun trivial hstep
    exact (run_keeps hdb hnext (fun _ _ _ hevent => hevent.booked Env.ofRun_pos) hbooked).1

/--
In every run that books in time the stored figure of every closed shift stays the one that the rows
give.
-/
theorem z_figures_final (reqs : ι → Request) (hdb : db.Valid) (hbooked : db.Booked)
    (hsettled : db.Settled)
    (hrun : RunWhere (.error .aborted) BooksInTime (System.start db reqs) c) : c.db.Settled := by
  have hkeeps := keeps_books reqs Database.Booked
  have hbooks := booked_run hdb hbooked hrun
  clear hrun
  -- Only a commit changes rows, and it books in time.
  induction hbooks with
  | refl => exact hsettled
  | @step c' c'' i hrun hallowed hstep ih =>
    cases hstep with
    | exec | rollback | abort => exact ih
    | @commit tag next hprog =>
      have hok := hkeeps.ok hdb hbooked hrun
      obtain ⟨_, hcommit⟩ := hkeeps.committing hdb hbooked hrun hprog
      apply settled_commit hcommit hok.inv.1 ih
      intro book S hbook
      exact (hallowed.1 tag next hprog book S hbook).1

/-- `BooksInTime` as a check. -/
def booksInTime [Fintype ι] (c : System ι) (i : ι) : Bool :=
  match (c.procs i).prog with
  | .commit _ _ =>
    (bookedBy (c.procs i).log c.db).all fun booked =>
      (c.db.shift? booked.2).any (·.closedAt.isNone)
        && decide (∀ j, j ≠ i →
          ((c.procs j).prog.tag?.any fun
            | .close S stmt => S = booked.2 && stmt.hasRead booked.1
            | _ => false) = false)
  | _ => true

omit [DecidableEq ι] in
theorem booksInTime_sound [DecidableEq ι] [Fintype ι] {c' : System ι} {i : ι}
    (h : booksInTime c i) : BooksInTime c i c' := by
  intro tag next hprog book S hbook
  unfold booksInTime at h
  rw [hprog] at h
  simp only [List.all_eq_true, Bool.and_eq_true, decide_eq_true_eq] at h
  obtain ⟨hopen, hothers⟩ := h (book, S) hbook
  constructor
  . rw [Option.any_eq_true] at hopen
    obtain ⟨sh, hsh, hclosed⟩ := hopen
    exact ⟨sh, hsh, by simpa using hclosed⟩
  . intro j hj t ht hread
    obtain ⟨stmt, htag, hstmt⟩ := hread
    have hnot := hothers j hj
    rw [ht, htag] at hnot
    simp [hstmt] at hnot

namespace Cafe

theorem database_booked : database.Booked where
  shift := by simp [database]
  refund := by simp [database]
  total := by simp [database]
  paid := by simp [database]
  payments := by simp [database]

theorem database_settled : database.Settled := by
  simp [Database.Settled, database, shift]

def closing : System Bool :=
  System.start database fun isSale =>
    if isSale then .completeSale terminal sale 100
    else .closeShift terminal ⟨0, zeroC_nonneg, zeroC_le⟩ 500

/-- The stored figure of the shift and the one that the rows give. -/
def figures (db : Database) : Option (Option ℤ × ℤ) :=
  (db.shifts.find? (·.closedAt.isSome)).map fun sh =>
    (sh.expectedCash, (db.totalsOf sh).expectedCashC)

theorem closing_late
    : (closing.turns (List.replicate 4 true ++ List.replicate 7 false ++ List.replicate 13 true)).map
          (figures ·.db)
        =
      some (some (some 0, 200)) := by
  decide +kernel

theorem closing_inTime
    : (closing.turnsWhere booksInTime (List.replicate 17 true ++ List.replicate 7 false)).map
          (figures ·.db)
        =
      some (some (some 200, 200)) := by
  decide +kernel

end Cafe

/-- A sale that passed its check before the close may commit after it. -/
theorem z_figures_not_final
    : ¬ ∀ (reqs : Bool → Request) (db : Database) (c : System Bool), db.Valid → db.Booked →
        db.Settled → Run (.error .aborted) (System.start db reqs) c → c.db.Settled := by
  intro hall
  have hlate := Cafe.closing_late
  rw [Option.map_eq_some_iff] at hlate
  obtain ⟨c, hturns, hfigures⟩ := hlate
  have hsettled := hall _ _ c Cafe.database_valid Cafe.database_booked Cafe.database_settled
    (Config.run_of_turns _ _ hturns)
  unfold Cafe.figures at hfigures
  rw [Option.map_eq_some_iff] at hfigures
  obtain ⟨sh, hfind, hfigures⟩ := hfigures
  have hclosed : sh.closedAt ≠ none := by
    have hfound := List.find?_some hfind
    intro hnone
    rw [hnone] at hfound
    cases hfound
  have hright := hsettled sh (List.mem_of_find?_eq_some hfind) hclosed
  rw [Prod.mk.injEq] at hfigures
  rw [hfigures.1, hfigures.2] at hright
  simp at hright

theorem z_figures_final_cafe
    : ∃ c, Cafe.closing.turnsWhere booksInTime (List.replicate 17 true ++ List.replicate 7 false)
          = some c
        ∧ Cafe.figures c.db = some (some 200, 200)
        ∧ c.db.Settled := by
  have hintime := Cafe.closing_inTime
  rw [Option.map_eq_some_iff] at hintime
  obtain ⟨c, hturns, hfigures⟩ := hintime
  have hrun : RunWhere (.error .aborted) BooksInTime Cafe.closing c :=
    Config.run_of_turnsWhere _ (fun _ _ _ hcheck _ => booksInTime_sound hcheck) _ hturns
  have hsettled := z_figures_final _ Cafe.database_valid Cafe.database_booked Cafe.database_settled
    hrun
  exact ⟨c, hturns, hfigures, hsettled⟩

end SentryPos
