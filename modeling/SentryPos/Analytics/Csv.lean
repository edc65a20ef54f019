import SentryPos.Js.Number
import SentryPos.Rfc4180

/-!
This module contains the writer of the exports and the proof that a reader of RFC 4180 gets back the
records it was given.
-/

namespace SentryPos.Analytics

inductive Cell where
  | string (s : String)
  | number (n : JsNumber)
  | null
  deriving DecidableEq

structure CsvSection where
  title : Option String
  columns : List String
  rows : List (List Cell)
  deriving DecidableEq

def BOM : String := "\ufeff"

def EOL : String := "\r\n"

section Write

-- what `String()` makes of a number
variable (numberText : JsNumber → String)

def Cell.text : Cell → String
  | string s => s
  | number n => numberText n
  | null => ""

/-- `s.replace(/"/g, '""')` -/
def doubleQuotes (s : String) : String :=
  String.ofList (s.toList.flatMap fun c => if c = '\x22' then ['\x22', '\x22'] else [c])

def escapeField (value : Cell) : String :=
  match value with
  | .null => ""
  | value =>
    let s := value.text numberText
    let special := s.toList.any fun c => c = '\x22' || c = ',' || c = '\r' || c = '\n'
    if special then "\"" ++ doubleQuotes s ++ "\"" else s

/-- The lines of a section, the empty one before it included. -/
def CsvSection.lines (sect : CsvSection) (index : Nat) : List String :=
  (if 0 < index then [""] else [])
    ++ (sect.title.map fun title => escapeField numberText (.string title)).toList
    ++ [",".intercalate (sect.columns.map fun column => escapeField numberText (.string column))]
    ++ sect.rows.map fun row => ",".intercalate (row.map (escapeField numberText))

def toCsv (sections : List CsvSection) : String :=
  let lines := sections.zipIdx.flatMap fun (sect, index) => sect.lines numberText index
  BOM ++ EOL.intercalate lines ++ EOL

/-- The records that a section stands for. -/
def CsvSection.records (sect : CsvSection) (index : Nat) : List (List String) :=
  (if 0 < index then [[""]] else [])
    ++ (sect.title.map fun title => [title]).toList
    ++ [sect.columns]
    ++ sect.rows.map fun row => row.map (Cell.text numberText)

end Write

section Read

variable {numberText : JsNumber → String}

theorem written_escapeField (value : Cell)
    : Rfc4180.Written (value.text numberText).toList (escapeField numberText value).toList := by
  have hnonnull : ∀ s : String, Rfc4180.Written s.toList
      (if s.toList.any fun c => c = '\x22' || c = ',' || c = '\r' || c = '\n'
        then "\"" ++ doubleQuotes s ++ "\"" else s).toList := by
    intro s
    split
    . have hquoted : ("\"" ++ doubleQuotes s ++ "\"").toList =
          Rfc4180.QUOTE :: (Rfc4180.doubled s.toList ++ [Rfc4180.QUOTE]) := by
        unfold doubleQuotes
        simp only [String.toList_append, String.toList_ofList]
        rfl
      rw [hquoted]
      exact .quoted
    . next hspecial =>
      apply Rfc4180.Written.plain
      intro c hc
      rw [Bool.not_eq_true, List.any_eq_false] at hspecial
      have hnot := hspecial c hc
      rw [Bool.not_eq_true] at hnot
      exact hnot
  cases value with
  | string s => exact hnonnull s
  | number n => exact hnonnull (numberText n)
  | null =>
    apply Rfc4180.Written.plain
    simp [Cell.text]

def ended (lines : List String) : List Char :=
  lines.flatMap fun line => line.toList ++ EOL.toList

theorem toList_intercalate_ended {lines : List String} (h : lines ≠ [])
    : (EOL.intercalate lines ++ EOL).toList = ended lines := by
  induction lines with
  | nil => exact absurd rfl h
  | cons line lines ih =>
    unfold ended at ih ⊢
    rw [List.flatMap_cons]
    by_cases hnil : lines = []
    . rw [hnil]
      simp [String.toList_append]
    . rw [String.intercalate_cons_of_ne_nil hnil, ← ih hnil]
      simp only [String.toList_append, List.append_assoc]

def Lines (records : List (List String)) (lines : List String) : Prop :=
  Rfc4180.File (records.map fun record => record.map String.toList) (ended lines)

theorem Lines.nil : Lines [] [] :=
  Rfc4180.File.nil

theorem Lines.cons {cells : List Cell} {records : List (List String)} {lines : List String}
    (hne : cells ≠ []) (h : Lines records lines)
    : Lines (cells.map (Cell.text numberText) :: records)
        (",".intercalate (cells.map (escapeField numberText)) :: lines) := by
  have hraws : List.Forall₂ Rfc4180.Written
      ((cells.map (Cell.text numberText)).map String.toList)
      ((cells.map (escapeField numberText)).map String.toList) := by
    rw [List.map_map, List.map_map, List.forall₂_map_left_iff, List.forall₂_map_right_iff,
      List.forall₂_same]
    intro cell _
    exact written_escapeField cell
  have hfile := Rfc4180.File.cons (by simpa using hne) hraws h
  unfold Lines ended at *
  rw [List.flatMap_cons, String.toList_intercalate, List.append_assoc]
  exact hfile

theorem Lines.append {records records' : List (List String)} {lines lines' : List String}
    (h : Lines records lines) (h' : Lines records' lines')
    : Lines (records ++ records') (lines ++ lines') := by
  unfold Lines ended at *
  rw [List.map_append, List.flatMap_append]
  exact h.append h'

theorem Lines.singleton (cell : Cell)
    : Lines [[cell.text numberText]] [escapeField numberText cell] := by
  have hline := @Lines.cons numberText [cell] _ _ (by simp) .nil
  rw [List.map_singleton, List.map_singleton, String.intercalate_singleton] at hline
  exact hline

theorem Lines.rows {rows : List (List Cell)} (hne : ∀ row ∈ rows, row ≠ [])
    : Lines (rows.map fun row => row.map (Cell.text numberText))
        (rows.map fun row => ",".intercalate (row.map (escapeField numberText))) := by
  induction rows with
  | nil => exact .nil
  | cons row rows ih =>
    rw [List.map_cons, List.map_cons]
    apply Lines.cons (hne row List.mem_cons_self)
    apply ih
    intro row' hrow'
    exact hne row' (List.mem_cons_of_mem row hrow')

theorem Lines.columns {columns : List String} (hne : columns ≠ [])
    : Lines [columns]
        [",".intercalate (columns.map fun column => escapeField numberText (.string column))] := by
  have hline := @Lines.cons numberText (columns.map .string) _ _
    (by simpa using hne) .nil
  rw [List.map_map, List.map_map] at hline
  have htext : Cell.text numberText ∘ Cell.string = id := rfl
  rw [htext, List.map_id] at hline
  exact hline

theorem Lines.sect {sect : CsvSection} (hcolumns : sect.columns ≠ [])
    (hrows : ∀ row ∈ sect.rows, row ≠ []) (index : Nat)
    : Lines (sect.records numberText index) (sect.lines numberText index) := by
  unfold CsvSection.records CsvSection.lines
  refine Lines.append (Lines.append (Lines.append ?_ ?_) (Lines.columns hcolumns))
    (Lines.rows hrows)
  . split
    . exact @Lines.singleton numberText .null
    . exact .nil
  . cases sect.title with
    | none => exact .nil
    | some title => exact Lines.singleton (.string title)

/-- A reader of the file after its byte order mark finds the records that were written. -/
theorem toCsv_parse (numberText : JsNumber → String) {sections : List CsvSection}
    (hsections : sections ≠ []) (hcolumns : ∀ sect ∈ sections, sect.columns ≠ [])
    (hrows : ∀ sect ∈ sections, ∀ row ∈ sect.rows, row ≠ [])
    : ∃ file, (toCsv numberText sections).toList = BOM.toList ++ file ∧
        Rfc4180.parse file =
          some ((sections.zipIdx.flatMap fun (sect, index) => sect.records numberText index).map
            fun record => record.map String.toList) := by
  have hlines : ∀ {indexed : List (CsvSection × Nat)}, (∀ x ∈ indexed, x.1 ∈ sections) →
      Lines (indexed.flatMap fun (sect, index) => sect.records numberText index)
        (indexed.flatMap fun (sect, index) => sect.lines numberText index) := by
    intro indexed
    induction indexed with
    | nil =>
      intro _
      exact .nil
    | cons x indexed ih =>
      intro hmem
      rw [List.flatMap_cons, List.flatMap_cons]
      have hx := hmem x List.mem_cons_self
      apply Lines.append (Lines.sect (hcolumns x.1 hx) (hrows x.1 hx) x.2)
      apply ih
      intro y hy
      exact hmem y (List.mem_cons_of_mem x hy)
  have hfile := @hlines sections.zipIdx fun x hx => List.fst_mem_of_mem_zipIdx hx
  refine ⟨_, ?_, Rfc4180.parse_file hfile⟩
  have hne : (sections.zipIdx.flatMap fun (sect, index) => sect.lines numberText index) ≠ [] := by
    cases sections with
    | nil => exact absurd rfl hsections
    | cons sect sections => simp [CsvSection.lines]
  unfold toCsv
  dsimp only
  rw [String.append_assoc, String.toList_append, toList_intercalate_ended hne]

end Read

namespace Sample

/-- `String()` of whole numbers. -/
def numberText : JsNumber → String
  | .fin q => toString q.num
  | .nan => "NaN"
  | .posInf => "Infinity"
  | .negInf => "-Infinity"

def sections : List CsvSection :=
  [{ title := some "By \"branch\", all", columns := ["branch"], rows := [[.string "A\r\nB"]] },
    { title := none, columns := ["a", "b"], rows := [[.null, .number 12]] }]

end Sample

theorem toCsv_parse_sample
    : ∃ file, (toCsv Sample.numberText Sample.sections).toList = BOM.toList ++ file ∧
        Rfc4180.parse file =
          some ([["By \"branch\", all"], ["branch"], ["A\r\nB"], [""], ["a", "b"], ["", "12"]].map
            fun record => record.map String.toList) := by
  apply @toCsv_parse Sample.numberText Sample.sections
  . decide
  . decide
  . decide

end SentryPos.Analytics
