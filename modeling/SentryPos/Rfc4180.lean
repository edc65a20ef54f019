import Mathlib.Data.List.Basic

/-!
This module contains a parser for the comma-separated values of RFC 4180 and the fact that it reads
back the records of every writer that quotes the fields which need it.
-/

namespace Rfc4180

def QUOTE : Char := '\x22'
def COMMA : Char := ','
def CR : Char := '\r'
def LF : Char := '\n'

def isSpecial (c : Char) : Bool :=
  c = QUOTE || c = COMMA || c = CR || c = LF

/-- Where the parser is: `closed` comes after the quote that may end a field, `ret` after a CR. -/
inductive Mode where
  | start
  | plain
  | quoted
  | closed
  | ret
  deriving DecidableEq

/-- `field` and `record` are what has been read of the current field and the fields before it. -/
def go (mode : Mode) (field : List Char) (record : List (List Char))
    : List Char → Option (List (List (List Char)))
  | [] =>
    if mode = .quoted ∨ mode = .ret then none else some [record ++ [field]]
  | c :: cs =>
    match mode with
    | .quoted =>
      if c = QUOTE then go .closed field record cs else go .quoted (field ++ [c]) record cs
    | .ret =>
      if c ≠ LF then none
      else if cs = [] then some [record ++ [field]]
      else (go .start [] [] cs).map ((record ++ [field]) :: ·)
    | .start | .plain | .closed =>
      if c = COMMA then go .start [] (record ++ [field]) cs
      else if c = CR then go .ret field record cs
      else if c = LF then none
      else if c = QUOTE then
        match mode with
        | .start => go .quoted field record cs
        | .closed => go .quoted (field ++ [c]) record cs
        | _ => none
      else if mode = .closed then none
      else go .plain (field ++ [c]) record cs

/-- The records of a file. A line break at its end does not begin another record. -/
def parse (file : List Char) : Option (List (List (List Char))) :=
  if file = [] then some [] else go .start [] [] file

def doubled (text : List Char) : List Char :=
  text.flatMap fun c => if c = QUOTE then [QUOTE, QUOTE] else [c]

inductive Written (text : List Char) : List Char → Prop where
  | plain (h : ∀ c ∈ text, isSpecial c = false) : Written text text
  | quoted : Written text (QUOTE :: (doubled text ++ [QUOTE]))

/-- The lines of a file: the fields of a record are separated by commas, every line is ended. -/
inductive File : List (List (List Char)) → List Char → Prop where
  | nil : File [] []
  | cons {record : List (List Char)} {raws : List (List Char)} {records : List (List (List Char))}
      {file : List Char} (hne : record ≠ []) (hraws : List.Forall₂ Written record raws)
      (h : File records file)
      : File (record :: records) ([COMMA].intercalate raws ++ CR :: LF :: file)

theorem File.append {records records' : List (List (List Char))} {file file' : List Char}
    (h : File records file) (h' : File records' file')
    : File (records ++ records') (file ++ file') := by
  induction h with
  | nil => exact h'
  | @cons record raws records file hne hraws _ ih =>
    have happend : ([COMMA].intercalate raws ++ CR :: LF :: file) ++ file' =
        [COMMA].intercalate raws ++ CR :: LF :: (file ++ file') := by
      simp
    rw [happend, List.cons_append]
    exact .cons hne hraws ih

variable {field text raw rest : List Char} {record : List (List Char)}

theorem go_plain (h : ∀ c ∈ text, isSpecial c = false) {mode : Mode}
    (hmode : mode = .start ∨ mode = .plain)
    : go mode field record (text ++ rest) =
        go (if text = [] then mode else .plain) (field ++ text) record rest := by
  -- The first character leads from the start of a field to its plain mode.
  induction text generalizing mode field with
  | nil => simp
  | cons c cs ih =>
    have hc := h c List.mem_cons_self
    unfold isSpecial at hc
    simp only [Bool.or_eq_false_iff, decide_eq_false_iff_not] at hc
    obtain ⟨⟨⟨hquote, hcomma⟩, hcr⟩, hlf⟩ := hc
    have hnext : go .plain (field ++ [c]) record (cs ++ rest) =
        go .plain (field ++ c :: cs) record rest := by
      rw [ih (fun c' hc' => h c' (List.mem_cons_of_mem c hc')) (.inr rfl)]
      simp
    rw [List.cons_append]
    cases hmode with
    | inl hmode =>
      rw [hmode, go]
      simp [hquote, hcomma, hcr, hlf, hnext]
    | inr hmode =>
      rw [hmode, go]
      simp [hquote, hcomma, hcr, hlf, hnext]

theorem go_doubled : go .quoted field record (doubled text ++ rest) =
    go .quoted (field ++ text) record rest := by
  -- A doubled quote is read in two steps, any other character in one.
  induction text generalizing field with
  | nil => simp [doubled]
  | cons c cs ih =>
    unfold doubled at ih ⊢
    rw [List.flatMap_cons]
    split
    . next hc =>
      have hne : QUOTE ≠ COMMA ∧ QUOTE ≠ CR ∧ QUOTE ≠ LF := by decide
      rw [List.append_assoc, List.cons_append, List.cons_append, List.nil_append, go]
      simp only [if_true]
      rw [go]
      simp only [hne.1, hne.2.1, hne.2.2, if_false, if_true]
      rw [ih, hc]
      simp
    . next hc =>
      rw [List.append_assoc, List.cons_append, List.nil_append, go]
      simp only [hc, if_false]
      rw [ih]
      simp

theorem go_written (h : Written text raw) {c : Char} (hc : c = COMMA ∨ c = CR)
    : go .start [] record (raw ++ c :: rest) = go .plain text record (c :: rest) := by
  have hne : COMMA ≠ QUOTE ∧ CR ≠ QUOTE ∧ CR ≠ COMMA ∧ CR ≠ LF := by decide
  have hsame : ∀ mode, mode = .start ∨ mode = .closed →
      go mode text record (c :: rest) = go .plain text record (c :: rest) := by
    intro mode hmode
    cases hmode with
    | inl hmode =>
      rw [hmode, go, go]
      cases hc with
      | inl hc => simp [hc]
      | inr hc => simp [hc, hne.2.2.1]
    | inr hmode =>
      rw [hmode, go, go]
      cases hc with
      | inl hc => simp [hc]
      | inr hc => simp [hc, hne.2.2.1]
  cases h with
  | plain h =>
    rw [go_plain h (.inl rfl), List.nil_append]
    split
    . exact hsame .start (.inl rfl)
    . rfl
  | quoted =>
    have hquote : QUOTE ≠ COMMA ∧ QUOTE ≠ CR ∧ QUOTE ≠ LF := by decide
    rw [List.cons_append, go]
    simp only [hquote.1, hquote.2.1, hquote.2.2, if_false, if_true]
    rw [List.append_assoc, go_doubled, List.nil_append, List.cons_append, List.nil_append, go]
    simp only [if_true]
    exact hsame .closed (.inr rfl)

theorem go_record {texts raws : List (List Char)} (hne : texts ≠ [])
    (h : List.Forall₂ Written texts raws)
    : go .start [] record ([COMMA].intercalate raws ++ CR :: LF :: rest) =
        if rest = [] then some [record ++ texts]
        else (go .start [] [] rest).map ((record ++ texts) :: ·) := by
  -- The last field ends in a line break, the others in a comma.
  induction h generalizing record with
  | nil => exact absurd rfl hne
  | @cons text raw texts raws hfield htail ih =>
    cases htail with
    | nil =>
      have hcr : CR ≠ COMMA := by decide
      have hline : [COMMA].intercalate [raw] = raw := by
        simp [List.intercalate]
      rw [hline, go_written hfield (.inr rfl), go]
      simp only [hcr, if_false, if_true]
      rw [go]
      simp
    | @cons text' raw' texts' raws' hfield' htail' =>
      have hline : [COMMA].intercalate (raw :: raw' :: raws') ++ CR :: LF :: rest =
          raw ++ COMMA :: ([COMMA].intercalate (raw' :: raws') ++ CR :: LF :: rest) := by
        simp [List.intercalate]
      rw [hline, go_written hfield (.inl rfl), go]
      simp only [if_true]
      rw [ih (by simp)]
      simp

theorem parse_file {records : List (List (List Char))} {file : List Char} (h : File records file)
    : parse file = some records := by
  induction h with
  | nil => rfl
  | @cons record raws records file hne hraws _ ih =>
    have hfile : [COMMA].intercalate raws ++ CR :: LF :: file ≠ [] := by
      simp
    unfold parse at ih ⊢
    rw [if_neg hfile, go_record hne hraws]
    split
    . next hnil =>
      rw [if_pos hnil] at ih
      cases ih
      rfl
    . next hnil =>
      rw [if_neg hnil] at ih
      rw [ih]
      rfl

end Rfc4180
