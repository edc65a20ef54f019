import SentryPos.Js.Json

/-!
This module contains that the text of a JSON value determines the value, also where the text goes on
after it.
-/

namespace Json

def Tail (r : List Char) : Prop :=
  ∀ c ∈ r.head?, c = ',' ∨ c = ']' ∨ c = '\x7d'

theorem Tail.nil : Tail [] := by
  simp [Tail]

/-! Strings. -/

def hexValue (c : Char) : Nat :=
  if c.toNat < 87 then c.toNat - 48 else c.toNat - 87

/-- The first character of an escaped text, with the rest of the text. -/
def unescape : List Char → Option (Char × List Char)
  | '\\' :: 'b' :: r => some (Char.ofNat 8, r)
  | '\\' :: 't' :: r => some (Char.ofNat 9, r)
  | '\\' :: 'n' :: r => some (Char.ofNat 10, r)
  | '\\' :: 'f' :: r => some (Char.ofNat 12, r)
  | '\\' :: 'r' :: r => some (Char.ofNat 13, r)
  | '\\' :: 'u' :: _ :: _ :: a :: b :: r => some (Char.ofNat (16 * hexValue a + hexValue b), r)
  | '\\' :: c :: r => some (c, r)
  | '"' :: _ => none
  | c :: r => some (c, r)
  | [] => none

theorem hexValue_hexDigit {n : Nat} (h : n < 16) : hexValue (hexDigit n) = n := by
  have hall : ∀ n < 16, hexValue (hexDigit n) = n := by decide
  exact hall n h

theorem unescape_escapeChar (c : Char) (r : List Char)
    : unescape (escapeChar c ++ r) = some (c, r) := by
  have hchar : ∀ {n}, c.toNat = n → Char.ofNat n = c := by
    intro n h
    rw [← h, Char.ofNat_toNat]
  unfold escapeChar
  split
  next h => rw [h]; rfl
  split
  next h => rw [h]; rfl
  split
  next h => rw [← hchar h]; rfl
  split
  next h => rw [← hchar h]; rfl
  split
  next h => rw [← hchar h]; rfl
  split
  next h => rw [← hchar h]; rfl
  split
  next h => rw [← hchar h]; rfl
  split
  next h =>
    have hhigh := hexValue_hexDigit (n := c.toNat / 16) (by omega)
    have hlow := hexValue_hexDigit (n := c.toNat % 16) (by omega)
    have hvalue : 16 * (c.toNat / 16) + c.toNat % 16 = c.toNat := by omega
    simp only [List.cons_append, List.nil_append, unescape, hhigh, hlow, hvalue, Char.ofNat_toNat]
  next hquote hslash _ _ _ _ _ _ =>
    rw [List.cons_append, List.nil_append]
    unfold unescape
    split <;> simp_all

theorem escape_append_inj (s s' r r' : List Char)
    (h : s.flatMap escapeChar ++ '"' :: r = s'.flatMap escapeChar ++ '"' :: r')
    : s = s' ∧ r = r' := by
  -- No escape is the start of another one.
  induction s generalizing s' with
  | nil =>
    cases s' with
    | nil => simpa using h
    | cons c' s' =>
      have := congrArg unescape h
      rw [List.flatMap_cons, List.append_assoc, unescape_escapeChar] at this
      contradiction
  | cons c s ih =>
    have hleft := congrArg unescape h
    rw [List.flatMap_cons, List.append_assoc, unescape_escapeChar] at hleft
    cases s' with
    | nil => contradiction
    | cons c' s' =>
      rw [List.flatMap_cons, List.append_assoc, unescape_escapeChar] at hleft
      simp only [Option.some.injEq, Prod.mk.injEq] at hleft
      obtain ⟨hc, hrest⟩ := hleft
      obtain ⟨hs, hr⟩ := ih s' hrest
      rw [hc, hs]
      exact ⟨rfl, hr⟩

theorem quote_append_inj {s s' : String} {r r' : List Char} (h : quote s ++ r = quote s' ++ r')
    : s = s' ∧ r = r' := by
  unfold quote at h
  simp only [List.append_assoc, List.cons_append, List.nil_append, List.cons.injEq, true_and] at h
  obtain ⟨hs, hr⟩ := escape_append_inj _ _ _ _ h
  exact ⟨String.toList_inj.mp hs, hr⟩

/-! Numbers. -/

def isNumberChar (c : Char) : Bool :=
  c.isDigit || c = '-' || c = '/'

theorem isDigit_of_mem_repr {n : Nat} {c : Char} (h : c ∈ (Nat.repr n).toList) : c.isDigit := by
  apply Nat.isDigit_of_mem_toDigits (b := 10) (n := n) (by omega) (by omega)
  simpa using h

theorem takeWhile_append_tail {p : Char → Bool} {s r : List Char} (hs : ∀ c ∈ s, p c)
    (hr : ∀ c ∈ r.head?, p c = false) : (s ++ r).takeWhile p = s := by
  induction s with
  | nil =>
    cases r with
    | nil => rfl
    | cons c r => simp [hr c (by simp)]
  | cons c s ih => simp_all

theorem repr_inj {m n : Nat} (h : (Nat.repr m).toList = (Nat.repr n).toList) : m = n := by
  rw [Nat.toList_repr, Nat.toList_repr] at h
  rw [← @Nat.ofDigitChars_ten_toDigits m, h, Nat.ofDigitChars_ten_toDigits]

def signText (q : ℚ) : List Char :=
  if q.num < 0 then ['-'] else []

def denominatorText (q : ℚ) : List Char :=
  if q.den = 1 then [] else '/' :: (Nat.repr q.den).toList

theorem numberText_eq (q : ℚ)
    : numberText q = signText q ++ ((Nat.repr q.num.natAbs).toList ++ denominatorText q) := by
  unfold numberText signText denominatorText
  split <;> split <;> simp

theorem isNumberChar_of_mem_numberText {q : ℚ} {c : Char} (h : c ∈ numberText q)
    : isNumberChar c := by
  have hdigit : ∀ n, c ∈ (Nat.repr n).toList → isNumberChar c := by
    intro n hc
    simp [isNumberChar, isDigit_of_mem_repr hc]
  rw [numberText_eq, List.mem_append, List.mem_append] at h
  rcases h with h | h | h
  . unfold signText at h
    split at h
    . simp [isNumberChar, List.mem_singleton.mp h]
    . contradiction
  . exact hdigit _ h
  . unfold denominatorText at h
    split at h
    . contradiction
    . rcases List.mem_cons.mp h with rfl | h
      . decide
      . exact hdigit _ h

theorem repr_append_ne {n : Nat} {r r' : List Char} : (Nat.repr n).toList ++ r ≠ '-' :: r' := by
  intro h
  cases hdigits : (Nat.repr n).toList with
  | nil =>
    apply Nat.repr_ne_empty (n := n)
    exact String.toList_inj.mp hdigits
  | cons c cs =>
    have hc : c.isDigit := isDigit_of_mem_repr (n := n) (by simp [hdigits])
    rw [hdigits] at h
    simp only [List.cons_append, List.cons.injEq] at h
    rw [h.1] at hc
    contradiction

theorem denominatorText_inj {q q' : ℚ} (h : denominatorText q = denominatorText q')
    : q.den = q'.den := by
  unfold denominatorText at h
  split at h
  next hq =>
    split at h
    next hq' => rw [hq, hq']
    next => contradiction
  next =>
    split at h
    next => contradiction
    next => exact repr_inj (List.cons.inj h).2

theorem numberText_inj {q q' : ℚ} (h : numberText q = numberText q') : q = q' := by
  rw [numberText_eq, numberText_eq] at h
  have hend : ∀ q : ℚ, ∀ c ∈ (denominatorText q).head?, c.isDigit = false := by
    intro q c hc
    unfold denominatorText at hc
    split at hc
    . contradiction
    . cases hc
      decide
  have hsign : (q.num < 0 ↔ q'.num < 0) ∧
      (Nat.repr q.num.natAbs).toList ++ denominatorText q
        = (Nat.repr q'.num.natAbs).toList ++ denominatorText q' := by
    unfold signText at h
    split at h
    next hq =>
      split at h
      next hq' => exact ⟨by simp [hq, hq'], (List.cons.inj h).2⟩
      next => exact absurd h.symm repr_append_ne
    next hq =>
      split at h
      next => exact absurd h repr_append_ne
      next hq' => exact ⟨by simp [hq, hq'], h⟩
  obtain ⟨hsign, htext⟩ := hsign
  have hdigits := congrArg (List.takeWhile Char.isDigit) htext
  rw [takeWhile_append_tail (fun c => isDigit_of_mem_repr) (hend q),
    takeWhile_append_tail (fun c => isDigit_of_mem_repr) (hend q')] at hdigits
  rw [hdigits] at htext
  have habs := repr_inj hdigits
  apply Rat.ext
  . omega
  . exact denominatorText_inj (List.append_cancel_left htext)

theorem numberText_append_inj {q q' : ℚ} {r r' : List Char} (hr : Tail r) (hr' : Tail r')
    (h : numberText q ++ r = numberText q' ++ r') : q = q' ∧ r = r' := by
  have hend : ∀ r, Tail r → ∀ c ∈ r.head?, isNumberChar c = false := by
    intro r hr c hc
    rcases hr c hc with rfl | rfl | rfl <;> decide
  have htext := congrArg (List.takeWhile isNumberChar) h
  rw [takeWhile_append_tail (fun c => isNumberChar_of_mem_numberText) (hend r hr),
    takeWhile_append_tail (fun c => isNumberChar_of_mem_numberText) (hend r' hr')] at htext
  rw [htext] at h
  exact ⟨numberText_inj htext, List.append_cancel_left h⟩

/-! Values. -/

def kindOf (c : Char) : Option ℕ :=
  if c = 'n' then some 0
  else if c = 't' ∨ c = 'f' then some 1
  else if c.isDigit ∨ c = '-' then some 2
  else if c = '"' then some 3
  else if c = '[' then some 4
  else if c = '\x7b' then some 5
  else none

def kind : Json → ℕ
  | .null => 0
  | .bool _ => 1
  | .num _ => 2
  | .str _ => 3
  | .arr _ => 4
  | .obj _ => 5

theorem kindOf_digit {c : Char} (h : c.isDigit) : kindOf c = some 2 := by
  have hne : c ≠ 'n' ∧ c ≠ 't' ∧ c ≠ 'f' := by
    refine ⟨?_, ?_, ?_⟩ <;> (rintro rfl; contradiction)
  simp [kindOf, h, hne]

theorem head_stringify (v : Json) : ∃ c r, stringify v = c :: r ∧ kindOf c = some v.kind := by
  cases v with
  | null => exact ⟨'n', "ull".toList, rfl, rfl⟩
  | bool b =>
    cases b with
    | false => exact ⟨'f', "alse".toList, rfl, rfl⟩
    | true => exact ⟨'t', "rue".toList, rfl, rfl⟩
  | num q =>
    rw [stringify, numberText_eq]
    unfold signText
    split
    . exact ⟨'-', _, rfl, rfl⟩
    . cases hdigits : (Nat.repr q.num.natAbs).toList with
      | nil =>
        exact absurd (String.toList_inj.mp hdigits) Nat.repr_ne_empty
      | cons c cs =>
        have hc : c.isDigit := isDigit_of_mem_repr (n := q.num.natAbs) (by simp [hdigits])
        exact ⟨c, _, rfl, kindOf_digit hc⟩
  | str s => exact ⟨'"', _, rfl, rfl⟩
  | arr values => exact ⟨'[', _, rfl, rfl⟩
  | obj fields => exact ⟨'\x7b', _, rfl, rfl⟩

theorem stringify_append_ne {v : Json} {c : Char} {r r' : List Char} (hc : kindOf c = none)
    : stringify v ++ r ≠ c :: r' := by
  intro h
  obtain ⟨c', r'', hv, hkind⟩ := head_stringify v
  rw [hv, List.cons_append] at h
  obtain ⟨rfl, _⟩ := List.cons.inj h
  rw [hc] at hkind
  contradiction

theorem kind_eq_of_append {v w : Json} {r r' : List Char} (h : stringify v ++ r = stringify w ++ r')
    : v.kind = w.kind := by
  obtain ⟨c, s, hv, hkind⟩ := head_stringify v
  obtain ⟨c', s', hw, hkind'⟩ := head_stringify w
  rw [hv, hw, List.cons_append, List.cons_append] at h
  obtain ⟨rfl, _⟩ := List.cons.inj h
  rw [hkind] at hkind'
  exact Option.some.inj hkind'

def moreValues (values : List Json) : List Char :=
  values.flatMap fun v => ',' :: stringify v

def fieldText (field : String × Json) : List Char :=
  quote field.1 ++ ':' :: stringify field.2

def moreFields (fields : List (String × Json)) : List Char :=
  fields.flatMap fun f => ',' :: fieldText f

theorem stringifyValues_cons (v : Json) (vs : List Json)
    : stringifyValues (v :: vs) = stringify v ++ moreValues vs := by
  induction vs generalizing v with
  | nil => simp [stringifyValues, moreValues]
  | cons w vs ih => simp [stringifyValues, ih w, moreValues]

theorem stringifyFields_cons (f : String × Json) (fs : List (String × Json))
    : stringifyFields (f :: fs) = fieldText f ++ moreFields fs := by
  induction fs generalizing f with
  | nil => simp [stringifyFields, moreFields, fieldText]
  | cons g fs ih => simp [stringifyFields, ih g, moreFields, fieldText]

theorem Tail.moreValues (values : List Json) (r : List Char) : Tail (moreValues values ++ ']' :: r) := by
  cases values <;> simp [Tail, Json.moreValues]

theorem Tail.moreFields (fields : List (String × Json)) (r : List Char)
    : Tail (moreFields fields ++ '\x7d' :: r) := by
  cases fields <;> simp [Tail, Json.moreFields]

mutual

theorem stringify_append_inj (v w : Json) (r r' : List Char) (hr : Tail r) (hr' : Tail r')
    (h : stringify v ++ r = stringify w ++ r') : v = w ∧ r = r' := by
  have hkind := kind_eq_of_append h
  match v, w with
  | .null, .null => exact ⟨rfl, List.append_cancel_left h⟩
  | .bool b, .bool b' =>
    have hb : b = b' := by
      cases b <;> cases b' <;> simp [stringify] at h ⊢
    subst hb
    exact ⟨rfl, List.append_cancel_left h⟩
  | .num q, .num q' =>
    obtain ⟨rfl, hrest⟩ := numberText_append_inj hr hr' h
    exact ⟨rfl, hrest⟩
  | .str s, .str s' =>
    obtain ⟨rfl, hrest⟩ := quote_append_inj h
    exact ⟨rfl, hrest⟩
  | .arr vs, .arr ws =>
    simp only [stringify, List.append_assoc, List.cons_append, List.nil_append, List.cons.injEq,
      true_and] at h
    match vs, ws with
    | [], [] => exact ⟨rfl, (List.cons.inj h).2⟩
    | [], w :: ws =>
      rw [stringifyValues_cons, List.append_assoc] at h
      exact absurd h.symm (stringify_append_ne rfl)
    | v :: vs, [] =>
      rw [stringifyValues_cons, List.append_assoc] at h
      exact absurd h (stringify_append_ne rfl)
    | v :: vs, w :: ws =>
      rw [stringifyValues_cons, stringifyValues_cons, List.append_assoc, List.append_assoc] at h
      obtain ⟨rfl, hmore⟩ := stringify_append_inj v w _ _ (.moreValues vs r) (.moreValues ws r') h
      obtain ⟨rfl, hrest⟩ := moreValues_append_inj vs ws r r' hmore
      exact ⟨rfl, hrest⟩
  | .obj fs, .obj gs =>
    simp only [stringify, List.append_assoc, List.cons_append, List.nil_append, List.cons.injEq,
      true_and] at h
    match fs, gs with
    | [], [] => exact ⟨rfl, (List.cons.inj h).2⟩
    | [], g :: gs =>
      simp [stringifyFields_cons, stringifyFields, fieldText, quote] at h
    | f :: fs, [] =>
      simp [stringifyFields_cons, stringifyFields, fieldText, quote] at h
    | (key, v) :: fs, (key', w) :: gs =>
      rw [stringifyFields_cons, stringifyFields_cons, fieldText, fieldText] at h
      simp only [List.append_assoc, List.cons_append] at h
      obtain ⟨rfl, hvalue⟩ := quote_append_inj h
      obtain ⟨rfl, hmore⟩ := stringify_append_inj v w _ _ (.moreFields fs r) (.moreFields gs r')
        (List.cons.inj hvalue).2
      obtain ⟨rfl, hrest⟩ := moreFields_append_inj fs gs r r' hmore
      exact ⟨rfl, hrest⟩

theorem moreValues_append_inj (vs ws : List Json) (r r' : List Char)
    (h : moreValues vs ++ ']' :: r = moreValues ws ++ ']' :: r') : vs = ws ∧ r = r' := by
  match vs, ws with
  | [], [] => exact ⟨rfl, (List.cons.inj h).2⟩
  | [], w :: ws => simp [moreValues] at h
  | v :: vs, [] => simp [moreValues] at h
  | v :: vs, w :: ws =>
    have hvalue : stringify v ++ (moreValues vs ++ ']' :: r)
        = stringify w ++ (moreValues ws ++ ']' :: r') := by
      simpa [moreValues] using h
    obtain ⟨rfl, hmore⟩ := stringify_append_inj v w _ _ (.moreValues vs r) (.moreValues ws r') hvalue
    obtain ⟨rfl, hrest⟩ := moreValues_append_inj vs ws r r' hmore
    exact ⟨rfl, hrest⟩

theorem moreFields_append_inj (fs gs : List (String × Json)) (r r' : List Char)
    (h : moreFields fs ++ '\x7d' :: r = moreFields gs ++ '\x7d' :: r') : fs = gs ∧ r = r' := by
  match fs, gs with
  | [], [] => exact ⟨rfl, (List.cons.inj h).2⟩
  | [], g :: gs => simp [moreFields] at h
  | f :: fs, [] => simp [moreFields] at h
  | (key, v) :: fs, (key', w) :: gs =>
    have hfield : quote key ++ ':' :: (stringify v ++ (moreFields fs ++ '\x7d' :: r))
        = quote key' ++ ':' :: (stringify w ++ (moreFields gs ++ '\x7d' :: r')) := by
      simpa [moreFields, fieldText] using h
    obtain ⟨rfl, hvalue⟩ := quote_append_inj hfield
    obtain ⟨rfl, hmore⟩ := stringify_append_inj v w _ _ (.moreFields fs r) (.moreFields gs r')
      (List.cons.inj hvalue).2
    obtain ⟨rfl, hrest⟩ := moreFields_append_inj fs gs r r' hmore
    exact ⟨rfl, hrest⟩

end

theorem stringify_inj {v w : Json} (h : stringify v = stringify w) : v = w := by
  have happend : stringify v ++ [] = stringify w ++ [] := by simpa using h
  exact (stringify_append_inj v w [] [] .nil .nil happend).1

end Json
