import SentryPos.Js.Number

/-!
This module contains JSON values, what `JSON.stringify` makes of a number, and the text of a value
with the keys of its objects in order.
-/

inductive Json where
  | null
  | bool (b : Bool)
  | num (q : ℚ)
  | str (s : String)
  | arr (values : List Json)
  | obj (fields : List (String × Json))

namespace Json

/-- `JSON.stringify` writes numbers that are not finite as `null`. -/
def ofNumber : JsNumber → Json
  | .fin q => .num q
  | _ => .null

def hexDigit (n : Nat) : Char :=
  Char.ofNat (if n < 10 then 48 + n else 87 + n)

def escapeChar (c : Char) : List Char :=
  if c = '"' then ['\\', '"']
  else if c = '\\' then ['\\', '\\']
  else if c.toNat = 8 then ['\\', 'b']
  else if c.toNat = 9 then ['\\', 't']
  else if c.toNat = 10 then ['\\', 'n']
  else if c.toNat = 12 then ['\\', 'f']
  else if c.toNat = 13 then ['\\', 'r']
  else if c.toNat < 32 then ['\\', 'u', '0', '0', hexDigit (c.toNat / 16), hexDigit (c.toNat % 16)]
  else [c]

def quote (s : String) : List Char :=
  ['"'] ++ s.toList.flatMap escapeChar ++ ['"']

/--
The text of a number. Numbers are exact here, so one that is not an integer is written as a
fraction where JavaScript writes decimals; only that different numbers have different texts is used.
-/
def numberText (q : ℚ) : List Char :=
  let sign := if q.num < 0 then ['-'] else []
  let whole := (Nat.repr q.num.natAbs).toList
  if q.den = 1 then sign ++ whole
  else sign ++ whole ++ ['/'] ++ (Nat.repr q.den).toList

/-- Insert a field before the first one whose key is not smaller. -/
def insertField (field : String × Json) : List (String × Json) → List (String × Json)
  | [] => [field]
  | other :: rest =>
    if other.1 < field.1 then other :: insertField field rest
    else field :: other :: rest

mutual

def sortKeys : Json → Json
  | .arr values => .arr (sortValues values)
  | .obj fields => .obj (sortFields fields)
  | v => v

def sortValues : List Json → List Json
  | [] => []
  | v :: vs => sortKeys v :: sortValues vs

def sortFields : List (String × Json) → List (String × Json)
  | [] => []
  | (key, v) :: rest => insertField (key, sortKeys v) (sortFields rest)

end

mutual

/-- `JSON.stringify` without indentation. -/
def stringify : Json → List Char
  | .null => "null".toList
  | .bool b => if b then "true".toList else "false".toList
  | .num q => numberText q
  | .str s => quote s
  | .arr values => ['['] ++ stringifyValues values ++ [']']
  | .obj fields => ['\x7b'] ++ stringifyFields fields ++ ['\x7d']

def stringifyValues : List Json → List Char
  | [] => []
  | [v] => stringify v
  | v :: vs => stringify v ++ [','] ++ stringifyValues vs

def stringifyFields : List (String × Json) → List Char
  | [] => []
  | [(key, v)] => quote key ++ [':'] ++ stringify v
  | (key, v) :: rest => quote key ++ [':'] ++ stringify v ++ [','] ++ stringifyFields rest

end

end Json
