import Mathlib.Data.Rat.Defs

/-!
# Parsed JSON and the operations on it

What `json.loads` returns, with the operations Python code applies to it and the
exceptions these raise on a value of another shape.

## Main results

* `get_setItem_self`, `get_setItem_of_ne` — assigning to a key changes the value
  under that key only.
-/

namespace Python

/-- A parsed JSON value; a dict lists its items in insertion order. -/
inductive Json where
  | null
  | bool (b : Bool)
  | num (q : ℚ)
  | str (s : String)
  | list (items : List Json)
  | dict (items : List (String × Json))

/-- The exceptions of the modelled code. -/
inductive PyError where
  | keyError (key : String)
  | indexError
  | typeError
  | attributeError
  /-- `ValueError(f"{text}{value}")`. -/
  | valueError (text : String) (value : Json)
  /-- An exception raised by a service, by the name of its class. -/
  | service (name : String)

namespace Json

/-- `x[key]` for a string key. -/
def getItem (key : String) : Json → Except PyError Json
  | dict items =>
      match items.lookup key with
      | some v => .ok v
      | none => .error (.keyError key)
  | _ => .error .typeError

/-- `x[-1]`. -/
def getLast : Json → Except PyError Json
  | list items =>
      match items.getLast? with
      | some v => .ok v
      | none => .error .indexError
  | str s =>
      match s.toList.getLast? with
      | some c => .ok (str (String.ofList [c]))
      | none => .error .indexError
  | dict _ => .error (.keyError "-1")
  | _ => .error .typeError

/-- `x.get(key)`. -/
def get (key : String) : Json → Except PyError Json
  | dict items => .ok ((items.lookup key).getD null)
  | _ => .error .attributeError

/-- The elements `for el in x` visits. -/
def elements : Json → Except PyError (List Json)
  | list items => .ok items
  | dict items => .ok (items.map fun item => str item.1)
  | str s => .ok (s.toList.map fun c => str (String.ofList [c]))
  | _ => .error .typeError

/-- The dict after `x[key] = value`: the item keeps its place. -/
def setField (key : String) (value : Json) : List (String × Json) → List (String × Json)
  | [] => [(key, value)]
  | item :: items =>
      if item.1 = key then (key, value) :: items else item :: setField key value items

/-- `x[key] = value` for a string key. -/
def setItem (x : Json) (key : String) (value : Json) : Except PyError Json :=
  match x with
  | dict items => .ok (dict (setField key value items))
  | _ => .error .typeError

/-- A list after its elements were mutated in place; anything else keeps no
reference to the elements an iteration visits. -/
def withElements (x : Json) (items : List Json) : Json :=
  match x with
  | list _ => list items
  | _ => x

/-- The rows of a list of rows. -/
def rows : Json → List Json
  | list items => items
  | _ => []

/-! ## `json.dumps` of a list of strings -/

/-- Four hexadecimal digits. -/
def hex4 (n : ℕ) : String := String.ofList ((Nat.toDigits 16 n).leftpad 4 '0')

/-- A character of a JSON string literal; characters outside the printable ASCII
range are escaped, those above the basic plane as a surrogate pair. -/
def escapeChar (c : Char) : String :=
  let n := c.toNat
  if n = 34 ∨ n = 92 then "\\" ++ c.toString
  else if 32 ≤ n ∧ n ≤ 126 then c.toString
  else if n = 8 then "\\b"
  else if n = 9 then "\\t"
  else if n = 10 then "\\n"
  else if n = 12 then "\\f"
  else if n = 13 then "\\r"
  else if n < 65536 then "\\u" ++ hex4 n
  else "\\u" ++ hex4 (55296 + (n - 65536) / 1024) ++ "\\u" ++ hex4 (56320 + (n - 65536) % 1024)

def dumpsString (s : String) : String :=
  "\"" ++ String.join (s.toList.map escapeChar) ++ "\""

/-- `json.dumps(items, separators=(",", ":"))`. -/
def dumpsStrings (items : List String) : String :=
  "[" ++ ",".intercalate (items.map dumpsString) ++ "]"

example : dumpsStrings ["BTCUSDT", "ETHUSDT"] = "[\"BTCUSDT\",\"ETHUSDT\"]" := by decide

/-! ## Assignment to a key -/

private theorem lookup_setField_self (key : String) (value : Json)
    (items : List (String × Json)) : (setField key value items).lookup key = some value := by
  induction items with
  | nil => simp [setField]
  | cons item items ih =>
      obtain ⟨k, v⟩ := item
      by_cases h : k = key
      · simp [setField, h]
      · simp [setField, h, List.lookup_cons, ih, beq_eq_false_iff_ne.mpr (Ne.symm h)]

private theorem lookup_setField_of_ne {key key' : String} (h : key' ≠ key) (value : Json)
    (items : List (String × Json)) :
    (setField key value items).lookup key' = items.lookup key' := by
  have hbeq : (key' == key) = false := beq_eq_false_iff_ne.mpr h
  induction items with
  | nil => simp [setField, List.lookup_cons, hbeq]
  | cons item items ih =>
      obtain ⟨k, v⟩ := item
      by_cases hk : k = key
      · simp [setField, hk, List.lookup_cons, hbeq]
      · simp [setField, hk, List.lookup_cons, ih]

theorem get_setItem_self {x y value : Json} {key : String} (h : x.setItem key value = .ok y) :
    y.get key = .ok value := by
  cases x with
  | dict items =>
      obtain rfl := Except.ok.inj h
      rw [get, lookup_setField_self]
      rfl
  | _ => cases h

theorem get_setItem_of_ne {x y value : Json} {key key' : String}
    (h : x.setItem key value = .ok y) (hne : key' ≠ key) : y.get key' = x.get key' := by
  cases x with
  | dict items =>
      obtain rfl := Except.ok.inj h
      rw [get, get, lookup_setField_of_ne hne]
  | _ => cases h

end Json

end Python
