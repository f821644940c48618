/-!
# JSON documents

A strict reader of JSON: four kinds of blank, no comments, no closing commas, numbers without
leading zeros, no raw control characters in strings. It keeps of a document what a configuration
can ask of it. Of a number that is its value when it is a natural number written with digits
alone; of a string its characters, unless some `\u` escape in it is half of a surrogate pair, in
which case the string stands in the document but has no characters. A member of an object may be
repeated; all its values are kept in their order.

Every reader takes what it reads off the front of a list of characters and gives the rest. The
readers of nested values carry a bound on the number of values still to be read, and a document
holds fewer values than characters.
-/

set_option autoImplicit false

namespace PagedStore

/-- A document or a part of one. -/
inductive Json where
  | null
  | bool (value : Bool)
  /-- A number; `none` if it is not a plain natural number. -/
  | number (value : Option Nat)
  /-- A string; `none` if it holds a lone surrogate. -/
  | string (value : Option String)
  | array (items : List Json)
  | object (members : List (Option String × Json))

namespace Json

/-! ## Characters -/

/-- The four blanks. -/
def isBlank (c : Char) : Bool := c == ' ' || c == '\t' || c == '\n' || c == '\r'

/-- What follows the blanks in front. -/
def skip (cs : List Char) : List Char := cs.dropWhile isBlank

/-- What follows a given text, if that stands in front. -/
def after? : (text : List Char) → List Char → Option (List Char)
  | [], cs => some cs
  | _ :: _, [] => none
  | t :: text, c :: cs => if t = c then after? text cs else none

/-- The value of a hexadecimal digit. -/
def hexValue? (c : Char) : Option Nat :=
  if '0' ≤ c ∧ c ≤ '9' then some (c.toNat - 48)
  else if 'a' ≤ c ∧ c ≤ 'f' then some (c.toNat - 87)
  else if 'A' ≤ c ∧ c ≤ 'F' then some (c.toNat - 55)
  else none

/-- The number that four hexadecimal digits spell. -/
def hex4? : List Char → Option (Nat × List Char)
  | a :: b :: c :: d :: cs => do
      let a ← hexValue? a
      let b ← hexValue? b
      let c ← hexValue? c
      let d ← hexValue? d
      return (((a * 16 + b) * 16 + c) * 16 + d, cs)
  | _ => none

/-! ## Strings -/

/-- The elements of a string: characters and halves of surrogate pairs. -/
inductive Unit16 where
  | char (c : Char)
  | high (n : Nat)
  | low (n : Nat)

/-- The meaning of a character after a backslash, `u` apart. -/
def simpleEscape? (c : Char) : Option Char :=
  if c = '"' then some '"'
  else if c = '\\' then some '\\'
  else if c = '/' then some '/'
  else if c = 'b' then some '\x08'
  else if c = 'f' then some '\x0c'
  else if c = 'n' then some '\n'
  else if c = 'r' then some '\r'
  else if c = 't' then some '\t'
  else none

/-- The element with a given code unit. -/
def unitOf (n : Nat) : Unit16 :=
  if 0xD800 ≤ n ∧ n < 0xDC00 then .high (n - 0xD800)
  else if 0xDC00 ≤ n ∧ n < 0xE000 then .low (n - 0xDC00)
  else .char (Char.ofNat n)

/-- Reads the elements of a string up to the closing quote; at most `fuel` of them. -/
def units? : (fuel : Nat) → List Char → Option (List Unit16 × List Char)
  | 0, _ => none
  | _, [] => none
  | fuel + 1, c :: cs =>
      if c = '"' then some ([], cs)
      else if c = '\\' then
        match cs with
        | [] => none
        | e :: cs =>
            if e = 'u' then do
              let (n, cs) ← hex4? cs
              let (us, rest) ← units? fuel cs
              return (unitOf n :: us, rest)
            else do
              let c ← simpleEscape? e
              let (us, rest) ← units? fuel cs
              return (.char c :: us, rest)
      else if c.toNat < 32 then none
      else do
        let (us, rest) ← units? fuel cs
        return (.char c :: us, rest)

/-- The characters of a string whose surrogates all stand in pairs. -/
def joinUnits? : List Unit16 → Option (List Char)
  | [] => some []
  | .char c :: us => (joinUnits? us).map (c :: ·)
  | .high h :: .low l :: us =>
      (joinUnits? us).map (Char.ofNat (0x10000 + h * 1024 + l) :: ·)
  | _ :: _ => none

/-- Reads a string after its opening quote. -/
def string? (cs : List Char) : Option (Option String × List Char) :=
  (units? (cs.length + 1) cs).map fun (us, rest) => ((joinUnits? us).map String.ofList, rest)

/-! ## Numbers -/

/-- The digits in front and what follows them. -/
def digits (cs : List Char) : List Char × List Char := cs.span Char.isDigit

/-- The number that digits spell. -/
def ofDigits (ds : List Char) : Nat := ds.foldl (fun n d => 10 * n + (d.toNat - 48)) 0

/-- Reads the fraction, if a point stands in front: `true` tells that there was one. -/
def fraction? : List Char → Option (Bool × List Char)
  | '.' :: cs =>
      match digits cs with
      | ([], _) => none
      | (_, rest) => some (true, rest)
  | cs => some (false, cs)

/-- Reads the exponent, if there is one. -/
def exponent? : List Char → Option (Bool × List Char)
  | c :: cs =>
      if c = 'e' ∨ c = 'E' then
        let cs := match cs with
          | '+' :: more => more
          | '-' :: more => more
          | _ => cs
        match digits cs with
        | ([], _) => none
        | (_, rest) => some (true, rest)
      else some (false, c :: cs)
  | [] => some (false, [])

/-- Reads a number. -/
def number? (cs : List Char) : Option (Json × List Char) := do
  let (negative, cs) := match cs with
    | '-' :: more => (true, more)
    | _ => (false, cs)
  let (whole, cs) := digits cs
  if whole = [] ∨ (1 < whole.length ∧ whole.head? = some '0') then none
  else
    let (broken, cs) ← fraction? cs
    let (scaled, cs) ← exponent? cs
    let plain := !negative && !broken && !scaled
    return (.number (if plain then some (ofDigits whole) else none), cs)

/-! ## Values -/

mutual

/-- Reads a value, blanks in front allowed. -/
def value? : (fuel : Nat) → List Char → Option (Json × List Char)
  | 0, _ => none
  | fuel + 1, cs =>
      match skip cs with
      | [] => none
      | '"' :: cs => (string? cs).map fun (s, rest) => (.string s, rest)
      | '[' :: cs =>
          match skip cs with
          | ']' :: rest => some (.array [], rest)
          | _ => (items? fuel cs).map fun (xs, rest) => (.array xs, rest)
      | '\x7b' :: cs =>
          match skip cs with
          | '\x7d' :: rest => some (.object [], rest)
          | _ => (members? fuel cs).map fun (ms, rest) => (.object ms, rest)
      | 'n' :: cs => (after? ['u', 'l', 'l'] cs).map fun rest => (.null, rest)
      | 't' :: cs => (after? ['r', 'u', 'e'] cs).map fun rest => (.bool true, rest)
      | 'f' :: cs => (after? ['a', 'l', 's', 'e'] cs).map fun rest => (.bool false, rest)
      | cs => number? cs

/-- Reads the items of an array, of which there is one at least, and the closing bracket. -/
def items? : (fuel : Nat) → List Char → Option (List Json × List Char)
  | 0, _ => none
  | fuel + 1, cs =>
      match value? fuel cs with
      | none => none
      | some (x, cs) =>
          match skip cs with
          | ',' :: cs => (items? fuel cs).map fun (xs, rest) => (x :: xs, rest)
          | ']' :: rest => some ([x], rest)
          | _ => none

/-- Reads the members of an object, of which there is one at least, and the closing brace. -/
def members? : (fuel : Nat) → List Char → Option (List (Option String × Json) × List Char)
  | 0, _ => none
  | fuel + 1, cs =>
      match skip cs with
      | '"' :: cs =>
          match string? cs with
          | none => none
          | some (name, cs) =>
              match skip cs with
              | ':' :: cs =>
                  match value? fuel cs with
                  | none => none
                  | some (x, cs) =>
                      match skip cs with
                      | ',' :: cs =>
                          (members? fuel cs).map fun (ms, rest) => ((name, x) :: ms, rest)
                      | '\x7d' :: rest => some ([(name, x)], rest)
                      | _ => none
              | _ => none
      | _ => none

end

/-- The document that a text holds, blanks around it allowed. -/
def parse? (text : String) : Option Json :=
  let cs := text.toList
  match value? (2 * cs.length + 2) cs with
  | some (x, rest) => if skip rest = [] then some x else none
  | none => none

end Json

end PagedStore
