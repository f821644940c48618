import PagedStore.Script.Number

/-!
# Lexemes

The text of a script is cut into names, reserved words, signs, numbers and strings. Blanks and
comments separate them. Each lexeme knows the line on which it ends, since faults are reported by
line.

Text that can be no lexeme does not fail at once: it becomes the last lexeme of the list, so that
a fault in what comes before it is found first.
-/

set_option autoImplicit false

namespace PagedStore.Script

/-- What a lexeme is. -/
inductive Token where
  | name (bs : Bytes)
  /-- A reserved word or a sign. -/
  | fixed (text : String)
  | number (n : Number)
  | string (bs : Bytes)
  /-- The end of the text. -/
  | finish
  /-- Text that can be no lexeme. -/
  | malformed

/-- A token and the line on which it ends. -/
structure Lexeme where
  token : Token
  line : Nat

namespace Lexeme

/-! ## Characters -/

/-- Whether a byte can begin a name. -/
def startsName (b : UInt8) : Bool :=
  (97 ≤ b && b ≤ 122) || (65 ≤ b && b ≤ 90) || b == 95

/-- Whether a byte can stand in a name. -/
def isNameByte (b : UInt8) : Bool := startsName b || Decimal.isDigit b

/-- Whether a byte ends a line. -/
def isLineEnd (b : UInt8) : Bool := b == 10 || b == 13

/-- What follows the end of a line; two different bytes that end lines are one end. -/
def afterLineEnd : Bytes → Bytes
  | a :: b :: rest => if isLineEnd b && a != b then rest else b :: rest
  | bs => bs.drop 1

/-- How many lines end in a text. -/
def lineEnds : Bytes → Nat
  | [] => 0
  | [a] => if isLineEnd a then 1 else 0
  | a :: b :: rest =>
      if !isLineEnd a then lineEnds (b :: rest)
      else if isLineEnd b && a != b then 1 + lineEnds rest
      else 1 + lineEnds (b :: rest)

/-- The words that are no names. -/
def reserved : List String :=
  ["and", "break", "do", "else", "elseif", "end", "false", "for", "function", "goto", "if", "in",
    "local", "nil", "not", "or", "repeat", "return", "then", "true", "until", "while"]

/-- The signs, the longer ones before those that they begin with. -/
def signs : List String :=
  ["...", "<<", ">>", "//", "==", "~=", "<=", ">=", "::", "..", "+", "-", "*", "/", "%", "^", "#",
    "&", "~", "|", "<", ">", "=", "(", ")", "\x7b", "\x7d", "[", "]", ";", ":", ",", "."]

/-- The sign at the front, and what follows it. -/
def sign? (bs : Bytes) : Option (String × Bytes) :=
  signs.findSome? fun s =>
    let text := Bytes.ofString s
    if bs.take text.length = text then some (s, bs.drop text.length) else none

/-! ## Long brackets -/

/-- The level of a long bracket that begins here, and what follows the bracket. A lone bracket
has none; equals signs that lead to no second bracket are malformed. -/
def openBracket (bs : Bytes) : Option (Option (Nat × Bytes)) :=
  match bs with
  | 91 :: rest =>
      let level := (rest.takeWhile (· == 61)).length
      match rest.drop level with
      | 91 :: inside => some (some (level, inside))
      | _ => if level = 0 then none else some none
  | _ => none

/-- What a closing bracket of a level looks like. -/
def closeBracket (level : Nat) : Bytes := 93 :: List.replicate level 61 ++ [93]

/-- The text up to the closing bracket, what follows it, and the line reached; nothing follows
when there is no such bracket. -/
def untilBracket (close : Bytes) : (fuel line : Nat) → (done : Bytes) → Bytes →
    Option (Bytes × Bytes) × Nat
  | 0, line, _, _ => (none, line)
  | _, line, _, [] => (none, line)
  | fuel + 1, line, done, b :: bs =>
      if (b :: bs).take close.length = close then
        (some (done.reverse, (b :: bs).drop close.length), line)
      else if isLineEnd b then
        untilBracket close fuel (line + 1) (10 :: done) (afterLineEnd (b :: bs))
      else untilBracket close fuel line (b :: done) bs

/-- The inside of a long bracket; an end of line right at its beginning does not count. -/
def longText (level line : Nat) (inside : Bytes) : Option (Bytes × Bytes) × Nat :=
  let close := closeBracket level
  match inside with
  | b :: _ =>
      if isLineEnd b then
        untilBracket close (inside.length + 1) (line + 1) [] (afterLineEnd inside)
      else untilBracket close (inside.length + 1) line [] inside
  | [] => (none, line)

/-! ## Strings in quotes -/

/-- The bytes of a code point in the form of UTF-8 that reaches up to 31 bits. -/
def utf8 (n : Nat) : Bytes :=
  let tail (k : Nat) : Bytes :=
    (List.range k).reverse.map fun i => UInt8.ofNat (128 + n >>> (6 * i) % 64)
  if n < 0x80 then [UInt8.ofNat n]
  else if n < 0x800 then UInt8.ofNat (0xC0 + n / 64) :: tail 1
  else if n < 0x10000 then UInt8.ofNat (0xE0 + n >>> 12) :: tail 2
  else if n < 0x200000 then UInt8.ofNat (0xF0 + n >>> 18) :: tail 3
  else if n < 0x4000000 then UInt8.ofNat (0xF8 + n >>> 24) :: tail 4
  else UInt8.ofNat (0xFC + n >>> 30) :: tail 5

/-- The bytes that an escape of one letter stands for. -/
def simpleEscape? (b : UInt8) : Option UInt8 :=
  [(97, 7), (98, 8), (102, 12), (110, 10), (114, 13), (116, 9), (118, 11), (92, 92), (34, 34),
    (39, 39)].lookup b

/-- The bytes that an escape stands for, what follows it, and how many lines it takes; the
backslash has been passed. -/
def escape? : Bytes → Option (Bytes × Bytes × Nat)
  | [] => none
  | b :: bs =>
      if let some c := simpleEscape? b then some ([c], bs, 0)
      else if isLineEnd b then some ([10], afterLineEnd (b :: bs), 1)
      else if b = 120 then
        let ds := (bs.take 2).takeWhile (Number.isDigitOf 16)
        if ds.length = 2 then some ([UInt8.ofNat (Number.ofDigits 16 ds)], bs.drop 2, 0) else none
      else if b = 122 then
        let blanks := bs.takeWhile Number.isSpace
        some ([], bs.drop blanks.length, lineEnds blanks)
      else if Decimal.isDigit b then
        let ds := ((b :: bs).take 3).takeWhile Decimal.isDigit
        let n := Decimal.ofDigits ds
        if n < 256 then some ([UInt8.ofNat n], (b :: bs).drop ds.length, 0) else none
      else if b = 117 then
        match bs with
        | 123 :: rest =>
            let ds := rest.takeWhile (Number.isDigitOf 16)
            let n := Number.ofDigits 16 ds
            match rest.drop ds.length with
            | 125 :: rest => if ds ≠ [] ∧ n < 0x80000000 then some (utf8 n, rest, 0) else none
            | _ => none
        | _ => none
      else none

/-- The inside of a string that ends with `quote`, what follows it, and the line reached. -/
def quoted (quote : UInt8) : (fuel line : Nat) → (done : Bytes) → Bytes →
    Option (Bytes × Bytes) × Nat
  | 0, line, _, _ => (none, line)
  | _, line, _, [] => (none, line)
  | fuel + 1, line, done, b :: bs =>
      if b = quote then (some (done.reverse, bs), line)
      else if isLineEnd b then (none, line)
      else if b = 92 then
        match escape? bs with
        | some (cs, rest, lines) =>
            quoted quote fuel (line + lines) (cs.reverse ++ done) rest
        | none => (none, line)
      else quoted quote fuel line (b :: done) bs

/-! ## Numbers -/

/-- How far the text of a number reaches: digits of both bases, points, and exponents with their
signs. -/
def numeralLength (hexadecimal : Bool) : Bytes → Nat
  | [] => 0
  | b :: bs =>
      let isMark :=
        if hexadecimal then b == 112 || b == 80 else b == 101 || b == 69
      match bs with
      | s :: rest =>
          if isMark && (s == 43 || s == 45) then 2 + numeralLength hexadecimal rest
          else if isMark || Number.isDigitOf 16 b || b == 46 then
            1 + numeralLength hexadecimal (s :: rest)
          else 0
      | [] => if isMark || Number.isDigitOf 16 b || b == 46 then 1 else 0

/-- The number at the front, and what follows it. A letter that touches it spoils it. -/
def number (bs : Bytes) : Option (Number × Bytes) :=
  let start := match bs with
    | 48 :: mark :: _ => if mark == 120 || mark == 88 then 2 else 0
    | _ => 0
  let length := start + numeralLength (start == 2) (bs.drop start)
  let rest := bs.drop length
  if (rest.head?.map startsName).getD false then none
  else (Number.ofText? (bs.take length)).map fun n => (n, rest)

/-! ## Scanning -/

/-- One step of a scan: a lexeme or a blank, and what follows it. -/
inductive Step where
  | lexeme (l : Lexeme) (rest : Bytes)
  | blank (line : Nat) (rest : Bytes)
  /-- The last lexeme. -/
  | last (l : Lexeme)

/-- A text that reaches from one mark to another, as a token. -/
def ofText : Option (Bytes × Bytes) × Nat → Step
  | (some (text, rest), line) => .lexeme ⟨.string text, line⟩ rest
  | (none, line) => .last ⟨.malformed, line⟩

/-- What follows two hyphens: a comment, long or up to the end of the line. -/
def comment (line : Nat) (bs : Bytes) : Step :=
  match openBracket bs with
  | some (some (level, inside)) =>
      match longText level line inside with
      | (some (_, rest), line) => .blank line rest
      | (none, line) => .last ⟨.malformed, line⟩
  | _ => .blank line (bs.dropWhile fun b => !isLineEnd b)

/-- A name or a reserved word. -/
def word (bs : Bytes) : Token :=
  match reserved.find? fun w => Bytes.ofString w = bs with
  | some w => .fixed w
  | none => .name bs

/-- The lexeme or blank at the front. -/
def step (line : Nat) : Bytes → Step
  | [] => .last ⟨.finish, line⟩
  | b :: bs =>
      if isLineEnd b then .blank (line + 1) (afterLineEnd (b :: bs))
      else if Number.isSpace b then .blank line bs
      else if b = 45 ∧ bs.head? = some 45 then comment line (bs.drop 1)
      else if b = 34 ∨ b = 39 then ofText (quoted b (bs.length + 1) line [] bs)
      else if startsName b then
        .lexeme ⟨word ((b :: bs).takeWhile isNameByte), line⟩ ((b :: bs).dropWhile isNameByte)
      else if Decimal.isDigit b ∨ (b = 46 ∧ (bs.head?.map Decimal.isDigit).getD false) then
        match number (b :: bs) with
        | some (n, rest) => .lexeme ⟨.number n, line⟩ rest
        | none => .last ⟨.malformed, line⟩
      else
        match openBracket (b :: bs) with
        | some (some (level, inside)) => ofText (longText level line inside)
        | some none => .last ⟨.malformed, line⟩
        | none =>
            match sign? (b :: bs) with
            | some (s, rest) => .lexeme ⟨.fixed s, line⟩ rest
            | none => .lexeme ⟨.fixed (Bytes.toHex [b]), line⟩ bs

/-- The lexemes of a text that begins on a line. -/
def scanFrom : (fuel line : Nat) → Bytes → List Lexeme
  | 0, line, _ => [⟨.finish, line⟩]
  | fuel + 1, line, bs =>
      match step line bs with
      | .lexeme l rest => l :: scanFrom fuel l.line rest
      | .blank line rest => scanFrom fuel line rest
      | .last l => [l]

/-- The lexemes of a script. A first line that names an interpreter is passed over. -/
def scan (source : Bytes) : List Lexeme :=
  let bs := match source with
    | 35 :: 33 :: rest => rest.dropWhile fun b => !isLineEnd b
    | _ => source
  scanFrom (bs.length + 1) 1 bs

end Lexeme

end PagedStore.Script
