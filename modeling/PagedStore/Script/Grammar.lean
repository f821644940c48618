import PagedStore.Script.Lexeme
import PagedStore.Script.Program

/-!
# The grammar of scripts

Lexemes are read into a program from left to right, looking at one of them at a time and at one
more within the construction of a table. A fault is reported with the line on which the lexeme
ends that is looked at when the fault is found.

Names are looked up while reading: the locals of every block that is open are known. So are the
labels, and the jumps that have not met their label yet. A jump that leaves a block without having
met its label is handed to the block around, and one that leaves a function is a fault; the way
out of a loop is a jump of this sort to the end of the loop.
-/

set_option autoImplicit false

namespace PagedStore.Script

/-! ## Scopes -/

/-- A local variable. -/
structure Local where
  name : Bytes
  /-- Whether it may not be assigned to. -/
  constant : Bool := false

/-- A block that is being read. -/
structure OpenBlock where
  isLoop : Bool
  /-- The local variables, the newest first. -/
  locals : List Local := []
  /-- The labels, each with the number of local variables it can see. -/
  labels : List (Bytes × Nat) := []
  /-- The jumps that look for a label, each with the number of local variables it can see. -/
  jumps : List (Bytes × Nat) := []

/-- A function that is being read: its blocks, the innermost first. -/
structure OpenFunction where
  takesRest : Bool
  blocks : List OpenBlock

/-- What has been read so far. -/
structure Reading where
  rest : List Lexeme
  /-- The functions that are open, the innermost first. -/
  functions : List OpenFunction

namespace OpenFunction

/-- The number of local variables that can be seen. -/
def visible (f : OpenFunction) : Nat :=
  f.blocks.foldl (fun n block => n + block.locals.length) 0

/-- The local variable of a name. -/
def find? (f : OpenFunction) (name : Bytes) : Option Local :=
  (f.blocks.flatMap (·.locals)).find? (·.name == name)

/-- Changes the innermost block. -/
def modify (f : OpenFunction) (g : OpenBlock → OpenBlock) : OpenFunction :=
  match f.blocks with
  | b :: rest => { f with blocks := g b :: rest }
  | [] => f

/-- The number of local variables that a label can see, if it is there. -/
def label? (f : OpenFunction) (name : Bytes) : Option Nat :=
  (f.blocks.flatMap (·.labels)).lookup name

end OpenFunction

/-! ## Reading -/

/-- A step of reading; a fault is a line. -/
abbrev Reader := StateT Reading (Except Nat)

namespace Reader

/-- The name of the label at the end of a loop. -/
def loopEnd : Bytes := Bytes.ofString "break"

/-- The lexeme that is looked at. -/
def current : Reader Lexeme := return ((← get).rest.head?).getD ⟨.finish, 0⟩

/-- The token that is looked at. -/
def token : Reader Token := return (← current).token

/-- The line on which it ends. -/
def line : Reader Nat := return (← current).line

/-- Finds a fault. -/
def fail {α : Type} : Reader α := do throw (← line)

/-- Goes on to the next lexeme. -/
def advance : Reader Unit := do
  modify fun r => { r with rest := r.rest.tail }
  match ← token with
  | .malformed => fail
  | _ => pure ()

/-- Whether a word or sign is looked at. -/
def at? (text : String) : Reader Bool := do
  match ← token with
  | .fixed s => return s == text
  | _ => return false

/-- Goes past a word or sign if it is there. -/
def accept (text : String) : Reader Bool := do
  if ← at? text then
    advance
    return true
  else return false

/-- Goes past a word or sign that must be there. -/
def expect (text : String) : Reader Unit := do
  if !(← accept text) then fail

/-- Reads a name. -/
def name : Reader Bytes := do
  match ← token with
  | .name bs =>
      advance
      return bs
  | _ => fail

/-- Whether a block ends here; with `orUntil`, also before the condition of a loop. -/
def atBlockEnd (orUntil : Bool) : Reader Bool := do
  match ← token with
  | .finish => return true
  | .fixed s => return s == "else" || s == "elseif" || s == "end" || (orUntil && s == "until")
  | _ => return false

/-! ### Scopes -/

/-- Changes the innermost function. -/
def onFunction (g : OpenFunction → OpenFunction) : Reader Unit :=
  modify fun r =>
    match r.functions with
    | f :: rest => { r with functions := g f :: rest }
    | [] => r

/-- The innermost function. -/
def function : Reader OpenFunction :=
  return ((← get).functions.head?).getD ⟨false, []⟩

/-- Makes local variables known. -/
def declare (ls : List Local) : Reader Unit :=
  onFunction (·.modify fun b => { b with locals := ls.reverse ++ b.locals })

/-- Opens a block. -/
def openBlock (isLoop : Bool) : Reader Unit :=
  onFunction fun f => { f with blocks := { isLoop := isLoop } :: f.blocks }

/-- Closes the innermost block; jumps that still look for their label go to the block around. -/
def closeBlock : Reader Unit := do
  match (← function).blocks with
  | b :: outer :: rest =>
      let jumps := if b.isLoop then b.jumps.filter (·.1 != loopEnd) else b.jumps
      onFunction fun f =>
        let seen := { f with blocks := outer :: rest }.visible
        { f with blocks :=
            { outer with jumps := jumps.map (fun j => (j.1, min j.2 seen)) ++ outer.jumps } ::
              rest }
  | _ => pure ()

/-- Opens a function. -/
def openFunction : Reader Unit :=
  modify fun r => { r with functions := ⟨false, [{ isLoop := false }]⟩ :: r.functions }

/-- Closes the innermost function, in which every jump must have met its label. -/
def closeFunction : Reader Unit := do
  if (← function).blocks.any fun b => !b.jumps.isEmpty then fail
  modify fun r => { r with functions := r.functions.tail }

/-- What a name stands for. -/
def kindOf (name : Bytes) : Reader NameKind := do
  match (← get).functions with
  | f :: outer =>
      if (f.find? name).isSome then return .own
      else if outer.any fun g => (g.find? name).isSome then return .outer
      else return .global
  | [] => return .global

/-- Whether a name stands for a variable that may not be assigned to. -/
def isConstant (name : Bytes) : Reader Bool := do
  return (((← get).functions.findSome? (·.find? name)).map (·.constant)).getD false

/-- Notes a jump to a label that has not been met. -/
def jumpTo (label : Bytes) : Reader Unit := do
  let seen := (← function).visible
  onFunction (·.modify fun b => { b with jumps := (label, seen) :: b.jumps })

/-- Notes a label, and that the jumps of its block have met it. A jump may not lead to where a
local variable can be seen that it does not see itself; at the end of its block a label sees none
of the variables of the block. -/
def meetLabel (label : Bytes) (atEnd : Bool) : Reader Unit := do
  let f ← function
  match f.blocks with
  | b :: _ =>
      let seen := if atEnd then f.visible - b.locals.length else f.visible
      if b.jumps.any fun j => j.1 == label && j.2 < seen then fail
      onFunction (·.modify fun b => { b with
        labels := (label, seen) :: b.labels
        jumps := b.jumps.filter (·.1 != label) })
  | [] => pure ()

/-! ### Operators -/

/-- The operation on one value that a sign stands for. -/
def unaryOf? : Token → Option UnaryOp
  | .fixed s =>
      [("not", .not), ("-", .negate), ("~", .complement), ("#", .length)].lookup s
  | _ => none

/-- An operation on two values, and how strongly it binds on its left and on its right. -/
def operators : List (String × BinaryOp × Nat × Nat) :=
  [("+", .arithmetic .add, 10, 10), ("-", .arithmetic .sub, 10, 10),
    ("*", .arithmetic .mul, 11, 11), ("%", .arithmetic .mod, 11, 11),
    ("^", .arithmetic .pow, 14, 13), ("/", .arithmetic .div, 11, 11),
    ("//", .arithmetic .floorDiv, 11, 11), ("&", .bits .and, 6, 6), ("|", .bits .or, 4, 4),
    ("~", .bits .xor, 5, 5), ("<<", .bits .shiftLeft, 7, 7), (">>", .bits .shiftRight, 7, 7),
    ("..", .concat, 9, 8), ("==", .compare .eq, 3, 3), ("<", .compare .lt, 3, 3),
    ("<=", .compare .le, 3, 3), ("~=", .compare .ne, 3, 3), (">", .compare .gt, 3, 3),
    (">=", .compare .ge, 3, 3), ("and", .and, 2, 2), ("or", .or, 1, 1)]

/-- How strongly an operation on one value binds. -/
def unaryStrength : Nat := 12

/-- The operation on two values that a sign stands for. -/
def binaryOf? : Token → Option (BinaryOp × Nat × Nat)
  | .fixed s => operators.lookup s
  | _ => none

/-- Whether an expression is a variable, a place in a table included. -/
def isVariable : Expr → Bool
  | .name .. => true
  | .index .. => true
  | _ => false

/-- Whether an expression is a call. -/
def isCall : Expr → Bool
  | .call .. => true
  | .method .. => true
  | _ => false

/-- Whether an equals sign comes after the lexeme that is looked at. -/
def equalsFollows : Reader Bool := do
  match (← get).rest.tail.head? with
  | some ⟨.fixed s, _⟩ => return s == "="
  | some ⟨.malformed, n⟩ => throw n
  | _ => return false

/-- Refuses to assign to what is constant. -/
def checkAssignable : Expr → Reader Unit
  | .name kind n => do
      if kind != .global && (← isConstant n) then fail
  | _ => pure ()

/-- The attribute of a local variable, if there is one; tells whether it may not be assigned to. -/
def attribute? : Reader Bool := do
  if ← accept "<" then
    let a ← name
    expect ">"
    if a = Bytes.ofString "const" ∨ a = Bytes.ofString "close" then return true else fail
  else return false

/-- Goes past what separates the items of a table. -/
def separator : Reader Bool := do
  if ← accept "," then return true else accept ";"

/-! ### Expressions and statements -/

mutual

/-- Reads an expression up to an operator that binds no more strongly than `limit`. -/
def expression (limit : Nat) : (fuel : Nat) → Reader Expr
  | 0 => fail
  | fuel + 1 => do
      match unaryOf? (← token) with
      | some op =>
          let n ← line
          advance
          let e ← expression unaryStrength fuel
          operations limit (.unary op e n) fuel
      | none => operations limit (← simple fuel) fuel
termination_by structural n => n

/-- Reads what follows an operand. -/
def operations (limit : Nat) (left : Expr) : (fuel : Nat) → Reader Expr
  | 0 => fail
  | fuel + 1 => do
      match binaryOf? (← token) with
      | none => return left
      | some (op, onLeft, onRight) =>
          if onLeft ≤ limit then return left
          let n ← line
          advance
          let right ← expression onRight fuel
          operations limit (.binary op left right n) fuel
termination_by structural n => n

/-- Reads an operand. -/
def simple : (fuel : Nat) → Reader Expr
  | 0 => fail
  | fuel + 1 => do
      let constant (e : Expr) : Reader Expr := do
        advance
        return e
      match ← token with
      | .number n => constant (.number n)
      | .string bs => constant (.string bs)
      | .fixed "nil" => constant .nil
      | .fixed "true" => constant (.bool true)
      | .fixed "false" => constant (.bool false)
      | .fixed "..." => if (← function).takesRest then constant .rest else fail
      | .fixed "\x7b" => table fuel
      | .fixed "function" =>
          advance
          return .function (← body [] fuel)
      | _ => suffixes (← primary fuel) fuel
termination_by structural n => n

/-- Reads a name or an expression in parentheses. -/
def primary : (fuel : Nat) → Reader Expr
  | 0 => fail
  | fuel + 1 => do
      match ← token with
      | .name n =>
          advance
          return .name (← kindOf n) n
      | .fixed "(" =>
          advance
          let e ← expression 0 fuel
          expect ")"
          return .paren e
      | _ => fail
termination_by structural n => n

/-- Reads places in tables and calls that follow an expression. -/
def suffixes (e : Expr) : (fuel : Nat) → Reader Expr
  | 0 => fail
  | fuel + 1 => do
      let n ← line
      match ← token with
      | .fixed "." =>
          advance
          let key ← name
          suffixes (.index e (.string key) n) fuel
      | .fixed "[" =>
          let key ← subscript fuel
          suffixes (.index e key n) fuel
      | .fixed ":" =>
          advance
          let method ← name
          let n ← line
          suffixes (.method e method (← arguments fuel) n) fuel
      | .fixed "(" => suffixes (.call e (← arguments fuel) n) fuel
      | .fixed "\x7b" => suffixes (.call e (← arguments fuel) n) fuel
      | .string _ => suffixes (.call e (← arguments fuel) n) fuel
      | _ => return e
termination_by structural n => n

/-- Reads an expression in square brackets. -/
def subscript : (fuel : Nat) → Reader Expr
  | 0 => fail
  | fuel + 1 => do
      advance
      let key ← expression 0 fuel
      expect "]"
      return key
termination_by structural n => n

/-- Reads the arguments of a call. -/
def arguments : (fuel : Nat) → Reader (List Expr)
  | 0 => fail
  | fuel + 1 => do
      match ← token with
      | .string bs =>
          advance
          return [.string bs]
      | .fixed "\x7b" => return [← table fuel]
      | .fixed "(" =>
          advance
          if ← accept ")" then return []
          let es ← expressions fuel
          expect ")"
          return es
      | _ => fail
termination_by structural n => n

/-- Reads expressions with commas between them. -/
def expressions : (fuel : Nat) → Reader (List Expr)
  | 0 => fail
  | fuel + 1 => do
      let e ← expression 0 fuel
      if ← accept "," then return e :: (← expressions fuel) else return [e]
termination_by structural n => n

/-- Reads the construction of a table. -/
def table : (fuel : Nat) → Reader Expr
  | 0 => fail
  | fuel + 1 => do
      expect "\x7b"
      let is ← items fuel
      expect "\x7d"
      return .table is
termination_by structural n => n

/-- Reads the items of a table. -/
def items : (fuel : Nat) → Reader (List Item)
  | 0 => fail
  | fuel + 1 => do
      if ← at? "\x7d" then return []
      let i ← item fuel
      if ← separator then return i :: (← items fuel) else return [i]
termination_by structural n => n

/-- Reads an item of a table. -/
def item : (fuel : Nat) → Reader Item
  | 0 => fail
  | fuel + 1 => do
      let n ← line
      match ← token with
      | .name key =>
          if ← equalsFollows then
            advance
            advance
            return .pair (.string key) (← expression 0 fuel) n
          else return .next (← expression 0 fuel)
      | .fixed "[" =>
          let key ← subscript fuel
          expect "="
          return .pair key (← expression 0 fuel) n
      | _ => return .next (← expression 0 fuel)
termination_by structural n => n

/-- Reads the parameters and the body of a function that has `hidden` parameters in front. -/
def body (hidden : List Bytes) : (fuel : Nat) → Reader Function
  | 0 => fail
  | fuel + 1 => do
      openFunction
      expect "("
      let (params, takesRest) ← if ← at? ")" then pure ([], false) else parameters fuel
      let params := hidden ++ params
      onFunction fun f => { f with takesRest := takesRest }
      declare (params.map fun n => ⟨n, false⟩)
      expect ")"
      let statements ← statements fuel
      expect "end"
      closeFunction
      return .mk params takesRest statements
termination_by structural n => n

/-- Reads the names of parameters, and whether more values are taken. -/
def parameters : (fuel : Nat) → Reader (List Bytes × Bool)
  | 0 => fail
  | fuel + 1 => do
      if ← accept "..." then return ([], true)
      let n ← name
      if ← accept "," then
        let (ns, takesRest) ← parameters fuel
        return (n :: ns, takesRest)
      else return ([n], false)
termination_by structural n => n

/-- Reads statements up to the end of a block. -/
def statements : (fuel : Nat) → Reader (List Statement)
  | 0 => fail
  | fuel + 1 => do
      if ← atBlockEnd true then return []
      if ← at? "return" then statement fuel
      else return (← statement fuel) ++ (← statements fuel)
termination_by structural n => n

/-- Reads the statements of a block of their own. -/
def block : (fuel : Nat) → Reader (List Statement)
  | 0 => fail
  | fuel + 1 => do
      openBlock false
      let ss ← statements fuel
      closeBlock
      return ss
termination_by structural n => n

/-- Reads a statement. There is none in a lone semicolon, and labels in a row are several. -/
def statement : (fuel : Nat) → Reader (List Statement)
  | 0 => fail
  | fuel + 1 => do
      let n ← line
      match ← token with
      | .fixed ";" =>
          advance
          return []
      | .fixed "if" =>
          advance
          return [← branches [] fuel]
      | .fixed "while" =>
          advance
          let condition ← expression 0 fuel
          openBlock true
          expect "do"
          let ss ← block fuel
          expect "end"
          closeBlock
          return [.whileLoop condition ss]
      | .fixed "do" =>
          advance
          let ss ← block fuel
          expect "end"
          return [.block ss]
      | .fixed "for" =>
          openBlock true
          advance
          let s ← forLoop n fuel
          expect "end"
          closeBlock
          return [s]
      | .fixed "repeat" =>
          openBlock true
          openBlock false
          advance
          let ss ← statements fuel
          expect "until"
          let condition ← expression 0 fuel
          closeBlock
          closeBlock
          return [.repeatLoop ss condition]
      | .fixed "function" =>
          advance
          return [← named n fuel]
      | .fixed "local" =>
          advance
          if ← accept "function" then
            let f ← name
            declare [⟨f, false⟩]
            return [.declareFunction f (← body [] fuel)]
          else return [← locals [] fuel]
      | .fixed "::" =>
          advance
          let l ← name
          expect "::"
          let more ← emptyStatements fuel
          if ((← function).label? l).isSome then fail
          meetLabel l (← atBlockEnd false)
          return .label l :: more
      | .fixed "return" =>
          advance
          let es ← if (← atBlockEnd true) || (← at? ";") then pure [] else expressions fuel
          let _ ← accept ";"
          return [.give es]
      | .fixed "break" =>
          advance
          jumpTo loopEnd
          return [.leave]
      | .fixed "goto" =>
          advance
          let l ← name
          if ((← function).label? l).isNone then jumpTo l
          return [.jump l]
      | _ =>
          let e ← suffixes (← primary fuel) fuel
          if (← at? "=") || (← at? ",") then return [← assignment n [e] fuel]
          else if isCall e then return [.perform e]
          else fail
termination_by structural n => n

/-- Reads labels and semicolons. -/
def emptyStatements : (fuel : Nat) → Reader (List Statement)
  | 0 => fail
  | fuel + 1 => do
      if (← at? ";") || (← at? "::") then
        return (← statement fuel) ++ (← emptyStatements fuel)
      else return []
termination_by structural n => n

/-- Reads the condition and the block of a branch, and the branches after it. -/
def branches (before : List (Expr × List Statement)) : (fuel : Nat) → Reader Statement
  | 0 => fail
  | fuel + 1 => do
      let condition ← expression 0 fuel
      expect "then"
      let ss ← block fuel
      let done := before ++ [(condition, ss)]
      if ← accept "elseif" then branches done fuel
      else
        let otherwise ← if ← accept "else" then block fuel else pure []
        expect "end"
        return .choose done otherwise
termination_by structural n => n

/-- Reads a loop over numbers or over the results of calls, after its first word. -/
def forLoop (n : Nat) : (fuel : Nat) → Reader Statement
  | 0 => fail
  | fuel + 1 => do
      let counter ← name
      match ← token with
      | .fixed "=" =>
          advance
          let first ← expression 0 fuel
          expect ","
          let last ← expression 0 fuel
          let step ← if ← accept "," then some <$> expression 0 fuel else pure none
          return .count counter first last step (← loopBody [counter] fuel) n
      | .fixed s =>
          if s = "," ∨ s = "in" then
            let more ← names fuel
            expect "in"
            let n ← line
            let es ← expressions fuel
            return .iterate (counter :: more) es (← loopBody (counter :: more) fuel) n
          else fail
      | _ => fail
termination_by structural n => n

/-- Reads further names, each after a comma. -/
def names : (fuel : Nat) → Reader (List Bytes)
  | 0 => fail
  | fuel + 1 => do
      if ← accept "," then
        let n ← name
        return n :: (← names fuel)
      else return []
termination_by structural n => n

/-- Reads the body of a loop that has variables of its own. -/
def loopBody (own : List Bytes) : (fuel : Nat) → Reader (List Statement)
  | 0 => fail
  | fuel + 1 => do
      expect "do"
      openBlock false
      declare (own.map fun n => ⟨n, false⟩)
      let ss ← block fuel
      closeBlock
      return ss
termination_by structural n => n

/-- Reads the definition of a function under a name, which may be a place in a table. -/
def named (n : Nat) : (fuel : Nat) → Reader Statement
  | 0 => fail
  | fuel + 1 => do
      let first ← name
      let (target, hidden) ← place (.name (← kindOf first) first) fuel
      let f ← body hidden fuel
      checkAssignable target
      return .assign [target] [.function f] n
termination_by structural n => n

/-- Reads the place that a name leads to, and the parameters that a method has in front. -/
def place (e : Expr) : (fuel : Nat) → Reader (Expr × List Bytes)
  | 0 => fail
  | fuel + 1 => do
      let n ← line
      if ← accept "." then
        let key ← name
        place (.index e (.string key) n) fuel
      else if ← accept ":" then
        let key ← name
        return (.index e (.string key) n, [Bytes.ofString "self"])
      else return (e, [])
termination_by structural n => n

/-- Reads the declaration of local variables, some of which have been read. -/
def locals (before : List Local) : (fuel : Nat) → Reader Statement
  | 0 => fail
  | fuel + 1 => do
      let n ← name
      let done := before ++ [⟨n, ← attribute?⟩]
      if ← accept "," then locals done fuel
      else
        let es ← if ← accept "=" then expressions fuel else pure []
        declare done
        return .declare (done.map (·.name)) es
termination_by structural n => n

/-- Reads an assignment to variables, some of which have been read. -/
def assignment (n : Nat) (targets : List Expr) : (fuel : Nat) → Reader Statement
  | 0 => fail
  | fuel + 1 => do
      match targets.getLast? with
      | none => fail
      | some e =>
          if !isVariable e then fail
          checkAssignable e
          if ← accept "," then
            let next ← suffixes (← primary fuel) fuel
            assignment n (targets ++ [next]) fuel
          else
            expect "="
            let es ← expressions fuel
            return .assign targets es n
termination_by structural n => n

end

/-- Reads a whole script. -/
def script (fuel : Nat) : Reader Function := do
  match ← token with
  | .malformed => fail
  | _ =>
      openFunction
      onFunction fun f => { f with takesRest := true }
      let ss ← statements fuel
      match ← token with
      | .finish =>
          closeFunction
          return .mk [] true ss
      | _ => fail

end Reader

/-- The program of a script, or the line of its first fault. No lexeme leads more than a few
levels deeper into the grammar, which is what the fuel is reckoned from. -/
def Function.ofSource (source : Bytes) : Except Nat Function :=
  let lexemes := Lexeme.scan source
  ((Reader.script (40 * (lexemes.length + 2))).run ⟨lexemes, []⟩).map (·.1)

end PagedStore.Script
