import PagedStore.Script.Machine

/-!
# Operators

What the operators make of values. Arithmetic takes a string for the number that it spells; a row
of strings takes a number for its text; the operations on bits take whole numbers only. Nothing
else is converted, so that an operand of another type is a fault, which the report describes by
where the operand came from.
-/

set_option autoImplicit false

namespace PagedStore.Script

/-- A value and the expression that it came from. -/
structure Operand where
  value : Value
  source : Expr

/-- How reports describe the value of an expression, as far as it has a name. -/
def Expr.description : Expr → String
  | .name k n =>
      let sort := match k with
        | .own => "local"
        | .outer => "upvalue"
        | .global => "global"
      " (" ++ sort ++ " '" ++ Text.decode n ++ "')"
  | .index _ key _ =>
      let name := match key with
        | .string bs => Text.decode bs
        | .number (.int i) => if 0 ≤ i ∧ i ≤ 255 then "integer index" else "?"
        | _ => "?"
      " (field '" ++ name ++ "')"
  | .string bs => " (constant '" ++ Text.decode bs ++ "')"
  | .paren e => e.description
  | _ => ""

/-- How reports describe what an expression calls. -/
def Expr.calleeDescription : Expr → String
  | .call f _ _ => f.description
  | .method _ n _ _ => " (method '" ++ Text.decode n ++ "')"
  | _ => ""

namespace Eval

variable {α : Type}

/-- Fails because something cannot be done with a value. -/
def typeFault (line : Option Nat) (deed : String) (v : Value) (description : String) : Eval α :=
  faultAt line ("attempt to " ++ deed ++ " a " ++ v.typeName ++ " value" ++ description)

/-! ## Arithmetic -/

/-- The name of an operation in reports about strings that spell no number. -/
def arithmeticName : ArithmeticOp → String
  | .add => "add"
  | .sub => "sub"
  | .mul => "mul"
  | .div => "div"
  | .mod => "mod"
  | .pow => "pow"
  | .floorDiv => "idiv"

/-- The result of an operation on numbers, or why there is none. -/
def calculate (op : ArithmeticOp) (a b : Number) : Except String Number :=
  match op with
  | .add => .ok (a.add b)
  | .sub => .ok (a.sub b)
  | .mul => .ok (a.mul b)
  | .div => .ok (a.div b)
  | .pow => .ok (a.pow b)
  | .floorDiv => (a.floorDiv? b).elim (.error "attempt to divide by zero") .ok
  | .mod => (a.floorMod? b).elim (.error "attempt to perform 'n%0'") .ok

/-- The result of an operation on numbers. -/
def calculated (line : Option Nat) (op : ArithmeticOp) (a b : Number) : Eval Value :=
  match calculate op a b with
  | .ok n => return .number n
  | .error report => faultAt line report

/-- Whether a value is a string. -/
def isString : Value → Bool
  | .string _ => true
  | _ => false

/-- Fails because one of two operands is no number; the first of them is blamed. -/
def operandFault (line : Option Nat) (deed : String) (a b : Operand) : Eval α :=
  match a.value with
  | .number _ => typeFault line deed b.value b.source.description
  | v => typeFault line deed v a.source.description

/-- An operation that reports call `name`, on operands of which one is no number. -/
def coerced (line : Option Nat) (name : String) (a b : Operand)
    (operation : Number → Number → Eval Value) : Eval Value :=
  if isString a.value || isString b.value then
    match a.value.toNumber?, b.value.toNumber? with
    | some m, some n => operation m n
    | _, _ => faultAt line ("attempt to " ++ name ++ " a '" ++ a.value.typeName ++ "' with a '" ++
        b.value.typeName ++ "'")
  else operandFault line "perform arithmetic on" a b

/-- An arithmetic operation. -/
def arithmetic (line : Nat) (op : ArithmeticOp) (a b : Operand) : Eval Value :=
  match a.value, b.value with
  | .number m, .number n => calculated line op m n
  | _, _ => coerced line (arithmeticName op) a b (calculated none op)

/-- The value with the other sign. -/
def negate (line : Nat) (a : Operand) : Eval Value :=
  match a.value with
  | .number n => return .number n.negate
  | _ => coerced line "unm" a a fun n _ => return .number n.negate

/-! ## Bits -/

/-- The result of an operation on bits. -/
def combine (op : BitOp) (i j : Int64) : Int64 :=
  match op with
  | .and => i &&& j
  | .or => i ||| j
  | .xor => i ^^^ j
  | .shiftLeft => Number.shiftLeft i j
  | .shiftRight => Number.shiftRight i j

/-- An operation on the bits of two integers. -/
def onBits (line : Nat) (a b : Operand) (operation : Int64 → Int64 → Int64) : Eval Value :=
  match a.value, b.value with
  | .number m, .number n =>
      match m.toInt?, n.toInt? with
      | some i, some j => return .int (operation i j)
      | none, _ =>
          faultAt line ("number" ++ a.source.description ++ " has no integer representation")
      | _, none =>
          faultAt line ("number" ++ b.source.description ++ " has no integer representation")
  | _, _ => operandFault line "perform bitwise operation on" a b

/-- An operation on bits. -/
def bitwise (line : Nat) (op : BitOp) (a b : Operand) : Eval Value := onBits line a b (combine op)

/-- The value with every bit turned over. -/
def complement (line : Nat) (a : Operand) : Eval Value := onBits line a a fun i _ => ~~~i

/-! ## Strings and lengths -/

/-- Two values in a row. -/
def concat (line : Nat) (a b : Operand) : Eval Value :=
  match a.value.toText?, b.value.toText? with
  | some x, some y => return .string (x ++ y)
  | none, _ => typeFault line "concatenate" a.value a.source.description
  | _, none => typeFault line "concatenate" b.value b.source.description

/-- The length of a value. -/
def length (line : Nat) (a : Operand) : Eval Value := do
  match a.value with
  | .string bs => return .int (Int64.ofNat bs.length)
  | .table id => return .int (Int64.ofNat (← readTable id).length)
  | v => typeFault line "get length of" v a.source.description

/-! ## Comparison -/

/-- Fails because two values have no order. -/
def orderFault (line : Nat) (a b : Value) : Eval α :=
  if a.typeName = b.typeName then
    faultAt line ("attempt to compare two " ++ a.typeName ++ " values")
  else faultAt line ("attempt to compare " ++ a.typeName ++ " with " ++ b.typeName)

/-- Whether a value is less than another one, or as great as it if that is enough. -/
def isBelow (line : Nat) (orEqual : Bool) (a b : Value) : Eval Bool :=
  match a, b with
  | .number m, .number n =>
      let o := m.compare? n
      return o == some .lt || (orEqual && o == some .eq)
  | .string x, .string y => return decide (x < y) || (orEqual && x == y)
  | a, b => orderFault line a b

/-- A comparison. What is greater is turned round first. -/
def compare (line : Nat) (op : Comparison) (a b : Value) : Eval Value := do
  match op with
  | .eq => return .bool (a.same b)
  | .ne => return .bool (!a.same b)
  | .lt => return .bool (← isBelow line false a b)
  | .le => return .bool (← isBelow line true a b)
  | .gt => return .bool (← isBelow line false b a)
  | .ge => return .bool (← isBelow line true b a)

/-! ## Tables -/

/-- Fails if a value can be no key. -/
def checkKey (line : Nat) (key : Value) : Eval Unit :=
  match key with
  | .nil => faultAt line "table index is nil"
  | .number (.float x) => if x.isNaN then faultAt line "table index is NaN" else return
  | _ => return

/-! ## Counting -/

/-- The values that a counting loop runs through: the first one, the step, and how many follow it
or how far they go. -/
inductive Progression where
  | empty
  | ints (first step : Int64) (more : Nat)
  | floats (first step last : Float)

/-- A value that a counting loop is made of. -/
def counting (line : Nat) (part : String) (v : Value) : Eval Number :=
  match v.toNumber? with
  | some n => return n
  | none => faultAt line ("bad 'for' " ++ part ++ " (number expected, got " ++ v.typeName ++ ")")

/-- The last integer that does not go beyond a limit. All limits above the integers of 64 bits are
the same, and so are all below. -/
def lastInt (upward : Bool) (last : Number) : Int :=
  match last with
  | .int i => i.toInt
  | .float x =>
      let whole := if upward then x.floor else x.ceil
      match Number.wholeOf? whole with
      | some i => i.toInt
      | none => if 0.0 < x then Int64.maxValue.toInt + 1 else Int64.minValue.toInt - 1

/-- The integers from `first` to `last` by steps. -/
def intProgression (first step : Int64) (last : Number) : Progression :=
  let upward := decide (0 < step)
  let last := lastInt upward last
  let last := if upward then min Int64.maxValue.toInt last else max Int64.minValue.toInt last
  let distance := if upward then last - first.toInt else first.toInt - last
  if distance < 0 then .empty else .ints first step (distance.toNat / step.toInt.natAbs)

/-- What a counting loop runs through. It counts in integers when it begins with one and its step
is one, and does not run over the greatest of them. -/
def progression (line : Nat) (first last step : Value) : Eval Progression := do
  match first, step with
  | .number (.int i), .number (.int d) =>
      if d = 0 then faultAt line "'for' step is zero"
      return intProgression i d (← counting line "limit" last)
  | _, _ =>
      let last := (← counting line "limit" last).toFloat
      let step := (← counting line "step" step).toFloat
      let first := (← counting line "initial value" first).toFloat
      if step == 0.0 then faultAt line "'for' step is zero"
      return .floats first step last

end Eval

end PagedStore.Script
