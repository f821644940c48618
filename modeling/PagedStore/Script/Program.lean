import PagedStore.Script.Number

/-!
# Programs

What a script says, once it has been found to be well formed. Names are already told apart by what
they stand for, because reports name a variable together with its sort. Places that can fail keep
their line.
-/

set_option autoImplicit false

namespace PagedStore.Script

/-- What a name stands for. -/
inductive NameKind where
  /-- A local variable of the function itself. -/
  | own
  /-- A local variable of a function around it. -/
  | outer
  | global
  deriving DecidableEq, Repr

/-- The operations on one value. -/
inductive UnaryOp where
  | negate | not | length | complement
  deriving DecidableEq, Repr

/-- The arithmetic operations on two values. -/
inductive ArithmeticOp where
  | add | sub | mul | div | mod | pow | floorDiv
  deriving DecidableEq, Repr

/-- The operations on the bits of two integers. -/
inductive BitOp where
  | and | or | xor | shiftLeft | shiftRight
  deriving DecidableEq, Repr

/-- The comparisons. -/
inductive Comparison where
  | eq | ne | lt | le | gt | ge
  deriving DecidableEq, Repr

/-- The operations on two values. -/
inductive BinaryOp where
  | arithmetic (op : ArithmeticOp)
  | bits (op : BitOp)
  | compare (op : Comparison)
  | concat
  | and
  | or
  deriving DecidableEq, Repr

mutual

/-- An expression. -/
inductive Expr where
  | nil
  | bool (b : Bool)
  | number (n : Number)
  | string (bs : Bytes)
  /-- The values given to a function beyond its parameters. -/
  | rest
  | function (f : Function)
  | name (kind : NameKind) (name : Bytes)
  | index (object key : Expr) (line : Nat)
  | call (function : Expr) (args : List Expr) (line : Nat)
  | method (object : Expr) (name : Bytes) (args : List Expr) (line : Nat)
  /-- An expression in parentheses, which has one value only. -/
  | paren (e : Expr)
  | unary (op : UnaryOp) (e : Expr) (line : Nat)
  | binary (op : BinaryOp) (a b : Expr) (line : Nat)
  | table (items : List Item)

/-- An item in the construction of a table. -/
inductive Item where
  /-- At the next number. -/
  | next (value : Expr)
  | pair (key value : Expr) (line : Nat)

/-- What a function consists of. -/
inductive Function where
  | mk (params : List Bytes) (takesRest : Bool) (body : List Statement)

/-- A statement. -/
inductive Statement where
  /-- An expression of which only the effects count. -/
  | perform (e : Expr)
  | assign (targets values : List Expr) (line : Nat)
  | declare (names : List Bytes) (values : List Expr)
  | declareFunction (name : Bytes) (f : Function)
  | block (body : List Statement)
  | whileLoop (condition : Expr) (body : List Statement)
  | repeatLoop (body : List Statement) (condition : Expr)
  | choose (branches : List (Expr × List Statement)) (otherwise : List Statement)
  | count (name : Bytes) (first last : Expr) (step : Option Expr) (body : List Statement)
      (line : Nat)
  | iterate (names : List Bytes) (values : List Expr) (body : List Statement) (line : Nat)
  /-- The way out of a loop. -/
  | leave
  | jump (label : Bytes)
  | label (name : Bytes)
  /-- The way out of a function, with its results. -/
  | give (values : List Expr)

end

/-- How many local variables a statement adds to the block that it stands in. -/
def Statement.declares : Statement → Nat
  | declare names _ => names.length
  | declareFunction .. => 1
  | _ => 0

end PagedStore.Script
