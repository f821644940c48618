import PagedStore.Script.Builtins
import PagedStore.Script.Operation

/-!
# Evaluation

What a program does, as one function for each sort of its parts. A block goes on statement by
statement with the local variables that the ones before have added; a statement that leaves its
block says how (`Signal`), and the nearest part around it that this concerns takes it up: a loop,
the block with the label, or the call.

All functions are recursive in their fuel. A script has far more of it than it could use up, so
fuel only makes evaluation total; a script that does not end is stopped by its deadline.

A function that ends with a call hands it over to its own caller. So the callee has the callers of
the function, and not the function itself, and a chain of such calls is as flat as a loop.
-/

set_option autoImplicit false

namespace PagedStore.Script

/-- What an evaluation sees: the local variables, the values given to the function beyond its
parameters, and who called it. -/
structure Scope where
  locals : Locals
  rest : List Value
  callers : Callers

/-- How a statement or block ends. -/
inductive Signal where
  /-- At its end, with these local variables. -/
  | next (locals : Locals)
  /-- On the way out of a loop. -/
  | left
  /-- On the way to a label. -/
  | jump (label : Bytes)
  /-- With the results of the function. -/
  | given (values : List Value)
  /-- With a call, whose results are those of the function. -/
  | handedOver (function : Value) (args : List Value)

/-- A place to which a value can be assigned. -/
inductive Place where
  | cell (id : Nat)
  | global (name : Bytes)
  | entry (object key : Value) (source : Expr) (line : Nat)

namespace Scope

/-- The callers of a function that is called on a line. -/
def calling (s : Scope) (line : Nat) : Callers := s.callers.push (some line)

/-- A scope with one more local variable. -/
def with1 (s : Scope) (name : Bytes) (cell : Nat) : Scope :=
  { s with locals := (name, cell) :: s.locals }

end Scope

namespace Eval

/-- How deep calls may be nested. -/
def maxDepth : Nat := 150000

/-- How many tables in a row may pass a missing key on. -/
def maxLinks : Nat := 2000

/-- Whether a value can be called. -/
def isFunction : Value → Bool
  | .closure _ => true
  | .builtin _ => true
  | _ => false

/-- The statements after a label of a block, and how many local variables the statements before
it have added. -/
def afterLabel? (label : Bytes) : (added : Nat) → List Statement → Option (Nat × List Statement)
  | _, [] => none
  | added, s :: rest =>
      match s with
      | .label name =>
          if name = label then some (added, rest) else afterLabel? label added rest
      | s => afterLabel? label (added + s.declares) rest

/-- Assigns a value to a place. -/
def assign (p : Place) (v : Value) : Eval Unit := do
  match p with
  | .cell id => writeCell id v
  | .global name => changeTable Machine.ownNames (·.set (.string name) v)
  | .entry (.table id) key _ line =>
      checkKey line key
      changeTable id (·.set key v)
  | .entry object _ source line => typeFault line "index" object source.description

/-- Assigns values to places, to the last one first. -/
def assignAll : List Place → List Value → Eval Unit
  | [], _ => return
  | p :: ps, vs => do
      assignAll ps vs.tail
      assign p (vs.headD .nil)

mutual

/-- The value of an expression. -/
def evaluate (s : Scope) (e : Expr) : (fuel : Nat) → Eval Value
  | 0 => throw .exhausted
  | fuel + 1 => do
      match e with
      | .nil => return .nil
      | .bool b => return .bool b
      | .number n => return .number n
      | .string bs => return .string bs
      | .rest => return s.rest.headD .nil
      | .function f => newClosure ⟨f, s.locals⟩
      | .name .global n =>
          index s.callers .nil (.table Machine.ownNames) (.string n) maxLinks fuel
      | .name _ n =>
          match s.locals.lookup n with
          | some cell => readCell cell
          | none => return .nil
      | .index object key line =>
          let v ← evaluate s object fuel
          index (s.calling line) object v (← evaluate s key fuel) maxLinks fuel
      | .call .. | .method .. => return (← several s e fuel).headD .nil
      | .paren e => evaluate s e fuel
      | .unary op a line =>
          let v ← evaluate s a fuel
          match op with
          | .negate => negate line ⟨v, a⟩
          | .not => return .bool !v.isTrue
          | .length => length line ⟨v, a⟩
          | .complement => complement line ⟨v, a⟩
      | .binary (.arithmetic op) a b line =>
          let v ← evaluate s a fuel
          arithmetic line op ⟨v, a⟩ ⟨← evaluate s b fuel, b⟩
      | .binary (.bits op) a b line =>
          let v ← evaluate s a fuel
          bitwise line op ⟨v, a⟩ ⟨← evaluate s b fuel, b⟩
      | .binary (.compare op) a b line =>
          let v ← evaluate s a fuel
          compare line op v (← evaluate s b fuel)
      | .binary .concat a b line => row s line a b fuel
      | .binary .and a b _ =>
          let v ← evaluate s a fuel
          if v.isTrue then evaluate s b fuel else return v
      | .binary .or a b _ =>
          let v ← evaluate s a fuel
          if v.isTrue then return v else evaluate s b fuel
      | .table is =>
          let (items, pairs) ← constructed s is fuel
          return .table (← newTable (.ofItems items pairs))
termination_by structural n => n

/-- Two operands of a row of strings; a whole row counts as standing on the line of its first
operator. -/
def row (s : Scope) (line : Nat) (a b : Expr) : (fuel : Nat) → Eval Value
  | 0 => throw .exhausted
  | fuel + 1 => do
      let v ← evaluate s a fuel
      let w ← match b with
        | .binary .concat c d _ => row s line c d fuel
        | b => evaluate s b fuel
      concat line ⟨v, a⟩ ⟨w, b⟩
termination_by structural n => n

/-- All values of an expression. -/
def several (s : Scope) (e : Expr) : (fuel : Nat) → Eval (List Value)
  | 0 => throw .exhausted
  | fuel + 1 => do
      match e with
      | .rest => return s.rest
      | .call _ _ line | .method _ _ _ line =>
          let (f, args) ← callee s e fuel
          invoke s line e f args fuel
      | e => return [← evaluate s e fuel]
termination_by structural n => n

/-- What an expression calls, and with which arguments. -/
def callee (s : Scope) (e : Expr) : (fuel : Nat) → Eval (Value × List Value)
  | 0 => throw .exhausted
  | fuel + 1 => do
      match e with
      | .call f args _ =>
          let f ← evaluate s f fuel
          return (f, ← values s args fuel)
      | .method object name args line =>
          let v ← evaluate s object fuel
          let f ← index (s.calling line) object v (.string name) maxLinks fuel
          return (f, v :: (← values s args fuel))
      | _ => return (.nil, [])
termination_by structural n => n

/-- The values of expressions; the last one gives all of its values. -/
def values (s : Scope) (es : List Expr) : (fuel : Nat) → Eval (List Value)
  | 0 => throw .exhausted
  | fuel + 1 => do
      match es with
      | [] => return []
      | [e] => several s e fuel
      | e :: es =>
          let v ← evaluate s e fuel
          return v :: (← values s es fuel)
termination_by structural n => n

/-- The items and pairs of a table that is constructed. -/
def constructed (s : Scope) (is : List Item) :
    (fuel : Nat) → Eval (List Value × List (Value × Value))
  | 0 => throw .exhausted
  | fuel + 1 => do
      match is with
      | [] => return ([], [])
      | [.next e] => return (← several s e fuel, [])
      | .next e :: is =>
          let v ← evaluate s e fuel
          let (items, pairs) ← constructed s is fuel
          return (v :: items, pairs)
      | .pair key value line :: is =>
          let k ← evaluate s key fuel
          let v ← evaluate s value fuel
          checkKey line k
          let (items, pairs) ← constructed s is fuel
          return (items, (k, v) :: pairs)
termination_by structural n => n

/-- The value of a key of an object. Where a table has none, its behaviour says what is asked
next. -/
def index (callers : Callers) (source : Expr) (object key : Value) (links : Nat) :
    (fuel : Nat) → Eval Value
  | 0 => throw .exhausted
  | fuel + 1 => do
      match object with
      | .table id =>
          let t ← readTable id
          match t.get key, t.behaviour with
          | .nil, some m =>
              match (← readTable m).get (.text "__index") with
              | .nil => return .nil
              | next =>
                  if isFunction next then
                    return (← call callers next [object, key] fuel).headD .nil
                  if links = 0 then fault callers "'__index' chain too long; possibly a loop"
                  index callers .nil next key (links - 1) fuel
          | v, _ => return v
      | .string _ => index callers .nil (.table Machine.stringNames) key links fuel
      | v => typeFault (callers.line? 1) "index" v source.description
termination_by structural n => n

/-- Calls what an expression calls, on a line of the script. -/
def invoke (s : Scope) (line : Nat) (e : Expr) (f : Value) (args : List Value) :
    (fuel : Nat) → Eval (List Value)
  | 0 => throw .exhausted
  | fuel + 1 =>
      if isFunction f then call (s.calling line) f args fuel
      else typeFault line "call" f e.calleeDescription
termination_by structural n => n

/-- The results of a call. -/
def call (callers : Callers) (f : Value) (args : List Value) : (fuel : Nat) → Eval (List Value)
  | 0 => throw .exhausted
  | fuel + 1 => do
      if maxDepth ≤ callers.depth then fault callers "stack overflow"
      tick
      match f with
      | .closure id =>
          match (← get).closures[id]? with
          | none => return []
          | some ⟨.mk params takesRest body, around⟩ =>
              let locals ← bindAll params args around
              let rest := if takesRest then args.drop params.length else []
              match ← statements ⟨locals, rest, callers⟩ locals.length body body fuel with
              | .given vs => return vs
              -- The function is over, so its callers are now those of what it called.
              | .handedOver f args => call callers f args fuel
              | _ => return []
      | .builtin .pcall =>
          match args with
          | [] => faultAt none "not enough arguments to pcall"
          | f :: args => guarded (callers.push none) f args fuel
      | .builtin .nextItem =>
          match (args[1]?.getD Value.nil).toNumber?.bind Number.toInt? with
          | none => return [.nil]
          | some i =>
              match ← index callers .nil (args.headD .nil) (.int (i + 1)) maxLinks fuel with
              | .nil => return [.nil]
              | v => return [.int (i + 1), v]
      | .builtin b => (Invocation.mk callers b args).run
      | v => typeFault none "call" v ""
termination_by structural n => n

/-- The results of a call after the word that it succeeded, or the word that it failed and the
value it failed with. -/
def guarded (callers : Callers) (f : Value) (args : List Value) :
    (fuel : Nat) → Eval (List Value)
  | 0 => throw .exhausted
  | fuel + 1 =>
      tryCatch (do return .bool true :: (← call callers f args fuel)) fun
        | .fault v => return [.bool false, v]
        | .exhausted => throw .exhausted
termination_by structural n => n

/-- Runs the statements that are left of the block `all`, which began with `start` local
variables. -/
def statements (s : Scope) (start : Nat) (all left : List Statement) : (fuel : Nat) → Eval Signal
  | 0 => throw .exhausted
  | fuel + 1 => do
      match left with
      | [] => return .next s.locals
      | st :: left =>
          match ← statement s st fuel with
          | .next locals => statements { s with locals := locals } start all left fuel
          | .jump label =>
              match afterLabel? label 0 all with
              | none => return .jump label
              | some (added, left) =>
                  tick
                  -- Variables that were declared behind the label are no longer there.
                  let locals := s.locals.drop (s.locals.length - (start + added))
                  statements { s with locals := locals } start all left fuel
          | signal => return signal
termination_by structural n => n

/-- Runs a block; its local variables end with it. -/
def block (s : Scope) (body : List Statement) : (fuel : Nat) → Eval Signal
  | 0 => throw .exhausted
  | fuel + 1 => do
      match ← statements s s.locals.length body body fuel with
      | .next _ => return .next s.locals
      | signal => return signal
termination_by structural n => n

/-- Runs a statement. -/
def statement (s : Scope) (st : Statement) : (fuel : Nat) → Eval Signal
  | 0 => throw .exhausted
  | fuel + 1 => do
      match st with
      | .perform e =>
          let _ ← several s e fuel
          return .next s.locals
      | .assign targets es _ =>
          let ps ← places s targets fuel
          assignAll ps (← values s es fuel)
          return .next s.locals
      | .declare names es => return .next (← bindAll names (← values s es fuel) s.locals)
      | .declareFunction name f =>
          let cell ← newCell .nil
          -- The function sees itself under its own name.
          let s := s.with1 name cell
          writeCell cell (← newClosure ⟨f, s.locals⟩)
          return .next s.locals
      | .block body => block s body fuel
      | .whileLoop condition body => whileLoop s condition body fuel
      | .repeatLoop body condition => repeatLoop s body condition fuel
      | .choose branches otherwise => choose s branches otherwise fuel
      | .count name first last step body line =>
          let first ← evaluate s first fuel
          let last ← evaluate s last fuel
          let step ← match step with
            | some e => evaluate s e fuel
            | none => pure (.int 1)
          match ← progression line first last step with
          | .empty => return .next s.locals
          | .ints first step more => countInts s name body step first more fuel
          | .floats first step last => countFloats s name body step last first fuel
      | .iterate names es body line =>
          let vs ← values s es fuel
          iterate s names body line (vs.headD .nil) (vs[1]?.getD .nil) (vs[2]?.getD .nil) fuel
      | .leave => return .left
      | .jump label => return .jump label
      | .label _ => return .next s.locals
      | .give es => give s es fuel
termination_by structural n => n

/-- Ends a function with the values of expressions. -/
def give (s : Scope) (es : List Expr) : (fuel : Nat) → Eval Signal
  | 0 => throw .exhausted
  | fuel + 1 => do
      match es with
      | [.call f args line] =>
          let (g, vs) ← callee s (.call f args line) fuel
          handOver s line (.call f args line) g vs fuel
      | [.method object name args line] =>
          let (g, vs) ← callee s (.method object name args line) fuel
          handOver s line (.method object name args line) g vs fuel
      | es => return .given (← values s es fuel)
termination_by structural n => n

/-- Ends a function with a call. Only a function of the script takes the place of its caller. -/
def handOver (s : Scope) (line : Nat) (e : Expr) (f : Value) (args : List Value) :
    (fuel : Nat) → Eval Signal
  | 0 => throw .exhausted
  | fuel + 1 => do
      match f with
      | .closure _ => return .handedOver f args
      | _ => return .given (← invoke s line e f args fuel)
termination_by structural n => n

/-- The places that expressions stand for. -/
def places (s : Scope) (targets : List Expr) : (fuel : Nat) → Eval (List Place)
  | 0 => throw .exhausted
  | fuel + 1 => do
      match targets with
      | [] => return []
      | .name .global n :: targets => return .global n :: (← places s targets fuel)
      | .name _ n :: targets =>
          return .cell ((s.locals.lookup n).getD 0) :: (← places s targets fuel)
      | .index object key line :: targets =>
          let v ← evaluate s object fuel
          let k ← evaluate s key fuel
          return .entry v k object line :: (← places s targets fuel)
      | _ :: targets => places s targets fuel
termination_by structural n => n

/-- Runs the block of the first condition that is true. -/
def choose (s : Scope) (branches : List (Expr × List Statement)) (otherwise : List Statement) :
    (fuel : Nat) → Eval Signal
  | 0 => throw .exhausted
  | fuel + 1 => do
      match branches with
      | [] => block s otherwise fuel
      | (condition, body) :: branches =>
          if (← evaluate s condition fuel).isTrue then block s body fuel
          else choose s branches otherwise fuel
termination_by structural n => n

/-- Runs a block as long as a condition is true. -/
def whileLoop (s : Scope) (condition : Expr) (body : List Statement) : (fuel : Nat) → Eval Signal
  | 0 => throw .exhausted
  | fuel + 1 => do
      tick
      if (← evaluate s condition fuel).isTrue then
        match ← block s body fuel with
        | .next _ => whileLoop s condition body fuel
        | .left => return .next s.locals
        | signal => return signal
      else return .next s.locals
termination_by structural n => n

/-- Runs a block until a condition is true that sees the local variables of the block. -/
def repeatLoop (s : Scope) (body : List Statement) (condition : Expr) : (fuel : Nat) → Eval Signal
  | 0 => throw .exhausted
  | fuel + 1 => do
      tick
      match ← statements s s.locals.length body body fuel with
      | .next locals =>
          if (← evaluate { s with locals := locals } condition fuel).isTrue then
            return .next s.locals
          else repeatLoop s body condition fuel
      | .left => return .next s.locals
      | signal => return signal
termination_by structural n => n

/-- Runs a block for an integer and for as many more as there are to come. -/
def countInts (s : Scope) (name : Bytes) (body : List Statement) (step i : Int64) (more : Nat) :
    (fuel : Nat) → Eval Signal
  | 0 => throw .exhausted
  | fuel + 1 => do
      tick
      -- Every round has a variable of its own, which functions made in it may keep.
      let cell ← newCell (.int i)
      match ← block (s.with1 name cell) body fuel with
      | .next _ =>
          if more = 0 then return .next s.locals
          else countInts s name body step (i + step) (more - 1) fuel
      | .left => return .next s.locals
      | signal => return signal
termination_by structural n => n

/-- Runs a block for a double and for those after it that do not go beyond the last one. -/
def countFloats (s : Scope) (name : Bytes) (body : List Statement) (step last x : Float) :
    (fuel : Nat) → Eval Signal
  | 0 => throw .exhausted
  | fuel + 1 => do
      tick
      if (if 0.0 < step then x ≤ last else last ≤ x) then
        let cell ← newCell (.number (.float x))
        match ← block (s.with1 name cell) body fuel with
        | .next _ => countFloats s name body step last (x + step) fuel
        | .left => return .next s.locals
        | signal => return signal
      else return .next s.locals
termination_by structural n => n

/-- Runs a block for the results of every call of an iterator, until the first of them is
nothing. -/
def iterate (s : Scope) (names : List Bytes) (body : List Statement) (line : Nat)
    (iterator state control : Value) : (fuel : Nat) → Eval Signal
  | 0 => throw .exhausted
  | fuel + 1 => do
      tick
      if !isFunction iterator then
        typeFault line "call" iterator " (for iterator 'for iterator')"
      let vs ← call (s.calling line) iterator [state, control] fuel
      match vs.headD .nil with
      | .nil => return .next s.locals
      | control =>
          let locals ← bindAll names vs s.locals
          match ← block { s with locals := locals } body fuel with
          | .next _ => iterate s names body line iterator state control fuel
          | .left => return .next s.locals
          | signal => return signal
termination_by structural n => n

end

end Eval

end PagedStore.Script
