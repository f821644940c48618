import PagedStore.Database

/-!
# Conversations

A script reaches the database only by calls to it, and goes on with what they answer. So a run of
a script is a tree: it ends with a result, or it asks something and continues for every answer
there may be. What a run does to a database is then said in one place (`perform`), for all scripts
alike.
-/

set_option autoImplicit false

namespace PagedStore.Script

variable [Codec]

/-- What a script can ask of a database. -/
inductive HostCall where
  | store (key value : Bytes)
  | append (key value : Bytes)
  | fetch (key : Bytes)
  | delete (key : Bytes)
  | contains (key : Bytes)
  | size
  deriving DecidableEq, Repr

/-- What a database answers. -/
inductive HostReply where
  | done
  | truth (b : Bool)
  | value (bs : Option Bytes)
  | count (n : Nat)
  | failed (e : Error)
  deriving DecidableEq, Repr

namespace HostCall

open PagedStore.Action

/-- Carries out a call that may fail. -/
def attempt : HostCall → Action Database HostReply
  | store key value => do Database.store key value; return .done
  | append key value => do Database.append key value; return .done
  | fetch key => return .value (← Database.find key)
  | delete key => do
      match ← Action.attempt (Database.delete key) with
      | .ok () => return .truth true
      | .error (.notFound _) => return .truth false
      | .error e => throw e
  | contains key => return .truth (← Database.contains key)
  | size => return .count (← self).size

/-- Carries out a call; a failure is an answer too, but where the program stops the script does. -/
def run (c : HostCall) : Action Database HostReply := do
  match ← outcome c.attempt with
  | .ok reply => return reply
  | .error e => return .failed e

end HostCall

/-- A computation that asks things of a database. -/
inductive Conversation (α : Type) where
  | done (result : α)
  | ask (call : HostCall) (answered : HostReply → Conversation α)

namespace Conversation

variable {α β : Type}

/-- One conversation after another. -/
def bind : Conversation α → (α → Conversation β) → Conversation β
  | done a, f => f a
  | ask c k, f => ask c fun reply => (k reply).bind f

instance : Monad Conversation where
  pure := done
  bind := bind

/-- Holds a conversation with a database. -/
def perform : Conversation α → Action Database α
  | done a => return a
  | ask c k => do
      let reply ← c.run
      (k reply).perform

end Conversation

end PagedStore.Script
