import PagedStore.Error

/-!
# The disk

A directory of named files. A name leads to a node, and a handle on an open file is the number of
its node: a file that is removed or whose name is given to another file stays what it was for
those who have it open. Nodes are numbered in the order of their making and no number is used
again.

A handle may hold a lock on its node, one for all who only read or one alone for a writer; a lock
is asked for and, where it is not free, refused at once.

The contents of a file are one string of bytes. Reading past the end gives what there is, and
writing past the end fills the gap with zeros.
-/

set_option autoImplicit false

namespace PagedStore

/-- Who holds a node. -/
inductive Lock where
  | free
  /-- So many readers, of whom there is one at least. -/
  | shared (readers : Nat)
  /-- One writer. -/
  | exclusive
  deriving DecidableEq, Repr

/-- What a name leads to. -/
structure Node where
  isFolder : Bool
  contents : ByteArray
  lock : Lock

/-- The number of a node. -/
abbrev NodeId := Nat

/-- The state of the disk. -/
structure Disk where
  names : List (String × NodeId)
  nodes : Array Node

/-- Why the disk refuses a request. -/
inductive DiskFailure where
  | noSuchFile
  | isFolder
  | notFolder
  | alreadyThere
  deriving DecidableEq, Repr

namespace DiskFailure

/-- The system's text for a refusal. -/
def text : DiskFailure → String
  | noSuchFile => "No such file or directory (os error 2)"
  | isFolder => "Is a directory (os error 21)"
  | notFolder => "Not a directory (os error 20)"
  | alreadyThere => "File exists (os error 17)"

/-- A refusal as the failure of an operation. -/
def toError (f : DiskFailure) : Error :=
  .io (if f = noSuchFile then .notFound else .other) f.text

end DiskFailure

namespace Disk

/-- The disk without any file. -/
def empty : Disk := ⟨[], #[]⟩

/-! ## Contents -/

/-- The first `n` bytes, filled up with zeros. -/
def fit (n : Nat) (c : ByteArray) : ByteArray :=
  if n ≤ c.size then c.extract 0 n else c ++ ⟨Array.replicate (n - c.size) 0⟩

/-- The contents with `bs` at the place `at'` and what was beyond left as it is. -/
def overwrite (c : ByteArray) (at' : Nat) (bs : ByteArray) : ByteArray :=
  if bs.size = 0 then c
  else
    let c := if c.size < at' then fit at' c else c
    bs.copySlice 0 c at' bs.size

/-! ## Nodes -/

/-- The node with a number. -/
def node (d : Disk) (n : NodeId) : Node := d.nodes.getD n ⟨false, .empty, .free⟩

/-- Changes the node with a number. -/
def modify (d : Disk) (n : NodeId) (f : Node → Node) : Disk :=
  { d with nodes := d.nodes.modify n f }

/-- The length of a file. -/
def size (d : Disk) (n : NodeId) : Nat := (d.node n).contents.size

/-- Up to `count` bytes of a file from a place on. -/
def read (d : Disk) (n : NodeId) (at' count : Nat) : Bytes :=
  ((d.node n).contents.extract at' (at' + count)).data.toList

/-- All bytes of a file. -/
def readAll (d : Disk) (n : NodeId) : Bytes := (d.node n).contents.data.toList

/-- Writes bytes into a file. -/
def write (d : Disk) (n : NodeId) (at' : Nat) (bs : Bytes) : Disk :=
  d.modify n fun x => { x with contents := overwrite x.contents at' bs.toByteArray }

/-- Appends bytes to a file. -/
def append (d : Disk) (n : NodeId) (bs : Bytes) : Disk :=
  d.modify n fun x => { x with contents := x.contents ++ bs.toByteArray }

/-- Cuts or extends a file to a length. -/
def truncate (d : Disk) (n : NodeId) (length : Nat) : Disk :=
  d.modify n fun x => { x with contents := fit length x.contents }

/-! ## Locks -/

/-- Takes a lock on a node, if the locks on it allow that. -/
def tryLock (d : Disk) (n : NodeId) (alone : Bool) : Option Disk :=
  match (d.node n).lock, alone with
  | .free, true => some (d.modify n fun x => { x with lock := .exclusive })
  | .free, false => some (d.modify n fun x => { x with lock := .shared 1 })
  | .shared k, false => some (d.modify n fun x => { x with lock := .shared (k + 1) })
  | _, _ => none

/-- Gives back one lock on a node. -/
def unlock (d : Disk) (n : NodeId) : Disk :=
  d.modify n fun x =>
    { x with lock := match x.lock with
      | .shared k => if k ≤ 1 then .free else .shared (k - 1)
      | _ => .free }

/-! ## Names -/

/-- The node that a name leads to. -/
def find? (d : Disk) (name : String) : Option NodeId := d.names.lookup name

/-- Whether a name leads anywhere. -/
def hasName (d : Disk) (name : String) : Bool := (d.find? name).isSome

/-- The name of the folder that holds a name, when it is not the directory itself. -/
def folderOf? (name : String) : Option String :=
  match (name.splitOn "/").dropLast with
  | [] => none
  | parts => some ("/".intercalate parts)

/-- Refuses a name whose folder is missing. -/
def checkFolder (d : Disk) (name : String) : Except DiskFailure Unit :=
  match folderOf? name with
  | none => if name = "" then .error .noSuchFile else .ok ()
  | some folder =>
      match d.find? folder with
      | none => .error .noSuchFile
      | some n => if (d.node n).isFolder then .ok () else .error .notFolder

/-- Gives a name to a new node. -/
def make (d : Disk) (name : String) (isFolder : Bool) : NodeId × Disk :=
  (d.nodes.size, ⟨(name, d.nodes.size) :: d.names, d.nodes.push ⟨isFolder, .empty, .free⟩⟩)

/-- Opens what a name leads to, for reading alone. A folder can be opened, though not read. -/
def openToRead (d : Disk) (name : String) : Except DiskFailure NodeId :=
  match d.find? name with
  | some n => .ok n
  | none => do
      d.checkFolder name
      .error .noSuchFile

/-- Opens a file for writing, made if there is none. -/
def openToWrite (d : Disk) (name : String) : Except DiskFailure (NodeId × Disk) :=
  match d.find? name with
  | some n => if (d.node n).isFolder then .error .isFolder else .ok (n, d)
  | none => do
      d.checkFolder name
      .ok (d.make name false)

/-- Opens a file that must be there. -/
def openFile (d : Disk) (name : String) : Except DiskFailure NodeId := do
  let n ← d.openToRead name
  if (d.node n).isFolder then .error .isFolder else .ok n

/-- Makes a folder. -/
def makeFolder (d : Disk) (name : String) : Except DiskFailure Disk :=
  if d.hasName name then .error .alreadyThere
  else do
    d.checkFolder name
    .ok (d.make name true).2

/-- Takes the name off a file. -/
def remove (d : Disk) (name : String) : Except DiskFailure Disk := do
  let _ ← d.openFile name
  .ok { d with names := d.names.filter fun (other, _) => other != name }

/-- Gives a file the contents of another one. -/
def copy (d : Disk) (source target : String) : Except DiskFailure Disk := do
  let s ← d.openFile source
  let (t, d) ← d.openToWrite target
  let contents := if s = t then ByteArray.empty else (d.node s).contents
  .ok (d.modify t fun x => { x with contents := contents })

end Disk

end PagedStore
