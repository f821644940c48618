import PagedStore.Action
import PagedStore.Log.Entry
import PagedStore.Log.Recovery
import PagedStore.Text.Quoted

/-!
# Writing a log

A writer appends records to a log file and can discard the whole of it. It counts the length of
the log itself, from the length that the file had when it was opened.
-/

set_option autoImplicit false

namespace PagedStore.Log

/-- The name of the log that accompanies a database file. -/
def pathFor (database : String) : String := database ++ ".wal"

/-- A log open for appending. -/
structure Writer where
  path : String
  file : NodeId
  size : Nat

namespace Writer

/-- Opens a log, making it if there is none. -/
def create (path : String) (d : Disk) : Except Error (Writer × Disk) :=
  match d.openToWrite path with
  | .error f => .error f.toError
  | .ok (file, d) => .ok (⟨path, file, d.size file⟩, d)

/-- Appends a record. -/
def append (record : Bytes) (w : Writer) (d : Disk) : Writer × Disk :=
  let bs := frame record
  ({ w with size := w.size + bs.length }, d.append w.file bs)

/-- Appends an entry. -/
def appendEntry (e : Entry) (w : Writer) (d : Disk) : Writer × Disk := w.append e.encode d

/-- Appends entries in order. -/
def appendEntries (es : List Entry) (w : Writer) (d : Disk) : Writer × Disk :=
  es.foldl (fun (w, d) e => w.appendEntry e d) (w, d)

/-- Discards the whole log. -/
def truncate (w : Writer) (d : Disk) : Writer × Disk :=
  ({ w with size := 0 }, d.truncate w.file 0)

/-- A writer as reports show it. -/
def debug (w : Writer) : String :=
  "Journal \x7b path: " ++ Text.quote w.path ++ ", size: " ++ toString w.size ++ " \x7d"

end Writer

/-- The complete transactions of the log with a given name; none if there is no such log. -/
def recoverFile (path : String) (d : Disk) : Except Error Recovery :=
  match d.find? path with
  | none => .ok {}
  | some file =>
      if (d.node file).isFolder then .error DiskFailure.isFolder.toError
      else .ok (recover (d.readAll file))

end PagedStore.Log
