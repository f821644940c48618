import PagedStore.Pager.Commit

/-!
# Opening a database file

Opening takes a lock on the file, or fails at once when another handle holds it, and then makes up
for a crash. A writer carries out what complete transactions the log holds (`replay`) and empties
the log. A reader must not touch the files, so it lays the logged pages over the main file in
memory (`overlay`). Doing either twice, or half of it before doing it again, changes nothing: the
log holds whole images, and the last one of each page wins.
-/

set_option autoImplicit false

namespace PagedStore.Pager

open PagedStore.Action

/-- Checks that a logged image is as long as a page. -/
def checkImage (id : PageId) (image : Bytes) (pageSize : Nat) : Except Error Unit :=
  if image.length = pageSize then .ok ()
  else
    .error (.corrupt
      s!"logged image of page {id} has {image.length} bytes, expected {pageSize}")

/-! ## Writers -/

/-- Writes the logged pages of one transaction into the main file. -/
def replayPages (file : NodeId) (pageSize : Nat) : List (PageId × Bytes) → Action Unit Unit
  | [] => pure ()
  | (id, image) :: more => do
      ofResult (checkImage id image pageSize)
      updateDisk fun d => d.write file (offset pageSize id) image
      replayPages file pageSize more

/-- Writes the logged images of transactions into the main file. -/
def replay (file : NodeId) : List Log.Transaction → Action Unit Unit
  | [] => pure ()
  | t :: more => do
      let header ← ofResult (Header.decode t.header)
      replayPages file header.pageSize.toNat t.pages
      updateDisk fun d => d.write file 0 t.header
      replay file more

/-- Opens the log for a writer, empty. -/
def openLog (path : String) : Action Unit NodeId := do
  match Log.Writer.create path (← disk) with
  | .error e => throw e
  | .ok (w, d) =>
      updateDisk fun _ => d.truncate w.file 0
      return w.file

/-! ## The header -/

/-- Reads the header of the main file and compares the length of the file with it. -/
def readHeader (file : NodeId) : Action Unit Header := do
  let d ← disk
  if (d.node file).isFolder then throw DiskFailure.isFolder.toError
  let bs := d.read file 0 Header.encodedLength
  if bs.length < Header.encodedLength then throw (.corrupt "file too short for a header")
  let header ← ofResult (Header.decode bs)
  let needed := header.pageCount.toNat * header.pageSize.toNat
  if d.size file < needed then
    throw (.corrupt
      s!"file holds {d.size file} bytes but the header describes {needed}")
  return header

/-- The header of the main file; an empty file is given one, unless it may only be read. -/
def openHeader (file : NodeId) (o : Options) : Action Unit Header := do
  let node := (← disk).node file
  if node.contents.size = 0 && !node.isFolder then
    let header := Header.fresh o.pageSize
    unless o.readOnly do updateDisk fun d => d.write file 0 header.encode
    return header
  else readHeader file

/-! ## Readers -/

/-- Lays the logged pages of one transaction over the dirty pages. -/
def overlayPages (pageSize : Nat) : List (PageId × Bytes) → PageMap → Except Error PageMap
  | [], dirty => .ok dirty
  | (id, image) :: more, dirty => do
      checkImage id image pageSize
      overlayPages pageSize more (dirty.insert id ⟨id, image⟩)

/-- Lays the logged images of transactions over a pager. -/
def overlay : List Log.Transaction → Pager → Except Error Pager
  | [], p => .ok p
  | t :: more, p => do
      let header ← Header.decode t.header
      let dirty ← overlayPages header.pageSize.toNat t.pages p.dirty
      overlay more { p with dirty := dirty, header := header, committed := header }

/-! ## Opening -/

/-- A pager on a file whose header is known. -/
def ofHeader (path : String) (file : NodeId) (log : Option NodeId) (o : Options) (h : Header) :
    Pager :=
  { path := path
    file := file
    log := log
    pageSize := h.pageSize.toNat
    header := h
    committed := h
    cache := { capacity := o.pageCacheSize }
    maxPages := o.maxPages
    crashPoint := o.crashPoint }

/-- Opens a file on which a lock is held. -/
def openLocked (path : String) (file : NodeId) (o : Options) : Action Unit Pager := do
  let logPath := Log.pathFor path
  let recovery ← ofResult (Log.recoverFile logPath (← disk))
  if o.readOnly then
    -- The main file must be sound by itself, even where the log replaces all of it.
    let header ← openHeader file o
    ofResult (overlay recovery.committed (ofHeader path file none o header))
  else
    -- The header is read only now: the replay may have replaced it.
    replay file recovery.committed
    let log ← openLog logPath
    let header ← openHeader file o
    return ofHeader path file (some log) o header

/-- Finds the file and takes a lock on it. -/
def openFile (path : String) (o : Options) : Action Unit NodeId := do
  let d ← disk
  let there := d.hasName path
  if !there && (o.readOnly || !o.createIfMissing) then
    throw (.cannotOpen (path ++ " does not exist"))
  if there && o.errorIfExists then
    throw (.alreadyExists ("database already exists: " ++ path))
  let opened := if o.readOnly then (d.openToRead path).map (·, d) else d.openToWrite path
  match opened with
  | .error f => throw (.cannotOpen (path ++ ": " ++ f.text))
  | .ok (file, d) =>
      updateDisk fun _ => d
      match d.tryLock file !o.readOnly with
      | none => throw (.busy (path ++ " is in use by another handle"))
      | some d =>
          updateDisk fun _ => d
          return file

/-- Gives back the lock of a pager. -/
def release (p : Pager) (d : Disk) : Disk := d.unlock p.file

/-- Opens a database file, or makes one. -/
def «open» (path : String) (o : Options) : Action Unit Pager := do
  let file ← openFile path o
  match ← attempt (openLocked path file o) with
  | .ok p => return p
  | .error e =>
      updateDisk fun d => d.unlock file
      throw e

end PagedStore.Pager
