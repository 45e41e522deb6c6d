import Nanos3Reader.Client.PutFile

/-!
# Uploading a directory

`put_directory` walks a directory, gives every regular file in it a URI, sorts the files by size and
uploads them with `put_file`, several at a time: workers draw the indices of files from a shared
counter, and report what came of each under a lock.

What the walk comes upon is free, and so is what comes of each `put_file` call.
-/

open ByteText

namespace Nanos3Reader

structure DirectoryUploadOptions where
  file : FileUploadOptions := {}
  concurrency : ℕ := 8

/-- What `put_directory` reports of a file. -/
structure FileUploadResult where
  path : Bytes
  uri : Bytes
  bytes : ℕ
  ok : Bool
  error : Bytes
deriving DecidableEq

structure DirectoryUploadStats where
  files : ℕ := 0
  failed : ℕ := 0
  bytes : ℕ := 0
deriving DecidableEq

/-! ## The walk -/

/-- A regular file that the walk has found. `relative` is its path from the root of the walk, with
slashes. -/
structure FoundFile where
  path : Bytes
  relative : Bytes
  relative_ne : relative ≠ []
  size : ℕ

/-- What the walk comes upon. -/
inductive DirectoryEntry where
  | file (f : FoundFile)
  /-- A directory or a special file. -/
  | other
  | noSize (path reason : Bytes)
  | unreadable (reason : Bytes)

/-- A file to upload. -/
structure Item where
  path : Bytes
  uri : Bytes
  size : ℕ
deriving DecidableEq

def FoundFile.item (base : Bytes) (f : FoundFile) : Item := ⟨f.path, base ++ f.relative, f.size⟩

/-- The regular files among what the walk comes upon. -/
def foundFiles (entries : List DirectoryEntry) : List FoundFile :=
  entries.filterMap fun e ↦ match e with
    | .file f => some f
    | .other | .noSize _ _ | .unreadable _ => none

/-- The items of the files found, or what could not be read. -/
def collectItems (base dir : Bytes) : List DirectoryEntry → Except Bytes (List Item)
  | [] => .ok []
  | .file f :: rest => (collectItems base dir rest).map (f.item base :: ·)
  | .other :: rest => collectItems base dir rest
  | .noSize path reason :: _ => .error (path ++ utf8 ": " ++ reason)
  | .unreadable reason :: _ => .error (dir ++ utf8 ": " ++ reason)

/-- The prefix of all keys: a slash ends it, unless it is empty. -/
def keyPrefix (pfx : Bytes) : Bytes :=
  if pfx ≠ [] ∧ pfx.getLast? ≠ some 47 then pfx ++ utf8 "/" else pfx

/-- What the URIs of all files begin with. -/
def directoryBase (bucket pfx : Bytes) : Bytes :=
  utf8 "s3://" ++ bucket ++ utf8 "/" ++ keyPrefix pfx

/-- The files to upload, largest first. `directory` is what stands in it, or why it is none, and
`collect` makes items of that. -/
def itemsUnder {α : Type*} (prefixUri dir : Bytes)
    (collect : Bytes → Bytes → α → Except Bytes (List Item))
    (directory : Except (Option Bytes) α) : Except Bytes (List Item) :=
  match splitS3Uri prefixUri false with
  | .error e => .error e
  | .ok (bucket, pfx) =>
    match directory with
    | .error reason =>
      .error (dir ++ utf8 ": not a directory" ++
        match reason with
        | none => []
        | some r => utf8 " (" ++ r ++ utf8 ")")
    | .ok found =>
      (collect (directoryBase bucket pfx) dir found).map fun items ↦
        items.mergeSort fun a b ↦ decide (b.size ≤ a.size)

/-- The files to upload, by what the walk comes upon. -/
def directoryItems (prefixUri dir : Bytes)
    (directory : Except (Option Bytes) (List DirectoryEntry)) : Except Bytes (List Item) :=
  itemsUnder prefixUri dir collectItems directory

/-! ## The workers -/

/-- A `put_directory` call that has found its files. -/
structure DirectoryUpload where
  im : ClientImpl
  items : List Item
  options : DirectoryUploadOptions := {}
  /-- Whether the caller wants to hear of every file. -/
  callback : Bool := true

namespace DirectoryUpload

variable (d : DirectoryUpload)

def threads : ℕ := min (max d.options.concurrency 1) (max d.items.length 1)

theorem threads_pos : 0 < d.threads :=
  lt_min (lt_of_lt_of_le Nat.zero_lt_one (le_max_right _ _))
    (lt_of_lt_of_le Nat.zero_lt_one (le_max_right _ _))

/-- The `put_file` call for an item. -/
def args (item : Item) : PutFileArgs :=
  { uri := item.uri, path := item.path, options := d.options.file }

end DirectoryUpload

namespace Item

/-- What is reported of an item. -/
def result (item : Item) (out : Outcome (Option Bytes)) : FileUploadResult :=
  ⟨item.path, item.uri, item.size, out.ok, out.error⟩

end Item

/-- The item that a result is about. -/
def FileUploadResult.item (r : FileUploadResult) : Item := ⟨r.path, r.uri, r.bytes⟩

@[simp] theorem Item.item_result (item : Item) (out : Outcome (Option Bytes)) :
    (item.result out).item = item := rfl

/-- The statistics with one more result; the bytes are counted in 64 bits. -/
def DirectoryUploadStats.add (stats : DirectoryUploadStats) (r : FileUploadResult) :
    DirectoryUploadStats :=
  if r.ok then { stats with files := stats.files + 1, bytes := (stats.bytes + r.bytes) % 2 ^ 64 }
  else { stats with failed := stats.failed + 1 }

namespace Directory

/-- Where a worker is. -/
inductive Worker where
  | claiming
  | checking (i : ℕ)
  | uploading (item : Item)
  | reporting (result : FileUploadResult)
  | done

/-- Where the calling thread is, its own share of the files apart. -/
inductive Caller where
  | working
  | returned (out : Outcome DirectoryUploadStats)

/-- A `put_file` call, its return, and a call of the caller's function. -/
inductive Event where
  | putFile (item : Item)
  | returned (result : FileUploadResult)
  | onFile (result : FileUploadResult)

namespace Event

def call? : Event → Option Item
  | .putFile item => some item
  | .returned _ | .onFile _ => none

def return? : Event → Option FileUploadResult
  | .returned r => some r
  | .putFile _ | .onFile _ => none

def told? : Event → Option FileUploadResult
  | .onFile r => some r
  | .putFile _ | .returned _ => none

attribute [simp] call? return? told?

end Event

/-- An upload by `n` workers, and what has happened. -/
structure State (n : ℕ) where
  caller : Caller
  workers : Fin n → Worker
  next : ℕ
  stats : DirectoryUploadStats
  firstError : Bytes
  log : List Event

namespace State

variable {n : ℕ}

def initial : State n where
  caller := .working
  workers _ := .claiming
  next := 0
  stats := {}
  firstError := []
  log := []

def goto (s : State n) (w : Fin n) (pc : Worker) (events : List Event) : State n :=
  { s with workers := Function.update s.workers w pc, log := s.log ++ events }

/-- A worker draws an index from the counter. -/
def claim (s : State n) (w : Fin n) : State n :=
  { s with workers := Function.update s.workers w (.checking s.next), next := s.next + 1 }

@[simp] theorem workers_goto_self (s : State n) (w : Fin n) (pc : Worker) (events : List Event) :
    (s.goto w pc events).workers w = pc := Function.update_self _ _ _

@[simp] theorem workers_claim_self (s : State n) (w : Fin n) :
    (s.claim w).workers w = .checking s.next := Function.update_self _ _ _

/-- What a worker does under the lock. -/
def report (s : State n) (r : FileUploadResult) : State n :=
  { s with
    stats := s.stats.add r
    firstError := if r.ok = false ∧ s.firstError = [] then r.error else s.firstError }

@[simp] theorem workers_report (s : State n) (r : FileUploadResult) :
    (s.report r).workers = s.workers := rfl

/-- The files for which `put_file` has been called. -/
def begun (s : State n) : List Item := s.log.filterMap Event.call?

/-- What came of the calls that have returned. -/
def ended (s : State n) : List FileUploadResult := s.log.filterMap Event.return?

/-- What the caller has been told. -/
def told (s : State n) : List FileUploadResult := s.log.filterMap Event.told?

end State

/-- What `put_directory` returns when all workers have ended. -/
def finish {n : ℕ} (d : DirectoryUpload) (s : State n) : Outcome DirectoryUploadStats :=
  if s.stats.failed ≠ 0 then
    ⟨false, s.stats, decimal s.stats.failed ++ utf8 " of " ++ decimal d.items.length ++
      utf8 " file(s) failed; first: " ++ s.firstError⟩
  else ⟨true, s.stats, []⟩

section Steps

variable {n : ℕ} (env : Outside) (d : DirectoryUpload)

/-- One step of a worker. -/
inductive WorkerStep (w : Fin n) : State n → State n → Prop
  | claims {s : State n} (hpc : s.workers w = .claiming) : WorkerStep w s (s.claim w)
  | quits {s : State n} {i : ℕ} (hpc : s.workers w = .checking i) (hi : d.items.length ≤ i) :
      WorkerStep w s (s.goto w .done [])
  | calls {s : State n} {i : ℕ} {item : Item} (hpc : s.workers w = .checking i)
      (hi : d.items[i]? = some item) :
      WorkerStep w s (s.goto w (.uploading item) [.putFile item])
  | returns {s : State n} {item : Item} (hpc : s.workers w = .uploading item)
      {out : Outcome (Option Bytes)} (hout : ClientImpl.PutFileReturns env d.im (d.args item) out) :
      WorkerStep w s (s.goto w (.reporting (item.result out)) [.returned (item.result out)])
  | reports {s : State n} {r : FileUploadResult} (hpc : s.workers w = .reporting r) :
      WorkerStep w s ((s.goto w .claiming (if d.callback then [.onFile r] else [])).report r)

/-- One step of the upload. -/
inductive Step (s : State n) : State n → Prop
  | worker (w : Fin n) {s' : State n} (h : WorkerStep env d w s s') : Step s s'
  | joins (hpc : s.caller = .working) (hjoined : ∀ w, s.workers w = .done) :
      Step s { s with caller := .returned (finish d s) }

end Steps

end Directory

/-- A state of the upload of a directory, by as many threads as `put_directory` starts. -/
def DirectoryUpload.Reaches (env : Outside) (d : DirectoryUpload) (s : Directory.State d.threads) :
    Prop :=
  Relation.ReflTransGen (Directory.Step env d) Directory.State.initial s

end Nanos3Reader
