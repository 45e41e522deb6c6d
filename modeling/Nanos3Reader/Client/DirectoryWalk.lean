import Nanos3Reader.Client.DirectoryAccount
import Nanos3Reader.Lib.Traversal

/-!
# The walk of a directory upload

The walk asks three things of the file system: to go on to the next entry, for the type of an entry,
and for the size of a file. When it cannot go on, or a size cannot be had, the upload fails. When
the type cannot be had, the entry is passed over like a directory.

What stands in a directory is free, and so is what cannot be read of it.
-/

open ByteText Traversal

namespace Nanos3Reader

/-- What stands in a directory. -/
structure TreeEntry where
  path : Bytes
  /-- The path from the root of the walk, with slashes. -/
  relative : Bytes
  relative_ne : relative ≠ []
  /-- Whether it is a regular file or a symlink to one. -/
  isFile : Bool
  /-- Why its status cannot be determined, if it cannot. -/
  status : Option Bytes
  /-- Its size, or why it cannot be read. -/
  size : Except Bytes ℕ

namespace TreeEntry

/-- `is_regular_file`: false as well when the status cannot be determined. -/
def isRegularFile (e : TreeEntry) : Bool := e.isFile && e.status.isNone

/-- What the walk makes of an entry. -/
def met (e : TreeEntry) : DirectoryEntry :=
  if e.isRegularFile then
    match e.size with
    | .error reason => .noSize e.path reason
    | .ok size =>
      .file { path := e.path, relative := e.relative, relative_ne := e.relative_ne, size }
  else .other

end TreeEntry

/-! ## The loop -/

/-- The loop of `put_directory`: where the iterator stands, and the items found so far. -/
def walkItems (base dir : Bytes) : Iterator TreeEntry Bytes → List Item → Except Bytes (List Item)
  -- the check behind the loop
  | ⟨none, some reason⟩, _ => .error (dir ++ utf8 ": " ++ reason)
  | ⟨none, none⟩, items => .ok items
  -- the check in the loop, which an iterator that an error leaves at its end never comes to
  | ⟨some _, some reason⟩, _ => .error (dir ++ utf8 ": " ++ reason)
  | ⟨some (e, stack), none⟩, items =>
    if e.isRegularFile then
      match e.size with
      | .error reason => .error (e.path ++ utf8 ": " ++ reason)
      | .ok size =>
        walkItems base dir (advance stack) (items ++ [⟨e.path, base ++ e.relative, size⟩])
    else walkItems base dir (advance stack) items
termination_by it _ => it.left
decreasing_by all_goals exact left_advance_lt e stack

/-- What the walk comes upon, entry by entry. -/
def comeUpon : Except Bytes TreeEntry → DirectoryEntry
  | .ok e => e.met
  | .error reason => .unreadable reason

/-- **The loop.** It collects the items of the files on the walk. -/
theorem walkItems_advance (base dir : Bytes) (stack : List (Listing TreeEntry Bytes))
    (items : List Item) : walkItems base dir (advance stack) items
      = (collectItems base dir ((stack.flatMap Listing.walk).map comeUpon)).map (items ++ ·) := by
  refine advance_induction (P := fun it walk ↦ ∀ items, walkItems base dir it items
    = (collectItems base dir (walk.map comeUpon)).map (items ++ ·)) ?_ ?_ ?_ stack items
  · intro items
    rw [walkItems, List.map_nil, collectItems, Except.map, List.append_nil]
  · intro reason rest items
    rw [walkItems, List.map_cons, comeUpon, collectItems]
    rfl
  · intro e stack ih items
    rw [walkItems, List.map_cons, comeUpon, TreeEntry.met]
    split
    · rcases e.size with reason | size
      · rfl
      · dsimp only
        rw [ih, collectItems]
        rcases collectItems base dir _ with reason | found
        · rfl
        · simp [Except.map, FoundFile.item]
    · rw [ih, collectItems]

/-- Whether an entry of the walk ends it with an error. -/
def DirectoryEntry.stops : DirectoryEntry → Bool
  | .file _ | .other => false
  | .noSize _ _ | .unreadable _ => true

theorem exists_collectItems_iff {base dir : Bytes} {entries : List DirectoryEntry} :
    (∃ items, collectItems base dir entries = .ok items) ↔ ∀ x ∈ entries, x.stops = false := by
  induction entries with
  | nil => simp [collectItems]
  | cons x rest ih =>
    rw [List.forall_mem_cons, ← ih]
    rcases x with f | _ | ⟨path, reason⟩ | reason
    · rcases hrest : collectItems base dir rest with reason | items
      · simp [collectItems, hrest, Except.map]
      · simp [collectItems, hrest, Except.map, DirectoryEntry.stops]
    · simp [collectItems, DirectoryEntry.stops]
    · simp [collectItems, DirectoryEntry.stops]
    · simp [collectItems, DirectoryEntry.stops]

theorem TreeEntry.stops_met_eq_false_iff {e : TreeEntry} : e.met.stops = false ↔
    (e.isRegularFile = true → ∃ size, e.size = .ok size) := by
  rw [met]
  split
  · next hfile =>
    rcases e.size with reason | size
    · simp [DirectoryEntry.stops, hfile]
    · simp [DirectoryEntry.stops]
  · next hfile => simp [DirectoryEntry.stops, hfile]

/-- Nothing ends the walk if the directories can be read to their ends and the sizes of the files
can be had. -/
theorem stops_walk_iff {listing : Listing TreeEntry Bytes} :
    (∀ x ∈ listing.walk.map comeUpon, x.stops = false) ↔ listing.Readable ∧
      ∀ e ∈ listing.entries, e.isRegularFile = true → ∃ size, e.size = .ok size := by
  rw [Listing.readable_iff]
  constructor
  · intro h
    refine ⟨fun reason hmem ↦ ?_, fun e he ↦ TreeEntry.stops_met_eq_false_iff.mp ?_⟩
    · have hstops := h _ (List.mem_map_of_mem hmem)
      cases hstops
    · exact h _ (List.mem_map_of_mem (Listing.ok_mem_walk_iff.mpr he))
  · rintro ⟨hreadable, hsizes⟩ x hx
    obtain ⟨y, hy, rfl⟩ := List.mem_map.mp hx
    rcases y with reason | e
    · exact absurd hy (hreadable reason)
    · exact TreeEntry.stops_met_eq_false_iff.mpr (hsizes e (Listing.ok_mem_walk_iff.mp hy))

/-! ## The call -/

/-- A `put_directory` call. `directory` is what comes of reading the directory, or why it is
none. -/
structure DirectoryCall where
  im : ClientImpl
  dir : Bytes
  prefixUri : Bytes
  options : DirectoryUploadOptions := {}
  callback : Bool := true
  directory : Except (Option Bytes) (Listing TreeEntry Bytes)

namespace DirectoryCall

variable (c : DirectoryCall)

/-- The files to upload. -/
def items : Except Bytes (List Item) :=
  itemsUnder c.prefixUri c.dir (fun base dir listing ↦ walkItems base dir (advance [listing]) [])
    c.directory

/-- The upload of the files found. -/
def upload (items : List Item) : DirectoryUpload :=
  { im := c.im, items, options := c.options, callback := c.callback }

/-- What the call returns, and what came of the `put_file` calls that it made. -/
inductive Returns (env : Outside) :
    Outcome DirectoryUploadStats → List FileUploadResult → Prop
  | rejected {e : Bytes} (h : c.items = .error e) : Returns env ⟨false, {}, e⟩ []
  | ran {items : List Item} {s : Directory.State (c.upload items).threads}
      {out : Outcome DirectoryUploadStats} (hitems : c.items = .ok items)
      (hs : (c.upload items).Reaches env s) (hout : s.caller = .returned out) :
      Returns env out s.ended

/-- All entries under the directory that reading it comes upon. -/
def entries : List TreeEntry :=
  match c.directory with
  | .error _ => []
  | .ok listing => listing.entries

/-- The directory is one, and it and those in it can be read to their ends. -/
def Listed : Prop := ∃ listing, c.directory = .ok listing ∧ listing.Readable

/-- A call that succeeds has uploaded every regular file. It fails when the status of an entry
cannot be determined or a directory cannot be listed. -/
structure SkipsNothing (out : Outcome DirectoryUploadStats) (ended : List FileUploadResult) :
    Prop where
  uploaded : out.ok = true → ∀ e ∈ c.entries, e.isFile = true →
    ∃ r ∈ ended, r.ok = true ∧ r.path = e.path ∧ ∀ bucket pfx,
      splitS3Uri c.prefixUri false = .ok (bucket, pfx) →
        r.uri = directoryBase bucket pfx ++ e.relative
  status : (∃ e ∈ c.entries, e.status ≠ none) → out.ok = false
  listed : ¬c.Listed → out.ok = false

/-- What else a call fails of: the URI, the listing, the size of a file, an upload. -/
inductive Fails (ended : List FileUploadResult) : Prop
  | prefixUri {e : Bytes} (h : splitS3Uri c.prefixUri false = .error e)
  | listing (h : ¬c.Listed)
  | size {e : TreeEntry} {reason : Bytes} (he : e ∈ c.entries) (hfile : e.isRegularFile = true)
      (h : e.size = .error reason)
  | upload {r : FileUploadResult} (hr : r ∈ ended) (h : r.ok = false)

variable {c}

theorem items_eq : c.items = directoryItems c.prefixUri c.dir
    (c.directory.map fun listing ↦ listing.walk.map comeUpon) := by
  rw [items, directoryItems, itemsUnder, itemsUnder]
  rcases splitS3Uri c.prefixUri false with e | ⟨bucket, pfx⟩
  · rfl
  · rcases c.directory with reason | listing
    · rfl
    · dsimp only [Except.map]
      rw [walkItems_advance, List.flatMap_singleton]
      rcases collectItems _ _ _ with reason | found
      · rfl
      · simp [Except.map]

theorem items_eq_ok_iff {items : List Item} : c.items = .ok items ↔
    ∃ bucket pfx listing found, splitS3Uri c.prefixUri false = .ok (bucket, pfx) ∧
      c.directory = .ok listing ∧
      collectItems (directoryBase bucket pfx) c.dir (listing.walk.map comeUpon) = .ok found ∧
      items = found.mergeSort fun a b ↦ decide (b.size ≤ a.size) := by
  rw [items_eq, directoryItems, itemsUnder]
  rcases splitS3Uri c.prefixUri false with e | ⟨bucket, pfx⟩
  · simp
  · rcases c.directory with reason | listing
    · simp [Except.map]
    · dsimp only [Except.map]
      rcases hfound : collectItems (directoryBase bucket pfx) c.dir (listing.walk.map comeUpon)
        with reason | found
      · simp [hfound]
      · simp [hfound, eq_comm]

theorem exists_items_iff : (∃ items, c.items = .ok items) ↔
    (∃ q, splitS3Uri c.prefixUri false = .ok q) ∧ c.Listed ∧
      ∀ e ∈ c.entries, e.isRegularFile = true → ∃ size, e.size = .ok size := by
  constructor
  · rintro ⟨items, hitems⟩
    obtain ⟨bucket, pfx, listing, found, hsplit, hlisting, hfound, -⟩ := items_eq_ok_iff.mp hitems
    obtain ⟨hreadable, hsizes⟩ :=
      stops_walk_iff.mp (exists_collectItems_iff.mp ⟨found, hfound⟩)
    refine ⟨⟨_, hsplit⟩, ⟨listing, hlisting, hreadable⟩, ?_⟩
    rwa [entries, hlisting]
  · rintro ⟨⟨⟨bucket, pfx⟩, hsplit⟩, ⟨listing, hlisting, hreadable⟩, hsizes⟩
    rw [entries, hlisting] at hsizes
    obtain ⟨found, hfound⟩ := exists_collectItems_iff.mpr (stops_walk_iff.mpr ⟨hreadable, hsizes⟩)
    exact ⟨_, items_eq_ok_iff.mpr ⟨bucket, pfx, listing, found, hsplit, hlisting, hfound, rfl⟩⟩

theorem exists_mem_items {items : List Item} (hitems : c.items = .ok items) {e : TreeEntry}
    (he : e ∈ c.entries) (hfile : e.isRegularFile = true) :
    ∃ item ∈ items, item.path = e.path ∧ ∀ bucket pfx,
      splitS3Uri c.prefixUri false = .ok (bucket, pfx) →
        item.uri = directoryBase bucket pfx ++ e.relative := by
  obtain ⟨-, -, hsizes⟩ := exists_items_iff.mp ⟨items, hitems⟩
  obtain ⟨size, hsize⟩ := hsizes e he hfile
  obtain ⟨bucket, pfx, listing, found, hsplit, hlisting, hfound, rfl⟩ := items_eq_ok_iff.mp hitems
  rw [entries, hlisting] at he
  let f : FoundFile :=
    { path := e.path, relative := e.relative, relative_ne := e.relative_ne, size := size }
  have hmet : e.met = .file f := by rw [TreeEntry.met, if_pos hfile, hsize]
  have hmem : f ∈ foundFiles (listing.walk.map comeUpon) := by
    refine List.mem_filterMap.mpr ⟨.file f, ?_, rfl⟩
    rw [← hmet]
    exact List.mem_map_of_mem (f := comeUpon) (Listing.ok_mem_walk_iff.mpr he)
  refine ⟨f.item (directoryBase bucket pfx), ?_, rfl, ?_⟩
  · -- sorting loses nothing
    rw [(List.mergeSort_perm _ _).mem_iff, Directory.collectItems_eq hfound]
    exact List.mem_map_of_mem hmem
  · intro bucket' pfx' hsplit'
    rw [hsplit] at hsplit'
    cases hsplit'
    rfl

variable {env : Outside} {out : Outcome DirectoryUploadStats} {ended : List FileUploadResult}

theorem Returns.ok_iff (h : c.Returns env out ended) : out.ok = true ↔ ¬c.Fails ended := by
  rcases h with hrejected | ⟨hitems, hs, hout⟩
  · -- what keeps the call from its uploads is one of the other three
    simp only [Bool.false_eq_true, false_iff, not_not]
    by_contra hfails
    have hnone : ¬∃ items, c.items = .ok items := by
      rintro ⟨items, hitems⟩
      rw [hrejected] at hitems
      cases hitems
    refine hnone (exists_items_iff.mpr ⟨?_, ?_, fun e he hfile ↦ ?_⟩)
    · rcases hsplit : splitS3Uri c.prefixUri false with e | q
      · exact absurd (.prefixUri hsplit) hfails
      · exact ⟨q, rfl⟩
    · by_contra hlisting
      exact hfails (.listing hlisting)
    · rcases hsize : e.size with reason | size
      · exact absurd (.size he hfile hsize) hfails
      · exact ⟨size, rfl⟩
  · have haccounted := Directory.accounted_of_reaches hs hout
    obtain ⟨⟨q, hsplit⟩, hlisted, hsizes⟩ := exists_items_iff.mp ⟨_, hitems⟩
    rw [haccounted.ok_iff_forall]
    constructor
    · rintro hall (hrefused | hlisting | ⟨he, hfile, hsize⟩ | ⟨hr, hfail⟩)
      · rw [hsplit] at hrefused
        cases hrefused
      · exact hlisting hlisted
      · obtain ⟨size, hsize'⟩ := hsizes _ he hfile
        rw [hsize] at hsize'
        cases hsize'
      · rw [hall _ hr] at hfail
        cases hfail
    · intro hfails r hr
      by_contra hfail
      exact hfails (.upload hr (Bool.eq_false_of_not_eq_true hfail))

theorem Returns.uploaded (h : c.Returns env out ended) (hok : out.ok = true) {e : TreeEntry}
    (he : e ∈ c.entries) (hfile : e.isRegularFile = true) :
    ∃ r ∈ ended, r.ok = true ∧ r.path = e.path ∧ ∀ bucket pfx,
      splitS3Uri c.prefixUri false = .ok (bucket, pfx) →
        r.uri = directoryBase bucket pfx ++ e.relative := by
  rcases h with hrejected | ⟨hitems, hs, hout⟩
  · cases hok
  · have haccounted := Directory.accounted_of_reaches hs hout
    obtain ⟨item, hitem, hpath, huri⟩ := exists_mem_items hitems he hfile
    -- the upload of each item has returned, and none has failed
    obtain ⟨r, hr, rfl⟩ := List.mem_map.mp (haccounted.returned.mem_iff.mpr hitem)
    exact ⟨r, hr, haccounted.ok_iff_forall.mp hok r hr, hpath, huri⟩

/-- **Skipped files.** -/
theorem skipsNothing_iff (h : c.Returns env out ended) :
    c.SkipsNothing out ended ↔ (∀ e ∈ c.entries, e.status = none) ∨ c.Fails ended := by
  have hfailed : c.Fails ended → out.ok = false := fun hfails ↦
    Bool.eq_false_of_not_eq_true fun hok ↦ h.ok_iff.mp hok hfails
  constructor
  · intro hskips
    by_contra hor
    obtain ⟨hstatus, hfails⟩ := not_or.mp hor
    push Not at hstatus
    have hfalse := hskips.status hstatus
    rw [h.ok_iff.mpr hfails] at hfalse
    cases hfalse
  · rintro (hstatus | hfails)
    · refine ⟨fun hok e he hfile ↦ h.uploaded hok he ?_, ?_,
        fun hlisting ↦ hfailed (.listing hlisting)⟩
      · rw [TreeEntry.isRegularFile, hfile, hstatus e he]
        rfl
      · rintro ⟨e, he, hundetermined⟩
        exact absurd (hstatus e he) hundetermined
    · have hfalse := hfailed hfails
      refine ⟨fun hok ↦ ?_, fun _ ↦ hfalse, fun _ ↦ hfalse⟩
      rw [hfalse] at hok
      cases hok

/-- A file that the walk finds. -/
def foundEntry (f : FoundFile) : TreeEntry :=
  { path := f.path, relative := f.relative, relative_ne := f.relative_ne, isFile := true,
    status := none, size := .ok f.size }

/-- An empty directory, `/d/g`. -/
def emptyEntry : TreeEntry :=
  { path := utf8 "/d/g", relative := utf8 "g", relative_ne := by decide, isFile := false,
    status := none, size := .error (utf8 "Is a directory") }

/-- The upload of a directory with three files and an empty directory. -/
def largeCall : DirectoryCall where
  im := .usEast
  dir := utf8 "/d"
  prefixUri := utf8 "s3://b"
  options := { concurrency := 1 }
  directory := .ok (.entry (foundEntry (Directory.largeFile "0")) (.directory emptyEntry .ended
    (.entry (foundEntry (Directory.largeFile "1"))
      (.entry (foundEntry (Directory.largeFile "2")) .ended))))

/-- All three are uploaded. -/
theorem skipsNothing_large : ∃ out ended,
    largeCall.Returns Directory.accepting out ended ∧ largeCall.SkipsNothing out ended := by
  obtain ⟨s, out, hs, hout, -⟩ := Directory.exists_sequential (d := Directory.large) (by decide)
    (fun _ ↦ ⟨true, none, []⟩) Directory.putFileReturns_large
  have hitems : largeCall.items = .ok Directory.large.items := by
    rw [items_eq]
    exact Directory.directoryItems_large
  have hreturns : largeCall.Returns Directory.accepting out s.ended := .ran hitems hs hout
  refine ⟨out, s.ended, hreturns, (skipsNothing_iff hreturns).mpr (.inl ?_)⟩
  decide

/-- A symlink `/d/l` to a file in a directory that may not be searched. -/
def linkEntry : TreeEntry :=
  { path := utf8 "/d/l", relative := utf8 "l", relative_ne := by decide, isFile := true,
    status := some (utf8 "Permission denied"), size := .error (utf8 "Permission denied") }

/-- The upload of a directory with nothing in it but this. -/
def linkCall : DirectoryCall where
  im := .usEast
  dir := utf8 "/d"
  prefixUri := utf8 "s3://b"
  directory := .ok (.entry linkEntry .ended)

/-- It succeeds, and nothing has been uploaded. -/
theorem not_skipsNothing_link : ∃ out, linkCall.Returns Directory.accepting out [] ∧
    out.ok = true ∧ ¬linkCall.SkipsNothing out [] := by
  have hitems : linkCall.items = .ok [] := by
    have hsplit : splitS3Uri linkCall.prefixUri false = .ok (utf8 "b", []) := by decide
    exact items_eq_ok_iff.mpr
      ⟨utf8 "b", [], .entry linkEntry .ended, [], hsplit, rfl, rfl, List.mergeSort_nil.symm⟩
  obtain ⟨s, out, hs, hout, hended⟩ :=
    Directory.exists_sequential (d := linkCall.upload []) (by decide)
      (fun _ ↦ ⟨true, none, []⟩) (by simp [upload])
  have hreturns : linkCall.Returns Directory.accepting out s.ended := .ran hitems hs hout
  have hempty : s.ended = [] := hended
  have haccounted := Directory.accounted_of_reaches hs hout
  have hok : out.ok = true := by
    refine haccounted.ok_iff_forall.mpr fun r hr ↦ ?_
    rw [hempty] at hr
    cases hr
  rw [hempty] at hreturns
  refine ⟨out, hreturns, hok, fun hskips ↦ ?_⟩
  have hfalse := hskips.status ⟨linkEntry, List.mem_singleton_self _, Option.some_ne_none _⟩
  rw [hok] at hfalse
  cases hfalse

end DirectoryCall

end Nanos3Reader
