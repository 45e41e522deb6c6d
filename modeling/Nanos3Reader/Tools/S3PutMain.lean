import Nanos3Reader.StoredDirectory
import Nanos3Reader.Tools.S3Put

/-!
# What `s3put` does

Behind its command line `main` uploads a directory or a file, writes a line for every file and a
summary, and ends with 0, 1 or 2. What stands in the objects of the service then is read off the log
of the service, to which other programs may have contributed.

It can also end with no status, by an exception that nobody catches: when a file is planned to go up
in no parts at all, the number of threads to reserve room for is one less than zero.

How times and rates are written is free, and memory and threads do not run out.
-/

open ByteText ObjectApi Traversal

namespace Nanos3Reader

namespace S3Put

open ConcurrentUploads (Service Log emptyService)
open StoredDirectory (InPlace)

/-! ## Lines -/

/-- What is written to `stdout`, or to `stderr`. -/
inductive Line where
  | out (text : Bytes)
  | err (text : Bytes)
deriving DecidableEq

def failedLine (path uri error : Bytes) : Line :=
  .err (utf8 "FAILED " ++ cStr path ++ utf8 " -> " ++ cStr uri ++ utf8 ": " ++ cStr error ++
    utf8 "\n")

def uploadedLine (path uri : Bytes) (bytes : ℕ) (seconds : Bytes) : Line :=
  .out (utf8 "uploaded " ++ cStr path ++ utf8 " -> " ++ cStr uri ++ utf8 " (" ++ decimal bytes ++
    utf8 " bytes, " ++ seconds ++ utf8 " s)\n")

def errorLine (error : Bytes) : Line := .err (utf8 "s3put: " ++ cStr error ++ utf8 "\n")

def nothingUploaded (source : Bytes) : Line :=
  .err (utf8 "s3put: warning: nothing uploaded (no files under " ++ cStr source ++ utf8 ")\n")

/-- The function that `put_directory` calls for every file. -/
def onFile (quiet : Bool) (seconds : FileUploadResult → Bytes) (r : FileUploadResult) : List Line :=
  if r.ok = false then [failedLine r.path r.uri r.error]
  else if quiet = false then [uploadedLine r.path r.uri r.bytes (seconds r)]
  else []

def directorySummary (stats : DirectoryUploadStats) (concurrency : ℕ) (seconds mbps : Bytes) :
    Line :=
  .out (utf8 "s3put: " ++ decimal stats.files ++ utf8 " file(s), " ++ decimal stats.bytes ++
    utf8 " bytes in " ++ seconds ++ utf8 " s (" ++ mbps ++ utf8 " Mbps), " ++
    decimal stats.failed ++ utf8 " failed [nanos3reader 0.5.0, " ++ decimal concurrency ++
    utf8 " at once]\n")

def fileSummary (size : ℕ) (seconds mbps : Bytes) : Line :=
  .out (utf8 "s3put: 1 file(s), " ++ decimal size ++ utf8 " bytes in " ++ seconds ++ utf8 " s (" ++
    mbps ++ utf8 " Mbps), 0 failed [nanos3reader 0.5.0]\n")

/-- The end of `main` behind `put_directory`: what it writes, and the exit status. -/
def endDirectory (inv : Invocation) (out : Outcome DirectoryUploadStats) (seconds mbps : Bytes) :
    List Line × ℕ :=
  let summary := directorySummary out.out inv.options.concurrency seconds mbps
  if out.ok = false ∧ out.out.failed = 0 then ([summary, errorLine out.error], 2)
  else if out.ok = false then ([summary, errorLine out.error], 1)
  else if out.out.files = 0 then ([summary, nothingUploaded inv.source], 0)
  else ([summary], 0)

/-- `path::filename`: what stands behind the last slash. -/
def filename (path : Bytes) : Bytes := path.rtakeWhile (· ≠ 47)

/-- Where a single file goes. -/
def fileUri (inv : Invocation) : Bytes :=
  if inv.dest ≠ [] ∧ inv.dest.getLast? = some 47 then inv.dest ++ filename inv.source else inv.dest

/-- `file_size`, which is the largest number there is when it cannot be had. -/
def fileSize : FileStatus → ℕ
  | .regular content _ => content.length
  | .notRegular _ | .noSize _ => 2 ^ 64 - 1

/-- The end of `main` behind `put_file`. -/
def endFile (inv : Invocation) (size : ℕ) (out : Outcome (Option Bytes)) (seconds mbps : Bytes) :
    List Line × ℕ :=
  if out.ok = false then ([failedLine inv.source (fileUri inv) out.error], 1)
  else
    ((if inv.quiet = false then [uploadedLine inv.source (fileUri inv) size seconds] else []) ++
      [fileSummary size seconds mbps], 0)

/-! ## Runs -/

/-- What `is_directory` and `is_regular_file` say of the source. -/
inductive Source where
  | directory
  | file
  | missing

/-- The call of `put_directory`. -/
def directoryCall (im : ClientImpl) (inv : Invocation)
    (listing : Except (Option Bytes) (Listing TreeEntry Bytes)) : DirectoryCall :=
  { im, dir := inv.source, prefixUri := inv.dest, options := inv.options, directory := listing }

/-- The call of `put_file`. -/
def fileCall (im : ClientImpl) (inv : Invocation) : ConcurrentUploads.Calling :=
  ⟨im, { uri := fileUri inv, path := inv.source, options := inv.options.file }⟩

/-- The files that are to be uploaded, and where to. -/
def wanted (source : Source) (inv : Invocation)
    (listing : Except (Option Bytes) (Listing TreeEntry Bytes)) : List (Bytes × Bytes) :=
  match source with
  | .directory =>
    match splitS3Uri inv.dest false with
    | .error _ => []
    | .ok (bucket, pfx) =>
      match listing with
      | .error _ => []
      | .ok listing =>
        (listing.entries.filter TreeEntry.isFile).map fun e ↦
          (e.path, directoryBase bucket pfx ++ e.relative)
  | .file => [(inv.source, fileUri inv)]
  | .missing => []

section Ends

variable (env : Outside) (os : Service) (addressing : Addressing) (im : ClientImpl)
  (files : Bytes → FileStatus) (source : Source)
  (listing : Except (Option Bytes) (Listing TreeEntry Bytes))

/-- How `main` ends: with an exit status or by an exception, having written lines; and the log of
the service then, by the `put_file` calls. -/
inductive Ends (args : List Bytes) : List Line → Option ℕ → (ι : Type) → Log ι → Prop
  | exits {e : Exit} (hargs : parseArgs args {} = .error e) (log : Log Empty) :
      Ends args [.err e.stderr] (some e.status) Empty log
  | rejected {inv : Invocation} (hargs : parseArgs args {} = .ok inv)
      (hsource : source = .directory) {e : Bytes}
      (hitems : (directoryCall im inv listing).items = .error e) (seconds mbps : Bytes)
      (log : Log Empty) :
      Ends args (endDirectory inv ⟨false, {}, e⟩ seconds mbps).1
        (some (endDirectory inv ⟨false, {}, e⟩ seconds mbps).2) Empty log
  | directory {inv : Invocation} (hargs : parseArgs args {} = .ok inv)
      (hsource : source = .directory) {items : List Item}
      (hitems : (directoryCall im inv listing).items = .ok items)
      {s₀ s : StoredDirectory.State ((directoryCall im inv listing).upload items)}
      (hinit : s₀.Initial)
      (hrun : Relation.ReflTransGen (StoredDirectory.Step env os addressing files
        ((directoryCall im inv listing).upload items)) s₀ s)
      {out : Outcome DirectoryUploadStats} (hout : s.dir.caller = .returned out)
      (took : FileUploadResult → Bytes) (seconds mbps : Bytes) :
      Ends args (s.dir.told.flatMap (onFile inv.quiet took) ++
          (endDirectory inv out seconds mbps).1) (some (endDirectory inv out seconds mbps).2)
        (StoredDirectory.File ((directoryCall im inv listing).upload items)) s.uploads.log
  | directoryThrows {inv : Invocation} (hargs : parseArgs args {} = .ok inv)
      (hsource : source = .directory) {items : List Item}
      (hitems : (directoryCall im inv listing).items = .ok items)
      {s₀ s : StoredDirectory.State ((directoryCall im inv listing).upload items)}
      (hinit : s₀.Initial)
      (hrun : Relation.ReflTransGen (StoredDirectory.Step env os addressing files
        ((directoryCall im inv listing).upload items)) s₀ s)
      {f : StoredDirectory.File ((directoryCall im inv listing).upload items)} {begun : ℕ}
      {u : FileUpload} {uploadId : Bytes} {ms : Multipart.State u.threads}
      (hinParts : s.uploads.status f = .inParts begun u uploadId ms) (hparts : u.parts = 0)
      (took : FileUploadResult → Bytes) :
      Ends args (s.dir.told.flatMap (onFile inv.quiet took)) none
        (StoredDirectory.File ((directoryCall im inv listing).upload items)) s.uploads.log
  | missing {inv : Invocation} (hargs : parseArgs args {} = .ok inv) (hsource : source = .missing)
      (log : Log Empty) :
      Ends args [errorLine (inv.source ++ utf8 ": no such file or directory")] (some 2) Empty log
  | file {inv : Invocation} (hargs : parseArgs args {} = .ok inv) (hsource : source = .file)
      {s₀ s : ConcurrentUploads.State Unit} (hinit : s₀.Initial)
      (hrun : Relation.ReflTransGen
        (ConcurrentUploads.Step env os addressing fun _ ↦ fileCall im inv) s₀ s)
      (hfile : ∀ begun u, (s.status ()).About begun u →
        files inv.source = .regular u.file.content u.file.size_lt)
      {begun ended : ℕ} {u : Option FileUpload} {out : Outcome (Option Bytes)}
      (hdone : s.status () = .done begun ended u out) (seconds mbps : Bytes) :
      Ends args (endFile inv (fileSize (files inv.source)) out seconds mbps).1
        (some (endFile inv (fileSize (files inv.source)) out seconds mbps).2) Unit s.log
  | fileThrows {inv : Invocation} (hargs : parseArgs args {} = .ok inv) (hsource : source = .file)
      {s₀ s : ConcurrentUploads.State Unit} (hinit : s₀.Initial)
      (hrun : Relation.ReflTransGen
        (ConcurrentUploads.Step env os addressing fun _ ↦ fileCall im inv) s₀ s)
      (hfile : ∀ begun u, (s.status ()).About begun u →
        files inv.source = .regular u.file.content u.file.size_lt)
      {begun : ℕ} {u : FileUpload} {uploadId : Bytes} {ms : Multipart.State u.threads}
      (hinParts : s.status () = .inParts begun u uploadId ms) (hparts : u.parts = 0) :
      Ends args [] none Unit s.log

end Ends

/-! ## What the exit status tells -/

/-- What a user of `s3put` can rely on. -/
structure Tells (os : Service) (files : Bytes → FileStatus) (source : Source)
    (listing : Except (Option Bytes) (Listing TreeEntry Bytes)) (args : List Bytes)
    (lines : List Line) (status : ℕ) {ι : Type} (log : Log ι) : Prop where
  range : status = 0 ∨ status = 1 ∨ status = 2
  /-- After 0 and 1 every file is in its place, unless a line says that it failed. -/
  placed : status ≠ 2 → ∀ inv, parseArgs args {} = .ok inv → ∀ p ∈ wanted source inv listing,
    (∃ error, failedLine p.1 p.2 error ∈ lines) ∨
      ∃ k, splitS3Uri p.2 true = .ok k ∧ InPlace os log k (files p.1)
  /-- There is such a line just when the status is 1. -/
  failed : status = 1 ↔ ∃ inv, parseArgs args {} = .ok inv ∧ ∃ p ∈ wanted source inv listing,
    ∃ error, failedLine p.1 p.2 error ∈ lines
  /-- After 2 nothing has been uploaded. -/
  nothing : status = 2 → ∀ n k, (∀ m o, m < n → log[m]? ≠ some (.changed k o)) →
    (os.before log n).objects k = os.objects k

/-- A file whose size and part size cannot be added up in 64 bits. -/
def Overflows (files : Bytes → FileStatus) (source : Source)
    (listing : Except (Option Bytes) (Listing TreeEntry Bytes)) (args : List Bytes) : Prop :=
  ∃ inv, parseArgs args {} = .ok inv ∧ ∃ p ∈ wanted source inv listing, ∃ content size_lt,
    files p.1 = .regular content size_lt ∧
      2 ^ 64 < content.length + partSizeFor content.length inv.options.file.partSize

/-! ### Lines that tell of failures -/

/-- A line that tells that a file was not uploaded. -/
def Line.Failed : Line → Prop
  | .err text => utf8 "FAILED " <+: text
  | .out _ => False

theorem failed_failedLine (path uri error : Bytes) : (failedLine path uri error).Failed := by
  rw [failedLine, List.append_assoc, List.append_assoc, List.append_assoc, List.append_assoc,
    List.append_assoc]
  exact List.prefix_append _ _

theorem not_failed_of_head? {text : Bytes} (h : text.head? = some 115) :
    ¬(Line.err text).Failed := by
  rintro ⟨rest, rfl⟩
  rw [List.head?_append, show (utf8 "FAILED ").head? = some 70 from by decide] at h
  have hbyte : (70 : UInt8) = 115 := Option.some.inj h
  exact absurd hbyte (by decide)

theorem not_failed_errorLine (error : Bytes) : ¬(errorLine error).Failed :=
  not_failed_of_head? (by
    rw [List.head?_append, List.head?_append, show (utf8 "s3put: ").head? = some 115 from by decide]
    rfl)

theorem not_failed_nothingUploaded (source : Bytes) : ¬(nothingUploaded source).Failed :=
  not_failed_of_head? (by
    rw [List.head?_append, List.head?_append]
    rfl)

/-- The end of an upload of a directory: 0, 1 or 2, and no more lines about files. -/
theorem endDirectory_cases (inv : Invocation) (out : Outcome DirectoryUploadStats)
    (seconds mbps : Bytes) : (∀ l ∈ (endDirectory inv out seconds mbps).1, ¬l.Failed) ∧
      (endDirectory inv out seconds mbps).2
        = if out.ok = true then 0 else if out.out.failed = 0 then 2 else 1 := by
  have hout {l : Line} (hl : ¬l.Failed) : ∀ l' ∈ [directorySummary out.out inv.options.concurrency
      seconds mbps, l], ¬l'.Failed := by
    intro l' hl'
    obtain rfl | hl' := List.mem_cons.mp hl'
    · exact id
    · obtain rfl := List.mem_singleton.mp hl'
      exact hl
  rw [endDirectory]
  rcases hok : out.ok
  · by_cases hfailed : out.out.failed = 0
    · rw [if_pos ⟨rfl, hfailed⟩]
      exact ⟨hout (not_failed_errorLine _), by simp [hfailed]⟩
    · rw [if_neg fun h ↦ hfailed h.2, if_pos rfl]
      exact ⟨hout (not_failed_errorLine _), by simp [hfailed]⟩
  · rw [if_neg fun h ↦ Bool.noConfusion h.1, if_neg Bool.noConfusion]
    split
    · exact ⟨hout (not_failed_nothingUploaded _), rfl⟩
    · refine ⟨fun l hl ↦ ?_, rfl⟩
      obtain rfl := List.mem_singleton.mp hl
      exact id

theorem failed_of_mem_onFile {quiet : Bool} {took : FileUploadResult → Bytes} {r : FileUploadResult}
    {l : Line} (h : l ∈ onFile quiet took r) (hl : l.Failed) : r.ok = false := by
  rw [onFile] at h
  split at h
  · next hfailed => exact hfailed
  · split at h
    · obtain rfl := List.mem_singleton.mp h
      exact hl.elim
    · cases h

theorem mem_onFile_of_failed {quiet : Bool} {took : FileUploadResult → Bytes} {r : FileUploadResult}
    (h : r.ok = false) : failedLine r.path r.uri r.error ∈ onFile quiet took r := by
  rw [onFile, if_pos h]
  exact List.mem_singleton_self _

/-! ### The command line -/

theorem status_of_parseArgs {args : List Bytes} {inv : Invocation} {e : Exit}
    (h : parseArgs args inv = .error e) : e.status = 0 ∨ e.status = 2 := by
  fun_induction parseArgs args inv with
  | case1 =>
    cases h
    exact .inr rfl
  | case2 => cases h
  | case3 =>
    cases h
    exact .inr rfl
  | case4 arg inv o text args harg e' htake =>
    cases h
    rw [CountOption.take] at htake
    split at htake
    · cases htake
      exact .inr rfl
    · cases htake
  | case5 arg inv o text args harg inv' htake ih => exact ih h
  | case6 =>
    cases h
    exact .inr rfl
  | case7 inv value args harg ih => exact ih h
  | case8 arg args inv harg hcontent e' hword =>
    cases h
    rw [takeWord] at hword
    split_ifs at hword
    all_goals cases hword
    · exact .inl rfl
    all_goals exact .inr rfl
  | case9 arg args inv harg hcontent inv' hword ih => exact ih h

/-! ### Ends -/

section Told

variable {env : Outside} {os : Service} {addressing : Addressing} {im : ClientImpl}
  {files : Bytes → FileStatus} {source : Source}
  {listing : Except (Option Bytes) (Listing TreeEntry Bytes)} {args : List Bytes}
  {inv : Invocation} {bucket pfx : Bytes}

theorem nothing_of_empty (log : Log Empty) (n : ℕ) (k : Bytes × Bytes)
    (hothers : ∀ m o, m < n → log[m]? ≠ some (.changed k o)) :
    (os.before log n).objects k = os.objects k := by
  refine UploadStore.Store.object_untouched n fun j e hj hevent ↦ ?_
  refine ⟨fun heq ↦ hothers j none hj (heq ▸ hevent), fun body hleaves ↦ ?_⟩
  rcases e with ⟨⟨i, call⟩, req, id, tag⟩ | ⟨k', o⟩
  · exact i.elim
  · cases hleaves
    exact hothers j _ hj hevent

variable (im) in
theorem mem_wanted_directory (hsplit : splitS3Uri inv.dest false = .ok (bucket, pfx))
    {p : Bytes × Bytes} : p ∈ wanted .directory inv listing ↔
      ∃ e ∈ (directoryCall im inv listing).entries, e.isFile = true ∧
        p = (e.path, directoryBase bucket pfx ++ e.relative) := by
  rw [wanted.eq_def]
  dsimp only
  rw [hsplit, DirectoryCall.entries, directoryCall]
  rcases listing with reason | listing
  · simp
  · dsimp only
    rw [List.mem_map]
    constructor
    · rintro ⟨e, he, rfl⟩
      obtain ⟨hmem, hfile⟩ := List.mem_filter.mp he
      exact ⟨e, hmem, hfile, rfl⟩
    · rintro ⟨e, hmem, hfile, rfl⟩
      exact ⟨e, List.mem_filter.mpr ⟨hmem, hfile⟩, rfl⟩

section Directory

variable {items : List Item}
  {s : StoredDirectory.State ((directoryCall im inv listing).upload items)}
  {out : Outcome DirectoryUploadStats}

theorem isRegularFile_of_isFile
    (hstatus : ∀ e ∈ (directoryCall im inv listing).entries, e.isFile = true → e.status = none)
    {e : TreeEntry} (he : e ∈ (directoryCall im inv listing).entries) (hfile : e.isFile = true) :
    e.isRegularFile = true := by
  rw [TreeEntry.isRegularFile, hfile, hstatus e he hfile]
  rfl

theorem exists_ended_of_mem_wanted (hitems : (directoryCall im inv listing).items = .ok items)
    (hstatus : ∀ e ∈ (directoryCall im inv listing).entries, e.isFile = true → e.status = none)
    (hsplit : splitS3Uri inv.dest false = .ok (bucket, pfx))
    (haccounted : Directory.Accounted ((directoryCall im inv listing).upload items) s.dir out)
    {p : Bytes × Bytes} (hp : p ∈ wanted .directory inv listing) :
    ∃ r ∈ s.dir.ended, r.path = p.1 ∧ r.uri = p.2 := by
  obtain ⟨e, he, hfile, rfl⟩ := (mem_wanted_directory im hsplit).mp hp
  obtain ⟨item, hitem, hpath, huri⟩ :=
    DirectoryCall.exists_mem_items hitems he (isRegularFile_of_isFile hstatus he hfile)
  obtain ⟨r, hr, rfl⟩ := List.mem_map.mp (haccounted.returned.mem_iff.mpr hitem)
  exact ⟨r, hr, hpath, huri bucket pfx hsplit⟩

theorem isFile_of_isRegularFile {e : TreeEntry} (h : e.isRegularFile = true) :
    e.isFile = true := by
  rw [TreeEntry.isRegularFile, Bool.and_eq_true] at h
  exact h.1

theorem mem_wanted_of_ended (hitems : (directoryCall im inv listing).items = .ok items)
    (hsplit : splitS3Uri inv.dest false = .ok (bucket, pfx))
    (haccounted : Directory.Accounted ((directoryCall im inv listing).upload items) s.dir out)
    {r : FileUploadResult} (hr : r ∈ s.dir.ended) :
    (r.path, r.uri) ∈ wanted .directory inv listing := by
  have hitem := haccounted.returned.mem_iff.mp (List.mem_map_of_mem hr)
  obtain ⟨e, he, hfile, hpath, huri⟩ := DirectoryCall.exists_entry_of_mem hitems hsplit hitem
  exact (mem_wanted_directory im hsplit).mpr
    ⟨e, he, isFile_of_isRegularFile hfile, Prod.ext hpath huri⟩

/-- The call has come to its uploads: 0 or 1, by what came of them. -/
theorem endDirectory_status
    (haccounted : Directory.Accounted ((directoryCall im inv listing).upload items) s.dir out)
    (seconds mbps : Bytes) :
    ((∀ r ∈ s.dir.ended, r.ok = true) ∧ (endDirectory inv out seconds mbps).2 = 0) ∨
      (∃ r ∈ s.dir.ended, r.ok = false) ∧ (endDirectory inv out seconds mbps).2 = 1 := by
  obtain ⟨-, hstatus⟩ := endDirectory_cases inv out seconds mbps
  rw [hstatus]
  by_cases hall : ∀ r ∈ s.dir.ended, r.ok = true
  · exact .inl ⟨hall, if_pos (haccounted.ok_iff_forall.mpr hall)⟩
  · have hok : ¬out.ok = true := fun hok ↦ hall (haccounted.ok_iff_forall.mp hok)
    have hfailed : out.out.failed ≠ 0 := fun hzero ↦ hok (haccounted.ok.mpr hzero)
    push Not at hall
    obtain ⟨r, hr, hfail⟩ := hall
    exact .inr ⟨⟨r, hr, Bool.eq_false_of_not_eq_true hfail⟩, by rw [if_neg hok, if_neg hfailed]⟩

theorem failed_lines (haccounted : Directory.Accounted
      ((directoryCall im inv listing).upload items) s.dir out)
    (took : FileUploadResult → Bytes) (seconds mbps : Bytes) :
    (∀ r ∈ s.dir.ended, r.ok = false → failedLine r.path r.uri r.error ∈
      s.dir.told.flatMap (onFile inv.quiet took) ++ (endDirectory inv out seconds mbps).1) ∧
    ∀ l ∈ s.dir.told.flatMap (onFile inv.quiet took) ++ (endDirectory inv out seconds mbps).1,
      l.Failed → ∃ r ∈ s.dir.ended, r.ok = false := by
  have htold : s.dir.told.Perm s.dir.ended := haccounted.told
  constructor
  · intro r hr hfailed
    exact List.mem_append_left _ (List.mem_flatMap.mpr
      ⟨r, htold.mem_iff.mpr hr, mem_onFile_of_failed hfailed⟩)
  · intro l hl hfails
    obtain hl | hl := List.mem_append.mp hl
    · obtain ⟨r, hr, hl⟩ := List.mem_flatMap.mp hl
      exact ⟨r, htold.mem_iff.mp hr, failed_of_mem_onFile hl hfails⟩
    · exact absurd hfails ((endDirectory_cases inv out seconds mbps).1 l hl)

/-- **What `s3put` tells of a directory.** -/
theorem tells_directory (hargs : parseArgs args {} = .ok inv)
    (hitems : (directoryCall im inv listing).items = .ok items)
    (hstatus : ∀ e ∈ (directoryCall im inv listing).entries, e.isFile = true → e.status = none)
    (hsplit : splitS3Uri inv.dest false = .ok (bucket, pfx))
    (h : StoredDirectory.Uploaded os (directoryCall im inv listing) files bucket pfx s)
    (hout : s.dir.caller = .returned out) (took : FileUploadResult → Bytes)
    (seconds mbps : Bytes) :
    Tells os files .directory listing args (s.dir.told.flatMap (onFile inv.quiet took) ++
      (endDirectory inv out seconds mbps).1) (endDirectory inv out seconds mbps).2
      s.uploads.log := by
  have haccounted := h.accounted out hout
  have hends := endDirectory_status haccounted seconds mbps
  obtain ⟨hlines, honly⟩ := failed_lines haccounted took seconds mbps
  constructor
  case range => exact hends.imp And.right fun h1 ↦ .inl h1.2
  case placed =>
    intro _ inv' hargs' p hp
    cases hargs.symm.trans hargs'
    obtain ⟨r, hr, hpath, huri⟩ := exists_ended_of_mem_wanted hitems hstatus hsplit haccounted hp
    rcases hok : r.ok
    · exact .inl ⟨r.error, hpath ▸ huri ▸ hlines r hr hok⟩
    · obtain ⟨e, -, -, hpath', huri', hplace⟩ := h.each r hr hok
      refine .inr ⟨e.name bucket pfx, ?_, ?_⟩
      · rw [← huri, huri']
        exact e.splitS3Uri_name hsplit true
      · rw [← hpath, hpath']
        exact hplace
  case failed =>
    constructor
    · intro h1
      obtain ⟨-, h0⟩ | ⟨⟨r, hr, hfailed⟩, -⟩ := hends
      · rw [h0] at h1
        cases h1
      · exact ⟨inv, hargs, _, mem_wanted_of_ended hitems hsplit haccounted hr, r.error,
          hlines r hr hfailed⟩
    · rintro ⟨-, -, p, -, error, hmem⟩
      obtain ⟨r, hr, hfailed⟩ := honly _ hmem (failed_failedLine p.1 p.2 error)
      obtain ⟨hall, -⟩ | ⟨-, h1⟩ := hends
      · rw [hall r hr] at hfailed
        cases hfailed
      · exact h1
  case nothing =>
    intro h2
    rw [h2] at hends
    obtain ⟨-, h0⟩ | ⟨-, h1⟩ := hends
    · cases h0
    · cases h1

end Directory

/-- **What `s3put` tells of a file.** -/
theorem tells_file (hargs : parseArgs args {} = .ok inv) {s : ConcurrentUploads.State Unit}
    (h : ConcurrentUploads.Stored env os (fun _ ↦ fileCall im inv) s)
    (hfile : ∀ begun u, (s.status ()).About begun u →
      files inv.source = .regular u.file.content u.file.size_lt)
    {begun ended : ℕ} (hended : ended ≤ s.log.length) {u : Option FileUpload}
    {out : Outcome (Option Bytes)} (hdone : s.status () = .done begun ended u out)
    (seconds mbps : Bytes) :
    Tells os files .file listing args (endFile inv (fileSize (files inv.source)) out seconds mbps).1
      (endFile inv (fileSize (files inv.source)) out seconds mbps).2 s.log := by
  rw [endFile]
  rcases hok : out.ok
  · rw [if_pos rfl]
    have hmem : failedLine inv.source (fileUri inv) out.error ∈
        [failedLine inv.source (fileUri inv) out.error] := List.mem_singleton_self _
    refine ⟨.inr (.inl rfl), fun _ inv' hargs' p hp ↦ ?_, ⟨fun _ ↦ ?_, fun _ ↦ rfl⟩,
      fun h2 ↦ (by cases h2)⟩
    · cases hargs.symm.trans hargs'
      obtain rfl := List.mem_singleton.mp hp
      exact .inl ⟨_, hmem⟩
    · exact ⟨inv, hargs, _, List.mem_singleton_self _, _, hmem⟩
  · rw [if_neg Bool.noConfusion]
    refine ⟨.inl rfl, fun _ inv' hargs' p hp ↦ ?_, ⟨fun h1 ↦ (by cases h1), ?_⟩,
      fun h2 ↦ (by cases h2)⟩
    · cases hargs.symm.trans hargs'
      obtain rfl := List.mem_singleton.mp hp
      obtain ⟨v, hv, htarget, n, -, hlt, -, hkept⟩ := h.written () begun ended u out hdone hok
      have habout : (s.status ()).About begun v := by
        rw [hdone]
        exact ⟨rfl, hv⟩
      refine .inr ⟨v.name, ClientImpl.splitS3Uri_of_target htarget, v.file.content, v.file.size_lt,
        n + 1, hfile begun v habout, (Nat.succ_le_of_lt hlt).trans hended, fun m hm hothers ↦ ?_⟩
      refine hkept m hm (fun j o hj hjm ↦ hothers j o hj hjm) fun _ begun' w habout' _ ↦ ?_
      obtain ⟨-, rfl⟩ := habout.unique habout'
      rfl
    · rintro ⟨-, -, p, -, error, hmem⟩
      have hfails := failed_failedLine p.1 p.2 error
      obtain hmem | hmem := List.mem_append.mp hmem
      · split at hmem
        · rw [List.mem_singleton.mp hmem] at hfails
          exact hfails.elim
        · cases hmem
      · rw [List.mem_singleton.mp hmem] at hfails
        exact hfails.elim

theorem tells_nothing {lines : List Line} (hlines : ∀ l ∈ lines, ¬l.Failed) (log : Log Empty) :
    Tells os files source listing args lines 2 log := by
  refine ⟨.inr (.inr rfl), fun hne ↦ absurd rfl hne, ⟨fun h1 ↦ (by cases h1), ?_⟩,
    fun _ ↦ nothing_of_empty log⟩
  rintro ⟨-, -, p, -, error, hmem⟩
  exact absurd (failed_failedLine p.1 p.2 error) (hlines _ hmem)

theorem tells_exit {e : Exit} (hargs : parseArgs args {} = .error e) (log : Log Empty) :
    Tells os files source listing args [.err e.stderr] e.status log := by
  have hno {inv : Invocation} : parseArgs args {} ≠ .ok inv := by
    rw [hargs]
    rintro ⟨⟩
  have hstatus := status_of_parseArgs hargs
  refine ⟨hstatus.imp_right .inr, fun _ inv hinv ↦ absurd hinv hno, ⟨fun h1 ↦ ?_, ?_⟩,
    fun _ ↦ nothing_of_empty log⟩
  · rw [h1] at hstatus
    exact absurd hstatus (by decide)
  · rintro ⟨inv, hinv, -⟩
    exact absurd hinv hno

/-- A call of `put_file` throws only if its sizes do not add up. -/
theorem overflows_of_throws (hargs : parseArgs args {} = .ok inv) {p : Bytes × Bytes}
    (hp : p ∈ wanted source inv listing) {ι : Type} {calls : ι → ConcurrentUploads.Calling}
    {s : ConcurrentUploads.State ι} (h : ConcurrentUploads.Inv env os calls s) {i : ι}
    (hoptions : (calls i).args.options = inv.options.file) {begun : ℕ} {u : FileUpload}
    {uploadId : Bytes} {ms : Multipart.State u.threads}
    (hinParts : s.status i = .inParts begun u uploadId ms) (hparts : u.parts = 0)
    (hfile : files p.1 = .regular u.file.content u.file.size_lt) :
    Overflows files source listing args := by
  have haccepted :=
    ((h.sound i).accepted (ConcurrentUploads.Status.about_inParts hinParts)).1
  have hover := h.overflow hinParts hparts
  rw [FileUpload.partSize, haccepted.options, hoptions] at hover
  exact ⟨inv, hargs, p, hp, _, _, hfile, hover⟩

theorem inv_directory (htools : SigningTools env.sha256Raw env.amzNow)
    (haddressing : im.cfg.addressing im.cfg.region = addressing)
    (hroutes : ∀ p ∈ wanted .directory inv listing, ∀ bucket key,
      splitS3Uri p.2 true = .ok (bucket, key) → im.cfg.Routes bucket key im.cfg.region)
    {items : List Item} (hitems : (directoryCall im inv listing).items = .ok items)
    (hsplit : splitS3Uri inv.dest false = .ok (bucket, pfx))
    {s₀ s : StoredDirectory.State ((directoryCall im inv listing).upload items)}
    (hinit : s₀.Initial)
    (hrun : Relation.ReflTransGen (StoredDirectory.Step env os addressing files
      ((directoryCall im inv listing).upload items)) s₀ s) : StoredDirectory.Inv env os files s :=
  StoredDirectory.inv_of_run htools haddressing hitems hsplit (fun e he hregular ↦
    hroutes _ ((mem_wanted_directory im hsplit).mpr
      ⟨e, he, isFile_of_isRegularFile hregular, rfl⟩) _ _ (e.splitS3Uri_name hsplit true))
    hinit hrun

theorem inv_file (htools : SigningTools env.sha256Raw env.amzNow)
    (haddressing : im.cfg.addressing im.cfg.region = addressing)
    (hroutes : ∀ p ∈ wanted .file inv listing, ∀ bucket key,
      splitS3Uri p.2 true = .ok (bucket, key) → im.cfg.Routes bucket key im.cfg.region)
    {s₀ s : ConcurrentUploads.State Unit} (hinit : s₀.Initial)
    (hrun : Relation.ReflTransGen
      (ConcurrentUploads.Step env os addressing fun _ ↦ fileCall im inv) s₀ s) :
    ConcurrentUploads.Inv env os (fun _ ↦ fileCall im inv) s := by
  have hproper (i : Unit) : (fileCall im inv).Proper addressing :=
    ⟨haddressing, fun bucket key htarget ↦ hroutes _ (List.mem_singleton_self _) bucket key
      (ClientImpl.splitS3Uri_of_target htarget)⟩
  exact Runs.invariant (ConcurrentUploads.inv_step htools hproper)
    (ConcurrentUploads.inv_of_initial hinit) hrun

/-- **The exit status of `s3put`**: after 0 every file is in its place, after 1 every file but those
that a line tells of, and there is such a line, and after 2 nothing has been uploaded. It is one of
these, unless the sizes of a file and of its parts do not add up in 64 bits. -/
theorem tells_of_ends (htools : SigningTools env.sha256Raw env.amzNow)
    (haddressing : im.cfg.addressing im.cfg.region = addressing)
    (hstatus : ∀ l, listing = .ok l → ∀ e ∈ l.entries, e.isFile = true → e.status = none)
    (hdistinct : ∀ l, listing = .ok l → (l.entries.map TreeEntry.relative).Nodup)
    (hroutes : ∀ inv, parseArgs args {} = .ok inv → ∀ p ∈ wanted source inv listing,
      ∀ bucket key, splitS3Uri p.2 true = .ok (bucket, key) →
        im.cfg.Routes bucket key im.cfg.region)
    {lines : List Line} {status : Option ℕ} {ι : Type} {log : Log ι}
    (h : Ends env os addressing im files source listing args lines status ι log) :
    (∃ code, status = some code ∧ Tells os files source listing args lines code log) ∨
      (status = none ∧ Overflows files source listing args) := by
  rcases h with ⟨hargs, log⟩ | ⟨hargs, hsource, hitems, seconds, mbps, log⟩ |
    ⟨hargs, hsource, hitems, hinit, hrun, hout, took, seconds, mbps⟩ |
    ⟨hargs, hsource, hitems, hinit, hrun, hinParts, hparts, took⟩ | ⟨hargs, hsource, log⟩ |
    ⟨hargs, hsource, hinit, hrun, hfile, hdone, seconds, mbps⟩ |
    ⟨hargs, hsource, hinit, hrun, hfile, hinParts, hparts⟩
  · exact .inl ⟨_, rfl, tells_exit hargs log⟩
  · obtain ⟨hlines, hcode⟩ := endDirectory_cases _ ⟨false, {}, _⟩ seconds mbps
    rw [hcode]
    exact .inl ⟨_, rfl, tells_nothing hlines log⟩
  · subst hsource
    obtain ⟨bucket, pfx, listing', found, hsplit, hlisting, -⟩ :=
      DirectoryCall.items_eq_ok_iff.mp hitems
    have hinv := inv_directory htools haddressing (hroutes _ hargs) hitems hsplit hinit hrun
    refine .inl ⟨_, rfl, tells_directory hargs hitems ?_ hsplit
      (hinv.uploaded hitems hsplit ?_) hout took seconds mbps⟩
    · rw [DirectoryCall.entries, hlisting]
      exact hstatus listing' hlisting
    · rw [DirectoryCall.entries, hlisting]
      exact hdistinct listing' hlisting
  · subst hsource
    obtain ⟨bucket, pfx, -, -, hsplit, -⟩ := DirectoryCall.items_eq_ok_iff.mp hitems
    have hinv := inv_directory htools haddressing (hroutes _ hargs) hitems hsplit hinit hrun
    obtain ⟨e, he, hfile, -, -, -, hcontent⟩ :=
      hinv.exists_entry hitems hsplit (ConcurrentUploads.Status.about_inParts hinParts)
    exact .inr ⟨rfl, overflows_of_throws hargs ((mem_wanted_directory im hsplit).mpr
      ⟨e, he, isFile_of_isRegularFile hfile, rfl⟩) hinv.uploads rfl hinParts hparts hcontent⟩
  · refine .inl ⟨_, rfl, tells_nothing (fun l hl ↦ ?_) log⟩
    rw [List.mem_singleton.mp hl]
    exact not_failed_errorLine _
  · subst hsource
    have hinv := inv_file htools haddressing (hroutes _ hargs) hinit hrun
    have hsound := hinv.sound ()
    rw [hdone] at hsound
    exact .inl ⟨_, rfl, tells_file hargs hinv.stored hfile hsound.2.1 hdone seconds mbps⟩
  · subst hsource
    have hinv := inv_file htools haddressing (hroutes _ hargs) hinit hrun
    exact .inr ⟨rfl, overflows_of_throws hargs (List.mem_singleton_self _) hinv rfl hinParts hparts
      (hfile _ _ (ConcurrentUploads.Status.about_inParts hinParts))⟩

end Told

/-! ### Two files -/

open StoredDirectory

/-- `s3put -j 1 /d s3://b`, with two files in the directory. -/
theorem tells_twoFiles : ∃ (lines : List Line) (ι : Type) (log : Log ι),
    let args := [utf8 "-j", utf8 "1", utf8 "/d", utf8 "s3://b"]
    Ends signing emptyService (.host (utf8 ".s3.us-east-1.amazonaws.com")) twoFiles.im fewBytes
      .directory twoFiles.directory args lines (some 0) ι log ∧
        Tells emptyService fewBytes .directory twoFiles.directory args lines 0 log := by
  let args := [utf8 "-j", utf8 "1", utf8 "/d", utf8 "s3://b"]
  let inv : Invocation :=
    { source := utf8 "/d", dest := utf8 "s3://b", options := { concurrency := 1 } }
  have hargs : parseArgs args {} = .ok inv := rfl
  have hsplit : splitS3Uri inv.dest false = .ok (utf8 "b", []) := by decide
  have hdistinct : ∀ l, twoFiles.directory = .ok l → (l.entries.map TreeEntry.relative).Nodup := by
    rintro l ⟨⟩
    decide
  have hstatus : ∀ l, twoFiles.directory = .ok l → ∀ e ∈ l.entries, e.isFile = true →
      e.status = none := by
    rintro l ⟨⟩
    decide
  have hroutes : ∀ inv', parseArgs args {} = .ok inv' →
      ∀ p ∈ wanted .directory inv' twoFiles.directory, ∀ bucket key,
        splitS3Uri p.2 true = .ok (bucket, key) →
          twoFiles.im.cfg.Routes bucket key twoFiles.im.cfg.region := by
    intro inv' hargs' p hp bucket key hname
    cases hargs.symm.trans hargs'
    obtain ⟨e, he, hfile, rfl⟩ := (mem_wanted_directory twoFiles.im hsplit).mp hp
    cases (e.splitS3Uri_name hsplit true).symm.trans hname
    exact routes_entries_twoFiles e he (by
      rw [TreeEntry.isRegularFile, hfile, hstatus _ rfl e he hfile]
      rfl)
  obtain ⟨s₀, s, out, hinit, hrun, hout, hall⟩ := exists_run_twoFiles
  have hok : out.ok = true :=
    (((inv_of_run signingTools_signing rfl items_twoFiles hsplit routes_entries_twoFiles hinit
      hrun).uploaded items_twoFiles hsplit (by decide)).accounted out hout).ok_iff_forall.mpr hall
  have hends : Ends signing emptyService (.host (utf8 ".s3.us-east-1.amazonaws.com")) twoFiles.im
      fewBytes .directory twoFiles.directory args
      (s.dir.told.flatMap (onFile false fun _ ↦ utf8 "0.01") ++
        (endDirectory inv out (utf8 "0.01") (utf8 "0.0")).1)
      (some (endDirectory inv out (utf8 "0.01") (utf8 "0.0")).2) _ s.uploads.log :=
    .directory hargs rfl items_twoFiles hinit hrun hout _ _ _
  obtain ⟨-, hcode⟩ := endDirectory_cases inv out (utf8 "0.01") (utf8 "0.0")
  rw [hcode, if_pos hok] at hends
  obtain ⟨code, hcode, htells⟩ | ⟨hnone, -⟩ :=
    tells_of_ends signingTools_signing rfl hstatus hdistinct hroutes hends
  · cases hcode
    exact ⟨_, _, _, hends, htells⟩
  · cases hnone

end S3Put

end Nanos3Reader
