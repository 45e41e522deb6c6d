import Nanos3Reader.Client
import Mathlib.Logic.Function.Basic

/-!
# Multipart uploads

The multipart half of `put_file`, from the point where the upload has been created: a number of
workers claim part numbers from a shared counter and send one part after the other; when all of them
have ended the upload is completed, or aborted if something failed.

A worker and the calling thread are program counters, and a step moves one of them. Outcomes of
requests and of file operations are free, and so are the answers of the server. One that is
`reliable` keeps what it says: a 200 for a part means the part was taken, and a 200 without an error
body for the completion means that the object was put together from the parts listed.
-/

open ByteText

namespace Nanos3Reader

structure FileUploadOptions where
  contentType : Bytes := []
  signPayload : Bool := false
  multipartThreshold : ℕ := 64 <<< 20
  partSize : ℕ := 16 <<< 20
  partConcurrency : ℕ := 4

def kMiB : ℕ := 1 <<< 20

/-- S3's minimum, for all parts but the last. -/
def kMinPartSize : ℕ := 5 * kMiB

def kMaxParts : ℕ := 10000

/-- `part_size_for`, in 64-bit arithmetic. -/
def partSizeFor (size requested : ℕ) : ℕ :=
  let ps := max requested kMinPartSize
  let needed := (size + kMaxParts - 1) % 2 ^ 64 / kMaxParts
  if ps < needed then (needed + kMiB - 1) / kMiB * kMiB else ps

/-- A regular file whose size `file_size` can report. -/
structure LocalFile where
  path : Bytes
  content : Bytes
  size_lt : content.length < 2 ^ 64

/-- `sha256_file_hex`: the hash of `len` bytes at `offset`, if they can be read. -/
def sha256FileHex (sha256Raw : Bytes → Bytes) (file : LocalFile) (offset len : ℕ) (reads : Bool) :
    Option Bytes :=
  let data := (file.content.drop offset).take len
  if reads ∧ data.length = len then some (S3v4.sha256Hex sha256Raw data) else none

/-- A `put_file` call on a file. `etag` is the caller's output argument, if there is one. -/
structure FileUpload where
  im : ClientImpl
  uri : Bytes
  bucket : Bytes
  key : Bytes
  file : LocalFile
  options : FileUploadOptions := {}
  etag : Option Bytes := none

namespace FileUpload

variable (u : FileUpload)

/-! ## The plan -/

def size : ℕ := u.file.content.length

def partSize : ℕ := partSizeFor u.size u.options.partSize

def parts : ℕ := (u.size + u.partSize - 1) % 2 ^ 64 / u.partSize

def threads : ℕ := min (max u.options.partConcurrency 1) u.parts

def offset (i : ℕ) : ℕ := i * u.partSize

def partLen (i : ℕ) : ℕ := min u.partSize (u.size - u.offset i)

/-- The bytes of part `i`. -/
def slice (i : ℕ) : Bytes := (u.file.content.drop (u.offset i)).take (u.partLen i)

theorem partSize_pos : 0 < u.partSize := by
  have hmin : 0 < kMinPartSize := by decide
  rw [partSize, partSizeFor]
  split
  · next h =>
    have hmax : kMinPartSize ≤ max u.options.partSize kMinPartSize := le_max_right _ _
    have hmib : kMiB = 1048576 := by decide
    refine Nat.mul_pos (Nat.div_pos ?_ (by omega)) (by omega)
    omega
  · exact lt_of_lt_of_le hmin (le_max_right _ _)

/-- A plan with parts has not wrapped around, and its parts reach just to the end of the file. -/
theorem size_le (h : 1 ≤ u.parts) : u.size ≤ u.parts * u.partSize := by
  have hsize : u.size < 2 ^ 64 := u.file.size_lt
  have hpos := u.partSize_pos
  rw [parts] at h ⊢
  have hps : u.partSize ≤ (u.size + u.partSize - 1) % 2 ^ 64 := by
    by_contra hlt
    rw [Nat.div_eq_of_lt (not_le.mp hlt)] at h
    omega
  have hwrap : (u.size + u.partSize - 1) % 2 ^ 64 = u.size + u.partSize - 1 := by
    refine Nat.mod_eq_of_lt ?_
    have hlt := Nat.mod_lt (u.size + u.partSize - 1) (show 0 < 2 ^ 64 by decide)
    by_contra hge
    have hsub : (u.size + u.partSize - 1) % 2 ^ 64 = u.size + u.partSize - 1 - 2 ^ 64 := by
      rw [Nat.mod_eq_sub_mod (not_lt.mp hge), Nat.mod_eq_of_lt]
      omega
    omega
  rw [hwrap]
  have hdiv := Nat.div_add_mod (u.size + u.partSize - 1) u.partSize
  have hmod := Nat.mod_lt (u.size + u.partSize - 1) hpos
  rw [Nat.mul_comm] at hdiv
  omega

/-- `put_file` has a worker, as what follows about uploads by `n` workers asks. -/
theorem threads_pos (h : 1 ≤ u.parts) : 0 < u.threads :=
  lt_min (lt_of_lt_of_le Nat.zero_lt_one (le_max_right _ _)) h

theorem parts_lt : u.parts < 2 ^ 64 :=
  lt_of_le_of_lt (Nat.div_le_self _ _) (Nat.mod_lt _ (by decide))

theorem slice_eq (i : ℕ) : u.slice i = (u.file.content.drop (u.offset i)).take u.partSize := by
  have hlen : (u.file.content.drop (u.offset i)).length = u.size - u.offset i := by
    rw [List.length_drop, size]
  rw [slice, partLen, ← hlen, ← List.take_take, List.take_length]

/-- Part `i` is `[i * partSize, min ((i + 1) * partSize) size)`. -/
theorem slice_eq_range (i : ℕ) :
    u.slice i
      = (u.file.content.take (min ((i + 1) * u.partSize) u.size)).drop (i * u.partSize) := by
  rw [slice, partLen, offset, List.drop_take]
  congr 1
  rw [Nat.succ_mul]
  omega

/-- **The parts make up the file.** -/
theorem flatten_slices (h : 1 ≤ u.parts) :
    ((List.range u.parts).map u.slice).flatten = u.file.content := by
  have htake : ∀ k : ℕ, ((List.range k).map u.slice).flatten
      = u.file.content.take (k * u.partSize) := by
    intro k
    induction k with
    | zero => simp
    | succ k ih =>
      rw [List.range_succ, List.map_append, List.flatten_append, ih, Nat.succ_mul, List.take_add]
      simp [slice_eq, offset]
  rw [htake]
  exact List.take_of_length_le (u.size_le h)

/-! ## The requests -/

def idQuery (uploadId : Bytes) : Bytes := utf8 "uploadId=" ++ uriEncodeComponent uploadId

/-- The query of the part with number `n`. -/
def partQuery (uploadId : Bytes) (n : ℕ) : Bytes :=
  utf8 "partNumber=" ++ decimal n ++ utf8 "&" ++ idQuery uploadId

/-- The request for part `i`, whose number is `i + 1`. -/
def partCall (uploadId : Bytes) (i : ℕ) (hash : Bytes) : Call :=
  { method := utf8 "PUT", bucket := u.bucket, key := u.key
    query := partQuery uploadId (i + 1)
    bodyFile := some ⟨u.file.content, u.offset i, u.partLen i⟩
    payloadHash := hash }

/-- The body of the completion: the parts in order, each with its ETag. -/
def completeXml (etags : ℕ → Bytes) : Bytes :=
  utf8 "<CompleteMultipartUpload xmlns=\"http://s3.amazonaws.com/doc/2006-03-01/\">" ++
    ((List.range u.parts).flatMap fun i ↦
      utf8 "<Part><PartNumber>" ++ decimal (i + 1) ++ utf8 "</PartNumber><ETag>" ++
        xmlEscape (etags i) ++ utf8 "</ETag></Part>") ++
    utf8 "</CompleteMultipartUpload>"

def completeCall (uploadId : Bytes) (etags : ℕ → Bytes) : Call :=
  { method := utf8 "POST", bucket := u.bucket, key := u.key, query := idQuery uploadId
    body := u.completeXml etags, extraHeaders := [utf8 "Content-Type: application/xml"] }

def abortCall (uploadId : Bytes) : Call :=
  { method := utf8 "DELETE", bucket := u.bucket, key := u.key, query := idQuery uploadId }

/-- What a worker makes of the reply for part `i`: no message when the part is stored. -/
def partFailure (strerror : CurlCode → Bytes) (i : ℕ) (r : Reply) : Bytes :=
  let perr := requestFailure strerror u.uri u.file.path r 200
  let perr :=
    if perr = [] ∧ r.etag = [] then
      u.uri ++ utf8 ": part " ++ decimal (i + 1) ++ utf8 " was accepted without an ETag"
    else perr
  if perr = [] then []
  else
    perr ++ utf8 " (part " ++ decimal (i + 1) ++ utf8 " of " ++ decimal u.parts ++ utf8 ")"

def createCall : Call :=
  { method := utf8 "POST", bucket := u.bucket, key := u.key, query := utf8 "uploads="
    extraHeaders := [contentTypeLine u.options.contentType] }

/-- What `put_file` makes of the reply to the creation of an upload. -/
def createFinish (strerror : CurlCode → Bytes) (r : Reply) : Except Bytes Bytes :=
  let error := requestFailure strerror u.uri u.file.path r 200
  let uploadId := xmlTag r.text (utf8 "UploadId")
  if error ≠ [] then .error (error ++ utf8 " (starting a multipart upload)")
  else if uploadId = [] then
    .error (u.uri ++ utf8 ": the multipart upload was started without an UploadId")
  else .ok uploadId

/-- The creation of the upload: its id, or why there is none. -/
def createUpload (env : Outside) (w : World) : Except Bytes Bytes × World :=
  match u.im.run env w u.createCall with
  | (.error e, w) => (.error e, w)
  | (.ok r, w) => (u.createFinish env.strerror r, w)

/-- Whether a reply has an error body. -/
def hasError (text : Bytes) : Bool := (cut (utf8 "<Error>") text).isSome

/-- What `put_file` makes of the reply to the completion: a 200 can still be a failure. -/
def completeFailure (strerror : CurlCode → Bytes) (r : Reply) : Bytes :=
  let error := requestFailure strerror u.uri u.file.path r 200
  if error = [] ∧ hasError r.text then
    u.uri ++ utf8 ": completing the multipart upload failed: " ++ xmlTag r.text (utf8 "Code") ++
      utf8 " " ++ xmlTag r.text (utf8 "Message")
  else error

theorem partFailure_eq_nil {strerror : CurlCode → Bytes} {i : ℕ} {r : Reply} :
    u.partFailure strerror i r = [] ↔
      r.rc = .ok ∧ r.overflow = false ∧ r.code = 200 ∧ r.etag ≠ [] := by
  rw [partFailure]
  by_cases hreq : requestFailure strerror u.uri u.file.path r 200 = []
  · by_cases hetag : r.etag = []
    · simp [hreq, hetag]
    · simpa [hreq, hetag] using requestFailure_eq_nil.mp hreq
  · refine iff_of_false (by simp [hreq]) fun h ↦ hreq ?_
    exact requestFailure_eq_nil.mpr ⟨h.1, h.2.1, h.2.2.1⟩

theorem completeFailure_eq_nil {strerror : CurlCode → Bytes} {r : Reply} :
    u.completeFailure strerror r = [] ↔
      r.rc = .ok ∧ r.overflow = false ∧ r.code = 200 ∧ hasError r.text = false := by
  rw [completeFailure]
  by_cases hreq : requestFailure strerror u.uri u.file.path r 200 = []
  · by_cases herror : hasError r.text = true
    · simp [hreq, herror]
    · simpa [hreq, herror] using requestFailure_eq_nil.mp hreq
  · simp only [hreq, false_and, if_false]
    rw [requestFailure_eq_nil] at hreq
    tauto

/-! ## What the server reads -/

/-- A `Part` element of a completion. -/
def parsePart (body : Bytes) : Option (ℕ × Bytes) :=
  match nextElement body (utf8 "PartNumber"), nextElement body (utf8 "ETag") with
  | some (number, _), some (etag, _) => (parseU64 number).map fun n ↦ (n, xmlUnescape etag)
  | _, _ => none

/-- The parts a completion lists. -/
def listedParts (xml : Bytes) : Option (List (ℕ × Bytes)) :=
  collectElements (utf8 "Part") parsePart xml []

/-- A part as the completion lists it. -/
def partElement (n : ℕ) (etag : Bytes) : Bytes :=
  element (utf8 "Part") (element (utf8 "PartNumber") (decimal n) ++
    element (utf8 "ETag") (xmlEscape etag))

theorem notMem_decimal (n : ℕ) : 60 ∉ decimal n := fun h ↦ absurd (mem_decimal h) (by decide)

theorem nextElement_partElement (n : ℕ) (etag rest : Bytes) :
    nextElement (partElement n etag ++ rest) (utf8 "Part")
      = some (element (utf8 "PartNumber") (decimal n) ++ element (utf8 "ETag") (xmlEscape etag),
          rest) :=
  nextElement_element ((passes_close (by decide) (by decide) (by decide) (notMem_decimal n)).append
    (passes_close (by decide) (by decide) (by decide) (notMem_xmlEscape etag))) rest

theorem parsePart_element {n : ℕ} (hn : n < 2 ^ 64) (etag : Bytes) :
    parsePart (element (utf8 "PartNumber") (decimal n) ++ element (utf8 "ETag") (xmlEscape etag))
      = some (n, etag) := by
  have hetag : nextElement
      (element (utf8 "PartNumber") (decimal n) ++ element (utf8 "ETag") (xmlEscape etag))
      (utf8 "ETag") = some (xmlEscape etag, []) := by
    rw [nextElement_append (passes_open (by decide) (by decide) (by decide) (notMem_decimal n))]
    simpa using nextElement_element
      (passes_close_of_notMem (notMem_xmlEscape etag) (utf8 "ETag")) []
  rw [parsePart, nextElement_element (passes_close_of_notMem (notMem_decimal n) _), hetag]
  dsimp only
  rw [parseU64_decimal hn, xmlUnescape_xmlEscape]
  rfl

theorem completeXml_eq (etags : ℕ → Bytes) :
    u.completeXml etags
      = utf8 "<CompleteMultipartUpload xmlns=\"http://s3.amazonaws.com/doc/2006-03-01/\">" ++
        (((List.range u.parts).flatMap fun i ↦ partElement (i + 1) (etags i)) ++
          utf8 "</CompleteMultipartUpload>") := by
  have htags : utf8 "<Part><PartNumber>" = utf8 "<" ++ utf8 "Part" ++ utf8 ">" ++
        (utf8 "<" ++ utf8 "PartNumber" ++ utf8 ">") ∧
      utf8 "</PartNumber><ETag>" = utf8 "</" ++ utf8 "PartNumber" ++ utf8 ">" ++
        (utf8 "<" ++ utf8 "ETag" ++ utf8 ">") ∧
      utf8 "</ETag></Part>" = utf8 "</" ++ utf8 "ETag" ++ utf8 ">" ++
        (utf8 "</" ++ utf8 "Part" ++ utf8 ">") := by decide
  simp [completeXml, partElement, element, htags]

/-- **The server reads off a completion what was put in**: every part once, in ascending order, with
its ETag. -/
theorem listedParts_completeXml (etags : ℕ → Bytes) :
    listedParts (u.completeXml etags)
      = some ((List.range u.parts).map fun i ↦ (i + 1, etags i)) := by
  have htail : nextElement (utf8 "</CompleteMultipartUpload>") (utf8 "Part") = none := by decide
  have hrun : ∀ (l : List ℕ) (acc : List (ℕ × Bytes)), (∀ i ∈ l, i + 1 < 2 ^ 64) →
      collectElements (utf8 "Part") parsePart
        ((l.flatMap fun i ↦ partElement (i + 1) (etags i)) ++ utf8 "</CompleteMultipartUpload>") acc
      = some (acc ++ l.map fun i ↦ (i + 1, etags i)) := by
    intro l
    induction l with
    | nil =>
      intro acc _
      rw [List.flatMap_nil, List.nil_append, collectElements_eq, htail]
      simp
    | cons i l ih =>
      intro acc hl
      rw [List.flatMap_cons, List.append_assoc, collectElements_eq, nextElement_partElement]
      dsimp only
      rw [parsePart_element (hl i List.mem_cons_self), Option.bind_some,
        ih _ fun j hj ↦ hl j (List.mem_cons_of_mem _ hj)]
      simp
  -- the root tag is passed, and then the parts follow one another
  have hroot : Passes (utf8 "<" ++ utf8 "Part" ++ utf8 ">")
      (utf8 "<CompleteMultipartUpload xmlns=\"http://s3.amazonaws.com/doc/2006-03-01/\">") := by
    have hliteral :
        utf8 "<CompleteMultipartUpload xmlns=\"http://s3.amazonaws.com/doc/2006-03-01/\">"
        = 60 :: 67 ::
          utf8 "ompleteMultipartUpload xmlns=\"http://s3.amazonaws.com/doc/2006-03-01/\">" :=
      by decide
    rw [hliteral, openTag_eq]
    refine passes_cons (by decide) fun t ht ↦ ?_
    rw [show utf8 "Part" ++ [62] = 80 :: (utf8 "art" ++ [62]) from by decide, List.cons_append,
      List.cons_prefix_cons] at ht
    exact absurd ht.1 (by decide)
  rw [listedParts, completeXml_eq, collectElements_append hroot, hrun _ _ fun i hi ↦ ?_]
  · rfl
  · have hlt := u.parts_lt
    have hmem := List.mem_range.mp hi
    omega

theorem partQuery_injective (uploadId : Bytes) {n m : ℕ} (hn : n < 2 ^ 64) (hm : m < 2 ^ 64)
    (h : partQuery uploadId n = partQuery uploadId m) : n = m := by
  have hamp : utf8 "&" = [38] := by decide
  have hnumber (k : ℕ) : 38 ∉ decimal k := fun hk ↦ absurd (mem_decimal hk) (by decide)
  simp only [partQuery, List.append_assoc, List.append_cancel_left_eq, hamp,
    List.singleton_append] at h
  have hdecimal := (append_cons_inj (hnumber n) (hnumber m) h).1
  rw [← Option.some.injEq, ← parseU64_decimal hn, ← parseU64_decimal hm, hdecimal]

end FileUpload

namespace Multipart

/-! ## The machine -/

/-- Where a worker is. From `checking` to `sending` it has claimed index `i`. -/
inductive Worker where
  | opening
  | claiming
  | checking (i : ℕ)
  | hashing (i : ℕ)
  | starting (i : ℕ) (hash : Bytes)
  | sending (i : ℕ) (p : Prepared) (left : ℕ)
  | failing (message : Bytes)
  | done

/-- Where the calling thread is, its own share of the parts apart. -/
inductive Caller where
  | working
  | completing
  | sendingCompletion (p : Prepared) (left : ℕ)
  | aborting (error : Bytes)
  | sendingAbort (p : Prepared) (left : ℕ) (error : Bytes)
  | returned (out : Outcome (Option Bytes))

/-- A `run_request` call and its end, by a worker or by the calling thread. There is no reply when
no request could be made. -/
inductive Event (n : ℕ) where
  | begin (who : Option (Fin n)) (call : Call)
  | finish (who : Option (Fin n)) (reply : Option Reply)

/-- A part the server has taken. -/
structure StoredPart where
  query : Bytes
  body : Bytes
  etag : Bytes

/-- An upload by `n` workers: the threads, what they share, the server, and what has happened. -/
structure State (n : ℕ) where
  caller : Caller
  workers : Fin n → Worker
  next : ℕ
  failed : Bool
  firstError : Bytes
  etags : ℕ → Bytes
  accepted : List StoredPart
  object : Option Bytes
  log : List (Event n)

/-- The object the server puts together from the parts listed, if it has them all. -/
def assemble (uploadId : Bytes) (accepted : List StoredPart) (listing : List (ℕ × Bytes)) :
    Option Bytes :=
  (listing.mapM fun part ↦
    (accepted.find? fun a ↦
      a.query = FileUpload.partQuery uploadId part.1 ∧ a.etag = part.2).map StoredPart.body).map
    List.flatten

/-- The body a request has brought, if it arrived whole. -/
def arrived (p : Prepared) (t : Transfer) : Option Bytes :=
  let sent := (p.call.upload t.reads).sent
  if sent.length = p.call.bodyLen then some sent else none

namespace State

variable {n : ℕ}

/-- Nothing has been done yet. -/
def initial : State n where
  caller := .working
  workers _ := .opening
  next := 0
  failed := false
  firstError := []
  etags _ := []
  accepted := []
  object := none
  log := []

def goto (s : State n) (w : Fin n) (pc : Worker) : State n :=
  { s with workers := Function.update s.workers w pc }

def call (s : State n) (pc : Caller) : State n := { s with caller := pc }

def logged (s : State n) (events : List (Event n)) : State n := { s with log := s.log ++ events }

/-- A worker draws a number from the counter. -/
def claim (s : State n) (w : Fin n) : State n :=
  { s with workers := Function.update s.workers w (.checking s.next), next := s.next + 1 }

def record (s : State n) (i : ℕ) (etag : Bytes) : State n :=
  { s with etags := Function.update s.etags i etag }

/-- `fail_with`. -/
def failWith (s : State n) (message : Bytes) : State n :=
  { s with failed := true, firstError := if s.firstError = [] then message else s.firstError }

/-- The server takes the part that an attempt has brought, if it gives it an ETag. -/
def take (s : State n) (p : Prepared) (t : Transfer) (etag : Option Bytes) : State n :=
  { s with
    accepted := s.accepted ++
      (etag.map fun e ↦ ⟨p.call.query, (p.call.upload t.reads).sent, e⟩).toList }

/-- The server completes the upload, if it can. -/
def complete (s : State n) (object : Option Bytes) : State n :=
  { s with object := object <|> s.object }

@[simp] theorem caller_call (s : State n) (pc : Caller) : (s.call pc).caller = pc := rfl

@[simp] theorem caller_logged (s : State n) (events : List (Event n)) :
    (s.logged events).caller = s.caller := rfl

@[simp] theorem caller_complete (s : State n) (object : Option Bytes) :
    (s.complete object).caller = s.caller := rfl

@[simp] theorem workers_goto_self (s : State n) (w : Fin n) (pc : Worker) :
    (s.goto w pc).workers w = pc := Function.update_self _ _ _

@[simp] theorem workers_claim_self (s : State n) (w : Fin n) :
    (s.claim w).workers w = .checking s.next := Function.update_self _ _ _

@[simp] theorem workers_take (s : State n) (p : Prepared) (t : Transfer) (etag : Option Bytes) :
    (s.take p t etag).workers = s.workers := rfl

@[simp] theorem workers_record (s : State n) (i : ℕ) (etag : Bytes) :
    (s.record i etag).workers = s.workers := rfl

@[simp] theorem etags_record_self (s : State n) (i : ℕ) (etag : Bytes) :
    (s.record i etag).etags i = etag := Function.update_self _ _ _

theorem etags_record_of_ne (s : State n) {i j : ℕ} (h : j ≠ i) (etag : Bytes) :
    (s.record i etag).etags j = s.etags j := Function.update_of_ne h _ _

end State

section Steps

variable {n : ℕ} (reliable : Prop) (u : FileUpload) (uploadId : Bytes)
  (sha256Raw : Bytes → Bytes) (strerror : CurlCode → Bytes)

/-- What may come of an attempt to send a part: `etag` is given by the server if it takes the part.
To be relied upon, it must have the part whole, and give a 200 only with the ETag. -/
structure PartOutcome (p : Prepared) (t : Transfer) (etag : Option Bytes) : Prop where
  whole : reliable → etag ≠ none → arrived p t ≠ none
  honest : reliable → t.rc = .ok → t.code = 200 → etag = some (p.call.receive t).etag

/-- What may come of an attempt to complete: `object` is what the server put together. To be relied
upon, it must have done so from a listing that has arrived, and give a 200 without an error body
only then. -/
structure CompletionOutcome (accepted : List StoredPart) (p : Prepared) (t : Transfer)
    (object : Option Bytes) : Prop where
  whole : reliable → object ≠ none →
    object = ((arrived p t).bind FileUpload.listedParts).bind (assemble uploadId accepted)
  honest : reliable → t.rc = .ok → t.code = 200 → FileUpload.hasError t.chunks.flatten = false →
    object ≠ none

/-- One step of a worker. -/
inductive WorkerStep (w : Fin n) : State n → State n → Prop
  | opens {s : State n} (hpc : s.workers w = .opening) : WorkerStep w s (s.goto w .claiming)
  | cannotOpen {s : State n} (hpc : s.workers w = .opening) (errno : Bytes) :
      WorkerStep w s (s.goto w (.failing (u.file.path ++ utf8 ": " ++ errno)))
  | claims {s : State n} (hpc : s.workers w = .claiming) :
      WorkerStep w s (s.claim w)
  | quits {s : State n} {i : ℕ} (hpc : s.workers w = .checking i)
      (hstop : u.parts ≤ i ∨ s.failed = true) : WorkerStep w s (s.goto w .done)
  | proceeds {s : State n} {i : ℕ} (hpc : s.workers w = .checking i)
      (hgo : i < u.parts ∧ s.failed = false) :
      WorkerStep w s (s.goto w (if u.options.signPayload then .hashing i else .starting i []))
  | hashes {s : State n} {i : ℕ} {hash : Bytes} (hpc : s.workers w = .hashing i) (reads : Bool)
      (hhash : sha256FileHex sha256Raw u.file (u.offset i) (u.partLen i) reads = some hash) :
      WorkerStep w s (s.goto w (.starting i hash))
  | cannotHash {s : State n} {i : ℕ} (hpc : s.workers w = .hashing i) (reads : Bool)
      (hhash : sha256FileHex sha256Raw u.file (u.offset i) (u.partLen i) reads = none) :
      WorkerStep w s
        (s.goto w (.failing (u.file.path ++ utf8 ": the file could not be read to hash it")))
  | starts {s : State n} {i : ℕ} {hash : Bytes} {p : Prepared}
      (hpc : s.workers w = .starting i hash)
      (got : Credentials) (diagnostic : Bytes) (curl : Bool)
      (hstart : startRequest sha256Raw u.im.cfg u.im.fixedCreds got diagnostic curl
        (u.partCall uploadId i hash) = .ok p) :
      WorkerStep w s ((s.goto w (.sending i p kClientRetries)).logged [.begin (some w) p.call])
  | cannotStart {s : State n} {i : ℕ} {hash error : Bytes} (hpc : s.workers w = .starting i hash)
      (got : Credentials) (diagnostic : Bytes) (curl : Bool)
      (hstart : startRequest sha256Raw u.im.cfg u.im.fixedCreds got diagnostic curl
        (u.partCall uploadId i hash) = .error error) :
      WorkerStep w s ((s.goto w (.failing error)).logged
        [.begin (some w) (u.partCall uploadId i hash), .finish (some w) none])
  | retries {s : State n} {i : ℕ} {p : Prepared} {left left' : ℕ} {etag : Option Bytes}
      (hpc : s.workers w = .sending i p left) (t : Transfer) (ht : PartOutcome reliable p t etag)
      (hafter : p.call.after left t = .inl left') :
      WorkerStep w s ((s.goto w (.sending i p left')).take p t etag)
  | records {s : State n} {i : ℕ} {p : Prepared} {left : ℕ} {r : Reply} {etag : Option Bytes}
      (hpc : s.workers w = .sending i p left) (t : Transfer) (ht : PartOutcome reliable p t etag)
      (hafter : p.call.after left t = .inr r) (hok : u.partFailure strerror i r = []) :
      WorkerStep w s ((((s.goto w .claiming).take p t etag).record i r.etag).logged
        [.finish (some w) (some r)])
  | rejects {s : State n} {i : ℕ} {p : Prepared} {left : ℕ} {r : Reply} {etag : Option Bytes}
      (hpc : s.workers w = .sending i p left) (t : Transfer) (ht : PartOutcome reliable p t etag)
      (hafter : p.call.after left t = .inr r) (hbad : u.partFailure strerror i r ≠ []) :
      WorkerStep w s (((s.goto w (.failing (u.partFailure strerror i r))).take p t etag).logged
        [.finish (some w) (some r)])
  | fails {s : State n} {message : Bytes} (hpc : s.workers w = .failing message) :
      WorkerStep w s ((s.goto w .done).failWith message)

/-- One step of the calling thread once it has no more parts to send itself. -/
inductive CallerStep : State n → State n → Prop
  | joins {s : State n} (hpc : s.caller = .working) (hjoined : ∀ w, s.workers w = .done) :
      CallerStep s (s.call (if s.failed then .aborting s.firstError else .completing))
  | starts {s : State n} {p : Prepared} (hpc : s.caller = .completing) (got : Credentials)
      (diagnostic : Bytes) (curl : Bool)
      (hstart : startRequest sha256Raw u.im.cfg u.im.fixedCreds got diagnostic curl
        (u.completeCall uploadId s.etags) = .ok p) :
      CallerStep s ((s.call (.sendingCompletion p kClientRetries)).logged [.begin none p.call])
  | cannotStart {s : State n} {error : Bytes} (hpc : s.caller = .completing) (got : Credentials)
      (diagnostic : Bytes) (curl : Bool)
      (hstart : startRequest sha256Raw u.im.cfg u.im.fixedCreds got diagnostic curl
        (u.completeCall uploadId s.etags) = .error error) :
      CallerStep s ((s.call (.aborting error)).logged
        [.begin none (u.completeCall uploadId s.etags), .finish none none])
  | retries {s : State n} {p : Prepared} {left left' : ℕ} {object : Option Bytes}
      (hpc : s.caller = .sendingCompletion p left) (t : Transfer)
      (ht : CompletionOutcome reliable uploadId s.accepted p t object)
      (hafter : p.call.after left t = .inl left') :
      CallerStep s ((s.call (.sendingCompletion p left')).complete object)
  | succeeds {s : State n} {p : Prepared} {left : ℕ} {r : Reply} {object : Option Bytes}
      (hpc : s.caller = .sendingCompletion p left) (t : Transfer)
      (ht : CompletionOutcome reliable uploadId s.accepted p t object)
      (hafter : p.call.after left t = .inr r) (hok : u.completeFailure strerror r = []) :
      CallerStep s
        (((s.call (.returned ⟨true, u.etag.map fun _ ↦ xmlTag r.text (utf8 "ETag"), []⟩)).complete
          object).logged [.finish none (some r)])
  | rejected {s : State n} {p : Prepared} {left : ℕ} {r : Reply} {object : Option Bytes}
      (hpc : s.caller = .sendingCompletion p left) (t : Transfer)
      (ht : CompletionOutcome reliable uploadId s.accepted p t object)
      (hafter : p.call.after left t = .inr r) (hbad : u.completeFailure strerror r ≠ []) :
      CallerStep s (((s.call (.aborting (u.completeFailure strerror r))).complete object).logged
        [.finish none (some r)])
  | startsAbort {s : State n} {p : Prepared} {error : Bytes} (hpc : s.caller = .aborting error)
      (got : Credentials) (diagnostic : Bytes) (curl : Bool)
      (hstart : startRequest sha256Raw u.im.cfg u.im.fixedCreds got diagnostic curl
        (u.abortCall uploadId) = .ok p) :
      CallerStep s ((s.call (.sendingAbort p kClientRetries error)).logged [.begin none p.call])
  | cannotStartAbort {s : State n} {error ignored : Bytes} (hpc : s.caller = .aborting error)
      (got : Credentials) (diagnostic : Bytes) (curl : Bool)
      (hstart : startRequest sha256Raw u.im.cfg u.im.fixedCreds got diagnostic curl
        (u.abortCall uploadId) = .error ignored) :
      CallerStep s ((s.call (.returned ⟨false, u.etag, error⟩)).logged
        [.begin none (u.abortCall uploadId), .finish none none])
  | retriesAbort {s : State n} {p : Prepared} {left left' : ℕ} {error : Bytes}
      (hpc : s.caller = .sendingAbort p left error) (t : Transfer)
      (hafter : p.call.after left t = .inl left') :
      CallerStep s (s.call (.sendingAbort p left' error))
  | aborts {s : State n} {p : Prepared} {left : ℕ} {r : Reply} {error : Bytes}
      (hpc : s.caller = .sendingAbort p left error) (t : Transfer)
      (hafter : p.call.after left t = .inr r) :
      CallerStep s ((s.call (.returned ⟨false, u.etag, error⟩)).logged [.finish none (some r)])

/-- One step of the upload. -/
inductive Step (s s' : State n) : Prop
  | worker (w : Fin n) (h : WorkerStep reliable u uploadId sha256Raw strerror w s s')
  | caller (h : CallerStep reliable u uploadId sha256Raw strerror s s')

end Steps

end Multipart

end Nanos3Reader
