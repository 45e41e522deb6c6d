import Nanos3Reader.Client.Commands
import Nanos3Reader.Lib.UploadStore

/-!
# What uploads ask of a store

`put_file` writes its object with one request, or creates an upload, sends the parts and completes
or aborts it. What each of these requests asks of a store is what a service reads off the wire; the
names of uploads that they carry are those that the store has given.
-/

open ByteText ObjectApi UploadStore

namespace Nanos3Reader

/-- The request of a store of uploads that a command is. -/
def uploadRequest : Command → Option (Request (Bytes × Bytes) Bytes Bytes UInt8)
  | .put bucket key { absent := false, tag := none } body => some (.put (bucket, key) body)
  | .create bucket key => some (.create (bucket, key))
  | .part bucket key uploadId n body => some (.part (bucket, key) uploadId n body)
  | .complete bucket key uploadId body =>
    (FileUpload.listedParts body).map (.complete (bucket, key) uploadId)
  | .abort bucket key uploadId => some (.abort (bucket, key) uploadId)
  | _ => none

theorem ClientImpl.file_of_acceptFile {im : ClientImpl} {a : PutFileArgs} {file : FileStatus}
    {u : FileUpload} (h : im.acceptFile a file = .ok u) :
    file = .regular u.file.content u.file.size_lt := by
  rw [acceptFile] at h
  split at h
  · cases h
  · split at h
    · cases h
    · split at h
      · cases h
      · cases h
      · cases h
        rfl

namespace FileUpload

variable (u : FileUpload)

/-- The object that a file goes to. -/
def name : Bytes × Bytes := (u.bucket, u.key)

/-- What the calls of an upload ask, if `given` are the names it knows. -/
inductive Wants (given : Bytes → Prop) (sha256Raw : Bytes → Bytes) :
    Call → Request (Bytes × Bytes) Bytes Bytes UInt8 → Prop
  | single (hsingle : u.Single) (reads : Bool) {hash : Bytes}
      (hhash : u.singleHash sha256Raw reads = some hash) :
      Wants given sha256Raw (u.singleCall hash) (.put u.name u.file.content)
  | create : Wants given sha256Raw u.createCall (.create u.name)
  | part {uploadId : Bytes} (hid : given uploadId) {i : ℕ} {hash : Bytes} (hi : i < u.parts)
      (hhash : u.PartHash sha256Raw i hash) : Wants given sha256Raw (u.partCall uploadId i hash)
        (.part u.name uploadId (i + 1) (u.slice i))
  | complete {uploadId : Bytes} (hid : given uploadId) (etags : ℕ → Bytes) :
      Wants given sha256Raw (u.completeCall uploadId etags) (.complete u.name uploadId
        ((List.range u.parts).map fun i ↦ (i + 1, etags i)))
  | abort {uploadId : Bytes} (hid : given uploadId) :
      Wants given sha256Raw (u.abortCall uploadId) (.abort u.name uploadId)

/-- A call that asks for something. -/
def Wanted (given : Bytes → Prop) (sha256Raw : Bytes → Bytes) (call : Call) : Prop :=
  ∃ req, u.Wants given sha256Raw call req

theorem covers_wanted {given : Bytes → Prop} {uploadId : Bytes} (hid : given uploadId)
    (sha256Raw : Bytes → Bytes) :
    Multipart.Covers u uploadId sha256Raw (u.Wanted given sha256Raw) where
  part hi hhash := ⟨_, .part hid hi hhash⟩
  complete etags := ⟨_, .complete hid etags⟩
  abort := ⟨_, .abort hid⟩

variable {u} {given given' : Bytes → Prop} {sha256Raw : Bytes → Bytes} {call : Call}
  {req : Request (Bytes × Bytes) Bytes Bytes UInt8}

theorem Wants.mono (h : u.Wants given sha256Raw call req) (hgiven : ∀ id, given id → given' id) :
    u.Wants given' sha256Raw call req := by
  rcases h with ⟨hsingle, reads, hhash⟩ | _ | ⟨hid, hi, hhash⟩ | ⟨hid, etags⟩ | ⟨hid⟩
  · exact .single hsingle reads hhash
  · exact .create
  · exact .part (hgiven _ hid) hi hhash
  · exact .complete (hgiven _ hid) etags
  · exact .abort (hgiven _ hid)

theorem Wants.asks (h : u.Wants given sha256Raw call req) :
    u.MadeAs sha256Raw call ∧
      ∃ cmd, u.Asks sha256Raw call cmd ∧ uploadRequest cmd = some req := by
  rcases h with ⟨hsingle, reads, hhash⟩ | _ | ⟨hid, hi, hhash⟩ | ⟨hid, etags⟩ | ⟨hid⟩
  · exact ⟨.single hsingle reads hhash, _, .single hsingle reads hhash, rfl⟩
  · exact ⟨.create, _, .create, rfl⟩
  · exact ⟨.part _ hi hhash, _, .part _ hi hhash, rfl⟩
  · refine ⟨.complete _ etags, _, .complete _ etags, ?_⟩
    rw [uploadRequest, u.listedParts_completeXml]
    rfl
  · exact ⟨.abort _, _, .abort _, rfl⟩

/-- **What an upload asks is read off the wire.** -/
theorem Asks.command_sent {amzNow : ℕ → Bytes} (htools : SigningTools sha256Raw amzNow)
    (htype : OneLine u.options.contentType) (hslash : 47 ∉ u.bucket) {cmd : Command}
    (hmade : u.MadeAs sha256Raw call) (hasks : u.Asks sha256Raw call cmd) {got : Credentials}
    {diagnostic : Bytes} {curl : Bool} {p : Prepared}
    (hstart : startRequest sha256Raw u.im.cfg u.im.fixedCreds got diagnostic curl call = .ok p)
    (hcred : p.cred.Presentable)
    (hroutes : u.im.cfg.Routes call.bucket call.key u.im.cfg.region) (m : ℕ)
    {reads : List ReadCall} (hwhole : (p.call.upload reads).sent.length = p.call.bodyLen) :
    command (u.im.cfg.addressing u.im.cfg.region)
      ((p.httpRequest sha256Raw (amzNow m)).arrived (p.call.upload reads).sent) = some cmd := by
  have hcarries := carries_of_startRequest hstart
  have hshaped := hmade.shaped hslash
  have hpresents :=
    hcarries.presents htools (hmade.plain htype) hshaped hcred hroutes m hwhole
  refine (hcarries.arrivesFor hshaped.slash hpresents).command_upload ?_
    (fun options hextra hnil ↦ ?_) hasks
  · rw [HttpRequest.arrived, Call.sent_eq_payload hwhole, hcarries.call_eq]
  · rw [← hcarries.call_eq] at hextra
    exact Prepared.condition_arrived hextra (.inl hnil) _

theorem MadeAs.names (h : u.MadeAs sha256Raw call) : call.bucket = u.bucket ∧ call.key = u.key := by
  rcases h with ⟨hsingle, reads, hhash⟩ | _ | ⟨uploadId, hi, hhash⟩ | ⟨uploadId, etags⟩ | ⟨uploadId⟩
  all_goals exact ⟨rfl, rfl⟩

theorem completeXml_ne_nil (u : FileUpload) (etags : ℕ → Bytes) : u.completeXml etags ≠ [] := by
  have hopening : utf8 "<CompleteMultipartUpload xmlns=\"http://s3.amazonaws.com/doc/2006-03-01/\">"
      ≠ [] := by decide
  simp [completeXml, hopening]

/-- What is asked can be told from the method, the query and the body of a call. -/
theorem Wants.shape (h : u.Wants given sha256Raw call req) :
    (call.method = utf8 "PUT" ∧ call.query = [] ∧ req = .put u.name u.file.content) ∨
    (call.method = utf8 "POST" ∧ call.body = [] ∧ req = .create u.name) ∨
    (call.method = utf8 "PUT" ∧ call.query ≠ []) ∨
    (call.method = utf8 "POST" ∧ call.body ≠ [] ∧
      ∃ uploadId listing, req = .complete u.name uploadId listing) ∨
    call.method = utf8 "DELETE" := by
  rcases h with ⟨hsingle, reads, hhash⟩ | _ | ⟨hid, hi, hhash⟩ | ⟨hid, etags⟩ | ⟨hid⟩
  · exact .inl ⟨rfl, rfl, rfl⟩
  · exact .inr (.inl ⟨rfl, rfl, rfl⟩)
  · exact .inr (.inr (.inl ⟨rfl, by simp [partCall, partQuery, decimal_ne_nil]⟩))
  · exact .inr (.inr (.inr (.inl ⟨rfl, u.completeXml_ne_nil etags, _, _, rfl⟩)))
  · exact .inr (.inr (.inr (.inr rfl)))

theorem methods_ne : utf8 "PUT" ≠ utf8 "POST" ∧ utf8 "PUT" ≠ utf8 "DELETE" ∧
    utf8 "POST" ≠ utf8 "DELETE" := by decide

theorem Wants.of_singleCall {hash : Bytes} (h : u.Wants given sha256Raw (u.singleCall hash) req) :
    req = .put u.name u.file.content := by
  obtain ⟨hpost, hdelete, -⟩ := methods_ne
  obtain ⟨-, -, hreq⟩ | ⟨hmethod, -⟩ | ⟨-, hquery⟩ | ⟨hmethod, -⟩ | hmethod := h.shape
  · exact hreq
  · exact absurd hmethod hpost
  · exact absurd rfl hquery
  · exact absurd hmethod hpost
  · exact absurd hmethod hdelete

theorem Wants.of_createCall (h : u.Wants given sha256Raw u.createCall req) :
    req = .create u.name := by
  obtain ⟨hpost, -, hdelete⟩ := methods_ne
  obtain ⟨hmethod, -⟩ | ⟨-, -, hreq⟩ | ⟨hmethod, -⟩ | ⟨-, hbody, -⟩ | hmethod := h.shape
  · exact absurd hmethod.symm hpost
  · exact hreq
  · exact absurd hmethod.symm hpost
  · exact absurd rfl hbody
  · exact absurd hmethod hdelete

theorem Wants.of_completeCall {uploadId : Bytes} {etags : ℕ → Bytes}
    (h : u.Wants given sha256Raw (u.completeCall uploadId etags) req) :
    ∃ uploadId' listing, req = .complete u.name uploadId' listing := by
  obtain ⟨hpost, -, hdelete⟩ := methods_ne
  obtain ⟨hmethod, -⟩ | ⟨-, hbody, -⟩ | ⟨hmethod, -⟩ | ⟨-, -, hreq⟩ | hmethod := h.shape
  · exact absurd hmethod.symm hpost
  · exact absurd hbody (u.completeXml_ne_nil etags)
  · exact absurd hmethod.symm hpost
  · exact hreq
  · exact absurd hmethod hdelete

/-! ## The first request -/

variable (u)

/-- The first call of an upload, or why there is none. -/
def firstCall (sha256Raw : Bytes → Bytes) (opened : Option Bytes) (reads : Bool) :
    Except Bytes Call :=
  if u.Single then u.singleStart sha256Raw opened reads else .ok u.createCall

variable {u}

theorem firstCall_eq_ok {opened : Option Bytes} {reads : Bool}
    (h : u.firstCall sha256Raw opened reads = .ok call) :
    (u.Single ∧ ∃ hash, u.singleHash sha256Raw reads = some hash ∧ call = u.singleCall hash) ∨
      (¬u.Single ∧ call = u.createCall) := by
  rw [firstCall] at h
  split at h
  · next hsingle => exact .inl ⟨hsingle, singleStart_eq_ok h⟩
  · next hsingle => exact .inr ⟨hsingle, (Except.ok.inj h).symm⟩

/-- A reply with status 200 that has come over well. -/
structure Fine (r : Reply) : Prop where
  rc : r.rc = .ok
  overflow : r.overflow = false
  code : r.code = 200

theorem fine_of_singleFinish {strerror : CurlCode → Bytes} {r : Reply}
    (h : (u.singleFinish strerror r).ok = true) : Fine r := by
  rw [singleFinish] at h
  split at h
  · cases h
  · next hnil =>
    obtain ⟨hrc, hover, hcode⟩ := requestFailure_eq_nil.mp (not_not.mp hnil)
    exact ⟨hrc, hover, hcode⟩

theorem fine_of_createFinish {strerror : CurlCode → Bytes} {r : Reply} {uploadId : Bytes}
    (h : u.createFinish strerror r = .ok uploadId) :
    Fine r ∧ xmlTag r.text (utf8 "UploadId") = uploadId := by
  rw [createFinish] at h
  split at h
  · cases h
  · next hnil =>
    split at h
    · cases h
    · obtain ⟨hrc, hover, hcode⟩ := requestFailure_eq_nil.mp (not_not.mp hnil)
      exact ⟨⟨hrc, hover, hcode⟩, Except.ok.inj h⟩

end FileUpload

/-! ## What a multipart upload has under way -/

namespace Multipart

theorem PartOutcome.of_false (p : Prepared) (t : Transfer) (etag : Option Bytes) :
    PartOutcome False p t etag where
  whole h := h.elim
  honest h := h.elim

theorem CompletionOutcome.of_false (uploadId : Bytes) (accepted : List StoredPart) (p : Prepared)
    (t : Transfer) (object : Option Bytes) :
    CompletionOutcome False uploadId accepted p t object where
  whole h := h.elim
  honest h := h.elim

variable {n : ℕ}

/-- The request that a thread waits for: of a worker, or of the calling thread. -/
def State.underWay (s : State n) : Option (Fin n) → Option Prepared
  | some w =>
    match s.workers w with
    | .sending _ p _ => some p
    | _ => none
  | none =>
    match s.caller with
    | .sendingCompletion p _ => some p
    | .sendingAbort p _ _ => some p
    | _ => none

variable {reliable : Prop} {u : FileUpload} {uploadId : Bytes} {given : Bytes → Prop}
  {sha256Raw : Bytes → Bytes} {strerror : CurlCode → Bytes} {s s' : State n}

theorem Asking.requested {asked : Call → Prop} (h : Asking u sha256Raw asked s)
    {who : Option (Fin n)} {p : Prepared} (hp : s.underWay who = some p) :
    Requested u sha256Raw asked p := by
  rcases who with _ | w
  · have hcaller := h.caller
    rw [State.underWay] at hp
    split at hp
    · next p' left hpc =>
      cases hp
      rw [hpc] at hcaller
      exact hcaller
    · next p' left error hpc =>
      cases hp
      rw [hpc] at hcaller
      exact hcaller
    · cases hp
  · have hworker := h.workers w
    rw [State.underWay] at hp
    split at hp
    · next i p' left hpc =>
      cases hp
      rw [hpc] at hworker
      exact hworker
    · cases hp

theorem CallerStep.succeeded (h : CallerStep reliable u uploadId sha256Raw strerror s s')
    {out : Outcome (Option Bytes)} (hout : s'.caller = .returned out) (hok : out.ok = true) :
    ∃ p left r, s.caller = .sendingCompletion p left ∧
      s'.log = s.log ++ [.finish none (some r)] ∧ u.completeFailure strerror r = [] := by
  cases h with
  | joins hpc hjoined =>
    rw [State.caller_call] at hout
    split at hout <;> cases hout
  | starts hpc got diagnostic curl hstart => cases hout
  | cannotStart hpc got diagnostic curl hstart => cases hout
  | retries hpc t ht hafter => cases hout
  | succeeds hpc t ht hafter hsuccess => exact ⟨_, _, _, hpc, rfl, hsuccess⟩
  | rejected hpc t ht hafter hbad => cases hout
  | startsAbort hpc got diagnostic curl hstart => cases hout
  | cannotStartAbort hpc got diagnostic curl hstart =>
    cases hout
    cases hok
  | retriesAbort hpc t hafter => cases hout
  | aborts hpc t hafter =>
    cases hout
    cases hok

end Multipart

end Nanos3Reader
