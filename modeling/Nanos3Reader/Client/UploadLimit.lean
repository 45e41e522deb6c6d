import Nanos3Reader.Client.Requests
import Nanos3Reader.MultipartUpload.Plan

/-!
# The size of uploads

S3 takes at most 5 GiB with one PUT. `put` checks this, `put_file` sends larger files in parts, and
the size of a part is raised for large files, but the part size that the caller asks for is bounded
by nothing: parts of more than 5 GiB are sent if the file is large enough to have one.
-/

open ByteText

namespace Nanos3Reader

/-- No PUT for the upload is larger than S3 allows, whatever becomes of its requests. -/
def FileUpload.WithinLimit (u : FileUpload) : Prop :=
  ∀ env call, u.Makes env call → call.isPut = true → call.bodyLen ≤ kMaxSinglePut

theorem ClientImpl.bodyLen_putCall {im : ClientImpl} {uri : Bytes} {data : Option Bytes}
    {options : PutOptions} {call : Call} (h : im.putCall uri data options = .ok call) :
    call.bodyLen ≤ kMaxSinglePut := by
  rw [putCall] at h
  split at h
  · cases h
  · split at h
    · cases h
    · split at h
      · cases h
      · next hle =>
        split at h
        · cases h
        · cases h
          exact not_lt.mp hle

/-! ## A first part -/

namespace FileUpload

variable (u : FileUpload)

def keys : Credentials := { accessKey := utf8 "K", secretKey := utf8 "S" }

/-- A thread whose provider has keys at hand. -/
def keyed : World := { provider := { profile := [], cached := keys } }

/-- The answer of a server that starts an upload. -/
def started : Transfer := { code := 200, chunks := [utf8 "<UploadId>1</UploadId>"] }

def starting : Outside := Outside.answering fun _ _ ↦ started

theorem createUpload_starting : (u.createUpload starting keyed).1 = .ok (utf8 "1") := by
  have hretries : u.createCall.retries started = false := rfl
  have hcreds : u.im.fixedCreds ≠ none ∨
      (if u.im.fixedCreds.isSome then (({} : Credentials), keyed)
        else keyed.getCredentials starting).1.valid = true := by
    cases hfixed : u.im.fixedCreds with
    | none => exact .inr (by decide)
    | some cred => exact .inl (by simp)
  have hrun : (u.im.run starting keyed u.createCall).1 = .ok (u.createCall.receive started) := by
    rw [ClientImpl.run, runRequest]
    -- with keys of the client's own or the thread's, the request is made and answered at once
    generalize (if u.im.fixedCreds.isSome then (({} : Credentials), keyed)
      else keyed.getCredentials starting) = asked at hcreds ⊢
    obtain ⟨got, w⟩ := asked
    obtain ⟨p, hstart⟩ := exists_startRequest starting.sha256Raw u.im.cfg
      w.provider.diagnostic u.createCall hcreds
    dsimp only
    rw [show starting.curlInit w.moment = true from rfl, hstart]
    dsimp only
    have hcall := call_of_startRequest hstart
    rw [p.attempts_of_not_retries starting _ _ (by rw [hcall]; exact hretries), hcall]
    rfl
  have hfailure :
      requestFailure starting.strerror u.uri u.file.path (u.createCall.receive started) 200 = [] :=
    requestFailure_eq_nil.mpr ⟨rfl, rfl, rfl⟩
  have hid : xmlTag (u.createCall.receive started).text (utf8 "UploadId") = utf8 "1" := by
    rw [show (u.createCall.receive started).text = utf8 "<UploadId>1</UploadId>" from rfl]
    decide +kernel
  rw [createUpload]
  split
  · next heq =>
    rw [heq] at hrun
    cases hrun
  · next r w heq =>
    rw [heq] at hrun
    cases hrun
    dsimp only
    rw [createFinish, hfailure, hid]
    rfl

theorem exists_begin (h : 1 ≤ u.parts) (env : Outside) (uploadId : Bytes) :
    ∃ s who hash, u.Reaches env uploadId s ∧
      .begin who (u.partCall uploadId 0 hash) ∈ s.log := by
  -- the first worker opens the file and draws index 0
  let w : Fin u.threads := ⟨0, u.threads_pos h⟩
  let claimed : Multipart.State u.threads := (Multipart.State.initial.goto w .claiming).claim w
  have hclaimed : claimed.workers w = .checking 0 := Multipart.State.workers_claim_self _ _
  have hrun : Relation.ReflTransGen (Multipart.Step False u uploadId env.sha256Raw env.strerror)
      Multipart.State.initial claimed :=
    .tail (.single (.worker w (.opens rfl)))
      (.worker w (.claims (Multipart.State.workers_goto_self _ _ _)))
  -- the hash, if one is asked for, is made of bytes that can be read
  have hhashed : ∃ s hash, Relation.ReflTransGen
      (Multipart.Step False u uploadId env.sha256Raw env.strerror) Multipart.State.initial s ∧
      s.workers w = .starting 0 hash := by
    have hproceeds := hrun.tail (.worker w (.proceeds hclaimed ⟨h, rfl⟩))
    by_cases hsign : u.options.signPayload = true
    · rw [if_pos hsign] at hproceeds
      have hlength : ((u.file.content.drop (u.offset 0)).take (u.partLen 0)).length
          = u.partLen 0 := by
        rw [List.length_take, List.length_drop, partLen, size]
        omega
      have hhash : sha256FileHex env.sha256Raw u.file (u.offset 0) (u.partLen 0) true = some _ :=
        if_pos ⟨rfl, hlength⟩
      exact ⟨_, _, hproceeds.tail (.worker w (.hashes (Multipart.State.workers_goto_self _ _ _) true
        hhash)), Multipart.State.workers_goto_self _ _ _⟩
    · rw [if_neg hsign] at hproceeds
      exact ⟨_, _, hproceeds, Multipart.State.workers_goto_self _ _ _⟩
  obtain ⟨s, hash, hs, hpc⟩ := hhashed
  obtain ⟨p, hstart⟩ := exists_startRequest env.sha256Raw u.im.cfg []
    (u.partCall uploadId 0 hash) (.inr (show keys.valid = true from rfl))
  refine ⟨_, some w, hash,
    ⟨h, hs.tail (.worker w (.starts hpc keys [] true hstart))⟩, List.mem_append_right _ ?_⟩
  rw [call_of_startRequest hstart]
  exact List.mem_cons_self

/-! ## The limit -/

/-- S3's limit for an object. -/
def kMaxObject : ℕ := 5 <<< 40

theorem partLen_le_max {i : ℕ} (h : u.size ≤ kMaxObject) :
    u.partLen i ≤ min u.size (max u.options.partSize kMaxSinglePut) := by
  have hraised : u.partSize ≤ max u.options.partSize kMaxSinglePut := by
    rw [show kMaxObject = 5 * 2 ^ 40 by decide] at h
    rw [partSize, partSizeFor, kMinPartSize, kMiB_eq, kMaxParts,
      show kMaxSinglePut = 5 * 2 ^ 30 by decide]
    split <;> omega
  rw [partLen]
  omega

theorem partLen_zero (hsize : kMaxSinglePut < u.size)
    (hpart : kMaxSinglePut < u.options.partSize) : kMaxSinglePut < u.partLen 0 := by
  have hle : u.options.partSize ≤ u.partSize :=
    (le_max_left _ _).trans (max_le_partSizeFor _ _)
  rw [partLen, offset]
  omega

theorem partSize_eq (hsmall : u.size ≤ kMaxObject) (hpart : kMaxSinglePut < u.options.partSize) :
    u.partSize = u.options.partSize := by
  rw [show kMaxObject = 5 * 2 ^ 40 by decide] at hsmall
  rw [show kMaxSinglePut = 5 * 2 ^ 30 by decide] at hpart
  rw [partSize, partSizeFor, kMinPartSize, kMiB_eq, kMaxParts]
  split <;> omega

theorem one_le_parts (hsize : kMaxSinglePut < u.size) (hsmall : u.size ≤ kMaxObject)
    (hpart : kMaxSinglePut < u.options.partSize) (hsum : u.size + u.options.partSize ≤ 2 ^ 64) :
    1 ≤ u.parts := by
  rw [parts, u.partSize_eq hsmall hpart, Nat.mod_eq_of_lt (by omega)]
  exact Nat.div_pos (by omega) (by omega)

theorem parts_eq_zero (hsmall : u.size ≤ kMaxObject)
    (hsum : 2 ^ 64 < u.size + u.options.partSize) : u.parts = 0 := by
  have hobject : kMaxObject = 5 * 2 ^ 40 := by decide
  have hput : kMaxSinglePut = 5 * 2 ^ 30 := by decide
  rw [parts, u.partSize_eq hsmall (by omega)]
  refine Nat.div_eq_of_lt ?_
  omega

theorem size_le_of_single (h : u.Single) : u.size ≤ kMaxSinglePut := by
  rw [Single, threshold] at h
  omega

theorem withinLimit_of (hsmall : u.size ≤ kMaxObject)
    (h : u.size ≤ kMaxSinglePut ∨ u.options.partSize ≤ kMaxSinglePut ∨
      2 ^ 64 < u.size + u.options.partSize) : u.WithinLimit := by
  intro env call hcall hput
  cases hcall.madeAs with
  | single hsingle reads hhash => exact u.size_le_of_single hsingle
  | create => cases hput
  | complete uploadId etags => cases hput
  | abort uploadId => cases hput
  -- a part is at most as large as the file, and as the part size asked for unless that is small
  | @part uploadId i hash hi hhash =>
    have hlen : u.partLen i ≤ min u.size (max u.options.partSize kMaxSinglePut) :=
      u.partLen_le_max hsmall
    show u.partLen i ≤ kMaxSinglePut
    rcases h with h | h | h
    · omega
    · omega
    · rw [u.parts_eq_zero hsmall h] at hi
      exact absurd hi (Nat.not_lt_zero i)

theorem not_withinLimit (hsize : kMaxSinglePut < u.size) (hsmall : u.size ≤ kMaxObject)
    (hpart : kMaxSinglePut < u.options.partSize) (hsum : u.size + u.options.partSize ≤ 2 ^ 64) :
    ¬u.WithinLimit := by
  intro h
  obtain ⟨s, who, hash, hs, hbegin⟩ := u.exists_begin
    (u.one_le_parts hsize hsmall hpart hsum) starting (utf8 "1")
  have hsingle : ¬u.Single := fun hsingle ↦ absurd (u.size_le_of_single hsingle) (not_le.mpr hsize)
  have hle := h starting _ (.inParts hsingle u.createUpload_starting hs hbegin) rfl
  exact absurd (u.partLen_zero hsize hpart) (not_lt.mpr hle)

/-- **No request is larger than S3's limit for one PUT**, whatever `put` is given, and for a file of
at most 5 TiB exactly when the file or the part size asked for is within the limit, or the number of
parts wraps around to none. -/
theorem withinLimit_iff (im : ClientImpl) :
    (∀ uri data options call, im.putCall uri data options = .ok call →
      call.bodyLen ≤ kMaxSinglePut) ∧
    ∀ a status u, im.acceptFile a status = .ok u → u.size ≤ kMaxObject →
      (u.WithinLimit ↔ u.size ≤ kMaxSinglePut ∨ a.options.partSize ≤ kMaxSinglePut ∨
        2 ^ 64 < u.size + a.options.partSize) := by
  refine ⟨fun _ _ _ _ ↦ ClientImpl.bodyLen_putCall, fun a status u haccept hsmall ↦ ?_⟩
  rw [← (ClientImpl.of_acceptFile haccept).options]
  refine ⟨fun h ↦ ?_, u.withinLimit_of hsmall⟩
  by_contra hnot
  obtain ⟨hsize, hpart, hsum⟩ := by simpa only [not_or, not_le, not_lt] using hnot
  exact u.not_withinLimit hsize hsmall hpart hsum h

/-- 6 GiB. -/
def sixGiB : Bytes := List.replicate (6 <<< 30) 0

theorem length_sixGiB : sixGiB.length = 6 <<< 30 := List.length_replicate

theorem sixGiB_lt : sixGiB.length < 2 ^ 64 := by
  rw [length_sixGiB]
  decide

/-- Their upload in parts of a given size. -/
def sixGiBArgs (partSize : ℕ) : PutFileArgs :=
  { uri := utf8 "s3://b/k", path := utf8 "/f", options := { partSize } }

def sixGiBUpload (partSize : ℕ) : FileUpload where
  im := .usEast
  uri := utf8 "s3://b/k"
  bucket := utf8 "b"
  key := utf8 "k"
  file := ⟨utf8 "/f", sixGiB, sixGiB_lt⟩
  options := { partSize }

theorem size_sixGiBUpload (partSize : ℕ) : (sixGiBUpload partSize).size = 6 <<< 30 :=
  length_sixGiB

theorem sixGiB_le (partSize : ℕ) : (sixGiBUpload partSize).size ≤ kMaxObject := by
  rw [size_sixGiBUpload]
  decide

theorem acceptFile_sixGiB (partSize : ℕ) : ClientImpl.usEast.acceptFile (sixGiBArgs partSize)
    (.regular sixGiB sixGiB_lt) = .ok (sixGiBUpload partSize) := by
  have htarget : ClientImpl.usEast.target (utf8 "s3://b/k") true = .ok (utf8 "b", utf8 "k") := by
    decide
  rw [ClientImpl.acceptFile, show (sixGiBArgs partSize).uri = utf8 "s3://b/k" from rfl, htarget]
  rfl

/-- In parts of the default size they are within the limit, and so is a put of three bytes. -/
theorem withinLimit_defaultParts : (sixGiBUpload (16 <<< 20)).WithinLimit ∧
    ∃ call, ClientImpl.usEast.putCall (utf8 "s3://b/k") (some [1, 2, 3]) {} = .ok call ∧
      call.bodyLen ≤ kMaxSinglePut := by
  obtain ⟨hput, hfile⟩ := withinLimit_iff .usEast
  obtain ⟨call, hcall⟩ : ∃ call,
      ClientImpl.usEast.putCall (utf8 "s3://b/k") (some [1, 2, 3]) {} = .ok call := ⟨_, rfl⟩
  exact ⟨(hfile _ _ _ (acceptFile_sixGiB _) (sixGiB_le _)).mpr (.inr (.inl (by decide))),
    call, hcall, hput _ _ _ call hcall⟩

/-- In parts of 6 GiB they are not. -/
theorem not_withinLimit_sixGiB : ¬∀ im a status u, ClientImpl.acceptFile im a status = .ok u →
    u.size ≤ kMaxObject → a.options.partSize < 2 ^ 64 → u.WithinLimit := by
  intro hall
  have hpart : (sixGiBUpload (6 <<< 30)).options.partSize = 6 <<< 30 := rfl
  refine (sixGiBUpload (6 <<< 30)).not_withinLimit ?_ (sixGiB_le _) ?_ ?_
    (hall _ (sixGiBArgs (6 <<< 30)) _ _ (acceptFile_sixGiB _) (sixGiB_le _) (by decide))
  · rw [size_sixGiBUpload]
    decide
  · rw [hpart]
    decide
  · rw [size_sixGiBUpload, hpart]
    decide

end FileUpload

end Nanos3Reader
