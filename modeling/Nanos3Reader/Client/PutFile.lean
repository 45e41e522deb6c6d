import Nanos3Reader.Client
import Nanos3Reader.MultipartUpload

/-!
# Uploading a file

`put_file` looks at its arguments and at the file, and then uploads the file with one PUT or in
parts. The parts are the business of several threads, whose steps `Multipart.Step` describes; the
rest of the call is sequential.

What the file system answers — whether the path names a regular file, whether that can be opened,
whether it can be read to hash it — is free, and so is what the server answers.
-/

open ByteText

namespace Nanos3Reader

/-- What the file system says about a path: a regular file with its contents, something else, or a
regular file whose size it cannot tell. -/
inductive FileStatus where
  | regular (content : Bytes) (size_lt : content.length < 2 ^ 64)
  | notRegular (reason : Option Bytes)
  | noSize (reason : Bytes)

/-- What `put_file` is called with. `etag` is the caller's output argument, if there is one. -/
structure PutFileArgs where
  uri : Bytes
  path : Bytes
  options : FileUploadOptions := {}
  etag : Option Bytes := none

namespace ClientImpl

/-- What `put_file` checks before it opens the file: the upload it is about, or why there is none.
-/
def acceptFile (im : ClientImpl) (a : PutFileArgs) (status : FileStatus) :
    Except Bytes FileUpload :=
  match im.target a.uri true with
  | .error e => .error e
  | .ok (bucket, key) =>
    if !clean a.options.contentType then
      .error (a.uri ++ utf8 ": the content type must not contain line breaks")
    else
      match status with
      | .notRegular reason =>
        .error (a.path ++ utf8 ": not a regular file" ++
          match reason with
          | none => []
          | some r => utf8 " (" ++ r ++ utf8 ")")
      | .noSize reason => .error (a.path ++ utf8 ": " ++ reason)
      | .regular content size_lt =>
        .ok { im, uri := a.uri, bucket, key, file := ⟨a.path, content, size_lt⟩
              options := a.options, etag := a.etag }

/-- What an accepted upload has from the call. -/
structure Accepted (im : ClientImpl) (a : PutFileArgs) (u : FileUpload) : Prop where
  client : u.im = im
  uri : u.uri = a.uri
  target : im.target a.uri true = .ok (u.bucket, u.key)
  clean : clean a.options.contentType = true
  options : u.options = a.options
  etag : u.etag = a.etag

theorem of_acceptFile {im : ClientImpl} {a : PutFileArgs} {status : FileStatus} {u : FileUpload}
    (h : im.acceptFile a status = .ok u) : im.Accepted a u := by
  rw [acceptFile] at h
  split at h
  · cases h
  · next htarget =>
    split at h
    · cases h
    · next hclean =>
      split at h
      · cases h
      · cases h
      · cases h
        exact ⟨rfl, rfl, htarget, by simpa using hclean, rfl, rfl⟩

end ClientImpl

namespace FileUpload

variable (u : FileUpload)

/-- The size from which on a file goes up in parts. -/
def threshold : ℕ := min (max u.options.multipartThreshold 1) (kMaxSinglePut + 1)

/-- The file goes up with one PUT. -/
def Single : Prop := u.size < u.threshold

instance : Decidable u.Single := inferInstanceAs (Decidable (_ < _))

def singleCall (hash : Bytes) : Call :=
  { method := utf8 "PUT", bucket := u.bucket, key := u.key
    bodyFile := some ⟨u.file.content, 0, u.size⟩
    payloadHash := hash, extraHeaders := [contentTypeLine u.options.contentType] }

/-- The hash for the whole file: none when bodies are not signed, and no result when the file
cannot be read. -/
def singleHash (sha256Raw : Bytes → Bytes) (reads : Bool) : Option Bytes :=
  if u.options.signPayload then sha256FileHex sha256Raw u.file 0 u.size reads else some []

/-- What `put_file` makes of the reply to its one PUT. -/
def singleFinish (strerror : CurlCode → Bytes) (r : Reply) : Outcome (Option Bytes) :=
  let error := requestFailure strerror u.uri u.file.path r 200
  if error ≠ [] then ⟨false, u.etag, error⟩ else ⟨true, u.etag.map fun _ ↦ r.etag, []⟩

/-- What `put_file` does up to its one PUT. `opened` is the error text of an `fopen` that failed,
and `reads` whether the file can be read to hash it. -/
def singleStart (sha256Raw : Bytes → Bytes) (opened : Option Bytes) (reads : Bool) :
    Except Bytes Call :=
  match opened with
  | some errno => .error (u.file.path ++ utf8 ": " ++ errno)
  | none =>
    match u.singleHash sha256Raw reads with
    | none => .error (u.file.path ++ utf8 ": the file could not be read to hash it")
    | some hash => .ok (u.singleCall hash)

theorem singleStart_eq_ok {u : FileUpload} {sha256Raw : Bytes → Bytes} {opened : Option Bytes}
    {reads : Bool} {call : Call} (h : u.singleStart sha256Raw opened reads = .ok call) :
    ∃ hash, u.singleHash sha256Raw reads = some hash ∧ call = u.singleCall hash := by
  rw [singleStart.eq_def] at h
  split at h
  · cases h
  · split at h
    · cases h
    · next hash hhash => exact ⟨hash, hhash, (Except.ok.inj h).symm⟩

/-- The upload with one PUT. -/
def putSingle (env : Outside) (w : World) (opened : Option Bytes) (reads : Bool) :
    Outcome (Option Bytes) × World :=
  match u.singleStart env.sha256Raw opened reads with
  | .error e => (⟨false, u.etag, e⟩, w)
  | .ok call =>
    match u.im.run env w call with
    | (.error e, w) => (⟨false, u.etag, e⟩, w)
    | (.ok r, w) => (u.singleFinish env.strerror r, w)

/-- A state of an upload in parts, by as many threads as `put_file` starts. A plan without parts is
none: the thread pool cannot be made for it. -/
def Reaches (env : Outside) (uploadId : Bytes) (s : Multipart.State u.threads) : Prop :=
  1 ≤ u.parts ∧ Relation.ReflTransGen
    (Multipart.Step False u uploadId env.sha256Raw env.strerror) Multipart.State.initial s

end FileUpload

/-- How `put_file` can return. -/
inductive ClientImpl.PutFileReturns (env : Outside) (im : ClientImpl) (a : PutFileArgs) :
    Outcome (Option Bytes) → Prop
  | rejected {status : FileStatus} {e : Bytes} (h : im.acceptFile a status = .error e) :
      PutFileReturns env im a ⟨false, a.etag, e⟩
  | single {status : FileStatus} {u : FileUpload} (h : im.acceptFile a status = .ok u)
      (hsingle : u.Single) (w : World) (opened : Option Bytes) (reads : Bool) :
      PutFileReturns env im a (u.putSingle env w opened reads).1
  | notCreated {status : FileStatus} {u : FileUpload} {w : World} {e : Bytes}
      (h : im.acceptFile a status = .ok u) (hsingle : ¬u.Single)
      (hcreate : (u.createUpload env w).1 = .error e) :
      PutFileReturns env im a ⟨false, a.etag, e⟩
  | ended {status : FileStatus} {u : FileUpload} {w : World} {uploadId : Bytes}
      {s : Multipart.State u.threads} {out : Outcome (Option Bytes)}
      (h : im.acceptFile a status = .ok u) (hsingle : ¬u.Single)
      (hcreate : (u.createUpload env w).1 = .ok uploadId) (hs : u.Reaches env uploadId s)
      (hout : s.caller = .returned out) : PutFileReturns env im a out

end Nanos3Reader
