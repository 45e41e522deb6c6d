import Nanos3Reader.Client

/-!
# Sizes and ranges of objects

`head` and `read_range` are one request each, and differ from one another in what they take for a
good reply. `read_range` writes to a buffer of the caller's while the reply comes in, so what is in
the buffer afterwards is part of what the call leaves behind, whether it succeeds or not.
-/

open ByteText

namespace Nanos3Reader

def headCall (bucket key : Bytes) : Call := { method := utf8 "HEAD", bucket, key }

/-- The request for `n` bytes from `offset` on. -/
def readRangeCall (bucket key : Bytes) (offset n : ℕ) : Call :=
  { method := utf8 "GET", bucket, key, range := some (offset, offset + n - 1), dstCap := some n }

namespace ClientImpl

/-- What `head` makes of the reply. `size` is the caller's output argument. -/
def headFinish (strerror : CurlCode → Bytes) (uri : Bytes) (r : Reply) (size : ℕ) : Outcome ℕ :=
  if r.overflow ∨ r.rc ≠ .ok then ⟨false, size, transferFailure strerror uri r⟩
  else if r.code ≠ 200 then ⟨false, size, httpFailure uri r⟩
  else if r.contentLength < 0 then
    ⟨false, size, uri ++ utf8 ": HEAD response has no Content-Length"⟩
  else ⟨true, r.contentLength.toNat, []⟩

def head (im : ClientImpl) (env : Outside) (w : World) (uri : Bytes) (size : ℕ) :
    Outcome ℕ × World :=
  match im.target uri true with
  | .error e => (⟨false, size, e⟩, w)
  | .ok (bucket, key) =>
    match im.run env w (headCall bucket key) with
    | (.error e, w) => (⟨false, size, e⟩, w)
    | (.ok r, w) => (headFinish env.strerror uri r size, w)

/-- The request of a range read, or why there is none. No bytes are read without a request. -/
def readRangeStart (im : ClientImpl) (uri : Bytes) (offset n : ℕ) (hasDst : Bool) :
    Except Bytes (Option Call) :=
  match im.target uri true with
  | .error e => .error e
  | .ok (bucket, key) =>
    if n = 0 then .ok none
    else if hasDst = false then .error (uri ++ utf8 ": read_range called with a null destination")
    else if 2 ^ 64 - 1 - (n - 1) < offset then .error (uri ++ utf8 ": byte range overflows 64 bits")
    else .ok (some (readRangeCall bucket key offset n))

/-- What `read_range` makes of the reply. -/
def readRangeFinish (strerror : CurlCode → Bytes) (uri : Bytes) (offset n : ℕ) (r : Reply) :
    Outcome Bytes :=
  if r.overflow ∨ r.rc ≠ .ok then ⟨false, r.dst, transferFailure strerror uri r⟩
  else if r.code = 200 then
    ⟨false, r.dst, uri ++ utf8 ": server ignored the Range header (HTTP 200)"⟩
  else if r.code ≠ 206 then ⟨false, r.dst, httpFailure uri r⟩
  else if r.dst.length ≠ n then
    ⟨false, r.dst, uri ++ utf8 ": short read at offset " ++ decimal offset ++ utf8 ": got " ++
      decimal r.dst.length ++ utf8 " of " ++ decimal n ++ utf8 " bytes (object ends first)"⟩
  else ⟨true, r.dst, []⟩

/-- `read_range` of `n` bytes at `offset`, into a buffer if there is one: its output are the bytes
written to the buffer. -/
def readRange (im : ClientImpl) (env : Outside) (w : World) (uri : Bytes) (offset n : ℕ)
    (hasDst : Bool) : Outcome Bytes × World :=
  match im.readRangeStart uri offset n hasDst with
  | .error e => (⟨false, [], e⟩, w)
  | .ok none => (⟨true, [], []⟩, w)
  | .ok (some call) =>
    match im.run env w call with
    | (.error e, w) => (⟨false, [], e⟩, w)
    | (.ok r, w) => (readRangeFinish env.strerror uri offset n r, w)

end ClientImpl

end Nanos3Reader
