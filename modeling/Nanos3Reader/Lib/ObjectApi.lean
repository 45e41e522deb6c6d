import Nanos3Reader.Lib.ConditionalWrite
import Nanos3Reader.Lib.Numerals
import Nanos3Reader.Lib.SignatureV4

/-!
# The requests of an object store

How a service reads a request that has arrived: the object it names is in the host and the path, and
what is to be done with it in the method, the query and a few headers.
-/

open ByteText ConditionalWrite SignatureV4

namespace ObjectApi

/-- How the buckets of a service are addressed: at the front of the path, or in front of a domain.
-/
inductive Addressing where
  | path
  | host (domain : Bytes)
deriving DecidableEq

/-- The bucket and the key that a request names. -/
def named (a : Addressing) (r : Arrived) : Option (Bytes × Bytes) :=
  match a, Uri.percentDecode r.path with
  | .path, some (47 :: rest) => some ((cut [47] rest).getD (rest, []))
  | .host domain, some (47 :: key) =>
    if domain.isSuffixOf r.host then some (r.host.take (r.host.length - domain.length), key)
    else none
  | _, _ => none

def decodeParameter (p : Bytes × Bytes) : Option (Bytes × Bytes) :=
  match Uri.percentDecode p.1, Uri.percentDecode p.2 with
  | some name, some value => some (name, value)
  | _, _ => none

/-- The parameters of a query. -/
def parameters (query : Bytes) : Option (List (Bytes × Bytes)) :=
  if query = [] then some []
  else (Uri.parameters query).bind fun ps ↦ ps.mapM decodeParameter

/-- The number that a numeral stands for. -/
def number (s : Bytes) : Option ℕ :=
  if Numerals.IsNumeral s then some (Numerals.value s) else none

/-- The value of a `Range` header with the first and the last byte. -/
def byteRange (v : Bytes) : Option (ℕ × ℕ) :=
  if (utf8 "bytes=").isPrefixOf v then
    match cut [45] (v.drop 6) with
    | some (first, last) =>
      match number first, number last with
      | some first, some last => some (first, last)
      | _, _ => none
    | none => none
  else none

def isWhite (c : UInt8) : Bool := c = 32 || (9 ≤ c && c ≤ 13)

/-- What a request asks of the object before it replaces it. -/
def condition (r : Arrived) : Condition Bytes where
  absent := (r.value (utf8 "if-none-match")).map (trimBy isWhite) = some (utf8 "*")
  tag := (r.value (utf8 "if-match")).map (trimBy isWhite)

/-- What a request asks for. -/
inductive Command where
  | head (bucket key : Bytes)
  | get (bucket key : Bytes) (range : Option (ℕ × ℕ))
  | list (bucket pfx delimiter token : Bytes)
  | put (bucket key : Bytes) (condition : Condition Bytes) (body : Bytes)
  | create (bucket key : Bytes)
  | part (bucket key uploadId : Bytes) (number : ℕ) (body : Bytes)
  | complete (bucket key uploadId body : Bytes)
  | abort (bucket key uploadId : Bytes)
deriving DecidableEq

/-- The command of a request for an object, with the parameters `ps`. -/
def commandFor (r : Arrived) (bucket key : Bytes) (ps : List (Bytes × Bytes)) : Option Command :=
  if r.method = utf8 "HEAD" then some (.head bucket key)
  else if r.method = utf8 "GET" then
    if (ps.lookup (utf8 "list-type")).isSome then
      some (.list bucket ((ps.lookup (utf8 "prefix")).getD [])
        ((ps.lookup (utf8 "delimiter")).getD []) ((ps.lookup (utf8 "continuation-token")).getD []))
    else some (.get bucket key ((r.value (utf8 "range")).bind byteRange))
  else if r.method = utf8 "PUT" then
    match ps.lookup (utf8 "uploadId"), (ps.lookup (utf8 "partNumber")).bind number with
    | none, none => some (.put bucket key (condition r) r.body)
    | some uploadId, some n => some (.part bucket key uploadId n r.body)
    | _, _ => none
  else if r.method = utf8 "POST" then
    if (ps.lookup (utf8 "uploads")).isSome then some (.create bucket key)
    else (ps.lookup (utf8 "uploadId")).map fun uploadId ↦ .complete bucket key uploadId r.body
  else if r.method = utf8 "DELETE" then
    (ps.lookup (utf8 "uploadId")).map (.abort bucket key)
  else none

/-- The command of a request. -/
def command (a : Addressing) (r : Arrived) : Option Command :=
  match named a r, parameters r.query with
  | some (bucket, key), some ps => commandFor r bucket key ps
  | _, _ => none

/-! ## Reading what a sender has written -/

theorem command_of_named {a : Addressing} {r : Arrived} {bucket key : Bytes}
    {ps : List (Bytes × Bytes)} (hnamed : named a r = some (bucket, key))
    (hps : parameters r.query = some ps) : command a r = commandFor r bucket key ps := by
  rw [command, hnamed, hps]

section CommandFor

variable {r : Arrived} {bucket key : Bytes} {ps : List (Bytes × Bytes)}

theorem commandFor_head (h : r.method = utf8 "HEAD") :
    commandFor r bucket key ps = some (.head bucket key) := if_pos h

theorem commandFor_get (h : r.method = utf8 "GET") (hps : ps.lookup (utf8 "list-type") = none) :
    commandFor r bucket key ps
      = some (.get bucket key ((r.value (utf8 "range")).bind byteRange)) := by
  rw [commandFor, if_neg (by rw [h]; decide), if_pos h, hps]
  rfl

theorem commandFor_list (h : r.method = utf8 "GET")
    (hps : (ps.lookup (utf8 "list-type")).isSome = true) :
    commandFor r bucket key ps = some (.list bucket ((ps.lookup (utf8 "prefix")).getD [])
      ((ps.lookup (utf8 "delimiter")).getD [])
      ((ps.lookup (utf8 "continuation-token")).getD [])) := by
  rw [commandFor, if_neg (by rw [h]; decide), if_pos h, if_pos hps]

theorem commandFor_put (h : r.method = utf8 "PUT") :
    commandFor r bucket key [] = some (.put bucket key (condition r) r.body) := by
  rw [commandFor, if_neg (by rw [h]; decide), if_neg (by rw [h]; decide), if_pos h]
  rfl

theorem commandFor_part {uploadId : Bytes} {n : ℕ} (h : r.method = utf8 "PUT")
    (hid : ps.lookup (utf8 "uploadId") = some uploadId)
    (hnumber : (ps.lookup (utf8 "partNumber")).bind number = some n) :
    commandFor r bucket key ps = some (.part bucket key uploadId n r.body) := by
  rw [commandFor, if_neg (by rw [h]; decide), if_neg (by rw [h]; decide), if_pos h, hid, hnumber]

theorem commandFor_create (h : r.method = utf8 "POST")
    (hps : (ps.lookup (utf8 "uploads")).isSome = true) :
    commandFor r bucket key ps = some (.create bucket key) := by
  rw [commandFor, if_neg (by rw [h]; decide), if_neg (by rw [h]; decide),
    if_neg (by rw [h]; decide), if_pos h, if_pos hps]

theorem commandFor_complete {uploadId : Bytes} (h : r.method = utf8 "POST")
    (hps : ps.lookup (utf8 "uploads") = none)
    (hid : ps.lookup (utf8 "uploadId") = some uploadId) :
    commandFor r bucket key ps = some (.complete bucket key uploadId r.body) := by
  rw [commandFor, if_neg (by rw [h]; decide), if_neg (by rw [h]; decide),
    if_neg (by rw [h]; decide), if_pos h, hps, hid]
  rfl

theorem commandFor_abort {uploadId : Bytes} (h : r.method = utf8 "DELETE")
    (hid : ps.lookup (utf8 "uploadId") = some uploadId) :
    commandFor r bucket key ps = some (.abort bucket key uploadId) := by
  rw [commandFor, if_neg (by rw [h]; decide), if_neg (by rw [h]; decide),
    if_neg (by rw [h]; decide), if_neg (by rw [h]; decide), if_pos h, hid]
  rfl

end CommandFor

theorem named_path {r : Arrived} {bucket key : Bytes} (hslash : 47 ∉ bucket)
    (h : Uri.percentDecode r.path = some (47 :: (bucket ++ 47 :: key))) :
    named .path r = some (bucket, key) := by
  simp only [named, h, cut_singleton_append hslash, Option.getD_some]

theorem named_host {r : Arrived} {bucket key domain : Bytes} (hhost : r.host = bucket ++ domain)
    (h : Uri.percentDecode r.path = some (47 :: key)) :
    named (.host domain) r = some (bucket, key) := by
  have hsuffix : domain.isSuffixOf (bucket ++ domain) = true := by simp
  simp only [named, h, hhost, hsuffix, if_true, List.length_append, Nat.add_sub_cancel,
    List.take_left]

theorem parameters_nil : parameters [] = some [] := rfl

theorem parameters_render {ps : List (Bytes × Bytes)} {encode : Bytes → Bytes} (hne : ps ≠ [])
    (hencoded : ∀ s, Uri.Encoded (encode s))
    (hdecode : ∀ s, Uri.percentDecode (encode s) = some s) :
    parameters (Uri.renderParameters (ps.map fun p ↦ (encode p.1, encode p.2))) = some ps := by
  have hmap : (ps.map fun p ↦ (encode p.1, encode p.2)).mapM decodeParameter = some ps := by
    clear hne
    induction ps with
    | nil => rfl
    | cons p ps ih =>
      rw [List.map_cons, List.mapM_cons, ih, decodeParameter, hdecode, hdecode]
      rfl
  rw [parameters, Uri.parameters_render (by simpa using hne) fun p hp ↦ ?_, Option.bind_some, hmap]
  · split
    · next hnil =>
      -- a query has a byte between the name and the value of its first parameter
      obtain ⟨p, ps, rfl⟩ := List.exists_cons_of_ne_nil hne
      have hmem : (61 : UInt8) ∈ Uri.renderParameters
          ((p :: ps).map fun p ↦ (encode p.1, encode p.2)) := by
        rw [Uri.renderParameters]
        cases ps <;> simp [List.intercalate]
      rw [hnil] at hmem
      cases hmem
    · rfl
  · obtain ⟨q, -, rfl⟩ := List.mem_map.mp hp
    exact ⟨hencoded q.1, hencoded q.2⟩

theorem number_decimal (n : ℕ) : number (decimal n) = some n := by
  have hdigits : Numerals.AllDigits (decimal n) := fun c hc ↦ mem_decimal hc
  rw [number, if_pos ⟨decimal_ne_nil n, hdigits⟩, Numerals.value_decimal]

theorem byteRange_decimal (first last : ℕ) :
    byteRange (utf8 "bytes=" ++ decimal first ++ utf8 "-" ++ decimal last)
      = some (first, last) := by
  have hprefix : (utf8 "bytes=").isPrefixOf
      (utf8 "bytes=" ++ (decimal first ++ (utf8 "-" ++ decimal last))) = true := by simp
  have hdrop : (utf8 "bytes=" ++ (decimal first ++ (utf8 "-" ++ decimal last))).drop 6
      = decimal first ++ 45 :: decimal last := List.drop_left' (by decide)
  have hdash : 45 ∉ decimal first := fun hc ↦ absurd (mem_decimal hc).1 (by decide)
  rw [List.append_assoc, List.append_assoc, byteRange, if_pos hprefix, hdrop,
    cut_singleton_append hdash]
  dsimp only
  rw [number_decimal, number_decimal]

end ObjectApi
