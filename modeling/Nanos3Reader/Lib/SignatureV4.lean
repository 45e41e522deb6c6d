import Nanos3Reader.Lib.Uri

/-!
# Checking a signature

The receiver's side of Signature Version 4. A request says in its `Authorization` header by whose
key, for which day, region and service and over which headers it is signed. The receiver puts the
canonical request together from what has arrived, in its own spelling, and computes the signature
once more with the secret that belongs to the key.

The hash is a parameter. Nothing here depends on who has sent the request.
-/

open ByteText

namespace SignatureV4

/-! ## Hashing -/

/-- A digit in base 16, in lower case. -/
def hexDigit (n : UInt8) : UInt8 := (utf8 "0123456789abcdef").getD n.toNat 0

/-- Base 16 in lower case. -/
def hexText (data : Bytes) : Bytes := data.flatMap fun b ↦ [hexDigit (b / 16), hexDigit (b % 16)]

/-- HMAC for a hash with blocks of `B` bytes, of RFC 2104. -/
def hmac (hash : Bytes → Bytes) (B : ℕ) (key text : Bytes) : Bytes :=
  let short := if B < key.length then hash key else key
  let k := short ++ List.replicate (B - short.length) 0
  hash (k.map (· ^^^ 0x5c) ++ hash (k.map (· ^^^ 0x36) ++ text))

/-- The signing key of a day, a region and a service. -/
def signingKey (hash : Bytes → Bytes) (secret date region service : Bytes) : Bytes :=
  [date, region, service, utf8 "aws4_request"].foldl (hmac hash 64) (utf8 "AWS4" ++ secret)

/-! ## The claim -/

/-- What an `Authorization` header says. -/
structure Claim where
  accessKey : Bytes
  date : Bytes
  region : Bytes
  service : Bytes
  signedHeaders : List Bytes
  signature : Bytes
deriving DecidableEq

/-- The value of a part `name=value`, blanks in front aside. -/
def partValue (name part : Bytes) : Option Bytes :=
  let part := part.dropWhile (· = 32)
  if name.isPrefixOf part then some (part.drop name.length) else none

/-- The claim in the value of an `Authorization` header. -/
def readClaim (value : Bytes) : Option Claim :=
  match (partValue (utf8 "AWS4-HMAC-SHA256 ") value).map (List.splitOn 44) with
  | some [credential, names, signature] =>
    match partValue (utf8 "Credential=") credential, partValue (utf8 "SignedHeaders=") names,
        partValue (utf8 "Signature=") signature with
    | some credential, some names, some signature =>
      match credential.splitOn 47 with
      | [accessKey, date, region, service, terminal] =>
        if terminal = utf8 "aws4_request" then
          some { accessKey, date, region, service, signedHeaders := names.splitOn 59, signature }
        else none
      | _ => none
    | _, _, _ => none
  | _ => none

/-! ## The canonical request -/

/-- A request as it arrives. The names of its headers are in lower case. -/
structure Arrived where
  method : Bytes
  host : Bytes
  path : Bytes
  query : Bytes
  headers : List (Bytes × Bytes)
  body : Bytes
deriving DecidableEq

/-- A digit in base 16, in upper case. -/
def upperHexDigit (n : UInt8) : UInt8 := (utf8 "0123456789ABCDEF").getD n.toNat 0

/-- `UriEncode`. -/
def uriEncode (encodeSlash : Bool) (s : Bytes) : Bytes :=
  s.flatMap fun c ↦
    if Uri.Unreserved c ∨ (c = 47 ∧ encodeSlash = false) then [c]
    else [37, upperHexDigit (c / 16), upperHexDigit (c % 16)]

/-- The path as the receiver spells it. -/
def canonicalPath (path : Bytes) : Option Bytes := (Uri.percentDecode path).map (uriEncode false)

/-- A parameter as the receiver spells it. -/
def canonicalParameter (p : Bytes × Bytes) : Option (Bytes × Bytes) :=
  match Uri.percentDecode p.1, Uri.percentDecode p.2 with
  | some name, some value => some (uriEncode true name, uriEncode true value)
  | _, _ => none

/-- The query as the receiver spells it, its parameters in the order of their names. -/
def canonicalQuery (query : Bytes) : Option Bytes :=
  if query = [] then some []
  else
    ((Uri.parameters query).bind fun ps ↦ ps.mapM canonicalParameter).map fun ps ↦
      Uri.renderParameters (ps.mergeSort fun p q ↦ decide (p.1 ≤ q.1))

def isBlank (c : UInt8) : Bool := c = 32 || c = 9

/-- A header value without blanks around it, and with one space for every run of them inside. -/
def canonicalValue (v : Bytes) : Bytes :=
  [32].intercalate ((v.splitOnP isBlank).filter (· ≠ []))

namespace Arrived

variable (r : Arrived)

/-- The value of the header `name`, if there is just one. -/
def value (name : Bytes) : Option Bytes :=
  if name = utf8 "host" then some r.host
  else
    match r.headers.filter fun f ↦ f.1 = name with
    | [f] => some f.2
    | _ => none

/-- The line of a signed header. -/
def headerLine (name : Bytes) : Option Bytes :=
  (r.value name).map fun v ↦ name ++ 58 :: canonicalValue v

/-- The canonical request, signed over the headers `names`. -/
def canonicalRequest (names : List Bytes) : Option Bytes :=
  match canonicalPath r.path, canonicalQuery r.query, names.mapM r.headerLine,
      r.value (utf8 "x-amz-content-sha256") with
  | some path, some query, some lines, some payload =>
    some ([10].intercalate
      ([r.method, path, query] ++ (lines ++ [[], [59].intercalate names, payload])))
  | _, _, _, _ => none

/-- The signature that the receiver computes for a claim. -/
def signature (hash : Bytes → Bytes) (secret : Bytes) (c : Claim) : Option Bytes :=
  match r.value (utf8 "x-amz-date"), r.canonicalRequest c.signedHeaders with
  | some date, some request =>
    let scope := [47].intercalate [c.date, c.region, c.service, utf8 "aws4_request"]
    let text := [10].intercalate [utf8 "AWS4-HMAC-SHA256", date, scope, hexText (hash request)]
    some (hexText (hmac hash 64 (signingKey hash secret c.date c.region c.service) text))
  | _, _ => none

end Arrived

/-- The claim is for this service and region and for the day of the request, and covers the headers
it must. -/
structure Claim.Fits (c : Claim) (service region : Bytes) (r : Arrived) : Prop where
  service : c.service = service
  region : c.region = region
  date : ∃ date, r.value (utf8 "x-amz-date") = some date ∧ date.take 8 = c.date
  sorted : c.signedHeaders.Pairwise (· < ·)
  host : utf8 "host" ∈ c.signedHeaders
  amz : ∀ f ∈ r.headers, (utf8 "x-amz-").isPrefixOf f.1 = true → f.1 ∈ c.signedHeaders

/-- The receiver accepts a request for `service` in `region`. -/
structure Accepts (hash : Bytes → Bytes) (secretOf : Bytes → Option Bytes) (service region : Bytes)
    (r : Arrived) : Prop where
  signed : ∃ value c secret, r.value (utf8 "authorization") = some value ∧
    readClaim value = some c ∧ c.Fits service region r ∧
    secretOf c.accessKey = some secret ∧ r.signature hash secret c = some c.signature
  payload : ∃ payload, r.value (utf8 "x-amz-content-sha256") = some payload ∧
    (payload = utf8 "UNSIGNED-PAYLOAD" ∨ payload = hexText (hash r.body))

/-! ## Reading what a sender has written -/

theorem partValue_append (name v : Bytes) (hname : name.head? ≠ some 32) :
    partValue name (name ++ v) = if name = [] then some (v.dropWhile (· = 32)) else some v := by
  cases name with
  | nil => simp [partValue]
  | cons c name =>
    have hne : c ≠ 32 := by simpa using hname
    simp [partValue, hne]

theorem partValue_space {name v : Bytes} (hne : name ≠ []) (hname : name.head? ≠ some 32) :
    partValue name (32 :: (name ++ v)) = some v := by
  have hblank : partValue name (32 :: (name ++ v)) = partValue name (name ++ v) := by
    simp [partValue]
  rw [hblank, partValue_append _ _ hname, if_neg hne]

theorem splitOn_parts {a b c : Bytes} (ha : 44 ∉ a) (hb : 44 ∉ b) (hc : 44 ∉ c) :
    (a ++ utf8 ", " ++ b ++ utf8 ", " ++ c).splitOn 44 = [a, 32 :: b, 32 :: c] := by
  have hfree : ∀ l ∈ [a, 32 :: b, 32 :: c], 44 ∉ l := by simp [ha, hb, hc]
  have hcomma : utf8 ", " = [44, 32] := by decide
  rw [← List.splitOn_intercalate 44 hfree (by simp)]
  simp [List.intercalate, hcomma]

/-- A claim as a sender writes it. -/
def Claim.render (c : Claim) : Bytes :=
  utf8 "AWS4-HMAC-SHA256 " ++
    (utf8 "Credential=" ++
        [47].intercalate [c.accessKey, c.date, c.region, c.service, utf8 "aws4_request"] ++
      utf8 ", " ++ (utf8 "SignedHeaders=" ++ [59].intercalate c.signedHeaders) ++
      utf8 ", " ++ (utf8 "Signature=" ++ c.signature))

/-- The parts of a claim have none of the bytes that stand between them. -/
structure Claim.Plain (c : Claim) : Prop where
  credential : ∀ part ∈ [c.accessKey, c.date, c.region, c.service], 44 ∉ part ∧ 47 ∉ part
  names : ∀ name ∈ c.signedHeaders, 44 ∉ name ∧ 59 ∉ name
  names_ne : c.signedHeaders ≠ []
  signature : 44 ∉ c.signature

/-- **A claim is read as it was written.** -/
theorem readClaim_render {c : Claim} (h : c.Plain) : readClaim c.render = some c := by
  have hcredential : ∀ part ∈ [c.accessKey, c.date, c.region, c.service, utf8 "aws4_request"],
      44 ∉ part ∧ 47 ∉ part := by
    intro part hpart
    rcases List.mem_append.mp (show part ∈ [c.accessKey, c.date, c.region, c.service] ++
      [utf8 "aws4_request"] from hpart) with hpart | hpart
    · exact h.credential part hpart
    · obtain rfl := List.mem_singleton.mp hpart
      decide
  have hcomma : 44 ∉ utf8 "Credential=" ++
      [47].intercalate [c.accessKey, c.date, c.region, c.service, utf8 "aws4_request"] := by
    rw [List.mem_append, not_or]
    exact ⟨by decide,
      @notMem_intercalate 47 44 _ (fun part hpart ↦ (hcredential part hpart).1) (by decide)⟩
  have hcomma' : 44 ∉ utf8 "SignedHeaders=" ++ [59].intercalate c.signedHeaders := by
    rw [List.mem_append, not_or]
    exact ⟨by decide,
      @notMem_intercalate 59 44 _ (fun name hname ↦ (h.names name hname).1) (by decide)⟩
  have hcomma'' : 44 ∉ utf8 "Signature=" ++ c.signature := by
    rw [List.mem_append, not_or]
    exact ⟨by decide, h.signature⟩
  have hscope : ([47].intercalate [c.accessKey, c.date, c.region, c.service,
      utf8 "aws4_request"]).splitOn 47
      = [c.accessKey, c.date, c.region, c.service, utf8 "aws4_request"] :=
    List.splitOn_intercalate 47 (fun part hpart ↦ (hcredential part hpart).2) (by simp)
  have hnames : ([59].intercalate c.signedHeaders).splitOn 59 = c.signedHeaders :=
    List.splitOn_intercalate 59 (fun name hname ↦ (h.names name hname).2) h.names_ne
  rw [readClaim, Claim.render, partValue_append _ _ (by decide), if_neg (by decide),
    Option.map_some, splitOn_parts hcomma hcomma' hcomma'']
  dsimp only
  rw [partValue_append _ _ (by decide), if_neg (by decide),
    partValue_space (by decide) (by decide), partValue_space (by decide) (by decide)]
  dsimp only
  rw [hscope, hnames]
  exact if_pos rfl

theorem canonicalQuery_render {ps : List (Bytes × Bytes)}
    (hps : ∀ p ∈ ps, Uri.Encoded p.1 ∧ Uri.Encoded p.2)
    (hcanonical : ∀ p ∈ ps, canonicalParameter p = some p)
    (hsorted : (ps.map Prod.fst).Pairwise (· < ·)) :
    canonicalQuery (Uri.renderParameters ps) = some (Uri.renderParameters ps) := by
  by_cases hne : ps = []
  · subst hne
    rfl
  have hsome : ps.mapM canonicalParameter = some ps := by
    clear hne hps hsorted
    induction ps with
    | nil => rfl
    | cons p ps ih =>
      rw [List.mapM_cons, hcanonical p List.mem_cons_self,
        ih fun q hq ↦ hcanonical q (List.mem_cons_of_mem _ hq)]
      rfl
  have hsort : ps.mergeSort (fun p q ↦ decide (p.1 ≤ q.1)) = ps := by
    refine List.mergeSort_of_pairwise ?_
    rw [List.pairwise_map] at hsorted
    exact hsorted.imp fun h ↦ by simpa using List.le_of_lt h
  rw [canonicalQuery]
  split
  · next hnil => rw [hnil]
  · rw [Uri.parameters_render hne hps, Option.bind_some, hsome, Option.map_some, hsort]

theorem canonicalValue_of_forall {v : Bytes} (h : ∀ c ∈ v, isBlank c = false) :
    canonicalValue v = v := by
  have hsplit : v.splitOnP isBlank = [v] := List.splitOnP_eq_singleton h
  rw [canonicalValue, hsplit]
  by_cases hnil : v = []
  · simp [hnil]
  · simp [hnil]

/-! ## What a signature binds -/

/-- The hash tells the texts in `xs` from those at the same places in `ys`. -/
def ToldApart (hash : Bytes → Bytes) (xs ys : List Bytes) : Prop :=
  ∀ p ∈ xs.zip ys, hash p.1 = hash p.2 → p.1 = p.2

theorem toldApart_cons {hash : Bytes → Bytes} {x y : Bytes} {xs ys : List Bytes} :
    ToldApart hash (x :: xs) (y :: ys) ↔ (hash x = hash y → x = y) ∧ ToldApart hash xs ys := by
  rw [ToldApart, List.zip_cons_cons, List.forall_mem_cons, ← ToldApart]

theorem toldApart_append_left {hash : Bytes → Bytes} {texts xs ys : List Bytes} :
    ToldApart hash (texts ++ xs) (texts ++ ys) ↔ ToldApart hash xs ys := by
  induction texts with
  | nil => rfl
  | cons text texts ih =>
    rw [List.cons_append, List.cons_append, toldApart_cons, ih]
    exact and_iff_right fun _ ↦ rfl

theorem toldApart_nil (hash : Bytes → Bytes) : ToldApart hash [] [] :=
  fun _ hp ↦ absurd hp List.not_mem_nil

theorem map_of_mapM {α β : Type} {f : α → Option β} {l : List α} {l' : List β}
    (h : l.mapM f = some l') : l.map f = l'.map some := by
  induction l generalizing l' with
  | nil =>
    obtain rfl := Option.some.inj h
    rfl
  | cons a l ih =>
    rw [List.mapM_cons] at h
    obtain ⟨b, hb, h⟩ := Option.bind_eq_some_iff.mp h
    obtain ⟨bs, hbs, h⟩ := Option.bind_eq_some_iff.mp h
    obtain rfl := Option.some.inj h
    rw [List.map_cons, List.map_cons, hb, ih hbs]

theorem exists_of_mapM {α β : Type} {f : α → Option β} {l : List α} {l' : List β}
    (h : l.mapM f = some l') {b : β} (hb : b ∈ l') : ∃ a ∈ l, f a = some b := by
  have hmem : some b ∈ l.map f := map_of_mapM h ▸ List.mem_map_of_mem hb
  exact List.mem_map.mp hmem

theorem toNat_halves_lt (b : UInt8) : (b / 16).toNat < 16 ∧ (b % 16).toNat < 16 := by
  have hlt := b.toNat_lt
  rw [UInt8.toNat_div, UInt8.toNat_mod]
  exact ⟨Nat.div_lt_of_lt_mul hlt, Nat.mod_lt _ (by decide)⟩

theorem hexDigit_injOn {d e : UInt8} (hd : d.toNat < 16) (he : e.toNat < 16)
    (h : hexDigit d = hexDigit e) : d = e := by
  have hall : ∀ n < 16, ∀ m < 16, hexDigit (.ofNat n) = hexDigit (.ofNat m) → n = m := by
    decide +kernel
  rw [← d.ofNat_toNat, ← e.ofNat_toNat] at h
  exact UInt8.toNat_inj.mp (hall _ hd _ he h)

theorem hexText_injective : Function.Injective hexText := by
  have hcons (b : UInt8) (s : Bytes) :
      hexText (b :: s) = hexDigit (b / 16) :: hexDigit (b % 16) :: hexText s := rfl
  intro s
  induction s with
  | nil =>
    intro t h
    cases t with
    | nil => rfl
    | cons b t => cases h
  | cons b s ih =>
    intro t h
    cases t with
    | nil => cases h
    | cons c t =>
      rw [hcons, hcons, List.cons.injEq, List.cons.injEq] at h
      obtain ⟨hhi, hlo, hrest⟩ := h
      have hdiv := hexDigit_injOn (toNat_halves_lt b).1 (toNat_halves_lt c).1 hhi
      have hmod := hexDigit_injOn (toNat_halves_lt b).2 (toNat_halves_lt c).2 hlo
      have hbyte : b = c := by
        refine UInt8.toNat_inj.mp ?_
        rw [← Nat.div_add_mod b.toNat 16, ← Nat.div_add_mod c.toNat 16]
        have hdiv := congrArg UInt8.toNat hdiv
        have hmod := congrArg UInt8.toNat hmod
        rw [UInt8.toNat_div, UInt8.toNat_div] at hdiv
        rw [UInt8.toNat_mod, UInt8.toNat_mod] at hmod
        exact congrArg₂ _ (congrArg _ hdiv) hmod
      rw [hbyte, ih hrest]

/-- The two texts that HMAC hashes. -/
def hmacTexts (hash : Bytes → Bytes) (B : ℕ) (key text : Bytes) : List Bytes :=
  let short := if B < key.length then hash key else key
  let k := short ++ List.replicate (B - short.length) 0
  let inner := k.map (· ^^^ 0x36) ++ text
  [inner, k.map (· ^^^ 0x5c) ++ hash inner]

theorem eq_of_hmac {hash : Bytes → Bytes} {B : ℕ} {key x y : Bytes} {xs ys : List Bytes}
    (hapart : ToldApart hash (hmacTexts hash B key x ++ xs) (hmacTexts hash B key y ++ ys))
    (h : hmac hash B key x = hmac hash B key y) : x = y := by
  obtain ⟨hinner, hrest⟩ := toldApart_cons.mp hapart
  have houter := (toldApart_cons.mp hrest).1 h
  exact List.append_cancel_left (hinner (List.append_cancel_left houter))

/-- No line breaks where HTTP has none. -/
structure Arrived.OneLine (r : Arrived) : Prop where
  method : 10 ∉ r.method
  host : 10 ∉ r.host
  headers : ∀ f ∈ r.headers, 10 ∉ f.1 ∧ 10 ∉ f.2

theorem newline_notMem_uriEncode (slash : Bool) (s : Bytes) : 10 ∉ uriEncode slash s := by
  have hdigit {d : UInt8} (hd : d.toNat < 16) : 10 ≠ upperHexDigit d := by
    have hall : ∀ n < 16, 10 ≠ upperHexDigit (.ofNat n) := by decide
    simpa using hall d.toNat hd
  intro h
  obtain ⟨c, -, hc⟩ := List.mem_flatMap.mp h
  split at hc
  · next hkeep =>
    obtain rfl := List.mem_singleton.mp hc
    rcases hkeep with hkeep | hkeep
    · exact absurd hkeep (by decide)
    · exact absurd hkeep.1 (by decide)
  · simp only [List.mem_cons, List.not_mem_nil, or_false] at hc
    rcases hc with hc | hc | hc
    · exact absurd hc (by decide)
    · exact hdigit (toNat_halves_lt c).1 hc
    · exact hdigit (toNat_halves_lt c).2 hc

theorem newline_notMem_canonicalPath {path p : Bytes} (h : canonicalPath path = some p) :
    10 ∉ p := by
  obtain ⟨s, -, rfl⟩ := Option.map_eq_some_iff.mp h
  exact newline_notMem_uriEncode _ _

theorem newline_notMem_canonicalQuery {query q : Bytes} (h : canonicalQuery query = some q) :
    10 ∉ q := by
  rw [canonicalQuery] at h
  split at h
  · obtain rfl := Option.some.inj h
    exact List.not_mem_nil
  · obtain ⟨ps, hps, rfl⟩ := Option.map_eq_some_iff.mp h
    obtain ⟨raw, -, hps⟩ := Option.bind_eq_some_iff.mp hps
    have hplain : ∀ p ∈ ps, 10 ∉ p.1 ++ 61 :: p.2 := by
      intro p hp
      obtain ⟨p₀, -, hp₀⟩ := exists_of_mapM hps hp
      rw [canonicalParameter] at hp₀
      split at hp₀
      · obtain rfl := Option.some.inj hp₀
        rw [List.mem_append, List.mem_cons, not_or, not_or]
        exact ⟨newline_notMem_uriEncode _ _, by decide, newline_notMem_uriEncode _ _⟩
      · cases hp₀
    refine @notMem_intercalate 38 10 _ ?_ (by decide)
    intro l hl
    obtain ⟨p, hp, rfl⟩ := List.mem_map.mp hl
    exact hplain p (List.mem_mergeSort.mp hp)

theorem mem_of_mem_splitOnP {p : UInt8 → Bool} {s l : Bytes} (h : l ∈ s.splitOnP p) {c : UInt8}
    (hc : c ∈ l) : c ∈ s := by
  induction s generalizing l with
  | nil =>
    rw [List.splitOnP_nil, List.mem_singleton] at h
    exact h ▸ hc
  | cons x s ih =>
    rw [List.splitOnP_cons_eq_if_modifyHead] at h
    split at h
    · rcases List.mem_cons.mp h with rfl | h
      · cases hc
      · exact List.mem_cons_of_mem _ (ih h hc)
    · obtain ⟨first, rest, hsplit⟩ := List.exists_cons_of_ne_nil (List.splitOnP_ne_nil p s)
      rw [hsplit, List.modifyHead_cons, List.mem_cons] at h
      rw [hsplit] at ih
      rcases h with rfl | h
      · rcases List.mem_cons.mp hc with rfl | hc
        · exact List.mem_cons_self
        · exact List.mem_cons_of_mem _ (ih List.mem_cons_self hc)
      · exact List.mem_cons_of_mem _ (ih (List.mem_cons_of_mem _ h) hc)

theorem newline_notMem_canonicalValue {v : Bytes} (h : 10 ∉ v) : 10 ∉ canonicalValue v := by
  refine @notMem_intercalate 32 10 _ (fun l hl hmem ↦ h ?_) (by decide)
  exact mem_of_mem_splitOnP (List.mem_filter.mp hl).1 hmem

namespace Arrived

variable {r r' : Arrived}

theorem OneLine.value (h : r.OneLine) {name v : Bytes} (hv : r.value name = some v) :
    10 ∉ name ∧ 10 ∉ v := by
  rw [Arrived.value] at hv
  split at hv
  · next hhost =>
    obtain rfl := Option.some.inj hv
    exact ⟨hhost ▸ by decide, h.host⟩
  · split at hv
    · next f hf =>
      obtain rfl := Option.some.inj hv
      have hmem : f ∈ r.headers.filter fun f ↦ f.1 = name := hf ▸ List.mem_singleton_self f
      obtain ⟨hmem, hname⟩ := List.mem_filter.mp hmem
      have hname : f.1 = name := by simpa using hname
      exact ⟨hname ▸ (h.headers f hmem).1, (h.headers f hmem).2⟩
    · cases hv

theorem of_canonicalRequest {names : List Bytes} {text : Bytes}
    (h : r.canonicalRequest names = some text) : ∃ path query lines payload,
      canonicalPath r.path = some path ∧ canonicalQuery r.query = some query ∧
      names.mapM r.headerLine = some lines ∧
      r.value (utf8 "x-amz-content-sha256") = some payload ∧
      text = [10].intercalate
        ([r.method, path, query] ++ (lines ++ [[], [59].intercalate names, payload])) := by
  rw [canonicalRequest] at h
  split at h
  · next path query lines payload hpath hquery hlines hpayload =>
    exact ⟨path, query, lines, payload, hpath, hquery, hlines, hpayload, (Option.some.inj h).symm⟩
  · cases h

/-- Two requests that say the same, as far as the signature looks at them. -/
structure Agree (r r' : Arrived) (names : List Bytes) : Prop where
  method : r'.method = r.method
  path : canonicalPath r'.path = canonicalPath r.path
  query : canonicalQuery r'.query = canonicalQuery r.query
  headers : ∀ name ∈ names,
    (r'.value name).map canonicalValue = (r.value name).map canonicalValue
  payload : r'.value (utf8 "x-amz-content-sha256") = r.value (utf8 "x-amz-content-sha256")

/-- **A canonical request says what it was made of.** -/
theorem agree_of_canonicalRequest (h : r.OneLine) (h' : r'.OneLine) {names : List Bytes}
    {text : Bytes} (htext : r.canonicalRequest names = some text)
    (htext' : r'.canonicalRequest names = some text) : Agree r r' names := by
  obtain ⟨path, query, lines, payload, hpath, hquery, hlines, hpayload, rfl⟩ :=
    of_canonicalRequest htext
  obtain ⟨path', query', lines', payload', hpath', hquery', hlines', hpayload', heq⟩ :=
    of_canonicalRequest htext'
  -- no part of either has a line break, so they fall into the same lines
  have hclean {r : Arrived} {lines : List Bytes} {path query payload : Bytes} (h : r.OneLine)
      (hpath : canonicalPath r.path = some path) (hquery : canonicalQuery r.query = some query)
      (hlines : names.mapM r.headerLine = some lines)
      (hpayload : r.value (utf8 "x-amz-content-sha256") = some payload) :
      ∀ l ∈ [r.method, path, query] ++ (lines ++ [[], [59].intercalate names, payload]),
        10 ∉ l := by
    have hline {name : Bytes} (hname : name ∈ names) : 10 ∉ name ∧ ∀ l ∈ r.headerLine name,
        10 ∉ l := by
      have hsome : r.headerLine name ∈ lines.map some :=
        map_of_mapM hlines ▸ List.mem_map_of_mem hname
      obtain ⟨l, -, hl⟩ := List.mem_map.mp hsome
      obtain ⟨v, hv, -⟩ := Option.map_eq_some_iff.mp hl.symm
      obtain ⟨hplain, hvalue⟩ := h.value hv
      refine ⟨hplain, fun l hl ↦ ?_⟩
      rw [headerLine, hv, Option.map_some, Option.mem_some] at hl
      rw [← hl, List.mem_append, List.mem_cons, not_or, not_or]
      exact ⟨hplain, by decide, newline_notMem_canonicalValue hvalue⟩
    intro l hl
    simp only [List.mem_append, List.mem_cons, List.not_mem_nil, or_false] at hl
    rcases hl with (rfl | rfl | rfl) | hl | rfl | rfl | rfl
    · exact h.method
    · exact newline_notMem_canonicalPath hpath
    · exact newline_notMem_canonicalQuery hquery
    · obtain ⟨name, hname, hl⟩ := exists_of_mapM hlines hl
      exact (hline hname).2 l hl
    · exact List.not_mem_nil
    · exact @notMem_intercalate 59 10 _ (fun name hname ↦ (hline hname).1) (by decide)
    · exact (h.value hpayload).2
  have hparts := eq_of_intercalate_eq (by simp) (by simp)
    (hclean h hpath hquery hlines hpayload) (hclean h' hpath' hquery' hlines' hpayload') heq
  obtain ⟨hfirst, hrest⟩ := List.append_inj hparts rfl
  obtain ⟨hheaders, hlast⟩ := List.append_inj' hrest rfl
  simp only [List.cons.injEq, and_true, true_and] at hfirst hlast
  obtain ⟨hmethod, rfl, rfl⟩ := hfirst
  subst hheaders hlast
  refine ⟨hmethod.symm, by rw [hpath, hpath'], by rw [hquery, hquery'], fun name hname ↦ ?_,
    by rw [hpayload, hpayload']⟩
  have hmaps : names.map r'.headerLine = names.map r.headerLine := by
    rw [map_of_mapM hlines, map_of_mapM hlines']
  have hline := List.map_inj_left.mp hmaps name hname
  rw [headerLine, headerLine] at hline
  cases hv : r.value name with
  | none =>
    rw [hv, Option.map_none, Option.map_eq_none_iff] at hline
    rw [hline, Option.map_none]
  | some v =>
    rw [hv, Option.map_some] at hline
    obtain ⟨v', hv', heq⟩ := Option.map_eq_some_iff.mp hline
    rw [hv', Option.map_some, Option.map_some,
      (List.cons.inj (List.append_cancel_left heq)).2]

theorem Agree.canonicalRequest_eq {names : List Bytes} (h : Agree r r' names) :
    r'.canonicalRequest names = r.canonicalRequest names := by
  have hlines : names.mapM r'.headerLine = names.mapM r.headerLine := by
    have hline : ∀ name ∈ names, r'.headerLine name = r.headerLine name := by
      intro name hname
      have hvalue := congrArg (Option.map fun v ↦ name ++ 58 :: v) (h.headers name hname)
      rw [Option.map_map, Option.map_map] at hvalue
      exact hvalue
    clear h
    induction names with
    | nil => rfl
    | cons name names ih =>
      rw [List.mapM_cons, List.mapM_cons, hline name List.mem_cons_self,
        ih fun n hn ↦ hline n (List.mem_cons_of_mem _ hn)]
  rw [canonicalRequest, canonicalRequest, h.path, h.query, h.payload, hlines, h.method]

/-- The text that is signed, for a canonical request. -/
def stringToSign (hash : Bytes → Bytes) (c : Claim) (date request : Bytes) : Bytes :=
  [10].intercalate [utf8 "AWS4-HMAC-SHA256", date,
    [47].intercalate [c.date, c.region, c.service, utf8 "aws4_request"], hexText (hash request)]

/-- The body, if its hash is looked at. -/
def hashedBody (r : Arrived) : List Bytes :=
  if r.value (utf8 "x-amz-content-sha256") = some (utf8 "UNSIGNED-PAYLOAD") then [] else [r.body]

/-- The texts that are hashed to check a request under a claim: the canonical request, the two that
are hashed to sign it, and the body. -/
def hashedTexts (hash : Bytes → Bytes) (secret : Bytes) (c : Claim) (r : Arrived) : List Bytes :=
  match r.value (utf8 "x-amz-date"), r.canonicalRequest c.signedHeaders with
  | some date, some request =>
    request :: (hmacTexts hash 64 (signingKey hash secret c.date c.region c.service)
      (stringToSign hash c date request) ++ r.hashedBody)
  | _, _ => []

theorem of_signature {hash : Bytes → Bytes} {secret sig : Bytes} {c : Claim}
    (h : r.signature hash secret c = some sig) : ∃ date text,
      r.value (utf8 "x-amz-date") = some date ∧ r.canonicalRequest c.signedHeaders = some text ∧
      sig = hexText (hmac hash 64 (signingKey hash secret c.date c.region c.service)
        (stringToSign hash c date text)) ∧
      r.hashedTexts hash secret c =
        text :: (hmacTexts hash 64 (signingKey hash secret c.date c.region c.service)
          (stringToSign hash c date text) ++ r.hashedBody) := by
  rw [signature] at h
  split at h
  · next date text hdate htext =>
    exact ⟨date, text, hdate, htext, (Option.some.inj h).symm, by rw [hashedTexts, hdate, htext]⟩
  · cases h

/-- What is hashed for requests that agree is told apart if their bodies are, where these count. -/
theorem Agree.toldApart_iff {hash : Bytes → Bytes} {c : Claim} (h : Agree r r' c.signedHeaders)
    (hdate : r'.value (utf8 "x-amz-date") = r.value (utf8 "x-amz-date")) {secret sig : Bytes}
    (hsig : r.signature hash secret c = some sig) :
    ToldApart hash (r.hashedTexts hash secret c) (r'.hashedTexts hash secret c) ↔
      (r.value (utf8 "x-amz-content-sha256") ≠ some (utf8 "UNSIGNED-PAYLOAD") →
        hash r.body = hash r'.body → r.body = r'.body) := by
  obtain ⟨date, text, hsigned, htext, -, htexts⟩ := of_signature hsig
  have htexts' : r'.hashedTexts hash secret c =
      text :: (hmacTexts hash 64 (signingKey hash secret c.date c.region c.service)
        (stringToSign hash c date text) ++ r'.hashedBody) := by
    rw [hashedTexts, hdate, hsigned, h.canonicalRequest_eq, htext]
  rw [htexts, htexts', ← List.cons_append, ← List.cons_append, toldApart_append_left, hashedBody,
    hashedBody, h.payload]
  split
  · next hunsigned => exact iff_of_true (toldApart_nil hash) fun hne ↦ absurd hunsigned hne
  · next hne =>
    rw [toldApart_cons, and_iff_left (toldApart_nil hash)]
    exact (imp_iff_right hne).symm

/-- **A signature binds the request** and its date, if the hash tells what is hashed apart. -/
theorem agree_of_signature {hash : Bytes → Bytes} (hr : r.OneLine) (hr' : r'.OneLine)
    {secret sig : Bytes} {c : Claim} (h : r.signature hash secret c = some sig)
    (h' : r'.signature hash secret c = some sig)
    (hapart : ToldApart hash (r.hashedTexts hash secret c) (r'.hashedTexts hash secret c)) :
    Agree r r' c.signedHeaders ∧ r'.value (utf8 "x-amz-date") = r.value (utf8 "x-amz-date") := by
  obtain ⟨date, text, hdate, htext, rfl, htexts⟩ := of_signature h
  obtain ⟨date', text', hdate', htext', hsig, htexts'⟩ := of_signature h'
  rw [htexts, htexts', toldApart_cons] at hapart
  obtain ⟨hrequest, hkeyed⟩ := hapart
  have heq := eq_of_hmac hkeyed (hexText_injective hsig)
  -- the date ends at the first line break behind it
  simp only [stringToSign, List.intercalate, List.intersperse, List.flatten_cons, List.cons_append,
    List.nil_append] at heq
  have hlines := List.append_cancel_left heq
  rw [List.cons.injEq] at hlines
  have hcut := congrArg (cut [10]) hlines.2
  rw [cut_singleton_append (hr.value hdate).2, cut_singleton_append (hr'.value hdate').2,
    Option.some.injEq, Prod.mk.injEq] at hcut
  obtain ⟨hdates, hrest⟩ := hcut
  have hhash := List.append_cancel_left hrest
  rw [List.cons.injEq] at hhash
  obtain rfl := hrequest (hexText_injective (List.append_cancel_right hhash.2))
  subst hdates
  exact ⟨agree_of_canonicalRequest hr hr' htext htext', hdate'.trans hdate.symm⟩

/-- `r'` says what `r` says, as far as a claim goes, and its body is one that it may have. -/
structure SaysAs (hash : Bytes → Bytes) (c : Claim) (r r' : Arrived) : Prop where
  agree : Agree r r' c.signedHeaders
  date : r'.value (utf8 "x-amz-date") = r.value (utf8 "x-amz-date")
  amz : ∀ f ∈ r'.headers, (utf8 "x-amz-").isPrefixOf f.1 = true → f.1 ∈ c.signedHeaders
  payload : ∃ payload, r.value (utf8 "x-amz-content-sha256") = some payload ∧
    (payload = utf8 "UNSIGNED-PAYLOAD" ∨ payload = hexText (hash r'.body))

end Arrived

/-- **A signature is good for what was signed and for nothing else**: when a request is accepted,
one that comes with the same authorization is accepted just when it says the same, if the hash tells
apart what is hashed to check the two. -/
theorem Accepts.iff_saysAs {hash : Bytes → Bytes} {secretOf : Bytes → Option Bytes}
    {service region : Bytes} {r r' : Arrived} (h : Accepts hash secretOf service region r)
    (hr : r.OneLine) (hr' : r'.OneLine) {value : Bytes} {c : Claim}
    (hvalue : r.value (utf8 "authorization") = some value)
    (hvalue' : r'.value (utf8 "authorization") = some value) (hc : readClaim value = some c)
    {secret : Bytes} (hsecret : secretOf c.accessKey = some secret)
    (hapart : ToldApart hash (r.hashedTexts hash secret c) (r'.hashedTexts hash secret c)) :
    Accepts hash secretOf service region r' ↔ Arrived.SaysAs hash c r r' := by
  obtain ⟨⟨v, c₀, secret₀, hv, hc₀, hfits, hsecret₀, hsig⟩, -⟩ := h
  obtain rfl : v = value := Option.some.inj (hv.symm.trans hvalue)
  obtain rfl : c₀ = c := Option.some.inj (hc₀.symm.trans hc)
  obtain rfl : secret₀ = secret := Option.some.inj (hsecret₀.symm.trans hsecret)
  refine ⟨fun h' ↦ ?_, fun hsame ↦ ⟨⟨v, c₀, secret₀, hvalue', hc, ?_, hsecret, ?_⟩, ?_⟩⟩
  · obtain ⟨⟨v', c', secret', hv', hc', hfits', hsecret', hsig'⟩, payload, hpayload, hbody⟩ := h'
    obtain rfl : v' = v := Option.some.inj (hv'.symm.trans hvalue')
    obtain rfl : c' = c₀ := Option.some.inj (hc'.symm.trans hc)
    obtain rfl : secret' = secret₀ := Option.some.inj (hsecret'.symm.trans hsecret)
    obtain ⟨hagree, hdate⟩ := Arrived.agree_of_signature hr hr' hsig hsig' hapart
    exact ⟨hagree, hdate, hfits'.amz, payload, hagree.payload ▸ hpayload, hbody⟩
  · obtain ⟨date, hdate, hday⟩ := hfits.date
    exact ⟨hfits.service, hfits.region, ⟨date, hsame.date.trans hdate, hday⟩, hfits.sorted,
      hfits.host, hsame.amz⟩
  · rw [← hsig, Arrived.signature, Arrived.signature, hsame.date, hsame.agree.canonicalRequest_eq]
  · obtain ⟨payload, hpayload, hbody⟩ := hsame.payload
    exact ⟨payload, hsame.agree.payload.trans hpayload, hbody⟩

end SignatureV4
