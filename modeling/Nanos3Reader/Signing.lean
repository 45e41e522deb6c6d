import Nanos3Reader.Endpoint
import Nanos3Reader.SigV4
import Nanos3Reader.Transport

/-!
# What is signed and what is sent

A request is put together twice: as the list of headers that is signed, and as the header lines that
libcurl is given. This file says what it is for the two to agree, and how header lines are read. A
line does not always arrive as it was written, since it ends at the first NUL, and since libcurl
sends none that has nothing but white space behind the colon.
-/

open ByteText

namespace Nanos3Reader

/-! ## Header lines -/

/-- A value that arrives whole in a header line. -/
def Sendable (v : Bytes) : Prop := 0 ∉ v ∧ ∃ c ∈ v, isSpace c = false

instance (v : Bytes) : Decidable (Sendable v) :=
  decidable_of_iff (0 ∉ v ∧ v.any (fun c ↦ !isSpace c) = true) (by simp [Sendable])

/-- Name and value of a line, if libcurl sends it. A colon and a blank stand between the two. -/
def headerField (line : Bytes) : Option (Bytes × Bytes) :=
  let value := (line.dropWhile (· ≠ 58)).drop 2
  if value.any fun c ↦ !isSpace c then some ((line.takeWhile (· ≠ 58)).map toLower, value) else none

/-- The header fields that a request is sent with, apart from those that libcurl adds. -/
def HttpRequest.fields (req : HttpRequest) : List (Bytes × Bytes) :=
  req.headers.filterMap headerField

/-- A header that has to be signed when it is sent: `range`, and all with a name in `x-amz-`. -/
def mustSign (name : Bytes) : Bool := (utf8 "x-amz-").isPrefixOf name || name = utf8 "range"

/-- The name and the value of a header to sign. -/
def S3v4.Header.pair (h : S3v4.Header) : Bytes × Bytes := (h.name, h.value)

/-- The headers to sign that are sent in lines of their own. libcurl makes `host` from the URL. -/
def S3v4.CanonicalRequest.lines (signed : S3v4.CanonicalRequest) : List (Bytes × Bytes) :=
  (signed.headers.filter fun h ↦ h.name ≠ utf8 "host").map S3v4.Header.pair

/-- The header line that carries the signature of `signed` with the keys of `cred`. -/
def S3v4.CanonicalRequest.authorizationLine (signed : S3v4.CanonicalRequest)
    (sha256Raw : Bytes → Bytes) (cred : Credentials) (region amzDate : Bytes) : Bytes :=
  utf8 "Authorization: " ++ (S3v4.buildAuthorization sha256Raw signed cred.accessKey cred.secretKey
    region (utf8 "s3") amzDate).1

/-- `req` is the request that was signed as `signed`, with the keys of `cred` for `region`, and it
is for the target `ep`. -/
structure SignedAs (sha256Raw : Bytes → Bytes) (signed : S3v4.CanonicalRequest) (cred : Credentials)
    (ep : Endpoint) (region amzDate : Bytes) (req : HttpRequest) : Prop where
  authorization : req.headers.getLast?
    = some (cStr (signed.authorizationLine sha256Raw cred region amzDate))
  method : signed.method = req.method
  host : (signed.headers.filter fun h ↦ h.name = utf8 "host") = [⟨utf8 "host", ep.host⟩]
  path : signed.uri = ep.path
  url : req.url = cStr (if signed.query = [] then ep.url else ep.url ++ utf8 "?" ++ signed.query)
  payloadHash : (utf8 "x-amz-content-sha256", signed.payloadHash)
    ∈ signed.headers.map S3v4.Header.pair

/-- Every header signed is sent, once and with its value; and every header that must be signed is.
-/
structure SentAsSigned (signed : S3v4.CanonicalRequest) (req : HttpRequest) : Prop where
  sent : ∀ h ∈ signed.headers, h.name ≠ utf8 "host" →
    (req.fields.filter fun f ↦ f.1 = h.name) = [h.pair]
  signed : ∀ f ∈ req.fields, mustSign f.1 = true → f ∈ signed.headers.map S3v4.Header.pair

/-- No line break in a text. In a header line, what follows one would be a line of its own. -/
def OneLine (v : Bytes) : Prop := 13 ∉ v ∧ 10 ∉ v

instance (v : Bytes) : Decidable (OneLine v) := inferInstanceAs (Decidable (_ ∧ _))

/-- The credentials that stand in header lines have no line breaks. -/
structure Credentials.OneLine (cred : Credentials) : Prop where
  accessKey : Nanos3Reader.OneLine cred.accessKey
  sessionToken : Nanos3Reader.OneLine cred.sessionToken

/-- **What is signed is what is sent.** The region is not looked at for line breaks, and stands in
the line of the signature. -/
structure SignsWhatIsSent (sha256Raw : Bytes → Bytes) (signed : S3v4.CanonicalRequest)
    (cred : Credentials) (ep : Endpoint) (region amzDate : Bytes) (req : HttpRequest) : Prop where
  signedAs : SignedAs sha256Raw signed cred ep region amzDate req
  sentAsSigned : SentAsSigned signed req
  oneLine : OneLine region → ∀ line ∈ req.headers, OneLine line

@[simp] theorem oneLine_append {u v : Bytes} : OneLine (u ++ v) ↔ OneLine u ∧ OneLine v := by
  simp only [OneLine, List.mem_append]
  tauto

theorem OneLine.of_subset {u v : Bytes} (h : OneLine v) (hsub : u ⊆ v) : OneLine u :=
  ⟨fun hmem ↦ h.1 (hsub hmem), fun hmem ↦ h.2 (hsub hmem)⟩

theorem OneLine.cStr {v : Bytes} (h : OneLine v) : OneLine (cStr v) :=
  h.of_subset (List.takeWhile_sublist _).subset

theorem filter_fst_eq {l : List (Bytes × Bytes)} (hnodup : (l.map Prod.fst).Nodup)
    {f : Bytes × Bytes} (hf : f ∈ l) : (l.filter fun g ↦ g.1 = f.1) = [f] := by
  -- on the list: a field at its head excludes the others by name
  induction l with
  | nil => cases hf
  | cons g l ih =>
    rw [List.map_cons, List.nodup_cons] at hnodup
    rcases List.mem_cons.mp hf with rfl | hf
    · have hothers : (l.filter fun g ↦ g.1 = f.1) = [] := by
        refine List.filter_eq_nil_iff.mpr fun g hg ↦ ?_
        simp only [decide_eq_true_eq]
        exact fun heq ↦ hnodup.1 (heq ▸ List.mem_map_of_mem hg)
      rw [List.filter_cons_of_pos (by simp), hothers]
    · have hne : g.1 ≠ f.1 := fun heq ↦ hnodup.1 (heq ▸ List.mem_map_of_mem hf)
      rw [List.filter_cons_of_neg (by simpa using hne), ih hnodup.2 hf]

/-- The two agree when the fields to be signed are those signed, in whatever order. -/
theorem sentAsSigned_of_perm {signed : S3v4.CanonicalRequest} {req : HttpRequest}
    (hperm : (req.fields.filter fun f ↦ mustSign f.1).Perm signed.lines)
    (hnodup : (signed.lines.map Prod.fst).Nodup) : SentAsSigned signed req := by
  constructor
  case sent =>
    intro h hmem hhost
    have hline : h.pair ∈ signed.lines :=
      List.mem_map_of_mem (List.mem_filter.mpr ⟨hmem, by simpa using hhost⟩)
    have hmust : mustSign h.name = true := (List.mem_filter.mp (hperm.mem_iff.mpr hline)).2
    -- fields with its name are among those compared
    have hfilter : (req.fields.filter fun f ↦ f.1 = h.name)
        = (req.fields.filter fun f ↦ mustSign f.1).filter fun f ↦ f.1 = h.name := by
      rw [List.filter_filter]
      refine List.filter_congr fun f _ ↦ ?_
      by_cases hname : f.1 = h.name
      · simp [hname, hmust]
      · simp [hname]
    have honly : signed.lines.filter (fun f ↦ f.1 = h.name) = [h.pair] :=
      filter_fst_eq hnodup hline
    rw [hfilter]
    exact List.perm_singleton.mp (honly ▸ hperm.filter _)
  case signed =>
    intro f hf hmust
    have hline : f ∈ signed.lines := hperm.mem_iff.mp (List.mem_filter.mpr ⟨hf, hmust⟩)
    obtain ⟨h, hmem, rfl⟩ := List.mem_map.mp hline
    exact List.mem_map_of_mem (List.mem_filter.mp hmem).1

/-! ## Lines with a name and a value -/

/-- The field of a line that must be signed when it is sent. -/
def signedField (line : Bytes) : Option (Bytes × Bytes) :=
  (headerField (cStr line)).filter fun f ↦ mustSign f.1

theorem filter_fields {req : HttpRequest} {lines : List Bytes} (h : req.headers = lines.map cStr) :
    (req.fields.filter fun f ↦ mustSign f.1) = lines.filterMap signedField := by
  rw [HttpRequest.fields, h, List.filter_filterMap, List.filterMap_map]
  rfl

section Line

variable {name : Bytes} (hname : 58 ∉ name) (h0 : 0 ∉ name)

include hname h0

theorem headerField_line (value : Bytes) :
    headerField (cStr (name ++ utf8 ": " ++ value))
      = if (cStr value).any fun c ↦ !isSpace c then some (name.map toLower, cStr value)
        else none := by
  -- libcurl splits a line at its first colon, which is not in the name
  have hpass : ∀ c ∈ name, decide (c ≠ 58) = true := by
    intro c hc
    simpa using ne_of_mem_of_not_mem hc hname
  have hline : cStr (name ++ utf8 ": " ++ value) = name ++ 58 :: 32 :: cStr value := by
    have hcolon : utf8 ": " = [58, 32] := by decide
    rw [hcolon, List.append_assoc, cStr_append h0, cStr_append (by decide)]
    rfl
  rw [headerField, hline, List.takeWhile_append_of_pos hpass, List.dropWhile_append_of_pos hpass]
  simp

theorem headerField_of_sendable {value : Bytes} (h : Sendable value) :
    headerField (cStr (name ++ utf8 ": " ++ value)) = some (name.map toLower, value) := by
  rw [headerField_line hname h0, cStr_eq_self h.1, if_pos]
  simpa using h.2

theorem sendable_of_headerField {value : Bytes} {f : Bytes × Bytes}
    (h : headerField (cStr (name ++ utf8 ": " ++ value)) = some f) (hf : f.2 = value) :
    Sendable value := by
  rw [headerField_line hname h0] at h
  split at h
  · next hany =>
    obtain rfl := Option.some.inj h
    have hwhole : cStr value = value := hf
    rw [hwhole] at hany
    refine ⟨fun hmem ↦ ?_, by simpa using hany⟩
    simpa using List.takeWhile_eq_self_iff.mp hwhole 0 hmem
  · cases h

theorem signedField_eq_none (hmust : mustSign (name.map toLower) = false) (value : Bytes) :
    signedField (name ++ utf8 ": " ++ value) = none := by
  rw [signedField, headerField_line hname h0]
  split
  · exact Option.filter_eq_none_iff.mpr fun f hf ↦ by
      cases hf
      simp [hmust]
  · rfl

theorem signedField_of_sendable (hmust : mustSign (name.map toLower) = true) {value : Bytes}
    (h : Sendable value) :
    signedField (name ++ utf8 ": " ++ value) = some (name.map toLower, value) := by
  rw [signedField, headerField_of_sendable hname h0 h]
  exact Option.filter_eq_some_iff.mpr ⟨rfl, hmust⟩

end Line

theorem signedField_line {name lower : Bytes} (hlower : name.map toLower = lower)
    (hname : 58 ∉ name) (h0 : 0 ∉ name) (hmust : mustSign lower = true) {value : Bytes}
    (h : Sendable value) : signedField (name ++ utf8 ": " ++ value) = some (lower, value) := by
  subst hlower
  exact signedField_of_sendable hname h0 hmust h

/-! ### The session token -/

/-- A session token that is not sent, or arrives whole. -/
def TokenSendable (token : Bytes) : Prop := token = [] ∨ Sendable token

instance (token : Bytes) : Decidable (TokenSendable token) := inferInstanceAs (Decidable (_ ∨ _))

/-- The header to sign for a session token, if there is one. -/
def tokenHeaders (token : Bytes) : List S3v4.Header :=
  if token ≠ [] then [⟨utf8 "x-amz-security-token", token⟩] else []

def tokenLines (token : Bytes) : List Bytes :=
  if token ≠ [] then [utf8 "x-amz-security-token: " ++ token] else []

theorem tokenName_eq :
    utf8 "x-amz-security-token: " = utf8 "x-amz-security-token" ++ utf8 ": " := by decide

theorem oneLine_tokenLines {token line : Bytes} (h : OneLine token)
    (hline : line ∈ tokenLines token) : OneLine line := by
  rw [tokenLines] at hline
  split at hline
  · obtain rfl := List.mem_singleton.mp hline
    exact oneLine_append.mpr ⟨by decide, h⟩
  · cases hline

theorem filterMap_tokenLines {token : Bytes} (h : TokenSendable token) :
    (tokenLines token).filterMap signedField = (tokenHeaders token).map S3v4.Header.pair := by
  rw [tokenLines, tokenHeaders]
  split
  · next hne =>
    have hline : signedField (utf8 "x-amz-security-token" ++ utf8 ": " ++ token)
        = some (utf8 "x-amz-security-token", token) :=
      signedField_line (by decide) (by decide) (by decide) (by decide) (h.resolve_left hne)
    rw [tokenName_eq, List.filterMap_cons_some hline]
    rfl
  · rfl

/-- **A request is sent as signed just when its session token can be sent**, if its other lines
bring the other fields to be signed. -/
theorem sentAsSigned_iff {signed : S3v4.CanonicalRequest} {req : HttpRequest}
    {token authorization : Bytes} {first : List Bytes} {fields : List (Bytes × Bytes)}
    (hlines : req.headers = (first ++ tokenLines token ++ [authorization]).map cStr)
    (hauthorization : signedField authorization = none)
    (hsigned : signed.lines = fields ++ (tokenHeaders token).map S3v4.Header.pair)
    (hfirst : (first.filterMap signedField).Perm fields)
    (hnames : (utf8 "x-amz-security-token" :: fields.map Prod.fst).Nodup) :
    SentAsSigned signed req ↔ TokenSendable token := by
  have hfields : (req.fields.filter fun f ↦ mustSign f.1)
      = first.filterMap signedField ++ (tokenLines token).filterMap signedField := by
    rw [filter_fields hlines, List.filterMap_append, List.filterMap_append,
      List.filterMap_cons_none hauthorization, List.filterMap_nil, List.append_nil]
  constructor
  -- a token that is not empty is signed, so a line with its value must have been sent
  · intro h
    by_cases hne : token = []
    · exact .inl hne
    have hheader : (⟨utf8 "x-amz-security-token", token⟩ : S3v4.Header) ∈ signed.headers := by
      have hline : (utf8 "x-amz-security-token", token) ∈ signed.lines := by
        rw [hsigned, tokenHeaders, if_pos hne]
        exact List.mem_append_right _ (List.mem_singleton_self _)
      obtain ⟨⟨name, value⟩, hx, heq⟩ := List.mem_map.mp hline
      obtain ⟨rfl, rfl⟩ := Prod.mk.inj heq
      exact (List.mem_filter.mp hx).1
    have hsent := h.sent _ hheader (show utf8 "x-amz-security-token" ≠ utf8 "host" by decide)
    have hfield : (utf8 "x-amz-security-token", token)
        ∈ req.fields.filter fun f ↦ mustSign f.1 := by
      have hmem : (utf8 "x-amz-security-token", token)
          ∈ req.fields.filter fun f ↦ f.1 = utf8 "x-amz-security-token" :=
        hsent ▸ List.mem_singleton_self _
      exact List.mem_filter.mpr ⟨(List.mem_filter.mp hmem).1,
        show mustSign (utf8 "x-amz-security-token") = true by decide⟩
    -- the line that brings it can only be that of the token
    rw [hfields, List.mem_append] at hfield
    rcases hfield with hfield | hfield
    · have hname : utf8 "x-amz-security-token" ∈ fields.map Prod.fst :=
        List.mem_map_of_mem (hfirst.mem_iff.mp hfield)
      exact absurd hname (List.nodup_cons.mp hnames).1
    · obtain ⟨line, hline, hbrings⟩ := List.mem_filterMap.mp hfield
      rw [tokenLines, if_pos hne, List.mem_singleton] at hline
      rw [hline, tokenName_eq] at hbrings
      exact .inr (sendable_of_headerField (by decide) (by decide)
        (Option.filter_eq_some_iff.mp hbrings).1 rfl)
  · intro h
    refine sentAsSigned_of_perm ?_ ?_
    · rw [hfields, filterMap_tokenLines h, hsigned]
      exact hfirst.append_right _
    · have hperm : (fields.map Prod.fst ++ [utf8 "x-amz-security-token"]).Nodup :=
        (List.perm_append_singleton _ _).nodup_iff.mpr hnames
      rw [hsigned, List.map_append, tokenHeaders]
      split
      · exact hperm
      · rw [List.map_nil, List.map_nil, List.append_nil]
        exact (List.nodup_cons.mp hnames).2

/-! ## Values that arrive whole -/

theorem sendable_unsigned : Sendable (utf8 "UNSIGNED-PAYLOAD") := by decide

theorem of_mem_hexEncode {data : Bytes} {c : UInt8} (h : c ∈ S3v4.hexEncode data) :
    c ≠ 0 ∧ isSpace c = false := by
  -- both digits of each of the 256 bytes
  have hbyte : ∀ n < 256,
      (S3v4.hexDigit (UInt8.ofNat n >>> (4 : UInt8)) ≠ 0 ∧
        isSpace (S3v4.hexDigit (UInt8.ofNat n >>> (4 : UInt8))) = false) ∧
      S3v4.hexDigit (UInt8.ofNat n &&& (15 : UInt8)) ≠ 0 ∧
        isSpace (S3v4.hexDigit (UInt8.ofNat n &&& (15 : UInt8))) = false := by
    decide +kernel
  obtain ⟨b, -, hc⟩ := List.mem_flatMap.mp h
  have hdigits := hbyte b.toNat b.toNat_lt
  rw [UInt8.ofNat_toNat] at hdigits
  rcases List.mem_cons.mp hc with rfl | hc
  · exact hdigits.1
  · obtain rfl := List.mem_singleton.mp hc
    exact hdigits.2

theorem sendable_hexEncode {data : Bytes} (h : data ≠ []) : Sendable (S3v4.hexEncode data) := by
  obtain ⟨b, rest, rfl⟩ := List.exists_cons_of_ne_nil h
  have hfirst : S3v4.hexDigit (b >>> (4 : UInt8)) ∈ S3v4.hexEncode (b :: rest) :=
    List.mem_cons_self
  exact ⟨fun h0 ↦ (of_mem_hexEncode h0).1 rfl, _, hfirst, (of_mem_hexEncode hfirst).2⟩

theorem sendable_sha256Hex {sha256Raw : Bytes → Bytes} (h : ∀ x, (sha256Raw x).length = 32)
    (payload : Bytes) : Sendable (S3v4.sha256Hex sha256Raw payload) := by
  refine sendable_hexEncode fun hnil ↦ ?_
  have hlength := h payload
  rw [hnil] at hlength
  cases hlength

theorem sendable_range (first last : ℕ) :
    Sendable (utf8 "bytes=" ++ decimal first ++ utf8 "-" ++ decimal last) := by
  have hdecimal : ∀ n, 0 ∉ decimal n := fun n h ↦ absurd (mem_decimal h) (by decide)
  refine ⟨?_, 98, ?_, by decide⟩
  · simp only [List.mem_append, hdecimal, or_false]
    decide
  · rw [List.append_assoc, List.append_assoc]
    exact List.mem_append_left _ (by decide)

/-! ## Line breaks -/

theorem oneLine_decimal (n : ℕ) : OneLine (decimal n) :=
  ⟨fun h ↦ absurd (mem_decimal h) (by decide), fun h ↦ absurd (mem_decimal h) (by decide)⟩

theorem oneLine_hexEncode (data : Bytes) : OneLine (S3v4.hexEncode data) :=
  ⟨fun h ↦ absurd (of_mem_hexEncode h).2 (by decide),
    fun h ↦ absurd (of_mem_hexEncode h).2 (by decide)⟩

/-- The names under which the reader signs headers. -/
def signedNames : List Bytes :=
  [utf8 "host", utf8 "x-amz-content-sha256", utf8 "x-amz-date", utf8 "range",
    utf8 "x-amz-security-token"]

theorem oneLine_signedHeaders {headers : List S3v4.Header}
    (h : headers.map S3v4.Header.name ⊆ signedNames) :
    OneLine (S3v4.signedHeaders (S3v4.sortHeaders headers)) := by
  have hnames : ∀ name ∈ (S3v4.sortHeaders headers).map S3v4.Header.name, OneLine name := by
    have hall : ∀ name ∈ signedNames, OneLine name := by decide
    exact fun name hname ↦ hall name (h (((S3v4.sortHeaders_perm headers).map _).subset hname))
  exact ⟨@notMem_intercalate 59 13 _ (fun name hname ↦ (hnames name hname).1) (by decide),
    @notMem_intercalate 59 10 _ (fun name hname ↦ (hnames name hname).2) (by decide)⟩

/-- The line of the signature is one line, with a region that has no line breaks. -/
theorem oneLine_authorizationLine {signed : S3v4.CanonicalRequest} {sha256Raw : Bytes → Bytes}
    {cred : Credentials} {region amzDate : Bytes} (hcred : cred.OneLine) (hregion : OneLine region)
    (hdate : OneLine amzDate) (hnames : signed.headers.map S3v4.Header.name ⊆ signedNames) :
    OneLine (signed.authorizationLine sha256Raw cred region amzDate) := by
  have hday : OneLine (amzDate.take 8) := hdate.of_subset (List.take_subset _ _)
  simp only [S3v4.CanonicalRequest.authorizationLine, S3v4.buildAuthorization, oneLine_append,
    hcred.accessKey, hregion, hday, oneLine_signedHeaders hnames, oneLine_hexEncode, and_true,
    true_and]
  decide

/-! ## What the reader relies on -/

/-- Dates are written `YYYYMMDDTHHMMSSZ`, and SHA-256 has 32 bytes. -/
structure SigningTools (sha256Raw : Bytes → Bytes) (amzNow : ℕ → Bytes) : Prop where
  date : ∀ m, amzNow m ≠ [] ∧ ∀ c ∈ amzNow m, isAlnum c = true
  digest : ∀ x, (sha256Raw x).length = 32

variable {sha256Raw : Bytes → Bytes} {amzNow : ℕ → Bytes}

theorem SigningTools.sendable_date (h : SigningTools sha256Raw amzNow) (m : ℕ) :
    Sendable (amzNow m) := by
  obtain ⟨hne, halnum⟩ := h.date m
  refine ⟨fun h0 ↦ absurd (halnum 0 h0) (by decide), ?_⟩
  obtain ⟨c, rest, hc⟩ := List.exists_cons_of_ne_nil hne
  have hmem : c ∈ amzNow m := hc ▸ List.mem_cons_self
  have hspace : ∀ n < 256, isAlnum (UInt8.ofNat n) = true → isSpace (UInt8.ofNat n) = false := by
    decide +kernel
  have halnum := halnum c hmem
  rw [← c.ofNat_toNat] at halnum
  exact ⟨c, hmem, c.ofNat_toNat ▸ hspace c.toNat c.toNat_lt halnum⟩

theorem SigningTools.oneLine_date (h : SigningTools sha256Raw amzNow) (m : ℕ) :
    OneLine (amzNow m) :=
  ⟨fun hmem ↦ absurd ((h.date m).2 13 hmem) (by decide),
    fun hmem ↦ absurd ((h.date m).2 10 hmem) (by decide)⟩

end Nanos3Reader
