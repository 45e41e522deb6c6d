import Nanos3Reader.Client
import Nanos3Reader.Lib.Uri
import Nanos3Reader.Stream.Refinement

/-!
# What a request addresses

`build_endpoint` puts a URL together by concatenation. A receiver takes it apart again by the rules
of RFC 3986, and the question is whether it finds the host and the path that were signed.
-/

open ByteText

namespace Nanos3Reader

/-! ## Percent-encoding -/

theorem hexValue_upperHexDigit {d : UInt8} (hd : d < 16) :
    Uri.hexValue (upperHexDigit d) = some d := by
  have hall : ∀ n < 16, Uri.hexValue (upperHexDigit (.ofNat n)) = some (.ofNat n) := by decide
  simpa using hall d.toNat (UInt8.lt_iff_toNat_lt.mp hd)

theorem sixteen_mul_add (c : UInt8) : 16 * (c >>> (4 : UInt8)) + (c &&& 0x0F) = c := by
  have hall : ∀ n < 256, 16 * (UInt8.ofNat n >>> (4 : UInt8)) + (UInt8.ofNat n &&& 0x0F)
      = UInt8.ofNat n := by decide +kernel
  simpa using hall c.toNat c.toNat_lt

theorem nibbles_lt (c : UInt8) : c >>> (4 : UInt8) < 16 ∧ c &&& 0x0F < 16 := by
  have hall : ∀ n < 256, UInt8.ofNat n >>> (4 : UInt8) < 16 ∧ UInt8.ofNat n &&& 0x0F < 16 := by
    decide +kernel
  simpa using hall c.toNat c.toNat_lt

theorem isAlnum_upperHexDigit {d : UInt8} (hd : d < 16) : isAlnum (upperHexDigit d) = true := by
  have hall : ∀ n < 16, isAlnum (upperHexDigit (.ofNat n)) = true := by decide
  simpa using hall d.toNat (UInt8.lt_iff_toNat_lt.mp hd)

theorem percentEncode_cons (keep : UInt8 → Bool) (c : UInt8) (s : Bytes) :
    percentEncode keep (c :: s) = (if keep c then [c] else
      [37, upperHexDigit (c >>> (4 : UInt8)), upperHexDigit (c &&& 0x0F)]) ++
        percentEncode keep s := rfl

theorem percentDecode_percentEncode {keep : UInt8 → Bool} (hkeep : keep 37 = false) (s : Bytes) :
    Uri.percentDecode (percentEncode keep s) = some s := by
  induction s with
  | nil => rfl
  | cons c s ih =>
    rw [percentEncode_cons]
    split
    · next hc =>
      have hne : c ≠ 37 := by
        rintro rfl
        exact absurd (hkeep ▸ hc) (by decide)
      rw [List.singleton_append, Uri.percentDecode_cons hne, ih, Option.map_some]
    · obtain ⟨hhi, hlo⟩ := nibbles_lt c
      rw [List.cons_append, List.cons_append, List.singleton_append,
        Uri.percentDecode_encoded (hexValue_upperHexDigit hhi) (hexValue_upperHexDigit hlo), ih,
        Option.map_some, sixteen_mul_add]

theorem mem_percentEncode {keep : UInt8 → Bool} {s : Bytes} {x : UInt8}
    (h : x ∈ percentEncode keep s) : keep x = true ∧ x ∈ s ∨ x = 37 ∨ isAlnum x = true := by
  rw [percentEncode, List.mem_flatMap] at h
  obtain ⟨c, hc, hx⟩ := h
  obtain ⟨hhi, hlo⟩ := nibbles_lt c
  split at hx
  · next hkept =>
    obtain rfl := List.mem_singleton.mp hx
    exact .inl ⟨hkept, hc⟩
  · simp only [List.mem_cons, List.not_mem_nil, or_false] at hx
    rcases hx with rfl | rfl | rfl
    · exact .inr (.inl rfl)
    · exact .inr (.inr (isAlnum_upperHexDigit hhi))
    · exact .inr (.inr (isAlnum_upperHexDigit hlo))

theorem percentDecode_uriEncodePath (s : Bytes) :
    Uri.percentDecode (uriEncodePath s) = some s :=
  percentDecode_percentEncode (by decide) s

theorem uriEncodePath_injective : Function.Injective uriEncodePath := by
  intro s t h
  rw [← Option.some_inj, ← percentDecode_uriEncodePath, h, percentDecode_uriEncodePath]

theorem uriEncodePath_append (s t : Bytes) :
    uriEncodePath (s ++ t) = uriEncodePath s ++ uriEncodePath t := List.flatMap_append

theorem clean_uriEncodePath {s : Bytes} {x : UInt8} (h : x ∈ uriEncodePath s) :
    x ≠ 0 ∧ x ≠ 63 ∧ x ≠ 35 := by
  rcases mem_percentEncode h with ⟨hx, -⟩ | rfl | hx
  · refine ⟨?_, ?_, ?_⟩ <;> rintro rfl <;> exact absurd hx (by decide)
  · decide
  · refine ⟨?_, ?_, ?_⟩ <;> rintro rfl <;> exact absurd hx (by decide)

/-! ## The authority -/

/-- `split_s3_uri` or `S3MinStreamFactory::open` takes `uri` to name this object. -/
def Names (uri bucket key : Bytes) : Prop :=
  (∃ needKey, splitS3Uri uri needKey = .ok (bucket, key)) ∨
    ∃ env cfg w readAhead b, (openStream env cfg w uri readAhead).1 = some b ∧
      b.bucket = bucket ∧ b.key = key

/-- Text that a URL's authority may have for its host and port. -/
def IsHostPort (s : Bytes) : Prop := ∀ c ∈ s, c ≠ 0 ∧ c ≠ 47 ∧ c ≠ 63 ∧ c ≠ 35 ∧ c ≠ 64

/-- An endpoint of the form `http(s)://host[:port]`, with any slashes behind. -/
def IsOrigin (endpoint : Bytes) : Prop :=
  ∃ scheme host n, (scheme = utf8 "http://" ∨ scheme = utf8 "https://") ∧ IsHostPort host ∧
    endpoint = scheme ++ host ++ List.replicate n 47

/-- The URL, as it is and as libcurl reads it, addresses the signed path at the signed host. -/
def Endpoint.Addressed (e : Endpoint) : Prop :=
  Uri.Addresses e.url e.host e.path ∧ Uri.Addresses (cStr e.url) e.host e.path

theorem slash_notMem_of_names {uri bucket key : Bytes} (h : Names uri bucket key) :
    47 ∉ bucket := by
  rcases h with ⟨needKey, h⟩ | ⟨env, cfg, w, readAhead, b, h, rfl, rfl⟩
  · exact (of_splitS3Uri h).2
  · exact (opens_of_openStream (Prod.ext h rfl)).slash

/-- Behind a scheme, a path that begins with a slash is addressed at exactly the hosts that are
text for one. -/
theorem addressed_iff {scheme host : Bytes} (path : Bytes)
    (hscheme : scheme = utf8 "http" ∨ scheme = utf8 "https") :
    Endpoint.Addressed ⟨host, scheme ++ utf8 "://" ++ host ++ uriEncodePath (utf8 "/" ++ path),
      uriEncodePath (utf8 "/" ++ path)⟩ ↔ IsHostPort host := by
  have hclean : (∀ x ∈ scheme, x ≠ 58 ∧ x ≠ 47 ∧ x ≠ 63 ∧ x ≠ 35) ∧ scheme ≠ [] ∧ 0 ∉ scheme := by
    rcases hscheme with rfl | rfl <;> decide +kernel
  constructor
  · rintro ⟨h, hc⟩ x hx
    -- text that libcurl reads has no NUL, so neither has a host found in it
    obtain ⟨hmem, -⟩ := hc.clean hx
    have hne : x ≠ 0 := by simpa using List.mem_takeWhile_imp hmem
    exact ⟨hne, (h.clean hx).2⟩
  · intro hhost
    have haddr := Uri.addresses_of_clean (uriEncodePath path) hclean.2.1 hclean.1
      (fun x hx ↦ (hhost x hx).2) fun x hx ↦ (clean_uriEncodePath hx).2
    have hpath : uriEncodePath (utf8 "/" ++ path) = 47 :: uriEncodePath path := by
      rw [uriEncodePath_append, show uriEncodePath (utf8 "/") = [47] by decide]
      rfl
    have hnul : 0 ∉ scheme ++ utf8 "://" ++ host ++ uriEncodePath (utf8 "/" ++ path) := by
      simp only [List.mem_append, not_or]
      exact ⟨⟨⟨hclean.2.2, by decide⟩, fun h ↦ (hhost 0 h).1 rfl⟩,
        fun h ↦ (clean_uriEncodePath h).1 rfl⟩
    refine ⟨?_, (cStr_eq_self hnul).symm ▸ ?_⟩ <;> rwa [hpath]

/-- Of an endpoint of the expected form `build_endpoint` takes the scheme and the host. -/
theorem splitScheme_of_isOrigin {endpoint : Bytes} (h : IsOrigin endpoint) :
    ∃ scheme host, (scheme = utf8 "http" ∨ scheme = utf8 "https") ∧ IsHostPort host ∧
      splitScheme endpoint = (scheme ++ utf8 "://", host) := by
  obtain ⟨scheme, host, n, hscheme, hhost, rfl⟩ := h
  have hstrip : (host ++ List.replicate n 47).rdropWhile (· = 47) = host := by
    have hlast : host.reverse.dropWhile (· = 47) = host.reverse := by
      rw [List.dropWhile_eq_self_iff]
      intro hpos
      simpa using (hhost _ (List.mem_reverse.mp (List.getElem_mem hpos))).2.1
    rw [List.rdropWhile, List.reverse_append, List.reverse_replicate,
      List.dropWhile_append_of_pos (by simp), hlast, List.reverse_reverse]
  rcases hscheme with rfl | rfl
  · refine ⟨utf8 "http", host, .inl rfl, hhost, ?_⟩
    have hdrop : (utf8 "http://" ++ (host ++ List.replicate n 47)).drop 7
        = host ++ List.replicate n 47 := List.drop_left' (by decide)
    rw [splitScheme, List.append_assoc, if_pos (by simp)]
    dsimp only
    rw [hdrop, hstrip]
    rfl
  · refine ⟨utf8 "https", host, .inr rfl, hhost, ?_⟩
    have hdrop : (utf8 "https://" ++ (host ++ List.replicate n 47)).drop 8
        = host ++ List.replicate n 47 := List.drop_left' (by decide)
    have hhttp : (utf8 "http://").isPrefixOf (utf8 "https://" ++ (host ++ List.replicate n 47))
        = false := rfl
    rw [splitScheme, List.append_assoc, if_neg (by simp [hhttp]), if_pos (by simp)]
    dsimp only
    rw [hdrop, hstrip]
    rfl

theorem isHostPort_virtualHost {bucket region : Bytes} (hslash : 47 ∉ bucket)
    (hregion : ∀ c ∈ region, isAlnum c = true ∨ c = 45) :
    IsHostPort (bucket ++ utf8 ".s3." ++ region ++ utf8 ".amazonaws.com") ↔
      ∀ c ∈ bucket, c ≠ 0 ∧ c ≠ 63 ∧ c ≠ 35 ∧ c ≠ 64 := by
  constructor
  · intro h c hc
    obtain ⟨hnul, -, hrest⟩ := h c (by simp [hc])
    exact ⟨hnul, hrest⟩
  · intro h c hc
    simp only [List.mem_append] at hc
    rcases hc with ((hc | hc) | hc) | hc
    · exact ⟨(h c hc).1, ne_of_mem_of_not_mem hc hslash, (h c hc).2⟩
    · revert c
      decide +kernel
    · rcases hregion c hc with hc | rfl
      · refine ⟨?_, ?_, ?_, ?_, ?_⟩ <;> rintro rfl <;> exact absurd hc (by decide)
      · decide
    · revert c
      decide +kernel

/-- A request goes to the host that was signed exactly where the bucket, if it is part of the host,
has no byte that ends one. -/
theorem buildEndpoint_addressed_iff {cfg : Config} {uri bucket key region : Bytes}
    (hnames : Names uri bucket key) (hregion : ∀ c ∈ region, isAlnum c = true ∨ c = 45)
    (hendpoint : cfg.pathStyle = true → IsOrigin cfg.endpoint) :
    (buildEndpoint cfg bucket key region).Addressed ↔
      cfg.pathStyle = true ∨ ∀ c ∈ bucket, c ≠ 0 ∧ c ≠ 63 ∧ c ≠ 35 ∧ c ≠ 64 := by
  rw [buildEndpoint]
  cases hstyle : cfg.pathStyle with
  | true =>
    obtain ⟨scheme, host, hscheme, hhost, hsplit⟩ := splitScheme_of_isOrigin (hendpoint hstyle)
    rw [hsplit]
    simp only [reduceIte, true_or, iff_true, List.append_assoc (utf8 "/")]
    exact (addressed_iff _ hscheme).mpr hhost
  | false =>
    simp only [Bool.false_eq_true, false_or, if_false]
    rw [← isHostPort_virtualHost (slash_notMem_of_names hnames) hregion]
    exact addressed_iff key (.inr rfl)

theorem addressed_usEast :
    (buildEndpoint ClientImpl.usEast.cfg (utf8 "b") (utf8 "k") (utf8 "us-east-1")).Addressed :=
  have hnames : Names (utf8 "s3://b/k") (utf8 "b") (utf8 "k") := .inl ⟨true, by decide⟩
  (buildEndpoint_addressed_iff hnames (by decide +kernel) fun h ↦ absurd h (by decide)).mpr
    (.inr (by decide +kernel))

/-- A bucket with a `#` in it, of which only what stands in front is the host. -/
theorem not_addressed_fragment :
    Names (utf8 "s3://evil.com#/key") (utf8 "evil.com#") (utf8 "key") ∧
      ClientImpl.usEast.cfg.pathStyle = false ∧
      (Uri.parse (buildEndpoint ClientImpl.usEast.cfg (utf8 "evil.com#") (utf8 "key")
        (utf8 "us-east-1")).url).authority = some (utf8 "evil.com") ∧
      ¬(buildEndpoint ClientImpl.usEast.cfg (utf8 "evil.com#") (utf8 "key")
        (utf8 "us-east-1")).Addressed := by
  have hauthority : (Uri.parse (buildEndpoint ClientImpl.usEast.cfg (utf8 "evil.com#")
      (utf8 "key") (utf8 "us-east-1")).url).authority = some (utf8 "evil.com") := by
    decide +kernel
  refine ⟨.inl ⟨true, by decide⟩, by decide, hauthority, ?_⟩
  rintro ⟨h, -⟩
  rw [h.authority] at hauthority
  exact absurd hauthority (by decide +kernel)

/-! ## The path -/

/-- The path that an object's URL is to name. -/
def namedPath (cfg : Config) (bucket key : Bytes) : Bytes :=
  if cfg.pathStyle then utf8 "/" ++ bucket ++ utf8 "/" ++ key else utf8 "/" ++ key

theorem path_buildEndpoint (cfg : Config) (bucket key region : Bytes) :
    (buildEndpoint cfg bucket key region).path = uriEncodePath (namedPath cfg bucket key) := by
  rw [buildEndpoint, namedPath]
  split <;> rfl

theorem namedPath_injective (cfg : Config) (bucket : Bytes) :
    Function.Injective (namedPath cfg bucket) := by
  intro key key' h
  rw [namedPath, namedPath] at h
  split at h <;> exact List.append_cancel_left h

theorem uriEncodePath_absolute (segs : List Bytes) :
    uriEncodePath (Uri.absolute segs) = Uri.absolute (segs.map uriEncodePath) := by
  induction segs with
  | nil => rfl
  | cons seg segs ih =>
    have hslash : ∀ s, uriEncodePath (47 :: s) = 47 :: uriEncodePath s := fun _ ↦ rfl
    rw [Uri.absolute_cons, uriEncodePath_append, ih, hslash, List.map_cons, Uri.absolute_cons]

theorem isDots_uriEncodePath {seg : Bytes} : Uri.IsDots (uriEncodePath seg) ↔ Uri.IsDots seg := by
  have hone : uriEncodePath [46] = [46] := by decide
  have htwo : uriEncodePath [46, 46] = [46, 46] := by decide
  have key : ∀ dots, uriEncodePath dots = dots → (uriEncodePath seg = dots ↔ seg = dots) := by
    intro dots h
    conv_lhs => rw [← h]
    exact uriEncodePath_injective.eq_iff
  exact or_congr (key _ hone) (key _ htwo)

theorem slash_of_uriEncodePath {s : Bytes} (h : 47 ∈ uriEncodePath s) : 47 ∈ s := by
  rcases mem_percentEncode h with ⟨-, h⟩ | h | h
  · exact h
  · exact absurd h (by decide)
  · exact absurd h (by decide)

theorem removeDotSegments_uriEncodePath (s : Bytes) :
    Uri.removeDotSegments (uriEncodePath (47 :: s)) = uriEncodePath (47 :: s) ↔
      ∀ seg ∈ s.splitOn 47, ¬Uri.IsDots seg := by
  have hsegs : ∀ seg ∈ (s.splitOn 47).map uriEncodePath, 47 ∉ seg := by
    intro seg hseg
    obtain ⟨seg, hmem, rfl⟩ := List.mem_map.mp hseg
    exact fun h ↦ notMem_of_mem_splitOn hmem (slash_of_uriEncodePath h)
  have hiff := Uri.removeDots_absolute_iff hsegs []
  rw [← uriEncodePath_absolute, Uri.absolute_splitOn, List.nil_append] at hiff
  rw [Uri.removeDotSegments, hiff]
  simp [isDots_uriEncodePath]

/-- The signed path stands for the object's path, for that of no other object, and libcurl leaves
it alone. -/
structure PathNames (cfg : Config) (bucket key region : Bytes) : Prop where
  decodes : Uri.percentDecode (buildEndpoint cfg bucket key region).path
    = some (namedPath cfg bucket key)
  unique : ∀ key', (buildEndpoint cfg bucket key' region).path
    = (buildEndpoint cfg bucket key region).path → key' = key
  fixed : Uri.removeDotSegments (buildEndpoint cfg bucket key region).path
    = (buildEndpoint cfg bucket key region).path

/-- The transport sends the path that was signed exactly where no segment of it is one of dots. What
the path stands for is never in doubt. -/
theorem pathNames_iff (cfg : Config) (bucket key region : Bytes) :
    PathNames cfg bucket key region ↔
      ∀ seg ∈ (namedPath cfg bucket key).splitOn 47, ¬Uri.IsDots seg := by
  obtain ⟨rest, hrest⟩ : ∃ rest, namedPath cfg bucket key = 47 :: rest := by
    rw [namedPath]
    split <;> exact ⟨_, rfl⟩
  have hsplit : (47 :: rest).splitOn 47 = [] :: rest.splitOn 47 := by
    rw [List.splitOn_cons_eq_if_modifyHead, if_pos (by simp)]
  have hfixed := removeDotSegments_uriEncodePath rest
  rw [← hrest, ← path_buildEndpoint cfg bucket key region] at hfixed
  rw [hrest, hsplit, List.forall_mem_cons]
  constructor
  · intro h
    exact ⟨by decide, hfixed.mp h.fixed⟩
  · rintro ⟨-, h⟩
    refine ⟨?_, ?_, hfixed.mpr h⟩
    · rw [path_buildEndpoint, percentDecode_uriEncodePath]
    · intro key' hpath
      rw [path_buildEndpoint, path_buildEndpoint] at hpath
      exact namedPath_injective cfg bucket (uriEncodePath_injective hpath)

/-- `a/../b`, which is sent as `b`. -/
theorem not_pathNames_dots :
    utf8 "a/../b" ≠ [] ∧
      (buildEndpoint ClientImpl.usEast.cfg (utf8 "b") (utf8 "a/../b") (utf8 "us-east-1")).path
        = utf8 "/a/../b" ∧
      Uri.removeDotSegments (utf8 "/a/../b") = utf8 "/b" ∧
      ¬PathNames ClientImpl.usEast.cfg (utf8 "b") (utf8 "a/../b") (utf8 "us-east-1") := by
  have hpath : (buildEndpoint ClientImpl.usEast.cfg (utf8 "b") (utf8 "a/../b")
      (utf8 "us-east-1")).path = utf8 "/a/../b" := by decide
  have hsent : Uri.removeDotSegments (utf8 "/a/../b") = utf8 "/b" := by
    calc Uri.removeDots [] (utf8 "/a/../b")
        = Uri.removeDots (utf8 "/a") (utf8 "/../b") := Uri.removeDots_step (by decide) (by decide)
      _ = Uri.removeDots [] (utf8 "/b") := Uri.removeDots_step (by decide) (by decide)
      _ = Uri.removeDots (utf8 "/b") [] := Uri.removeDots_step (by decide) (by decide)
      _ = utf8 "/b" := by rw [Uri.removeDots, dif_pos rfl]
  refine ⟨by decide, hpath, hsent, fun h ↦ ?_⟩
  have hfixed := h.fixed
  rw [hpath, hsent] at hfixed
  exact absurd hfixed (by decide)

end Nanos3Reader
