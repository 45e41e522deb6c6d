import Nanos3Reader.Client
import Nanos3Reader.Stream

/-!
# URIs of objects

`S3MinStreamFactory::open` and `split_s3_uri` each take a URI apart on their own. They look at the
first slash behind the scheme in different ways, and come to the same result: a stream and a client
given one URI mean one object.
-/

open ByteText

namespace Nanos3Reader

/-- The checks of `open` on its URI: the bucket and the key, or the error text. -/
def openUri (uri : Bytes) : Except Bytes (Bytes × Bytes) :=
  if ¬(utf8 "s3://").isPrefixOf uri then .error (utf8 "not an s3:// URI")
  else
    let rest := uri.drop 5
    match rest.findIdx? (· == 47) with
    | none => .error (utf8 "malformed s3:// URI (expected s3://bucket/key)")
    | some slash =>
      if slash = 0 ∨ rest.length ≤ slash + 1 then
        .error (utf8 "malformed s3:// URI (expected s3://bucket/key)")
      else .ok (rest.take slash, rest.drop (slash + 1))

/-- What `open` does for an object, behind the checks. -/
def openObject (env : Outside) (cfg : Config) (w : World) (uri bucket key : Bytes) (readAhead : ℕ) :
    Option S3Streambuf × World :=
  let (cred, w) := { w with lastError := [] }.getCredentials env
  if cred.valid = false then
    (none, { w with
      lastError := utf8 "missing AWS credentials — " ++ w.provider.diagnostic })
  else
    let b := S3Streambuf.create cfg uri bucket key readAhead (env.curlInit w.moment)
    let w := { w with moment := w.moment + 1 }
    if b.curl = false then
      (none, { w with lastError := utf8 "failed to initialize libcurl handle" })
    else (some b, w)

theorem cut_singleton_eq_map (c : UInt8) (s : Bytes) :
    cut [c] s = (s.findIdx? (· == c)).map fun i ↦ (s.take i, s.drop (i + 1)) := by
  have hnone : ∀ t : Bytes, c ∉ t → t.findIdx? (· == c) = none := by
    intro t ht
    rw [List.findIdx?_eq_none_iff]
    intro x hx
    exact beq_false_of_ne (ne_of_mem_of_not_mem hx ht)
  by_cases h : c ∈ s
  · obtain ⟨a, b, rfl, ha⟩ := List.eq_append_cons_of_mem h
    rw [cut_singleton_append ha, List.findIdx?_append, hnone a ha, List.findIdx?_cons]
    simp
  · rw [hnone s h, Option.map_none, cut_eq_none_iff]
    exact fun hwithin ↦ h (hwithin.subset List.mem_cons_self)

/-- A part of the text up to an index, or behind the byte there, is empty at the ends only. -/
theorem take_eq_nil_or_drop_eq_nil {s : Bytes} {i : ℕ} (hi : i < s.length) :
    (s.take i = [] ∨ s.drop (i + 1) = []) ↔ i = 0 ∨ s.length ≤ i + 1 := by
  rw [List.take_eq_nil_iff, List.drop_eq_nil_iff]
  constructor
  · rintro ((h | h) | h)
    · exact .inl h
    · rw [h] at hi
      cases hi
    · exact .inr h
  · exact Or.imp .inl id

theorem openUri_eq_cut (uri : Bytes) : openUri uri =
    if ¬(utf8 "s3://").isPrefixOf uri then .error (utf8 "not an s3:// URI")
    else match cut [47] (uri.drop 5) with
      | none => .error (utf8 "malformed s3:// URI (expected s3://bucket/key)")
      | some (bucket, key) =>
        if bucket = [] ∨ key = [] then
          .error (utf8 "malformed s3:// URI (expected s3://bucket/key)")
        else .ok (bucket, key) := by
  rw [openUri, cut_singleton_eq_map]
  split
  · rfl
  · dsimp only
    rcases hidx : (uri.drop 5).findIdx? (· == 47) with _ | slash
    · rfl
    · have hlt := (List.findIdx?_eq_some_iff_getElem.mp hidx).1
      rw [Option.map_some]
      dsimp only
      exact if_congr (take_eq_nil_or_drop_eq_nil hlt).symm rfl rfl

/-- `open` checks its URI first, and does nothing else if it is wrong. -/
theorem openStream_eq (env : Outside) (cfg : Config) (w : World) (uri : Bytes) (readAhead : ℕ) :
    openStream env cfg w uri readAhead = match openUri uri with
      | .error e => (none, { w with lastError := e })
      | .ok (bucket, key) => openObject env cfg w uri bucket key readAhead := by
  rw [openStream, openUri_eq_cut]
  split
  · rfl
  · rcases cut [47] (uri.drop 5) with _ | ⟨bucket, key⟩
    · rfl
    · dsimp only
      split <;> rfl

theorem isPrefixOf_iff_exists {uri : Bytes} :
    (utf8 "s3://").isPrefixOf uri = true ↔ ∃ rest, uri = utf8 "s3://" ++ rest := by
  rw [List.isPrefixOf_iff_prefix]
  exact ⟨fun ⟨rest, h⟩ ↦ ⟨rest, h.symm⟩, fun ⟨rest, h⟩ ↦ ⟨rest, h.symm⟩⟩

theorem uri_eq (bucket key : Bytes) :
    utf8 "s3://" ++ bucket ++ utf8 "/" ++ key = utf8 "s3://" ++ (bucket ++ 47 :: key) := by
  rw [List.append_assoc, List.append_assoc, show utf8 "/" = [47] from by decide,
    List.singleton_append]

/-- **What `open` accepts.** -/
theorem openUri_eq_ok_iff {uri bucket key : Bytes} : openUri uri = .ok (bucket, key) ↔
    uri = utf8 "s3://" ++ bucket ++ utf8 "/" ++ key ∧ bucket ≠ [] ∧ 47 ∉ bucket ∧ key ≠ [] := by
  rw [uri_eq, openUri_eq_cut]
  constructor
  · intro h
    split at h
    · cases h
    · next hscheme =>
      obtain ⟨rest, rfl⟩ := isPrefixOf_iff_exists.mp (not_not.mp hscheme)
      rw [List.drop_left' (by decide)] at h
      split at h
      · cases h
      · next bucket' key' hcut =>
        split at h
        · cases h
        · next hne =>
          cases h
          have hslash := notMem_cut_getD 47 rest
          rw [hcut, Option.getD_some] at hslash
          refine ⟨?_, fun hnil ↦ hne (.inl hnil), hslash, fun hnil ↦ hne (.inr hnil)⟩
          rw [cut_eq_some hcut, List.append_assoc, List.singleton_append]
  · rintro ⟨rfl, hbucket, hslash, hkey⟩
    rw [if_neg (not_not.mpr (isPrefixOf_iff_exists.mpr ⟨_, rfl⟩)), List.drop_left' (by decide),
      cut_singleton_append hslash]
    exact if_neg (by simp [hbucket, hkey])

/-- **What `split_s3_uri` accepts.** Without a key there may be a slash, or none. -/
theorem splitS3Uri_eq_ok_iff {uri bucket key : Bytes} {needKey : Bool} :
    splitS3Uri uri needKey = .ok (bucket, key) ↔
      bucket ≠ [] ∧ 47 ∉ bucket ∧ (needKey = true → key ≠ []) ∧
        (uri = utf8 "s3://" ++ bucket ++ utf8 "/" ++ key ∨
          key = [] ∧ uri = utf8 "s3://" ++ bucket) := by
  rw [uri_eq]
  constructor
  · intro h
    obtain ⟨hbucket, hslash⟩ := of_splitS3Uri h
    rw [splitS3Uri] at h
    split at h
    · cases h
    · next hscheme =>
      obtain ⟨rest, rfl⟩ := isPrefixOf_iff_exists.mp (not_not.mp hscheme)
      rw [List.drop_left' (by decide)] at h
      dsimp only at h
      split at h
      · cases h
      · next hne =>
        have hparts : (cut [47] rest).getD (rest, []) = (bucket, key) := Except.ok.inj h
        rw [hparts] at hne
        refine ⟨hbucket, hslash, fun hneed hnil ↦ hne (.inr ⟨hneed, hnil⟩), ?_⟩
        rcases hcut : cut [47] rest with _ | q
        · rw [hcut] at hparts
          cases hparts
          exact .inr ⟨rfl, rfl⟩
        · rw [hcut] at hparts
          obtain rfl : q = (bucket, key) := hparts
          refine .inl ?_
          rw [cut_eq_some hcut, List.append_assoc, List.singleton_append]
  · rintro ⟨hbucket, hslash, hneed, rfl | ⟨rfl, rfl⟩⟩
    · rw [splitS3Uri, if_neg (not_not.mpr (isPrefixOf_iff_exists.mpr ⟨_, rfl⟩)),
        List.drop_left' (by decide)]
      dsimp only
      rw [cut_singleton_append hslash]
      exact if_neg (by simpa [hbucket] using hneed)
    · have hcut : cut [47] bucket = none := cut_eq_none_iff.mpr fun hwithin ↦
        hslash (hwithin.subset List.mem_cons_self)
      rw [splitS3Uri, if_neg (not_not.mpr (isPrefixOf_iff_exists.mpr ⟨_, rfl⟩)),
        List.drop_left' (by decide)]
      dsimp only
      rw [hcut]
      exact if_neg (by simpa [hbucket] using hneed)

theorem openUri_iff_splitS3Uri {uri bucket key : Bytes} :
    openUri uri = .ok (bucket, key) ↔ splitS3Uri uri true = .ok (bucket, key) := by
  rw [openUri_eq_ok_iff, splitS3Uri_eq_ok_iff]
  constructor
  · rintro ⟨huri, hbucket, hslash, hkey⟩
    exact ⟨hbucket, hslash, fun _ ↦ hkey, .inl huri⟩
  · rintro ⟨hbucket, hslash, hneed, huri | ⟨hnil, -⟩⟩
    · exact ⟨huri, hbucket, hslash, hneed rfl⟩
    · exact absurd hnil (hneed rfl)

theorem openUri_error_ne_nil {uri e : Bytes} (h : openUri uri = .error e) : e ≠ [] := by
  rw [openUri_eq_cut] at h
  split at h
  · cases h
    decide
  · split at h
    · cases h
      decide
    · split at h
      · cases h
        decide
      · cases h

/-- **The two agree.** Whatever the URI, `open` goes on behind its checks just when `split_s3_uri`
finds a bucket and a key, and then for these, which make up the URI; otherwise it reports an error
and does nothing. Without the need for a key `split_s3_uri` also accepts a bucket alone, with or
without a slash behind it. -/
theorem objectUris_agree (uri : Bytes) :
    (∃ e ≠ [], ∀ env cfg w readAhead, openStream env cfg w uri readAhead =
      match splitS3Uri uri true with
      | .error _ => (none, { w with lastError := e })
      | .ok (bucket, key) => openObject env cfg w uri bucket key readAhead) ∧
    (∀ bucket key, openUri uri = .ok (bucket, key) ↔ splitS3Uri uri true = .ok (bucket, key)) ∧
    (∀ bucket key, splitS3Uri uri true = .ok (bucket, key) ↔
      uri = utf8 "s3://" ++ bucket ++ utf8 "/" ++ key ∧ bucket ≠ [] ∧ 47 ∉ bucket ∧ key ≠ []) ∧
    ∀ bucket key, splitS3Uri uri false = .ok (bucket, key) ↔
      splitS3Uri uri true = .ok (bucket, key) ∨
      key = [] ∧ bucket ≠ [] ∧ 47 ∉ bucket ∧
        (uri = utf8 "s3://" ++ bucket ∨ uri = utf8 "s3://" ++ bucket ++ utf8 "/") := by
  refine ⟨?_, fun _ _ ↦ openUri_iff_splitS3Uri, fun _ _ ↦ ?_, fun bucket key ↦ ?_⟩
  · rcases hopen : openUri uri with e | ⟨bucket, key⟩
    · refine ⟨e, openUri_error_ne_nil hopen, fun env cfg w readAhead ↦ ?_⟩
      rw [openStream_eq, hopen]
      rcases hsplit : splitS3Uri uri true with e' | ⟨bucket, key⟩
      · rfl
      · rw [openUri_iff_splitS3Uri.mpr hsplit] at hopen
        cases hopen
    · refine ⟨[0], by decide, fun env cfg w readAhead ↦ ?_⟩
      rw [openStream_eq, hopen, openUri_iff_splitS3Uri.mp hopen]
  · rw [← openUri_iff_splitS3Uri, openUri_eq_ok_iff]
  · rw [← openUri_iff_splitS3Uri, openUri_eq_ok_iff, splitS3Uri_eq_ok_iff]
    constructor
    · rintro ⟨hbucket, hslash, -, huri | ⟨hnil, huri⟩⟩
      · by_cases hkey : key = []
        · rw [hkey, List.append_nil] at huri
          exact .inr ⟨hkey, hbucket, hslash, .inr huri⟩
        · exact .inl ⟨huri, hbucket, hslash, hkey⟩
      · exact .inr ⟨hnil, hbucket, hslash, .inl huri⟩
    · rintro (⟨huri, hbucket, hslash, -⟩ | ⟨rfl, hbucket, hslash, huri | huri⟩)
      · exact ⟨hbucket, hslash, nofun, .inl huri⟩
      · exact ⟨hbucket, hslash, nofun, .inr ⟨rfl, huri⟩⟩
      · exact ⟨hbucket, hslash, nofun, .inl (by rw [huri, List.append_nil])⟩

end Nanos3Reader
