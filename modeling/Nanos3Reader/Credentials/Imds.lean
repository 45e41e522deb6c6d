import Nanos3Reader.Signing

/-!
# The instance metadata exchange

`load_imds` asks for a token with a PUT, and then twice with a GET. It does not look at whether the
PUT succeeded: whatever body came back is put into the header line of a token. The service refuses
with a body too, so that a refusal is not followed by requests without a token.

What the service gets of that line is another matter. It ends at the first NUL, libcurl sends none
that is blank behind the colon, and a line break in a token ends the line.
-/

open ByteText

namespace Nanos3Reader

/-- A success status, over a transfer that went through. -/
def MetaReply.Answered (r : MetaReply) : Prop :=
  r.handle = true ∧ r.ok = true ∧ 200 ≤ r.code ∧ r.code < 300

instance : DecidablePred MetaReply.Answered := fun _ ↦ inferInstanceAs (Decidable (_ ∧ _))

namespace Credentials

/-! ## The requests -/

def imdsBase : Bytes := utf8 "http://169.254.169.254"

def imdsRoles : Bytes := imdsBase ++ utf8 "/latest/meta-data/iam/security-credentials/"

/-- The request for a token. -/
def tokenPut : MetaRequest :=
  ⟨cStr (imdsBase ++ utf8 "/latest/api/token"),
    [utf8 "X-aws-ec2-metadata-token-ttl-seconds: 21600"].map cStr, true⟩

/-- The header that a token is sent in. -/
def tokenHeader (token : Bytes) : Bytes := utf8 "X-aws-ec2-metadata-token: " ++ token

/-- A GET with the header that is made of what the PUT left. -/
def imdsGet (token url : Bytes) : MetaRequest :=
  ⟨cStr url, (if token ≠ [] then [tokenHeader token] else []).map cStr, false⟩

/-! ## The exchange -/

/-- The three replies, and what they are taken for. -/
structure ImdsExchange where
  put : MetaReply
  listing : MetaReply
  document : MetaReply

namespace ImdsExchange

variable (x : ImdsExchange)

/-- What is taken for the token. -/
def token : Bytes := if x.put.handle then x.put.body else []

def role : Bytes := firstRole x.listing.body

def listingGet : MetaRequest := imdsGet x.token imdsRoles

def documentGet : MetaRequest := imdsGet x.token (imdsRoles ++ x.role)

/-- The requests that are sent by the time of the first GET. -/
def putSent : List MetaRequest := if x.put.handle then [tokenPut] else []

/-- The GETs that are sent. A second one needs a role. -/
def gets : List MetaRequest :=
  (if x.listing.handle then [x.listingGet] else []) ++
    if x.listing.Answered ∧ x.role ≠ [] ∧ x.document.handle then [x.documentGet] else []

end ImdsExchange

/-- The exchange with the machine `h`, which has seen the requests `log`. -/
def imdsExchange (h : Host) (log : List MetaRequest) : ImdsExchange :=
  let put := h.metadata log tokenPut
  let x : ImdsExchange := ⟨put, {}, {}⟩
  let log := log ++ x.putSent
  let listing := h.metadata log x.listingGet
  let x : ImdsExchange := ⟨put, listing, {}⟩
  ⟨put, listing, h.metadata (log ++ [x.listingGet]) x.documentGet⟩

theorem httpMetadata_eq (h : Host) (log : List MetaRequest) (url : Bytes) (headers : List Bytes)
    (put : Bool) (out : Bytes) :
    let req : MetaRequest := ⟨cStr url, headers.map cStr, put⟩
    let r := h.metadata log req
    httpMetadata h log url headers put out = (decide r.Answered,
      if r.handle then r.body else out, log ++ if r.handle then [req] else []) := by
  rw [httpMetadata]
  cases hhandle : (h.metadata log ⟨cStr url, headers.map cStr, put⟩).handle with
  | false => simp [MetaReply.Answered, hhandle]
  | true => simp [MetaReply.Answered, hhandle, Bool.and_assoc]

/-- **What `load_imds` does**, in these terms. -/
theorem loadImds_eq (h : Host) (log : List MetaRequest) (cred : Credentials) :
    let x := imdsExchange h log
    let found := x.listing.Answered ∧ x.role ≠ [] ∧ x.document.Answered
    loadImds h log cred
      = (decide (found ∧ (fillCredsFromJson h x.document.body).valid = true),
        if found then fillCredsFromJson h x.document.body else cred,
        log ++ x.putSent ++ x.gets) := by
  set x := imdsExchange h log with hx
  have hput : httpMetadata h log (imdsBase ++ utf8 "/latest/api/token")
      [utf8 "X-aws-ec2-metadata-token-ttl-seconds: 21600"] true []
      = (decide x.put.Answered, x.token, log ++ x.putSent) := httpMetadata_eq ..
  have hlisting : httpMetadata h (log ++ x.putSent) imdsRoles
      (if x.token ≠ [] then [tokenHeader x.token] else []) false []
      = (decide x.listing.Answered, if x.listing.handle then x.listing.body else [],
        log ++ x.putSent ++ if x.listing.handle then [x.listingGet] else []) := httpMetadata_eq ..
  have hdocument : httpMetadata h (log ++ x.putSent ++ [x.listingGet]) (imdsRoles ++ x.role)
      (if x.token ≠ [] then [tokenHeader x.token] else []) false []
      = (decide x.document.Answered, if x.document.handle then x.document.body else [],
        log ++ x.putSent ++ [x.listingGet] ++ if x.document.handle then [x.documentGet] else []) :=
    httpMetadata_eq ..
  have hbase : utf8 "http://169.254.169.254" = imdsBase := rfl
  have hroles : imdsBase ++ utf8 "/latest/meta-data/iam/security-credentials/" = imdsRoles := rfl
  have hheader : utf8 "X-aws-ec2-metadata-token: " ++ x.token = tokenHeader x.token := rfl
  dsimp only
  rw [loadImds]
  simp only [hbase, hroles, hput, hheader, hlisting]
  by_cases hanswered : x.listing.Answered
  · simp only [hanswered, hanswered.1, if_true, decide_true, Bool.not_true, Bool.false_eq_true,
      if_false, true_and]
    have hrole : firstRole x.listing.body = x.role := rfl
    rw [hrole]
    by_cases hnil : x.role = []
    · rw [if_pos hnil]
      simp [hnil, ImdsExchange.gets, hanswered.1]
    · simp only [if_neg hnil, hdocument]
      by_cases hdoc : x.document.Answered
      · simp [hdoc, hdoc.1, hnil, ImdsExchange.gets, hanswered.1, hanswered]
      · simp [hdoc, hnil, ImdsExchange.gets, hanswered.1, hanswered]
  · simp [hanswered, ImdsExchange.gets]

/-! ## What it should do -/

theorem trimBy_ne_nil_iff {p : UInt8 → Bool} {s : Bytes} :
    trimBy p s ≠ [] ↔ ∃ c ∈ s, p c = false := by
  rw [trimBy, Ne, List.rdropWhile_eq_nil_iff]
  constructor
  · intro h
    push Not at h
    obtain ⟨c, hc, hp⟩ := h
    exact ⟨c, (List.dropWhile_suffix p).subset hc, by simpa using hp⟩
  · rintro ⟨c, hc, hp⟩ hall
    have hne : s.dropWhile p ≠ [] := fun hnil ↦ by
      simp [List.dropWhile_eq_nil_iff.mp hnil c hc] at hp
    have hhead := List.head_dropWhile_not p hne
    rw [hall _ (List.head_mem hne)] at hhead
    cases hhead

theorem head_of_trimBy_eq_cons {p : UInt8 → Bool} {s t : Bytes} {c : UInt8}
    (h : trimBy p s = c :: t) : p c = false := by
  obtain ⟨u, hu⟩ := List.rdropWhile_prefix p (s.dropWhile p)
  rw [trimBy] at h
  rw [h, List.cons_append] at hu
  have hne : s.dropWhile p ≠ [] := hu ▸ List.cons_ne_nil c _
  have hhead := List.head_dropWhile_not p hne
  simpa only [← hu, List.head_cons, Bool.not_eq_true'] using hhead

theorem firstRole_ne_nil_iff {listing : Bytes} :
    firstRole listing ≠ [] ↔ ∃ c ∈ listing, isWs c = false := by
  rw [← trimBy_ne_nil_iff, firstRole, trimWs]
  cases ht : trimBy isWs listing with
  | nil => simp [cut]
  | cons c t =>
    have hc := head_of_trimBy_eq_cons ht
    refine iff_of_true ?_ (List.cons_ne_nil c t)
    cases hcut : cut [10] (c :: t) with
    | none => exact List.cons_ne_nil c t
    | some q =>
      obtain ⟨role, rest⟩ := q
      have hsplit := cut_eq_some hcut
      rcases role with _ | ⟨c', role⟩
      · obtain rfl : c = 10 := (List.cons.inj hsplit).1
        exact absurd hc (by decide)
      · obtain rfl : c = c' := (List.cons.inj hsplit).1
        exact trimBy_ne_nil_iff.mpr ⟨c, List.mem_cons_self, hc⟩

/-- What `load_imds` is for: the GETs arrive with the token if the PUT was answered with one, and
with none otherwise; it succeeds if both are answered, and a role and both keys can be read. -/
structure ImdsContract (h : Host) (log : List MetaRequest) (cred : Credentials) : Prop where
  token : let put := (imdsExchange h log).put
    ∀ r ∈ (loadImds h log cred).2.2.drop log.length, r.put = false →
      r.headers.flatMap arrivedLines
        = if put.Answered ∧ put.body ≠ [] then [tokenHeader put.body] else []
  succeeds : let x := imdsExchange h log
    (loadImds h log cred).1 = true ↔ x.listing.Answered ∧ (∃ c ∈ x.listing.body, isWs c = false) ∧
      x.document.Answered ∧ jsonField x.document.body (utf8 "AccessKeyId") ≠ [] ∧
      jsonField x.document.body (utf8 "SecretAccessKey") ≠ []

/-- What the PUT has left becomes the header it should: a token that arrives in one, if it was
answered with a body, and nothing that would arrive, if it was not answered. -/
def ImdsExchange.TokenArrives (x : ImdsExchange) : Prop :=
  if x.put.Answered then x.put.body = [] ∨ Sendable x.put.body ∧ Nanos3Reader.OneLine x.put.body
  else ∀ c ∈ cStr x.token, isSpace c = true

/-- No GET is sent, or it arrives with the header it should. -/
def ImdsExchange.KeepsToken (x : ImdsExchange) : Prop :=
  x.listing.handle = false ∨ x.TokenArrives

theorem ImdsExchange.mem_gets {x : ImdsExchange} {r : MetaRequest} (hr : r ∈ x.gets) :
    x.listing.handle = true ∧ r.put = false ∧ r.headers = x.listingGet.headers := by
  rw [gets, List.mem_append] at hr
  rcases hr with hr | hr
  · split at hr
    · next hhandle =>
      obtain rfl := List.mem_singleton.mp hr
      exact ⟨hhandle, rfl, rfl⟩
    · exact absurd hr List.not_mem_nil
  · split at hr
    · next hall =>
      obtain rfl := List.mem_singleton.mp hr
      exact ⟨hall.1.1, rfl, rfl⟩
    · exact absurd hr List.not_mem_nil

theorem loadImds_fst_iff (h : Host) (log : List MetaRequest) (cred : Credentials) :
    let x := imdsExchange h log
    (loadImds h log cred).1 = true ↔ x.listing.Answered ∧ (∃ c ∈ x.listing.body, isWs c = false) ∧
      x.document.Answered ∧ jsonField x.document.body (utf8 "AccessKeyId") ≠ [] ∧
      jsonField x.document.body (utf8 "SecretAccessKey") ≠ [] := by
  dsimp only
  rw [loadImds_eq, decide_eq_true_iff, ← firstRole_ne_nil_iff]
  have hvalid (body : Bytes) : (fillCredsFromJson h body).valid = true ↔
      jsonField body (utf8 "AccessKeyId") ≠ [] ∧ jsonField body (utf8 "SecretAccessKey") ≠ [] := by
    rw [Credentials.valid, Bool.and_eq_true, decide_eq_true_iff, decide_eq_true_iff]
    rfl
  rw [hvalid, and_assoc, and_assoc]
  rfl

theorem splitOnP_eq_singleton_iff {p : UInt8 → Bool} {l m : Bytes} :
    l.splitOnP p = [m] ↔ l = m ∧ ∀ c ∈ l, p c = false := by
  constructor
  · intro h
    induction l generalizing m with
    | nil =>
      rw [List.splitOnP_nil, List.singleton_inj] at h
      exact ⟨h, fun c hc ↦ absurd hc List.not_mem_nil⟩
    | cons c l ih =>
      rw [List.splitOnP_cons_eq_if_modifyHead] at h
      split at h
      · exact absurd (List.cons.inj h).2 (List.splitOnP_ne_nil p l)
      · next hc =>
        obtain ⟨first, rest, hsplit⟩ := List.exists_cons_of_ne_nil (List.splitOnP_ne_nil p l)
        rw [hsplit, List.modifyHead_cons, List.cons.injEq] at h
        obtain ⟨rfl, rfl⟩ := h
        obtain ⟨rfl, hl⟩ := ih hsplit
        exact ⟨rfl, List.forall_mem_cons.mpr ⟨by simpa using hc, hl⟩⟩
  · rintro ⟨rfl, h⟩
    exact List.splitOnP_eq_singleton h

/-- What arrives of the header line of a token, as the C string that libcurl is given. -/
theorem arrivedLines_tokenHeader (token : Bytes) :
    arrivedLines (cStr (tokenHeader token)) = if ∃ c ∈ cStr token, isSpace c = false then
      (tokenHeader (cStr token)).splitOnP fun c ↦ c = 13 || c = 10 else [] := by
  have hname : 0 ∉ utf8 "X-aws-ec2-metadata-token: " := by decide
  have hvalue : ((tokenHeader (cStr token)).dropWhile (· ≠ 58)).drop 1 = 32 :: cStr token := by
    have hcolon : utf8 "X-aws-ec2-metadata-token: "
        = utf8 "X-aws-ec2-metadata-token" ++ [58, 32] := by decide
    rw [tokenHeader, hcolon, List.append_assoc, List.cons_append,
      List.dropWhile_append_of_pos (forall_mem_of_all (by decide)),
      List.dropWhile_cons_of_neg (by decide), List.drop_one, List.tail_cons, List.singleton_append]
  rw [arrivedLines, tokenHeader, cStr_append hname, ← tokenHeader, hvalue]
  simp [show isSpace 32 = true from rfl]

theorem arrives_whole_iff {body : Bytes} :
    (if ∃ c ∈ cStr body, isSpace c = false then
        (tokenHeader (cStr body)).splitOnP fun c ↦ c = 13 || c = 10 else []) = [tokenHeader body] ↔
      Sendable body ∧ Nanos3Reader.OneLine body := by
  have hbreaks (v : Bytes) :
      (∀ c ∈ tokenHeader v, (c = 13 || c = 10) = false) ↔ Nanos3Reader.OneLine v := by
    have hname : Nanos3Reader.OneLine (utf8 "X-aws-ec2-metadata-token: ") := by decide
    rw [← and_iff_right (b := Nanos3Reader.OneLine v) hname, ← oneLine_append, ← tokenHeader]
    simp only [Bool.or_eq_false_iff, decide_eq_false_iff_not, Nanos3Reader.OneLine]
    exact ⟨fun h ↦ ⟨fun hc ↦ (h _ hc).1 rfl, fun hc ↦ (h _ hc).2 rfl⟩,
      fun h c hc ↦ ⟨fun heq ↦ h.1 (heq ▸ hc), fun heq ↦ h.2 (heq ▸ hc)⟩⟩
  constructor
  · intro h
    split at h
    · next hsent =>
      obtain ⟨hwhole, hlines⟩ := splitOnP_eq_singleton_iff.mp h
      have hself : cStr body = body := List.append_cancel_left hwhole
      refine ⟨⟨fun hzero ↦ ?_, hself ▸ hsent⟩, (hbreaks body).mp (hwhole ▸ hlines)⟩
      have hmem : (0 : UInt8) ∈ body.takeWhile (· ≠ 0) := by
        rw [show body.takeWhile (· ≠ 0) = body from hself]
        exact hzero
      simpa using List.mem_takeWhile_imp hmem
    · cases h
  · rintro ⟨⟨hzero, hsent⟩, hone⟩
    rw [cStr_eq_self hzero, if_pos hsent]
    exact splitOnP_eq_singleton_iff.mpr ⟨rfl, (hbreaks body).mpr hone⟩

theorem headers_listingGet_iff (x : ImdsExchange) :
    x.listingGet.headers.flatMap arrivedLines
        = (if x.put.Answered ∧ x.put.body ≠ [] then [tokenHeader x.put.body] else [])
      ↔ x.TokenArrives := by
  have hlines : x.listingGet.headers.flatMap arrivedLines
      = if ∃ c ∈ cStr x.token, isSpace c = false then
        (tokenHeader (cStr x.token)).splitOnP fun c ↦ c = 13 || c = 10 else [] := by
    rw [ImdsExchange.listingGet, imdsGet]
    dsimp only
    by_cases hnil : x.token = []
    · simp [hnil, cStr]
    · rw [if_pos hnil, List.map_singleton, List.flatMap_singleton, arrivedLines_tokenHeader]
  rw [hlines, ImdsExchange.TokenArrives]
  by_cases hanswered : x.put.Answered
  · have htoken : x.token = x.put.body := by rw [ImdsExchange.token, if_pos hanswered.1]
    rw [htoken, if_pos hanswered]
    by_cases hbody : x.put.body = []
    · simp [hbody, cStr]
    · have hboth : x.put.Answered ∧ x.put.body ≠ [] := ⟨hanswered, hbody⟩
      rw [if_pos hboth, or_iff_right hbody]
      exact arrives_whole_iff
  · have hnone : ¬(x.put.Answered ∧ x.put.body ≠ []) := fun h ↦ hanswered h.1
    rw [if_neg hnone, if_neg hanswered]
    by_cases hblank : ∃ c ∈ cStr x.token, isSpace c = false
    · rw [if_pos hblank]
      refine iff_of_false (List.splitOnP_ne_nil _ _) fun h ↦ ?_
      obtain ⟨c, hc, hspace⟩ := hblank
      rw [h c hc] at hspace
      cases hspace
    · rw [if_neg hblank]
      push Not at hblank
      exact iff_of_true rfl fun c hc ↦ by simpa using hblank c hc

/-- **The fallback works just when a refusal leaves nothing to send.** For any three replies, the
GETs arrive with the token that the PUT was answered with, or with none, if and only if no GET is
sent, or a success left no body or one that a header line can hold, or anything else left no body or
one that is blank up to its first NUL. Success depends on the GETs in either case as it should. -/
theorem imdsContract_iff (h : Host) (log : List MetaRequest) (cred : Credentials) :
    ImdsContract h log cred ↔ (imdsExchange h log).KeepsToken := by
  have hsucceeds := loadImds_fst_iff h log cred
  have hlog : (loadImds h log cred).2.2 = log ++ (imdsExchange h log).putSent
      ++ (imdsExchange h log).gets := by rw [loadImds_eq]
  have hheaders := headers_listingGet_iff (imdsExchange h log)
  have hsent : (loadImds h log cred).2.2.drop log.length
      = (imdsExchange h log).putSent ++ (imdsExchange h log).gets := by
    rw [hlog, List.append_assoc, List.drop_left]
  set x := imdsExchange h log with hx
  rw [ImdsExchange.KeepsToken, ← hheaders]
  constructor
  · rintro ⟨htoken, -⟩
    rw [hsent] at htoken
    cases hhandle : x.listing.handle with
    | false => exact .inl rfl
    | true =>
      refine .inr (htoken x.listingGet ?_ rfl)
      simp [ImdsExchange.gets, hhandle]
  · intro hkeeps
    refine ⟨?_, hsucceeds⟩
    rw [hsent]
    rintro put r hr hput
    rcases List.mem_append.mp hr with hr | hr
    · rw [ImdsExchange.putSent] at hr
      split at hr
      · obtain rfl := List.mem_singleton.mp hr
        cases hput
      · exact absurd hr List.not_mem_nil
    · obtain ⟨hhandle, -, hheader⟩ := ImdsExchange.mem_gets hr
      rw [hheader]
      exact hkeeps.resolve_left (by simp [hhandle])

/-- A service that refuses the PUT, and answers GETs without a token only. -/
def refusingHost : Host where
  getenv _ := none
  file _ := none
  popen _ := none
  strptime _ := none
  metadata _ r :=
    if r.put then { code := 403, body := utf8 "Forbidden" }
    else if r.headers ≠ [] then { code := 401 }
    else if r.url = imdsRoles then { body := utf8 "role" }
    else { body := utf8 "\x7b\"AccessKeyId\":\"A\",\"SecretAccessKey\":\"S\"\x7d" }

/-- The refusal is sent as a token. -/
theorem refusal_sent_as_token :
    ¬ImdsContract refusingHost [] {} ∧ ¬(imdsExchange refusingHost []).put.Answered ∧
      (loadImds refusingHost [] {}).2.2
        = [tokenPut, ⟨imdsRoles, [utf8 "X-aws-ec2-metadata-token: Forbidden"], false⟩] ∧
      (loadImds refusingHost [] {}).1 = false := by
  have hsent : (loadImds refusingHost [] {}).2.2
      = [tokenPut, ⟨imdsRoles, [utf8 "X-aws-ec2-metadata-token: Forbidden"], false⟩] := by
    decide +kernel
  have hrefused : ¬(imdsExchange refusingHost []).put.Answered := by decide +kernel
  refine ⟨fun h ↦ ?_, hrefused, hsent, by decide +kernel⟩
  have htoken := h.token
  rw [hsent] at htoken
  have hnone := htoken _ (List.mem_cons_of_mem _ List.mem_cons_self) rfl
  rw [if_neg fun hboth ↦ hrefused hboth.1] at hnone
  exact absurd hnone (by decide +kernel)

end Credentials

end Nanos3Reader
