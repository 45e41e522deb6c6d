import Nanos3Reader.AcceptedRequests
import Nanos3Reader.Client.ConditionalPut
import Nanos3Reader.Lib.ObjectApi

/-!
# What a service reads

Every call of a client asks for something, and a service that reads the request off the wire — the
host and the path as libcurl sends them, the query, the header fields, the body — reads just that.
-/

open ByteText ConditionalWrite ObjectApi

namespace Nanos3Reader

open ConditionalPut

/-- How the service that a configuration sends requests to is addressed. -/
def Config.addressing (cfg : Config) (region : Bytes) : Addressing :=
  if cfg.pathStyle then .path else .host (utf8 ".s3." ++ region ++ utf8 ".amazonaws.com")

theorem named_buildEndpoint {cfg : Config} {bucket key region : Bytes} (hslash : 47 ∉ bucket)
    {r : SignatureV4.Arrived} (hhost : r.host = (buildEndpoint cfg bucket key region).host)
    (hpath : r.path = (buildEndpoint cfg bucket key region).path) :
    named (cfg.addressing region) r = some (bucket, key) := by
  have hdecoded : Uri.percentDecode r.path = some (namedPath cfg bucket key) := by
    rw [hpath, path_buildEndpoint, percentDecode_uriEncodePath]
  have hslashes : utf8 "/" = [47] := by decide
  rw [Config.addressing]
  rw [namedPath] at hdecoded
  by_cases hstyle : cfg.pathStyle = true
  · rw [if_pos hstyle, hslashes] at hdecoded
    rw [if_pos hstyle]
    refine named_path hslash ?_
    rw [hdecoded]
    simp
  · rw [if_neg hstyle, hslashes] at hdecoded
    rw [if_neg hstyle]
    refine named_host ?_ hdecoded
    rw [hhost, buildEndpoint, if_neg hstyle]
    simp

/-! ## What is asked for -/

namespace FileUpload

variable (u : FileUpload)

/-- What the calls of an upload ask for. -/
inductive Asks (sha256Raw : Bytes → Bytes) : Call → Command → Prop
  | single (hsingle : u.Single) (reads : Bool) {hash : Bytes}
      (hhash : u.singleHash sha256Raw reads = some hash) :
      Asks sha256Raw (u.singleCall hash) (.put u.bucket u.key {} u.file.content)
  | create : Asks sha256Raw u.createCall (.create u.bucket u.key)
  | part (uploadId : Bytes) {i : ℕ} {hash : Bytes} (hi : i < u.parts)
      (hhash : u.PartHash sha256Raw i hash) :
      Asks sha256Raw (u.partCall uploadId i hash)
        (.part u.bucket u.key uploadId (i + 1) (u.slice i))
  | complete (uploadId : Bytes) (etags : ℕ → Bytes) :
      Asks sha256Raw (u.completeCall uploadId etags)
        (.complete u.bucket u.key uploadId (u.completeXml etags))
  | abort (uploadId : Bytes) :
      Asks sha256Raw (u.abortCall uploadId) (.abort u.bucket u.key uploadId)

theorem MadeAs.exists_asks {u : FileUpload} {sha256Raw : Bytes → Bytes} {call : Call}
    (h : u.MadeAs sha256Raw call) : ∃ cmd, u.Asks sha256Raw call cmd := by
  cases h with
  | single hsingle reads hhash => exact ⟨_, .single hsingle reads hhash⟩
  | create => exact ⟨_, .create⟩
  | part uploadId hi hhash => exact ⟨_, .part uploadId hi hhash⟩
  | complete uploadId etags => exact ⟨_, .complete uploadId etags⟩
  | abort uploadId => exact ⟨_, .abort uploadId⟩

end FileUpload

/-- What the calls of a client ask for, in terms of the operation that makes them. The value of an
`if_match` must be one that is sent. -/
inductive ClientImpl.Asks (env : Outside) (im : ClientImpl) : Call → Command → Prop
  | head {uri bucket key : Bytes} (h : im.target uri true = .ok (bucket, key)) :
      Asks env im (headCall bucket key) (.head bucket key)
  | readRange {uri bucket key : Bytes} {offset n : ℕ} {hasDst : Bool} {call : Call}
      (htarget : im.target uri true = .ok (bucket, key))
      (h : im.readRangeStart uri offset n hasDst = .ok (some call)) :
      Asks env im call (.get bucket key (some (offset, offset + n - 1)))
  | list {prefixUri bucket pfx : Bytes} (h : im.target prefixUri false = .ok (bucket, pfx))
      (delimiter token : Bytes) :
      Asks env im (listCall bucket pfx delimiter token) (.list bucket pfx delimiter token)
  | put {uri bucket key data : Bytes} {options : PutOptions} {call : Call}
      (htarget : im.target uri true = .ok (bucket, key))
      (h : im.putCall uri (some data) options = .ok call)
      (hmatch : options.ifMatch = [] ∨ Transmissible options.ifMatch) :
      Asks env im call (.put bucket key (optionsCondition options) data)
  | putFile {a : PutFileArgs} {status : FileStatus} {u : FileUpload} {call : Call} {cmd : Command}
      (h : im.acceptFile a status = .ok u) (hcall : u.Makes env call)
      (hasks : u.Asks env.sha256Raw call cmd) : Asks env im call cmd
  | putDirectory {d : DirectoryUpload} {s : Directory.State d.threads} {item : Item}
      {status : FileStatus} {u : FileUpload} {call : Call} {cmd : Command} (hd : d.im = im)
      (hs : d.Reaches env s) (hitem : item ∈ s.begun)
      (h : im.acceptFile (d.args item) status = .ok u) (hcall : u.Makes env call)
      (hasks : u.Asks env.sha256Raw call cmd) : Asks env im call cmd

theorem ClientImpl.Asks.makes {env : Outside} {im : ClientImpl} {call : Call} {cmd : Command}
    (h : im.Asks env call cmd) : im.Makes env call := by
  cases h with
  | head h => exact .head h
  | readRange htarget h => exact .readRange h
  | list h delimiter token => exact .list h delimiter token
  | put htarget h hmatch => exact .put h
  | putFile h hcall hasks => exact .putFile h hcall
  | putDirectory hd hs hitem h hcall hasks => exact .putDirectory hd hs hitem h hcall

/-! ## The header fields of a condition -/

/-- The headers of a condition are not among those of every request. -/
def conditionNames : List Bytes := [utf8 "if-none-match", utf8 "if-match"]

namespace Prepared

variable {p : Prepared} {sha256Raw : Bytes → Bytes} {amzDate : Bytes}

/-- The header of a condition can only come from the lines that a call brings along. -/
theorem filter_fields {name : Bytes} (hname : name ∈ conditionNames) :
    ((p.httpRequest sha256Raw amzDate).fields.filter fun f ↦ f.1 = name)
      = (p.call.extraHeaders.filterMap (headerField ∘ cStr)).filter fun f ↦ f.1 = name := by
  have hother : ∀ name ∈ conditionNames, utf8 "x-amz-date" ≠ name ∧
      utf8 "x-amz-content-sha256" ≠ name ∧ utf8 "range" ≠ name ∧
      utf8 "x-amz-security-token" ≠ name ∧ utf8 "authorization" ≠ name := by decide
  obtain ⟨hdate, hsha, hrange, htoken, hauth⟩ := hother name hname
  rw [HttpRequest.fields, headers_httpRequest, firstLines, List.filterMap_map]
  simp only [List.filterMap_append, List.filter_append]
  have hbefore : (([utf8 "x-amz-date: " ++ amzDate, utf8 "x-amz-content-sha256: " ++
      p.payloadHash].filterMap (headerField ∘ cStr)).filter fun f ↦ f.1 = name) = [] := by
    refine filter_lines_eq_nil fun line hline ↦ ?_
    simp only [List.mem_cons, List.not_mem_nil, or_false] at hline
    rcases hline with rfl | rfl
    · exact @ne_of_line (utf8 "x-amz-date") name (by decide) (by decide) hdate _
    · exact @ne_of_line (utf8 "x-amz-content-sha256") name (by decide) (by decide) hsha _
  have hexpect : (((if p.call.isPut || p.call.isPost then [utf8 "Expect:"] else []).filterMap
      (headerField ∘ cStr)).filter fun f ↦ f.1 = name) = [] := by
    refine filter_lines_eq_nil fun line hline ↦ ?_
    split at hline
    · obtain rfl := List.mem_singleton.mp hline
      have hnone : headerField (cStr (utf8 "Expect:")) = none := by decide
      simp [hnone]
    · cases hline
  have hranges : (((p.rangeText.map (utf8 "Range: " ++ ·)).toList.filterMap
      (headerField ∘ cStr)).filter fun f ↦ f.1 = name) = [] := by
    refine filter_lines_eq_nil fun line hline ↦ ?_
    obtain ⟨range, -, rfl⟩ := Option.map_eq_some_iff.mp (Option.mem_toList.mp hline)
    exact @ne_of_line (utf8 "Range") name (by decide) (by decide) hrange _
  have htokens : (((tokenLines p.cred.sessionToken).filterMap (headerField ∘ cStr)).filter
      fun f ↦ f.1 = name) = [] :=
    filter_lines_eq_nil fun line hline ↦ ne_of_mem_tokenLines hline htoken
  have hlast : (([(p.canonical amzDate).authorizationLine sha256Raw p.cred p.region
      amzDate].filterMap (headerField ∘ cStr)).filter fun f ↦ f.1 = name) = [] := by
    refine filter_lines_eq_nil fun line hline ↦ ?_
    obtain rfl := List.mem_singleton.mp hline
    exact @ne_of_line (utf8 "Authorization") name (by decide) (by decide) hauth _
  rw [hbefore, hexpect, hranges, htokens, hlast]
  simp

end Prepared

theorem sendable_of_transmissible {ifMatch : Bytes} (h : Transmissible ifMatch) :
    Sendable ifMatch := by
  refine ⟨h.1, ?_⟩
  by_contra hall
  push Not at hall
  refine h.2 ?_
  have hdrop : ifMatch.dropWhile isSpace = [] :=
    List.dropWhile_eq_nil_iff.mpr fun c hc ↦ by simpa using hall c hc
  rw [namedVersion, trimBy, hdrop]
  rfl

theorem filter_options {options : PutOptions}
    (hmatch : options.ifMatch = [] ∨ Transmissible options.ifMatch) :
    ((options.headers.filterMap (headerField ∘ cStr)).filter fun f ↦ f.1 = utf8 "if-none-match")
        = (if options.ifNoneMatch then [(utf8 "if-none-match", utf8 "*")] else []) ∧
      ((options.headers.filterMap (headerField ∘ cStr)).filter fun f ↦ f.1 = utf8 "if-match")
        = if options.ifMatch = [] then [] else [(utf8 "if-match", options.ifMatch)] := by
  have htype (name : Bytes) (hname : utf8 "content-type" ≠ name) :
      (([contentTypeLine options.contentType].filterMap (headerField ∘ cStr)).filter
        fun f ↦ f.1 = name) = [] := by
    refine filter_lines_eq_nil fun line hline ↦ ?_
    obtain rfl := List.mem_singleton.mp hline
    have hline : utf8 "Content-Type: " = utf8 "Content-Type" ++ utf8 ": " := by decide
    rw [contentTypeLine, hline]
    exact @ne_of_line (utf8 "Content-Type") name (by decide) (by decide) hname _
  have hstar : headerField (cStr (utf8 "If-None-Match: *"))
      = some (utf8 "if-none-match", utf8 "*") := by decide
  have hline (hsent : Transmissible options.ifMatch) :
      headerField (cStr (utf8 "If-Match: " ++ options.ifMatch))
        = some (utf8 "if-match", options.ifMatch) :=
    @headerField_of_sendable (utf8 "If-Match") (by decide) (by decide) _
      (sendable_of_transmissible hsent)
  rw [PutOptions.headers]
  simp only [List.filterMap_append, List.filter_append]
  rw [htype _ (by decide), htype _ (by decide)]
  by_cases hempty : options.ifMatch = []
  · rw [if_pos hempty, if_pos hempty]
    cases options.ifNoneMatch <;> simp [hstar]
    decide
  · rw [if_neg hempty, if_neg hempty]
    have hsome := hline (hmatch.resolve_left hempty)
    have hne : utf8 "if-match" ≠ utf8 "if-none-match" := by decide
    cases options.ifNoneMatch <;> simp [hstar, hsome, hne, hne.symm]

/-! ## Commands -/

theorem parameters_encode {ps : List (Bytes × Bytes)} (hne : ps ≠ []) :
    ObjectApi.parameters (Uri.renderParameters (ps.map encodeParameter)) = some ps :=
  ObjectApi.parameters_render hne encoded_uriEncodeComponent percentDecode_uriEncodeComponent

theorem parameters_idQuery (uploadId : Bytes) :
    ObjectApi.parameters (FileUpload.idQuery uploadId) = some [(utf8 "uploadId", uploadId)] := by
  have hname : uriEncodeComponent (utf8 "uploadId") = utf8 "uploadId" := by decide
  have hliteral : utf8 "uploadId=" = utf8 "uploadId" ++ [61] := by decide
  have hquery : FileUpload.idQuery uploadId
      = Uri.renderParameters ([(utf8 "uploadId", uploadId)].map encodeParameter) := by
    simp [FileUpload.idQuery, Uri.renderParameters, encodeParameter, hname, hliteral,
      List.intercalate]
  rw [hquery]
  exact parameters_encode (List.cons_ne_nil _ _)

namespace Prepared

variable {p : Prepared} {sha256Raw : Bytes → Bytes} {cfg : Config} {call : Call} {amzDate : Bytes}

theorem call_mem_canonical (p : Prepared) (amzDate : Bytes) :
    ⟨utf8 "host", p.host⟩ ∈ (p.canonical amzDate).headers ∧
      ∀ range ∈ p.rangeText, ⟨utf8 "range", range⟩ ∈ (p.canonical amzDate).headers := by
  rw [canonical]
  refine ⟨by simp, fun range hrange ↦ ?_⟩
  rw [Option.mem_def.mp hrange]
  simp

/-- What arrives of a call. -/
structure ArrivesFor (call : Call) (cfg : Config) (r : SignatureV4.Arrived) : Prop where
  method : r.method = call.method
  named : named (cfg.addressing cfg.region) r = some (call.bucket, call.key)
  query : r.query = call.query
  range : ∀ first last, call.range = some (first, last) →
    (r.value (utf8 "range")).bind byteRange = some (first, last)

theorem Carries.arrivesFor (h : p.Carries sha256Raw cfg call) (hslash : 47 ∉ call.bucket)
    {cred : Credentials} {region : Bytes} {r : SignatureV4.Arrived}
    (hr : Presents sha256Raw (p.canonical amzDate) cred region amzDate r) :
    ArrivesFor call cfg r := by
  obtain ⟨hhost, hrange⟩ := p.call_mem_canonical amzDate
  have harrived : r.host = p.host := Option.some.inj (hr.arrives.value _ hhost)
  refine ⟨?_, named_buildEndpoint hslash (harrived.trans h.host) (hr.arrives.path.trans h.path),
    ?_, fun first last heq ↦ ?_⟩
  · rw [hr.arrives.method, canonical, h.call_eq]
  · rw [hr.arrives.query, canonical, h.call_eq]
  · have htext : p.rangeText
        = some (utf8 "bytes=" ++ decimal first ++ utf8 "-" ++ decimal last) := by
      rw [rangeText, h.call_eq, heq]
      rfl
    rw [hr.arrives.value _ (hrange _ (Option.mem_def.mpr htext)), Option.bind_some,
      byteRange_decimal]

/-- **What the options of a put ask is what arrives.** -/
theorem condition_arrived {options : PutOptions} (hextra : p.call.extraHeaders = options.headers)
    (hmatch : options.ifMatch = [] ∨ Transmissible options.ifMatch) (body : Bytes) :
    condition ((p.httpRequest sha256Raw amzDate).arrived body) = optionsCondition options := by
  obtain ⟨habsent, htag⟩ := filter_options hmatch
  rw [← hextra] at habsent htag
  have hstar : trimBy isWhite (utf8 "*") = utf8 "*" := by decide
  rw [condition, SignatureV4.Arrived.value, if_neg (by decide), SignatureV4.Arrived.value,
    if_neg (by decide), HttpRequest.arrived, filter_fields (by decide), filter_fields (by decide),
    habsent, htag, optionsCondition]
  by_cases hempty : options.ifMatch = []
  · rw [if_pos hempty, if_pos hempty]
    cases options.ifNoneMatch <;> simp [hstar]
  · rw [if_neg hempty, if_neg hempty]
    cases options.ifNoneMatch <;>
    · simp [hstar]
      rfl

theorem ArrivesFor.command_eq {r : SignatureV4.Arrived} (h : ArrivesFor call cfg r)
    {ps : List (Bytes × Bytes)} (hps : ObjectApi.parameters call.query = some ps) :
    command (cfg.addressing cfg.region) r = commandFor r call.bucket call.key ps :=
  command_of_named h.named (by rw [h.query, hps])

theorem ArrivesFor.command_put {r : SignatureV4.Arrived} (h : ArrivesFor call cfg r)
    (hmethod : call.method = utf8 "PUT") (hquery : call.query = [])
    {options : PutOptions} (hcond : condition r = optionsCondition options)
    (hbody : r.body = call.payload) : command (cfg.addressing cfg.region) r
      = some (.put call.bucket call.key (optionsCondition options) call.payload) := by
  rw [h.command_eq (by rw [hquery]; exact parameters_nil), commandFor_put (h.method.trans hmethod),
    hcond, hbody]

/-- **What an upload asks for is what is read.** -/
theorem ArrivesFor.command_upload {r : SignatureV4.Arrived} (h : ArrivesFor call cfg r)
    (hbody : r.body = call.payload) {u : FileUpload} {cmd : Command}
    (hcond : ∀ options : PutOptions, call.extraHeaders = options.headers → options.ifMatch = [] →
      condition r = optionsCondition options)
    (hasks : u.Asks sha256Raw call cmd) : command (cfg.addressing cfg.region) r = some cmd := by
  cases hasks with
  | single hsingle reads hhash =>
    have hpayload : ∀ hash, (u.singleCall hash).payload = u.file.content := by
      intro hash
      rw [Call.payload, FileUpload.singleCall]
      exact List.take_length
    rw [← hpayload]
    exact h.command_put rfl rfl (hcond { contentType := u.options.contentType } rfl rfl) hbody
  | create =>
    have hliteral : utf8 "uploads="
        = Uri.renderParameters ([(utf8 "uploads", [])].map encodeParameter) := by decide
    have hquery : u.createCall.query
        = Uri.renderParameters ([(utf8 "uploads", [])].map encodeParameter) := hliteral
    rw [h.command_eq (by rw [hquery]; exact parameters_encode (List.cons_ne_nil _ _))]
    exact commandFor_create h.method (by decide)
  | part uploadId hi hhash =>
    rename_i i hash
    have hquery : (u.partCall uploadId i hash).query = Uri.renderParameters
        ([(utf8 "partNumber", decimal (i + 1)), (utf8 "uploadId", uploadId)].map
          encodeParameter) := renderParameters_partQuery uploadId (i + 1)
    have hne : (utf8 "uploadId" == utf8 "partNumber") = false := by decide
    rw [h.command_eq (by rw [hquery]; exact parameters_encode (List.cons_ne_nil _ _)),
      @commandFor_part r _ _ _ uploadId (i + 1) h.method (by simp [List.lookup_cons, hne])
        (by simpa [List.lookup_cons] using number_decimal (i + 1)), hbody]
    rfl
  | complete uploadId etags =>
    rw [h.command_eq (parameters_idQuery uploadId), commandFor_complete h.method rfl rfl, hbody]
    rfl
  | abort uploadId =>
    rw [h.command_eq (parameters_idQuery uploadId), commandFor_abort h.method rfl]
    rfl

end Prepared

/-- **What a call of a client asks for is what a service reads.** -/
theorem ClientImpl.Asks.command_eq {env : Outside} {im : ClientImpl} {call : Call} {cmd : Command}
    (hasks : im.Asks env call cmd) {r : SignatureV4.Arrived}
    (h : Prepared.ArrivesFor call im.cfg r) (hbody : r.body = call.payload)
    (hcond : ∀ options : PutOptions, call.extraHeaders = options.headers →
      options.ifMatch = [] ∨ Transmissible options.ifMatch →
        condition r = optionsCondition options) :
    command (im.cfg.addressing im.cfg.region) r = some cmd := by
  cases hasks with
  | head htarget =>
    rw [h.command_eq parameters_nil, commandFor_head h.method]
    rfl
  | readRange htarget hstart =>
    rw [readRangeStart, htarget] at hstart
    dsimp only at hstart
    split at hstart
    · cases hstart
    · split at hstart
      · cases hstart
      · split at hstart
        · cases hstart
        · cases hstart
          rw [h.command_eq parameters_nil, commandFor_get h.method rfl, h.range _ _ rfl]
          rfl
  | list htarget delimiter token =>
    rename_i prefixUri bucket pfx
    obtain ⟨hpfx, hdelimiter, htoken⟩ := lookup_listParameters pfx delimiter token
    have htype : ((listParameters pfx delimiter token).lookup (utf8 "list-type")).isSome := by
      have hne : (utf8 "list-type" == utf8 "continuation-token") = false ∧
        (utf8 "list-type" == utf8 "delimiter") = false := by decide
      by_cases h₁ : token = [] <;> by_cases h₂ : delimiter = [] <;>
        simp [listParameters, List.lookup_cons, h₁, h₂, hne]
    have hquery : (listCall bucket pfx delimiter token).query
        = Uri.renderParameters ((listParameters pfx delimiter token).map encodeParameter) :=
      listQuery_eq pfx delimiter token
    rw [h.command_eq (by
        rw [hquery]
        exact parameters_encode (by simp [listParameters])), commandFor_list h.method htype, hpfx,
      hdelimiter, htoken]
    rfl
  | put htarget hcall hmatch =>
    rw [putCall, htarget] at hcall
    dsimp only at hcall
    split at hcall
    · cases hcall
    · split at hcall
      · cases hcall
      · cases hcall
        exact h.command_put rfl rfl (hcond _ rfl hmatch) hbody
  | putFile haccept hcall hasks =>
    exact h.command_upload hbody (fun options heq hnil ↦ hcond options heq (.inl hnil)) hasks
  | putDirectory hd hs hitem haccept hcall hasks =>
    exact h.command_upload hbody (fun options heq hnil ↦ hcond options heq (.inl hnil)) hasks

/-- **What a call asks for is read off the wire**, of every attempt that arrives with its body
whole. -/
theorem ClientImpl.Asks.command_sent {env : Outside}
    (htools : SigningTools env.sha256Raw env.amzNow) {im : ClientImpl} {call : Call}
    {cmd : Command} (hasks : im.Asks env call cmd)
    {got : Credentials} {diagnostic : Bytes} {curl : Bool} {p : Prepared}
    (hstart : startRequest env.sha256Raw im.cfg im.fixedCreds got diagnostic curl call = .ok p)
    (hcred : p.cred.Presentable) (hroutes : im.cfg.Routes call.bucket call.key im.cfg.region)
    (m : ℕ) {reads : List ReadCall} (hwhole : (p.call.upload reads).sent.length = p.call.bodyLen) :
    command (im.cfg.addressing im.cfg.region)
      ((p.httpRequest env.sha256Raw (env.amzNow m)).arrived (p.call.upload reads).sent)
    = some cmd := by
  have hcarries := carries_of_startRequest hstart
  have hcall := hasks.makes
  have hpresents := hcarries.presents htools hcall.plain hcall.shaped hcred hroutes m hwhole
  refine hasks.command_eq (hcarries.arrivesFor hcall.shaped.slash hpresents) ?_
    fun options hextra hmatch ↦ ?_
  · rw [HttpRequest.arrived, Call.sent_eq_payload hwhole, hcarries.call_eq]
  · rw [← hcarries.call_eq] at hextra
    exact Prepared.condition_arrived hextra hmatch _

theorem S3Streambuf.Targeted.command_eq {env : Outside} {b : S3Streambuf} {cred : Credentials}
    {start : ℕ} {amzDate : Bytes} {r : SignatureV4.Arrived} (h : b.Targeted)
    (hslash : 47 ∉ b.bucket)
    (hr : Presents env.sha256Raw (b.canonical cred start amzDate) cred b.region amzDate r) :
    command (b.cfg.addressing b.region) r = some
      (.get b.bucket b.key (some (start, (start + b.readAhead - 1) % 2 ^ 64))) := by
  have hhost : r.host = b.host :=
    Option.some.inj (hr.arrives.value ⟨utf8 "host", b.host⟩ (by simp [canonical]))
  have hrange : r.value (utf8 "range") = some (b.rangeText start) :=
    hr.arrives.value ⟨utf8 "range", b.rangeText start⟩ (by simp [canonical])
  have hquery : ObjectApi.parameters r.query = some [] := by
    rw [hr.arrives.query]
    rfl
  rw [command_of_named (named_buildEndpoint hslash (hhost.trans h.host)
    (hr.arrives.path.trans h.path)) hquery, commandFor_get hr.arrives.method rfl, hrange,
    Option.bind_some, rangeText, byteRange_decimal]

/-- **What the reader asks for is what is read off the wire**: of every attempt of every call of a
client, with its body whole, and of every GET of a stream. -/
theorem commands_arrive {env : Outside} (htools : SigningTools env.sha256Raw env.amzNow) :
    (∀ {im : ClientImpl} {call : Call} {cmd : Command} {got : Credentials} {diagnostic : Bytes}
      {curl : Bool} {p : Prepared}, im.Asks env call cmd →
      startRequest env.sha256Raw im.cfg im.fixedCreds got diagnostic curl call = .ok p →
      p.cred.Presentable → im.cfg.Routes call.bucket call.key im.cfg.region →
      ∀ (m : ℕ) (reads : List ReadCall), (p.call.upload reads).sent.length = p.call.bodyLen →
        command (im.cfg.addressing im.cfg.region)
          ((p.httpRequest env.sha256Raw (env.amzNow m)).arrived (p.call.upload reads).sent)
        = some cmd) ∧
    ∀ {w : World} {b b' : S3Streambuf} {target start m : ℕ} {cred : Credentials},
      S3Streambuf.Reachable env b → b.LoadGets env w target cred start b' m → cred.Presentable →
      b.cfg.Routes b.bucket b.key b'.region →
        command (b.cfg.addressing b'.region)
          ((b'.rangeRequest env cred start (env.amzNow m)).arrived [])
        = some (.get b.bucket b.key (some (start, (start + b.readAhead - 1) % 2 ^ 64))) := by
  constructor
  · intro im call cmd got diagnostic curl p hasks hstart hcred hroutes m reads hwhole
    exact hasks.command_sent htools hstart hcred hroutes m hwhole
  · intro w b b' target start m cred hb hgets hcred hroutes
    have hkept := hgets.gets.kept
    have hslash := S3Streambuf.slash_of_reachable hb
    have htargeted := hkept.targeted (.of_reachable hb)
    rw [← hkept.cfg, ← hkept.bucket, ← hkept.key] at hroutes ⊢
    rw [← hkept.bucket] at hslash
    rw [← hkept.readAhead]
    exact htargeted.command_eq hslash
      (@S3Streambuf.Targeted.presents env b' cred start htargeted htools hcred hroutes m)

/-- A put under a condition, and the first window of a stream. -/
theorem commands_arrive_put_and_window :
    (∃ call p reads, (ClientImpl.withToken (utf8 "T")).putCall (utf8 "s3://b/k") (some [1, 2, 3])
        { ifNoneMatch := true } = .ok call ∧
      startRequest signing.sha256Raw (ClientImpl.withToken (utf8 "T")).cfg
        (ClientImpl.withToken (utf8 "T")).fixedCreds {} [] true call = .ok p ∧
      command (.host (utf8 ".s3.us-east-1.amazonaws.com"))
          ((p.httpRequest signing.sha256Raw (signing.amzNow 0)).arrived (p.call.upload reads).sent)
        = some (.put (utf8 "b") (utf8 "k") { absent := true } [1, 2, 3])) ∧
    ∃ b w cred m, S3Streambuf.justOpened signing 2 = (some b, w) ∧
      command (b.cfg.addressing b.region)
          ((b.rangeRequest signing cred 0 (signing.amzNow m)).arrived [])
        = some (.get (utf8 "b") (utf8 "k") (some (0, 1))) := by
  constructor
  · obtain ⟨call, p, hcall, hstart, hcred, -, hroutes, -, -, hwhole⟩ := exists_conditional_put
    have htarget : (ClientImpl.withToken (utf8 "T")).target (utf8 "s3://b/k") true
        = .ok (utf8 "b", utf8 "k") := by decide
    exact ⟨call, p, _, hcall, hstart, (commands_arrive signingTools_signing).1
      (.put htarget hcall (.inl rfl)) hstart hcred hroutes 0 [{ capacity := 8 }] hwhole⟩
  · obtain ⟨b, w, cred, m, hopen, hgets, hcred, hroutes, hbucket, hkey, hra⟩ := exists_first_window
    have harrives :=
      (commands_arrive signingTools_signing).2 (.opened hopen) hgets hcred hroutes
    rw [hbucket, hkey, hra] at harrives
    exact ⟨b, w, cred, m, hopen, harrives⟩

end Nanos3Reader
