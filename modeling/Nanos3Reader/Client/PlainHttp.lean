import Nanos3Reader.Client.Options
import Nanos3Reader.Credentials.Provider

/-!
# No plain HTTP unless allowed

The constructor refuses an endpoint by looking at how its text begins, and the scheme of a request
is chosen later by looking at it again. Since both look for the same text, and no operation gets
past the refusal, the requests for objects go over HTTPS unless plain HTTP is allowed. The requests
that resolve credentials are a matter of their own: the metadata services speak plain HTTP.
-/

open ByteText

namespace Nanos3Reader

namespace ClientImpl

/-- The URLs that a client's requests are for: those that its operations send, and those that find
credentials for them. -/
inductive Issues (env : Outside) (im : ClientImpl) : Bytes → Prop
  | sends {req : HttpRequest} (h : im.Sends env req) : Issues env im req.url
  | metadata {call : Call} (hcall : im.Makes env call) (hfixed : im.fixedCreds = none) (w : World)
      {req : MetaRequest} (hreq : req ∈ w.provider.sends (env.host w.moment) (env.clock w.moment)) :
      Issues env im req.url

/-- No operation does anything. -/
structure Silent (env : Outside) (im : ClientImpl) : Prop where
  head : ∀ w uri size, (im.head env w uri size).2 = w
  readRange : ∀ w uri offset n hasDst, (im.readRange env w uri offset n hasDst).2 = w
  list : ∀ fuel w prefixUri delimiter objects commonPrefixes, ∃ out,
    im.list env fuel w prefixUri delimiter objects commonPrefixes = some (out, w)
  put : ∀ w uri data options out, (im.put env w uri data options out).2 = w
  putFile : ∀ a status, ∃ e, im.acceptFile a status = .error e
  issues : ∀ url, ¬im.Issues env url

theorem exists_target_error {im : ClientImpl} (h : im.refusal ≠ []) (uri : Bytes)
    (needKey : Bool) : ∃ e, im.target uri needKey = .error e := by
  rw [target]
  split
  · exact ⟨_, rfl⟩
  · rw [if_neg h]
    exact ⟨_, rfl⟩

theorem not_issues_of_refusal {env : Outside} {im : ClientImpl} (h : im.refusal ≠ [])
    (url : Bytes) : ¬im.Issues env url := by
  rintro (⟨⟨call, got, diagnostic, curl, p, m, hcall, -, -⟩⟩ | ⟨hcall, -, -, -⟩)
  · exact h (refusal_of_makes hcall)
  · exact h (refusal_of_makes hcall)

theorem silent_of_refusal {im : ClientImpl} (h : im.refusal ≠ []) (env : Outside) :
    im.Silent env where
  head w uri size := by
    obtain ⟨e, he⟩ := exists_target_error h uri true
    rw [ClientImpl.head, he]
  readRange w uri offset n hasDst := by
    obtain ⟨e, he⟩ := exists_target_error h uri true
    rw [ClientImpl.readRange, readRangeStart, he]
  list fuel w prefixUri delimiter objects commonPrefixes := by
    obtain ⟨e, he⟩ := exists_target_error h prefixUri false
    rw [ClientImpl.list, he]
    exact ⟨_, rfl⟩
  put w uri data options out := by
    obtain ⟨e, he⟩ := exists_target_error h uri true
    rw [ClientImpl.put, putCall, he]
  putFile a status := by
    obtain ⟨e, he⟩ := exists_target_error h a.uri true
    rw [acceptFile, he]
    exact ⟨_, rfl⟩
  issues := not_issues_of_refusal h

end ClientImpl

/-! ## The scheme -/

/-- The scheme is `https://` unless the endpoint says otherwise. -/
theorem https_of_buildEndpoint {cfg : Config} (h : (utf8 "http://").isPrefixOf cfg.endpoint = false)
    (bucket key region : Bytes) :
    utf8 "https://" <+: (buildEndpoint cfg bucket key region).url := by
  -- the test of the constructor is the one by which `build_endpoint` chooses the scheme
  have hscheme : (splitScheme cfg.endpoint).1 = utf8 "https://" := by
    rw [splitScheme, if_neg (by simp [h])]
    split
    next heq =>
      by_cases hhttps : (utf8 "https://").isPrefixOf cfg.endpoint = true
      · rw [if_pos hhttps] at heq
        exact (Prod.ext_iff.mp heq).1.symm
      · rw [if_neg hhttps] at heq
        exact (Prod.ext_iff.mp heq).1.symm
  rw [buildEndpoint]
  split
  · dsimp only
    rw [hscheme, List.append_assoc]
    exact List.prefix_append _ _
  · dsimp only
    rw [List.append_assoc]
    exact List.prefix_append _ _

theorem cStr_keeps {s t : Bytes} (hs : 0 ∉ s) (h : s <+: t) : s <+: cStr t := by
  obtain ⟨rest, rfl⟩ := h
  rw [cStr_append hs]
  exact List.prefix_append _ _

theorem https_of_sends {env : Outside} {im : ClientImpl} {req : HttpRequest}
    (hendpoint : (utf8 "http://").isPrefixOf im.cfg.endpoint = false) (h : im.Sends env req) :
    utf8 "https://" <+: req.url := by
  obtain ⟨call, got, diagnostic, curl, p, m, -, hstart, rfl⟩ := h
  -- a query is appended behind, which leaves the scheme as it is
  have hbuilt : utf8 "https://" <+: call.url im.cfg := by
    have hbase := https_of_buildEndpoint hendpoint call.bucket call.key im.cfg.region
    rw [Call.url]
    split
    · exact hbase
    · rw [List.append_assoc]
      exact hbase.trans (List.prefix_append _ _)
  rw [(sentAs_httpRequest hstart _).url]
  exact cStr_keeps (by decide) hbuilt

namespace ClientOptions

variable {options : ClientOptions} {h : Host}

theorem refusal_of_haveAk_ne (hkeys : options.haveAk ≠ options.haveSk) :
    options.refusal h ≠ [] := by
  rw [refusal, if_pos hkeys]
  split <;> simp

/-- A client that does not refuse, and may not use plain HTTP, has no endpoint of that kind. -/
theorem not_http_of_refusal (hallow : options.mayUseHttp h = false)
    (hrefusal : options.refusal h = []) :
    (utf8 "http://").isPrefixOf (options.endpointOr h) = false := by
  by_contra hhttp
  rw [Bool.not_eq_false] at hhttp
  by_cases hkeys : options.haveAk ≠ options.haveSk
  · exact refusal_of_haveAk_ne hkeys hrefusal
  · rw [refusal, if_neg hkeys, if_pos ⟨rfl, hhttp, hallow⟩] at hrefusal
    simp at hrefusal

end ClientOptions

namespace ClientImpl

/-- **No request for an object goes over plain HTTP** unless the options or the environment allow
it; and a client with one key of two does nothing at all, not even look for credentials. -/
theorem https_unless_allowed (h : Host) (options : ClientOptions) (env : Outside) :
    (options.allowHttp = false →
      (Credentials.envOr h (utf8 "AWS_ALLOW_HTTP") []).map toLower ≠ utf8 "true" →
      ∀ req, (create h options).Sends env req → utf8 "https://" <+: req.url) ∧
    ((options.accessKeyId = [] ↔ options.secretAccessKey ≠ []) →
      (create h options).Silent env) := by
  refine ⟨fun hallow henv req hsends ↦ ?_, fun hkeys ↦ ?_⟩
  · have hmay : options.mayUseHttp h = false := by
      simp [ClientOptions.mayUseHttp, hallow, henv]
    -- only a client that does not refuse makes calls
    have hrefusal : options.refusal h = [] := by
      obtain ⟨call, -, -, -, -, -, hcall, -, -⟩ := hsends
      exact refusal_of_makes hcall
    exact https_of_sends (ClientOptions.not_http_of_refusal hmay hrefusal) hsends
  · refine silent_of_refusal (ClientOptions.refusal_of_haveAk_ne ?_) env
    rw [ClientOptions.haveAk, ClientOptions.haveSk, ne_eq, decide_eq_decide]
    tauto

/-- A machine without credentials. -/
def bareMachine : Outside := .answering fun _ _ ↦ { code := 200 }

/-- A client made there, with no options. -/
def onBareMachine : ClientImpl := create (bareMachine.host 0) {}

/-- It asks the instance metadata service for keys. -/
theorem not_https_metadata : ¬∀ (h : Host) (options : ClientOptions) (env : Outside),
    options.allowHttp = false →
    (Credentials.envOr h (utf8 "AWS_ALLOW_HTTP") []).map toLower ≠ utf8 "true" →
    ∀ url, (create h options).Issues env url → utf8 "https://" <+: url := by
  intro hall
  have htarget : onBareMachine.target (utf8 "s3://b/k") true = .ok (utf8 "b", utf8 "k") := by
    decide +kernel
  have hasks : utf8 "http://169.254.169.254/latest/api/token" ∈
      ((CredentialProvider.create (awsProfile (bareMachine.host 0))).sends (bareMachine.host 0)
        (bareMachine.clock 0)).map MetaRequest.url := by decide +kernel
  obtain ⟨req, hreq, hurl⟩ := List.mem_map.mp hasks
  have hissues : onBareMachine.Issues bareMachine req.url :=
    .metadata (.head htarget) rfl { provider := .create (awsProfile (bareMachine.host 0)) } hreq
  have hhttps := hall (bareMachine.host 0) {} bareMachine rfl (by decide +kernel) _ hissues
  rw [hurl] at hhttps
  exact absurd hhttps (by decide +kernel)

end ClientImpl

end Nanos3Reader
