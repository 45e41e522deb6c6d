import Nanos3Reader.Client.SignedCalls
import Nanos3Reader.Sha256
import Nanos3Reader.Stream.SignedGets

/-!
# What is signed is what is sent

The reader signs requests in two places, `run_request` and `load_window`, and both write the headers
down twice. All their requests are sent as they are signed, but for one thing: nobody looks at the
session token. It is signed whatever it is, and sent as a C string in a header line, which libcurl
leaves out when it is blank.
-/

open ByteText

namespace Nanos3Reader

/-- **The requests of the reader are sent as signed, just when their session tokens can be sent**:
every attempt of every call of a client, and every GET of every load of a stream. -/
theorem signsWhatIsSent_iff_tokenSendable {env : Outside}
    (htools : SigningTools env.sha256Raw env.amzNow) :
    (∀ {im : ClientImpl} {call : Call} {got : Credentials} {diagnostic : Bytes} {curl : Bool}
      {p : Prepared}, im.Makes env call →
      startRequest env.sha256Raw im.cfg im.fixedCreds got diagnostic curl call = .ok p →
      p.cred.OneLine → ∀ m,
        (SignsWhatIsSent env.sha256Raw (p.canonical (env.amzNow m)) p.cred
            (buildEndpoint im.cfg call.bucket call.key im.cfg.region) im.cfg.region (env.amzNow m)
            (p.httpRequest env.sha256Raw (env.amzNow m)) ∧ p.HashesBody env.sha256Raw ↔
          TokenSendable p.cred.sessionToken)) ∧
    ∀ {w : World} {b b' : S3Streambuf} {target start m : ℕ} {cred : Credentials},
      S3Streambuf.Reachable env b → b.LoadGets env w target cred start b' m → cred.OneLine →
        (SignsWhatIsSent env.sha256Raw (b'.canonical cred start (env.amzNow m)) cred
            (buildEndpoint b.cfg b.bucket b.key b'.region) b'.region (env.amzNow m)
            (b'.rangeRequest env cred start (env.amzNow m)) ↔
          TokenSendable cred.sessionToken) := by
  constructor
  · intro im call got diagnostic curl p hcall hstart hcred m
    have hp := carries_of_startRequest hstart
    rw [hp.signsWhatIsSent_iff hcall.plain htools hcred m]
    exact and_iff_left (hp.hashesBody hcall.plain)
  · intro w b b' target start m cred hb hgets hcred
    have hkept := hgets.gets.kept
    have htargeted := hkept.targeted (.of_reachable hb)
    rw [← hkept.cfg, ← hkept.bucket, ← hkept.key]
    exact htargeted.signsWhatIsSent_iff htools hcred m

/-- The surroundings of these examples. -/
def signing : Outside := { calm [] with sha256Raw := S3v4.sha256Raw }

theorem signingTools_signing : SigningTools signing.sha256Raw signing.amzNow where
  date _ :=
    have hdate : utf8 "20260101T000000Z" ≠ [] ∧
        (utf8 "20260101T000000Z").all isAlnum = true := by decide
    ⟨hdate.1, List.all_eq_true.mp hdate.2⟩
  digest := S3v4.length_sha256Raw

/-- A client of AWS with a session token. -/
def ClientImpl.withToken (token : Bytes) : ClientImpl :=
  { ClientImpl.usEast with
    fixedCreds := some { accessKey := utf8 "K", secretKey := utf8 "S", sessionToken := token } }

/-- A put of three bytes by a client with a session token, and the first window of a stream without
one. -/
theorem signsWhatIsSent_put_and_window :
    (∃ call p, (ClientImpl.withToken (utf8 "T")).putCall (utf8 "s3://b/k") (some [1, 2, 3]) {}
        = .ok call ∧
      startRequest signing.sha256Raw (ClientImpl.withToken (utf8 "T")).cfg
        (ClientImpl.withToken (utf8 "T")).fixedCreds {} [] true call = .ok p ∧
      SignsWhatIsSent signing.sha256Raw (p.canonical (signing.amzNow 0)) p.cred
        (buildEndpoint (ClientImpl.withToken (utf8 "T")).cfg call.bucket call.key
          (utf8 "us-east-1")) (utf8 "us-east-1") (signing.amzNow 0)
        (p.httpRequest signing.sha256Raw (signing.amzNow 0)) ∧
      p.HashesBody signing.sha256Raw) ∧
    ∃ b w cred m, S3Streambuf.justOpened signing 2 = (some b, w) ∧
      SignsWhatIsSent signing.sha256Raw (b.canonical cred 0 (signing.amzNow m)) cred
        (buildEndpoint b.cfg b.bucket b.key b.region) b.region (signing.amzNow m)
        (b.rangeRequest signing cred 0 (signing.amzNow m)) := by
  constructor
  · obtain ⟨call, p, hcall, hstart, hcred⟩ : ∃ call p,
        (ClientImpl.withToken (utf8 "T")).putCall (utf8 "s3://b/k") (some [1, 2, 3]) {} = .ok call ∧
        startRequest signing.sha256Raw (ClientImpl.withToken (utf8 "T")).cfg
          (ClientImpl.withToken (utf8 "T")).fixedCreds {} [] true call = .ok p ∧
        p.cred = { accessKey := utf8 "K", secretKey := utf8 "S", sessionToken := utf8 "T" } :=
      ⟨_, _, rfl, rfl, rfl⟩
    have hline : p.cred.OneLine := by
      rw [hcred]
      exact ⟨by decide, by decide⟩
    have htoken : TokenSendable p.cred.sessionToken := by
      rw [hcred]
      decide
    have hiff := (signsWhatIsSent_iff_tokenSendable signingTools_signing).1 (.put hcall) hstart
      hline 0
    exact ⟨call, p, hcall, hstart, hiff.mpr htoken⟩
  · obtain ⟨b, w, hopen, htry⟩ := @S3Streambuf.exists_of_justOpened signing 2
      (fun b w ↦ decide (b.curl = true ∧ b.loadStart w 0 = 0 ∧
        (w.tryLoad signing ⟨b.uri, .ofNat 0⟩).1 = none ∧ b.readAhead ≤ maxSize ∧
        let cred := ((w.tryLoad signing ⟨b.uri, .ofNat 0⟩).2.getCredentials signing).1
        cred.valid = true ∧ OneLine cred.accessKey ∧ OneLine cred.sessionToken ∧
          TokenSendable cred.sessionToken)) (by decide +kernel)
    obtain ⟨hcurl, hstart, hmissed, hra, hvalid, hkey, htoken, hsend⟩ := of_decide_eq_true htry
    have hiff := (signsWhatIsSent_iff_tokenSendable signingTools_signing).2 (.opened hopen)
      ⟨hcurl, hstart.symm, hmissed, rfl, hvalid, hra, .first _ _ _ _⟩ ⟨hkey, htoken⟩
    exact ⟨b, w, _, _, hopen, hiff.mpr hsend⟩

/-- A token that is a blank is signed and not sent. -/
theorem not_signsWhatIsSent_blankToken :
    ¬∀ (im : ClientImpl) (call : Call) (got : Credentials) (diagnostic : Bytes) (curl : Bool)
      (p : Prepared), im.Makes signing call →
      startRequest signing.sha256Raw im.cfg im.fixedCreds got diagnostic curl call = .ok p →
      p.cred.OneLine → ∀ m,
        SignsWhatIsSent signing.sha256Raw (p.canonical (signing.amzNow m)) p.cred
            (buildEndpoint im.cfg call.bucket call.key im.cfg.region) im.cfg.region
            (signing.amzNow m) (p.httpRequest signing.sha256Raw (signing.amzNow m)) ∧
          p.HashesBody signing.sha256Raw := by
  intro hall
  obtain ⟨p, hstart, hcred⟩ : ∃ p, startRequest signing.sha256Raw
      (ClientImpl.withToken (utf8 " ")).cfg (ClientImpl.withToken (utf8 " ")).fixedCreds {} [] true
      (headCall (utf8 "b") (utf8 "k")) = .ok p ∧
      p.cred = { accessKey := utf8 "K", secretKey := utf8 "S", sessionToken := utf8 " " } :=
    ⟨_, rfl, rfl⟩
  have hmakes : (ClientImpl.withToken (utf8 " ")).Makes signing (headCall (utf8 "b") (utf8 "k")) :=
    .head (show ClientImpl.target _ (utf8 "s3://b/k") true = .ok (utf8 "b", utf8 "k") from rfl)
  have hline : p.cred.OneLine := by
    rw [hcred]
    exact ⟨by decide, by decide⟩
  have hp := carries_of_startRequest hstart
  have htoken := (hp.signsWhatIsSent_iff hmakes.plain signingTools_signing hline 0).mp
    (hall _ _ _ _ _ p hmakes hstart hline 0).1
  rw [hcred] at htoken
  exact absurd htoken (by decide)

end Nanos3Reader
