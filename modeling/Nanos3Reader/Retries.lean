import Nanos3Reader.Client.Reading
import Nanos3Reader.Lib.Retry
import Nanos3Reader.Stream.SignedGets

/-!
# The two retry loops

`load_window` and `run_request` each send a request again while the outcome is worth it, and each
with a counter of its own; the first also follows one redirect to another region, which it does not
count. Both are bounded, go on only after outcomes that may pass, and deliver what the last attempt
brought, whatever the attempts before it had received.
-/

open ByteText

namespace Nanos3Reader

/-- A request that was sent, and how the transfer went. -/
structure Exchange where
  request : HttpRequest
  outcome : Transfer

/-- From `w` to `w'` the requests of these exchanges were sent, and no others. -/
structure Records (env : Outside) (w w' : World) (exchanges : List Exchange) : Prop where
  sent : w'.sent = w.sent ++ exchanges.map Exchange.request
  performed : ∀ x ∈ exchanges, ∃ m, env.perform m x.request = x.outcome

theorem Records.single {env : Outside} {w w' : World} {req : HttpRequest} {t : Transfer}
    (hperform : w.perform env req = (t, w')) : Records env w w' [⟨req, t⟩] := by
  cases hperform
  exact ⟨rfl, by simp⟩

theorem Records.cons {env : Outside} {w w₁ w' : World} {req : HttpRequest} {t : Transfer}
    {exchanges : List Exchange} (hperform : w.perform env req = (t, w₁))
    (h : Records env w₁ w' exchanges) : Records env w w' (⟨req, t⟩ :: exchanges) := by
  cases hperform
  refine ⟨?_, List.forall_mem_cons.mpr ⟨⟨w.moment, rfl⟩, h.performed⟩⟩
  rw [h.sent]
  simp

namespace Call

/-- The retries left for another attempt. -/
def next (call : Call) (left : ℕ) (t : Transfer) : Option ℕ := (call.after left t).getLeft?

theorem next_of_after {call : Call} {left : ℕ} {t : Transfer} {o : ℕ ⊕ Reply}
    (h : call.after left t = o) : call.next left t = o.getLeft? := by
  rw [next, h]

end Call

namespace Prepared

/-- The exchanges of the loop of `run_request`. -/
def exchanges (p : Prepared) (env : Outside) (w : World) (left : ℕ) : List Exchange :=
  let req := p.httpRequest env.sha256Raw (env.amzNow w.moment)
  let (t, w) := w.perform env req
  ⟨req, t⟩ :: match _h : p.call.after left t with
    | .inl left => p.exchanges env w left
    | .inr _ => []
termination_by left
decreasing_by exact Call.lt_of_after _h

theorem exchanges_eq (p : Prepared) (env : Outside) (w : World) (left : ℕ) :
    p.exchanges env w left
      = let req := p.httpRequest env.sha256Raw (env.amzNow w.moment)
        ⟨req, (w.perform env req).1⟩ :: match p.call.after left (w.perform env req).1 with
          | .inl left => p.exchanges env (w.perform env req).2 left
          | .inr _ => [] := by
  rw [exchanges]
  dsimp only
  split <;> simp_all

theorem exchanges_spec (p : Prepared) (env : Outside) (w : World) (left : ℕ) :
    Retry.Run p.call.next left ((p.exchanges env w left).map Exchange.outcome) ∧
      Records env w (p.attempts env w left).2 (p.exchanges env w left) ∧
      ∃ x ∈ (p.exchanges env w left).getLast?,
        (p.attempts env w left).1 = p.call.receive x.outcome := by
  induction left using Nat.strongRecOn generalizing w with
  | ind left ih =>
    rw [attempts_eq, exchanges_eq]
    dsimp only
    cases hafter : p.call.after left
        (w.perform env (p.httpRequest env.sha256Raw (env.amzNow w.moment))).1 with
    | inl left' =>
      obtain ⟨hrun, hrecords, x, hx, hreply⟩ := ih left' (Call.lt_of_after hafter)
        (w.perform env (p.httpRequest env.sha256Raw (env.amzNow w.moment))).2
      exact ⟨.again (Call.next_of_after hafter) hrun, hrecords.cons rfl, x,
        List.mem_getLast?_cons hx, hreply⟩
    | inr r =>
      exact ⟨.stop (Call.next_of_after hafter), .single rfl, _, rfl, Call.receive_of_after hafter⟩

end Prepared

/-- The exchanges of `run_request`. -/
def requestExchanges (env : Outside) (cfg : Config) (fixedCreds : Option Credentials) (w : World)
    (call : Call) : List Exchange :=
  let (got, w) := if fixedCreds.isSome then ({}, w) else w.getCredentials env
  let curl := env.curlInit w.moment
  let w := { w with moment := w.moment + 1 }
  match startRequest env.sha256Raw cfg fixedCreds got w.provider.diagnostic curl call with
  | .error _ => []
  | .ok p => p.exchanges env w kClientRetries

/-- Either no request is made, or the reply and the exchanges are those of one loop. -/
theorem runRequest_cases (env : Outside) (cfg : Config) (fixedCreds : Option Credentials)
    (w : World) (call : Call) :
    (∃ e, (runRequest env cfg fixedCreds w call).1 = .error e ∧
      (runRequest env cfg fixedCreds w call).2.sent = w.sent ∧
      requestExchanges env cfg fixedCreds w call = []) ∨
    ∃ (p : Prepared) (w₁ : World), p.call = call ∧ w₁.sent = w.sent ∧
      runRequest env cfg fixedCreds w call
        = (.ok (p.attempts env w₁ kClientRetries).1, (p.attempts env w₁ kClientRetries).2) ∧
      requestExchanges env cfg fixedCreds w call = p.exchanges env w₁ kClientRetries := by
  have hasked : (if fixedCreds.isSome then (({} : Credentials), w)
      else w.getCredentials env).2.sent = w.sent := by
    split <;> rfl
  rw [runRequest, requestExchanges]
  generalize (if fixedCreds.isSome then (({} : Credentials), w) else w.getCredentials env) = asked
    at hasked
  obtain ⟨got, w₁⟩ := asked
  dsimp only at hasked ⊢
  cases hstart : startRequest env.sha256Raw cfg fixedCreds got w₁.provider.diagnostic
    (env.curlInit w₁.moment) call with
  | error e => exact .inl ⟨e, rfl, hasked, rfl⟩
  | ok p =>
    exact .inr ⟨p, { w₁ with moment := w₁.moment + 1 }, call_of_startRequest hstart, hasked, rfl,
      rfl⟩

theorem runRequest_eq_ok {env : Outside} {cfg : Config} {fixedCreds : Option Credentials}
    {w : World} {call : Call} {r : Reply} :
    (runRequest env cfg fixedCreds w call).1 = .ok r ↔
      ∃ x ∈ (requestExchanges env cfg fixedCreds w call).getLast?, r = call.receive x.outcome := by
  rcases runRequest_cases env cfg fixedCreds w call with
    ⟨e, herror, -, hnil⟩ | ⟨p, w₁, rfl, -, hrun, hexchanges⟩
  · simp [herror, hnil]
  · obtain ⟨-, -, x, hx, hreply⟩ := p.exchanges_spec env w₁ kClientRetries
    rw [hrun, hexchanges, hreply, Option.mem_def.mp hx]
    simp [eq_comm]

namespace S3Streambuf

/-- The exchanges of the loop of `load_window`. -/
def exchanges (env : Outside) (cred : Credentials) (start : ℕ) (w : World) (b : S3Streambuf)
    (redirected : Bool) (attempt : ℕ) : List Exchange :=
  let req := b.rangeRequest env cred start (env.amzNow w.moment)
  let (t, w) := w.perform env req
  let b' := b.receive t
  ⟨req, t⟩ :: match _h : b'.verdict redirected attempt t with
    | .redirect => exchanges env cred start w b'.retarget true attempt
    | .retry => exchanges env cred start w b' redirected (attempt + 1)
    | _ => []
termination_by 2 * (b.cfg.maxAttempts.toNat - attempt) + (if redirected then 0 else 1)
decreasing_by
  · obtain rfl := eq_false_of_verdict_redirect _h
    simp [retarget, receive]
  · have hlt : attempt + 1 < b.cfg.maxAttempts.toNat := lt_of_verdict_retry (b := b') _h
    simp only [receive]
    omega

/-- Where the loop stands: the stream, whether it was redirected, and the attempts that failed. -/
structure Attempting where
  stream : S3Streambuf
  redirected : Bool
  failed : ℕ

/-- Where it stands for another attempt. -/
def Attempting.next (s : Attempting) (t : Transfer) : Option Attempting :=
  let b' := s.stream.receive t
  match b'.verdict s.redirected s.failed t with
  | .redirect => some ⟨b'.retarget, true, s.failed⟩
  | .retry => some ⟨b', s.redirected, s.failed + 1⟩
  | _ => none

theorem Attempting.next_of_redirect {s : Attempting} {t : Transfer}
    (h : (s.stream.receive t).verdict s.redirected s.failed t = .redirect) :
    s.next t = some ⟨(s.stream.receive t).retarget, true, s.failed⟩ := by
  rw [next, h]

theorem Attempting.next_of_retry {s : Attempting} {t : Transfer}
    (h : (s.stream.receive t).verdict s.redirected s.failed t = .retry) :
    s.next t = some ⟨s.stream.receive t, s.redirected, s.failed + 1⟩ := by
  rw [next, h]

theorem Attempting.next_of_other {s : Attempting} {t : Transfer}
    (hredirect : (s.stream.receive t).verdict s.redirected s.failed t ≠ .redirect)
    (hretry : (s.stream.receive t).verdict s.redirected s.failed t ≠ .retry) :
    s.next t = none := by
  rw [next]
  split
  · next h => exact absurd h hredirect
  · next h => exact absurd h hretry
  · rfl

theorem exchanges_eq (env : Outside) (cred : Credentials) (start : ℕ) (w : World)
    (b : S3Streambuf) (redirected : Bool) (attempt : ℕ) :
    exchanges env cred start w b redirected attempt
      = let req := b.rangeRequest env cred start (env.amzNow w.moment)
        let sent := w.perform env req
        ⟨req, sent.1⟩ :: match (b.receive sent.1).verdict redirected attempt sent.1 with
          | .redirect => exchanges env cred start sent.2 (b.receive sent.1).retarget true attempt
          | .retry => exchanges env cred start sent.2 (b.receive sent.1) redirected (attempt + 1)
          | _ => [] := by
  rw [exchanges]
  dsimp only
  split <;> simp_all

/-- The loop of `load_window` is a run of attempts, and its last transfer is the last of them. -/
theorem exchanges_spec (env : Outside) (cred : Credentials) (start : ℕ) (w : World)
    (b : S3Streambuf) (redirected : Bool) (attempt : ℕ) :
    Retry.Run Attempting.next ⟨b, redirected, attempt⟩
        ((exchanges env cred start w b redirected attempt).map Exchange.outcome) ∧
      Records env w (lastTransfer env cred start w b redirected attempt).2.2
        (exchanges env cred start w b redirected attempt) ∧
      ∃ x ∈ (exchanges env cred start w b redirected attempt).getLast?,
        (lastTransfer env cred start w b redirected attempt).1 = x.outcome := by
  induction w, b, redirected, attempt using lastTransfer.induct env cred start with
  | case1 w b redirected attempt t w' hperform b' hverdict ih =>
    obtain ⟨hrun, hrecords, x, hx, hlast⟩ := ih
    have hnext : Attempting.next ⟨b, redirected, attempt⟩ t = some ⟨b'.retarget, true, attempt⟩ :=
      Attempting.next_of_redirect hverdict
    rw [exchanges_eq, lastTransfer_eq]
    dsimp only
    rw [hperform]
    dsimp only
    rw [hverdict]
    exact ⟨.again hnext hrun, hrecords.cons hperform, x, List.mem_getLast?_cons hx, hlast⟩
  | case2 w b redirected attempt t w' hperform b' hverdict ih =>
    obtain ⟨hrun, hrecords, x, hx, hlast⟩ := ih
    have hnext : Attempting.next ⟨b, redirected, attempt⟩ t = some ⟨b', redirected, attempt + 1⟩ :=
      Attempting.next_of_retry hverdict
    rw [exchanges_eq, lastTransfer_eq]
    dsimp only
    rw [hperform]
    dsimp only
    rw [hverdict]
    exact ⟨.again hnext hrun, hrecords.cons hperform, x, List.mem_getLast?_cons hx, hlast⟩
  | case3 w b redirected attempt t w' hperform b' hredirect hretry =>
    have hnext : Attempting.next ⟨b, redirected, attempt⟩ t = none :=
      Attempting.next_of_other hredirect hretry
    rw [exchanges_eq, lastTransfer_eq]
    dsimp only
    rw [hperform]
    dsimp only
    cases hverdict : b'.verdict redirected attempt t with
    | redirect => exact absurd hverdict hredirect
    | retry => exact absurd hverdict hretry
    | deliver | pastEnd | giveUp =>
      exact ⟨.stop hnext, .single hperform, _, rfl, rfl⟩

/-! ### What one decision says -/

/-- The attempts that the loop may still make after this one, the redirect among them. -/
def Attempting.budget (s : Attempting) : ℕ :=
  s.stream.cfg.maxAttempts.toNat - 1 - s.failed + if s.redirected then 0 else 1

end S3Streambuf

/-- A server that breaks off its first response. -/
def breaksOff : Outside :=
  .answering fun m _ ↦
    if m = 1 then { rc := .partialFile, code := 206, chunks := [utf8 "who"] }
    else { code := 206, chunks := [utf8 "wh", utf8 "ole"] }

end Nanos3Reader
