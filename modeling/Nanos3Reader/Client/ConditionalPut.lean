import Nanos3Reader.Client
import Nanos3Reader.Lib.ConditionalWrite
import Nanos3Reader.Lib.Runs
import Mathlib.Logic.Function.Basic

/-!
# Conditional puts on one key

Any number of `put` calls on one key, running side by side against a store with atomic conditional
writes. A call sends its request, waits, and sends it again if the outcome is worth a retry;
meanwhile the store serves requests in any order. A response may be lost or replaced, and a request
whose response was given up on may still be served later.

Nothing is assumed about outcomes but this: a 200 is the store's own answer to the attempt it is
taken for, and the store gives it to a write it has applied.
-/

open ByteText ConditionalWrite

namespace Nanos3Reader

namespace ConditionalPut

/-- The arguments of a `put` call, and the client it is made on. -/
structure PutArgs where
  im : ClientImpl
  uri : Bytes
  data : Option Bytes
  options : PutOptions := {}
  out : ClientImpl.PutOut := (none, none)

/-- Where a call is. `answer` is whether the store has applied the current attempt, once it has
served it. -/
inductive Status where
  | idle
  | waiting (p : Prepared) (left : ℕ) (answer : Option Bool)
  | done (out : Outcome ClientImpl.PutOut)

/-- An attempt on its way to the store, made by `call` with `left` retries left. -/
structure InFlight (ι : Type*) where
  call : ι
  left : ℕ
  prepared : Prepared
  date : Bytes

/-- The versions of the key, with the call that wrote each if one did; the attempts on their way;
the calls. -/
structure State (ι : Type*) where
  history : List (Version Bytes Bytes (Option ι))
  flight : List (InFlight ι)
  status : ι → Status

/-! ## The calls -/

namespace PutArgs

variable (a : PutArgs)

def failed (e : Bytes) : Status := .done ⟨false, (a.out.1, a.out.2.map fun _ ↦ false), e⟩

/-- A call up to its first attempt. -/
def firstStatus (sha256Raw : Bytes → Bytes) (got : Credentials) (diagnostic : Bytes) (curl : Bool) :
    Status :=
  match a.im.putCall a.uri a.data a.options with
  | .error e => a.failed e
  | .ok call =>
    match startRequest sha256Raw a.im.cfg a.im.fixedCreds got diagnostic curl call with
    | .error e => a.failed e
    | .ok p => .waiting p kClientRetries none

/-- A call after the outcome of an attempt. -/
def nextStatus (strerror : CurlCode → Bytes) (p : Prepared) (left : ℕ) (t : Transfer) : Status :=
  match p.call.after left t with
  | .inl left => .waiting p left none
  | .inr r =>
    .done (ClientImpl.putFinish strerror a.uri a.options r (a.out.1, a.out.2.map fun _ ↦ false))

end PutArgs

/-! ## The store -/

/-- What the store reads off a request. -/
def requestCondition (req : HttpRequest) : Condition Bytes where
  absent := req.field (utf8 "if-none-match:") = some (utf8 "*")
  tag := req.field (utf8 "if-match:")

/-- The version an `if_match` option names: white space around a header value means nothing. -/
def namedVersion (ifMatch : Bytes) : Bytes := trimBy isSpace ifMatch

/-- What the options of a put ask of the store. -/
def optionsCondition (options : PutOptions) : Condition Bytes where
  absent := options.ifNoneMatch
  tag := if options.ifMatch = [] then none else some (namedVersion options.ifMatch)

/-- An `if_match` value that reaches the store: it has no NUL, at which it would be cut off, and it
is not all white space, in which case no header would be sent. -/
def Transmissible (ifMatch : Bytes) : Prop := 0 ∉ ifMatch ∧ namedVersion ifMatch ≠ []

instance (ifMatch : Bytes) : Decidable (Transmissible ifMatch) :=
  inferInstanceAs (Decidable (_ ∧ _))

/-! ## What the store reads -/

section Request

variable {p : Prepared} {options : PutOptions} (hextra : p.call.extraHeaders = options.headers)
  (hrange : p.call.range = none) (sha256Raw : Bytes → Bytes) (date : Bytes)

include hextra hrange in
theorem field_httpRequest {key : Bytes} (hkey : key.take 2 = utf8 "if") :
    (p.httpRequest sha256Raw date).field key
      = options.headers.findSome? fun line ↦ fieldValue key (cStr line) := by
  have hlen : 2 ≤ key.length := by
    have htake := congrArg List.length hkey
    rw [List.length_take] at htake
    have htwo : (utf8 "if").length = 2 := rfl
    omega
  have hother (name rest : Bytes) (hname : 2 ≤ name.length)
      (h : (name.take 2).map toLower ≠ utf8 "if") (h0 : 0 ∉ name) :
      fieldValue key (cStr (name ++ rest)) = none :=
    fieldValue_cStr_append 2 hlen hname (hkey ▸ h) h0 rest
  have hdate := hother (utf8 "x-amz-date: ") date (by decide) (by decide) (by decide)
  have hsha := hother (utf8 "x-amz-content-sha256: ") p.payloadHash (by decide) (by decide)
    (by decide)
  have hexpect : fieldValue key (cStr (utf8 "Expect:")) = none := by
    simpa using hother (utf8 "Expect:") [] (by decide) (by decide) (by decide)
  have htoken := hother (utf8 "x-amz-security-token: ") p.cred.sessionToken (by decide) (by decide)
    (by decide)
  have hauthz (authz : Bytes) := hother (utf8 "Authorization: ") authz (by decide) (by decide)
    (by decide)
  rw [HttpRequest.field, Prepared.httpRequest]
  dsimp only
  rw [Prepared.rangeText, hrange, hextra, List.findSome?_map]
  simp only [List.findSome?_append, Function.comp_def]
  split <;> split <;> simp [hdate, hsha, hexpect, htoken, hauthz]

theorem fieldValue_ifMatch {ifMatch : Bytes} (h : Transmissible ifMatch) :
    fieldValue (utf8 "if-match:") (cStr (utf8 "If-Match: " ++ ifMatch))
      = some (namedVersion ifMatch) := by
  have hline : cStr (utf8 "If-Match: " ++ ifMatch) = utf8 "If-Match:" ++ 32 :: ifMatch := by
    rw [cStr_append (by decide), cStr_eq_self h.1]
    rfl
  have hheader : isHeader (utf8 "if-match:") (utf8 "If-Match:" ++ 32 :: ifMatch) = true := by
    rw [isHeader, List.take_append_of_le_length (by decide)]
    decide
  have hvalue : trimBy isSpace ((utf8 "If-Match:" ++ 32 :: ifMatch).drop (utf8 "if-match:").length)
      = namedVersion ifMatch := by
    have hlen : (utf8 "If-Match:").length = (utf8 "if-match:").length := by decide
    rw [List.drop_left' hlen, trimBy, List.dropWhile_cons_of_pos (by decide), namedVersion, trimBy]
  rw [fieldValue, hline, hheader, hvalue]
  exact if_pos ⟨rfl, h.2⟩

include hextra hrange in
/-- **What the options ask is what the store reads.** -/
theorem requestCondition_httpRequest
    (hmatch : options.ifMatch = [] ∨ Transmissible options.ifMatch) :
    requestCondition (p.httpRequest sha256Raw date) = optionsCondition options := by
  have htype (key : Bytes) (h : 2 ≤ key.length) (hkey : key.take 2 = utf8 "if") :
      fieldValue key (cStr (contentTypeLine options.contentType)) = none :=
    fieldValue_cStr_append 2 h (by decide) (hkey ▸ by decide) (by decide) _
  have habsent : (p.httpRequest sha256Raw date).field (utf8 "if-none-match:")
      = if options.ifNoneMatch then some (utf8 "*") else none := by
    have hctype := htype (utf8 "if-none-match:") (by decide) (by decide)
    have hstar : fieldValue (utf8 "if-none-match:") (cStr (utf8 "If-None-Match: *"))
        = some (utf8 "*") := by decide
    have hline : fieldValue (utf8 "if-none-match:")
        (cStr (utf8 "If-Match: " ++ options.ifMatch)) = none :=
      fieldValue_cStr_append 4 (by decide) (by decide) (by decide) (by decide) _
    rw [field_httpRequest hextra hrange _ _ (by decide), PutOptions.headers]
    split <;> split <;> simp [List.findSome?, hctype, hstar, hline]
  have htag : (p.httpRequest sha256Raw date).field (utf8 "if-match:")
      = (optionsCondition options).tag := by
    have hctype := htype (utf8 "if-match:") (by decide) (by decide)
    have hstar : fieldValue (utf8 "if-match:") (cStr (utf8 "If-None-Match: *")) = none := by decide
    rw [field_httpRequest hextra hrange _ _ (by decide), PutOptions.headers, optionsCondition]
    by_cases hempty : options.ifMatch = []
    · rw [if_pos hempty, if_pos hempty]
      split <;> simp [List.findSome?, hctype, hstar]
    · have hline := fieldValue_ifMatch (hmatch.resolve_left hempty)
      rw [if_neg hempty, if_neg hempty]
      split <;> simp [List.findSome?, hctype, hstar, hline]
  rw [requestCondition, habsent, htag, optionsCondition]
  cases options.ifNoneMatch <;> simp

end Request

section System

variable {ι : Type*} [DecidableEq ι]

/-- The attempt that entering a status sends, if it does. -/
def newAttempt {ι : Type*} (i : ι) (date : Bytes) : Status → Option (InFlight ι)
  | .waiting p left none => some ⟨i, left, p, date⟩
  | _ => none

namespace State

/-- A call enters a status. -/
def enter (s : State ι) (i : ι) (st : Status) (date : Bytes) : State ι where
  history := s.history
  flight := s.flight ++ (newAttempt i date st).toList
  status := Function.update s.status i st

/-- The answer to an attempt reaches its call, if that still waits for it. -/
def answer (s : State ι) (a : InFlight ι) (applied : Bool) (i : ι) : Status :=
  match s.status i with
  | .waiting p left known =>
    .waiting p left (if i = a.call ∧ left = a.left then some applied else known)
  | st => st

/-- The store serves an attempt that has arrived with `body`. A write it applies gets the tag
`etag`. -/
def serve (s : State ι) (sha256Raw : Bytes → Bytes) (a : InFlight ι) (rest : List (InFlight ι))
    (body etag : Bytes) : State ι :=
  let applied := (requestCondition (a.prepared.httpRequest sha256Raw a.date)).Admits
    (current s.history)
  { history := if applied then ⟨etag, body, some a.call⟩ :: s.history else s.history
    flight := rest
    status := s.answer a (decide applied) }

/-- Before any call: a key with any versions of other origin. -/
structure Initial (s : State ι) : Prop where
  author : ∀ v ∈ s.history, v.author = none
  nodup : (s.history.map Version.tag).Nodup
  flight : s.flight = []
  status : ∀ i, s.status i = .idle

/-- The call has returned true. -/
def Succeeded (s : State ι) (i : ι) : Prop := ∃ out, s.status i = .done out ∧ out.ok = true

end State

variable (sha256Raw : Bytes → Bytes) (strerror : CurlCode → Bytes) (args : ι → PutArgs)

/-- One step: a call starts, the store serves an attempt that has arrived whole, or a call gets an
outcome. -/
inductive Step : State ι → State ι → Prop
  | start {s : State ι} (i : ι) (hidle : s.status i = .idle) (got : Credentials)
      (diagnostic : Bytes) (curl : Bool) (date : Bytes) :
      Step s (s.enter i ((args i).firstStatus sha256Raw got diagnostic curl) date)
  | serve {s : State ι} (before : List (InFlight ι)) (a : InFlight ι) (behind : List (InFlight ι))
      (hflight : s.flight = before ++ a :: behind) (reads : List ReadCall)
      (hwhole : (a.prepared.call.upload reads).sent.length = a.prepared.call.bodyLen) (etag : Bytes)
      (hfresh : etag ∉ s.history.map Version.tag) :
      Step s (s.serve sha256Raw a (before ++ behind) (a.prepared.call.upload reads).sent etag)
  | receive {s : State ι} (i : ι) (p : Prepared) (left : ℕ) (answer : Option Bool)
      (hwaiting : s.status i = .waiting p left answer) (t : Transfer)
      (hanswer : t.rc = .ok → t.code = 200 → answer = some true) (date : Bytes) :
      Step s (s.enter i ((args i).nextStatus strerror p left t) date)

/-! ## The invariant -/

/-- A request made for `a`. -/
structure ForCall (a : PutArgs) (call : Call) : Prop where
  headers : call.extraHeaders = a.options.headers
  method : call.method = utf8 "PUT"
  range : call.range = none
  bodyFile : call.bodyFile = none
  body : a.data = some call.body

theorem ForCall.payload {a : PutArgs} {call : Call} (h : ForCall a call) :
    a.data = some call.payload := by
  rw [Call.payload, h.bodyFile]
  exact h.body

theorem forCall_of_putCall {a : PutArgs} {call : Call}
    (h : a.im.putCall a.uri a.data a.options = .ok call) : ForCall a call := by
  rw [ClientImpl.putCall] at h
  split at h
  · cases h
  · split at h
    · cases h
    · next body hdata =>
      split at h
      · cases h
      · split at h
        · cases h
        · cases h
          exact ⟨rfl, rfl, rfl, rfl, hdata⟩

/-- The condition under which an author wrote: what a call's options ask, and nothing for versions
of other origin. -/
def conditionOf : Option ι → Condition Bytes
  | none => {}
  | some i => optionsCondition (args i).options

/-- The call has written a version. -/
def State.WroteBy (s : State ι) (i : ι) : Prop := ∃ v ∈ s.history, v.author = some i

structure Inv (s : State ι) : Prop where
  lawful : Lawful (conditionOf args) s.history
  body : ∀ v ∈ s.history, ∀ i, v.author = some i → (args i).data = some v.body
  flight : ∀ a ∈ s.flight, ForCall (args a.call) a.prepared.call
  waiting : ∀ i p left answer, s.status i = .waiting p left answer → ForCall (args i) p.call
  applied : ∀ i p left, s.status i = .waiting p left (some true) → s.WroteBy i
  succeeded : ∀ i, s.Succeeded i → s.WroteBy i

variable {sha256Raw strerror args}

omit [DecidableEq ι] in
theorem inv_of_initial {s : State ι} (h : s.Initial) : Inv args s where
  lawful := .of_nodup (fun v hv ↦ by rw [h.author v hv]; rfl) h.nodup
  body v hv i hi := by
    rw [h.author v hv] at hi
    cases hi
  flight a ha := by
    rw [h.flight] at ha
    cases ha
  waiting i p left answer hi := by
    rw [h.status i] at hi
    cases hi
  applied i p left hi := by
    rw [h.status i] at hi
    cases hi
  succeeded i hi := by
    obtain ⟨out, hout, -⟩ := hi
    rw [h.status i] at hout
    cases hout

omit [DecidableEq ι] in
theorem eq_of_newAttempt {i : ι} {date : Bytes} {st : Status} {a : InFlight ι}
    (h : newAttempt i date st = some a) : a.call = i ∧ st = .waiting a.prepared a.left none := by
  rw [newAttempt.eq_def] at h
  split at h
  · cases h
    exact ⟨rfl, rfl⟩
  · cases h

theorem status_enter {s : State ι} {i j : ι} {st st' : Status} {date : Bytes}
    (h : (s.enter i st date).status j = st') : (j = i ∧ st = st') ∨ s.status j = st' := by
  have hupdate : Function.update s.status i st j = st' := h
  by_cases hji : j = i
  · subst hji
    rw [Function.update_self] at hupdate
    exact .inl ⟨rfl, hupdate⟩
  · rw [Function.update_of_ne hji] at hupdate
    exact .inr hupdate

theorem Inv.enter {s : State ι} (h : Inv args s) {i : ι} {st : Status} (date : Bytes)
    (hwaiting : ∀ p left answer, st = .waiting p left answer →
      answer = none ∧ ForCall (args i) p.call)
    (hdone : ∀ out, st = .done out → out.ok = true → s.WroteBy i) :
    Inv args (s.enter i st date) where
  lawful := h.lawful
  body := h.body
  flight a ha := by
    rcases List.mem_append.mp ha with ha | ha
    · exact h.flight a ha
    · obtain ⟨rfl, hst⟩ := eq_of_newAttempt (Option.mem_toList.mp ha)
      exact (hwaiting _ _ _ hst).2
  waiting j p left answer hj := by
    obtain ⟨rfl, hst⟩ | hold := status_enter hj
    · exact (hwaiting p left answer hst).2
    · exact h.waiting j p left answer hold
  applied j p left hj := by
    obtain ⟨rfl, hst⟩ | hold := status_enter hj
    · cases (hwaiting p left _ hst).1
    · exact h.applied j p left hold
  succeeded j hj := by
    obtain ⟨out, hout, hok⟩ := hj
    obtain ⟨rfl, hst⟩ | hold := status_enter hout
    · exact hdone out hst hok
    · exact h.succeeded j ⟨out, hold, hok⟩

theorem answer_cases (s : State ι) (a : InFlight ι) (applied : Bool) (i : ι) :
    s.answer a applied i = s.status i ∨ (i = a.call ∧ ∃ p left known,
      s.status i = .waiting p left known ∧
      s.answer a applied i = .waiting p left (some applied)) := by
  cases hst : s.status i with
  | waiting p left known =>
    by_cases hi : i = a.call ∧ left = a.left
    · exact .inr ⟨hi.1, p, left, known, rfl, by simp only [State.answer, hst, if_pos hi]⟩
    · exact .inl (by simp only [State.answer, hst, if_neg hi])
  | idle => exact .inl (by simp only [State.answer, hst])
  | done out => exact .inl (by simp only [State.answer, hst])

theorem Inv.answer {s : State ι} (h : Inv args s) (a : InFlight ι) (applied : Bool)
    {history : List (Version Bytes Bytes (Option ι))} {rest : List (InFlight ι)}
    (hlawful : Lawful (conditionOf args) history)
    (hbody : ∀ v ∈ history, ∀ i, v.author = some i → (args i).data = some v.body)
    (hsub : s.history ⊆ history) (hrest : rest ⊆ s.flight)
    (hself : applied = true → ∃ v ∈ history, v.author = some a.call) :
    Inv args ⟨history, rest, s.answer a applied⟩ where
  lawful := hlawful
  body := hbody
  flight b hb := h.flight b (hrest hb)
  waiting i p left answer hi := by
    obtain hold | ⟨rfl, q, left', known, hold, hnew⟩ := answer_cases s a applied i
    · exact h.waiting i p left answer (hold ▸ hi)
    · cases hnew.symm.trans hi
      exact h.waiting _ _ _ _ hold
  applied i p left hi := by
    obtain hold | ⟨rfl, q, left', known, hold, hnew⟩ := answer_cases s a applied i
    · obtain ⟨v, hv, hauthor⟩ := h.applied i p left (hold ▸ hi)
      exact ⟨v, hsub hv, hauthor⟩
    · cases hnew.symm.trans hi
      exact hself rfl
  succeeded i hi := by
    obtain ⟨out, hout, hok⟩ := hi
    obtain hold | ⟨rfl, q, left', known, hold, hnew⟩ := answer_cases s a applied i
    · obtain ⟨v, hv, hauthor⟩ := h.succeeded i ⟨out, hold ▸ hout, hok⟩
      exact ⟨v, hsub hv, hauthor⟩
    · -- a call that waits has not succeeded
      cases hnew.symm.trans hout

theorem serve_of_admits {s : State ι} {a : InFlight ι}
    (h : (requestCondition (a.prepared.httpRequest sha256Raw a.date)).Admits (current s.history))
    (rest : List (InFlight ι)) (body etag : Bytes) :
    s.serve sha256Raw a rest body etag
      = ⟨⟨etag, body, some a.call⟩ :: s.history, rest, s.answer a true⟩ := by
  simp [State.serve, h]

theorem serve_of_not_admits {s : State ι} {a : InFlight ι}
    (h : ¬(requestCondition (a.prepared.httpRequest sha256Raw a.date)).Admits (current s.history))
    (rest : List (InFlight ι)) (body etag : Bytes) :
    s.serve sha256Raw a rest body etag = ⟨s.history, rest, s.answer a false⟩ := by
  simp [State.serve, h]

theorem Inv.serve {s : State ι} (h : Inv args s)
    (hargs : ∀ i, (args i).options.ifMatch = [] ∨ Transmissible (args i).options.ifMatch)
    {a : InFlight ι} (ha : a ∈ s.flight) {rest : List (InFlight ι)} (hrest : rest ⊆ s.flight)
    {body etag : Bytes} (hbody : body = a.prepared.call.payload)
    (hfresh : etag ∉ s.history.map Version.tag) :
    Inv args (s.serve sha256Raw a rest body etag) := by
  have hfor := h.flight a ha
  have hcond := requestCondition_httpRequest hfor.headers hfor.range sha256Raw a.date (hargs a.call)
  by_cases hadmits : (optionsCondition (args a.call).options).Admits (current s.history)
  · -- the write is applied: a new version, and an answer that says so
    rw [serve_of_admits (hcond.symm ▸ hadmits)]
    refine h.answer a true (h.lawful.write hadmits hfresh) (fun v hv i hi ↦ ?_)
      (List.subset_cons_self _ _) hrest fun _ ↦ ⟨_, List.mem_cons_self, rfl⟩
    rcases List.mem_cons.mp hv with rfl | hv
    · cases hi
      rw [hbody]
      exact hfor.payload
    · exact h.body v hv i hi
  · -- the write is refused: the key stays as it is
    rw [serve_of_not_admits (hcond.symm ▸ hadmits)]
    exact h.answer a false h.lawful h.body (List.Subset.refl _) hrest (by simp)

theorem firstStatus_cases (sha256Raw : Bytes → Bytes) (a : PutArgs)
    (got : Credentials) (diagnostic : Bytes) (curl : Bool) :
    (∃ out, a.firstStatus sha256Raw got diagnostic curl = .done out ∧ out.ok = false) ∨
    ∃ p, a.firstStatus sha256Raw got diagnostic curl = .waiting p kClientRetries none ∧
      ForCall a p.call := by
  rw [PutArgs.firstStatus]
  split
  · exact .inl ⟨_, rfl, rfl⟩
  · next call hcall =>
    split
    · exact .inl ⟨_, rfl, rfl⟩
    · next p hstart =>
      exact .inr ⟨p, rfl, (call_of_startRequest hstart).symm ▸ forCall_of_putCall hcall⟩

/-- A call goes on with the same request, or ends, and then with success only on a 200. -/
theorem nextStatus_cases (strerror : CurlCode → Bytes) (a : PutArgs) (p : Prepared) (left : ℕ)
    (t : Transfer) :
    (∃ left', a.nextStatus strerror p left t = .waiting p left' none) ∨
    ∃ out, a.nextStatus strerror p left t = .done out ∧
      (out.ok = true → t.rc = .ok ∧ t.code = 200) := by
  rw [PutArgs.nextStatus]
  split
  · exact .inl ⟨_, rfl⟩
  · next r hafter =>
    refine .inr ⟨_, rfl, fun hok ↦ ?_⟩
    obtain rfl := Call.receive_of_after hafter
    obtain ⟨-, hrc, hcode⟩ := ClientImpl.ok_putFinish.mp hok
    exact ⟨(rc_receive_eq_ok.mp hrc).2, hcode⟩

theorem inv_step
    (hargs : ∀ i, (args i).options.ifMatch = [] ∨ Transmissible (args i).options.ifMatch)
    (s s' : State ι) (h : Inv args s) (hstep : Step sha256Raw strerror args s s') :
    Inv args s' := by
  cases hstep with
  | start i hidle got diagnostic curl date =>
    obtain ⟨out, hst, hfail⟩ | ⟨p, hst, hfor⟩ :=
      firstStatus_cases sha256Raw (args i) got diagnostic curl
    · rw [hst]
      exact h.enter date (by simp) fun out' hout hok ↦ by
        cases hout
        simp [hfail] at hok
    · rw [hst]
      exact h.enter date (fun p' left answer heq ↦ by cases heq; exact ⟨rfl, hfor⟩) (by simp)
  | serve before a behind hflight reads hwhole etag hfresh =>
    refine h.serve hargs (by rw [hflight]; simp) (fun b hb ↦ ?_) (Call.sent_eq_payload hwhole)
      hfresh
    rw [hflight, List.mem_append]
    exact (List.mem_append.mp hb).imp_right (List.mem_cons_of_mem _)
  | receive i p left answer hwaiting t hanswer date =>
    obtain ⟨left', hst⟩ | ⟨out, hst, hok⟩ :=
      nextStatus_cases strerror (args i) p left t
    · rw [hst]
      exact h.enter date
        (fun p' left answer heq ↦ by cases heq; exact ⟨rfl, h.waiting i p _ _ hwaiting⟩) (by simp)
    · rw [hst]
      refine h.enter date (by simp) fun out' hout htrue ↦ ?_
      cases hout
      -- the 200 is the store's, which has applied the attempt
      obtain ⟨hrc, hcode⟩ := hok htrue
      rw [hanswer hrc hcode] at hwaiting
      exact h.applied i p left hwaiting

/-! ## No update is lost -/

/-- What conditional puts are for: at most one creation succeeds, and it made the first version; a
replacement that succeeds stands directly on the version it named; of several replacements of one
version at most one succeeds. -/
structure Safe (args : ι → PutArgs) (s : State ι) : Prop where
  create_once : ∀ i j, (args i).options.ifNoneMatch = true → (args j).options.ifNoneMatch = true →
    s.Succeeded i → s.Succeeded j → i = j
  create_first : ∀ i, (args i).options.ifNoneMatch = true → s.Succeeded i →
    ∃ v, WrittenOn s.history v [] ∧ v.author = some i ∧ (args i).data = some v.body
  replaced : ∀ i, (args i).options.ifMatch ≠ [] → s.Succeeded i →
    ∃ v w older, WrittenOn s.history v (w :: older) ∧ v.author = some i ∧
      (args i).data = some v.body ∧ w.tag = namedVersion (args i).options.ifMatch
  replace_once : ∀ i j, (args i).options.ifMatch ≠ [] →
    (args i).options.ifMatch = (args j).options.ifMatch → s.Succeeded i → s.Succeeded j → i = j

omit [DecidableEq ι] in
theorem Inv.safe {s : State ι} (h : Inv args s) : Safe args s := by
  have hfirst : ∀ i, (args i).options.ifNoneMatch = true → s.Succeeded i →
      ∃ v, WrittenOn s.history v [] ∧ v.author = some i ∧ (args i).data = some v.body := by
    intro i hcreate hi
    obtain ⟨v, hv, hauthor⟩ := h.succeeded i hi
    exact ⟨v, h.lawful.writtenOn_nil hv (by rw [hauthor]; exact hcreate), hauthor,
      h.body v hv i hauthor⟩
  have hreplaced : ∀ i, (args i).options.ifMatch ≠ [] → s.Succeeded i →
      ∃ v w older, WrittenOn s.history v (w :: older) ∧ v.author = some i ∧
        (args i).data = some v.body ∧ w.tag = namedVersion (args i).options.ifMatch := by
    intro i hmatch hi
    obtain ⟨v, hv, hauthor⟩ := h.succeeded i hi
    obtain ⟨w, older, hon, htag⟩ := h.lawful.writtenOn_tag hv (by rw [hauthor]; exact if_neg hmatch)
    exact ⟨v, w, older, hon, hauthor, h.body v hv i hauthor, htag⟩
  refine ⟨?_, hfirst, hreplaced, ?_⟩
  · intro i j hcreate hcreate' hi hj
    obtain ⟨v, hv, hauthor, -⟩ := hfirst i hcreate hi
    obtain ⟨v', hv', hauthor', -⟩ := hfirst j hcreate' hj
    obtain rfl := eq_of_writtenOn_nil hv hv'
    exact Option.some.inj (hauthor.symm.trans hauthor')
  · intro i j hmatch heq hi hj
    obtain ⟨v, w, older, hv, hauthor, -, htag⟩ := hreplaced i hmatch hi
    obtain ⟨v', w', older', hv', hauthor', -, htag'⟩ := hreplaced j (heq ▸ hmatch) hj
    have hsame : w.tag = w'.tag := by rw [htag, htag', heq]
    obtain rfl := eq_of_writtenOn_tag h.lawful.nodup_tags hv hv' hsame
    exact Option.some.inj (hauthor.symm.trans hauthor')

/-- **Conditional puts never lose an update**, in any interleaving of any number of calls, whatever
responses are lost — as long as every `if_match` value can be sent. -/
theorem safe_of_run
    (hargs : ∀ i, (args i).options.ifMatch = [] ∨ Transmissible (args i).options.ifMatch)
    {s s' : State ι} (hinit : s.Initial)
    (hrun : Relation.ReflTransGen (Step sha256Raw strerror args) s s') : Safe args s' :=
  (Runs.invariant (inv_step hargs) (inv_of_initial hinit) hrun).safe

/-! ## Calls that nothing disturbs -/

theorem answer_self {s : State ι} {a : InFlight ι} {known : Option Bool}
    (h : s.status a.call = .waiting a.prepared a.left known) (applied : Bool) :
    s.answer a applied a.call = .waiting a.prepared a.left (some applied) := by
  rw [State.answer, h]
  simp

theorem answer_of_ne {s : State ι} {a : InFlight ι} {i : ι} (h : i ≠ a.call) (applied : Bool) :
    s.answer a applied i = s.status i := by
  obtain hold | ⟨hi, -⟩ := answer_cases s a applied i
  · exact hold
  · exact absurd hi h

/-- **A call whose condition holds succeeds** when its request gets through and is answered, and
then its body is the current version. -/
theorem succeeds_undisturbed (strerror : CurlCode → Bytes) (args : ι → PutArgs) (s : State ι)
    (i : ι) (etag : Bytes)
    (hidle : s.status i = .idle) (hflight : s.flight = []) {p : Prepared}
    (hp : (args i).firstStatus sha256Raw {} [] true = .waiting p kClientRetries none)
    (hadmits : (requestCondition (p.httpRequest sha256Raw [])).Admits (current s.history))
    {t : Transfer} (hrc : t.rc = .ok) (hcode : t.code = 200) (hempty : t.chunks = [])
    (hread : (p.call.upload t.reads).failed = false)
    (hwhole : (p.call.upload t.reads).sent.length = p.call.bodyLen)
    (hfresh : etag ∉ s.history.map Version.tag) :
    ∃ s', Relation.ReflTransGen (Step sha256Raw strerror args) s s' ∧ s'.Succeeded i ∧
      s'.history = ⟨etag, (p.call.upload t.reads).sent, some i⟩ :: s.history ∧ s'.flight = [] ∧
      ∀ j ≠ i, s'.status j = s.status j := by
  let a : InFlight ι := ⟨i, kClientRetries, p, []⟩
  let s₁ := s.enter i (.waiting p kClientRetries none) []
  let s₂ : State ι :=
    ⟨⟨etag, (p.call.upload t.reads).sent, some i⟩ :: s.history, [], s₁.answer a true⟩
  have hstart : Step sha256Raw strerror args s
      (s.enter i ((args i).firstStatus sha256Raw {} [] true) []) := .start i hidle {} [] true []
  rw [hp] at hstart
  have hstatus₁ : s₁.status i = .waiting p kClientRetries none := Function.update_self _ _ _
  have hserve : Step sha256Raw strerror args s₁ s₂ := by
    have hsent : s₁.flight = [] ++ a :: [] := by
      rw [show s₁.flight = s.flight ++ [a] from rfl, hflight]
    have hcond : (requestCondition (a.prepared.httpRequest sha256Raw a.date)).Admits
        (current s₁.history) := hadmits
    have hstep : Step sha256Raw strerror args s₁
        (s₁.serve sha256Raw a ([] ++ []) (a.prepared.call.upload t.reads).sent etag) :=
      .serve [] a [] hsent t.reads hwhole etag hfresh
    rw [serve_of_admits hcond] at hstep
    exact hstep
  have hstatus₂ : s₂.status i = .waiting p kClientRetries (some true) :=
    answer_self (s := s₁) (a := a) hstatus₁ true
  -- nothing is retried, and a 200 is a success
  have hdone :
      ∃ out, (args i).nextStatus strerror p kClientRetries t = .done out ∧ out.ok = true := by
    have hretries : p.call.retries t = false := by
      simp [Call.retries, hrc, hcode, isRetriableStatus]
    refine ⟨_, by rw [PutArgs.nextStatus, Call.after_of_not_retries hretries], ?_⟩
    rw [ClientImpl.ok_putFinish, rc_receive_eq_ok, Call.receive, hempty]
    exact ⟨rfl, ⟨hread, hrc⟩, hcode⟩
  obtain ⟨out, hnext, hok⟩ := hdone
  have hreceive : Step sha256Raw strerror args s₂
      (s₂.enter i ((args i).nextStatus strerror p kClientRetries t) []) :=
    .receive i p kClientRetries (some true) hstatus₂ t (fun _ _ ↦ rfl) []
  rw [hnext] at hreceive
  refine ⟨s₂.enter i (.done out) [], .head hstart (.head hserve (.single hreceive)),
    ⟨out, Function.update_self _ _ _, hok⟩, rfl, rfl, fun j hj ↦ ?_⟩
  calc (s₂.enter i (.done out) []).status j
      = s₁.answer a true j := Function.update_of_ne hj _ _
    _ = s₁.status j := answer_of_ne hj true
    _ = s.status j := Function.update_of_ne hj _ _

end System

/-! ## Runs -/

/-- A put of one byte to one key. -/
def oneByte (options : PutOptions) : PutArgs where
  im := .usEast
  uri := utf8 "s3://bucket/key"
  data := some [1]
  options := options

/-- A transfer that answers 200. -/
def answered : Transfer := { code := 200, reads := [{ capacity := 1 }] }

theorem upload_oneByte {options : PutOptions} {call : Call} (h : ForCall (oneByte options) call) :
    (call.upload answered.reads).failed = false ∧ (call.upload answered.reads).sent = [1] ∧
      call.bodyLen = 1 := by
  have hbody : call.body = [1] := (Option.some.inj h.body).symm
  simp [Call.upload, Call.isPut, Call.bodyLen, h.method, h.bodyFile, hbody, answered, uploadRead]

/-- The key is created, and then the version just written is replaced. -/
def createThenReplace : Bool → PutArgs
  | true => oneByte { ifNoneMatch := true }
  | false => oneByte { ifMatch := utf8 "\"1\"" }

theorem safe_createThenReplace : ∃ s : State Bool, s.Succeeded true ∧ s.Succeeded false ∧
    Safe createThenReplace s := by
  have hinit : State.Initial (⟨[], [], fun _ ↦ .idle⟩ : State Bool) :=
    ⟨by simp, by simp, rfl, fun _ ↦ rfl⟩
  have hsendable : ∀ i, (createThenReplace i).options.ifMatch = [] ∨
      Transmissible (createThenReplace i).options.ifMatch := by decide
  obtain ⟨p, hp, hcreate⟩ : ∃ p, (createThenReplace true).firstStatus id {} [] true
      = .waiting p kClientRetries none ∧ ForCall (createThenReplace true) p.call :=
    ⟨_, rfl, rfl, rfl, rfl, rfl, rfl⟩
  obtain ⟨q, hq, hreplace⟩ : ∃ q, (createThenReplace false).firstStatus id {} [] true
      = .waiting q kClientRetries none ∧ ForCall (createThenReplace false) q.call :=
    ⟨_, rfl, rfl, rfl, rfl, rfl, rfl⟩
  obtain ⟨hread, hsent, hlen⟩ := upload_oneByte hcreate
  obtain ⟨hread', hsent', hlen'⟩ := upload_oneByte hreplace
  have hcond := requestCondition_httpRequest hcreate.headers hcreate.range id [] (hsendable true)
  have hcond' :=
    requestCondition_httpRequest hreplace.headers hreplace.range id [] (hsendable false)
  obtain ⟨s₁, hrun, hok, hhistory, hflight, hrest⟩ :=
    succeeds_undisturbed (fun _ ↦ []) createThenReplace ⟨[], [], fun _ ↦ .idle⟩ true (utf8 "\"1\"")
      rfl rfl hp
      (by rw [hcond]; decide) rfl rfl rfl hread (by rw [hsent, hlen]; rfl) (by simp)
  have hcurrent : current s₁.history = some (utf8 "\"1\"") := by rw [hhistory]; rfl
  obtain ⟨s₂, hrun', hok', hhistory', -, hrest'⟩ :=
    succeeds_undisturbed (fun _ ↦ []) createThenReplace s₁ false (utf8 "\"2\"")
      (hrest false (by decide)) hflight hq
      (by rw [hcond', hcurrent]; decide) rfl rfl rfl hread' (by rw [hsent', hlen']; rfl)
      (by rw [hhistory]; exact (by decide : utf8 "\"2\"" ∉ [utf8 "\"1\""]))
  refine ⟨s₂, ?_, hok', safe_of_run hsendable hinit (hrun.trans hrun')⟩
  obtain ⟨out, hout, htrue⟩ := hok
  exact ⟨out, (hrest' true (by decide)).trans hout, htrue⟩

/-- An `if_match` of one blank is not sent, and the put replaces a version it did not name. -/
theorem not_safe_blankMatch : ¬∀ (args : Unit → PutArgs) (s s' : State Unit), s.Initial →
    Relation.ReflTransGen (Step id (fun _ ↦ []) args) s s' → Safe args s' := by
  intro hall
  let s : State Unit := ⟨[⟨utf8 "\"1\"", [0], none⟩], [], fun _ ↦ .idle⟩
  have hinit : s.Initial := ⟨by simp [s], by simp [s], rfl, fun _ ↦ rfl⟩
  obtain ⟨p, hp, hfor⟩ : ∃ p, (oneByte { ifMatch := utf8 " " }).firstStatus id {} [] true
      = .waiting p kClientRetries none ∧ ForCall (oneByte { ifMatch := utf8 " " }) p.call :=
    ⟨_, rfl, rfl, rfl, rfl, rfl, rfl⟩
  obtain ⟨hread, hsent, hlen⟩ := upload_oneByte hfor
  -- the store reads no condition off the request
  have hcond : requestCondition (p.httpRequest id []) = {} := by
    rw [requestCondition, field_httpRequest hfor.headers hfor.range _ _ (by decide),
      field_httpRequest hfor.headers hfor.range _ _ (by decide)]
    decide
  obtain ⟨s', hrun, hok, hhistory, -⟩ :=
    succeeds_undisturbed (fun _ ↦ []) (fun _ ↦ oneByte { ifMatch := utf8 " " }) s ()
      (utf8 "\"2\"") rfl rfl hp
      (by rw [hcond]; exact Condition.admits_unconditional _) rfl rfl rfl hread
      (by rw [hsent, hlen]; rfl) (by decide)
  obtain ⟨v, w, older, ⟨newer, hon⟩, -, -, htag⟩ :=
    (hall _ s s' hinit hrun).replaced () (by decide) hok
  have hw : w ∈ s'.history := by rw [hon]; simp
  have hempty : w.tag = [] := htag.trans (by decide)
  rw [hhistory, List.mem_cons, List.mem_singleton] at hw
  obtain rfl | rfl := hw
  · exact absurd hempty (show utf8 "\"2\"" ≠ [] by decide)
  · exact absurd hempty (show utf8 "\"1\"" ≠ [] by decide)

end ConditionalPut

end Nanos3Reader
