import Nanos3Reader.Client.UploadRequests
import Nanos3Reader.MultipartUpload.Assembly

/-!
# Uploads side by side

Any number of calls of `put_file`, of any number of clients and for any objects, running side by
side against one service, which other programs use as well. Small files go up with one request,
large ones in parts that several threads send. Requests may be lost, repeated and served late; the
service reads off the wire what is asked.

A 200 for the first request of a call, and one for the completion of an upload, is the service's own
answer to such a request. Nothing is assumed of other replies, not even of those for parts: the
service itself compares the tags it is told with those it gave.
-/

open ByteText ObjectApi

namespace Nanos3Reader

namespace ConcurrentUploads

open UploadStore (Request)
open UploadStore.Store (Creates)

/-- A call of `put_file`, and the client it is made on. -/
structure Calling where
  im : ClientImpl
  args : PutFileArgs

/-- What is asked of the arguments of a call: its client is one of this service, and its target can
be routed to. -/
structure Calling.Proper (c : Calling) (addressing : Addressing) : Prop where
  addressing : c.im.cfg.addressing c.im.cfg.region = addressing
  routes : ∀ bucket key, c.im.target c.args.uri true = .ok (bucket, key) →
    c.im.cfg.Routes bucket key c.im.cfg.region

/-- Where a call is: waiting for the reply to its first request, with its upload going on in parts,
or ended. Numbers are places of the log. -/
inductive Status where
  | idle
  | asking (begun : ℕ) (u : FileUpload) (p : Prepared) (left : ℕ)
  | inParts (begun : ℕ) (u : FileUpload) (uploadId : Bytes) (ms : Multipart.State u.threads)
  | done (begun ended : ℕ) (u : Option FileUpload) (out : Outcome (Option Bytes))

/-- A request on its way to the service. -/
structure InFlight (ι : Type*) where
  call : ι
  prepared : Prepared
  date : Bytes

abbrev Service := UploadStore.Store (Bytes × Bytes) Bytes Bytes UInt8

/-- What happens at the service, by the calls that the requests were made for. -/
abbrev Log (ι : Type*) :=
  List (UploadStore.Event (ι × Call) (Bytes × Bytes) Bytes Bytes UInt8)

structure State (ι : Type*) where
  log : Log ι
  flight : List (InFlight ι)
  status : ι → Status

/-! ## The calls -/

/-- A call up to its first request. -/
def Calling.firstStatus (c : Calling) (sha256Raw : Bytes → Bytes) (begun : ℕ) (file : FileStatus)
    (opened : Option Bytes) (reads : Bool) (got : Credentials) (diagnostic : Bytes) (curl : Bool) :
    Status :=
  match c.im.acceptFile c.args file with
  | .error e => .done begun begun none ⟨false, c.args.etag, e⟩
  | .ok u =>
    match u.firstCall sha256Raw opened reads with
    | .error e => .done begun begun (some u) ⟨false, u.etag, e⟩
    | .ok call =>
      match startRequest sha256Raw u.im.cfg u.im.fixedCreds got diagnostic curl call with
      | .error e => .done begun begun (some u) ⟨false, u.etag, e⟩
      | .ok p => .asking begun u p kClientRetries

/-- A call after the reply to its first request. -/
def firstReply (strerror : CurlCode → Bytes) (begun ended : ℕ) (u : FileUpload) (r : Reply) :
    Status :=
  if u.Single then .done begun ended (some u) (u.singleFinish strerror r)
  else
    match u.createFinish strerror r with
    | .error e => .done begun ended (some u) ⟨false, u.etag, e⟩
    | .ok uploadId => .inParts begun u uploadId .initial

/-- A call after the outcome of an attempt of its first request. -/
def nextStatus (strerror : CurlCode → Bytes) (begun ended : ℕ) (u : FileUpload) (p : Prepared)
    (left : ℕ) (t : Transfer) : Status :=
  match p.call.after left t with
  | .inl left => .asking begun u p left
  | .inr r => firstReply strerror begun ended u r

/-- A request that a call waits for. -/
def Status.UnderWay (p : Prepared) : Status → Prop
  | .asking _ _ p' _ => p' = p
  | .inParts _ _ _ ms => ∃ who, ms.underWay who = some p
  | _ => False

/-- A reply tells an answer. A completion that has failed can be answered with a 200 and an error
body. -/
def Conveys (r : Reply) : Request (Bytes × Bytes) Bytes Bytes UInt8 →
    UploadStore.Answer Bytes Bytes → Prop
  | _, .written => True
  | _, .created uploadId => xmlTag r.text (utf8 "UploadId") = uploadId
  | _, .stored tag => r.etag = tag
  | _, .aborted => True
  | .complete _ _ _, .refused => FileUpload.hasError r.text = true
  | _, .refused => False

section System

variable {ι : Type*} [DecidableEq ι]

namespace State

/-- A call enters a status. -/
def enter (s : State ι) (i : ι) (st : Status) : State ι :=
  { s with status := Function.update s.status i st }

@[simp] theorem status_enter_self (s : State ι) (i : ι) (st : Status) :
    (s.enter i st).status i = st := Function.update_self _ _ _

def send (s : State ι) (a : InFlight ι) : State ι := { s with flight := s.flight ++ [a] }

/-- The service serves what has arrived. -/
def serve (s : State ι) (a : InFlight ι) (rest : List (InFlight ι))
    (req : Request (Bytes × Bytes) Bytes Bytes UInt8) (id tag : Bytes) : State ι where
  log := s.log ++ [.served (a.call, a.prepared.call) req id tag]
  flight := rest
  status := s.status

/-- An object changes by other hands. -/
def change (s : State ι) (k : Bytes × Bytes) (o : Option Bytes) : State ι :=
  { s with log := s.log ++ [.changed k o] }

/-- Before any call. -/
structure Initial (s : State ι) : Prop where
  log : s.log = []
  flight : s.flight = []
  status : ∀ i, s.status i = .idle

end State

/-- A reply that looks fine is the service's answer to such a request, served since the call began.
-/
def Truthful (os : Service) (log : Log ι) (author : ι × Call) (begun : ℕ) (r : Reply) : Prop :=
  FileUpload.Fine r → ∃ n req id tag, begun ≤ n ∧
    log[n]? = some (.served author req id tag) ∧ Conveys r req ((os.before log n).answer id tag req)

variable (env : Outside) (os : Service) (addressing : Addressing) (calls : ι → Calling)

/-- One step: a call starts; a request that is under way gets on its way to the service, or is
served when it has arrived whole; an object changes otherwise; a call hears of its first request; a
thread of an upload goes on; a call returns.

Without parts `reserve` throws behind the creation of the upload, and the call does not return. -/
inductive Step : State ι → State ι → Prop
  | start {s : State ι} (i : ι) (hidle : s.status i = .idle) (file : FileStatus)
      (opened : Option Bytes) (reads : Bool) (got : Credentials) (diagnostic : Bytes)
      (curl : Bool) : Step s (s.enter i ((calls i).firstStatus env.sha256Raw s.log.length file
        opened reads got diagnostic curl))
  | send {s : State ι} (i : ι) {p : Prepared} (hway : (s.status i).UnderWay p)
      (hcred : p.cred.Presentable) (m : ℕ) : Step s (s.send ⟨i, p, env.amzNow m⟩)
  | serve {s : State ι} (before : List (InFlight ι)) (a : InFlight ι) (behind : List (InFlight ι))
      (hflight : s.flight = before ++ a :: behind) (reads : List ReadCall)
      (hwhole : (a.prepared.call.upload reads).sent.length = a.prepared.call.bodyLen)
      {cmd : Command} (hcmd : command addressing ((a.prepared.httpRequest env.sha256Raw
        a.date).arrived (a.prepared.call.upload reads).sent) = some cmd)
      {req : Request (Bytes × Bytes) Bytes Bytes UInt8} (hreq : uploadRequest cmd = some req)
      (id tag : Bytes) : Step s (s.serve a (before ++ behind) req id tag)
  | change {s : State ι} (k : Bytes × Bytes) (o : Option Bytes) : Step s (s.change k o)
  | receive {s : State ι} (i : ι) (begun : ℕ) (u : FileUpload) (p : Prepared) (left : ℕ)
      (hasking : s.status i = .asking begun u p left) (t : Transfer)
      (htrue : ∀ r, p.call.after left t = .inr r → Truthful os s.log (i, p.call) begun r) :
      Step s (s.enter i (nextStatus env.strerror begun s.log.length u p left t))
  | thread {s : State ι} (i : ι) (begun : ℕ) (u : FileUpload) (uploadId : Bytes)
      (ms ms' : Multipart.State u.threads) (hinParts : s.status i = .inParts begun u uploadId ms)
      (hparts : 1 ≤ u.parts)
      (hstep : Multipart.Step False u uploadId env.sha256Raw env.strerror ms ms')
      (htrue : ∀ p left r, ms.caller = .sendingCompletion p left →
        ms'.log = ms.log ++ [.finish none (some r)] →
          Truthful os s.log (i, p.call) begun r) :
      Step s (s.enter i (.inParts begun u uploadId ms'))
  | returns {s : State ι} (i : ι) (begun : ℕ) (u : FileUpload) (uploadId : Bytes)
      (ms : Multipart.State u.threads) (hinParts : s.status i = .inParts begun u uploadId ms)
      (out : Outcome (Option Bytes)) (hout : ms.caller = .returned out) :
      Step s (s.enter i (.done begun s.log.length (some u) out))

/-- A step that starts no call. -/
def Goes (s s' : State ι) : Prop :=
  Step env os addressing calls s s' ∧ ∀ i, s.status i = .idle → s'.status i = .idle

end System

/-! ## The invariant -/

section Invariant

variable {ι : Type*}

/-- The call has begun at the place `begun`, and is about the upload `u`. -/
def Status.About (begun : ℕ) (u : FileUpload) : Status → Prop
  | .idle => False
  | .asking begun' u' _ _ => begun' = begun ∧ u' = u
  | .inParts begun' u' _ _ => begun' = begun ∧ u' = u
  | .done begun' _ u' _ => begun' = begun ∧ u' = some u

theorem Status.about_inParts {st : Status} {begun : ℕ} {u : FileUpload} {uploadId : Bytes}
    {ms : Multipart.State u.threads} (h : st = .inParts begun u uploadId ms) : st.About begun u :=
  h ▸ ⟨rfl, rfl⟩

theorem Status.About.unique {st : Status} {begun begun' : ℕ} {u u' : FileUpload}
    (h : st.About begun u) (h' : st.About begun' u') : begun = begun' ∧ u = u' := by
  rcases st with _ | ⟨b, v, p, left⟩ | ⟨b, v, uploadId, ms⟩ | ⟨b, ended, v, out⟩
  · exact h.elim
  · exact ⟨h.1.symm.trans h'.1, h.2.symm.trans h'.2⟩
  · exact ⟨h.1.symm.trans h'.1, h.2.symm.trans h'.2⟩
  · exact ⟨h.1.symm.trans h'.1, Option.some.inj (h.2.symm.trans h'.2)⟩

/-- A name that the service has given to an upload of the call `i`. -/
def Given (os : Service) (log : Log ι) (i : ι) (u : FileUpload) (uploadId : Bytes) : Prop :=
  ∃ n, Creates os log (i, u.createCall) u.name uploadId n

/-- From `begun` to `ended` a request of the call `i` has left the file behind. -/
def Written (os : Service) (log : Log ι) (i : ι) (u : FileUpload) (begun ended : ℕ) : Prop :=
  ∃ n call req id tag, begun ≤ n ∧ n < ended ∧ log[n]? = some (.served (i, call) req id tag) ∧
    (os.before log n).Leaves u.name u.file.content (.served (i, call) req id tag)

/-- What is known of a call. -/
def Status.Sound (env : Outside) (os : Service) (log : Log ι) (c : Calling) (i : ι) : Status → Prop
  | .idle => True
  | .asking begun u p _ => c.im.Accepted c.args u ∧ begun ≤ log.length ∧
    Multipart.Requested u env.sha256Raw (u.Wanted (Given os log i u) env.sha256Raw) p ∧
      ((u.Single ∧ ∃ hash, p.call = u.singleCall hash) ∨ (¬u.Single ∧ p.call = u.createCall))
  | .inParts begun u uploadId ms => c.im.Accepted c.args u ∧ begun ≤ log.length ∧ ¬u.Single ∧
    Given os log i u uploadId ∧ Relation.ReflTransGen
      (Multipart.Step False u uploadId env.sha256Raw env.strerror) .initial ms ∧
      ∀ out, ms.caller = .returned out → out.ok = true → Written os log i u begun log.length
  | .done begun ended u out => begun ≤ ended ∧ ended ≤ log.length ∧
    (∀ u' ∈ u, c.im.Accepted c.args u') ∧
      (out.ok = true → ∃ u' ∈ u, Written os log i u' begun ended)

structure Inv (env : Outside) (os : Service) (calls : ι → Calling) (s : State ι) : Prop where
  flight : ∀ a ∈ s.flight, ∃ begun u, (s.status a.call).About begun u ∧
    Multipart.Requested u env.sha256Raw (u.Wanted (Given os s.log a.call u) env.sha256Raw)
        a.prepared ∧
      a.prepared.cred.Presentable ∧ ∃ m, a.date = env.amzNow m
  asked : ∀ n i call req id tag, s.log[n]? = some (.served (i, call) req id tag) →
    ∃ begun u, (s.status i).About begun u ∧ begun ≤ n ∧
      u.Wants (Given os s.log i u) env.sha256Raw call req
  sound : ∀ i, (s.status i).Sound env os s.log (calls i) i

variable {env : Outside} {os : Service} {calls : ι → Calling} {s : State ι}

theorem inv_of_initial (h : s.Initial) : Inv env os calls s where
  flight a ha := by
    rw [h.flight] at ha
    cases ha
  asked n i call req id tag hn := by
    rw [h.log] at hn
    cases hn
  sound i := by
    rw [h.status i]
    trivial

theorem Status.Sound.accepted {log : Log ι} {c : Calling} {i : ι} {st : Status}
    (h : st.Sound env os log c i) {begun : ℕ} {u : FileUpload} (habout : st.About begun u) :
    c.im.Accepted c.args u ∧ begun ≤ log.length := by
  rcases st with _ | ⟨b, v, p, left⟩ | ⟨b, v, uploadId, ms⟩ | ⟨b, ended, v, out⟩
  · exact habout.elim
  · obtain ⟨rfl, rfl⟩ := habout
    exact ⟨h.1, h.2.1⟩
  · obtain ⟨rfl, rfl⟩ := habout
    exact ⟨h.1, h.2.1⟩
  · obtain ⟨rfl, rfl⟩ := habout
    exact ⟨h.2.2.1 u rfl, h.1.trans h.2.1⟩

/-! ### What stays known while the log grows -/

variable {log more : Log ι} {i : ι} {u : FileUpload}

theorem Given.append {uploadId : Bytes} (h : Given os log i u uploadId) :
    Given os (log ++ more) i u uploadId := by
  obtain ⟨n, ⟨⟨tag, hentry⟩, hfresh⟩⟩ := h
  have hn : n < log.length := (List.getElem?_eq_some_iff.mp hentry).1
  refine ⟨n, ⟨tag, ?_⟩, ?_⟩
  · rw [List.getElem?_append_left hn, hentry]
  · rw [UploadStore.Store.before_append (Nat.le_of_lt hn), hfresh]

theorem Written.append {begun ended : ℕ} (h : Written os log i u begun ended) :
    Written os (log ++ more) i u begun ended := by
  obtain ⟨n, call, req, id, tag, hbegun, hended, hentry, hleaves⟩ := h
  have hn : n < log.length := (List.getElem?_eq_some_iff.mp hentry).1
  refine ⟨n, call, req, id, tag, hbegun, hended, ?_, ?_⟩
  · rw [List.getElem?_append_left hn, hentry]
  · rw [UploadStore.Store.before_append (Nat.le_of_lt hn)]
    exact hleaves

theorem Written.mono {begun ended ended' : ℕ} (h : Written os log i u begun ended)
    (hle : ended ≤ ended') : Written os log i u begun ended' := by
  obtain ⟨n, call, req, id, tag, hbegun, hended, hwhat⟩ := h
  exact ⟨n, call, req, id, tag, hbegun, hended.trans_le hle, hwhat⟩

theorem requested_append {p : Prepared}
    (h : Multipart.Requested u env.sha256Raw (u.Wanted (Given os log i u) env.sha256Raw) p) :
    Multipart.Requested u env.sha256Raw (u.Wanted (Given os (log ++ more) i u) env.sha256Raw)
      p := by
  obtain ⟨hstart, req, hwants⟩ := h
  exact ⟨hstart, req, hwants.mono fun id hid ↦ hid.append⟩

theorem Status.Sound.append {c : Calling} {st : Status} (h : st.Sound env os log c i) :
    st.Sound env os (log ++ more) c i := by
  have hle : log.length ≤ (log ++ more).length := by simp
  rcases st with _ | ⟨begun, v, p, left⟩ | ⟨begun, v, uploadId, ms⟩ | ⟨begun, ended, v, out⟩
  · trivial
  · obtain ⟨haccepted, hbegun, hrequested, hcall⟩ := h
    exact ⟨haccepted, hbegun.trans hle, requested_append hrequested, hcall⟩
  · obtain ⟨haccepted, hbegun, hlarge, hgiven, hrun, hwritten⟩ := h
    exact ⟨haccepted, hbegun.trans hle, hlarge, hgiven.append, hrun, fun out hout hok ↦
      (hwritten out hout hok).append.mono hle⟩
  · obtain ⟨hbegun, hended, haccepted, hwritten⟩ := h
    refine ⟨hbegun, hended.trans hle, haccepted, fun hok ↦ ?_⟩
    obtain ⟨v', hv', hwhat⟩ := hwritten hok
    exact ⟨v', hv', hwhat.append⟩

theorem Inv.append (h : Inv env os calls s)
    (e : UploadStore.Event (ι × Call) (Bytes × Bytes) Bytes Bytes UInt8)
    (he : ∀ i call req id tag, e = .served (i, call) req id tag → ∃ begun u,
      (s.status i).About begun u ∧ u.Wants (Given os s.log i u) env.sha256Raw call req) :
    Inv env os calls { s with log := s.log ++ [e] } where
  flight a ha := by
    obtain ⟨begun, u, habout, hrequested, hwhat⟩ := h.flight a ha
    exact ⟨begun, u, habout, requested_append hrequested, hwhat⟩
  asked n i call req id tag hn := by
    rcases Nat.lt_or_ge n s.log.length with hlt | hge
    · rw [List.getElem?_append_left hlt] at hn
      obtain ⟨begun, u, habout, hle, hwants⟩ := h.asked n i call req id tag hn
      exact ⟨begun, u, habout, hle, hwants.mono fun id hid ↦ hid.append⟩
    · rw [List.getElem?_append_right hge, List.getElem?_singleton] at hn
      split at hn
      · obtain ⟨begun, u, habout, hwants⟩ := he i call req id tag (Option.some.inj hn)
        exact ⟨begun, u, habout, ((h.sound i).accepted habout).2.trans hge,
          hwants.mono fun id hid ↦ hid.append⟩
      · cases hn
  sound i := (h.sound i).append

variable [DecidableEq ι]

theorem status_enter {j : ι} {st : Status} :
    (s.enter i st).status j = if j = i then st else s.status j := Function.update_apply _ _ _ _

theorem Inv.enter (h : Inv env os calls s) {st : Status}
    (hsound : st.Sound env os s.log (calls i) i)
    (hgoes : ∀ begun u, (s.status i).About begun u → st.About begun u) :
    Inv env os calls (s.enter i st) where
  flight a ha := by
    obtain ⟨begun, u, habout, hwhat⟩ := h.flight a ha
    refine ⟨begun, u, ?_, hwhat⟩
    rw [status_enter]
    split
    · next heq => exact hgoes begun u (heq ▸ habout)
    · exact habout
  asked n j call req id tag hn := by
    obtain ⟨begun, u, habout, hwhat⟩ := h.asked n j call req id tag hn
    refine ⟨begun, u, ?_, hwhat⟩
    rw [status_enter]
    split
    · next heq => exact hgoes begun u (heq ▸ habout)
    · exact habout
  sound j := by
    rw [status_enter]
    split
    · next heq => exact heq ▸ hsound
    · exact h.sound j

omit [DecidableEq ι]

theorem Status.Sound.requested {c : Calling} {st : Status} (h : st.Sound env os log c i)
    {p : Prepared} (hway : st.UnderWay p) : ∃ begun u, st.About begun u ∧
      Multipart.Requested u env.sha256Raw (u.Wanted (Given os log i u) env.sha256Raw) p := by
  rcases st with _ | ⟨begun, v, p', left⟩ | ⟨begun, v, uploadId, ms⟩ | ⟨begun, ended, v, out⟩
  · exact hway.elim
  · obtain rfl : p' = p := hway
    exact ⟨begun, v, ⟨rfl, rfl⟩, h.2.2.1⟩
  · obtain ⟨who, hp⟩ := hway
    obtain ⟨-, -, -, hgiven, hrun, -⟩ := h
    have hasking := Multipart.asking_of_run (v.covers_wanted hgiven env.sha256Raw) hrun
    exact ⟨begun, v, ⟨rfl, rfl⟩, hasking.requested hp⟩
  · exact hway.elim

/-! ### What is left behind -/

/-- **What is put together of an upload is the file**, whatever else is served. -/
theorem Inv.completed (h : Inv env os calls s) {n : ℕ} {call : Call} {k : Bytes × Bytes}
    {uploadId : Bytes} {listing : List (ℕ × Bytes)} {id tag body : Bytes}
    (hn : s.log[n]? = some (.served (i, call) (.complete k uploadId listing) id tag))
    (hbody : (os.before s.log n).assemble k uploadId listing = some body) : ∃ begun u,
      (s.status i).About begun u ∧ begun ≤ n ∧ k = u.name ∧ body = u.file.content := by
  obtain ⟨begun, u, habout, hle, hwants⟩ := h.asked n i call _ id tag hn
  refine ⟨begun, u, habout, hle, ?_⟩
  cases hwants with
  | complete hid etags =>
    refine ⟨rfl, ?_⟩
    obtain ⟨m, hcreates⟩ := hid
    have hparts : 1 ≤ u.parts := by
      by_contra hzero
      obtain ⟨up, -, hup⟩ := Option.bind_eq_some_iff.mp hbody
      rw [Nat.lt_one_iff.mp (not_le.mp hzero)] at hup
      cases hup
    -- the parts of this upload were sent for this call, by the plan of its file
    have hslices : ∀ j < n, ∀ author m body id tag,
        s.log[j]? = some (.served author (.part u.name uploadId m body) id tag) →
          body = u.slice (m - 1) := by
      rintro j - ⟨i', call'⟩ m' body' id' tag' hj
      obtain ⟨begun', u', habout', -, hwants'⟩ := h.asked j i' call' _ id' tag' hj
      generalize hk : u.name = k at hj hwants'
      cases hwants' with
      | part hid' hi hhash =>
        obtain ⟨m'', hcreates'⟩ := hid'
        obtain ⟨hauthor, -⟩ := hcreates.unique hcreates'
        obtain rfl := (Prod.mk.inj hauthor).1
        obtain ⟨-, rfl⟩ := habout.unique habout'
        rfl
    rw [UploadStore.Store.assembled hcreates.new hslices hbody, List.map_map]
    exact u.flatten_slices hparts

/-- **What is left behind for a call is its file.** -/
theorem Inv.left (h : Inv env os calls s) {n : ℕ} {call : Call} {k : Bytes × Bytes}
    {req : Request (Bytes × Bytes) Bytes Bytes UInt8} {id tag body : Bytes}
    (hn : s.log[n]? = some (.served (i, call) req id tag))
    (hleaves : (os.before s.log n).Leaves k body (.served (i, call) req id tag)) :
    ∃ begun u, (s.status i).About begun u ∧ begun ≤ n ∧ k = u.name ∧ body = u.file.content := by
  cases hleaves with
  | put _ _ _ =>
    obtain ⟨begun, u, habout, hle, hwants⟩ := h.asked n i call _ id tag hn
    cases hwants with
    | single hsingle reads hhash => exact ⟨begun, u, habout, hle, rfl, rfl⟩
  | completed _ _ _ hbody => exact h.completed hn hbody

theorem Inv.written (h : Inv env os calls s) {n begun : ℕ} {call : Call}
    {req : Request (Bytes × Bytes) Bytes Bytes UInt8} {id tag : Bytes}
    (habout : (s.status i).About begun u) (hle : begun ≤ n)
    (hn : s.log[n]? = some (.served (i, call) req id tag))
    (hanswer : (os.before s.log n).answer id tag req = .written) :
    Written os s.log i u begun s.log.length := by
  have hlt : n < s.log.length := (List.getElem?_eq_some_iff.mp hn).1
  obtain ⟨k, body, hleaves⟩ := UploadStore.Store.exists_leaves (i, call) hanswer
  obtain ⟨begun', u', habout', -, rfl, rfl⟩ := h.left hn hleaves
  obtain ⟨-, rfl⟩ := habout.unique habout'
  exact ⟨n, call, req, id, tag, hle, hlt, hn, hleaves⟩

theorem Inv.overflow (h : Inv env os calls s) {begun : ℕ} {uploadId : Bytes}
    {ms : Multipart.State u.threads} (hinParts : s.status i = .inParts begun u uploadId ms)
    (hparts : u.parts = 0) : 2 ^ 64 < u.size + u.partSize := by
  have hsound := h.sound i
  rw [hinParts] at hsound
  obtain ⟨-, -, hlarge, -⟩ := hsound
  have hpos : 1 ≤ u.size := by
    rw [FileUpload.Single, FileUpload.threshold] at hlarge
    omega
  by_contra hle
  have hsize := u.partSize_pos
  rw [FileUpload.parts, Nat.mod_eq_of_lt (by omega), Nat.div_eq_zero_iff_lt hsize] at hparts
  omega

/-! ### Steps -/

theorem Inv.written_of_put (h : Inv env os calls s) {begun : ℕ} {hash : Bytes} {r : Reply}
    (habout : (s.status i).About begun u)
    (htrue : Truthful os s.log (i, u.singleCall hash) begun r) (hfine : FileUpload.Fine r) :
    Written os s.log i u begun s.log.length := by
  obtain ⟨n, req, id, tag, hle, hn, -⟩ := htrue hfine
  obtain ⟨begun', u', habout', -, hwants⟩ := h.asked n i _ req id tag hn
  obtain ⟨rfl, rfl⟩ := habout.unique habout'
  obtain rfl := hwants.of_singleCall
  exact h.written habout hle hn rfl

theorem Inv.given_of_create (h : Inv env os calls s) {begun : ℕ} {r : Reply}
    (habout : (s.status i).About begun u)
    (htrue : Truthful os s.log (i, u.createCall) begun r) (hfine : FileUpload.Fine r) :
    Given os s.log i u (xmlTag r.text (utf8 "UploadId")) := by
  obtain ⟨n, req, id, tag, -, hn, hconveys⟩ := htrue hfine
  obtain ⟨begun', u', habout', -, hwants⟩ := h.asked n i _ req id tag hn
  obtain ⟨rfl, rfl⟩ := habout.unique habout'
  obtain rfl := hwants.of_createCall
  rw [UploadStore.Store.answer] at hconveys
  split at hconveys
  · next hnone =>
    have hid : xmlTag r.text (utf8 "UploadId") = id := hconveys
    rw [hid]
    exact ⟨n, ⟨tag, hn⟩, Option.isNone_iff_eq_none.mp hnone⟩
  · exact hconveys.elim

theorem Inv.written_of_completion (h : Inv env os calls s) {begun : ℕ} {uploadId : Bytes}
    {etags : ℕ → Bytes} {r : Reply} (habout : (s.status i).About begun u)
    (htrue : Truthful os s.log (i, u.completeCall uploadId etags) begun r)
    (hfine : FileUpload.Fine r) (hclean : FileUpload.hasError r.text = false) :
    Written os s.log i u begun s.log.length := by
  obtain ⟨n, req, id, tag, hle, hn, hconveys⟩ := htrue hfine
  obtain ⟨begun', u', habout', -, hwants⟩ := h.asked n i _ req id tag hn
  obtain ⟨rfl, rfl⟩ := habout.unique habout'
  obtain ⟨uploadId', listing, rfl⟩ := hwants.of_completeCall
  refine h.written habout hle hn ?_
  rw [UploadStore.Store.answer] at hconveys ⊢
  split
  · rfl
  · next hnone =>
    rw [if_neg hnone] at hconveys
    have herror : FileUpload.hasError r.text = true := hconveys
    rw [hclean] at herror
    cases herror

theorem sound_firstStatus (c : Calling) (file : FileStatus) (opened : Option Bytes)
    (reads : Bool) (got : Credentials) (diagnostic : Bytes) (curl : Bool) :
    (c.firstStatus env.sha256Raw log.length file opened reads got diagnostic curl).Sound env os log
      c i := by
  rw [Calling.firstStatus]
  split
  · exact ⟨le_rfl, le_rfl, fun u hu ↦ (by cases hu), fun hok ↦ (by cases hok)⟩
  · next u haccept =>
    have haccepted := ClientImpl.of_acceptFile haccept
    split
    · exact ⟨le_rfl, le_rfl, fun u' hu' ↦ Option.some.inj hu' ▸ haccepted,
        fun hok ↦ (by cases hok)⟩
    · next call hcall =>
      split
      · exact ⟨le_rfl, le_rfl, fun u' hu' ↦ Option.some.inj hu' ▸ haccepted,
          fun hok ↦ (by cases hok)⟩
      · next p hp =>
        obtain rfl := call_of_startRequest hp
        obtain ⟨hsingle, hash, hhash, heq⟩ | ⟨hparts, heq⟩ := FileUpload.firstCall_eq_ok hcall
        · have hwants : u.Wants (Given os log i u) env.sha256Raw p.call
              (.put u.name u.file.content) := heq ▸ .single hsingle reads hhash
          exact ⟨haccepted, le_rfl, ⟨⟨got, diagnostic, curl, hp⟩, _, hwants⟩,
            .inl ⟨hsingle, hash, heq⟩⟩
        · have hwants : u.Wants (Given os log i u) env.sha256Raw p.call (.create u.name) :=
            heq ▸ .create
          exact ⟨haccepted, le_rfl, ⟨⟨got, diagnostic, curl, hp⟩, _, hwants⟩, .inr ⟨hparts, heq⟩⟩

/-- **What a service reads of a request is what the upload asks.** -/
theorem command_of_wants {addressing : Addressing} (htools : SigningTools env.sha256Raw env.amzNow)
    {c : Calling} (hc : c.Proper addressing) (haccepted : c.im.Accepted c.args u)
    {given : Bytes → Prop} {req : Request (Bytes × Bytes) Bytes Bytes UInt8} {p : Prepared}
    (hwants : u.Wants given env.sha256Raw p.call req) {got : Credentials} {diagnostic : Bytes}
    {curl : Bool} (hstart : startRequest env.sha256Raw u.im.cfg u.im.fixedCreds got diagnostic curl
      p.call = .ok p) (hcred : p.cred.Presentable) (m : ℕ) {reads : List ReadCall}
    (hwhole : (p.call.upload reads).sent.length = p.call.bodyLen) : ∃ cmd,
      command addressing ((p.httpRequest env.sha256Raw (env.amzNow m)).arrived
        (p.call.upload reads).sent) = some cmd ∧ uploadRequest cmd = some req := by
  obtain ⟨hmade, cmd, hasks, hreq⟩ := hwants.asks
  obtain ⟨hbucket, hkey⟩ := hmade.names
  have hsent := hasks.command_sent htools (haccepted.options ▸ oneLine_of_clean haccepted.clean)
    (slash_of_target haccepted.target) hmade hstart hcred (by
      rw [hbucket, hkey, haccepted.client]
      exact hc.routes _ _ haccepted.target) m hwhole
  rw [haccepted.client, hc.addressing] at hsent
  exact ⟨cmd, hsent, hreq⟩

/-- **Every step keeps the invariant.** -/
theorem inv_step [DecidableEq ι] {addressing : Addressing}
    (htools : SigningTools env.sha256Raw env.amzNow) (hcalls : ∀ i, (calls i).Proper addressing)
    (s s' : State ι) (h : Inv env os calls s) (hstep : Step env os addressing calls s s') :
    Inv env os calls s' := by
  cases hstep with
  | start i hidle file opened reads got diagnostic curl =>
    refine h.enter (sound_firstStatus _ _ _ _ _ _ _) fun begun u habout ↦ ?_
    rw [hidle] at habout
    exact habout.elim
  | send i hway hcred m =>
    refine ⟨fun a ha ↦ ?_, h.asked, h.sound⟩
    obtain hold | hnew := List.mem_append.mp ha
    · exact h.flight a hold
    · obtain rfl := List.mem_singleton.mp hnew
      obtain ⟨begun, u, habout, hrequested⟩ := (h.sound i).requested hway
      exact ⟨begun, u, habout, hrequested, hcred, m, rfl⟩
  | serve before a behind hflight reads hwhole hcmd hreq id tag =>
    obtain ⟨begun, u, habout, ⟨⟨got, diagnostic, curl, hstart⟩, req', hwants⟩, hcred, m, hdate⟩ :=
      h.flight a (by rw [hflight]; simp)
    obtain ⟨cmd', hsent, hreq'⟩ := command_of_wants htools (hcalls a.call)
      ((h.sound a.call).accepted habout).1 hwants hstart hcred m hwhole
    rw [← hdate, hcmd] at hsent
    obtain rfl := Option.some.inj hsent
    obtain rfl := Option.some.inj (hreq.symm.trans hreq')
    have happend := h.append (.served (a.call, a.prepared.call) _ id tag)
      fun i call req id tag heq ↦ by
        cases heq
        exact ⟨begun, u, habout, hwants⟩
    refine ⟨fun b hb ↦ happend.flight b ?_, happend.asked, happend.sound⟩
    rw [hflight]
    exact List.mem_append.mpr ((List.mem_append.mp hb).imp_right (List.mem_cons_of_mem a))
  | change k o => exact h.append _ fun i call req id tag heq ↦ by cases heq
  | receive i begun u p left hasking t htrue =>
    have hsound := h.sound i
    rw [hasking] at hsound
    have habout : (s.status i).About begun u := by
      rw [hasking]
      exact ⟨rfl, rfl⟩
    obtain ⟨haccepted, hbegun, hrequested, hcall⟩ := hsound
    rw [nextStatus]
    split
    · next left' hafter =>
      refine h.enter ⟨haccepted, hbegun, hrequested, hcall⟩ fun begun' u' habout' ↦ ?_
      rw [hasking] at habout'
      exact habout'
    · next r hafter =>
      have hreply := htrue r hafter
      rw [firstReply]
      obtain ⟨hsingle, hash, heq⟩ | ⟨hparts, heq⟩ := hcall
      · rw [if_pos hsingle]
        rw [heq] at hreply
        refine h.enter ⟨hbegun, le_rfl, fun u' hu' ↦ Option.some.inj hu' ▸ haccepted,
          fun hok ↦ ⟨u, rfl, h.written_of_put habout hreply (FileUpload.fine_of_singleFinish hok)⟩⟩
          fun begun' u' habout' ↦ ?_
        obtain ⟨rfl, rfl⟩ := habout.unique habout'
        exact ⟨rfl, rfl⟩
      · rw [if_neg hparts]
        rw [heq] at hreply
        split
        · refine h.enter ⟨hbegun, le_rfl, fun u' hu' ↦ Option.some.inj hu' ▸ haccepted,
            fun hok ↦ (by cases hok)⟩ fun begun' u' habout' ↦ ?_
          obtain ⟨rfl, rfl⟩ := habout.unique habout'
          exact ⟨rfl, rfl⟩
        · next uploadId hcreated =>
          obtain ⟨hfine, rfl⟩ := FileUpload.fine_of_createFinish hcreated
          refine h.enter ⟨haccepted, hbegun, hparts, h.given_of_create habout hreply hfine, .refl,
            fun out hout _ ↦ (by cases hout)⟩ fun begun' u' habout' ↦ ?_
          obtain ⟨rfl, rfl⟩ := habout.unique habout'
          exact ⟨rfl, rfl⟩
  | thread i begun u uploadId ms ms' hinParts hparts hthread htrue =>
    have hsound := h.sound i
    rw [hinParts] at hsound
    have habout : (s.status i).About begun u := by
      rw [hinParts]
      exact ⟨rfl, rfl⟩
    obtain ⟨haccepted, hbegun, hlarge, hgiven, hrun, hwritten⟩ := hsound
    refine h.enter ⟨haccepted, hbegun, hlarge, hgiven, hrun.tail hthread, fun out hout hok ↦ ?_⟩
      fun begun' u' habout' ↦ ?_
    · rcases hthread with ⟨w, hworker⟩ | ⟨hcaller⟩
      · exact hwritten out (hworker.caller_eq ▸ hout) hok
      · obtain ⟨p, left, r, hpc, hlog, hnil⟩ := hcaller.succeeded hout hok
        have hinv := Multipart.inv_of_run (u.threads_pos hparts) hparts hrun
        have hreply := htrue p left r hpc hlog
        rw [(hinv.completing hpc).2] at hreply
        obtain ⟨hrc, hover, hcode, hclean⟩ := u.completeFailure_eq_nil.mp hnil
        exact h.written_of_completion habout hreply ⟨hrc, hover, hcode⟩ hclean
    · obtain ⟨rfl, rfl⟩ := habout.unique habout'
      exact ⟨rfl, rfl⟩
  | returns i begun u uploadId ms hinParts out hout =>
    have hsound := h.sound i
    rw [hinParts] at hsound
    obtain ⟨haccepted, hbegun, -, -, -, hwritten⟩ := hsound
    refine h.enter ⟨hbegun, le_rfl, fun u' hu' ↦ Option.some.inj hu' ▸ haccepted,
      fun hok ↦ ⟨u, rfl, hwritten out hout hok⟩⟩ fun begun' u' habout' ↦ ?_
    rw [hinParts] at habout'
    obtain ⟨rfl, rfl⟩ := habout'
    exact ⟨rfl, rfl⟩

/-! ### Calls that go on -/

theorem file_of_about_firstStatus {c : Calling} {file : FileStatus} {opened : Option Bytes}
    {reads : Bool} {got : Credentials} {diagnostic : Bytes} {curl : Bool} {n begun : ℕ}
    (h : (c.firstStatus env.sha256Raw n file opened reads got diagnostic curl).About begun u) :
    file = .regular u.file.content u.file.size_lt := by
  rw [Calling.firstStatus] at h
  split at h
  · cases h.2
  · next v haccept =>
    have hv : v = u := by
      split at h
      · exact Option.some.inj h.2
      · split at h
        · exact Option.some.inj h.2
        · exact h.2
    exact hv ▸ ClientImpl.file_of_acceptFile haccept

theorem about_nextStatus {begun begun' ended left : ℕ} {p : Prepared} {t : Transfer}
    {u' : FileUpload}
    (h : (nextStatus env.strerror begun ended u p left t).About begun' u') :
    begun = begun' ∧ u = u' := by
  rw [nextStatus] at h
  split at h
  · exact h
  · rw [firstReply] at h
    split at h
    · exact ⟨h.1, Option.some.inj h.2⟩
    · split at h
      · exact ⟨h.1, Option.some.inj h.2⟩
      · exact h

theorem Step.about_of_about [DecidableEq ι] {addressing : Addressing} {s' : State ι} {begun : ℕ}
    (hstep : Step env os addressing calls s s') (h : (s'.status i).About begun u)
    (hstarted : s.status i ≠ .idle) : (s.status i).About begun u := by
  cases hstep with
  | start j hidle =>
    rw [status_enter] at h
    split at h
    · next heq => exact absurd (heq ▸ hidle) hstarted
    · exact h
  | send => exact h
  | serve => exact h
  | change => exact h
  | receive j b v p left hasking t =>
    rw [status_enter] at h
    split at h
    · next heq =>
      rw [heq, hasking]
      exact about_nextStatus h
    · exact h
  | thread j b v uploadId ms ms' hinParts =>
    rw [status_enter] at h
    split at h
    · next heq =>
      rw [heq, hinParts]
      exact h
    · exact h
  | returns j b v uploadId ms hinParts out =>
    rw [status_enter] at h
    split at h
    · next heq =>
      rw [heq, hinParts]
      exact ⟨h.1, Option.some.inj h.2⟩
    · exact h

theorem Step.status_of_done [DecidableEq ι] {addressing : Addressing} {s' : State ι}
    {begun ended : ℕ} {v : Option FileUpload} {out : Outcome (Option Bytes)}
    (hstep : Step env os addressing calls s s') (h : s.status i = .done begun ended v out) :
    s'.status i = .done begun ended v out := by
  have hother {j : ι} {st : Status} (hne : s.status j ≠ .done begun ended v out) :
      (s.enter j st).status i = .done begun ended v out := by
    rw [status_enter, if_neg, h]
    rintro rfl
    exact hne h
  cases hstep with
  | start j hidle => exact hother (by rw [hidle]; exact Status.noConfusion)
  | send => exact h
  | serve => exact h
  | change => exact h
  | receive j b u p left hasking t => exact hother (by rw [hasking]; exact Status.noConfusion)
  | thread j b u uploadId ms ms' hinParts =>
    exact hother (by rw [hinParts]; exact Status.noConfusion)
  | returns j b u uploadId ms hinParts out' =>
    exact hother (by rw [hinParts]; exact Status.noConfusion)

theorem status_of_done_run [DecidableEq ι] {addressing : Addressing} {s' : State ι}
    {begun ended : ℕ} {v : Option FileUpload} {out : Outcome (Option Bytes)}
    (hrun : Relation.ReflTransGen (Step env os addressing calls) s s')
    (h : s.status i = .done begun ended v out) : s'.status i = .done begun ended v out := by
  induction hrun with
  | refl => exact h
  | tail _ hstep ih => exact hstep.status_of_done ih

/-! ## What calls can rely on -/

/-- What calls of `put_file` can rely on, whoever else uses the service. -/
structure Stored (env : Outside) (os : Service) (calls : ι → Calling) (s : State ι) : Prop where
  /-- What is served for a call is what its upload asks, with names that were given to it. -/
  asked : ∀ n i call req id tag, s.log[n]? = some (.served (i, call) req id tag) →
    ∃ begun u, (s.status i).About begun u ∧ begun ≤ n ∧
      u.Wants (Given os s.log i u) env.sha256Raw call req
  /-- No upload is shared. -/
  apart : ∀ i j u v uploadId, Given os s.log i u uploadId → Given os s.log j v uploadId → i = j
  /-- What an object holds was there at first, came by other hands, or is the whole of a file whose
  upload had begun. -/
  origin : ∀ n k body, (os.before s.log n).objects k = some body → os.objects k = some body ∨
    ∃ m < n, s.log[m]? = some (.changed k (some body)) ∨ ∃ i begun u, (s.status i).About begun u ∧
      begun ≤ m ∧ (calls i).im.target (calls i).args.uri true = .ok k ∧ body = u.file.content
  /-- A call that succeeds has left its file behind while it went on. The file stays there, unless
  its object changes by other hands or another file goes there. -/
  written : ∀ i begun ended u out, s.status i = .done begun ended u out → out.ok = true →
    ∃ v ∈ u, (calls i).im.target (calls i).args.uri true = .ok v.name ∧ ∃ n, begun ≤ n ∧
      n < ended ∧ (os.before s.log (n + 1)).objects v.name = some v.file.content ∧
        ∀ m, n < m → (∀ j o, n < j → j < m → s.log[j]? ≠ some (.changed v.name o)) →
          (∀ i' begun' w, (s.status i').About begun' w → w.name = v.name →
            w.file.content = v.file.content) →
            (os.before s.log m).objects v.name = some v.file.content

theorem Inv.stored (h : Inv env os calls s) : Stored env os calls s where
  asked := h.asked
  apart i j u v uploadId hi hj := by
    obtain ⟨n, hn⟩ := hi
    obtain ⟨m, hm⟩ := hj
    exact (Prod.mk.inj (hn.unique hm).1).1
  origin n k body hbody := by
    refine (UploadStore.Store.object_origin n hbody).imp_right fun ⟨m, hm, e, he, hleaves⟩ ↦ ?_
    refine ⟨m, hm, ?_⟩
    rcases e with ⟨⟨i, call⟩, req, id, tag⟩ | ⟨k', o⟩
    · obtain ⟨begun, u, habout, hle, rfl, hcontent⟩ := h.left he hleaves
      exact .inr ⟨i, begun, u, habout, hle, ((h.sound i).accepted habout).1.target, hcontent⟩
    · cases hleaves
      exact .inl he
  written i begun ended u out hdone hok := by
    have hsound := h.sound i
    rw [hdone] at hsound
    obtain ⟨v, hv, n, call, req, id, tag, hle, hlt, hentry, hleaves⟩ := hsound.2.2.2 hok
    have hthere : (os.before s.log (n + 1)).objects v.name = some v.file.content := by
      rw [UploadStore.Store.before_succ hentry]
      exact hleaves.objects_next
    refine ⟨v, hv, (hsound.2.2.1 v hv).target, n, hle, hlt, hthere, fun m hm hothers hsame ↦ ?_⟩
    refine UploadStore.Store.object_kept hm hthere fun j e hj hjm he ↦ ?_
    refine ⟨fun heq ↦ hothers j none hj hjm (heq ▸ he), fun body hleft ↦ ?_⟩
    rcases e with ⟨⟨i', call'⟩, req', id', tag'⟩ | ⟨k', o⟩
    · obtain ⟨begun', w, habout, -, hname, rfl⟩ := h.left he hleft
      exact hsame i' begun' w habout hname.symm
    · cases hleft
      exact absurd he (hothers j _ hj hjm)

/-- **Uploads that run side by side do not disturb each other.** In every run, whatever becomes of
requests and replies: an object that a call leaves behind is the whole of its file, a call that
succeeds has left it behind, and no part of one upload gets into another. -/
theorem stored_of_run [DecidableEq ι] {addressing : Addressing} {s' : State ι}
    (htools : SigningTools env.sha256Raw env.amzNow) (hcalls : ∀ i, (calls i).Proper addressing)
    (hinit : s.Initial) (hrun : Relation.ReflTransGen (Step env os addressing calls) s s') :
    Stored env os calls s' :=
  (Runs.invariant (inv_step htools hcalls) (inv_of_initial hinit) hrun).stored

end Invariant

/-! ## A call that nothing disturbs -/

section Undisturbed

variable {ι : Type*} {env : Outside} {os : Service} {calls : ι → Calling} {s : State ι} {i : ι}
  {u : FileUpload} [DecidableEq ι] {addressing : Addressing}

theorem exists_prepared (env : Outside) {im : ClientImpl} {cred : Credentials}
    (hfixed : im.fixedCreds = some cred) (call : Call) : ∃ p, p.call = call ∧ p.cred = cred ∧
      startRequest env.sha256Raw im.cfg im.fixedCreds {} [] true p.call = .ok p := by
  have hkeys : im.fixedCreds ≠ none := by simp [hfixed]
  obtain ⟨p, hp⟩ := exists_startRequest env.sha256Raw im.cfg [] call (.inl hkeys)
  obtain rfl := call_of_startRequest hp
  exact ⟨p, rfl, by rw [cred_of_startRequest hp, hfixed]; rfl, hp⟩

theorem exists_served (htools : SigningTools env.sha256Raw env.amzNow)
    (hc : (calls i).Proper addressing) (haccepted : (calls i).im.Accepted (calls i).args u)
    (hflight : s.flight = []) {p : Prepared} (hway : (s.status i).UnderWay p)
    (hcred : p.cred.Presentable) {given : Bytes → Prop}
    {req : Request (Bytes × Bytes) Bytes Bytes UInt8}
    (hwants : u.Wants given env.sha256Raw p.call req) {got : Credentials} {diagnostic : Bytes}
    {curl : Bool} (hstart : startRequest env.sha256Raw u.im.cfg u.im.fixedCreds got diagnostic curl
      p.call = .ok p) {reads : List ReadCall}
    (hwhole : (p.call.upload reads).sent.length = p.call.bodyLen) (id tag : Bytes) :
    ∃ s', Relation.ReflTransGen (Goes env os addressing calls) s s' ∧
      s'.log = s.log ++ [.served (i, p.call) req id tag] ∧ s'.flight = [] ∧
        s'.status = s.status := by
  obtain ⟨cmd, hcmd, hreq⟩ := command_of_wants htools hc haccepted hwants hstart hcred 0 hwhole
  let a : InFlight ι := ⟨i, p, env.amzNow 0⟩
  have hsent : (s.send a).flight = [] ++ a :: [] := by rw [State.send, hflight]
  have hsends : Goes env os addressing calls s (s.send a) :=
    ⟨.send i hway hcred 0, fun _ hidle ↦ hidle⟩
  have hserves : Goes env os addressing calls (s.send a) ((s.send a).serve a [] req id tag) :=
    ⟨.serve [] a [] hsent reads hwhole hcmd hreq id tag, fun _ hidle ↦ hidle⟩
  exact ⟨_, .head hsends (.single hserves), rfl, rfl, rfl⟩

theorem run_of_goes {s' : State ι} (h : Relation.ReflTransGen (Goes env os addressing calls) s s') :
    Relation.ReflTransGen (Step env os addressing calls) s s' :=
  Relation.ReflTransGen.mono (fun _ _ hgoes ↦ hgoes.1) _ _ h

theorem idle_of_goes {s' : State ι} (h : Relation.ReflTransGen (Goes env os addressing calls) s s')
    (hidle : s.status i = .idle) : s'.status i = .idle := by
  induction h with
  | refl => exact hidle
  | tail _ hgoes ih => exact hgoes.2 i ih

theorem exists_firstStatus (env : Outside) {c : Calling} {file : FileStatus}
    (haccept : c.im.acceptFile c.args file = .ok u) (hsmall : u.Single)
    (hunsigned : u.options.signPayload = false) {cred : Credentials}
    (hfixed : u.im.fixedCreds = some cred) (n : ℕ) : ∃ p, p.call = u.singleCall [] ∧
      p.cred = cred ∧ u.singleHash env.sha256Raw true = some [] ∧
        startRequest env.sha256Raw u.im.cfg u.im.fixedCreds {} [] true p.call = .ok p ∧
          c.firstStatus env.sha256Raw n file none true {} [] true
            = .asking n u p kClientRetries := by
  obtain ⟨p, hpcall, hpcred, hp⟩ := exists_prepared env hfixed (u.singleCall [])
  have hhash : u.singleHash env.sha256Raw true = some [] := by
    rw [FileUpload.singleHash, hunsigned]
    rfl
  refine ⟨p, hpcall, hpcred, hhash, hp, ?_⟩
  rw [Calling.firstStatus, haccept]
  dsimp only
  rw [FileUpload.firstCall, if_pos hsmall, FileUpload.singleStart, hhash]
  dsimp only
  rw [← hpcall, hp]

theorem goes_enter {st : Status} (hstep : Step env os addressing calls s (s.enter i st))
    (hstarted : s.status i ≠ .idle) : Goes env os addressing calls s (s.enter i st) := by
  refine ⟨hstep, fun j hidle ↦ ?_⟩
  rw [status_enter, if_neg, hidle]
  rintro rfl
  exact hstarted hidle

theorem exists_put (htools : SigningTools env.sha256Raw env.amzNow)
    (hc : (calls i).Proper addressing) (haccepted : (calls i).im.Accepted (calls i).args u)
    (hflight : s.flight = []) (hsmall : u.Single) {begun : ℕ} {p : Prepared} {hash : Bytes}
    (hasking : s.status i = .asking begun u p kClientRetries) (hbegun : begun ≤ s.log.length)
    (hcall : p.call = u.singleCall hash) (hcred : p.cred.Presentable)
    {reads : Bool} (hhash : u.singleHash env.sha256Raw reads = some hash) {got : Credentials}
    {diagnostic : Bytes} {curl : Bool} (hstart : startRequest env.sha256Raw u.im.cfg
      u.im.fixedCreds got diagnostic curl p.call = .ok p) {t : Transfer}
    (hretries : p.call.retries t = false)
    (hwhole : (p.call.upload t.reads).sent.length = p.call.bodyLen)
    (hfine : (u.singleFinish env.strerror (p.call.receive t)).ok = true) :
    ∃ s' ended out, Relation.ReflTransGen (Goes env os addressing calls) s s' ∧
      s'.log = s.log ++ [.served (i, p.call) (.put u.name u.file.content) [] []] ∧
        s'.flight = [] ∧ s'.status i = .done begun ended (some u) out ∧ out.ok = true := by
  have hwants : u.Wants (fun _ ↦ True) env.sha256Raw p.call (.put u.name u.file.content) :=
    hcall ▸ .single hsmall reads hhash
  obtain ⟨s₁, hrun, hlog, hempty, hstatus⟩ :=
    @exists_served ι env os calls s i u _ addressing htools hc haccepted hflight p
      (by rw [hasking]; rfl) hcred _ _ hwants _ _ _ hstart t.reads hwhole [] []
  have hafter : p.call.after kClientRetries t = .inr (p.call.receive t) :=
    Call.after_of_not_retries hretries _
  have hnext : nextStatus env.strerror begun s₁.log.length u p kClientRetries t
      = .done begun s₁.log.length (some u) (u.singleFinish env.strerror (p.call.receive t)) := by
    rw [nextStatus, hafter]
    dsimp only
    rw [firstReply, if_pos hsmall]
  have hasking' : s₁.status i = .asking begun u p kClientRetries := hstatus ▸ hasking
  have hreply : Step env os addressing calls s₁
      (s₁.enter i (nextStatus env.strerror begun s₁.log.length u p kClientRetries t)) := by
    refine .receive i _ u p kClientRetries hasking' t fun r hr _ ↦ ?_
    rw [hlog]
    exact ⟨s.log.length, _, [], [], hbegun, List.getElem?_concat_length, trivial⟩
  rw [hnext] at hreply
  exact ⟨_, _, _, hrun.tail (goes_enter hreply (by rw [hasking']; exact Status.noConfusion)),
    hlog, hempty, State.status_enter_self _ _ _, hfine⟩

theorem exists_created (htools : SigningTools env.sha256Raw env.amzNow)
    (hc : (calls i).Proper addressing) (hidle : s.status i = .idle) (hflight : s.flight = [])
    {file : FileStatus} (haccept : (calls i).im.acceptFile (calls i).args file = .ok u)
    (hlarge : ¬u.Single) {cred : Credentials} (hfixed : u.im.fixedCreds = some cred)
    (hcred : cred.Presentable) {t : Transfer} (hretries : u.createCall.retries t = false)
    {uploadId : Bytes}
    (hcreated : u.createFinish env.strerror (u.createCall.receive t) = .ok uploadId)
    (hfresh : (os.before s.log s.log.length).uploads uploadId = none) :
    ∃ s' call, Relation.ReflTransGen (Step env os addressing calls) s s' ∧
      s'.log = s.log ++ [.served (i, call) (.create u.name) uploadId []] ∧ s'.flight = [] ∧
        s'.status i = .inParts s.log.length u uploadId .initial := by
  obtain ⟨p, hpcall, hpcred, hp⟩ := exists_prepared env hfixed u.createCall
  let s₁ := s.enter i (.asking s.log.length u p kClientRetries)
  have hstarts : Step env os addressing calls s s₁ := by
    have hstep : Step env os addressing calls s (s.enter i
        ((calls i).firstStatus env.sha256Raw s.log.length file none true {} [] true)) :=
      .start i hidle file none true {} [] true
    rw [Calling.firstStatus, haccept] at hstep
    dsimp only at hstep
    rw [FileUpload.firstCall, if_neg hlarge] at hstep
    dsimp only at hstep
    rw [← hpcall, hp] at hstep
    exact hstep
  have hway : (s₁.status i).UnderWay p := by
    rw [State.status_enter_self]
    rfl
  have hwants : u.Wants (fun _ ↦ True) env.sha256Raw p.call (.create u.name) := hpcall ▸ .create
  obtain ⟨s₂, hrun, hlog', hempty, hstatus⟩ :=
    @exists_served ι env os calls s₁ i u _ addressing htools hc (ClientImpl.of_acceptFile haccept)
      hflight p hway (hpcred ▸ hcred) _ _ hwants _ _ _ hp [] (by rw [hpcall]; rfl) uploadId []
  have hlog : s₂.log = s.log ++ [.served (i, p.call) (.create u.name) uploadId []] := hlog'
  have hasking : s₂.status i = .asking s.log.length u p kClientRetries := by
    rw [hstatus, State.status_enter_self]
  have hafter : p.call.after kClientRetries t = .inr (u.createCall.receive t) := by
    rw [hpcall]
    exact Call.after_of_not_retries hretries _
  have hreply : Step env os addressing calls s₂
      (s₂.enter i (.inParts s.log.length u uploadId .initial)) := by
    have hstep : Step env os addressing calls s₂ (s₂.enter i
        (nextStatus env.strerror s.log.length s₂.log.length u p kClientRetries t)) := by
      refine .receive i _ u p kClientRetries hasking t fun r hr _ ↦ ?_
      cases hafter.symm.trans hr
      refine ⟨s.log.length, _, uploadId, [], le_rfl,
        by rw [hlog]; exact List.getElem?_concat_length, ?_⟩
      rw [hlog, UploadStore.Store.before_append le_rfl, UploadStore.Store.answer, hfresh]
      exact (FileUpload.fine_of_createFinish hcreated).2
    rw [nextStatus, hafter] at hstep
    dsimp only at hstep
    rw [firstReply, if_neg hlarge, hcreated] at hstep
    exact hstep
  exact ⟨_, p.call, (Relation.ReflTransGen.head hstarts (run_of_goes hrun)).tail hreply, hlog,
    hempty, State.status_enter_self _ _ _⟩

/-- The calling thread does not wait for the reply to a completion. -/
def Quiet : Multipart.Caller → Prop
  | .sendingCompletion _ _ => False
  | _ => True

theorem quiet_of_works {env : Outside} {u : FileUpload} {uploadId : Bytes}
    {ms ms' : Multipart.State u.threads}
    (h : Relation.ReflTransGen (Multipart.Works False u uploadId env.sha256Raw env.strerror) ms ms')
    (hworking : ms.caller = .working) :
    Relation.ReflTransGen (fun a b ↦ Quiet a.caller ∧
      Multipart.Step False u uploadId env.sha256Raw env.strerror a b) ms ms' := by
  induction h with
  | refl => exact .refl
  | tail hworks hstep ih =>
    obtain ⟨w, hworker⟩ := hstep
    refine ih.tail ⟨?_, .worker w hworker⟩
    rw [Multipart.caller_of_works hworks, hworking]
    trivial

theorem exists_threads {begun : ℕ} {uploadId : Bytes} {ms ms' : Multipart.State u.threads}
    (hinParts : s.status i = .inParts begun u uploadId ms) (hparts : 1 ≤ u.parts)
    (hrun : Relation.ReflTransGen (fun a b ↦ Quiet a.caller ∧
      Multipart.Step False u uploadId env.sha256Raw env.strerror a b) ms ms') :
    ∃ s', Relation.ReflTransGen (Step env os addressing calls) s s' ∧ s'.log = s.log ∧
      s'.flight = s.flight ∧ s'.status i = .inParts begun u uploadId ms' := by
  induction hrun with
  | refl => exact ⟨s, .refl, rfl, rfl, hinParts⟩
  | tail _ hstep ih =>
    obtain ⟨s', hrun, hlog, hflight, hstatus⟩ := ih
    obtain ⟨hquiet, hstep⟩ := hstep
    refine ⟨_, hrun.tail (.thread i begun u uploadId _ _ hstatus hparts hstep
      fun p left r hpc _ ↦ ?_), hlog, hflight, State.status_enter_self _ _ _⟩
    rw [hpc] at hquiet
    exact hquiet.elim

theorem exists_completed (htools : SigningTools env.sha256Raw env.amzNow)
    (hc : (calls i).Proper addressing) (haccepted : (calls i).im.Accepted (calls i).args u)
    (hflight : s.flight = []) {begun : ℕ} {uploadId : Bytes} {ms : Multipart.State u.threads}
    (hinParts : s.status i = .inParts begun u uploadId ms) (hbegun : begun ≤ s.log.length)
    (hparts : 1 ≤ u.parts) {c : Prepared} {left : ℕ}
    (hpc : ms.caller = .sendingCompletion c left)
    (hcall : c.call = u.completeCall uploadId ms.etags) (hcred : c.cred.Presentable)
    (hstart : startRequest env.sha256Raw u.im.cfg u.im.fixedCreds {} [] true c.call = .ok c)
    {body : Bytes} (hbody : (os.before s.log s.log.length).assemble u.name uploadId
      ((List.range u.parts).map fun i ↦ (i + 1, ms.etags i)) = some body) :
    ∃ s' ended out, Relation.ReflTransGen (Step env os addressing calls) s s' ∧
      s'.status i = .done begun ended (some u) out ∧ out.ok = true := by
  let reads : List ReadCall := [{ capacity := (u.completeXml ms.etags).length }]
  let t : Transfer := { code := 200, reads := reads }
  obtain ⟨hread, hsent⟩ : (c.call.upload reads).failed = false ∧
      (c.call.upload reads).sent = u.completeXml ms.etags := by
    rw [hcall]
    exact Call.upload_payload rfl rfl
  have hway : (s.status i).UnderWay c := by
    rw [hinParts]
    exact ⟨none, by rw [Multipart.State.underWay, hpc]⟩
  have hwants : u.Wants (fun _ ↦ True) env.sha256Raw c.call (.complete u.name uploadId
      ((List.range u.parts).map fun i ↦ (i + 1, ms.etags i))) :=
    hcall ▸ .complete trivial ms.etags
  obtain ⟨s₁, hrun, hlog, -, hstatus⟩ :=
    @exists_served ι env os calls s i u _ addressing htools hc haccepted hflight c hway hcred _ _
      hwants _ _ _ hstart reads (by rw [hsent, hcall]; rfl) [] []
  have hafter : c.call.after left t = .inr (c.call.receive t) := by
    refine Call.after_of_not_retries ?_ _
    rw [Call.retries, hread]
    rfl
  have hack : u.completeFailure env.strerror (c.call.receive t) = [] :=
    u.completeFailure_eq_nil.mpr ⟨rc_receive_eq_ok.mpr ⟨hread, rfl⟩, rfl, rfl, by rfl⟩
  let out : Outcome (Option Bytes) :=
    ⟨true, u.etag.map fun _ ↦ xmlTag (c.call.receive t).text (utf8 "ETag"), []⟩
  let ms' := ((ms.call (.returned out)).complete none).logged
    [.finish none (some (c.call.receive t))]
  let s₂ := s₁.enter i (.inParts begun u uploadId ms')
  have hsucceeds : Step env os addressing calls s₁ s₂ := by
    refine .thread i begun u uploadId ms ms' (hstatus ▸ hinParts) hparts
      (.caller (.succeeds hpc t (.of_false _ _ _ _ none) hafter hack)) fun p' left' r hpc' _ _ ↦ ?_
    cases hpc.symm.trans hpc'
    refine ⟨s.log.length, _, [], [], hbegun, by rw [hlog]; exact List.getElem?_concat_length, ?_⟩
    rw [hlog, UploadStore.Store.before_append le_rfl, UploadStore.Store.answer, hbody]
    trivial
  have hreturns : Step env os addressing calls s₂ (s₂.enter i (.done begun s₂.log.length (some u)
      out)) :=
    .returns i begun u uploadId ms' (s₁.status_enter_self i _) out rfl
  exact ⟨_, _, out, (run_of_goes hrun).trans (.head hsucceeds (.single hreturns)),
    s₂.status_enter_self i _, rfl⟩

end Undisturbed

/-! ### A small file, and one in parts -/

theorem length_three_bytes : ([1, 2, 3] : Bytes).length < 2 ^ 64 := by decide

def inOnePart : FileUpload where
  im := .withToken (utf8 "T")
  uri := utf8 "s3://b/k"
  bucket := utf8 "b"
  key := utf8 "k"
  file := ⟨utf8 "/f", [1, 2, 3], length_three_bytes⟩
  options := { multipartThreshold := 0 }

def inOneRequest : FileUpload where
  im := .withToken (utf8 "T")
  uri := utf8 "s3://b/l"
  bucket := utf8 "b"
  key := utf8 "l"
  file := ⟨utf8 "/g", [4, 5], by decide⟩

/-- The uploads of `/f` and of `/g`. -/
def twoUploads (large : Bool) : Calling :=
  ⟨.withToken (utf8 "T"),
    if large then
      { uri := utf8 "s3://b/k", path := utf8 "/f", options := { multipartThreshold := 0 } }
    else { uri := utf8 "s3://b/l", path := utf8 "/g" }⟩

theorem proper_twoUploads (large : Bool) :
    (twoUploads large).Proper (.host (utf8 ".s3.us-east-1.amazonaws.com")) where
  addressing := by
    cases large <;>
    decide
  routes bucket key h := by
    cases large with
    | true =>
      have htarget : (ClientImpl.withToken (utf8 "T")).target (utf8 "s3://b/k") true
          = .ok (utf8 "b", utf8 "k") := by decide
      cases htarget.symm.trans h
      exact routes_usEast
    | false =>
      have htarget : (ClientImpl.withToken (utf8 "T")).target (utf8 "s3://b/l") true
          = .ok (utf8 "b", utf8 "l") := by decide
      cases htarget.symm.trans h
      exact { routes_usEast with segments := by decide +kernel }

theorem acceptFile_inOnePart : (twoUploads true).im.acceptFile (twoUploads true).args
    (.regular [1, 2, 3] length_three_bytes) = .ok inOnePart := rfl

theorem acceptFile_inOneRequest : (twoUploads false).im.acceptFile (twoUploads false).args
    (.regular [4, 5] (by decide)) = .ok inOneRequest := rfl

/-- A reply that names an upload. -/
def startedReply : Transfer := { code := 200, chunks := [utf8 "<UploadId>U</UploadId>"] }

theorem createFinish_startedReply : inOnePart.createFinish signing.strerror
    (inOnePart.createCall.receive startedReply) = .ok (utf8 "U") := by
  have hid : xmlTag (inOnePart.createCall.receive startedReply).text (utf8 "UploadId")
      = utf8 "U" := by
    rw [show (inOnePart.createCall.receive startedReply).text = utf8 "<UploadId>U</UploadId>"
      from rfl]
    decide +kernel
  have hfailure : requestFailure signing.strerror inOnePart.uri inOnePart.file.path
      (inOnePart.createCall.receive startedReply) 200 = [] :=
    requestFailure_eq_nil.mpr ⟨rfl, rfl, rfl⟩
  rw [FileUpload.createFinish, hid, hfailure]
  rfl

/-- A service that holds nothing yet. -/
def emptyService : Service := ⟨fun _ ↦ none, fun _ ↦ none⟩

/-- How this service is addressed. -/
def usEastHosts : Addressing := .host (utf8 ".s3.us-east-1.amazonaws.com")

theorem exists_cred : ∃ cred, (ClientImpl.withToken (utf8 "T")).fixedCreds = some cred ∧
    cred.Presentable :=
  ⟨_, rfl, forall_mem_of_all (by decide), forall_mem_of_all (by decide)⟩

/-- The small file goes up with one request. -/
theorem exists_smallStored : ∃ (s : State Bool) (call : Call) (ended : ℕ)
    (out : Outcome (Option Bytes)),
      Relation.ReflTransGen (Step signing emptyService usEastHosts twoUploads)
        ⟨[], [], fun _ ↦ .idle⟩ s ∧
      s.log = [.served (false, call) (.put inOneRequest.name [4, 5]) [] []] ∧ s.flight = [] ∧
      s.status false = .done 0 ended (some inOneRequest) out ∧ out.ok = true ∧
      s.status true = .idle := by
  let s : State Bool := ⟨[], [], fun _ ↦ .idle⟩
  obtain ⟨cred, hfixed, hcred⟩ := exists_cred
  have hsmall : inOneRequest.Single := by decide +kernel
  obtain ⟨p, hpcall, hpcred, hhash, hp, hfirst⟩ :=
    exists_firstStatus signing acceptFile_inOneRequest hsmall rfl hfixed 0
  let s₁ := s.enter false (.asking 0 inOneRequest p kClientRetries)
  have hasks : Step signing emptyService usEastHosts twoUploads s s₁ := by
    have hstep : Step signing emptyService usEastHosts twoUploads s _ :=
      .start false rfl (.regular [4, 5] (by decide)) none true {} [] true
    rw [show s.log.length = 0 from rfl, hfirst] at hstep
    exact hstep
  let t : Transfer := { code := 200, reads := [{ capacity := 8 }] }
  obtain ⟨s₂, ended, out, hrun, hlog, hflight, hdone, hok⟩ :=
    @exists_put Bool signing emptyService twoUploads s₁ false inOneRequest _ usEastHosts
      signingTools_signing (proper_twoUploads false)
      (ClientImpl.of_acceptFile acceptFile_inOneRequest) rfl hsmall 0 p []
      (State.status_enter_self _ _ _) le_rfl hpcall (hpcred ▸ hcred) true hhash _ _ _ hp t
      (hpcall ▸ by decide +kernel) (hpcall ▸ by decide +kernel) (hpcall ▸ by decide +kernel)
  exact ⟨s₂, p.call, ended, out, .head hasks (run_of_goes hrun), hlog, hflight, hdone, hok,
    idle_of_goes hrun rfl⟩

theorem parts_inOnePart : inOnePart.parts = 1 := by decide +kernel

/-- The only worker of the other upload. -/
def onlyWorker : Fin inOnePart.threads := ⟨0, inOnePart.threads_pos parts_inOnePart.ge⟩

theorem eq_onlyWorker (v : Fin inOnePart.threads) : v = onlyWorker := by
  have hthreads : inOnePart.threads = 1 := by decide +kernel
  have hzero : v.val = 0 := Nat.lt_one_iff.mp (v.2.trans_eq hthreads)
  exact Fin.ext hzero

variable {s : State Bool} {begun : ℕ}

/-- Its part is sent. -/
theorem exists_partServed (hflight : s.flight = [])
    (hstatus : s.status true = .inParts begun inOnePart (utf8 "U") .initial) :
    ∃ (s' : State Bool) (call : Call) (p : Prepared) (ms : Multipart.State inOnePart.threads),
      Relation.ReflTransGen (Step signing emptyService usEastHosts twoUploads) s s' ∧
      s'.log = s.log ++ [.served (true, call) (.part inOnePart.name (utf8 "U") 1
        (inOnePart.slice 0)) [] (utf8 "\"e\"")] ∧ s'.flight = [] ∧
      s'.status true = .inParts begun inOnePart (utf8 "U") ms ∧ ms.caller = .working ∧
      ms.workers onlyWorker = .sending 0 p kClientRetries ∧
      p.call = inOnePart.partCall (utf8 "U") 0 [] ∧ ms.next = 1 ∧ ms.failed = false := by
  obtain ⟨cred, hfixed, hcred⟩ := exists_cred
  have hopens : Multipart.Works False inOnePart (utf8 "U") signing.sha256Raw signing.strerror
      .initial (Multipart.State.initial.goto onlyWorker .claiming) := ⟨onlyWorker, .opens rfl⟩
  obtain ⟨ms, p, hworks, hp, hworkers, hnext, hfailed⟩ :=
    @Multipart.exists_sending _ False inOnePart (utf8 "U") signing.sha256Raw signing.strerror
      (Multipart.State.initial.goto onlyWorker .claiming) onlyWorker
      (by rw [show inOnePart.im.fixedCreds = some cred from hfixed]; exact Option.some_ne_none _)
      rfl (Multipart.State.workers_goto_self _ _ _) parts_inOnePart.ge rfl
  have hpcall := call_of_startRequest hp
  have hpcred : p.cred = cred := by
    rw [cred_of_startRequest hp, show inOnePart.im.fixedCreds = some cred from hfixed]
    rfl
  have hall := hworks.head hopens
  have hcaller : ms.caller = .working := Multipart.caller_of_works hall
  have hsending : ms.workers onlyWorker = .sending 0 p kClientRetries := by
    rw [hworkers]
    exact Function.update_self _ _ _
  obtain ⟨s₁, hrun, hlog, hflight₁, hstatus₁⟩ :=
    @exists_threads Bool signing emptyService twoUploads s true inOnePart _ usEastHosts _ (utf8 "U")
      .initial ms hstatus parts_inOnePart.ge (quiet_of_works hall rfl)
  have hway : (s₁.status true).UnderWay p := by
    rw [hstatus₁]
    exact ⟨some onlyWorker, by rw [Multipart.State.underWay, hsending]⟩
  have hwants : inOnePart.Wants (fun _ ↦ True) signing.sha256Raw p.call
      (.part inOnePart.name (utf8 "U") 1 (inOnePart.slice 0)) :=
    hpcall ▸ .part trivial (parts_inOnePart ▸ Nat.one_pos) rfl
  obtain ⟨s₂, hrun₂, hlog₂, hflight₂, hstatus₂⟩ :=
    @exists_served Bool signing emptyService twoUploads s₁ true inOnePart _ usEastHosts
      signingTools_signing (proper_twoUploads true) (ClientImpl.of_acceptFile acceptFile_inOnePart)
      (hflight₁.trans hflight) p hway (hpcred ▸ hcred) _ _ hwants _ _ _ (hpcall ▸ hp)
      [{ capacity := 8 }] (by rw [hpcall]; decide +kernel) [] (utf8 "\"e\"")
  exact ⟨s₂, p.call, p, ms, hrun.trans (run_of_goes hrun₂), by rw [hlog₂, hlog], hflight₂,
    hstatus₂ ▸ hstatus₁, hcaller, hsending, hpcall, hnext, hfailed⟩

/-- Its part is recorded, and its calling thread asks for the completion. -/
theorem exists_completing {ms : Multipart.State inOnePart.threads} {p : Prepared}
    (hstatus : s.status true = .inParts begun inOnePart (utf8 "U") ms)
    (hcaller : ms.caller = .working)
    (hsending : ms.workers onlyWorker = .sending 0 p kClientRetries)
    (hpcall : p.call = inOnePart.partCall (utf8 "U") 0 []) (hnext : ms.next = 1)
    (hfailed : ms.failed = false) :
    ∃ (s' : State Bool) (c : Prepared) (ms' : Multipart.State inOnePart.threads),
      Relation.ReflTransGen (Step signing emptyService usEastHosts twoUploads) s s' ∧
      s'.log = s.log ∧ s'.flight = s.flight ∧
      s'.status true = .inParts begun inOnePart (utf8 "U") ms' ∧
      ms'.caller = .sendingCompletion c kClientRetries ∧ ms'.etags 0 = utf8 "\"e\"" ∧
      c.call = inOnePart.completeCall (utf8 "U") ms'.etags ∧ c.cred.Presentable ∧
      startRequest signing.sha256Raw inOnePart.im.cfg inOnePart.im.fixedCreds {} [] true c.call
        = .ok c := by
  obtain ⟨cred, hfixed, hcred⟩ := exists_cred
  obtain ⟨m₁, hworks₁, hworkers₁, hnext₁, hfailed₁, hetags₁⟩ :=
    @Multipart.exists_recorded _ False inOnePart (utf8 "U") signing.sha256Raw signing.strerror ms
      onlyWorker 0 _ p hsending hpcall
  obtain ⟨m₂, hworks₂, hworkers₂, -, hfailed₂, hetags₂⟩ :=
    @Multipart.exists_done _ False inOnePart (utf8 "U") signing.sha256Raw signing.strerror m₁
      onlyWorker (by rw [hworkers₁]; exact Function.update_self _ _ _)
      (by rw [parts_inOnePart, hnext₁, hnext])
  have hworks := hworks₁.trans hworks₂
  have hcaller₂ : m₂.caller = .working := (Multipart.caller_of_works hworks).trans hcaller
  obtain ⟨c, hccall, hccred, hc⟩ :=
    exists_prepared signing hfixed (inOnePart.completeCall (utf8 "U") m₂.etags)
  have hdone (v : Fin inOnePart.threads) : m₂.workers v = .done := by
    rw [eq_onlyWorker v, hworkers₂]
    exact Function.update_self _ _ _
  have hjoins := @Multipart.CallerStep.joins _ False inOnePart (utf8 "U") signing.sha256Raw
    signing.strerror m₂ hcaller₂ hdone
  rw [hfailed₂, hfailed₁, hfailed, if_neg Bool.false_ne_true] at hjoins
  have hstarts := @Multipart.CallerStep.starts _ False inOnePart (utf8 "U") signing.sha256Raw
    signing.strerror (m₂.call .completing) c rfl {} [] true (hccall ▸ hc)
  have hquiet : Quiet m₂.caller := by
    rw [hcaller₂]
    trivial
  obtain ⟨s', hrun, hlog, hflight, hstatus'⟩ :=
    @exists_threads Bool signing emptyService twoUploads s true inOnePart _ usEastHosts _
      (utf8 "U") ms _ hstatus parts_inOnePart.ge (((quiet_of_works hworks hcaller).tail
        ⟨hquiet, .caller hjoins⟩).tail ⟨trivial, .caller hstarts⟩)
  refine ⟨s', c, _, hrun, hlog, hflight, hstatus', rfl, ?_, hccall, hccred ▸ hcred, hc⟩
  show m₂.etags 0 = utf8 "\"e\""
  rw [hetags₂, hetags₁]
  exact Function.update_self _ _ _

/-- A small file goes up with one request, and then another in its one part. -/
theorem stored_twoUploads : ∃ (s : State Bool) (begun ended begun' ended' : ℕ)
    (out out' : Outcome (Option Bytes)),
      s.status false = .done begun ended (some inOneRequest) out ∧ out.ok = true ∧
      s.status true = .done begun' ended' (some inOnePart) out' ∧ out'.ok = true ∧
        Stored signing ⟨fun _ ↦ none, fun _ ↦ none⟩ twoUploads s := by
  obtain ⟨s₁, call₁, ended₁, out₁, hrun₁, hlog₁, hflight₁, hdone₁, hok₁, hidle⟩ :=
    exists_smallStored
  obtain ⟨cred, hfixed, hcred⟩ := exists_cred
  obtain ⟨s₂, call₂, hrun₂, hlog₂, hflight₂, hstatus₂⟩ :=
    @exists_created Bool signing emptyService twoUploads s₁ true inOnePart _ usEastHosts
      signingTools_signing (proper_twoUploads true) hidle hflight₁ _ acceptFile_inOnePart
      (by decide +kernel) cred hfixed hcred startedReply (by decide +kernel) (utf8 "U")
      createFinish_startedReply (by rw [hlog₁]; rfl)
  obtain ⟨s₃, call₃, p, ms, hrun₃, hlog₃, hflight₃, hstatus₃, hcaller, hsending, hpcall, hnext,
    hfailed⟩ := exists_partServed hflight₂ hstatus₂
  obtain ⟨s₄, c, ms', hrun₄, hlog₄, hflight₄, hstatus₄, hcaller', hetag, hccall, hccred, hc⟩ :=
    exists_completing hstatus₃ hcaller hsending hpcall hnext hfailed
  have hlog : s₄.log = [.served (false, call₁) (.put inOneRequest.name [4, 5]) [] [],
      .served (true, call₂) (.create inOnePart.name) (utf8 "U") [],
      .served (true, call₃) (.part inOnePart.name (utf8 "U") 1 (inOnePart.slice 0)) []
        (utf8 "\"e\"")] := by
    rw [hlog₄, hlog₃, hlog₂, hlog₁]
    rfl
  have hlisting : (List.range inOnePart.parts).map (fun i ↦ (i + 1, ms'.etags i))
      = [(1, utf8 "\"e\"")] := by
    rw [parts_inOnePart, List.range_one, List.map_singleton, hetag]
  obtain ⟨s₅, ended, out, hrun₅, hdone, hok⟩ :=
    @exists_completed Bool signing emptyService twoUploads s₄ true inOnePart _ usEastHosts
      signingTools_signing (proper_twoUploads true) (ClientImpl.of_acceptFile acceptFile_inOnePart)
      (hflight₄.trans hflight₃) _ (utf8 "U") ms' hstatus₄ (by simp [hlog₁, hlog])
      parts_inOnePart.ge c kClientRetries hcaller' hccall hccred hc (inOnePart.slice 0 ++ [])
      (by rw [hlisting, hlog]; rfl)
  have hlarge := hrun₂.trans (hrun₃.trans (hrun₄.trans hrun₅))
  exact ⟨s₅, _, ended₁, _, ended, out₁, out, status_of_done_run hlarge hdone₁, hok₁, hdone, hok,
    stored_of_run signingTools_signing proper_twoUploads ⟨rfl, rfl, fun _ ↦ rfl⟩
      (hrun₁.trans hlarge)⟩

end ConcurrentUploads

end Nanos3Reader
