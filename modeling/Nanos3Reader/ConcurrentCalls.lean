import Nanos3Reader.Client.Operations
import Nanos3Reader.Lib.Runs

/-!
# Calls side by side

Any number of calls of `head`, `read_range` and `put`, of any number of clients and on any objects,
running side by side against one service, which other programs use as well. A call sends its
request, waits, and sends it again if the outcome is worth a retry; the service serves what has
arrived in any order, if at all, and reads off the wire what is asked. A response may be lost or
replaced, and a request that was given up on may still be served later.

A response that looks like the expected one is the service's own answer to the attempt it is taken
for. Nothing else is assumed of responses.
-/

open ByteText ConditionalWrite ObjectApi ObjectLog

namespace Nanos3Reader

open ConditionalPut (optionsCondition)

namespace ConcurrentCalls

/-- Where a call is: since which place of the log, with how many retries left, and where in the log
the current attempt was served. -/
inductive Status where
  | idle
  | waiting (begun : ℕ) (p : Prepared) (left : ℕ) (served : Option ℕ)
  | done (begun ended : ℕ) (result : Result)

/-- An attempt on its way to the service, made by `call` with `left` retries left. -/
structure InFlight (ι : Type*) where
  call : ι
  left : ℕ
  prepared : Prepared
  date : Bytes

/-- The objects of a service, by bucket and key. -/
abbrev Store := Objects (Bytes × Bytes) Bytes UInt8

abbrev Log (ι : Type*) := List (Event ι (Bytes × Bytes) Bytes UInt8)

/-- What has happened to the service's objects; the attempts on their way; the calls. -/
structure State (ι : Type*) where
  log : Log ι
  flight : List (InFlight ι)
  status : ι → Status

/-! ## The calls -/

namespace Calling

variable (c : Calling)

/-- A call up to its first attempt. -/
def firstStatus (sha256Raw : Bytes → Bytes) (begun : ℕ) (got : Credentials) (diagnostic : Bytes)
    (curl : Bool) : Status :=
  match c.op.start c.im with
  | .inl res => .done begun begun res
  | .inr call =>
    match startRequest sha256Raw c.im.cfg c.im.fixedCreds got diagnostic curl call with
    | .error e => .done begun begun (c.op.failed e)
    | .ok p => .waiting begun p kClientRetries none

/-- A call after the outcome of an attempt. -/
def nextStatus (strerror : CurlCode → Bytes) (begun ended : ℕ) (p : Prepared) (left : ℕ)
    (t : Transfer) : Status :=
  match p.call.after left t with
  | .inl left => .waiting begun p left none
  | .inr r => .done begun ended (c.op.finish strerror r)

end Calling

section System

variable {ι : Type*} [DecidableEq ι]

/-- The attempt that entering a status sends, if it does. -/
def newAttempt {ι : Type*} (i : ι) (date : Bytes) : Status → Option (InFlight ι)
  | .waiting _ p left none => some ⟨i, left, p, date⟩
  | _ => none

namespace State

/-- A call enters a status. -/
def enter (s : State ι) (i : ι) (st : Status) (date : Bytes) : State ι where
  log := s.log
  flight := s.flight ++ (newAttempt i date st).toList
  status := Function.update s.status i st

/-- A call learns where its attempt was served, if it still waits for it. -/
def learn (s : State ι) (a : InFlight ι) (i : ι) : Status :=
  match s.status i with
  | .waiting begun p left served =>
    .waiting begun p left (if i = a.call ∧ left = a.left then some s.log.length else served)
  | st => st

/-- The service serves an attempt, in the way of an access. -/
def serve (s : State ι) (a : InFlight ι) (rest : List (InFlight ι))
    (access : Access (Bytes × Bytes) Bytes UInt8) (tag : Bytes) : State ι where
  log := s.log ++ [.served a.call access tag]
  flight := rest
  status := s.learn a

/-- An object changes by other hands. -/
def change (s : State ι) (k : Bytes × Bytes) (o : Option (Object Bytes UInt8)) : State ι :=
  { s with log := s.log ++ [.changed k o] }

/-- Before any call. -/
structure Initial (s : State ι) : Prop where
  log : s.log = []
  flight : s.flight = []
  status : ∀ i, s.status i = .idle

end State

variable (env : Outside) (os : Store) (addressing : Addressing) (calls : ι → Calling)

/-- One step: a call starts, the service serves an attempt that has arrived whole, an object changes
otherwise, or a call gets an outcome. -/
inductive Step : State ι → State ι → Prop
  | start {s : State ι} (i : ι) (hidle : s.status i = .idle) (got : Credentials)
      (hcred : ((calls i).im.fixedCreds.getD got).Presentable) (diagnostic : Bytes) (curl : Bool)
      (m : ℕ) : Step s (s.enter i
        ((calls i).firstStatus env.sha256Raw s.log.length got diagnostic curl) (env.amzNow m))
  | serve {s : State ι} (before : List (InFlight ι)) (a : InFlight ι) (behind : List (InFlight ι))
      (hflight : s.flight = before ++ a :: behind) (reads : List ReadCall)
      (hwhole : (a.prepared.call.upload reads).sent.length = a.prepared.call.bodyLen)
      {cmd : Command} (hcmd : command addressing ((a.prepared.httpRequest env.sha256Raw
        a.date).arrived (a.prepared.call.upload reads).sent) = some cmd)
      {acc : Access (Bytes × Bytes) Bytes UInt8} (hacc : access cmd = some acc) (tag : Bytes) :
      Step s (s.serve a (before ++ behind) acc tag)
  | change {s : State ι} (k : Bytes × Bytes) (o : Option (Object Bytes UInt8)) :
      Step s (s.change k o)
  | receive {s : State ι} (i : ι) (begun : ℕ) (p : Prepared) (left : ℕ) (served : Option ℕ)
      (hwaiting : s.status i = .waiting begun p left served) (t : Transfer)
      (htrue : ∀ answer ∈ reported p.call.method t, ∃ n ∈ served, ∃ acc tag,
        s.log[n]? = some (.served i acc tag) ∧ (os.before s.log n).answer acc = answer) (m : ℕ) :
      Step s (s.enter i ((calls i).nextStatus env.strerror begun s.log.length p left t)
        (env.amzNow m))

end System

/-! ## The invariant -/

section Invariant

variable {ι : Type*}

/-- The call has begun, when the log had `begun` events. -/
def Status.Since (begun : ℕ) : Status → Prop
  | .idle => False
  | .waiting begun' _ _ _ => begun' = begun
  | .done begun' _ _ => begun' = begun

/-- What is known of a call that has learned where its attempt was served, or has ended. -/
def Status.Sound (os : Store) (log : Log ι) (sha256Raw : Bytes → Bytes) (c : Calling) (i : ι) :
    Status → Prop
  | .idle => True
  | .waiting begun p _ served =>
    c.Made sha256Raw p ∧ begun ≤ log.length ∧ ∀ n ∈ served, begun ≤ n ∧ n < log.length
  | .done begun ended result =>
    begun ≤ log.length ∧ Fits c.op result ∧ ∀ answer ∈ learned result, ∃ acc n,
      Wants c.im c.op acc ∧ Served os log i begun ended acc answer n

structure Inv (env : Outside) (os : Store) (calls : ι → Calling) (s : State ι) : Prop where
  flight : ∀ a ∈ s.flight, (calls a.call).Made env.sha256Raw a.prepared ∧
    (∃ m, a.date = env.amzNow m) ∧ ∃ begun, (s.status a.call).Since begun
  asked : ∀ n i acc tag, s.log[n]? = some (.served i acc tag) →
    Wants (calls i).im (calls i).op acc ∧ ∃ begun ≤ n, (s.status i).Since begun
  sound : ∀ i, (s.status i).Sound os s.log env.sha256Raw (calls i) i

variable {env : Outside} {os : Store} {calls : ι → Calling} {s : State ι}

theorem inv_of_initial (h : s.Initial) : Inv env os calls s where
  flight a ha := by
    rw [h.flight] at ha
    cases ha
  asked n i acc tag hn := by
    rw [h.log] at hn
    cases hn
  sound i := by
    rw [h.status i]
    trivial

theorem Status.Sound.append {log more : Log ι} {sha256Raw : Bytes → Bytes} {c : Calling} {i : ι}
    {st : Status} (h : st.Sound os log sha256Raw c i) :
    st.Sound os (log ++ more) sha256Raw c i := by
  have hle : log.length ≤ (log ++ more).length := by simp
  rcases st with _ | ⟨begun, p, left, served⟩ | ⟨begun, ended, result⟩
  · trivial
  · obtain ⟨hmade, hbegun, hserved⟩ := h
    exact ⟨hmade, hbegun.trans hle, fun n hn ↦
      ⟨(hserved n hn).1, (hserved n hn).2.trans_le hle⟩⟩
  · obtain ⟨hbegun, hfits, hlearned⟩ := h
    refine ⟨hbegun.trans hle, hfits, fun answer hanswer ↦ ?_⟩
    obtain ⟨acc, n, hwants, hserved⟩ := hlearned answer hanswer
    exact ⟨acc, n, hwants, hserved.append⟩

theorem Status.Sound.since_le {log : Log ι} {sha256Raw : Bytes → Bytes} {c : Calling} {i : ι}
    {st : Status} (h : st.Sound os log sha256Raw c i) {begun : ℕ} (hsince : st.Since begun) :
    begun ≤ log.length := by
  rcases st with _ | ⟨begun', p, left, served⟩ | ⟨begun', ended, result⟩
  · exact hsince.elim
  · obtain rfl : begun' = begun := hsince
    exact h.2.1
  · obtain rfl : begun' = begun := hsince
    exact h.1

/-- Another event: an access that is served for a call is one that the call asks for. -/
theorem Inv.append (h : Inv env os calls s) (e : Event ι (Bytes × Bytes) Bytes UInt8)
    (he : ∀ i acc tag, e = .served i acc tag → Wants (calls i).im (calls i).op acc ∧
      ∃ begun, (s.status i).Since begun) :
    Inv env os calls { s with log := s.log ++ [e] } where
  flight := h.flight
  asked n i acc tag hn := by
    rcases Nat.lt_or_ge n s.log.length with hlt | hge
    · rw [List.getElem?_append_left hlt] at hn
      exact h.asked n i acc tag hn
    · rw [List.getElem?_append_right hge, List.getElem?_singleton] at hn
      split at hn
      · obtain ⟨hwants, begun, hsince⟩ := he i acc tag (Option.some.inj hn)
        exact ⟨hwants, begun, ((h.sound i).since_le hsince).trans hge, hsince⟩
      · cases hn
  sound i := (h.sound i).append

variable [DecidableEq ι]

theorem status_enter {i j : ι} {st : Status} {date : Bytes} :
    (s.enter i st date).status j = if j = i then st else s.status j :=
  Function.update_apply s.status i st j

theorem since_learn {a : InFlight ι} {i : ι} {begun : ℕ} :
    (s.learn a i).Since begun ↔ (s.status i).Since begun := by
  rw [State.learn]
  rcases s.status i with _ | ⟨begun', p, left, served⟩ | ⟨begun', ended, result⟩ <;> rfl

theorem Status.Sound.learn {sha256Raw : Bytes → Bytes} {c : Calling} {i : ι}
    (h : (s.status i).Sound os s.log sha256Raw c i) (a : InFlight ι)
    (e : Event ι (Bytes × Bytes) Bytes UInt8) :
    (s.learn a i).Sound os (s.log ++ [e]) sha256Raw c i := by
  rw [State.learn]
  revert h
  rcases s.status i with _ | ⟨begun, p, left, served⟩ | ⟨begun, ended, result⟩
  all_goals intro h
  · trivial
  · obtain ⟨hmade, hbegun, hserved⟩ :
        (Status.waiting begun p left served).Sound os (s.log ++ [e]) sha256Raw c i := h.append
    refine ⟨hmade, hbegun, fun n hn ↦ ?_⟩
    split at hn
    · obtain rfl := Option.mem_some.mp hn
      exact ⟨h.2.1, by simp⟩
    · exact hserved n hn
  · exact h.append

theorem Inv.enter (h : Inv env os calls s) {i : ι} {st : Status} (m : ℕ)
    (hsound : st.Sound os s.log env.sha256Raw (calls i) i)
    (hgoes : ∀ begun, (s.status i).Since begun → st.Since begun) :
    Inv env os calls (s.enter i st (env.amzNow m)) where
  flight a ha := by
    rcases List.mem_append.mp ha with ha | ha
    · obtain ⟨hmade, hdate, begun, hsince⟩ := h.flight a ha
      refine ⟨hmade, hdate, begun, ?_⟩
      rw [status_enter]
      split
      · next heq => exact hgoes begun (heq ▸ hsince)
      · exact hsince
    · rw [Option.mem_toList, newAttempt.eq_def] at ha
      split at ha
      · next begun p left _ =>
        cases ha
        refine ⟨hsound.1, ⟨m, rfl⟩, begun, ?_⟩
        rw [status_enter, if_pos rfl]
        rfl
      · cases ha
  asked n j acc tag hn := by
    obtain ⟨hwants, begun, hle, hsince⟩ := h.asked n j acc tag hn
    refine ⟨hwants, begun, hle, ?_⟩
    rw [status_enter]
    split
    · next heq => exact hgoes begun (heq ▸ hsince)
    · exact hsince
  sound j := by
    rw [status_enter]
    split
    · next heq => exact heq ▸ hsound
    · exact h.sound j

theorem Inv.serve (h : Inv env os calls s) {a : InFlight ι} {rest : List (InFlight ι)}
    {acc : Access (Bytes × Bytes) Bytes UInt8}
    (hwants : Wants (calls a.call).im (calls a.call).op acc)
    (hsince : ∃ begun, (s.status a.call).Since begun) (hrest : rest ⊆ s.flight) (tag : Bytes) :
    Inv env os calls (s.serve a rest acc tag) := by
  have happend := h.append (.served a.call acc tag) fun i acc tag heq ↦ by
    cases heq
    exact ⟨hwants, hsince⟩
  refine ⟨fun b hb ↦ ?_, fun n i acc tag hn ↦ ?_, fun i ↦ ?_⟩
  · obtain ⟨hmade, hdate, begun, hb⟩ := h.flight b (hrest hb)
    exact ⟨hmade, hdate, begun, since_learn.mpr hb⟩
  · obtain ⟨hasked, begun, hle, hi⟩ := happend.asked n i acc tag hn
    exact ⟨hasked, begun, hle, since_learn.mpr hi⟩
  · exact (h.sound i).learn a _

/-- **Every step keeps the invariant.** -/
theorem inv_step {addressing : Addressing} (htools : SigningTools env.sha256Raw env.amzNow)
    (hcalls : ∀ i, (calls i).Proper addressing) (s s' : State ι) (h : Inv env os calls s)
    (hstep : Step env os addressing calls s s') : Inv env os calls s' := by
  cases hstep with
  | start i hidle got hcred diagnostic curl m =>
    refine h.enter m ?_ fun begun hsince ↦ by rw [hidle] at hsince; exact hsince.elim
    rw [Calling.firstStatus]
    split
    · next res hstart =>
      obtain ⟨hfits, hnone⟩ := learned_of_start hstart
      exact ⟨le_rfl, hfits, fun answer hanswer ↦ by rw [hnone] at hanswer; cases hanswer⟩
    · next call hstart =>
      split
      · next e _ =>
        obtain ⟨hfits, hnone⟩ := fits_failed (calls i).op e
        exact ⟨le_rfl, hfits, fun answer hanswer ↦ by rw [hnone] at hanswer; cases hanswer⟩
      · next p hp =>
        refine ⟨⟨got, diagnostic, curl, call, hstart, hp, ?_⟩, le_rfl, by simp⟩
        rw [cred_of_startRequest hp]
        exact hcred
  | serve before a behind hflight reads hwhole hcmd hacc tag =>
    obtain ⟨hmade, ⟨m, hdate⟩, hsince⟩ := h.flight a (by rw [hflight]; simp)
    rw [hdate] at hcmd
    refine h.serve (hmade.wants htools (hcalls a.call) hwhole hcmd hacc) hsince ?_ tag
    rw [hflight]
    exact fun b hb ↦ List.mem_append.mpr
      ((List.mem_append.mp hb).imp_right (List.mem_cons_of_mem a))
  | change k o => exact h.append _ fun i acc tag heq ↦ by cases heq
  | receive i begun p left served hwaiting t htrue m =>
    have hsound := h.sound i
    rw [hwaiting] at hsound
    obtain ⟨hmade, hbegun, hserved⟩ := hsound
    rcases hafter : p.call.after left t with left' | r
    · refine h.enter m ?_ fun begun' hsince ↦ ?_
      · rw [Calling.nextStatus, hafter]
        exact ⟨hmade, hbegun, by simp⟩
      · rw [hwaiting] at hsince
        rw [Calling.nextStatus, hafter]
        exact hsince
    · refine h.enter m ?_ fun begun' hsince ↦ ?_
      · obtain ⟨got, diagnostic, curl, call, hstart, hp, -⟩ := hmade
        obtain rfl := call_of_startRequest hp
        obtain rfl := Call.receive_of_after hafter
        obtain ⟨hfits, hreported⟩ := reported_of_learned hstart env.strerror t
        rw [Calling.nextStatus, hafter]
        refine ⟨hbegun, hfits, fun answer hanswer ↦ ?_⟩
        -- what the call has learned is the answer to its attempt, where that was served
        obtain ⟨n, hn, acc, tag, hentry, htrue⟩ := htrue answer (hreported answer hanswer)
        exact ⟨acc, n, (h.asked n i acc tag hentry).1, (hserved n hn).1, (hserved n hn).2,
          ⟨tag, hentry⟩, htrue⟩
      · rw [hwaiting] at hsince
        rw [Calling.nextStatus, hafter]
        exact hsince

/-! ## What calls can rely on -/

/-- What calls can rely on, whoever else uses the service. -/
structure Consistent (os : Store) (calls : ι → Calling) (s : State ι) : Prop where
  /-- What is served for a call is what it asks, after it has begun. -/
  asked : ∀ n i acc tag, s.log[n]? = some (.served i acc tag) →
    Wants (calls i).im (calls i).op acc ∧ ∃ begun ≤ n, (s.status i).Since begun
  /-- What an object holds was there at first, came by other hands, or is the body of a put that had
  begun. -/
  origin : ∀ n k o, os.before s.log n k = some o → os k = some o ∨
    ∃ m < n, s.log[m]? = some (.changed k (some o)) ∨ ∃ i uri options out begun,
      (calls i).op = .put uri (some o.body) options out ∧ (calls i).im.target uri true = .ok k ∧
        (s.status i).Since begun ∧ begun ≤ m
  /-- A size that is returned was the object's, at some time during the call. -/
  head : ∀ i uri size begun ended out, (calls i).op = .head uri size →
    s.status i = .done begun ended (.head out) → out.ok = true →
      ∃ k n o, (calls i).im.target uri true = .ok k ∧ begun ≤ n ∧ n < ended ∧
        os.before s.log n k = some o ∧ out.out = o.body.length
  /-- The bytes of a range are those of one version of the object, which was there at some time
  during the call. -/
  readRange : ∀ i uri offset count hasDst begun ended out,
    (calls i).op = .readRange uri offset count hasDst →
    s.status i = .done begun ended (.readRange out) → out.ok = true → 0 < count →
      ∃ k n o, (calls i).im.target uri true = .ok k ∧ begun ≤ n ∧ n < ended ∧
        os.before s.log n k = some o ∧ offset + count ≤ o.body.length ∧
          out.out = (o.body.drop offset).take count
  /-- A put that succeeds has replaced a version of which its condition held, during the call. -/
  put : ∀ i uri data options out₀ begun ended out, (calls i).op = .put uri data options out₀ →
    s.status i = .done begun ended (.put out) → out.ok = true →
      ∃ k body n tag, (calls i).im.target uri true = .ok k ∧ data = some body ∧ begun ≤ n ∧
        n < ended ∧ s.log[n]? = some (.served i (.write k (optionsCondition options) body) tag) ∧
          (optionsCondition options).Admits ((os.before s.log n).tag k) ∧
            os.before s.log (n + 1) k = some ⟨tag, body⟩
  /-- If a put finds that its condition does not hold, there was a time at which it did not. -/
  refused : ∀ i uri data options out₀ begun ended out, (calls i).op = .put uri data options out₀ →
    s.status i = .done begun ended (.put out) → out.ok = false → out.out.2 = some true →
      ∃ k n, (calls i).im.target uri true = .ok k ∧ begun ≤ n ∧ n < ended ∧
        ¬(optionsCondition options).Admits ((os.before s.log n).tag k)
  /-- Who puts an object and then reads it gets what was put, unless others write to it. -/
  ownWrites : ∀ i j uri body options out₀ begun ended out uri' offset count hasDst begun' ended'
    out' k, (calls i).op = .put uri (some body) options out₀ →
    s.status i = .done begun ended (.put out) → out.ok = true →
    (calls j).op = .readRange uri' offset count hasDst →
    s.status j = .done begun' ended' (.readRange out') → out'.ok = true → 0 < count →
    (calls i).im.target uri true = .ok k → (calls j).im.target uri' true = .ok k →
    ended ≤ begun' → (∀ m e, begun ≤ m → m < ended' → s.log[m]? = some e → e.Touches k →
      ∃ acc tag, e = .served i acc tag) →
      offset + count ≤ body.length ∧ out'.out = (body.drop offset).take count

omit [DecidableEq ι]

theorem Inv.served_readRange (h : Inv env os calls s) {i : ι} {uri : Bytes} {offset count : ℕ}
    {hasDst : Bool} {begun ended : ℕ} {out : Outcome Bytes}
    (hop : (calls i).op = .readRange uri offset count hasDst)
    (hdone : s.status i = .done begun ended (.readRange out)) (hok : out.ok = true)
    (hpos : 0 < count) : out.out.length = count ∧ ∃ k n, (calls i).im.target uri true = .ok k ∧
      Served os s.log i begun ended (.read k (some (offset, offset + count - 1)))
        (.part out.out) n := by
  have hsound := h.sound i
  rw [hdone, Status.Sound, hop] at hsound
  obtain ⟨-, hfits, hlearned⟩ := hsound
  have hlength : out.out.length = count := hfits hok
  have hne : out.out ≠ [] := List.ne_nil_of_length_pos (by omega)
  obtain ⟨acc, n, hwants, hserved⟩ := hlearned (.part out.out) (if_pos ⟨hok, hne⟩)
  cases hwants with
  | readRange htarget hpos => exact ⟨hlength, _, n, htarget, hserved⟩

theorem Inv.served_put (h : Inv env os calls s) {i : ι} {uri : Bytes} {data : Option Bytes}
    {options : PutOptions} {out₀ : ClientImpl.PutOut} {begun ended : ℕ}
    {out : Outcome ClientImpl.PutOut} (hop : (calls i).op = .put uri data options out₀)
    (hdone : s.status i = .done begun ended (.put out)) {answer : ObjectLog.Answer UInt8}
    (hanswer : answer ∈ learned (.put out)) :
    ∃ k body n, (calls i).im.target uri true = .ok k ∧ data = some body ∧
      Served os s.log i begun ended (.write k (optionsCondition options) body) answer n := by
  have hsound := h.sound i
  rw [hdone, Status.Sound, hop] at hsound
  obtain ⟨-, -, hlearned⟩ := hsound
  obtain ⟨acc, n, hwants, hserved⟩ := hlearned answer hanswer
  cases hwants with
  | put htarget => exact ⟨_, _, n, htarget, rfl, hserved⟩

theorem part_eq {body bytes : Bytes} {offset count : ℕ} (hpos : 0 < count)
    (hlength : bytes.length = count)
    (h : bytes = (body.drop offset).take (offset + count - 1 + 1 - offset)) :
    offset + count ≤ body.length ∧ bytes = (body.drop offset).take count := by
  have hcount : offset + count - 1 + 1 - offset = count := by omega
  rw [hcount] at h
  refine ⟨?_, h⟩
  rw [h, List.length_take, List.length_drop] at hlength
  omega

theorem Inv.consistent (h : Inv env os calls s) : Consistent os calls s where
  asked := h.asked
  origin n k o ho := by
    rcases Objects.origin n ho with hfirst | ⟨m, hm, hchanged | ⟨i, condition, hwritten⟩⟩
    · exact .inl hfirst
    · exact .inr ⟨m, hm, .inl hchanged⟩
    · obtain ⟨hwants, begun, hle, hsince⟩ := h.asked m i _ _ hwritten
      generalize hop : (calls i).op = op at hwants
      cases hwants with
      | put htarget => exact .inr ⟨m, hm, .inr ⟨i, _, _, _, begun, hop, htarget, hsince, hle⟩⟩
  head i uri size begun ended out hop hdone hok := by
    have hsound := h.sound i
    rw [hdone, Status.Sound, hop] at hsound
    obtain ⟨acc, n, hwants, hserved⟩ := hsound.2.2 (.size out.out) (if_pos hok)
    cases hwants with
    | head htarget =>
      obtain ⟨o, ho, hsize⟩ := hserved.exists_size
      exact ⟨_, n, o, htarget, hserved.begun_le, hserved.lt_ended, ho, hsize⟩
  readRange i uri offset count hasDst begun ended out hop hdone hok hpos := by
    obtain ⟨hlength, k, n, htarget, hserved⟩ := h.served_readRange hop hdone hok hpos
    obtain ⟨o, ho, -, hbytes⟩ := hserved.exists_part
    obtain ⟨hle, hslice⟩ := part_eq hpos hlength hbytes
    exact ⟨k, n, o, htarget, hserved.begun_le, hserved.lt_ended, ho, hle, hslice⟩
  put i uri data options out₀ begun ended out hop hdone hok := by
    obtain ⟨k, body, n, htarget, hdata, hserved⟩ := h.served_put hop hdone (if_pos hok)
    obtain ⟨tag, hentry⟩ := hserved.entry
    exact ⟨k, body, n, tag, htarget, hdata, hserved.begun_le, hserved.lt_ended, hentry,
      hserved.admits, by rw [Objects.before_succ hentry, Objects.next_of_admits hserved.admits]⟩
  refused i uri data options out₀ begun ended out hop hdone hok hrefused := by
    have hlearned : ObjectLog.Answer.refused ∈ learned (.put out) := by
      rw [learned, if_neg (by simp [hok]), if_pos hrefused]
      rfl
    obtain ⟨k, body, n, htarget, -, hserved⟩ := h.served_put hop hdone hlearned
    exact ⟨k, n, htarget, hserved.begun_le, hserved.lt_ended, hserved.not_admits⟩
  ownWrites i j uri body options out₀ begun ended out uri' offset count hasDst begun' ended' out' k
      hop hdone hok hop' hdone' hok' hpos hk hk' hafter halone := by
    obtain ⟨k₁, body₁, n, htarget, hdata, hput⟩ := h.served_put hop hdone (if_pos hok)
    obtain ⟨hlength, k₂, n', htarget', hread⟩ := h.served_readRange hop' hdone' hok' hpos
    obtain rfl := Except.ok.inj (hk.symm.trans htarget)
    obtain rfl := Except.ok.inj (hk'.symm.trans htarget')
    obtain rfl := Option.some.inj hdata
    obtain ⟨tag, hbefore⟩ := hput.body_of_write hread hafter fun m e hm hlt hentry htouches ↦ by
      obtain ⟨acc, tag, rfl⟩ := halone m e hm hlt hentry htouches
      obtain ⟨hwants, -⟩ := h.asked m i acc tag hentry
      rw [hop] at hwants
      cases hwants with
      | put htarget => exact ⟨i, _, tag, by rw [Except.ok.inj (htarget.symm.trans hk)]⟩
    obtain ⟨o, ho, -, hbytes⟩ := hread.exists_part
    obtain rfl := Option.some.inj (hbefore.symm.trans ho)
    exact part_eq hpos hlength hbytes

/-! ## Calls that nothing disturbs -/

/-- **A call whose request gets through and is answered** ends with the answer. -/
theorem ends_undisturbed [DecidableEq ι] {addressing : Addressing}
    (htools : SigningTools env.sha256Raw env.amzNow) (hcalls : ∀ i, (calls i).Proper addressing)
    {i : ι} (hidle : s.status i = .idle) (hflight : s.flight = []) {call : Call} {p : Prepared}
    (hstart : (calls i).op.start (calls i).im = .inr call)
    (hp : startRequest env.sha256Raw (calls i).im.cfg (calls i).im.fixedCreds {} [] true call
      = .ok p)
    (hcred : ((calls i).im.fixedCreds.getD {}).Presentable) {reads : List ReadCall}
    (hwhole : (p.call.upload reads).sent.length = p.call.bodyLen) {t : Transfer}
    (hretries : call.retries t = false) (tag : Bytes)
    (htrue : ∀ acc, Wants (calls i).im (calls i).op acc → ∀ answer ∈ reported call.method t,
      (os.before s.log s.log.length).answer acc = answer) :
    ∃ s' acc, Relation.ReflTransGen (Step env os addressing calls) s s' ∧
      Wants (calls i).im (calls i).op acc ∧ s'.log = s.log ++ [.served i acc tag] ∧
      s'.flight = [] ∧ s'.status i = .done s.log.length (s.log.length + 1)
        ((calls i).op.finish env.strerror (call.receive t)) ∧
      ∀ j ≠ i, s'.status j = s.status j := by
  obtain ⟨cmd, acc, hasks, hacc, hwants⟩ := @exists_asks env _ _ (hcalls i) _ hstart
  have hpcall := call_of_startRequest hp
  have hpcred : p.cred = (calls i).im.fixedCreds.getD {} := cred_of_startRequest hp
  let a : InFlight ι := ⟨i, kClientRetries, p, env.amzNow 0⟩
  let s₁ := s.enter i (.waiting s.log.length p kClientRetries none) (env.amzNow 0)
  let s₂ := s₁.serve a [] acc tag
  have hbegin : Step env os addressing calls s s₁ := by
    have hstep : Step env os addressing calls s (s.enter i
        ((calls i).firstStatus env.sha256Raw s.log.length {} [] true) (env.amzNow 0)) :=
      .start i hidle {} hcred [] true 0
    rw [Calling.firstStatus, hstart] at hstep
    dsimp only at hstep
    rw [hp] at hstep
    exact hstep
  have hserve : Step env os addressing calls s₁ s₂ := by
    have hsent : s₁.flight = [] ++ a :: [] := by
      rw [show s₁.flight = s.flight ++ [a] from rfl, hflight]
    refine .serve [] a [] hsent reads hwhole ?_ hacc tag
    rw [← (hcalls i).addressing]
    exact hasks.command_sent htools hp (hpcred ▸ hcred) ((hcalls i).routes call hstart) 0 hwhole
  have hstatus : s₂.status i = .waiting s.log.length p kClientRetries (some s.log.length) := by
    have hfirst : s₁.status i = .waiting s.log.length p kClientRetries none :=
      Function.update_self _ _ _
    change s₁.learn a i = _
    rw [State.learn, hfirst]
    simp [a, s₁, State.enter]
  have hlog : s₂.log = s.log ++ [.served i acc tag] := rfl
  have hnext : (calls i).nextStatus env.strerror s.log.length s₂.log.length p kClientRetries t
      = .done s.log.length (s.log.length + 1)
        ((calls i).op.finish env.strerror (call.receive t)) := by
    rw [Calling.nextStatus, hpcall, Call.after_of_not_retries hretries, hlog, List.length_append]
    rfl
  have hreceive : Step env os addressing calls s₂ (s₂.enter i
      ((calls i).nextStatus env.strerror s.log.length s₂.log.length p kClientRetries t)
      (env.amzNow 0)) := by
    refine .receive i s.log.length p kClientRetries (some s.log.length) hstatus t
      (fun answer hanswer ↦ ⟨s.log.length, rfl, acc, tag, ?_, ?_⟩) 0
    · rw [hlog, List.getElem?_concat_length]
    · rw [hlog, Objects.before_append le_rfl]
      exact htrue acc hwants answer (hpcall ▸ hanswer)
  rw [hnext] at hreceive
  refine ⟨_, acc, .head hbegin (.head hserve (.single hreceive)), hwants, hlog, rfl,
    Function.update_self _ _ _, fun j hj ↦ ?_⟩
  calc (s₂.enter i (.done s.log.length (s.log.length + 1)
        ((calls i).op.finish env.strerror (call.receive t))) (env.amzNow 0)).status j
      = s₁.learn a j := Function.update_of_ne hj _ _
    _ = s.status j := by
      have hother : s₁.status j = s.status j := Function.update_of_ne hj _ _
      rw [State.learn, hother]
      rcases s.status j with _ | ⟨begun, p, left, served⟩ | ⟨begun, ended, result⟩
      · rfl
      · simp [a, hj]
      · rfl

/-- **Calls side by side are consistent.** In any interleaving of any number of calls, with retries,
lost responses, requests that are served late and other programs that write to the same objects,
what a call returns was true of the objects at one time during the call. -/
theorem consistent_of_run [DecidableEq ι] {addressing : Addressing} {s' : State ι}
    (htools : SigningTools env.sha256Raw env.amzNow) (hcalls : ∀ i, (calls i).Proper addressing)
    (hinit : s.Initial) (hrun : Relation.ReflTransGen (Step env os addressing calls) s s') :
    Consistent os calls s' :=
  (Runs.invariant (inv_step htools hcalls) (inv_of_initial hinit) hrun).consistent

/-- Three bytes are put, and then the last two of them are read. -/
def putThenRead : Bool → Calling
  | true => ⟨.withToken (utf8 "T"), .put (utf8 "s3://b/k") (some [1, 2, 3]) {} (none, none)⟩
  | false => ⟨.withToken (utf8 "T"), .readRange (utf8 "s3://b/k") 1 2 true⟩

theorem proper_putThenRead (i : Bool) :
    (putThenRead i).Proper (.host (utf8 ".s3.us-east-1.amazonaws.com")) where
  addressing := by
    rcases i
    all_goals decide
  routes call h := by
    have htarget : (ClientImpl.withToken (utf8 "T")).target (utf8 "s3://b/k") true
        = .ok (utf8 "b", utf8 "k") := by decide
    obtain ⟨hbucket, hkey⟩ : call.bucket = utf8 "b" ∧ call.key = utf8 "k" := by
      rcases i
      all_goals
        cases h
        exact ⟨rfl, rfl⟩
    rw [hbucket, hkey]
    rcases i
    all_goals exact routes_usEast
  sendable uri data options out h := by
    rcases i
    all_goals cases h
    exact .inl rfl

theorem consistent_putThenRead : ∃ (s : State Bool) (out : Outcome Bytes),
    s.status false = .done 1 2 (.readRange out) ∧ out.ok = true ∧ out.out = [2, 3] ∧
      Consistent (fun _ ↦ none) putThenRead s := by
  let s : State Bool := ⟨[], [], fun _ ↦ .idle⟩
  have hcred : ((ClientImpl.withToken (utf8 "T")).fixedCreds.getD {}).Presentable :=
    ⟨forall_mem_of_all (by decide), forall_mem_of_all (by decide)⟩
  have htarget : (ClientImpl.withToken (utf8 "T")).target (utf8 "s3://b/k") true
      = .ok (utf8 "b", utf8 "k") := by decide
  obtain ⟨call, p, hstart, hp, hwhole, hput, hretries⟩ : ∃ call p,
      (putThenRead true).op.start (putThenRead true).im = .inr call ∧
      startRequest signing.sha256Raw (putThenRead true).im.cfg (putThenRead true).im.fixedCreds {}
        [] true call = .ok p ∧
      (p.call.upload [{ capacity := 8 }]).sent.length = p.call.bodyLen ∧
      call.method = utf8 "PUT" ∧
      call.retries { code := 200, reads := [{ capacity := 8 }] } = false :=
    ⟨_, _, rfl, rfl, rfl, rfl, rfl⟩
  obtain ⟨s₁, acc, hrun, hwants, hlog, hflight, -, hothers⟩ :=
    @ends_undisturbed Bool signing (fun _ ↦ none) putThenRead s _ _ signingTools_signing
      proper_putThenRead true rfl rfl call p hstart hp hcred _ hwhole _ hretries (utf8 "\"1\"")
      fun acc hwants answer hanswer ↦ by
        rw [hput] at hanswer
        obtain rfl : ObjectLog.Answer.written = answer := Option.some.inj hanswer
        cases hwants with
        | put htarget =>
          have hunconditional : optionsCondition {} = {} := rfl
          rw [Objects.answer, hunconditional, if_pos (Condition.admits_unconditional _)]
  obtain ⟨call', p', hstart', hp', hwhole', hget, hretries', hok, hout⟩ : ∃ call p,
      (putThenRead false).op.start (putThenRead false).im = .inr call ∧
      startRequest signing.sha256Raw (putThenRead false).im.cfg (putThenRead false).im.fixedCreds {}
        [] true call = .ok p ∧
      (p.call.upload []).sent.length = p.call.bodyLen ∧ call.method = utf8 "GET" ∧
      call.retries { code := 206, chunks := [[2, 3]] } = false ∧
      (ClientImpl.readRangeFinish signing.strerror (utf8 "s3://b/k") 1 2
        (call.receive { code := 206, chunks := [[2, 3]] })).ok = true ∧
      (ClientImpl.readRangeFinish signing.strerror (utf8 "s3://b/k") 1 2
        (call.receive { code := 206, chunks := [[2, 3]] })).out = [2, 3] :=
    ⟨_, _, rfl, rfl, rfl, rfl, rfl, rfl, rfl⟩
  obtain ⟨s₂, acc', hrun', -, -, -, hdone, -⟩ :=
    @ends_undisturbed Bool signing (fun _ ↦ none) putThenRead s₁ _ _ signingTools_signing
      proper_putThenRead false (hothers false (by decide)) hflight call' p' hstart' hp' hcred _
      hwhole' _ hretries' []
      fun acc' hwants' answer hanswer ↦ by
        rw [hget] at hanswer
        obtain rfl : ObjectLog.Answer.part [2, 3] = answer := Option.some.inj hanswer
        cases hwants with
        | put hk =>
          cases hwants' with
          | readRange hk' hpos =>
            obtain rfl := Except.ok.inj (htarget.symm.trans hk)
            obtain rfl := Except.ok.inj (htarget.symm.trans hk')
            rw [hlog]
            rfl
  rw [hlog] at hdone
  exact ⟨s₂, _, hdone, hok, hout, consistent_of_run signingTools_signing proper_putThenRead
    ⟨rfl, rfl, fun _ ↦ rfl⟩ (hrun.trans hrun')⟩

end Invariant

end ConcurrentCalls

end Nanos3Reader
