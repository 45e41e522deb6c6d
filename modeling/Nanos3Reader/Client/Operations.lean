import Nanos3Reader.Client.Commands
import Nanos3Reader.Client.RangeRead
import Nanos3Reader.Lib.ObjectLog

/-!
# Operations on one object

`head`, `read_range` and `put` have one request each. What such an operation asks of a store is read
off the request that it sends, and what it learns is what the response to it stands for.
-/

open ByteText ConditionalWrite ObjectApi ObjectLog

namespace Nanos3Reader

open ConditionalPut (optionsCondition Transmissible)

/-- An operation with its arguments. -/
inductive Operation where
  | head (uri : Bytes) (size : ℕ)
  | readRange (uri : Bytes) (offset n : ℕ) (hasDst : Bool)
  | put (uri : Bytes) (data : Option Bytes) (options : PutOptions) (out : ClientImpl.PutOut)

/-- What an operation leaves behind. -/
inductive Result where
  | head (out : Outcome ℕ)
  | readRange (out : Outcome Bytes)
  | put (out : Outcome ClientImpl.PutOut)

namespace Operation

/-- What an operation leaves behind when no request could be made. -/
def failed (e : Bytes) : Operation → Result
  | .head _ size => .head ⟨false, size, e⟩
  | .readRange _ _ _ _ => .readRange ⟨false, [], e⟩
  | .put _ _ _ out => .put ⟨false, (out.1, out.2.map fun _ ↦ false), e⟩

/-- The request of an operation, or what it leaves behind without one. -/
def start (im : ClientImpl) (op : Operation) : Result ⊕ Call :=
  match op with
  | .head uri _ =>
    match im.target uri true with
    | .error e => .inl (op.failed e)
    | .ok (bucket, key) => .inr (headCall bucket key)
  | .readRange uri offset n hasDst =>
    match im.readRangeStart uri offset n hasDst with
    | .error e => .inl (op.failed e)
    | .ok none => .inl (.readRange ⟨true, [], []⟩)
    | .ok (some call) => .inr call
  | .put uri data options _ =>
    match im.putCall uri data options with
    | .error e => .inl (op.failed e)
    | .ok call => .inr call

/-- What an operation makes of the reply. -/
def finish (strerror : CurlCode → Bytes) (r : Reply) : Operation → Result
  | .head uri size => .head (ClientImpl.headFinish strerror uri r size)
  | .readRange uri offset n _ => .readRange (ClientImpl.readRangeFinish strerror uri offset n r)
  | .put uri _ options out =>
    .put (ClientImpl.putFinish strerror uri options r (out.1, out.2.map fun _ ↦ false))

/-- An operation alone. -/
def run (im : ClientImpl) (env : Outside) (w : World) (op : Operation) : Result × World :=
  match op.start im with
  | .inl res => (res, w)
  | .inr call =>
    match im.run env w call with
    | (.error e, w) => (op.failed e, w)
    | (.ok r, w) => (op.finish env.strerror r, w)

theorem run_head (im : ClientImpl) (env : Outside) (w : World) (uri : Bytes) (size : ℕ) :
    (Operation.head uri size).run im env w
      = (.head (im.head env w uri size).1, (im.head env w uri size).2) := by
  rw [run, start, ClientImpl.head]
  rcases im.target uri true with e | ⟨bucket, key⟩
  · rfl
  · dsimp only
    rcases im.run env w (headCall bucket key) with ⟨e | r, w'⟩ <;> rfl

theorem run_readRange (im : ClientImpl) (env : Outside) (w : World) (uri : Bytes) (offset n : ℕ)
    (hasDst : Bool) : (Operation.readRange uri offset n hasDst).run im env w
      = (.readRange (im.readRange env w uri offset n hasDst).1,
        (im.readRange env w uri offset n hasDst).2) := by
  rw [run, start, ClientImpl.readRange]
  rcases im.readRangeStart uri offset n hasDst with e | _ | call
  · rfl
  · rfl
  · dsimp only
    rcases im.run env w call with ⟨e | r, w'⟩ <;> rfl

theorem run_put (im : ClientImpl) (env : Outside) (w : World) (uri : Bytes) (data : Option Bytes)
    (options : PutOptions) (out : ClientImpl.PutOut) :
    (Operation.put uri data options out).run im env w
      = (.put (im.put env w uri data options out).1, (im.put env w uri data options out).2) := by
  rw [run, start, ClientImpl.put]
  rcases im.putCall uri data options with e | call
  · rfl
  · dsimp only
    rcases im.run env w call with ⟨e | r, w'⟩ <;> rfl

end Operation

namespace ConcurrentCalls

/-- A call: an operation, and the client it is made on. -/
structure Calling where
  im : ClientImpl
  op : Operation

/-! ## What a call asks and what it learns -/

/-- The access that a command is. -/
def access : Command → Option (Access (Bytes × Bytes) Bytes UInt8)
  | .head bucket key => some (.size (bucket, key))
  | .get bucket key range => some (.read (bucket, key) range)
  | .put bucket key condition body => some (.write (bucket, key) condition body)
  | _ => none

/-- The answer that a response stands for, if it looks like one. -/
def reported (method : Bytes) (t : Transfer) : Option (ObjectLog.Answer UInt8) :=
  if t.rc ≠ .ok then none
  else if method = utf8 "HEAD" ∧ t.code = 200 ∧ 0 ≤ t.contentLength then
    some (.size t.contentLength.toNat)
  else if method = utf8 "GET" ∧ t.code = 206 then some (.part t.chunks.flatten)
  else if method = utf8 "PUT" ∧ t.code = 200 then some .written
  else if method = utf8 "PUT" ∧ t.code = 412 then some .refused
  else none

/-- What an operation asks of a store. -/
inductive Wants (im : ClientImpl) : Operation → Access (Bytes × Bytes) Bytes UInt8 → Prop
  | head {uri : Bytes} {size : ℕ} {k : Bytes × Bytes} (h : im.target uri true = .ok k) :
      Wants im (.head uri size) (.size k)
  | readRange {uri : Bytes} {offset n : ℕ} {hasDst : Bool} {k : Bytes × Bytes}
      (h : im.target uri true = .ok k) (hpos : 0 < n) :
      Wants im (.readRange uri offset n hasDst) (.read k (some (offset, offset + n - 1)))
  | put {uri body : Bytes} {options : PutOptions} {out : ClientImpl.PutOut} {k : Bytes × Bytes}
      (h : im.target uri true = .ok k) :
      Wants im (.put uri (some body) options out) (.write k (optionsCondition options) body)

/-- The answer that a result stands for, if it stands for one. -/
def learned : Result → Option (ObjectLog.Answer UInt8)
  | .head out => if out.ok then some (.size out.out) else none
  | .readRange out => if out.ok ∧ out.out ≠ [] then some (.part out.out) else none
  | .put out =>
    if out.ok then some .written else if out.out.2 = some true then some .refused else none

namespace Calling

/-- What is asked of the arguments of a call: its client is one of this service, its target can be
routed to, the value of an `if_match` can be sent. -/
structure Proper (c : Calling) (addressing : Addressing) : Prop where
  addressing : c.im.cfg.addressing c.im.cfg.region = addressing
  routes : ∀ call, c.op.start c.im = .inr call →
    c.im.cfg.Routes call.bucket call.key c.im.cfg.region
  sendable : ∀ uri data options out, c.op = .put uri data options out →
    options.ifMatch = [] ∨ Transmissible options.ifMatch

/-- A request made for the call. -/
def Made (c : Calling) (sha256Raw : Bytes → Bytes) (p : Prepared) : Prop :=
  ∃ got diagnostic curl call, c.op.start c.im = .inr call ∧
    startRequest sha256Raw c.im.cfg c.im.fixedCreds got diagnostic curl call = .ok p ∧
      p.cred.Presentable

end Calling

theorem exists_asks {env : Outside} {c : Calling} {addressing : Addressing}
    (h : c.Proper addressing) {call : Call} (hstart : c.op.start c.im = .inr call) :
    ∃ cmd acc, c.im.Asks env call cmd ∧ access cmd = some acc ∧ Wants c.im c.op acc := by
  have hsendable := h.sendable
  revert hstart hsendable
  rcases c.op with ⟨uri, size⟩ | ⟨uri, offset, n, hasDst⟩ | ⟨uri, data, options, out⟩
  all_goals intro hstart hsendable; rw [Operation.start] at hstart
  · rcases htarget : c.im.target uri true with e | ⟨bucket, key⟩
    all_goals rw [htarget] at hstart; cases hstart
    exact ⟨_, _, .head htarget, rfl, .head htarget⟩
  · rcases hread : c.im.readRangeStart uri offset n hasDst with e | _ | call
    all_goals rw [hread] at hstart; cases hstart
    have htarget := hread
    rw [ClientImpl.readRangeStart] at htarget
    split at htarget
    · cases htarget
    · next bucket key hbk =>
      split at htarget
      · cases htarget
      · next hpos =>
        exact ⟨_, _, .readRange hbk hread, rfl, .readRange hbk (Nat.pos_of_ne_zero hpos)⟩
  · rcases hput : c.im.putCall uri data options with e | call
    all_goals rw [hput] at hstart; cases hstart
    have htarget := hput
    rw [ClientImpl.putCall] at htarget
    split at htarget
    · cases htarget
    · next bucket key hbk =>
      split at htarget
      · cases htarget
      · next body =>
        exact ⟨_, _, .put hbk hput (hsendable _ _ _ _ rfl), rfl, .put hbk⟩

/-- **What is served for a call is what it asks.** -/
theorem Calling.Made.wants {env : Outside} (htools : SigningTools env.sha256Raw env.amzNow)
    {c : Calling} {addressing : Addressing} (hc : c.Proper addressing) {p : Prepared}
    (h : c.Made env.sha256Raw p) {m : ℕ} {reads : List ReadCall}
    (hwhole : (p.call.upload reads).sent.length = p.call.bodyLen) {cmd : Command}
    (hcmd : command addressing ((p.httpRequest env.sha256Raw (env.amzNow m)).arrived
      (p.call.upload reads).sent) = some cmd)
    {acc : Access (Bytes × Bytes) Bytes UInt8} (hacc : access cmd = some acc) :
    Wants c.im c.op acc := by
  obtain ⟨got, diagnostic, curl, call, hstart, hprepared, hcred⟩ := h
  obtain ⟨cmd', acc', hasks, hacc', hwants⟩ := exists_asks hc hstart
  have hsent := hasks.command_sent htools hprepared hcred (hc.routes call hstart) m hwhole
  rw [hc.addressing, hcmd] at hsent
  obtain rfl := Option.some.inj hsent
  obtain rfl := Option.some.inj (hacc.symm.trans hacc')
  exact hwants

/-- A result is one of its operation, and a range read that is true has all bytes. -/
def Fits : Operation → Result → Prop
  | .head _ _, .head _ => True
  | .readRange _ _ n _, .readRange out => out.ok = true → out.out.length = n
  | .put _ _ _ _, .put _ => True
  | _, _ => False

theorem fits_failed (op : Operation) (e : Bytes) :
    Fits op (op.failed e) ∧ learned (op.failed e) = none := by
  rcases op with ⟨uri, size⟩ | ⟨uri, offset, n, hasDst⟩ | ⟨uri, data, options, ⟨etag, precondition⟩⟩
  · exact ⟨trivial, rfl⟩
  · exact ⟨fun h ↦ (by cases h), rfl⟩
  · refine ⟨trivial, ?_⟩
    rcases precondition with _ | precondition <;> rfl

theorem learned_of_start {c : Calling} {res : Result} (h : c.op.start c.im = .inl res) :
    Fits c.op res ∧ learned res = none := by
  revert h
  rcases hop : c.op with ⟨uri, size⟩ | ⟨uri, offset, n, hasDst⟩ | ⟨uri, data, options, out⟩
  all_goals intro h; rw [Operation.start] at h
  · split at h
    · next e _ =>
      cases h
      exact fits_failed (.head uri size) e
    · cases h
  · split at h
    · next e _ =>
      cases h
      exact fits_failed (.readRange uri offset n hasDst) e
    · next hnone =>
      cases h
      refine ⟨fun _ ↦ ?_, rfl⟩
      rw [ClientImpl.readRangeStart] at hnone
      split at hnone
      · cases hnone
      · split at hnone
        · next hzero => exact hzero.symm
        · split at hnone
          · cases hnone
          · split at hnone <;> cases hnone
    · cases h
  · split at h
    · next e _ =>
      cases h
      exact fits_failed (.put uri data options out) e
    · cases h

theorem reported_head {strerror : CurlCode → Bytes} {uri bucket key : Bytes} {size : ℕ}
    {t : Transfer}
    (hok : (ClientImpl.headFinish strerror uri ((headCall bucket key).receive t) size).ok = true) :
    reported (utf8 "HEAD") t = some (.size
      (ClientImpl.headFinish strerror uri ((headCall bucket key).receive t) size).out) := by
  have hlength : ((headCall bucket key).receive t).contentLength = t.contentLength := by
    rw [Call.receive]
    dsimp only
    exact if_pos rfl
  have hcode : ((headCall bucket key).receive t).code = t.code := rfl
  rw [ClientImpl.headFinish, hlength, hcode] at hok ⊢
  split at hok
  · cases hok
  · next hrc =>
    split at hok
    · cases hok
    · next hstatus =>
      split at hok
      · cases hok
      · next hneg =>
        have hcurl : t.rc = .ok := (rc_receive_eq_ok.mp (not_not.mp (not_or.mp hrc).2)).2
        rw [if_neg hrc, if_neg hstatus, if_neg hneg, reported, if_neg (not_not.mpr hcurl),
          if_pos ⟨rfl, not_not.mp hstatus, not_lt.mp hneg⟩]

theorem reported_readRange {strerror : CurlCode → Bytes} {uri bucket key : Bytes} {offset n : ℕ}
    {t : Transfer} (hok : (ClientImpl.readRangeFinish strerror uri offset n
      ((readRangeCall bucket key offset n).receive t)).ok = true) :
    reported (utf8 "GET") t = some (.part (ClientImpl.readRangeFinish strerror uri offset n
      ((readRangeCall bucket key offset n).receive t)).out) := by
  obtain ⟨hover, hrc, hcode, -⟩ := ClientImpl.ok_readRangeFinish.mp hok
  have hcurl : t.rc = .ok := (rc_receive_eq_ok.mp hrc).2
  have hpartial : t.code = 206 := hcode
  have hget : utf8 "GET" ≠ utf8 "HEAD" := by decide
  rw [ClientImpl.out_readRangeFinish, (receive_complete hpartial).2 hover, reported,
    if_neg (not_not.mpr hcurl), if_neg (fun h ↦ hget h.1), if_pos ⟨rfl, hpartial⟩]

theorem learned_put_of_not_ok {out : Outcome ClientImpl.PutOut} {answer : ObjectLog.Answer UInt8}
    (hok : out.ok = false) (h : answer ∈ learned (.put out)) :
    out.out.2 = some true ∧ answer = .refused := by
  rw [learned, if_neg (by simp [hok])] at h
  split at h
  · next hrefused => exact ⟨hrefused, (Option.mem_some.mp h).symm⟩
  · cases h

theorem reported_put {strerror : CurlCode → Bytes} {uri : Bytes} {options : PutOptions}
    {call : Call} {t : Transfer} {out : ClientImpl.PutOut} {answer : ObjectLog.Answer UInt8}
    (h : answer ∈ learned (.put (ClientImpl.putFinish strerror uri options (call.receive t)
      (out.1, out.2.map fun _ ↦ false)))) : reported (utf8 "PUT") t = some answer := by
  have hput : utf8 "PUT" ≠ utf8 "HEAD" ∧ utf8 "PUT" ≠ utf8 "GET" := by decide
  have hcode : (call.receive t).code = t.code := rfl
  have hfalse : out.2.map (fun _ ↦ false) ≠ some true := by
    rcases out.2 with _ | precondition <;> simp
  rw [ClientImpl.putFinish, hcode] at h
  split at h
  · exact absurd (learned_put_of_not_ok rfl h).1 hfalse
  · next hrc =>
    have hcurl : t.rc = .ok := (rc_receive_eq_ok.mp (not_not.mp (not_or.mp hrc).2)).2
    rw [reported, if_neg (not_not.mpr hcurl), if_neg (fun h ↦ hput.1 h.1),
      if_neg (fun h ↦ hput.2 h.1)]
    split at h
    · next hrefused =>
      rw [if_neg (by simp [hrefused]), if_pos ⟨rfl, hrefused⟩, (learned_put_of_not_ok rfl h).2]
    · split at h
      · exact absurd (learned_put_of_not_ok rfl h).1 hfalse
      · next hwritten =>
        rw [if_pos ⟨rfl, not_not.mp hwritten⟩]
        exact h

/-- **What is learned was reported.** -/
theorem reported_of_learned {c : Calling} {call : Call} (hstart : c.op.start c.im = .inr call)
    (strerror : CurlCode → Bytes) (t : Transfer) :
    Fits c.op (c.op.finish strerror (call.receive t)) ∧
      ∀ answer ∈ learned (c.op.finish strerror (call.receive t)),
        reported call.method t = some answer := by
  revert hstart
  rcases c.op with ⟨uri, size⟩ | ⟨uri, offset, n, hasDst⟩ | ⟨uri, data, options, out⟩
  all_goals intro hstart; rw [Operation.start] at hstart
  · rcases htarget : c.im.target uri true with e | ⟨bucket, key⟩
    all_goals rw [htarget] at hstart; cases hstart
    refine ⟨trivial, fun answer h ↦ ?_⟩
    rw [Operation.finish, learned] at h
    split at h
    · next hok =>
      rw [← h]
      exact reported_head hok
    · cases h
  · rcases hread : c.im.readRangeStart uri offset n hasDst with e | _ | call
    all_goals rw [hread] at hstart; cases hstart
    obtain ⟨bucket, key, rfl⟩ : ∃ bucket key, call = readRangeCall bucket key offset n := by
      rw [ClientImpl.readRangeStart] at hread
      split at hread
      · cases hread
      · split at hread
        · cases hread
        · split at hread
          · cases hread
          · split at hread
            · cases hread
            · cases hread
              exact ⟨_, _, rfl⟩
    refine ⟨fun hok ↦ ?_, fun answer h ↦ ?_⟩
    · rw [ClientImpl.out_readRangeFinish]
      exact (ClientImpl.ok_readRangeFinish.mp hok).2.2.2
    · rw [Operation.finish, learned] at h
      split at h
      · next hok =>
        rw [← h]
        exact reported_readRange hok.1
      · cases h
  · rcases hput : c.im.putCall uri data options with e | call
    all_goals rw [hput] at hstart; cases hstart
    refine ⟨trivial, fun answer h ↦ ?_⟩
    have hmethod : call.method = utf8 "PUT" :=
      (ConditionalPut.forCall_of_putCall (a := ⟨c.im, uri, data, options, out⟩) hput).method
    rw [hmethod]
    exact reported_put h

end ConcurrentCalls

end Nanos3Reader
