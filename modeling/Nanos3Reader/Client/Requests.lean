import Nanos3Reader.Client.PutDirectory
import Nanos3Reader.Client.Reading
import Nanos3Reader.MultipartUpload.Invariant
import Nanos3Reader.Lib.Runs

/-!
# The requests a client makes

Which calls reach `run_request`, over all operations, arguments and outcomes. A statement about
every request of the client is one about these: each operation sends requests for such calls and for
nothing else.
-/

open ByteText

namespace Nanos3Reader

namespace FileUpload

variable (u : FileUpload)

/-- The calls that an upload makes: one PUT, or the creation and whatever its threads begin. -/
inductive Makes (env : Outside) : Call → Prop
  | single (hsingle : u.Single) (reads : Bool) {hash : Bytes}
      (hhash : u.singleHash env.sha256Raw reads = some hash) : Makes env (u.singleCall hash)
  | create (hsingle : ¬u.Single) : Makes env u.createCall
  | inParts {w : World} {uploadId : Bytes} {s : Multipart.State u.threads}
      {who : Option (Fin u.threads)} {call : Call} (hsingle : ¬u.Single)
      (hcreate : (u.createUpload env w).1 = .ok uploadId) (hs : u.Reaches env uploadId s)
      (hbegin : .begin who call ∈ s.log) : Makes env call

/-- The hash that a worker hands out for part `i`. -/
def PartHash (sha256Raw : Bytes → Bytes) (i : ℕ) (hash : Bytes) : Prop :=
  if u.options.signPayload then
    ∃ reads, sha256FileHex sha256Raw u.file (u.offset i) (u.partLen i) reads = some hash
  else hash = []

/-- What the calls of an upload look like. -/
inductive MadeAs (sha256Raw : Bytes → Bytes) : Call → Prop
  | single (hsingle : u.Single) (reads : Bool) {hash : Bytes}
      (hhash : u.singleHash sha256Raw reads = some hash) : MadeAs sha256Raw (u.singleCall hash)
  | create : MadeAs sha256Raw u.createCall
  | part (uploadId : Bytes) {i : ℕ} {hash : Bytes} (hi : i < u.parts)
      (hhash : u.PartHash sha256Raw i hash) : MadeAs sha256Raw (u.partCall uploadId i hash)
  | complete (uploadId : Bytes) (etags : ℕ → Bytes) :
      MadeAs sha256Raw (u.completeCall uploadId etags)
  | abort (uploadId : Bytes) : MadeAs sha256Raw (u.abortCall uploadId)

end FileUpload

namespace Multipart

/-- A request that was made for a call, one of those `asked`. -/
def Requested (u : FileUpload) (sha256Raw : Bytes → Bytes) (asked : Call → Prop) (p : Prepared) :
    Prop :=
  (∃ got diagnostic curl, startRequest sha256Raw u.im.cfg u.im.fixedCreds got diagnostic curl
    p.call = .ok p) ∧ asked p.call

/-- Among the calls `asked` are those for the parts of an upload, and for its end. -/
structure Covers (u : FileUpload) (uploadId : Bytes) (sha256Raw : Bytes → Bytes)
    (asked : Call → Prop) : Prop where
  part : ∀ {i hash}, i < u.parts → u.PartHash sha256Raw i hash →
    asked (u.partCall uploadId i hash)
  complete : ∀ etags, asked (u.completeCall uploadId etags)
  abort : asked (u.abortCall uploadId)

/-- What a worker has in hand. -/
def Worker.Asks (u : FileUpload) (sha256Raw : Bytes → Bytes) (asked : Call → Prop) : Worker → Prop
  | .hashing i => i < u.parts ∧ u.options.signPayload = true
  | .starting i hash => i < u.parts ∧ u.PartHash sha256Raw i hash
  | .sending _ p _ => Requested u sha256Raw asked p
  | _ => True

def Caller.Asks (u : FileUpload) (sha256Raw : Bytes → Bytes) (asked : Call → Prop) : Caller → Prop
  | .sendingCompletion p _ => Requested u sha256Raw asked p
  | .sendingAbort p _ _ => Requested u sha256Raw asked p
  | _ => True

attribute [simp] Worker.Asks Caller.Asks

variable {n : ℕ} {reliable : Prop} {u : FileUpload} {uploadId : Bytes} {sha256Raw : Bytes → Bytes}
  {strerror : CurlCode → Bytes} {asked : Call → Prop} {s s' : State n}

theorem requested_of_start {got : Credentials} {diagnostic : Bytes} {curl : Bool} {call : Call}
    {p : Prepared}
    (hstart : startRequest sha256Raw u.im.cfg u.im.fixedCreds got diagnostic curl call = .ok p)
    (hasked : asked call) : Requested u sha256Raw asked p := by
  obtain rfl := call_of_startRequest hstart
  exact ⟨⟨got, diagnostic, curl, hstart⟩, hasked⟩

theorem WorkerStep.asks {w : Fin n}
    (h : WorkerStep reliable u uploadId sha256Raw strerror w s s')
    (hcovers : Covers u uploadId sha256Raw asked) (hw : (s.workers w).Asks u sha256Raw asked) :
    ∃ pc events, s'.workers = Function.update s.workers w pc ∧ s'.log = s.log ++ events ∧
      pc.Asks u sha256Raw asked ∧ ∀ who call, .begin who call ∈ events → asked call := by
  cases h with
  | opens hpc => exact ⟨_, [], rfl, by simp [State.goto], trivial, by simp⟩
  | cannotOpen hpc errno => exact ⟨_, [], rfl, by simp [State.goto], trivial, by simp⟩
  | claims hpc => exact ⟨_, [], rfl, by simp [State.claim], trivial, by simp⟩
  | quits hpc hstop => exact ⟨_, [], rfl, by simp [State.goto], trivial, by simp⟩
  | proceeds hpc hgo =>
    refine ⟨_, [], rfl, by simp [State.goto], ?_, by simp⟩
    split
    · next hsign => exact ⟨hgo.1, hsign⟩
    · next hsign => exact ⟨hgo.1, by simp [FileUpload.PartHash, hsign]⟩
  | hashes hpc reads hhash =>
    rw [hpc] at hw
    refine ⟨_, [], rfl, by simp [State.goto], ⟨hw.1, ?_⟩, by simp⟩
    rw [FileUpload.PartHash, if_pos hw.2]
    exact ⟨reads, hhash⟩
  | cannotHash hpc reads hhash => exact ⟨_, [], rfl, by simp [State.goto], trivial, by simp⟩
  | starts hpc got diagnostic curl hstart =>
    rw [hpc] at hw
    have hasked := hcovers.part hw.1 hw.2
    refine ⟨_, _, rfl, rfl, requested_of_start hstart hasked, fun who call hbegin ↦ ?_⟩
    obtain ⟨-, rfl⟩ : who = some w ∧ call = _ := by simpa using hbegin
    rwa [call_of_startRequest hstart]
  | cannotStart hpc got diagnostic curl hstart =>
    rw [hpc] at hw
    refine ⟨_, _, rfl, rfl, trivial, fun who call hbegin ↦ ?_⟩
    obtain ⟨-, rfl⟩ : who = some w ∧ call = _ := by simpa using hbegin
    exact hcovers.part hw.1 hw.2
  | retries hpc t ht hafter =>
    rw [hpc] at hw
    exact ⟨_, [], rfl, by simp [State.goto, State.take], hw, by simp⟩
  | records hpc t ht hafter hok => exact ⟨_, _, rfl, rfl, trivial, by simp⟩
  | rejects hpc t ht hafter hbad => exact ⟨_, _, rfl, rfl, trivial, by simp⟩
  | fails hpc => exact ⟨_, [], rfl, by simp [State.goto, State.failWith], trivial, by simp⟩

/-- What the calling thread takes in hand and what it adds to the log is the completion or the
abort. -/
theorem CallerStep.asks (h : CallerStep reliable u uploadId sha256Raw strerror s s')
    (hcovers : Covers u uploadId sha256Raw asked) (hc : s.caller.Asks u sha256Raw asked) :
    s'.workers = s.workers ∧ s'.caller.Asks u sha256Raw asked ∧
      ∃ events, s'.log = s.log ++ events ∧ ∀ who call, .begin who call ∈ events → asked call := by
  cases h with
  | joins hpc hjoined =>
    refine ⟨rfl, ?_, [], by simp [State.call], by simp⟩
    rw [State.caller_call]
    split <;> trivial
  | starts hpc got diagnostic curl hstart =>
    have hasked := hcovers.complete s.etags
    refine ⟨rfl, requested_of_start hstart hasked, _, rfl, fun who call hmem ↦ ?_⟩
    obtain ⟨-, rfl⟩ : who = none ∧ call = _ := by simpa using hmem
    rwa [call_of_startRequest hstart]
  | cannotStart hpc got diagnostic curl hstart =>
    refine ⟨rfl, trivial, _, rfl, fun who call hmem ↦ ?_⟩
    obtain ⟨-, rfl⟩ : who = none ∧ call = _ := by simpa using hmem
    exact hcovers.complete s.etags
  | retries hpc t ht hafter =>
    rw [hpc] at hc
    exact ⟨rfl, hc, [], by simp [State.call, State.complete], by simp⟩
  | succeeds hpc t ht hafter hok => exact ⟨rfl, trivial, _, rfl, by simp⟩
  | rejected hpc t ht hafter hbad => exact ⟨rfl, trivial, _, rfl, by simp⟩
  | startsAbort hpc got diagnostic curl hstart =>
    refine ⟨rfl, requested_of_start hstart hcovers.abort, _, rfl, fun who call hmem ↦ ?_⟩
    obtain ⟨-, rfl⟩ : who = none ∧ call = _ := by simpa using hmem
    rw [call_of_startRequest hstart]
    exact hcovers.abort
  | cannotStartAbort hpc got diagnostic curl hstart =>
    refine ⟨rfl, trivial, _, rfl, fun who call hmem ↦ ?_⟩
    obtain ⟨-, rfl⟩ : who = none ∧ call = _ := by simpa using hmem
    exact hcovers.abort
  | retriesAbort hpc t hafter =>
    rw [hpc] at hc
    exact ⟨rfl, hc, [], by simp [State.call], by simp⟩
  | aborts hpc t hafter => exact ⟨rfl, trivial, _, rfl, by simp⟩

/-- All calls begun so far, what is under way, and what workers are about to begin is among the
calls `asked`. -/
structure Asking (u : FileUpload) (sha256Raw : Bytes → Bytes) (asked : Call → Prop) (s : State n) :
    Prop where
  workers : ∀ w, (s.workers w).Asks u sha256Raw asked
  caller : s.caller.Asks u sha256Raw asked
  begun : ∀ who call, .begin who call ∈ s.log → asked call

theorem asking_initial : Asking u sha256Raw asked (State.initial : State n) where
  workers _ := trivial
  caller := trivial
  begun _ _ hmem := absurd hmem List.not_mem_nil

/-- **What an upload has under way is what it asks for.** -/
theorem asking_step (hcovers : Covers u uploadId sha256Raw asked) (s s' : State n)
    (h : Asking u sha256Raw asked s)
    (hstep : Step reliable u uploadId sha256Raw strerror s s') : Asking u sha256Raw asked s' := by
  have hbegun {events : List (Event n)} (hlog : s'.log = s.log ++ events)
      (hevents : ∀ who call, .begin who call ∈ events → asked call) :
      ∀ who call, .begin who call ∈ s'.log → asked call := by
    intro who call hmem
    rw [hlog] at hmem
    rcases List.mem_append.mp hmem with hmem | hmem
    · exact h.begun who call hmem
    · exact hevents who call hmem
  rcases hstep with ⟨w, hworker⟩ | ⟨hcaller⟩
  · obtain ⟨pc, events, hworkers, hlog, hpc, hevents⟩ := hworker.asks hcovers (h.workers w)
    refine ⟨?_, hworker.caller_eq ▸ h.caller, hbegun hlog hevents⟩
    rw [hworkers]
    exact workers_update h.workers hpc
  · obtain ⟨hworkers, hpc, events, hlog, hevents⟩ := hcaller.asks hcovers h.caller
    exact ⟨hworkers ▸ h.workers, hpc, hbegun hlog hevents⟩

theorem asking_of_run (hcovers : Covers u uploadId sha256Raw asked)
    (hrun : Relation.ReflTransGen (Step reliable u uploadId sha256Raw strerror) State.initial s) :
    Asking u sha256Raw asked s :=
  Runs.invariant (asking_step hcovers) asking_initial hrun

end Multipart

theorem FileUpload.covers_madeAs (u : FileUpload) (uploadId : Bytes) (sha256Raw : Bytes → Bytes) :
    Multipart.Covers u uploadId sha256Raw (u.MadeAs sha256Raw) where
  part hi hhash := .part uploadId hi hhash
  complete := .complete uploadId
  abort := .abort uploadId

/-- **What an upload asks for**, in all its runs. -/
theorem FileUpload.Makes.madeAs {u : FileUpload} {env : Outside} {call : Call}
    (h : u.Makes env call) : u.MadeAs env.sha256Raw call := by
  rcases h with ⟨hsingle, reads, hhash⟩ | hsingle | ⟨hsingle, hcreate, hs, hbegin⟩
  · exact .single hsingle reads hhash
  · exact .create
  · exact (Multipart.asking_of_run (u.covers_madeAs _ _) hs.2).begun _ _ hbegin

namespace ClientImpl

/-- The calls that the operations of a client make. -/
inductive Makes (env : Outside) (im : ClientImpl) : Call → Prop
  | head {uri bucket key : Bytes} (h : im.target uri true = .ok (bucket, key)) :
      Makes env im (headCall bucket key)
  | readRange {uri : Bytes} {offset n : ℕ} {hasDst : Bool} {call : Call}
      (h : im.readRangeStart uri offset n hasDst = .ok (some call)) : Makes env im call
  | list {prefixUri bucket pfx : Bytes} (h : im.target prefixUri false = .ok (bucket, pfx))
      (delimiter token : Bytes) : Makes env im (listCall bucket pfx delimiter token)
  | put {uri : Bytes} {data : Option Bytes} {options : PutOptions} {call : Call}
      (h : im.putCall uri data options = .ok call) : Makes env im call
  | putFile {a : PutFileArgs} {status : FileStatus} {u : FileUpload} {call : Call}
      (h : im.acceptFile a status = .ok u) (hcall : u.Makes env call) : Makes env im call
  | putDirectory {d : DirectoryUpload} {s : Directory.State d.threads} {item : Item}
      {status : FileStatus} {u : FileUpload} {call : Call} (hd : d.im = im) (hs : d.Reaches env s)
      (hitem : item ∈ s.begun) (h : im.acceptFile (d.args item) status = .ok u)
      (hcall : u.Makes env call) : Makes env im call

theorem refusal_of_makes {env : Outside} {im : ClientImpl} {call : Call} (h : im.Makes env call) :
    im.refusal = [] := by
  cases h with
  | head h => exact refusal_of_target h
  | readRange h =>
    rw [readRangeStart] at h
    split at h
    · cases h
    · next htarget => exact refusal_of_target htarget
  | list h => exact refusal_of_target h
  | put h =>
    rw [putCall] at h
    split at h
    · cases h
    · next htarget => exact refusal_of_target htarget
  | putFile h => exact refusal_of_target (of_acceptFile h).target
  | putDirectory _ _ _ h => exact refusal_of_target (of_acceptFile h).target

/-- A request that an operation sends: an attempt of a call that it makes. -/
structure Sends (env : Outside) (im : ClientImpl) (req : HttpRequest) : Prop where
  attempt : ∃ call got diagnostic curl p m, im.Makes env call ∧
    startRequest env.sha256Raw im.cfg im.fixedCreds got diagnostic curl call = .ok p ∧
    req = p.httpRequest env.sha256Raw (env.amzNow m)

/-- From `w` to `w'` the client has sent such requests only. -/
def SentFrom (env : Outside) (im : ClientImpl) (w w' : World) : Prop :=
  ∃ reqs, w'.sent = w.sent ++ reqs ∧ ∀ req ∈ reqs, im.Sends env req

variable {env : Outside} {im : ClientImpl} {w w' : World}

theorem SentFrom.refl : im.SentFrom env w w := ⟨[], by simp, by simp⟩

theorem SentFrom.trans {w'' : World} (h : im.SentFrom env w w') (h' : im.SentFrom env w' w'') :
    im.SentFrom env w w'' := by
  obtain ⟨reqs, hreqs, hall⟩ := h
  obtain ⟨reqs', hreqs', hall'⟩ := h'
  refine ⟨reqs ++ reqs', by rw [hreqs', hreqs, List.append_assoc], fun req hreq ↦ ?_⟩
  rcases List.mem_append.mp hreq with hreq | hreq
  · exact hall req hreq
  · exact hall' req hreq

theorem sentFrom_run {call : Call} (hcall : im.Makes env call) :
    im.SentFrom env w (im.run env w call).2 := by
  obtain ⟨reqs, hsent, hreqs, -⟩ := runRequest_prepared env im.cfg im.fixedCreds w call
  refine ⟨reqs, hsent, fun req hreq ↦ ?_⟩
  obtain ⟨got, diagnostic, curl, p, m, hstart, hattempt⟩ := hreqs req hreq
  exact ⟨call, got, diagnostic, curl, p, m, hcall, hstart, hattempt⟩

theorem sentFrom_head (env : Outside) (im : ClientImpl) (w : World) (uri : Bytes) (size : ℕ) :
    im.SentFrom env w (im.head env w uri size).2 := by
  rw [head]
  split
  · exact .refl
  · next htarget =>
    have hrun : im.SentFrom env w _ := sentFrom_run (.head htarget)
    split
    · next heq => simpa [heq] using hrun
    · next heq => simpa [heq] using hrun

theorem sentFrom_readRange (env : Outside) (im : ClientImpl) (w : World) (uri : Bytes)
    (offset n : ℕ) (hasDst : Bool) :
    im.SentFrom env w (im.readRange env w uri offset n hasDst).2 := by
  rw [readRange]
  split
  · exact .refl
  · exact .refl
  · next hstart =>
    have hrun : im.SentFrom env w _ := sentFrom_run (.readRange hstart)
    split
    · next heq => simpa [heq] using hrun
    · next heq => simpa [heq] using hrun

theorem sentFrom_put (env : Outside) (im : ClientImpl) (w : World) (uri : Bytes)
    (data : Option Bytes) (options : PutOptions) (out : PutOut) :
    im.SentFrom env w (im.put env w uri data options out).2 := by
  rw [put]
  split
  · exact .refl
  · next hcall =>
    have hrun : im.SentFrom env w _ := sentFrom_run (.put hcall)
    split
    · next heq => simpa [heq] using hrun
    · next heq => simpa [heq] using hrun

theorem sentFrom_listLoop {prefixUri bucket pfx delimiter : Bytes}
    (htarget : im.target prefixUri false = .ok (bucket, pfx)) {fuel : ℕ} {w w' : World}
    {token : Bytes} {found : List ObjectInfo} {prefixes : List Bytes}
    {result : Except Bytes (List ObjectInfo × List Bytes)}
    (h : im.listLoop env prefixUri bucket pfx delimiter fuel w token found prefixes
      = some (result, w')) : im.SentFrom env w w' := by
  induction fuel generalizing w token found prefixes with
  | zero => cases h
  | succ fuel ih =>
    have hrun : im.SentFrom env w _ := sentFrom_run (.list htarget delimiter token)
    rw [listLoop] at h
    split at h
    · next heq =>
      cases h
      simpa [heq] using hrun
    · next r w'' heq =>
      rw [heq] at hrun
      split at h
      · cases h
        exact hrun
      · split at h
        · cases h
          exact hrun
        · split at h
          · cases h
            exact hrun
          · exact hrun.trans (ih h)

theorem sentFrom_list {fuel : ℕ} {w w' : World} {prefixUri delimiter : Bytes}
    {objects : List ObjectInfo} {commonPrefixes : List Bytes}
    {out : Outcome (List ObjectInfo × List Bytes)}
    (h : im.list env fuel w prefixUri delimiter objects commonPrefixes = some (out, w')) :
    im.SentFrom env w w' := by
  rw [list] at h
  split at h
  · cases h
    exact .refl
  · next htarget =>
    obtain ⟨⟨result, w''⟩, hloop, heq⟩ := Option.map_eq_some_iff.mp h
    cases result <;>
    · cases heq
      exact sentFrom_listLoop htarget hloop

theorem sentFrom_putSingle {a : PutFileArgs} {status : FileStatus} {u : FileUpload}
    (h : im.acceptFile a status = .ok u) (hsingle : u.Single) (env : Outside) (w : World)
    (opened : Option Bytes) (reads : Bool) :
    im.SentFrom env w (u.putSingle env w opened reads).2 := by
  obtain rfl := (of_acceptFile h).client
  rw [FileUpload.putSingle]
  split
  · exact .refl
  · next hstart =>
    obtain ⟨hash, hhash, rfl⟩ := FileUpload.singleStart_eq_ok hstart
    have hrun : u.im.SentFrom env w _ := sentFrom_run (.putFile h (.single hsingle reads hhash))
    split
    · next heq => simpa [heq] using hrun
    · next heq => simpa [heq] using hrun

theorem sentFrom_createUpload {a : PutFileArgs} {status : FileStatus} {u : FileUpload}
    (h : im.acceptFile a status = .ok u) (hsingle : ¬u.Single) (env : Outside) (w : World) :
    im.SentFrom env w (u.createUpload env w).2 := by
  obtain rfl := (of_acceptFile h).client
  have hrun : u.im.SentFrom env w _ := sentFrom_run (.putFile h (.create hsingle))
  rw [FileUpload.createUpload]
  split
  · next heq => simpa [heq] using hrun
  · next heq => simpa [heq] using hrun

end ClientImpl

end Nanos3Reader
