import Nanos3Reader.Lib.SharedCounter
import Nanos3Reader.MultipartUpload

/-!
# What holds throughout an upload

One invariant serves all results about multipart uploads. Of the workers it says what each knows
about the part it has in hand, and that every part number drawn is recorded, in somebody's hand, or
given up because something has failed. Of the calling thread it says what it has done since it
joined the workers, as a log: nothing, or one completion, or an abort after that.
-/

open ByteText SharedCounter

namespace Nanos3Reader

namespace Multipart

open FileUpload

/-! ## The invariant -/

/-- A worker that claimed a part and has not recorded it yet. One about to report a failure is let
off nothing before it has reported it. -/
def Worker.Owes : Worker → ℕ → Prop
  | .checking i, j | .hashing i, j | .starting i _, j | .sending i _ _, j => j = i
  | .failing _, _ => True
  | .opening, _ | .claiming, _ | .done, _ => False

/-- Whether a worker's request is under way. -/
def Worker.busy : Worker → ℕ
  | .sending _ _ _ => 1
  | _ => 0

attribute [simp] Worker.Owes Worker.busy

namespace Event

variable {n : ℕ}

/-- An event of a worker, which sends nothing but parts. -/
def ByWorker (w : Fin n) : Event n → Prop
  | .begin who call => who = some w ∧ call.method = utf8 "PUT"
  | .finish who _ => who = some w

def isBegin (who : Option (Fin n)) : Event n → Bool
  | .begin who' _ => who' = who
  | .finish _ _ => false

def isFinish (who : Option (Fin n)) : Event n → Bool
  | .begin _ _ => false
  | .finish who' _ => who' = who

attribute [simp] ByWorker isBegin isFinish

end Event

section Invariant

variable {n : ℕ} (reliable : Prop) (u : FileUpload) (uploadId : Bytes)

/-- What a worker at `pc` knows. -/
def WorkerOk (s : State n) : Worker → Prop
  | .checking i => i < s.next
  | .hashing i | .starting i _ => i < u.parts
  | .sending i p _ => i < u.parts ∧ ∃ hash, p.call = u.partCall uploadId i hash
  | .failing message => message ≠ []
  | .done => s.failed = true ∨ u.parts ≤ s.next
  | .opening | .claiming => True

attribute [simp] WorkerOk

/-- Every part has been sent and recorded. -/
def Uploaded (s : State n) : Prop := s.failed = false ∧ ∀ i < u.parts, s.etags i ≠ []

/-- An answer that completes the upload. -/
def Acknowledged (r : Reply) : Prop :=
  r.rc = .ok ∧ r.overflow = false ∧ r.code = 200 ∧ hasError r.text = false

/-- What the calling thread has done before it gives up: nothing if a part failed, else a completion
that did not succeed. -/
def GaveUp (s : State n) (own : List (Event n)) : Prop :=
  (s.failed = true ∧ own = []) ∨
    (Uploaded u s ∧ ∃ reply,
      own = [.begin none (u.completeCall uploadId s.etags), .finish none reply])

/-- What the calling thread has done since the workers ended. -/
def CallerOk (s : State n) (own : List (Event n)) : Caller → Prop
  | .working => own = []
  | .completing => Uploaded u s ∧ own = []
  | .sendingCompletion p _ =>
    Uploaded u s ∧ p.call = u.completeCall uploadId s.etags ∧ own = [.begin none p.call]
  | .aborting error => error ≠ [] ∧ GaveUp u uploadId s own
  | .sendingAbort p _ error =>
    error ≠ [] ∧ p.call = u.abortCall uploadId ∧
      ∃ before, own = before ++ [.begin none p.call] ∧ GaveUp u uploadId s before
  | .returned ⟨true, _, error⟩ =>
    error = [] ∧ Uploaded u s ∧ (reliable → s.object = some u.file.content) ∧ ∃ r, Acknowledged r ∧
      own = [.begin none (u.completeCall uploadId s.etags), .finish none (some r)]
  | .returned ⟨false, _, error⟩ =>
    error ≠ [] ∧ ∃ before reply, GaveUp u uploadId s before ∧
      own = before ++ [.begin none (u.abortCall uploadId), .finish none reply]

/-- The log: what the workers have done, each with its requests ended but the one under way, and
then what the calling thread has done. -/
def LogOk (s : State n) : Prop :=
  ∃ before own, s.log = before ++ own ∧ CallerOk reliable u uploadId s own s.caller ∧
    (∀ e ∈ before, ∃ w, e.ByWorker w) ∧
    ∀ w, before.countP (Event.isBegin (some w))
      = before.countP (Event.isFinish (some w)) + (s.workers w).busy

/-- What a server that can be relied upon holds. -/
structure Kept (s : State n) : Prop where
  accepted : ∀ a ∈ s.accepted, ∃ i < u.parts,
    a.query = partQuery uploadId (i + 1) ∧ a.body = u.slice i
  etags : ∀ i, s.etags i ≠ [] →
    ∃ a ∈ s.accepted, a.query = partQuery uploadId (i + 1) ∧ a.etag = s.etags i
  object : s.object = none ∨ s.object = some u.file.content

structure Inv (s : State n) : Prop where
  worker : ∀ w, WorkerOk u uploadId s (s.workers w)
  covered : Covered s.next (fun w i ↦ (s.workers w).Owes i)
    fun i ↦ s.failed = true ∨ u.parts ≤ i ∨ s.etags i ≠ []
  firstError : s.failed = true → s.firstError ≠ []
  joined : s.caller ≠ .working → ∀ w, s.workers w = .done
  log : LogOk reliable u uploadId s
  kept : reliable → Kept u uploadId s

variable {reliable u uploadId}

theorem WorkerOk.mono {s s' : State n} {pc : Worker} (h : WorkerOk u uploadId s pc)
    (hnext : s.next ≤ s'.next) (hfailed : s.failed = true → s'.failed = true) :
    WorkerOk u uploadId s' pc := by
  cases pc with
  | checking i => exact lt_of_lt_of_le h hnext
  | done => exact h.imp hfailed fun hparts ↦ hparts.trans hnext
  | opening => trivial
  | claiming => trivial
  | hashing i => exact h
  | starting i hash => exact h
  | sending i p left => exact h
  | failing message => exact h

theorem Kept.congr {s s' : State n} (h : Kept u uploadId s) (haccepted : s'.accepted = s.accepted)
    (hetags : s'.etags = s.etags) (hobject : s'.object = s.object) : Kept u uploadId s' := by
  refine ⟨?_, ?_, ?_⟩
  · rw [haccepted]
    exact h.accepted
  · rw [haccepted, hetags]
    exact h.etags
  · rw [hobject]
    exact h.object

theorem workers_update {s : State n} {w : Fin n} {pc : Worker} {P : Worker → Prop}
    (h : ∀ v, P (s.workers v)) (hpc : P pc) (v : Fin n) : P (Function.update s.workers w pc v) := by
  by_cases hv : v = w
  · subst hv
    rwa [Function.update_self]
  · rw [Function.update_of_ne hv]
    exact h v

theorem WorkerStep.caller_eq {sha256Raw : Bytes → Bytes} {strerror : CurlCode → Bytes} {w : Fin n}
    {s s' : State n} (h : WorkerStep reliable u uploadId sha256Raw strerror w s s') :
    s'.caller = s.caller := by
  cases h <;> rfl

theorem countP_of_byWorker {events : List (Event n)} {w v : Fin n}
    (hwho : ∀ e ∈ events, e.ByWorker w) (hv : v ≠ w) : events.countP (Event.isBegin (some v)) = 0 ∧
      events.countP (Event.isFinish (some v)) = 0 := by
  have hne :
      ∀ e ∈ events, Event.isBegin (some v) e = false ∧ Event.isFinish (some v) e = false := by
    intro e he
    have hwv : some w ≠ some v := fun h ↦ hv (Option.some.inj h).symm
    cases e with
    | begin who call =>
      obtain ⟨rfl, -⟩ := hwho _ he
      exact ⟨decide_eq_false hwv, rfl⟩
    | finish who reply =>
      obtain rfl := hwho _ he
      exact ⟨rfl, decide_eq_false hwv⟩
  exact ⟨List.countP_eq_zero.mpr fun e he ↦ Bool.eq_false_iff.mp (hne e he).1,
    List.countP_eq_zero.mpr fun e he ↦ Bool.eq_false_iff.mp (hne e he).2⟩

theorem LogOk.worker {s s' : State n} (h : LogOk reliable u uploadId s) (hs : s.caller = .working)
    (hs' : s'.caller = .working) (w : Fin n) (pc : Worker) (events : List (Event n))
    (hworkers : s'.workers = Function.update s.workers w pc)
    (hlog : s'.log = s.log ++ events) (hwho : ∀ e ∈ events, e.ByWorker w)
    (hbusy : events.countP (Event.isBegin (some w)) + (s.workers w).busy
      = events.countP (Event.isFinish (some w)) + pc.busy) : LogOk reliable u uploadId s' := by
  obtain ⟨before, own, hbefore, hcaller, hworker, hbalance⟩ := h
  rw [hs] at hcaller
  obtain rfl : own = [] := hcaller
  refine ⟨before ++ events, [], ?_, ?_, ?_, fun v ↦ ?_⟩
  · rw [hlog, hbefore, List.append_nil, List.append_nil]
  · rw [hs']
    rfl
  · intro e he
    rcases List.mem_append.mp he with he | he
    · exact hworker e he
    · exact ⟨w, hwho e he⟩
  · have hold := hbalance v
    rw [List.countP_append, List.countP_append, hworkers]
    by_cases hv : v = w
    · subst hv
      rw [Function.update_self]
      omega
    · obtain ⟨hb, hf⟩ := countP_of_byWorker hwho hv
      rw [Function.update_of_ne hv, hb, hf]
      exact hold

theorem inv_initial : Inv reliable u uploadId (State.initial : State n) where
  worker _ := trivial
  covered := covered_zero
  firstError h := by cases h
  joined h := absurd rfl h
  log := ⟨[], [], rfl, rfl, by simp, fun _ ↦ rfl⟩
  kept _ := ⟨fun _ ha ↦ absurd ha List.not_mem_nil, fun _ hi ↦ absurd rfl hi, .inl rfl⟩

namespace Inv

theorem working {s : State n} (h : Inv reliable u uploadId s) {w : Fin n}
    (hw : s.workers w ≠ .done) :
    s.caller = .working := by
  by_contra hcaller
  exact hw (h.joined hcaller w)

/-! ### Steps of a worker -/

theorem goto {s : State n} (h : Inv reliable u uploadId s) (w : Fin n) (pc : Worker)
    (events : List (Event n)) (hw : s.workers w ≠ .done) (hpc : WorkerOk u uploadId s pc)
    (howes : ∀ i, (s.workers w).Owes i →
      (s.failed = true ∨ u.parts ≤ i ∨ s.etags i ≠ []) ∨ pc.Owes i)
    (hwho : ∀ e ∈ events, e.ByWorker w)
    (hbusy : events.countP (Event.isBegin (some w)) + (s.workers w).busy
      = events.countP (Event.isFinish (some w)) + pc.busy) :
    Inv reliable u uploadId ((s.goto w pc).logged events) := by
  have hworking := h.working hw
  refine ⟨workers_update h.worker hpc, ?_, h.firstError, fun hc ↦ absurd hworking hc,
    h.log.worker hworking hworking w pc events rfl rfl hwho hbusy,
    fun hrel ↦ (h.kept hrel).congr rfl rfl rfl⟩
  refine h.covered.settle w (fun i hi ↦ ?_) (fun v hv i hi ↦ ?_) fun i hi ↦ hi
  · simpa [State.logged, State.goto] using howes i hi
  · simpa [State.logged, State.goto, Function.update_of_ne hv] using hi

theorem move {s : State n} (h : Inv reliable u uploadId s) (w : Fin n) (pc : Worker)
    (hw : s.workers w ≠ .done) (hpc : WorkerOk u uploadId s pc)
    (howes : ∀ i, (s.workers w).Owes i →
      (s.failed = true ∨ u.parts ≤ i ∨ s.etags i ≠ []) ∨ pc.Owes i)
    (hbusy : (s.workers w).busy = pc.busy) : Inv reliable u uploadId (s.goto w pc) := by
  have hinv := h.goto w pc [] hw hpc howes (by simp) (by simpa using hbusy)
  rwa [State.logged, List.append_nil] at hinv

theorem claim {s : State n} (h : Inv reliable u uploadId s) {w : Fin n}
    (hw : s.workers w = .claiming) :
    Inv reliable u uploadId (s.claim w) := by
  have hworking := h.working (by rw [hw]; exact Worker.noConfusion)
  refine ⟨workers_update (fun v ↦ (h.worker v).mono (Nat.le_succ _) id) (Nat.lt_succ_self _), ?_,
    h.firstError, fun hc ↦ absurd hworking hc,
    h.log.worker hworking hworking w (.checking s.next) [] rfl (List.append_nil _).symm (by simp)
      (by rw [hw]; rfl),
    fun hrel ↦ (h.kept hrel).congr rfl rfl rfl⟩
  refine h.covered.draw (w := w) ?_ fun v i hi ↦ ?_
  · simp [State.claim]
  · by_cases hv : v = w
    · subst hv
      rw [hw] at hi
      exact absurd hi id
    · simpa [State.claim, Function.update_of_ne hv] using hi

theorem log_of_workers {s s' : State n} (h : Inv reliable u uploadId s) {w : Fin n}
    (hw : s.workers w ≠ .done) (hcaller : s'.caller = s.caller) (hworkers : s'.workers = s.workers)
    (hlog : s'.log = s.log) : LogOk reliable u uploadId s' := by
  have hworking := h.working hw
  refine h.log.worker hworking (hcaller.trans hworking) w (s.workers w) [] ?_ ?_ (by simp) rfl
  · rw [hworkers, Function.update_eq_self]
  · rw [hlog, List.append_nil]

/-- The server takes a part of which all bytes have arrived: they are the part's bytes. -/
theorem take {s : State n} (h : Inv reliable u uploadId s) {w : Fin n} {i : ℕ}
    {p : Prepared} {left : ℕ}
    (hw : s.workers w = .sending i p left) {t : Transfer} {etag : Option Bytes}
    (ht : PartOutcome reliable p t etag) : Inv reliable u uploadId (s.take p t etag) := by
  obtain ⟨hi, hash, hcall⟩ : i < u.parts ∧ ∃ hash, p.call = u.partCall uploadId i hash := by
    simpa [hw] using h.worker w
  refine ⟨h.worker, h.covered, h.firstError, h.joined,
    h.log_of_workers (w := w) (by rw [hw]; exact Worker.noConfusion) rfl rfl rfl,
    fun hrel ↦ ⟨fun a ha ↦ ?_, fun j hj ↦ ?_, (h.kept hrel).object⟩⟩
  · rcases List.mem_append.mp ha with ha | ha
    · exact (h.kept hrel).accepted a ha
    · obtain ⟨e, rfl, rfl⟩ : ∃ e, etag = some e ∧
          a = ⟨p.call.query, (p.call.upload t.reads).sent, e⟩ := by
        simpa [Option.map_eq_some_iff, eq_comm] using ha
      have hwhole : (p.call.upload t.reads).sent.length = p.call.bodyLen := by
        have harrived := ht.whole hrel (by simp)
        rw [arrived] at harrived
        by_contra hne
        exact harrived (if_neg hne)
      refine ⟨i, hi, by rw [hcall]; rfl, ?_⟩
      rw [Call.sent_eq_payload hwhole, hcall]
      rfl
  · obtain ⟨a, ha, hquery⟩ := (h.kept hrel).etags j hj
    exact ⟨a, List.mem_append_left _ ha, hquery⟩

theorem record {s : State n} (h : Inv reliable u uploadId s) {w : Fin n}
    (hw : s.workers w ≠ .done) {i : ℕ}
    {etag : Bytes} (hetag : etag ≠ [])
    (hstored : reliable → ∃ a ∈ s.accepted, a.query = partQuery uploadId (i + 1) ∧ a.etag = etag) :
    Inv reliable u uploadId (s.record i etag) := by
  refine ⟨h.worker, ?_, h.firstError, h.joined, h.log_of_workers hw rfl rfl rfl,
    fun hrel ↦ ⟨(h.kept hrel).accepted, fun j hj ↦ ?_, (h.kept hrel).object⟩⟩
  · refine h.covered.settle w (fun j hj ↦ .inr hj) (fun _ _ j hj ↦ hj) fun j hj ↦ ?_
    by_cases hji : j = i
    · subst hji
      exact .inr (.inr (by simpa using hetag))
    · rwa [State.etags_record_of_ne s hji]
  · by_cases hji : j = i
    · subst hji
      rw [State.etags_record_self]
      exact hstored hrel
    · rw [State.etags_record_of_ne s hji] at hj ⊢
      exact (h.kept hrel).etags j hj

theorem failWith {s : State n} (h : Inv reliable u uploadId s) {w : Fin n} {message : Bytes}
    (hw : s.workers w = .failing message) :
    Inv reliable u uploadId ((s.goto w .done).failWith message) := by
  have hne : s.workers w ≠ .done := by
    rw [hw]
    exact Worker.noConfusion
  have hworking := h.working hne
  have hmessage : message ≠ [] := by
    simpa [hw] using h.worker w
  refine ⟨workers_update (fun v ↦ (h.worker v).mono le_rfl fun _ ↦ rfl) (.inl rfl),
    fun _ _ ↦ .inl (.inl rfl), fun _ ↦ ?_, fun hc ↦ absurd hworking hc,
    h.log.worker hworking hworking w .done [] rfl (List.append_nil _).symm (by simp)
      (by rw [hw]; rfl),
    fun hrel ↦ (h.kept hrel).congr rfl rfl rfl⟩
  rw [State.failWith]
  dsimp only
  split
  · exact hmessage
  · next hfirst => exact hfirst

end Inv

theorem WorkerStep.ne_done {sha256Raw : Bytes → Bytes} {strerror : CurlCode → Bytes} {w : Fin n}
    {s s' : State n} (hstep : WorkerStep reliable u uploadId sha256Raw strerror w s s') :
    s.workers w ≠ .done := by
  intro hdone
  cases hstep <;> simp_all

theorem inv_workerStep {sha256Raw : Bytes → Bytes} {strerror : CurlCode → Bytes} {w : Fin n}
    {s s' : State n} (h : Inv reliable u uploadId s)
    (hstep : WorkerStep reliable u uploadId sha256Raw strerror w s s') :
    Inv reliable u uploadId s' := by
  have hok := h.worker w
  have hne := hstep.ne_done
  cases hstep with
  | opens hpc => exact h.move w .claiming hne trivial (by simp [hpc]) (by simp [hpc])
  | cannotOpen hpc errno => exact h.move w _ hne (by simp) (by simp [hpc]) (by simp [hpc])
  | claims hpc => exact h.claim hpc
  | @quits i hpc hstop =>
    have hi : i < s.next := by simpa [hpc] using hok
    refine h.move w .done hne ?_ (fun j hj ↦ ?_) (by simp [hpc])
    · exact hstop.symm.imp_right fun hparts ↦ hparts.trans hi.le
    · -- the number drawn is settled: it is beyond the last part, or something has failed
      rw [hpc] at hj
      obtain rfl : j = i := hj
      exact .inl (hstop.symm.imp_right .inl)
  | @proceeds i hpc hgo =>
    have howes (j : ℕ) (hj : (s.workers w).Owes j) : j = i := by simpa [hpc] using hj
    split
    · exact h.move w _ hne hgo.1 (fun j hj ↦ .inr (howes j hj)) (by simp [hpc])
    · exact h.move w _ hne hgo.1 (fun j hj ↦ .inr (howes j hj)) (by simp [hpc])
  | @hashes i hash hpc reads hhash =>
    have hi : i < u.parts := by simpa [hpc] using hok
    exact h.move w (.starting i hash) hne hi (fun j hj ↦ .inr (by simpa [hpc] using hj))
      (by simp [hpc])
  | cannotHash hpc reads hhash =>
    exact h.move w _ hne (by simp) (fun _ _ ↦ .inr trivial) (by simp [hpc])
  | @starts i hash p hpc got diagnostic curl hstart =>
    have hi : i < u.parts := by simpa [hpc] using hok
    have hcall := call_of_startRequest hstart
    exact h.goto w (.sending i p kClientRetries) [.begin (some w) p.call] hne ⟨hi, hash, hcall⟩
      (fun j hj ↦ .inr (by simpa [hpc] using hj)) (by simp [hcall, partCall]) (by simp [hpc])
  | @cannotStart i hash error hpc got diagnostic curl hstart =>
    exact h.goto w (.failing error) _ hne (startRequest_error_ne_nil hstart)
      (fun _ _ ↦ .inr trivial) (by simp [partCall]) (by simp [hpc])
  | @retries i p left left' etag hpc t ht hafter =>
    have hsend : i < u.parts ∧ ∃ hash, p.call = u.partCall uploadId i hash := by
      simpa [hpc] using hok
    exact (h.take hpc ht).move w (.sending i p left') hne hsend
      (fun j hj ↦ .inr (by simpa [hpc] using hj)) (by simp [hpc])
  | @records i p left r etag hpc t ht hafter hsent =>
    obtain ⟨hrc, -, hcode, hetag⟩ := u.partFailure_eq_nil.mp hsent
    obtain rfl := Call.receive_of_after hafter
    obtain ⟨-, hash, hcall⟩ : i < u.parts ∧ ∃ hash, p.call = u.partCall uploadId i hash := by
      simpa [hpc] using hok
    -- the 200 is the server's, which has taken the part under this ETag
    have hstored : reliable → ∃ a ∈ (s.take p t etag).accepted,
        a.query = partQuery uploadId (i + 1) ∧ a.etag = (p.call.receive t).etag := by
      intro hrel
      have htaken : etag = some (p.call.receive t).etag :=
        ht.honest hrel (rc_receive_eq_ok.mp hrc).2 hcode
      refine ⟨⟨p.call.query, (p.call.upload t.reads).sent, (p.call.receive t).etag⟩, ?_, ?_, rfl⟩
      · simp [State.take, htaken]
      · rw [hcall]
        rfl
    refine ((h.take hpc ht).record hne hetag hstored).goto w .claiming
      [.finish (some w) (some (p.call.receive t))] hne trivial (fun j hj ↦ ?_) (by simp)
      (by simp [hpc])
    -- the part in hand is settled: its ETag is recorded
    obtain rfl : j = i := by simpa [hpc] using hj
    exact .inl (.inr (.inr (by simpa using hetag)))
  | @rejects i p left r etag hpc t ht hafter hbad =>
    exact (h.take hpc ht).goto w (.failing (u.partFailure strerror i r))
      [.finish (some w) (some r)] hne hbad (fun _ _ ↦ .inr trivial) (by simp)
      (by simp [hpc])
  | fails hpc => exact h.failWith hpc

/-! ### Steps of the calling thread -/

theorem Kept.find_part {s : State n} (h : Kept u uploadId s) {i : ℕ} (hi : i < u.parts)
    (hetag : s.etags i ≠ []) :
    (s.accepted.find? fun a ↦ a.query = partQuery uploadId (i + 1) ∧ a.etag = s.etags i).map
      StoredPart.body = some (u.slice i) := by
  have hlt := u.parts_lt
  obtain ⟨a, ha, hquery, hsame⟩ := h.etags i hetag
  cases hfind :
      s.accepted.find? fun a ↦ a.query = partQuery uploadId (i + 1) ∧ a.etag = s.etags i with
  | none =>
    have hnone := List.find?_eq_none.mp hfind a ha
    simp [hquery, hsame] at hnone
  | some b =>
    have hb := List.find?_some hfind
    obtain ⟨j, hj, hquery', hbody⟩ := h.accepted b (List.mem_of_find?_eq_some hfind)
    have hnumber : j + 1 = i + 1 := by
      refine partQuery_injective uploadId (by omega) (by omega) ?_
      rw [← hquery']
      exact (of_decide_eq_true hb).1
    obtain rfl : j = i := Nat.succ_injective hnumber
    rw [Option.map_some, hbody]

/-- **The parts recorded make up the file.** -/
theorem Kept.assemble_recorded {s : State n} (h : Kept u uploadId s) (hparts : 1 ≤ u.parts)
    (hup : Uploaded u s) :
    assemble uploadId s.accepted ((List.range u.parts).map fun i ↦ (i + 1, s.etags i))
      = some u.file.content := by
  have hmap : ∀ l : List ℕ, (∀ i ∈ l, i < u.parts) →
      ((l.map fun i ↦ (i + 1, s.etags i)).mapM fun part : ℕ × Bytes ↦
        (s.accepted.find? fun a ↦
          a.query = partQuery uploadId part.1 ∧ a.etag = part.2).map StoredPart.body)
        = some (l.map u.slice) := by
    intro l
    induction l with
    | nil => exact fun _ ↦ rfl
    | cons i l ih =>
      intro hl
      have hi := hl i List.mem_cons_self
      rw [List.map_cons, List.mapM_cons, h.find_part hi (hup.2 i hi),
        ih fun j hj ↦ hl j (List.mem_cons_of_mem _ hj)]
      rfl
  rw [assemble, hmap _ fun i hi ↦ List.mem_range.mp hi, Option.map_some, u.flatten_slices hparts]

theorem Kept.object_of_completion {s : State n} (h : Kept u uploadId s) (hrel : reliable)
    (hparts : 1 ≤ u.parts) (hup : Uploaded u s) {p : Prepared}
    (hcall : p.call = u.completeCall uploadId s.etags)
    {t : Transfer} {object : Option Bytes}
    (ht : CompletionOutcome reliable uploadId s.accepted p t object) :
    object = none ∨ object = some u.file.content := by
  by_cases hnone : object = none
  · exact .inl hnone
  have hwhole := ht.whole hrel hnone
  rw [hwhole] at hnone ⊢
  have harrived : arrived p t = some (u.completeXml s.etags) := by
    rw [arrived]
    split
    · next hlen =>
      rw [Call.sent_eq_payload hlen, hcall]
      rfl
    · next hlen =>
      rw [arrived, if_neg hlen] at hnone
      exact absurd rfl hnone
  rw [harrived, Option.bind_some, u.listedParts_completeXml, Option.bind_some,
    h.assemble_recorded hparts hup]
  exact .inr rfl

theorem Inv.proceed {s : State n} (h : Inv reliable u uploadId s) (hdone : ∀ w, s.workers w = .done)
    (pc : Caller) (object : Option Bytes) (events : List (Event n))
    (hobject : reliable → object = none ∨ object = some u.file.content)
    (hcaller : ∀ own, CallerOk reliable u uploadId s own s.caller →
      CallerOk reliable u uploadId (((s.call pc).complete object).logged events)
        (own ++ events) pc) :
    Inv reliable u uploadId (((s.call pc).complete object).logged events) := by
  obtain ⟨before, own, hlog, hown, hbefore, hbalance⟩ := h.log
  refine ⟨h.worker, h.covered, h.firstError, fun _ ↦ hdone,
    ⟨before, own ++ events, ?_, hcaller own hown, hbefore, hbalance⟩,
    fun hrel ↦ ⟨(h.kept hrel).accepted, (h.kept hrel).etags, ?_⟩⟩
  · rw [← List.append_assoc, ← hlog]
    rfl
  · rcases hobject hrel with rfl | rfl
    · exact (h.kept hrel).object
    · exact .inr rfl

theorem Inv.uploaded {s : State n} (h : Inv reliable u uploadId s) (hn : 0 < n)
    (hdone : ∀ w, s.workers w = .done) (hfailed : s.failed = false) : Uploaded u s := by
  have hnext : u.parts ≤ s.next := by
    have hlast := h.worker ⟨0, hn⟩
    rw [hdone] at hlast
    exact hlast.resolve_left (by simp [hfailed])
  refine ⟨hfailed, fun i hi ↦ ?_⟩
  have hnone : ∀ w j, ¬(s.workers w).Owes j := by
    intro w j
    rw [hdone w]
    exact id
  obtain hbad | hparts | hetag := h.covered.all_settled hnone (hi.trans_le hnext)
  · simp [hfailed] at hbad
  · omega
  · exact hetag

theorem Inv.completing {s : State n} (h : Inv reliable u uploadId s) {p : Prepared} {left : ℕ}
    (hpc : s.caller = .sendingCompletion p left) :
    Uploaded u s ∧ p.call = u.completeCall uploadId s.etags := by
  obtain ⟨before, own, -, hown, -⟩ := h.log
  rw [hpc] at hown
  exact ⟨hown.1, hown.2.1⟩

theorem inv_callerStep {sha256Raw : Bytes → Bytes} {strerror : CurlCode → Bytes} (hn : 0 < n)
    (hparts : 1 ≤ u.parts) {s s' : State n} (h : Inv reliable u uploadId s)
    (hstep : CallerStep reliable u uploadId sha256Raw strerror s s') :
    Inv reliable u uploadId s' := by
  have hjoined : s.caller ≠ .working → ∀ w, s.workers w = .done := h.joined
  cases hstep with
  | joins hpc hdone =>
    have hinv := h.proceed hdone (if s.failed then .aborting s.firstError else .completing) none []
      (fun _ ↦ .inl rfl) fun own hown ↦ ?_
    · rwa [State.logged, List.append_nil] at hinv
    · rw [hpc] at hown
      obtain rfl : own = [] := hown
      split
      · next hfailed => exact ⟨h.firstError hfailed, .inl ⟨hfailed, rfl⟩⟩
      · next hfailed => exact ⟨h.uploaded hn hdone (by simpa using hfailed), rfl⟩
  | @starts p hpc got diagnostic curl hstart =>
    refine h.proceed (hjoined (by simp [hpc])) (.sendingCompletion p kClientRetries) none
      [.begin none p.call] (fun _ ↦ .inl rfl) fun own hown ↦ ?_
    rw [hpc] at hown
    obtain ⟨hup, rfl⟩ := hown
    exact ⟨hup, call_of_startRequest hstart, rfl⟩
  | @cannotStart error hpc got diagnostic curl hstart =>
    refine h.proceed (hjoined (by simp [hpc])) (.aborting error) none
      [.begin none (u.completeCall uploadId s.etags), .finish none none]
      (fun _ ↦ .inl rfl) fun own hown ↦ ?_
    rw [hpc] at hown
    obtain ⟨hup, rfl⟩ := hown
    exact ⟨startRequest_error_ne_nil hstart, .inr ⟨hup, none, rfl⟩⟩
  | @retries p left left' object hpc t ht hafter =>
    obtain ⟨hup, hcall⟩ := h.completing hpc
    have hinv := h.proceed (hjoined (by simp [hpc])) (.sendingCompletion p left') object []
      (fun hrel ↦ (h.kept hrel).object_of_completion hrel hparts hup hcall ht) fun own hown ↦ ?_
    · rwa [State.logged, List.append_nil] at hinv
    · rw [hpc] at hown
      rwa [List.append_nil]
  | @succeeds p left r object hpc t ht hafter hok =>
    obtain ⟨hup, hcall⟩ := h.completing hpc
    have hobject (hrel : reliable) := (h.kept hrel).object_of_completion hrel hparts hup hcall ht
    have hack : Acknowledged r := u.completeFailure_eq_nil.mp hok
    obtain rfl := Call.receive_of_after hafter
    -- the acknowledgement is the server's, which has put the object together
    have hmade : reliable → object = some u.file.content := by
      intro hrel
      obtain ⟨hrc, hover, hcode, herror⟩ := hack
      have htext := text_receive (by rw [hcall]; rfl) hover
      rw [htext] at herror
      exact (hobject hrel).resolve_left (ht.honest hrel (rc_receive_eq_ok.mp hrc).2 hcode herror)
    refine h.proceed (hjoined (by simp [hpc])) _ object _ hobject fun own hown ↦ ?_
    rw [hpc] at hown
    obtain ⟨-, -, rfl⟩ := hown
    exact ⟨rfl, hup, fun hrel ↦ by rw [hmade hrel]; rfl, _, hack, by rw [hcall]; rfl⟩
  | @rejected p left r object hpc t ht hafter hbad =>
    obtain ⟨hup, hcall⟩ := h.completing hpc
    refine h.proceed (hjoined (by simp [hpc])) (.aborting (u.completeFailure strerror r)) object
      [.finish none (some r)]
      (fun hrel ↦ (h.kept hrel).object_of_completion hrel hparts hup hcall ht) fun own hown ↦ ?_
    rw [hpc] at hown
    obtain ⟨-, -, rfl⟩ := hown
    exact ⟨hbad, .inr ⟨hup, some r, by rw [hcall]; rfl⟩⟩
  | @startsAbort p error hpc got diagnostic curl hstart =>
    refine h.proceed (hjoined (by simp [hpc])) (.sendingAbort p kClientRetries error) none
      [.begin none p.call] (fun _ ↦ .inl rfl) fun own hown ↦ ?_
    rw [hpc] at hown
    obtain ⟨herror, hgave⟩ := hown
    exact ⟨herror, call_of_startRequest hstart, own, rfl, hgave⟩
  | @cannotStartAbort error ignored hpc got diagnostic curl hstart =>
    refine h.proceed (hjoined (by simp [hpc])) (.returned ⟨false, u.etag, error⟩) none
      [.begin none (u.abortCall uploadId), .finish none none] (fun _ ↦ .inl rfl) fun own hown ↦ ?_
    rw [hpc] at hown
    obtain ⟨herror, hgave⟩ := hown
    exact ⟨herror, own, none, hgave, rfl⟩
  | @retriesAbort p left left' error hpc t hafter =>
    have hinv := h.proceed (hjoined (by simp [hpc])) (.sendingAbort p left' error) none []
      (fun _ ↦ .inl rfl) fun own hown ↦ ?_
    · rwa [State.logged, List.append_nil] at hinv
    · rw [hpc] at hown
      rwa [List.append_nil]
  | @aborts p left r error hpc t hafter =>
    refine h.proceed (hjoined (by simp [hpc])) (.returned ⟨false, u.etag, error⟩) none
      [.finish none (some r)] (fun _ ↦ .inl rfl) fun own hown ↦ ?_
    rw [hpc] at hown
    obtain ⟨herror, hcall, before, rfl, hgave⟩ := hown
    exact ⟨herror, before, some r, hgave, by rw [hcall, List.append_assoc]; rfl⟩

theorem inv_step {sha256Raw : Bytes → Bytes} {strerror : CurlCode → Bytes} (hn : 0 < n)
    (hparts : 1 ≤ u.parts) (s s' : State n) (h : Inv reliable u uploadId s)
    (hstep : Step reliable u uploadId sha256Raw strerror s s') : Inv reliable u uploadId s' := by
  cases hstep with
  | worker w hworker => exact inv_workerStep h hworker
  | caller hcaller => exact inv_callerStep hn hparts h hcaller

end Invariant

end Multipart

end Nanos3Reader
