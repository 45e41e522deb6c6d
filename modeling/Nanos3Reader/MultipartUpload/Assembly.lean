import Nanos3Reader.MultipartUpload.Invariant
import Nanos3Reader.MultipartUpload.Plan
import Nanos3Reader.Lib.Runs

/-!
# A successful upload has assembled the file

However many workers there are and however their steps interleave, whatever requests fail and are
sent again: when `put_file` returns true, the server holds every part with the bytes the plan gives
it, has been told the parts in order with the ETags it gave them, and has made the file of them.
-/

open ByteText

namespace Nanos3Reader

namespace Multipart

open FileUpload

section Success

variable {n : ℕ} {reliable : Prop} {u : FileUpload} {uploadId : Bytes}
  {sha256Raw : Bytes → Bytes} {strerror : CurlCode → Bytes}

theorem inv_of_run (hn : 0 < n) (hparts : 1 ≤ u.parts) {s : State n}
    (hrun : Relation.ReflTransGen (Step reliable u uploadId sha256Raw strerror) State.initial s) :
    Inv reliable u uploadId s :=
  Runs.invariant (inv_step hn hparts) inv_initial hrun

/-- What the server has been told and holds when the upload has succeeded. -/
structure Assembled (u : FileUpload) (uploadId : Bytes) (s : State n) : Prop where
  /-- Each part is stored, under the ETag that was recorded for it. -/
  stored : ∀ i < u.parts, ∃ a ∈ s.accepted,
    a.query = partQuery uploadId (i + 1) ∧ a.etag = s.etags i
  /-- What is stored of a part is its bytes and nothing else. -/
  exact : ∀ i < u.parts, ∀ a ∈ s.accepted, a.query = partQuery uploadId (i + 1) →
    a.body = (u.file.content.take (min ((i + 1) * u.partSize) u.size)).drop (i * u.partSize)
  /-- The completion was acknowledged. -/
  completed : ∃ before r, s.log =
      before ++ [.begin none (u.completeCall uploadId s.etags), .finish none (some r)] ∧
    r.rc = .ok ∧ r.overflow = false ∧ r.code = 200 ∧ hasError r.text = false
  /-- Its body lists the parts in order. -/
  listed : listedParts (u.completeCall uploadId s.etags).body
    = some ((List.range u.parts).map fun i ↦ (i + 1, s.etags i))
  object : s.object = some u.file.content

/-- **Success means the object is the file.** -/
theorem assembled_of_success (hn : 0 < n) (hparts : 1 ≤ u.parts) {s : State n}
    (hrun : Relation.ReflTransGen (Step True u uploadId sha256Raw strerror) State.initial s)
    {out : Outcome (Option Bytes)} (hreturned : s.caller = .returned out) (hok : out.ok = true) :
    Assembled u uploadId s := by
  have h := inv_of_run hn hparts hrun
  obtain ⟨before, own, hlog, hown, -⟩ := h.log
  obtain ⟨ok, etag, error⟩ := out
  obtain rfl : ok = true := hok
  rw [hreturned] at hown
  obtain ⟨-, hup, hobject, r, hack, rfl⟩ := hown
  have hkept := h.kept trivial
  have hlt := u.parts_lt
  refine ⟨fun i hi ↦ hkept.etags i (hup.2 i hi), fun i hi a ha hquery ↦ ?_, ⟨before, r, hlog, hack⟩,
    u.listedParts_completeXml s.etags, hobject trivial⟩
  obtain ⟨j, hj, hquery', hbody⟩ := hkept.accepted a ha
  have hnumber : j + 1 = i + 1 :=
    partQuery_injective uploadId (by omega) (by omega) (by rw [← hquery', hquery])
  obtain rfl : j = i := Nat.succ_injective hnumber
  rw [hbody, slice_eq_range]

end Success

/-! ## An upload in two parts -/

section Served

variable {n : ℕ} {reliable : Prop} {u : FileUpload} {uploadId : Bytes} {sha256Raw : Bytes → Bytes}
  {strerror : CurlCode → Bytes} {s s' : State n} {w : Fin n}

/-- A step of one of the workers. -/
def Works (reliable : Prop) (u : FileUpload) (uploadId : Bytes) (sha256Raw : Bytes → Bytes)
    (strerror : CurlCode → Bytes) (s s' : State n) : Prop :=
  ∃ w, WorkerStep reliable u uploadId sha256Raw strerror w s s'

theorem run_of_works
    (h : Relation.ReflTransGen (Works reliable u uploadId sha256Raw strerror) s s') :
    Relation.ReflTransGen (Step reliable u uploadId sha256Raw strerror) s s' :=
  Relation.ReflTransGen.mono (fun _ _ ⟨w, hworker⟩ ↦ .worker w hworker) _ _ h

theorem caller_of_works
    (h : Relation.ReflTransGen (Works reliable u uploadId sha256Raw strerror) s s') :
    s'.caller = s.caller := by
  induction h with
  | refl => rfl
  | tail _ hstep ih =>
    obtain ⟨w, hworker⟩ := hstep
    rw [hworker.caller_eq, ih]

/-- The answer of a server that takes what it is sent. -/
def taken (call : Call) : Transfer :=
  { code := 200, headerLines := [utf8 "ETag: \"e\""], reads := [{ capacity := call.bodyLen }] }

theorem receive_taken {call : Call} (hmethod : (call.isPut || call.isPost) = true)
    (hlen : call.payload.length = call.bodyLen) (left : ℕ) :
    call.after left (taken call) = .inr (call.receive (taken call)) ∧
      (call.receive (taken call)).rc = .ok ∧
        (call.upload (taken call).reads).sent = call.payload := by
  obtain ⟨hread, hsent⟩ := Call.upload_payload hmethod hlen
  refine ⟨Call.after_of_not_retries ?_ _, rc_receive_eq_ok.mpr ⟨hread, rfl⟩, hsent⟩
  rw [Call.retries, show (call.upload (taken call).reads).failed = false from hread]
  rfl

theorem exists_sending (hkeys : u.im.fixedCreds ≠ none) (hsign : u.options.signPayload = false)
    (hw : s.workers w = .claiming) (hnext : s.next < u.parts) (hfailed : s.failed = false) :
    ∃ s' p, Relation.ReflTransGen (Works reliable u uploadId sha256Raw strerror) s s' ∧
      startRequest sha256Raw u.im.cfg u.im.fixedCreds {} [] true (u.partCall uploadId s.next [])
        = .ok p ∧
      s'.workers = Function.update s.workers w (.sending s.next p kClientRetries) ∧
      s'.next = s.next + 1 ∧ s'.failed = false := by
  obtain ⟨p, hp⟩ :=
    @exists_startRequest sha256Raw u.im.cfg [] (u.partCall uploadId s.next []) _ {} (.inl hkeys)
  have hproceeds := @WorkerStep.proceeds n reliable u uploadId sha256Raw strerror w _ _
    (State.workers_claim_self s w) ⟨hnext, hfailed⟩
  rw [hsign, if_neg Bool.false_ne_true] at hproceeds
  refine ⟨_, p, .head ⟨w, .claims hw⟩ <| .head ⟨w, hproceeds⟩ <|
    .single ⟨w, .starts (State.workers_goto_self _ _ _) {} [] true hp⟩, hp, ?_, rfl, hfailed⟩
  simp [State.logged, State.goto, State.claim]

theorem exists_recorded {i left : ℕ} {p : Prepared} (hw : s.workers w = .sending i p left)
    (hcall : p.call = u.partCall uploadId i []) :
    ∃ s', Relation.ReflTransGen (Works reliable u uploadId sha256Raw strerror) s s' ∧
      s'.workers = Function.update s.workers w .claiming ∧ s'.next = s.next ∧
      s'.failed = s.failed ∧ s'.etags = Function.update s.etags i (utf8 "\"e\"") := by
  have hlen : p.call.payload.length = p.call.bodyLen := by
    rw [hcall]
    simp [Call.payload, Call.bodyLen, partCall, partLen, size]
  have hmethod : p.call.isPut = true := by rw [hcall]; rfl
  obtain ⟨hafter, hrc, hsent⟩ := @receive_taken p.call (by rw [hmethod]; rfl) hlen left
  have hetag : (p.call.receive (taken p.call)).etag = utf8 "\"e\"" := by
    rw [Call.receive, if_pos hmethod]
    show [utf8 "ETag: \"e\""].foldl captureEtag [] = utf8 "\"e\""
    decide +kernel
  have harrived : arrived p (taken p.call) ≠ none := by
    rw [arrived, hsent, if_pos hlen]
    simp
  refine ⟨_, .single ⟨w, .records hw (taken p.call) ⟨fun _ _ ↦ harrived, fun _ _ _ ↦ rfl⟩ hafter
    (u.partFailure_eq_nil.mpr ⟨hrc, rfl, rfl, by rw [hetag]; decide⟩)⟩, rfl, rfl, rfl, ?_⟩
  rw [← hetag]
  rfl

theorem exists_done (hw : s.workers w = .claiming) (hnext : u.parts ≤ s.next) :
    ∃ s', Relation.ReflTransGen (Works reliable u uploadId sha256Raw strerror) s s' ∧
      s'.workers = Function.update s.workers w .done ∧ s.next ≤ s'.next ∧
      s'.failed = s.failed ∧ s'.etags = s.etags := by
  refine ⟨_, .head ⟨w, .claims hw⟩ (.single ⟨w, .quits (State.workers_claim_self s w)
    (.inl hnext)⟩), ?_, Nat.le_succ _, rfl, rfl⟩
  simp [State.goto, State.claim]

theorem exists_completed (hkeys : u.im.fixedCreds ≠ none) (hparts : 1 ≤ u.parts)
    (hinv : Inv True u uploadId s) (hpc : s.caller = .completing) :
    ∃ s' out, Relation.ReflTransGen (Step True u uploadId sha256Raw strerror) s s' ∧
      s'.caller = .returned out ∧ out.ok = true := by
  obtain ⟨-, own, -, hown, -⟩ := hinv.log
  rw [hpc] at hown
  obtain ⟨p, hp⟩ :=
    @exists_startRequest sha256Raw u.im.cfg [] (u.completeCall uploadId s.etags) _ {} (.inl hkeys)
  have hcall := call_of_startRequest hp
  have hlen : p.call.payload.length = p.call.bodyLen := by rw [hcall]; rfl
  obtain ⟨hafter, hrc, hsent⟩ := @receive_taken p.call (by rw [hcall]; rfl) hlen kClientRetries
  have harrived : arrived p (taken p.call) = some (u.completeXml s.etags) := by
    rw [arrived, hsent, if_pos hlen, hcall]
    rfl
  have houtcome : CompletionOutcome True uploadId s.accepted p (taken p.call)
      (some u.file.content) := by
    refine ⟨fun _ _ ↦ ?_, fun _ _ _ _ ↦ by simp⟩
    rw [harrived, Option.bind_some, u.listedParts_completeXml, Option.bind_some,
      (hinv.kept trivial).assemble_recorded hparts hown.1]
  exact ⟨_, _, .head (.caller (.starts hpc {} [] true hp)) (.single (.caller (.succeeds rfl _
    houtcome hafter (u.completeFailure_eq_nil.mpr ⟨hrc, rfl, rfl, rfl⟩)))), rfl, rfl⟩

end Served

/-- Two workers have a part each under way, and the second part is stored before the first one. -/
theorem assembled_twoParts : ∃ s : State 2,
    Relation.ReflTransGen (Step True twoParts (utf8 "id") id fun _ ↦ []) State.initial s ∧
      Assembled twoParts (utf8 "id") s := by
  have hkeys : twoParts.im.fixedCreds ≠ none := by decide
  let s₂ : State 2 := (State.initial.goto 0 .claiming).goto 1 .claiming
  have hopen : Relation.ReflTransGen (Works True twoParts (utf8 "id") id fun _ ↦ [])
      State.initial s₂ :=
    .head ⟨0, .opens rfl⟩ (.single ⟨1, .opens rfl⟩)
  obtain ⟨s₃, p₀, hrun₃, hp₀, hworkers₃, hnext₃, hfailed₃⟩ :=
    @exists_sending 2 True twoParts (utf8 "id") id (fun _ ↦ []) s₂ 0 hkeys rfl rfl
      (by rw [parts_twoParts]; exact Nat.two_pos) rfl
  obtain ⟨s₄, p₁, hrun₄, hp₁, hworkers₄, hnext₄, hfailed₄⟩ :=
    @exists_sending 2 True twoParts (utf8 "id") id (fun _ ↦ []) s₃ 1 hkeys rfl
      (by rw [hworkers₃]; rfl) (by rw [parts_twoParts, hnext₃]; exact Nat.one_lt_two) hfailed₃
  obtain ⟨s₅, hrun₅, hworkers₅, hnext₅, hfailed₅, -⟩ :=
    @exists_recorded 2 True twoParts (utf8 "id") id (fun _ ↦ []) s₄ 1 _ _ _
      (by rw [hworkers₄]; rfl) (call_of_startRequest hp₁)
  obtain ⟨s₆, hrun₆, hworkers₆, hnext₆, hfailed₆, -⟩ :=
    @exists_recorded 2 True twoParts (utf8 "id") id (fun _ ↦ []) s₅ 0 _ _ _
      (by rw [hworkers₅, hworkers₄, hworkers₃]; rfl) (call_of_startRequest hp₀)
  have hnext : twoParts.parts ≤ s₆.next := by
    rw [parts_twoParts, hnext₆, hnext₅, hnext₄, hnext₃]
    exact le_rfl
  obtain ⟨s₇, hrun₇, hworkers₇, hnext₇, hfailed₇, -⟩ :=
    @exists_done 2 True twoParts (utf8 "id") id (fun _ ↦ []) s₆ 0 (by rw [hworkers₆]; rfl) hnext
  obtain ⟨s₈, hrun₈, hworkers₈, -, hfailed₈, -⟩ :=
    @exists_done 2 True twoParts (utf8 "id") id (fun _ ↦ []) s₇ 1
      (by rw [hworkers₇, hworkers₆, hworkers₅]; rfl) (hnext.trans hnext₇)
  have hworks := hopen.trans (hrun₃.trans (hrun₄.trans (hrun₅.trans (hrun₆.trans (hrun₇.trans
    hrun₈)))))
  have hnofailure : s₈.failed = false := by
    rw [hfailed₈, hfailed₇, hfailed₆, hfailed₅, hfailed₄]
  have hdone (w : Fin 2) : s₈.workers w = .done := by
    rw [hworkers₈, hworkers₇]
    match w with
    | 0 => rfl
    | 1 => rfl
  have hjoins := (run_of_works hworks).tail (.caller (.joins (caller_of_works hworks) hdone))
  rw [hnofailure, if_neg Bool.false_ne_true] at hjoins
  have hparts : 1 ≤ twoParts.parts := by rw [parts_twoParts]; exact Nat.le_succ 1
  obtain ⟨s₉, out, hrun₉, hout, hok⟩ :=
    exists_completed hkeys hparts (inv_of_run Nat.two_pos hparts hjoins) rfl
  exact ⟨s₉, hjoins.trans hrun₉,
    assembled_of_success Nat.two_pos hparts (hjoins.trans hrun₉) hout hok⟩

end Multipart

end Nanos3Reader
