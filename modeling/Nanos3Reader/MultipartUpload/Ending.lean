import Nanos3Reader.Lib.Ledger
import Nanos3Reader.MultipartUpload.Assembly
import Mathlib.Algebra.BigOperators.Fin
import Mathlib.Algebra.Order.BigOperators.Group.Finset

/-!
# Every upload is completed or aborted

An upload cannot go on for ever, since every step brings a thread closer to its end or uses up a
part number; and it cannot get stuck, since every thread that has not ended can take a step. So
every run ends, and where it ends the invariant says how: the completion was acknowledged and
nothing was aborted, or there was one abort, after all part requests had ended.
-/

open ByteText

namespace Nanos3Reader

namespace Multipart

open FileUpload

section Ending

variable {n : ℕ} {reliable : Prop} {u : FileUpload} {uploadId : Bytes}
  {sha256Raw : Bytes → Bytes} {strerror : CurlCode → Bytes}

/-! ## Runs are finite -/

/-- A bound on the steps a worker takes before it draws another number. -/
def Worker.rank (parts : ℕ) : Worker → ℕ
  | .opening => 4
  | .claiming => 3
  | .checking i => if i < parts then 12 + kClientRetries else 2
  | .hashing _ => 11 + kClientRetries
  | .starting _ _ => 10 + kClientRetries
  | .sending _ _ left => 5 + left
  | .failing _ => 1
  | .done => 0

/-- A bound on the steps of the calling thread. -/
def Caller.rank : Caller → ℕ
  | .working => 20 + 2 * kClientRetries
  | .completing => 15 + 2 * kClientRetries
  | .sendingCompletion _ left => 10 + kClientRetries + left
  | .aborting _ => 5 + kClientRetries
  | .sendingAbort _ left _ => 1 + left
  | .returned _ => 0

/-- A bound on the steps of an upload. -/
def State.rank (parts : ℕ) (s : State n) : ℕ :=
  s.caller.rank + (20 + kClientRetries) * (parts - s.next) + ∑ w, (s.workers w).rank parts

theorem rank_goto_lt {s s' : State n} {parts : ℕ} {w : Fin n} {pc : Worker}
    (hcaller : s'.caller = s.caller) (hnext : s'.next = s.next)
    (hworkers : s'.workers = Function.update s.workers w pc)
    (hlt : pc.rank parts < (s.workers w).rank parts) : s'.rank parts < s.rank parts := by
  have hsum := Ledger.held_update (Worker.rank parts) s.workers w pc
  rw [Ledger.held, Ledger.held] at hsum
  rw [State.rank, State.rank, hcaller, hnext, hworkers]
  omega

theorem rank_workerStep_lt {w : Fin n} {s s' : State n}
    (hstep : WorkerStep reliable u uploadId sha256Raw strerror w s s') :
    s'.rank u.parts < s.rank u.parts := by
  cases hstep with
  | opens hpc => exact rank_goto_lt rfl rfl rfl (by simp [hpc, Worker.rank])
  | cannotOpen hpc errno => exact rank_goto_lt rfl rfl rfl (by simp [hpc, Worker.rank])
  | claims hpc =>
    -- the number drawn makes up for what it costs to check it
    have hsum := Ledger.held_update (Worker.rank u.parts) s.workers w (.checking s.next)
    rw [Ledger.held, Ledger.held] at hsum
    have hchecking : (Worker.checking s.next).rank u.parts + 23 * (u.parts - (s.next + 1))
        < 3 + 23 * (u.parts - s.next) := by
      rw [Worker.rank, kClientRetries]
      split <;> omega
    have hclaiming : Worker.claiming.rank u.parts = 3 := rfl
    rw [hpc, hclaiming] at hsum
    rw [State.rank, State.rank, State.claim, kClientRetries]
    dsimp only at hsum ⊢
    omega
  | quits hpc hstop =>
    refine rank_goto_lt rfl rfl rfl ?_
    rw [hpc, Worker.rank, Worker.rank]
    split <;> omega
  | proceeds hpc hgo =>
    refine rank_goto_lt rfl rfl rfl ?_
    rw [hpc]
    split <;> simp [Worker.rank, hgo.1]
  | hashes hpc reads hhash => exact rank_goto_lt rfl rfl rfl (by simp [hpc, Worker.rank])
  | cannotHash hpc reads hhash => exact rank_goto_lt rfl rfl rfl (by simp [hpc, Worker.rank]; omega)
  | starts hpc got diagnostic curl hstart =>
    exact rank_goto_lt rfl rfl rfl (by simp [hpc, Worker.rank])
  | cannotStart hpc got diagnostic curl hstart =>
    exact rank_goto_lt rfl rfl rfl (by simp [hpc, Worker.rank]; omega)
  | retries hpc t ht hafter =>
    have hlt := Call.lt_of_after hafter
    exact rank_goto_lt rfl rfl rfl (by simpa [hpc, Worker.rank] using hlt)
  | records hpc t ht hafter hok =>
    exact rank_goto_lt rfl rfl rfl (by simp [hpc, Worker.rank]; omega)
  | rejects hpc t ht hafter hbad =>
    exact rank_goto_lt rfl rfl rfl (by simp [hpc, Worker.rank]; omega)
  | fails hpc => exact rank_goto_lt rfl rfl rfl (by simp [hpc, Worker.rank])

theorem CallerStep.frame {s s' : State n}
    (hstep : CallerStep reliable u uploadId sha256Raw strerror s s') :
    s'.next = s.next ∧ s'.workers = s.workers := by
  cases hstep <;> exact ⟨rfl, rfl⟩

theorem CallerStep.rank_lt {s s' : State n}
    (hstep : CallerStep reliable u uploadId sha256Raw strerror s s') :
    s'.caller.rank < s.caller.rank := by
  cases hstep with
  | joins hpc hjoined =>
    rw [hpc, State.caller_call]
    split <;> simp [Caller.rank, kClientRetries]
  | starts hpc got diagnostic curl hstart => simp [hpc, Caller.rank]; omega
  | cannotStart hpc got diagnostic curl hstart => simp [hpc, Caller.rank]; omega
  | retries hpc t ht hafter => simpa [hpc, Caller.rank] using Call.lt_of_after hafter
  | succeeds hpc t ht hafter hok => simp [hpc, Caller.rank]
  | rejected hpc t ht hafter hbad => simp [hpc, Caller.rank]; omega
  | startsAbort hpc got diagnostic curl hstart => simp [hpc, Caller.rank]
  | cannotStartAbort hpc got diagnostic curl hstart => simp [hpc, Caller.rank]
  | retriesAbort hpc t hafter => simpa [hpc, Caller.rank] using Call.lt_of_after hafter
  | aborts hpc t hafter => simp [hpc, Caller.rank]

theorem rank_step_lt (s s' : State n) (hstep : Step reliable u uploadId sha256Raw strerror s s') :
    s'.rank u.parts < s.rank u.parts := by
  cases hstep with
  | worker w hworker => exact rank_workerStep_lt hworker
  | caller hcaller =>
    obtain ⟨hnext, hworkers⟩ := hcaller.frame
    have hlt := hcaller.rank_lt
    rw [State.rank, State.rank, hnext, hworkers]
    omega

/-! ## Threads do not get stuck -/

/-- A transfer that fails for good. -/
def noTransfer : Transfer := { rc := .other 0, code := 0 }

theorem exists_workerStep {s : State n} {w : Fin n} (hw : s.workers w ≠ .done) :
    ∃ s', WorkerStep reliable u uploadId sha256Raw strerror w s s' := by
  cases hpc : s.workers w with
  | opening => exact ⟨_, .opens hpc⟩
  | claiming => exact ⟨_, .claims hpc⟩
  | checking i =>
    by_cases hstop : u.parts ≤ i ∨ s.failed = true
    · exact ⟨_, .quits hpc hstop⟩
    · obtain ⟨hparts, hfailed⟩ := not_or.mp hstop
      exact ⟨_, .proceeds hpc ⟨not_le.mp hparts, by simpa using hfailed⟩⟩
  | hashing i =>
    exact ⟨_, .cannotHash hpc false (by simp [sha256FileHex])⟩
  | starting i hash =>
    cases hstart : startRequest sha256Raw u.im.cfg u.im.fixedCreds {} [] true
        (u.partCall uploadId i hash) with
    | error error => exact ⟨_, .cannotStart hpc {} [] true hstart⟩
    | ok p => exact ⟨_, .starts hpc {} [] true hstart⟩
  | sending i p left =>
    have ht : PartOutcome reliable p noTransfer none :=
      ⟨fun _ h ↦ absurd rfl h, fun _ h ↦ by cases h⟩
    cases hafter : p.call.after left noTransfer with
    | inl left' => exact ⟨_, .retries hpc noTransfer ht hafter⟩
    | inr r =>
      by_cases hok : u.partFailure strerror i r = []
      · exact ⟨_, .records hpc noTransfer ht hafter hok⟩
      · exact ⟨_, .rejects hpc noTransfer ht hafter hok⟩
  | failing message => exact ⟨_, .fails hpc⟩
  | done => exact absurd hpc hw

/-- **Only a run that has returned has ended.** -/
theorem exists_step {s : State n} (hreturned : ∀ out, s.caller ≠ .returned out) :
    ∃ s', Step reliable u uploadId sha256Raw strerror s s' := by
  cases hpc : s.caller with
  | working =>
    by_cases hdone : ∀ w, s.workers w = .done
    · exact ⟨_, .caller (.joins hpc hdone)⟩
    · obtain ⟨w, hw⟩ := not_forall.mp hdone
      obtain ⟨s', hs'⟩ := exists_workerStep hw
      exact ⟨s', .worker w hs'⟩
  | completing =>
    cases hstart : startRequest sha256Raw u.im.cfg u.im.fixedCreds {} [] true
        (u.completeCall uploadId s.etags) with
    | error error => exact ⟨_, .caller (.cannotStart hpc {} [] true hstart)⟩
    | ok p => exact ⟨_, .caller (.starts hpc {} [] true hstart)⟩
  | sendingCompletion p left =>
    have ht : CompletionOutcome reliable uploadId s.accepted p noTransfer none :=
      ⟨fun _ h ↦ absurd rfl h, fun _ h ↦ by cases h⟩
    cases hafter : p.call.after left noTransfer with
    | inl left' => exact ⟨_, .caller (.retries hpc noTransfer ht hafter)⟩
    | inr r =>
      by_cases hok : u.completeFailure strerror r = []
      · exact ⟨_, .caller (.succeeds hpc noTransfer ht hafter hok)⟩
      · exact ⟨_, .caller (.rejected hpc noTransfer ht hafter hok)⟩
  | aborting error =>
    cases hstart : startRequest sha256Raw u.im.cfg u.im.fixedCreds {} [] true
        (u.abortCall uploadId) with
    | error ignored => exact ⟨_, .caller (.cannotStartAbort hpc {} [] true hstart)⟩
    | ok p => exact ⟨_, .caller (.startsAbort hpc {} [] true hstart)⟩
  | sendingAbort p left error =>
    cases hafter : p.call.after left noTransfer with
    | inl left' => exact ⟨_, .caller (.retriesAbort hpc noTransfer hafter)⟩
    | inr r => exact ⟨_, .caller (.aborts hpc noTransfer hafter)⟩
  | returned out => exact absurd hpc (hreturned out)

/-! ## How a run ends -/

/-- No request with this method has been begun. -/
def NeverBegun (log : List (Event n)) (method : Bytes) : Prop :=
  ∀ who call, .begin who call ∈ log → call.method ≠ method

/-- `put_file` has returned true, after a completion that was acknowledged, and has aborted
nothing. -/
structure Completed (u : FileUpload) (uploadId : Bytes) (s : State n) : Prop where
  returned : ∃ etag, s.caller = .returned ⟨true, etag, []⟩
  acknowledged : ∃ before r, Acknowledged r ∧
    s.log = before ++ [.begin none (u.completeCall uploadId s.etags), .finish none (some r)]
  notAborted : NeverBegun s.log (utf8 "DELETE")

/-- `put_file` has returned false with an error. The last thing it has done is to abort the upload,
once, when every part request begun had ended; and it has tried to complete nothing of which a part
had failed or was missing. -/
structure Aborted (u : FileUpload) (uploadId : Bytes) (s : State n) : Prop where
  returned : ∃ etag error, s.caller = .returned ⟨false, etag, error⟩ ∧ error ≠ []
  abortedOnce : ∃ before reply,
    s.log = before ++ [.begin none (u.abortCall uploadId), .finish none reply] ∧
    NeverBegun before (utf8 "DELETE") ∧
    ∀ w, before.countP (Event.isBegin (some w)) = before.countP (Event.isFinish (some w))
  notCompleted : (s.failed = true ∨ ∃ i < u.parts, s.etags i = []) → NeverBegun s.log (utf8 "POST")

theorem NeverBegun.append {log log' : List (Event n)} {method : Bytes} (h : NeverBegun log method)
    (h' : NeverBegun log' method) : NeverBegun (log ++ log') method := by
  intro who call hmem
  rcases List.mem_append.mp hmem with hmem | hmem
  · exact h who call hmem
  · exact h' who call hmem

theorem neverBegun_request {who : Option (Fin n)} {call : Call} {reply : Option Reply}
    {method : Bytes}
    (hcall : call.method ≠ method) :
    NeverBegun [.begin who call, .finish who reply] method := by
  intro who' call' hmem
  obtain ⟨-, rfl⟩ : who' = who ∧ call' = call := by simpa using hmem
  exact hcall

theorem neverBegun_of_byWorker {log : List (Event n)} {method : Bytes}
    (hmethod : utf8 "PUT" ≠ method)
    (hworker : ∀ e ∈ log, ∃ w, e.ByWorker w) : NeverBegun log method := by
  intro who call hmem
  obtain ⟨w, -, hput⟩ := hworker _ hmem
  rwa [hput]

theorem GaveUp.neverBegun_delete {s : State n} {own : List (Event n)}
    (h : GaveUp u uploadId s own) :
    NeverBegun own (utf8 "DELETE") := by
  rcases h with ⟨-, rfl⟩ | ⟨-, reply, rfl⟩
  · exact fun _ _ hmem ↦ absurd hmem List.not_mem_nil
  · exact neverBegun_request (show utf8 "POST" ≠ utf8 "DELETE" by decide)

theorem GaveUp.eq_nil {s : State n} {own : List (Event n)} (h : GaveUp u uploadId s own)
    (hlacking : s.failed = true ∨ ∃ i < u.parts, s.etags i = []) : own = [] := by
  rcases h with ⟨-, rfl⟩ | ⟨⟨hfailed, hetags⟩, -⟩
  · rfl
  · rcases hlacking with hfailed' | ⟨i, hi, hetag⟩
    · rw [hfailed] at hfailed'
      cases hfailed'
    · exact absurd hetag (hetags i hi)

theorem ended_of_done {s : State n} {before : List (Event n)} (hdone : ∀ w, s.workers w = .done)
    (hbalance : ∀ w, before.countP (Event.isBegin (some w))
      = before.countP (Event.isFinish (some w)) + (s.workers w).busy) (w : Fin n) :
    before.countP (Event.isBegin (some w)) = before.countP (Event.isFinish (some w)) := by
  rw [hbalance, hdone w]
  rfl

theorem ends_of_returned {s : State n} (h : Inv reliable u uploadId s)
    {out : Outcome (Option Bytes)}
    (hout : s.caller = .returned out) : Completed u uploadId s ∨ Aborted u uploadId s := by
  obtain ⟨before, own, hlog, hown, hworker, hbalance⟩ := h.log
  have hdone := h.joined (by rw [hout]; exact Caller.noConfusion)
  have hdelete := neverBegun_of_byWorker (show utf8 "PUT" ≠ utf8 "DELETE" by decide) hworker
  have hpost := neverBegun_of_byWorker (show utf8 "PUT" ≠ utf8 "POST" by decide) hworker
  rw [hout] at hown
  obtain ⟨ok, etag, error⟩ := out
  cases ok with
  | true =>
    obtain ⟨rfl, -, -, r, hack, rfl⟩ := hown
    refine .inl ⟨⟨etag, hout⟩, ⟨before, r, hack, hlog⟩, ?_⟩
    rw [hlog]
    exact hdelete.append (neverBegun_request (show utf8 "POST" ≠ utf8 "DELETE" by decide))
  | false =>
    obtain ⟨herror, gave, reply, hgave, rfl⟩ := hown
    refine .inr ⟨⟨etag, error, hout, herror⟩, ⟨before ++ gave, reply, ?_, ?_, fun w ↦ ?_⟩, ?_⟩
    · rw [hlog, List.append_assoc]
    · exact hdelete.append hgave.neverBegun_delete
    · -- the calling thread's own requests are no worker's
      have hnone : gave.countP (Event.isBegin (some w)) = 0 ∧
          gave.countP (Event.isFinish (some w)) = 0 := by
        rcases hgave with ⟨-, rfl⟩ | ⟨-, reply', rfl⟩
        · exact ⟨rfl, rfl⟩
        · exact ⟨rfl, rfl⟩
      rw [List.countP_append, List.countP_append, hnone.1, hnone.2]
      exact ended_of_done hdone hbalance w
    · intro hlacking
      rw [hlog, hgave.eq_nil hlacking]
      exact hpost.append (neverBegun_request (show utf8 "DELETE" ≠ utf8 "POST" by decide))

/-- **An upload ends, and ends completed or aborted**, in one of the two ways and not in both. -/
theorem completed_or_aborted (hn : 0 < n) (hparts : 1 ≤ u.parts) :
    (∀ run : ℕ → State n, run 0 = State.initial →
      ¬∀ k, Step reliable u uploadId sha256Raw strerror (run k) (run (k + 1))) ∧
    ∀ s : State n,
      Relation.ReflTransGen (Step reliable u uploadId sha256Raw strerror) State.initial s →
      Runs.Final (Step reliable u uploadId sha256Raw strerror) s →
      (Completed u uploadId s ∨ Aborted u uploadId s) ∧
        ¬(Completed u uploadId s ∧ Aborted u uploadId s) := by
  refine ⟨fun run _ ↦ ?_, fun s hrun hfinal ↦ ⟨?_, ?_⟩⟩
  · exact Runs.not_infinite (I := fun _ ↦ True) (μ := State.rank u.parts) (fun _ _ _ _ ↦ trivial)
      (fun s s' _ hstep ↦ rank_step_lt s s' hstep) run trivial
  · by_contra hends
    -- a state that is not left for good has still a step to take
    have hreturned : ∀ out, s.caller ≠ .returned out :=
      fun out hout ↦ hends (ends_of_returned (inv_of_run hn hparts hrun) hout)
    obtain ⟨s', hstep⟩ := exists_step hreturned
    exact hfinal s' hstep
  · rintro ⟨⟨⟨etag, hcompleted⟩, -, -⟩, ⟨⟨etag', error, haborted, -⟩, -, -⟩⟩
    rw [hcompleted] at haborted
    cases haborted

/-- The upload of two parts by two workers ends one way or the other. -/
theorem ends_twoParts :
    (∀ run : ℕ → State 2, run 0 = State.initial →
      ¬∀ k, Step False twoParts (utf8 "id") id (fun _ ↦ []) (run k) (run (k + 1))) ∧
    ∃ s : State 2,
      Relation.ReflTransGen (Step False twoParts (utf8 "id") id fun _ ↦ []) State.initial s ∧
      (Completed twoParts (utf8 "id") s ∨ Aborted twoParts (utf8 "id") s) := by
  have hparts : 1 ≤ twoParts.parts := by
    rw [parts_twoParts]
    exact Nat.le_succ 1
  refine ⟨(completed_or_aborted Nat.two_pos hparts).1, ?_⟩
  obtain ⟨s, hrun, hfinal⟩ :=
    Runs.exists_final (I := fun _ ↦ True) (μ := State.rank twoParts.parts)
    (fun _ _ _ _ ↦ trivial) (fun s s' _ hstep ↦ rank_step_lt s s' hstep)
    (trivial : (fun _ : State 2 ↦ True) State.initial)
  exact ⟨s, hrun, ((completed_or_aborted Nat.two_pos hparts).2 s hrun hfinal).1⟩

end Ending

end Multipart

end Nanos3Reader
