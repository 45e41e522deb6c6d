import Nanos3Reader.Client.Listing
import Nanos3Reader.Client.PutFile
import Nanos3Reader.Client.Reading
import Nanos3Reader.MultipartUpload.Ending

/-!
# What callers may rely on

Every operation of the client has many ways out, and all of them go by one contract: true with no
error text, or false with one and with the output arguments as they were. A put moreover reports a
failed precondition through an output of its own.
-/

open ByteText

namespace Nanos3Reader

/-- The contract, for an outcome whose output arguments were `given` by the caller. -/
def Outcome.Keeps {α : Type*} (given : α) (out : Outcome α) : Prop :=
  (out.ok = true ∧ out.error = []) ∨ (out.ok = false ∧ out.error ≠ [] ∧ out.out = given)

namespace ClientImpl

theorem splitS3Uri_error_ne_nil {uri e : Bytes} {needKey : Bool}
    (h : splitS3Uri uri needKey = .error e) : e ≠ [] := by
  rw [splitS3Uri] at h
  split at h
  · cases h
    simp
  · dsimp only at h
    split at h
    · cases h
      simp
    · cases h

theorem target_error_ne_nil {im : ClientImpl} {uri e : Bytes} {needKey : Bool}
    (h : im.target uri needKey = .error e) : e ≠ [] := by
  rw [target] at h
  split at h
  · next hsplit =>
    cases h
    exact splitS3Uri_error_ne_nil hsplit
  · split at h
    · cases h
    · cases h
      simp

/-! ## One request -/

theorem keeps_head (im : ClientImpl) (env : Outside) (w : World) (uri : Bytes) (size : ℕ) :
    (im.head env w uri size).1.Keeps size := by
  rw [head]
  split
  · next htarget => exact .inr ⟨rfl, target_error_ne_nil htarget, rfl⟩
  · split
    · next hrun => exact .inr ⟨rfl, runRequest_error_ne_nil (Prod.ext_iff.mp hrun).1, rfl⟩
    · dsimp only
      rw [headFinish]
      split
      · exact .inr ⟨rfl, transferFailure_ne_nil _ _ _, rfl⟩
      · split
        · exact .inr ⟨rfl, httpFailure_ne_nil _ _, rfl⟩
        · split
          · exact .inr ⟨rfl, by simp, rfl⟩
          · exact .inl ⟨rfl, rfl⟩

theorem putCall_error_ne_nil {im : ClientImpl} {uri : Bytes} {data : Option Bytes}
    {options : PutOptions} {e : Bytes} (h : im.putCall uri data options = .error e) : e ≠ [] := by
  rw [putCall] at h
  split at h
  · next htarget =>
    cases h
    exact target_error_ne_nil htarget
  · split at h
    · cases h
      simp
    · split at h
      · cases h
        simp
      · split at h
        · cases h
          simp
        · cases h

/-- The last attempt of a put completed with 412. -/
def Completed412 (im : ClientImpl) (env : Outside) (w : World) (uri : Bytes) (data : Option Bytes)
    (options : PutOptions) : Prop :=
  ∃ call r w', im.putCall uri data options = .ok call ∧ im.run env w call = (.ok r, w') ∧
    r.overflow = false ∧ r.rc = .ok ∧ r.code = 412

/-- The contract of a put: a failed one leaves the ETag alone, and says that the precondition failed
exactly when the last attempt said so. -/
structure PutKeeps (given : PutOut) (preconditionFailed : Prop) (out : Outcome PutOut) : Prop where
  result : (out.ok = true ∧ out.error = []) ∨
    (out.ok = false ∧ out.error ≠ [] ∧ out.out.1 = given.1)
  reported : out.out.2 = some true ↔ given.2.isSome = true ∧ out.ok = false ∧ preconditionFailed

theorem putKeeps_of_error {given : PutOut} {preconditionFailed : Prop} {e : Bytes} (he : e ≠ [])
    (hno : ¬preconditionFailed) :
    PutKeeps given preconditionFailed ⟨false, (given.1, given.2.map fun _ ↦ false), e⟩ := by
  refine ⟨.inr ⟨rfl, he, rfl⟩, iff_of_false ?_ fun h ↦ hno h.2.2⟩
  cases given.2 <;> simp

theorem putKeeps_putFinish (strerror : CurlCode → Bytes) (uri : Bytes) (options : PutOptions)
    (r : Reply) (given : PutOut) :
    PutKeeps given (r.overflow = false ∧ r.rc = .ok ∧ r.code = 412)
      (putFinish strerror uri options r (given.1, given.2.map fun _ ↦ false)) := by
  rw [putFinish]
  split
  · next hrc =>
    refine putKeeps_of_error (transferFailure_ne_nil _ _ _) ?_
    rintro ⟨hover, hok, -⟩
    simp [hover, hok] at hrc
  · next hrc =>
    obtain ⟨hover, hok⟩ := not_or.mp hrc
    split
    · next hcode =>
      refine ⟨.inr ⟨rfl, by simp, rfl⟩, ?_⟩
      have hcompleted : r.overflow = false ∧ r.rc = .ok ∧ r.code = 412 :=
        ⟨by simpa using hover, by simpa using hok, hcode⟩
      cases given.2 <;> simp [hcompleted]
    · next hcode =>
      have hno : ¬(r.overflow = false ∧ r.rc = .ok ∧ r.code = 412) := fun h ↦ hcode h.2.2
      split
      · exact putKeeps_of_error (httpFailure_ne_nil _ _) hno
      · refine ⟨.inl ⟨rfl, rfl⟩, iff_of_false ?_ fun h ↦ hno h.2.2⟩
        cases given.2 <;> simp

theorem keeps_put (im : ClientImpl) (env : Outside) (w : World) (uri : Bytes) (data : Option Bytes)
    (options : PutOptions) (out : PutOut) :
    PutKeeps out (im.Completed412 env w uri data options)
      (im.put env w uri data options out).1 := by
  rw [put]
  split
  · next hcall =>
    -- no request was made, so there is no 412 to report
    refine putKeeps_of_error (putCall_error_ne_nil hcall) ?_
    rintro ⟨call, r, w', hok, -⟩
    rw [hcall] at hok
    cases hok
  · next call hcall =>
    split
    · next hrun =>
      refine putKeeps_of_error (runRequest_error_ne_nil (Prod.ext_iff.mp hrun).1) ?_
      rintro ⟨call', r, w', hok, hreply, -⟩
      rw [hcall] at hok
      cases hok
      rw [hrun] at hreply
      cases hreply
    · next r w' hrun =>
      -- the reply is the only one there can be
      have hiff : im.Completed412 env w uri data options ↔
          r.overflow = false ∧ r.rc = .ok ∧ r.code = 412 := by
        constructor
        · rintro ⟨call', r', w'', hok, hreply, hcompleted⟩
          rw [hcall] at hok
          cases hok
          rw [hrun] at hreply
          cases hreply
          exact hcompleted
        · exact fun h ↦ ⟨call, r, w', hcall, hrun, h⟩
      rw [hiff]
      exact putKeeps_putFinish _ _ _ _ _

/-! ## Listings -/

theorem listLoop_error_ne_nil {im : ClientImpl} {env : Outside}
    {prefixUri bucket pfx delimiter : Bytes} {fuel : ℕ} {w w' : World} {token : Bytes}
    {found : List ObjectInfo} {prefixes : List Bytes} {e : Bytes}
    (h : im.listLoop env prefixUri bucket pfx delimiter fuel w token found prefixes
      = some (.error e, w')) : e ≠ [] := by
  -- on the pages: every page but the last one passes what it has found on to the next
  induction fuel generalizing w token found prefixes with
  | zero => cases h
  | succ fuel ih =>
    rw [listLoop] at h
    split at h
    · next hrun =>
      cases h
      exact runRequest_error_ne_nil (Prod.ext_iff.mp hrun).1
    · split at h
      · next hread =>
        cases h
        exact readPage_error_ne_nil hread
      · split at h
        · cases h
        · split at h
          · cases h
            simp
          · exact ih h

/-- Page after page, as far as `n` pages, the server has announced another. -/
def Announces (im : ClientImpl) (env : Outside) (prefixUri bucket pfx delimiter : Bytes) :
    ℕ → World → Bytes → List ObjectInfo → List Bytes → Prop
  | 0, _, _, _, _ => True
  | n + 1, w, token, found, prefixes => ∃ r w' page,
      im.run env w (listCall bucket pfx delimiter token) = (.ok r, w') ∧
      readPage env.strerror prefixUri found prefixes r = .ok page ∧
      page.truncated = true ∧ page.nextToken ≠ token ∧
      im.Announces env prefixUri bucket pfx delimiter n w' page.nextToken page.objects
        page.commonPrefixes

theorem announces_of_listLoop {im : ClientImpl} {env : Outside}
    {prefixUri bucket pfx delimiter : Bytes} {n : ℕ} {w : World} {token : Bytes}
    {found : List ObjectInfo} {prefixes : List Bytes}
    (h : im.listLoop env prefixUri bucket pfx delimiter n w token found prefixes = none) :
    im.Announces env prefixUri bucket pfx delimiter n w token found prefixes := by
  induction n generalizing w token found prefixes with
  | zero => trivial
  | succ n ih =>
    rw [listLoop] at h
    split at h
    · cases h
    · next r w' hrun =>
      split at h
      · cases h
      · next page hread =>
        split at h
        · cases h
        · next htruncated =>
          split at h
          · cases h
          · next hne => exact ⟨r, w', page, hrun, hread, by simpa using htruncated, hne, ih h⟩

theorem keeps_list {im : ClientImpl} {env : Outside} {fuel : ℕ} {w w' : World}
    {prefixUri delimiter : Bytes} {objects : List ObjectInfo} {commonPrefixes : List Bytes}
    {out : Outcome (List ObjectInfo × List Bytes)}
    (h : im.list env fuel w prefixUri delimiter objects commonPrefixes = some (out, w')) :
    out.Keeps (objects, commonPrefixes) := by
  rw [list] at h
  split at h
  · next htarget =>
    cases h
    exact .inr ⟨rfl, target_error_ne_nil htarget, rfl⟩
  · obtain ⟨⟨result, w''⟩, hloop, heq⟩ := Option.map_eq_some_iff.mp h
    cases result with
    | error e =>
      cases heq
      exact .inr ⟨rfl, listLoop_error_ne_nil hloop, rfl⟩
    | ok found =>
      cases heq
      exact .inl ⟨rfl, rfl⟩

/-- **A listing returns, or the server goes on announcing pages for ever.** -/
theorem list_returns (im : ClientImpl) (env : Outside) (w : World) (prefixUri delimiter : Bytes)
    (objects : List ObjectInfo) (commonPrefixes : List Bytes) :
    (∃ fuel out w',
        im.list env fuel w prefixUri delimiter objects commonPrefixes = some (out, w')) ∨
      ∃ bucket pfx, im.target prefixUri false = .ok (bucket, pfx) ∧
        ∀ n, im.Announces env prefixUri bucket pfx delimiter n w [] [] [] := by
  by_cases hreturns : ∃ fuel, im.list env fuel w prefixUri delimiter objects commonPrefixes ≠ none
  · obtain ⟨fuel, hfuel⟩ := hreturns
    obtain ⟨⟨out, w'⟩, hout⟩ := Option.ne_none_iff_exists'.mp hfuel
    exact .inl ⟨fuel, out, w', hout⟩
  · simp only [not_exists, not_not] at hreturns
    cases htarget : im.target prefixUri false with
    | error e =>
      have hnone := hreturns 0
      rw [list, htarget] at hnone
      cases hnone
    | ok bk =>
      -- `n` pages are not enough for any `n`
      refine .inr ⟨bk.1, bk.2, rfl, fun n ↦ announces_of_listLoop ?_⟩
      have hnone := hreturns n
      rw [list, htarget] at hnone
      exact Option.map_eq_none_iff.mp hnone

/-! ## Files -/

theorem acceptFile_error_ne_nil {im : ClientImpl} {a : PutFileArgs} {status : FileStatus}
    {e : Bytes}
    (h : im.acceptFile a status = .error e) : e ≠ [] := by
  rw [acceptFile] at h
  split at h
  · next htarget =>
    cases h
    exact target_error_ne_nil htarget
  · split at h
    · cases h
      simp
    · split at h
      · cases h
        simp
      · cases h
        simp
      · cases h

end ClientImpl

namespace FileUpload

variable {u : FileUpload}

theorem singleStart_error_ne_nil {sha256Raw : Bytes → Bytes} {opened : Option Bytes} {reads : Bool}
    {e : Bytes} (h : u.singleStart sha256Raw opened reads = .error e) : e ≠ [] := by
  rw [singleStart.eq_def] at h
  split at h
  · cases h
    simp
  · split at h
    · cases h
      simp
    · cases h

theorem keeps_putSingle (env : Outside) (w : World) (opened : Option Bytes) (reads : Bool) :
    (u.putSingle env w opened reads).1.Keeps u.etag := by
  rw [putSingle]
  split
  · next hstart => exact .inr ⟨rfl, singleStart_error_ne_nil hstart, rfl⟩
  · split
    · next hrun => exact .inr ⟨rfl, runRequest_error_ne_nil (Prod.ext_iff.mp hrun).1, rfl⟩
    · rw [singleFinish]
      dsimp only
      split
      · next hfailed => exact .inr ⟨rfl, hfailed, rfl⟩
      · exact .inl ⟨rfl, rfl⟩

theorem createUpload_error_ne_nil {env : Outside} {w : World} {e : Bytes}
    (h : (u.createUpload env w).1 = .error e) : e ≠ [] := by
  rw [createUpload] at h
  split at h
  · next hrun =>
    cases h
    exact runRequest_error_ne_nil (Prod.ext_iff.mp hrun).1
  · dsimp only at h
    rw [createFinish] at h
    split at h
    · cases h
      simp
    · split at h
      · cases h
        simp
      · cases h

theorem etag_of_callerStep {n : ℕ} {reliable : Prop} {uploadId : Bytes}
    {sha256Raw : Bytes → Bytes} {strerror : CurlCode → Bytes} {s s' : Multipart.State n}
    (h : Multipart.CallerStep reliable u uploadId sha256Raw strerror s s') {etag : Option Bytes}
    {error : Bytes} (hreturned : s'.caller = .returned ⟨false, etag, error⟩) : etag = u.etag := by
  cases h with
  -- after the join there is still a request to make, to complete or to abort
  | joins hpc hjoined =>
    rw [Multipart.State.caller_call] at hreturned
    split at hreturned <;> cases hreturned
  | cannotStartAbort | aborts =>
    cases hreturned
    rfl
  | _ => cases hreturned

theorem etag_of_returned {env : Outside} {uploadId : Bytes} {s : Multipart.State u.threads}
    (h : u.Reaches env uploadId s) {etag : Option Bytes} {error : Bytes}
    (hout : s.caller = .returned ⟨false, etag, error⟩) : etag = u.etag := by
  refine Runs.invariant (I := fun s : Multipart.State u.threads ↦ ∀ etag error,
    s.caller = .returned ⟨false, etag, error⟩ → etag = u.etag) ?_ ?_ h.2 etag error hout
  · intro s s' hs hstep etag error hreturned
    cases hstep with
    | worker w hworker =>
      rw [hworker.caller_eq] at hreturned
      exact hs etag error hreturned
    | caller hcaller => exact etag_of_callerStep hcaller hreturned
  · intro etag error hworking
    cases hworking

theorem keeps_returned {env : Outside} {uploadId : Bytes} {s : Multipart.State u.threads}
    (h : u.Reaches env uploadId s) {out : Outcome (Option Bytes)}
    (hout : s.caller = .returned out) : out.Keeps u.etag := by
  -- what is returned goes with the calling thread's own part of the log
  obtain ⟨before, own, -, hown, -⟩ := (Multipart.inv_of_run (u.threads_pos h.1) h.1 h.2).log
  rw [hout] at hown
  obtain ⟨ok, etag, error⟩ := out
  cases ok with
  | true => exact .inl ⟨rfl, hown.1⟩
  | false => exact .inr ⟨rfl, hown.1, etag_of_returned h hout⟩

end FileUpload

namespace ClientImpl

theorem keeps_putFile {im : ClientImpl} {env : Outside} {a : PutFileArgs}
    {out : Outcome (Option Bytes)} (h : PutFileReturns env im a out) : out.Keeps a.etag := by
  cases h with
  | rejected h => exact .inr ⟨rfl, acceptFile_error_ne_nil h, rfl⟩
  | single h hsingle w opened reads =>
    rw [← (of_acceptFile h).etag]
    exact FileUpload.keeps_putSingle env w opened reads
  | notCreated h hsingle hcreate =>
    exact .inr ⟨rfl, FileUpload.createUpload_error_ne_nil hcreate, rfl⟩
  | ended h hsingle hcreate hs hout =>
    rw [← (of_acceptFile h).etag]
    exact FileUpload.keeps_returned hs hout

/-- An upload in parts goes on until it returns, and does not go on for ever. -/
def PartsReturn (env : Outside) (u : FileUpload) (uploadId : Bytes) : Prop :=
  (∀ s, u.Reaches env uploadId s → (∀ out, s.caller ≠ .returned out) →
    ∃ s', Multipart.Step False u uploadId env.sha256Raw env.strerror s s') ∧
  ∀ run : ℕ → Multipart.State u.threads, run 0 = .initial →
    ¬∀ k, Multipart.Step False u uploadId env.sha256Raw env.strerror (run k) (run (k + 1))

theorem partsReturn (env : Outside) (u : FileUpload) (uploadId : Bytes) :
    PartsReturn env u uploadId := by
  refine ⟨fun s _ hreturned ↦ Multipart.exists_step hreturned, fun run h0 ↦ ?_⟩
  exact Runs.not_infinite (I := fun _ ↦ True) (μ := Multipart.State.rank u.parts)
    (fun _ _ _ _ ↦ trivial) (fun s s' _ hstep ↦ Multipart.rank_step_lt s s' hstep) run trivial

/-- **Every operation keeps the contract**, whatever the requests come to. A listing that does not
return is one whose pages do not end, and an upload in parts always returns. -/
theorem operations_keep (im : ClientImpl) (env : Outside) :
    (∀ w uri size, (im.head env w uri size).1.Keeps size) ∧
    (∀ w prefixUri delimiter objects commonPrefixes,
      (∀ fuel out w',
        im.list env fuel w prefixUri delimiter objects commonPrefixes = some (out, w') →
        out.Keeps (objects, commonPrefixes)) ∧
      ((∃ fuel out w',
          im.list env fuel w prefixUri delimiter objects commonPrefixes = some (out, w')) ∨
        ∃ bucket pfx, im.target prefixUri false = .ok (bucket, pfx) ∧
          ∀ n, im.Announces env prefixUri bucket pfx delimiter n w [] [] [])) ∧
    (∀ w uri data options out,
      PutKeeps out (im.Completed412 env w uri data options) (im.put env w uri data options out).1) ∧
    (∀ a out, PutFileReturns env im a out → out.Keeps a.etag) ∧
    ∀ u uploadId, PartsReturn env u uploadId :=
  ⟨im.keeps_head env,
    fun w prefixUri delimiter objects commonPrefixes ↦
      ⟨fun _ _ _ ↦ keeps_list, im.list_returns env w prefixUri delimiter objects commonPrefixes⟩,
    im.keeps_put env, fun _ _ ↦ keeps_putFile, partsReturn env⟩

end ClientImpl

end Nanos3Reader
