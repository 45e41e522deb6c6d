import Nanos3Reader.Client.PutDirectory
import Nanos3Reader.Lib.Ledger
import Nanos3Reader.Lib.Runs

/-!
# The accounts of a directory upload

Every file is drawn by one worker, uploaded by it, and reported by it; so at every moment the files
drawn, the calls made, the calls returned and the results reported differ by what the workers have
in hand. When the workers have ended they have nothing in hand, and all of these are the files
found.
-/

open ByteText Ledger

namespace Nanos3Reader

namespace Directory

variable {n : ℕ} {env : Outside} {d : DirectoryUpload}

/-! ## What a worker has in hand -/

/-- Files drawn for which `put_file` has not been called. -/
def Worker.drawn (items : List Item) : Worker → Multiset Item
  | .checking i => (items[i]?.toList : List Item)
  | _ => 0

/-- Files that are being uploaded. -/
def Worker.uploads : Worker → Multiset Item
  | .uploading item => {item}
  | _ => 0

/-- Results not reported yet. -/
def Worker.results : Worker → Multiset FileUploadResult
  | .reporting r => {r}
  | _ => 0

attribute [simp] Worker.drawn Worker.uploads Worker.results

/-- The statistics are those of the results `reported`. -/
structure Tallies (stats : DirectoryUploadStats) (reported : Multiset FileUploadResult) : Prop where
  files : stats.files = (reported.filter fun r ↦ r.ok = true).card
  failed : stats.failed = (reported.filter fun r ↦ ¬r.ok = true).card
  bytes : stats.bytes = ((reported.filter fun r ↦ r.ok = true).map (·.bytes)).sum % 2 ^ 64

theorem tallies_zero : Tallies {} 0 := ⟨rfl, rfl, rfl⟩

theorem Tallies.add {stats : DirectoryUploadStats} {reported : Multiset FileUploadResult}
    (h : Tallies stats reported) (r : FileUploadResult) :
    Tallies (stats.add r) (reported + {r}) := by
  obtain ⟨hfiles, hfailed, hbytes⟩ := h
  rw [DirectoryUploadStats.add]
  split
  · next hok =>
    refine ⟨?_, ?_, ?_⟩
    · simp [Multiset.filter_add, Multiset.filter_singleton, hok, hfiles]
    · simp [Multiset.filter_add, Multiset.filter_singleton, hok, hfailed]
    · simp [Multiset.filter_add, Multiset.filter_singleton, hok, hbytes]
  · next hok =>
    refine ⟨?_, ?_, ?_⟩
    · simp [Multiset.filter_add, Multiset.filter_singleton, hok, hfiles]
    · simp [Multiset.filter_add, Multiset.filter_singleton, hok, hfailed]
    · simp [Multiset.filter_add, Multiset.filter_singleton, hok, hbytes]

theorem Tallies.card {stats : DirectoryUploadStats} {reported : Multiset FileUploadResult}
    (h : Tallies stats reported) : stats.files + stats.failed = reported.card := by
  rw [h.files, h.failed, ← Multiset.card_add, Multiset.filter_add_not]

/-! ## The invariant -/

/-- What has been reported, and how it shows: in the statistics, and in what the caller has been
told. -/
structure Reported (d : DirectoryUpload) (s : State n) (reported : Multiset FileUploadResult) :
    Prop where
  balanced : Balanced Worker.results s.workers ↑s.ended reported
  stats : Tallies s.stats reported
  told : (s.told : Multiset FileUploadResult) = if d.callback then reported else 0

/-- What a worker knows of the counter. -/
def Worker.Ok (items : List Item) (next : ℕ) : Worker → Prop
  | .checking i => i < next
  | .done => items.length ≤ next
  | .claiming | .uploading _ | .reporting _ => True

attribute [simp] Worker.Ok

structure Inv (d : DirectoryUpload) (s : State n) : Prop where
  drawn : Balanced (Worker.drawn d.items) s.workers ↑(d.items.take s.next) ↑s.begun
  called : Balanced Worker.uploads s.workers ↑s.begun ↑(s.ended.map FileUploadResult.item)
  reported : ∃ reported, Reported d s reported
  worker : ∀ w, (s.workers w).Ok d.items s.next
  caller : ∀ out, s.caller = .returned out → (∀ w, s.workers w = .done) ∧ out = finish d s

theorem inv_initial : Inv d (State.initial : State n) where
  drawn := balanced_zero fun _ ↦ rfl
  called := balanced_zero fun _ ↦ rfl
  reported := ⟨0, balanced_zero fun _ ↦ rfl, tallies_zero, by simp [State.told, State.initial]⟩
  worker _ := trivial
  caller _ h := by cases h

theorem Worker.Ok.mono {items : List Item} {next next' : ℕ} {pc : Worker} (h : pc.Ok items next)
    (hnext : next ≤ next') : pc.Ok items next' := by
  cases pc with
  | checking i => exact lt_of_lt_of_le h hnext
  | done => exact le_trans h hnext
  | claiming | uploading | reporting => trivial

theorem Inv.not_returned {s : State n} (h : Inv d s) {w : Fin n} (hw : s.workers w ≠ .done)
    (out : Outcome DirectoryUploadStats) : s.caller ≠ .returned out :=
  fun hout ↦ hw ((h.caller out hout).1 w)

theorem Inv.claim {s : State n} (h : Inv d s) {w : Fin n} (hw : s.workers w = .claiming) :
    Inv d (s.claim w) := by
  obtain ⟨reported, hbalanced, hstats, htold⟩ := h.reported
  constructor
  case drawn =>
    -- the counter goes up by one, and the worker holds the item it stood at, if there is one
    have htake : (↑(d.items.take (s.next + 1)) : Multiset Item)
        = ↑(d.items.take s.next) + ↑d.items[s.next]?.toList := by
      rw [List.take_add_one, Multiset.coe_add]
    have hmove := h.drawn.move (w := w) (x := .checking s.next) (a := ↑d.items[s.next]?.toList)
      (b := 0) (by simp [hw])
    rwa [add_zero, ← htake] at hmove
  case called => exact h.called.keep (by rw [hw]; rfl)
  case reported => exact ⟨reported, hbalanced.keep (by rw [hw]; rfl), hstats, htold⟩
  case worker =>
    refine (Function.forall_update_iff s.workers fun _ pc ↦ pc.Ok d.items (s.next + 1)).mpr ?_
    exact ⟨Nat.lt_succ_self _, fun v _ ↦ (h.worker v).mono (Nat.le_succ _)⟩
  case caller =>
    exact fun out hout ↦ absurd hout (h.not_returned (by rw [hw]; exact Worker.noConfusion) out)

/-- A worker goes on: what it has drawn and is uploading changes by what it does. -/
theorem Inv.goto {s s' : State n} (h : Inv d s) {w : Fin n} {pc : Worker} {events : List Event}
    (hw : s.workers w ≠ .done) (hcaller : s'.caller = s.caller) (hnext : s'.next = s.next)
    (hworkers : s'.workers = Function.update s.workers w pc) (hlog : s'.log = s.log ++ events)
    (hpc : pc.Ok d.items s.next)
    (hdrawn : pc.drawn d.items + ↑(events.filterMap Event.call?) = (s.workers w).drawn d.items)
    (hcalled : pc.uploads + ↑((events.filterMap Event.return?).map FileUploadResult.item)
      = (s.workers w).uploads + ↑(events.filterMap Event.call?))
    (hreported : ∃ reported, Reported d s' reported) : Inv d s' := by
  have hbegun : (↑s'.begun : Multiset Item) = ↑s.begun + ↑(events.filterMap Event.call?) := by
    rw [State.begun, hlog, List.filterMap_append, ← Multiset.coe_add]
    rfl
  have hended : (↑(s'.ended.map FileUploadResult.item) : Multiset Item)
      = ↑(s.ended.map FileUploadResult.item)
        + ↑((events.filterMap Event.return?).map FileUploadResult.item) := by
    rw [State.ended, hlog, List.filterMap_append, List.map_append, ← Multiset.coe_add]
    rfl
  constructor
  case drawn =>
    have hmove := h.drawn.move (a := 0) (w := w) (x := pc) (by rw [hdrawn, add_zero])
    rwa [add_zero, ← hbegun, ← hworkers, ← hnext] at hmove
  case called =>
    have hmove := h.called.move (w := w) (x := pc) hcalled
    rwa [← hbegun, ← hended, ← hworkers] at hmove
  case reported => exact hreported
  case worker =>
    rw [hworkers, hnext]
    exact (Function.forall_update_iff s.workers fun _ pc ↦ pc.Ok d.items s.next).mpr
      ⟨hpc, fun v _ ↦ h.worker v⟩
  case caller =>
    rw [hcaller]
    exact fun out hout ↦ absurd hout (h.not_returned hw out)

theorem Reported.goto {s : State n} {reported : Multiset FileUploadResult}
    (h : Reported d s reported)
    {w : Fin n} {pc : Worker} {events : List Event}
    (hresults : pc.results = (s.workers w).results + ↑(events.filterMap Event.return?))
    (htold : events.filterMap Event.told? = []) : Reported d (s.goto w pc events) reported := by
  refine ⟨?_, h.stats, ?_⟩
  · have hmove := h.balanced.move (b := 0) (w := w) (x := pc) (by rw [add_zero, hresults])
    rw [add_zero, Multiset.coe_add] at hmove
    rwa [State.ended, State.goto, List.filterMap_append]
  · rw [State.told, State.goto, List.filterMap_append, htold, List.append_nil]
    exact h.told

theorem filterMap_return_report (d : DirectoryUpload) (r : FileUploadResult) :
    (if d.callback then [Event.onFile r] else []).filterMap Event.return? = [] := by
  split <;> rfl

theorem inv_workerStep {w : Fin n} {s s' : State n} (h : Inv d s)
    (hstep : WorkerStep env d w s s') : Inv d s' := by
  obtain ⟨reported, hreported⟩ := h.reported
  cases hstep with
  | claims hpc => exact h.claim hpc
  | quits hpc hi =>
    -- the index is past the items, so nothing was drawn with it
    have hchecked := h.worker w
    rw [hpc] at hchecked
    refine h.goto (by simp [hpc]) rfl rfl rfl rfl (hi.trans hchecked.le) ?_ (by simp [hpc])
      ⟨reported, hreported.goto (by simp [hpc]) rfl⟩
    simp [hpc, List.getElem?_eq_none hi]
  | calls hpc hi =>
    exact h.goto (by simp [hpc]) rfl rfl rfl rfl trivial (by simp [hpc, hi])
      (by simp [hpc, List.filterMap_cons])
      ⟨reported, hreported.goto (by simp [hpc, List.filterMap_cons]) rfl⟩
  | returns hpc hout =>
    exact h.goto (by simp [hpc]) rfl rfl rfl rfl trivial (by simp [hpc, List.filterMap_cons])
      (by simp [hpc, List.filterMap_cons]) ⟨reported, hreported.goto (by simp [hpc]) rfl⟩
  -- the only step that adds to the statistics; `on_file` is called when there is one
  | @reports r hpc =>
    have hcall : (if d.callback then [Event.onFile r] else []).filterMap Event.call? = [] := by
      split <;> rfl
    have hreturn := filterMap_return_report d r
    refine h.goto (by simp [hpc]) rfl rfl rfl rfl trivial (by simp [hpc, hcall])
      (by simp [hpc, hcall, hreturn]) ⟨reported + ({r} : Multiset FileUploadResult), ?_⟩
    constructor
    case balanced =>
      have hmove := hreported.balanced.move (a := 0) (b := {r}) (w := w) (x := .claiming)
        (by simp [hpc])
      rw [add_zero] at hmove
      rwa [State.ended, State.report, State.goto, List.filterMap_append, hreturn, List.append_nil]
    case stats => exact hreported.stats.add r
    case told =>
      have htold := hreported.told
      rw [State.told] at htold ⊢
      rw [State.report, State.goto, List.filterMap_append, ← Multiset.coe_add, htold]
      split <;> rfl

theorem inv_step (s s' : State n) (h : Inv d s) (hstep : Step env d s s') : Inv d s' := by
  cases hstep with
  | worker w hworker => exact inv_workerStep h hworker
  | joins hpc hjoined =>
    refine ⟨h.drawn, h.called, ?_, h.worker, ?_⟩
    · obtain ⟨reported, hbalanced, hstats, htold⟩ := h.reported
      exact ⟨reported, hbalanced, hstats, htold⟩
    · rintro out ⟨⟩
      exact ⟨hjoined, rfl⟩

theorem inv_of_run {s : State n} (h : Relation.ReflTransGen (Step env d) State.initial s) :
    Inv d s :=
  Runs.invariant inv_step inv_initial h

/-! ## Every run ends -/

/-- A bound on the steps a worker takes before it draws another index. -/
def Worker.rank (items : ℕ) : Worker → ℕ
  | .claiming => 2
  | .checking i => if i < items then 5 else 1
  | .uploading _ => 4
  | .reporting _ => 3
  | .done => 0

def Caller.rank : Caller → ℕ
  | .working => 1
  | .returned _ => 0

/-- A bound on the steps of an upload. -/
def State.rank (items : ℕ) (s : State n) : ℕ :=
  s.caller.rank + 4 * (items - s.next) + held (Worker.rank items) s.workers

theorem rank_step_lt (s s' : State n) (hstep : Step env d s s') :
    s'.rank d.items.length < s.rank d.items.length := by
  cases hstep with
  | joins hpc hjoined =>
    rw [State.rank, State.rank, hpc]
    simp only [Caller.rank]
    omega
  | worker w hworker =>
    have hgoto : ∀ pc (s' : State n), s'.caller = s.caller → s'.next = s.next →
        s'.workers = Function.update s.workers w pc →
        pc.rank d.items.length < (s.workers w).rank d.items.length →
        s'.rank d.items.length < s.rank d.items.length := by
      intro pc s' hcaller hnext hworkers hlt
      have hsum := held_update (Worker.rank d.items.length) s.workers w pc
      rw [State.rank, State.rank, hcaller, hnext, hworkers]
      omega
    cases hworker with
    | claims hpc =>
      -- the index drawn makes up for what it costs to check it
      have hsum := held_update (Worker.rank d.items.length) s.workers w (.checking s.next)
      rw [hpc] at hsum
      simp only [Worker.rank] at hsum
      rw [State.rank, State.rank, State.claim]
      dsimp only
      split at hsum <;> omega
    | quits hpc hi =>
      refine hgoto _ _ rfl rfl rfl ?_
      rw [hpc, Worker.rank, Worker.rank]
      split <;> omega
    | calls hpc hi =>
      obtain ⟨hlt, -⟩ := List.getElem?_eq_some_iff.mp hi
      exact hgoto _ _ rfl rfl rfl (by simp [hpc, Worker.rank, hlt])
    | returns hpc hout => exact hgoto _ _ rfl rfl rfl (by simp [hpc, Worker.rank])
    | reports hpc => exact hgoto .claiming _ rfl rfl rfl (by simp [hpc, Worker.rank])

theorem exists_putFileReturns (env : Outside) (im : ClientImpl) (a : PutFileArgs) :
    ∃ out, ClientImpl.PutFileReturns env im a out := by
  have hrejected : ∃ e, im.acceptFile a (.notRegular none) = .error e := by
    rw [ClientImpl.acceptFile]
    split
    · exact ⟨_, rfl⟩
    · split
      · exact ⟨_, rfl⟩
      · exact ⟨_, rfl⟩
  obtain ⟨e, he⟩ := hrejected
  exact ⟨_, .rejected he⟩

theorem exists_step {s : State n} (hreturned : ∀ out, s.caller ≠ .returned out) :
    ∃ s', Step env d s s' := by
  -- a worker that has not ended can go on; once all have, the calling thread joins them
  by_cases hdone : ∀ w, s.workers w = .done
  · cases hpc : s.caller with
    | working => exact ⟨_, .joins hpc hdone⟩
    | returned out => exact absurd hpc (hreturned out)
  · obtain ⟨w, hw⟩ := not_forall.mp hdone
    cases hpc : s.workers w with
    | claiming => exact ⟨_, .worker w (.claims hpc)⟩
    | checking i =>
      cases hi : d.items[i]? with
      | none => exact ⟨_, .worker w (.quits hpc (List.getElem?_eq_none_iff.mp hi))⟩
      | some item => exact ⟨_, .worker w (.calls hpc hi)⟩
    | uploading item =>
      obtain ⟨out, hout⟩ := exists_putFileReturns env d.im (d.args item)
      exact ⟨_, .worker w (.returns hpc hout)⟩
    | reporting r => exact ⟨_, .worker w (.reports hpc)⟩
    | done => exact absurd hpc hw

/-! ## Where the files go -/

theorem collectItems_eq {base dir : Bytes} {entries : List DirectoryEntry} {items : List Item}
    (h : collectItems base dir entries = .ok items) :
    items = (foundFiles entries).map (FoundFile.item base) := by
  -- on the walk: a file adds its item, anything that is no file is passed over
  induction entries generalizing items with
  | nil =>
    cases h
    rfl
  | cons e rest ih =>
    cases e with
    | file f =>
      cases hrest : collectItems base dir rest with
      | error e =>
        rw [collectItems, hrest] at h
        cases h
      | ok items' =>
        rw [collectItems, hrest] at h
        cases h
        rw [ih hrest]
        rfl
    | other => exact ih h
    | noSize path reason => cases h
    | unreadable reason => cases h

/-- Every file found is to be uploaded, once, to the bucket and to a key of its own: the prefix and
the file's path. -/
structure Placed (bucket pfx : Bytes) (found : List FoundFile) (items : List Item) : Prop where
  items : items.Perm (found.map (FoundFile.item (directoryBase bucket pfx)))
  target : ∀ f ∈ found, ∀ needKey, splitS3Uri (directoryBase bucket pfx ++ f.relative) needKey
    = .ok (bucket, keyPrefix pfx ++ f.relative)
  distinct : (found.map fun f ↦ keyPrefix pfx ++ f.relative).Nodup

theorem placed {prefixUri dir bucket pfx : Bytes} {entries : List DirectoryEntry}
    {items : List Item} (hsplit : splitS3Uri prefixUri false = .ok (bucket, pfx))
    (hitems : directoryItems prefixUri dir (.ok entries) = .ok items)
    (hdistinct : ((foundFiles entries).map FoundFile.relative).Nodup) :
    Placed bucket pfx (foundFiles entries) items := by
  constructor
  case items =>
    rw [directoryItems, itemsUnder, hsplit] at hitems
    dsimp only at hitems
    cases hcollected : collectItems (directoryBase bucket pfx) dir entries with
    | error e =>
      rw [hcollected] at hitems
      cases hitems
    | ok collected =>
      rw [hcollected] at hitems
      cases hitems
      rw [← collectItems_eq hcollected]
      -- the items are sorted before they are handed out
      exact List.mergeSort_perm _ _
  case target =>
    intro f _ needKey
    obtain ⟨hne, hslash⟩ := of_splitS3Uri hsplit
    rw [directoryBase, List.append_assoc]
    exact splitS3Uri_append hne hslash (by simp [f.relative_ne]) needKey
  case distinct =>
    have hkeys : ((foundFiles entries).map fun f ↦ keyPrefix pfx ++ f.relative)
        = ((foundFiles entries).map FoundFile.relative).map (keyPrefix pfx ++ ·) := by
      rw [List.map_map]
      rfl
    rw [hkeys]
    exact hdistinct.map fun _ _ h ↦ List.append_cancel_left h

/-! ## The accounts -/

/-- What `put_directory` has done when it returns: one `put_file` call for each file, which has
returned; one call of the caller's function for each, if there is one; and statistics that agree
with what came of the calls, with the bytes counted in 64 bits. -/
structure Accounted (d : DirectoryUpload) (s : State n) (out : Outcome DirectoryUploadStats) :
    Prop where
  called : s.begun.Perm d.items
  returned : (s.ended.map FileUploadResult.item).Perm d.items
  told : if d.callback then s.told.Perm s.ended else s.told = []
  count : out.out.files + out.out.failed = d.items.length
  files : out.out.files = s.ended.countP fun r ↦ r.ok
  bytes : out.out.bytes = ((s.ended.filter fun r ↦ r.ok).map (·.bytes)).sum % 2 ^ 64
  ok : out.ok = true ↔ out.out.failed = 0

theorem Accounted.ok_iff_forall {d : DirectoryUpload} {s : State n}
    {out : Outcome DirectoryUploadStats} (h : Accounted d s out) :
    out.ok = true ↔ ∀ r ∈ s.ended, r.ok = true := by
  have hlength : s.ended.length = d.items.length := by
    rw [← List.length_map, h.returned.length_eq]
  have hcount := h.count
  rw [h.ok, ← List.countP_eq_length, ← h.files, hlength]
  omega

theorem Inv.accounted {s : State n} (h : Inv d s) (hn : 0 < n) {out : Outcome DirectoryUploadStats}
    (hout : s.caller = .returned out) : Accounted d s out := by
  obtain ⟨hdone, rfl⟩ := h.caller out hout
  -- workers that have ended hold nothing, so each balance becomes an equation
  have hempty : ∀ {M : Type} [Zero M] (f : Worker → M), f .done = 0 →
      ∀ w, f (s.workers w) = 0 := by
    intro M _ f hf w
    rw [hdone w, hf]
  have hall : d.items.take s.next = d.items := by
    have hworker := h.worker ⟨0, hn⟩
    rw [hdone] at hworker
    exact List.take_of_length_le hworker
  have hcalled : (↑s.begun : Multiset Item) = ↑d.items := by
    have hdrawn := h.drawn.eq (hempty _ rfl)
    rw [hall] at hdrawn
    exact hdrawn.symm
  have hreturned : (↑(s.ended.map FileUploadResult.item) : Multiset Item) = ↑d.items := by
    rw [← h.called.eq (hempty _ rfl), hcalled]
  obtain ⟨reported, hbalanced, hstats, htold⟩ := h.reported
  obtain rfl : (↑s.ended : Multiset FileUploadResult) = reported := hbalanced.eq (hempty _ rfl)
  have hfinish : (finish d s).out = s.stats := by
    rw [finish]
    split <;> rfl
  constructor
  case called => exact Multiset.coe_eq_coe.mp hcalled
  case returned => exact Multiset.coe_eq_coe.mp hreturned
  case told =>
    split
    · next hcallback =>
      rw [if_pos hcallback] at htold
      exact Multiset.coe_eq_coe.mp htold
    · next hcallback =>
      rw [if_neg hcallback] at htold
      exact Multiset.coe_eq_zero _ |>.mp htold
  case count =>
    rw [hfinish, hstats.card, Multiset.coe_card, ← List.length_map, ← Multiset.coe_card, hreturned,
      Multiset.coe_card]
  case files =>
    rw [hfinish, hstats.files]
    simp [List.countP_eq_length_filter]
  case bytes =>
    rw [hfinish, hstats.bytes]
    simp
  case ok =>
    rw [hfinish, finish]
    split
    · next hfailed => simp [hfailed]
    · next hfailed => simpa using hfailed

theorem accounted_of_reaches {d : DirectoryUpload} {s : State d.threads} (hs : d.Reaches env s)
    {out : Outcome DirectoryUploadStats} (hout : s.caller = .returned out) : Accounted d s out :=
  (inv_of_run hs).accounted d.threads_pos hout

/-- **The accounts of a directory upload.** -/
theorem accounts {env : Outside} {d : DirectoryUpload} {prefixUri dir bucket pfx : Bytes}
    {entries : List DirectoryEntry} (hsplit : splitS3Uri prefixUri false = .ok (bucket, pfx))
    (hitems : directoryItems prefixUri dir (.ok entries) = .ok d.items)
    (hdistinct : ((foundFiles entries).map FoundFile.relative).Nodup) :
    Placed bucket pfx (foundFiles entries) d.items ∧
    (∀ run : ℕ → State d.threads, run 0 = .initial →
      ¬∀ k, Step env d (run k) (run (k + 1))) ∧
    (∀ s, d.Reaches env s → (∃ s', Step env d s s') ∨ ∃ out, s.caller = .returned out) ∧
    ∀ s out, d.Reaches env s → s.caller = .returned out → Accounted d s out := by
  refine ⟨placed hsplit hitems hdistinct, fun run h0 ↦ ?_, fun s hs ↦ ?_, fun s out hs hout ↦
    accounted_of_reaches hs hout⟩
  · exact Runs.not_infinite (I := fun _ ↦ True) (μ := State.rank d.items.length)
      (fun _ _ _ _ ↦ trivial) (fun s s' _ hstep ↦ rank_step_lt s s' hstep) run trivial
  · by_cases hreturned : ∃ out, s.caller = .returned out
    · exact .inr hreturned
    · exact .inl (exists_step fun out hout ↦ hreturned ⟨out, hout⟩)

/-! ## One worker -/

theorem exists_round {s : State n} {w : Fin n} {item : Item} {out : Outcome (Option Bytes)}
    (hpc : s.workers w = .claiming) (hi : d.items[s.next]? = some item)
    (hout : ClientImpl.PutFileReturns env d.im (d.args item) out) :
    ∃ s', Relation.ReflTransGen (Step env d) s s' ∧ s'.caller = s.caller ∧
      s'.workers w = .claiming ∧ s'.next = s.next + 1 ∧
      s'.ended = s.ended ++ [item.result out] := by
  have hclaims : Relation.ReflTransGen (Step env d) s (s.claim w) :=
    .single (.worker w (.claims hpc))
  have hcalls := hclaims.tail (.worker w (.calls (State.workers_claim_self s w) hi))
  have hreturns := hcalls.tail (.worker w (.returns (State.workers_goto_self _ w _ _) hout))
  refine ⟨_, hreturns.tail (.worker w (.reports (State.workers_goto_self _ w _ _))), rfl, ?_, rfl,
    ?_⟩
  · rw [State.workers_report, State.workers_goto_self]
  · simp [State.ended, State.report, State.goto, State.claim, List.filterMap_cons,
      filterMap_return_report]

/-- A single worker uploads one file after the other, whatever comes of each. -/
theorem exists_sequential (h1 : d.threads = 1) (out : Item → Outcome (Option Bytes))
    (hout : ∀ item ∈ d.items, ClientImpl.PutFileReturns env d.im (d.args item) (out item)) :
    ∃ s total, d.Reaches env s ∧ s.caller = .returned total ∧
      s.ended = d.items.map fun item ↦ item.result (out item) := by
  -- round after round, with as many files behind it as the counter says
  let w : Fin d.threads := ⟨0, d.threads_pos⟩
  have hrounds : ∀ k ≤ d.items.length, ∃ s : State d.threads, d.Reaches env s ∧
      s.caller = .working ∧ s.workers w = .claiming ∧ s.next = k ∧
      s.ended = (d.items.take k).map fun item ↦ item.result (out item) := by
    intro k
    induction k with
    | zero => exact fun _ ↦ ⟨State.initial, .refl, rfl, rfl, rfl, rfl⟩
    | succ k ih =>
      intro hk
      obtain ⟨s, hs, hcaller, hpc, rfl, hended⟩ := ih (by omega)
      have hi : d.items[s.next]? = some d.items[s.next] := List.getElem?_eq_getElem hk
      obtain ⟨s', hs', hcaller', hpc', hnext', hended'⟩ :=
        exists_round hpc hi (hout _ (List.getElem_mem hk))
      refine ⟨s', hs.trans hs', by rw [hcaller', hcaller], hpc', hnext', ?_⟩
      rw [hended', hended, List.take_add_one, hi, List.map_append]
      rfl
  obtain ⟨s, hs, hcaller, hpc, hnext, hended⟩ := hrounds _ le_rfl
  have hquits := (hs.tail (.worker w (.claims hpc))).tail
    (.worker w (.quits (State.workers_claim_self s w) hnext.ge))
  refine ⟨_, _, hquits.tail (.joins hcaller fun v ↦ ?_), rfl, ?_⟩
  · have hv : v = w := Fin.ext (by omega)
    rw [hv, State.workers_goto_self]
  · rw [List.take_length] at hended
    simpa [State.ended, State.goto, State.claim] using hended

/-- Surroundings in which puts succeed. -/
def accepting : Outside := Outside.answering fun _ _ ↦ { code := 200 }

/-- A file of `2 ^ 63 - 1` bytes. -/
def largeFile (name : String) : FoundFile where
  path := utf8 "/d/f" ++ utf8 name
  relative := utf8 "f" ++ utf8 name
  relative_ne := by simp
  size := 2 ^ 63 - 1

def largeFiles : List DirectoryEntry :=
  [.file (largeFile "0"), .other, .file (largeFile "1"), .file (largeFile "2")]

/-- Three such files, uploaded one after the other. -/
def large : DirectoryUpload where
  im := .usEast
  items := [(largeFile "0").item (utf8 "s3://b/"), (largeFile "1").item (utf8 "s3://b/"),
    (largeFile "2").item (utf8 "s3://b/")]
  options := { concurrency := 1 }

theorem directoryItems_large :
    directoryItems (utf8 "s3://b") (utf8 "/d") (.ok largeFiles) = .ok large.items := by
  have hsplit : splitS3Uri (utf8 "s3://b") false = .ok (utf8 "b", []) := by decide
  have hcollect : collectItems (directoryBase (utf8 "b") []) (utf8 "/d") largeFiles
      = .ok large.items := by decide
  rw [directoryItems, itemsUnder, hsplit]
  dsimp only
  rw [hcollect]
  exact congrArg Except.ok (List.mergeSort_of_pairwise (by decide))

/-- The upload of a file that is found empty by then. -/
def emptied (item : Item) : FileUpload where
  im := .usEast
  uri := item.uri
  bucket := utf8 "b"
  key := item.uri.drop 7
  file := { path := item.path, content := [], size_lt := by decide }

theorem putFileReturns_large (item : Item) (hitem : item ∈ large.items) :
    ClientImpl.PutFileReturns accepting large.im (large.args item) ⟨true, none, []⟩ := by
  have htarget : ∀ item ∈ large.items,
      ClientImpl.usEast.target item.uri true = .ok (utf8 "b", item.uri.drop 7) := by decide
  have hput : ∀ item ∈ large.items,
      ((emptied item).putSingle accepting { provider := { profile := [] } } none true).1
        = ⟨true, none, []⟩ := by decide +kernel
  have haccept : ClientImpl.usEast.acceptFile (large.args item) (.regular [] (by decide))
      = .ok (emptied item) := by
    rw [ClientImpl.acceptFile, show (large.args item).uri = item.uri from rfl, htarget item hitem]
    rfl
  have hsingle : (emptied item).Single := by
    show 0 < min (max (64 <<< 20) 1) (kMaxSinglePut + 1)
    decide
  rw [← hput item hitem]
  exact .single haccept hsingle _ none true

/-- The three uploads are accounted for. -/
theorem accounts_large : ∃ s out, large.Reaches accepting s ∧ s.caller = .returned out ∧
    Accounted large s out ∧ Placed (utf8 "b") [] (foundFiles largeFiles) large.items := by
  obtain ⟨s, out, hs, hout, -⟩ :=
    exists_sequential (d := large) (by decide) (fun _ ↦ ⟨true, none, []⟩) putFileReturns_large
  have hsplit : splitS3Uri (utf8 "s3://b") false = .ok (utf8 "b", []) := by decide
  obtain ⟨hplaced, -, -, haccounted⟩ := accounts hsplit directoryItems_large (by decide)
  exact ⟨s, out, hs, hout, haccounted s out hs hout, hplaced⟩

theorem not_exact_large : ¬∀ (env : Outside) (d : DirectoryUpload) (prefixUri dir : Bytes)
    (entries : List DirectoryEntry), directoryItems prefixUri dir (.ok entries) = .ok d.items →
    ((foundFiles entries).map FoundFile.relative).Nodup → ∀ s out, d.Reaches env s →
    s.caller = .returned out →
    out.out.bytes = ((s.ended.filter fun r ↦ r.ok).map (·.bytes)).sum := by
  intro hall
  obtain ⟨s, out, hs, hout, hended⟩ :=
    exists_sequential (d := large) (by decide) (fun _ ↦ ⟨true, none, []⟩) putFileReturns_large
  have hexact := hall accepting large _ _ largeFiles directoryItems_large (by decide) s out hs hout
  have hbytes := (accounted_of_reaches hs hout).bytes
  rw [hexact, hended] at hbytes
  exact absurd hbytes (by decide)

end Directory

end Nanos3Reader
