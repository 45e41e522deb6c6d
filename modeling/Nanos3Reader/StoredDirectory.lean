import Nanos3Reader.Client.DirectoryWalk
import Nanos3Reader.ConcurrentUploads

/-!
# Directories in a store

A call of `put_directory`, with its `put_file` calls running side by side against one service, which
other programs use as well. Each of these calls may go up in parts, with threads of its own; their
requests may be lost, repeated and served late.

The files do not change while the call goes on, and no two entries of the directory have one path.
-/

open ByteText ObjectApi Traversal

namespace Nanos3Reader

/-! ## Items and entries -/

theorem TreeEntry.of_met_eq_file {e : TreeEntry} {f : FoundFile} (h : e.met = .file f) :
    e.isRegularFile = true ∧ f.path = e.path ∧ f.relative = e.relative := by
  rw [met] at h
  split at h
  · next hregular =>
    split at h
    · cases h
    · cases h
      exact ⟨hregular, rfl, rfl⟩
  · cases h

/-- The bucket and the key that a file goes to. -/
def TreeEntry.name (bucket pfx : Bytes) (e : TreeEntry) : Bytes × Bytes :=
  (bucket, keyPrefix pfx ++ e.relative)

theorem TreeEntry.splitS3Uri_name {uri bucket pfx : Bytes}
    (hsplit : splitS3Uri uri false = .ok (bucket, pfx)) (e : TreeEntry) (needKey : Bool) :
    splitS3Uri (directoryBase bucket pfx ++ e.relative) needKey = .ok (e.name bucket pfx) := by
  obtain ⟨hne, hslash⟩ := of_splitS3Uri hsplit
  rw [directoryBase, List.append_assoc]
  exact splitS3Uri_append hne hslash (by simp [e.relative_ne]) needKey

namespace DirectoryCall

variable {c : DirectoryCall}

theorem exists_entry_of_mem {items : List Item} (hitems : c.items = .ok items) {bucket pfx : Bytes}
    (hsplit : splitS3Uri c.prefixUri false = .ok (bucket, pfx)) {item : Item}
    (hitem : item ∈ items) : ∃ e ∈ c.entries, e.isRegularFile = true ∧ item.path = e.path ∧
      item.uri = directoryBase bucket pfx ++ e.relative := by
  obtain ⟨bucket', pfx', listing, found, hsplit', hlisting, hfound, rfl⟩ :=
    items_eq_ok_iff.mp hitems
  obtain ⟨rfl, rfl⟩ : bucket = bucket' ∧ pfx = pfx' := by
    simpa using hsplit.symm.trans hsplit'
  rw [(List.mergeSort_perm _ _).mem_iff, Directory.collectItems_eq hfound] at hitem
  obtain ⟨f, hf, rfl⟩ := List.mem_map.mp hitem
  obtain ⟨x, hx, hfile⟩ := List.mem_filterMap.mp hf
  obtain ⟨y, hy, rfl⟩ := List.mem_map.mp hx
  rcases y with reason | e
  · cases hfile
  · have hmet : e.met = .file f := by
      rcases hmet : e.met with f' | _ | ⟨path, reason⟩ | reason
      · rw [comeUpon, hmet] at hfile
        exact congrArg DirectoryEntry.file (Option.some.inj hfile)
      all_goals
        rw [comeUpon, hmet] at hfile
        cases hfile
    obtain ⟨hregular, hpath, hrelative⟩ := TreeEntry.of_met_eq_file hmet
    refine ⟨e, by rw [entries, hlisting]; exact Listing.ok_mem_walk_iff.mp hy, hregular, hpath, ?_⟩
    rw [FoundFile.item, hrelative]

theorem entry_eq_of_name_eq (hdistinct : (c.entries.map TreeEntry.relative).Nodup)
    {bucket pfx : Bytes} {e e' : TreeEntry} (he : e ∈ c.entries) (he' : e' ∈ c.entries)
    (h : e.name bucket pfx = e'.name bucket pfx) : e = e' := by
  have hrelative : e.relative = e'.relative := List.append_cancel_left (Prod.mk.inj h).2
  exact List.inj_on_of_nodup_map hdistinct he he' hrelative

end DirectoryCall

namespace StoredDirectory

open ConcurrentUploads (Service Calling Status)

/-- A file to upload. -/
abbrev File (d : DirectoryUpload) := { item : Item // item ∈ d.items }

/-- The `put_file` call for a file. -/
def calls (d : DirectoryUpload) (f : File d) : Calling := ⟨d.im, d.args f.1⟩

/-- The workers, and the `put_file` calls at the service. -/
structure State (d : DirectoryUpload) where
  dir : Directory.State d.threads
  uploads : ConcurrentUploads.State (File d)

structure State.Initial {d : DirectoryUpload} (s : State d) : Prop where
  dir : s.dir = .initial
  uploads : s.uploads.Initial

section Steps

variable (env : Outside) (os : Service) (addressing : Addressing) (files : Bytes → FileStatus)
  (d : DirectoryUpload)

/-- One step: a worker goes on that has no upload going on; it starts one; the uploads go on; one of
them returns to its worker; the calling thread joins the others. -/
inductive Step : State d → State d → Prop
  | worker {s : State d} (w : Fin d.threads) (hw : ∀ item, s.dir.workers w ≠ .uploading item)
      {dir' : Directory.State d.threads} (hstep : Directory.WorkerStep env d w s.dir dir') :
      Step s { s with dir := dir' }
  | starts {s : State d} (w : Fin d.threads) (f : File d) (hw : s.dir.workers w = .uploading f.1)
      (hidle : s.uploads.status f = .idle) (opened : Option Bytes) (reads : Bool)
      (got : Credentials) (diagnostic : Bytes) (curl : Bool) :
      Step s { s with uploads := s.uploads.enter f ((calls d f).firstStatus env.sha256Raw
        s.uploads.log.length (files f.1.path) opened reads got diagnostic curl) }
  | goes {s : State d} {uploads' : ConcurrentUploads.State (File d)}
      (hgoes : ConcurrentUploads.Goes env os addressing (calls d) s.uploads uploads') :
      Step s { s with uploads := uploads' }
  | returns {s : State d} (w : Fin d.threads) (f : File d) (hw : s.dir.workers w = .uploading f.1)
      {begun ended : ℕ} {u : Option FileUpload} {out : Outcome (Option Bytes)}
      (hdone : s.uploads.status f = .done begun ended u out) :
      Step s { s with dir := s.dir.goto w (.reporting (f.1.result out))
                        [.returned (f.1.result out)] }
  | joins {s : State d} (hpc : s.dir.caller = .working)
      (hjoined : ∀ w, s.dir.workers w = .done) :
      Step s { s with dir := { s.dir with caller := .returned (Directory.finish d s.dir) } }

end Steps

/-! ## The invariant -/

section Invariant

variable {env : Outside} {os : Service} {addressing : Addressing} {files : Bytes → FileStatus}
  {d : DirectoryUpload} {s s' : State d}

structure Inv (env : Outside) (os : Service) (files : Bytes → FileStatus) (s : State d) :
    Prop where
  dir : Directory.Inv d s.dir
  uploads : ConcurrentUploads.Inv env os (calls d) s.uploads
  /-- An upload is of the file that stands there. -/
  files : ∀ f begun u, (s.uploads.status f).About begun u →
    files f.1.path = .regular u.file.content u.file.size_lt
  /-- What is told of a file is what came of its upload. -/
  ended : ∀ r ∈ s.dir.ended, ∃ f begun ended u out,
    s.uploads.status f = .done begun ended u out ∧ r = f.1.result out

theorem inv_of_initial (h : s.Initial) : Inv env os files s where
  dir := h.dir ▸ Directory.inv_initial
  uploads := ConcurrentUploads.inv_of_initial h.uploads
  files f begun u habout := by
    rw [h.uploads.status f] at habout
    exact habout.elim
  ended r hr := by
    rw [h.dir] at hr
    cases hr

theorem ended_of_workerStep {w : Fin d.threads} {dir dir' : Directory.State d.threads}
    (hstep : Directory.WorkerStep env d w dir dir')
    (hw : ∀ item, dir.workers w ≠ .uploading item) : dir'.ended = dir.ended := by
  rcases hstep with hpc | ⟨hpc, hi⟩ | ⟨hpc, hi⟩ | ⟨hpc, hout⟩ | ⟨hpc⟩
  · rfl
  · exact List.filterMap_append.trans (List.append_nil _)
  · exact List.filterMap_append.trans (List.append_nil _)
  · exact absurd hpc (hw _)
  · refine List.filterMap_append.trans ?_
    rw [Directory.filterMap_return_report, List.append_nil]
    rfl

theorem dir_returns {dir : Directory.State d.threads} (h : Directory.Inv d dir)
    {w : Fin d.threads} {item : Item} (hw : dir.workers w = .uploading item)
    (out : Outcome (Option Bytes)) : Directory.Inv d
      (dir.goto w (.reporting (item.result out)) [.returned (item.result out)]) := by
  obtain ⟨reported, hreported⟩ := h.reported
  exact h.goto (by simp [hw]) rfl rfl rfl rfl trivial (by simp [hw, List.filterMap_cons])
    (by simp [hw, List.filterMap_cons]) ⟨reported, hreported.goto (by simp [hw]) rfl⟩

/-- **Every step keeps the invariant.** -/
theorem inv_step (htools : SigningTools env.sha256Raw env.amzNow)
    (hcalls : ∀ f : File d, (calls d f).Proper addressing) (s s' : State d)
    (h : Inv env os files s) (hstep : Step env os addressing files d s s') :
    Inv env os files s' := by
  rcases hstep with ⟨w, hw, hstep⟩ | ⟨w, f, hw, hidle, opened, reads, got, diagnostic, curl⟩ |
    ⟨hstep, hidle⟩ | ⟨w, f, hw, hdone⟩ | ⟨hpc, hjoined⟩
  · refine ⟨Directory.inv_workerStep h.dir hstep, h.uploads, h.files, fun r hr ↦ h.ended r ?_⟩
    rwa [← ended_of_workerStep hstep hw]
  · have hstarts := ConcurrentUploads.inv_step htools hcalls _ _ h.uploads
      (.start f hidle (files f.1.path) opened reads got diagnostic curl)
    refine ⟨h.dir, hstarts, fun f' begun u habout ↦ ?_, fun r hr ↦ ?_⟩
    · rw [ConcurrentUploads.status_enter] at habout
      split at habout
      · next heq =>
        subst heq
        exact ConcurrentUploads.file_of_about_firstStatus habout
      · exact h.files f' begun u habout
    · obtain ⟨f', begun, ended, u, out, hdone, rfl⟩ := h.ended r hr
      refine ⟨f', begun, ended, u, out, ?_, rfl⟩
      rw [ConcurrentUploads.status_enter, if_neg, hdone]
      rintro rfl
      rw [hidle] at hdone
      cases hdone
  · refine ⟨h.dir, ConcurrentUploads.inv_step htools hcalls _ _ h.uploads hstep,
      fun f begun u habout ↦ ?_, fun r hr ↦ ?_⟩
    · refine h.files f begun u (hstep.about_of_about habout fun hbefore ↦ ?_)
      rw [hidle f hbefore] at habout
      exact habout.elim
    · obtain ⟨f, begun, ended, u, out, hdone, rfl⟩ := h.ended r hr
      exact ⟨f, begun, ended, u, out, hstep.status_of_done hdone, rfl⟩
  · refine ⟨dir_returns h.dir hw _, h.uploads, h.files, fun r hr ↦ ?_⟩
    rw [Directory.State.ended, Directory.State.goto, List.filterMap_append] at hr
    obtain hold | hnew := List.mem_append.mp hr
    · exact h.ended r hold
    · obtain rfl := List.mem_singleton.mp hnew
      exact ⟨f, _, _, _, _, hdone, rfl⟩
  · exact ⟨@Directory.inv_step _ env _ _ _ h.dir (.joins hpc hjoined), h.uploads, h.files,
      h.ended⟩

end Invariant

/-! ## What the call leaves behind -/

/-- The object holds the file from some time on, until it changes by other hands. -/
def InPlace {ι : Type*} (os : Service) (log : ConcurrentUploads.Log ι) (k : Bytes × Bytes)
    (file : FileStatus) : Prop :=
  ∃ content size_lt n, file = .regular content size_lt ∧ n ≤ log.length ∧ ∀ m, n ≤ m →
    (∀ j o, n ≤ j → j < m → log[j]? ≠ some (.changed k o)) →
      (os.before log m).objects k = some content

section Uploaded

variable {env : Outside} {os : Service} {addressing : Addressing} {files : Bytes → FileStatus}
  {c : DirectoryCall} {items : List Item} {bucket pfx : Bytes} {s s' : State (c.upload items)}

/-- What `put_directory` has done, whoever else uses the service. -/
structure Uploaded (os : Service) (c : DirectoryCall) (files : Bytes → FileStatus)
    (bucket pfx : Bytes) (s : State (c.upload items)) : Prop where
  accounted : ∀ out, s.dir.caller = .returned out →
    Directory.Accounted (c.upload items) s.dir out
  /-- A call that succeeds has put every regular file into its place. -/
  all : ∀ out, s.dir.caller = .returned out → out.ok = true → ∀ e ∈ c.entries,
    e.isRegularFile = true → InPlace os s.uploads.log (e.name bucket pfx) (files e.path)
  /-- So has a call that fails with the files that it does not report as failed. -/
  each : ∀ r ∈ s.dir.ended, r.ok = true → ∃ e ∈ c.entries, e.isRegularFile = true ∧
    r.path = e.path ∧ r.uri = directoryBase bucket pfx ++ e.relative ∧
      InPlace os s.uploads.log (e.name bucket pfx) (files e.path)
  /-- Nothing comes from it but these files, whole. -/
  origin : ∀ n k body, (os.before s.uploads.log n).objects k = some body →
    os.objects k = some body ∨ (∃ m < n, s.uploads.log[m]? = some (.changed k (some body))) ∨
      ∃ e ∈ c.entries, e.isRegularFile = true ∧ k = e.name bucket pfx ∧
        ∃ size_lt, files e.path = .regular body size_lt
  /-- Other objects stay as they are. -/
  untouched : ∀ k, (∀ e ∈ c.entries, e.isRegularFile = true → k ≠ e.name bucket pfx) → ∀ n,
    (∀ m o, m < n → s.uploads.log[m]? ≠ some (.changed k o)) →
      (os.before s.uploads.log n).objects k = os.objects k

theorem Inv.exists_entry (h : Inv env os files s) (hitems : c.items = .ok items)
    (hsplit : splitS3Uri c.prefixUri false = .ok (bucket, pfx)) {f : File (c.upload items)}
    {begun : ℕ} {u : FileUpload} (habout : (s.uploads.status f).About begun u) :
    ∃ e ∈ c.entries, e.isRegularFile = true ∧ f.1.path = e.path ∧
      f.1.uri = directoryBase bucket pfx ++ e.relative ∧ u.name = e.name bucket pfx ∧
        files e.path = .regular u.file.content u.file.size_lt := by
  obtain ⟨e, he, hfile, hpath, huri⟩ := c.exists_entry_of_mem hitems hsplit f.2
  have htarget := ((h.uploads.sound f).accepted habout).1.target
  have hname := ClientImpl.splitS3Uri_of_target htarget
  rw [show ((calls (c.upload items) f).args.uri) = f.1.uri from rfl, huri,
    e.splitS3Uri_name hsplit] at hname
  exact ⟨e, he, hfile, hpath, huri, (Except.ok.inj hname).symm,
    hpath ▸ h.files f begun u habout⟩

theorem Inv.inPlace (h : Inv env os files s) (hitems : c.items = .ok items)
    (hsplit : splitS3Uri c.prefixUri false = .ok (bucket, pfx))
    (hdistinct : (c.entries.map TreeEntry.relative).Nodup) {r : FileUploadResult}
    (hr : r ∈ s.dir.ended) (hok : r.ok = true) : ∃ e ∈ c.entries, e.isRegularFile = true ∧
      r.path = e.path ∧ r.uri = directoryBase bucket pfx ++ e.relative ∧
        InPlace os s.uploads.log (e.name bucket pfx) (files e.path) := by
  obtain ⟨f, begun, ended, u, out, hdone, rfl⟩ := h.ended r hr
  obtain ⟨v, hv, -, n, -, hlt, -, hkept⟩ := h.uploads.stored.written f begun ended u out hdone hok
  have habout : (s.uploads.status f).About begun v := by
    rw [hdone]
    exact ⟨rfl, hv⟩
  obtain ⟨e, he, hfile, hpath, huri, hname, hcontent⟩ := h.exists_entry hitems hsplit habout
  refine ⟨e, he, hfile, hpath, huri, v.file.content, v.file.size_lt, n + 1, hcontent, ?_,
    fun m hm hothers ↦ ?_⟩
  · have hsound := h.uploads.sound f
    rw [hdone] at hsound
    exact (Nat.succ_le_of_lt hlt).trans hsound.2.1
  · rw [← hname] at hothers ⊢
    refine hkept m hm (fun j o hj hjm ↦ hothers j o hj hjm) fun f' begun' w habout' hsame ↦ ?_
    -- no other file goes there
    obtain ⟨e', he', -, -, -, hname', hcontent'⟩ := h.exists_entry hitems hsplit habout'
    obtain rfl := c.entry_eq_of_name_eq hdistinct he' he (hname'.symm.trans (hsame.trans hname))
    exact (FileStatus.regular.inj (hcontent'.symm.trans hcontent))

theorem Inv.uploaded (h : Inv env os files s) (hitems : c.items = .ok items)
    (hsplit : splitS3Uri c.prefixUri false = .ok (bucket, pfx))
    (hdistinct : (c.entries.map TreeEntry.relative).Nodup) : Uploaded os c files bucket pfx s where
  accounted out hout := h.dir.accounted (c.upload items).threads_pos hout
  all out hout hok e he hfile := by
    have haccounted := h.dir.accounted (c.upload items).threads_pos hout
    obtain ⟨item, hitem, -, huri⟩ := c.exists_mem_items hitems he hfile
    -- the upload of each file has returned, and none has failed
    obtain ⟨r, hr, rfl⟩ := List.mem_map.mp (haccounted.returned.mem_iff.mpr hitem)
    obtain ⟨e', he', -, -, huri', hplace⟩ :=
      h.inPlace hitems hsplit hdistinct hr (haccounted.ok_iff_forall.mp hok r hr)
    have hrelative : e.relative = e'.relative :=
      List.append_cancel_left ((huri bucket pfx hsplit).symm.trans huri')
    obtain rfl := List.inj_on_of_nodup_map hdistinct he he' hrelative
    exact hplace
  each r hr hok := h.inPlace hitems hsplit hdistinct hr hok
  origin n k body hbody := by
    obtain hfirst | ⟨m, hm, hothers | ⟨f, begun, u, habout, -, htarget, rfl⟩⟩ :=
      h.uploads.stored.origin n k body hbody
    · exact .inl hfirst
    · exact .inr (.inl ⟨m, hm, hothers⟩)
    · obtain ⟨e, he, hfile, -, -, hname, hcontent⟩ := h.exists_entry hitems hsplit habout
      refine .inr (.inr ⟨e, he, hfile, ?_, u.file.size_lt, hcontent⟩)
      have hu := ((h.uploads.sound f).accepted habout).1.target
      rw [← hname]
      exact Except.ok.inj (htarget.symm.trans hu)
  untouched k hk n hothers := by
    refine UploadStore.Store.object_untouched n fun j e hj hevent ↦ ?_
    refine ⟨fun heq ↦ hothers j none hj (heq ▸ hevent), fun body hleaves ↦ ?_⟩
    rcases e with ⟨⟨f, call⟩, req, id, tag⟩ | ⟨k', o⟩
    · obtain ⟨begun, u, habout, -, hname, -⟩ := h.uploads.left hevent hleaves
      obtain ⟨e, he, hfile, -, -, hname', -⟩ := h.exists_entry hitems hsplit habout
      exact hk e he hfile (hname.trans hname')
    · cases hleaves
      exact hothers j _ hj hevent

theorem inv_of_run (htools : SigningTools env.sha256Raw env.amzNow)
    (haddressing : c.im.cfg.addressing c.im.cfg.region = addressing)
    (hitems : c.items = .ok items) (hsplit : splitS3Uri c.prefixUri false = .ok (bucket, pfx))
    (hroutes : ∀ e ∈ c.entries, e.isRegularFile = true →
      c.im.cfg.Routes bucket (keyPrefix pfx ++ e.relative) c.im.cfg.region)
    (hinit : s.Initial)
    (hrun : Relation.ReflTransGen (Step env os addressing files (c.upload items)) s s') :
    Inv env os files s' := by
  have hproper (f : File (c.upload items)) : (calls (c.upload items) f).Proper addressing := by
    refine ⟨haddressing, fun b k htarget ↦ ?_⟩
    obtain ⟨e, he, hfile, -, huri⟩ := c.exists_entry_of_mem hitems hsplit f.2
    have hname := ClientImpl.splitS3Uri_of_target htarget
    rw [show ((calls (c.upload items) f).args.uri) = f.1.uri from rfl, huri,
      e.splitS3Uri_name hsplit] at hname
    obtain ⟨rfl, rfl⟩ := Prod.mk.inj (Except.ok.inj hname)
    exact hroutes e he hfile
  exact Runs.invariant (inv_step htools hproper) (inv_of_initial hinit) hrun

/-- **Directories in a store.** A call that succeeds has put every regular file under its key, one
that fails those that it does not report; other objects stay as they are. -/
theorem uploaded_of_run (htools : SigningTools env.sha256Raw env.amzNow)
    (haddressing : c.im.cfg.addressing c.im.cfg.region = addressing)
    (hitems : c.items = .ok items) (hsplit : splitS3Uri c.prefixUri false = .ok (bucket, pfx))
    (hdistinct : (c.entries.map TreeEntry.relative).Nodup)
    (hroutes : ∀ e ∈ c.entries, e.isRegularFile = true →
      c.im.cfg.Routes bucket (keyPrefix pfx ++ e.relative) c.im.cfg.region)
    (hinit : s.Initial)
    (hrun : Relation.ReflTransGen (Step env os addressing files (c.upload items)) s s') :
    Uploaded os c files bucket pfx s' :=
  (inv_of_run htools haddressing hitems hsplit hroutes hinit hrun).uploaded hitems hsplit hdistinct

end Uploaded

/-! ## A worker that nothing disturbs -/

section Undisturbed

variable {env : Outside} {os : Service} {addressing : Addressing} {files : Bytes → FileStatus}
  {d : DirectoryUpload} {s : State d} {w : Fin d.threads} {f : File d} {u : FileUpload}

theorem run_of_goes (dir : Directory.State d.threads)
    {uploads uploads' : ConcurrentUploads.State (File d)}
    (h : Relation.ReflTransGen (ConcurrentUploads.Goes env os addressing (calls d)) uploads
      uploads') :
    Relation.ReflTransGen (Step env os addressing files d) ⟨dir, uploads⟩ ⟨dir, uploads'⟩ := by
  induction h with
  | refl => exact .refl
  | tail _ hgoes ih => exact ih.tail (.goes hgoes)

theorem exists_stored (htools : SigningTools env.sha256Raw env.amzNow)
    (hproper : (calls d f).Proper addressing) (hw : s.dir.workers w = .uploading f.1)
    (hidle : s.uploads.status f = .idle) (hflight : s.uploads.flight = [])
    (haccept : d.im.acceptFile (d.args f.1) (files f.1.path) = .ok u) (hsmall : u.Single)
    (hunsigned : u.options.signPayload = false) {cred : Credentials}
    (hfixed : u.im.fixedCreds = some cred) (hcred : cred.Presentable) {t : Transfer}
    (hretries : (u.singleCall []).retries t = false)
    (hwhole : ((u.singleCall []).upload t.reads).sent.length = (u.singleCall []).bodyLen)
    (hfine : (u.singleFinish env.strerror ((u.singleCall []).receive t)).ok = true) :
    ∃ uploads' begun ended out, Relation.ReflTransGen (Step env os addressing files d) s
      { s with uploads := uploads' } ∧ uploads'.flight = [] ∧
        (∀ g, g ≠ f → s.uploads.status g = .idle → uploads'.status g = .idle) ∧
          uploads'.status f = .done begun ended (some u) out ∧ out.ok = true := by
  obtain ⟨p, hpcall, hpcred, hhash, hp, hfirst⟩ :=
    @ConcurrentUploads.exists_firstStatus u env (calls d f) _ haccept hsmall hunsigned _ hfixed
      s.uploads.log.length
  let uploads := s.uploads.enter f (.asking s.uploads.log.length u p kClientRetries)
  have hstarts : Step env os addressing files d s { s with uploads := uploads } := by
    have hstep := @Step.starts env os addressing files d s w f hw hidle none true {} [] true
    rw [hfirst] at hstep
    exact hstep
  obtain ⟨uploads', ended, out, hrun, -, hempty, hdone, hok⟩ :=
    @ConcurrentUploads.exists_put (File d) env os (calls d) uploads f u _ addressing htools hproper
      (ClientImpl.of_acceptFile haccept) hflight hsmall _ p []
      (ConcurrentUploads.State.status_enter_self _ _ _) le_rfl hpcall (hpcred ▸ hcred) true hhash
      _ _ _ hp t (hpcall ▸ hretries) (hpcall ▸ hwhole) (hpcall ▸ hfine)
  refine ⟨uploads', _, ended, out, .head hstarts (run_of_goes s.dir hrun), hempty,
    fun g hne hg ↦ ConcurrentUploads.idle_of_goes hrun ?_, hdone, hok⟩
  rw [ConcurrentUploads.status_enter, if_neg hne, hg]

theorem step_worker {pc : Directory.Worker} (hpc : s.dir.workers w = pc)
    (hnot : ∀ item, pc ≠ .uploading item) {dir' : Directory.State d.threads}
    (hstep : Directory.WorkerStep env d w s.dir dir') :
    Step env os addressing files d s { s with dir := dir' } :=
  .worker w (fun item ↦ hpc ▸ hnot item) hstep

theorem step_claims (hpc : s.dir.workers w = .claiming) :
    Step env os addressing files d s { s with dir := s.dir.claim w } :=
  step_worker hpc (fun _ ↦ Directory.Worker.noConfusion) (.claims hpc)

theorem exists_drawn (hpc : s.dir.workers w = .claiming)
    (hi : d.items[s.dir.next]? = some f.1) :
    ∃ s', Relation.ReflTransGen (Step env os addressing files d) s s' ∧
      s'.uploads = s.uploads ∧ s'.dir.workers w = .uploading f.1 ∧ s'.dir.caller = s.dir.caller ∧
        s'.dir.next = s.dir.next + 1 ∧ s'.dir.ended = s.dir.ended := by
  have hchecking : (s.dir.claim w).workers w = .checking s.dir.next :=
    Directory.State.workers_claim_self _ w
  have hcalls : Step env os addressing files d { s with dir := s.dir.claim w }
      { s with dir := (s.dir.claim w).goto w (.uploading f.1) [.putFile f.1] } :=
    step_worker hchecking (fun _ ↦ Directory.Worker.noConfusion) (.calls hchecking hi)
  refine ⟨_, .head (step_claims hpc) (.single hcalls), rfl,
    Directory.State.workers_goto_self _ w _ _, rfl, rfl, ?_⟩
  exact List.filterMap_append.trans (List.append_nil _)

theorem exists_reported {begun ended : ℕ} {v : Option FileUpload} {out : Outcome (Option Bytes)}
    (hw : s.dir.workers w = .uploading f.1) (hdone : s.uploads.status f = .done begun ended v out) :
    ∃ s', Relation.ReflTransGen (Step env os addressing files d) s s' ∧
      s'.dir.workers w = .claiming ∧ s'.dir.caller = s.dir.caller ∧ s'.dir.next = s.dir.next ∧
        s'.dir.ended = s.dir.ended ++ [f.1.result out] ∧ s'.uploads = s.uploads := by
  let dir' := s.dir.goto w (.reporting (f.1.result out)) [.returned (f.1.result out)]
  have hreturns : Step env os addressing files d s { s with dir := dir' } := .returns w f hw hdone
  have hreporting : dir'.workers w = .reporting (f.1.result out) :=
    Directory.State.workers_goto_self _ w _ _
  have hnot (item : Item) : dir'.workers w ≠ .uploading item := by
    rw [hreporting]
    exact Directory.Worker.noConfusion
  let told := if d.callback then [Directory.Event.onFile (f.1.result out)] else []
  have hworker : Directory.WorkerStep env d w dir'
      ((dir'.goto w .claiming told).report (f.1.result out)) := .reports hreporting
  refine ⟨_, .head hreturns (.single (.worker w hnot hworker)),
    Directory.State.workers_goto_self dir' w .claiming told, rfl, rfl, ?_, rfl⟩
  rw [ended_of_workerStep hworker hnot]
  exact List.filterMap_append

theorem exists_returned (hone : ∀ v, v = w) (hpc : s.dir.workers w = .claiming)
    (hcaller : s.dir.caller = .working) (hnext : d.items.length ≤ s.dir.next) :
    ∃ s' out, Relation.ReflTransGen (Step env os addressing files d) s s' ∧
      s'.dir.caller = .returned out ∧ s'.dir.ended = s.dir.ended := by
  let dir' := (s.dir.claim w).goto w .done []
  have hchecking : (s.dir.claim w).workers w = .checking s.dir.next :=
    Directory.State.workers_claim_self _ w
  have hquits : Step env os addressing files d { s with dir := s.dir.claim w }
      { s with dir := dir' } :=
    step_worker hchecking (fun _ ↦ Directory.Worker.noConfusion) (.quits hchecking hnext)
  have hjoins : Step env os addressing files d { s with dir := dir' }
      { s with dir := { dir' with caller := .returned (Directory.finish d dir') } } := by
    refine .joins hcaller fun v ↦ ?_
    rw [hone v]
    exact Directory.State.workers_goto_self _ w _ _
  exact ⟨_, _, .head (step_claims hpc) (.head hquits (.single hjoins)), rfl,
    List.filterMap_append.trans (List.append_nil _)⟩

end Undisturbed

/-! ### Two files -/

open ConcurrentUploads (emptyService length_three_bytes)

/-- The upload of `/d` by one worker, with the files `/d/f` and `/d/h` and an empty directory in
it. -/
def twoFiles : DirectoryCall where
  im := .withToken (utf8 "T")
  dir := utf8 "/d"
  prefixUri := utf8 "s3://b"
  options := { concurrency := 1 }
  directory := .ok (.entry
    (DirectoryCall.foundEntry { path := utf8 "/d/f", relative := utf8 "f", relative_ne := by decide,
                                size := 3 })
    (.directory DirectoryCall.emptyEntry .ended (.entry
      (DirectoryCall.foundEntry { path := utf8 "/d/h", relative := utf8 "h",
                                  relative_ne := by decide, size := 2 }) .ended)))

def largeItem : Item := ⟨utf8 "/d/f", utf8 "s3://b/f", 3⟩

def smallItem : Item := ⟨utf8 "/d/h", utf8 "s3://b/h", 2⟩

theorem length_two_bytes : ([4, 5] : Bytes).length < 2 ^ 64 := by decide

/-- What stands in the files. -/
def fewBytes (path : Bytes) : FileStatus :=
  if path = utf8 "/d/f" then .regular [1, 2, 3] length_three_bytes
  else .regular [4, 5] length_two_bytes

/-- The upload of a file. -/
def fewBytesUpload (large : Bool) : FileUpload where
  im := .withToken (utf8 "T")
  uri := if large then utf8 "s3://b/f" else utf8 "s3://b/h"
  bucket := utf8 "b"
  key := if large then utf8 "f" else utf8 "h"
  file := if large then ⟨utf8 "/d/f", [1, 2, 3], length_three_bytes⟩
    else ⟨utf8 "/d/h", [4, 5], length_two_bytes⟩

theorem items_twoFiles : twoFiles.items = .ok [largeItem, smallItem] := by
  have hsplit : splitS3Uri twoFiles.prefixUri false = .ok (utf8 "b", []) := by decide
  exact DirectoryCall.items_eq_ok_iff.mpr ⟨utf8 "b", [], _, [largeItem, smallItem], hsplit, rfl,
    by decide, (List.mergeSort_of_pairwise (by decide)).symm⟩

theorem routes_twoFiles (large : Bool) : twoFiles.im.cfg.Routes (utf8 "b")
    (fewBytesUpload large).key (utf8 "us-east-1") where
  plainRegion := routes_usEast.plainRegion
  plainEndpoint := routes_usEast.plainEndpoint
  plainHost := routes_usEast.plainHost
  port h := absurd h (by decide)
  segments := by
    cases large <;>
    decide +kernel

theorem routes_entries_twoFiles (e : TreeEntry) (he : e ∈ twoFiles.entries)
    (hfile : e.isRegularFile = true) :
    twoFiles.im.cfg.Routes (utf8 "b") (keyPrefix [] ++ e.relative) twoFiles.im.cfg.region := by
  obtain rfl | he := List.mem_cons.mp he
  · exact routes_twoFiles true
  · obtain rfl | he := List.mem_cons.mp he
    · cases hfile
    · obtain rfl := List.mem_singleton.mp he
      exact routes_twoFiles false

section TwoFiles

/-- The upload of the directory. -/
abbrev twoUploads : DirectoryUpload := twoFiles.upload [largeItem, smallItem]

def fileOf (large : Bool) : File twoUploads :=
  ⟨if large then largeItem else smallItem, by cases large <;> simp [DirectoryCall.upload]⟩

/-- The one worker. -/
def theWorker : Fin twoUploads.threads := ⟨0, twoUploads.threads_pos⟩

theorem exists_uploaded (large : Bool) {s : State twoUploads}
    (hpc : s.dir.workers theWorker = .claiming)
    (hi : twoUploads.items[s.dir.next]? = some (fileOf large).1)
    (hidle : s.uploads.status (fileOf large) = .idle) (hflight : s.uploads.flight = []) :
    ∃ s' r, Relation.ReflTransGen (Step signing emptyService
        (.host (utf8 ".s3.us-east-1.amazonaws.com")) fewBytes twoUploads) s s' ∧
      s'.dir.workers theWorker = .claiming ∧ s'.dir.caller = s.dir.caller ∧
        s'.dir.next = s.dir.next + 1 ∧ s'.dir.ended = s.dir.ended ++ [r] ∧ r.ok = true ∧
          s'.uploads.flight = [] ∧ ∀ g, g ≠ fileOf large → s.uploads.status g = .idle →
            s'.uploads.status g = .idle := by
  let addressing : Addressing := .host (utf8 ".s3.us-east-1.amazonaws.com")
  have htarget : twoUploads.im.target (twoUploads.args (fileOf large).1).uri true
      = .ok (utf8 "b", (fewBytesUpload large).key) := by
    cases large <;>
    decide
  have haccept : twoUploads.im.acceptFile (twoUploads.args (fileOf large).1)
      (fewBytes (fileOf large).1.path) = .ok (fewBytesUpload large) := by
    rw [ClientImpl.acceptFile, htarget]
    cases large <;>
    rfl
  have hproper : (calls twoUploads (fileOf large)).Proper addressing := by
    have haddressing : twoFiles.im.cfg.addressing twoFiles.im.cfg.region = addressing := by decide
    refine ⟨haddressing, fun bucket key h ↦ ?_⟩
    cases htarget.symm.trans h
    exact routes_twoFiles large
  have hsmall : (fewBytesUpload large).Single := by
    cases large <;>
    decide +kernel
  obtain ⟨cred, hfixed, hcred⟩ : ∃ cred, (fewBytesUpload large).im.fixedCreds = some cred ∧
      cred.Presentable :=
    ⟨_, rfl, forall_mem_of_all (by decide), forall_mem_of_all (by decide)⟩
  let t : Transfer := { code := 200, reads := [{ capacity := 8 }] }
  obtain ⟨s₁, hrun₁, huploads, hpc₁, hcaller₁, hnext₁, hended₁⟩ :=
    @exists_drawn signing emptyService addressing fewBytes twoUploads s theWorker (fileOf large)
      hpc hi
  obtain ⟨uploads', begun, ended, out, hrun₂, hempty, hothers, hdone, hok⟩ :=
    @exists_stored signing emptyService addressing fewBytes twoUploads s₁ theWorker (fileOf large)
      (fewBytesUpload large) signingTools_signing hproper hpc₁ (by rw [huploads, hidle])
      (by rw [huploads, hflight]) haccept hsmall rfl cred hfixed hcred t
      (by cases large <;> decide +kernel) (by cases large <;> decide +kernel)
      (by cases large <;> decide +kernel)
  obtain ⟨s₃, hrun₃, hpc₃, hcaller₃, hnext₃, hended₃, huploads₃⟩ :=
    @exists_reported signing emptyService addressing fewBytes twoUploads
      { s₁ with uploads := uploads' } theWorker (fileOf large) begun ended _ out hpc₁ hdone
  refine ⟨s₃, (fileOf large).1.result out, hrun₁.trans (hrun₂.trans hrun₃), hpc₃,
    hcaller₃.trans hcaller₁, hnext₃.trans hnext₁, by rw [hended₃, hended₁], hok,
    by rw [huploads₃, hempty], fun g hne hg ↦ ?_⟩
  rw [huploads₃]
  exact hothers g hne (by rw [huploads, hg])

theorem exists_run_twoFiles : ∃ (s₀ s : State twoUploads) (out : Outcome DirectoryUploadStats),
    s₀.Initial ∧ Relation.ReflTransGen (Step signing emptyService
      (.host (utf8 ".s3.us-east-1.amazonaws.com")) fewBytes twoUploads) s₀ s ∧
        s.dir.caller = .returned out ∧ ∀ r ∈ s.dir.ended, r.ok = true := by
  have hone : ∀ v : Fin twoUploads.threads, v = theWorker := by
    have hthreads : twoUploads.threads = 1 := by decide
    intro v
    exact Fin.ext (Nat.lt_one_iff.mp (v.2.trans_eq hthreads))
  have hne : fileOf false ≠ fileOf true := by decide
  let s₀ : State twoUploads := ⟨.initial, [], [], fun _ ↦ .idle⟩
  obtain ⟨s₁, r₁, hrun₁, hpc₁, hcaller₁, hnext₁, hended₁, hok₁, hflight₁, hidle₁⟩ :=
    @exists_uploaded true s₀ rfl rfl rfl rfl
  obtain ⟨s₂, r₂, hrun₂, hpc₂, hcaller₂, hnext₂, hended₂, hok₂, -, -⟩ :=
    @exists_uploaded false s₁ hpc₁ (by rw [hnext₁]; rfl) (hidle₁ _ hne rfl) hflight₁
  obtain ⟨s₃, total, hrun₃, hcaller₃, hended₃⟩ :=
    @exists_returned signing emptyService _ fewBytes twoUploads s₂ theWorker hone hpc₂
      (hcaller₂.trans hcaller₁) (by rw [hnext₂, hnext₁]; exact le_rfl)
  refine ⟨s₀, s₃, total, ⟨rfl, rfl, rfl, fun _ ↦ rfl⟩, hrun₁.trans (hrun₂.trans hrun₃), hcaller₃,
    fun r hr ↦ ?_⟩
  rw [hended₃, hended₂, hended₁] at hr
  obtain rfl | hr := List.mem_cons.mp hr
  · exact hok₁
  · obtain rfl := List.mem_singleton.mp hr
    exact hok₂

end TwoFiles

theorem uploaded_twoFiles : ∃ (s : State twoUploads) (out : Outcome DirectoryUploadStats),
    s.dir.caller = .returned out ∧ out.ok = true ∧
      Uploaded emptyService twoFiles fewBytes (utf8 "b") [] s := by
  obtain ⟨s₀, s, out, hinit, hrun, hout, hall⟩ := exists_run_twoFiles
  have huploaded : Uploaded emptyService twoFiles fewBytes (utf8 "b") [] s :=
    uploaded_of_run signingTools_signing rfl items_twoFiles (by decide) (by decide)
      routes_entries_twoFiles hinit hrun
  exact ⟨s, out, hout, (huploaded.accounted out hout).ok_iff_forall.mpr hall, huploaded⟩

end StoredDirectory

end Nanos3Reader
