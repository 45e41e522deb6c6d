import Nanos3Reader.Client.PutDirectory
import Nanos3Reader.Lib.Strtoull

/-!
# The command line of `s3put`

`main` goes through its arguments once. Four options take a number: it is read with `strtoull`, and
goes into the upload options, cut to 32 bits for the two counts and shifted by 20 bits for the two
sizes in MiB.
-/

open ByteText Numerals Strtoull

namespace Nanos3Reader

/-- What the command line asks for. -/
structure Invocation where
  options : DirectoryUploadOptions := {}
  quiet : Bool := false
  source : Bytes := []
  dest : Bytes := []

/-- An end before any upload: the exit status, and what is written to `stderr`. -/
structure Exit where
  status : ℕ
  stderr : Bytes
deriving DecidableEq

def usage : Bytes :=
  utf8 ("usage: s3put [options] <file|directory> <s3://bucket/prefix/ | s3://bucket/key>\n"
    ++ "  -j, --jobs N                 files uploaded at once (default 8)\n"
    ++ "      --part-jobs N            parts of one large file uploaded at once (default 4)\n"
    ++ "      --multipart-threshold M  files of M MiB or more go up in parts (default 64)\n"
    ++ "      --part-size M            part size in MiB (default 16; at least 5)\n"
    ++ "      --content-type TYPE      Content-Type of every object "
    ++ "(default application/octet-stream)\n"
    ++ "      --sign-payload           sign each file's SHA-256 (reads every file twice)\n"
    ++ "  -q, --quiet                  no per-file lines, only the summary and failures\n")

/-- `parse_count`. The text that is left over is all of it where there was no number. -/
def parseCount (text : Bytes) : Option UInt64 :=
  let (out, rest) := strtoull text
  if rest ≠ text ∧ rest = [] ∧ 0 < out then some out else none

/-- The options with a number. -/
inductive CountOption where
  | jobs
  | partJobs
  | multipartThreshold
  | partSize
deriving DecidableEq

namespace CountOption

/-- The option that an argument names. -/
def ofArg (arg : Bytes) : Option CountOption :=
  if arg = utf8 "-j" ∨ arg = utf8 "--jobs" then some jobs
  else if arg = utf8 "--part-jobs" then some partJobs
  else if arg = utf8 "--multipart-threshold" then some multipartThreshold
  else if arg = utf8 "--part-size" then some partSize
  else none

/-- The options, with the number given. -/
def store (n : UInt64) (options : DirectoryUploadOptions) : CountOption → DirectoryUploadOptions
  | jobs => { options with concurrency := n.toUInt32.toNat }
  | partJobs => { options with file := { options.file with partConcurrency := n.toUInt32.toNat } }
  | multipartThreshold =>
    { options with file := { options.file with multipartThreshold := (n <<< 20).toNat } }
  | partSize => { options with file := { options.file with partSize := (n <<< 20).toNat } }

/-- What the options hold. -/
def held (options : DirectoryUploadOptions) : CountOption → ℕ
  | jobs => options.concurrency
  | partJobs => options.file.partConcurrency
  | multipartThreshold => options.file.multipartThreshold
  | partSize => options.file.partSize

/-- The unit of the number. -/
def scale : CountOption → ℕ
  | jobs | partJobs => 1
  | multipartThreshold | partSize => kMiB

/-- What the field has room for. -/
def limit : CountOption → ℕ
  | jobs | partJobs => 2 ^ 32
  | multipartThreshold | partSize => 2 ^ 64

/-- The pass of the loop for the option `arg` with the argument `text`. -/
def take (o : CountOption) (arg text : Bytes) (inv : Invocation) : Except Exit Invocation :=
  match parseCount text with
  | none => .error ⟨2, utf8 "s3put: " ++ arg ++ utf8 " needs a positive number\n"⟩
  | some n => .ok { inv with options := o.store n inv.options }

end CountOption

/-- The pass of the loop for an argument without a value. -/
def takeWord (arg : Bytes) (inv : Invocation) : Except Exit Invocation :=
  if arg = utf8 "--sign-payload" then
    .ok { inv with options.file.signPayload := true }
  else if arg = utf8 "-q" ∨ arg = utf8 "--quiet" then .ok { inv with quiet := true }
  else if arg = utf8 "-h" ∨ arg = utf8 "--help" then .error ⟨0, usage⟩
  else if arg.head? = some 45 ∧ arg ≠ utf8 "-" then
    .error ⟨2, utf8 "s3put: unknown option " ++ arg ++ utf8 "\n" ++ usage⟩
  else if inv.source = [] then .ok { inv with source := arg }
  else if inv.dest = [] then .ok { inv with dest := arg }
  else .error ⟨2, usage⟩

/-- The loop of `main` over the arguments, and the check behind it. -/
def parseArgs : List Bytes → Invocation → Except Exit Invocation
  | [], inv => if inv.source = [] ∨ inv.dest = [] then .error ⟨2, usage⟩ else .ok inv
  | arg :: args, inv =>
    match CountOption.ofArg arg, args with
    | some _, [] => .error ⟨2, utf8 "s3put: " ++ arg ++ utf8 " needs a positive number\n"⟩
    | some o, text :: args =>
      match o.take arg text inv with
      | .error e => .error e
      | .ok inv => parseArgs args inv
    | none, args =>
      if arg = utf8 "--content-type" then
        match args with
        | [] => .error ⟨2, utf8 "s3put: --content-type needs a value\n"⟩
        | value :: args => parseArgs args { inv with options.file.contentType := value }
      else
        match takeWord arg inv with
        | .error e => .error e
        | .ok inv => parseArgs args inv

/-- The texts that an option is given on a command line, in order. -/
def CountOption.given (o : CountOption) : List Bytes → List Bytes
  | [] => []
  | arg :: args =>
    match CountOption.ofArg arg, args with
    | some _, [] => []
    | some o', text :: args => if o' = o then text :: o.given args else o.given args
    | none, args =>
      if arg = utf8 "--content-type" then
        match args with
        | [] => []
        | _ :: args => o.given args
      else o.given args

/-! ## What `parse_count` takes -/

/-- **`parse_count`** takes blanks, a sign and digits, for a number that is not zero. -/
theorem parseCount_eq_some_iff {text : Bytes} {n : UInt64} : parseCount text = some n ↔
    ∃ blanks sign digits, IsIntegerText text blanks sign digits ∧ 0 < value digits ∧
      n = saturate (decide (sign = [45])) (value digits) := by
  rw [parseCount]
  dsimp only
  constructor
  · intro h
    split at h
    · next hcount =>
      obtain ⟨hne, hrest, hpos⟩ := hcount
      obtain ⟨blanks, sign, digits, htext⟩ := exists_isIntegerText hrest (hrest ▸ hne.symm)
      rw [htext.strtoull_eq] at h hpos
      exact ⟨blanks, sign, digits, htext, saturate_pos_iff.mp (UInt64.lt_iff_toNat_lt.mp hpos),
        (Option.some.inj h).symm⟩
    · cases h
  · rintro ⟨blanks, sign, digits, htext, hpos, rfl⟩
    have hne : [] ≠ text := fun hnil ↦ by
      have hdigits := htext.eq
      rw [← hnil] at hdigits
      exact htext.numeral.1 (List.append_eq_nil_iff.mp (List.append_eq_nil_iff.mp hdigits.symm).2).2
    rw [htext.strtoull_eq]
    exact if_pos ⟨hne, rfl, UInt64.lt_iff_toNat_lt.mpr (saturate_pos_iff.mpr hpos)⟩

namespace CountOption

variable (o : CountOption)

theorem scale_pos : 0 < o.scale := by
  cases o <;> decide

theorem limit_le : o.limit ≤ 2 ^ 64 := by
  cases o <;> decide

/-- What an option holds of a number: the number in its unit, as far as there is room. -/
theorem held_store (n : UInt64) (options : DirectoryUploadOptions) :
    held (o.store n options) o = n.toNat * o.scale % o.limit := by
  have hshift : (n <<< 20).toNat = n.toNat * kMiB % 2 ^ 64 := by
    rw [UInt64.toNat_shiftLeft, Nat.shiftLeft_eq, show (20 : UInt64).toNat % 64 = 20 from by decide,
      show kMiB = 2 ^ 20 from by decide]
  rcases o with _ | _ | _ | _
  · rw [store, held, scale, limit, UInt64.toNat_toUInt32, mul_one]
  · rw [store, held, scale, limit, UInt64.toNat_toUInt32, mul_one]
  · rw [store, held, scale, limit, hshift]
  · rw [store, held, scale, limit, hshift]

theorem held_store_of_ne {o' : CountOption} (hne : o' ≠ o) (n : UInt64)
    (options : DirectoryUploadOptions) : held (o'.store n options) o = held options o := by
  cases o' <;> cases o <;> simp_all [store, held]

theorem held_of_takeWord {arg : Bytes} {inv inv' : Invocation} (h : takeWord arg inv = .ok inv') :
    held inv'.options o = held inv.options o := by
  rw [takeWord] at h
  split_ifs at h
  all_goals
    cases h
    cases o <;> rfl

/-! ## What an option comes to hold -/

/-- A decimal integer: digits, and in front of them the blanks and the sign that `form` allows. The
option holds it, and it is not zero. -/
def Exact (form : Bytes → Bytes → Prop) (text : Bytes) (options : DirectoryUploadOptions) : Prop :=
  ∃ blanks sign digits, IsIntegerText text blanks sign digits ∧ form blanks sign ∧
    0 < value digits ∧ held options o = value digits * o.scale

/-- A text that `strtoull` takes for a positive number is of the form, and there is room for it. -/
def Fits (form : Bytes → Bytes → Prop) (text : Bytes) : Prop :=
  ∀ blanks sign digits, IsIntegerText text blanks sign digits → 0 < value digits →
    form blanks sign ∧ value digits * o.scale < o.limit

theorem toNat_saturate_mul_mod_eq_iff (n : ℕ) :
    (saturate false n).toNat * o.scale % o.limit = n * o.scale ↔ n * o.scale < o.limit := by
  have hpos : 0 < o.limit := by cases o <;> decide
  constructor
  · intro h
    rw [← h]
    exact Nat.mod_lt _ hpos
  · intro h
    have hn : n < 2 ^ 64 := calc
      n ≤ n * o.scale := Nat.le_mul_of_pos_right n o.scale_pos
      _ < o.limit := h
      _ ≤ 2 ^ 64 := o.limit_le
    rw [toNat_saturate_of_lt hn, Nat.mod_eq_of_lt h]

variable {o} {form : Bytes → Bytes → Prop} {text : Bytes}

theorem exact_store_iff (hform : ∀ blanks, ¬form blanks [45]) {n : UInt64}
    (hcount : parseCount text = some n) {options : DirectoryUploadOptions}
    (hheld : held options o = n.toNat * o.scale % o.limit) :
    o.Exact form text options ↔ o.Fits form text := by
  obtain ⟨blanks, sign, digits, htext, hpos, rfl⟩ := parseCount_eq_some_iff.mp hcount
  have hsign : form blanks sign → decide (sign = [45]) = false := by
    intro h
    refine decide_eq_false ?_
    rintro rfl
    exact hform blanks h
  constructor
  · rintro ⟨blanks', sign', digits', htext', hshape, -, hexact⟩ blanks'' sign'' digits'' htext'' -
    obtain ⟨rfl, rfl, rfl⟩ := htext.unique htext'
    obtain ⟨rfl, rfl, rfl⟩ := htext.unique htext''
    rw [hheld, hsign hshape, toNat_saturate_mul_mod_eq_iff] at hexact
    exact ⟨hshape, hexact⟩
  · intro hfits
    obtain ⟨hshape, hroom⟩ := hfits blanks sign digits htext hpos
    refine ⟨blanks, sign, digits, htext, hshape, hpos, ?_⟩
    rw [hheld, hsign hshape, toNat_saturate_mul_mod_eq_iff]
    exact hroom

theorem take_eq_ok_iff {arg : Bytes} {inv inv' : Invocation} : o.take arg text inv = .ok inv' ↔
    ∃ n, parseCount text = some n ∧ inv' = { inv with options := o.store n inv.options } := by
  rw [take]
  rcases parseCount text with _ | n
  · exact ⟨nofun, nofun⟩
  · constructor
    · intro h
      exact ⟨n, rfl, (Except.ok.inj h).symm⟩
    · rintro ⟨n', hn, rfl⟩
      rw [Option.some.inj hn]

/-- A whole command line: the option holds the last number it is given; by induction along the
loop. -/
theorem held_of_parseArgs (o : CountOption) (args : List Bytes) (inv : Invocation)
    {inv' : Invocation} (h : parseArgs args inv = .ok inv') :
    (o.given args = [] → held inv'.options o = held inv.options o) ∧
      ∀ text ∈ (o.given args).getLast?, ∃ n, parseCount text = some n ∧
        held inv'.options o = n.toNat * o.scale % o.limit := by
  fun_induction parseArgs args inv with
  | case1 => cases h
  | case2 =>
    cases h
    exact ⟨fun _ ↦ rfl, nofun⟩
  | case3 => cases h
  | case4 => cases h
  | case5 arg inv o' text args harg inv₁ htake ih =>
    obtain ⟨n, hcount, rfl⟩ := take_eq_ok_iff.mp htake
    obtain ⟨hnone, hlast⟩ := ih h
    rw [given.eq_def]
    dsimp only
    rw [harg]
    dsimp only
    split
    · next heq =>
      subst heq
      refine ⟨nofun, ?_⟩
      -- the text counts where none follows
      rcases hgiven : o'.given args with _ | ⟨text', texts⟩
      · rintro _ ⟨⟩
        exact ⟨n, hcount, by rw [hnone hgiven, held_store]⟩
      · rw [List.getLast?_cons_cons, ← hgiven]
        exact hlast
    · next hne =>
      refine ⟨fun hgiven ↦ ?_, hlast⟩
      rw [hnone hgiven, held_store_of_ne o hne]
  | case6 => cases h
  | case7 inv value args harg ih =>
    obtain ⟨hnone, hlast⟩ := ih h
    rw [given.eq_def]
    dsimp only
    rw [harg]
    dsimp only
    rw [if_pos rfl]
    refine ⟨fun hgiven ↦ ?_, hlast⟩
    rw [hnone hgiven]
    cases o <;> rfl
  | case8 => cases h
  | case9 arg args inv harg hcontent inv₁ hword ih =>
    obtain ⟨hnone, hlast⟩ := ih h
    rw [given.eq_def]
    dsimp only
    rw [harg]
    dsimp only
    rw [if_neg hcontent]
    refine ⟨fun hgiven ↦ ?_, hlast⟩
    rw [hnone hgiven, o.held_of_takeWord hword]

theorem parseArgs_of_ofArg {arg : Bytes} (harg : ofArg arg = some o) (text : Bytes)
    (args : List Bytes) (inv : Invocation) :
    parseArgs (arg :: text :: args) inv = (o.take arg text inv).bind (parseArgs args) := by
  rw [parseArgs.eq_def]
  dsimp only
  rw [harg]
  dsimp only
  rcases o.take arg text inv with e | inv'
  · rfl
  · rfl

theorem parseArgs_source_dest {arg : Bytes} (harg : ofArg arg = some o) {n : UInt64}
    (hcount : parseCount text = some n) :
    parseArgs [arg, text, utf8 "run", utf8 "s3://b/p"] {}
      = .ok ⟨o.store n {}, false, utf8 "run", utf8 "s3://b/p"⟩ := by
  rw [parseArgs_of_ofArg harg, take, hcount]
  rfl

/-- **Where the number options are exact.** An option with a number rejects its text or holds just
the number there, in every pass of the loop and behind the whole of it, if and only if the text is
one that `strtoull` does not take for a positive number, or one of the form of a decimal integer for
which the field has room. This is so whatever blanks and signs the form allows, apart from a minus
sign. -/
theorem countOptions_exact_iff (o : CountOption) {form : Bytes → Bytes → Prop}
    (hform : ∀ blanks, ¬form blanks [45]) :
    (∀ arg text args inv, ofArg arg = some o →
      parseArgs (arg :: text :: args) inv = (o.take arg text inv).bind (parseArgs args)) ∧
    (∀ arg text inv,
      ((∃ e, o.take arg text inv = .error e ∧ e.status = 2) ∨
        ∃ inv', o.take arg text inv = .ok inv' ∧ o.Exact form text inv'.options) ↔
      o.Fits form text) ∧
    ∀ args inv, parseArgs args {} = .ok inv → ∀ text ∈ (o.given args).getLast?,
      (o.Exact form text inv.options ↔ o.Fits form text) := by
  refine ⟨fun arg text args inv harg ↦ ?_, fun arg text inv ↦ ?_,
    fun args inv hargs text htext ↦ ?_⟩
  · exact parseArgs_of_ofArg harg text args inv
  · rcases hcount : parseCount text with _ | n
    · refine iff_of_true (.inl ⟨_, by rw [take, hcount], rfl⟩) ?_
      intro blanks sign digits hparts hpos
      rw [parseCount_eq_some_iff.mpr ⟨blanks, sign, digits, hparts, hpos, rfl⟩] at hcount
      cases hcount
    · rw [← exact_store_iff hform hcount (o.held_store n inv.options), take, hcount]
      simp
  · obtain ⟨n, hcount, hheld⟩ := (held_of_parseArgs o args {} hargs).2 text htext
    exact exact_store_iff hform hcount hheld

/-- Eight jobs are eight jobs. -/
theorem jobs_eight :
    (∃ e, jobs.take (utf8 "-j") (utf8 "8") {} = .error e ∧ e.status = 2) ∨
      ∃ inv, jobs.take (utf8 "-j") (utf8 "8") {} = .ok inv ∧
        jobs.Exact (fun blanks sign ↦ blanks = [] ∧ sign = []) (utf8 "8") inv.options := by
  have height : IsIntegerText (utf8 "8") [] [] (utf8 "8") := isIntegerText_self (by decide)
  refine ((countOptions_exact_iff jobs fun _ ↦ by simp).2.1 _ _ _).mpr ?_
  intro blanks sign digits hparts _
  obtain ⟨rfl, rfl, rfl⟩ := height.unique hparts
  exact ⟨⟨rfl, rfl⟩, by decide⟩

/-- More jobs than 32 bits have room for are none, and less than no jobs are many. -/
theorem jobs_inexact :
    (∃ inv, parseArgs [utf8 "--jobs", utf8 "4294967296", utf8 "run", utf8 "s3://b/p"] {} = .ok inv ∧
      inv.options.concurrency = 0 ∧ ∀ form, ¬jobs.Exact form (utf8 "4294967296") inv.options) ∧
    ∃ inv, parseArgs [utf8 "--jobs", utf8 "-1", utf8 "run", utf8 "s3://b/p"] {} = .ok inv ∧
      inv.options.concurrency = 2 ^ 32 - 1 ∧
      ∀ form, (∀ blanks, ¬form blanks [45]) → ¬jobs.Exact form (utf8 "-1") inv.options := by
  have hbig : IsIntegerText (utf8 "4294967296") [] [] (utf8 "4294967296") :=
    isIntegerText_self (by decide)
  have hminus : IsIntegerText (utf8 "-1") [] [45] (utf8 "1") :=
    ⟨by decide, nofun, by decide, by decide⟩
  refine ⟨⟨_, parseArgs_source_dest (o := jobs) (by decide) (parseCount_eq_some_iff.mpr
      ⟨_, _, _, hbig, by decide, rfl⟩), by decide, ?_⟩,
    ⟨_, parseArgs_source_dest (o := jobs) (by decide) (parseCount_eq_some_iff.mpr
      ⟨_, _, _, hminus, by decide, rfl⟩), by decide, ?_⟩⟩
  · rintro form ⟨_, _, digits, -, -, hpos, hheld⟩
    have hzero : value digits * jobs.scale = 0 := hheld.symm.trans (by decide)
    exact (Nat.mul_pos hpos jobs.scale_pos).ne' hzero
  · rintro form hform ⟨blanks, sign, digits, hparts, hshape, -⟩
    obtain ⟨-, rfl, -⟩ := hminus.unique hparts
    exact hform _ hshape

end CountOption

end Nanos3Reader
