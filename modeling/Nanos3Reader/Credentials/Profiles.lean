import Nanos3Reader.Credentials
import Nanos3Reader.Lib.Sections

/-!
# Profiles in shared files

`parse_ini_section` takes a line for a header when it begins with `[` and ends with `]`. Shared
config files allow a comment behind a header, and such a header is an ordinary line to it: the
section before goes on. What it reads is compared here with what the file says.
-/

open ByteText Sections

namespace Nanos3Reader

namespace Credentials

/-- Lines that say nothing. -/
def IsSkipped (s : Bytes) : Prop := s = [] ∨ s.head? = some 35 ∨ s.head? = some 59

instance : DecidablePred IsSkipped := fun _ ↦ inferInstanceAs (Decidable (_ ∨ _))

/-- A line `key = value`. -/
def iniPair (s : Bytes) : Option (Bytes × Bytes) :=
  (cut [61] s).map fun p ↦ (trimWs p.1, trimWs p.2)

/-! ## What the file says -/

/-- What may stand behind a header: blanks and a comment. -/
def isTrailer (s : Bytes) : Bool :=
  match s.dropWhile fun c ↦ c = 32 || c = 9 with
  | [] => true
  | c :: _ => c = 35 || c = 59

/-- The name in a header, from behind its bracket: up to the first bracket with a trailer. -/
def headerName : Bytes → Option Bytes
  | [] => none
  | c :: s => if c = 93 ∧ isTrailer s then some [] else (headerName s).map (c :: ·)

/-- The section a line opens. -/
def sharedHeader? (line : Bytes) : Option Bytes :=
  let s := trimWs line
  if s.head? = some 91 then (headerName (s.drop 1)).map trimWs else none

/-- A shared file. The lines in front of all headers are in no section. -/
def sharedFile : Reading Bytes Bytes Bytes Bytes where
  header? := sharedHeader?
  entry? line :=
    if IsSkipped (trimWs line) ∨ (sharedHeader? line).isSome then none else iniPair (trimWs line)
  start := none

/-- The value of a key in a section of a file. -/
def sharedValue (text name key : Bytes) : Option Bytes :=
  lastValue key (sharedFile.entries name (text.splitOn 10))

/-! ## What is read -/

/-- The section that `parse_ini_section` takes a line to open. -/
def readHeader? (line : Bytes) : Option Bytes :=
  let s := trimWs line
  if s.head? = some 91 ∧ s.getLast? = some 93 then some (trimWs ((s.drop 1).take (s.length - 2)))
  else none

/-- A file as `parse_ini_section` takes it. The lines in front of all headers are in the section
without a name. -/
def readFile : Reading Bytes Bytes Bytes Bytes where
  header? := readHeader?
  entry? line :=
    if IsSkipped (trimWs line) ∨ (readHeader? line).isSome then none else iniPair (trimWs line)
  start := some []

theorem iniLine_eq (name current : Bytes) (kv : Section) (line : Bytes) :
    iniLine name (current, kv) line = ((readHeader? line).getD current,
      (if some current = some name then readFile.entry? line else none).elim kv
        fun p ↦ kv.assign p.1 p.2) := by
  have hentry : readFile.entry? line
      = if IsSkipped (trimWs line) ∨ (readHeader? line).isSome then none
        else iniPair (trimWs line) := rfl
  rw [iniLine]
  dsimp only
  by_cases hskipped : IsSkipped (trimWs line)
  · have hnone : readHeader? line = none := by
      rw [readHeader?]
      refine if_neg ?_
      rintro ⟨hhead, -⟩
      rcases hskipped with h | h | h <;> simp [h] at hhead
    have hno : readFile.entry? line = none := hentry.trans (if_pos (.inl hskipped))
    rw [if_pos (show _ ∨ _ from hskipped), hnone, hno, ite_self]
    rfl
  · rw [if_neg (show ¬(_ ∨ _) from hskipped)]
    by_cases hheader : (trimWs line).head? = some 91 ∧ (trimWs line).getLast? = some 93
    · have hsome : readHeader? line
          = some (trimWs (((trimWs line).drop 1).take ((trimWs line).length - 2))) :=
        if_pos hheader
      have hno : readFile.entry? line = none := hentry.trans (if_pos (.inr (by rw [hsome]; rfl)))
      rw [if_pos hheader, hsome, hno, ite_self]
      rfl
    · have hnone : readHeader? line = none := if_neg hheader
      have hpair : readFile.entry? line = iniPair (trimWs line) :=
        hentry.trans (if_neg (by simpa [hnone] using hskipped))
      rw [if_neg hheader, hnone, hpair]
      by_cases hcurrent : current = name
      · rw [if_neg (not_not.mpr hcurrent), if_pos (congrArg some hcurrent), iniPair]
        cases cut [61] (trimWs line) <;> rfl
      · rw [if_pos hcurrent, if_neg (mt Option.some.inj hcurrent)]
        rfl

theorem foldl_iniLine (name current : Bytes) (kv : Section) (lines : List Bytes) :
    (lines.foldl (iniLine name) (current, kv)).2
      = (((readFile.withSections (some current) lines).map fun p ↦
          if p.1 = some name then readFile.entry? p.2 else none).filterMap id).foldl
          (fun kv p ↦ kv.assign p.1 p.2) kv := by
  induction lines generalizing current kv with
  | nil => rfl
  | cons line lines ih =>
    have hnext : (readFile.header? line).or (some current)
        = some ((readHeader? line).getD current) := by
      show (readHeader? line).or (some current) = _
      cases readHeader? line <;> rfl
    rw [List.foldl_cons, iniLine_eq, ih, Reading.withSections, hnext, List.map_cons]
    cases (if some current = some name then readFile.entry? line else none) with
    | none => simp only [List.filterMap_cons, id_eq, Option.elim_none]
    | some p => simp only [List.filterMap_cons, id_eq, Option.elim_some, List.foldl_cons]

theorem mem_foldl_assign (es : List (Option (Bytes × Bytes))) (key value : Bytes) :
    (key, value) ∈ (es.filterMap id).foldl (fun kv p ↦ Section.assign kv p.1 p.2) []
      ↔ lastValue key es = some value := by
  induction es using List.reverseRecOn with
  | nil => simp [lastValue]
  | append_singleton es e ih =>
    rw [List.filterMap_append, List.foldl_append]
    cases e with
    | none =>
      rw [lastValue_append_none, ← ih]
      rfl
    | some p =>
      obtain ⟨k, v⟩ := p
      have hone : ([some (k, v)] : List (Option (Bytes × Bytes))).filterMap id = [(k, v)] := rfl
      rw [lastValue_append_some, hone, List.foldl_cons, List.foldl_nil, Section.assign,
        List.mem_cons, List.mem_filter, ih]
      by_cases hkey : key = k
      · subst hkey
        simp [eq_comm]
      · simp [hkey]

/-- **What `parse_ini_section` returns.** -/
theorem mem_parseIniSection {h : Host} {path text : Bytes} (hfile : h.file path = some text)
    (name key value : Bytes) : (key, value) ∈ parseIniSection h path name
      ↔ lastValue key (readFile.entries name (text.splitOn 10)) = some value := by
  rw [parseIniSection, hfile]
  dsimp only
  rw [foldl_iniLine, mem_foldl_assign]
  rfl

/-- An entry that is read into a section it is not in, or not into the one it is in, is covered by
another one, so that it cannot be seen. -/
def Isolated (text name : Bytes) : Prop :=
  Harmless (readFile.both sharedFile name (text.splitOn 10))

theorem entries_agree (line : Bytes) : readFile.entry? line = none ∨ sharedFile.entry? line = none ∨
    readFile.entry? line = sharedFile.entry? line := by
  rw [readFile, sharedFile]
  dsimp only
  split
  · exact .inl rfl
  · split
    · exact .inr (.inl rfl)
    · exact .inr (.inr rfl)

/-- **Profiles are kept apart just when headers are not missed.** A section is read as the file has
it if and only if every entry that a header with a comment moves into it or out of it, and every one
in front of the headers of a file whose section has no name, is covered by another. -/
theorem parseIniSection_isolated_iff {h : Host} {path text : Bytes}
    (hfile : h.file path = some text) (name : Bytes) :
    (∀ key value, (key, value) ∈ parseIniSection h path name
      ↔ sharedValue text name key = some value) ↔ Isolated text name := by
  rw [Isolated, ← Reading.lastValue_entries_eq_iff entries_agree]
  refine forall_congr' fun key ↦ ?_
  simp only [mem_parseIniSection hfile, sharedValue]
  exact ⟨Option.ext, fun heq value ↦ by rw [heq]⟩

theorem isolated_of_headers {text name : Bytes} (hname : name ≠ [])
    (hheaders : ∀ line ∈ text.splitOn 10, readHeader? line = sharedHeader? line) :
    Isolated text name := by
  refine (Reading.lastValue_entries_eq_iff entries_agree name _).mp fun key ↦ ?_
  have hlines : ∀ line ∈ text.splitOn 10, readFile.header? line = sharedFile.header? line ∧
      readFile.entry? line = sharedFile.entry? line := by
    intro line hline
    refine ⟨hheaders line hline, ?_⟩
    rw [readFile, sharedFile]
    dsimp only
    rw [hheaders line hline]
  have hstart : readFile.start = some name ↔ sharedFile.start = some name :=
    iff_of_false (fun h ↦ hname (Option.some.inj h).symm) nofun
  rw [Reading.entries_congr hlines hstart]

/-- Two profiles, the second one with a comment behind its name. -/
def commentedFile : Bytes :=
  utf8 ("[default]\naws_access_key_id = A\naws_secret_access_key = S\n"
    ++ "[work] # the other account\naws_access_key_id = B\naws_secret_access_key = T\n")

/-- A machine with this file at every path. -/
def commentedHost : Host where
  getenv _ := none
  file _ := some commentedFile
  popen _ := none
  strptime _ := none
  metadata _ _ := {}

theorem work_isolated_iff :
    (∀ key value, (key, value) ∈ parseIniSection commentedHost [] (utf8 "work")
      ↔ sharedValue commentedFile (utf8 "work") key = some value)
      ↔ Isolated commentedFile (utf8 "work") :=
  parseIniSection_isolated_iff (rfl : commentedHost.file [] = some commentedFile) (utf8 "work")

/-- The keys of the other account are returned for the default profile, and none for its own. -/
theorem default_reads_work :
    parseIniSection commentedHost [] (utf8 "default")
        = [(utf8 "aws_secret_access_key", utf8 "T"), (utf8 "aws_access_key_id", utf8 "B")] ∧
      sharedValue commentedFile (utf8 "default") (utf8 "aws_access_key_id") = some (utf8 "A") ∧
      parseIniSection commentedHost [] (utf8 "work") = [] ∧
      sharedValue commentedFile (utf8 "work") (utf8 "aws_access_key_id") = some (utf8 "B") := by
  decide +kernel

end Credentials

end Nanos3Reader
