import Nanos3Reader.Lib.ByteText
import Nanos3Reader.Lib.Calendar

/-!
# Reading times

`strptime` of the C library, for the conversions of numeric dates and times. It is lenient: a number
may have white space before it and fewer digits than it could have, and nothing is said about what
follows the text that the format describes.
-/

open ByteText

namespace Calendar

def isDigit (c : UInt8) : Bool := 48 ≤ c && c ≤ 57

def isSpace (c : UInt8) : Bool := c = 32 || (9 ≤ c && c ≤ 13)

/-- Up to `n` more digits of a number that is `val` so far and is not to exceed `hi`. -/
def readDigits (hi : ℕ) : ℕ → ℕ → Bytes → ℕ × Bytes
  | 0, val, s => (val, s)
  | _ + 1, val, [] => (val, [])
  | n + 1, val, c :: s =>
    if val * 10 ≤ hi ∧ isDigit c then readDigits hi n (val * 10 + (c.toNat - 48)) s
    else (val, c :: s)

/-- A number from `lo` to `hi` of at most `n` digits. -/
def getNumber (lo hi n : ℕ) (s : Bytes) : Option (ℕ × Bytes) :=
  match s.dropWhile isSpace with
  | [] => none
  | c :: s =>
    if isDigit c then
      let read := readDigits hi (n - 1) (c.toNat - 48) s
      if lo ≤ read.1 ∧ read.1 ≤ hi then some read else none
    else none

/-- A conversion: the range of its number, its digits, and where it is stored. -/
structure Conversion where
  lo : ℕ
  hi : ℕ
  digits : ℕ
  store : Tm → ℕ → Tm

/-- The conversions `%Y`, `%m`, `%d`, `%H`, `%M` and `%S`. -/
def conversion (c : UInt8) : Option Conversion :=
  if c = 89 then some ⟨0, 9999, 4, fun tm n ↦ { tm with year := n - 1900 }⟩
  else if c = 109 then some ⟨1, 12, 2, fun tm n ↦ { tm with mon := n - 1 }⟩
  else if c = 100 then some ⟨1, 31, 2, fun tm n ↦ { tm with mday := n }⟩
  else if c = 72 then some ⟨0, 23, 2, fun tm n ↦ { tm with hour := n }⟩
  else if c = 77 then some ⟨0, 59, 2, fun tm n ↦ { tm with min := n }⟩
  else if c = 83 then some ⟨0, 61, 2, fun tm n ↦ { tm with sec := n }⟩
  else none

/-- `strptime`: the time, and the rest of the text. -/
def strptime : Bytes → Bytes → Tm → Option (Tm × Bytes)
  | [], s, tm => some (tm, s)
  | c :: fmt, s, tm =>
    if isSpace c then strptime fmt (s.dropWhile isSpace) tm
    else if c = 37 then
      match fmt with
      | [] => none
      | d :: fmt =>
        (conversion d).bind fun conv ↦ (getNumber conv.lo conv.hi conv.digits s).bind fun read ↦
          strptime fmt read.2 (conv.store tm read.1)
    else
      match s with
      | [] => none
      | x :: s => if x = c then strptime fmt s tm else none

theorem strptime_literal {c : UInt8} (hspace : isSpace c = false) (hc : c ≠ 37) (fmt : Bytes)
    (x : UInt8) (s : Bytes) (tm : Tm) : strptime (c :: fmt) (x :: s) tm
      = if x = c then strptime fmt s tm else none := by
  rw [strptime.eq_def]
  dsimp only
  rw [if_neg (by simp [hspace]), if_neg hc]

theorem strptime_conversion {d : UInt8} {conv : Conversion} (hconv : conversion d = some conv)
    (fmt : Bytes) {s s' : Bytes} {n : ℕ}
    (hread : getNumber conv.lo conv.hi conv.digits s = some (n, s')) (tm : Tm) :
    strptime (37 :: d :: fmt) s tm = strptime fmt s' (conv.store tm n) := by
  rw [strptime.eq_def]
  dsimp only
  rw [if_neg (by decide), if_pos rfl, hconv, Option.bind_some, hread, Option.bind_some]

/-! ## Padded numbers -/

def digit (n : ℕ) : UInt8 := UInt8.ofNat (48 + n)

def twoDigits (n : ℕ) : Bytes := [digit (n / 10), digit (n % 10)]

def fourDigits (n : ℕ) : Bytes := twoDigits (n / 100) ++ twoDigits (n % 100)

theorem digit_facts {n : ℕ} (h : n < 10) :
    isDigit (digit n) = true ∧ isSpace (digit n) = false ∧ (digit n).toNat - 48 = n := by
  have hall : ∀ n < 10, isDigit (digit n) = true ∧ isSpace (digit n) = false ∧
      (digit n).toNat - 48 = n := by decide
  exact hall n h

theorem readDigits_digit {hi n val d : ℕ} (hd : d < 10) (hval : val * 10 ≤ hi) (s : Bytes) :
    readDigits hi (n + 1) val (digit d :: s) = readDigits hi n (val * 10 + d) s := by
  obtain ⟨hdigit, -, hnat⟩ := digit_facts hd
  rw [readDigits, if_pos ⟨hval, hdigit⟩, hnat]

theorem getNumber_digit {lo hi n d : ℕ} (hd : d < 10) (s : Bytes) :
    getNumber lo hi n (digit d :: s)
      = if lo ≤ (readDigits hi (n - 1) d s).1 ∧ (readDigits hi (n - 1) d s).1 ≤ hi
        then some (readDigits hi (n - 1) d s) else none := by
  obtain ⟨hdigit, hspace, hnat⟩ := digit_facts hd
  rw [getNumber, List.dropWhile_cons_of_neg (by simp [hspace])]
  dsimp only
  rw [if_pos hdigit, hnat]

theorem getNumber_twoDigits {lo hi n : ℕ} (hlo : lo ≤ n) (hhi : n ≤ hi) (hn : n < 100) (s : Bytes) :
    getNumber lo hi 2 (twoDigits n ++ s) = some (n, s) := by
  have hread : readDigits hi 1 (n / 10) (digit (n % 10) :: s) = (n, s) := by
    rw [readDigits_digit (Nat.mod_lt _ (by decide)) (by omega), readDigits]
    exact congrArg (·, s) (by omega)
  rw [twoDigits, List.cons_append, List.cons_append, List.nil_append,
    getNumber_digit (by omega), hread, if_pos ⟨hlo, hhi⟩]

theorem getNumber_fourDigits {n : ℕ} (hn : n < 10000) (s : Bytes) :
    getNumber 0 9999 4 (fourDigits n ++ s) = some (n, s) := by
  have hread : readDigits 9999 3 (n / 100 / 10)
      (digit (n / 100 % 10) :: digit (n % 100 / 10) :: digit (n % 100 % 10) :: s) = (n, s) := by
    rw [readDigits_digit (by omega) (by omega), readDigits_digit (by omega) (by omega),
      readDigits_digit (by omega) (by omega), readDigits]
    exact congrArg (·, s) (by omega)
  have htext : fourDigits n ++ s = digit (n / 100 / 10) ::
      (digit (n / 100 % 10) :: digit (n % 100 / 10) :: digit (n % 100 % 10) :: s) := rfl
  rw [htext, getNumber_digit (by omega), hread, if_pos ⟨Nat.zero_le _, by omega⟩]

end Calendar
