import Mathlib.Data.Nat.Notation
import Mathlib.Tactic.Common

/-!
# Buffers of a fixed size

A buffer is a list whose length does not change. A write replaces as many elements as it has, from
an offset on, and is none when they do not all lie inside: what a program does then is not defined.
What is written behind what is already there makes the written part of the buffer longer.
-/

namespace Buffer

variable {α : Type*} {data done : List α}

/-- Writes `data` over `buffer` from `offset` on. -/
def write (buffer : List α) (offset : ℕ) (data : List α) : Option (List α) :=
  if offset + data.length ≤ buffer.length then
    some (buffer.take offset ++ data ++ buffer.drop (offset + data.length))
  else none

/-- A write behind the first elements of a buffer leaves these and what comes after it alone. -/
theorem write_append {rest : List α} (hdata : data.length ≤ rest.length) :
    write (done ++ rest) done.length data
      = some (done ++ data ++ rest.drop data.length) := by
  rw [write, if_pos (by simpa using hdata), List.take_left, List.drop_append]
  simp

end Buffer
