import Mathlib.Data.List.Basic
import Mathlib.Data.List.Nodup
import Mathlib.Tactic.Common

/-!
# Recency lists

A list of keyed values in the order in which the keys were last used, most recent first, each key
once. A cache that keeps the most recently used keys holds a prefix of such a list, so everything
about its replacement policy is in how using a key changes a prefix of given length. Two cases
arise: the key was already in the prefix, and then the prefix loses nothing else; or it was not,
and then a full prefix loses its last element.
-/

namespace Recency

variable {K V : Type*} [DecidableEq K]

/-- Use `k`: it becomes the most recent key, with value `v`. -/
def promote (k : K) (v : V) (l : List (K × V)) : List (K × V) :=
  (k, v) :: l.filter fun p ↦ decide (p.1 ≠ k)

theorem nodup_promote {k : K} {v : V} {l : List (K × V)} (h : (l.map Prod.fst).Nodup) :
    ((promote k v l).map Prod.fst).Nodup := by
  rw [promote, List.map_cons, List.nodup_cons]
  refine ⟨?_, h.sublist (List.filter_sublist.map _)⟩
  intro hk
  obtain ⟨p, hp, rfl⟩ := List.mem_map.mp hk
  simpa using (List.mem_filter.mp hp).2

theorem perm_cons_filter {k : K} {v : V} {l : List (K × V)} (hnd : (l.map Prod.fst).Nodup)
    (h : (k, v) ∈ l) : l.Perm ((k, v) :: l.filter fun p ↦ decide (p.1 ≠ k)) := by
  have hl : l.Nodup := List.Nodup.of_map _ hnd
  refine (List.perm_ext_iff_of_nodup hl ?_).mpr fun p ↦ ?_
  · rw [List.nodup_cons]
    exact ⟨by simp, hl.filter _⟩
  · rw [List.mem_cons, List.mem_filter, decide_eq_true_eq]
    constructor
    · intro hp
      by_cases hpk : p.1 = k
      · exact Or.inl (List.inj_on_of_nodup_map hnd hp h hpk)
      · exact Or.inr ⟨hp, hpk⟩
    · rintro (rfl | ⟨hp, -⟩)
      · exact h
      · exact hp

theorem filter_eq_self_of_notMem {k : K} {l : List (K × V)} (h : k ∉ l.map Prod.fst) :
    (l.filter fun p ↦ decide (p.1 ≠ k)) = l := by
  rw [List.filter_eq_self]
  intro p hp
  simpa using fun hpk : p.1 = k ↦ h (hpk ▸ List.mem_map_of_mem hp)

/-- Using a key that is among the first `n` leaves the other ones among the first `n`. -/
theorem take_promote_of_mem {k : K} {v : V} {n : ℕ} {l : List (K × V)}
    (hnd : (l.map Prod.fst).Nodup) (h : k ∈ (l.take n).map Prod.fst) :
    (promote k v l).take n = (k, v) :: (l.take n).filter fun p ↦ decide (p.1 ≠ k) := by
  induction l generalizing n with
  | nil => simp at h
  | cons p l ih =>
    cases n with
    | zero => simp at h
    | succ n =>
      rw [List.map_cons, List.nodup_cons] at hnd
      rw [promote, List.take_succ_cons, List.take_succ_cons, List.filter_cons, List.filter_cons]
      by_cases hp : p.1 = k
      · have hk : k ∉ l.map Prod.fst := hp ▸ hnd.1
        have hkt : k ∉ (l.take n).map Prod.fst :=
          fun hm ↦ hk ((List.take_sublist n l).map _ |>.subset hm)
        rw [if_neg (by simp [hp]), if_neg (by simp [hp]), filter_eq_self_of_notMem hk,
          filter_eq_self_of_notMem hkt]
      · rw [List.take_succ_cons, List.map_cons, List.mem_cons] at h
        have hmem : k ∈ (l.take n).map Prod.fst := h.resolve_left (Ne.symm hp)
        rw [if_pos (by simp [hp]), if_pos (by simp [hp])]
        cases n with
        | zero => simp at hmem
        | succ n =>
          have hih := ih hnd.2 hmem
          rw [promote, List.take_succ_cons, List.cons.injEq] at hih
          rw [List.take_succ_cons, hih.2]

/-- Using a key that is not among the first `n + 1` pushes the last of them out. -/
theorem take_promote_of_notMem {k : K} {v : V} {n : ℕ} {l : List (K × V)}
    (h : k ∉ (l.take (n + 1)).map Prod.fst) :
    (promote k v l).take (n + 1) = (k, v) :: l.take n := by
  rw [promote, List.take_succ_cons]
  congr 1
  induction l generalizing n with
  | nil => simp
  | cons p l ih =>
    rw [List.take_succ_cons, List.map_cons, List.mem_cons, not_or] at h
    rw [List.filter_cons, if_pos (by simpa using Ne.symm h.1)]
    cases n with
    | zero => simp
    | succ n => rw [List.take_succ_cons, List.take_succ_cons, ih h.2]

/-! ## The replacement policy

A cache of capacity `n` that keeps the most recently used keys, as a machine on the whole recency
list: what is resident is its first `n` entries, and a lookup counts as a use when it finds its key
among them. -/

/-- What a user of a keyed cache can ask for. -/
inductive Op (K V : Type*) where
  | put (k : K) (v : V)
  | get (k : K)

/-- The value of `k` among the entries of `l`. -/
def value? (k : K) (l : List (K × V)) : Option V :=
  (l.find? fun p ↦ decide (p.1 = k)).map Prod.snd

theorem value?_eq_some_iff {k : K} {v : V} {l : List (K × V)} (hnd : (l.map Prod.fst).Nodup) :
    value? k l = some v ↔ (k, v) ∈ l := by
  rw [value?, Option.map_eq_some_iff]
  constructor
  · rintro ⟨p, hp, rfl⟩
    obtain rfl : p.1 = k := by simpa using List.find?_some hp
    exact List.mem_of_find?_eq_some hp
  · intro h
    obtain ⟨p, hp⟩ : ∃ p, l.find? (fun p ↦ decide (p.1 = k)) = some p := by
      rw [← Option.isSome_iff_exists, List.find?_isSome]
      exact ⟨(k, v), h, by simp⟩
    have hpk : p.1 = k := by simpa using List.find?_some hp
    have hpv := List.inj_on_of_nodup_map hnd (List.mem_of_find?_eq_some hp) h hpk
    exact ⟨p, hp, by rw [hpv]⟩

def step (n : ℕ) (l : List (K × V)) : Op K V → Option V × List (K × V)
  | .put k v => (none, promote k v l)
  | .get k =>
    match value? k (l.take n) with
    | some v => (some v, promote k v l)
    | none => (none, l)

/-- What each operation delivers, and the recency list after all of them. -/
def run (n : ℕ) : List (K × V) → List (Op K V) → List (Option V) × List (K × V)
  | l, [] => ([], l)
  | l, op :: ops =>
    ((step n l op).1 :: (run n (step n l op).2 ops).1, (run n (step n l op).2 ops).2)

end Recency
