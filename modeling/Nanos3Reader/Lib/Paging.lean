import Mathlib.Data.Nat.Notation
import Mathlib.Data.Option.Basic
import Mathlib.Tactic.Common

/-!
# Paging through what changes

A reader goes through entries in the order of their names, page after page: a page has all entries
behind a cursor, up to a bound that is the next cursor. The entries change meanwhile, so that each
page is one of what is there at its own time. What is there all the time is met, what is met was
there at some time, and nothing is met twice.
-/

namespace Paging

variable {ε α : Type*} [LT α] [LE α] [Std.IsLinearOrder α] [Std.LawfulOrderLT α] {name : ε → α}

/-- A name behind a cursor; every name is behind none. -/
def Past (cursor : Option α) (x : α) : Prop := ∀ y ∈ cursor, y < x

/-- In the order of the names, each of which occurs once. -/
def Sorted (name : ε → α) (entries : List ε) : Prop := entries.Pairwise fun a b ↦ name a < name b

/-- All entries behind a cursor, up to a bound if there is one. -/
structure Page (name : ε → α) (there : ε → Prop) (cursor : Option α) (entries : List ε)
    (bound : Option α) : Prop where
  sorted : Sorted name entries
  mem_iff : ∀ e, e ∈ entries ↔ there e ∧ Past cursor (name e) ∧ ∀ y ∈ bound, name e ≤ y

/-- The pages from a cursor on, each of what is there at a time between `t` and `t'`. -/
inductive Walk (name : ε → α) (there : ℕ → ε → Prop) : Option α → ℕ → List (List ε) → ℕ → Prop
  | last {cursor : Option α} {t m t' : ℕ} {entries : List ε} (hm : t ≤ m) (hm' : m < t')
      (hpage : Page name (there m) cursor entries none) : Walk name there cursor t [entries] t'
  | more {cursor : Option α} {t m t₁ t' : ℕ} {entries : List ε} {y : α} {pages : List (List ε)}
      (hm : t ≤ m) (hm' : m < t₁) (hpage : Page name (there m) cursor entries (some y))
      (hy : Past cursor y) (hrest : Walk name there (some y) t₁ pages t') :
      Walk name there cursor t (entries :: pages) t'

namespace Walk

variable {there : ℕ → ε → Prop} {cursor : Option α} {t t' : ℕ} {pages : List (List ε)}

omit [Std.IsLinearOrder α] [Std.LawfulOrderLT α] in
theorem lt (h : Walk name there cursor t pages t') : t < t' := by
  induction h with
  | last hm hm' => omega
  | more hm hm' _ _ _ ih => omega

theorem past (h : Walk name there cursor t pages t') :
    ∀ e ∈ pages.flatten, Past cursor (name e) := by
  induction h with
  | last _ _ hpage =>
    intro e he
    rw [List.flatten_singleton] at he
    exact ((hpage.mem_iff e).mp he).2.1
  | more _ _ hpage hy _ ih =>
    intro e he
    rw [List.flatten_cons, List.mem_append] at he
    rcases he with he | he
    · exact ((hpage.mem_iff e).mp he).2.1
    · exact fun x hx ↦ Std.lt_trans (hy x hx) (ih e he _ rfl)

/-- **Nothing is met twice**, and all in order. -/
theorem sorted (h : Walk name there cursor t pages t') : Sorted name pages.flatten := by
  induction h with
  | last _ _ hpage =>
    rw [List.flatten_singleton]
    exact hpage.sorted
  | more _ _ hpage _ hrest ih =>
    rw [List.flatten_cons]
    refine List.pairwise_append.mpr ⟨hpage.sorted, ih, fun a ha b hb ↦ ?_⟩
    have hle := ((hpage.mem_iff a).mp ha).2.2 _ rfl
    exact Std.lt_of_le_of_lt hle (hrest.past b hb _ rfl)

omit [Std.IsLinearOrder α] [Std.LawfulOrderLT α] in
/-- **What is met was there.** -/
theorem was_there (h : Walk name there cursor t pages t') :
    ∀ e ∈ pages.flatten, ∃ m, t ≤ m ∧ m < t' ∧ there m e := by
  induction h with
  | last hm hm' hpage =>
    intro e he
    rw [List.flatten_singleton] at he
    exact ⟨_, hm, hm', ((hpage.mem_iff e).mp he).1⟩
  | more hm hm' hpage _ hrest ih =>
    intro e he
    have hlt := hrest.lt
    rw [List.flatten_cons, List.mem_append] at he
    rcases he with he | he
    · exact ⟨_, hm, by omega, ((hpage.mem_iff e).mp he).1⟩
    · obtain ⟨m, hle, hlt', hthere⟩ := ih e he
      exact ⟨m, by omega, hlt', hthere⟩

/-- **What is there all the time is met.** -/
theorem met (h : Walk name there cursor t pages t') {x : α} (hx : Past cursor x)
    (hthere : ∀ m, t ≤ m → m < t' → ∃ e, there m e ∧ name e = x) :
    ∃ e ∈ pages.flatten, name e = x := by
  induction h with
  | last hm hm' hpage =>
    obtain ⟨e, he, rfl⟩ := hthere _ hm hm'
    refine ⟨e, ?_, rfl⟩
    rw [List.flatten_singleton]
    exact (hpage.mem_iff e).mpr ⟨he, hx, by simp⟩
  | @more cursor t m t₁ t' entries y pages hm hm' hpage _ hrest ih =>
    have hlt := hrest.lt
    rw [List.flatten_cons]
    by_cases hle : x ≤ y
    · obtain ⟨e, he, rfl⟩ := hthere m hm (by omega)
      have hmem : e ∈ entries := (hpage.mem_iff e).mpr ⟨he, hx, fun z hz ↦ by
        obtain rfl := Option.mem_some.mp hz
        exact hle⟩
      exact ⟨e, List.mem_append_left _ hmem, rfl⟩
    · have hpast : Past (some y) x := fun z hz ↦ by
        obtain rfl := Option.mem_some.mp hz
        exact Std.not_le.mp hle
      obtain ⟨e, he, heq⟩ := ih hpast fun m hle hlt ↦ hthere m (by omega) hlt
      exact ⟨e, List.mem_append_right _ he, heq⟩

end Walk

end Paging
