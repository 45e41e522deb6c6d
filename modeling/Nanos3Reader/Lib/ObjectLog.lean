import Nanos3Reader.Lib.ConditionalWrite
import Nanos3Reader.Lib.History
import Mathlib.Logic.Function.Basic

/-!
# A store of objects and its log

A store holds one version at most of every object. It serves accesses one after the other, and
objects also change by other hands. What has happened is its log, and what it held and what it
answered at any time is read off the log.

Calls that run side by side meet in the log: a request of a call is served at some place in it, if
at all, and what the call learns is what was true there.
-/

open ConditionalWrite

namespace ObjectLog

variable {ι K T B : Type*}

/-- A version of an object. -/
structure Object (T B : Type*) where
  tag : T
  body : List B

/-- The objects of a store, by name. -/
abbrev Objects (K T B : Type*) := K → Option (Object T B)

/-- What a store is asked for: the size of an object, bytes of it from the first to the last, a
write under a condition. -/
inductive Access (K T B : Type*) where
  | size (k : K)
  | read (k : K) (range : Option (ℕ × ℕ))
  | write (k : K) (condition : Condition T) (body : List B)

inductive Answer (B : Type*) where
  | size (n : ℕ)
  | part (bytes : List B)
  | whole (bytes : List B)
  | pastEnd
  | missing
  | written
  | refused

/-- The bytes of a range, which means nothing if it ends before it starts. -/
def Object.bytes (o : Object T B) : Option (ℕ × ℕ) → Answer B
  | none => .whole o.body
  | some (first, last) =>
    if last < first then .whole o.body
    else if first < o.body.length then .part ((o.body.drop first).take (last + 1 - first))
    else .pastEnd

/-- What happens to a store: it serves an access, and tags a version that this leaves behind; or an
object changes otherwise. -/
inductive Event (ι K T B : Type*) where
  | served (author : ι) (access : Access K T B) (tag : T)
  | changed (k : K) (o : Option (Object T B))

/-- An event that leaves a version of `k` behind, or none, if it changes anything. -/
def Event.Touches (k : K) : Event ι K T B → Prop
  | .served _ (.write k' _ _) _ => k' = k
  | .changed k' _ => k' = k
  | _ => False

namespace Objects

variable [DecidableEq K] [DecidableEq T] (os : Objects K T B)

def tag (k : K) : Option T := (os k).map Object.tag

def answer : Access K T B → Answer B
  | .size k =>
    match os k with
    | none => .missing
    | some o => .size o.body.length
  | .read k range =>
    match os k with
    | none => .missing
    | some o => o.bytes range
  | .write k condition _ => if condition.Admits (os.tag k) then .written else .refused

/-- The objects after one event. -/
def next : Event ι K T B → Objects K T B
  | .served _ (.write k condition body) tag =>
    if condition.Admits (os.tag k) then Function.update os k (some ⟨tag, body⟩) else os
  | .served _ _ _ => os
  | .changed k o => Function.update os k o

/-- The objects as the event at the place `n` of the log finds them. -/
def before (log : List (Event ι K T B)) (n : ℕ) : Objects K T B := History.before next os log n

/-! ## Places in a log -/

variable {os} {log more : List (Event ι K T B)} {k : K} {n : ℕ}

theorem before_append (hn : n ≤ log.length) : os.before (log ++ more) n = os.before log n :=
  History.before_append hn

theorem before_succ {e : Event ι K T B} (h : log[n]? = some e) :
    os.before log (n + 1) = (os.before log n).next e := History.before_succ h

theorem next_of_not_touches {e : Event ι K T B} (h : ¬e.Touches k) : os.next e k = os k := by
  rcases e with ⟨author, access, tag⟩ | ⟨k', o⟩
  · rcases access with k' | ⟨k', range⟩ | ⟨k', condition, body⟩
    · rfl
    · rfl
    · rw [next]
      split
      · exact Function.update_of_ne (fun heq ↦ h heq.symm) _ _
      · rfl
  · exact Function.update_of_ne (fun heq ↦ h heq.symm) _ _

theorem next_of_admits {author : ι} {condition : Condition T} {body : List B} {tag : T}
    (h : condition.Admits (os.tag k)) :
    os.next (.served author (.write k condition body) tag) k = some ⟨tag, body⟩ := by
  rw [next, if_pos h, Function.update_self]

theorem next_write (author : ι) (condition : Condition T) (body : List B) (tag : T) :
    os.next (.served author (.write k condition body) tag) k = some ⟨tag, body⟩ ∨
      os.next (.served author (.write k condition body) tag) k = os k := by
  by_cases h : condition.Admits (os.tag k)
  · exact .inl (next_of_admits h)
  · exact .inr (by rw [next, if_neg h])

/-- **What an object holds was put there**: it was there at first, or one of the events before
left it behind. -/
theorem origin (n : ℕ) {o : Object T B} (h : os.before log n k = some o) :
    os k = some o ∨ ∃ m < n, log[m]? = some (.changed k (some o)) ∨
      ∃ author condition, log[m]? = some (.served author (.write k condition o.body) o.tag) := by
  refine (History.exists_event (P := fun os : Objects K T B ↦ os k = some o) n h).imp_right ?_
  rintro ⟨m, hm, e, hevent, hnot, hnext⟩
  refine ⟨m, hm, ?_⟩
  have htouches : e.Touches k := by
    by_contra hother
    exact hnot ((next_of_not_touches hother).symm.trans hnext)
  rcases e with ⟨author, access, tag⟩ | ⟨k', o'⟩
  · rcases access with k' | ⟨k', range⟩ | ⟨k', condition, body⟩
    · exact htouches.elim
    · exact htouches.elim
    · obtain rfl : k' = k := htouches
      rcases (os.before log m).next_write (k := k') author condition body tag with hleft | hleft
      · obtain rfl := Option.some.inj (hleft.symm.trans hnext)
        exact .inr ⟨author, condition, hevent⟩
      · exact absurd (hleft.symm.trans hnext) hnot
  · obtain rfl : k' = k := htouches
    rw [next, Function.update_self] at hnext
    subst hnext
    exact .inl hevent

/-- While nothing but `body` is written to it, an object that holds `body` goes on to do so. -/
theorem body_kept {m : ℕ} {body : List B} (hmn : m ≤ n)
    (hm : ∃ tag, os.before log m k = some ⟨tag, body⟩)
    (hbetween : ∀ j e, m ≤ j → j < n → log[j]? = some e → e.Touches k →
      ∃ author condition tag, e = .served author (.write k condition body) tag) :
    ∃ tag, os.before log n k = some ⟨tag, body⟩ := by
  refine History.kept (P := fun os : Objects K T B ↦ ∃ tag, os k = some ⟨tag, body⟩) hmn hm
    fun j e hj hjn hevent ⟨tag, hj'⟩ ↦ ?_
  by_cases htouches : e.Touches k
  · obtain ⟨author, condition, tag', rfl⟩ := hbetween j e hj hjn hevent htouches
    rcases (os.before log j).next_write (k := k) author condition body tag' with hnext | hnext
    · exact ⟨tag', hnext⟩
    · exact ⟨tag, hnext.trans hj'⟩
  · exact ⟨tag, (next_of_not_touches htouches).trans hj'⟩

end Objects

/-! ## Calls -/

/-- An access that was served for `author` between `begun` and `ended`, at the place `n`, and what
was answered. -/
structure Served [DecidableEq K] [DecidableEq T] (os : Objects K T B) (log : List (Event ι K T B))
    (author : ι) (begun ended : ℕ) (access : Access K T B) (answer : Answer B) (n : ℕ) : Prop where
  begun_le : begun ≤ n
  lt_ended : n < ended
  entry : ∃ tag, log[n]? = some (.served author access tag)
  answer_eq : (os.before log n).answer access = answer

namespace Served

variable [DecidableEq K] [DecidableEq T] {os : Objects K T B} {log more : List (Event ι K T B)}
  {author author' : ι} {begun ended begun' ended' n n' : ℕ} {access : Access K T B}
  {answer : Answer B} {k : K}

theorem append (h : Served os log author begun ended access answer n) :
    Served os (log ++ more) author begun ended access answer n := by
  obtain ⟨tag, hentry⟩ := h.entry
  have hn : n < log.length := (List.getElem?_eq_some_iff.mp hentry).1
  refine ⟨h.begun_le, h.lt_ended, ⟨tag, ?_⟩, ?_⟩
  · rw [List.getElem?_append_left hn, hentry]
  · rw [Objects.before_append (Nat.le_of_lt hn), h.answer_eq]

theorem exists_size {size : ℕ} (h : Served os log author begun ended (.size k) (.size size) n) :
    ∃ o, os.before log n k = some o ∧ size = o.body.length := by
  have hanswer := h.answer_eq
  rw [Objects.answer] at hanswer
  split at hanswer
  · cases hanswer
  · next o ho => exact ⟨o, ho, (Answer.size.inj hanswer).symm⟩

theorem exists_part {first last : ℕ} {bytes : List B}
    (h : Served os log author begun ended (.read k (some (first, last))) (.part bytes) n) :
    ∃ o, os.before log n k = some o ∧ first < o.body.length ∧
      bytes = (o.body.drop first).take (last + 1 - first) := by
  have hanswer := h.answer_eq
  rw [Objects.answer] at hanswer
  split at hanswer
  · cases hanswer
  · next o ho =>
    rw [Object.bytes] at hanswer
    split at hanswer
    · cases hanswer
    · split at hanswer
      · next hlt => exact ⟨o, ho, hlt, (Answer.part.inj hanswer).symm⟩
      · cases hanswer

theorem admits {condition : Condition T} {body : List B}
    (h : Served os log author begun ended (.write k condition body) .written n) :
    condition.Admits ((os.before log n).tag k) := by
  have hanswer := h.answer_eq
  rw [Objects.answer] at hanswer
  split at hanswer
  · next hadmits => exact hadmits
  · cases hanswer

theorem not_admits {condition : Condition T} {body : List B}
    (h : Served os log author begun ended (.write k condition body) .refused n) :
    ¬condition.Admits ((os.before log n).tag k) := by
  have hanswer := h.answer_eq
  rw [Objects.answer] at hanswer
  split at hanswer
  · cases hanswer
  · next hadmits => exact hadmits

theorem exists_body {condition : Condition T} {body : List B}
    (h : Served os log author begun ended (.write k condition body) .written n) :
    ∃ tag, os.before log (n + 1) k = some ⟨tag, body⟩ := by
  obtain ⟨tag, hentry⟩ := h.entry
  exact ⟨tag, by rw [Objects.before_succ hentry, Objects.next_of_admits h.admits]⟩

/-- **A read after a write finds what was written**, if nothing else is written to the object from
the start of the one to the end of the other. -/
theorem body_of_write {condition : Condition T} {body : List B} {access : Access K T B}
    {answer : Answer B}
    (hwrite : Served os log author begun ended (.write k condition body) .written n)
    (hread : Served os log author' begun' ended' access answer n') (hafter : ended ≤ begun')
    (halone : ∀ j e, begun ≤ j → j < ended' → log[j]? = some e → e.Touches k →
      ∃ author condition tag, e = .served author (.write k condition body) tag) :
    ∃ tag, os.before log n' k = some ⟨tag, body⟩ := by
  have hlt := hwrite.lt_ended
  have hbegun := hwrite.begun_le
  have hbegun' := hread.begun_le
  refine Objects.body_kept (by omega : n + 1 ≤ n') hwrite.exists_body fun j e hj hjn ↦ ?_
  exact halone j e (by omega) (Nat.lt_trans hjn hread.lt_ended)

end Served

end ObjectLog
