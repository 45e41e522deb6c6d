import Nanos3Reader.Lib.History
import Mathlib.Data.List.Basic
import Mathlib.Logic.Function.Basic

/-!
# A store whose objects go up whole or in parts

An object is written with one request, or an upload is created for it, takes parts by number, and
is completed with a list of numbers and tags: what the parts listed make up, one after the other, is
the object then. The name of an upload is never given twice, and a part is replaced by one of the
same number.

Objects also change by other hands. What the store holds at any time is read off its log.
-/

namespace UploadStore

variable {ι K U T B : Type*}

/-- A part that was taken. -/
structure Part (T B : Type*) where
  tag : T
  body : List B

/-- An upload: the object it is for, the parts it has by number, and whether it has ended. -/
structure Upload (K T B : Type*) where
  key : K
  parts : ℕ → Option (Part T B)
  closed : Bool

structure Store (K U T B : Type*) where
  objects : K → Option (List B)
  uploads : U → Option (Upload K T B)

inductive Request (K U T B : Type*) where
  | put (k : K) (body : List B)
  | create (k : K)
  | part (k : K) (u : U) (n : ℕ) (body : List B)
  | complete (k : K) (u : U) (listing : List (ℕ × T))
  | abort (k : K) (u : U)

inductive Answer (U T : Type*) where
  /-- The object is there now. -/
  | written
  | created (u : U)
  | stored (tag : T)
  | aborted
  | refused

/-- What happens to a store: it serves a request, with a name for the upload that this may create
and a tag for the part that it may bring; or an object changes otherwise. -/
inductive Event (ι K U T B : Type*) where
  | served (author : ι) (request : Request K U T B) (id : U) (tag : T)
  | changed (k : K) (o : Option (List B))

namespace Upload

variable [DecidableEq T] (up : Upload K T B)

/-- The body of a part that is there with its tag. -/
def body? (n : ℕ) (tag : T) : Option (List B) :=
  (up.parts n).bind fun p ↦ if p.tag = tag then some p.body else none

/-- What the parts listed make up: nothing if they are not in order, or not all there. -/
def assemble (listing : List (ℕ × T)) : Option (List B) :=
  if listing ≠ [] ∧ (listing.map Prod.fst).Pairwise (· < ·) then
    (listing.mapM fun p ↦ up.body? p.1 p.2).map List.flatten
  else none

variable {up}

theorem mapM_body? {f : ℕ → List B} (hbody : ∀ n tag b, up.body? n tag = some b → b = f n) :
    ∀ {listing : List (ℕ × T)} {bodies : List (List B)},
      listing.mapM (fun p ↦ up.body? p.1 p.2) = some bodies →
        bodies = listing.map fun p ↦ f p.1 := by
  intro listing
  induction listing with
  | nil =>
    intro bodies h
    cases h
    rfl
  | cons p listing ih =>
    intro bodies h
    rw [List.mapM_cons] at h
    obtain ⟨b, hb, hrest⟩ := Option.bind_eq_some_iff.mp h
    obtain ⟨bs, hbs, heq⟩ := Option.bind_eq_some_iff.mp hrest
    cases heq
    rw [List.map_cons, ← hbody _ _ _ hb, ← ih hbs]

theorem assemble_eq {f : ℕ → List B} (hparts : ∀ n p, up.parts n = some p → p.body = f n)
    {listing : List (ℕ × T)} {body : List B} (h : up.assemble listing = some body) :
    body = (listing.map fun p ↦ f p.1).flatten := by
  rw [assemble] at h
  split at h
  · obtain ⟨bodies, hbodies, rfl⟩ := Option.map_eq_some_iff.mp h
    rw [mapM_body? (fun n tag b hb ↦ ?_) hbodies]
    obtain ⟨p, hp, hb⟩ := Option.bind_eq_some_iff.mp hb
    split at hb
    · rw [← Option.some.inj hb, hparts n p hp]
    · cases hb
  · cases h

end Upload

namespace Store

variable [DecidableEq K] [DecidableEq U] [DecidableEq T] (s : Store K U T B)

/-- An upload that still goes on. -/
def taking (k : K) (u : U) : Option (Upload K T B) :=
  (s.uploads u).filter fun up ↦ up.key = k ∧ up.closed = false

/-- What an upload and a list make up. -/
def assemble (k : K) (u : U) (listing : List (ℕ × T)) : Option (List B) :=
  (s.taking k u).bind fun up ↦ up.assemble listing

def setUpload (u : U) (up : Upload K T B) : Store K U T B :=
  { s with uploads := Function.update s.uploads u (some up) }

def setObject (k : K) (o : Option (List B)) : Store K U T B :=
  { s with objects := Function.update s.objects k o }

/-- An upload comes to an end. -/
def close (u : U) : Store K U T B where
  objects := s.objects
  uploads :=
    Function.update s.uploads u ((s.uploads u).map fun up ↦ { up with closed := true })

def answer (id : U) (tag : T) : Request K U T B → Answer U T
  | .put _ _ => .written
  | .create _ => if (s.uploads id).isNone then .created id else .refused
  | .part k u _ _ => if (s.taking k u).isSome then .stored tag else .refused
  | .complete k u listing => if (s.assemble k u listing).isSome then .written else .refused
  | .abort k u => if (s.taking k u).isSome then .aborted else .refused

/-- The store after it has served a request. -/
def serve (id : U) (tag : T) : Request K U T B → Store K U T B
  | .put k body => s.setObject k (some body)
  | .create k => if (s.uploads id).isNone then s.setUpload id ⟨k, fun _ ↦ none, false⟩ else s
  | .part k u n body =>
    match s.taking k u with
    | none => s
    | some up =>
      s.setUpload u { up with parts := Function.update up.parts n (some ⟨tag, body⟩) }
  | .complete k u listing =>
    match s.assemble k u listing with
    | none => s
    | some body => (s.setObject k (some body)).close u
  | .abort k u => if (s.taking k u).isSome then s.close u else s

/-- The store after one event. -/
def next : Event ι K U T B → Store K U T B
  | .served _ request id tag => s.serve id tag request
  | .changed k o => s.setObject k o

/-- The store as the event at the place `n` of the log finds it. -/
def before (log : List (Event ι K U T B)) (n : ℕ) : Store K U T B := History.before next s log n

variable {s} {log more : List (Event ι K U T B)} {k : K} {u : U} {n : ℕ}

theorem before_append (hn : n ≤ log.length) : s.before (log ++ more) n = s.before log n :=
  History.before_append hn

theorem before_succ {e : Event ι K U T B} (h : log[n]? = some e) :
    s.before log (n + 1) = (s.before log n).next e := History.before_succ h

/-! ## Where objects come from -/

/-- The event leaves `body` behind at `k`. -/
inductive Leaves (s : Store K U T B) (k : K) (body : List B) : Event ι K U T B → Prop
  | changed : Leaves s k body (.changed k (some body))
  | put (author : ι) (id : U) (tag : T) : Leaves s k body (.served author (.put k body) id tag)
  | completed (author : ι) {u : U} {listing : List (ℕ × T)} (id : U) (tag : T)
      (h : s.assemble k u listing = some body) :
      Leaves s k body (.served author (.complete k u listing) id tag)

theorem Leaves.objects_next {body : List B} {e : Event ι K U T B} (h : s.Leaves k body e) :
    (s.next e).objects k = some body := by
  rcases h with _ | ⟨author, id, tag⟩ | ⟨author, id, tag, hbody⟩
  · exact Function.update_self _ _ _
  · exact Function.update_self _ _ _
  · rw [next, serve, hbody]
    exact Function.update_self _ _ _

omit [DecidableEq U] in
theorem exists_leaves (author : ι) {request : Request K U T B} {id : U} {tag : T}
    (h : s.answer id tag request = .written) :
    ∃ k body, s.Leaves k body (.served author request id tag) := by
  rcases request with ⟨k, body⟩ | k | ⟨k, u, n, body⟩ | ⟨k, u, listing⟩ | ⟨k, u⟩
  all_goals rw [answer] at h
  · exact ⟨k, body, .put author id tag⟩
  · split at h <;> cases h
  · split at h <;> cases h
  · split at h
    · next hsome =>
      obtain ⟨body, hbody⟩ := Option.isSome_iff_exists.mp hsome
      exact ⟨k, body, .completed author id tag hbody⟩
    · cases h
  · split at h <;> cases h

/-- An event leaves an object as it is, or removes it, or leaves a body behind. -/
theorem objects_next (s : Store K U T B) (k : K) (e : Event ι K U T B) :
    (s.next e).objects k = s.objects k ∨ e = .changed k none ∨ ∃ body, s.Leaves k body e := by
  have hother {k' : K} {o : Option (List B)} (hne : ¬k' = k) :
      (s.setObject k' o).objects k = s.objects k := Function.update_of_ne (Ne.symm hne) _ _
  rcases e with ⟨author, request, id, tag⟩ | ⟨k', o⟩
  · rcases request with ⟨k', body⟩ | k' | ⟨k', u, m, body⟩ | ⟨k', u, listing⟩ | ⟨k', u⟩
    · by_cases hk : k' = k
      · exact hk ▸ .inr (.inr ⟨body, .put author id tag⟩)
      · exact .inl (hother hk)
    · rw [next, serve]
      split <;> exact .inl rfl
    · rw [next, serve]
      split <;> exact .inl rfl
    · rcases hbody : s.assemble k' u listing with _ | body
      · rw [next, serve, hbody]
        exact .inl rfl
      · by_cases hk : k' = k
        · exact hk ▸ .inr (.inr ⟨body, .completed author id tag hbody⟩)
        · rw [next, serve, hbody]
          exact .inl (hother hk)
    · rw [next, serve]
      split <;> exact .inl rfl
  · by_cases hk : k' = k
    · subst hk
      rcases o with _ | body
      · exact .inr (.inl rfl)
      · exact .inr (.inr ⟨body, .changed⟩)
    · exact .inl (hother hk)

/-- **Where objects come from.** -/
theorem object_origin (n : ℕ) {body : List B} (h : (s.before log n).objects k = some body) :
    s.objects k = some body ∨
      ∃ m < n, ∃ e, log[m]? = some e ∧ (s.before log m).Leaves k body e := by
  refine (History.exists_event (P := fun s : Store K U T B ↦ s.objects k = some body) n h).imp_right
    ?_
  rintro ⟨m, hm, e, hevent, hnot, hnext⟩
  refine ⟨m, hm, e, hevent, ?_⟩
  obtain hsame | rfl | ⟨body', hleaves⟩ := (s.before log m).objects_next k e
  · exact absurd (hsame.symm.trans hnext) hnot
  · have hgone : ((s.before log m).next (.changed k none : Event ι K U T B)).objects k = none :=
      Function.update_self _ _ _
    cases hgone.symm.trans hnext
  · obtain rfl := Option.some.inj (hleaves.objects_next.symm.trans hnext)
    exact hleaves

/-- An object stays what it is while nothing else is left behind in its place. -/
theorem object_kept {m : ℕ} {body : List B} (hmn : m ≤ n)
    (hm : (s.before log m).objects k = some body)
    (hbetween : ∀ j e, m ≤ j → j < n → log[j]? = some e → e ≠ .changed k none ∧
      ∀ body', (s.before log j).Leaves k body' e → body' = body) :
    (s.before log n).objects k = some body := by
  refine History.kept (P := fun s : Store K U T B ↦ s.objects k = some body) hmn hm
    fun j e hj hjn hevent hj' ↦ ?_
  obtain ⟨hstays, hsame⟩ := hbetween j e hj hjn hevent
  obtain hnext | rfl | ⟨body', hleaves⟩ := (s.before log j).objects_next k e
  · exact hnext.trans hj'
  · exact absurd rfl hstays
  · obtain rfl := hsame body' hleaves
    exact hleaves.objects_next

theorem object_untouched (n : ℕ) (hbefore : ∀ j e, j < n → log[j]? = some e →
    e ≠ .changed k none ∧ ∀ body, ¬(s.before log j).Leaves k body e) :
    (s.before log n).objects k = s.objects k := by
  refine History.kept (P := fun s' : Store K U T B ↦ s'.objects k = s.objects k) (Nat.zero_le n) rfl
    fun j e _ hjn hevent hj ↦ ?_
  obtain ⟨hstays, hnot⟩ := hbefore j e hjn hevent
  obtain hnext | rfl | ⟨body, hleaves⟩ := (s.before log j).objects_next k e
  · exact hnext.trans hj
  · exact absurd rfl hstays
  · exact absurd hleaves (hnot body)

/-! ## Where parts come from -/

/-- An upload is new, or for the object it was for, with the parts it had but one perhaps. -/
theorem uploads_next (s : Store K U T B) {up' : Upload K T B} {e : Event ι K U T B}
    (h : (s.next e).uploads u = some up') :
    (s.uploads u = none ∧ (∀ n, up'.parts n = none) ∧
      ∃ author tag, e = .served author (.create up'.key) u tag) ∨
    ∃ up, s.uploads u = some up ∧ up'.key = up.key ∧ ∀ n p, up'.parts n = some p →
      up.parts n = some p ∨ ∃ author id, e = .served author (.part up.key u n p.body) id p.tag := by
  have hsame (h : s.uploads u = some up') : ∃ up, s.uploads u = some up ∧ up'.key = up.key ∧
      ∀ n p, up'.parts n = some p → up.parts n = some p ∨
        ∃ author id, e = .served author (.part up.key u n p.body) id p.tag :=
    ⟨up', h, rfl, fun _ _ hp ↦ .inl hp⟩
  have hclose (u' : U) (h : (s.close u').uploads u = some up') : ∃ up, s.uploads u = some up ∧
      up'.key = up.key ∧ ∀ n p, up'.parts n = some p → up.parts n = some p ∨
        ∃ author id, e = .served author (.part up.key u n p.body) id p.tag := by
    rw [close] at h
    dsimp only at h
    rw [Function.update_apply] at h
    split at h
    · next heq =>
      obtain ⟨up, hup, rfl⟩ := Option.map_eq_some_iff.mp h
      exact ⟨up, heq ▸ hup, rfl, fun _ _ hp ↦ .inl hp⟩
    · exact hsame h
  rcases e with ⟨author, request, id, tag⟩ | ⟨k', o⟩
  · rcases request with ⟨k', body'⟩ | k' | ⟨k', u', m, body'⟩ | ⟨k', u', listing⟩ | ⟨k', u'⟩
    · exact .inr (hsame h)
    · rw [next, serve] at h
      split at h
      · next hnone =>
        rw [setUpload] at h
        dsimp only at h
        rw [Function.update_apply] at h
        split at h
        · next heq =>
          cases h
          rw [← heq] at hnone
          exact .inl ⟨Option.isNone_iff_eq_none.mp hnone, fun _ ↦ rfl, author, tag, by rw [heq]⟩
        · exact .inr (hsame h)
      · exact .inr (hsame h)
    · rw [next, serve] at h
      split at h
      · exact .inr (hsame h)
      · next up htaking =>
        obtain ⟨hup, hkey⟩ := Option.filter_eq_some_iff.mp htaking
        obtain ⟨rfl, -⟩ : up.key = k' ∧ up.closed = false := by simpa using hkey
        rw [setUpload] at h
        dsimp only at h
        rw [Function.update_apply] at h
        split at h
        · next heq =>
          cases h
          refine .inr ⟨up, heq ▸ hup, rfl, fun n p hp ↦ ?_⟩
          dsimp only at hp
          rw [Function.update_apply] at hp
          split at hp
          · next hn =>
            cases hp
            exact .inr ⟨author, id, by rw [heq, hn]⟩
          · exact .inl hp
        · exact .inr (hsame h)
    · rw [next, serve] at h
      split at h
      · exact .inr (hsame h)
      · exact .inr (hclose u' h)
    · rw [next, serve] at h
      split at h
      · exact .inr (hclose u' h)
      · exact .inr (hsame h)
  · exact .inr (hsame h)

theorem uploads_next_of_some (s : Store K U T B) {up : Upload K T B} (h : s.uploads u = some up)
    (e : Event ι K U T B) : ∃ up', (s.next e).uploads u = some up' ∧ up'.key = up.key := by
  have hset {u' : U} {up' : Upload K T B} (hkey : u' = u → up'.key = up.key) :
      ∃ up'', (s.setUpload u' up').uploads u = some up'' ∧ up''.key = up.key := by
    by_cases hu : u' = u
    · subst hu
      exact ⟨up', Function.update_self _ _ _, hkey rfl⟩
    · exact ⟨up, (Function.update_of_ne (Ne.symm hu) _ _).trans h, rfl⟩
  have hclose (s' : Store K U T B) (h : s'.uploads u = some up) (u' : U) :
      ∃ up'', (s'.close u').uploads u = some up'' ∧ up''.key = up.key := by
    by_cases hu : u' = u
    · subst hu
      refine ⟨{ up with closed := true }, ?_, rfl⟩
      rw [close, h]
      exact Function.update_self _ _ _
    · exact ⟨up, (Function.update_of_ne (Ne.symm hu) _ _).trans h, rfl⟩
  rcases e with ⟨author, request, id, tag⟩ | ⟨k', o⟩
  · rcases request with ⟨k', body'⟩ | k' | ⟨k', u', m, body'⟩ | ⟨k', u', listing⟩ | ⟨k', u'⟩
    · exact ⟨up, h, rfl⟩
    · rw [next, serve]
      split
      · next hnone =>
        refine hset fun hid ↦ ?_
        rw [hid, h] at hnone
        cases hnone
      · exact ⟨up, h, rfl⟩
    · rw [next, serve]
      split
      · exact ⟨up, h, rfl⟩
      · next up' htaking =>
        refine hset fun hu ↦ ?_
        obtain ⟨hup, -⟩ := Option.filter_eq_some_iff.mp htaking
        rw [hu, h] at hup
        rw [Option.some.inj hup]
    · rw [next, serve]
      split
      · exact ⟨up, h, rfl⟩
      · exact hclose _ h u'
    · rw [next, serve]
      split
      · exact hclose s h u'
      · exact ⟨up, h, rfl⟩
  · exact ⟨up, h, rfl⟩

/-- The upload `u` is created for `author` at the place `n`. -/
structure Creates (s : Store K U T B) (log : List (Event ι K U T B)) (author : ι) (k : K) (u : U)
    (n : ℕ) : Prop where
  entry : ∃ tag, log[n]? = some (.served author (.create k) u tag)
  fresh : (s.before log n).uploads u = none

theorem Creates.exists_upload {author : ι} {m : ℕ} (h : Creates s log author k u m) (hmn : m < n) :
    ∃ up, (s.before log n).uploads u = some up ∧ up.key = k := by
  obtain ⟨tag, hentry⟩ := h.entry
  refine History.kept (P := fun s : Store K U T B ↦ ∃ up, s.uploads u = some up ∧ up.key = k)
    (Nat.succ_le_of_lt hmn) ⟨⟨k, fun _ ↦ none, false⟩, ?_, rfl⟩ fun j e _ _ _ ⟨up, hup, hkey⟩ ↦ ?_
  · rw [← before, before_succ hentry, next, serve, h.fresh]
    exact Function.update_self _ _ _
  · obtain ⟨up', hup', hkey'⟩ := (s.before log j).uploads_next_of_some hup e
    exact ⟨up', hup', hkey'.trans hkey⟩

/-- **The name of an upload is given once.** -/
theorem Creates.unique {author author' : ι} {k' : K} {m : ℕ} (h : Creates s log author k u n)
    (h' : Creates s log author' k' u m) : author = author' ∧ k = k' := by
  have hfresh {author author' : ι} {k k' : K} {n m : ℕ} (h : Creates s log author k u n)
      (h' : Creates s log author' k' u m) : ¬n < m := by
    intro hlt
    obtain ⟨up, hup, -⟩ := h.exists_upload hlt
    rw [h'.fresh] at hup
    cases hup
  obtain rfl : n = m := Nat.le_antisymm (not_lt.mp (hfresh h' h)) (not_lt.mp (hfresh h h'))
  obtain ⟨tag, hentry⟩ := h.entry
  obtain ⟨tag', hentry'⟩ := h'.entry
  cases hentry.symm.trans hentry'
  exact ⟨rfl, rfl⟩

theorem Creates.new {author : ι} (h : Creates s log author k u n) : s.uploads u = none := by
  by_contra hold
  obtain ⟨up, hup⟩ := Option.ne_none_iff_exists'.mp hold
  have hkept : ∃ up, (s.before log n).uploads u = some up := by
    refine History.kept (P := fun s : Store K U T B ↦ ∃ up, s.uploads u = some up) (Nat.zero_le n)
      ⟨up, hup⟩ fun j e _ _ _ ⟨up, hup⟩ ↦ ?_
    obtain ⟨up', hup', -⟩ := (s.before log j).uploads_next_of_some hup e
    exact ⟨up', hup'⟩
  obtain ⟨up', hup'⟩ := hkept
  have hfresh := h.fresh
  rw [hup'] at hfresh
  cases hfresh

/-- **Where parts come from**: from requests with the name of the upload. -/
theorem part_origin (hnew : s.uploads u = none) (n : ℕ) {up : Upload K T B}
    (h : (s.before log n).uploads u = some up) {m : ℕ} {p : Part T B} (hp : up.parts m = some p) :
    ∃ j < n, ∃ author id, log[j]? = some (.served author (.part up.key u m p.body) id p.tag) := by
  rcases History.exists_event (P := fun s : Store K U T B ↦ ∃ up', s.uploads u = some up' ∧
    up'.key = up.key ∧ up'.parts m = some p) n ⟨up, h, rfl, hp⟩ with
    ⟨up', hup', -⟩ | ⟨j, hj, e, hevent, hnot, up', hup', hkey, hp'⟩
  · rw [hnew] at hup'
    cases hup'
  · rcases (s.before log j).uploads_next hup' with ⟨-, hnone, -⟩ | ⟨up'', hup'', hkey', hparts⟩
    · rw [hnone] at hp'
      cases hp'
    · obtain hold | ⟨author, id, rfl⟩ := hparts m p hp'
      · exact absurd ⟨up'', hup'', hkey'.symm.trans hkey, hold⟩ hnot
      · refine ⟨j, hj, author, id, ?_⟩
        rw [hevent, ← hkey', hkey]

/-- **What is put together of an upload** is made of what was sent for it. -/
theorem assembled (hnew : s.uploads u = none) {f : ℕ → List B}
    (hparts : ∀ j < n, ∀ author m body id tag,
      log[j]? = some (.served author (.part k u m body) id tag) → body = f m)
    {listing : List (ℕ × T)} {body : List B}
    (h : (s.before log n).assemble k u listing = some body) :
    body = (listing.map fun p ↦ f p.1).flatten := by
  obtain ⟨up, htaking, hbody⟩ := Option.bind_eq_some_iff.mp h
  obtain ⟨hup, hkey⟩ := Option.filter_eq_some_iff.mp htaking
  obtain ⟨rfl, -⟩ : up.key = k ∧ up.closed = false := by simpa using hkey
  refine Upload.assemble_eq (fun m p hp ↦ ?_) hbody
  obtain ⟨j, hj, author, id, hentry⟩ := part_origin hnew n hup hp
  exact hparts j hj author m p.body id p.tag hentry

end Store

end UploadStore
