import Nanos3Reader.Lib.ByteText

/-!
# Flat JSON objects

Objects whose values are strings and numbers, with strings that need no escapes. As a text such an
object is cut by its quotes into pieces: its strings, and what stands between them. A search for a
quoted text is a search in this list.
-/

open ByteText

namespace FlatJson

inductive Value
  | string (s : Bytes)
  | number (t : Bytes)
deriving DecidableEq

/-- A member, with the white space around its tokens. -/
structure Member where
  key : Bytes
  value : Value
  beforeKey : Bytes := []
  beforeColon : Bytes := []
  behindColon : Bytes := []
  behindValue : Bytes := []
deriving DecidableEq

def IsSpace (s : Bytes) : Prop := ∀ c ∈ s, c = 32 ∨ c = 9 ∨ c = 10 ∨ c = 13

instance : DecidablePred IsSpace := fun s ↦ inferInstanceAs (Decidable (∀ c ∈ s, _))

/-- Neither a quote nor a backslash. -/
def IsPlain (s : Bytes) : Prop := 34 ∉ s ∧ 92 ∉ s

instance : DecidablePred IsPlain := fun _ ↦ inferInstanceAs (Decidable (_ ∧ _))

namespace Value

def text : Value → Bytes
  | string s => 34 :: s ++ [34]
  | number t => t

/-- Numbers are made of digits, signs, points and exponents. -/
def WellFormed : Value → Prop
  | string s => IsPlain s
  | number t => t ≠ [] ∧ ∀ c ∈ t, (48 ≤ c ∧ c ≤ 57) ∨ c = 43 ∨ c = 45 ∨ c = 46 ∨ c = 69 ∨ c = 101

instance : DecidablePred WellFormed
  | string s => inferInstanceAs (Decidable (IsPlain s))
  | number _ => inferInstanceAs (Decidable (_ ∧ _))

/-- The value as a string, which is empty for numbers. -/
def asString : Value → Bytes
  | string s => s
  | number _ => []

end Value

namespace Member

/-- What stands between the key and the value. -/
def colon (m : Member) : Bytes := m.beforeColon ++ 58 :: m.behindColon

def text (m : Member) : Bytes :=
  m.beforeKey ++ 34 :: m.key ++ 34 :: m.colon ++ m.value.text ++ m.behindValue

structure WellFormed (m : Member) : Prop where
  key : IsPlain m.key
  value : m.value.WellFormed
  beforeKey : IsSpace m.beforeKey
  beforeColon : IsSpace m.beforeColon
  behindColon : IsSpace m.behindColon
  behindValue : IsSpace m.behindValue

end Member

instance : DecidablePred Member.WellFormed := fun m ↦
  decidable_of_iff (IsPlain m.key ∧ m.value.WellFormed ∧ IsSpace m.beforeKey ∧
      IsSpace m.beforeColon ∧ IsSpace m.behindColon ∧ IsSpace m.behindValue)
    ⟨fun h ↦ ⟨h.1, h.2.1, h.2.2.1, h.2.2.2.1, h.2.2.2.2.1, h.2.2.2.2.2⟩,
      fun h ↦ ⟨h.key, h.value, h.beforeKey, h.beforeColon, h.behindColon, h.behindValue⟩⟩

/-- A flat object with distinct keys. `inside` is what an empty one has between its braces. -/
structure Object where
  members : List Member
  before : Bytes := []
  inside : Bytes := []
  behind : Bytes := []
  members_ok : ∀ m ∈ members, m.WellFormed := by decide +kernel
  distinct : (members.map Member.key).Nodup := by decide +kernel
  before_ok : IsSpace before := by decide +kernel
  inside_ok : IsSpace inside := by decide +kernel
  behind_ok : IsSpace behind := by decide +kernel

namespace Object

def text (d : Object) : Bytes :=
  d.before ++ 123 :: (if d.members = [] then d.inside
    else [44].intercalate (d.members.map Member.text)) ++ 125 :: d.behind

/-- The string that a key has for a value; nothing when it is missing or has a number. -/
def valueOf (d : Object) (key : Bytes) : Bytes :=
  ((d.members.find? fun m ↦ m.key = key).map fun m ↦ m.value.asString).getD []

theorem valueOf_of_mem {d : Object} {m : Member} (hm : m ∈ d.members) :
    d.valueOf m.key = m.value.asString := by
  have hfind : d.members.find? (fun m' ↦ m'.key = m.key) = some m := by
    have hkeys := d.distinct
    generalize d.members = ms at hm hkeys ⊢
    induction ms with
    | nil => cases hm
    | cons m' ms ih =>
      rw [List.map_cons, List.nodup_cons] at hkeys
      rcases List.mem_cons.mp hm with rfl | hm
      · exact List.find?_cons_of_pos (by simp)
      · have hne : m'.key ≠ m.key := fun h ↦ hkeys.1 (h ▸ List.mem_map_of_mem hm)
        rw [List.find?_cons_of_neg (by simpa using hne)]
        exact ih hm hkeys.2
  rw [valueOf, hfind]
  rfl

theorem valueOf_of_forall_ne {d : Object} {key : Bytes} (h : ∀ m ∈ d.members, m.key ≠ key) :
    d.valueOf key = [] := by
  rw [valueOf, List.find?_eq_none.mpr (by simpa using h)]
  rfl

end Object

/-! ## Pieces -/

/-- A text between two quotes, or before the first or behind the last of them. The pieces that are
keys say of which member. -/
abbrev Piece := Bytes × Option Member

/-- The text that is cut by its quotes into these pieces. -/
def join (ps : List Piece) : Bytes := [34].intercalate (ps.map Prod.fst)

theorem join_cons {p : Piece} {ps : List Piece} (h : ps ≠ []) :
    join (p :: ps) = p.1 ++ 34 :: join ps := by
  obtain ⟨q, ps, rfl⟩ := List.exists_cons_of_ne_nil h
  simp [join, List.intercalate]

theorem join_singleton (p : Piece) : join [p] = p.1 := by simp [join]

theorem join_cons_eq_append (p : Piece) (ps : List Piece) : ∃ t, join (p :: ps) = p.1 ++ t := by
  cases ps with
  | nil => exact ⟨[], by rw [join_singleton, List.append_nil]⟩
  | cons q ps => exact ⟨_, join_cons (List.cons_ne_nil q ps)⟩

/-- The first piece behind the first quote that is `key` and has a quote behind it, and the pieces
that follow. -/
def firstQuoted (key : Bytes) : List Piece → Option (Piece × List Piece)
  | [] => none
  | p :: ps => if p.1 = key ∧ ps ≠ [] then some (p, ps) else firstQuoted key ps

theorem firstQuoted_eq_some {key : Bytes} {ps more : List Piece} {p : Piece}
    (h : firstQuoted key ps = some (p, more)) :
    p.1 = key ∧ more ≠ [] ∧ ∃ front, ps = front ++ p :: more := by
  induction ps with
  | nil => cases h
  | cons q ps ih =>
    rw [firstQuoted] at h
    split at h
    · next hq =>
      cases h
      exact ⟨hq.1, hq.2, [], rfl⟩
    · obtain ⟨hp, hmore, front, rfl⟩ := ih h
      exact ⟨hp, hmore, q :: front, rfl⟩

theorem ne_of_firstQuoted_eq_none {key : Bytes} {front more : List Piece} {p : Piece}
    (h : firstQuoted key (front ++ p :: more) = none) (hmore : more ≠ []) : p.1 ≠ key := by
  induction front with
  | nil =>
    rw [List.nil_append, firstQuoted] at h
    split at h
    · cases h
    · next hno => exact fun hp ↦ hno ⟨hp, hmore⟩
  | cons q front ih =>
    rw [List.cons_append, firstQuoted] at h
    split at h
    · cases h
    · exact ih h

/-- **A search for a quoted text** finds the first piece that is the text. -/
theorem cut_join {key : Bytes} (hkey : 34 ∉ key) {p : Piece} {ps : List Piece}
    (hfree : ∀ q ∈ p :: ps, 34 ∉ q.1) :
    (cut ([34] ++ key ++ [34]) (join (p :: ps))).map Prod.snd
      = (firstQuoted key ps).map fun q ↦ join q.2 := by
  induction ps generalizing p with
  | nil =>
    have hnone : cut ([34] ++ key ++ [34]) p.1 = none := by
      rw [cut_eq_none_iff]
      rintro ⟨u, v, huv⟩
      exact hfree p (by simp) (by simp [← huv])
    rw [join_singleton, hnone]
    rfl
  | cons q ps ih =>
    have hpass : Passes ([34] ++ key ++ [34]) p.1 := passes_of_notMem (hfree p (by simp)) _
    have hq : 34 ∉ q.1 := hfree q (by simp)
    rw [join_cons (List.cons_ne_nil q ps), hpass, Option.map_map, firstQuoted]
    by_cases hfound : q.1 = key ∧ ps ≠ []
    · obtain ⟨rfl, hps⟩ := hfound
      rw [if_pos ⟨rfl, hps⟩, join_cons hps]
      have hcut := cut_append_self ([34] ++ q.1 ++ [34]) (join ps)
      simp only [List.append_assoc, List.cons_append, List.nil_append]
        at hcut ⊢
      rw [hcut]
      rfl
    · have hno : ¬[34] ++ key ++ [34] <+: 34 :: join (q :: ps) := by
        rintro ⟨t, ht⟩
        simp only [List.append_assoc, List.cons_append, List.nil_append,
          List.cons.injEq, true_and] at ht
        rcases List.eq_nil_or_concat ps with hps | ⟨_, _, hps⟩
        · rw [hps, join_singleton] at ht
          exact hq (by simp [← ht])
        · have hne : ps ≠ [] := by simp [hps]
          rw [join_cons hne] at ht
          exact hfound ⟨(append_cons_inj hkey hq ht).1.symm, hne⟩
      rw [if_neg hfound, ← ih fun r hr ↦ hfree r (List.mem_cons_of_mem _ hr), cut,
        if_neg (by simpa using hno), Option.map_map]
      rfl

/-! ## The pieces of an object -/

/-- What separates a member from the next one. -/
def comma (ms : List Member) : Bytes := if ms = [] then [] else [44]

/-- The pieces of these members, in front of `close`; the first piece begins with `gap`. -/
def piecesFrom (close : Bytes) : Bytes → List Member → List Piece
  | gap, [] => [(gap ++ close, none)]
  | gap, m :: ms =>
    (gap ++ m.beforeKey, none) :: (m.key, some m) ::
      match m.value with
      | .string s =>
        (m.colon, none) :: (s, none) :: piecesFrom close (m.behindValue ++ comma ms) ms
      | .number t => piecesFrom close (m.colon ++ t ++ m.behindValue ++ comma ms) ms

theorem piecesFrom_ne_nil (close gap : Bytes) (ms : List Member) :
    piecesFrom close gap ms ≠ [] := by
  cases ms <;> exact List.cons_ne_nil _ _

theorem join_piecesFrom (close gap : Bytes) (ms : List Member) :
    join (piecesFrom close gap ms) = gap ++ [44].intercalate (ms.map Member.text) ++ close := by
  induction ms generalizing gap with
  | nil => simp [piecesFrom, join, List.intercalate]
  | cons m ms ih =>
    have hrest : [44].intercalate ((m :: ms).map Member.text)
        = m.text ++ (comma ms ++ [44].intercalate (ms.map Member.text)) := by
      cases ms with
      | nil => simp [comma, List.intercalate]
      | cons m' ms => simp [comma, List.intercalate]
    rw [hrest, piecesFrom]
    cases hvalue : m.value with
    | string s =>
      dsimp only
      rw [join_cons (by simp), join_cons (by simp), join_cons (by simp),
        join_cons (piecesFrom_ne_nil _ _ _), ih]
      simp [Member.text, hvalue, Value.text]
    | number t =>
      dsimp only
      rw [join_cons (by simp), join_cons (piecesFrom_ne_nil _ _ _), ih]
      simp [Member.text, hvalue, Value.text]

/-- Where a member's key is a piece, and what follows it. -/
structure Follows (m : Member) (more : List Piece) : Prop where
  ne_nil : more ≠ []
  string : ∀ s, m.value = .string s →
    ∃ q rest, more = (m.colon, none) :: (s, none) :: q :: rest
  number : ∀ t, m.value = .number t → ∃ g o rest, more = (m.colon ++ t ++ g, o) :: rest

theorem piecesFrom_eq_cons (close gap : Bytes) (ms : List Member) :
    ∃ g rest, piecesFrom close gap ms = (gap ++ g, none) :: rest := by
  cases ms with
  | nil => exact ⟨close, [], rfl⟩
  | cons m ms => exact ⟨m.beforeKey, _, rfl⟩

/-- The pieces that are keys are those of the members, and are followed by their values. -/
theorem follows_of_mem {close gap : Bytes} {ms : List Member} {front more : List Piece} {s : Bytes}
    {m : Member} (h : piecesFrom close gap ms = front ++ (s, some m) :: more) :
    m ∈ ms ∧ s = m.key ∧ Follows m more := by
  induction ms generalizing gap front with
  | nil =>
    rcases front with _ | ⟨p, front⟩
    · simp [piecesFrom] at h
    · simp [piecesFrom] at h
  | cons m' ms ih =>
    rw [piecesFrom] at h
    rcases front with _ | ⟨p, _ | ⟨q, front⟩⟩
    · simp at h
    · simp only [List.cons_append, List.nil_append, List.cons.injEq, Prod.mk.injEq,
        Option.some.injEq] at h
      obtain ⟨-, ⟨rfl, rfl⟩, rfl⟩ := h
      refine ⟨List.mem_cons_self, rfl, ?_, fun t ht ↦ ?_, fun t ht ↦ ?_⟩
      · cases hvalue : m'.value with
        | string t => exact List.cons_ne_nil _ _
        | number t => exact piecesFrom_ne_nil _ _ _
      · obtain ⟨g, rest, hrest⟩ := piecesFrom_eq_cons close (m'.behindValue ++ comma ms) ms
        rw [ht]
        exact ⟨_, rest, by rw [← hrest]⟩
      · obtain ⟨g, rest, hrest⟩ :=
          piecesFrom_eq_cons close (m'.colon ++ t ++ m'.behindValue ++ comma ms) ms
        rw [ht]
        refine ⟨m'.behindValue ++ comma ms ++ g, none, rest, ?_⟩
        dsimp only
        rw [hrest]
        simp
    · simp only [List.cons_append, List.cons.injEq] at h
      obtain ⟨-, -, h⟩ := h
      suffices hmem : m ∈ ms ∧ s = m.key ∧ Follows m more from
        ⟨List.mem_cons_of_mem _ hmem.1, hmem.2⟩
      cases hvalue : m'.value with
      | string t =>
        rw [hvalue] at h
        rcases front with _ | ⟨p, _ | ⟨q, front⟩⟩
        · simp at h
        · simp at h
        · simp only [List.cons_append, List.cons.injEq] at h
          exact ih h.2.2
      | number t =>
        rw [hvalue] at h
        exact ih h

theorem exists_piece (close gap : Bytes) {ms : List Member} {m : Member} (hm : m ∈ ms) :
    ∃ p front more, piecesFrom close gap ms = p :: front ++ (m.key, some m) :: more ∧
      more ≠ [] := by
  induction ms generalizing gap with
  | nil => cases hm
  | cons m' ms ih =>
    rw [piecesFrom]
    rcases List.mem_cons.mp hm with rfl | hm
    · refine ⟨_, [], _, rfl, ?_⟩
      cases hvalue : m.value with
      | string t => exact List.cons_ne_nil _ _
      | number t => exact piecesFrom_ne_nil _ _ _
    · cases hvalue : m'.value with
      | string t =>
        obtain ⟨p, front, more, heq, hmore⟩ := ih (m'.behindValue ++ comma ms) hm
        refine ⟨(gap ++ m'.beforeKey, none),
          (m'.key, some m') :: (m'.colon, none) :: (t, none) :: p :: front, more, ?_, hmore⟩
        dsimp only
        rw [heq]
        rfl
      | number t =>
        obtain ⟨p, front, more, heq, hmore⟩ :=
          ih (m'.colon ++ t ++ m'.behindValue ++ comma ms) hm
        refine ⟨(gap ++ m'.beforeKey, none), (m'.key, some m') :: p :: front, more, ?_, hmore⟩
        dsimp only
        rw [heq]
        rfl

theorem IsSpace.quote_notMem {s : Bytes} (h : IsSpace s) : 34 ∉ s := by
  intro hmem
  have hspace := h 34 hmem
  revert hspace
  decide

theorem Value.WellFormed.quote_notMem {t : Bytes} (h : (Value.number t).WellFormed) : 34 ∉ t := by
  intro hmem
  have hdigit := h.2 34 hmem
  revert hdigit
  decide

theorem Member.WellFormed.quote_notMem_colon {m : Member} (h : m.WellFormed) : 34 ∉ m.colon := by
  simp only [Member.colon, List.mem_append, List.mem_cons, not_or]
  exact ⟨h.beforeColon.quote_notMem, by decide, h.behindColon.quote_notMem⟩

theorem quote_notMem_comma (ms : List Member) : 34 ∉ comma ms := by
  rw [comma]
  split <;> decide

theorem quote_notMem_piecesFrom {close gap : Bytes} {ms : List Member} (hclose : 34 ∉ close)
    (hgap : 34 ∉ gap) (hms : ∀ m ∈ ms, m.WellFormed) : ∀ p ∈ piecesFrom close gap ms, 34 ∉ p.1 := by
  induction ms generalizing gap with
  | nil =>
    rintro p hp
    obtain rfl := List.mem_singleton.mp hp
    simp [hgap, hclose]
  | cons m ms ih =>
    have hm := hms m List.mem_cons_self
    have hrest : ∀ m ∈ ms, m.WellFormed := fun q hq ↦ hms q (List.mem_cons_of_mem _ hq)
    have hbehind : 34 ∉ m.behindValue ++ comma ms := by
      simp [hm.behindValue.quote_notMem, quote_notMem_comma]
    rintro p hp
    rw [piecesFrom] at hp
    rcases List.mem_cons.mp hp with rfl | hp
    · simp [hgap, hm.beforeKey.quote_notMem]
    · rcases List.mem_cons.mp hp with rfl | hp
      · exact hm.key.1
      · have hvalue := hm.value
        cases hval : m.value with
        | string s =>
          rw [hval] at hp hvalue
          rcases List.mem_cons.mp hp with rfl | hp
          · exact hm.quote_notMem_colon
          · rcases List.mem_cons.mp hp with rfl | hp
            · exact hvalue.1
            · exact ih hbehind hrest p hp
        | number t =>
          rw [hval] at hp hvalue
          refine ih ?_ hrest p hp
          rw [List.append_assoc, List.mem_append, not_or, List.mem_append, not_or]
          exact ⟨⟨hm.quote_notMem_colon, hvalue.quote_notMem⟩, hbehind⟩

namespace Object

variable (d : Object)

/-- The pieces of an object. -/
def pieces : List Piece :=
  piecesFrom (125 :: d.behind)
    (d.before ++ 123 :: if d.members = [] then d.inside else []) d.members

theorem join_pieces : join d.pieces = d.text := by
  rw [pieces, join_piecesFrom, text]
  by_cases hnil : d.members = []
  · simp [hnil, List.intercalate]
  · simp [hnil]

theorem quote_notMem_pieces : ∀ p ∈ d.pieces, 34 ∉ p.1 := by
  refine quote_notMem_piecesFrom ?_ ?_ d.members_ok
  · simp [d.behind_ok.quote_notMem]
  · have hinside : 34 ∉ if d.members = [] then d.inside else [] := by
      split
      · exact d.inside_ok.quote_notMem
      · exact List.not_mem_nil
    simp [d.before_ok.quote_notMem, hinside]

/-- Where the object first has `key` in quotes, and what follows. -/
def found (key : Bytes) : Option (Piece × List Piece) := firstQuoted key d.pieces.tail

variable {d} {key : Bytes}

theorem exists_pieces_eq_cons : ∃ p, d.pieces = p :: d.pieces.tail := by
  obtain ⟨g, rest, hpieces⟩ := piecesFrom_eq_cons (125 :: d.behind)
    (d.before ++ 123 :: if d.members = [] then d.inside else []) d.members
  exact ⟨_, by rw [pieces, hpieces, List.tail_cons]⟩

theorem found_eq_some {p : Piece} {more : List Piece} (h : d.found key = some (p, more)) :
    p.1 = key ∧ more ≠ [] ∧ ∀ q ∈ more, 34 ∉ q.1 := by
  obtain ⟨hp, hmore, front, hfront⟩ := firstQuoted_eq_some h
  refine ⟨hp, hmore, fun q hq ↦ d.quote_notMem_pieces q ?_⟩
  obtain ⟨first, hfirst⟩ := d.exists_pieces_eq_cons
  rw [hfirst, hfront]
  simp [hq]

theorem valueOf_of_found_eq_none (h : d.found key = none) : d.valueOf key = [] := by
  refine valueOf_of_forall_ne fun m hm ↦ ?_
  obtain ⟨p, front, more, hpieces, hmore⟩ := exists_piece (125 :: d.behind)
    (d.before ++ 123 :: if d.members = [] then d.inside else []) hm
  rw [found, pieces, hpieces, List.cons_append, List.tail_cons] at h
  exact ne_of_firstQuoted_eq_none h hmore

theorem follows_of_found {s : Bytes} {m : Member} {more : List Piece}
    (h : d.found key = some ((s, some m), more)) :
    d.valueOf key = m.value.asString ∧ m ∈ d.members ∧ Follows m more := by
  obtain ⟨rfl, -, front, hfront⟩ := firstQuoted_eq_some h
  obtain ⟨p, hp⟩ := d.exists_pieces_eq_cons
  rw [hfront, pieces, ← List.cons_append] at hp
  obtain ⟨hm, rfl, hfollows⟩ := follows_of_mem hp
  exact ⟨valueOf_of_mem hm, hm, hfollows⟩

/-- **A search for a quoted key** in the text of the object. -/
theorem cut_text (hkey : 34 ∉ key) : (cut ([34] ++ key ++ [34]) d.text).map Prod.snd
    = (d.found key).map fun q ↦ join q.2 := by
  obtain ⟨p, hp⟩ := d.exists_pieces_eq_cons
  have hfree := d.quote_notMem_pieces
  rw [hp] at hfree
  rw [← d.join_pieces, hp, cut_join hkey hfree]
  rfl

end Object

end FlatJson
