import Nanos3Reader.Addressing

/-!
# The query of a listing

The query is signed as it stands, so it has to be canonical already: its parameters sorted by name
and everything encoded that is not unreserved. What a server decodes from it is exactly what was
asked for.
-/

open ByteText

namespace Nanos3Reader

/-- The parameters of a request for a page. -/
def listParameters (pfx delimiter token : Bytes) : List (Bytes × Bytes) :=
  (if token = [] then [] else [(utf8 "continuation-token", token)]) ++
  (if delimiter = [] then [] else [(utf8 "delimiter", delimiter)]) ++
  [(utf8 "list-type", utf8 "2"), (utf8 "prefix", pfx)]

def encodeParameter (p : Bytes × Bytes) : Bytes × Bytes :=
  (uriEncodeComponent p.1, uriEncodeComponent p.2)

theorem unreserved_iff (c : UInt8) : isUnreserved c = true ↔ Uri.Unreserved c := by
  simp only [isUnreserved, isAlnum, Uri.Unreserved, Bool.or_eq_true, Bool.and_eq_true,
    decide_eq_true_eq]
  tauto

theorem isUpperHex_upperHexDigit {d : UInt8} (hd : d < 16) : Uri.IsUpperHex (upperHexDigit d) := by
  have hall : ∀ n < 16, Uri.IsUpperHex (upperHexDigit (.ofNat n)) := by decide
  simpa using hall d.toNat (UInt8.lt_iff_toNat_lt.mp hd)

theorem encoded_uriEncodeComponent (s : Bytes) : Uri.Encoded (uriEncodeComponent s) := by
  induction s with
  | nil => exact .nil
  | cons c s ih =>
    rw [uriEncodeComponent, percentEncode_cons]
    split
    · next hc => exact .keep ((unreserved_iff c).mp hc) ih
    · obtain ⟨hhi, hlo⟩ := nibbles_lt c
      exact .escape (isUpperHex_upperHexDigit hhi) (isUpperHex_upperHexDigit hlo) ih

theorem percentDecode_uriEncodeComponent (s : Bytes) :
    Uri.percentDecode (uriEncodeComponent s) = some s :=
  percentDecode_percentEncode (by decide) s

theorem uriEncodeComponent_names :
    uriEncodeComponent (utf8 "continuation-token") = utf8 "continuation-token" ∧
      uriEncodeComponent (utf8 "delimiter") = utf8 "delimiter" ∧
      uriEncodeComponent (utf8 "list-type") = utf8 "list-type" ∧
      uriEncodeComponent (utf8 "prefix") = utf8 "prefix" ∧
      uriEncodeComponent (utf8 "2") = utf8 "2" := by
  decide

theorem listQuery_eq (pfx delimiter token : Bytes) :
    listQuery pfx delimiter token
      = Uri.renderParameters ((listParameters pfx delimiter token).map encodeParameter) := by
  have hliterals : utf8 "continuation-token=" = utf8 "continuation-token" ++ [61] ∧
      utf8 "delimiter=" = utf8 "delimiter" ++ [61] ∧ utf8 "&" = [38] ∧
      utf8 "list-type=2&prefix="
        = utf8 "list-type" ++ (61 :: utf8 "2" ++ 38 :: utf8 "prefix" ++ [61]) := by
    decide
  have hjoin (p : Bytes × Bytes) {ps : List (Bytes × Bytes)} (hne : ps ≠ []) :
      Uri.renderParameters (p :: ps) = p.1 ++ 61 :: p.2 ++ 38 :: Uri.renderParameters ps := by
    obtain ⟨q, ps, rfl⟩ := List.exists_cons_of_ne_nil hne
    simp [Uri.renderParameters, List.intercalate]
  have hlast (p : Bytes × Bytes) : Uri.renderParameters [p] = p.1 ++ 61 :: p.2 := by
    simp [Uri.renderParameters, List.intercalate]
  rw [listQuery, listParameters, hliterals.1, hliterals.2.1, hliterals.2.2.1, hliterals.2.2.2]
  by_cases htoken : token = [] <;> by_cases hdelimiter : delimiter = [] <;>
    simp [htoken, hdelimiter, encodeParameter, hjoin, hlast, uriEncodeComponent_names]

theorem listParameters_names_sorted (pfx delimiter token : Bytes) :
    ((listParameters pfx delimiter token).map Prod.fst).Pairwise (· < ·) := by
  have hall : [utf8 "continuation-token", utf8 "delimiter", utf8 "list-type",
      utf8 "prefix"].Pairwise (· < ·) := by decide
  refine hall.sublist ?_
  rw [listParameters]
  split <;> split <;> simp

theorem map_fst_encodeParameter (pfx delimiter token : Bytes) :
    ((listParameters pfx delimiter token).map encodeParameter).map Prod.fst
      = (listParameters pfx delimiter token).map Prod.fst := by
  by_cases htoken : token = [] <;> by_cases hdelimiter : delimiter = [] <;>
    simp [listParameters, encodeParameter, htoken, hdelimiter, uriEncodeComponent_names]

theorem lookup_listParameters (pfx delimiter token : Bytes) :
    (listParameters pfx delimiter token).lookup (utf8 "prefix") = some pfx ∧
    ((listParameters pfx delimiter token).lookup (utf8 "delimiter")).getD [] = delimiter ∧
    ((listParameters pfx delimiter token).lookup (utf8 "continuation-token")).getD [] = token := by
  have hne : (utf8 "prefix" == utf8 "continuation-token") = false ∧
      (utf8 "prefix" == utf8 "delimiter") = false ∧ (utf8 "prefix" == utf8 "list-type") = false ∧
      (utf8 "delimiter" == utf8 "continuation-token") = false ∧
      (utf8 "delimiter" == utf8 "list-type") = false ∧ (utf8 "delimiter" == utf8 "prefix") = false ∧
      (utf8 "continuation-token" == utf8 "delimiter") = false ∧
      (utf8 "continuation-token" == utf8 "list-type") = false ∧
      (utf8 "continuation-token" == utf8 "prefix") = false := by decide
  by_cases htoken : token = [] <;> by_cases hdelimiter : delimiter = [] <;>
    simp [listParameters, List.lookup_cons, htoken, hdelimiter, hne]

theorem listParameters_injective :
    Function.Injective fun t : Bytes × Bytes × Bytes ↦ listParameters t.1 t.2.1 t.2.2 := by
  rintro ⟨pfx, delimiter, token⟩ ⟨pfx', delimiter', token'⟩ h
  dsimp only at h
  obtain ⟨hpfx, hdelimiter, htoken⟩ := lookup_listParameters pfx delimiter token
  obtain ⟨hpfx', hdelimiter', htoken'⟩ := lookup_listParameters pfx' delimiter' token'
  rw [h] at hpfx hdelimiter htoken
  rw [← hdelimiter, ← htoken, hdelimiter', htoken', Option.some.inj (hpfx.symm.trans hpfx')]

/-- **The query is canonical and says what was asked for.** It falls into parameters whose names are
in byte order, with everything encoded that is not unreserved; decoded they are the version, the
prefix, and the delimiter and the token if there are any. Different requests have different
queries. -/
theorem listQuery_canonical (pfx delimiter token : Bytes) :
    (∃ ps, Uri.parameters (listQuery pfx delimiter token) = some ps ∧
      (ps.map Prod.fst).Pairwise (· < ·) ∧ (∀ p ∈ ps, Uri.Encoded p.1 ∧ Uri.Encoded p.2) ∧
      ps.map (fun p ↦ (Uri.percentDecode p.1, Uri.percentDecode p.2))
        = (listParameters pfx delimiter token).map fun p ↦ (some p.1, some p.2)) ∧
    Function.Injective fun t : Bytes × Bytes × Bytes ↦ listQuery t.1 t.2.1 t.2.2 := by
  have hparameters (t : Bytes × Bytes × Bytes) : Uri.parameters (listQuery t.1 t.2.1 t.2.2)
      = some ((listParameters t.1 t.2.1 t.2.2).map encodeParameter) := by
    rw [listQuery_eq]
    refine Uri.parameters_render (by simp [listParameters]) fun p hp ↦ ?_
    obtain ⟨q, -, rfl⟩ := List.mem_map.mp hp
    exact ⟨encoded_uriEncodeComponent q.1, encoded_uriEncodeComponent q.2⟩
  have hencode : Function.Injective encodeParameter := by
    intro p q h
    have hfst := congrArg (fun p ↦ Uri.percentDecode p.1) h
    have hsnd := congrArg (fun p ↦ Uri.percentDecode p.2) h
    simp only [encodeParameter, percentDecode_uriEncodeComponent, Option.some.injEq] at hfst hsnd
    exact Prod.ext hfst hsnd
  refine ⟨⟨_, hparameters (pfx, delimiter, token), ?_, ?_, ?_⟩, ?_⟩
  · rw [map_fst_encodeParameter]
    exact listParameters_names_sorted pfx delimiter token
  · rintro p hp
    obtain ⟨q, -, rfl⟩ := List.mem_map.mp hp
    exact ⟨encoded_uriEncodeComponent q.1, encoded_uriEncodeComponent q.2⟩
  · rw [List.map_map]
    refine List.map_congr_left fun p _ ↦ ?_
    simp only [Function.comp_apply, encodeParameter, percentDecode_uriEncodeComponent]
  · intro t t' h
    have hps := hparameters t
    dsimp only at h
    rw [h, hparameters t', Option.some.injEq] at hps
    exact listParameters_injective ((List.map_injective_iff.mpr hencode) hps.symm)

end Nanos3Reader
