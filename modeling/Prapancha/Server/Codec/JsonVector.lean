import Mathlib.Data.List.Forall2
import Prapancha.Server.Codec.JsonSecurity
import Prapancha.Server.Model

/-!
# The JSON codec of vectors

`JsonCodec<std::vector<T>>` over the codec of an element type.  Every element is encoded to a text,
parsed, collected in an array and serialised again; on the way back it is serialised once more for
the decoder of the element.
-/

namespace Prapancha.JsonCodec

open Json

variable (J : Engine) {M : Type} (C : Codec M)

/-- `JsonCodec<std::vector<T>>::encode`, which throws if an element has no JSON text. -/
def encodeVector (collection : List M) : Except Exn Bytes := do
  let mut jsonArray := []
  for item in collection do
    jsonArray := jsonArray ++ [← parse J (C.encode item)]
  return J.serialize (.array jsonArray)

/-- The loop of the decoder, after the elements of `result`. -/
def decodeElements (draws : Nat → Draw) (result : List M) : List Value → Option (List M)
  | [] => some result
  | element :: elements =>
    match C.decode (draws result.length) (J.serialize element) with
    | none => none
    | some item => decodeElements draws (result ++ [item]) elements

/-- `JsonCodec<std::vector<T>>::decode`; the decoder of an element may generate a UUID of its
own. -/
def decodeVector (draws : Nat → Draw) (data : Bytes) : Option (List M) := caught do
  match ← parse J data with
  | .array elements => return decodeElements J C draws [] elements
  | _ => return none

/-! ## The loops -/

variable {J C}

/-- The items are the elements, decoded one by one in their order. -/
structure Decodes (J : Engine) (C : Codec M) (draws : Nat → Draw) (elements : List Value)
    (items : List M) : Prop where
  length_eq : items.length = elements.length
  item : ∀ i (h : i < elements.length) (h' : i < items.length),
    C.decode (draws i) (J.serialize elements[i]) = some items[i]

theorem decodes_nil {draws : Nat → Draw} {items : List M} :
    Decodes J C draws [] items ↔ items = [] := by
  constructor
  · intro h
    exact List.eq_nil_of_length_eq_zero h.length_eq
  · rintro rfl
    exact ⟨rfl, fun i h => absurd h (Nat.not_lt_zero i)⟩

theorem decodes_cons {draws : Nat → Draw} {element : Value} {elements : List Value}
    {items : List M} : Decodes J C draws (element :: elements) items ↔
      ∃ item rest, C.decode (draws 0) (J.serialize element) = some item ∧
        Decodes J C (fun i => draws (i + 1)) elements rest ∧ items = item :: rest := by
  constructor
  · intro h
    cases items with
    | nil => cases h.length_eq
    | cons item rest =>
      refine ⟨item, rest, h.item 0 (by simp) (by simp), ⟨?_, fun i hi hi' => ?_⟩, rfl⟩
      · simpa using h.length_eq
      · exact h.item (i + 1) (Nat.succ_lt_succ hi) (Nat.succ_lt_succ hi')
  · rintro ⟨item, rest, hitem, hrest, rfl⟩
    refine ⟨congrArg Nat.succ hrest.length_eq, fun i h h' => ?_⟩
    cases i with
    | zero => exact hitem
    | succ i => exact hrest.item i (Nat.lt_of_succ_lt_succ h) (Nat.lt_of_succ_lt_succ h')

theorem decodeElements_eq_some {draws : Nat → Draw} : ∀ {elements : List Value}
    {result items : List M}, decodeElements J C draws result elements = some items ↔
      ∃ rest, Decodes J C (fun i => draws (result.length + i)) elements rest ∧
        items = result ++ rest
  | [], result, items => by
    simp [decodeElements, decodes_nil, eq_comm]
  | element :: elements, result, items => by
    rw [decodeElements]
    simp only [decodes_cons, Nat.add_zero]
    split
    · next hnone => simp [hnone]
    · next item hitem =>
      rw [decodeElements_eq_some, hitem]
      simp only [List.length_append, List.length_cons, List.length_nil, Nat.zero_add,
        Nat.add_assoc, Nat.add_comm 1, Option.some.injEq]
      constructor
      · rintro ⟨rest, hrest, rfl⟩
        exact ⟨item :: rest, ⟨item, rest, rfl, hrest, rfl⟩, by simp⟩
      · rintro ⟨_, ⟨item, rest, rfl, hrest, rfl⟩, rfl⟩
        exact ⟨rest, hrest, by simp⟩

theorem decodeVector_eq_some {draws : Nat → Draw} {data : Bytes} {items : List M} :
    decodeVector J C draws data = some items ↔
      ∃ elements, J.parse data = some (.array elements) ∧ Decodes J C draws elements items := by
  rw [decodeVector, caught_eq_some, bind_eq_ok]
  simp only [parse_eq_ok]
  constructor
  · rintro ⟨v, hv, h⟩
    cases v with
    | array elements =>
      obtain ⟨rest, hrest, rfl⟩ := decodeElements_eq_some.1 (Except.ok.inj h)
      exact ⟨elements, hv, by simpa using hrest⟩
    | _ => cases h
  · rintro ⟨elements, hparse, h⟩
    refine ⟨_, hparse, congrArg Except.ok (decodeElements_eq_some.2 ⟨items, ?_, rfl⟩)⟩
    simpa using h

theorem collect_eq_ok : ∀ {collection : List M} {jsonArray values : List Value},
    (forIn collection jsonArray fun item jsonArray => do
      let v ← parse J (C.encode item)
      pure (ForInStep.yield (jsonArray ++ [v])) : Except Exn (List Value)) = .ok values ↔
        ∃ rest, List.Forall₂ (fun item v => J.parse (C.encode item) = some v) collection rest ∧
          values = jsonArray ++ rest
  | [], jsonArray, values => by
    simp [pure, Except.pure, eq_comm]
  | item :: collection, jsonArray, values => by
    rw [List.forIn_cons, bind_eq_ok]
    simp only [bind_eq_ok, parse_eq_ok, List.forall₂_cons_left_iff]
    constructor
    · rintro ⟨_, ⟨v, hv, hstep⟩, h⟩
      cases hstep
      obtain ⟨rest, hrest, rfl⟩ := collect_eq_ok.1 h
      exact ⟨v :: rest, ⟨v, rest, hv, hrest, rfl⟩, by simp⟩
    · rintro ⟨_, ⟨v, rest, hv, hrest, rfl⟩, rfl⟩
      exact ⟨_, ⟨v, hv, rfl⟩, collect_eq_ok.2 ⟨rest, hrest, by simp⟩⟩

/-- The text of a vector holds what the texts of its elements parse to. -/
theorem encodeVector_eq_ok {collection : List M} {data : Bytes} :
    encodeVector J C collection = .ok data ↔
      ∃ values, List.Forall₂ (fun item v => J.parse (C.encode item) = some v) collection values ∧
        data = J.serialize (.array values) := by
  rw [encodeVector, bind_eq_ok]
  constructor
  · rintro ⟨values, h, hdata⟩
    obtain ⟨rest, hrest, hvalues⟩ := collect_eq_ok.1 h
    rw [List.nil_append] at hvalues
    subst hvalues
    exact ⟨values, hrest, (Except.ok.inj hdata).symm⟩
  · rintro ⟨values, hvalues, rfl⟩
    exact ⟨values, collect_eq_ok.2 ⟨values, hvalues, rfl⟩, rfl⟩

end Prapancha.JsonCodec
