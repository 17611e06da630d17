import Prapancha.Server.Codec.JsonVector
import Prapancha.Verify.Bindings

/-!
# Vectors of models

`JsonCodec<std::vector<T>>` lifts the codec of its elements: a vector comes back from its text if
every element comes back from the text that it is serialised to after parsing, and a text is decoded
to the decoded elements of its array, all of them or nothing.
-/

namespace Prapancha.JsonCodec

open Json Security

variable (J : Engine) {M : Type} (C : Codec M)

/-- The text of the item is JSON, nested at least one level less than the parser accepts, and the
decoder gives the item back from the text after a parse. -/
def Stable (Double : UInt64 → Prop) (item : M) : Prop :=
  ∃ v, J.parse (C.encode item) = some v ∧
    v.Fits (Value.ParsedWith Double) (Value.maxDepth - 1) ∧
    ∀ draw, C.decode draw (J.serialize v) = some item

variable {J C}

theorem decodes_of_stable {Double : UInt64 → Prop} {items : List M}
    (h : ∀ item ∈ items, Stable J C Double item) :
    ∃ values, List.Forall₂ (fun item v => J.parse (C.encode item) = some v) items values ∧
      Value.Fits (Value.ParsedWith Double) Value.maxDepth (.array values) ∧
      ∀ draws, Decodes J C draws values items := by
  induction items with
  | nil => exact ⟨[], .nil, fun v hv => absurd hv List.not_mem_nil, fun _ => decodes_nil.2 rfl⟩
  | cons item items ih =>
    obtain ⟨v, hparse, hfits, hdecode⟩ := h item List.mem_cons_self
    obtain ⟨values, hvalues, hrest, hdecodes⟩ := ih fun i hi => h i (List.mem_cons_of_mem _ hi)
    refine ⟨v :: values, .cons hparse hvalues, List.forall_mem_cons.2 ⟨hfits, hrest⟩, ?_⟩
    exact fun draws => decodes_cons.2 ⟨item, items, hdecode _, hdecodes _, rfl⟩

theorem exists_decodes {draws : Nat → Draw} {elements : List Value} :
    (∃ items, Decodes J C draws elements items) ↔
      ∀ i (h : i < elements.length), (C.decode (draws i) (J.serialize elements[i])).isSome := by
  constructor
  · rintro ⟨items, h⟩ i hi
    rw [h.item i hi (h.length_eq ▸ hi), Option.isSome_some]
  · intro h
    induction elements generalizing draws with
    | nil => exact ⟨[], decodes_nil.2 rfl⟩
    | cons element elements ih =>
      obtain ⟨item, hitem⟩ := Option.isSome_iff_exists.1 (h 0 (Nat.zero_lt_succ _))
      obtain ⟨rest, hrest⟩ := ih fun i hi => h (i + 1) (Nat.succ_lt_succ hi)
      exact ⟨item :: rest, decodes_cons.2 ⟨item, rest, hitem, hrest, rfl⟩⟩

/-- A vector of stable items comes back whole and in order; a text yields the decoded elements of
its array, in their order, and nothing if one of them is not decoded. -/
theorem vector_lifts {Double : UInt64 → Prop} (hkeeps : J.Keeps Double) :
    (∀ items : List M, (∀ item ∈ items, Stable J C Double item) → ∀ draws, ∃ data,
      encodeVector J C items = .ok data ∧ decodeVector J C draws data = some items) ∧
    (∀ draws data, (decodeVector J C draws data).isSome ↔
      ∃ elements, J.parse data = some (.array elements) ∧
        ∀ i (h : i < elements.length),
          (C.decode (draws i) (J.serialize elements[i])).isSome) ∧
    ∀ draws data items, decodeVector J C draws data = some items ↔
      ∃ elements, J.parse data = some (.array elements) ∧ Decodes J C draws elements items := by
  refine ⟨fun items h draws => ?_, fun draws data => ?_, fun _ _ _ => decodeVector_eq_some⟩
  · obtain ⟨values, hvalues, hfits, hdecodes⟩ := decodes_of_stable h
    exact ⟨_, encodeVector_eq_ok.2 ⟨values, hvalues, rfl⟩,
      decodeVector_eq_some.2 ⟨values, hkeeps _ hfits, hdecodes draws⟩⟩
  · rw [Option.isSome_iff_exists]
    simp only [decodeVector_eq_some]
    rw [exists_comm]
    refine exists_congr fun elements => ?_
    rw [exists_and_left]
    exact and_congr_right fun _ => exists_decodes

/-! ## Vectors of bindings -/

variable (J) in
def bindingCodec (H : HashAlgorithm) : Codec H.Binding where
  encode := encodeBinding J H
  decode _ := decodeBinding J H

theorem flat_bindingObject (H : HashAlgorithm) (binding : H.Binding) :
    ∀ m ∈ bindingObject H binding, m.2.isContainer = false := by
  have hall : (bindingObject H binding).all (fun m => !m.2.isContainer) = true := by
    cases H <;> rfl
  simpa using hall

variable (J) in
theorem stable_binding (H : HashAlgorithm) (binding : H.Binding) :
    Stable J (bindingCodec J H) (fun _ => False) binding := by
  have hstorable := storable_bindingObject H binding
  have hflat := hstorable.flat (flat_bindingObject H binding)
  refine ⟨_, ?_, Value.fits_reread (hflat _), fun draw => ?_⟩
  · exact (congrArg J.parse (encodeBinding_eq J H binding)).trans (J.parse_serialize _ hstorable)
  · exact decodeBinding_of_parse J (J.keeps_none _ (Value.fits_reread (hflat _)))

theorem vector_lifts_two : ∃ data,
    encodeVector compact (bindingCodec compact .sha256) [⟨[0xAB]⟩, ⟨[]⟩] = .ok data ∧
      decodeVector compact (bindingCodec compact .sha256) default data = some [⟨[0xAB]⟩, ⟨[]⟩] :=
  (vector_lifts compact.keeps_none).1 _ (fun b _ => stable_binding compact .sha256 b) default

/-! ## Doubles

A library may read a double up to its last digits only.  This one prints two neighbouring doubles
with all of their digits, and reads the text of the smaller one as the larger one. -/

def smaller : UInt64 := 0x40221D4721CC3117

def larger : UInt64 := 0x40221D4721CC3118

def doubleText (bits : UInt64) : Bytes :=
  if bits = smaller then text "9.057183319259407E0" else text "9.057183319259408E0"

def serializeImprecise : Value → Bytes
  | .double bits => doubleText bits
  | .array [.double bits] => Octet.openBracket :: (doubleText bits ++ [Octet.closeBracket])
  | v => print v

def parseImprecise (s : Bytes) : Option Value :=
  if s = text "9.057183319259406E0" then some (.double smaller)
  else if s = text "9.057183319259407E0" then some (.double larger)
  else if s = text "[9.057183319259407E0]" then some (.array [.double larger])
  else Json.parse s

theorem serializeImprecise_of_storable {v : Value} (h : v.Storable) :
    serializeImprecise v = print v := by
  unfold serializeImprecise
  split
  · exact h.elim
  · next bits => exact (h (.double bits) List.mem_cons_self).elim
  · rfl

/-- The texts with doubles are not those of storable values. -/
theorem parseImprecise_print {v : Value} (h : v.Storable) :
    parseImprecise (print v) = some v.reread := by
  have hparse : Json.parse (print v) = some v.reread := compact.parse_serialize v h
  have hne (s : Bytes) (hs : (Json.parse s).isNone = true) : print v ≠ s := by
    rintro rfl
    rw [hparse] at hs
    cases hs
  rw [parseImprecise, if_neg (hne _ (by decide +kernel)), if_neg (hne _ (by decide +kernel)),
    if_neg (hne _ (by decide +kernel)), hparse]

theorem parsed_parseImprecise {s : Bytes} {v : Value} (h : parseImprecise s = some v) :
    v.Parsed := by
  unfold parseImprecise at h
  split at h
  · cases h
    exact trivial
  · split at h
    · cases h
      exact trivial
    · split at h
      · cases h
        exact List.forall_mem_singleton.2 trivial
      · exact compact.parsed_parse h

def imprecise : Engine where
  serialize := serializeImprecise
  parse := parseImprecise
  parse_serialize _ h := (congrArg parseImprecise (serializeImprecise_of_storable h)).trans
    (parseImprecise_print h)
  utf8_serialize v h := (serializeImprecise_of_storable h).symm ▸ compact.utf8_serialize v h
  parsed_parse := parsed_parseImprecise

/-- One item with a double in its text, and a decoder of what that double is printed as. -/
def readingCodec : Codec Unit where
  encode _ := text "9.057183319259406E0"
  decode _ data := if data = text "9.057183319259407E0" then some () else none

/-- The item comes back from what its text is serialised to after parsing, and the vector of it does
not come back. -/
theorem vector_loses_double :
    (∀ item draw, ∃ v, imprecise.parse (readingCodec.encode item) = some v ∧
      readingCodec.decode draw (imprecise.serialize v) = some item) ∧
    ∃ data, encodeVector imprecise readingCodec [()] = .ok data ∧
      ∀ draws, decodeVector imprecise readingCodec draws data = none := by
  have hread : imprecise.parse (text "9.057183319259406E0") = some (.double smaller) := rfl
  refine ⟨fun _ _ => ⟨_, hread, rfl⟩, imprecise.serialize (.array [.double smaller]),
    encodeVector_eq_ok.2 ⟨_, .cons hread .nil, rfl⟩, fun draws => ?_⟩
  rw [Option.eq_none_iff_forall_ne_some]
  intro items hitems
  obtain ⟨elements, hparse, hdecodes⟩ := decodeVector_eq_some.1 hitems
  have hlarger : imprecise.parse (imprecise.serialize (.array [.double smaller])) =
      some (.array [.double larger]) := rfl
  rw [hlarger, Option.some.injEq, Value.array.injEq] at hparse
  subst hparse
  obtain ⟨_, _, hitem, -⟩ := decodes_cons.1 hdecodes
  cases hitem

end Prapancha.JsonCodec
