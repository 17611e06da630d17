import Mathlib.Algebra.Group.Int.Defs
import Mathlib.Algebra.Group.Nat.Defs
import Prapancha.Base.Bytes

/-!
# JSON values

The value type of a JSON library that keeps three numeric kinds apart (`int64`, `uint64`,
`double`): its objects (association lists in insertion order), its kind-checked accessors, and
`Value.reread`, the change of kinds that a value undergoes when it is serialised and parsed again.
A double is carried by its 64 bits; nothing here looks into it.
-/

namespace Prapancha.Json

inductive Value
  | null
  | bool (b : Bool)
  | int64 (i : Int64)
  | uint64 (u : UInt64)
  | double (bits : UInt64)
  | string (s : Bytes)
  | array (elements : List Value)
  | object (members : List (Bytes × Value))

abbrev Object := List (Bytes × Value)

namespace Object

def ifContains (o : Object) (key : Bytes) : Option Value :=
  match o with
  | [] => none
  | (k, v) :: o => if k = key then some v else ifContains o key

/-- `object::operator[]` on the left of an assignment: replaces the member or appends it. -/
def set (o : Object) (key : Bytes) (value : Value) : Object :=
  match o with
  | [] => [(key, value)]
  | (k, v) :: o => if k = key then (k, value) :: o else (k, v) :: set o key value

def at? (o : Object) (key : Bytes) : Except Exn Value :=
  match o.ifContains key with
  | some v => .ok v
  | none => .error .missingKey

@[simp] theorem at?_eq_ok {o : Object} {key : Bytes} {v : Value} :
    o.at? key = .ok v ↔ o.ifContains key = some v := by
  unfold at?
  split
  · next w hw => simp [hw]
  · next hnone => simp [hnone]

abbrev keys (o : Object) : List Bytes := o.map Prod.fst

@[simp] theorem ifContains_set_self (o : Object) (key : Bytes) (v : Value) :
    (o.set key v).ifContains key = some v := by
  induction o with
  | nil => simp [set, ifContains]
  | cons m o ih =>
    obtain ⟨k, w⟩ := m
    by_cases h : k = key
    · simp [set, ifContains, h]
    · simp [set, ifContains, h, ih]

theorem ifContains_set_ne {key key' : Bytes} (h : key ≠ key') (o : Object) (v : Value) :
    (o.set key v).ifContains key' = o.ifContains key' := by
  induction o with
  | nil => simp [set, ifContains, h]
  | cons m o ih =>
    obtain ⟨k, w⟩ := m
    by_cases hk : k = key
    · subst hk; simp [set, ifContains, h]
    · simp [set, ifContains, hk, ih]

theorem mem_keys_set {o : Object} {key k : Bytes} {v : Value} :
    k ∈ (o.set key v).keys ↔ k = key ∨ k ∈ o.keys := by
  induction o with
  | nil => simp [set, keys]
  | cons m o ih =>
    obtain ⟨k', w⟩ := m
    simp only [keys] at ih
    by_cases h : k' = key
    · subst h; simp [set, keys]
    · simp only [set, h, if_false, keys, List.map_cons, List.mem_cons, ih]
      tauto

theorem mem_set {o : Object} {key : Bytes} {v : Value} {m : Bytes × Value}
    (h : m ∈ o.set key v) : m = (key, v) ∨ m ∈ o := by
  induction o with
  | nil => exact .inl (List.mem_singleton.1 h)
  | cons m' o ih =>
    obtain ⟨k', w⟩ := m'
    by_cases hk : k' = key
    · subst hk
      simp only [set, if_true, List.mem_cons] at h
      rcases h with h | h
      · exact .inl h
      · exact .inr (List.mem_cons_of_mem _ h)
    · simp only [set, hk, if_false, List.mem_cons] at h
      rcases h with rfl | h
      · exact .inr List.mem_cons_self
      · rcases ih h with h | h
        · exact .inl h
        · exact .inr (List.mem_cons_of_mem _ h)

theorem nodup_set {o : Object} (h : o.keys.Nodup) (key : Bytes) (v : Value) :
    (o.set key v).keys.Nodup := by
  induction o with
  | nil => simp [set, keys]
  | cons m o ih =>
    obtain ⟨k', w⟩ := m
    rw [keys, List.map_cons, List.nodup_cons] at h
    by_cases hk : k' = key
    · subst hk
      simp only [set, if_true, keys, List.map_cons, List.nodup_cons]
      exact h
    · simp only [set, hk, if_false, keys, List.map_cons, List.nodup_cons]
      refine ⟨fun hm => ?_, ih h.2⟩
      rcases mem_keys_set.1 hm with rfl | hm
      · exact hk rfl
      · exact h.1 hm

theorem set_of_not_mem {o : Object} {key : Bytes} (h : key ∉ o.keys) (v : Value) :
    o.set key v = o ++ [(key, v)] := by
  induction o with
  | nil => rfl
  | cons m o ih =>
    obtain ⟨k', w⟩ := m
    rw [keys, List.map_cons, List.mem_cons, not_or] at h
    simp [set, Ne.symm h.1, ih h.2]

theorem mem_of_ifContains {o : Object} {key : Bytes} {v : Value}
    (h : o.ifContains key = some v) : (key, v) ∈ o := by
  induction o with
  | nil => cases h
  | cons m o ih =>
    obtain ⟨k', w⟩ := m
    by_cases hk : k' = key
    · subst hk
      simp only [ifContains, if_true, Option.some.injEq] at h
      subst h
      exact List.mem_cons_self
    · simp only [ifContains, hk, if_false] at h
      exact List.mem_cons_of_mem _ (ih h)

theorem ifContains_map (f : Value → Value) (o : Object) (key : Bytes) :
    ifContains (o.map fun m => (m.1, f m.2)) key = (o.ifContains key).map f := by
  induction o with
  | nil => rfl
  | cons m o ih =>
    obtain ⟨k', w⟩ := m
    by_cases hk : k' = key
    · simp [ifContains, hk]
    · simp [ifContains, hk, ih]

end Object

namespace Value

/-! ## Accessors

`value::is_x`, `value::if_x`, and `value::as_x`, which throws on another kind. -/

def isObject : Value → Bool
  | .object _ => true
  | _ => false

def ifObject : Value → Option Object
  | .object o => some o
  | _ => none

def asObject : Value → Except Exn Object
  | .object o => .ok o
  | _ => .error .kind

def asString : Value → Except Exn Bytes
  | .string s => .ok s
  | _ => .error .kind

def asBool : Value → Except Exn Bool
  | .bool b => .ok b
  | _ => .error .kind

def asInt64 : Value → Except Exn Int64
  | .int64 i => .ok i
  | _ => .error .kind

def asUInt64 : Value → Except Exn UInt64
  | .uint64 u => .ok u
  | _ => .error .kind

@[simp] theorem asObject_eq_ok {v : Value} {o : Object} : v.asObject = .ok o ↔ v = .object o := by
  cases v <;> simp [asObject]

@[simp] theorem asInt64_eq_ok {v : Value} {i : Int64} : v.asInt64 = .ok i ↔ v = .int64 i := by
  cases v <;> simp [asInt64]

@[simp] theorem asString_eq_ok {v : Value} {s : Bytes} : v.asString = .ok s ↔ v = .string s := by
  cases v <;> simp [asString]

@[simp] theorem asUInt64_eq_ok {v : Value} {u : UInt64} : v.asUInt64 = .ok u ↔ v = .uint64 u := by
  cases v <;> simp [asUInt64]

@[simp] theorem ifObject_eq_some {v : Value} {o : Object} :
    v.ifObject = some o ↔ v = .object o := by
  cases v <;> simp [ifObject]

/-- The integer that a value of an integer kind denotes. -/
def toInt? : Value → Option Int
  | .int64 i => some i.toInt
  | .uint64 u => some u.toNat
  | _ => none

/-! ## Serialising and parsing again -/

/-- The kind an unsigned integer has after a trip through text: `int64` when it fits. -/
def ofParsedUInt64 (u : UInt64) : Value :=
  if u.toNat < 2 ^ 63 then .int64 u.toInt64 else .uint64 u

theorem ofParsedUInt64_of_lt {u : UInt64} (h : u.toNat < 2 ^ 63) :
    ofParsedUInt64 u = .int64 u.toInt64 :=
  if_pos h

theorem ofParsedUInt64_of_le {u : UInt64} (h : 2 ^ 63 ≤ u.toNat) : ofParsedUInt64 u = .uint64 u :=
  if_neg (Nat.not_lt.2 h)

mutual

/-- What a value becomes when it is serialised and parsed again. -/
def reread : Value → Value
  | .null => .null
  | .bool b => .bool b
  | .int64 i => .int64 i
  | .uint64 u => ofParsedUInt64 u
  | .double bits => .double bits
  | .string s => .string s
  | .array es => .array (rereadElements es)
  | .object ms => .object (rereadMembers ms)

def rereadElements : List Value → List Value
  | [] => []
  | v :: es => v.reread :: rereadElements es

def rereadMembers : List (Bytes × Value) → List (Bytes × Value)
  | [] => []
  | (k, v) :: ms => (k, v.reread) :: rereadMembers ms

end

theorem rereadElements_eq_map (es : List Value) : rereadElements es = es.map reread := by
  induction es with
  | nil => rfl
  | cons v es ih => rw [rereadElements, ih, List.map_cons]

theorem rereadMembers_eq_map (ms : List (Bytes × Value)) :
    rereadMembers ms = ms.map fun m => (m.1, m.2.reread) := by
  induction ms with
  | nil => rfl
  | cons m ms ih => obtain ⟨k, v⟩ := m; rw [rereadMembers, ih, List.map_cons]

theorem ifContains_rereadMembers (o : Object) (key : Bytes) :
    Object.ifContains (rereadMembers o) key = (o.ifContains key).map reread := by
  rw [rereadMembers_eq_map, Object.ifContains_map]

/-- A value whose scalars satisfy `scalar`, whose objects have distinct UTF-8 keys, and whose
arrays and objects are nested at most `d` deep. -/
def Fits (scalar : Value → Prop) : Nat → Value → Prop
  | 0, .array _ => False
  | 0, .object _ => False
  | d + 1, .array es => ∀ v ∈ es, Fits scalar d v
  | d + 1, .object ms => (Object.keys ms).Nodup ∧ ∀ m ∈ ms, Utf8 m.1 ∧ Fits scalar d m.2
  | _, v => scalar v

def isContainer : Value → Bool
  | .array _ => true
  | .object _ => true
  | _ => false

theorem fits_scalar {scalar : Value → Prop} {d : Nat} {v : Value} (hv : v.isContainer = false)
    (h : scalar v) : v.Fits scalar d := by
  cases d <;> cases v <;> first | exact h | cases hv

/-- Induction over a value that fits: its scalars, its arrays, its objects. -/
theorem Fits.induction {scalar : Value → Prop} {P : Nat → Value → Prop}
    (hscalar : ∀ d v, v.isContainer = false → scalar v → P d v)
    (harray : ∀ d es, (∀ v ∈ es, P d v) → P (d + 1) (.array es))
    (hobject : ∀ d ms, (Object.keys ms).Nodup → (∀ m ∈ ms, Utf8 m.1 ∧ P d m.2) →
      P (d + 1) (.object ms)) :
    ∀ {d : Nat} {v : Value}, v.Fits scalar d → P d v := by
  intro d
  induction d with
  | zero => intro v h; cases v <;> first | exact h.elim | exact hscalar _ _ rfl h
  | succ d ih =>
    intro v h
    cases v with
    | array es => exact harray d es fun v hv => ih (h v hv)
    | object ms => exact hobject d ms h.1 fun m hm => ⟨(h.2 m hm).1, ih (h.2 m hm).2⟩
    | _ => exact hscalar _ _ rfl h

theorem Fits.mono {scalar scalar' : Value → Prop} (himp : ∀ v, scalar v → scalar' v) {d : Nat}
    {v : Value} (h : v.Fits scalar d) : v.Fits scalar' d :=
  Fits.induction (P := fun d v => v.Fits scalar' d) (fun _ v hv hs => fits_scalar hv (himp v hs))
    (fun _ _ ih => ih) (fun _ _ hnd ih => ⟨hnd, ih⟩) h

/-- Scalars that text can carry: UTF-8 strings, and no double. -/
def StorableScalar : Value → Prop
  | .string s => Utf8 s
  | .double _ => False
  | _ => True

/-- Scalars that a parser makes: UTF-8 strings, and an unsigned kind only beyond the signed
range. -/
def ParsedScalar : Value → Prop
  | .string s => Utf8 s
  | .uint64 u => 2 ^ 63 ≤ u.toNat
  | _ => True

/-- The same, with no other doubles than those of `Double`. -/
def ParsedWith (Double : UInt64 → Prop) (v : Value) : Prop :=
  v.ParsedScalar ∧ ∀ bits, v = .double bits → Double bits

/-- The nesting that a parser accepts by default. -/
def maxDepth : Nat := 32

/-- A value that survives a trip through text up to `reread`. -/
def Storable (v : Value) : Prop := v.Fits StorableScalar maxDepth

theorem storable_empty : Storable (.object []) := ⟨List.nodup_nil, by simp⟩

/-- Assigning a scalar member keeps an object storable. -/
theorem Storable.set {o : Object} (h : Storable (.object o)) {key : Bytes} (hkey : Utf8 key)
    (v : Value) (hv : v.isContainer = false) (hscalar : v.StorableScalar) :
    Storable (.object (o.set key v)) := by
  refine ⟨Object.nodup_set h.1 key v, fun m hm => ?_⟩
  rcases Object.mem_set hm with rfl | hm
  · exact ⟨hkey, fits_scalar hv hscalar⟩
  · exact h.2 m hm

theorem Storable.setString {o : Object} (h : Storable (.object o)) {key : Bytes} (hkey : Utf8 key)
    {s : Bytes} (hs : Utf8 s) : Storable (.object (o.set key (.string s))) :=
  h.set hkey (.string s) rfl hs

/-- An object of scalars is nested one deep. -/
theorem Storable.flat {o : Object} (h : Storable (.object o))
    (hflat : ∀ m ∈ o, m.2.isContainer = false) (d : Nat) :
    (object o).Fits StorableScalar (d + 1) := by
  refine ⟨h.1, fun m hm => ⟨(h.2 m hm).1, fits_scalar (hflat m hm) ?_⟩⟩
  have hm' := (h.2 m hm).2
  cases hv : m.2 with
  | array es => have hc := hflat m hm; rw [hv] at hc; cases hc
  | object ms => have hc := hflat m hm; rw [hv] at hc; cases hc
  | _ => rw [hv] at hm'; exact hm'

def Parsed (v : Value) : Prop := v.Fits ParsedScalar maxDepth

theorem Parsed.utf8_string {o : Object} (h : Parsed (.object o)) {key s : Bytes}
    (hs : o.ifContains key = some (.string s)) : Utf8 s :=
  (h.2 _ (Object.mem_of_ifContains hs)).2

/-- A value that was parsed has its kinds already. -/
theorem reread_eq_self {d : Nat} {v : Value} (h : v.Fits ParsedScalar d) : v.reread = v := by
  refine Fits.induction (P := fun _ v => v.reread = v) ?_ ?_ ?_ h
  · intro _ v hv hs
    cases v with
    | uint64 u => exact ofParsedUInt64_of_le hs
    | array _ => cases hv
    | object _ => cases hv
    | _ => rfl
  · intro _ es ih
    rw [reread, rereadElements_eq_map, List.map_congr_left ih, List.map_id']
  · intro _ ms _ ih
    have hmap : ms.map (fun m => (m.1, m.2.reread)) = ms :=
      (List.map_congr_left fun m hm => by rw [(ih m hm).2]).trans (List.map_id' ms)
    rw [reread, rereadMembers_eq_map, hmap]

/-- A storable value that was read again is as a parser makes it, without doubles. -/
theorem fits_reread {d : Nat} {v : Value} (h : v.Fits StorableScalar d) :
    v.reread.Fits (ParsedWith fun _ => False) d := by
  refine Fits.induction (P := fun d v => v.reread.Fits (ParsedWith fun _ => False) d) ?_ ?_ ?_ h
  · intro d v hv hs
    cases v with
    | uint64 u =>
      by_cases hu : u.toNat < 2 ^ 63
      · rw [reread, ofParsedUInt64_of_lt hu]
        exact fits_scalar rfl ⟨trivial, fun _ h => nomatch h⟩
      · rw [reread, ofParsedUInt64_of_le (Nat.not_lt.1 hu)]
        exact fits_scalar rfl ⟨Nat.not_lt.1 hu, fun _ h => nomatch h⟩
    | string s => exact fits_scalar rfl ⟨hs, fun _ h => nomatch h⟩
    | double bits => exact hs.elim
    | array _ => cases hv
    | object _ => cases hv
    | _ => exact fits_scalar rfl ⟨trivial, fun _ h => nomatch h⟩
  · intro d es ih
    rw [reread, rereadElements_eq_map]
    intro v hv
    obtain ⟨w, hw, rfl⟩ := List.mem_map.1 hv
    exact ih w hw
  · intro d ms hnd ih
    rw [reread, rereadMembers_eq_map]
    refine ⟨by rwa [Object.keys, List.map_map], fun m hm => ?_⟩
    obtain ⟨m', hm', rfl⟩ := List.mem_map.1 hm
    exact ih m' hm'

end Value

/-- A JSON library: a serialiser, a parser (`none` when it throws), and what its documentation
promises about them.  Integers are printed in decimal and read back with the kind `int64` when
they fit, texts are UTF-8, and object keys are distinct. -/
structure Engine where
  serialize : Value → Bytes
  parse : Bytes → Option Value
  parse_serialize : ∀ v : Value, v.Storable → parse (serialize v) = some v.reread
  utf8_serialize : ∀ v : Value, v.Storable → Utf8 (serialize v)
  parsed_parse : ∀ {s : Bytes} {v : Value}, parse s = some v → v.Parsed

/-- The doubles of `Double` survive a trip through text, inside any value. -/
def Engine.Keeps (J : Engine) (Double : UInt64 → Prop) : Prop :=
  ∀ v : Value, v.Fits (Value.ParsedWith Double) Value.maxDepth → J.parse (J.serialize v) = some v

/-- Values without doubles need no assumption. -/
theorem Engine.keeps_none (J : Engine) : J.Keeps fun _ => False := by
  intro v h
  have hstorable : v.Storable := by
    refine h.mono fun v hv => ?_
    cases v with
    | double bits => exact hv.2 bits rfl
    | string s => exact hv.1
    | _ => trivial
  rw [J.parse_serialize v hstorable, Value.reread_eq_self (h.mono fun _ hv => hv.1)]

end Prapancha.Json
