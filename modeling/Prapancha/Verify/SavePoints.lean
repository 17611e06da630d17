import Mathlib.Logic.Relation
import Prapancha.Verify.Store

/-!
# Saving step by step

`save` opens its file, which empties it, and then writes.  Every point where it can stop is a
reachable state of `SaveStep`; between the opening and the last octet, a load sees neither the old
model nor, in general, the new one.
-/

namespace Prapancha.FilePersistence

open Fs Relation

variable {M : Type} [Model M] (C : Codec M)

inductive SaveState
  | ready
  | failed
  /-- The file is open and `done` octets have been written. -/
  | opened (done : Nat)

/-- One step of `save` on `model`. -/
inductive SaveStep (model : M) : Directory × SaveState → Directory × SaveState → Prop
  | openFails (d : Directory) : SaveStep model (d, .ready) (d, .failed)
  | opens {d d' : Directory} : d.openTrunc (getPath (Model.id model)) = some d' →
    SaveStep model (d, .ready) (d', .opened 0)
  | writes (d : Directory) (done k : Nat) : done + k ≤ (C.encode model).length →
    SaveStep model (d, .opened done)
      (d.write (getPath (Model.id model)) done (((C.encode model).drop done).take k),
        .opened (done + k))

/-- The states of a save of `model` that starts in `d`. -/
def Reachable (model : M) (d : Directory) : Directory × SaveState → Prop :=
  ReflTransGen (SaveStep C model) (d, .ready)

variable {C} {model : M} {d : Directory}

/-- Whatever the file system does, `save` ends in a reachable state. -/
theorem reachable_save (io : SaveIo) : ∃ state, Reachable C model d (save C d model io, state) := by
  by_cases hio : io = .openFails
  · exact ⟨.failed, .single (by rw [hio, save_openFails]; exact .openFails d)⟩
  · cases hopen : d.openTrunc (getPath (Model.id model)) with
    | none =>
      have hsave : save C d model io = d := by simp only [save, if_neg hio, hopen]
      exact ⟨.ready, by rw [hsave]; exact .refl⟩
    | some d' =>
      have hsave : save C d model io =
          d'.write (getPath (Model.id model)) 0 (written io (C.encode model)) := by
        simp only [save, if_neg hio, hopen]
      have hwritten : ∃ k, k ≤ (C.encode model).length ∧
          written io (C.encode model) = (C.encode model).take k := by
        cases io with
        | openFails => exact (hio rfl).elim
        | stopsAfter n =>
          refine ⟨min n (C.encode model).length, Nat.min_le_right _ _, ?_⟩
          rw [written, ← List.take_eq_take_min]
        | succeeds => exact ⟨_, Nat.le_refl _, List.take_length.symm⟩
      obtain ⟨k, hk, hwritten⟩ := hwritten
      have hstep : SaveStep C model _ _ := .writes d' 0 k (by omega)
      rw [List.drop_zero, ← hwritten, ← hsave] at hstep
      exact ⟨_, (ReflTransGen.single (.opens hopen)).tail hstep⟩

/-- The directory of a reachable state: untouched before the file is open, then with the octets
written so far as its content. -/
theorem reachable_cases (hw : d.Writable (getPath (Model.id model))) {d' : Directory}
    {state : SaveState} (h : Reachable C model d (d', state)) :
    (d' = d ∧ (state = .ready ∨ state = .failed)) ∨
      ∃ n ≤ (C.encode model).length, state = .opened n ∧
        d' = d.insert (getPath (Model.id model)) (.regular ((C.encode model).take n)) := by
  generalize hs : (d', state) = s at h
  induction h generalizing d' state with
  | refl =>
    cases hs
    exact .inl ⟨rfl, .inl rfl⟩
  | tail _ hstep ih =>
    subst hs
    cases hstep with
    | openFails =>
      rcases ih rfl with ⟨rfl, -⟩ | ⟨n, -, h, -⟩
      · exact .inl ⟨rfl, .inr rfl⟩
      · cases h
    | opens hopen =>
      rcases ih rfl with ⟨rfl, -⟩ | ⟨n, -, h, -⟩
      · rw [Directory.openTrunc_of_writable hw, Option.some.injEq] at hopen
        exact .inr ⟨0, Nat.zero_le _, rfl, hopen.symm⟩
      · cases h
    | writes d₁ done k hk =>
      rcases ih rfl with ⟨-, h | h⟩ | ⟨n, hn, h, rfl⟩
      · cases h
      · cases h
      · cases h
        refine .inr ⟨done + k, hk, rfl, ?_⟩
        have hlen : ((C.encode model).take done).length = done := by
          rw [List.length_take, Nat.min_eq_left hn]
        have hoverwrite := Directory.overwrite_length ((C.encode model).take done)
          (((C.encode model).drop done).take k)
        rw [hlen] at hoverwrite
        rw [Directory.write_insert, hoverwrite, List.take_add]

theorem reachable_opened (hw : d.Writable (getPath (Model.id model))) {n : Nat}
    (hn : n ≤ (C.encode model).length) :
    Reachable C model d
      (d.insert (getPath (Model.id model)) (.regular ((C.encode model).take n)), .opened n) := by
  have hopen := SaveStep.opens (C := C) (Directory.openTrunc_of_writable hw)
  have hwrite : SaveStep C model _ _ :=
    .writes (d.insert (getPath (Model.id model)) (.regular [])) 0 n (by omega)
  rw [Directory.write_insert, Directory.overwrite_nil, List.drop_zero, Nat.zero_add] at hwrite
  exact (ReflTransGen.single hopen).tail hwrite

/-- What a load sees at each point of a save over a stored record: before the file is open the old
model, then nothing, then what the decoder makes of a proper prefix, at the end the new model. -/
theorem load_during_save (hC : Lawful C) {old new : M} (hid : Model.id new = Model.id old)
    (hold : d.lookup (getPath (Model.id old)) = some (.regular (C.encode old)))
    {d' : Directory} {state : SaveState} (h : Reachable C new d (d', state)) (draw : Draw) :
    (state = .ready ∨ state = .failed → load C draw d' (Model.id old) = .ok (some old)) ∧
    (state = .opened 0 → load C draw d' (Model.id old) = .ok none) ∧
    (∀ n, state = .opened n → n ≤ (C.encode new).length ∧
      (0 < n → load C draw d' (Model.id old) = .ok (C.decode draw ((C.encode new).take n)))) ∧
    (state = .opened (C.encode new).length →
      load C draw d' (Model.id old) = .ok (some new)) := by
  have hw : d.Writable (getPath (Model.id new)) := by
    intro kind opened hopened
    rw [hid, hold] at hopened
    cases hopened
  rcases reachable_cases hw h with ⟨rfl, hstate⟩ | ⟨n, hn, rfl, rfl⟩
  · have hload := load_of_regular C hold draw
    rw [if_neg (hC.encode_ne_nil old), hC.decode_encode] at hload
    rcases hstate with rfl | rfl <;> simp [hload]
  · have hlookup : Finmap.lookup (getPath (Model.id old))
        (d.insert (getPath (Model.id new)) (.regular ((C.encode new).take n))) =
          some (.regular ((C.encode new).take n)) := by
      rw [← hid, Finmap.lookup_insert]
    have hload := load_of_regular C hlookup draw
    have hpos : 0 < n → (C.encode new).take n ≠ [] := by
      intro h0 hnil
      rcases List.take_eq_nil_iff.1 hnil with rfl | hnil
      · exact Nat.lt_irrefl 0 h0
      · exact hC.encode_ne_nil new hnil
    refine ⟨by simp, ?_, ?_, ?_⟩
    · intro h0
      cases h0
      simpa using hload
    · intro n' hn'
      cases hn'
      exact ⟨hn, fun h0 => by rw [hload, if_neg (hpos h0)]⟩
    · intro hlen
      cases hlen
      have h0 := List.length_pos_iff.2 (hC.encode_ne_nil new)
      rw [hload, if_neg (hpos h0), List.take_length, hC.decode_encode]

def stored (body : Bytes) : Directory := save memoCodec ∅ (memo body) .succeeds

theorem writable_stored (body : Bytes) (id : UUID) : (stored body).Writable (getPath id) :=
  (Represents.empty.saved (memo body)).writable id

theorem load_during_save_memo :
    load memoCodec default ((stored [7]).insert (getPath default) (.regular [])) default =
      .ok none := by
  have hold : (stored [7]).lookup (getPath (Model.id (memo [7]))) =
      some (.regular (memoCodec.encode (memo [7]))) := rfl
  have hreach : Reachable memoCodec (memo [1, 2]) (stored [7])
      ((stored [7]).insert (getPath default) (.regular []), .opened 0) :=
    reachable_opened (writable_stored [7] default) (Nat.zero_le _)
  have hid : Model.id (memo [1, 2]) = Model.id (memo [7]) := rfl
  exact (load_during_save lawful_memoCodec hid hold hreach default).2.1 rfl

/-- Over a stored memo, a load sees nothing once the file is open, and a third memo one octet before
the end. -/
theorem save_not_atomic :
    load memoCodec default (stored [7]) default = .ok (some (memo [7])) ∧
    (∃ d', Reachable memoCodec (memo [1, 2]) (stored [7]) (d', .opened 0) ∧
      load memoCodec default d' default = .ok none) ∧
    (∃ d', Reachable memoCodec (memo [1, 2]) (stored [7]) (d', .opened 33) ∧
      load memoCodec default d' default = .ok (some (memo [1]))) := by
  refine ⟨by decide, ⟨_, reachable_opened (writable_stored [7] default) (Nat.zero_le _), ?_⟩,
    ⟨_, reachable_opened (writable_stored [7] default) (by decide), ?_⟩⟩
  · decide
  · decide

end Prapancha.FilePersistence
