import Prapancha.Base.Runs
import Prapancha.Server.Persistence

/-!
# The store as a finite map

A store whose codec round-trips behaves as a map from identifiers to models: every answer in a run
of calls from an empty directory is the one the map gives.  The correspondence between directory
and map is `Represents`.
-/

namespace Prapancha.FilePersistence

open Fs

/-- A codec that brings every model back, from a text that is not empty. -/
structure Lawful {M : Type} (C : Codec M) : Prop where
  decode_encode : ∀ draw m, C.decode draw (C.encode m) = some m
  encode_ne_nil : ∀ m, C.encode m ≠ []

variable {M : Type}

/-! ## The correspondence -/

/-- The directory holds the encoding of each live model under its canonical name, and nothing
else. -/
structure Represents (C : Codec M) (d : Directory) (map : UUID → Option M) : Prop where
  lookup : ∀ id, d.lookup (getPath id) = (map id).map fun m => .regular (C.encode m)
  canonical : ∀ name ∈ d, ∃ id, name = getPath id

variable {C : Codec M} {d : Directory} {map : UUID → Option M}

namespace Represents

theorem empty : Represents C ∅ fun _ => none where
  lookup _ := Finmap.lookup_empty _
  canonical _ h := (Finmap.notMem_empty h).elim

theorem writable (h : Represents C d map) (id : UUID) : d.Writable (getPath id) := by
  intro kind opened hopened
  rw [h.lookup] at hopened
  cases hm : map id <;> rw [hm] at hopened <;> cases hopened

theorem load_eq (hC : Lawful C) (h : Represents C d map) (draw : Draw) (id : UUID) :
    load C draw d id = .ok (map id) := by
  have hlookup := h.lookup id
  cases hm : map id with
  | none =>
    rw [hm] at hlookup
    exact load_of_absent C hlookup draw
  | some m =>
    rw [hm] at hlookup
    rw [load_of_regular C hlookup, if_neg (hC.encode_ne_nil m), hC.decode_encode]

theorem mem_iff (h : Represents C d map) (id : UUID) : getPath id ∈ d ↔ (map id).isSome := by
  rw [← Finmap.lookup_isSome, h.lookup, Option.isSome_map]

theorem isRegular (h : Represents C d map) {id : UUID} (hid : (map id).isSome) :
    d.isRegular (getPath id) = .ok true := by
  obtain ⟨m, hm⟩ := Option.isSome_iff_exists.1 hid
  apply Directory.isRegular_of_lookup
  rw [h.lookup, hm]
  rfl

theorem removed (h : Represents C d map) (id : UUID) :
    Represents C (remove d id).2 (Function.update map id none) := by
  refine ⟨fun id' => ?_, fun name hname => ?_⟩
  · by_cases hid : id' = id
    · subst hid
      rw [Function.update_self]
      exact Finmap.lookup_erase _ _
    · rw [Function.update_of_ne hid, ← h.lookup]
      exact Finmap.lookup_erase_ne (getPath_ne hid)
  · exact h.canonical name (Finmap.mem_erase.1 hname).2

/-- The name scan finds the live models: every name is canonical, and its stem gives its
identifier back. -/
theorem all_eq (hC : Lawful C) (h : Represents C d map) (draws : FileName → Draw)
    {names : List FileName} (hnames : d.Lists names) :
    ∃ l, all C draws d (some names) = .ok l ∧ Enumerates map l := by
  obtain ⟨hnodup, hmem⟩ := hnames
  have hcanonical : ∀ name ∈ names, ∃ id, name = getPath id :=
    fun name hname => h.canonical name ((hmem name).1 hname)
  obtain ⟨ids, rfl⟩ : ∃ ids : List UUID, names = ids.map getPath := by
    clear hnodup hmem
    induction names with
    | nil => exact ⟨[], rfl⟩
    | cons name names ih =>
      obtain ⟨id, rfl⟩ := hcanonical _ List.mem_cons_self
      obtain ⟨ids, rfl⟩ := ih fun name hname => hcanonical name (List.mem_cons_of_mem _ hname)
      exact ⟨id :: ids, rfl⟩
  have hids : ∀ id, id ∈ ids ↔ (map id).isSome := by
    intro id
    rw [← h.mem_iff, ← hmem, List.mem_map_of_injective getPath_injective]
  have hvisited : ∀ id ∈ ids, visited C draws d (getPath id) = map id := by
    intro id hid
    have hregular := h.isRegular ((hids id).1 hid)
    simp [visited, hregular, h.load_eq hC]
  refine ⟨ids.filterMap map, (visit_eq_ok C).2 ⟨?_, ?_⟩, ids, hnodup.of_map _, hids, rfl⟩
  · intro name hname
    obtain ⟨id, hid, rfl⟩ := List.mem_map.1 hname
    exact ⟨true, h.isRegular ((hids id).1 hid), fun _ _ => ⟨id, map id, by simp, h.load_eq hC _ id⟩⟩
  · rw [List.filterMap_map]
    exact List.filterMap_congr fun id hid => (hvisited id hid).symm

theorem saved [Model M] (h : Represents C d map) (m : M) :
    Represents C (save C d m .succeeds) (Function.update map (Model.id m) (some m)) := by
  have hsave : save C d m .succeeds = _ := save_of_writable C (by decide) (h.writable _)
  refine ⟨fun id => ?_, fun name hname => ?_⟩
  · by_cases hid : id = Model.id m
    · subst hid
      rw [hsave, Finmap.lookup_insert, Function.update_self]
      rfl
    · rw [lookup_save_ne C (getPath_ne hid), Function.update_of_ne hid, h.lookup]
  · rw [hsave, Finmap.mem_insert] at hname
    rcases hname with rfl | hname
    · exact ⟨_, rfl⟩
    · exact h.canonical name hname

end Represents

variable [Model M]

/-! ## Runs of calls -/

inductive Event (M : Type)
  | saved (m : M)
  | loaded (id : UUID) (answer : Except Exn (Option M))
  | listed (answer : Except Exn (List M))
  | removed (id : UUID) (answer : Bool)

/-- The identifier whose model the call may change. -/
def Event.changes : Event M → Option UUID
  | .saved m => some (Model.id m)
  | .removed id _ => some id
  | _ => none

def Event.apply (map : UUID → Option M) : Event M → UUID → Option M
  | .saved m => Function.update map (Model.id m) (some m)
  | .removed id _ => Function.update map id none
  | _ => map

/-- The map after a sequence of calls, none of the identifiers having a model at first. -/
def live (events : List (Event M)) : UUID → Option M := events.foldl Event.apply fun _ => none

def Event.Answered (map : UUID → Option M) : Event M → Prop
  | .saved _ => True
  | .loaded id answer => answer = .ok (map id)
  | .listed answer => ∃ l, answer = .ok l ∧ Enumerates map l
  | .removed id answer => answer = (map id).isSome

theorem live_snoc (events : List (Event M)) (e : Event M) :
    live (events ++ [e]) = e.apply (live events) := by
  rw [live, List.foldl_append]
  rfl

theorem apply_of_changes_ne {map : UUID → Option M} {e : Event M} {id : UUID}
    (h : e.changes ≠ some id) : e.apply map id = map id := by
  cases e with
  | saved m => exact Function.update_of_ne (fun hid => h (congrArg some hid.symm)) _ _
  | removed id' answer => exact Function.update_of_ne (fun hid => h (congrArg some hid.symm)) _ _
  | _ => rfl

/-- The live model of an identifier is the one last saved under it, if no later call changed it. -/
theorem live_eq_some_iff {events : List (Event M)} {id : UUID} {m : M} :
    live events id = some m ↔ ∃ pre post, events = pre ++ .saved m :: post ∧ Model.id m = id ∧
      ∀ e ∈ post, e.changes ≠ some id := by
  induction events using List.reverseRecOn with
  | nil => simp [live]
  | append_singleton events e ih =>
    rw [live_snoc]
    by_cases h : e.changes = some id
    · constructor
      · intro hm
        cases e with
        | saved m' =>
          have hid : Model.id m' = id := Option.some.inj h
          subst hid
          simp only [Event.apply, Function.update_self, Option.some.injEq] at hm
          subst hm
          exact ⟨events, [], rfl, rfl, by simp⟩
        | removed id' answer =>
          have hid : id' = id := Option.some.inj h
          subst hid
          simp [Event.apply] at hm
        | _ => cases h
      · rintro ⟨pre, post, he, rfl, hpost⟩
        rcases snoc_eq_append_cons he with ⟨-, -, rfl⟩ | ⟨post, rfl, -⟩
        · simp [Event.apply]
        · exact (hpost e (by simp) h).elim
    · rw [apply_of_changes_ne h, ih]
      constructor
      · rintro ⟨pre, post, rfl, hid, hpost⟩
        refine ⟨pre, post ++ [e], by simp, hid, ?_⟩
        intro e' he'
        rcases List.mem_append.1 he' with he' | he'
        · exact hpost e' he'
        · rw [List.mem_singleton.1 he']
          exact h
      · rintro ⟨pre, post, he, hid, hpost⟩
        rcases snoc_eq_append_cons he with ⟨-, -, rfl⟩ | ⟨post, rfl, rfl⟩
        · exact (h (congrArg some hid)).elim
        · exact ⟨pre, post, rfl, hid, fun e' he' => hpost e' (List.mem_append_left _ he')⟩

/-- One call on the directory, every file-system call succeeding. -/
inductive Step (C : Codec M) : Directory → Event M → Directory → Prop
  | save (d : Directory) (m : M) : Step C d (.saved m) (save C d m .succeeds)
  | load (draw : Draw) (d : Directory) (id : UUID) : Step C d (.loaded id (load C draw d id)) d
  | all (draws : FileName → Draw) (d : Directory) (names : List FileName) :
    d.Lists names → Step C d (.listed (all C draws d (some names))) d
  | remove (d : Directory) (id : UUID) : Step C d (.removed id (remove d id).1) (remove d id).2

/-- One call: it is answered as the map says, and the correspondence is kept. -/
theorem Represents.step (hC : Lawful C) (h : Represents C d map) {e : Event M} {d' : Directory}
    (hstep : Step C d e d') : e.Answered map ∧ Represents C d' (e.apply map) := by
  cases hstep with
  | save _ m => exact ⟨trivial, h.saved m⟩
  | load draw _ id => exact ⟨h.load_eq hC draw id, h⟩
  | all draws _ names hnames => exact ⟨h.all_eq hC draws hnames, h⟩
  | remove _ id =>
    refine ⟨?_, h.removed id⟩
    rw [Event.Answered, Bool.eq_iff_iff, ← h.mem_iff]
    exact decide_eq_true_iff

theorem represents_live (hC : Lawful C) {events : List (Event M)}
    (h : Run (Step C) ∅ events d) : Represents C d (live events) := by
  refine h.induct_on (I := fun events d => Represents C d (live events)) .empty ?_
  intro events e d d' _ hd hstep
  rw [live_snoc]
  exact (hd.step hC hstep).2

theorem lookup_of_changes_ne {e : Event M} {d' : Directory} (hstep : Step C d e d') {id : UUID}
    (h : e.changes ≠ some id) : d'.lookup (getPath id) = d.lookup (getPath id) := by
  cases hstep with
  | save _ m => exact lookup_save_ne C (getPath_ne fun hid => h (congrArg some hid.symm))
  | remove _ id' => exact Finmap.lookup_erase_ne (getPath_ne fun hid => h (congrArg some hid.symm))
  | _ => rfl

/-- Every answer of a run is the one that the map of the calls before it gives; afterwards each
load gives the live model; and no further call on one identifier changes what is loaded or removed
under another. -/
theorem store_refines_map (hC : Lawful C) {events : List (Event M)}
    (h : Run (Step C) ∅ events d) :
    (∀ pre e post, events = pre ++ e :: post → e.Answered (live pre)) ∧
    (∀ draw id, load C draw d id = .ok (live events id)) ∧
    ∀ e d', Step C d e d' → ∀ id, e.changes ≠ some id →
      (∀ draw, load C draw d' id = load C draw d id) ∧ (remove d' id).1 = (remove d id).1 := by
  refine ⟨fun pre e post he => ?_, (represents_live hC h).load_eq hC, fun e d' hstep id hid => ?_⟩
  · obtain ⟨d₁, d₂, hrun, hstep, -⟩ := h.step_at he
    exact ((represents_live hC hrun).step hC hstep).1
  · have hlookup := lookup_of_changes_ne hstep hid
    refine ⟨load_congr C hlookup, ?_⟩
    have hmem : getPath id ∈ d' ↔ getPath id ∈ d := by
      rw [← Finmap.lookup_isSome, hlookup, Finmap.lookup_isSome]
    simp only [remove, Directory.remove, hmem]

/-! ## A sample model -/

structure Memo where
  id : UUID
  body : Bytes
  deriving DecidableEq

instance : Model Memo := ⟨fun m => BaseModel.ofUuid m.id⟩

def memoCodec : Codec Memo where
  encode m := HexCodec.encode m.id ++ m.body
  decode _ data := (HexCodec.decode (data.take 32)).map fun id => ⟨id, data.drop 32⟩

theorem lawful_memoCodec : Lawful memoCodec where
  decode_encode _ m := by
    have hlen : (HexCodec.encode m.id).length = 32 := HexCodec.length_encode m.id
    simp only [memoCodec, List.take_left' hlen, List.drop_left' hlen, HexCodec.decode_encode]
    rfl
  encode_ne_nil m := by
    have hlen : 0 < (HexCodec.encode m.id ++ m.body).length := by
      rw [List.length_append, HexCodec.length_encode]
      exact Nat.add_pos_left (by decide) _
    exact List.ne_nil_of_length_pos hlen

def memo (body : Bytes) : Memo := ⟨default, body⟩

theorem store_refines_map_memo :
    load memoCodec default
      (save memoCodec (save memoCodec ∅ (memo [1, 2]) .succeeds) (memo [3]) .succeeds) default =
      .ok (some (memo [3])) := by
  have hrun : Run (Step memoCodec) ∅ [.saved (memo [1, 2]), .saved (memo [3])]
      (save memoCodec (save memoCodec ∅ (memo [1, 2]) .succeeds) (memo [3]) .succeeds) :=
    (Run.nil.snoc (.save _ _)).snoc (.save _ _)
  exact (store_refines_map lawful_memoCodec hrun).2.1 _ _

end Prapancha.FilePersistence
