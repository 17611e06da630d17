import Prapancha.Fs.Directory
import Prapancha.Server.Codec.Hex
import Prapancha.Server.Model

/-!
# The file store

`FilePersistence`: one file for each model, named by the identifier.  `save` never looks at the
state of its stream, so what the file system does to it is a parameter, `SaveIo`, and does not
reach the caller.
-/

namespace Prapancha

open Fs

/-- What the file system does to one `save`. -/
inductive SaveIo
  | openFails
  /-- The file is opened and emptied, and `n` octets at most get written. -/
  | stopsAfter (n : Nat)
  | succeeds
  deriving DecidableEq

/-- The file is opened and all of `data` gets written. -/
def SaveIo.Completes (io : SaveIo) (data : Bytes) : Prop :=
  match io with
  | .openFails => False
  | .stopsAfter n => data.length ≤ n
  | .succeeds => True

namespace FilePersistence

variable {M : Type} (C : Codec M)

/-- `get_path`, relative to `directory_`. -/
def getPath (id : UUID) : FileName := HexCodec.encode id ++ text ".bin"

def written (io : SaveIo) (data : Bytes) : Bytes :=
  match io with
  | .openFails => []
  | .stopsAfter n => data.take n
  | .succeeds => data

def save [Model M] (d : Directory) (model : M) (io : SaveIo) : Directory :=
  let data := C.encode model
  let path := getPath (Model.id model)
  let file := if io = .openFails then none else d.openTrunc path
  match file with
  | none => d
  | some d => d.write path 0 (written io data)

/-- `FilePersistence::load`; the draw is for a decoder that creates a model. -/
def load (draw : Draw) (d : Directory) (id : UUID) : Except Exn (Option M) := do
  match d.openRead (getPath id) with
  | none => return none
  | some file =>
    if file.size ≤ 0 then return none
    match ← file.contents with
    | none => return none
    | some buffer => return C.decode draw buffer

def value {α : Type} : Option α → Except Exn α
  | some a => .ok a
  | none => .error .badOptionalAccess

/-- The loop of `FilePersistence::all` over the names that the iterator has still to visit. -/
def visit (draws : FileName → Draw) (d : Directory) : List FileName → Except Exn (List M)
  | [] => return []
  | name :: names => do
    if (← d.isRegular name) ∧ extension name = text ".bin" then
      match ← load C (draws name) d (← value (HexCodec.decode (stem name))) with
      | some model => return model :: (← visit draws d names)
      | none => visit draws d names
    else visit draws d names

/-- `FilePersistence::all`; `listing` is what the iterator visits, `none` without a directory. -/
def all (draws : FileName → Draw) (d : Directory) (listing : Option (List FileName)) :
    Except Exn (List M) :=
  match listing with
  | none => return []
  | some names => visit C draws d names

def remove (d : Directory) (id : UUID) : Bool × Directory := d.remove (getPath id)

/-! ## File names -/

@[simp] theorem stem_getPath (id : UUID) : stem (getPath id) = HexCodec.encode id := by
  have hlen : stemLength (getPath id) = (HexCodec.encode id).length :=
    stemLength_append (List.ne_nil_of_length_pos (by simp [UUID.hexLength, UUID.bytesLength]))
      (by decide) (.inr (by decide))
  rw [stem, hlen, getPath, List.take_left]

@[simp] theorem extension_getPath (id : UUID) : extension (getPath id) = text ".bin" := by
  have h := stem_append_extension (getPath id)
  rw [stem_getPath] at h
  exact List.append_cancel_left h

theorem getPath_injective : Function.Injective getPath := fun _ _ h =>
  HexCodec.encode_injective (List.append_cancel_right h)

theorem getPath_ne {a b : UUID} (h : a ≠ b) : getPath a ≠ getPath b :=
  fun hab => h (getPath_injective hab)

/-! ## Saving -/

theorem save_openFails [Model M] (d : Directory) (model : M) : save C d model .openFails = d := rfl

/-- A save that opens its file replaces the content by what gets written. -/
theorem save_of_writable [Model M] {d : Directory} {model : M} {io : SaveIo} (hio : io ≠ .openFails)
    (h : d.Writable (getPath (Model.id model))) :
    save C d model io =
      d.insert (getPath (Model.id model)) (.regular (written io (C.encode model))) := by
  simp only [save, if_neg hio, Directory.openTrunc_of_writable h, Directory.write_insert,
    Directory.overwrite_nil]

theorem save_of_openTrunc [Model M] {d : Directory} {model : M}
    (h : d.openTrunc (getPath (Model.id model)) = none) (io : SaveIo) : save C d model io = d := by
  simp [save, h]

theorem written_eq_iff {io : SaveIo} (hio : io ≠ .openFails) (data : Bytes) :
    written io data = data ↔ io.Completes data := by
  cases io with
  | openFails => exact (hio rfl).elim
  | stopsAfter n => exact List.take_eq_self_iff data
  | succeeds => exact iff_of_true rfl trivial

theorem written_prefix (io : SaveIo) (data : Bytes) : written io data <+: data := by
  cases io with
  | openFails => exact List.nil_prefix
  | stopsAfter n => exact List.take_prefix n data
  | succeeds => exact List.prefix_rfl

/-- After a save the file holds the encoding if all of it could be written, or if the file could
not be opened and held it already. -/
theorem lookup_save_iff [Model M] {d : Directory} {model : M} {io : SaveIo} :
    (save C d model io).lookup (getPath (Model.id model)) = some (.regular (C.encode model)) ↔
      (d.Writable (getPath (Model.id model)) ∧ io.Completes (C.encode model)) ∨
        (io = .openFails ∧
          d.lookup (getPath (Model.id model)) = some (.regular (C.encode model))) := by
  by_cases hio : io = .openFails
  · subst hio
    simp [save_openFails, SaveIo.Completes]
  · by_cases hw : d.Writable (getPath (Model.id model))
    · rw [save_of_writable C hio hw, Finmap.lookup_insert, Option.some.injEq, Entry.regular.injEq,
        written_eq_iff hio]
      simp [hw, hio]
    · have hspecial := hw
      simp only [Directory.Writable, not_forall, not_not] at hspecial
      obtain ⟨kind, opened, hopened⟩ := hspecial
      have hsave : save C d model io = d := by simp [save, Directory.openTrunc, hopened]
      rw [hsave, hopened]
      simp [hw, hio]

theorem lookup_save_ne [Model M] {d : Directory} {model : M} {io : SaveIo} {name : FileName}
    (h : name ≠ getPath (Model.id model)) : (save C d model io).lookup name = d.lookup name := by
  by_cases hio : io = .openFails
  · rw [hio, save_openFails]
  · by_cases hw : d.Writable (getPath (Model.id model))
    · rw [save_of_writable C hio hw, Finmap.lookup_insert_of_ne _ h]
    · simp only [Directory.Writable, not_forall, not_not] at hw
      obtain ⟨kind, opened, hopened⟩ := hw
      simp [save, Directory.openTrunc, hopened]

/-- What a save leaves under its name depends on what was there only. -/
theorem lookup_save_congr [Model M] {d d' : Directory} {model : M}
    (h : d.lookup (getPath (Model.id model)) = d'.lookup (getPath (Model.id model))) (io : SaveIo) :
    (save C d model io).lookup (getPath (Model.id model)) =
      (save C d' model io).lookup (getPath (Model.id model)) := by
  by_cases hio : io = .openFails
  · rw [hio, save_openFails, save_openFails, h]
  · by_cases hw : d.Writable (getPath (Model.id model))
    · rw [save_of_writable C hio hw, save_of_writable C hio (hw.congr h.symm), Finmap.lookup_insert,
        Finmap.lookup_insert]
    · simp only [Directory.Writable, not_forall, not_not] at hw
      rw [save_of_openTrunc C (Directory.openTrunc_eq_none.2 hw),
        save_of_openTrunc C (Directory.openTrunc_eq_none.2 (by rwa [← h])), h]

/-! ## Loading -/

theorem load_congr {d d' : Directory} {id : UUID}
    (h : d.lookup (getPath id) = d'.lookup (getPath id)) (draw : Draw) :
    load C draw d id = load C draw d' id := by
  simp only [load, Directory.openRead, h]

theorem load_of_absent {d : Directory} {id : UUID} (h : d.lookup (getPath id) = none)
    (draw : Draw) : load C draw d id = .ok none := by
  simp only [load, Directory.openRead, h]
  rfl

/-- A regular file is handed to the decoder unless it is empty. -/
theorem load_of_regular {d : Directory} {id : UUID} {content : Bytes}
    (h : d.lookup (getPath id) = some (.regular content)) (draw : Draw) :
    load C draw d id = .ok (if content = [] then none else C.decode draw content) := by
  simp only [load, Directory.openRead, h, Option.bind_some, Entry.openRead]
  by_cases hc : content = []
  · simp [hc, pure, Except.pure]
  · have hsize : ¬ ((content.length : Int) ≤ 0) := by
      have := List.length_pos_iff.2 hc
      omega
    simp [hc, pure, Except.pure]

/-! ## Listing -/

/-- What visiting one name adds to the result. -/
def visited (draws : FileName → Draw) (d : Directory) (name : FileName) : Option M :=
  if d.isRegular name = .ok true ∧ extension name = text ".bin" then
    (HexCodec.decode (stem name)).bind fun id => caught (load C (draws name) d id)
  else none

/-- Visiting the name throws nothing. -/
def Visitable (draws : FileName → Draw) (d : Directory) (name : FileName) : Prop :=
  ∃ regular, d.isRegular name = .ok regular ∧ (regular = true → extension name = text ".bin" →
    ∃ id r, HexCodec.decode (stem name) = some id ∧ load C (draws name) d id = .ok r)

/-- The loop returns when every name can be visited, and then with what each of them adds. -/
theorem visit_eq_ok {draws : FileName → Draw} {d : Directory} :
    ∀ {names : List FileName} {l : List M}, visit C draws d names = .ok l ↔
      (∀ name ∈ names, Visitable C draws d name) ∧ l = names.filterMap (visited C draws d) := by
  intro names
  induction names with
  | nil => intro l; simp [visit, pure, Except.pure, eq_comm]
  | cons name names ih =>
    intro l
    rw [visit, List.forall_mem_cons, List.filterMap_cons]
    cases hregular : d.isRegular name with
    | error e => simp [Visitable, hregular]
    | ok regular =>
      rw [bind_ok]
      by_cases hname : regular = true ∧ extension name = text ".bin"
      · obtain ⟨rfl, hext⟩ := hname
        rw [if_pos ⟨rfl, hext⟩]
        cases hid : HexCodec.decode (stem name) with
        | none => simp [value, Visitable, hregular, hext, hid]
        | some id =>
          cases hload : load C (draws name) d id with
          | error e => simp [value, Visitable, hregular, hext, hid, hload]
          | ok r =>
            have hvisitable : Visitable C draws d name :=
              ⟨true, hregular, fun _ _ => ⟨id, r, hid, hload⟩⟩
            have hvisited : visited C draws d name = r := by
              simp [visited, hregular, hext, hid, hload]
            simp only [value, bind_ok, hload, hvisited, hvisitable, true_and]
            cases r with
            | none => exact ih
            | some model =>
              simp only [bind_eq_ok, ih]
              constructor
              · rintro ⟨l', ⟨hl, rfl⟩, h⟩
                cases h
                exact ⟨hl, rfl⟩
              · rintro ⟨hl, rfl⟩
                exact ⟨_, ⟨hl, rfl⟩, rfl⟩
      · have hvisitable : Visitable C draws d name :=
          ⟨regular, hregular, fun h1 h2 => (hname ⟨h1, h2⟩).elim⟩
        have hvisited : visited C draws d name = none := by
          rw [visited, hregular, if_neg]
          rintro ⟨h1, h2⟩
          cases h1
          exact hname ⟨rfl, h2⟩
        rw [if_neg hname, hvisited, ih]
        simp only [hvisitable, true_and]

end FilePersistence

end Prapancha
