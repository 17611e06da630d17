import Prapancha.Verify.ModelCodec
import Prapancha.Verify.Store

/-!
# Listing and loading a directory of any content

`all` unwraps the identifier of every `.bin` file without a check, and loads through the canonical
path of that identifier whatever the spelling of the name.  `load` does not compare the identifier
inside a record with the one it was asked for.
-/

namespace Prapancha.FilePersistence

open Fs

section Listing

variable {M : Type} (C : Codec M) (draws : FileName → Draw) (d : Directory)

/-- The model that an identifier has in the directory: its canonical file is regular and can be
loaded. -/
def recordOf (id : UUID) : Option M :=
  if d.isRegular (getPath id) = .ok true then caught (load C (draws (getPath id)) d id) else none

/-- The kind of every entry can be determined; every regular `.bin` file is named by an identifier,
whose load throws nothing, and returns nothing if the name is not the canonical one. -/
def WellNamed : Prop :=
  ∀ name, ∃ regular, d.isRegular name = .ok regular ∧
    (regular = true → extension name = text ".bin" →
      ∃ id r, HexCodec.decode (stem name) = some id ∧ load C (draws name) d id = .ok r ∧
        (name ≠ getPath id → r = none))

variable {C draws d}

theorem visited_getPath (id : UUID) : visited C draws d (getPath id) = recordOf C draws d id := by
  simp [visited, recordOf]

theorem isRegular_of_recordOf {id : UUID} (h : (recordOf C draws d id).isSome) :
    d.isRegular (getPath id) = .ok true := by
  by_contra hregular
  rw [recordOf, if_neg hregular] at h
  cases h

theorem WellNamed.visitable (h : WellNamed C draws d) (name : FileName) :
    Visitable C draws d name := by
  obtain ⟨regular, hregular, hname⟩ := h name
  refine ⟨regular, hregular, fun htrue hext => ?_⟩
  obtain ⟨id, r, hid, hload, -⟩ := hname htrue hext
  exact ⟨id, r, hid, hload⟩

/-- In a well-named directory only canonical names add to the result. -/
theorem WellNamed.canonical (h : WellNamed C draws d) {name : FileName}
    (hvisited : (visited C draws d name).isSome) : ∃ id, name = getPath id := by
  by_cases hname : d.isRegular name = .ok true ∧ extension name = text ".bin"
  · obtain ⟨regular, hregular, hload⟩ := h name
    rw [hname.1, Except.ok.injEq] at hregular
    obtain ⟨id, r, hid, hload, hcanonical⟩ := hload hregular.symm hname.2
    by_contra hne
    simp only [not_exists] at hne
    simp [visited, hname, hid, hload, hcanonical (hne id)] at hvisited
  · simp [visited, hname] at hvisited

def sourceId (C : Codec M) (draws : FileName → Draw) (d : Directory) (name : FileName) :
    Option UUID :=
  if (visited C draws d name).isSome then HexCodec.decode (stem name) else none

theorem WellNamed.sourceId_eq_some (h : WellNamed C draws d) {name : FileName} {id : UUID} :
    sourceId C draws d name = some id ↔ name = getPath id ∧ (recordOf C draws d id).isSome := by
  constructor
  · intro hsource
    by_cases hvisited : (visited C draws d name).isSome
    · obtain ⟨id', rfl⟩ := h.canonical hvisited
      rw [sourceId, if_pos hvisited, stem_getPath, HexCodec.decode_encode, Option.some.injEq]
        at hsource
      rw [← hsource]
      rw [visited_getPath] at hvisited
      exact ⟨rfl, hvisited⟩
    · rw [sourceId, if_neg hvisited] at hsource
      cases hsource
  · rintro ⟨rfl, hrecord⟩
    rw [← visited_getPath] at hrecord
    rw [sourceId, if_pos hrecord, stem_getPath, HexCodec.decode_encode]

/-- In a well-named directory the names visited enumerate the models. -/
theorem WellNamed.enumerates (h : WellNamed C draws d) {names : List FileName}
    (hnames : d.Lists names) :
    Enumerates (recordOf C draws d) (names.filterMap (visited C draws d)) := by
  refine ⟨names.filterMap (sourceId C draws d), ?_, fun id => ?_, ?_⟩
  · apply hnames.1.filterMap
    intro a b id ha hb
    rw [(h.sourceId_eq_some.1 ha).1, (h.sourceId_eq_some.1 hb).1]
  · rw [List.mem_filterMap]
    constructor
    · rintro ⟨name, -, hname⟩
      exact (h.sourceId_eq_some.1 hname).2
    · intro hid
      have hmem := (hnames.2 _).2 (Directory.mem_of_isRegular (isRegular_of_recordOf hid))
      exact ⟨getPath id, hmem, h.sourceId_eq_some.2 ⟨rfl, hid⟩⟩
  · rw [List.filterMap_filterMap]
    apply List.filterMap_congr
    intro name _
    cases hvisited : visited C draws d name with
    | none => simp [sourceId, hvisited]
    | some m =>
      obtain ⟨id, rfl⟩ := h.canonical (by rw [hvisited]; rfl)
      have hrecord : recordOf C draws d id = some m := by rw [← visited_getPath, hvisited]
      have hsource := h.sourceId_eq_some.2 ⟨rfl, by rw [hrecord]; rfl⟩
      rw [hsource, Option.bind_some, hrecord]

/-- Were a file that is not named canonically to add a model, the result would be longer than the
number of identifiers that have one. -/
theorem not_visited_of_enumerates {names : List FileName} (hnames : d.Lists names)
    (h : Enumerates (recordOf C draws d) (names.filterMap (visited C draws d))) {name : FileName}
    (hname : ∀ id, name ≠ getPath id) : visited C draws d name = none := by
  obtain ⟨ids, hnodup, hids, hl⟩ := h
  cases hvisited : visited C draws d name with
  | none => rfl
  | some m =>
    have hregular : d.isRegular name = .ok true := by
      by_contra hregular
      simp [visited, hregular] at hvisited
    have hcanonical : ∀ id ∈ ids,
        getPath id ∈ names.filter fun n => (visited C draws d n).isSome := by
      intro id hid
      have hrecord := (hids id).1 hid
      refine List.mem_filter.2 ⟨?_, by rwa [visited_getPath]⟩
      exact (hnames.2 _).2 (Directory.mem_of_isRegular (isRegular_of_recordOf hrecord))
    have hsub : (name :: ids.map getPath) ⊆ names.filter fun n => (visited C draws d n).isSome := by
      intro n hn
      rcases List.mem_cons.1 hn with rfl | hn
      · refine List.mem_filter.2 ⟨(hnames.2 _).2 (Directory.mem_of_isRegular hregular), ?_⟩
        rw [hvisited]
        rfl
      · obtain ⟨id, hid, rfl⟩ := List.mem_map.1 hn
        exact hcanonical id hid
    have hnd : (name :: ids.map getPath).Nodup := by
      refine List.nodup_cons.2 ⟨fun hmem => ?_, hnodup.map getPath_injective⟩
      obtain ⟨id, -, hid⟩ := List.mem_map.1 hmem
      exact hname id hid.symm
    have hle := (hnd.subperm hsub).length_le
    have hlen : (names.filter fun n => (visited C draws d n).isSome).length = ids.length := by
      rw [← List.countP_eq_length_filter, ← List.length_filterMap_eq_countP, hl,
        List.length_filterMap_eq_countP, List.countP_eq_length]
      exact fun id hid => (hids id).1 hid
    rw [List.length_cons, List.length_map, hlen] at hle
    omega

/-- `all` returns, with exactly one model for each identifier that has one, if and only if the
directory is well named. -/
theorem all_enumerates_iff {names : List FileName} (hnames : d.Lists names) :
    (∃ l, all C draws d (some names) = .ok l ∧ Enumerates (recordOf C draws d) l) ↔
      WellNamed C draws d := by
  constructor
  · rintro ⟨l, hall, hl⟩ name
    obtain ⟨hvisit, rfl⟩ := (visit_eq_ok C).1 hall
    by_cases hmem : name ∈ d
    · obtain ⟨regular, hregular, hname⟩ := hvisit name ((hnames.2 _).2 hmem)
      refine ⟨regular, hregular, ?_⟩
      rintro rfl hext
      obtain ⟨id, r, hid, hload⟩ := hname rfl hext
      refine ⟨id, r, hid, hload, fun hne => ?_⟩
      have hother : ∀ id', name ≠ getPath id' := by
        rintro id' rfl
        rw [stem_getPath, HexCodec.decode_encode, Option.some.injEq] at hid
        exact hne (by rw [hid])
      have hvisited := not_visited_of_enumerates hnames hl hother
      simpa [visited, hregular, hext, hid, hload] using hvisited
    · exact ⟨false, Directory.isRegular_of_notMem hmem, fun h => by cases h⟩
  · intro h
    exact ⟨_, (visit_eq_ok C).2 ⟨fun name _ => h.visitable name, rfl⟩, h.enumerates hnames⟩

/-- The models that the loop collects, each with the file it visited and the identifier of its
name. -/
theorem exists_sources {names : List FileName} {l : List M}
    (h : all C draws d (some names) = .ok l) :
    ∃ sources : List (FileName × UUID × M), l = sources.map (fun x => x.2.2) ∧
      (sources.map fun x => x.1).Sublist names ∧
      ∀ x ∈ sources, HexCodec.decode (stem x.1) = some x.2.1 ∧
        load C (draws x.1) d x.2.1 = .ok (some x.2.2) := by
  obtain ⟨-, rfl⟩ := (visit_eq_ok C).1 h
  clear h
  induction names with
  | nil => exact ⟨[], rfl, .slnil, by simp⟩
  | cons name names ih =>
    obtain ⟨sources, hl, hsub, hsources⟩ := ih
    cases hvisited : visited C draws d name with
    | none => exact ⟨sources, by rw [List.filterMap_cons_none hvisited, hl], hsub.cons _, hsources⟩
    | some m =>
      have hload : ∃ id, HexCodec.decode (stem name) = some id ∧
          load C (draws name) d id = .ok (some m) := by
        unfold visited at hvisited
        split at hvisited
        · obtain ⟨id, hid, hm⟩ := Option.bind_eq_some_iff.1 hvisited
          exact ⟨id, hid, caught_eq_some.1 hm⟩
        · cases hvisited
      obtain ⟨id, hid, hload⟩ := hload
      refine ⟨(name, id, m) :: sources, by rw [List.filterMap_cons_some hvisited, hl]; rfl,
        hsub.cons_cons _, ?_⟩
      rintro x hx
      rcases List.mem_cons.1 hx with rfl | hx
      · exact ⟨hid, hload⟩
      · exact hsources x hx

end Listing

/-- A stored memo, a foreign file, and a directory with the extension of a record. -/
def shared : Directory :=
  ((Finmap.singleton (getPath default) (.regular (memoCodec.encode (memo [7])))).insert
    (text "README.txt") (.regular [1])).insert (text "trash.bin") (.special (.ok false) none)

theorem lists_shared : shared.Lists [text "trash.bin", text "README.txt", getPath default] := by
  refine ⟨by decide, fun name => ?_⟩
  simp only [shared, Finmap.mem_insert, Finmap.mem_singleton, List.mem_cons, List.not_mem_nil,
    or_false]

theorem all_enumerates_shared :
    ∃ l, all memoCodec (fun _ => default) shared
        (some [text "trash.bin", text "README.txt", getPath default]) = .ok l ∧
      Enumerates (recordOf memoCodec (fun _ => default) shared) l := by
  apply (all_enumerates_iff lists_shared).2
  intro name
  by_cases hmem : name ∈ shared
  · rcases List.mem_cons.1 ((lists_shared.2 name).2 hmem) with rfl | hmem
    · exact ⟨false, by decide, nofun⟩
    · rcases List.mem_cons.1 hmem with rfl | hmem
      · exact ⟨true, by decide, fun _ hext => absurd hext (by decide)⟩
      · rw [List.mem_singleton.1 hmem]
        refine ⟨true, by decide, fun _ _ => ⟨default, some (memo [7]), ?_, by decide, ?_⟩⟩
        · rw [stem_getPath, HexCodec.decode_encode]
        · exact fun hne => (hne rfl).elim
  · exact ⟨false, Directory.isRegular_of_notMem hmem, nofun⟩

def notes : Directory := Finmap.singleton (text "notes.bin") (.regular [1])

/-- A foreign `.bin` file makes the listing throw. -/
theorem all_throws :
    notes.Lists [text "notes.bin"] ∧
      all memoCodec (fun _ => default) notes (some [text "notes.bin"]) =
        .error .badOptionalAccess := by
  refine ⟨⟨List.nodup_singleton _, fun name => ?_⟩, by decide⟩
  rw [notes, Finmap.mem_singleton, List.mem_singleton]

/-- So does an entry whose kind cannot be determined, whatever its name. -/
example : all memoCodec (fun _ => default) (Finmap.singleton (text "latest") .selfLink)
    (some [text "latest"]) = .error .filesystemError := by
  decide

/-! ## The identifier of a loaded model -/

section Identity

open Json JsonCodec

variable (J : Engine) {M : Type}

/-- The record under the canonical name of `id`, if it is a JSON object, carries complete metadata
and the identifier `id`. -/
def Keyed (d : Directory) (id : UUID) : Prop :=
  ∀ (file : Stream) (buffer : Bytes) (object : Object), d.openRead (getPath id) = some file →
    file.contents = .ok (some buffer) → J.parse buffer = some (.object object) →
      (∃ s, object.ifContains (text "id") = some (.string s) ∧ HexCodec.decode s = some id) ∧
        (object.ifContains (text "version")).isSome ∧ (object.ifContains (text "created_at")).isSome

/-- A decoded model has the identity that its text spells, or was created for want of metadata. -/
def KeepsIdentity [Model M] (C : Codec M) : Prop :=
  ∀ draw data m, C.decode draw data = some m → ∃ object, J.parse data = some (.object object) ∧
    (Spells object (Model.base m) ∨ (NoMetadata object ∧ Fresh draw (Model.base m)))

theorem keepsIdentity_userIdentityCodec (H : Security.HashAlgorithm) :
    KeepsIdentity J (userIdentityCodec J H) :=
  fun _ _ _ h => decodeUserIdentity_base J h

theorem keepsIdentity_authorCodec : KeepsIdentity J (authorCodec J) := by
  intro draw data a h
  obtain ⟨object, hobject, hspells⟩ := decodeAuthor_base J h
  exact ⟨object, hobject, .inl hspells⟩

theorem keepsIdentity_postCodec : KeepsIdentity J (postCodec J) :=
  fun _ _ _ h => decodePost_base J h

theorem load_eq_some {C : Codec M} {draw : Draw} {d : Directory} {id : UUID} {m : M}
    (h : load C draw d id = .ok (some m)) :
    ∃ file buffer, d.openRead (getPath id) = some file ∧ file.contents = .ok (some buffer) ∧
      C.decode draw buffer = some m := by
  unfold load at h
  split at h
  · cases h
  · next file hfile =>
    split at h
    · cases h
    · obtain ⟨contents, hcontents, h⟩ := bind_eq_ok.1 h
      cases contents with
      | none => cases h
      | some buffer => exact ⟨file, buffer, hfile, hcontents, by simpa [pure, Except.pure] using h⟩

variable {J} [Model M] {C : Codec M} {d : Directory}

theorem id_of_load (hC : KeepsIdentity J C) {draw : Draw} {id : UUID} {m : M} (hd : Keyed J d id)
    (h : load C draw d id = .ok (some m)) : Model.id m = id := by
  obtain ⟨file, buffer, hfile, hcontents, hdecode⟩ := load_eq_some h
  obtain ⟨object, hobject, hspells⟩ := hC draw buffer m hdecode
  obtain ⟨⟨s, hs, hid⟩, hversion, hcreated⟩ := hd file buffer object hfile hcontents hobject
  rcases hspells with hspells | ⟨hno, -⟩
  · obtain ⟨s', hs', hid'⟩ := hspells.id
    rw [hs, Option.some.injEq, Value.string.injEq] at hs'
    rw [← hs', hid, Option.some.injEq] at hid'
    exact hid'.symm
  · rcases hno with h | h | h | ⟨s', hs', hid'⟩
    · rw [h] at hs
      cases hs
    · rw [h] at hversion
      cases hversion
    · rw [h] at hcreated
      cases hcreated
    · rw [hs, Option.some.injEq, Value.string.injEq] at hs'
      rw [← hs', hid] at hid'
      cases hid'

/-- A save of a model that its codec writes as a JSON object leaves a keyed record. -/
theorem keyed_save {m : M} {object : Object} (hencode : C.encode m = J.serialize (.object object))
    (hstorable : Value.Storable (.object object))
    (hwritten : Written object (Model.base m).metadata)
    (hw : d.Writable (getPath (Model.id m))) : Keyed J (save C d m .succeeds) (Model.id m) := by
  intro file buffer object' hfile hcontents hparse
  rw [save_of_writable C (by decide) hw, Directory.openRead, Finmap.lookup_insert,
    Option.bind_some, Entry.openRead, Option.some.injEq] at hfile
  subst hfile
  cases hcontents
  rw [written, hencode, J.parse_serialize _ hstorable, Value.reread, Option.some.injEq,
    Value.object.injEq] at hparse
  subst hparse
  simp only [Value.ifContains_rereadMembers, hwritten.id, hwritten.version, hwritten.createdAt]
  exact ⟨⟨_, rfl, HexCodec.decode_encode _⟩, rfl, rfl⟩

/-- What a store of JSON records keeps of identifiers. -/
structure KeepsIds (J : Engine) (C : Codec M) : Prop where
  /-- A keyed record loads under its own identifier. -/
  load : ∀ draw d id m, Keyed J d id → load C draw d id = .ok (some m) → Model.id m = id
  /-- Two loads of a keyed record agree on the identifier. -/
  again : ∀ draw draw' d id m m', Keyed J d id → FilePersistence.load C draw d id = .ok (some m) →
    FilePersistence.load C draw' d id = .ok (some m') → Model.id m = Model.id m'
  /-- Where all records are keyed, a listing has different identifiers for files with different
  canonical names. -/
  all : ∀ draws d names l, (∀ id, Keyed J d id) → all C draws d (some names) = .ok l →
    ∃ sources : List (FileName × UUID × M), l = sources.map (fun x => x.2.2) ∧
      (sources.map fun x => x.1).Sublist names ∧
      (∀ x ∈ sources, HexCodec.decode (stem x.1) = some x.2.1 ∧
        FilePersistence.load C (draws x.1) d x.2.1 = .ok (some x.2.2)) ∧
      ∀ x ∈ sources, ∀ y ∈ sources, getPath x.2.1 ≠ getPath y.2.1 → Model.id x.2.2 ≠ Model.id y.2.2
  /-- Any record loads with the identity that it spells, or as a model created for want of
  metadata. -/
  spelled : ∀ draw d id m, FilePersistence.load C draw d id = .ok (some m) →
    ∃ file buffer object, d.openRead (getPath id) = some file ∧
      file.contents = .ok (some buffer) ∧ J.parse buffer = some (.object object) ∧
      (Spells object (Model.base m) ∨ (NoMetadata object ∧ Fresh draw (Model.base m)))

theorem KeepsIdentity.keepsIds (hC : KeepsIdentity J C) : KeepsIds J C where
  load draw d id m := id_of_load hC
  again draw draw' d id m m' hd hm hm' := by rw [id_of_load hC hd hm, id_of_load hC hd hm']
  all draws d names l hd hall := by
    obtain ⟨sources, hl, hsub, hsources⟩ := exists_sources hall
    refine ⟨sources, hl, hsub, hsources, fun x hx y hy hne => ?_⟩
    rw [id_of_load hC (hd _) (hsources x hx).2, id_of_load hC (hd _) (hsources y hy).2]
    exact fun hid => hne (congrArg getPath hid)
  spelled draw d id m h := by
    obtain ⟨file, buffer, hfile, hcontents, hdecode⟩ := load_eq_some h
    obtain ⟨object, hobject, hspells⟩ := hC draw buffer m hdecode
    exact ⟨file, buffer, object, hfile, hcontents, hobject, hspells⟩

variable (J) in
/-- The stores of all three model types keep identifiers. -/
theorem stores_keep_ids :
    (∀ H, KeepsIds J (userIdentityCodec J H)) ∧ KeepsIds J (authorCodec J) ∧
      KeepsIds J (postCodec J) :=
  ⟨fun H => (keepsIdentity_userIdentityCodec J H).keepsIds, (keepsIdentity_authorCodec J).keepsIds,
    (keepsIdentity_postCodec J).keepsIds⟩

theorem stores_keep_ids_ancient :
    load (authorCodec compact) default (save (authorCodec compact) ∅ ancientAuthor .succeeds)
        default = .ok (some ancientAuthor) ∧ Model.id ancientAuthor = default := by
  have hw : (∅ : Directory).Writable (getPath (Model.id ancientAuthor)) :=
    Represents.empty.writable (C := memoCodec) _
  have hkeyed : Keyed compact (save (authorCodec compact) ∅ ancientAuthor .succeeds) default :=
    keyed_save rfl (storable_authorObject (by decide) (by decide))
      (written_authorObject ancientAuthor) hw
  have hload : load (authorCodec compact) default
      (save (authorCodec compact) ∅ ancientAuthor .succeeds) default =
        .ok (some ancientAuthor) := by
    decide +kernel
  exact ⟨hload, (stores_keep_ids compact).2.1.load default _ default ancientAuthor hkeyed hload⟩

def onesUuid : UUID := ⟨List.replicate 16 1, rfl⟩

/-- An author's record under the canonical name of `onesUuid`, and a post's record without an
identifier under that of the UUID of zero bytes. -/
def misfiled : Directory :=
  (Finmap.singleton (getPath onesUuid) (.regular (encodeAuthor compact ancientAuthor))).insert
    (getPath default) (.regular (compact.serialize (.object strayPost)))

/-- A load can return another model than the one asked for, and two loads of one record models with
different identifiers. -/
theorem load_can_misname :
    load (authorCodec compact) default misfiled onesUuid = .ok (some ancientAuthor) ∧
      Model.id ancientAuthor ≠ onesUuid ∧
      (caught (load (postCodec compact) default misfiled default)).map Model.id =
        some (UUID.generate default) ∧
      (caught (load (postCodec compact) ⟨1, Vector.replicate 10 0⟩ misfiled default)).map Model.id =
        some (UUID.generate ⟨1, Vector.replicate 10 0⟩) ∧
      UUID.generate default ≠ UUID.generate ⟨1, Vector.replicate 10 0⟩ := by
  decide +kernel

end Identity

end Prapancha.FilePersistence
