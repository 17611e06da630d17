import Prapancha.Verify.ConcurrentSaves

/-!
# Loads among saves

Loads and saves on one directory, their openings, writes and reads interleaved in any order.  A load
learns the size of the file when it opens it, and reads as many octets later, when the file can be
another.  With one save under each identifier, a load returns what was stored before the save or
what the save stores, or finds nothing in a file that is being replaced.
-/

namespace Prapancha.FilePersistence.Concurrent

open Fs

variable {M : Type} [Model M] {ι κ : Type}

/-! ## Interleaved steps -/

inductive LoadPhase (M : Type)
  | ready
  | measured (size : Nat)
  | returned (result : Except Exn (Option M))

structure Mixed (M ι κ : Type) where
  saves : State ι
  loads : κ → LoadPhase M

def Mixed.dir (s : Mixed M ι κ) : Directory := s.saves.dir

def Mixed.start (d : Directory) : Mixed M ι κ := ⟨Concurrent.start d, fun _ => .ready⟩

variable (C : Codec M) (models : ι → M) (draw : κ → Draw) (id : κ → UUID)

/-- What `load` makes of a file whose size it has measured before. -/
def readBack (draw : Draw) (size : Nat) (content : Bytes) : Option M :=
  if size = 0 then none
  else if size ≤ content.length then C.decode draw (content.take size)
  else none

/-- A step of a save, or of load `j`: it opens a regular file and measures it, reads it, or is done
at once where there is none. -/
inductive MixedStep [DecidableEq ι] [DecidableEq κ] : Mixed M ι κ → ι ⊕ κ → Mixed M ι κ → Prop
  | saves {s : Mixed M ι κ} {i : ι} {saves : State ι} : Step C models s.saves i saves →
    MixedStep s (.inl i) { s with saves }
  | measures {s : Mixed M ι κ} {j : κ} {content : Bytes} : s.loads j = .ready →
    s.dir.lookup (getPath (id j)) = some (.regular content) →
    MixedStep s (.inr j) { s with loads := Function.update s.loads j (.measured content.length) }
  | reads {s : Mixed M ι κ} {j : κ} {size : Nat} {content : Bytes} : s.loads j = .measured size →
    s.dir.lookup (getPath (id j)) = some (.regular content) →
    MixedStep s (.inr j) { s with
      loads := Function.update s.loads j (.returned (.ok (readBack C (draw j) size content))) }
  | irregular {s : Mixed M ι κ} {j : κ} : s.loads j = .ready →
    (∀ content, s.dir.lookup (getPath (id j)) ≠ some (.regular content)) →
    MixedStep s (.inr j) { s with
      loads := Function.update s.loads j (.returned (load C (draw j) s.dir (id j))) }

variable {C models draw id} {d : Directory}

omit [Model M] in
/-- A load that nothing comes between does what `load` does. -/
theorem load_eq_readBack {uuid : UUID} {content : Bytes}
    (h : d.lookup (getPath uuid) = some (.regular content)) (draw : Draw) :
    load C draw d uuid = .ok (readBack C draw content.length content) := by
  rw [load_of_regular C h, readBack, if_pos (Nat.le_refl _), List.take_length]
  simp only [List.length_eq_zero_iff]

/-! ## The files -/

/-- The call has opened its file. -/
def State.Began (s : State ι) (i : ι) : Prop := s.phase i = .opened ∨ s.phase i = .finished

/-- What each file holds when no two saves are under one identifier. -/
structure Files (C : Codec M) (models : ι → M) (d : Directory) (s : State ι) : Prop where
  before : ∀ name, (∀ i, path models i = name → ¬ s.Began i) →
    s.dir.lookup name = d.lookup name
  opened : ∀ i, s.phase i = .opened → s.dir.lookup (path models i) = some (.regular [])
  finished : ∀ i, s.phase i = .finished →
    s.dir.lookup (path models i) = some (.regular (C.encode (models i)))

theorem files_start : Files C models d (start d) where
  before _ _ := rfl
  opened _ hk := by cases hk
  finished _ hk := by cases hk

/-- No two saves are under one identifier. -/
def Separate (models : ι → M) : Prop :=
  ∀ i k, Model.id (models i) = Model.id (models k) → i = k

theorem Separate.path_ne (h : Separate models) {i k : ι} (hik : k ≠ i) :
    path models k ≠ path models i := fun hpath => hik (h k i (getPath_injective hpath))

section Steps

variable [DecidableEq ι] {s s' : State ι} {i k : ι}

/-- A step of one call leaves the other calls and the other files alone. -/
theorem Step.frame (hstep : Step C models s i s') : (∀ k, k ≠ i → s'.phase k = s.phase k) ∧
    ∀ name, name ≠ path models i → s'.dir.lookup name = s.dir.lookup name := by
  cases hstep with
  | opens _ hopen =>
    exact ⟨fun k hk => Function.update_of_ne hk .., fun _ => Directory.lookup_openTrunc_ne hopen⟩
  | refused => exact ⟨fun k hk => Function.update_of_ne hk .., fun _ _ => rfl⟩
  | writes =>
    exact ⟨fun k hk => Function.update_of_ne hk .., fun _ hname =>
      Directory.lookup_write_ne hname ..⟩

/-- What a step does to the call and to its file. -/
theorem Step.own (hstep : Step C models s i s') :
    (s.phase i = .ready ∧ s'.phase i = .opened ∧
      s'.dir.lookup (path models i) = some (.regular [])) ∨
    (s.phase i = .ready ∧ s'.phase i = .refused ∧ s'.dir = s.dir) ∨
    (s.phase i = .opened ∧ s'.phase i = .finished ∧
      s'.dir = s.dir.write (path models i) 0 (C.encode (models i))) := by
  cases hstep with
  | opens hready hopen =>
    refine .inl ⟨hready, Function.update_self .., ?_⟩
    show Finmap.lookup _ _ = _
    rw [Directory.openTrunc_eq_some hopen]
    exact Finmap.lookup_insert _
  | refused hready => exact .inr (.inl ⟨hready, Function.update_self .., rfl⟩)
  | writes hopened => exact .inr (.inr ⟨hopened, Function.update_self .., rfl⟩)

/-- A call that begins stays begun. -/
theorem State.Began.step (h : s.Began k) (hstep : Step C models s i s') : s'.Began k := by
  by_cases hk : k = i
  · subst hk
    rcases hstep.own with ⟨-, hphase, -⟩ | ⟨hready, -⟩ | ⟨-, hphase, -⟩
    · exact .inl hphase
    · rcases h with h | h <;> rw [hready] at h <;> cases h
    · exact .inr hphase
  · unfold State.Began
    rwa [hstep.frame.1 k hk]

theorem Files.step (hseparate : Separate models) (h : Files C models d s)
    (hstep : Step C models s i s') : Files C models d s' := by
  obtain ⟨hphases, hlookups⟩ := hstep.frame
  refine ⟨fun name hname => ?_, fun k hk => ?_, fun k hk => ?_⟩
  · have hbefore := h.before name fun k hk hb => hname k hk (hb.step hstep)
    by_cases hne : name = path models i
    · subst hne
      rcases hstep.own with ⟨-, hphase, -⟩ | ⟨-, -, hdir⟩ | ⟨-, hphase, -⟩
      · exact (hname i rfl (.inl hphase)).elim
      · rwa [hdir]
      · exact (hname i rfl (.inr hphase)).elim
    · rwa [hlookups name hne]
  · by_cases hki : k = i
    · subst hki
      rcases hstep.own with ⟨-, -, hlookup⟩ | ⟨-, hphase, -⟩ | ⟨-, hphase, -⟩
      · exact hlookup
      · rw [hphase] at hk
        cases hk
      · rw [hphase] at hk
        cases hk
    · rw [hphases k hki] at hk
      rw [hlookups _ (hseparate.path_ne hki), h.opened k hk]
  · by_cases hki : k = i
    · subst hki
      rcases hstep.own with ⟨-, hphase, -⟩ | ⟨-, hphase, -⟩ | ⟨hopened, -, hdir⟩
      · rw [hphase] at hk
        cases hk
      · rw [hphase] at hk
        cases hk
      · rw [hdir, Directory.lookup_write (h.opened k hopened), Directory.overwrite_nil]
    · rw [hphases k hki] at hk
      rw [hlookups _ (hseparate.path_ne hki), h.finished k hk]

end Steps

/-- A call that has begun leaves an empty file or its encoding. -/
theorem Files.of_began {s : State ι} {i : ι} (h : Files C models d s) (hb : s.Began i) :
    ∃ content, s.dir.lookup (path models i) = some (.regular content) ∧
      (content = [] ∨ content = C.encode (models i)) := by
  rcases hb with hopened | hfinished
  · exact ⟨_, h.opened i hopened, .inl rfl⟩
  · exact ⟨_, h.finished i hfinished, .inr rfl⟩

/-! ## What a load finds -/

/-- The decoder refuses every proper beginning of the encoding. -/
structure Whole (C : Codec M) (m : M) : Prop where
  decode_take : ∀ draw n, n < (C.encode m).length → C.decode draw ((C.encode m).take n) = none
  encode_ne_nil : C.encode m ≠ []

omit [Model M] in
theorem readBack_nil (draw : Draw) (size : Nat) : readBack C draw size [] = none := by
  unfold readBack
  split
  · rfl
  · next hsize => exact if_neg fun hle => hsize (Nat.le_zero.1 hle)

namespace Whole

variable {m : M}

omit [Model M] in
theorem readBack_length (h : Whole C m) (draw : Draw) :
    readBack C draw (C.encode m).length (C.encode m) = C.decode draw (C.encode m) := by
  have hne : (C.encode m).length ≠ 0 := fun hlen => h.encode_ne_nil (List.length_eq_zero_iff.1 hlen)
  rw [readBack, if_neg hne, if_pos (Nat.le_refl _), List.take_length]

omit [Model M] in
/-- Whatever was measured, the encoding is read back whole or not at all. -/
theorem readBack_cases (h : Whole C m) (draw : Draw) (size : Nat) :
    readBack C draw size (C.encode m) = none ∨
      readBack C draw size (C.encode m) = C.decode draw (C.encode m) := by
  rcases Nat.lt_trichotomy size (C.encode m).length with hlt | rfl | hgt
  · left
    unfold readBack
    split
    · rfl
    · rw [if_pos (Nat.le_of_lt hlt), h.decode_take draw size hlt]
  · exact .inr (h.readBack_length draw)
  · left
    unfold readBack
    split
    · rfl
    · exact if_neg (Nat.not_le.2 hgt)

end Whole

/-! ## What a load returns -/

/-- What a load has seen or returned: the file as it was before any save, or what a save makes of
it. -/
inductive Seen (C : Codec M) (models : ι → M) (draw : κ → Draw) (id : κ → UUID) (d : Directory)
    (s : Mixed M ι κ) (j : κ) : Prop
  | ready : s.loads j = .ready → Seen C models draw id d s j
  | old {content : Bytes} : s.loads j = .measured content.length →
    d.lookup (getPath (id j)) = some (.regular content) → Seen C models draw id d s j
  | new {i : ι} {size : Nat} : s.loads j = .measured size → Model.id (models i) = id j →
    s.saves.Began i → Seen C models draw id d s j
  | returnedOld : s.loads j = .returned (load C (draw j) d (id j)) → Seen C models draw id d s j
  | returnedNew {i : ι} {result : Option M} : s.loads j = .returned (.ok result) →
    Model.id (models i) = id j → s.saves.Began i →
    result = none ∨ result = C.decode (draw j) (C.encode (models i)) → Seen C models draw id d s j

namespace Seen

variable {s s' : Mixed M ι κ} {j : κ}

theorem frame (h : Seen C models draw id d s j) (hloads : s'.loads j = s.loads j)
    (hbegan : ∀ i, s.saves.Began i → s'.saves.Began i) : Seen C models draw id d s' j := by
  cases h with
  | ready hload => exact .ready (hloads.trans hload)
  | old hload hlookup => exact .old (hloads.trans hload) hlookup
  | new hload hid hb => exact .new (hloads.trans hload) hid (hbegan _ hb)
  | returnedOld hload => exact .returnedOld (hloads.trans hload)
  | returnedNew hload hid hb hresult =>
    exact .returnedNew (hloads.trans hload) hid (hbegan _ hb) hresult

variable [DecidableEq ι] [DecidableEq κ]

theorem step (hwhole : ∀ i, Whole C (models i)) (hfiles : Files C models d s.saves)
    (h : Seen C models draw id d s j) {e : ι ⊕ κ} (hstep : MixedStep C models draw id s e s') :
    Seen C models draw id d s' j := by
  -- The file is as it was before, or one of its saves has begun.
  have hfile : s.dir.lookup (getPath (id j)) = d.lookup (getPath (id j)) ∨
      ∃ i content, Model.id (models i) = id j ∧ s.saves.Began i ∧
        s.dir.lookup (getPath (id j)) = some (.regular content) ∧
        (content = [] ∨ content = C.encode (models i)) := by
    by_cases hbegan : ∃ i, Model.id (models i) = id j ∧ s.saves.Began i
    · obtain ⟨i, hid, hb⟩ := hbegan
      obtain ⟨content, hlookup, hcontent⟩ := hfiles.of_began hb
      rw [path, hid] at hlookup
      exact .inr ⟨i, content, hid, hb, hlookup, hcontent⟩
    · exact .inl (hfiles.before _ fun i hpath hb => hbegan ⟨i, getPath_injective hpath, hb⟩)
  cases hstep with
  | saves hsave => exact h.frame rfl fun i hb => hb.step hsave
  | @measures j' content _ hlookup =>
    by_cases hj : j = j'
    · subst hj
      have hload := Function.update_self j (LoadPhase.measured (M := M) content.length) s.loads
      rcases hfile with hsame | ⟨i, -, hid, hb, -⟩
      · exact .old hload (hsame.symm.trans hlookup)
      · exact .new hload hid hb
    · exact h.frame (Function.update_of_ne hj ..) fun _ hb => hb
  | @reads j' size content hmeasured hlookup =>
    by_cases hj : j = j'
    · subst hj
      have hload := Function.update_self j
        (LoadPhase.returned (.ok (readBack C (draw j) size content))) s.loads
      have hnew (i : ι) (hid : Model.id (models i) = id j) (hb : s.saves.Began i) :
          readBack C (draw j) size content = none ∨
            readBack C (draw j) size content = C.decode (draw j) (C.encode (models i)) := by
        obtain ⟨content', hlookup', hcontent⟩ := hfiles.of_began hb
        rw [path, hid] at hlookup'
        have hcontents := hlookup.symm.trans hlookup'
        rw [Option.some.injEq, Entry.regular.injEq] at hcontents
        subst hcontents
        rcases hcontent with rfl | rfl
        · exact .inl (readBack_nil ..)
        · exact (hwhole i).readBack_cases ..
      rcases hfile with hsame | ⟨i, -, hid, hb, -⟩
      · cases h with
        | old hold hcontent =>
          rw [hold, LoadPhase.measured.injEq] at hmeasured
          have hcontents := hcontent.symm.trans (hsame.symm.trans hlookup)
          rw [Option.some.injEq, Entry.regular.injEq] at hcontents
          subst hmeasured hcontents
          refine .returnedOld ?_
          rw [load_eq_readBack hcontent]
          exact hload
        | new _ hid hb => exact .returnedNew hload hid hb (hnew _ hid hb)
        | ready hother | returnedOld hother | returnedNew hother =>
          rw [hother] at hmeasured
          cases hmeasured
      · exact .returnedNew hload hid hb (hnew i hid hb)
    · exact h.frame (Function.update_of_ne hj ..) fun _ hb => hb
  | @irregular j' hready hirregular =>
    by_cases hj : j = j'
    · subst hj
      rcases hfile with hsame | ⟨i, content, -, -, hlookup, -⟩
      · refine .returnedOld ?_
        show Function.update _ _ _ _ = _
        rw [Function.update_self, load_congr C hsame]
      · exact (hirregular content hlookup).elim
    · exact h.frame (Function.update_of_ne hj ..) fun _ hb => hb

end Seen

/-- The save of `i` is done, and load `j` has seen nothing else. -/
structure Settled (C : Codec M) (models : ι → M) (draw : κ → Draw) (s : Mixed M ι κ) (i : ι)
    (j : κ) : Prop where
  finished : s.saves.phase i = .finished
  seen : s.loads j = .ready ∨ s.loads j = .measured (C.encode (models i)).length ∨
    s.loads j = .returned (.ok (C.decode (draw j) (C.encode (models i))))

omit [Model M] in
theorem Settled.frame {s s' : Mixed M ι κ} {i : ι} {j : κ} (h : Settled C models draw s i j)
    (hphase : s'.saves.phase i = s.saves.phase i) (hloads : s'.loads j = s.loads j) :
    Settled C models draw s' i j := by
  refine ⟨hphase.trans h.finished, ?_⟩
  rw [hloads]
  exact h.seen

section Runs

variable [DecidableEq ι] [DecidableEq κ] {s s' : Mixed M ι κ} {j : κ}

theorem files_run (hseparate : Separate models) {es : List (ι ⊕ κ)}
    (h : Run (MixedStep C models draw id) (Mixed.start d) es s) : Files C models d s.saves := by
  refine h.invariant (I := fun s => Files C models d s.saves) files_start fun s e s' hI hstep => ?_
  cases hstep with
  | saves hsave => exact hI.step hseparate hsave
  | _ => exact hI

theorem seen_run (hseparate : Separate models) (hwhole : ∀ i, Whole C (models i))
    {es : List (ι ⊕ κ)} (h : Run (MixedStep C models draw id) (Mixed.start d) es s) (j : κ) :
    Seen C models draw id d s j :=
  h.induct_on (I := fun _ s => Seen C models draw id d s j) (.ready rfl)
    fun _ _ _ _ hrun hI hstep => hI.step hwhole (files_run hseparate hrun) hstep

theorem Settled.step {i : ι} (hwhole : Whole C (models i)) (hid : Model.id (models i) = id j)
    (hfiles : Files C models d s.saves) (h : Settled C models draw s i j) {e : ι ⊕ κ}
    (hstep : MixedStep C models draw id s e s') : Settled C models draw s' i j := by
  have hfile : s.dir.lookup (getPath (id j)) = some (.regular (C.encode (models i))) := by
    rw [← hid]
    exact hfiles.finished i h.finished
  cases hstep with
  | @saves k saves hsave =>
    have hki : i ≠ k := by
      rintro rfl
      rcases hsave.own with ⟨hphase, -⟩ | ⟨hphase, -⟩ | ⟨hphase, -⟩ <;>
        rw [h.finished] at hphase <;> cases hphase
    exact h.frame (hsave.frame.1 i hki) rfl
  | @measures j' content hready hlookup =>
    by_cases hj : j = j'
    · subst hj
      rw [hfile, Option.some.injEq, Entry.regular.injEq] at hlookup
      subst hlookup
      exact ⟨h.finished, .inr (.inl (Function.update_self ..))⟩
    · exact h.frame rfl (Function.update_of_ne hj ..)
  | @reads j' size content hmeasured hlookup =>
    by_cases hj : j = j'
    · subst hj
      rw [hfile, Option.some.injEq, Entry.regular.injEq] at hlookup
      subst hlookup
      rcases h.seen with hload | hload | hload <;> rw [hload] at hmeasured
      · cases hmeasured
      · rw [LoadPhase.measured.injEq] at hmeasured
        subst hmeasured
        refine ⟨h.finished, .inr (.inr ?_)⟩
        show Function.update _ _ _ _ = _
        rw [Function.update_self, hwhole.readBack_length]
      · cases hmeasured
    · exact h.frame rfl (Function.update_of_ne hj ..)
  | @irregular j' hready hirregular =>
    by_cases hj : j = j'
    · subst hj
      exact (hirregular _ hfile).elim
    · exact h.frame rfl (Function.update_of_ne hj ..)

end Runs

/-! ## A memo made empty -/

theorem whole_empty : Whole memoCodec (memo []) where
  decode_take draw n hn := by
    have hencode : memoCodec.encode (memo []) = HexCodec.encode (memo []).id := List.append_nil _
    rw [hencode, HexCodec.length_encode] at hn
    have hlength : (((HexCodec.encode (memo []).id).take n).take 32).length ≠ UUID.hexLength := by
      rw [List.take_take, List.length_take, HexCodec.length_encode]
      omega
    rw [hencode]
    show (HexCodec.decode _).map _ = none
    rw [HexCodec.decode, if_pos hlength]
    rfl
  encode_ne_nil := lawful_memoCodec.encode_ne_nil (memo [])

/-- The store of a memo with one octet. -/
def oneMemo : Directory := save memoCodec ∅ (memo [1]) .succeeds

def emptied (_ : Unit) : Memo := memo []

/-- The state after one load has measured the file and the save has replaced it. -/
def replaced : Mixed Memo Unit Bool where
  saves :=
    { dir := Directory.write (oneMemo.insert (getPath default) (.regular [])) (getPath default) 0
        (memoCodec.encode (memo []))
      phase := Function.update (Function.update (fun _ => .ready) () .opened) () .finished }
  loads := Function.update (fun _ => .ready) false (.measured 33)

theorem run_replaced : Run (MixedStep memoCodec emptied default default) (Mixed.start oneMemo)
    [.inr false, .inl (), .inl ()] replaced :=
  ((Run.nil.snoc (.measures (j := false) rfl rfl)).snoc (.saves (.opens rfl rfl))).snoc
    (.saves (.writes rfl))

end Prapancha.FilePersistence.Concurrent
