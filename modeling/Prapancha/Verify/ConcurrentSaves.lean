import Mathlib.Logic.Function.Basic
import Prapancha.Base.Runs
import Prapancha.Verify.Store

/-!
# Concurrent saves

Any number of saves on one directory, their openings and writes interleaved in any order.  Two
saves under one identifier write through independent offsets, so the file ends as an overlay of
their encodings: the last one written, and beyond its end what is left of longer ones.
-/

namespace Prapancha

open Fs

/-! ## Overlays -/

/-- What encodings from `E`, written one over the other at the start of a file, leave there. -/
inductive Overlay (E : Set Bytes) : Bytes → Prop
  | first {e : Bytes} : e ∈ E → Overlay E e
  | cover {content e : Bytes} : Overlay E content → e ∈ E →
    Overlay E (Directory.overwrite content 0 e)

/-- Two encodings of which one can cover the other. -/
def Compatible (a b : Bytes) : Prop := a.length = b.length ∨ a <+: b ∨ b <+: a

namespace Overlay

variable {E : Set Bytes} {content : Bytes}

theorem starts (h : Overlay E content) : ∃ e ∈ E, e <+: content := by
  cases h with
  | first he => exact ⟨_, he, List.prefix_rfl⟩
  | cover _ he => exact ⟨_, he, by rw [Directory.overwrite_zero]; exact List.prefix_append _ _⟩

theorem length_eq (h : Overlay E content) : ∃ e ∈ E, content.length = e.length := by
  induction h with
  | first he => exact ⟨_, he, rfl⟩
  | @cover content e _ he ih =>
    obtain ⟨e', he', hlen⟩ := ih
    by_cases hle : content.length ≤ e.length
    · refine ⟨e, he, ?_⟩
      rw [Directory.overwrite_zero, List.drop_eq_nil_of_le hle, List.append_nil]
    · refine ⟨e', he', ?_⟩
      rw [Directory.overwrite_zero, List.length_append, List.length_drop, ← hlen]
      omega

theorem octet (h : Overlay E content) {n : Nat} {b : UInt8} (hb : content[n]? = some b) :
    ∃ e ∈ E, e[n]? = some b := by
  induction h with
  | first he => exact ⟨_, he, hb⟩
  | @cover content e _ he ih =>
    rw [Directory.overwrite_zero] at hb
    by_cases hn : n < e.length
    · rw [List.getElem?_append_left hn] at hb
      exact ⟨e, he, hb⟩
    · rw [List.getElem?_append_right (Nat.not_lt.1 hn), List.getElem?_drop] at hb
      have hsum : e.length + (n - e.length) = n := by omega
      rw [hsum] at hb
      exact ih hb

/-- Where any two encodings are compatible, the file holds exactly one of them. -/
theorem exact (h : Overlay E content) (hE : ∀ a ∈ E, ∀ b ∈ E, Compatible a b) : content ∈ E := by
  induction h with
  | first he => exact he
  | @cover content e _ he ih =>
    rw [Directory.overwrite_zero]
    rcases hE _ ih e he with hlen | hprefix | ⟨t, ht⟩
    · rwa [List.drop_eq_nil_of_le (Nat.le_of_eq hlen), List.append_nil]
    · rwa [List.drop_eq_nil_of_le hprefix.length_le, List.append_nil]
    · rw [← ht, List.drop_left]
      rwa [ht]

end Overlay

/-! ## Interleaved steps -/

namespace FilePersistence.Concurrent

variable {M : Type} [Model M] {ι : Type}

inductive Phase
  | ready
  | refused
  | opened
  | finished
  deriving DecidableEq

structure State (ι : Type) where
  dir : Directory
  phase : ι → Phase

def start (d : Directory) : State ι := ⟨d, fun _ => .ready⟩

variable (C : Codec M) (models : ι → M)

def path (i : ι) : FileName := getPath (Model.id (models i))

/-- A step of call `i`: it opens its file, is refused it, or writes its encoding. -/
inductive Step [DecidableEq ι] : State ι → ι → State ι → Prop
  | opens {s : State ι} {i : ι} {d : Directory} : s.phase i = .ready →
    s.dir.openTrunc (path models i) = some d → Step s i ⟨d, Function.update s.phase i .opened⟩
  | refused {s : State ι} {i : ι} : s.phase i = .ready →
    s.dir.openTrunc (path models i) = none → Step s i ⟨s.dir, Function.update s.phase i .refused⟩
  | writes {s : State ι} {i : ι} : s.phase i = .opened →
    Step s i ⟨s.dir.write (path models i) 0 (C.encode (models i)),
      Function.update s.phase i .finished⟩

/-- A call that runs alone does what `save` does. -/
theorem run_alone [DecidableEq ι] (d : Directory) (i : ι) :
    ∃ is phase, Run (Step C models) (start d) is ⟨save C d (models i) .succeeds, phase⟩ ∧
      (phase i = .finished ∨ phase i = .refused) := by
  cases hopen : d.openTrunc (path models i) with
  | none =>
    have hsave : save C d (models i) .succeeds = d := by
      simp only [path] at hopen
      simp [save, hopen]
    rw [hsave]
    exact ⟨[i], _, Run.nil.snoc (.refused rfl hopen), .inr (Function.update_self ..)⟩
  | some d' =>
    have hsave : save C d (models i) .succeeds =
        d'.write (path models i) 0 (C.encode (models i)) := by
      simp only [path] at hopen
      simp [save, hopen, path, written]
    rw [hsave]
    exact ⟨[i, i], _, (Run.nil.snoc (.opens rfl hopen)).snoc (.writes (Function.update_self ..)),
      .inl (Function.update_self ..)⟩

def encodings (name : FileName) : Set Bytes :=
  {e | ∃ i, path models i = name ∧ e = C.encode (models i)}

/-- What one file holds: its old content while no call has opened it, then an overlay of the
encodings, or nothing yet if a call still has it open. -/
def FileState (d : Directory) (s : State ι) (name : FileName) : Prop :=
  ((∀ i, path models i = name → s.phase i = .ready ∨ s.phase i = .refused) ∧
    s.dir.lookup name = d.lookup name) ∨
  ∃ content, s.dir.lookup name = some (.regular content) ∧
    (Overlay (encodings C models name) content ∨
      content = [] ∧ ∃ i, path models i = name ∧ s.phase i = .opened)

variable {C models} {d : Directory}

/-- A step that leaves the file alone, and every call that has it open. -/
theorem FileState.frame {s s' : State ι} {name : FileName} (h : FileState C models d s name)
    (hdir : s'.dir.lookup name = s.dir.lookup name)
    (hready : ∀ i, path models i = name → s.phase i = .ready ∨ s.phase i = .refused →
      s'.phase i = .ready ∨ s'.phase i = .refused)
    (hopened : ∀ i, path models i = name → s.phase i = .opened → s'.phase i = .opened) :
    FileState C models d s' name := by
  rcases h with ⟨hold, hlookup⟩ | ⟨content, hlookup, hcontent⟩
  · exact .inl ⟨fun i hi => hready i hi (hold i hi), by rw [hdir, hlookup]⟩
  · refine .inr ⟨content, by rw [hdir, hlookup], hcontent.imp_right ?_⟩
    rintro ⟨hnil, i, hi, hphase⟩
    exact ⟨hnil, i, hi, hopened i hi hphase⟩

variable [DecidableEq ι]

/-- One step, seen from one file. -/
theorem FileState.step {s s' : State ι} {name : FileName} {i : ι}
    (h : FileState C models d s name) (hstep : Step C models s i s') :
    FileState C models d s' name := by
  have hother : path models i ≠ name → ∀ (p q : Phase) (j : ι), path models j = name →
      s.phase j = q → Function.update s.phase i p j = q := by
    intro hi p q j hj hphase
    rw [Function.update_of_ne (by rintro rfl; exact hi hj), hphase]
  cases hstep with
  | opens hready hopen =>
    by_cases hi : path models i = name
    · refine .inr ⟨[], ?_, .inr ⟨rfl, i, hi, Function.update_self ..⟩⟩
      rw [Directory.openTrunc_eq_some hopen, hi]
      exact Finmap.lookup_insert _
    · refine h.frame (Directory.lookup_openTrunc_ne hopen fun hn => hi hn.symm) ?_ ?_
      · exact fun j hj => Or.imp (hother hi _ _ j hj) (hother hi _ _ j hj)
      · exact fun j hj => hother hi _ _ j hj
  | refused hready hopen =>
    refine h.frame rfl (fun j _ hphase => ?_) fun j _ hphase => ?_
    · by_cases hj : j = i
      · subst hj
        exact .inr (Function.update_self ..)
      · simpa only [Function.update_of_ne hj] using hphase
    · by_cases hj : j = i
      · subst hj
        rw [hready] at hphase
        cases hphase
      · simpa only [Function.update_of_ne hj] using hphase
  | writes hopened =>
    by_cases hi : path models i = name
    · rcases h with ⟨hold, -⟩ | ⟨content, hlookup, hcontent⟩
      · rcases hold i hi with hphase | hphase <;> rw [hphase] at hopened <;> cases hopened
      · have hmem : C.encode (models i) ∈ encodings C models name := ⟨i, hi, rfl⟩
        refine .inr ⟨Directory.overwrite content 0 (C.encode (models i)), ?_, .inl ?_⟩
        · rw [hi]
          exact Directory.lookup_write hlookup _ _
        · rcases hcontent with hoverlay | ⟨rfl, -⟩
          · exact hoverlay.cover hmem
          · rw [Directory.overwrite_nil]
            exact .first hmem
    · refine h.frame (Directory.lookup_write_ne (fun hn => hi hn.symm) _ _) ?_ ?_
      · exact fun j hj => Or.imp (hother hi _ _ j hj) (hother hi _ _ j hj)
      · exact fun j hj => hother hi _ _ j hj

theorem fileState_run (name : FileName) {is : List ι} {s : State ι}
    (h : Run (Step C models) (start d) is s) : FileState C models d s name :=
  h.invariant (I := fun s => FileState C models d s name) (.inl ⟨fun _ _ => .inl rfl, rfl⟩)
    fun _ _ _ hI hstep => hI.step hstep

/-- When all calls have finished, the file of each saved identifier is an overlay of encodings of
models saved under it, and exactly one of them when these are compatible; all other files are as
before. -/
theorem saved_files {is : List ι} {s : State ι} (h : Run (Step C models) (start d) is s)
    (hdone : ∀ i, s.phase i = .finished) :
    (∀ i, ∃ content, s.dir.lookup (getPath (Model.id (models i))) = some (.regular content) ∧
      (∃ j, Model.id (models j) = Model.id (models i) ∧ C.encode (models j) <+: content) ∧
      (∃ j, Model.id (models j) = Model.id (models i) ∧
        content.length = (C.encode (models j)).length) ∧
      (∀ (n : Nat) (b : UInt8), content[n]? = some b →
        ∃ j, Model.id (models j) = Model.id (models i) ∧ (C.encode (models j))[n]? = some b) ∧
      ((∀ j k, Model.id (models j) = Model.id (models i) →
          Model.id (models k) = Model.id (models i) →
          Compatible (C.encode (models j)) (C.encode (models k))) →
        ∃ j, Model.id (models j) = Model.id (models i) ∧ content = C.encode (models j))) ∧
    ∀ name, (∀ i, name ≠ getPath (Model.id (models i))) → s.dir.lookup name = d.lookup name := by
  refine ⟨fun i => ?_, fun name hname => ?_⟩
  · rcases fileState_run (path models i) h with
      ⟨hold, -⟩ | ⟨content, hlookup, hoverlay | ⟨-, j, -, hj⟩⟩
    · rcases hold i rfl with hi | hi <;> rw [hdone] at hi <;> cases hi
    · have hmem : ∀ {P : Bytes → Prop}, (∃ e ∈ encodings C models (path models i), P e) →
          ∃ j, Model.id (models j) = Model.id (models i) ∧ P (C.encode (models j)) := by
        rintro P ⟨e, ⟨j, hj, rfl⟩, he⟩
        exact ⟨j, getPath_injective hj, he⟩
      refine ⟨content, hlookup, hmem hoverlay.starts, hmem hoverlay.length_eq,
        fun n b hb => hmem (hoverlay.octet hb), fun hcompatible => hmem ⟨_, hoverlay.exact ?_, rfl⟩⟩
      rintro a ⟨j, hj, rfl⟩ b ⟨k, hk, rfl⟩
      exact hcompatible j k (getPath_injective hj) (getPath_injective hk)
    · rw [hdone] at hj
      cases hj
  · rcases fileState_run name h with ⟨-, hlookup⟩ | ⟨content, -, hoverlay | ⟨-, j, hj, -⟩⟩
    · exact hlookup
    · obtain ⟨e, ⟨j, hj, -⟩, -⟩ := hoverlay.starts
      exact (hname j hj.symm).elim
    · exact (hname j hj.symm).elim

/-! ## Two saves under one identifier -/

def twoMemos : Bool → Memo
  | false => memo [1, 2, 3]
  | true => memo [9]

/-- The state after both calls have opened the file, the longer encoding has been written and after
it the shorter one. -/
def spliced : State Bool where
  dir := Directory.write (Directory.write
    (Finmap.insert (getPath default) (.regular [])
      (Finmap.insert (getPath default) (.regular []) ∅))
    (getPath default) 0 (memoCodec.encode (twoMemos false)))
    (getPath default) 0 (memoCodec.encode (twoMemos true))
  phase := Function.update (Function.update (Function.update (Function.update
    (fun _ => .ready) false .opened) true .opened) false .finished) true .finished

theorem run_spliced : Run (Step memoCodec twoMemos) (start ∅) [false, true, false, true] spliced :=
  (((Run.nil.snoc (.opens rfl rfl)).snoc (.opens rfl rfl)).snoc (.writes rfl)).snoc (.writes rfl)

theorem finished_spliced (i : Bool) : spliced.phase i = .finished := by
  cases i <;> rfl

theorem saved_files_twoMemos : ∃ content,
    spliced.dir.lookup (getPath default) = some (.regular content) ∧
      ∃ j, memoCodec.encode (twoMemos j) <+: content := by
  obtain ⟨content, hlookup, ⟨j, -, hj⟩, -⟩ := (saved_files run_spliced finished_spliced).1 false
  exact ⟨content, hlookup, j, hj⟩

/-- The file ends with a text that is the encoding of neither memo. -/
theorem saves_can_splice :
    Run (Step memoCodec twoMemos) (start ∅) [false, true, false, true] spliced ∧
      (∀ i, spliced.phase i = .finished) ∧
      ∀ i, spliced.dir.lookup (getPath (Model.id (twoMemos i))) ≠
        some (.regular (memoCodec.encode (twoMemos i))) :=
  ⟨run_spliced, finished_spliced, by decide⟩

end FilePersistence.Concurrent

end Prapancha
