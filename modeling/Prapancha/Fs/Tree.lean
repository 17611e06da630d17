import Mathlib.Logic.Function.Basic
import Prapancha.Fs.Directory

/-!
# A tree of directories

Directories by the names that lead to them, in a file system without symbolic links.  A path is
followed component by component, so that different paths can lead to one directory, and
`createDirectories` makes what is missing on the way: each directory with an entry in its parent.
-/

namespace Prapancha.Fs

/-- The names that lead from the root to a directory, the innermost first. -/
abbrev Place := List FileName

abbrev Tree := Place → Option Directory

/-- The entry of a directory in its parent. -/
def Entry.subdirectory : Entry := .special (.ok false) none

abbrev Path := Bytes

namespace Path

def separator : UInt8 := 0x2F

def components (path : Path) : List FileName := path.splitOn separator

def isAbsolute (path : Path) : Bool := path.head? == some separator

/-- Where a component leads. -/
def enter (place : Place) (component : FileName) : Place :=
  if component = [] ∨ component = text "." then place
  else if component = text ".." then place.tail
  else component :: place

def stepsFrom (place : Place) : List FileName → List Place
  | [] => [place]
  | component :: components => place :: stepsFrom (enter place component) components

/-- Where the path starts: at the root or in the working directory. -/
def origin (working : Place) (path : Path) : Place := if path.isAbsolute then [] else working

/-- The directories that a path leads through, the last of them where it leads to. -/
def steps (working : Place) (path : Path) : List Place :=
  stepsFrom (path.origin working) path.components

def target (working : Place) (path : Path) : Place :=
  path.components.foldl enter (path.origin working)

/-- Different paths can lead to one directory. -/
example : target [] (text "/srv//users/") = target [text "srv"] (text "./old/../users") := by decide

end Path

namespace Tree

def entry (t : Tree) (place : Place) (name : FileName) : Option Entry :=
  (t place).bind fun d => d.lookup name

/-- The path leads to a directory. -/
def isDirectory (t : Tree) (working : Place) (path : Path) : Bool :=
  (path.steps working).all fun place => (t place).isSome

/-- The directory that the path leads to, and its content. -/
def find (t : Tree) (working : Place) (path : Path) : Option (Place × Directory) :=
  if t.isDirectory working path then (t (path.target working)).map (path.target working, ·)
  else none

/-- `std::filesystem::exists`: the path leads to a directory, or to another entry of one. -/
def pathExists (t : Tree) (working : Place) (path : Path) : Bool :=
  t.isDirectory working path ||
    ((path.steps working).dropLast.all (fun place => (t place).isSome) &&
      match path.target working with
      | name :: parent => (t.entry parent name).isSome
      | [] => false)

/-- `mkdir` of what may be there already; `none` when it fails. -/
def makeDirectory (t : Tree) : Place → Option Tree
  | [] => if (t []).isSome then some t else none
  | name :: parent =>
    if (t (name :: parent)).isSome then some t
    else
      match t parent with
      | none => none
      | some d =>
        if name ∈ d then none
        else
          let t := Function.update t parent (some (d.insert name .subdirectory))
          some (Function.update t (name :: parent) (some ∅))

/-- Whether all of the directories are there in the end, and the tree that has been made. -/
def makeDirectories (t : Tree) : List Place → Bool × Tree
  | [] => (true, t)
  | place :: places =>
    match t.makeDirectory place with
    | none => (false, t)
    | some t => makeDirectories t places

/-- `std::filesystem::create_directories`; `false` when it throws. -/
def createDirectories (t : Tree) (working : Place) (path : Path) : Bool × Tree :=
  t.makeDirectories (path.steps working)

/-! ## Growing trees -/

/-- Directories have been made, and nothing else has changed in those that are kept. -/
structure Grown (kept : Place → Prop) (t t' : Tree) : Prop where
  isSome : ∀ place, (t place).isSome → (t' place).isSome
  entry : ∀ place, kept place → ∀ name, t'.entry place name = t.entry place name ∨
    (t.entry place name = none ∧ t'.entry place name = some .subdirectory)

variable {kept : Place → Prop} {t t' : Tree}

namespace Grown

theorem refl (t : Tree) : Grown kept t t := ⟨fun _ h => h, fun _ _ _ => .inl rfl⟩

theorem trans {t'' : Tree} (h : Grown kept t t') (h' : Grown kept t' t'') : Grown kept t t'' := by
  refine ⟨fun place hplace => h'.isSome place (h.isSome place hplace), fun place hkept name => ?_⟩
  rcases h'.entry place hkept name with hsame | ⟨hnone, hmade⟩
  · rw [hsame]
    exact h.entry place hkept name
  · rcases h.entry place hkept name with hsame | ⟨-, hsome⟩
    · exact .inr ⟨hsame ▸ hnone, hmade⟩
    · rw [hnone] at hsome
      cases hsome

/-- A path to a directory keeps leading there. -/
theorem isDirectory (h : Grown kept t t') {working : Place} {path : Path}
    (hpath : t.isDirectory working path = true) : t'.isDirectory working path = true := by
  rw [Tree.isDirectory, List.all_eq_true] at hpath ⊢
  exact fun place hplace => h.isSome place (hpath place hplace)

end Grown

theorem isSome_update {place place' : Place} (d : Directory) (h : (t place').isSome) :
    (Function.update t place (some d) place').isSome := by
  by_cases heq : place' = place
  · rw [heq, Function.update_self]
    rfl
  · rwa [Function.update_of_ne heq]

theorem entry_update_ne {place place' : Place} (h : place' ≠ place) (d : Option Directory)
    (name : FileName) : entry (Function.update t place d) place' name = t.entry place' name := by
  rw [entry, Function.update_of_ne h]
  rfl

theorem entry_update_self (t : Tree) (place : Place) (d : Directory) (name : FileName) :
    entry (Function.update t place (some d)) place name = d.lookup name := by
  rw [entry, Function.update_self]
  rfl

/-- A change in a directory that is not kept. -/
theorem grown_update {place : Place} (hplace : ¬ kept place) (d : Directory) :
    Grown kept t (Function.update t place (some d)) := by
  refine ⟨fun _ => isSome_update d, fun place' hkept name => .inl (entry_update_ne ?_ _ _)⟩
  rintro rfl
  exact hplace hkept

/-- An entry in an existing directory, under a name that has none. -/
theorem grown_insert {place : Place} {d : Directory} {name : FileName}
    (hplace : t place = some d) (hname : name ∉ d) :
    Grown kept t (Function.update t place (some (d.insert name .subdirectory))) := by
  refine ⟨fun _ => isSome_update _, fun place' _ name' => ?_⟩
  by_cases heq : place' = place
  · subst heq
    have hentry : t.entry place' name' = d.lookup name' := by rw [entry, hplace]; rfl
    rw [entry_update_self, hentry]
    by_cases hsame : name' = name
    · subst hsame
      rw [Finmap.lookup_insert]
      exact .inr ⟨Finmap.lookup_eq_none.2 hname, rfl⟩
    · exact .inl (Finmap.lookup_insert_of_ne _ hsame)
  · exact .inl (entry_update_ne heq _ _)

/-- A directory that was not there. -/
theorem grown_empty {place : Place} (hplace : t place = none) :
    Grown kept t (Function.update t place (some ∅)) := by
  refine ⟨fun _ => isSome_update ∅, fun place' _ name => .inl ?_⟩
  by_cases heq : place' = place
  · rw [heq, entry_update_self, entry, hplace]
    rfl
  · exact entry_update_ne heq _ _

theorem grown_makeDirectory {place : Place} (h : t.makeDirectory place = some t') :
    Grown kept t t' := by
  unfold makeDirectory at h
  split at h
  · split at h
    · cases h
      exact .refl t
    · cases h
  · next name parent =>
    split at h
    · cases h
      exact .refl t
    · next hnew =>
      split at h
      · cases h
      · next d hparent =>
        split at h
        · cases h
        · next hname =>
          cases h
          refine (grown_insert hparent hname).trans (grown_empty ?_)
          rw [Function.update_of_ne (List.cons_ne_self name parent)]
          exact Option.not_isSome_iff_eq_none.1 hnew

theorem grown_makeDirectories (t : Tree) (places : List Place) :
    Grown kept t (t.makeDirectories places).2 := by
  induction places generalizing t with
  | nil => exact .refl t
  | cons place places ih =>
    unfold makeDirectories
    split
    · exact .refl t
    · next t' hmade => exact (grown_makeDirectory hmade).trans (ih t')

end Tree

end Prapancha.Fs
