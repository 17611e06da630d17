import Mathlib.Data.Finmap
import Prapancha.Base.Bytes

/-!
# Files in a directory

A directory is a finite map from file names to entries.  An entry other than a regular file that
can be read and written is known by what a query for its kind and what opening it for reading yield,
and refuses to be opened for writing.  File names are octets, and `stem` and `extension` split them
as `std::filesystem::path` does.
-/

namespace Prapancha.Fs

abbrev FileName := Bytes

/-! ## Names -/

def dot : UInt8 := 0x2E

/-- The length of the stem: the position of the last dot, unless that is the first character or
the name is `..`. -/
def stemLength (name : FileName) : Nat :=
  let tail := name.reverse.takeWhile (· != dot)
  if name = [dot, dot] ∨ name.length ≤ tail.length + 1 then name.length
  else name.length - (tail.length + 1)

def stem (name : FileName) : Bytes := name.take (stemLength name)

/-- `path::extension`, its dot included. -/
def extension (name : FileName) : Bytes := name.drop (stemLength name)

theorem stem_append_extension (name : FileName) : stem name ++ extension name = name :=
  List.take_append_drop ..

/-- Appending an extension to a name leaves the name as the stem. -/
theorem stemLength_append {s e : Bytes} (hs : s ≠ []) (he : dot ∉ e) (hdots : s ≠ [dot] ∨ e ≠ []) :
    stemLength (s ++ dot :: e) = s.length := by
  have htail : (s ++ dot :: e).reverse.takeWhile (· != dot) = e.reverse := by
    rw [List.reverse_append, List.reverse_cons, List.append_assoc, List.takeWhile_append_of_pos]
    · simp
    · intro b hb
      rw [List.mem_reverse] at hb
      simpa using fun h : b = dot => he (h ▸ hb)
  have hlen : 0 < s.length := List.length_pos_iff.2 hs
  have hne : s ++ dot :: e ≠ [dot, dot] := by
    intro h
    match s, e, hs, hdots with
    | [b], [], _, hdots => simp at h hdots; exact hdots h
    | [b], c :: e, _, _ => simp at h
    | b :: c :: s, e, _, _ => simp at h
  simp only [stemLength, htail, List.length_reverse, List.length_append, List.length_cons]
  rw [if_neg]
  · omega
  · rintro (h | h)
    · exact hne h
    · omega

/-! ## Entries -/

/-- A stream opened for reading and positioned at its end. -/
structure Stream where
  size : Int
  /-- What allocating `size` octets and reading as many from the start yields: the allocation can
  throw, the read can fail. -/
  contents : Except Exn (Option Bytes)
  deriving DecidableEq

inductive Entry
  | regular (content : Bytes)
  | special (kind : Except Exn Bool) (opened : Option Stream)
  deriving DecidableEq

/-- A symbolic link to itself: following it fails. -/
def Entry.selfLink : Entry := .special (.error .filesystemError) none

/-- `directory_entry::is_regular_file`, which follows symbolic links and throws when that fails. -/
def Entry.isRegular : Entry → Except Exn Bool
  | .regular _ => .ok true
  | .special kind _ => kind

def Entry.openRead : Entry → Option Stream
  | .regular content => some ⟨content.length, .ok (some content)⟩
  | .special _ opened => opened

abbrev Directory := Finmap fun _ : FileName => Entry

namespace Directory

def isRegular (d : Directory) (name : FileName) : Except Exn Bool :=
  match d.lookup name with
  | none => .ok false
  | some entry => entry.isRegular

/-- `std::ifstream(name, binary | ate)`; `none` when it is not open. -/
def openRead (d : Directory) (name : FileName) : Option Stream :=
  (d.lookup name).bind Entry.openRead

/-- `std::ofstream(name, binary | trunc)`: creates the file or empties it; `none` when it cannot. -/
def openTrunc (d : Directory) (name : FileName) : Option Directory :=
  match d.lookup name with
  | some (.special ..) => none
  | _ => some (d.insert name (.regular []))

/-- Writing at an offset of a file: a gap before it is filled with zeros, what lies beyond the
written octets stays. -/
def overwrite (content : Bytes) (offset : Nat) (data : Bytes) : Bytes :=
  content.take offset ++ List.replicate (offset - content.length) 0 ++ data ++
    content.drop (offset + data.length)

def write (d : Directory) (name : FileName) (offset : Nat) (data : Bytes) : Directory :=
  match d.lookup name with
  | some (.regular content) => d.insert name (.regular (overwrite content offset data))
  | _ => d

/-- `std::filesystem::remove`, when it succeeds: whether there was such a file. -/
def remove (d : Directory) (name : FileName) : Bool × Directory := (name ∈ d, d.erase name)

/-- The names that a `directory_iterator` visits, each once and in no particular order. -/
def Lists (d : Directory) (names : List FileName) : Prop :=
  names.Nodup ∧ ∀ name, name ∈ names ↔ name ∈ d

/-- No entry under the name refuses to be written. -/
def Writable (d : Directory) (name : FileName) : Prop :=
  ∀ kind opened, d.lookup name ≠ some (.special kind opened)

theorem Writable.congr {d d' : Directory} {name : FileName} (hw : d.Writable name)
    (h : d'.lookup name = d.lookup name) : d'.Writable name := by
  intro kind opened
  rw [h]
  exact hw kind opened

theorem overwrite_zero (content data : Bytes) :
    overwrite content 0 data = data ++ content.drop data.length := by
  simp [overwrite]

@[simp] theorem overwrite_nil (data : Bytes) : overwrite [] 0 data = data := by
  simp [overwrite]

@[simp] theorem overwrite_length (content data : Bytes) :
    overwrite content content.length data = content ++ data := by
  simp [overwrite]

theorem mem_of_isRegular {d : Directory} {name : FileName} (h : d.isRegular name = .ok true) :
    name ∈ d := by
  unfold isRegular at h
  cases hlookup : d.lookup name with
  | none =>
    rw [hlookup] at h
    cases h
  | some entry => exact Finmap.mem_of_lookup_eq_some hlookup

theorem isRegular_of_lookup {d : Directory} {name : FileName} {content : Bytes}
    (h : d.lookup name = some (.regular content)) : d.isRegular name = .ok true := by
  rw [isRegular, h]
  rfl

theorem isRegular_of_notMem {d : Directory} {name : FileName} (h : name ∉ d) :
    d.isRegular name = .ok false := by
  rw [isRegular, Finmap.lookup_eq_none.2 h]

@[simp] theorem openTrunc_of_writable {d : Directory} {name : FileName} (h : d.Writable name) :
    d.openTrunc name = some (d.insert name (.regular [])) := by
  unfold openTrunc
  split
  · next kind opened hlookup => exact (h kind opened hlookup).elim
  · rfl

@[simp] theorem write_insert (d : Directory) (name : FileName) (content : Bytes) (offset : Nat)
    (data : Bytes) : write (d.insert name (.regular content)) name offset data =
      d.insert name (.regular (overwrite content offset data)) := by
  simp [write]

theorem lookup_write {d : Directory} {name : FileName} {content : Bytes}
    (h : d.lookup name = some (.regular content)) (offset : Nat) (data : Bytes) :
    (d.write name offset data).lookup name = some (.regular (overwrite content offset data)) := by
  simp [write, h]

theorem openTrunc_eq_some {d d' : Directory} {name : FileName}
    (hopen : d.openTrunc name = some d') : d' = d.insert name (.regular []) := by
  unfold openTrunc at hopen
  split at hopen
  · cases hopen
  · cases hopen
    rfl

theorem openTrunc_eq_none {d : Directory} {name : FileName} :
    d.openTrunc name = none ↔ ∃ kind opened, d.lookup name = some (.special kind opened) := by
  unfold openTrunc
  split
  · next kind opened hlookup => exact iff_of_true rfl ⟨kind, opened, hlookup⟩
  · next hlookup =>
    refine iff_of_false nofun ?_
    rintro ⟨kind, opened, hopened⟩
    exact hlookup kind opened hopened

theorem lookup_openTrunc_ne {d d' : Directory} {name name' : FileName}
    (hopen : d.openTrunc name = some d') (h : name' ≠ name) : d'.lookup name' = d.lookup name' := by
  rw [openTrunc_eq_some hopen, Finmap.lookup_insert_of_ne _ h]

theorem lookup_write_ne {d : Directory} {name name' : FileName} (h : name' ≠ name) (offset : Nat)
    (data : Bytes) : (d.write name offset data).lookup name' = d.lookup name' := by
  unfold write
  split
  · rw [Finmap.lookup_insert_of_ne _ h]
  · rfl

end Directory

end Prapancha.Fs
