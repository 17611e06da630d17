import Prapancha.Base.Digest
import Prapancha.Base.Stream
import Prapancha.Security.Hasher

/-!
# SHA-256 hashes

`Hasher::hash` and `Hasher::verify` for `Sha256`, of data in memory and of a stream.  A stream is
read in blocks of a fixed size until a read delivers nothing.
-/

namespace Prapancha.Security

def Sha256.digestLength : Nat := 32

/-- The digest calls of OpenSSL; the updates of a hash are numbered. -/
inductive MdCall
  | ctxNew
  | digestInit
  | update (i : Nat)
  | digestFinal
  | qDigest
  deriving DecidableEq, Repr

/-- Which calls fail, and with which error. -/
structure MdCalls where
  fails : MdCall → Bool
  errorCode : MdCall → UInt64

def MdCalls.check (o : MdCalls) (call : MdCall) : Except Error Unit :=
  if o.fails call then .error ⟨o.errorCode call⟩ else .ok ()

@[simp] theorem MdCalls.check_eq_ok {o : MdCalls} {call : MdCall} {u : Unit} :
    o.check call = .ok u ↔ o.fails call = false := by
  unfold check
  split
  · next h => simp [h]
  · next h => simpa using h

/-- `CRYPTO_memcmp(a, b, n) == 0`. -/
def memcmpEq (a b : Bytes) (n : Nat) : Bool := a.take n == b.take n

theorem memcmpEq_of_length_eq {a b : Bytes} {n : Nat} (ha : a.length = n) (hb : b.length = n) :
    memcmpEq a b n = decide (a = b) := by
  rw [memcmpEq, List.take_of_length_le (Nat.le_of_eq ha),
    List.take_of_length_le (Nat.le_of_eq hb), beq_eq_decide]

namespace Hasher

variable (D : IncrementalHash Sha256.digestLength) (o : MdCalls)

/-- `Hasher::hash(std::string_view, Sha256)`. -/
def hashSha256 (data : Bytes) : Except Error Sha256Binding := do
  o.check .qDigest
  return ⟨D.digest data⟩

def streamBufferSize : Nat := 4096

/-- The loop of `Hasher::hash(std::istream &, Sha256)`, from the `i`-th update on. -/
def updateLoop (i : Nat) (ctx : D.Ctx) (stream : IStream) : Except Error D.Ctx :=
  let next := stream.read streamBufferSize
  if h : next.1.ok = true ∨ 0 < next.2.length then do
    o.check (.update i)
    updateLoop (i + 1) (D.update ctx next.2) next.1
  else .ok ctx
termination_by stream.rest.length
decreasing_by exact IStream.length_rest_read (by decide) h

/-- `Hasher::hash(std::istream &, Sha256)`. -/
def hashStream (stream : IStream) : Except Error Sha256Binding := do
  o.check .ctxNew
  o.check .digestInit
  let ctx ← updateLoop D o 0 D.init stream
  o.check .digestFinal
  return ⟨D.final ctx⟩

/-- The comparison at the end of both `verify` functions. -/
def matchesBinding (binding result : Sha256Binding) : Bool :=
  if result.hash.length ≠ binding.hash.length then false
  else memcmpEq result.hash binding.hash binding.hash.length

/-- `Hasher::verify(std::string_view, const Sha256Binding &, Sha256)`. -/
def verifySha256 (data : Bytes) (binding : Sha256Binding) : Except Error Bool :=
  (hashSha256 D o data).map (matchesBinding binding)

/-- `Hasher::verify(std::istream &, const Sha256Binding &, Sha256)`. -/
def verifyStream (stream : IStream) (binding : Sha256Binding) : Except Error Bool :=
  (hashStream D o stream).map (matchesBinding binding)

/-! ## The loop as updates by blocks -/

/-- The updates of a list of blocks. -/
def updates (i : Nat) (ctx : D.Ctx) : List Bytes → Except Error D.Ctx
  | [] => .ok ctx
  | block :: blocks => do
    o.check (.update i)
    updates (i + 1) (D.update ctx block) blocks

variable {D o}

theorem updates_eq_ok : ∀ {blocks : List Bytes} {i : Nat} {ctx ctx' : D.Ctx},
    updates D o i ctx blocks = .ok ctx' ↔
      (∀ j < blocks.length, o.fails (.update (i + j)) = false) ∧
        blocks.foldl D.update ctx = ctx'
  | [], i, ctx, ctx' => by simp [updates]
  | block :: blocks, i, ctx, ctx' => by
    rw [updates, bind_eq_ok]
    simp only [MdCalls.check_eq_ok, exists_and_left, exists_const, updates_eq_ok, List.foldl_cons,
      List.length_cons, Nat.forall_lt_succ_left, Nat.add_zero, Nat.add_assoc, Nat.add_comm 1,
      and_assoc]

theorem updateLoop_step {i : Nat} {ctx : D.Ctx} {stream : IStream} {block : Bytes} {next : IStream}
    (hread : stream.read streamBufferSize = (next, block))
    (h : next.ok = true ∨ 0 < block.length) : updateLoop D o i ctx stream = (do
      o.check (.update i)
      updateLoop D o (i + 1) (D.update ctx block) next) := by
  rw [updateLoop, hread, dif_pos h]

theorem updateLoop_stop {i : Nat} {ctx : D.Ctx} {stream : IStream} {next : IStream}
    (hread : stream.read streamBufferSize = (next, [])) (h : next.ok = false) :
    updateLoop D o i ctx stream = .ok ctx := by
  rw [updateLoop, hread, dif_neg (by simp [h])]

theorem updateLoop_of_not_good {i : Nat} {ctx : D.Ctx} {stream : IStream}
    (h : stream.good = false) : updateLoop D o i ctx stream = .ok ctx :=
  updateLoop_stop (IStream.read_of_not_good h) (by simp [IStream.ok])

variable (D o) in
/-- The loop makes an update for every block of a stream: of one without a failure all of it is
covered, of another the blocks that are full before the failure. -/
theorem updateLoop_eq_updates (stream : IStream) (hgood : stream.good = true) :
    ∃ blocks, (∀ i ctx, updateLoop D o i ctx stream = updates D o i ctx blocks) ∧
      (stream.ending = .endOfFile → blocks.flatten = stream.rest) ∧
      (stream.ending ≠ .endOfFile →
        blocks.length = stream.rest.length / streamBufferSize) := by
  by_cases hle : streamBufferSize ≤ stream.rest.length
  case pos =>
    have hread := IStream.read_of_le hgood hle
    obtain ⟨heof, hfail, hbad⟩ := IStream.good_iff.1 hgood
    have hok : (stream.read streamBufferSize).1.ok = true := by
      simp [hread, IStream.ok, hfail, hbad]
    have hless := IStream.length_rest_read (n := streamBufferSize) (by decide) (.inl hok)
    obtain ⟨blocks, hblocks, hflatten, hlength⟩ := updateLoop_eq_updates
      (stream.read streamBufferSize).1 (by simpa [hread, IStream.good_iff] using hgood)
    rw [hread] at hblocks hflatten hlength hok
    refine ⟨stream.rest.take streamBufferSize :: blocks, fun i ctx => ?_, fun h => ?_, fun h => ?_⟩
    · rw [updateLoop_step hread (.inl hok), updates]
      simp only [hblocks]
    · rw [List.flatten_cons, hflatten h, List.take_append_drop]
    · rw [List.length_cons, hlength h, List.length_drop,
        Nat.div_eq_sub_div (by decide) hle]
  case neg =>
    rw [Nat.not_le] at hle
    cases hending : stream.ending with
    | failure unread =>
      have hread := IStream.read_of_failure hgood hending hle
      refine ⟨[], fun i ctx => ?_, fun h => ?_, fun _ => ?_⟩
      · rw [updateLoop_stop hread (by simp [IStream.ok]), updates]
      · cases h
      · rw [List.length_nil, Nat.div_eq_of_lt hle]
    | endOfFile =>
      have hread := IStream.read_of_lt hgood hending hle
      by_cases hrest : stream.rest = []
      · rw [hrest] at hread
        refine ⟨[], fun i ctx => ?_, fun _ => hrest.symm, fun h => absurd rfl h⟩
        rw [updateLoop_stop hread (by simp [IStream.ok]), updates]
      · refine ⟨[stream.rest], fun i ctx => ?_, fun _ => ?_, fun h => absurd rfl h⟩
        · rw [updateLoop_step hread (.inr (List.length_pos_iff.2 hrest)), updates, updates]
          simp only [updateLoop_of_not_good, IStream.good, Bool.not_true, Bool.false_and]
        · rw [List.flatten_singleton]
termination_by stream.rest.length
decreasing_by exact hless

end Hasher

end Prapancha.Security
