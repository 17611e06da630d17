import Prapancha.Security.Sha256

/-!
# Hashes of streams

A stream that delivers all of its content is hashed as that content.  A stream that fails is hashed
as far as it could be read, since the loop takes every end for the end of the file: an error is
returned only when a digest call happens to fail too.
-/

namespace Prapancha.Security.Hasher

variable (D : IncrementalHash Sha256.digestLength) {o : MdCalls} {stream : IStream}

/-! ## Healthy streams -/

theorem hashStream_eq_ok {binding : Sha256Binding} : hashStream D o stream = .ok binding ↔
    o.fails .ctxNew = false ∧ o.fails .digestInit = false ∧ o.fails .digestFinal = false ∧
      ∃ ctx, updateLoop D o 0 D.init stream = .ok ctx ∧ ⟨D.final ctx⟩ = binding := by
  simp only [hashStream, bind_eq_ok, MdCalls.check_eq_ok, exists_and_left, exists_const, pure,
    Except.pure, Except.ok.injEq]
  constructor
  · rintro ⟨hctx, hinit, ctx, hloop, hfinal, hbinding⟩
    exact ⟨hctx, hinit, hfinal, ctx, hloop, hbinding⟩
  · rintro ⟨hctx, hinit, hfinal, ctx, hloop, hbinding⟩
    exact ⟨hctx, hinit, ctx, hloop, hfinal, hbinding⟩

/-- A digest of a stream that does not fail is that of its content. -/
theorem hash_of_not_fails (h : ¬ stream.Fails) {binding : Sha256Binding}
    (hbinding : hashStream D o stream = .ok binding) :
    binding.hash = D.digest stream.content := by
  obtain ⟨-, -, -, ctx, hloop, rfl⟩ := (hashStream_eq_ok D).1 hbinding
  simp only [IStream.Fails, not_or, Bool.not_eq_true, not_and, not_not] at h
  obtain ⟨hfail, hbad, hending, heof⟩ := h
  have hcontent : stream.content = stream.rest := by
    rw [IStream.content, hending, Ending.unread, List.append_nil]
  cases hstream : stream.eof with
  | false =>
    have hgood := IStream.good_iff.2 ⟨hstream, hfail, hbad⟩
    obtain ⟨blocks, hblocks, hflatten, -⟩ := updateLoop_eq_updates D o stream hgood
    rw [hblocks, updates_eq_ok] at hloop
    show D.final ctx = D.digest stream.content
    rw [← hloop.2, D.final_foldl, hflatten hending, hcontent]
  | true =>
    have hgood : stream.good = false := by simp [IStream.good, hstream]
    rw [updateLoop_of_not_good hgood] at hloop
    show D.final ctx = D.digest stream.content
    rw [hcontent, heof hstream, ← Except.ok.inj hloop]
    exact D.final_foldl []

/-- A healthy stream is hashed to the digest of what it delivers, whatever its length. -/
theorem hashStream_eq_hash (ho : ∀ call, o.fails call = false) (hstream : stream.Healthy) :
    hashStream D o stream = hashSha256 D o stream.content ∧
      hashStream D o stream = .ok ⟨D.digest stream.content⟩ := by
  obtain ⟨hgood, hending⟩ := hstream
  obtain ⟨blocks, hblocks, -⟩ := updateLoop_eq_updates D o stream hgood
  have hloop : updateLoop D o 0 D.init stream = .ok (blocks.foldl D.update D.init) := by
    rw [hblocks, updates_eq_ok]
    exact ⟨fun j _ => ho _, rfl⟩
  have hfails : ¬ stream.Fails := by
    obtain ⟨heof, hfail, hbad⟩ := IStream.good_iff.1 hgood
    simp [IStream.Fails, heof, hfail, hbad, hending]
  have hok := (hashStream_eq_ok D).2 ⟨ho _, ho _, ho _, _, hloop, rfl⟩
  have hdigest : hashStream D o stream = .ok ⟨D.digest stream.content⟩ := by
    rw [hok, ← hash_of_not_fails D hfails hok]
  refine ⟨?_, hdigest⟩
  rw [hdigest, hashSha256, (MdCalls.check_eq_ok (u := ())).2 (ho .qDigest), bind_ok]
  rfl

/-- A hash function that tells lengths apart. -/
def lengthHash : IncrementalHash Sha256.digestLength :=
  .ofFunction (fun data => List.replicate Sha256.digestLength (UInt8.ofNat data.length))
    fun _ => List.length_replicate

/-- No digest call fails. -/
def calm : MdCalls := ⟨fun _ => false, fun _ => 0⟩

theorem hashStream_eq_hash_block :
    hashStream lengthHash calm { rest := List.replicate 4097 0x61 } =
      hashSha256 lengthHash calm (IStream.content { rest := List.replicate 4097 0x61 }) :=
  (hashStream_eq_hash lengthHash (fun _ => rfl) ⟨rfl, rfl⟩).1

/-! ## Failing streams -/

/-- The hash of a stream can be relied on: a failed stream gives an error, a digest is that of the
whole content, and so is what a verdict is based on. -/
structure Reliable (D : IncrementalHash Sha256.digestLength) (o : MdCalls) (stream : IStream) :
    Prop where
  error : stream.Fails → ∃ e, hashStream D o stream = .error e
  digest : ∀ binding, hashStream D o stream = .ok binding →
    ¬ stream.Fails ∧ binding.hash = D.digest stream.content
  verdict : ∀ binding verdict, verifyStream D o stream binding = .ok verdict →
    ¬ stream.Fails ∧ (verdict = true ↔ D.digest stream.content = binding.hash)

/-- How many full blocks a stream delivers before it fails. -/
def fullBlocks (stream : IStream) : Nat :=
  if stream.good then stream.rest.length / streamBufferSize else 0

/-- A digest call fails of those that are made for a stream that fails. -/
def Interrupted (o : MdCalls) (stream : IStream) : Prop :=
  o.fails .ctxNew = true ∨ o.fails .digestInit = true ∨
    (∃ i < fullBlocks stream, o.fails (.update i) = true) ∨ o.fails .digestFinal = true

theorem matchesBinding_iff {binding result : Sha256Binding} :
    matchesBinding binding result = true ↔ result.hash = binding.hash := by
  unfold matchesBinding
  split
  · next h =>
    refine ⟨(nomatch ·), fun heq => ?_⟩
    exact absurd (congrArg List.length heq) h
  · next h =>
    rw [not_not] at h
    rw [memcmpEq_of_length_eq h rfl, decide_eq_true_eq]

/-- Unless a digest call fails, a failing stream is hashed as well. -/
theorem exists_hashStream_of_fails (h : stream.Fails) :
    (∃ binding, hashStream D o stream = .ok binding) ↔ ¬ Interrupted o stream := by
  have hloop : (∃ ctx, updateLoop D o 0 D.init stream = .ok ctx) ↔
      ∀ i < fullBlocks stream, o.fails (.update i) = false := by
    unfold fullBlocks
    cases hgood : stream.good with
    | false => simp [updateLoop_of_not_good hgood]
    | true =>
      obtain ⟨heof, hfail, hbad⟩ := IStream.good_iff.1 hgood
      have hending : stream.ending ≠ .endOfFile := by
        simpa [IStream.Fails, heof, hfail, hbad] using h
      obtain ⟨blocks, hblocks, -, hlength⟩ := updateLoop_eq_updates D o stream hgood
      simp [hblocks, updates_eq_ok, hlength hending]
  simp only [hashStream_eq_ok, Interrupted, not_or, Bool.not_eq_true, not_exists, not_and,
    ← hloop]
  constructor
  · rintro ⟨_, hctx, hinit, hfinal, ctx, hctx', -⟩
    exact ⟨hctx, hinit, ⟨ctx, hctx'⟩, hfinal⟩
  · rintro ⟨hctx, hinit, ⟨ctx, hctx'⟩, hfinal⟩
    exact ⟨_, hctx, hinit, hfinal, ctx, hctx', rfl⟩

theorem reliable_iff : Reliable D o stream ↔ (stream.Fails → Interrupted o stream) := by
  constructor
  · intro h hfails
    by_contra hinterrupted
    obtain ⟨binding, hbinding⟩ := (exists_hashStream_of_fails D hfails).2 hinterrupted
    exact (h.digest binding hbinding).1 hfails
  · intro h
    have whole (binding : Sha256Binding) (hbinding : hashStream D o stream = .ok binding) :
        ¬ stream.Fails ∧ binding.hash = D.digest stream.content := by
      have hfails : ¬ stream.Fails := fun hfails =>
        (exists_hashStream_of_fails D hfails).1 ⟨binding, hbinding⟩ (h hfails)
      exact ⟨hfails, hash_of_not_fails D hfails hbinding⟩
    refine ⟨fun hfails => ?_, whole, fun binding verdict hverdict => ?_⟩
    · cases hresult : hashStream D o stream with
      | error e => exact ⟨e, rfl⟩
      | ok binding => exact absurd hfails (whole binding hresult).1
    · unfold verifyStream at hverdict
      cases hresult : hashStream D o stream with
      | error e => rw [hresult] at hverdict; cases hverdict
      | ok result =>
        obtain ⟨hfails, hdigest⟩ := whole result hresult
        rw [hresult] at hverdict
        cases hverdict
        exact ⟨hfails, by rw [matchesBinding_iff, hdigest]⟩

/-- A file of six characters that cannot be read to its end. -/
def brokenFile : IStream := { rest := text "abc", ending := .failure (text "def") }

/-- It has the hash of an empty file, which is accepted for it. -/
theorem brokenFile_not_reliable : ¬ Reliable lengthHash calm brokenFile ∧ brokenFile.Fails ∧
    brokenFile.content = text "abcdef" ∧
    hashStream lengthHash calm brokenFile = hashSha256 lengthHash calm [] ∧
    verifyStream lengthHash calm brokenFile ⟨lengthHash.digest []⟩ = .ok true := by
  have hread : brokenFile.read streamBufferSize =
      ({ bad := true, rest := [], ending := .failure (text "def") }, []) :=
    IStream.read_of_failure rfl rfl (by decide)
  have hhash : hashStream lengthHash calm brokenFile = .ok ⟨lengthHash.digest []⟩ :=
    (hashStream_eq_ok _).2 ⟨rfl, rfl, rfl, _, updateLoop_stop hread rfl, rfl⟩
  refine ⟨fun h => ?_, by decide, by decide, hhash, by rw [verifyStream, hhash]; rfl⟩
  exact (h.digest _ hhash).1 (by decide)

end Prapancha.Security.Hasher
