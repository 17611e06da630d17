import Mathlib.Data.List.Nodup

/-!
# Capability environments

`Env<Capabilities...>`, which inherits from each of its capabilities, and how an expression
`Env<...>{...}` is resolved: by the types of the arguments, to at most one of the two constructors.
`none` stands for an expression that does not compile.
-/

namespace Prapancha

variable {κ : Type} [DecidableEq κ] {Val : κ → Type}

namespace Env

/-- `is_unique`: the capability stands once in the list. -/
def IsUnique (c : κ) (cs : List κ) : Prop := cs.count c = 1

instance (c : κ) (cs : List κ) : Decidable (IsUnique c cs) := inferInstanceAs (Decidable (_ = 1))

end Env

/-- `Env<Capabilities...>`: its `static_assert`, and a base object for each capability. -/
structure Env (Val : κ → Type) (cs : List κ) where
  unique : ∀ c ∈ cs, Env.IsUnique c cs
  base : (c : κ) → c ∈ cs → Val c

namespace Env

/-- The type of an argument, which is always an rvalue. -/
inductive ArgType (κ : Type)
  | capability (c : κ)
  | env (cs : List κ)

def ArgType.Value (Val : κ → Type) : ArgType κ → Type
  | .capability c => Val c
  | .env cs => Env Val cs

/-- The values of the arguments of the given types. -/
def Args (Val : κ → Type) : List (ArgType κ) → Type
  | [] => Unit
  | a :: as => a.Value Val × Args Val as

/-- The bases of an object, to be initialised. -/
abbrev Bases (Val : κ → Type) (cs : List κ) : Type := (c : κ) → c ∈ cs → Val c

def Bases.nil : Bases Val [] := fun _ h => nomatch h

def Bases.cons {c : κ} {cs : List κ} (v : Val c) (bases : Bases Val cs) : Bases Val (c :: cs) :=
  fun c' h => if heq : c = c' then heq ▸ v else bases c' (List.mem_of_ne_of_mem (Ne.symm heq) h)

/-- A parameter `C &&` binds to a `C`, and to an environment that has `C` as a base. -/
def bind? (c : κ) : (a : ArgType κ) → Option (a.Value Val → Val c)
  | .capability c' => if h : c' = c then some fun v => h ▸ v else none
  | .env cs => if h : c ∈ cs then some fun e => e.base c h else none

/-- Parameters `Capabilities &&...` for the arguments, from left to right, and as many. -/
def bindAll? : (cs : List κ) → (as : List (ArgType κ)) → Option (Args Val as → Bases Val cs)
  | [], [] => some fun _ => .nil
  | c :: cs, a :: as =>
    match bind? c a, bindAll? cs as with
    | some bind, some binds => some fun args => .cons (bind args.1) (binds args.2)
    | _, _ => none
  | _, _ => none

/-- `Env(Capabilities &&...capabilities)`. -/
def ofCapabilities? (cs : List κ) (as : List (ArgType κ)) : Option (Args Val as → Bases Val cs) :=
  bindAll? cs as

/-- `Env(Env<ExistingCapabilities...> &&existing, Capabilities &&...deltas)`.  The deltas are the
capabilities of the class, not those that are new, and its initialisers name the existing
capabilities and then the deltas: each has to be a base, and none may be named twice. -/
def ofExisting? (cs : List κ) : (as : List (ArgType κ)) → Option (Args Val as → Bases Val cs)
  | .env existing :: as =>
    if (∀ c ∈ existing, c ∈ cs) ∧ (existing ++ cs).Nodup then
      (bindAll? cs as).map fun binds args => binds args.2
    else none
  | _ => none

/-- `Env<cs...>{args...}`. -/
def construct? (cs : List κ) (as : List (ArgType κ)) : Option (Args Val as → Env Val cs) :=
  if h : ∀ c ∈ cs, IsUnique c cs then
    match ofCapabilities? cs as, ofExisting? cs as with
    | some init, _ => some fun args => ⟨h, init args⟩
    | none, some init => some fun args => ⟨h, init args⟩
    | none, none => none
  else none

/-- A way to make an `Env<cs..., d>` from an `Env<cs...>` and a `d`. -/
abbrev Refinement (Val : κ → Type) : Type :=
  (cs : List κ) → (d : κ) → Option (Env Val cs → Val d → Env Val (cs ++ [d]))

/-- `Augmented<Env<cs...>, d>{env, d}`. -/
def augment? : Refinement Val := fun cs d =>
  match construct? (cs ++ [d]) [.env cs, .capability d] with
  | some init => some fun e v => init (e, v, ())
  | none => none

/-- The capabilities of an environment as arguments. -/
def args : (cs : List κ) → Bases Val cs → Args Val (cs.map .capability)
  | [], _ => ()
  | c :: cs, bases =>
    (bases c List.mem_cons_self, args cs fun c' h => bases c' (List.mem_cons_of_mem c h))

/-- The capabilities of two environments, one after the other. -/
def Bases.append {cs cs' : List κ} (bases : Bases Val cs) (bases' : Bases Val cs') :
    Bases Val (cs ++ cs') :=
  fun c h =>
    if hc : c ∈ cs then bases c hc else bases' c ((List.mem_append.1 h).resolve_left hc)

/-- `fuse(env1, env2)`.  Its `static_assert` asks for each capability of the second environment
whether it is unique among those of the first. -/
def fuse? (cs₁ cs₂ : List κ) : Option (Env Val cs₁ → Env Val cs₂ → Env Val (cs₁ ++ cs₂)) :=
  if ∀ c ∈ cs₂, IsUnique c cs₁ then
    (construct? (cs₁ ++ cs₂) ((cs₁ ++ cs₂).map .capability)).map fun init env₁ env₂ =>
      init (args (cs₁ ++ cs₂) (Bases.append env₁.base env₂.base))
  else none

/-! ## Keeping what was there -/

theorem nodup_iff_unique {cs : List κ} : cs.Nodup ↔ ∀ c ∈ cs, IsUnique c cs :=
  List.nodup_iff_count_eq_one

/-- The refined environment holds the new value and every value that was there. -/
def Keeps {cs : List κ} {d : κ} (f : Env Val cs → Val d → Env Val (cs ++ [d])) : Prop :=
  ∀ e v, (f e v).base d (by simp) = v ∧
    ∀ c (h : c ∈ cs), (f e v).base c (List.mem_append_left _ h) = e.base c h

namespace Refinement

/-- Whatever the refinement builds keeps the values. -/
def Lawful (refine : Refinement Val) : Prop :=
  ∀ ⦃cs d f⦄, refine cs d = some f → Keeps f

end Refinement

/-! ## What the constructors can build -/

@[simp] theorem bases_cons_self {c : κ} {cs : List κ} (v : Val c) (bases : Bases Val cs)
    (h : c ∈ c :: cs) : Bases.cons v bases c h = v := by
  simp [Bases.cons]

theorem bases_cons_of_ne {c c' : κ} {cs : List κ} (v : Val c) (bases : Bases Val cs)
    (hne : c ≠ c') (h : c' ∈ c :: cs) (h' : c' ∈ cs) :
    Bases.cons v bases c' h = bases c' h' := by
  rw [Bases.cons, dif_neg hne]

/-- Each parameter takes one argument. -/
theorem length_eq_of_bindAll? {cs : List κ} {as : List (ArgType κ)}
    {binds : Args Val as → Bases Val cs} (h : bindAll? cs as = some binds) :
    cs.length = as.length := by
  induction cs generalizing as with
  | nil =>
    cases as with
    | nil => rfl
    | cons a as => cases h
  | cons c cs ih =>
    cases as with
    | nil => cases h
    | cons a as =>
      rw [bindAll?] at h
      split at h
      · next hbinds => rw [List.length_cons, List.length_cons, ih hbinds]
      · cases h

/-- With two existing capabilities or more the first constructor has too few arguments, and the
second one too. -/
theorem augment?_eq_none {cs : List κ} (h : 2 ≤ cs.length) (d : κ) :
    (augment? : Refinement Val) cs d = none := by
  have hcapabilities (init : Args Val [.env cs, .capability d] → Bases Val (cs ++ [d])) :
      ofCapabilities? (cs ++ [d]) [.env cs, .capability d] ≠ some init := by
    intro hinit
    have hlength := length_eq_of_bindAll? hinit
    simp only [List.length_append, List.length_cons, List.length_nil] at hlength
    omega
  have hexisting (init : Args Val [.env cs, .capability d] → Bases Val (cs ++ [d])) :
      ofExisting? (cs ++ [d]) [.env cs, .capability d] ≠ some init := by
    rw [ofExisting?]
    split
    · intro hinit
      obtain ⟨binds, hbinds, -⟩ := Option.map_eq_some_iff.1 hinit
      have hlength := length_eq_of_bindAll? hbinds
      simp only [List.length_append, List.length_cons, List.length_nil] at hlength
      omega
    · exact Option.some_ne_none init ∘ Eq.symm
  rw [augment?, construct?, Option.eq_none_iff_forall_ne_some.2 hcapabilities,
    Option.eq_none_iff_forall_ne_some.2 hexisting]
  split
  · next heq =>
    split at heq <;> cases heq
  · rfl

/-- Nothing is there yet: the second constructor builds the environment of the one capability. -/
theorem augment?_nil (d : κ) : ∃ f, (augment? : Refinement Val) [] d = some f ∧ Keeps f := by
  refine ⟨fun _ v => ⟨by simp [IsUnique], Bases.cons v .nil⟩, ?_, ?_⟩
  · simp [augment?, construct?, ofCapabilities?, ofExisting?, bindAll?, bind?, IsUnique]
  · exact fun _ v => ⟨bases_cons_self v .nil List.mem_cons_self, fun c h => nomatch h⟩

/-- With one existing capability, which the environment given first is sliced to, the first
constructor builds the environment. -/
theorem augment?_singleton {c d : κ} (hne : c ≠ d) :
    ∃ f, (augment? : Refinement Val) [c] d = some f ∧ Keeps f := by
  have hunique : ∀ c' ∈ [c] ++ [d], IsUnique c' ([c] ++ [d]) :=
    nodup_iff_unique.1 (by simp [hne])
  refine ⟨fun e v => ⟨hunique, Bases.cons (e.base c (by simp)) (Bases.cons v .nil)⟩, ?_, ?_⟩
  · rw [augment?, construct?, dif_pos hunique]
    simp [ofCapabilities?, bindAll?, bind?]
  · intro e v
    refine ⟨?_, fun c' h => ?_⟩
    · have hmem : d ∈ [c, d] := List.mem_cons_of_mem c List.mem_cons_self
      exact (bases_cons_of_ne _ _ hne hmem List.mem_cons_self).trans (bases_cons_self _ _ _)
    · obtain rfl := List.mem_singleton.1 h
      exact bases_cons_self _ _ List.mem_cons_self

theorem lawful_augment? : (augment? : Refinement Val).Lawful := by
  intro cs d f hf
  match cs with
  | [] =>
    obtain ⟨f', hf', hkeeps⟩ := augment?_nil d
    rw [hf, Option.some.injEq] at hf'
    exact hf' ▸ hkeeps
  | [c] =>
    by_cases hne : c = d
    · subst hne
      have hunique : ¬ ∀ c' ∈ [c] ++ [c], IsUnique c' ([c] ++ [c]) := by simp [IsUnique]
      rw [augment?, construct?, dif_neg hunique] at hf
      cases hf
    · obtain ⟨f', hf', hkeeps⟩ := augment?_singleton hne
      rw [hf, Option.some.injEq] at hf'
      exact hf' ▸ hkeeps
  | c :: c' :: cs =>
    rw [augment?_eq_none (by simp) d] at hf
    cases hf

/-- Environments of at most one capability are those that can be refined. -/
theorem augment?_eq_some_iff {cs : List κ} {d : κ} (hnodup : (cs ++ [d]).Nodup) :
    (∃ f, (augment? : Refinement Val) cs d = some f) ↔ cs.length ≤ 1 := by
  match cs with
  | [] =>
    obtain ⟨f, hf, -⟩ : ∃ f, (augment? : Refinement Val) [] d = some f ∧ Keeps f := augment?_nil d
    simp [hf]
  | [c] =>
    have hne : c ≠ d := by simpa using hnodup
    obtain ⟨f, hf, -⟩ : ∃ f, (augment? : Refinement Val) [c] d = some f ∧ Keeps f :=
      augment?_singleton hne
    simp [hf]
  | c :: c' :: cs =>
    rw [augment?_eq_none (by simp) d]
    simp

/-- Each parameter takes the capability of its own type. -/
theorem bindAll?_capabilities {cs : List κ} (hnodup : cs.Nodup) :
    ∃ binds : Args Val (cs.map .capability) → Bases Val cs,
      bindAll? cs (cs.map .capability) = some binds ∧ ∀ bases, binds (args cs bases) = bases := by
  induction cs with
  | nil => exact ⟨fun _ => .nil, rfl, fun _ => funext fun c => funext fun h => nomatch h⟩
  | cons c cs ih =>
    obtain ⟨hc, hcs⟩ := List.nodup_cons.1 hnodup
    obtain ⟨binds, hbinds, hargs⟩ := ih hcs
    refine ⟨fun args => Bases.cons args.1 (binds args.2), ?_, fun bases => ?_⟩
    · show bindAll? (c :: cs) (.capability c :: cs.map .capability) = _
      simp only [bindAll?, hbinds, bind?, dif_pos]
      rfl
    · funext c' h
      show Bases.cons (bases c _) (binds (args cs _)) c' h = bases c' h
      by_cases heq : c = c'
      · subst heq
        exact bases_cons_self _ _ h
      · have hmem := List.mem_of_ne_of_mem (Ne.symm heq) h
        rw [bases_cons_of_ne _ _ heq h hmem, hargs]

/-- A capability of the second environment would have to be one of the first, and then the fused
environment would have it twice. -/
theorem fuse?_cons (cs₁ : List κ) (c : κ) (cs₂ : List κ) :
    (fuse? cs₁ (c :: cs₂) : Option (Env Val cs₁ → Env Val (c :: cs₂) → _)) = none := by
  unfold fuse?
  split
  · next hunique =>
    have hc : c ∈ cs₁ := by
      have hcount := hunique c List.mem_cons_self
      rw [IsUnique] at hcount
      exact List.count_pos_iff.1 (by omega)
    have hdouble : ¬ ∀ c' ∈ cs₁ ++ c :: cs₂, IsUnique c' (cs₁ ++ c :: cs₂) := by
      rw [← nodup_iff_unique, List.nodup_append]
      exact fun h => h.2.2 c hc c List.mem_cons_self rfl
    rw [construct?, dif_neg hdouble]
    rfl
  · rfl

theorem fuse?_nil {cs₁ : List κ} (hnodup : cs₁.Nodup) :
    ∃ f : Env Val cs₁ → Env Val [] → Env Val (cs₁ ++ []), fuse? cs₁ [] = some f ∧
      ∀ env₁ env₂ c (h : c ∈ cs₁),
        (f env₁ env₂).base c (List.mem_append_left _ h) = env₁.base c h := by
  have hwhole : (cs₁ ++ []).Nodup := by rwa [List.append_nil]
  obtain ⟨binds, hbinds, hargs⟩ :
    ∃ binds : Args Val ((cs₁ ++ []).map .capability) → Bases Val (cs₁ ++ []), _ :=
    bindAll?_capabilities hwhole
  refine ⟨fun env₁ env₂ => ⟨nodup_iff_unique.1 hwhole,
    binds (args (cs₁ ++ []) (Bases.append env₁.base env₂.base))⟩, ?_, fun env₁ env₂ c h => ?_⟩
  · rw [fuse?, if_pos (fun c hc => (List.not_mem_nil hc).elim), construct?,
      dif_pos (nodup_iff_unique.1 hwhole)]
    simp only [ofCapabilities?, hbinds, Option.map_some]
  · have hbase := congrFun (congrFun (hargs (Bases.append env₁.base env₂.base)) c)
      (List.mem_append_left _ h)
    exact hbase.trans (dif_pos h)

/-- Nothing but the empty environment can be fused to an environment, which keeps its values. -/
theorem fuses_nothing (cs₁ cs₂ : List κ) (hnodup : cs₁.Nodup) :
    ((∃ f : Env Val cs₁ → Env Val cs₂ → Env Val (cs₁ ++ cs₂), fuse? cs₁ cs₂ = some f) ↔ cs₂ = []) ∧
      ∀ f : Env Val cs₁ → Env Val cs₂ → Env Val (cs₁ ++ cs₂), fuse? cs₁ cs₂ = some f →
        ∀ env₁ env₂ c (h : c ∈ cs₁),
          (f env₁ env₂).base c (List.mem_append_left _ h) = env₁.base c h := by
  cases cs₂ with
  | nil =>
    obtain ⟨f, hf, hkeeps⟩ : ∃ f : Env Val cs₁ → Env Val [] → Env Val (cs₁ ++ []), _ :=
      fuse?_nil hnodup
    refine ⟨iff_of_true ⟨f, hf⟩ rfl, fun f' hf' => ?_⟩
    rw [hf, Option.some.injEq] at hf'
    exact hf' ▸ hkeeps
  | cons c cs₂ =>
    have hnone : ∀ f : Env Val cs₁ → Env Val (c :: cs₂) → Env Val (cs₁ ++ c :: cs₂),
        fuse? cs₁ (c :: cs₂) ≠ some f := by
      intro f hf
      rw [fuse?_cons] at hf
      cases hf
    exact ⟨iff_of_false (fun ⟨f, hf⟩ => hnone f hf) (List.cons_ne_nil c cs₂),
      fun f hf => (hnone f hf).elim⟩

theorem fuses_nothing_bool :
    ¬ ∃ f : Env (fun _ : Bool => Nat) [true] → Env (fun _ : Bool => Nat) [false] →
      Env (fun _ : Bool => Nat) ([true] ++ [false]), fuse? [true] [false] = some f :=
  (fuses_nothing [true] [false] (List.nodup_singleton true)).1.not.2 (List.cons_ne_nil false [])

end Env

end Prapancha
