import Mathlib.Data.List.Basic

/-!
# Runs

Runs of a labelled step relation, with the list of their labels, and enumerations of the values of
a partial function.
-/

namespace Prapancha

/-- An occurrence in a list extended at its end is the new element or an old occurrence. -/
theorem snoc_eq_append_cons {α : Type} {l pre post : List α} {a b : α}
    (h : l ++ [a] = pre ++ b :: post) :
    (post = [] ∧ l = pre ∧ a = b) ∨ ∃ post', post = post' ++ [a] ∧ l = pre ++ b :: post' := by
  rcases List.eq_nil_or_concat post with rfl | ⟨post, c, rfl⟩
  · obtain ⟨rfl, hab⟩ := List.append_inj' h rfl
    cases hab
    exact .inl ⟨rfl, rfl, rfl⟩
  · rw [List.concat_eq_append, ← List.cons_append, ← List.append_assoc] at h
    obtain ⟨rfl, hac⟩ := List.append_inj' h rfl
    cases hac
    exact .inr ⟨post, List.concat_eq_append, rfl⟩

section Runs

variable {σ ε : Type} {step : σ → ε → σ → Prop} {s₀ : σ}

/-- `Run step s₀ es s`: from `s₀` the steps labelled `es` lead to `s`. -/
inductive Run (step : σ → ε → σ → Prop) (s₀ : σ) : List ε → σ → Prop
  | nil : Run step s₀ [] s₀
  | snoc {es : List ε} {e : ε} {s s' : σ} :
    Run step s₀ es s → step s e s' → Run step s₀ (es ++ [e]) s'

namespace Run

/-- A relation between the labels so far and the state that every step keeps holds of every run. -/
theorem induct_on {I : List ε → σ → Prop} (hnil : I [] s₀)
    (hsnoc : ∀ es e s s', Run step s₀ es s → I es s → step s e s' → I (es ++ [e]) s')
    {es : List ε} {s : σ} (h : Run step s₀ es s) : I es s := by
  induction h with
  | nil => exact hnil
  | snoc hrun hstep ih => exact hsnoc _ _ _ _ hrun ih hstep

theorem trans {es es' : List ε} {s s' : σ} (h : Run step s₀ es s) (h' : Run step s es' s') :
    Run step s₀ (es ++ es') s' := by
  induction h' with
  | nil => rwa [List.append_nil]
  | snoc _ hstep ih =>
    rw [← List.append_assoc]
    exact ih.snoc hstep

theorem single {e : ε} {s : σ} (h : step s₀ e s) : Run step s₀ [e] s := Run.nil.snoc h

/-- The same run under a relation that allows more steps. -/
theorem mono {step' : σ → ε → σ → Prop} (hstep : ∀ s e s', step s e s' → step' s e s')
    {es : List ε} {s : σ} (h : Run step s₀ es s) : Run step' s₀ es s := by
  induction h with
  | nil => exact .nil
  | snoc _ hs ih => exact ih.snoc (hstep _ _ _ hs)

/-- A run whose labels all have a property, as a run of the steps that have it. -/
theorem restrict {P : ε → Prop} {es : List ε} {s : σ} (h : Run step s₀ es s)
    (hes : ∀ e ∈ es, P e) : Run (fun s e s' => step s e s' ∧ P e) s₀ es s := by
  induction h with
  | nil => exact .nil
  | snoc _ hs ih =>
    rw [List.forall_mem_append] at hes
    exact (ih hes.1).snoc ⟨hs, hes.2 _ List.mem_cons_self⟩

theorem invariant {I : σ → Prop} (hinit : I s₀) (hstep : ∀ s e s', I s → step s e s' → I s')
    {es : List ε} {s : σ} (h : Run step s₀ es s) : I s :=
  h.induct_on (I := fun _ s => I s) hinit fun _ _ _ _ _ hI hs => hstep _ _ _ hI hs

/-- Two systems that keep a relation between their states step by step have the same runs. -/
theorem lockstep {τ : Type} {step' : τ → ε → τ → Prop} {R : σ → τ → Prop} {t₀ : τ}
    (hinit : R s₀ t₀)
    (hstep : ∀ s e s' t, R s t → step s e s' → ∃ t', step' t e t' ∧ R s' t')
    {es : List ε} {s : σ} (h : Run step s₀ es s) : ∃ t, Run step' t₀ es t ∧ R s t := by
  induction h with
  | nil => exact ⟨t₀, .nil, hinit⟩
  | snoc _ hs ih =>
    obtain ⟨t, hrun, hR⟩ := ih
    obtain ⟨t', hs', hR'⟩ := hstep _ _ _ _ hR hs
    exact ⟨t', hrun.snoc hs', hR'⟩

/-- Where each step is a function of its label, so is the run of its labels. -/
theorem eq_foldl {f : σ → ε → σ} (hstep : ∀ s e s', step s e s' → s' = f s e) {es : List ε} {s : σ}
    (h : Run step s₀ es s) : s = es.foldl f s₀ := by
  induction h with
  | nil => rfl
  | snoc _ hs ih => rw [hstep _ _ _ hs, ih, List.foldl_append, List.foldl_cons, List.foldl_nil]

/-- Where every step lowers a measure, runs are no longer than it. -/
theorem length_add_le {I : σ → Prop} {m : σ → Nat}
    (hstep : ∀ s e s', I s → step s e s' → I s' ∧ m s' < m s) (hinit : I s₀)
    {es : List ε} {s : σ} (h : Run step s₀ es s) : I s ∧ es.length + m s ≤ m s₀ := by
  induction h with
  | nil => exact ⟨hinit, Nat.le_of_eq (Nat.zero_add _)⟩
  | snoc _ hs ih =>
    obtain ⟨hI, hlt⟩ := hstep _ _ _ ih.1 hs
    refine ⟨hI, ?_⟩
    rw [List.length_append, List.length_singleton]
    omega

/-- A run through a label passes through a step with that label. -/
theorem step_at {es : List ε} {s : σ} (h : Run step s₀ es s) :
    ∀ {pre post : List ε} {e : ε}, es = pre ++ e :: post →
      ∃ s₁ s₂, Run step s₀ pre s₁ ∧ step s₁ e s₂ ∧ Run step s₂ post s := by
  induction h with
  | nil => intro pre post e h; simp at h
  | @snoc es e s s' hrun hstep ih =>
    intro pre post e' h
    rcases snoc_eq_append_cons h with ⟨rfl, rfl, rfl⟩ | ⟨post, rfl, rfl⟩
    · exact ⟨s, s', hrun, hstep, .nil⟩
    · obtain ⟨s₁, s₂, hpre, hstep', hpost⟩ := ih rfl
      exact ⟨s₁, s₂, hpre, hstep', hpost.snoc hstep⟩

end Run

end Runs

/-! ## Interleavings -/

theorem count_part {ι α : Type} [DecidableEq ι] [DecidableEq α] (l : List (ι × α)) (i : ι) (a : α) :
    ((l.filter (·.1 = i)).map (·.2)).count a = l.count (i, a) := by
  induction l with
  | nil => rfl
  | cons x l ih =>
    obtain ⟨j, b⟩ := x
    rw [List.filter_cons, List.count_cons, ← ih]
    by_cases hj : j = i <;> simp [hj, List.count_cons]

/-- Two interleavings of the same parts are permutations of each other. -/
theorem perm_of_parts {ι α : Type} [DecidableEq ι] {l l' : List (ι × α)}
    (h : ∀ i, (l.filter (·.1 = i)).map (·.2) = (l'.filter (·.1 = i)).map (·.2)) : l.Perm l' := by
  classical
  refine List.perm_iff_count.2 fun x => ?_
  rw [← count_part l x.1 x.2, ← count_part l' x.1 x.2, h]

/-! ## Enumerations -/

/-- `l` lists the values of the partial function `f`, one for each argument it is defined at, in
some order. -/
def Enumerates {α β : Type} (f : α → Option β) (l : List β) : Prop :=
  ∃ as : List α, as.Nodup ∧ (∀ a, a ∈ as ↔ (f a).isSome) ∧ l = as.filterMap f

end Prapancha
