import Prapancha.Verify.Linearization

/-!
# Safe and idempotent methods

The table of `get_traits` agrees with the routes: a request whose method is said to be safe or
idempotent saves nothing, so that any number of them, in any order, leaves the store alone.
-/

namespace Prapancha

open Fs Http Security Json Effects

namespace Effects

variable {H : HashAlgorithm} (J : Engine) (env : Environment H) (describe : Describe)

/-- Only a POST request can save a user. -/
theorem saves_ofRequest {request : Request} (hmethod : request.method ≠ .post) :
    saves (ofRequest J env describe request) = [] := by
  have hpage : ∀ (response : Response) (es : Effects H), (∀ e ∈ es, e.IsLog) →
      saves (send response es) = [] := by
    intro response es hes
    rw [send, saves_append, saves_of_isLog hes]
    rfl
  have hnil : ∀ e ∈ ([] : Effects H), e.IsLog := fun _ he => (List.not_mem_nil he).elim
  unfold ofRequest Router.dispatch
  cases hrun : Router.execute (Router.targetPath request.target) request.method request send
    (routes J env describe) with
  | none => exact hpage _ _ (isLog_log (isLog_log hnil))
  | some run =>
    obtain ⟨route, hroute, -, hmatch, rfl⟩ := Router.execute_matches hrun
    simp only [routes, List.mem_cons, List.not_mem_nil, or_false] at hroute
    rcases hroute with rfl | rfl | rfl | rfl | rfl | rfl
    · exact hpage _ _ (isLog_log hnil)
    · exact hpage _ _ (isLog_log hnil)
    · exact (hmethod hmatch).elim
    · exact hpage _ _ (isLog_log (isLog_log hnil))
    · exact (hmethod hmatch).elim
    · exact (hmethod hmatch).elim

end Effects

namespace Serving

variable {H : HashAlgorithm} {J : Engine} {conns : Nat → Connection H} {n : Nat}

/-- However requests with safe or idempotent methods interleave, the store stays as it was. -/
theorem safe_requests_change_nothing {config : Configuration} {d : Directory} {signaled : Bool}
    {es : List Event} {s : Server H}
    (hmethods : ∀ i request, (conns i).request = some request →
      request.method.getTraits.isSafe = true ∨ request.method.getTraits.isIdempotent = true)
    (h : Run (Step J conns n) (start config n d signaled) es s) : s.store = d := by
  have hnone : ∀ i u, .save u ∉ (conns i).effects J := by
    intro i u hu
    obtain ⟨request, hrequest⟩ := Connection.request_isSome_of_mem hu
    have hpost : request.method ≠ .post := by
      intro hpost
      have hmethod := hmethods i request hrequest
      rw [hpost] at hmethod
      exact absurd hmethod (by decide)
    rw [Connection.effects_of_request hrequest, ← mem_saves, saves_ofRequest J _ _ hpost] at hu
    exact List.not_mem_nil hu
  have hids : DistinctIds J conns := fun i _ u _ hu => (hnone i u hu).elim
  obtain ⟨is, w, hl⟩ := linearizes_run hids h
  refine Finmap.ext_lookup fun name => ?_
  exact hl.lookup_of_unsaved (sound_run h) hids fun i u hu => (hnone i u hu).elim

/-- A client that asks to be deregistered. -/
def leaving : Connection .sha256 where
  incoming := some
    { verb := .delete
      target := text "/api/v1/deregister"
      version := 11
      fields := []
      body := [] }
  env := RegistrationController.surroundings .succeeds
  describe := fun _ => none

theorem safe_requests_change_nothing_leaving : ∃ (s : Server .sha256) (h : Handling .sha256),
    s.sessions 0 = .handling h ∧ s.store = ∅ := by
  obtain ⟨es, s, hrun, hsessions⟩ := handling_run compact (fun _ => leaving) rfl {} ∅
  have hhandling := congrFun hsessions 0
  rw [Function.update_self] at hhandling
  have hmethods : ∀ (i : Nat) request, leaving.request = some request →
      request.method.getTraits.isSafe = true ∨ request.method.getTraits.isIdempotent = true := by
    intro i request hrequest
    cases hrequest
    exact .inr rfl
  exact ⟨s, _, hhandling, safe_requests_change_nothing hmethods hrun⟩

end Serving

end Prapancha
