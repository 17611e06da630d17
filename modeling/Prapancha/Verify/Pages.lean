import Prapancha.Verify.Sessions

/-!
# The pages of the server

A response is one of a fixed list of pages, whatever the request, the passwords and the file system:
nothing that a client sends comes back to it or to another.
-/

namespace Prapancha

open Fs Http Security Json Logging Effects

namespace Effects

variable {H : HashAlgorithm} (J : Engine) (env : Environment H) (describe : Describe)

def contentType : Header := ⟨text "Content-Type", text "text/html; charset=utf-8"⟩

def htmlPage (status : Status) (body : Bytes) : Response where
  status := status
  headers := [contentType]
  body := body

/-- The answers of all handlers. -/
def pages : List Response := [
  htmlPage .ok (text "प्रपञ्च — Prapancha!"),
  htmlPage .ok (text "प्रपञ्च — Prapancha: अनवरत। Alea iacta est!"),
  htmlPage .notFound (text "प्रपञ्च — Prapancha: शून्यम्। Nihil!"),
  htmlPage .notImplemented (text "प्रपञ्च — Prapancha: 501 NotImplemented!"),
  htmlPage .badRequest (text "प्रपञ्च — Prapancha: Invalid Input!"),
  htmlPage .unprocessableEntity (text "प्रपञ्च — Prapancha: Invalid Input!"),
  htmlPage .internalServerError (text "प्रपञ्च — Prapancha: Internal Server Error!"),
  htmlPage .created (text "प्रपञ्च — Prapancha: Registration Successful!")]

/-- Effects that answer with a page, if they answer. -/
def Paged (es : Effects H) : Prop := ∀ response ∈ responses es, response ∈ pages

namespace Paged

theorem nil : Paged ([] : Effects H) := fun _ h => (List.not_mem_nil h).elim

variable {es : Effects H}

theorem log (h : Paged es) (level : LogLevel) (msg : Bytes) : Paged (es.log level msg) := by
  intro response hresponse
  apply h response
  simpa [Effects.log] using hresponse

theorem save (h : Paged es) (u : UserIdentity H) : Paged (es.save u) := by
  intro response hresponse
  apply h response
  simpa [Effects.save] using hresponse

theorem send (h : Paged es) {response : Response} (hresponse : response ∈ pages) :
    Paged (Effects.send response es) := by
  intro response' hresponse'
  have hmem : response' ∈ responses es ∨ response' = response := by
    simpa [Effects.send] using hresponse'
  rcases hmem with hmem | rfl
  · exact h response' hmem
  · exact hresponse

end Paged

/-- A handler that answers with a page. -/
def AnswersPaged (handle : Handler H) : Prop := ∀ ctx es, Paged es → Paged (handle ctx send es)

namespace AnswersPaged

theorem page {status : Status} {body : Bytes} (h : htmlPage status body ∈ pages) :
    AnswersPaged (H := H) (page status body) :=
  fun _ _ hes => hes.send h

theorem notImplemented {name : Bytes} {handle : Handler H} (h : AnswersPaged handle) :
    AnswersPaged (notImplemented name handle) :=
  fun _ _ hes => h _ _ (hes.log _ _)

theorem void : AnswersPaged (H := H) VoidController.handle :=
  fun ctx _ hes => AnswersPaged.page (by simp [pages]) ctx _ (hes.log _ _)

theorem registration : AnswersPaged (RegistrationController.handle J env describe) := by
  rintro ⟨request⟩ es hes
  rw [registration_eq]
  cases credentials J request.body with
  | none => exact hes.send (show htmlPage _ _ ∈ pages by simp [pages])
  | some given =>
    cases given with
    | none => exact hes.send (show htmlPage _ _ ∈ pages by simp [pages])
    | some given =>
      obtain ⟨username, password⟩ := given
      dsimp only
      cases env.hash password with
      | error error => exact (hes.log _ _).send (show htmlPage _ _ ∈ pages by simp [pages])
      | ok binding =>
        exact ((hes.save _).log _ _).send (show htmlPage _ _ ∈ pages by simp [pages])

theorem dispatch {handle : Handler H} (h : AnswersPaged handle) (name : Bytes)
    (request : Request) : Paged (Effects.dispatch name handle request send []) :=
  h _ _ (Paged.nil.log _ _)

end AnswersPaged

theorem paged_ofRequest (request : Request) : Paged (ofRequest J env describe request) := by
  have hnotImplemented : AnswersPaged (H := H)
      (page .notImplemented (text "प्रपञ्च — Prapancha: 501 NotImplemented!")) :=
    .page (by simp [pages])
  unfold ofRequest
  rcases Router.dispatch_cases voidController (routes J env describe) request Effects.send with
    ⟨route, hroute, hdispatch⟩ | hdispatch
  · rw [hdispatch]
    simp only [routes, List.mem_cons, List.not_mem_nil, or_false] at hroute
    rcases hroute with rfl | rfl | rfl | rfl | rfl | rfl
    · exact AnswersPaged.dispatch (.page (by simp [pages])) _ request
    · exact AnswersPaged.dispatch (.page (by simp [pages])) _ request
    · exact (AnswersPaged.registration J env describe).dispatch _ request
    · exact hnotImplemented.notImplemented.dispatch _ request
    · exact hnotImplemented.notImplemented.dispatch _ request
    · exact hnotImplemented.notImplemented.dispatch _ request
  · rw [hdispatch]
    exact AnswersPaged.void.dispatch _ request

end Effects

namespace Serving

variable {H : HashAlgorithm} {J : Engine} {conns : Nat → Connection H} {n : Nat}

/-- What goes out as the fields of a page: its content type and the length of the body. -/
theorem fields_of_page (B : Beast) {response : Response} (h : response ∈ pages) :
    ∃ length, (B.list (toBeast B response).fields).Perm
      [⟨contentLength, length⟩, contentType] := by
  have hheaders : response.headers = [contentType] := by
    simp only [pages, List.mem_cons, List.not_mem_nil, or_false] at h
    rcases h with rfl | rfl | rfl | rfl | rfl | rfl | rfl | rfl <;> rfl
  have hset : (B.list (setAll B response.headers B.empty)).Perm [contentType] := by
    have hperm := B.list_set contentType.name contentType.value B.empty
    rw [B.list_empty] at hperm
    rw [hheaders]
    exact hperm
  have hnames : ∀ header ∈ B.list (setAll B response.headers B.empty),
      ¬ PayloadName header.name := by
    intro header hheader
    rw [List.mem_singleton.1 (hset.subset hheader)]
    decide +kernel
  obtain ⟨length, hperm⟩ := B.list_preparePayload
    { version := 11, result := response.status.code,
      fields := setAll B response.headers B.empty, body := response.body }
    response.status.allowsBody hnames
  exact ⟨length, hperm.trans (hset.cons _)⟩

/-- In every run, whatever the clients send, what a session hands out is one of the pages, and the
fields that go out with it are two. -/
theorem answers_are_pages {config : Configuration} {d : Directory} {signaled : Bool}
    {es : List Event} {s : Server H} (h : Run (Step J conns n) (start config n d signaled) es s)
    {i : Nat} {response : Response} (hresponse : response ∈ (s.sessions i).outgoing) :
    response ∈ pages ∧ ∀ B : Beast, ∃ length,
      (B.list (toBeast B response).fields).Perm [⟨contentLength, length⟩, contentType] := by
  have hpage : response ∈ pages := by
    rcases (sound_run h).outgoing i with hnone | ⟨-, -, response', hresponses, houtgoing⟩
    · rw [hnone] at hresponse
      exact (List.not_mem_nil hresponse).elim
    · rw [houtgoing, ← hresponses] at hresponse
      unfold Connection.effects at hresponse
      cases hrequest : (conns i).request with
      | none =>
        rw [hrequest] at hresponse
        exact (List.not_mem_nil hresponse).elim
      | some request =>
        rw [hrequest] at hresponse
        exact paged_ofRequest J _ _ request response hresponse
  exact ⟨hpage, fun B => fields_of_page B hpage⟩

theorem answers_are_pages_oneClient : ∃ (s : Server .sha256) (response : Response),
    (s.sessions 0).outgoing = [response] ∧ response ∈ pages := by
  obtain ⟨es, s, response, hrun, -, hs⟩ := answered_oneClient {}
  have houtgoing : (s.sessions 0).outgoing = [response] := by rw [hs, Function.update_self]; rfl
  have hmem : response ∈ (s.sessions 0).outgoing := by
    rw [houtgoing]
    exact List.mem_singleton_self response
  exact ⟨s, response, houtgoing, (answers_are_pages hrun hmem).1⟩

end Serving

end Prapancha
