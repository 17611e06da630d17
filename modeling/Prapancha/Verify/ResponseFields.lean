import Prapancha.Server.BeastAdapter

/-!
# The fields of a response

`set_header` appends, and `to_beast` replaces: what was set last under a name, in any spelling, is
what goes out, next to the length of the body.
-/

namespace Prapancha.Http

variable {B : Beast}

theorem fieldsNamed_eq_nil {name : Bytes} {fields : List Header} :
    fieldsNamed name fields = [] ↔ ∀ h ∈ fields, ¬EqualIgnoringCase h.name name := by
  unfold fieldsNamed
  rw [List.filter_eq_nil_iff]
  simp only [decide_eq_true_eq]

theorem fieldsNamed_cons (header : Header) (headers : List Header) (name : Bytes) :
    fieldsNamed name (header :: headers) =
      if EqualIgnoringCase header.name name then header :: fieldsNamed name headers
      else fieldsNamed name headers := by
  unfold fieldsNamed
  rw [List.filter_cons]
  simp only [decide_eq_true_eq]

theorem perm_fieldsNamed {fields fields' : List Header} (h : fields.Perm fields') (name : Bytes) :
    (fieldsNamed name fields).Perm (fieldsNamed name fields') :=
  h.filter _

/-- What is left of a name when the fields of a name, this one or another, are removed. -/
theorem fieldsNamed_filter (removed name : Bytes) (fields : List Header) :
    fieldsNamed name (fields.filter fun h => ¬EqualIgnoringCase h.name removed) =
      if EqualIgnoringCase removed name then [] else fieldsNamed name fields := by
  split
  · next hname =>
    rw [fieldsNamed_eq_nil]
    intro h hmem hsame
    have hother := (List.mem_filter.1 hmem).2
    exact of_decide_eq_true hother (hsame.trans hname.symm)
  · next hname =>
    unfold fieldsNamed
    rw [List.filter_filter]
    apply List.filter_congr
    intro h _
    by_cases hsame : EqualIgnoringCase h.name name
    · have hother : ¬EqualIgnoringCase h.name removed := fun heq =>
        hname (heq.symm.trans hsame)
      simp [hsame, hother]
    · simp [hsame]

/-- Setting a field replaces those of its name and leaves those of any other name. -/
theorem fieldsNamed_set (header : Header) (fields : B.Fields) (name : Bytes) :
    (fieldsNamed name (B.list (B.set header.name header.value fields))).Perm
      (if EqualIgnoringCase header.name name then [header]
        else fieldsNamed name (B.list fields)) := by
  have hperm := perm_fieldsNamed (B.list_set header.name header.value fields) name
  rw [fieldsNamed_cons, fieldsNamed_filter] at hperm
  split
  · next hname => rwa [if_pos hname, if_pos hname] at hperm
  · next hname => rwa [if_neg hname, if_neg hname] at hperm

/-- The last header of a name decides, if there is one. -/
theorem fieldsNamed_setAll (name : Bytes) : ∀ (headers : List Header) (fields : B.Fields),
    (fieldsNamed name (B.list (setAll B headers fields))).Perm
      ((fieldsNamed name headers).getLast?.elim (fieldsNamed name (B.list fields)) fun h => [h])
  | [], fields => .refl _
  | header :: headers, fields => by
    have ih := fieldsNamed_setAll name headers (B.set header.name header.value fields)
    refine ih.trans ?_
    rw [fieldsNamed_cons]
    cases hlast : (fieldsNamed name headers).getLast? with
    | some last =>
      -- A later header of the name: this one is replaced.
      split
      · rw [List.getLast?_cons, hlast]
        rfl
      · rw [hlast]
        rfl
    | none =>
      -- No later header of the name: this one stays, or leaves what was there.
      refine (fieldsNamed_set header fields name).trans (.of_eq ?_)
      rw [List.getLast?_eq_none_iff.1 hlast]
      split <;> rfl

/-- With one element at most there is no order to lose. -/
theorem eq_of_perm_toList {α : Type} {l : List α} : ∀ {o : Option α}, l.Perm o.toList → l = o.toList
  | none, h => List.perm_nil.1 h
  | some _, h => List.perm_singleton.1 h

theorem fieldsNamed_setAll_empty (name : Bytes) (headers : List Header) :
    fieldsNamed name (B.list (setAll B headers B.empty)) =
      (fieldsNamed name headers).getLast?.toList := by
  apply eq_of_perm_toList
  refine (fieldsNamed_setAll name headers B.empty).trans (.of_eq ?_)
  rw [B.list_empty]
  cases (fieldsNamed name headers).getLast? <;> rfl

theorem setAll_not_payloadName {headers : List Header}
    (hnames : ∀ h ∈ headers, ¬PayloadName h.name) :
    ∀ h ∈ B.list (setAll B headers B.empty), ¬PayloadName h.name := by
  have hnone (name : Bytes) (h : ∀ h ∈ headers, ¬EqualIgnoringCase h.name name) :
      ∀ h ∈ B.list (setAll B headers B.empty), ¬EqualIgnoringCase h.name name := by
    rw [← fieldsNamed_eq_nil, fieldsNamed_setAll_empty, fieldsNamed_eq_nil.2 h]
    rfl
  have hlength := hnone contentLength fun h hmem hname => hnames h hmem (.inl hname)
  have hencoding := hnone transferEncoding fun h hmem hname => hnames h hmem (.inr hname)
  rintro h hmem (hname | hname)
  · exact hlength h hmem hname
  · exact hencoding h hmem hname

/-- The fields that go out under a name: the last header of that name, or the length of the body
that `prepare_payload` adds. -/
theorem fieldsNamed_toBeast {response : Response}
    (hnames : ∀ h ∈ response.headers, ¬PayloadName h.name) :
    ∃ length, ∀ name, fieldsNamed name (B.list (toBeast B response).fields) =
      if EqualIgnoringCase contentLength name then [⟨contentLength, length⟩]
      else (fieldsNamed name response.headers).getLast?.toList := by
  have hother := setAll_not_payloadName (B := B) hnames
  obtain ⟨length, hperm⟩ := B.list_preparePayload
    { version := 11, result := response.status.code,
      fields := setAll B response.headers B.empty, body := response.body }
    response.status.allowsBody hother
  refine ⟨length, fun name => ?_⟩
  have hnamed := perm_fieldsNamed hperm name
  rw [fieldsNamed_cons] at hnamed
  split
  · next hname =>
    have hnil : fieldsNamed name (B.list (setAll B response.headers B.empty)) = [] := by
      rw [fieldsNamed_eq_nil]
      exact fun h hmem hsame => hother h hmem (.inl (hsame.trans hname.symm))
    rw [if_pos hname, hnil] at hnamed
    exact List.perm_singleton.1 hnamed
  · next hname =>
    rw [if_neg hname, fieldsNamed_setAll_empty] at hnamed
    exact eq_of_perm_toList hnamed

/-! ## Calls -/

/-- `set_header` once for each pair of a name and a value. -/
def setHeaders (response : Response) (calls : List Header) : Response :=
  calls.foldl (fun response call => response.setHeader call.name call.value) response

theorem headers_setHeaders (response : Response) (calls : List Header) :
    (setHeaders response calls).headers = response.headers ++ calls := by
  induction calls generalizing response with
  | nil => exact (List.append_nil _).symm
  | cons call calls ih =>
    show (setHeaders (response.setHeader call.name call.value) calls).headers = _
    rw [ih, Response.setHeader, List.append_assoc]
    rfl

/-- What a handler sets last under a name goes out under it, once, and nothing else goes out but the
one field that `prepare_payload` adds.  Headers that the response has already count as calls before
these. -/
theorem fields_of_calls (B : Beast) (response : Response) (calls : List Header)
    (hcalls : ∀ call ∈ response.headers ++ calls, ¬PayloadName call.name) :
    ∃ length, ∀ name,
      fieldsNamed name (B.list (toBeast B (setHeaders response calls)).fields) =
        if EqualIgnoringCase contentLength name then [⟨contentLength, length⟩]
        else (fieldsNamed name (response.headers ++ calls)).getLast?.toList := by
  rw [← headers_setHeaders] at hcalls ⊢
  exact fieldsNamed_toBeast hcalls

/-- Two spellings of a name, with another name in between. -/
def respelled : List Header :=
  [⟨text "Content-Type", text "text/plain"⟩, ⟨text "Allow", text "GET"⟩,
    ⟨text "content-type", text "text/html"⟩]

theorem fields_of_calls_respelled :
    fieldsNamed (text "CONTENT-TYPE")
      (Beast.ofLists.list (toBeast Beast.ofLists (setHeaders {} respelled)).fields) =
        [⟨text "content-type", text "text/html"⟩] := by
  obtain ⟨length, h⟩ := fields_of_calls Beast.ofLists {} respelled (by decide +kernel)
  rw [h, if_neg (by decide +kernel)]
  decide +kernel

end Prapancha.Http
