import Prapancha.Server.Http

/-!
# Header lookup

`Request::header` is to give the values of a name in their order, with a separator between any two.
It loses the separators of empty values at the front, and a view with no NUL behind it finds
nothing.
-/

namespace Prapancha.Http

/-! ## Joined values -/

section Join

variable {sep : Bytes}

/-- One more value, after a separator unless there is no text yet. -/
def addValue (sep combined value : Bytes) : Bytes :=
  (if combined ≠ [] then combined ++ sep else combined) ++ value

theorem intercalate_cons (value : Bytes) : ∀ values : List Bytes,
    sep.intercalate (value :: values) = value ++ values.flatMap (sep ++ ·)
  | [] => by simp
  | next :: values => by
    rw [List.intercalate_cons_cons, intercalate_cons next values, List.flatMap_cons]
    simp only [List.append_assoc]

theorem foldl_addValue_of_ne : ∀ {values : List Bytes} {combined : Bytes}, combined ≠ [] →
    values.foldl (addValue sep) combined = combined ++ values.flatMap (sep ++ ·)
  | [], combined, _ => by simp
  | value :: values, combined, h => by
    have hnext : addValue sep combined value = combined ++ (sep ++ value) := by
      rw [addValue, if_pos h, List.append_assoc]
    rw [List.foldl_cons, hnext, foldl_addValue_of_ne (by simp [h]), List.flatMap_cons,
      List.append_assoc]

/-- The text that the loop builds has no trace of the empty values that it begins with. -/
theorem foldl_addValue : ∀ values : List Bytes,
    values.foldl (addValue sep) [] = sep.intercalate (values.dropWhile List.isEmpty)
  | [] => rfl
  | [] :: values => foldl_addValue values
  | (c :: value) :: values => by
    rw [List.foldl_cons, List.dropWhile_cons_of_neg (by simp), intercalate_cons]
    exact foldl_addValue_of_ne (List.cons_ne_nil c value)

theorem length_intercalate_dropWhile_le (sep : Bytes) : ∀ values : List Bytes,
    (sep.intercalate (values.dropWhile List.isEmpty)).length ≤ (sep.intercalate values).length
  | [] => Nat.le_refl _
  | [] :: [] => Nat.le_refl _
  | [] :: value :: values => by
    have ih := length_intercalate_dropWhile_le sep (value :: values)
    rw [List.dropWhile_cons_of_pos (by rfl), List.intercalate_cons_cons]
    simp only [List.nil_append, List.length_append]
    omega
  | (c :: value) :: values => by
    rw [List.dropWhile_cons_of_neg (by simp)]

theorem intercalate_dropWhile_eq_iff (hsep : sep ≠ []) (values : List Bytes) :
    sep.intercalate (values.dropWhile List.isEmpty) = sep.intercalate values ↔
      values.length ≤ 1 ∨ values.head? ≠ some [] := by
  match values with
  | [] => simp
  | [[]] => simp
  | [] :: value :: values =>
    -- The text without the empty value is shorter by a separator at least.
    have hle := length_intercalate_dropWhile_le sep (value :: values)
    have hpos := List.length_pos_iff.2 hsep
    refine iff_of_false (fun h => ?_) (by simp)
    have hlength := congrArg List.length h
    rw [List.dropWhile_cons_of_pos (by rfl), List.intercalate_cons_cons] at hlength
    simp only [List.nil_append, List.length_append] at hlength
    omega
  | (c :: value) :: values =>
    exact iff_of_true (by rw [List.dropWhile_cons_of_neg (by simp)]) (.inr (by simp))

end Join

/-! ## The elements of joined values -/

/-- One more character in front of the elements of a text. -/
def consElement (c : UInt8) : List Bytes → List Bytes
  | [] => [[c]]
  | element :: elements =>
    if c = 0x2C ∧ element.head? = some 0x20 then [] :: element.tail :: elements
    else (c :: element) :: elements

/-- The elements of a text, which `, ` separates. -/
def elements (s : Bytes) : List Bytes := s.foldr consElement [[]]

theorem consElement_append (c : UInt8) {es : List Bytes} (h : es ≠ []) (more : List Bytes) :
    consElement c (es ++ more) = consElement c es ++ more := by
  obtain ⟨element, es, rfl⟩ := List.exists_cons_of_ne_nil h
  rw [List.cons_append, consElement, consElement]
  split <;> rfl

theorem elements_ne_nil : ∀ s : Bytes, elements s ≠ []
  | [] => List.cons_ne_nil _ _
  | c :: s => by
    obtain ⟨element, es, hs⟩ := List.exists_cons_of_ne_nil (elements_ne_nil s)
    rw [elements, List.foldr_cons, ← elements, hs, consElement]
    split <;> exact List.cons_ne_nil _ _

/-- A separator ends an element. -/
theorem elements_append_separator (s t : Bytes) :
    elements (s ++ (text ", " ++ t)) = elements s ++ elements t := by
  induction s with
  | nil =>
    obtain ⟨element, es, ht⟩ := List.exists_cons_of_ne_nil (elements_ne_nil t)
    show consElement 0x2C (consElement 0x20 (elements t)) = [] :: elements t
    rw [ht, consElement, if_neg fun h => absurd h.1 (by decide), consElement, if_pos ⟨rfl, rfl⟩]
    rfl
  | cons c s ih =>
    show consElement c (elements (s ++ (text ", " ++ t))) = consElement c (elements s) ++ elements t
    rw [ih, consElement_append c (elements_ne_nil s)]

theorem elements_intercalate : ∀ {values : List Bytes}, values ≠ [] →
    elements ((text ", ").intercalate values) = values.flatMap elements
  | [value], _ => by simp
  | value :: next :: values, _ => by
    rw [List.intercalate_cons_cons, List.append_assoc, elements_append_separator,
      elements_intercalate (List.cons_ne_nil next values)]
    rfl

/-- The elements joined are the text. -/
theorem intercalate_elements (s : Bytes) : (text ", ").intercalate (elements s) = s := by
  induction s with
  | nil => rfl
  | cons c s ih =>
    obtain ⟨element, es, hs⟩ := List.exists_cons_of_ne_nil (elements_ne_nil s)
    rw [hs] at ih
    show (text ", ").intercalate (consElement c (elements s)) = c :: s
    rw [hs, consElement]
    split
    · next hsep =>
      obtain ⟨rfl, hspace⟩ := hsep
      obtain ⟨element, rfl⟩ := List.head?_eq_some_iff.1 hspace
      rw [List.intercalate_cons_cons, ← ih]
      cases es with
      | nil => rw [List.intercalate_singleton, List.intercalate_singleton]; rfl
      | cons next es => rw [List.intercalate_cons_cons, List.intercalate_cons_cons]; rfl
    · rw [← ih]
      cases es with
      | nil => rw [List.intercalate_singleton, List.intercalate_singleton]
      | cons next es => rw [List.intercalate_cons_cons, List.intercalate_cons_cons]; rfl

/-- Values joined are the same text exactly if they have the same elements. -/
theorem intercalate_eq_iff {values values' : List Bytes} (h : values ≠ []) (h' : values' ≠ []) :
    (text ", ").intercalate values = (text ", ").intercalate values' ↔
      values.flatMap elements = values'.flatMap elements := by
  rw [← elements_intercalate h, ← elements_intercalate h']
  refine ⟨congrArg elements, fun helements => ?_⟩
  rw [← intercalate_elements ((text ", ").intercalate values), helements, intercalate_elements]

/-! ## The headers of a name -/

/-- The values of the headers with this name. -/
def named (headers : List Header) (chars : Bytes) : List Bytes :=
  (headers.filter fun h => EqualIgnoringCase h.name chars).map Header.value

/-- The values of the headers whose names agree with this one up to its first NUL. -/
def agreeing (headers : List Header) (chars : Bytes) : List Bytes :=
  (headers.filter fun h => h.name.length = chars.length ∧
    EqualIgnoringCase (untilNul h.name) (untilNul chars)).map Header.value

/-- What a lookup is to give: all values of the name, joined. -/
def lookup (headers : List Header) (chars : Bytes) : Option Bytes :=
  if named headers chars = [] then none
  else some ((text ", ").intercalate (named headers chars))

/-- A name without a NUL agrees with no other. -/
theorem agreeing_of_not_mem {chars : Bytes} (h : 0 ∉ chars) (headers : List Header) :
    agreeing headers chars = named headers chars := by
  unfold agreeing named
  congr 1
  refine List.filter_congr fun header _ => decide_eq_decide.2 ?_
  constructor
  · rintro ⟨hlength, hequal⟩
    rw [untilNul_of_not_mem h] at hequal
    have hwhole : untilNul header.name = header.name :=
      (List.takeWhile_prefix _).eq_of_length (hequal.length_eq.trans hlength.symm)
    rwa [hwhole] at hequal
  · exact fun hequal => ⟨hequal.length_eq, hequal.untilNul⟩

theorem named_eq_nil_of_agreeing {headers : List Header} {chars : Bytes}
    (h : agreeing headers chars = []) : named headers chars = [] := by
  unfold agreeing at h
  unfold named
  simp only [List.map_eq_nil_iff, List.filter_eq_nil_iff, decide_eq_true_eq] at h ⊢
  exact fun header hheader hequal => h header hheader ⟨hequal.length_eq, hequal.untilNul⟩

/-- The loop of a lookup joins the values of the headers that pass its test. -/
theorem header_foldl {test : Header → Prop} [DecidablePred test] :
    ∀ (headers : List Header) (combined : Bytes) (found : Bool),
      headers.foldl (fun (combined, found) h =>
        if test h then
          ((if combined ≠ [] then combined ++ text ", " else combined) ++ h.value, true)
        else (combined, found)) (combined, found) =
      (((headers.filter test).map Header.value).foldl (addValue (text ", ")) combined,
        found || decide (headers.filter test ≠ []))
  | [], combined, found => by simp
  | h :: headers, combined, found => by
    rw [List.foldl_cons]
    by_cases htest : test h
    · simp only [htest, if_true]
      rw [header_foldl headers, List.filter_cons_of_pos (by simpa using htest)]
      simp [addValue]
    · simp only [htest, if_false]
      rw [header_foldl headers, List.filter_cons_of_neg (by simpa using htest)]

/-- A view that no NUL ends finds nothing; another finds the values of the names that agree with
it, without the empty ones at the front. -/
theorem header_eq (request : Request) (name : StringView) :
    request.header name =
      if name.beyond 0 ≠ 0 ∧ 0 ∉ name.chars ∨ agreeing request.headers name.chars = [] then none
      else some ((text ", ").intercalate
        ((agreeing request.headers name.chars).dropWhile List.isEmpty)) := by
  have htest (h : Header) :
      (h.name.length = name.size ∧ strcasecmp h.name name.data = 0) ↔
        (h.name.length = name.chars.length ∧
          EqualIgnoringCase (untilNul h.name) (untilNul name.chars)) ∧
        (0 ∈ name.chars ∨ name.beyond 0 = 0) := by
    rw [and_assoc]
    exact and_congr_right (strcasecmp_eq_zero name.beyond)
  have hheader : request.header name = if request.headers.filter (fun h =>
      h.name.length = name.size ∧ strcasecmp h.name name.data = 0) ≠ [] then
        some ((text ", ").intercalate (((request.headers.filter fun h =>
          h.name.length = name.size ∧ strcasecmp h.name name.data = 0).map
            Header.value).dropWhile List.isEmpty))
      else none := by
    unfold Request.header
    rw [header_foldl, foldl_addValue]
    simp only [Bool.false_or, decide_eq_true_eq]
  simp only [htest] at hheader
  by_cases hend : 0 ∈ name.chars ∨ name.beyond 0 = 0
  · have hends : ¬ (name.beyond 0 ≠ 0 ∧ 0 ∉ name.chars) := by
      rintro ⟨hbeyond, hmem⟩
      exact hend.elim hmem hbeyond
    simp only [hheader, hend, and_true, hends, false_or, agreeing, List.map_eq_nil_iff, ne_eq,
      ite_not]
  · have hends : name.beyond 0 ≠ 0 ∧ 0 ∉ name.chars := by
      rw [not_or] at hend
      exact ⟨hend.2, hend.1⟩
    rw [hheader, if_neg (by simp only [hend, and_false, decide_false]; simp),
      if_pos (.inl hends)]

/-- When a lookup gives what it is to give.  Of a name without a NUL the view has to end in one,
and only a single value may come first and be empty.  Of another, no header agrees with it up to
the NUL; or all that do have empty values and one of them agrees with all of it; or their values,
but for the empty ones at the front, have the elements that the values under all of the name
have. -/
def LookupCondition (headers : List Header) (name : StringView) : Prop :=
  if 0 ∈ name.chars then
    agreeing headers name.chars = [] ∨
      (∀ value ∈ agreeing headers name.chars, value = []) ∧ named headers name.chars = [[]] ∨
      (∃ value ∈ agreeing headers name.chars, value ≠ []) ∧
        ((agreeing headers name.chars).dropWhile List.isEmpty).flatMap elements =
          (named headers name.chars).flatMap elements
  else
    named headers name.chars = [] ∨ name.beyond 0 = 0 ∧
      ((named headers name.chars).length ≤ 1 ∨ (named headers name.chars).head? ≠ some [])

theorem flatMap_elements_ne_nil {values : List Bytes} (h : values ≠ []) :
    values.flatMap elements ≠ [] := by
  obtain ⟨value, values, rfl⟩ := List.exists_cons_of_ne_nil h
  rw [List.flatMap_cons]
  exact List.append_ne_nil_of_left_ne_nil (elements_ne_nil value) _

/-- Only one empty value is the empty text. -/
theorem intercalate_eq_nil {values : List Bytes} (h : values ≠ []) :
    (text ", ").intercalate values = [] ↔ values = [[]] := by
  match values with
  | [value] => simp
  | value :: next :: values =>
    rw [List.intercalate_cons_cons]
    have hsep : value ++ text ", " ≠ [] := List.append_ne_nil_of_right_ne_nil _ (by decide)
    exact iff_of_false (List.append_ne_nil_of_left_ne_nil hsep _) (by simp)

/-- The text of a lookup whose name has a NUL. -/
theorem some_eq_lookup_iff {agreed named : List Bytes} :
    some ((text ", ").intercalate (agreed.dropWhile List.isEmpty)) =
        (if named = [] then none else some ((text ", ").intercalate named)) ↔
      (∀ value ∈ agreed, value = []) ∧ named = [[]] ∨ (∃ value ∈ agreed, value ≠ []) ∧
        (agreed.dropWhile List.isEmpty).flatMap elements = named.flatMap elements := by
  by_cases hempty : ∀ value ∈ agreed, value = []
  · have hdrop : agreed.dropWhile List.isEmpty = [] :=
      List.dropWhile_eq_nil_iff.2 fun value hvalue => by simp [hempty value hvalue]
    have hnone : ¬ ∃ value ∈ agreed, value ≠ [] := by
      rintro ⟨value, hvalue, hne⟩
      exact hne (hempty value hvalue)
    rw [hdrop, and_iff_right hempty, or_iff_left fun h => hnone h.1]
    by_cases hnamed : named = []
    · simp [hnamed]
    · rw [if_neg hnamed, Option.some.injEq, List.intercalate_nil, eq_comm,
        intercalate_eq_nil hnamed]
  · have hsome : ∃ value ∈ agreed, value ≠ [] := by simpa using hempty
    have hdrop : agreed.dropWhile List.isEmpty ≠ [] := by
      obtain ⟨value, hvalue, hne⟩ := hsome
      exact fun hnil => hne (by simpa using List.dropWhile_eq_nil_iff.1 hnil value hvalue)
    rw [or_iff_right fun h => hempty h.1, and_iff_right hsome]
    by_cases hnamed : named = []
    · rw [if_pos hnamed, hnamed]
      exact iff_of_false nofun (flatMap_elements_ne_nil hdrop)
    · rw [if_neg hnamed, Option.some.injEq, intercalate_eq_iff hdrop hnamed]

theorem header_eq_lookup_iff (request : Request) (name : StringView) :
    request.header name = lookup request.headers name.chars ↔
      LookupCondition request.headers name := by
  rw [header_eq, LookupCondition, lookup]
  by_cases hmem : 0 ∈ name.chars
  case pos =>
    simp only [hmem, not_true_eq_false, and_false, false_or, if_true]
    by_cases hagreeing : agreeing request.headers name.chars = []
    · rw [hagreeing, named_eq_nil_of_agreeing hagreeing]
      simp
    · rw [if_neg hagreeing, or_iff_right hagreeing]
      exact some_eq_lookup_iff
  case neg =>
    simp only [hmem, not_false_eq_true, and_true, if_false, agreeing_of_not_mem hmem]
    by_cases hnamed : named request.headers name.chars = []
    · simp [hnamed]
    · by_cases hbeyond : name.beyond 0 = 0
      · rw [if_neg (by simp [hbeyond, hnamed]), if_neg hnamed, Option.some.injEq,
          or_iff_right hnamed, and_iff_right hbeyond, intercalate_dropWhile_eq_iff (by decide)]
      · rw [if_pos (.inl hbeyond), if_neg hnamed]
        simp [hbeyond, hnamed]

/-- Two headers of one name, the first with no value. -/
def emptyFirst : Request :=
  ⟨.get, text "/", [⟨text "Accept", []⟩, ⟨text "ACCEPT", text "text/html"⟩], []⟩

/-- The separator behind the empty value is lost; and of a view into `accept: *` both are. -/
theorem emptyFirst_ne_lookup :
    lookup emptyFirst.headers (text "accept") = some (text ", text/html") ∧
    emptyFirst.header ⟨text "accept", fun _ => 0⟩ = some (text "text/html") ∧
    emptyFirst.header ⟨text "accept", fun i => (text ": *").getD i 0⟩ = none := by
  decide

end Prapancha.Http
