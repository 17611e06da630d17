import Prapancha.Security.ErrorQueue

/-!
# Descriptions of errors

An `Error` would have to keep the text of its entry in order to describe it.  It keeps the code
only: the entry is off the queue when the text is printed, and printing empties the queue.
-/

namespace Prapancha.Security

variable (line : ErrorEntry → Bytes)

/-- A text contains what is printed of an entry with the code of the error. -/
def Error.DescribedBy (error : Error) (text : Bytes) : Prop :=
  ∃ entry : ErrorEntry, entry.code = error.code ∧ line entry <:+: text

/-- An error that was returned with this queue has a description of its own, which stays when it
is asked for again and when other functions have used the queue. -/
structure Described (error : Error) (queue : ErrorQueue) : Prop where
  present : ∃ text, (error.description line .ok queue).1 = some text ∧ error.DescribedBy line text
  again : (error.description line .ok (error.description line .ok queue).2).1 =
    (error.description line .ok queue).1
  undisturbed : ∀ later : List (List Call), (error.description line .ok
    (later.foldl (fun queue calls => (perform calls queue).2) queue)).1 =
      (error.description line .ok queue).1

variable {line}

/-- After a description there is nothing left for the next one. -/
theorem again_of_present {error : Error} {queue : ErrorQueue} {text : Bytes}
    (h : (error.description line .ok queue).1 = some text) :
    (error.description line .ok (error.description line .ok queue).2).1 = none := by
  have hcode : error.code ≠ 0 := by
    intro hcode
    rw [Error.description, if_pos hcode] at h
    cases h
  rw [Error.description_ok hcode queue, Error.description_nil]

/-- The first description is of the entries behind the one whose code the error carries. -/
theorem description_of_failsWith {calls : List Call} {entry : ErrorEntry} {rest : ErrorQueue}
    (h : FailsWith calls (entry :: rest)) (hcode : entry.code ≠ 0) (queue : ErrorQueue) :
    perform calls queue = (.error ⟨entry.code⟩, rest) ∧
      (Error.description line ⟨entry.code⟩ .ok rest).1 =
        if rest.flatMap line = [] then none else some (rest.flatMap line) :=
  ⟨perform_of_failsWith h queue, congrArg Prod.fst (Error.description_ok hcode rest)⟩

theorem not_described {calls : List Call} {entry : ErrorEntry} {rest : ErrorQueue}
    (h : FailsWith calls (entry :: rest)) (queue : ErrorQueue) :
    ∃ error rest', perform calls queue = (.error error, rest') ∧ error.code = entry.code ∧
      ¬ Described line error rest' := by
  refine ⟨⟨entry.code⟩, rest, perform_of_failsWith h queue, rfl, fun hdescribed => ?_⟩
  obtain ⟨text, htext, -⟩ := hdescribed.present
  have hagain := hdescribed.again
  rw [again_of_present htext, htext] at hagain
  cases hagain

/-- An entry is printed as its details on a line. -/
def detailsLine (entry : ErrorEntry) : Bytes := entry.details ++ text "\n"

def unsupported : ErrorEntry := ⟨0x0308010C, text "unsupported"⟩

def fetchFailed : ErrorEntry := ⟨0x030000E3, text "fetch failed"⟩

theorem not_described_unsupported : ∃ error rest,
    perform [⟨false, [unsupported]⟩] [] = (.error error, rest) ∧ error.code = unsupported.code ∧
      ¬ Described detailsLine error rest :=
  not_described ⟨[], ⟨false, [unsupported]⟩, [], rfl, List.forall_mem_nil _, rfl, rfl⟩ []

/-- The only error of a queue has no description, and the earlier one of two gets the text of the
other. -/
theorem unsupported_not_described :
    perform [⟨false, [unsupported]⟩] [] = (.error ⟨unsupported.code⟩, []) ∧
    ¬ Described detailsLine ⟨unsupported.code⟩ [] ∧
    (Error.description detailsLine ⟨unsupported.code⟩ .ok []).1 = none ∧
    perform [⟨false, [unsupported, fetchFailed]⟩] [] =
      (.error ⟨unsupported.code⟩, [fetchFailed]) ∧
    ¬ Described detailsLine ⟨unsupported.code⟩ [fetchFailed] ∧
    (Error.description detailsLine ⟨unsupported.code⟩ .ok [fetchFailed]).1 =
      some (text "fetch failed\n") := by
  have hsecond : (Error.description detailsLine ⟨unsupported.code⟩ .ok [fetchFailed]).1 =
      some (text "fetch failed\n") := by decide
  refine ⟨rfl, fun h => ?_, rfl, rfl, fun h => ?_, hsecond⟩
  · obtain ⟨text, htext, -⟩ := h.present
    cases htext
  · have hagain := h.again
    rw [again_of_present hsecond, hsecond] at hagain
    cases hagain

end Prapancha.Security
