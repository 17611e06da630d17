import Prapancha.Verify.Linearization
import Prapancha.Verify.ModelCodec

/-!
# Stored users

What the running server writes it cannot read: the binding of a user goes into the record as a
string and is expected there as an object.  Whatever was registered, the store never yields a user.
-/

namespace Prapancha

open Fs Http Security Json FilePersistence Effects

namespace JsonCodec

variable (J : Engine)

theorem parse_encodeUserIdentity {H : HashAlgorithm} {u : UserIdentity H}
    (husername : Utf8 u.state.username) : J.parse (encodeUserIdentity J H u) =
      some (.object (Value.rereadMembers (userIdentityObject J H u))) :=
  J.parse_serialize _ (storable_userIdentityObject J husername)

theorem decodeUserIdentity_encode {H : HashAlgorithm} {u : UserIdentity H}
    (husername : Utf8 u.state.username) (draw : Draw) :
    decodeUserIdentity J H draw (encodeUserIdentity J H u) = none := by
  have hparse := parse_encodeUserIdentity J husername
  have hbinding : Object.ifContains (Value.rereadMembers (userIdentityObject J H u))
      (text "password_binding") = some (.string (encodeBinding J H u.state.passwordBinding)) := rfl
  rw [Option.eq_none_iff_forall_not_mem]
  intro u' hu'
  obtain ⟨object, s, hobject, hstate, -⟩ := (decodeRecord_eq_some J).1 hu'
  rw [hparse, Option.some.injEq, Value.object.injEq] at hobject
  subst hobject
  unfold userIdentityState at hstate
  rw [hbinding] at hstate
  split at hstate
  · next username passwordBinding isAdmin _ hpassword _ =>
    rw [Option.some.injEq] at hpassword
    rw [← hpassword, decodeBinding_string J H (utf8_encodeBinding J H _)] at hstate
    cases hstate
  · cases hstate

end JsonCodec

namespace RegistrationController

variable {J : Engine} {H : HashAlgorithm}

theorem Accepts.utf8 {env : Environment H} {request : Request} {u : UserIdentity H}
    (h : Accepts J env request u) : Utf8 u.state.username := by
  obtain ⟨body, username, password, binding, hbody, husername, -, -, rfl⟩ := h
  exact (J.parsed_parse (BinaryCodec.parse_of_decode hbody)).utf8_string husername

end RegistrationController

theorem Connection.utf8 {H : HashAlgorithm} {J : Engine} {c : Connection H} {u : UserIdentity H}
    (hu : .save u ∈ c.effects J) : Utf8 u.state.username := by
  obtain ⟨request, -, haccepts⟩ := accepts_of_save hu
  exact haccepts.utf8

namespace Serving

variable {H : HashAlgorithm} {J : Engine} {conns : Nat → Connection H} {n : Nat}

/-- The entries of a server that began with an empty store are the files of users: empty, or what
the save of the user wrote. -/
theorem entry_of_lookup {config : Configuration} {before : Bool} {es : List Event} {s : Server H}
    (hids : DistinctIds J conns) (h : Run (Step J conns n) (start config n ∅ before) es s)
    {name : FileName} {entry : Entry} (hentry : s.store.lookup name = some entry) :
    ∃ i u data, .save u ∈ (conns i).effects J ∧ name = getPath u.id ∧ entry = .regular data ∧
      (data = [] ∨ data = written (conns i).env.io (JsonCodec.encodeUserIdentity J H u)) := by
  have hsound : Sound J conns s := sound_run h
  obtain ⟨is, w, hl⟩ := linearizes_run hids h
  by_cases hname : ∃ i u, .save u ∈ (conns i).effects J ∧ getPath u.id = name
  · obtain ⟨i, u, hu, rfl⟩ := hname
    by_cases hcommitted : Session.Committed (conns i) (s.sessions i)
    · rw [hl.lookup_of_committed hsound hids hu hcommitted] at hentry
      by_cases hio : (conns i).env.io = .openFails
      · rw [hio, save_openFails] at hentry
        cases hentry
      · have hwritable : (∅ : Directory).Writable (getPath u.id) := fun _ => nofun
        rw [save_of_writable _ hio hwritable] at hentry
        have hdata := (Finmap.lookup_insert _).symm.trans hentry
        rw [Option.some.injEq] at hdata
        exact ⟨i, u, _, hu, rfl, hdata.symm, .inr rfl⟩
    · cases hfile : (s.sessions i).file with
      | none =>
        rw [hl.lookup_of_uncommitted hsound hids hu hcommitted hfile] at hentry
        cases hentry
      | some v =>
        obtain rfl := Connection.save_eq hu (hsound.save_mem_of_file hfile)
        rw [(hl.opened i u hfile).2.1, Option.some.injEq] at hentry
        exact ⟨i, u, [], hu, rfl, hentry.symm, .inl rfl⟩
  · rw [hl.lookup_of_unsaved hsound hids fun i u hu hpath => hname ⟨i, u, hu, hpath⟩] at hentry
    cases hentry

/-- At no time can a user be read from the store of a server that began with an empty one: `load`
finds nobody under any identifier, and `all` returns an empty list. -/
theorem users_never_come_back {config : Configuration} {before : Bool} {es : List Event}
    {s : Server H} (hids : DistinctIds J conns) (hio : ∀ i, (conns i).env.io = .succeeds)
    (h : Run (Step J conns n) (start config n ∅ before) es s) :
    (∀ draw id, load (JsonCodec.userIdentityCodec J H) draw s.store id = .ok none) ∧
      ∀ draws names, s.store.Lists names →
        all (JsonCodec.userIdentityCodec J H) draws s.store (some names) = .ok [] := by
  have hload : ∀ draw id, load (JsonCodec.userIdentityCodec J H) draw s.store id = .ok none := by
    intro draw id
    cases hentry : s.store.lookup (getPath id) with
    | none => exact load_of_absent _ hentry draw
    | some entry =>
      obtain ⟨i, u, data, hu, hpath, rfl, hdata⟩ := entry_of_lookup hids h hentry
      rw [hio, written] at hdata
      have hdecode : (JsonCodec.userIdentityCodec J H).decode draw
          (JsonCodec.encodeUserIdentity J H u) = none :=
        JsonCodec.decodeUserIdentity_encode J (Connection.utf8 hu) draw
      rcases hdata with rfl | rfl
      · rw [load_of_regular _ hentry, if_pos rfl]
      · rw [load_of_regular _ hentry, hdecode, ite_self]
  refine ⟨hload, fun draws names hnames => (visit_eq_ok _).2 ⟨fun name hname => ?_, ?_⟩⟩
  · obtain ⟨entry, hentry⟩ := Finmap.mem_iff.1 ((hnames.2 name).1 hname)
    obtain ⟨i, u, data, -, rfl, rfl, -⟩ := entry_of_lookup hids h hentry
    exact ⟨true, Directory.isRegular_of_lookup hentry, fun _ _ =>
      ⟨u.id, none, by rw [stem_getPath, HexCodec.decode_encode], hload _ _⟩⟩
  · symm
    rw [List.filterMap_eq_nil_iff]
    intro name hname
    obtain ⟨entry, hentry⟩ := Finmap.mem_iff.1 ((hnames.2 name).1 hname)
    obtain ⟨i, u, data, -, rfl, -⟩ := entry_of_lookup hids h hentry
    unfold visited
    split
    · rw [stem_getPath, HexCodec.decode_encode, Option.bind_some, hload, caught_ok]
    · rfl

theorem users_never_come_back_twoClients : ∃ s : Server .sha256,
    (∀ i < 2, ∃ response, (s.sessions i).outgoing = [response] ∧ response.status = .created) ∧
      ∀ id, load (JsonCodec.userIdentityCodec compact .sha256) default s.store id = .ok none := by
  obtain ⟨es, _, es', s, response, response', hrun, hrun', hcreated, hcreated', -, hs, -⟩ :=
    overtaken_twoClients
  have hio : ∀ i, (twoClients i).env.io = .succeeds := by
    intro i
    match i with
    | 0 | 1 | _ + 2 => rfl
  refine ⟨s, fun i hi => ?_,
    (users_never_come_back distinctIds_twoClients hio (hrun.trans hrun')).1 default⟩
  rw [hs]
  match i with
  | 0 => exact ⟨response, rfl, hcreated⟩
  | 1 => exact ⟨response', rfl, hcreated'⟩

end Serving

end Prapancha
