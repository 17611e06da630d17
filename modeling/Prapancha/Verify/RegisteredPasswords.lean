import Prapancha.Security.Passwords
import Prapancha.Verify.Bindings
import Prapancha.Verify.StoredPasswords
import Prapancha.Verify.StoredUsers

/-!
# Registered passwords

From the request to the file and back to a verdict.  The text of a binding, which a user's record
has as a string, is enough to check passwords against: those that become what the registered one
became are accepted, at any later time and under any constants.
-/

namespace Prapancha

open Fs Http Security Json FilePersistence Effects

namespace JsonCodec

variable (J : Engine)

/-- The binding in the record of a user, read as it was written: as a string that is the text of
a binding. -/
def storedBinding (H : HashAlgorithm) (data : Bytes) : Option H.Binding :=
  match J.parse data with
  | some (.object object) =>
    match Object.ifContains object (text "password_binding") with
    | some (.string s) => decodeBinding J H s
    | _ => none
  | _ => none

theorem storedBinding_encode {H : HashAlgorithm} {u : UserIdentity H}
    (husername : Utf8 u.state.username) :
    storedBinding J H (encodeUserIdentity J H u) = some u.state.passwordBinding := by
  have hparse := parse_encodeUserIdentity J husername
  have hmember : Object.ifContains (Value.rereadMembers (userIdentityObject J H u))
      (text "password_binding") = some (.string (encodeBinding J H u.state.passwordBinding)) := rfl
  have hbinding : decodeBinding J H (encodeBinding J H u.state.passwordBinding) =
      some u.state.passwordBinding := by
    rw [encodeBinding_eq]
    exact decodeBinding_of_parse J (J.parse_serialize _ (storable_bindingObject H _))
  simp only [storedBinding, hparse, hmember, hbinding]

end JsonCodec

namespace Connection

variable {H : HashAlgorithm} (J : Engine)

/-- The request of the connection is a registration with the password. -/
def Registers (c : Connection H) (password : Bytes) : Prop :=
  ∃ request object, c.request = some request ∧ BinaryCodec.decode J request.body = some object ∧
    object.ifContains (text "password") = some (.string password)

end Connection

namespace Serving

variable {H : HashAlgorithm} {J : Engine} {conns : Nat → Connection H} {n : Nat} {d : Directory}

/-- Once a session has been given a 201, the file of the user holds a binding of the password of its
request.  From then on a password is accepted against what is read there exactly if it becomes what
the registered one became. -/
theorem registered_passwords_verify {config : Configuration} {signaled : Bool}
    {es es' : List Event} {s s' : Server H} (hids : DistinctIds J conns)
    (h : Run (Step J conns n) (start config n d signaled) es s)
    (h' : Run (Step J conns n) s es' s') {i : Nat} {response : Response}
    (hresponse : response ∈ (s.sessions i).outgoing) (hcreated : response.status = .created)
    {F : HashFunctions} {o : HashCalls} {constants : Argon2idConstants}
    (hhash : (conns i).env.hash = Hasher.hash F o constants H)
    (hwritable : d.Writable (getPath (UUID.generate (conns i).env.draw)))
    (hio : (conns i).env.io = .succeeds) :
    ∃ password data binding, (conns i).Registers J password ∧
      s'.store.lookup (getPath (UUID.generate (conns i).env.draw)) = some (.regular data) ∧
      JsonCodec.storedBinding J H data = some binding ∧
      ∀ (o' : HashCalls) constants' q, o'.Verifies H →
        Hasher.verify F o' constants' H q binding = .ok (decide
          (Hasher.derived F H binding q = Hasher.derived F H binding password)) := by
  obtain ⟨hcommitted, request, u, hrequest, hu, haccepts⟩ :=
    committed_of_created h hresponse hcreated
  obtain ⟨object, username, password, binding, hobject, -, hpassword, hbinding, rfl⟩ := haccepts
  refine ⟨password, _, binding, ⟨request, object, hrequest, hobject, hpassword⟩,
    stored_of_committed hids h h' hcommitted hu hwritable (by rw [hio]; trivial),
    JsonCodec.storedBinding_encode J (Connection.utf8 hu), fun o' constants' q ho' => ?_⟩
  rw [hhash] at hbinding
  exact Hasher.verify_of_hash hbinding ho' constants' q

/-- A digest that keeps the first bytes. -/
def firstBytes (data : Bytes) : Bytes :=
  (data ++ List.replicate Sha256.digestLength 0).take Sha256.digestLength

theorem length_firstBytes (data : Bytes) : (firstBytes data).length = Sha256.digestLength := by
  rw [firstBytes, List.length_take, List.length_append, List.length_replicate]
  exact Nat.min_eq_left (Nat.le_add_left ..)

def plain : HashFunctions where
  kdf := Hasher.sumKdf
  md := .ofFunction firstBytes length_firstBytes

def unfailing : HashCalls := ⟨Hasher.steady, ⟨fun _ => false, fun _ => 0⟩⟩

/-- Two clients of a server that hashes with the library. -/
def hashedClients (i : Nat) : Connection .sha256 :=
  { twoClients i with env :=
      { (twoClients i).env with hash := Hasher.hash plain unfailing .current .sha256 } }

theorem created_hashedClients :
    (responses ((hashedClients 1).effects compact)).map Response.status = [.created] := by
  decide +kernel

theorem distinctIds_hashedClients : DistinctIds compact hashedClients :=
  distinctIds_of_draws compact draws_twoClients

theorem registers_hashedClients {password : Bytes}
    (h : (hashedClients 1).Registers compact password) : password = text "secret" := by
  obtain ⟨request, object, hrequest, hobject, hpassword⟩ := h
  have hsent : (((hashedClients 1).request.bind fun request =>
      BinaryCodec.decode compact request.body).bind fun object =>
        Object.ifContains object (text "password")) = some (.string (text "secret")) := rfl
  rw [hrequest, Option.bind_some, hobject, Option.bind_some, hpassword, Option.some.injEq,
    Value.string.injEq] at hsent
  exact hsent

/-- The password that the second client registers with is accepted after the first one has
registered too, and another one is not. -/
theorem registered_passwords_verify_hashedClients : ∃ (s : Server .sha256) (data : Bytes)
    (binding : HashAlgorithm.sha256.Binding), (s.sessions 0).outgoing ≠ [] ∧
    s.store.lookup (getPath (UUID.generate (hashedClients 1).env.draw)) = some (.regular data) ∧
      JsonCodec.storedBinding compact .sha256 data = some binding ∧
      Hasher.verify plain unfailing .current .sha256 (text "secret") binding = .ok true ∧
      Hasher.verify plain unfailing .current .sha256 (text "guess") binding = .ok false := by
  obtain ⟨es, s, es', s', response, response', hrun, hrun', -, hresponses, hs, hs', -⟩ :=
    overtaken_run compact (show (hashedClients 0).request = _ from rfl) rfl {} ∅
  have hcreated := created_hashedClients
  rw [hresponses, List.map_singleton, List.cons.injEq] at hcreated
  have hresponse : response' ∈ (s.sessions 1).outgoing := by
    rw [hs]
    exact List.mem_singleton_self response'
  have hhash : (hashedClients 1).env.hash = Hasher.hash plain unfailing .current .sha256 := rfl
  obtain ⟨password, data, binding, hregisters, hstored, hbinding, hverdict⟩ :=
    registered_passwords_verify (H := .sha256) distinctIds_hashedClients hrun hrun' hresponse
      hcreated.1 hhash (fun _ => nofun) rfl
  obtain rfl := registers_hashedClients hregisters
  refine ⟨s', data, binding, ?_, hstored, hbinding, ?_, ?_⟩
  · rw [hs']
    exact List.cons_ne_nil _ _
  · rw [hverdict unfailing .current _ rfl, decide_eq_true rfl]
  · rw [hverdict unfailing .current _ rfl, decide_eq_false]
    show plain.md.digest _ ≠ plain.md.digest _
    decide +kernel

end Serving

end Prapancha
