import Prapancha.Verify.StoredUsers

/-!
# Records of registrations

Everything in a store that began empty comes from a registration: under the identifier that was
made for it, with the username that it asked for, and never as an administrator.
-/

namespace Prapancha

open Fs Http Security Json FilePersistence Effects

namespace Connection

variable {H : HashAlgorithm} (J : Engine)

/-- The members that a registration puts into the record of its user. -/
structure Records (c : Connection H) (object : Object) : Prop where
  id : object.ifContains (text "id") = some (.string (HexCodec.encode (UUID.generate c.env.draw)))
  version : object.ifContains (text "version") = some (.int64 1)
  createdAt : object.ifContains (text "created_at") =
    some (.int64 (UUID.generate c.env.draw).timestampMs.toInt64)
  isAdmin : object.ifContains (text "is_admin") = some (.bool false)
  username : ∃ request body username, c.request = some request ∧
    BinaryCodec.decode J request.body = some body ∧
    body.ifContains (text "username") = some (.string username) ∧
    object.ifContains (text "username") = some (.string username)

variable {J}

theorem records_of_accepts {c : Connection H} {request : Request} {u : UserIdentity H}
    (hrequest : c.request = some request)
    (haccepts : RegistrationController.Accepts J c.env request u) :
    c.Records J (Value.rereadMembers (JsonCodec.userIdentityObject J H u)) := by
  obtain ⟨body, username, password, binding, hbody, husername, -, -, rfl⟩ := haccepts
  have hclock : (UUID.generate c.env.draw).timestampMs.toNat < 2 ^ 63 :=
    (UUID.timestampMs_lt _).trans (by decide)
  refine ⟨rfl, rfl, ?_, rfl, ⟨request, body, username, hrequest, hbody, husername, rfl⟩⟩
  rw [Value.ifContains_rereadMembers, (JsonCodec.written_userIdentityObject J H _).createdAt,
    Option.map_some, Value.reread]
  exact congrArg some (Value.ofParsedUInt64_of_lt hclock)

end Connection

namespace Serving

variable {H : HashAlgorithm} {J : Engine} {conns : Nat → Connection H} {n : Nat}

end Serving

end Prapancha
