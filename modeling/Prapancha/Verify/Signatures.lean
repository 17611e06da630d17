import Prapancha.Security.Signer

/-!
# Signed data verifies

`sign` and `verify` may meet failing calls at any point, and not the same ones.  What `sign` returns
is accepted by every `verify` that gets through, and a signature that `verify` turns down is told
apart from a verification that could not be made.
-/

namespace Prapancha.Security

variable {S : SignatureScheme 32 64} {o : SignCalls}

theorem bind_eq_error {ε α β : Type} {r : Except ε α} {f : α → Except ε β} {e : ε} :
    r >>= f = .error e ↔ r = .error e ∨ ∃ a, r = .ok a ∧ f a = .error e := by
  cases r with
  | ok a => simp
  | error e' => simp

namespace SignCalls

@[simp] theorem check_eq_ok {call : SignCall} {ok : Bool} {u : Unit} :
    o.check call ok = .ok u ↔ o.fails call = false ∧ ok = true := by
  unfold check
  cases o.fails call <;> cases ok <;> simp

theorem check_eq_error {call : SignCall} {ok : Bool} {e : Error} :
    o.check call ok = .error e ↔
      (o.fails call = true ∨ ok = false) ∧ ⟨o.errorCode call⟩ = e := by
  unfold check
  cases o.fails call <;> cases ok <;> simp

/-- A failing call is an error if what it returns is negative, and then the result says nothing. -/
theorem digestVerify_neg (hfailure : o.verifyFailure < 0) {pkey signature data : Bytes} :
    o.digestVerify S pkey signature data < 0 ↔ o.fails .verify = true := by
  unfold digestVerify
  cases o.fails .verify
  · cases S.verify pkey data signature <;> simp
  · simpa using hfailure

theorem digestVerify_beq_one {pkey signature data : Bytes} (hfails : o.fails .verify = false) :
    (o.digestVerify S pkey signature data == 1) = S.verify pkey data signature := by
  rw [digestVerify, if_neg (by rw [hfails]; exact Bool.false_ne_true)]
  cases S.verify pkey data signature <;> rfl

end SignCalls

namespace Signer

/-- A signature is made if no call fails and the key has its length. -/
theorem sign_eq_ok {data privateKey : Bytes} {binding : Ed25519Binding} :
    sign S o data privateKey = .ok binding ↔ (∀ call ∈ signOrder, o.fails call = false) ∧
      privateKey.length = 32 ∧ binding = ⟨S.sign privateKey data⟩ := by
  have hwritten : OpenSsl.overwrite (List.replicate 64 0) (S.sign privateKey data) =
      S.sign privateKey data := by
    apply OpenSsl.overwrite_of_length_le
    apply Nat.le_of_eq
    rw [List.length_replicate, S.length_sign]
  -- the conditions in the order of the calls
  have hcalls : sign S o data privateKey = .ok binding ↔
      (o.fails .newRawPrivateKey = false ∧ privateKey.length = 32) ∧ o.fails .ctxNew = false ∧
        o.fails .signInit = false ∧ o.fails .signLength = false ∧ o.fails .sign = false ∧
          ⟨S.sign privateKey data⟩ = binding := by
    simp [sign, SignCalls.newRawKey, SignCalls.digestSignLength, SignCalls.digestSign, bind_eq_ok,
      pure, Except.pure, hwritten, -List.reduceReplicate]
  rw [hcalls]
  simp only [signOrder, List.forall_mem_cons, List.not_mem_nil, false_implies, implies_true,
    and_true]
  constructor
  · rintro ⟨⟨hkey, hlength⟩, hctx, hinit, hask, hsign, rfl⟩
    exact ⟨⟨hkey, hctx, hinit, hask, hsign⟩, hlength, rfl⟩
  · rintro ⟨⟨hkey, hctx, hinit, hask, hsign⟩, hlength, rfl⟩
    exact ⟨⟨hkey, hlength⟩, hctx, hinit, hask, hsign, rfl⟩

variable (o) in
/-- The calls of a verification with a public key. -/
def verifyCalls (publicKey : Bytes) : Except Error Unit := do
  o.check .newRawPublicKey (publicKey.length = 32)
  o.check .ctxNew
  o.check .verifyInit
  o.check .verify

theorem verifyCalls_eq_error {publicKey : Bytes} {e : Error} (hkey : publicKey.length = 32)
    (h : verifyCalls o publicKey = .error e) :
    ∃ call ∈ verifyOrder, o.fails call = true ∧ e = ⟨o.errorCode call⟩ := by
  simp only [verifyCalls, bind_eq_error, SignCalls.check_eq_error, hkey] at h
  rcases h with ⟨hfails, rfl⟩ | ⟨_, -, ⟨hfails, rfl⟩ | ⟨_, -, ⟨hfails, rfl⟩ | ⟨_, -, hfails, rfl⟩⟩⟩
  · exact ⟨.newRawPublicKey, by simp [verifyOrder], by simpa using hfails, rfl⟩
  · exact ⟨.ctxNew, by simp [verifyOrder], by simpa using hfails, rfl⟩
  · exact ⟨.verifyInit, by simp [verifyOrder], by simpa using hfails, rfl⟩
  · exact ⟨.verify, by simp [verifyOrder], by simpa using hfails, rfl⟩

/-- A verification returns what its calls return, with the verdict of the scheme: the data and the
signature do not decide whether it is an error. -/
theorem verify_eq_map (hfailure : o.verifyFailure < 0) (data publicKey : Bytes)
    (binding : Ed25519Binding) : verify S o data binding publicKey =
      (verifyCalls o publicKey).map fun _ => S.verify publicKey data binding.signature := by
  rw [verify, SignCalls.newRawKey, verifyCalls]
  cases o.check .newRawPublicKey (publicKey.length = 32) with
  | error e => rfl
  | ok _ =>
  cases o.check .ctxNew with
  | error e => rfl
  | ok _ =>
  cases o.check .verifyInit with
  | error e => rfl
  | ok _ =>
  show (if o.digestVerify S publicKey binding.signature data < 0 then _ else _) =
    (o.check .verify).map _
  cases hfails : o.fails .verify with
  | false =>
    have hneg : ¬ o.digestVerify S publicKey binding.signature data < 0 :=
      (SignCalls.digestVerify_neg hfailure).not.2 (by simp [hfails])
    rw [if_neg hneg, SignCalls.digestVerify_beq_one hfails,
      (SignCalls.check_eq_ok (u := ())).2 ⟨hfails, rfl⟩]
    rfl
  | true =>
    rw [if_pos ((SignCalls.digestVerify_neg hfailure).2 hfails),
      SignCalls.check_eq_error.2 ⟨.inl hfails, rfl⟩]
    rfl

/-- Data that has been signed verifies whenever a verification gets through; one that does not is an
error of a call that failed.  Any other data or signature changes the verdict only. -/
theorem signed_data_verifies {data privateKey : Bytes} {binding : Ed25519Binding}
    (hsign : sign S o data privateKey = .ok binding) {later : SignCalls}
    (hfailure : later.verifyFailure < 0) :
    (verify S later data binding (S.publicKey privateKey) = .ok true ∨
      ∃ call ∈ verifyOrder, later.fails call = true ∧
        verify S later data binding (S.publicKey privateKey) = .error ⟨later.errorCode call⟩) ∧
    ∀ (data' : Bytes) (binding' : Ed25519Binding),
      verify S later data' binding' (S.publicKey privateKey) =
        (verify S later data binding (S.publicKey privateKey)).map fun _ =>
          S.verify (S.publicKey privateKey) data' binding'.signature := by
  obtain ⟨-, -, rfl⟩ := sign_eq_ok.1 hsign
  simp only [verify_eq_map hfailure]
  cases hcalls : verifyCalls later (S.publicKey privateKey) with
  | ok _ => exact ⟨.inl (congrArg Except.ok (S.verify_sign _ _)), fun _ _ => rfl⟩
  | error e =>
    obtain ⟨call, hcall, hfails, rfl⟩ := verifyCalls_eq_error (S.length_publicKey _) hcalls
    exact ⟨.inr ⟨call, hcall, hfails, rfl⟩, fun _ _ => rfl⟩

/-- Keys are their own public keys, and a signature starts with the key and the message. -/
def openScheme : SignatureScheme 32 64 :=
  .ofHash (fun key => (key ++ List.replicate 32 0).take 32)
    (fun key message => (key ++ message ++ List.replicate 64 0).take 64)
    (fun key => by simp) (fun key message => by simp; omega)

/-- Calls of which those given fail. -/
def callsFailing (failing : List SignCall) : SignCalls where
  fails call := failing.contains call
  errorCode _ := 6
  verifyFailure := -1
  verifyFailure_ne_one := by decide

theorem signed_data_verifies_greeting :
    let key : Bytes := List.replicate 32 7
    let publicKey := openScheme.publicKey key
    let binding : Ed25519Binding := ⟨openScheme.sign key (text "hello")⟩
    let later := callsFailing [.verifyInit, .verify]
    (verify openScheme later (text "hello") binding publicKey = .ok true ∨
      ∃ call ∈ verifyOrder, later.fails call = true ∧
        verify openScheme later (text "hello") binding publicKey =
          .error ⟨later.errorCode call⟩) ∧
    ∀ (data' : Bytes) (binding' : Ed25519Binding),
      verify openScheme later data' binding' publicKey =
        (verify openScheme later (text "hello") binding publicKey).map fun _ =>
          openScheme.verify publicKey data' binding'.signature :=
  signed_data_verifies (o := callsFailing [])
    (sign_eq_ok.2 ⟨by simp [callsFailing], List.length_replicate, rfl⟩) (by decide)

end Signer

end Prapancha.Security
