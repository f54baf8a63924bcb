import Sqns.Resolver
import Sqns.Server
import Sqns.Serving

set_option autoImplicit false

namespace Sqns

open Store

-- `public_of` the key, and what it signs. No property of the signatures is used.
structure SigningKey where
  publicKey : PubKey
  sign : Bytes → Signature

def defaultDelegationLifetime : Nat := 7776000

def Delegation.issue (identity : SigningKey) (serviceKey : PubKey) (notAfter : UInt64) : Delegation :=
  ⟨identity.publicKey, notAfter, identity.sign (signedMessage identity.publicKey serviceKey notAfter)⟩

def Record.sign (prim : Primitives) (r : Record) (sk : SigningKey) : Except Error SignedRecord :=
  if sk.publicKey ≠ r.expectedSigner then
    .error (.signature (match r.body with
      | .live _ => s!"a live record for {r.key.toText prim} must be signed by it, not by {sk.publicKey.toText prim}"
      | _ => s!"retiring {r.key.toText prim} takes its identity {r.identity.toText prim}, " ++
          s!"but it was signed by {sk.publicKey.toText prim}"))
  else .ok ⟨r, sk.sign (signedMessage r.encode)⟩

namespace Resolver

variable (prim : Primitives) (debug : Response → String)

def checkListed (identity : PubKey) (now : Nat) : List SignedRecord → Except Error (List SignedRecord)
  | [] => pure []
  | record :: rest => do
      record.verifyAnswer prim record.key now
      if record.identity ≠ identity then
        throw (.delegation s!"{record.key.toText prim} was listed under {identity.toText prim} but is not issued by it")
      let checked ← checkListed identity now rest
      pure (record :: checked)

def lookupIdentity (r : Resolver) (identity : PubKey) (exchange : Exchange) : Except Error (List SignedRecord) := do
  let response ← r.tryServers exchange (.lookupIdentity identity) "identity lookup"
  match response with
  | .records records _ => checkListed prim identity exchange.answered records
  | other => throw (unexpected debug other)

theorem check_listed_ok (identity : PubKey) (now : Nat) (records checked : List SignedRecord)
    (ok : checkListed prim identity now records = .ok checked) : checked = records := by
  induction records generalizing checked with
  | nil =>
      cases ok
      rfl
  | cons record rest ih =>
      simp only [checkListed, then_ok, unless_ok] at ok
      obtain ⟨_, _, _, tail, passed, same⟩ := ok
      cases same
      rw [ih tail passed]

end Resolver

-- `verify_answer` makes every check `put` makes before it looks at what it
-- holds, except the one on `issued_at`.
theorem admitted_iff_answers (prim : Primitives) (s : SignedRecord) (now : Nat) :
    Admitted prim s now ↔ s.verifyAnswer prim s.key now = .ok () ∧ s.record.issuedAt.toNat ≤ now + maxClockSkew := by
  rw [verify_answer_iff, survives_iff]
  apply Iff.intro
  · intro admitted
    exact ⟨⟨rfl, admitted.verified, admitted.valid, admitted.fresh, admitted.delegated⟩, admitted.notFuture⟩
  · intro answers
    obtain ⟨⟨_, verified, valid, fresh, delegated⟩, notFuture⟩ := answers
    exact ⟨valid, verified, notFuture, fresh, delegated⟩

theorem empty_put_stored_iff (prim : Primitives) (s : SignedRecord) (now : Nat) :
    (Store.new.put prim s now).1 = .ok .stored ↔ Admitted prim s now := by
  rw [put_stored_iff]
  apply Iff.intro
  · intro accepted
    exact accepted.admitted
  · intro admitted
    exact ⟨admitted, by simp [Store.new], by simp [Store.new]⟩

theorem answer_fails_iff (prim : Primitives) (s : SignedRecord) (now : Nat) :
    s.verifyAnswer prim s.key now ≠ .ok () ↔ s.verify prim ≠ .ok () ∨ s.record.validate prim ≠ .ok () ∨
      s.record.isExpired now = true ∨ (s.record.delegation.isExpired now = true ∧ s.record.isTerminal = false) := by
  rw [ne_eq, verify_answer_iff, survives_iff]
  cases s.record.isExpired now with
  | true => simp
  | false =>
      cases s.record.isTerminal with
      | true => simp [imp_iff_not_or]
      | false => simp [imp_iff_not_or]

theorem answer_check_agrees_iff (prim : Primitives) (s : SignedRecord) (now : Nat) :
    (s.verifyAnswer prim s.key now = .ok () ↔ (Store.new.put prim s now).1 = .ok .stored) ↔
      s.record.issuedAt.toNat ≤ now + maxClockSkew ∨ s.verify prim ≠ .ok () ∨ s.record.validate prim ≠ .ok () ∨
        s.record.isExpired now = true ∨ (s.record.delegation.isExpired now = true ∧ s.record.isTerminal = false) := by
  rw [empty_put_stored_iff, admitted_iff_answers, ← answer_fails_iff]
  apply Iff.intro
  · intro agree
    by_cases answers : s.verifyAnswer prim s.key now = .ok ()
    · exact .inl (agree.mp answers).2
    · exact .inr answers
  · intro allowed
    rcases allowed with notFuture | fails
    · exact ⟨fun answers => ⟨answers, notFuture⟩, fun both => both.1⟩
    · exact ⟨fun answers => False.elim (fails answers), fun both => both.1⟩

open Sample in
-- Dated 1000 seconds ahead of the clock that judges it.
theorem answer_check_misses_future :
    publish.verifyAnswer ed25519 publish.key 0 = .ok () ∧ (Store.new.put ed25519 publish 0).1 ≠ .ok .stored := by
  constructor
  · decide +kernel
  · decide +kernel

end Sqns
