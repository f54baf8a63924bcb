import Mathlib.Data.List.Lex
import Mathlib.Data.Vector.Basic
import Mathlib.Order.Basic

set_option autoImplicit false

namespace Sqns

abbrev Bytes := List UInt8

inductive Error where
  | io (message : String)
  | key (message : String)
  | base58Decode (message : String)
  | protocol (message : String)
  | record (message : String)
  | signature (message : String)
  | expired (ago : Nat)
  | keyMismatch (asked got : String)
  | address (message : String)
  | revoked (key : String) (successor : Option String) (reason : String)
  | downgrade (key : String)
  | superseded (key successor : String)
  | supersedeChain (message : String)
  | delegation (message : String)
  | unpublished (key : String)
  | connection (message : String)
  | noServer (message : String)
  | server (code : UInt16) (message : String)
deriving DecidableEq

def Error.toText : Error → String
  | .io message => s!"I/O error: {message}"
  | .key message => s!"invalid key: {message}"
  | .base58Decode message => s!"base58 decode error: {message}"
  | .protocol message => s!"protocol error: {message}"
  | .record message => s!"malformed record: {message}"
  | .signature message => s!"signature verification failed: {message}"
  | .expired ago => s!"record has expired (expired {ago}s ago)"
  | .keyMismatch asked got => s!"record key mismatch: asked for {asked}, server answered for {got}"
  | .address message => s!"address error: {message}"
  | .revoked subject _ reason => s!"key {subject} is revoked: {reason}"
  | .downgrade subject => s!"refusing a downgrade for {subject}: a newer authority for this key was already seen"
  | .superseded subject successor => s!"key {subject} was superseded by {successor}"
  | .supersedeChain message => s!"supersede chain: {message}"
  | .delegation message => s!"delegation error: {message}"
  | .unpublished subject => s!"no record published for {subject}"
  | .connection message => s!"connection error: {message}"
  | .noServer message => message
  | .server code message => s!"server error {code}: {message}"

theorem then_ok {α β : Type} (x : Except Error α) (f : α → Except Error β) (b : β) :
    (x >>= f) = .ok b ↔ ∃ a, x = .ok a ∧ f a = .ok b := by
  cases x with
  | error e => simp [bind, Except.bind]
  | ok a => simp [bind, Except.bind]

theorem unless_ok {α : Type} (c : Prop) [Decidable c] (e : Error) (rest : Except Error α) (a : α) :
    (if c then throw e >>= fun _ : PUnit => rest else rest) = .ok a ↔ ¬ c ∧ rest = .ok a := by
  by_cases bad : c
  · simp [bad, bind, Except.bind, throw, throwThe, MonadExceptOf.throw]
  · simp [bad]

theorem unless_done_ok (c : Prop) [Decidable c] (e : Error) (done : PUnit) :
    (if c then throw e else pure () : Except Error PUnit) = .ok done ↔ ¬ c := by
  by_cases bad : c
  · simp [bad, throw, throwThe, MonadExceptOf.throw]
  · simp [bad, pure, Except.pure]

theorem when_done_ok (c : Prop) [Decidable c] (e : Error) (done : PUnit) :
    (if c then pure () else throw e : Except Error PUnit) = .ok done ↔ c := by
  by_cases good : c
  · simp [good, pure, Except.pure]
  · simp [good, throw, throwThe, MonadExceptOf.throw]

-- A Rust `[u8; 32]`. The length travels with the bytes.
structure PubKey where
  bytes : List.Vector UInt8 32

abbrev Signature := List.Vector UInt8 64

theorem pub_key_order_injective :
    Function.Injective (fun key : PubKey => key.bytes.toList.map UInt8.toNat) := by
  rintro ⟨⟨a, _⟩⟩ ⟨⟨b, _⟩⟩ same
  have bytes : a = b := List.map_injective_iff.mpr (fun _ _ eq => UInt8.toNat_inj.mp eq) same
  subst bytes
  rfl

-- The derived `Ord` of a byte array: lexicographic, first byte first.
instance : LinearOrder PubKey := LinearOrder.lift' _ pub_key_order_injective

-- ed25519-dalek, bs58 and the standard library's UTF-8 diagnostics are not
-- part of this repository. `fromBytes` is VerifyingKey::from_bytes, `verify`
-- the signature predicate; the two texts occur only inside error messages.
structure Primitives where
  fromBytes : PubKey → Except String Unit
  verify : PubKey → Bytes → Signature → Bool
  toBase58 : PubKey → String
  utf8Error : Bytes → String

def PubKey.verifyingKey (prim : Primitives) (key : PubKey) : Except Error Unit :=
  match prim.fromBytes key with
  | .ok _ => .ok ()
  | .error e => .error (.key s!"not a valid Ed25519 public key: {e}")

def PubKey.toText (prim : Primitives) (key : PubKey) : String := prim.toBase58 key

end Sqns
