import Sqns.Codec

set_option autoImplicit false

namespace Sqns

open ByteReader

def recordVersion : UInt8 := 4
def sigContext : Bytes := utf8Bytes "sqns-record-v4"
def delegationContext : Bytes := utf8Bytes "sqns-delegation-v2"
def u64Max : Nat := 2 ^ 64 - 1
def neverExpires : UInt64 := 0xffffffffffffffff
def maxReasonLen : Nat := 256
def maxEndpoints : Nat := 255
def minTtl : UInt32 := 30
def maxTtl : UInt32 := 604800
def maxClockSkew : Nat := 300

def bodyLive : UInt8 := 1
def bodySuperseded : UInt8 := 2
def bodyRevoked : UInt8 := 3
def hostV4 : UInt8 := 1
def hostV6 : UInt8 := 2
def hostName : UInt8 := 3

inductive Host where
  | v4 (octets : List.Vector UInt8 4)
  | v6 (octets : List.Vector UInt8 16)
  | name (name : String)
deriving DecidableEq

structure Endpoint where
  host : Host
  port : UInt16
  priority : UInt16
  weight : UInt16
deriving DecidableEq

structure Delegation where
  identity : PubKey
  notAfter : UInt64
  signature : Signature
deriving DecidableEq

inductive RecordBody where
  | live (endpoints : List Endpoint)
  | superseded (successor : PubKey) (reason : String)
  | revoked (reason : String)
deriving DecidableEq

structure Record where
  key : PubKey
  delegation : Delegation
  serial : UInt64
  issuedAt : UInt64
  ttl : UInt32
  body : RecordBody
deriving DecidableEq

structure SignedRecord where
  record : Record
  signature : Signature
deriving DecidableEq

namespace Delegation

def signedMessage (identity serviceKey : PubKey) (notAfter : UInt64) : Bytes :=
  delegationContext ++ identity.bytes.toList ++ serviceKey.bytes.toList ++ be64 notAfter

def verify (prim : Primitives) (d : Delegation) (serviceKey : PubKey) : Except Error Unit := do
  d.identity.verifyingKey prim
  if prim.verify d.identity (signedMessage d.identity serviceKey d.notAfter) d.signature then pure ()
  else throw (.delegation s!"the delegation over {serviceKey.toText prim} is not signed by {d.identity.toText prim}")

-- Seconds are Nat throughout. `now_unix` reads a clock whose seconds are an
-- i64, so the code's sums with `now` stay below 2^64 and do not wrap.
def isExpired (d : Delegation) (now : Nat) : Bool := d.notAfter ≠ neverExpires && decide (d.notAfter.toNat ≤ now)

end Delegation

namespace Record

def live (key : PubKey) (delegation : Delegation) (serial : UInt64) (ttl : UInt32) (endpoints : List Endpoint)
    (now : UInt64) : Record := ⟨key, delegation, serial, now, ttl, .live endpoints⟩

def superseded (key : PubKey) (delegation : Delegation) (serial : UInt64) (successor : PubKey) (reason : String)
    (now : UInt64) : Record := ⟨key, delegation, serial, now, maxTtl, .superseded successor reason⟩

def revoked (key : PubKey) (delegation : Delegation) (serial : UInt64) (reason : String) (now : UInt64) : Record :=
  ⟨key, delegation, serial, now, maxTtl, .revoked reason⟩

def identity (r : Record) : PubKey := r.delegation.identity

def expectedSigner (r : Record) : PubKey :=
  match r.body with
  | .live _ => r.key
  | .superseded _ _ | .revoked _ => r.identity

def endpoints (r : Record) : List Endpoint :=
  match r.body with
  | .live endpoints => endpoints
  | _ => []

def successor (r : Record) : Option PubKey :=
  match r.body with
  | .superseded successor _ => some successor
  | _ => none

def isSuperseded (r : Record) : Bool :=
  match r.body with
  | .superseded _ _ => true
  | _ => false

def isRevoked (r : Record) : Bool :=
  match r.body with
  | .revoked _ => true
  | _ => false

def isTerminal (r : Record) : Bool := r.isSuperseded || r.isRevoked

def expiresAt (r : Record) : Nat :=
  if r.isTerminal then u64Max else min (r.issuedAt.toNat + r.ttl.toNat) u64Max

def isExpired (r : Record) (now : Nat) : Bool := !r.isTerminal && decide (r.expiresAt ≤ now)

-- `(self.serial, self.issued_at) > (other.serial, other.issued_at)` on tuples.
def supersedes (r other : Record) : Bool :=
  if other.isTerminal then false
  else if r.isTerminal then true
  else decide (other.serial < r.serial) || (other.serial == r.serial && decide (other.issuedAt < r.issuedAt))

end Record

def checkReason (reason : String) : Except Error Unit :=
  if reason.utf8ByteSize > maxReasonLen then
    .error (.record s!"reason must be at most {maxReasonLen} bytes, got {reason.utf8ByteSize}")
  else .ok ()

def Record.validate (prim : Primitives) (r : Record) : Except Error Unit := do
  r.key.verifyingKey prim
  r.delegation.identity.verifyingKey prim
  if r.delegation.identity = r.key then throw (.delegation "a service key cannot be its own identity")
  match r.body with
  | .live endpoints =>
      if endpoints.length > maxEndpoints then
        throw (.record s!"at most {maxEndpoints} endpoints, got {endpoints.length}")
      if r.ttl < minTtl || maxTtl < r.ttl then
        throw (.record s!"ttl must be {minTtl}..={maxTtl} seconds, got {r.ttl}")
  | .superseded successor reason =>
      successor.verifyingKey prim
      if successor = r.key then throw (.record "a key cannot be superseded by itself")
      checkReason reason
  | .revoked reason => checkReason reason

theorem Record.live_ttl (prim : Primitives) (r : Record) (endpoints : List Endpoint) (body : r.body = .live endpoints)
    (valid : r.validate prim = .ok ()) : minTtl.toNat ≤ r.ttl.toNat ∧ r.ttl.toNat ≤ maxTtl.toNat := by
  simp only [Record.validate, body, then_ok, unless_ok, unless_done_ok] at valid
  obtain ⟨_, _, _, _, _, _, within⟩ := valid
  simpa [UInt32.le_iff_toNat_le] using within

def Host.encodeInto : Host → Bytes
  | .v4 octets => hostV4 :: octets.toList
  | .v6 octets => hostV6 :: octets.toList
  | .name n => hostName :: putShortString n

def Endpoint.encodeInto (e : Endpoint) : Bytes :=
  be16 e.priority ++ be16 e.weight ++ be16 e.port ++ e.host.encodeInto

def Delegation.encodeInto (d : Delegation) : Bytes :=
  d.identity.bytes.toList ++ be64 d.notAfter ++ d.signature.toList

def RecordBody.encodeInto : RecordBody → Bytes
  | .live endpoints => bodyLive :: (toBe 1 endpoints.length ++ endpoints.flatMap Endpoint.encodeInto)
  | .superseded successor reason => bodySuperseded :: (successor.bytes.toList ++ putString reason)
  | .revoked reason => bodyRevoked :: putString reason

def Record.encode (r : Record) : Bytes :=
  recordVersion :: (r.key.bytes.toList ++ r.delegation.encodeInto ++ be64 r.serial ++ be64 r.issuedAt ++
    be32 r.ttl ++ r.body.encodeInto)

def signedMessage (recordBytes : Bytes) : Bytes := sigContext ++ recordBytes

namespace SignedRecord

def key (s : SignedRecord) : PubKey := s.record.key

def identity (s : SignedRecord) : PubKey := s.record.identity

def verify (prim : Primitives) (s : SignedRecord) : Except Error Unit := do
  s.record.delegation.verify prim s.record.key
  let signer := s.record.expectedSigner
  signer.verifyingKey prim
  if prim.verify signer (signedMessage s.record.encode) s.signature then pure ()
  else throw (.signature s!"the record for {s.record.key.toText prim} is not signed by {signer.toText prim}")

def verifyAnswer (prim : Primitives) (s : SignedRecord) (asked : PubKey) (now : Nat) : Except Error Unit := do
  if s.record.key ≠ asked then throw (.keyMismatch (asked.toText prim) (s.record.key.toText prim))
  s.verify prim
  s.record.validate prim
  let d := s.record.delegation
  if d.isExpired now && !s.record.isTerminal then
    throw (.delegation (s!"the delegation over {s.record.key.toText prim} from " ++
      s!"{d.identity.toText prim} expired {now - d.notAfter.toNat}s ago"))
  if s.record.isExpired now then throw (.expired (now - s.record.expiresAt))

def revocationError (prim : Primitives) (s : SignedRecord) : Option Error :=
  match s.record.body with
  | .revoked reason =>
      some (.revoked (s.record.key.toText prim) none (if reason.isEmpty then "no reason given" else reason))
  | _ => none

def encode (s : SignedRecord) : Bytes :=
  toBe 2 s.record.encode.length ++ s.record.encode ++ s.signature.toList

end SignedRecord

theorem Record.encode_length (r : Record) : r.encode.length = 157 + r.body.encodeInto.length := by
  simp only [Record.encode, Delegation.encodeInto, List.length_cons, List.length_append, List.Vector.toList_length,
    be64_length, be32_length]
  omega

theorem SignedRecord.encode_length (s : SignedRecord) : s.encode.length = 66 + s.record.encode.length := by
  simp only [SignedRecord.encode, List.length_append, to_be_length, List.Vector.toList_length]
  omega

theorem live_body_length (endpoints : List Endpoint) :
    (RecordBody.live endpoints).encodeInto.length = 2 + (endpoints.flatMap Endpoint.encodeInto).length := by
  simp only [RecordBody.encodeInto, List.length_cons, List.length_append, to_be_length]
  omega

namespace Record

theorem supersedes_iff (r other : Record) :
    r.supersedes other = true ↔ other.isTerminal = false ∧
      (r.isTerminal = true ∨ other.serial.toNat < r.serial.toNat ∨
        other.serial.toNat = r.serial.toNat ∧ other.issuedAt.toNat < r.issuedAt.toNat) := by
  unfold supersedes
  cases other.isTerminal with
  | true => simp
  | false =>
      cases r.isTerminal with
      | true => simp
      | false => simp [UInt64.lt_iff_toNat_lt, UInt64.toNat_inj]

theorem supersedes_irrefl (r : Record) : r.supersedes r = false := by
  rw [Bool.eq_false_iff, ne_eq, supersedes_iff]
  rintro ⟨live, terminal | less | ⟨_, less⟩⟩
  · simp [live] at terminal
  · omega
  · omega

theorem supersedes_trans (a b c : Record) (ab : a.supersedes b = true) (bc : b.supersedes c = true) :
    a.supersedes c = true := by
  rw [supersedes_iff] at ab bc ⊢
  obtain ⟨bLive, ab⟩ := ab
  obtain ⟨cLive, bc⟩ := bc
  refine ⟨cLive, ?_⟩
  rcases ab with aTerminal | ab
  · exact .inl aTerminal
  · rcases bc with bTerminal | bc
    · simp [bLive] at bTerminal
    · right
      omega

theorem terminal_not_expired (r : Record) (now : Nat) (terminal : r.isTerminal = true) : r.isExpired now = false := by
  simp [isExpired, terminal]

theorem successor_body (r : Record) (next : PubKey) (named : r.successor = some next) :
    ∃ reason, r.body = .superseded next reason := by
  unfold successor at named
  cases body : r.body with
  | live endpoints => simp [body] at named
  | superseded successor reason =>
      simp only [body, Option.some.injEq] at named
      exact ⟨reason, by rw [named]⟩
  | revoked reason => simp [body] at named

theorem expired_mono (r : Record) (now later : Nat) (le : now ≤ later) (expired : r.isExpired now = true) :
    r.isExpired later = true := by
  simp only [isExpired, Bool.and_eq_true, Bool.not_eq_true', decide_eq_true_eq] at expired ⊢
  exact ⟨expired.1, expired.2.trans le⟩

end Record

theorem SignedRecord.verify_signatures (prim : Primitives) (s : SignedRecord) (verified : s.verify prim = .ok ()) :
    prim.verify s.identity (Delegation.signedMessage s.identity s.key s.record.delegation.notAfter)
        s.record.delegation.signature = true ∧
      prim.verify s.record.expectedSigner (Sqns.signedMessage s.record.encode) s.signature = true := by
  unfold verify Delegation.verify at verified
  simp only [then_ok, when_done_ok] at verified
  obtain ⟨_, ⟨_, _, delegation⟩, _, _, record⟩ := verified
  exact ⟨delegation, record⟩

theorem Record.terminal_signer (r : Record) (terminal : r.isTerminal = true) : r.expectedSigner = r.identity := by
  unfold isTerminal isSuperseded isRevoked at terminal
  unfold expectedSigner
  cases body : r.body with
  | live endpoints => simp [body] at terminal
  | superseded successor reason => rfl
  | revoked reason => rfl

theorem Delegation.expired_mono (d : Delegation) (now later : Nat) (le : now ≤ later)
    (expired : d.isExpired now = true) : d.isExpired later = true := by
  simp only [isExpired, Bool.and_eq_true, decide_eq_true_eq] at expired ⊢
  exact ⟨expired.1, expired.2.trans le⟩

end Sqns
