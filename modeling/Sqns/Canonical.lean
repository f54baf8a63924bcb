import Sqns.RecordWire

set_option autoImplicit false

namespace Sqns

open ByteReader

structure DelegationFile where
  serviceKey : PubKey
  delegation : Delegation
deriving DecidableEq

def delegationFileMagic : Bytes := utf8Bytes "SQNSDEL"
def delegationFileVersion : UInt8 := 2

namespace DelegationFile

def identity (file : DelegationFile) : PubKey := file.delegation.identity

def encode (file : DelegationFile) : Bytes :=
  delegationFileMagic ++ delegationFileVersion :: (file.serviceKey.bytes.toList ++ file.delegation.encodeInto)

def decodeFrom : Read DelegationFile := do
  let magic ← Reader.bytes delegationFileMagic.length "delegation magic"
  if magic ≠ delegationFileMagic then throw (.delegation "not an sqns delegation file")
  let version ← Reader.u8 "delegation file version"
  if version ≠ delegationFileVersion then throw (.delegation s!"unsupported delegation file version {version}")
  let serviceKey ← Reader.array 32 "delegation service key"
  let delegation ← Delegation.decodeFrom
  pure { serviceKey := ⟨serviceKey⟩, delegation }

-- The signature is checked last, after the file has been read to its end.
def decode (prim : Primitives) (input : Bytes) : Except Error DelegationFile := do
  let file ← decodeAll decodeFrom "delegation file" input
  file.delegation.verify prim file.serviceKey
  pure file

theorem file_reads (file : DelegationFile) (rest : Bytes) : decodeFrom (file.encode ++ rest) = .ok (file, rest) := by
  simp only [encode, List.append_assoc, List.cons_append]
  rw [decodeFrom, bind_of_ok _ _ _ _ _ (Reader.bytes_reads _ _ _), if_neg (by simp)]
  beta_reduce
  rw [bind_of_ok _ _ _ _ _ (Reader.u8_reads _ _ _), if_neg (by simp)]
  beta_reduce
  rw [bind_of_ok _ _ _ _ _ (Reader.array_reads _ _ _ _), bind_of_ok _ _ _ _ _ (delegation_reads _ _)]
  rfl

theorem file_exact (input rest : Bytes) (file : DelegationFile) (success : decodeFrom input = .ok (file, rest)) :
    input = file.encode ++ rest := by
  obtain ⟨magic, afterMagic, readMagic, success⟩ := (bind_ok _ _ _ _ _).mp success
  split at success
  · obtain ⟨_, _, refused, _⟩ := (bind_ok _ _ _ _ _).mp success
    exact False.elim (throw_ok _ _ _ _ refused)
  · rename_i marked
    obtain ⟨version, afterVersion, readVersion, success⟩ := (bind_ok _ _ _ _ _).mp success
    split at success
    · obtain ⟨_, _, refused, _⟩ := (bind_ok _ _ _ _ _).mp success
      exact False.elim (throw_ok _ _ _ _ refused)
    · rename_i supported
      obtain ⟨serviceKey, afterKey, readKey, success⟩ := (bind_ok _ _ _ _ _).mp success
      obtain ⟨delegation, afterDelegation, readDelegation, final⟩ := (bind_ok _ _ _ _ _).mp success
      obtain ⟨rfl, rfl⟩ := (pure_ok _ _ _ _).mp final
      rw [(Reader.bytes_exact _ _ _ _ _ readMagic).2, not_not.mp marked, Reader.u8_exact _ _ _ _ readVersion,
        not_not.mp supported, Reader.array_exact _ _ _ _ _ readKey, delegation_exact _ _ _ readDelegation]
      simp only [encode, List.append_assoc, List.cons_append]

theorem file_decode_iff (prim : Primitives) (input : Bytes) (file : DelegationFile) :
    decode prim input = .ok file ↔ file.delegation.verify prim file.serviceKey = .ok () ∧ input = file.encode := by
  have read : ∀ f, decodeAll decodeFrom "delegation file" input = .ok f ↔ input = f.encode := by
    intro f
    rw [decode_all_ok]
    constructor
    · intro success
      simpa using file_exact input [] f success
    · rintro rfl
      simpa using file_reads f []
  rw [decode, then_ok]
  constructor
  · rintro ⟨f, loaded, checked⟩
    obtain ⟨_, signed, final⟩ := (then_ok _ _ _).mp checked
    cases final
    exact ⟨signed, (read _).mp loaded⟩
  · rintro ⟨signed, same⟩
    exact ⟨file, (read file).mpr same, (then_ok _ _ _).mpr ⟨(), signed, rfl⟩⟩

end DelegationFile

theorem slice_eq (input before slice after : Bytes) (start len : Nat) (split : input = before ++ (slice ++ after))
    (offset : before.length = start) (size : slice.length = len) : (input.drop start).take len = slice := by
  rw [split, ← offset, ← size, List.drop_left, List.take_left]

-- Offsets into a signed record: two length bytes, the version, the key, then
-- the delegation. The signature fills the last 64 bytes.
theorem signed_slices (s : SignedRecord) :
    signedMessage s.record.encode = sigContext ++ (s.encode.drop 2).take (s.encode.length - 66) ∧
      s.signature.toList = s.encode.drop (s.encode.length - 64) ∧
      Delegation.signedMessage s.identity s.key s.record.delegation.notAfter =
        delegationContext ++ (s.encode.drop 35).take 32 ++ (s.encode.drop 3).take 32 ++ (s.encode.drop 67).take 8 := by
  have size := s.encode_length
  have body := slice_eq s.encode (toBe 2 s.record.encode.length) s.record.encode s.signature.toList 2 (s.encode.length - 66)
    (by rw [SignedRecord.encode, List.append_assoc]) (by simp) (by omega)
  have last : s.encode.drop (s.encode.length - 64) = s.signature.toList := by
    have start : s.encode.length - 64 = (toBe 2 s.record.encode.length ++ s.record.encode).length := by
      rw [size, List.length_append, to_be_length]
      omega
    rw [start, SignedRecord.encode, List.drop_left]
  have key := slice_eq s.encode (toBe 2 s.record.encode.length ++ [recordVersion]) s.key.bytes.toList _ 3 32
    (by
      simp only [SignedRecord.encode, Record.encode, SignedRecord.key, List.append_assoc, List.cons_append, List.nil_append]
      rfl) (by simp) (by simp)
  have identity := slice_eq s.encode (toBe 2 s.record.encode.length ++ recordVersion :: s.key.bytes.toList)
    s.identity.bytes.toList _ 35 32
    (by
      simp only [SignedRecord.encode, Record.encode, SignedRecord.key, SignedRecord.identity, Record.identity,
        Delegation.encodeInto, List.append_assoc, List.cons_append]
      rfl) (by simp) (by simp)
  have expiry := slice_eq s.encode
    (toBe 2 s.record.encode.length ++ recordVersion :: (s.key.bytes.toList ++ s.identity.bytes.toList))
    (be64 s.record.delegation.notAfter) _ 67 8
    (by
      simp only [SignedRecord.encode, Record.encode, SignedRecord.key, SignedRecord.identity, Record.identity,
        Delegation.encodeInto, List.append_assoc, List.cons_append]
      rfl) (by simp) (by simp)
  exact ⟨by rw [body, signedMessage], last.symm, by rw [key, identity, expiry, Delegation.signedMessage]⟩

theorem file_slices (f : DelegationFile) :
    Delegation.signedMessage f.identity f.serviceKey f.delegation.notAfter =
      delegationContext ++ (f.encode.drop 40).take 32 ++ (f.encode.drop 8).take 32 ++ (f.encode.drop 72).take 8 := by
  have magic : delegationFileMagic.length = 7 := by decide
  have key := slice_eq f.encode (delegationFileMagic ++ [delegationFileVersion]) f.serviceKey.bytes.toList _ 8 32
    (by
      simp only [DelegationFile.encode, List.append_assoc, List.cons_append, List.nil_append]
      rfl) (by simp [magic]) (by simp)
  have identity := slice_eq f.encode (delegationFileMagic ++ delegationFileVersion :: f.serviceKey.bytes.toList)
    f.identity.bytes.toList _ 40 32
    (by
      simp only [DelegationFile.encode, DelegationFile.identity, Delegation.encodeInto, List.append_assoc, List.cons_append]
      rfl) (by simp [magic]) (by simp)
  have expiry := slice_eq f.encode
    (delegationFileMagic ++ delegationFileVersion :: (f.serviceKey.bytes.toList ++ f.identity.bytes.toList))
    (be64 f.delegation.notAfter) _ 72 8
    (by
      simp only [DelegationFile.encode, DelegationFile.identity, Delegation.encodeInto, List.append_assoc, List.cons_append]
      rfl) (by simp [magic]) (by simp)
  rw [key, identity, expiry, Delegation.signedMessage]

theorem decoding_is_canonical (prim : Primitives) (b : Bytes) :
    (∀ s, SignedRecord.decode prim b = .ok s →
      s.encode = b ∧ (∀ other, SignedRecord.decode prim other = .ok s → other = b) ∧
      signedMessage s.record.encode = sigContext ++ (b.drop 2).take (b.length - 66) ∧
      s.signature.toList = b.drop (b.length - 64) ∧
      Delegation.signedMessage s.identity s.key s.record.delegation.notAfter =
        delegationContext ++ (b.drop 35).take 32 ++ (b.drop 3).take 32 ++ (b.drop 67).take 8) ∧
    (∀ r, Record.decode prim b = .ok r → r.encode = b ∧ ∀ other, Record.decode prim other = .ok r → other = b) ∧
    (∀ f, DelegationFile.decode prim b = .ok f →
      f.encode = b ∧ (∀ other, DelegationFile.decode prim other = .ok f → other = b) ∧
      Delegation.signedMessage f.identity f.serviceKey f.delegation.notAfter =
        delegationContext ++ (b.drop 40).take 32 ++ (b.drop 8).take 32 ++ (b.drop 72).take 8) := by
  refine ⟨?_, ?_, ?_⟩
  · intro s decoded
    obtain ⟨_, rfl⟩ := (signed_decode_iff prim b s).mp decoded
    exact ⟨rfl, fun other again => ((signed_decode_iff prim other s).mp again).2, signed_slices s⟩
  · intro r decoded
    obtain ⟨_, rfl⟩ := (record_decode_iff prim b r).mp decoded
    exact ⟨rfl, fun other again => ((record_decode_iff prim other r).mp again).2⟩
  · intro f decoded
    obtain ⟨_, rfl⟩ := (DelegationFile.file_decode_iff prim b f).mp decoded
    exact ⟨rfl, fun other again => ((DelegationFile.file_decode_iff prim other f).mp again).2, file_slices f⟩

theorem key_bytes_inj (a b : PubKey) (same : a.bytes.toList = b.bytes.toList) : a = b := by
  obtain ⟨bytes⟩ := a
  obtain ⟨bytes'⟩ := b
  exact congrArg PubKey.mk (List.Vector.toList_injective same)

theorem be64_inj (m n : UInt64) (same : be64 m = be64 n) : m = n := by
  have first := Reader.u64_reads "number" m []
  rw [same, Reader.u64_reads "number" n []] at first
  cases first
  rfl

theorem record_message_inj (prim : Primitives) (r other : Record) (fits : r.Encodable) (fits' : other.Encodable)
    (same : signedMessage r.encode = signedMessage other.encode) : r = other := by
  have bytes : r.encode = other.encode := List.append_cancel_left same
  have first := (record_decode_iff prim r.encode r).mpr ⟨fits, rfl⟩
  rw [bytes, (record_decode_iff prim other.encode other).mpr ⟨fits', rfl⟩, Except.ok.injEq] at first
  exact first.symm

theorem delegation_message_inj (identity identity' serviceKey serviceKey' : PubKey) (notAfter notAfter' : UInt64)
    (same : Delegation.signedMessage identity serviceKey notAfter = Delegation.signedMessage identity' serviceKey' notAfter') :
    identity = identity' ∧ serviceKey = serviceKey' ∧ notAfter = notAfter' := by
  simp only [Delegation.signedMessage, List.append_assoc] at same
  obtain ⟨sameIdentity, rest⟩ := List.append_inj (List.append_cancel_left same) (by simp)
  obtain ⟨sameKey, sameExpiry⟩ := List.append_inj rest (by simp)
  exact ⟨key_bytes_inj _ _ sameIdentity, key_bytes_inj _ _ sameKey, be64_inj _ _ sameExpiry⟩

-- The two contexts part at their sixth byte, before any field begins.
theorem record_not_delegation_message (bytes : Bytes) (identity serviceKey : PubKey) (notAfter : UInt64) :
    signedMessage bytes ≠ Delegation.signedMessage identity serviceKey notAfter := by
  intro same
  have contexts : sigContext.take 6 ≠ delegationContext.take 6 := by decide
  have heads := congrArg (List.take 6) same
  simp only [signedMessage, Delegation.signedMessage, List.append_assoc] at heads
  rw [List.take_append_of_le_length (by decide), List.take_append_of_le_length (by decide)] at heads
  exact contexts heads

theorem signed_messages_unambiguous (prim : Primitives) :
    (∀ r : Record, r.Encodable → Record.decode prim r.encode = .ok r) ∧
    (∀ r other : Record, r.Encodable → other.Encodable → signedMessage r.encode = signedMessage other.encode → r = other) ∧
    (∀ identity identity' serviceKey serviceKey' notAfter notAfter',
      Delegation.signedMessage identity serviceKey notAfter = Delegation.signedMessage identity' serviceKey' notAfter' →
      identity = identity' ∧ serviceKey = serviceKey' ∧ notAfter = notAfter') ∧
    ∀ (r : Record) (identity serviceKey : PubKey) (notAfter : UInt64),
      signedMessage r.encode ≠ Delegation.signedMessage identity serviceKey notAfter := by
  refine ⟨?_, record_message_inj prim, delegation_message_inj, ?_⟩
  · intro r fits
    exact (record_decode_iff prim r.encode r).mpr ⟨fits, rfl⟩
  · intro r identity serviceKey notAfter
    exact record_not_delegation_message r.encode identity serviceKey notAfter

end Sqns
