import Sqns.Record

set_option autoImplicit false

namespace Sqns

open ByteReader

-- Rust's `{:#x}`.
def lowerHex (byte : UInt8) : String := "0x" ++ String.ofList (Nat.toDigits 16 byte.toNat)

def Host.decodeFrom (prim : Primitives) : Read Host := do
  let kind ← Reader.u8 "endpoint host type"
  if kind = hostV4 then
    let octets ← Reader.array 4 "IPv4 address"
    pure (.v4 octets)
  else if kind = hostV6 then
    let octets ← Reader.array 16 "IPv6 address"
    pure (.v6 octets)
  else if kind = hostName then
    let name ← Reader.shortString prim "host name"
    if name.isEmpty then throw (.record "empty host name") else pure (.name name)
  else throw (.record s!"unknown host type {lowerHex kind}")

def Endpoint.decodeFrom (prim : Primitives) : Read Endpoint := do
  let priority ← Reader.u16 "endpoint priority"
  let weight ← Reader.u16 "endpoint weight"
  let port ← Reader.u16 "endpoint port"
  let host ← Host.decodeFrom prim
  pure { host, port, priority, weight }

def Delegation.decodeFrom : Read Delegation := do
  let identity ← Reader.array 32 "delegation identity"
  let notAfter ← Reader.u64 "delegation not_after"
  let signature ← Reader.array 64 "delegation signature"
  pure { identity := ⟨identity⟩, notAfter, signature }

def RecordBody.decodeFrom (prim : Primitives) : Read RecordBody := do
  let kind ← Reader.u8 "record body kind"
  if kind = bodyLive then
    let count ← Reader.u8 "endpoint count"
    let endpoints ← many (Endpoint.decodeFrom prim) count.toNat
    pure (.live endpoints)
  else if kind = bodySuperseded then
    let successor ← Reader.array 32 "successor key"
    let reason ← Reader.string prim "supersede reason"
    pure (.superseded ⟨successor⟩ reason)
  else if kind = bodyRevoked then
    let reason ← Reader.string prim "revocation reason"
    pure (.revoked reason)
  else throw (.record s!"unknown record body kind {lowerHex kind}")

def Record.decodeFrom (prim : Primitives) : Read Record := do
  let version ← Reader.u8 "record version"
  if version ≠ recordVersion then
    throw (.record s!"unsupported record version {version} (this build speaks {recordVersion})")
  let key ← Reader.array 32 "record key"
  let delegation ← Delegation.decodeFrom
  let serial ← Reader.u64 "record serial"
  let issuedAt ← Reader.u64 "record issued_at"
  let ttl ← Reader.u32 "record ttl"
  let body ← RecordBody.decodeFrom prim
  pure { key := ⟨key⟩, delegation, serial, issuedAt, ttl, body }

def Record.decode (prim : Primitives) (input : Bytes) : Except Error Record :=
  decodeAll (Record.decodeFrom prim) "record" input

def SignedRecord.decodeFrom (prim : Primitives) : Read SignedRecord := do
  let len ← Reader.u16 "signed record length"
  let body ← Reader.bytes len.toNat "signed record body"
  let record ← Record.decode prim body
  let signature ← Reader.array 64 "record signature"
  pure { record, signature }

def SignedRecord.decode (prim : Primitives) (input : Bytes) : Except Error SignedRecord :=
  decodeAll (SignedRecord.decodeFrom prim) "signed record" input

-- What the length prefixes can express. `encode` narrows every length with
-- `as`, so outside these bounds the bytes no longer determine the record.
def Host.Encodable : Host → Prop
  | .v4 _ => True
  | .v6 _ => True
  | .name n => 0 < n.utf8ByteSize ∧ n.utf8ByteSize < 2 ^ 8

def RecordBody.Encodable : RecordBody → Prop
  | .live endpoints => endpoints.length < 2 ^ 8 ∧ ∀ e ∈ endpoints, e.host.Encodable
  | .superseded _ reason => reason.utf8ByteSize < 2 ^ 16
  | .revoked reason => reason.utf8ByteSize < 2 ^ 16

def Record.Encodable (r : Record) : Prop := r.body.Encodable

structure SignedRecord.Encodable (s : SignedRecord) : Prop where
  fields : s.record.Encodable
  short : s.record.encode.length < 2 ^ 16

instance : DecidablePred Host.Encodable := fun host =>
  match host with
  | .v4 _ => .isTrue trivial
  | .v6 _ => .isTrue trivial
  | .name _ => instDecidableAnd

instance : DecidablePred RecordBody.Encodable := fun body =>
  match body with
  | .live _ => instDecidableAnd
  | .superseded _ _ => Nat.decLt _ _
  | .revoked _ => Nat.decLt _ _

instance : DecidablePred SignedRecord.Encodable := fun s =>
  decidable_of_iff (s.record.body.Encodable ∧ s.record.encode.length < 2 ^ 16)
    ⟨fun both => ⟨both.1, both.2⟩, fun fits => ⟨fits.fields, fits.short⟩⟩

theorem is_empty_iff_size (s : String) : s.isEmpty = true ↔ s.utf8ByteSize = 0 := by
  simp [String.isEmpty_iff, String.utf8ByteSize_eq_zero_iff]

theorem host_reads (prim : Primitives) (host : Host) (fits : host.Encodable) (rest : Bytes) :
    Host.decodeFrom prim (host.encodeInto ++ rest) = .ok (host, rest) := by
  cases host with
  | v4 octets =>
      rw [Host.encodeInto, List.cons_append, Host.decodeFrom, bind_of_ok _ _ _ _ _ (Reader.u8_reads _ _ _), if_pos rfl,
        bind_of_ok _ _ _ _ _ (Reader.array_reads 4 _ octets rest)]
      rfl
  | v6 octets =>
      rw [Host.encodeInto, List.cons_append, Host.decodeFrom, bind_of_ok _ _ _ _ _ (Reader.u8_reads _ _ _),
        if_neg (by decide), if_pos rfl, bind_of_ok _ _ _ _ _ (Reader.array_reads 16 _ octets rest)]
      rfl
  | name n =>
      have nonempty : ¬ n.isEmpty = true := by
        rw [is_empty_iff_size]
        exact Nat.pos_iff_ne_zero.mp fits.1
      rw [Host.encodeInto, List.cons_append, Host.decodeFrom, bind_of_ok _ _ _ _ _ (Reader.u8_reads _ _ _),
        if_neg (by decide), if_neg (by decide), if_pos rfl,
        bind_of_ok _ _ _ _ _ (Reader.short_string_reads prim _ n rest fits.2), if_neg nonempty]
      rfl

theorem host_exact (prim : Primitives) (input rest : Bytes) (host : Host)
    (success : Host.decodeFrom prim input = .ok (host, rest)) :
    host.Encodable ∧ input = host.encodeInto ++ rest := by
  obtain ⟨kind, mid, tag, body⟩ := (bind_ok _ _ _ _ _).mp success
  rw [Reader.u8_exact _ _ _ _ tag]
  split at body
  · rename_i same
    obtain ⟨octets, last, read, final⟩ := (bind_ok _ _ _ _ _).mp body
    obtain ⟨rfl, rfl⟩ := (pure_ok _ _ _ _).mp final
    rw [Reader.array_exact _ _ _ _ _ read, same]
    exact ⟨trivial, rfl⟩
  · split at body
    · rename_i same
      obtain ⟨octets, last, read, final⟩ := (bind_ok _ _ _ _ _).mp body
      obtain ⟨rfl, rfl⟩ := (pure_ok _ _ _ _).mp final
      rw [Reader.array_exact _ _ _ _ _ read, same]
      exact ⟨trivial, rfl⟩
    · split at body
      · rename_i same
        obtain ⟨n, last, read, final⟩ := (bind_ok _ _ _ _ _).mp body
        obtain ⟨short, bytes⟩ := Reader.short_string_exact _ _ _ _ _ read
        split at final
        · exact False.elim (throw_ok _ _ _ _ final)
        · rename_i nonempty
          obtain ⟨rfl, rfl⟩ := (pure_ok _ _ _ _).mp final
          rw [is_empty_iff_size] at nonempty
          rw [bytes, same]
          exact ⟨⟨Nat.pos_of_ne_zero nonempty, short⟩, rfl⟩
      · exact False.elim (throw_ok _ _ _ _ body)

theorem endpoint_reads (prim : Primitives) (e : Endpoint) (fits : e.host.Encodable) (rest : Bytes) :
    Endpoint.decodeFrom prim (e.encodeInto ++ rest) = .ok (e, rest) := by
  simp only [Endpoint.encodeInto, List.append_assoc]
  rw [Endpoint.decodeFrom, bind_of_ok _ _ _ _ _ (Reader.u16_reads _ _ _), bind_of_ok _ _ _ _ _ (Reader.u16_reads _ _ _),
    bind_of_ok _ _ _ _ _ (Reader.u16_reads _ _ _), bind_of_ok _ _ _ _ _ (host_reads prim e.host fits rest)]
  rfl

theorem endpoint_exact (prim : Primitives) (input rest : Bytes) (e : Endpoint)
    (success : Endpoint.decodeFrom prim input = .ok (e, rest)) :
    e.host.Encodable ∧ input = e.encodeInto ++ rest := by
  obtain ⟨priority, afterPriority, readPriority, success⟩ := (bind_ok _ _ _ _ _).mp success
  obtain ⟨weight, afterWeight, readWeight, success⟩ := (bind_ok _ _ _ _ _).mp success
  obtain ⟨port, afterPort, readPort, success⟩ := (bind_ok _ _ _ _ _).mp success
  obtain ⟨host, afterHost, readHost, final⟩ := (bind_ok _ _ _ _ _).mp success
  obtain ⟨rfl, rfl⟩ := (pure_ok _ _ _ _).mp final
  obtain ⟨fits, hostBytes⟩ := host_exact prim _ _ _ readHost
  refine ⟨fits, ?_⟩
  rw [Reader.u16_exact _ _ _ _ readPriority, Reader.u16_exact _ _ _ _ readWeight, Reader.u16_exact _ _ _ _ readPort,
    hostBytes]
  simp only [Endpoint.encodeInto, List.append_assoc]

theorem delegation_reads (d : Delegation) (rest : Bytes) :
    Delegation.decodeFrom (d.encodeInto ++ rest) = .ok (d, rest) := by
  simp only [Delegation.encodeInto, List.append_assoc]
  rw [Delegation.decodeFrom, bind_of_ok _ _ _ _ _ (Reader.array_reads _ _ _ _),
    bind_of_ok _ _ _ _ _ (Reader.u64_reads _ _ _), bind_of_ok _ _ _ _ _ (Reader.array_reads _ _ _ _)]
  rfl

theorem delegation_exact (input rest : Bytes) (d : Delegation)
    (success : Delegation.decodeFrom input = .ok (d, rest)) : input = d.encodeInto ++ rest := by
  obtain ⟨identity, afterIdentity, readIdentity, success⟩ := (bind_ok _ _ _ _ _).mp success
  obtain ⟨notAfter, afterExpiry, readExpiry, success⟩ := (bind_ok _ _ _ _ _).mp success
  obtain ⟨signature, afterSignature, readSignature, final⟩ := (bind_ok _ _ _ _ _).mp success
  obtain ⟨rfl, rfl⟩ := (pure_ok _ _ _ _).mp final
  rw [Reader.array_exact _ _ _ _ _ readIdentity, Reader.u64_exact _ _ _ _ readExpiry,
    Reader.array_exact _ _ _ _ _ readSignature]
  simp only [Delegation.encodeInto, List.append_assoc]

theorem body_reads (prim : Primitives) (body : RecordBody) (fits : body.Encodable) (rest : Bytes) :
    RecordBody.decodeFrom prim (body.encodeInto ++ rest) = .ok (body, rest) := by
  cases body with
  | live endpoints =>
      have count : (UInt8.ofNat endpoints.length).toNat = endpoints.length := UInt8.toNat_ofNat_of_lt' fits.1
      have loop := many_reads (Endpoint.decodeFrom prim) Endpoint.encodeInto endpoints rest
        (fun e member => endpoint_reads prim e (fits.2 e member))
      rw [← count] at loop
      rw [RecordBody.encodeInto, List.cons_append, List.append_assoc, RecordBody.decodeFrom,
        bind_of_ok _ _ _ _ _ (Reader.u8_reads _ _ _), if_pos rfl]
      change (Reader.u8 _ >>= _) (UInt8.ofNat endpoints.length :: (endpoints.flatMap Endpoint.encodeInto ++ rest)) = _
      rw [bind_of_ok _ _ _ _ _ (Reader.u8_reads _ _ _), bind_of_ok _ _ _ _ _ loop]
      rfl
  | superseded successor reason =>
      rw [RecordBody.encodeInto, List.cons_append, List.append_assoc, RecordBody.decodeFrom,
        bind_of_ok _ _ _ _ _ (Reader.u8_reads _ _ _), if_neg (by decide), if_pos rfl,
        bind_of_ok _ _ _ _ _ (Reader.array_reads _ _ _ _), bind_of_ok _ _ _ _ _ (Reader.string_reads prim _ _ _ fits)]
      rfl
  | revoked reason =>
      rw [RecordBody.encodeInto, List.cons_append, RecordBody.decodeFrom, bind_of_ok _ _ _ _ _ (Reader.u8_reads _ _ _),
        if_neg (by decide), if_neg (by decide), if_pos rfl, bind_of_ok _ _ _ _ _ (Reader.string_reads prim _ _ _ fits)]
      rfl

theorem body_exact (prim : Primitives) (input rest : Bytes) (body : RecordBody)
    (success : RecordBody.decodeFrom prim input = .ok (body, rest)) :
    body.Encodable ∧ input = body.encodeInto ++ rest := by
  obtain ⟨kind, mid, tag, content⟩ := (bind_ok _ _ _ _ _).mp success
  rw [Reader.u8_exact _ _ _ _ tag]
  split at content
  · rename_i same
    obtain ⟨count, afterCount, readCount, content⟩ := (bind_ok _ _ _ _ _).mp content
    obtain ⟨endpoints, afterLoop, loop, final⟩ := (bind_ok _ _ _ _ _).mp content
    obtain ⟨rfl, rfl⟩ := (pure_ok _ _ _ _).mp final
    obtain ⟨length, bytes⟩ := many_exact _ Endpoint.encodeInto _ _ _ _
      (fun source e after read => (endpoint_exact prim source after e read).2) loop
    have hosts := many_forall _ (fun e => e.host.Encodable) _ _ _ _
      (fun source e after read => (endpoint_exact prim source after e read).1) loop
    refine ⟨⟨length ▸ count.toNat_lt, hosts⟩, ?_⟩
    have prefixed : toBe 1 count.toNat = [count] := by simp [toBe]
    rw [Reader.u8_exact _ _ _ _ readCount, bytes, same, RecordBody.encodeInto, length, prefixed]
    rfl
  · split at content
    · rename_i same
      obtain ⟨successor, afterKey, readKey, content⟩ := (bind_ok _ _ _ _ _).mp content
      obtain ⟨reason, afterReason, readReason, final⟩ := (bind_ok _ _ _ _ _).mp content
      obtain ⟨rfl, rfl⟩ := (pure_ok _ _ _ _).mp final
      obtain ⟨short, bytes⟩ := Reader.string_exact _ _ _ _ _ readReason
      refine ⟨short, ?_⟩
      rw [Reader.array_exact _ _ _ _ _ readKey, bytes, same, RecordBody.encodeInto, List.cons_append, List.append_assoc]
    · split at content
      · rename_i same
        obtain ⟨reason, afterReason, readReason, final⟩ := (bind_ok _ _ _ _ _).mp content
        obtain ⟨rfl, rfl⟩ := (pure_ok _ _ _ _).mp final
        obtain ⟨short, bytes⟩ := Reader.string_exact _ _ _ _ _ readReason
        rw [bytes, same]
        exact ⟨short, rfl⟩
      · exact False.elim (throw_ok _ _ _ _ content)

theorem record_reads (prim : Primitives) (r : Record) (fits : r.Encodable) (rest : Bytes) :
    Record.decodeFrom prim (r.encode ++ rest) = .ok (r, rest) := by
  simp only [Record.encode, List.append_assoc, List.cons_append]
  rw [Record.decodeFrom, bind_of_ok _ _ _ _ _ (Reader.u8_reads _ _ _), if_neg (by simp)]
  beta_reduce
  rw [bind_of_ok _ _ _ _ _ (Reader.array_reads _ _ _ _), bind_of_ok _ _ _ _ _ (delegation_reads _ _),
    bind_of_ok _ _ _ _ _ (Reader.u64_reads _ _ _), bind_of_ok _ _ _ _ _ (Reader.u64_reads _ _ _),
    bind_of_ok _ _ _ _ _ (Reader.u32_reads _ _ _), bind_of_ok _ _ _ _ _ (body_reads prim r.body fits rest)]
  rfl

theorem record_exact (prim : Primitives) (input rest : Bytes) (r : Record)
    (success : Record.decodeFrom prim input = .ok (r, rest)) : r.Encodable ∧ input = r.encode ++ rest := by
  obtain ⟨version, afterVersion, readVersion, success⟩ := (bind_ok _ _ _ _ _).mp success
  split at success
  · obtain ⟨_, _, refused, _⟩ := (bind_ok _ _ _ _ _).mp success
    exact False.elim (throw_ok _ _ _ _ refused)
  · rename_i supported
    have current : version = recordVersion := not_not.mp supported
    obtain ⟨key, afterKey, readKey, success⟩ := (bind_ok _ _ _ _ _).mp success
    obtain ⟨delegation, afterDelegation, readDelegation, success⟩ := (bind_ok _ _ _ _ _).mp success
    obtain ⟨serial, afterSerial, readSerial, success⟩ := (bind_ok _ _ _ _ _).mp success
    obtain ⟨issuedAt, afterIssued, readIssued, success⟩ := (bind_ok _ _ _ _ _).mp success
    obtain ⟨ttl, afterTtl, readTtl, success⟩ := (bind_ok _ _ _ _ _).mp success
    obtain ⟨body, afterBody, readBody, final⟩ := (bind_ok _ _ _ _ _).mp success
    obtain ⟨rfl, rfl⟩ := (pure_ok _ _ _ _).mp final
    obtain ⟨fits, bodyBytes⟩ := body_exact prim _ _ _ readBody
    refine ⟨fits, ?_⟩
    rw [Reader.u8_exact _ _ _ _ readVersion, current, Reader.array_exact _ _ _ _ _ readKey,
      delegation_exact _ _ _ readDelegation, Reader.u64_exact _ _ _ _ readSerial, Reader.u64_exact _ _ _ _ readIssued,
      Reader.u32_exact _ _ _ _ readTtl, bodyBytes]
    simp only [Record.encode, List.append_assoc, List.cons_append]

theorem record_decode_iff (prim : Primitives) (input : Bytes) (r : Record) :
    Record.decode prim input = .ok r ↔ r.Encodable ∧ input = r.encode := by
  rw [Record.decode, decode_all_ok]
  constructor
  · intro success
    simpa using record_exact prim input [] r success
  · rintro ⟨fits, rfl⟩
    simpa using record_reads prim r fits []

theorem signed_reads (prim : Primitives) (s : SignedRecord) (fits : s.Encodable) (rest : Bytes) :
    SignedRecord.decodeFrom prim (s.encode ++ rest) = .ok (s, rest) := by
  have cast : (UInt16.ofNat s.record.encode.length).toNat = s.record.encode.length :=
    UInt16.toNat_ofNat_of_lt' fits.short
  have len := Reader.u16_reads "signed record length" (UInt16.ofNat s.record.encode.length)
    (s.record.encode ++ (s.signature.toList ++ rest))
  rw [be16, cast] at len
  have inner : Record.decode prim s.record.encode = .ok s.record := (record_decode_iff prim _ _).mpr ⟨fits.fields, rfl⟩
  simp only [SignedRecord.encode, List.append_assoc]
  rw [SignedRecord.decodeFrom, bind_of_ok _ _ _ _ _ len, cast, bind_of_ok _ _ _ _ _ (Reader.bytes_reads _ _ _),
    bind_of_ok _ _ _ _ _ ((lift_ok _ _ _ _).mpr ⟨inner, rfl⟩), bind_of_ok _ _ _ _ _ (Reader.array_reads _ _ _ _)]
  rfl

theorem signed_exact (prim : Primitives) (input rest : Bytes) (s : SignedRecord)
    (success : SignedRecord.decodeFrom prim input = .ok (s, rest)) : s.Encodable ∧ input = s.encode ++ rest := by
  obtain ⟨len, afterLen, readLen, success⟩ := (bind_ok _ _ _ _ _).mp success
  obtain ⟨body, afterBody, readBody, success⟩ := (bind_ok _ _ _ _ _).mp success
  obtain ⟨record, afterRecord, readRecord, success⟩ := (bind_ok _ _ _ _ _).mp success
  obtain ⟨signature, afterSignature, readSignature, final⟩ := (bind_ok _ _ _ _ _).mp success
  obtain ⟨rfl, rfl⟩ := (pure_ok _ _ _ _).mp final
  obtain ⟨length, split⟩ := Reader.bytes_exact _ _ _ _ _ readBody
  obtain ⟨decoded, rfl⟩ := (lift_ok _ _ _ _).mp readRecord
  obtain ⟨fields, rfl⟩ := (record_decode_iff prim _ _).mp decoded
  refine ⟨⟨fields, length ▸ len.toNat_lt⟩, ?_⟩
  rw [Reader.u16_exact _ _ _ _ readLen, split, Reader.array_exact _ _ _ _ _ readSignature]
  simp only [SignedRecord.encode, List.append_assoc, length, be16]

theorem signed_decode_iff (prim : Primitives) (input : Bytes) (s : SignedRecord) :
    SignedRecord.decode prim input = .ok s ↔ s.Encodable ∧ input = s.encode := by
  rw [SignedRecord.decode, decode_all_ok]
  constructor
  · intro success
    simpa using signed_exact prim input [] s success
  · rintro ⟨fits, rfl⟩
    simpa using signed_reads prim s fits []

theorem wire_iff_encodable (prim : Primitives) (s : SignedRecord) :
    (∃ input, SignedRecord.decode prim input = .ok s) ↔ s.Encodable := by
  constructor
  · rintro ⟨input, decoded⟩
    exact ((signed_decode_iff prim input s).mp decoded).1
  · intro fits
    exact ⟨s.encode, (signed_decode_iff prim s.encode s).mpr ⟨fits, rfl⟩⟩

end Sqns
