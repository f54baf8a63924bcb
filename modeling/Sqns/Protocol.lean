import Sqns.RecordWire

set_option autoImplicit false

namespace Sqns

open ByteReader

def maxMessageLen : Nat := 2 ^ 20
def maxSyncBatch : UInt16 := 512
def maxRecurse : UInt8 := 8

def reqLookup : UInt8 := 0x01
def reqPublish : UInt8 := 0x02
def reqStatus : UInt8 := 0x03
def reqSync : UInt8 := 0x04
def reqLookupIdentity : UInt8 := 0x05

def respAnswer : UInt8 := 0x81
def respPublished : UInt8 := 0x82
def respStatus : UInt8 := 0x83
def respRecords : UInt8 := 0x84
def respError : UInt8 := 0xff

inductive ErrorCode where
  | malformed
  | unsupported
  | badSignature
  | stale
  | rateLimited
  | internal
  | notAuthorized
  | revoked
  | upstreamFailed
  | superseded
  | badDelegation
deriving DecidableEq

def ErrorCode.toU16 : ErrorCode → UInt16
  | .malformed => 1
  | .unsupported => 2
  | .badSignature => 3
  | .stale => 4
  | .rateLimited => 5
  | .internal => 6
  | .notAuthorized => 7
  | .revoked => 8
  | .upstreamFailed => 11
  | .superseded => 10
  | .badDelegation => 9

def ErrorCode.fromU16 (v : UInt16) : ErrorCode :=
  if v = 1 then .malformed
  else if v = 2 then .unsupported
  else if v = 3 then .badSignature
  else if v = 4 then .stale
  else if v = 5 then .rateLimited
  else if v = 7 then .notAuthorized
  else if v = 8 then .revoked
  else if v = 10 then .superseded
  else if v = 11 then .upstreamFailed
  else if v = 9 then .badDelegation
  else .internal

inductive Request where
  | lookup (key : PubKey) (recurse : UInt8)
  | lookupIdentity (identity : PubKey)
  | publish (record : SignedRecord)
  | status
  | sync (since : UInt64) (limit : UInt16)
deriving DecidableEq

structure StatusInfo where
  records : UInt64
  cached : UInt64
  peers : UInt32
  upstreams : UInt32
  uptimeSecs : UInt64
  version : String
deriving DecidableEq

inductive Response where
  | answer (record successor : Option SignedRecord)
  | published (serial expiresAt : UInt64)
  | status (info : StatusInfo)
  | records (batch : List SignedRecord) (complete : Bool)
  | error (code : ErrorCode) (message : String)
deriving DecidableEq

namespace Request

def frameType : Request → UInt8
  | .lookup _ _ => reqLookup
  | .lookupIdentity _ => reqLookupIdentity
  | .publish _ => reqPublish
  | .status => reqStatus
  | .sync _ _ => reqSync

def encodePayload : Request → Bytes
  | .lookup key recurse => key.bytes.toList ++ [recurse]
  | .lookupIdentity identity => identity.bytes.toList
  | .publish record => record.encode
  | .status => []
  | .sync since limit => be64 since ++ be16 limit

def decodeFrom (prim : Primitives) (frameType : UInt8) : Read Request := do
  if frameType = reqLookup then
    let key ← Reader.array 32 "lookup key"
    let recurse ← Reader.u8 "lookup recursion budget"
    pure (.lookup ⟨key⟩ (min recurse maxRecurse))
  else if frameType = reqLookupIdentity then
    let identity ← Reader.array 32 "identity key"
    pure (.lookupIdentity ⟨identity⟩)
  else if frameType = reqPublish then
    let record ← SignedRecord.decodeFrom prim
    pure (.publish record)
  else if frameType = reqStatus then pure .status
  else if frameType = reqSync then
    let since ← Reader.u64 "sync since"
    let limit ← Reader.u16 "sync limit"
    pure (.sync since limit)
  else throw (.protocol s!"unknown request type {lowerHex frameType}")

def decode (prim : Primitives) (frameType : UInt8) (payload : Bytes) : Except Error Request :=
  decodeAll (decodeFrom prim frameType) "request" payload

end Request

namespace Response

def frameType : Response → UInt8
  | .answer _ _ => respAnswer
  | .published _ _ => respPublished
  | .status _ => respStatus
  | .records _ _ => respRecords
  | .error _ _ => respError

def encodeSlot : Option SignedRecord → Bytes
  | some record => 1 :: record.encode
  | none => [0]

def encodePayload : Response → Bytes
  | .answer record successor => encodeSlot record ++ encodeSlot successor
  | .published serial expiresAt => be64 serial ++ be64 expiresAt
  | .status info => be64 info.records ++ be64 info.cached ++ be32 info.peers ++ be32 info.upstreams ++
      be64 info.uptimeSecs ++ putString info.version
  | .records batch complete => toBe 4 batch.length ++ (if complete then 1 else 0) :: batch.flatMap SignedRecord.encode
  | .error code message => be16 code.toU16 ++ putString message

def decodeSlot (prim : Primitives) : Read (Option SignedRecord) := do
  let presence ← Reader.u8 "answer presence"
  if presence = 0 then pure none
  else if presence = 1 then
    let record ← SignedRecord.decodeFrom prim
    pure (some record)
  else throw (.protocol s!"invalid answer presence byte {lowerHex presence}")

def decodeFrom (prim : Primitives) (frameType : UInt8) : Read Response := do
  if frameType = respAnswer then
    let record ← decodeSlot prim
    let successor ← decodeSlot prim
    pure (.answer record successor)
  else if frameType = respPublished then
    let serial ← Reader.u64 "published serial"
    let expiresAt ← Reader.u64 "published expires_at"
    pure (.published serial expiresAt)
  else if frameType = respStatus then
    let records ← Reader.u64 "status records"
    let cached ← Reader.u64 "status cached"
    let peers ← Reader.u32 "status peers"
    let upstreams ← Reader.u32 "status upstreams"
    let uptimeSecs ← Reader.u64 "status uptime"
    let version ← Reader.string prim "status version"
    pure (.status { records, cached, peers, upstreams, uptimeSecs, version })
  else if frameType = respRecords then
    let count ← Reader.u32 "sync count"
    if count.toNat > maxSyncBatch.toNat then
      throw (.protocol s!"sync batch of {count} exceeds the {maxSyncBatch} cap")
    let complete ← Reader.u8 "sync complete"
    let records ← many (SignedRecord.decodeFrom prim) count.toNat
    pure (.records records (complete ≠ 0))
  else if frameType = respError then
    let code ← Reader.u16 "error code"
    let message ← Reader.string prim "error message"
    pure (.error (ErrorCode.fromU16 code) message)
  else throw (.protocol s!"unknown response type {lowerHex frameType}")

def decode (prim : Primitives) (frameType : UInt8) (payload : Bytes) : Except Error Response :=
  decodeAll (decodeFrom prim frameType) "response" payload

end Response

-- The bytes `write_frame` hands to the stream, or its refusal.
def writeFrame (frameType : UInt8) (payload : Bytes) : Except Error Bytes :=
  if payload.length > maxMessageLen then
    .error (.protocol s!"message of {payload.length} bytes exceeds the {maxMessageLen} byte cap")
  else .ok (frameType :: (toBe 4 payload.length ++ payload))

def readExact (n : Nat) : Read Bytes := fun stream =>
  if n ≤ stream.length then .ok (stream.take n, stream.drop n) else .error (.io "early eof")

def readFrame : Read (UInt8 × Bytes) := do
  let header ← readExact 5
  let len := ofBe header.tail
  if len > maxMessageLen then
    throw (.protocol s!"peer announced a {len} byte message, over the {maxMessageLen} byte cap")
  let payload ← readExact len
  pure (header.headD 0, payload)

def Request.readFrom (prim : Primitives) (stream : Bytes) : Except Error Request := do
  let ((frameType, payload), _) ← readFrame stream
  Request.decode prim frameType payload

def Response.writeTo (response : Response) : Except Error Bytes := writeFrame response.frameType response.encodePayload

def Response.readFrom (prim : Primitives) (stream : Bytes) : Except Error Response := do
  let ((frameType, payload), _) ← readFrame stream
  Response.decode prim frameType payload

theorem read_exact_append (b rest : Bytes) : readExact b.length (b ++ rest) = .ok (b, rest) := by
  simp [readExact]

theorem frame_reads (frameType : UInt8) (payload rest : Bytes) (small : payload.length ≤ maxMessageLen) :
    readFrame (frameType :: (toBe 4 payload.length ++ payload) ++ rest) = .ok ((frameType, payload), rest) := by
  have header : readExact 5 (frameType :: (toBe 4 payload.length ++ payload) ++ rest) =
      .ok (frameType :: toBe 4 payload.length, payload ++ rest) := by
    have split := read_exact_append (frameType :: toBe 4 payload.length) (payload ++ rest)
    rw [List.length_cons, to_be_length] at split
    simpa [List.append_assoc] using split
  have length : ofBe (frameType :: toBe 4 payload.length).tail = payload.length := by
    rw [List.tail_cons, of_be_to_be, Nat.mod_eq_of_lt]
    simp only [maxMessageLen] at small
    omega
  rw [readFrame, bind_of_ok _ _ _ _ _ header]
  beta_reduce
  rw [length, if_neg (by omega)]
  exact bind_of_ok _ _ _ _ _ (read_exact_append payload rest)

def Response.Encodable : Response → Prop
  | .answer record successor => (∀ r ∈ record, r.Encodable) ∧ ∀ r ∈ successor, r.Encodable
  | .published _ _ => True
  | .status info => info.version.utf8ByteSize < 2 ^ 16
  | .records batch _ => batch.length ≤ maxSyncBatch.toNat ∧ ∀ r ∈ batch, r.Encodable
  | .error _ message => message.utf8ByteSize < 2 ^ 16

theorem code_round_trip (code : ErrorCode) : ErrorCode.fromU16 code.toU16 = code := by
  cases code <;> rfl

theorem slot_reads (prim : Primitives) (slot : Option SignedRecord) (rest : Bytes) (fits : ∀ r ∈ slot, r.Encodable) :
    Response.decodeSlot prim (Response.encodeSlot slot ++ rest) = .ok (slot, rest) := by
  cases slot with
  | none =>
      rw [Response.encodeSlot, List.cons_append, Response.decodeSlot, bind_of_ok _ _ _ _ _ (Reader.u8_reads _ _ _)]
      rfl
  | some record =>
      rw [Response.encodeSlot, List.cons_append, Response.decodeSlot, bind_of_ok _ _ _ _ _ (Reader.u8_reads _ _ _),
        if_neg (by decide), if_pos rfl, bind_of_ok _ _ _ _ _ (signed_reads prim record (fits record rfl) rest)]
      rfl

theorem records_reads (prim : Primitives) (records : List SignedRecord) (complete : Bool) (rest : Bytes)
    (count : records.length ≤ maxSyncBatch.toNat) (fits : ∀ r ∈ records, r.Encodable) :
    Response.decodeFrom prim respRecords ((Response.records records complete).encodePayload ++ rest) =
      .ok (.records records complete, rest) := by
  have small : records.length < 2 ^ 32 := by
    have cap : maxSyncBatch.toNat = 512 := rfl
    omega
  have cast : (UInt32.ofNat records.length).toNat = records.length := UInt32.toNat_ofNat_of_lt' small
  have first := Reader.u32_reads "sync count" (UInt32.ofNat records.length)
    ((if complete then 1 else 0) :: (records.flatMap SignedRecord.encode ++ rest))
  rw [be32, cast] at first
  have loop := many_reads (SignedRecord.decodeFrom prim) SignedRecord.encode records rest
    (fun r member => signed_reads prim r (fits r member))
  rw [Response.encodePayload, List.append_assoc, List.cons_append, Response.decodeFrom, if_neg (by decide),
    if_neg (by decide), if_neg (by decide), if_pos rfl, bind_of_ok _ _ _ _ _ first, cast, if_neg (by omega)]
  beta_reduce
  rw [bind_of_ok _ _ _ _ _ (Reader.u8_reads _ _ _), bind_of_ok _ _ _ _ _ loop]
  cases complete <;> rfl

theorem response_reads (prim : Primitives) (response : Response) (fits : response.Encodable) :
    Response.decode prim response.frameType response.encodePayload = .ok response := by
  rw [Response.decode, decode_all_ok]
  rw [← List.append_nil response.encodePayload]
  cases response with
  | answer record successor =>
      rw [Response.encodePayload, List.append_assoc, Response.frameType, Response.decodeFrom, if_pos rfl,
        bind_of_ok _ _ _ _ _ (slot_reads prim record _ fits.1), bind_of_ok _ _ _ _ _ (slot_reads prim successor _ fits.2)]
      rfl
  | published serial expiresAt =>
      rw [Response.encodePayload, List.append_assoc, Response.frameType, Response.decodeFrom, if_neg (by decide),
        if_pos rfl, bind_of_ok _ _ _ _ _ (Reader.u64_reads _ _ _), bind_of_ok _ _ _ _ _ (Reader.u64_reads _ _ _)]
      rfl
  | status info =>
      simp only [Response.encodePayload, List.append_assoc]
      rw [Response.frameType, Response.decodeFrom, if_neg (by decide), if_neg (by decide), if_pos rfl,
        bind_of_ok _ _ _ _ _ (Reader.u64_reads _ _ _), bind_of_ok _ _ _ _ _ (Reader.u64_reads _ _ _),
        bind_of_ok _ _ _ _ _ (Reader.u32_reads _ _ _), bind_of_ok _ _ _ _ _ (Reader.u32_reads _ _ _),
        bind_of_ok _ _ _ _ _ (Reader.u64_reads _ _ _), bind_of_ok _ _ _ _ _ (Reader.string_reads prim _ _ _ fits)]
      rfl
  | records records complete => exact records_reads prim records complete [] fits.1 fits.2
  | error code message =>
      rw [Response.encodePayload, List.append_assoc, Response.frameType, Response.decodeFrom, if_neg (by decide),
        if_neg (by decide), if_neg (by decide), if_neg (by decide), if_pos rfl,
        bind_of_ok _ _ _ _ _ (Reader.u16_reads _ _ _), bind_of_ok _ _ _ _ _ (Reader.string_reads prim _ _ _ fits),
        code_round_trip]
      rfl

end Sqns
