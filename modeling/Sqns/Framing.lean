import Sqns.Lifetime
import Sqns.Protocol

set_option autoImplicit false

namespace Sqns

open ByteReader

section Readers

variable (prim : Primitives) (what : String)

theorem array_blind (n : Nat) : Blind (Reader.array n what) :=
  blind_of_exact _ List.Vector.toList (fun _ => True)
    (fun input rest v success => ⟨trivial, Reader.array_exact n what input rest v success⟩)
    (fun v rest _ => Reader.array_reads n what v rest)

theorem u8_blind : Blind (Reader.u8 what) := blind_bind _ _ (array_blind what 1) (fun _ => blind_pure _)

theorem u16_blind : Blind (Reader.u16 what) := blind_bind _ _ (array_blind what 2) (fun _ => blind_pure _)

theorem u32_blind : Blind (Reader.u32 what) := blind_bind _ _ (array_blind what 4) (fun _ => blind_pure _)

theorem u64_blind : Blind (Reader.u64 what) := blind_bind _ _ (array_blind what 8) (fun _ => blind_pure _)

theorem string_blind : Blind (Reader.string prim what) :=
  blind_of_exact _ putString (fun s => s.utf8ByteSize < 2 ^ 16)
    (fun input rest s success => Reader.string_exact prim what s input rest success)
    (fun s rest short => Reader.string_reads prim what s rest short)

theorem signed_blind : Blind (SignedRecord.decodeFrom prim) :=
  blind_of_exact _ SignedRecord.encode SignedRecord.Encodable
    (fun input rest s success => signed_exact prim input rest s success)
    (fun s rest fits => signed_reads prim s fits rest)

theorem slot_blind : Blind (Response.decodeSlot prim) := by
  refine blind_bind _ _ (u8_blind _) (fun presence => ?_)
  refine blind_ite _ _ _ (blind_pure _) (blind_ite _ _ _ ?_ (blind_throw _))
  exact blind_bind _ _ (signed_blind prim) (fun record => blind_pure _)

theorem request_blind (frameType : UInt8) : Blind (Request.decodeFrom prim frameType) := by
  refine blind_ite _ _ _ ?_ (blind_ite _ _ _ ?_ (blind_ite _ _ _ ?_ (blind_ite _ _ _ (blind_pure _)
    (blind_ite _ _ _ ?_ (blind_throw _)))))
  · exact blind_bind _ _ (array_blind _ 32) (fun key => blind_bind _ _ (u8_blind _) (fun recurse => blind_pure _))
  · exact blind_bind _ _ (array_blind _ 32) (fun identity => blind_pure _)
  · exact blind_bind _ _ (signed_blind prim) (fun record => blind_pure _)
  · exact blind_bind _ _ (u64_blind _) (fun since => blind_bind _ _ (u16_blind _) (fun limit => blind_pure _))

theorem response_blind (frameType : UInt8) : Blind (Response.decodeFrom prim frameType) := by
  refine blind_ite _ _ _ ?_ (blind_ite _ _ _ ?_ (blind_ite _ _ _ ?_ (blind_ite _ _ _ ?_ (blind_ite _ _ _ ?_ (blind_throw _)))))
  · exact blind_bind _ _ (slot_blind prim) (fun record => blind_bind _ _ (slot_blind prim) (fun successor => blind_pure _))
  · exact blind_bind _ _ (u64_blind _) (fun serial => blind_bind _ _ (u64_blind _) (fun expiresAt => blind_pure _))
  · refine blind_bind _ _ (u64_blind _) (fun records => blind_bind _ _ (u64_blind _) (fun cached => ?_))
    refine blind_bind _ _ (u32_blind _) (fun peers => blind_bind _ _ (u32_blind _) (fun upstreams => ?_))
    exact blind_bind _ _ (u64_blind _) (fun uptime => blind_bind _ _ (string_blind prim _) (fun version => blind_pure _))
  · refine blind_bind _ _ (u32_blind _) (fun count => ?_)
    have batch : Blind (do
        let complete ← Reader.u8 "sync complete"
        let records ← many (SignedRecord.decodeFrom prim) count.toNat
        pure (Response.records records (complete ≠ 0)) : Read Response) :=
      blind_bind _ _ (u8_blind _) (fun complete => blind_bind _ _ (blind_many _ (signed_blind prim) _) (fun records => blind_pure _))
    exact blind_ite _ _ _ (blind_bind _ _ (blind_throw _) (fun _ => batch)) batch
  · exact blind_bind _ _ (u16_blind _) (fun code => blind_bind _ _ (string_blind prim _) (fun message => blind_pure _))

end Readers

-- The records and the strings a message carries.
def Request.contents : Request → List SignedRecord
  | .publish record => [record]
  | _ => []

def Response.contents : Response → List SignedRecord
  | .answer record successor => record.toList ++ successor.toList
  | .records batch _ => batch
  | _ => []

def Response.texts : Response → List String
  | .status info => [info.version]
  | .error _ message => [message]
  | _ => []

theorem request_reads (prim : Primitives) (request : Request)
    (clamped : ∀ key recurse, request = .lookup key recurse → recurse ≤ maxRecurse)
    (fits : ∀ r ∈ request.contents, r.Encodable) :
    Request.decode prim request.frameType request.encodePayload = .ok request := by
  rw [Request.decode, decode_all_ok]
  rw [← List.append_nil request.encodePayload]
  cases request with
  | lookup key recurse =>
      have small : min recurse maxRecurse = recurse := if_pos (clamped key recurse rfl)
      rw [Request.encodePayload, List.append_assoc, Request.frameType, Request.decodeFrom, if_pos rfl,
        bind_of_ok _ _ _ _ _ (Reader.array_reads _ _ _ _)]
      change (Reader.u8 _ >>= _) (recurse :: []) = _
      rw [bind_of_ok _ _ _ _ _ (Reader.u8_reads _ _ _), small]
      rfl
  | lookupIdentity identity =>
      rw [Request.encodePayload, Request.frameType, Request.decodeFrom, if_neg (by decide), if_pos rfl,
        bind_of_ok _ _ _ _ _ (Reader.array_reads _ _ _ _)]
      rfl
  | publish record =>
      rw [Request.encodePayload, Request.frameType, Request.decodeFrom, if_neg (by decide), if_neg (by decide), if_pos rfl,
        bind_of_ok _ _ _ _ _ (signed_reads prim record (fits record (by simp [Request.contents])) [])]
      rfl
  | status =>
      rw [Request.encodePayload, Request.frameType, Request.decodeFrom, if_neg (by decide), if_neg (by decide),
        if_neg (by decide), if_pos rfl]
      rfl
  | sync since limit =>
      rw [Request.encodePayload, List.append_assoc, Request.frameType, Request.decodeFrom, if_neg (by decide),
        if_neg (by decide), if_neg (by decide), if_neg (by decide), if_pos rfl, bind_of_ok _ _ _ _ _ (Reader.u64_reads _ _ _),
        bind_of_ok _ _ _ _ _ (Reader.u16_reads _ _ _)]
      rfl

theorem response_encodable (response : Response)
    (batched : ∀ batch complete, response = .records batch complete → batch.length ≤ maxSyncBatch.toNat)
    (short : ∀ text ∈ response.texts, text.utf8ByteSize ≤ 65535) (fits : ∀ r ∈ response.contents, r.Encodable) :
    response.Encodable := by
  cases response with
  | answer record successor =>
      refine ⟨?_, ?_⟩
      · intro r member
        exact fits r (by simp [Response.contents, Option.mem_def.mp member])
      · intro r member
        exact fits r (by simp [Response.contents, Option.mem_def.mp member])
  | published serial expiresAt => trivial
  | status info =>
      have bound := short info.version (by simp [Response.texts])
      exact Nat.lt_of_le_of_lt bound (by decide)
  | records batch complete => exact ⟨batched batch complete rfl, fits⟩
  | error code message =>
      have bound := short message (by simp [Response.texts])
      exact Nat.lt_of_le_of_lt bound (by decide)

-- Neither a proper prefix nor a proper extension of a payload is taken.
def Delimited {α : Type} (decode : Bytes → Except Error α) (payload : Bytes) : Prop :=
  (∀ shorter more, payload = shorter ++ more → more ≠ [] → ∀ message, decode shorter ≠ .ok message) ∧
    ∀ more, more ≠ [] → ∀ message, decode (payload ++ more) ≠ .ok message

theorem decode_all_delimited {α : Type} (p : Read α) (what : String) (blind : Blind p) (payload : Bytes) (message : α)
    (accepted : decodeAll p what payload = .ok message) : Delimited (decodeAll p what) payload := by
  rw [decode_all_ok] at accepted
  constructor
  · intro shorter more split nonempty other taken
    rw [decode_all_ok] at taken
    rw [split] at accepted
    exact blind_delimits p blind shorter more other message nonempty taken accepted
  · intro more nonempty other taken
    rw [decode_all_ok] at taken
    exact blind_delimits p blind payload more message other nonempty accepted taken

-- What the writer puts on the stream, the reader takes off it and nothing more.
theorem framed (frameType : UInt8) (payload rest : Bytes) (small : payload.length ≤ maxMessageLen) :
    ∃ frame, writeFrame frameType payload = .ok frame ∧ readFrame (frame ++ rest) = .ok ((frameType, payload), rest) :=
  ⟨_, if_neg (Nat.not_lt.mpr small), frame_reads frameType payload rest small⟩

theorem messages_survive_framing (prim : Primitives) :
    (∀ (request : Request) (rest : Bytes), (∀ key recurse, request = .lookup key recurse → recurse ≤ maxRecurse) →
      (∀ r ∈ request.contents, ∃ input, SignedRecord.decode prim input = .ok r) →
      request.encodePayload.length ≤ maxMessageLen →
      (∃ frame, writeFrame request.frameType request.encodePayload = .ok frame ∧
        readFrame (frame ++ rest) = .ok ((request.frameType, request.encodePayload), rest)) ∧
      Request.decode prim request.frameType request.encodePayload = .ok request) ∧
    (∀ (response : Response) (rest : Bytes),
      (∀ batch complete, response = .records batch complete → batch.length ≤ maxSyncBatch.toNat) →
      (∀ text ∈ response.texts, text.utf8ByteSize ≤ 65535) →
      (∀ r ∈ response.contents, ∃ input, SignedRecord.decode prim input = .ok r) →
      response.encodePayload.length ≤ maxMessageLen →
      (∃ frame, writeFrame response.frameType response.encodePayload = .ok frame ∧
        readFrame (frame ++ rest) = .ok ((response.frameType, response.encodePayload), rest)) ∧
      Response.decode prim response.frameType response.encodePayload = .ok response) ∧
    (∀ frameType payload request, Request.decode prim frameType payload = .ok request →
      Delimited (Request.decode prim frameType) payload) ∧
    ∀ frameType payload response, Response.decode prim frameType payload = .ok response →
      Delimited (Response.decode prim frameType) payload := by
  refine ⟨?_, ?_, ?_, ?_⟩
  · intro request rest clamped decoded small
    refine ⟨framed _ _ rest small, request_reads prim request clamped ?_⟩
    intro r member
    exact (wire_iff_encodable prim r).mp (decoded r member)
  · intro response rest batched short decoded small
    refine ⟨framed _ _ rest small, response_reads prim response (response_encodable response batched short ?_)⟩
    intro r member
    exact (wire_iff_encodable prim r).mp (decoded r member)
  · intro frameType payload request accepted
    exact decode_all_delimited _ _ (request_blind prim frameType) payload request accepted
  · intro frameType payload response accepted
    exact decode_all_delimited _ _ (response_blind prim frameType) payload response accepted

open Sample in
theorem publish_survives_framing :
    (∃ frame, writeFrame reqPublish publish.encode = .ok frame ∧
      readFrame (frame ++ [7]) = .ok ((reqPublish, publish.encode), [7])) ∧
    Request.decode ed25519 reqPublish publish.encode = .ok (.publish publish) ∧
    ∀ more, more ≠ [] → ∀ message, Request.decode ed25519 reqPublish (publish.encode ++ more) ≠ .ok message := by
  obtain ⟨requests, _, delimited, _⟩ := messages_survive_framing ed25519
  obtain ⟨sent, decoded⟩ := requests (.publish publish) [7] (fun _ _ same => by cases same) (by
    intro r member
    cases List.mem_singleton.mp member
    exact (wire publish (by simp [known])).decoded) (by decide +kernel)
  exact ⟨sent, decoded, (delimited reqPublish publish.encode _ decoded).2⟩

end Sqns
