import Sqns.Concurrent
import Sqns.Framing
import Sqns.Lib.Simulation
import Sqns.Server

set_option autoImplicit false

namespace Sqns

open ByteReader Store Trace

theorem read_exact_exact (n : Nat) (input b rest : Bytes) (success : readExact n input = .ok (b, rest)) :
    b.length = n ∧ input = b ++ rest := by
  unfold readExact at success
  split at success
  · rename_i enough
    cases success
    exact ⟨List.length_take_of_le enough, (List.take_append_drop n input).symm⟩
  · cases success

theorem frame_exact (frameType : UInt8) (payload input rest : Bytes) :
    readFrame input = .ok ((frameType, payload), rest) ↔
      ∃ frame, writeFrame frameType payload = .ok frame ∧ input = frame ++ rest := by
  apply Iff.intro
  · intro success
    obtain ⟨header, body, first, second⟩ := (bind_ok _ _ _ _ _).mp success
    obtain ⟨five, split⟩ := read_exact_exact 5 input header body first
    obtain ⟨kind, size, rfl⟩ : ∃ kind size, header = kind :: size := List.exists_cons_of_length_eq_add_one five
    have four : size.length = 4 := by simpa using five
    rw [List.tail_cons] at second
    split at second
    · obtain ⟨_, _, thrown, _⟩ := (bind_ok _ _ _ _ _).mp second
      exact absurd thrown (by simp [throw_ok])
    · rename_i small
      obtain ⟨taken, last, third, final⟩ := (bind_ok _ _ _ _ _).mp second
      obtain ⟨same, rfl⟩ := (pure_ok _ _ _ _).mp final
      obtain ⟨length, parts⟩ := read_exact_exact _ body taken last third
      cases same
      refine ⟨kind :: (toBe 4 payload.length ++ payload), if_neg (length ▸ small), ?_⟩
      rw [length, ← four, to_be_of_be, split, parts]
      simp
  · rintro ⟨frame, written, rfl⟩
    unfold writeFrame at written
    split at written
    · cases written
    · rename_i small
      cases written
      exact frame_reads frameType payload rest (Nat.le_of_not_gt small)

section Requests

def Request.writeTo (request : Request) : Except Error Bytes := writeFrame request.frameType request.encodePayload

-- Reading a lookup cuts its budget down to what a server spends at most.
def Request.clamped : Request → Request
  | .lookup key recurse => .lookup key (min recurse maxRecurse)
  | request => request

theorem request_decode_exact (prim : Primitives) (frameType : UInt8) (payload : Bytes) (request : Request)
    (success : Request.decode prim frameType payload = .ok request) :
    ∃ sent : Request, request = sent.clamped ∧ (∀ r ∈ sent.contents, r.Encodable) ∧ frameType = sent.frameType ∧
      payload = sent.encodePayload := by
  rw [Request.decode, decode_all_ok] at success
  unfold Request.decodeFrom at success
  split_ifs at success with lookup identities publish status sync
  · obtain ⟨key, mid, first, second⟩ := (bind_ok _ _ _ _ _).mp success
    obtain ⟨recurse, last, third, final⟩ := (bind_ok _ _ _ _ _).mp second
    obtain ⟨rfl, rfl⟩ := (pure_ok _ _ _ _).mp final
    refine ⟨.lookup ⟨key⟩ recurse, rfl, by simp [Request.contents], lookup, ?_⟩
    rw [Reader.array_exact _ _ _ _ _ first, Reader.u8_exact _ _ _ _ third]
    rfl
  · obtain ⟨identity, mid, first, final⟩ := (bind_ok _ _ _ _ _).mp success
    obtain ⟨rfl, rfl⟩ := (pure_ok _ _ _ _).mp final
    refine ⟨.lookupIdentity ⟨identity⟩, rfl, by simp [Request.contents], identities, ?_⟩
    rw [Reader.array_exact _ _ _ _ _ first, List.append_nil]
    rfl
  · obtain ⟨record, mid, first, final⟩ := (bind_ok _ _ _ _ _).mp success
    obtain ⟨rfl, rfl⟩ := (pure_ok _ _ _ _).mp final
    obtain ⟨fits, bytes⟩ := signed_exact prim _ _ _ first
    refine ⟨.publish record, rfl, by simpa [Request.contents] using fits, publish, ?_⟩
    rw [bytes, List.append_nil]
    rfl
  · obtain ⟨rfl, same⟩ := (pure_ok _ _ _ _).mp success
    exact ⟨.status, rfl, by simp [Request.contents], status, same⟩
  · obtain ⟨since, mid, first, second⟩ := (bind_ok _ _ _ _ _).mp success
    obtain ⟨limit, last, third, final⟩ := (bind_ok _ _ _ _ _).mp second
    obtain ⟨rfl, rfl⟩ := (pure_ok _ _ _ _).mp final
    refine ⟨.sync since limit, rfl, by simp [Request.contents], sync, ?_⟩
    rw [Reader.u64_exact _ _ _ _ first, Reader.u16_exact _ _ _ _ third, List.append_nil]
    rfl
  · exact absurd success (throw_ok _ _ _ _)

theorem request_clamped_reads (prim : Primitives) (sent : Request) (fits : ∀ r ∈ sent.contents, r.Encodable) :
    Request.decode prim sent.frameType sent.encodePayload = .ok sent.clamped := by
  cases sent with
  | lookup key recurse =>
      rw [Request.decode, decode_all_ok, Request.encodePayload, Request.frameType, Request.decodeFrom, if_pos rfl,
        bind_of_ok _ _ _ _ _ (Reader.array_reads _ _ _ _), bind_of_ok _ _ _ _ _ (Reader.u8_reads _ _ _)]
      rfl
  | lookupIdentity identity => exact request_reads prim _ (fun _ _ same => by cases same) fits
  | publish record => exact request_reads prim _ (fun _ _ same => by cases same) fits
  | status => exact request_reads prim _ (fun _ _ same => by cases same) fits
  | sync since limit => exact request_reads prim _ (fun _ _ same => by cases same) fits

theorem request_read_iff (prim : Primitives) (input : Bytes) (request : Request) :
    Request.readFrom prim input = .ok request ↔
      ∃ (sent : Request) (frame rest : Bytes), request = sent.clamped ∧ (∀ r ∈ sent.contents, r.Encodable) ∧
        sent.writeTo = .ok frame ∧ input = frame ++ rest := by
  unfold Request.readFrom
  apply Iff.intro
  · intro success
    cases read : readFrame input with
    | error e =>
        rw [read] at success
        cases success
    | ok framed =>
        obtain ⟨⟨frameType, payload⟩, rest⟩ := framed
        rw [read] at success
        obtain ⟨sent, same, fits, rfl, rfl⟩ := request_decode_exact prim frameType payload request success
        obtain ⟨frame, written, split⟩ := (frame_exact _ _ _ _).mp read
        exact ⟨sent, frame, rest, same, fits, written, split⟩
  · rintro ⟨sent, frame, rest, rfl, fits, written, split⟩
    rw [(frame_exact sent.frameType sent.encodePayload input rest).mpr ⟨frame, written, split⟩]
    exact request_clamped_reads prim sent fits

end Requests

section Responses

-- What a response is read from, which is not only what it is written as: every
-- byte but zero says that a batch is complete, and a code the reader does not
-- know counts as internal.
inductive Response.Spelled : Response → Bytes → Prop where
  | answer (record successor : Option SignedRecord) (fits : ∀ r ∈ record.toList ++ successor.toList, r.Encodable) :
      Spelled (.answer record successor) (Response.answer record successor).encodePayload
  | published (serial expiresAt : UInt64) : Spelled (.published serial expiresAt)
      (Response.published serial expiresAt).encodePayload
  | status (info : StatusInfo) (short : info.version.utf8ByteSize < 2 ^ 16) :
      Spelled (.status info) (Response.status info).encodePayload
  | records (batch : List SignedRecord) (few : batch.length ≤ maxSyncBatch.toNat) (fits : ∀ r ∈ batch, r.Encodable)
      (byte : UInt8) :
      Spelled (.records batch (byte ≠ 0)) (toBe 4 batch.length ++ byte :: batch.flatMap SignedRecord.encode)
  | error (code : UInt16) (message : String) (short : message.utf8ByteSize < 2 ^ 16) :
      Spelled (.error (ErrorCode.fromU16 code) message) (be16 code ++ putString message)

theorem encodable_spelled (response : Response) (fits : response.Encodable) : response.Spelled response.encodePayload := by
  cases response with
  | answer record successor =>
      refine .answer record successor ?_
      intro r member
      rcases List.mem_append.mp member with inRecord | inSuccessor
      · exact fits.1 r (Option.mem_toList.mp inRecord)
      · exact fits.2 r (Option.mem_toList.mp inSuccessor)
  | published serial expiresAt => exact .published serial expiresAt
  | status info => exact .status info fits
  | records batch complete =>
      cases complete with
      | false => exact .records batch fits.1 fits.2 0
      | true => exact .records batch fits.1 fits.2 1
  | error code message =>
      have spelled := Response.Spelled.error code.toU16 message fits
      rwa [code_round_trip] at spelled

theorem slot_exact (prim : Primitives) (slot : Option SignedRecord) (input rest : Bytes)
    (success : Response.decodeSlot prim input = .ok (slot, rest)) :
    (∀ r ∈ slot.toList, r.Encodable) ∧ input = Response.encodeSlot slot ++ rest := by
  obtain ⟨presence, mid, first, second⟩ := (bind_ok _ _ _ _ _).mp success
  rw [Reader.u8_exact _ _ _ _ first]
  split_ifs at second with absent present
  · obtain ⟨rfl, rfl⟩ := (pure_ok _ _ _ _).mp second
    exact ⟨by simp, by rw [absent]; rfl⟩
  · obtain ⟨record, last, third, final⟩ := (bind_ok _ _ _ _ _).mp second
    obtain ⟨rfl, rfl⟩ := (pure_ok _ _ _ _).mp final
    obtain ⟨fits, bytes⟩ := signed_exact prim _ _ _ third
    exact ⟨by simpa using fits, by rw [present, bytes]; rfl⟩
  · exact absurd second (throw_ok _ _ _ _)

theorem response_decode_exact (prim : Primitives) (frameType : UInt8) (payload : Bytes) (response : Response)
    (success : Response.decode prim frameType payload = .ok response) :
    response.Spelled payload ∧ frameType = response.frameType := by
  rw [Response.decode, decode_all_ok] at success
  unfold Response.decodeFrom at success
  split_ifs at success with answer published status records error
  · obtain ⟨record, mid, first, second⟩ := (bind_ok _ _ _ _ _).mp success
    obtain ⟨successor, last, third, final⟩ := (bind_ok _ _ _ _ _).mp second
    obtain ⟨rfl, rfl⟩ := (pure_ok _ _ _ _).mp final
    obtain ⟨fits, bytes⟩ := slot_exact prim _ _ _ first
    obtain ⟨fits', bytes'⟩ := slot_exact prim _ _ _ third
    refine ⟨?_, answer⟩
    rw [bytes, bytes', List.append_nil]
    refine .answer record successor ?_
    intro r member
    exact (List.mem_append.mp member).elim (fits r) (fits' r)
  · obtain ⟨serial, mid, first, second⟩ := (bind_ok _ _ _ _ _).mp success
    obtain ⟨expiresAt, last, third, final⟩ := (bind_ok _ _ _ _ _).mp second
    obtain ⟨rfl, rfl⟩ := (pure_ok _ _ _ _).mp final
    refine ⟨?_, published⟩
    rw [Reader.u64_exact _ _ _ _ first, Reader.u64_exact _ _ _ _ third, List.append_nil]
    exact .published serial expiresAt
  · obtain ⟨records, m₁, first, success⟩ := (bind_ok _ _ _ _ _).mp success
    obtain ⟨cached, m₂, second, success⟩ := (bind_ok _ _ _ _ _).mp success
    obtain ⟨peers, m₃, third, success⟩ := (bind_ok _ _ _ _ _).mp success
    obtain ⟨upstreams, m₄, fourth, success⟩ := (bind_ok _ _ _ _ _).mp success
    obtain ⟨uptimeSecs, m₅, fifth, success⟩ := (bind_ok _ _ _ _ _).mp success
    obtain ⟨version, m₆, sixth, final⟩ := (bind_ok _ _ _ _ _).mp success
    obtain ⟨rfl, rfl⟩ := (pure_ok _ _ _ _).mp final
    obtain ⟨short, bytes⟩ := Reader.string_exact prim _ _ _ _ sixth
    refine ⟨?_, status⟩
    rw [Reader.u64_exact _ _ _ _ first, Reader.u64_exact _ _ _ _ second, Reader.u32_exact _ _ _ _ third,
      Reader.u32_exact _ _ _ _ fourth, Reader.u64_exact _ _ _ _ fifth, bytes]
    simpa only [Response.encodePayload, List.append_assoc, List.append_nil] using
      Response.Spelled.status ⟨records, cached, peers, upstreams, uptimeSecs, version⟩ short
  · obtain ⟨count, m₁, first, success⟩ := (bind_ok _ _ _ _ _).mp success
    split at success
    · obtain ⟨_, _, thrown, _⟩ := (bind_ok _ _ _ _ _).mp success
      exact absurd thrown (throw_ok _ _ _ _)
    · rename_i few
      obtain ⟨complete, m₂, second, success⟩ := (bind_ok _ _ _ _ _).mp success
      obtain ⟨batch, m₃, third, final⟩ := (bind_ok _ _ _ _ _).mp success
      obtain ⟨rfl, rfl⟩ := (pure_ok _ _ _ _).mp final
      obtain ⟨length, bytes⟩ := many_exact _ SignedRecord.encode _ _ _ _
        (fun source r after read => (signed_exact prim _ _ _ read).2) third
      have fits := many_forall _ SignedRecord.Encodable _ _ _ _
        (fun source r after read => (signed_exact prim _ _ _ read).1) third
      refine ⟨?_, records⟩
      rw [Reader.u32_exact _ _ _ _ first, Reader.u8_exact _ _ _ _ second, bytes, be32, ← length, List.append_nil]
      exact .records batch (length ▸ Nat.le_of_not_gt few) fits complete
  · obtain ⟨code, mid, first, second⟩ := (bind_ok _ _ _ _ _).mp success
    obtain ⟨message, last, third, final⟩ := (bind_ok _ _ _ _ _).mp second
    obtain ⟨rfl, rfl⟩ := (pure_ok _ _ _ _).mp final
    obtain ⟨short, bytes⟩ := Reader.string_exact prim _ _ _ _ third
    refine ⟨?_, error⟩
    rw [Reader.u16_exact _ _ _ _ first, bytes, List.append_nil]
    exact .error code message short
  · exact absurd success (throw_ok _ _ _ _)

theorem response_decode_iff (prim : Primitives) (frameType : UInt8) (payload : Bytes) (response : Response) :
    Response.decode prim frameType payload = .ok response ↔ response.Spelled payload ∧ frameType = response.frameType := by
  apply Iff.intro
  · exact response_decode_exact prim frameType payload response
  · rintro ⟨spelled, rfl⟩
    cases spelled with
    | answer record successor fits =>
        refine response_reads prim _ ⟨?_, ?_⟩
        · intro r member
          exact fits r (List.mem_append_left _ (Option.mem_toList.mpr member))
        · intro r member
          exact fits r (List.mem_append_right _ (Option.mem_toList.mpr member))
    | published serial expiresAt => exact response_reads prim (.published serial expiresAt) trivial
    | status info short => exact response_reads prim (.status info) short
    | records batch few fits byte =>
        have cast : (UInt32.ofNat batch.length).toNat = batch.length := by
          have cap : maxSyncBatch.toNat = 512 := rfl
          exact UInt32.toNat_ofNat_of_lt' (by simp only [UInt32.size]; omega)
        have first := Reader.u32_reads "sync count" (UInt32.ofNat batch.length) (byte :: batch.flatMap SignedRecord.encode)
        rw [be32, cast] at first
        have loop := many_reads (SignedRecord.decodeFrom prim) SignedRecord.encode batch []
          (fun r member => signed_reads prim r (fits r member))
        rw [List.append_nil] at loop
        rw [Response.decode, decode_all_ok, Response.frameType, Response.decodeFrom, if_neg (by decide), if_neg (by decide),
          if_neg (by decide), if_pos rfl, bind_of_ok _ _ _ _ _ first, cast, if_neg (by omega)]
        beta_reduce
        rw [bind_of_ok _ _ _ _ _ (Reader.u8_reads _ _ _), bind_of_ok _ _ _ _ _ loop]
        rfl
    | error code message short =>
        have text := Reader.string_reads prim "error message" message [] short
        rw [List.append_nil] at text
        rw [Response.decode, decode_all_ok, Response.frameType, Response.decodeFrom, if_neg (by decide), if_neg (by decide),
          if_neg (by decide), if_neg (by decide), if_pos rfl, bind_of_ok _ _ _ _ _ (Reader.u16_reads _ _ _),
          bind_of_ok _ _ _ _ _ text]
        rfl

theorem response_read_iff (prim : Primitives) (input : Bytes) (response : Response) :
    Response.readFrom prim input = .ok response ↔
      ∃ payload frame rest : Bytes, response.Spelled payload ∧ writeFrame response.frameType payload = .ok frame ∧
        input = frame ++ rest := by
  unfold Response.readFrom
  apply Iff.intro
  · intro success
    cases read : readFrame input with
    | error e =>
        rw [read] at success
        cases success
    | ok framed =>
        obtain ⟨⟨frameType, payload⟩, rest⟩ := framed
        rw [read] at success
        obtain ⟨spelled, rfl⟩ := (response_decode_iff prim frameType payload response).mp success
        obtain ⟨frame, written, split⟩ := (frame_exact _ _ _ _).mp read
        exact ⟨payload, frame, rest, spelled, written, split⟩
  · rintro ⟨payload, frame, rest, spelled, written, split⟩
    rw [(frame_exact response.frameType payload input rest).mpr ⟨frame, written, split⟩]
    exact (response_decode_iff prim _ _ _).mpr ⟨spelled, rfl⟩

end Responses

-- Whatever is read was written by somebody, up to what a reader lets pass.
theorem messages_read_exactly (prim : Primitives) (input : Bytes) :
    (∀ request, Request.readFrom prim input = .ok request ↔
      ∃ (sent : Request) (frame rest : Bytes), request = sent.clamped ∧ (∀ r ∈ sent.contents, r.Encodable) ∧
        sent.writeTo = .ok frame ∧ input = frame ++ rest) ∧
    ∀ response, Response.readFrom prim input = .ok response ↔
      ∃ payload frame rest : Bytes, response.Spelled payload ∧ writeFrame response.frameType payload = .ok frame ∧
        input = frame ++ rest :=
  ⟨request_read_iff prim input, response_read_iff prim input⟩

section Serving

variable (prim : Primitives) (relay : PubKey → UInt8 → Except Error (Option Relayed)) (uptimeSecs : UInt64)

-- One stream of a connection, in `serve_connection`.
def Server.serveStream (server : Server) (now : Nat) (input : Bytes) : Handled :=
  match Request.readFrom prim input with
  | .ok request => server.handle prim relay now uptimeSecs request
  | .error e => ⟨.error .malformed e.toText, server.store, none⟩

-- A reply that cannot be written leaves the stream empty.
def Response.onStream (response : Response) : Bytes :=
  match response.writeTo with
  | .ok frame => frame
  | .error _ => []

-- `exchange`, with the server at the other end of the connection.
def Server.exchange (server : Server) (now : Nat) (request : Request) : Except Error Response × Store :=
  match request.writeTo with
  | .error e => (.error e, server.store)
  | .ok frame =>
      let handled := server.serveStream prim relay uptimeSecs now frame
      (Response.readFrom prim handled.response.onStream, handled.store)

-- Each stream of each connection is served by a task of its own. `core.pending`
-- holds the puts that have stored their record and still have to bind its key.
structure StreamState where
  now : Nat
  core : Concurrent.State

inductive StreamEvent where
  | tick (later : Nat)
  | stream (input reply : Bytes)
  | finish (record : SignedRecord)
  | purge
  | reopen

-- What a stream does to the store while it holds the records lock. By then it is
-- settled what the sender will read, though a Publish binds the key before it replies.
def receive (s : StreamState) (input : Bytes) : Concurrent.State :=
  match Request.readFrom prim input with
  | .ok (.publish record) => Concurrent.enter prim s.core record s.now
  | _ => s.core

-- A server to which anybody sends any bytes, on any number of connections.
inductive StreamStep : StreamState → StreamEvent → StreamState → Prop where
  | tick (s : StreamState) (later : Nat) (forward : s.now ≤ later) : StreamStep s (.tick later) { s with now := later }
  | stream (s : StreamState) (server : Server) (same : server.store = s.core.store)
      (relay : PubKey → UInt8 → Except Error (Option Relayed)) (uptimeSecs : UInt64) (input : Bytes) :
      StreamStep s (.stream input (server.serveStream prim relay uptimeSecs s.now input).response.onStream)
        { s with core := receive prim s input }
  | finish (s : StreamState) (record : SignedRecord) (waiting : record ∈ s.core.pending) :
      StreamStep s (.finish record) { s with core := Concurrent.leave s.core record }
  | purge (s : StreamState) :
      StreamStep s .purge { s with core := ⟨(s.core.store.purgeExpired s.now).2, s.core.pending⟩ }
  | reopen (s : StreamState) (idle : s.core.pending = 0) (items : List (PubKey × SignedRecord))
      (order : Finmap.Iterates items s.core.store.records) (recordCount : s.core.store.records.keys.card < 2 ^ 32)
      (bindingCount : s.core.store.bindings.keys.card < 2 ^ 32) :
      StreamStep s .reopen { s with core := ⟨s.core.store.reopen prim items s.now, 0⟩ }

-- A Publish is taken for a key that another one, under another identity, has been
-- taken for and not bound yet.
def Crosses (move : Transition StreamState StreamEvent) : Prop :=
  ∃ input reply record, move.label = .stream input reply ∧ Request.readFrom prim input = .ok (.publish record) ∧
    Concurrent.Races prim ⟨move.pre.core, .lock record move.pre.now, move.post.core⟩

def acknowledges (reply : Bytes) : Bool :=
  match Response.readFrom prim reply with
  | .ok (.published _ _) => true
  | _ => false

-- The records that reach the store, and whether it took them.
def delivered (move : Transition World (Event prim)) : List (SignedRecord × Bool) :=
  match move.label with
  | .put x result => [(x.signed, decide (result = .ok .stored))]
  | _ => []

-- The records that come in over streams, and whether the sender hears so.
def carried (move : Transition StreamState StreamEvent) : List (SignedRecord × Bool) :=
  match move.label with
  | .stream input reply =>
      match Request.readFrom prim input with
      | .ok (.publish record) => [(record, acknowledges prim reply)]
      | _ => []
  | _ => []

theorem on_stream_type (response read : Response) (success : Response.readFrom prim response.onStream = .ok read) :
    read.frameType = response.frameType := by
  obtain ⟨payload, frame, rest, _, written, split⟩ := (response_read_iff prim _ read).mp success
  have other := (frame_exact read.frameType payload _ rest).mpr ⟨frame, written, split⟩
  cases sent : response.writeTo with
  | error e =>
      rw [Response.onStream, sent] at other
      cases other
  | ok bytes =>
      rw [Response.onStream, sent, (frame_exact response.frameType response.encodePayload bytes []).mpr
        ⟨bytes, sent, (List.append_nil bytes).symm⟩, Except.ok.injEq, Prod.mk.injEq, Prod.mk.injEq] at other
      exact other.1.1.symm

theorem on_stream_reads (response : Response) (fits : response.Encodable)
    (small : response.encodePayload.length ≤ maxMessageLen) :
    Response.readFrom prim response.onStream = .ok response := by
  obtain ⟨frame, written, _⟩ := framed response.frameType response.encodePayload [] small
  have sent : response.onStream = frame := by
    rw [Response.onStream, Response.writeTo, written]
  rw [sent]
  exact (response_read_iff prim frame response).mpr
    ⟨_, frame, [], encodable_spelled response fits, written, (List.append_nil frame).symm⟩

theorem published_type (response : Response) :
    respPublished = response.frameType ↔ ∃ serial expiresAt, response = .published serial expiresAt := by
  cases response with
  | answer record successor => exact iff_of_false (of_decide_eq_false rfl) (by simp)
  | published serial expiresAt => exact iff_of_true rfl ⟨serial, expiresAt, rfl⟩
  | status info => exact iff_of_false (of_decide_eq_false rfl) (by simp)
  | records batch complete => exact iff_of_false (of_decide_eq_false rfl) (by simp)
  | error code message => exact iff_of_false (of_decide_eq_false rfl) (by simp)

theorem acknowledges_iff (response : Response) :
    acknowledges prim response.onStream = true ↔ ∃ serial expiresAt, response = .published serial expiresAt := by
  apply Iff.intro
  · intro acknowledged
    unfold acknowledges at acknowledged
    split at acknowledged
    · rename_i serial expiresAt read
      have kind := on_stream_type prim response _ read
      exact (published_type response).mp kind
    · cases acknowledged
  · rintro ⟨serial, expiresAt, rfl⟩
    have read := on_stream_reads prim (.published serial expiresAt) trivial (by simp [Response.encodePayload, maxMessageLen])
    rw [acknowledges, read]

theorem publish_acknowledged (server : Server) (record : SignedRecord) (now : Nat) :
    (server.handlePublish prim record now).store = (server.store.put prim record now).2 ∧
      acknowledges prim (server.handlePublish prim record now).response.onStream =
        decide ((server.store.put prim record now).1 = .ok .stored) := by
  rw [Bool.eq_iff_iff, acknowledges_iff, decide_eq_true_iff, Server.handlePublish]
  split
  · rename_i store put
    rw [put]
    simp
  · rename_i store put
    rw [put]
    simp
  · rename_i e store put
    rw [put]
    simp

theorem publish_read_encodable (input : Bytes) (record : SignedRecord)
    (read : Request.readFrom prim input = .ok (.publish record)) :
    record.Encodable ∧ ∃ frame rest, Request.writeTo (.publish record) = .ok frame ∧ input = frame ++ rest := by
  obtain ⟨sent, frame, rest, clamped, fits, written, split⟩ := (request_read_iff prim input _).mp read
  cases sent with
  | publish other =>
      cases clamped
      exact ⟨fits record (by simp [Request.contents]), frame, rest, written, split⟩
  | lookup key recurse => cases clamped
  | lookupIdentity identity => cases clamped
  | status => cases clamped
  | sync since limit => cases clamped

-- Only a Publish changes the store.
theorem serve_stream_quiet (server : Server) (now : Nat) (input : Bytes)
    (other : ∀ record, Request.readFrom prim input ≠ .ok (.publish record)) :
    (server.serveStream prim relay uptimeSecs now input).store = server.store := by
  unfold Server.serveStream
  cases read : Request.readFrom prim input with
  | error e => rfl
  | ok request =>
      cases request with
      | publish record => exact absurd read (other record)
      | lookup key recurse => rfl
      | lookupIdentity identity => rfl
      | status => rfl
      | sync since limit =>
          simp only [Server.handle]
          split
          · rfl
          · rfl

theorem mem_carried_iff (move : Transition StreamState StreamEvent) (record : SignedRecord) (taken : Bool) :
    (record, taken) ∈ carried prim move ↔ ∃ input reply, move.label = .stream input reply ∧
      Request.readFrom prim input = .ok (.publish record) ∧ taken = acknowledges prim reply := by
  unfold carried
  split
  · rename_i input reply label
    split
    · rename_i other read
      rw [label]
      grind
    · rename_i other
      rw [label]
      grind
  · rename_i label
    grind

-- The store as it would be had every put been finished where it began.
structure Serialised (s : StreamState) (w : World) : Prop where
  clock : w.now = s.now
  sound : Sound prim w
  agreed : Concurrent.Agreed s.core
  records : w.store.records = s.core.store.records
  claims : ∀ k i, w.store.bindings.lookup k = some i ↔ Concurrent.Claims s.core k i

theorem serialised_idle (s : StreamState) (w : World) (serialised : Serialised prim s w) (idle : s.core.pending = 0) :
    w.store.bindings = s.core.store.bindings ∧ w.store.identityIndex = s.core.store.identityIndex := by
  have bindings : w.store.bindings = s.core.store.bindings := by
    apply Finmap.ext_lookup
    intro k
    apply Option.ext
    intro i
    rw [serialised.claims]
    simp [Concurrent.Claims, idle]
  exact ⟨bindings, linked_index_eq w.store s.core.store serialised.sound.consistent.toLinked serialised.agreed.linked bindings⟩

-- The pending puts are all that a put does not look at, and without a race none of
-- them is about its key under another identity.
theorem serialised_accepted_iff (s : StreamState) (w : World) (serialised : Serialised prim s w) (record : SignedRecord)
    (alone : Accepted prim s.core.store record s.now →
      ∀ other ∈ s.core.pending, other.key = record.key → other.identity = record.identity) :
    Accepted prim w.store record w.now ↔ Accepted prim s.core.store record s.now := by
  rw [serialised.clock]
  apply Iff.intro
  · intro accepted
    refine ⟨accepted.admitted, ?_, serialised.records ▸ accepted.newer⟩
    intro bound found
    exact accepted.pinned bound ((serialised.claims record.key bound).mpr (.inl found))
  · intro accepted
    refine ⟨accepted.admitted, ?_, serialised.records ▸ accepted.newer⟩
    intro bound found
    rcases (serialised.claims record.key bound).mp found with here | ⟨other, waiting, here, identity⟩
    · exact accepted.pinned bound here
    · exact (alone accepted other waiting here).symm.trans identity

theorem serialised_enters (s : StreamState) (w : World) (serialised : Serialised prim s w) (record : SignedRecord)
    (encodable : record.Encodable)
    (calm : ¬ Concurrent.Races prim ⟨s.core, .lock record s.now, Concurrent.enter prim s.core record s.now⟩) :
    Serialised prim { s with core := Concurrent.enter prim s.core record s.now }
        { w with store := (w.store.put prim record w.now).2 } ∧
      ((w.store.put prim record w.now).1 = .ok .stored ↔ (s.core.store.put prim record s.now).1 = .ok .stored) := by
  have alone : Accepted prim s.core.store record s.now →
      ∀ other ∈ s.core.pending, other.key = record.key → other.identity = record.identity := by
    intro accepted other waiting here
    by_contra different
    exact calm ⟨accepted, other, waiting, here, different⟩
  have same := serialised_accepted_iff prim s w serialised record alone
  refine ⟨?_, by rw [put_stored_iff, put_stored_iff, same]⟩
  have sound := step_sound prim _ _ _ (.put w ⟨record, (wire_iff_encodable prim record).mpr encodable⟩) serialised.sound
  have agreed := Concurrent.step_agreed prim _ _ _ (.lock s.core record s.now) calm serialised.agreed
  rcases Concurrent.enter_cases prim s.core record s.now with ⟨refused, unchanged⟩ | ⟨accepted, inserted⟩
  · have kept : (w.store.put prim record w.now).2 = w.store :=
      put_refused prim w.store record w.now (fun ok => refused (same.mp ok))
    rw [unchanged, kept]
    exact serialised
  · have accepted := same.mpr accepted
    rw [inserted] at agreed ⊢
    rw [put_accepted prim w.store record w.now accepted] at sound ⊢
    refine ⟨serialised.clock, sound, agreed, ?_, ?_⟩
    · exact congrArg (fun records => records.insert record.key record) serialised.records
    · intro k i
      rw [Concurrent.inserted_claims, ← serialised.claims, accept_bound w.store record k accepted.pinned]
      by_cases here : k = record.key
      · rw [if_pos here, Option.some.injEq]
        apply Iff.intro
        · intro own
          exact .inr ⟨here, own.symm⟩
        · intro claims
          rcases claims with bound | ⟨_, own⟩
          · exact accepted.pinned i (here ▸ bound)
          · exact own.symm
      · simp [here]

theorem serialised_leaves (s : StreamState) (w : World) (serialised : Serialised prim s w) (record : SignedRecord)
    (waiting : record ∈ s.core.pending) : Serialised prim { s with core := Concurrent.leave s.core record } w := by
  refine ⟨serialised.clock, serialised.sound, Concurrent.finished_agreed s.core record serialised.agreed waiting,
    serialised.records, ?_⟩
  intro k i
  rw [serialised.claims, Concurrent.finished_claims s.core record k i serialised.agreed waiting]

theorem serialised_sweeps (s : StreamState) (w : World) (serialised : Serialised prim s w) :
    Serialised prim { s with core := ⟨(s.core.store.purgeExpired s.now).2, s.core.pending⟩ }
      { w with store := (w.store.purgeExpired w.now).2 } := by
  refine ⟨serialised.clock, step_sound prim _ _ _ (.purge w) serialised.sound,
    Concurrent.swept_agreed s.core s.now serialised.agreed, ?_, serialised.claims⟩
  simp only [purgeExpired, serialised.records, serialised.clock]

theorem serialised_restarts (s : StreamState) (w : World) (serialised : Serialised prim s w) (idle : s.core.pending = 0)
    (items : List (PubKey × SignedRecord)) (order : Finmap.Iterates items s.core.store.records)
    (recordCount : s.core.store.records.keys.card < 2 ^ 32) (bindingCount : s.core.store.bindings.keys.card < 2 ^ 32) :
    ∃ w', Step prim w .reopen w' ∧ Serialised prim { s with core := ⟨s.core.store.reopen prim items s.now, 0⟩ } w' := by
  have bindings := (serialised_idle prim s w serialised idle).1
  have step : Step prim w .reopen _ := .reopen w items (serialised.records ▸ order) (serialised.records ▸ recordCount)
    (bindings ▸ bindingCount)
  have sound := step_sound prim _ _ _ step serialised.sound
  have opened : w.store.reopen prim items w.now = s.core.store.reopen prim items s.now := by
    rw [Store.reopen, Store.reopen, bindings, serialised.clock]
  rw [opened] at step sound
  refine ⟨_, step, serialised.clock, sound, Concurrent.settled_agreed prim _ sound.consistent, rfl, ?_⟩
  intro k i
  simp [Concurrent.Claims]

theorem stream_step_matched (s s' : StreamState) (e : StreamEvent) (w : World) (step : StreamStep prim s e s')
    (calm : ¬ Crosses prim ⟨s, e, s'⟩) (serialised : Serialised prim s w) :
    ∃ moves w', Run (Step prim) w moves w' ∧ Serialised prim s' w' ∧
      moves.flatMap (delivered prim) = carried prim ⟨s, e, s'⟩ := by
  cases step with
  | tick later forward =>
      have step : Step prim w (.tick later) { w with now := later } := .tick w later (serialised.clock ▸ forward)
      exact ⟨_, _, .cons _ _ _ _ _ step (.nil _),
        ⟨rfl, step_sound prim _ _ _ step serialised.sound, serialised.agreed, serialised.records, serialised.claims⟩, rfl⟩
  | purge => exact ⟨_, _, .cons _ _ _ _ _ (.purge w) (.nil _), serialised_sweeps prim s w serialised, rfl⟩
  | reopen idle items order recordCount bindingCount =>
      obtain ⟨w', step, restarted⟩ := serialised_restarts prim s w serialised idle items order recordCount bindingCount
      exact ⟨_, w', .cons _ _ _ _ _ step (.nil _), restarted, rfl⟩
  | finish record waiting => exact ⟨[], w, .nil w, serialised_leaves prim s w serialised record waiting, rfl⟩
  | stream server same relay uptimeSecs input =>
      by_cases publish : ∃ record, Request.readFrom prim input = .ok (.publish record)
      · obtain ⟨record, read⟩ := publish
        have encodable := (publish_read_encodable prim input record read).1
        have served : server.serveStream prim relay uptimeSecs s.now input = server.handlePublish prim record s.now := by
          rw [Server.serveStream, read]
          rfl
        have received : receive prim s input = Concurrent.enter prim s.core record s.now := by rw [receive, read]
        obtain ⟨entered, agree⟩ := serialised_enters prim s w serialised record encodable
          (fun races => calm ⟨input, _, record, rfl, read, races⟩)
        have acknowledged := (publish_acknowledged prim server record s.now).2
        rw [same] at acknowledged
        rw [served, received]
        refine ⟨_, _, .cons _ _ _ _ _ (.put w ⟨record, (wire_iff_encodable prim record).mpr encodable⟩) (.nil _), entered, ?_⟩
        simp [delivered, carried, read, acknowledged, agree]
      · rw [not_exists] at publish
        have received : receive prim s input = s.core := by
          unfold receive
          split
          · rename_i record read
            exact absurd read (publish record)
          · rfl
        rw [received]
        refine ⟨[], w, .nil w, serialised, (List.eq_nil_iff_forall_not_mem.mpr ?_).symm⟩
        rintro ⟨record, taken⟩ member
        obtain ⟨other, reply, label, read, _⟩ := (mem_carried_iff prim _ record taken).mp member
        cases label
        exact publish record read

-- Whatever is held has been delivered and taken.
theorem run_held (w w' : World) (run : List (Transition World (Event prim))) (whole : Run (Step prim) w run w')
    (sound : Sound prim w) (k : PubKey) (r : SignedRecord) (held : w'.store.records.lookup k = some r) :
    w.store.records.lookup k = some r ∨ (r, true) ∈ run.flatMap (delivered prim) := by
  induction whole with
  | nil w => exact .inl held
  | cons w m t label rest first later ih =>
      rcases ih (step_sound prim w m label first sound) held with before | taken
      · cases step_change prim k w m label sound first with
        | kept label same refused => exact .inl (same ▸ before)
        | stored x own accepted now =>
            rw [now, Option.some.injEq] at before
            refine .inr (List.mem_flatMap.mpr ⟨_, List.mem_cons_self, ?_⟩)
            simp [delivered, before]
        | dropped label r' there gone lapsed =>
            rw [gone] at before
            cases before
      · exact .inr (by simp [taken])

-- A server that anybody may send anything is the store fed with the records
-- among it, one after the other, though it works on many at once. What a sender
-- hears is what that store has done, and what is held has come in as its own bytes.
theorem streams_run_the_store (t₀ : Nat) (s : StreamState) (run : List (Transition StreamState StreamEvent))
    (whole : Run (StreamStep prim) ⟨t₀, ⟨Store.new, 0⟩⟩ run s) (calm : ∀ move ∈ run, ¬ Crosses prim move) :
    (∃ moves w, Run (Step prim) ⟨t₀, Store.new⟩ moves w ∧ moves.flatMap (delivered prim) = run.flatMap (carried prim) ∧
        w.now = s.now ∧ w.store.records = s.core.store.records ∧
        (s.core.pending = 0 → w.store.bindings = s.core.store.bindings ∧ w.store.identityIndex = s.core.store.identityIndex)) ∧
      ∀ k r, s.core.store.records.lookup k = some r → r.key = k ∧ ∃ move ∈ run, ∃ frame rest reply,
        Request.writeTo (.publish r) = .ok frame ∧ move.label = .stream (frame ++ rest) reply ∧
          acknowledges prim reply = true := by
  have fresh : Serialised prim ⟨t₀, ⟨Store.new, 0⟩⟩ ⟨t₀, Store.new⟩ :=
    ⟨rfl, fresh_sound prim t₀, Concurrent.settled_agreed prim _ (new_consistent prim), rfl, by simp [Concurrent.Claims]⟩
  obtain ⟨moves, w, plain, serialised, same⟩ := run_simulation (Serialised prim) (fun move => ¬ Crosses prim move)
    (carried prim)
    (delivered prim) (fun u e v x step calm related => stream_step_matched prim u v e x step calm related) calm whole fresh
  refine ⟨⟨moves, w, plain, same, serialised.clock, serialised.records, serialised_idle prim s w serialised⟩, ?_⟩
  intro k r held
  rw [← serialised.records] at held
  refine ⟨serialised.sound.consistent.own k r held, ?_⟩
  have taken : (r, true) ∈ run.flatMap (carried prim) := by
    rw [← same]
    refine (run_held prim ⟨t₀, Store.new⟩ w moves plain (fresh_sound prim t₀) k r held).resolve_left ?_
    simp [Store.new]
  obtain ⟨⟨before, label, after⟩, member, carries⟩ := List.mem_flatMap.mp taken
  obtain ⟨input, reply, rfl, read, told⟩ := (mem_carried_iff prim _ r true).mp carries
  obtain ⟨_, frame, rest, written, rfl⟩ := publish_read_encodable prim input r read
  exact ⟨_, member, frame, rest, reply, written, rfl, told.symm⟩

theorem get_held (s : Store) (k : PubKey) (now : Nat) (r : SignedRecord) (shown : s.get k now = some r) :
    s.records.lookup k = some r := by
  rw [Store.get, Option.filter_eq_some_iff] at shown
  exact shown.1

theorem held_among_held (s : Store) (keys : Finset PubKey) (now : Nat) (r : SignedRecord) (member : r ∈ s.heldAmong keys now) :
    ∃ k, s.records.lookup k = some r := by
  obtain ⟨listed, _⟩ := List.mem_filter.mp member
  obtain ⟨k, _, held⟩ := List.mem_filterMap.mp listed
  exact ⟨k, held⟩

theorem since_held (s : Store) (since : UInt64) (limit now : Nat) (r : SignedRecord)
    (member : r ∈ (s.since since limit now).1) :
    ∃ k, s.records.lookup k = some r := by
  have wanted := List.mem_of_mem_take member
  rw [List.mem_insertionSort] at wanted
  obtain ⟨⟨k, other⟩, entry, rfl⟩ := List.mem_map.mp (List.mem_of_mem_filter wanted)
  exact ⟨k, (Finmap.mem_ascending s.records k other).mp entry⟩

-- All that a request is replied to with.
inductive Server.Replies (server : Server) (now : Nat) : Request → Response → Prop where
  | error (request : Request) (code : ErrorCode) (message : String) : Replies server now request (.error code message)
  | held (key : PubKey) (recurse : UInt8) (record : SignedRecord) (shown : server.store.get key now = some record) :
      Replies server now (.lookup key recurse)
        (.answer (some record) (record.record.successor.bind (fun next => server.store.get next now)))
  | unknown (key : PubKey) (recurse : UInt8) : Replies server now (.lookup key recurse) (.answer none none)
  | relayed (key : PubKey) (recurse : UInt8) (found : Relayed) (answered : relay key (recurse - 1) = .ok (some found)) :
      Replies server now (.lookup key recurse) (.answer (some found.record) found.successor)
  | identity (identity : PubKey) : Replies server now (.lookupIdentity identity)
      (.records (server.store.identityRecords identity maxSyncBatch.toNat now) true)
  | published (record : SignedRecord) (serial expiresAt : UInt64) :
      Replies server now (.publish record) (.published serial expiresAt)
  | status : Replies server now .status (.status (server.status uptimeSecs))
  | sync (since : UInt64) (limit : UInt16) : Replies server now (.sync since limit)
      (.records (server.store.since since (Server.clampLimit limit) now).1
        (server.store.since since (Server.clampLimit limit) now).2)

theorem handle_replies (server : Server) (now : Nat) (request : Request) :
    server.Replies relay uptimeSecs now request (server.handle prim relay now uptimeSecs request).response := by
  cases request with
  | lookup key recurse =>
      simp only [Server.handle, Server.handleLookup]
      split
      · rename_i record shown
        exact .held key recurse record shown
      · split
        · exact .unknown key recurse
        · split
          · rename_i found answered
            exact .relayed key recurse found answered
          · exact .unknown key recurse
          · exact .error _ _ _
  | lookupIdentity identity => exact .identity identity
  | publish record =>
      simp only [Server.handle, Server.handlePublish]
      split
      · exact .published record _ _
      · exact .error _ _ _
      · exact .error _ _ _
  | status => exact .status
  | sync since limit =>
      simp only [Server.handle]
      split
      · exact .sync since limit
      · exact .error _ _ _

theorem encode_at_most (r : SignedRecord) (fits : r.Encodable) : r.encode.length ≤ 65601 := by
  have short := fits.short
  rw [SignedRecord.encode_length]
  omega

theorem slot_at_most (slot : Option SignedRecord) (fits : ∀ r ∈ slot.toList, r.Encodable) :
    (Response.encodeSlot slot).length ≤ 65602 := by
  cases slot with
  | none => simp [Response.encodeSlot]
  | some r =>
      have bound := encode_at_most r (fits r (by simp))
      rw [Response.encodeSlot, List.length_cons]
      omega

theorem request_carried (request : Request) (fits : ∀ r ∈ request.contents, r.Encodable) :
    ∃ frame, request.writeTo = .ok frame ∧ ∀ rest, Request.readFrom prim (frame ++ rest) = .ok request.clamped := by
  have small : request.encodePayload.length ≤ maxMessageLen := by
    cases request with
    | lookup key recurse => simp [Request.encodePayload, maxMessageLen]
    | lookupIdentity identity => simp [Request.encodePayload, maxMessageLen]
    | publish record =>
        have bound := encode_at_most record (fits record (by simp [Request.contents]))
        exact Nat.le_trans bound (by decide)
    | status => simp [Request.encodePayload]
    | sync since limit => simp [Request.encodePayload, maxMessageLen]
  obtain ⟨frame, written, _⟩ := framed request.frameType request.encodePayload [] small
  refine ⟨frame, written, ?_⟩
  intro rest
  exact (request_read_iff prim _ _).mpr ⟨request, frame, rest, rfl, fits, written, rfl⟩

-- Only a batch of records can be too long for one message.
theorem response_small (response : Response) (fits : response.Encodable)
    (page : ∀ batch complete, response = .records batch complete → response.encodePayload.length ≤ maxMessageLen) :
    response.encodePayload.length ≤ maxMessageLen := by
  cases response with
  | answer record successor =>
      have first := slot_at_most record (fun r member => fits.1 r (Option.mem_toList.mp member))
      have second := slot_at_most successor (fun r member => fits.2 r (Option.mem_toList.mp member))
      have cap : maxMessageLen = 1048576 := rfl
      rw [Response.encodePayload, List.length_append]
      omega
  | published serial expiresAt => simp [Response.encodePayload, maxMessageLen]
  | status info =>
      have short : info.version.utf8ByteSize < 2 ^ 16 := fits
      simp only [Response.encodePayload, putString, List.length_append, be64_length, be32_length, to_be_length,
        utf8_bytes_length, maxMessageLen]
      omega
  | records batch complete => exact page batch complete rfl
  | error code message =>
      have short : message.utf8ByteSize < 2 ^ 16 := fits
      simp only [Response.encodePayload, putString, List.length_append, be16_length, to_be_length, utf8_bytes_length,
        maxMessageLen]
      omega

theorem replies_encodable (server : Server) (now : Nat) (request : Request) (response : Response)
    (replies : server.Replies relay uptimeSecs now request response)
    (wire : ∀ k r, server.store.records.lookup k = some r → r.Encodable)
    (relayed : ∀ key budget found, relay key budget = .ok (some found) →
      found.record.Encodable ∧ ∀ successor ∈ found.successor, successor.Encodable)
    (short : ∀ code message, response = .error code message → message.utf8ByteSize < 2 ^ 16) : response.Encodable := by
  cases replies with
  | error request code message => exact short code message rfl
  | held key recurse record shown =>
      refine ⟨fun r member => ?_, fun r member => ?_⟩
      · rw [← Option.some.inj member]
        exact wire key record (get_held server.store key now record shown)
      · obtain ⟨next, _, found⟩ := Option.bind_eq_some_iff.mp member
        exact wire next r (get_held server.store next now r found)
  | unknown key recurse => exact ⟨by simp, by simp⟩
  | relayed key recurse found answered =>
      obtain ⟨fits, successor⟩ := relayed _ _ found answered
      exact ⟨fun r member => Option.some.inj member ▸ fits, successor⟩
  | identity identity =>
      refine ⟨?_, fun r member => ?_⟩
      · unfold Store.identityRecords
        split
        · exact Nat.zero_le _
        · exact List.length_take_le _ _
      · unfold Store.identityRecords at member
        split at member
        · cases member
        · obtain ⟨k, held⟩ := held_among_held server.store _ now r (List.mem_of_mem_take member)
          exact wire k r held
  | published record serial expiresAt => trivial
  | status =>
      change version.utf8ByteSize < 2 ^ 16
      decide
  | sync since limit =>
      refine ⟨(List.length_take_le _ _).trans (Server.clamp_limit_le limit), fun r member => ?_⟩
      obtain ⟨k, held⟩ := since_held server.store since _ now r member
      exact wire k r held

-- What the client reads is what the server says, unless a page of records is
-- too long for a message or an error for its length field.
theorem wire_is_transparent (w : World) (server : Server) (same : server.store = w.store) (sound : Sound prim w)
    (relayed : ∀ key budget found, relay key budget = .ok (some found) →
      found.record.Encodable ∧ ∀ successor ∈ found.successor, successor.Encodable)
    (request : Request) (fits : ∀ r ∈ request.contents, r.Encodable)
    (short : ∀ code message, (server.handle prim relay w.now uptimeSecs request.clamped).response = .error code message →
      message.utf8ByteSize < 2 ^ 16)
    (page : ∀ batch complete, (server.handle prim relay w.now uptimeSecs request.clamped).response = .records batch complete →
      (Response.records batch complete).encodePayload.length ≤ maxMessageLen) :
    server.exchange prim relay uptimeSecs w.now request =
      (.ok (server.handle prim relay w.now uptimeSecs request.clamped).response,
        (server.handle prim relay w.now uptimeSecs request.clamped).store) := by
  obtain ⟨frame, written, read⟩ := request_carried prim request fits
  specialize read []
  rw [List.append_nil] at read
  have encodable := replies_encodable relay uptimeSecs server w.now request.clamped _
    (handle_replies prim relay uptimeSecs server w.now request.clamped) (same ▸ sound.wire) relayed short
  have small := response_small _ encodable (fun batch complete response => response ▸ page batch complete response)
  simp only [Server.exchange, written, Server.serveStream, read, on_stream_reads prim _ encodable small]

end Serving

section Sample

open Sample

def nobody : PubKey → UInt8 → Except Error (Option Relayed) := fun _ _ => .ok none

def standalone (s : Store) : Server := ⟨s, 0, 0, 0, true⟩

theorem publish_contents (r : SignedRecord) (member : r ∈ (Request.publish publish).contents) : r.Encodable := by
  rw [List.mem_singleton.mp member]
  exact known_encodable publish (by simp [known])

-- A Publish with a byte behind it.
theorem streams_run_the_store_publish :
    ∃ w moves, Run (Step ed25519) ⟨1000, Store.new⟩ moves w ∧ moves.flatMap (delivered ed25519) = [(publish, true)] ∧
      w.store.bindings.lookup node = some alice := by
  obtain ⟨frame, _, carries⟩ := request_carried ed25519 (.publish publish) publish_contents
  have read : Request.readFrom ed25519 (frame ++ [7]) = .ok (.publish publish) := carries [7]
  let begun : StreamState := ⟨1000, ⟨Store.new, 0⟩⟩
  let taken := receive ed25519 begun (frame ++ [7])
  have entered : taken = ⟨Store.new.insertRecord publish, {publish}⟩ := by
    simp only [taken, receive, read]
    rcases Concurrent.enter_cases ed25519 begun.core publish begun.now with ⟨refused, _⟩ | ⟨_, inserted⟩
    · exact absurd ((put_stored_iff ed25519 Store.new publish 1000).mp (by decide +kernel)) refused
    · exact inserted
  have waiting : publish ∈ taken.pending := by simp [entered]
  have first : StreamStep ed25519 begun _ _ := .stream begun (standalone Store.new) rfl nobody 0 (frame ++ [7])
  have second : StreamStep ed25519 _ _ _ := .finish { begun with core := taken } publish waiting
  have calm : ∀ reply, ¬ Crosses ed25519 ⟨begun, .stream (frame ++ [7]) reply, { begun with core := taken }⟩ := by
    rintro reply ⟨_, _, _, _, _, _, other, pending, _⟩
    exact Multiset.notMem_zero other pending
  have quiet : ¬ Crosses ed25519 ⟨{ begun with core := taken }, .finish publish,
    { begun with core := Concurrent.leave taken publish }⟩ := by
    rintro ⟨_, _, _, label, _⟩
    cases label
  obtain ⟨⟨moves, w, plain, same, _, _, settled⟩, _⟩ := streams_run_the_store ed25519 1000 _ _
    (.cons _ _ _ _ _ first (.cons _ _ _ _ _ second (.nil _)))
    (List.forall_mem_cons.mpr ⟨calm _, List.forall_mem_cons.mpr ⟨quiet, fun move member => by cases member⟩⟩)
  have idle : (Concurrent.leave taken publish).pending = 0 := by simp [Concurrent.leave, entered]
  refine ⟨w, moves, plain, ?_, ?_⟩
  · have stored : (Store.new.put ed25519 publish 1000).1 = .ok .stored := by decide +kernel
    have told := (publish_acknowledged ed25519 (standalone Store.new) publish 1000).2
    have served : (standalone Store.new).serveStream ed25519 nobody 0 1000 (frame ++ [7]) =
        (standalone Store.new).handlePublish ed25519 publish 1000 := by
      rw [Server.serveStream, read]
      rfl
    rw [same]
    simp only [List.flatMap_cons, List.flatMap_nil, List.append_nil, carried, read, begun, served, told]
    rw [standalone, stored]
    rfl
  · rw [(settled idle).1, entered]
    decide +kernel

theorem wire_is_transparent_lookup :
    ((standalone (received ⟨1000, Store.new⟩ publish).store).exchange ed25519 nobody 0 1000 (.lookup node 4)).1 =
      .ok (.answer (some publish) none) := by
  have sound : Sound ed25519 (received ⟨1000, Store.new⟩ publish) :=
    step_sound ed25519 _ _ _ (.put ⟨1000, Store.new⟩ (wire publish (by simp [known]))) (fresh_sound ed25519 1000)
  have answered : ((standalone (received ⟨1000, Store.new⟩ publish).store).handle ed25519 nobody 1000 0
      (Request.lookup node 4).clamped).response = .answer (some publish) none := by decide +kernel
  have clock : (received ⟨1000, Store.new⟩ publish).now = 1000 := rfl
  generalize received ⟨1000, Store.new⟩ publish = w at sound answered clock ⊢
  rw [← clock] at answered ⊢
  rw [wire_is_transparent ed25519 nobody 0 w (standalone w.store) rfl sound (fun _ _ _ same => by cases same) (.lookup node 4)
    (fun r member => by cases member) (fun code message other => by cases answered.symm.trans other)
    (fun batch complete other => by cases answered.symm.trans other), answered]

end Sample

end Sqns
