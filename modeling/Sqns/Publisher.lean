import Sqns.Chain
import Sqns.Completeness
import Sqns.Publishing
import Sqns.Streams

set_option autoImplicit false

namespace Sqns

open Store

section Wire

-- What an endpoint takes up in a record.
def Endpoint.wireLen (e : Endpoint) : Nat :=
  match e.host with
  | .v4 _ => 11
  | .v6 _ => 23
  | .name n => 8 + n.utf8ByteSize

def wireLen : List Endpoint → Nat
  | [] => 0
  | e :: rest => e.wireLen + wireLen rest

theorem endpoint_length (e : Endpoint) : e.encodeInto.length = e.wireLen := by
  unfold Endpoint.wireLen
  cases named : e.host with
  | v4 octets => simp [Endpoint.encodeInto, named, Host.encodeInto]
  | v6 octets => simp [Endpoint.encodeInto, named, Host.encodeInto]
  | name n =>
      simp [Endpoint.encodeInto, named, Host.encodeInto, putShortString]
      omega

theorem endpoints_length (endpoints : List Endpoint) : (endpoints.flatMap Endpoint.encodeInto).length = wireLen endpoints := by
  induction endpoints with
  | nil => rfl
  | cons e rest ih => rw [List.flatMap_cons, List.length_append, endpoint_length, ih, wireLen]

theorem live_encode_length (r : Record) (endpoints : List Endpoint) (body : r.body = .live endpoints) :
    r.encode.length = 159 + wireLen endpoints := by
  rw [Record.encode_length, body, live_body_length, endpoints_length]
  omega

-- The endpoints are counted in one byte and `validate` allows no more than that.
theorem valid_fields (prim : Primitives) (r : Record) (endpoints : List Endpoint) (body : r.body = .live endpoints)
    (valid : r.validate prim = .ok ())
    (named : ∀ e ∈ endpoints, ∀ n, e.host = .name n → 1 ≤ n.utf8ByteSize ∧ n.utf8ByteSize ≤ 255) :
    r.Encodable := by
  rw [Record.Encodable, body]
  apply And.intro
  · simp only [Record.validate, body, then_ok, unless_ok] at valid
    obtain ⟨_, _, _, _, _, few, _⟩ := valid
    exact Nat.lt_of_not_ge few
  · intro e member
    cases host : e.host with
    | v4 octets => trivial
    | v6 octets => trivial
    | name n =>
        obtain ⟨some, short⟩ := named e member n host
        exact ⟨some, Nat.lt_succ_of_le short⟩

-- The endpoints that a record carries over the wire.
structure Fits (endpoints : List Endpoint) : Prop where
  named : ∀ e ∈ endpoints, ∀ n, e.host = .name n → 1 ≤ n.utf8ByteSize ∧ n.utf8ByteSize ≤ 255
  short : 159 + wireLen endpoints < 2 ^ 16

theorem live_encodable_iff (prim : Primitives) (s : SignedRecord) (endpoints : List Endpoint)
    (body : s.record.body = .live endpoints) (valid : s.record.validate prim = .ok ()) : s.Encodable ↔ Fits endpoints := by
  apply Iff.intro
  · intro fits
    refine ⟨?_, live_encode_length s.record endpoints body ▸ fits.short⟩
    intro e member n host
    have fields := fits.fields
    rw [Record.Encodable, body] at fields
    have name := fields.2 e member
    rw [host] at name
    exact ⟨name.1, Nat.le_of_lt_succ name.2⟩
  · intro fits
    exact ⟨valid_fields prim s.record endpoints body valid fits.named, live_encode_length s.record endpoints body ▸ fits.short⟩

theorem live_record_round_trip_iff (prim : Primitives) (r : Record) (endpoints : List Endpoint) (signature : Signature)
    (body : r.body = .live endpoints) (valid : r.validate prim = .ok ())
    (named : ∀ e ∈ endpoints, ∀ n, e.host = .name n → 1 ≤ n.utf8ByteSize ∧ n.utf8ByteSize ≤ 255) :
    SignedRecord.decode prim (SignedRecord.encode ⟨r, signature⟩) = .ok ⟨r, signature⟩ ↔ 159 + wireLen endpoints < 2 ^ 16 := by
  rw [signed_decode_iff, ← live_encode_length r endpoints body]
  apply Iff.intro
  · intro decoded
    exact decoded.1.short
  · intro short
    exact ⟨⟨valid_fields prim r endpoints body valid named, short⟩, rfl⟩

section Sample

open Sample Delivery

def crowded : List Endpoint := List.replicate 255 ⟨.name longName, 5300, 0, 1⟩

theorem crowded_named (e : Endpoint) (member : e ∈ crowded) (n : String) (host : e.host = .name n) :
    1 ≤ n.utf8ByteSize ∧ n.utf8ByteSize ≤ 255 := by
  rw [List.eq_of_mem_replicate member] at host
  rw [← Host.name.inj host]
  decide +kernel

-- 255 endpoints with names of 255 bytes pass `validate`. Their record is 67224
-- bytes long and says it has 1688.
theorem crowded_record_lost :
    ¬ ∀ (prim : Primitives) (r : Record) (endpoints : List Endpoint) (signature : Signature), r.body = .live endpoints →
      r.validate prim = .ok () →
      (∀ e ∈ endpoints, ∀ n, e.host = .name n → 1 ≤ n.utf8ByteSize ∧ n.utf8ByteSize ≤ 255) →
      SignedRecord.decode prim (SignedRecord.encode ⟨r, signature⟩) = .ok ⟨r, signature⟩ := by
  intro claim
  have few : crowded.length = 255 := List.length_replicate
  have valid := ((Store.admission_ok_iff _ _ _).mp (bulk_admitted crowded 0 (by decide) (by rw [few]; decide))).valid
  have kept := claim trusting (bulk crowded 0).record crowded (signature 0 0) rfl valid crowded_named
  have short := ((signed_decode_iff trusting _ _).mp kept).1.short
  rw [live_encode_length _ crowded rfl] at short
  have size : ∀ count, wireLen (List.replicate count ⟨.name longName, 5300, 0, 1⟩) = 263 * count := by
    have name : longName.utf8ByteSize = 255 := by decide +kernel
    intro count
    induction count with
    | zero => rfl
    | succ count ih =>
        rw [List.replicate_succ, wireLen, ih, Endpoint.wireLen]
        simp only [name]
        omega
  rw [crowded, size] at short
  omega

theorem live_record_round_trip_iff_publish : SignedRecord.decode ed25519 publish.encode = .ok publish := by
  refine (live_record_round_trip_iff ed25519 publish.record [endpoint] publish.signature rfl (by decide +kernel) ?_).mpr
    (by decide)
  intro e member n host
  rw [List.mem_singleton.mp member] at host
  cases host

end Sample

end Wire

-- `Publisher::new` fails unless the delegation covers the key.
structure Publisher (prim : Primitives) where
  signingKey : SigningKey
  delegation : Delegation
  endpoints : List Endpoint
  ttl : UInt32
  serial : UInt64
  granted : delegation.verify prim signingKey.publicKey = .ok ()

def saturatingAdd (a b : UInt64) : UInt64 := UInt64.ofNat (min (a.toNat + b.toNat) u64Max)

-- What one call leaves behind, on both sides.
structure Published (prim : Primitives) where
  outcome : Except Error UInt64
  publisher : Publisher prim
  resolver : Resolver
  store : Store

namespace Publisher

variable {prim : Primitives} (debug : Response → String)

def key (p : Publisher prim) : PubKey := p.signingKey.publicKey

-- The record `sign` makes out of the next serial.
def draft (p : Publisher prim) (endpoints : List Endpoint) (now : UInt64) : Record :=
  Record.live p.key p.delegation p.serial p.ttl endpoints now

def signed (p : Publisher prim) (endpoints : List Endpoint) (now : UInt64) : SignedRecord :=
  ⟨p.draft endpoints now, p.signingKey.sign (signedMessage (p.draft endpoints now).encode)⟩

-- `fetch_add` wraps.
def sign (p : Publisher prim) (endpoints : List Endpoint) (now : UInt64) : Except Error SignedRecord × Publisher prim :=
  let record := p.draft endpoints now
  (do record.validate prim; record.sign prim p.signingKey, { p with serial := p.serial + 1 })

def fetchMax (p : Publisher prim) (serial : UInt64) : Publisher prim :=
  { p with serial := if p.serial < serial then serial else p.serial }

section Wire

variable (prim)

-- One request to a server without upstreams, over a stream of its own. What the
-- server says is taken as said: `wire_is_transparent` is about the way back.
def deliver (s : Store) (served : Nat) (request : Request) : Except Error Handled :=
  match request.writeTo with
  | .error e => .error e
  | .ok frame => .ok (Server.serveStream prim (fun _ _ => .ok none) 0 ⟨s, 0, 0, 0, true⟩ served frame)

-- The store after the same request has come in `times` times.
def repeated (s : Store) (served : Nat) (request : Request) : Nat → Store
  | 0 => s
  | times + 1 =>
      match deliver prim (repeated s served request times) served request with
      | .error _ => repeated s served request times
      | .ok handled => handled.store

-- What becomes of a request. The server is given it `unheard` times and the reply
-- is lost, so that it is sent again, and then once more with its reply unless the
-- client is left with an error.
structure Fate where
  unheard : Nat
  lost : Option Error

-- One delivery and its reply.
def Fate.heard : Fate := ⟨0, none⟩

def Fate.deliveries (fate : Fate) : Nat :=
  match fate.lost with
  | none => fate.unheard + 1
  | some _ => fate.unheard

-- One server, whose clock reads `served` meanwhile.
def exchange (fate : Fate) (s : Store) (asked served answered : Nat) : Exchange :=
  { asked := asked
    answered := answered
    checked := answered
    reply := fun _ request =>
      match fate.lost with
      | some e => .error e
      | none => (deliver prim (repeated prim s served request fate.unheard) served request).map Handled.response }

-- `resolver.publish`, with what the server makes of it. A record that fails the
-- client's own check is not sent.
def send (fate : Fate) (r : Resolver) (s : Store) (record : SignedRecord) (asked served : Nat) :
    Except Error UInt64 × Resolver × Store :=
  let published := r.publish prim debug record (exchange prim fate s asked served served)
  (published.1, published.2,
    match record.verifyAnswer prim record.key asked with
    | .ok _ => repeated prim s served (.publish record) fate.deliveries
    | .error _ => s)

end Wire

def adoptNetworkSerial (p : Publisher prim) (fate : Fate) (r : Resolver) (s : Store) (asked served answered : Nat) :
    Except Error Unit × Publisher prim × Resolver :=
  match r.lookup prim debug p.key (exchange prim fate s asked served answered) with
  | (.error e, r) => (.error e, p, r)
  | (.ok none, r) => (.ok (), p, r)
  | (.ok (some held), r) => (.ok (), p.fetchMax (saturatingAdd held.record.serial 1), r)

-- What becomes of the three requests of a call, if it makes them all.
structure Fates where
  first : Fate
  lookup : Fate
  second : Fate

def Fates.heard : Fates := ⟨.heard, .heard, .heard⟩

-- The clock is read nine times at most: to date the record, to check it and to
-- store it; to ask for the held record, to find it and to judge it; and then to
-- date, check and store once more.
def publishEndpoints (p : Publisher prim) (fates : Fates) (r : Resolver) (s : Store) (endpoints : List Endpoint)
    (clock : Nat → UInt64) : Published prim :=
  match p.sign endpoints (clock 0) with
  | (.error e, p) => ⟨.error e, p, r, s⟩
  | (.ok record, p) =>
      match send prim debug fates.first r s record (clock 1).toNat (clock 2).toNat with
      | (.error (.server code message), r, s) =>
          if code = ErrorCode.stale.toU16 then
            match p.adoptNetworkSerial debug fates.lookup r s (clock 3).toNat (clock 4).toNat (clock 5).toNat with
            | (.error e, p, r) => ⟨.error e, p, r, s⟩
            | (.ok (), p, r) =>
                match p.sign endpoints (clock 6) with
                | (.error e, p) => ⟨.error e, p, r, s⟩
                | (.ok record, p) =>
                    let (outcome, r, s) := send prim debug fates.second r s record (clock 7).toNat (clock 8).toNat
                    ⟨outcome, p, r, s⟩
          else ⟨.error (.server code message), p, r, s⟩
      | (outcome, r, s) => ⟨outcome, p, r, s⟩

def publish (p : Publisher prim) (fates : Fates) (r : Resolver) (s : Store) (clock : Nat → UInt64) : Published prim :=
  p.publishEndpoints debug fates r s p.endpoints clock

variable (prim)

-- Neither the record nor the authority behind it has run out.
def Lasts (record : Record) (now : Nat) : Prop := record.isExpired now = false ∧ record.delegation.isExpired now = false

theorem lasts_earlier (record : Record) (now later : Nat) (le : now ≤ later) (lasts : Lasts record later) :
    Lasts record now := by
  apply And.intro
  · rw [Bool.eq_false_iff]
    intro expired
    exact absurd (Record.expired_mono record now later le expired) (by simp [lasts.1])
  · rw [Bool.eq_false_iff]
    intro expired
    exact absurd (Delegation.expired_mono record.delegation now later le expired) (by simp [lasts.2])

-- A live record for which the server has nothing left to look at but the clock
-- and the record it holds.
structure Ready (s : Store) (record : SignedRecord) : Prop where
  valid : record.record.validate prim = .ok ()
  verified : record.verify prim = .ok ()
  live : record.record.isTerminal = false
  alive : ∀ held, s.records.lookup record.key = some held → held.record.isTerminal = false
  pinned : ∀ bound, s.bindings.lookup record.key = some bound → record.identity = bound

section Sending

variable (r : Resolver) (s : Store) (record : SignedRecord) (asked served : Nat)

theorem publish_stored (address : String) (single : r.config.servers = [address]) (serial expiresAt : UInt64)
    (exchange : Exchange) (checked : record.verifyAnswer prim record.key exchange.asked = .ok ())
    (reply : exchange.reply 0 (.publish record) = .ok (.published serial expiresAt)) :
    r.publish prim debug record exchange = (.ok serial, { r with cache := r.cache.invalidate record.key }) := by
  simp [Resolver.publish, checked, Resolver.publishTally, single, reply, Resolver.Tally.count, Resolver.publishOutcome]

theorem publish_refused (address : String) (single : r.config.servers = [address]) (code : ErrorCode) (message : String)
    (exchange : Exchange) (checked : record.verifyAnswer prim record.key exchange.asked = .ok ())
    (reply : exchange.reply 0 (.publish record) = .ok (.error code message)) :
    ∃ text, r.publish prim debug record exchange =
      (.error (if code = .stale then .server ErrorCode.stale.toU16 text else .noServer text),
        { r with cache := r.cache.invalidate record.key }) := by
  by_cases stale : code = .stale
  · simp [Resolver.publish, checked, Resolver.publishTally, single, reply, Resolver.Tally.count, Resolver.publishOutcome, stale]
  · simp [Resolver.publish, checked, Resolver.publishTally, single, reply, Resolver.Tally.count, Resolver.publishOutcome, stale]

theorem publish_unanswered (address : String) (single : r.config.servers = [address]) (e : Error) (exchange : Exchange)
    (checked : record.verifyAnswer prim record.key exchange.asked = .ok ())
    (lost : exchange.reply 0 (.publish record) = .error e) :
    ∃ text, r.publish prim debug record exchange =
      (.error (.noServer text), { r with cache := r.cache.invalidate record.key }) := by
  simp [Resolver.publish, checked, Resolver.publishTally, single, lost, Resolver.Tally.count, Resolver.publishOutcome]

theorem ready_answers (now : Nat) (ready : Ready prim s record) (lasts : Lasts record.record now) :
    record.verifyAnswer prim record.key now = .ok () :=
  (verify_answer_iff prim record record.key now).mpr
    ⟨rfl, ready.verified, ready.valid, (survives_iff record now).mpr ⟨lasts.1, .inr lasts.2⟩⟩

theorem ready_lapsed (now : Nat) (ready : Ready prim s record) (lapsed : ¬ Lasts record.record now) :
    ∃ e, record.verifyAnswer prim record.key now = .error e ∧ ∀ code message, e ≠ .server code message := by
  simp only [SignedRecord.verifyAnswer, SignedRecord.key, ne_eq, not_true_eq_false, if_false, ready.verified, ready.valid,
    ready.live, Bool.not_false, Bool.and_true]
  cases delegated : record.record.delegation.isExpired now with
  | true => exact ⟨_, rfl, by simp⟩
  | false =>
      cases expired : record.record.isExpired now with
      | true => exact ⟨_, rfl, by simp⟩
      | false => exact absurd ⟨expired, delegated⟩ lapsed

theorem ready_admitted (ready : Ready prim s record) (dated : record.record.issuedAt.toNat ≤ served)
    (lasts : Lasts record.record served) : Admitted prim record served :=
  ⟨ready.valid, ready.verified, by omega, lasts.1, .inr lasts.2⟩

section Delivering

-- Without upstreams there is no budget to spend.
theorem served_budget (key : PubKey) (first second : UInt8) :
    Resolver.served s key first served = Resolver.served s key second served := by
  cases held : s.get key served with
  | none => rw [Resolver.served_missing s key first served held, Resolver.served_missing s key second served held]
  | some x => rw [Resolver.served_held s key first served x held, Resolver.served_held s key second served x held]

theorem deliver_served (request : Request) (fits : ∀ r ∈ request.contents, r.Encodable) :
    deliver prim s served request =
      .ok (Server.handle prim ⟨s, 0, 0, 0, true⟩ (fun _ _ => .ok none) served 0 request.clamped) := by
  obtain ⟨frame, written, read⟩ := request_carried prim request fits
  specialize read []
  rw [List.append_nil] at read
  rw [deliver, written]
  simp only [Server.serveStream, read]

theorem deliver_lookup (key : PubKey) (recurse : UInt8) :
    deliver prim s served (.lookup key recurse) = .ok ⟨Resolver.served s key recurse served, s, none⟩ := by
  have nothing : ∀ r ∈ (Request.lookup key recurse).contents, r.Encodable := by simp [Request.contents]
  rw [deliver_served prim s served (.lookup key recurse) nothing, served_budget s served key recurse (min recurse maxRecurse)]
  rfl

theorem repeated_lookup (key : PubKey) (recurse : UInt8) (times : Nat) :
    repeated prim s served (.lookup key recurse) times = s := by
  induction times with
  | zero => rfl
  | succ times ih => rw [repeated, ih, deliver_lookup prim s served key recurse]

theorem deliver_publish (fits : record.Encodable) :
    deliver prim s served (.publish record) = .ok (Server.handlePublish prim ⟨s, 0, 0, 0, true⟩ record served) := by
  have contents : ∀ r ∈ (Request.publish record).contents, r.Encodable := by simpa [Request.contents] using fits
  exact deliver_served prim s served (.publish record) contents

theorem deliver_accepted (fits : record.Encodable) (accepted : Accepted prim s record served) :
    deliver prim s served (.publish record) =
      .ok ⟨.published record.record.serial (UInt64.ofNat record.record.expiresAt), s.accept record, some record⟩ := by
  rw [deliver_publish prim s record served fits]
  simp only [Server.handlePublish, put_accepted prim s record served accepted]

theorem deliver_stale (fits : record.Encodable) (stale : s.put prim record served = (.ok .stale, s)) :
    ∃ text, deliver prim s served (.publish record) = .ok ⟨.error .stale text, s, none⟩ := by
  rw [deliver_publish prim s record served fits]
  simp only [Server.handlePublish, stale]
  exact ⟨_, rfl⟩

theorem ready_stale (ready : Ready prim s record) (dated : record.record.issuedAt.toNat ≤ served)
    (lasts : Lasts record.record served) (held : SignedRecord) (found : s.records.lookup record.key = some held)
    (older : record.record.supersedes held.record = false) : s.put prim record served = (.ok .stale, s) := by
  have admitted := (admission_ok_iff prim record served).mpr (ready_admitted prim s record served ready dated lasts)
  have free := (refusal_eq_none prim s record).mpr ⟨ready.alive, ready.pinned⟩
  simp [put, putLocked, admitted, free, found, older]

-- A record that is held is stale, however often it comes.
theorem accepted_again (ready : Ready prim s record) (fits : record.Encodable) (dated : record.record.issuedAt.toNat ≤ served)
    (lasts : Lasts record.record served) :
    ∃ text, deliver prim (s.accept record) served (.publish record) = .ok ⟨.error .stale text, s.accept record, none⟩ := by
  have held : (s.accept record).records.lookup record.key = some record := by simp
  have again : Ready prim (s.accept record) record := by
    refine ⟨ready.valid, ready.verified, ready.live, ?_, ?_⟩
    · intro other found
      rw [held, Option.some.injEq] at found
      exact found ▸ ready.live
    · intro bound found
      rw [accept_bound s record record.key ready.pinned, if_pos rfl] at found
      exact Option.some.inj found
  exact deliver_stale prim _ record served fits
    (ready_stale prim (s.accept record) record served again dated lasts record held (Record.supersedes_irrefl _))

theorem repeated_accepted (ready : Ready prim s record) (fits : record.Encodable)
    (dated : record.record.issuedAt.toNat ≤ served) (lasts : Lasts record.record served)
    (newer : ∀ held, s.records.lookup record.key = some held → record.record.supersedes held.record = true) (times : Nat) :
    repeated prim s served (.publish record) (times + 1) = s.accept record := by
  induction times with
  | zero =>
      simp only [repeated, deliver_accepted prim s record served fits
        ⟨ready_admitted prim s record served ready dated lasts, ready.pinned, newer⟩]
  | succ times ih =>
      obtain ⟨text, stale⟩ := accepted_again prim s record served ready fits dated lasts
      rw [repeated, ih, stale]

-- What has come over the wire fits on it, whatever was sent.
theorem deliver_fits (wired : ∀ k x, s.records.lookup k = some x → x.Encodable) (request : Request) (handled : Handled)
    (delivered : deliver prim s served request = .ok handled) (k : PubKey) (x : SignedRecord)
    (held : handled.store.records.lookup k = some x) : x.Encodable := by
  unfold deliver at delivered
  split at delivered
  · cases delivered
  · rename_i frame written
    cases delivered
    by_cases published : ∃ sent, Request.readFrom prim frame = .ok (.publish sent)
    · obtain ⟨sent, read⟩ := published
      have fits := (publish_read_encodable prim frame sent read).1
      simp only [Server.serveStream, read, Server.handle] at held
      rw [(publish_acknowledged prim _ sent served).1] at held
      rcases put_held prim s sent served k x held with old | ⟨same, _⟩
      · exact wired k x old
      · exact same ▸ fits
    · rw [not_exists] at published
      rw [serve_stream_quiet prim _ _ _ served frame published] at held
      exact wired k x held

theorem repeated_fits (wired : ∀ k x, s.records.lookup k = some x → x.Encodable) (request : Request) (times : Nat) :
    ∀ k x, (repeated prim s served request times).records.lookup k = some x → x.Encodable := by
  induction times with
  | zero => exact wired
  | succ times ih =>
      rw [repeated]
      split
      · exact ih
      · rename_i handled delivered
        exact deliver_fits prim _ served ih request handled delivered

theorem send_fits (fate : Fate) (wired : ∀ k x, s.records.lookup k = some x → x.Encodable) :
    ∀ k x, (send prim debug fate r s record asked served).2.2.records.lookup k = some x → x.Encodable := by
  rw [send]
  dsimp only
  split
  · exact repeated_fits prim s served wired (.publish record) fate.deliveries
  · exact wired

end Delivering

theorem heard_reply (request : Request) (handled : Handled) (delivered : deliver prim s served request = .ok handled) (idx : Nat)
    (answered : Nat) : (exchange prim .heard s asked served answered).reply idx request = .ok handled.response := by
  change (deliver prim s served request).map Handled.response = _
  rw [delivered]
  rfl

theorem heard_leaves (request : Request) (handled : Handled) (delivered : deliver prim s served request = .ok handled) :
    repeated prim s served request Fate.heard.deliveries = handled.store := by
  simp only [Fate.deliveries, Fate.heard, repeated, delivered]

section Honest

variable (address : String) (single : r.config.servers = [address]) (ready : Ready prim s record) (fits : record.Encodable)
  (order : asked ≤ served) (dated : record.record.issuedAt.toNat ≤ served)

include single ready fits

theorem send_lapsed (lapsed : ¬ Lasts record.record served) :
    ∃ e, (send prim debug .heard r s record asked served).1 = .error e ∧ ∀ code message, e ≠ .server code message := by
  by_cases early : Lasts record.record asked
  · have checked := ready_answers prim s record asked ready early
    cases checks : admission prim record served with
    | ok _ =>
        have admitted := (admission_ok_iff prim record served).mp checks
        exact absurd ⟨admitted.fresh, admitted.delegated.resolve_left (by simp [ready.live])⟩ lapsed
    | error e =>
        have refused : s.put prim record served = (.error e, s) := by simp [put, putLocked, checks]
        have delivered := deliver_publish prim s record served fits
        simp only [Server.handlePublish, refused] at delivered
        obtain ⟨text, out⟩ := publish_refused prim debug r record address single _ _
          (exchange prim .heard s asked served served) checked (heard_reply prim s asked served _ _ delivered 0 served)
        have other : Server.codeOf e ≠ .stale := by
          unfold Server.codeOf
          split
          all_goals simp
        rw [if_neg other] at out
        refine ⟨.noServer text, ?_, by simp⟩
        rw [send, out]
  · obtain ⟨e, refused, other⟩ := ready_lapsed prim s record asked ready early
    refine ⟨e, ?_, other⟩
    simp [send, Resolver.publish, exchange, refused]

include order dated

theorem send_newer (lasts : Lasts record.record served)
    (newer : ∀ held, s.records.lookup record.key = some held → record.record.supersedes held.record = true) :
    send prim debug .heard r s record asked served =
      (.ok record.record.serial, { r with cache := r.cache.invalidate record.key }, s.accept record) := by
  have checked := ready_answers prim s record asked ready (lasts_earlier record.record asked served order lasts)
  have stored := deliver_accepted prim s record served fits
    ⟨ready_admitted prim s record served ready dated lasts, ready.pinned, newer⟩
  rw [send, publish_stored prim debug r record address single _ _ (exchange prim .heard s asked served served) checked
    (heard_reply prim s asked served _ _ stored 0 served), checked, heard_leaves prim s served _ _ stored]

theorem send_stale (lasts : Lasts record.record served) (held : SignedRecord) (found : s.records.lookup record.key = some held)
    (older : record.record.supersedes held.record = false) :
    ∃ text, send prim debug .heard r s record asked served =
      (.error (.server ErrorCode.stale.toU16 text), { r with cache := r.cache.invalidate record.key }, s) := by
  have checked := ready_answers prim s record asked ready (lasts_earlier record.record asked served order lasts)
  obtain ⟨message, stale⟩ := deliver_stale prim s record served fits
    (ready_stale prim s record served ready dated lasts held found older)
  obtain ⟨text, out⟩ := publish_refused prim debug r record address single _ _
    (exchange prim .heard s asked served served) checked (heard_reply prim s asked served _ _ stale 0 served)
  rw [if_pos rfl] at out
  exact ⟨text, by rw [send, out, checked, heard_leaves prim s served _ _ stale]⟩

-- A newer record, whatever becomes of it on the way: once the server has been
-- given it, it is held, also when the client hears nothing or that it is stale.
theorem send_cases (fate : Fate) (lasts : Lasts record.record served)
    (newer : ∀ held, s.records.lookup record.key = some held → record.record.supersedes held.record = true) :
    let after : Resolver := { r with cache := r.cache.invalidate record.key }
    (fate.deliveries = 0 ∧ ∃ text, send prim debug fate r s record asked served = (.error (.noServer text), after, s)) ∨
    (0 < fate.deliveries ∧ ∃ outcome, send prim debug fate r s record asked served = (outcome, after, s.accept record) ∧
      (outcome = .ok record.record.serial ∨ (∃ text, outcome = .error (.noServer text)) ∨
        ∃ text, outcome = .error (.server ErrorCode.stale.toU16 text))) := by
  intro after
  have checked := ready_answers prim s record asked ready (lasts_earlier record.record asked served order lasts)
  have taken := repeated_accepted prim s record served ready fits dated lasts newer
  obtain ⟨unheard, lost⟩ := fate
  cases lost with
  | some e =>
      obtain ⟨text, out⟩ := publish_unanswered prim debug r record address single e
        (exchange prim ⟨unheard, some e⟩ s asked served served) checked rfl
      cases unheard with
      | zero => exact .inl ⟨rfl, text, by rw [send, out, checked]; rfl⟩
      | succ times =>
          refine .inr ⟨Nat.succ_pos times, .error (.noServer text), ?_, .inr (.inl ⟨text, rfl⟩)⟩
          rw [send, out, checked]
          simp only [Fate.deliveries, taken]
          rfl
  | none =>
      refine .inr ⟨Nat.succ_pos unheard, ?_⟩
      cases unheard with
      | zero =>
          exact ⟨_, send_newer prim debug r s record asked served address single ready fits order dated lasts newer, .inl rfl⟩
      | succ times =>
          obtain ⟨message, stale⟩ := accepted_again prim s record served ready fits dated lasts
          have reply : (exchange prim ⟨times + 1, none⟩ s asked served served).reply 0 (.publish record) =
              .ok (.error .stale message) := by
            simp only [exchange, taken, stale]
            rfl
          obtain ⟨text, out⟩ := publish_refused prim debug r record address single _ _
            (exchange prim ⟨times + 1, none⟩ s asked served served) checked reply
          rw [if_pos rfl] at out
          refine ⟨.error (.server ErrorCode.stale.toU16 text), ?_, .inr (.inr ⟨text, rfl⟩)⟩
          rw [send, out, checked]
          simp only [Fate.deliveries, taken]
          rfl

end Honest

end Sending

section Adopting

theorem take_config (r taken : Resolver) (key : PubKey) (now : Nat) (record : SignedRecord)
    (took : r.take prim key now record = .ok taken) : taken.config = r.config := by
  simp only [Resolver.take, then_ok] at took
  obtain ⟨_, _, noted, ranked, kept⟩ := took
  cases kept
  have same : noted.config = r.config := by
    unfold Resolver.noteRank at ranked
    dsimp only at ranked
    split at ranked
    · cases ranked
      rfl
    · split at ranked
      · cases ranked
      · split at ranked
        · cases ranked
        · cases ranked
          rfl
  unfold Resolver.remember
  split
  · exact same
  · exact same

variable (p : Publisher prim) (fate : Fate) (r : Resolver) (s : Store) (asked served answered : Nat)
  (single : r.config.servers.length = 1) (through : fate.lost = none) (unknown : r.cache.lookup p.key = none)

include unknown in
theorem consult_unknown : r.consult p.key asked = (none, r) := by
  unfold Resolver.consult
  split
  · simp [Cache.get, unknown]
  · rfl

include single through unknown

theorem fetch_unknown : r.fetch prim debug p.key (exchange prim fate s asked served answered) =
    r.settle prim debug p.key answered (.ok (Resolver.served s p.key r.config.recurse served)) := by
  have missed := consult_unknown prim p r asked unknown
  have reply : (exchange prim fate s asked served answered).reply 0 (.lookup p.key r.config.recurse) =
      .ok (Resolver.served s p.key r.config.recurse served) := by
    simp only [exchange, through, repeated_lookup, deliver_lookup]
    rfl
  have tried := Resolver.try_servers_served r (exchange prim fate s asked served answered) s p.key r.config.recurse served
    "lookup" single reply
  simp only [Resolver.fetch]
  rw [show (exchange prim fate s asked served answered).asked = asked from rfl, missed]
  dsimp only
  rw [tried]
  rfl

theorem adopt_hidden (hidden : s.get p.key served = none) :
    ∃ after, p.adoptNetworkSerial debug fate r s asked served answered = (.ok (), p, after) ∧ after.config = r.config := by
  refine ⟨r.rememberMissing p.key answered, ?_, ?_⟩
  · rw [adoptNetworkSerial, Resolver.lookup, fetch_unknown prim debug p fate r s asked served answered single through unknown,
      Resolver.served_missing s p.key r.config.recurse served hidden]
    rfl
  · unfold Resolver.rememberMissing
    split
    · rfl
    · rfl

theorem adopt_shown (held : SignedRecord) (shown : s.get p.key served = some held) (unmarked : r.marks.lookup p.key = none)
    (answers : held.verifyAnswer prim p.key answered = .ok ()) :
    ∃ after, p.adoptNetworkSerial debug fate r s asked served answered =
      (.ok (), p.fetchMax (saturatingAdd held.record.serial 1), after) ∧ after.config = r.config := by
  have own := ((verify_answer_iff prim held p.key answered).mp answers).1
  have took : r.take prim p.key answered held =
      .ok (Resolver.remember { r with marks := r.marks.insert held.key (Seen.of held) } held) := by
    rw [← own] at unmarked
    simp only [Resolver.take, answers, Resolver.noteRank, unmarked]
    rfl
  refine ⟨Resolver.remember { r with marks := r.marks.insert held.key (Seen.of held) } held, ?_, ?_⟩
  · rw [adoptNetworkSerial, Resolver.lookup, fetch_unknown prim debug p fate r s asked served answered single through unknown,
      Resolver.served_held s p.key r.config.recurse served held shown]
    simp only [Resolver.settle, took]
    rfl
  · unfold Resolver.remember
    split
    · rfl
    · rfl

theorem adopt_refused (held : SignedRecord) (shown : s.get p.key served = some held) (e : Error)
    (refused : held.verifyAnswer prim p.key answered = .error e) :
    p.adoptNetworkSerial debug fate r s asked served answered = (.error e, p, r) := by
  have took : r.take prim p.key answered held = .error e := by
    rw [Resolver.take, refused]
    rfl
  rw [adoptNetworkSerial, Resolver.lookup, fetch_unknown prim debug p fate r s asked served answered single through unknown,
    Resolver.served_held s p.key r.config.recurse served held shown]
  simp only [Resolver.settle, took]
  rfl

omit through in
-- Whatever the marks say and whatever becomes of the lookup.
theorem adopt_cases (held : SignedRecord) (shown : s.get p.key served = some held) :
    ∃ after, after.config = r.config ∧
      ((∃ e, p.adoptNetworkSerial debug fate r s asked served answered = (.error e, p, after)) ∨
      p.adoptNetworkSerial debug fate r s asked served answered =
        (.ok (), p.fetchMax (saturatingAdd held.record.serial 1), after)) := by
  cases through : fate.lost with
  | none =>
      have fetched := fetch_unknown prim debug p fate r s asked served answered single through unknown
      rw [Resolver.served_held s p.key r.config.recurse served held shown] at fetched
      cases took : r.take prim p.key answered held with
      | error e =>
          refine ⟨r, rfl, .inl ⟨e, ?_⟩⟩
          rw [adoptNetworkSerial, Resolver.lookup, fetched]
          simp only [Resolver.settle, took]
          rfl
      | ok taken =>
          refine ⟨taken, take_config prim r taken p.key answered held took, .inr ?_⟩
          rw [adoptNetworkSerial, Resolver.lookup, fetched]
          simp only [Resolver.settle, took]
          rfl
  | some e =>
      have missed := consult_unknown prim p r asked unknown
      obtain ⟨address, only⟩ := List.length_eq_one_iff.mp single
      have fetched : ∃ failure, r.fetch prim debug p.key (exchange prim fate s asked served answered) =
        (.error failure, r) := by
        simp only [Resolver.fetch]
        rw [show (exchange prim fate s asked served answered).asked = asked from rfl, missed]
        simp only [Resolver.tryServers, only, Resolver.firstAnswer, exchange, through]
        exact ⟨_, rfl⟩
      obtain ⟨failure, fetched⟩ := fetched
      refine ⟨r, rfl, .inl ⟨failure, ?_⟩⟩
      rw [adoptNetworkSerial, Resolver.lookup, fetched]
      rfl

end Adopting

-- `(serial, issued_at)` is above what the held record has.
def Beats (serial issuedAt : UInt64) (held : Record) : Prop :=
  held.serial.toNat < serial.toNat ∨ held.serial.toNat = serial.toNat ∧ held.issuedAt.toNat < issuedAt.toNat

theorem draft_supersedes_iff (p : Publisher prim) (endpoints : List Endpoint) (now : UInt64) (held : Record)
    (alive : held.isTerminal = false) : (p.draft endpoints now).supersedes held = true ↔ Beats p.serial now held := by
  have live : (p.draft endpoints now).isTerminal = false := rfl
  rw [Record.supersedes_iff, alive, live]
  simp only [Bool.false_eq_true, false_or, true_and]
  exact Iff.rfl

section Publishing

variable (p : Publisher prim) (endpoints : List Endpoint)
  (valid : (p.draft endpoints 0).validate prim = .ok ())
  (genuine : ∀ message, prim.verify p.key message (p.signingKey.sign message) = true)

include valid

theorem sign_ok (serial now : UInt64) : ({ p with serial := serial } : Publisher prim).sign endpoints now =
    (.ok (({ p with serial := serial } : Publisher prim).signed endpoints now), { p with serial := serial + 1 }) := by
  have checked : (({ p with serial := serial } : Publisher prim).draft endpoints now).validate prim = .ok () := valid
  simp only [sign, checked, Record.sign]
  rw [if_neg (by simp [draft, Record.live, Record.expectedSigner, key])]
  rfl

include genuine

theorem signed_ready (s : Store) (serial now : UInt64)
    (alive : ∀ held, s.records.lookup p.key = some held → held.record.isTerminal = false)
    (pinned : ∀ bound, s.bindings.lookup p.key = some bound → p.delegation.identity = bound) :
    Ready prim s (({ p with serial := serial } : Publisher prim).signed endpoints now) := by
  have checked : (({ p with serial := serial } : Publisher prim).draft endpoints now).validate prim = .ok () := valid
  have point : p.key.verifyingKey prim = .ok () := ((then_ok _ _ _).mp valid).choose_spec.1
  refine ⟨checked, ?_, rfl, alive, pinned⟩
  refine (then_ok _ _ _).mpr ⟨(), p.granted, (then_ok _ _ _).mpr ⟨(), point, ?_⟩⟩
  exact if_pos (genuine _)

end Publishing

section Call

variable (p : Publisher prim) (r : Resolver) (s : Store) (endpoints : List Endpoint) (clock : Nat → UInt64)

-- How the held record is overcome: by the serial at hand, or on the second
-- attempt. A lookup shows the record while it is unexpired and checks its
-- delegation; it shows nothing of an expired one, and then the serial has only
-- moved on by one.
def Overcomes (held : Record) : Prop :=
  Beats p.serial (clock 0) held ∨
    Lasts (p.draft endpoints (clock 6)) (clock 8).toNat ∧
      ((held.isExpired (clock 4).toNat = true ∧ Beats (p.serial + 1) (clock 6) held) ∨
        (Lasts held (clock 5).toNat ∧ (held.serial.toNat < u64Max ∨ held.issuedAt.toNat < (clock 6).toNat)))

-- The call returns the serial of a record it signed, and the server holds it.
def Wins (done : Published prim) : Prop :=
  ∃ serial n, (n = 0 ∨ n = 6) ∧ done.outcome = .ok serial ∧
    done.store.records.lookup p.key = some (({ p with serial := serial } : Publisher prim).signed endpoints (clock n))

theorem error_loses (done : Published prim) (e : Error) (failed : done.outcome = .error e) :
    ¬ Wins prim p endpoints clock done := by
  intro wins
  obtain ⟨serial, n, _, ok, _⟩ := wins
  rw [failed] at ok
  cases ok

theorem fetch_max_serial (serial : UInt64) : (p.fetchMax serial).serial.toNat = max p.serial.toNat serial.toNat := by
  simp only [fetchMax]
  split
  · rename_i less
    rw [UInt64.lt_iff_toNat_lt] at less
    omega
  · rename_i notLess
    rw [UInt64.lt_iff_toNat_lt] at notLess
    omega

-- A serial can be raised past every other, but not past the last one.
theorem adopted_beats_iff (serial now : UInt64) (held : Record) :
    Beats (({ p with serial := serial } : Publisher prim).fetchMax (saturatingAdd held.serial 1)).serial now held ↔
      held.serial.toNat < u64Max ∨ held.issuedAt.toNat < now.toNat := by
  have raised : (saturatingAdd held.serial 1).toNat = min (held.serial.toNat + 1) u64Max :=
    UInt64.toNat_ofNat_of_lt' (Nat.lt_of_le_of_lt (Nat.min_le_right _ _) (by decide))
  have bound := serial.toNat_lt
  have most := held.serial.toNat_lt
  rw [Beats, fetch_max_serial, raised]
  simp only [u64Max]
  omega

section Attempts

variable (address : String) (single : r.config.servers = [address]) (valid : (p.draft endpoints 0).validate prim = .ok ())
  (genuine : ∀ message, prim.verify p.key message (p.signingKey.sign message) = true)
  (alive : ∀ held, s.records.lookup p.key = some held → held.record.isTerminal = false)
  (pinned : ∀ bound, s.bindings.lookup p.key = some bound → p.delegation.identity = bound) (fits : Fits endpoints)

include single valid genuine alive pinned fits

-- One signing and one publication, as the server's clock and what it holds have it.
theorem attempt_cases (serial now : UInt64) (asked served : Nat) (order : asked ≤ served) (dated : now.toNat ≤ served) :
    let record := ({ p with serial := serial } : Publisher prim).signed endpoints now
    (¬ Lasts (p.draft endpoints now) served ∧ ∃ e, (send prim debug .heard r s record asked served).1 = .error e ∧
      ∀ code message, e ≠ .server code message) ∨
    (Lasts (p.draft endpoints now) served ∧ (∀ held, s.records.lookup p.key = some held → Beats serial now held.record) ∧
      send prim debug .heard r s record asked served =
        (.ok serial, { r with cache := r.cache.invalidate p.key }, s.accept record)) ∨
    (Lasts (p.draft endpoints now) served ∧ ∃ held, s.records.lookup p.key = some held ∧ ¬ Beats serial now held.record ∧
      ∃ text, send prim debug .heard r s record asked served =
        (.error (.server ErrorCode.stale.toU16 text), { r with cache := r.cache.invalidate p.key }, s)) := by
  intro record
  have ready := signed_ready prim p endpoints valid genuine s serial now alive pinned
  have encodable : record.Encodable := (live_encodable_iff prim record endpoints rfl ready.valid).mpr fits
  have newer : ∀ held, s.records.lookup p.key = some held →
      (record.record.supersedes held.record = true ↔ Beats serial now held.record) := fun held found =>
    draft_supersedes_iff prim { p with serial := serial } endpoints now held.record (alive held found)
  by_cases lasts : Lasts (p.draft endpoints now) served
  · by_cases beats : ∀ held, s.records.lookup p.key = some held → Beats serial now held.record
    · refine .inr (.inl ⟨lasts, beats, ?_⟩)
      exact send_newer prim debug r s record asked served address single ready encodable order dated lasts
        (fun held found => (newer held found).mpr (beats held found))
    · simp only [not_forall] at beats
      obtain ⟨held, found, older⟩ := beats
      refine .inr (.inr ⟨lasts, held, found, older, ?_⟩)
      refine send_stale prim debug r s record asked served address single ready encodable order dated lasts held found ?_
      rw [Bool.eq_false_iff, ne_eq, newer held found]
      exact older
  · exact .inl ⟨lasts, send_lapsed prim debug r s record asked served address single ready encodable lasts⟩

-- The second attempt, from a serial that has been raised or not.
theorem retry_wins_iff (sent after : Resolver) (text : String) (serial : UInt64) (held : SignedRecord)
    (forward : ∀ n, (clock n).toNat ≤ (clock (n + 1)).toNat) (found : s.records.lookup p.key = some held)
    (same : after.config = r.config)
    (stale : send prim debug .heard r s (p.signed endpoints (clock 0)) (clock 1).toNat (clock 2).toNat =
      (.error (.server ErrorCode.stale.toU16 text), sent, s))
    (adopted : ({ p with serial := p.serial + 1 } : Publisher prim).adoptNetworkSerial debug .heard sent s
      (clock 3).toNat (clock 4).toNat (clock 5).toNat = (.ok (), { p with serial := serial }, after)) :
    Wins prim p endpoints clock (p.publishEndpoints debug .heard r s endpoints clock) ↔
      Lasts (p.draft endpoints (clock 6)) (clock 8).toNat ∧ Beats serial (clock 6) held.record := by
  have signs : p.sign endpoints (clock 0) = (.ok (p.signed endpoints (clock 0)), { p with serial := p.serial + 1 }) :=
    sign_ok prim p endpoints valid p.serial (clock 0)
  have call : p.publishEndpoints debug .heard r s endpoints clock =
      let last := send prim debug .heard after s
        (({ p with serial := serial } : Publisher prim).signed endpoints (clock 6)) (clock 7).toNat (clock 8).toNat
      ⟨last.1, { p with serial := serial + 1 }, last.2.1, last.2.2⟩ := by
    simp only [publishEndpoints, Fates.heard, signs, stale, adopted, sign_ok prim p endpoints valid serial (clock 6)]
    rfl
  have dated : (clock 6).toNat ≤ (clock 8).toNat := (forward 6).trans (forward 7)
  rcases attempt_cases prim debug p after s endpoints address (same ▸ single) valid genuine alive pinned fits serial (clock 6)
    (clock 7).toNat (clock 8).toNat (forward 7) dated with ⟨lapsed, e, out, _⟩ | ⟨lasts, beats, out⟩ |
    ⟨_, other, here, older, again, out⟩
  · refine iff_of_false (error_loses prim p endpoints clock _ e ?_) (fun both => lapsed both.1)
    rw [call]
    exact out
  · refine iff_of_true ⟨serial, 6, .inr rfl, ?_, ?_⟩ ⟨lasts, beats held found⟩
    · rw [call, out]
    · rw [call, out]
      exact (accept_records_lookup s _ p.key).trans (if_pos rfl)
  · rw [found, Option.some.injEq] at here
    refine iff_of_false (error_loses prim p endpoints clock _ (.server ErrorCode.stale.toU16 again) ?_)
      (fun both => older (here ▸ both.2))
    rw [call, out]

-- The first attempt was refused as stale, so what counts is what the lookup shows.
theorem stale_wins_iff (held : SignedRecord) (text : String) (consistent : Consistent prim s)
    (unmarked : r.marks.lookup p.key = none) (forward : ∀ n, (clock n).toNat ≤ (clock (n + 1)).toNat)
    (found : s.records.lookup p.key = some held)
    (stale : send prim debug .heard r s (p.signed endpoints (clock 0)) (clock 1).toNat (clock 2).toNat =
      (.error (.server ErrorCode.stale.toU16 text), { r with cache := r.cache.invalidate p.key }, s)) :
    Wins prim p endpoints clock (p.publishEndpoints debug .heard r s endpoints clock) ↔
      Lasts (p.draft endpoints (clock 6)) (clock 8).toNat ∧
        ((held.record.isExpired (clock 4).toNat = true ∧ Beats (p.serial + 1) (clock 6) held.record) ∨
          (Lasts held.record (clock 5).toNat ∧
            (held.record.serial.toNat < u64Max ∨ held.record.issuedAt.toNat < (clock 6).toNat))) := by
  let next : Publisher prim := { p with serial := p.serial + 1 }
  let sent : Resolver := { r with cache := r.cache.invalidate p.key }
  have one : sent.config.servers.length = 1 := by simp [sent, single]
  have unknown : sent.cache.lookup p.key = none := by simp [sent, Cache.invalidate]
  have retry := fun serial after => retry_wins_iff prim debug p r s endpoints clock address single valid genuine alive
    pinned fits sent after text serial held forward found
  cases shown : held.record.isExpired (clock 4).toNat with
  | true =>
      have hidden : s.get p.key (clock 4).toNat = none := by simp [Store.get, found, shown]
      obtain ⟨after, adopted, same⟩ := adopt_hidden prim debug next .heard sent s (clock 3).toNat (clock 4).toNat
        (clock 5).toNat one rfl unknown hidden
      have gone : ¬ Lasts held.record (clock 5).toNat := fun lives =>
        absurd (lasts_earlier held.record _ _ (forward 4) lives).1 (by simp [shown])
      rw [retry (p.serial + 1) after same stale adopted]
      simp [gone]
  | false =>
      have seen : s.get p.key (clock 4).toNat = some held := by simp [Store.get, found, shown]
      have own := consistent.own p.key held found
      have ready : Ready prim s held := by
        refine ⟨consistent.valid p.key held found, consistent.verified p.key held found, alive held found, ?_, ?_⟩
        · rw [own]
          exact alive
        · rw [own]
          intro bound pin
          exact Option.some.inj ((consistent.bound p.key held found).symm.trans pin)
      by_cases lives : Lasts held.record (clock 5).toNat
      · have answers := ready_answers prim s held (clock 5).toNat ready lives
        rw [own] at answers
        obtain ⟨after, adopted, same⟩ := adopt_shown prim debug next .heard sent s (clock 3).toNat (clock 4).toNat
          (clock 5).toNat one rfl unknown held seen unmarked answers
        have raised := adopted_beats_iff prim p (p.serial + 1) (clock 6) held.record
        rw [retry (next.fetchMax (saturatingAdd held.record.serial 1)).serial after same stale adopted, raised]
        simp [lives]
      · obtain ⟨e, refused, _⟩ := ready_lapsed prim s held (clock 5).toNat ready lives
        rw [own] at refused
        have adopted := adopt_refused prim debug next .heard sent s (clock 3).toNat (clock 4).toNat
          (clock 5).toNat one rfl unknown held seen e refused
        have signs : p.sign endpoints (clock 0) = (.ok (p.signed endpoints (clock 0)), next) :=
          sign_ok prim p endpoints valid p.serial (clock 0)
        refine iff_of_false (error_loses prim p endpoints clock _ e ?_) (by simp [lives])
        simp only [publishEndpoints, Fates.heard, signs, stale, if_true]
        rw [adopted]

theorem fitting_wins_iff (consistent : Consistent prim s) (unmarked : r.marks.lookup p.key = none)
    (forward : ∀ n, (clock n).toNat ≤ (clock (n + 1)).toNat) :
    Wins prim p endpoints clock (p.publishEndpoints debug .heard r s endpoints clock) ↔
      Lasts (p.draft endpoints (clock 0)) (clock 2).toNat ∧
        ∀ held, s.records.lookup p.key = some held → Overcomes prim p endpoints clock held.record := by
  have signs : p.sign endpoints (clock 0) = (.ok (p.signed endpoints (clock 0)), { p with serial := p.serial + 1 }) :=
    sign_ok prim p endpoints valid p.serial (clock 0)
  rcases attempt_cases prim debug p r s endpoints address single valid genuine alive pinned fits p.serial
    (clock 0) (clock 1).toNat (clock 2).toNat (forward 1) ((forward 0).trans (forward 1)) with
    ⟨lapsed, e, out, other⟩ | ⟨lasts, beats, out⟩ | ⟨lasts, held, found, older, text, out⟩
  · refine iff_of_false (error_loses prim p endpoints clock _ e ?_) (fun both => lapsed both.1)
    simp only [publishEndpoints, Fates.heard, signs]
    split
    · rename_i code message _ _ same
      rw [same] at out
      exact absurd (Except.error.inj out).symm (other code message)
    · rename_i outcome _ _ _ same
      rw [same] at out
      exact out
  · have call : p.publishEndpoints debug .heard r s endpoints clock =
        ⟨.ok p.serial, { p with serial := p.serial + 1 }, { r with cache := r.cache.invalidate p.key },
          s.accept (p.signed endpoints (clock 0))⟩ := by
      simp only [publishEndpoints, Fates.heard, signs]
      rw [out]
    refine iff_of_true ⟨p.serial, 0, .inl rfl, ?_, ?_⟩ ⟨lasts, fun held found => .inl (beats held found)⟩
    · rw [call]
    · rw [call]
      exact (accept_records_lookup s _ p.key).trans (if_pos rfl)
  · have only : (∀ x, s.records.lookup p.key = some x → Overcomes prim p endpoints clock x.record) ↔
        Overcomes prim p endpoints clock held.record := by
      simp only [found, Option.some.injEq, forall_eq']
    rw [only, and_iff_right lasts, Overcomes, or_iff_right older]
    exact stale_wins_iff prim debug p r s endpoints clock address single valid genuine alive pinned fits held text
      consistent unmarked forward
      found out

end Attempts

theorem publish_endpoints_fits (fates : Fates) (wired : ∀ k x, s.records.lookup k = some x → x.Encodable) :
    ∀ k x, (p.publishEndpoints debug fates r s endpoints clock).store.records.lookup k = some x → x.Encodable := by
  unfold publishEndpoints
  split
  · exact wired
  · rename_i record next _
    have first := send_fits prim debug r s record (clock 1).toNat (clock 2).toNat fates.first wired
    split
    · rename_i code message after left sent
      rw [sent] at first
      split
      · split
        · exact first
        · rename_i adopted _
          split
          · exact first
          · rename_i again _ _
            exact send_fits prim debug adopted left again (clock 7).toNat (clock 8).toNat fates.second first
      · exact first
    · rename_i outcome after left _ sent
      rw [sent] at first
      exact first

-- A record that does not fit never arrives as itself, so nothing that it could
-- be read as makes the call succeed.
theorem publish_endpoints_wins_iff (address : String) (single : r.config.servers = [address])
    (valid : (p.draft endpoints 0).validate prim = .ok ())
    (genuine : ∀ message, prim.verify p.key message (p.signingKey.sign message) = true)
    (alive : ∀ held, s.records.lookup p.key = some held → held.record.isTerminal = false)
    (pinned : ∀ bound, s.bindings.lookup p.key = some bound → p.delegation.identity = bound) (consistent : Consistent prim s)
    (wired : ∀ k x, s.records.lookup k = some x → x.Encodable) (unmarked : r.marks.lookup p.key = none)
    (forward : ∀ n, (clock n).toNat ≤ (clock (n + 1)).toNat) :
    Wins prim p endpoints clock (p.publishEndpoints debug .heard r s endpoints clock) ↔
      Fits endpoints ∧ Lasts (p.draft endpoints (clock 0)) (clock 2).toNat ∧
        ∀ held, s.records.lookup p.key = some held → Overcomes prim p endpoints clock held.record := by
  by_cases fits : Fits endpoints
  · rw [and_iff_right fits]
    exact fitting_wins_iff prim debug p r s endpoints clock address single valid genuine alive pinned fits consistent
      unmarked forward
  · refine iff_of_false ?_ (fun both => fits both.1)
    rintro ⟨serial, n, _, _, held⟩
    have encodable := publish_endpoints_fits prim debug p r s endpoints clock .heard wired p.key _ held
    exact fits ((live_encodable_iff prim _ endpoints rfl valid).mp encodable)

end Call

theorem apply_fits (s : Store) (op : Store.Op) (carried : ∀ record time, op = .put record time → record.Encodable)
    (wired : ∀ k x, s.records.lookup k = some x → x.Encodable) :
    ∀ k x, (s.apply prim op).records.lookup k = some x → x.Encodable := by
  intro k x held
  cases op with
  | put record time =>
      rcases put_held prim s record time k x held with old | ⟨same, _⟩
      · exact wired k x old
      · exact same ▸ carried record time rfl
  | purge time =>
      rw [apply, purge_records_lookup, Option.filter_eq_some_iff] at held
      exact wired k x held.1

theorem reached_fits (file : Option Bytes) (openedAt : Nat) (ops : List Store.Op)
    (carried : ∀ record time, Store.Op.put record time ∈ ops → record.Encodable) :
    ∀ k x, (ops.foldl (Store.apply prim) (openFrom prim file openedAt)).records.lookup k = some x → x.Encodable := by
  have start := open_encodable prim file openedAt
  generalize openFrom prim file openedAt = s at start ⊢
  induction ops generalizing s with
  | nil => exact start
  | cons op rest ih =>
      refine ih (fun record time member => carried record time (List.mem_cons_of_mem _ member)) _ ?_
      exact apply_fits prim s op (fun record time same => carried record time (same ▸ List.mem_cons_self)) start

-- Whatever is put into a store has been read off the wire, or from a snapshot.
theorem publish_wins_iff (p : Publisher prim) (r : Resolver) (clock : Nat → UInt64) (address : String) (file : Option Bytes)
    (openedAt : Nat) (ops : List Store.Op) (s : Store)
    (reached : s = ops.foldl (Store.apply prim) (openFrom prim file openedAt))
    (carried : ∀ record time, Store.Op.put record time ∈ ops → record.Encodable)
    (alive : ∀ held, s.records.lookup p.key = some held → held.record.isTerminal = false)
    (pinned : ∀ bound, s.bindings.lookup p.key = some bound → p.delegation.identity = bound)
    (valid : (p.draft p.endpoints 0).validate prim = .ok ())
    (genuine : ∀ message, prim.verify p.key message (p.signingKey.sign message) = true)
    (single : r.config.servers = [address]) (unmarked : r.marks.lookup p.key = none)
    (forward : ∀ n, (clock n).toNat ≤ (clock (n + 1)).toNat) :
    Wins prim p p.endpoints clock (p.publish debug .heard r s clock) ↔
      Fits p.endpoints ∧ Lasts (p.draft p.endpoints (clock 0)) (clock 2).toNat ∧
        ∀ held, s.records.lookup p.key = some held → Overcomes prim p p.endpoints clock held.record := by
  have consistent : Consistent prim s := by
    rw [reached]
    exact Delivery.reached_consistent prim file openedAt ops
  have wired : ∀ k x, s.records.lookup k = some x → x.Encodable := by
    rw [reached]
    exact reached_fits prim file openedAt ops carried
  exact publish_endpoints_wins_iff prim debug p r s p.endpoints clock address single valid genuine alive pinned consistent wired
    unmarked forward

section Sample

open Sample

-- What the key of `node` signs in the calls below.
def attempts : List SignedRecord :=
  [⟨.live node fromAlice 0 1000 [endpoint] 3000,
        signature 0x18e97515afc9157d614f533cb47a0a0998d7cba3ac63d291074a021e2fdc9ef3
          0xe2f2551973b462ce9610a24277dc5f9bf57024304d6f9d7961019503bd44ed04⟩,
    ⟨.live node fromAlice 1 1000 [endpoint] 3000,
        signature 0x6c7eb28a9dc95ba2bd7a98ced3db5dbac3f42b18198580a2d6a57edd1843f7d6
          0x272ee919e55be080fa5cbd2358c298e5f4dfe884cd011ef5863f413ace0f3109⟩,
    ⟨.live node fromAlice 0 1000 [endpoint] 1500,
        signature 0x79695e01f17faa4b658766d1f2f0e7d887ed487b0f53439dcbdaee8a4d516146
          0xa6957c9e56b9a592976abe1c50298fa7d2f1ffe4f70aa74a2cbe59263f1f1c0a⟩,
    ⟨.live node fromAlice 2 1000 [endpoint] 1500,
        signature 0x281e957949eff118238a3f4ee969ff918bce9b76a6d3548f8a3f408d066b51c0
          0x5d6348832ed690168298a6ac284313fe4d296d12b0f908826e1d47fd68db4405⟩]

def nodeSigns (message : Bytes) : Signature :=
  match attempts.find? (fun r => decide (message = signedMessage r.record.encode)) with
  | some r => r.signature
  | none => signature 0 0

def keeper : Primitives := { ed25519 with
  verify := fun key message signature =>
    ed25519.verify key message signature || (decide (key = node) && decide (signature = nodeSigns message)) }

-- A publisher whose counter has been lost.
def holder : Publisher keeper := ⟨⟨node, nodeSigns⟩, fromAlice, [endpoint], 1000, 0, by decide +kernel⟩

theorem holder_genuine (message : Bytes) : keeper.verify holder.key message (holder.signingKey.sign message) = true := by
  simp [keeper, holder, key]

theorem holder_valid : (holder.draft holder.endpoints 0).validate keeper = .ok () := by decide +kernel

theorem holder_fits : Fits holder.endpoints := by
  refine ⟨?_, by decide⟩
  intro e member n host
  rw [List.mem_singleton.mp member] at host
  cases host

theorem only_held (held x : SignedRecord) (s : Store) (live : held.record.isTerminal = false)
    (found : s.records.lookup node = some held) (other : s.records.lookup holder.key = some x) :
    x = held ∧ x.record.isTerminal = false := by
  have same : held = x := Option.some.inj (found.symm.trans other)
  exact same ▸ ⟨rfl, live⟩

theorem only_alice (s : Store) (i : PubKey) (bound : s.bindings.lookup node = some alice)
    (other : s.bindings.lookup holder.key = some i) : holder.delegation.identity = i := Option.some.inj (bound.symm.trans other)

theorem known_carried (r : SignedRecord) (member : r ∈ known) (record : SignedRecord) (time : Nat)
    (inOps : Store.Op.put record time ∈ [Store.Op.put r 1000]) : record.Encodable := by
  rw [List.mem_singleton, Store.Op.put.injEq] at inOps
  exact inOps.1 ▸ known_encodable r member

theorem after_put_held (record : SignedRecord) (s : Store) (known : record = Sample.publish ∨ record = Sample.withdrawal)
    (reached : s = [Store.Op.put record 1000].foldl (Store.apply keeper) (openFrom keeper none 0)) :
    s.records.lookup node = some record ∧ s.bindings.lookup node = some alice := by
  rw [reached]
  rcases known with rfl | rfl
  · decide +kernel
  · decide +kernel

-- The record held for the key has expired and not been swept. Its serial is 2,
-- the publisher is at 0, and no lookup tells it more.
theorem expired_record_beats_its_holder :
    ¬ ∀ (p : Publisher keeper) (r : Resolver) (clock : Nat → UInt64) (address : String) (file : Option Bytes) (openedAt : Nat)
      (ops : List Store.Op) (s : Store), s = ops.foldl (Store.apply keeper) (openFrom keeper file openedAt) →
      (∀ record time, Store.Op.put record time ∈ ops → record.Encodable) →
      (∀ held, s.records.lookup p.key = some held → held.record.isTerminal = false) →
      (∀ bound, s.bindings.lookup p.key = some bound → p.delegation.identity = bound) →
      (p.draft p.endpoints 0).validate keeper = .ok () →
      (∀ message, keeper.verify p.key message (p.signingKey.sign message) = true) →
      r.config.servers = [address] → r.marks.lookup p.key = none → (∀ n, clock n = clock 0) →
      p.delegation.isExpired (clock 0).toNat = false →
      Wins keeper p p.endpoints clock (p.publish (fun _ => "") .heard r s clock) := by
  intro claim
  obtain ⟨s, reached⟩ : ∃ s, s = [Store.Op.put withdrawal 1000].foldl (Store.apply keeper) (openFrom keeper none 0) := ⟨_, rfl⟩
  obtain ⟨found, bound⟩ := after_put_held withdrawal s (.inr rfl) reached
  have alive := fun x other => (only_held withdrawal x s rfl found other).2
  have pinned := fun i other => only_alice s i bound other
  have wins := claim holder Resolver.oneServer (fun _ => 3000) "ns1.example:5300" none 0 _ s reached
    (known_carried withdrawal (by simp [known])) alive pinned holder_valid holder_genuine rfl rfl (fun _ => rfl) rfl
  have exactly := fitting_wins_iff keeper (fun _ => "") holder Resolver.oneServer s [endpoint] (fun _ => 3000)
    "ns1.example:5300" rfl holder_valid holder_genuine alive pinned holder_fits
    (reached ▸ Delivery.reached_consistent keeper none 0 [.put withdrawal 1000]) rfl (fun _ => Nat.le_refl _)
  rcases (exactly.mp wins).2 withdrawal found with beats | ⟨_, ⟨_, beats⟩ | ⟨lasts, _⟩⟩
  · exact absurd beats (by unfold Beats; decide)
  · exact absurd beats (by unfold Beats; decide)
  · exact absurd lasts.1 (by decide)

-- An unexpired record is found and outbid.
theorem publish_wins_iff_publish :
    ∃ s, s.records.lookup node = some Sample.publish ∧
      Wins keeper holder holder.endpoints (fun _ => 1500)
        (holder.publish (fun _ => "") .heard Resolver.oneServer s (fun _ => 1500)) := by
  obtain ⟨s, reached⟩ : ∃ s, s = [Store.Op.put Sample.publish 1000].foldl (Store.apply keeper) (openFrom keeper none 0) :=
    ⟨_, rfl⟩
  obtain ⟨found, bound⟩ := after_put_held Sample.publish s (.inl rfl) reached
  refine ⟨s, found, ?_⟩
  refine (publish_wins_iff keeper (fun _ => "") holder Resolver.oneServer (fun _ => 1500) "ns1.example:5300" none 0 _ s reached
    (known_carried Sample.publish (by simp [known])) (fun x other => (only_held Sample.publish x s rfl found other).2)
    (fun i other => only_alice s i bound other) holder_valid
    holder_genuine rfl rfl (fun _ => Nat.le_refl _)).mpr ⟨holder_fits, ⟨by decide, by decide⟩, ?_⟩
  intro x other
  rw [(only_held Sample.publish x s rfl found other).1]
  exact .inr ⟨⟨by decide, by decide⟩, .inr ⟨⟨by decide, by decide⟩, .inl (by decide)⟩⟩

end Sample

end Publisher

end Sqns
