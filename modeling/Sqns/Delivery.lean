import Sqns.Convergence
import Sqns.Server

set_option autoImplicit false

namespace Sqns.Delivery

open ByteReader Store

variable (prim : Primitives)

-- The stores of a server whose records all came in as Publish frames.
inductive Published : Store → Prop where
  | new : Published Store.new
  | put (s : Store) (stream : Bytes) (record : SignedRecord) (now : Nat) (before : Published s)
      (arrived : Request.readFrom prim stream = .ok (.publish record)) : Published (s.put prim record now).2
  | purge (s : Store) (now : Nat) (before : Published s) : Published (s.purgeExpired now).2

structure Wired (s : Store) : Prop where
  consistent : Consistent prim s
  fits : ∀ k r, s.records.lookup k = some r → r.Encodable

theorem arrived_encodable (stream : Bytes) (record : SignedRecord)
    (arrived : Request.readFrom prim stream = .ok (.publish record)) : record.Encodable := by
  obtain ⟨⟨⟨frameType, payload⟩, _⟩, _, decoded⟩ := (then_ok _ _ _).mp arrived
  have read := (decode_all_ok _ _ _ _).mp decoded
  simp only [Request.decodeFrom] at read
  by_cases lookup : frameType = reqLookup
  · rw [if_pos lookup] at read
    obtain ⟨_, _, _, rest⟩ := (bind_ok _ _ _ _ _).mp read
    obtain ⟨_, _, _, final⟩ := (bind_ok _ _ _ _ _).mp rest
    cases ((pure_ok _ _ _ _).mp final).1
  by_cases identity : frameType = reqLookupIdentity
  · rw [if_neg lookup, if_pos identity] at read
    obtain ⟨_, _, _, final⟩ := (bind_ok _ _ _ _ _).mp read
    cases ((pure_ok _ _ _ _).mp final).1
  by_cases publish : frameType = reqPublish
  · rw [if_neg lookup, if_neg identity, if_pos publish] at read
    obtain ⟨signed, _, first, final⟩ := (bind_ok _ _ _ _ _).mp read
    cases ((pure_ok _ _ _ _).mp final).1
    exact (signed_exact prim _ _ _ first).1
  by_cases status : frameType = reqStatus
  · rw [if_neg lookup, if_neg identity, if_neg publish, if_pos status] at read
    cases ((pure_ok _ _ _ _).mp read).1
  by_cases sync : frameType = reqSync
  · rw [if_neg lookup, if_neg identity, if_neg publish, if_neg status, if_pos sync] at read
    obtain ⟨_, _, _, rest⟩ := (bind_ok _ _ _ _ _).mp read
    obtain ⟨_, _, _, final⟩ := (bind_ok _ _ _ _ _).mp rest
    cases ((pure_ok _ _ _ _).mp final).1
  · rw [if_neg lookup, if_neg identity, if_neg publish, if_neg status, if_neg sync] at read
    exact False.elim (throw_ok _ _ _ _ read)

theorem published_wired (s : Store) (published : Published prim s) : Wired prim s := by
  induction published with
  | new => exact ⟨new_consistent prim, by simp [Store.new]⟩
  | put s stream record now _ arrived ih =>
      refine ⟨put_consistent prim s record now ih.consistent, ?_⟩
      intro k r found
      rcases put_held prim s record now k r found with old | ⟨same, _⟩
      · exact ih.fits k r old
      · exact same ▸ arrived_encodable prim stream record arrived
  | purge s now _ ih =>
      refine ⟨purge_consistent prim s now ih.consistent, ?_⟩
      intro k r found
      rw [purge_records_lookup, Option.filter_eq_some_iff] at found
      exact ih.fits k r found.1

inductive Listing where
  | sync (since : UInt64) (limit : UInt16)
  | identity (owner : PubKey)

namespace Listing

def request : Listing → Request
  | .sync since limit => .sync since limit
  | .identity owner => .lookupIdentity owner

def room : Listing → Nat
  | .sync _ limit => Server.clampLimit limit
  | .identity _ => maxSyncBatch.toNat

def wants (s : Store) (now : Nat) : Listing → SignedRecord → Bool
  | .sync since _, r => decide (since.toNat ≤ issued r) && !r.record.isExpired now
  | .identity owner, r => decide (s.bindings.lookup r.key = some owner) && !r.record.isExpired now

def Before : Listing → SignedRecord → SignedRecord → Prop
  | .sync _ _, a, b => syncLt a b
  | .identity _, a, b => a.key < b.key

instance (listing : Listing) : DecidableRel listing.Before := fun a b =>
  match listing with
  | .sync _ _ => inferInstanceAs (Decidable (syncLt a b))
  | .identity _ => inferInstanceAs (Decidable (a.key < b.key))

-- The held records that belong in the answer: those with fewer than `room`
-- others before them.
def chosen (s : Store) (now : Nat) (listing : Listing) : List SignedRecord :=
  s.values.filter (fun r => listing.wants s now r &&
    decide ((s.values.filter (fun q => listing.wants s now q && decide (listing.Before q r))).length < listing.room))

def full (s : Store) (now : Nat) : Listing → List SignedRecord
  | .sync since _ => Paging.since issued since.toNat (s.unexpired now)
  | .identity owner => s.issuedBy owner now

end Listing

theorem before_asymm (listing : Listing) (a b : SignedRecord) (before : listing.Before a b) : ¬ listing.Before b a := by
  cases listing with
  | sync since limit => exact sync_lt_asymm a b before
  | identity owner => exact lt_asymm (a := a.key) before

section Listed

variable (s : Store) (now : Nat) (listing : Listing) (consistent : Consistent prim s)

include consistent

theorem full_sorted : (listing.full s now).Pairwise listing.Before := by
  cases listing with
  | sync since limit => exact (unexpired_sorted s now consistent.own).filter _
  | identity owner => exact issued_by_sorted s owner now consistent.own

theorem mem_full (r : SignedRecord) : r ∈ listing.full s now ↔ r ∈ s.values ∧ listing.wants s now r = true := by
  rw [mem_values s consistent.own]
  cases listing with
  | sync since limit =>
      simp only [Listing.full, Listing.wants, Paging.mem_since, mem_unexpired s now consistent.own, Bool.and_eq_true,
        decide_eq_true_eq, Bool.not_eq_true', and_assoc]
      exact and_congr_right (fun _ => and_comm)
  | identity owner =>
      simp only [Listing.full, Listing.wants, mem_issued_by s owner now consistent.own r consistent.toLinked,
        Bool.and_eq_true, decide_eq_true_eq, Bool.not_eq_true']

theorem full_perm : (listing.full s now).Perm (s.values.filter (listing.wants s now)) := by
  have irrefl : ∀ r, ¬ listing.Before r r := fun r loop => before_asymm listing r r loop loop
  have once : (listing.full s now).Nodup := by
    refine (full_sorted prim s now listing consistent).imp ?_
    intro a b before same
    exact irrefl b (same ▸ before)
  have valuesOnce : s.values.Nodup := List.Nodup.of_map _ (values_once s consistent.own)
  rw [List.perm_ext_iff_of_nodup once (valuesOnce.filter _)]
  intro r
  rw [mem_full prim s now listing consistent, List.mem_filter]

theorem answer_perm : ((listing.full s now).take listing.room).Perm (listing.chosen s now) := by
  have perm := full_perm prim s now listing consistent
  have valuesOnce : s.values.Nodup := List.Nodup.of_map _ (values_once s consistent.own)
  have once : (listing.full s now).Nodup := perm.nodup_iff.mpr (valuesOnce.filter _)
  simp only [Listing.chosen]
  rw [List.perm_ext_iff_of_nodup (once.sublist (List.take_sublist _ _)) (valuesOnce.filter _)]
  intro r
  have rank : ((listing.full s now).filter (fun q => decide (listing.Before q r))).length =
      (s.values.filter (fun q => listing.wants s now q && decide (listing.Before q r))).length := by
    rw [(perm.filter _).length_eq, List.filter_filter]
    simp only [Bool.and_comm]
  rw [List.mem_filter, Bool.and_eq_true, decide_eq_true_eq, ← and_assoc, ← mem_full prim s now listing consistent, ← rank]
  apply Iff.intro
  · intro member
    have inFull := List.mem_of_mem_take member
    refine ⟨inFull, ?_⟩
    exact (Paging.mem_take_iff (before_asymm listing) _ _ r (full_sorted prim s now listing consistent) inFull).mp member
  · intro both
    exact (Paging.mem_take_iff (before_asymm listing) _ _ r (full_sorted prim s now listing consistent) both.1).mpr both.2

end Listed

theorem listing_reply (server : Server) (relay : PubKey → UInt8 → Except Error (Option Relayed)) (now : Nat)
    (uptimeSecs : UInt64) (listing : Listing) (batch : List SignedRecord) (complete : Bool)
    (consistent : Consistent prim server.store)
    (answered : (server.handle prim relay now uptimeSecs listing.request).response = .records batch complete) :
    batch = (listing.full server.store now).take listing.room := by
  cases listing with
  | sync since limit =>
      simp only [Listing.request, Server.handle] at answered
      by_cases allowed : server.allowSync = true
      · rw [if_pos allowed, since_page server.store now consistent.own] at answered
        exact ((Response.records.inj answered).1).symm
      · rw [if_neg allowed] at answered
        cases answered
  | identity owner =>
      simp only [Listing.request, Server.handle, identity_records_eq] at answered
      exact ((Response.records.inj answered).1).symm

theorem records_payload_length (batch : List SignedRecord) (complete : Bool) :
    (Response.records batch complete).encodePayload.length = 5 + (batch.map (fun r => r.encode.length)).sum := by
  simp only [Response.encodePayload, List.length_append, to_be_length, List.length_cons, List.length_flatMap]
  omega

def Delivered (response : Response) : Prop :=
  response.encodePayload.length ≤ maxMessageLen ∧
    ∃ frame, response.writeTo = .ok frame ∧ Response.readFrom prim frame = .ok response

theorem delivered_iff (response : Response) (fits : response.Encodable) :
    Delivered prim response ↔ response.encodePayload.length ≤ maxMessageLen := by
  apply Iff.intro
  · exact fun delivered => delivered.1
  · intro small
    have framed : response.writeTo =
        .ok (response.frameType :: (toBe 4 response.encodePayload.length ++ response.encodePayload)) := by
      rw [Response.writeTo, writeFrame, if_neg (by omega)]
    refine ⟨small, _, framed, ?_⟩
    have read := frame_reads response.frameType response.encodePayload [] small
    rw [List.append_nil] at read
    simp only [Response.readFrom, then_ok]
    exact ⟨_, read, response_reads prim response fits⟩

theorem listing_payload_length (server : Server) (relay : PubKey → UInt8 → Except Error (Option Relayed)) (now : Nat)
    (uptimeSecs : UInt64) (listing : Listing) (batch : List SignedRecord) (complete : Bool)
    (consistent : Consistent prim server.store)
    (answered : (server.handle prim relay now uptimeSecs listing.request).response = .records batch complete) :
    (Response.records batch complete).encodePayload.length =
      5 + ((listing.chosen server.store now).map (fun r => r.encode.length)).sum := by
  have perm := answer_perm prim server.store now listing consistent
  rw [records_payload_length, listing_reply prim server relay now uptimeSecs listing batch complete consistent answered,
    (perm.map _).sum_eq]

theorem listing_encodable (server : Server) (relay : PubKey → UInt8 → Except Error (Option Relayed)) (now : Nat)
    (uptimeSecs : UInt64) (listing : Listing) (batch : List SignedRecord) (complete : Bool) (wired : Wired prim server.store)
    (answered : (server.handle prim relay now uptimeSecs listing.request).response = .records batch complete) :
    (Response.records batch complete).Encodable := by
  have small : listing.room ≤ maxSyncBatch.toNat := by
    cases listing with
    | sync since limit => exact Server.clamp_limit_le limit
    | identity owner => exact Nat.le_refl _
  rw [listing_reply prim server relay now uptimeSecs listing batch complete wired.consistent answered]
  refine ⟨?_, ?_⟩
  · rw [List.length_take]
    omega
  · intro r member
    have held := (mem_full prim server.store now listing wired.consistent r).mp (List.mem_of_mem_take member)
    exact wired.fits r.key r ((mem_values server.store wired.consistent.own r).mp held.1)

theorem listing_delivered_iff (server : Server) (relay : PubKey → UInt8 → Except Error (Option Relayed)) (now : Nat)
    (uptimeSecs : UInt64) (listing : Listing) (batch : List SignedRecord) (complete : Bool)
    (published : Published prim server.store)
    (answered : (server.handle prim relay now uptimeSecs listing.request).response = .records batch complete) :
    Delivered prim (.records batch complete) ↔
      5 + ((listing.chosen server.store now).map (fun r => r.encode.length)).sum ≤ maxMessageLen := by
  have wired := published_wired prim server.store published
  rw [delivered_iff prim _ (listing_encodable prim server relay now uptimeSecs listing batch complete wired answered),
    listing_payload_length prim server relay now uptimeSecs listing batch complete wired.consistent answered]

theorem publish_arrives (record : SignedRecord) (fits : record.Encodable) :
    Request.readFrom prim (reqPublish :: (toBe 4 record.encode.length ++ record.encode)) = .ok (.publish record) := by
  have small : record.encode.length ≤ maxMessageLen := by
    have short := fits.short
    rw [SignedRecord.encode_length, maxMessageLen]
    omega
  have frame := frame_reads reqPublish record.encode [] small
  have read := signed_reads prim record fits []
  rw [List.append_nil] at frame read
  have decoded : Request.decode prim reqPublish record.encode = .ok (.publish record) := by
    rw [Request.decode, decode_all_ok, Request.decodeFrom, if_neg (by decide), if_neg (by decide), if_pos rfl,
      bind_of_ok _ _ _ _ _ read]
    rfl
  simp only [Request.readFrom, then_ok]
  exact ⟨_, frame, decoded⟩

theorem merge_published (now : Nat) (records : List SignedRecord) (s : Store) (published : Published prim s)
    (fits : ∀ r ∈ records, r.Encodable) : Published prim (merge prim now records s) := by
  induction records generalizing s with
  | nil => exact published
  | cons head tail ih =>
      apply ih
      · exact .put s _ head now published (publish_arrives prim head (fits head (by simp)))
      · exact fun r member => fits r (by simp [member])

theorem merge_values_perm (now : Nat) (records : List SignedRecord) (once : (records.map SignedRecord.key).Nodup)
    (admitted : ∀ r ∈ records, admission prim r now = .ok ()) : (merge prim now records Store.new).values.Perm records := by
  have held := merge_distinct prim now records once admitted
  have own : ∀ k r, (merge prim now records Store.new).records.lookup k = some r → r.key = k := fun k r found =>
    ((held k r).mp found).2
  rw [List.perm_ext_iff_of_nodup (List.Nodup.of_map _ (values_once _ own)) (List.Nodup.of_map _ once)]
  intro r
  rw [mem_values _ own, held]
  exact and_iff_left rfl

theorem chosen_all (s : Store) (now : Nat) (listing : Listing) (few : s.values.length ≤ listing.room)
    (wanted : ∀ r ∈ s.values, listing.wants s now r = true) (irrefl : ∀ r, ¬ listing.Before r r) :
    listing.chosen s now = s.values := by
  rw [Listing.chosen, List.filter_eq_self]
  intro r member
  rw [Bool.and_eq_true, decide_eq_true_eq]
  refine ⟨wanted r member, ?_⟩
  refine Nat.lt_of_lt_of_le (List.length_filter_lt_length_iff_exists.mpr ⟨r, member, ?_⟩) few
  simp [irrefl r]

section Sample

open Sample

-- One identity and any number of service keys. What is counted below are
-- records and bytes, so every signature is taken to be good.
def trusting : Primitives := { ed25519 with
  fromBytes := fun _ => .ok ()
  verify := fun _ _ _ => true }

def bulk (endpoints : List Endpoint) (i : Nat) : SignedRecord :=
  ⟨.live (key (i + 1)) fromAlice 1 1000 endpoints 1000, signature i 0⟩

def bulkRecords (endpoints : List Endpoint) (count : Nat) : List SignedRecord := (List.range count).map (bulk endpoints)

theorem key_value (n : Nat) (small : n < 256 ^ 32) : ofBe (key n).bytes.toList = n := by
  have bytes : (key n).bytes.toList = toBe 32 n := rfl
  rw [bytes, of_be_to_be, Nat.mod_eq_of_lt small]

theorem key_injective (a b : Nat) (smallA : a < 256 ^ 32) (smallB : b < 256 ^ 32) (same : key a = key b) : a = b := by
  rw [← key_value a smallA, ← key_value b smallB, same]

theorem bulk_once (endpoints : List Endpoint) (count : Nat) (small : count ≤ 1000) :
    ((bulkRecords endpoints count).map SignedRecord.key).Nodup := by
  rw [bulkRecords, List.map_map]
  refine List.Nodup.map_on ?_ List.nodup_range
  intro a inA b inB same
  rw [List.mem_range] at inA inB
  have := key_injective (a + 1) (b + 1) (by omega) (by omega) same
  omega

theorem bulk_fresh (endpoints : List Endpoint) (i : Nat) : (bulk endpoints i).record.isExpired 1000 = false := by
  simp [bulk, Record.live, Record.isExpired, Record.isTerminal, Record.isSuperseded, Record.isRevoked, Record.expiresAt, u64Max]

theorem bulk_admitted (endpoints : List Endpoint) (i : Nat) (small : i < 2 ^ 64) (few : endpoints.length ≤ maxEndpoints) :
    admission trusting (bulk endpoints i) 1000 = .ok () := by
  have other : alice ≠ key (i + 1) := by
    intro same
    have := key_injective _ (i + 1) (by decide) (by omega) same
    omega
  have notMany : ¬ endpoints.length > maxEndpoints := by omega
  rw [admission_ok_iff]
  refine ⟨?_, ?_, ?_, ?_, ?_⟩
  · simp only [Record.validate, then_ok]
    refine ⟨(), rfl, (), rfl, (if_neg other).trans ?_⟩
    exact (if_neg notMany).trans (if_neg (show ¬ (decide (1000 < minTtl) || decide (maxTtl < 1000)) = true by decide))
  · rfl
  · show 1000 ≤ 1000 + 300
    decide
  · exact bulk_fresh endpoints i
  · exact .inr rfl

def longName : String := String.ofList (List.replicate 255 'a')

def manyEndpoints : List Endpoint := List.replicate 240 ⟨.name longName, 5300, 0, 1⟩

theorem many_endpoints_length : manyEndpoints.length = 240 := List.length_replicate

theorem bulk_encode_length (i : Nat) : (bulk manyEndpoints i).encode.length = 63345 := by
  have name : longName.utf8ByteSize = 255 := by decide +kernel
  have one : ∀ e ∈ manyEndpoints, e.encodeInto.length = 263 := by
    intro e member
    rw [List.eq_of_mem_replicate member]
    simp [Endpoint.encodeInto, Host.encodeInto, putShortString, name]
  have all : (manyEndpoints.flatMap Endpoint.encodeInto).length = 63120 := by
    rw [List.length_flatMap, List.map_congr_left one, List.map_const', List.sum_replicate_nat, many_endpoints_length]
  have body : (bulk manyEndpoints i).record.body = .live manyEndpoints := rfl
  rw [SignedRecord.encode_length, Record.encode_length, body, live_body_length, all]

theorem bulk_encodable (i : Nat) : (bulk manyEndpoints i).Encodable := by
  have length := bulk_encode_length i
  refine ⟨⟨by rw [many_endpoints_length]; decide, ?_⟩, ?_⟩
  · intro e member
    rw [List.eq_of_mem_replicate member]
    decide +kernel
  · rw [SignedRecord.encode_length] at length
    omega

-- Seventeen keys with 240 named endpoints each: every one fits its frame, the
-- reply to a sync request does not.
theorem seventeen_records_exceed_a_frame :
    ¬ ∀ (server : Server) (relay : PubKey → UInt8 → Except Error (Option Relayed)) (now : Nat) (uptimeSecs : UInt64)
      (listing : Listing) (batch : List SignedRecord) (complete : Bool), Published trusting server.store →
      (server.handle trusting relay now uptimeSecs listing.request).response = .records batch complete →
      Delivered trusting (.records batch complete) := by
  intro claim
  let records := bulkRecords manyEndpoints 17
  obtain ⟨store, merged⟩ : ∃ store, store = merge trusting 1000 records Store.new := ⟨_, rfl⟩
  let server : Server := ⟨store, 0, 0, 0, true⟩
  let relay : PubKey → UInt8 → Except Error (Option Relayed) := fun _ _ => .ok none
  have isBulk : ∀ r ∈ records, ∃ i, i < 17 ∧ r = bulk manyEndpoints i := by
    intro r member
    obtain ⟨i, inRange, same⟩ := List.mem_map.mp member
    exact ⟨i, List.mem_range.mp inRange, same.symm⟩
  have published : Published trusting store := by
    rw [merged]
    refine merge_published trusting 1000 records _ .new ?_
    intro r member
    obtain ⟨i, _, rfl⟩ := isBulk r member
    exact bulk_encodable i
  have perm : store.values.Perm records := by
    rw [merged]
    refine merge_values_perm trusting 1000 records (bulk_once manyEndpoints 17 (by decide)) ?_
    intro r member
    obtain ⟨i, small, rfl⟩ := isBulk r member
    exact bulk_admitted manyEndpoints i (by omega) (by rw [many_endpoints_length]; decide)
  have length : store.values.length = 17 := by
    rw [perm.length_eq]
    exact (List.length_map _).trans List.length_range
  have all : (Listing.sync 0 512).chosen store 1000 = store.values := by
    refine chosen_all store 1000 (.sync 0 512) (by rw [length]; decide) ?_ (fun r loop => sync_lt_asymm r r loop loop)
    intro r member
    obtain ⟨i, _, rfl⟩ := isBulk r (perm.mem_iff.mp member)
    simp [Listing.wants, bulk_fresh]
  have sizes : ∀ r ∈ store.values, r.encode.length = 63345 := by
    intro r member
    obtain ⟨i, _, rfl⟩ := isBulk r (perm.mem_iff.mp member)
    exact bulk_encode_length i
  have answered : (server.handle trusting relay 1000 0 (Listing.sync 0 512).request).response =
      .records (store.since 0 (Server.clampLimit 512) 1000).1 (store.since 0 (Server.clampLimit 512) 1000).2 := by
    simp only [Listing.request, Server.handle, server, if_true]
  have delivered := claim server relay 1000 0 (.sync 0 512) _ _ published answered
  have payload := listing_payload_length trusting server relay 1000 0 (.sync 0 512) _ _
    (published_wired trusting store published).consistent answered
  rw [all, List.map_congr_left sizes, List.map_const', List.sum_replicate_nat, length] at payload
  exact absurd (payload ▸ delivered.1) (by decide)

theorem listing_delivered_iff_publish :
    ∃ store, Published ed25519 store ∧ (Listing.identity alice).chosen store 1000 = [publish] ∧
      Delivered ed25519 (.records [publish] true) := by
  obtain ⟨store, stored⟩ : ∃ store, store = (Store.new.put ed25519 publish 1000).2 := ⟨_, rfl⟩
  let relay : PubKey → UInt8 → Except Error (Option Relayed) := fun _ _ => .ok none
  have published : Published ed25519 store := by
    rw [stored]
    exact .put _ _ publish 1000 .new (publish_arrives ed25519 publish (known_encodable publish (by simp [known])))
  have answered : (Server.handle ed25519 ⟨store, 0, 0, 0, true⟩ relay 1000 0 (Listing.identity alice).request).response =
      .records [publish] true := by
    rw [stored]
    decide +kernel
  have chosen : (Listing.identity alice).chosen store 1000 = [publish] := by
    rw [stored]
    decide +kernel
  refine ⟨store, published, chosen, ?_⟩
  rw [listing_delivered_iff ed25519 ⟨store, 0, 0, 0, true⟩ relay 1000 0 (.identity alice) [publish] true published answered,
    chosen]
  decide +kernel

end Sample

end Sqns.Delivery
