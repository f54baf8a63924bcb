import Sqns.Listing
import Sqns.Protocol

set_option autoImplicit false

namespace Sqns

def version : String := "0.4.0"

structure Relayed where
  record : SignedRecord
  successor : Option SignedRecord

structure Server where
  store : Store
  peerCount : Nat
  upstreamCount : Nat
  cached : Nat
  allowSync : Bool

-- What one request leaves behind: the reply, the store, and the record to fan
-- out to the peers, if any.
structure Handled where
  response : Response
  store : Store
  push : Option SignedRecord

namespace Server

def status (server : Server) (uptimeSecs : UInt64) : StatusInfo :=
  { records := UInt64.ofNat server.store.len
    cached := UInt64.ofNat server.cached
    peers := UInt32.ofNat server.peerCount
    upstreams := UInt32.ofNat server.upstreamCount
    uptimeSecs
    version }

def codeOf : Error → ErrorCode
  | .signature _ => .badSignature
  | .revoked _ _ _ => .revoked
  | .superseded _ _ => .superseded
  | .delegation _ => .badDelegation
  | _ => .malformed

def handlePublish (prim : Primitives) (server : Server) (record : SignedRecord) (now : Nat) : Handled :=
  let serial := record.record.serial
  let expiresAt := UInt64.ofNat record.record.expiresAt
  match server.store.put prim record now with
  | (.ok .stored, store) => ⟨.published serial expiresAt, store, some record⟩
  | (.ok .stale, store) =>
      ⟨.error .stale s!"a record with serial >= {serial} is already held for {record.key.toText prim}", store, none⟩
  | (.error e, store) => ⟨.error (codeOf e) e.toText, store, none⟩

-- `relay` is what the upstream lookup of this request comes back with.
def handleLookup (server : Server) (relay : PubKey → UInt8 → Except Error (Option Relayed)) (key : PubKey)
    (recurse : UInt8) (now : Nat) : Response :=
  match server.store.get key now with
  | some record => .answer (some record) (record.record.successor.bind (fun next => server.store.get next now))
  | none =>
      if recurse = 0 || server.upstreamCount == 0 then .answer none none
      else
        match relay key (recurse - 1) with
        | .ok (some relayed) => .answer (some relayed.record) relayed.successor
        | .ok none => .answer none none
        | .error e => .error .upstreamFailed e.toText

def clampLimit (limit : UInt16) : Nat := max 1 (min limit.toNat maxSyncBatch.toNat)

def handle (prim : Primitives) (server : Server) (relay : PubKey → UInt8 → Except Error (Option Relayed)) (now : Nat)
    (uptimeSecs : UInt64) : Request → Handled
  | .lookup key recurse => ⟨server.handleLookup relay key recurse now, server.store, none⟩
  | .lookupIdentity identity =>
      ⟨.records (server.store.identityRecords identity maxSyncBatch.toNat now) true, server.store, none⟩
  | .publish record => server.handlePublish prim record now
  | .status => ⟨.status (server.status uptimeSecs), server.store, none⟩
  | .sync since limit =>
      if server.allowSync then
        let (batch, complete) := server.store.since since (clampLimit limit) now
        ⟨.records batch complete, server.store, none⟩
      else ⟨.error .notAuthorized "this server does not answer sync requests", server.store, none⟩

theorem clamp_limit_le (limit : UInt16) : clampLimit limit ≤ maxSyncBatch.toNat := by
  have cap : maxSyncBatch.toNat = 512 := rfl
  simp only [clampLimit]
  omega

end Server

end Sqns
