import Sqns.Resolver
import Sqns.Server

set_option autoImplicit false

namespace Sqns

-- What `timeout(link.request(..))` comes back with.
inductive Reply where
  | answered (response : Response)
  | failed (e : Error)
  | timedOut
deriving DecidableEq

-- `server` is whoever answers at that address.
structure PeerLink (ν : Type) where
  addr : String
  server : ν

structure Upstream (ν : Type) where
  links : List (PeerLink ν)
  cache : Option Cache

namespace Upstream

variable {ν : Type} (prim : Primitives) (debug : Response → String) (store : Store) (key : PubKey) (now : Nat)

def cached (up : Upstream ν) : Nat :=
  match up.cache with
  | some cache => cache.keys.card
  | none => 0

def accept (asked : PubKey) (record : SignedRecord) : Except Error Unit := do
  record.verifyAnswer prim asked now
  match store.identityOf asked with
  | none => pure ()
  | some bound =>
      if record.identity ≠ bound then
        throw (.delegation (s!"{asked.toText prim} is bound to identity {bound.toText prim} here, " ++
          s!"but upstream answered for {record.identity.toText prim}"))

def acceptSuccessor (record successor : SignedRecord) : Option SignedRecord :=
  record.record.successor.bind (fun expected =>
    if successor.key ≠ expected then none
    else
      match accept prim store now expected successor with
      | .ok () => some successor
      | .error _ => none)

def cachedSuccessor (cache : Cache) (record : SignedRecord) : Option SignedRecord × Cache :=
  match record.record.successor with
  | none => (none, cache)
  | some next => ((cache.get next now).1.join, (cache.get next now).2)

-- The loop over the links. It ends early with the first acceptable record, else
-- with the number of links that answered and a line for each that did not help.
-- `ask` is undefined where a reply cannot be given at all.
def askLinks (ask : PeerLink ν → Option Reply) :
    List (PeerLink ν) → Nat → List String → Option (Except (Nat × List String) Relayed)
  | [], answered, errors => some (.error (answered, errors))
  | link :: rest, answered, errors =>
      match ask link with
      | none => none
      | some (.failed e) => askLinks ask rest answered (errors ++ [s!"{link.addr}: {e.toText}"])
      | some .timedOut => askLinks ask rest answered (errors ++ [s!"{link.addr}: timed out"])
      | some (.answered (.answer (some record) successor)) =>
          match accept prim store now key record with
          | .error e => askLinks ask rest (answered + 1) (errors ++ [s!"{link.addr}: {e.toText}"])
          | .ok () => some (.ok ⟨record, successor.bind (acceptSuccessor prim store now record)⟩)
      | some (.answered (.answer none _)) => askLinks ask rest (answered + 1) errors
      | some (.answered (.error code message)) =>
          askLinks ask rest answered (errors ++ [s!"{link.addr}: {code.debug}: {message}"])
      | some (.answered other) => askLinks ask rest answered (errors ++ [s!"{link.addr}: unexpected {debug other}"])

def conclude (links : Nat) : Except (Nat × List String) Relayed → Except Error (Option Relayed)
  | .ok relayed => .ok (some relayed)
  | .error (answered, errors) =>
      if answered = links then .ok none
      else if answered > 0 then .ok none
      else .error (.server ErrorCode.upstreamFailed.toU16 s!"no upstream could answer ({Resolver.joined errors})")

def remember (links : Nat) (cache : Cache) : Except (Nat × List String) Relayed → Cache
  | .ok relayed =>
      match relayed.successor with
      | some successor => (cache.put relayed.record).put successor
      | none => cache.put relayed.record
  | .error (answered, _) => if answered = links then cache.putMissing key now else cache

-- `Upstream::lookup` before its loop over the links: what the cache has to say,
-- and the cache as it is once read.
def consult : Option Cache → Option (Option Relayed) × Option Cache
  | none => (none, none)
  | some cache =>
      match cache.get key now with
      | (some (some record), cache) =>
          let (successor, cache) := cachedSuccessor now cache record
          (some (some ⟨record, successor⟩), some cache)
      | (some none, cache) => (some none, some cache)
      | (none, cache) => (none, some cache)

-- What it does once the loop has ended.
def settle (links : Nat) (cache : Option Cache) (outcome : Except (Nat × List String) Relayed) :
    Except Error (Option Relayed) × Option Cache :=
  (conclude links outcome, cache.map (fun cache => remember key now links cache outcome))

-- `Upstream::lookup`, with the cache it leaves behind. One instant stands for
-- every clock it reads.
def lookup (up : Upstream ν) (ask : PeerLink ν → Request → Option Reply) (recurse : UInt8) :
    Option (Except Error (Option Relayed) × Option Cache) :=
  match consult key now up.cache with
  | (some known, cache) => some (.ok known, cache)
  | (none, cache) =>
      (askLinks prim debug store key now (fun link => ask link (.lookup key recurse)) up.links 0 []).map
        (settle key now up.links.length cache)

section Lookup

variable (up : Upstream ν) (ask : PeerLink ν → Request → Option Reply) (recurse : UInt8)

theorem lookup_off (off : up.cache = none) :
    up.lookup prim debug store key now ask recurse =
      (askLinks prim debug store key now (fun link => ask link (.lookup key recurse)) up.links 0 []).map (fun outcome =>
        (conclude up.links.length outcome, none)) := by
  simp only [lookup, consult, off]
  rfl

theorem lookup_hit (cache left : Cache) (record : SignedRecord) (on : up.cache = some cache)
    (hit : cache.get key now = (some (some record), left)) :
    up.lookup prim debug store key now ask recurse =
      some (.ok (some ⟨record, (cachedSuccessor now left record).1⟩), some (cachedSuccessor now left record).2) := by
  simp only [lookup, consult, on, hit]

theorem lookup_negative (cache left : Cache) (on : up.cache = some cache) (hit : cache.get key now = (some none, left)) :
    up.lookup prim debug store key now ask recurse = some (.ok none, some left) := by
  simp only [lookup, consult, on, hit]

theorem lookup_forward (cache left : Cache) (on : up.cache = some cache) (miss : cache.get key now = (none, left)) :
    up.lookup prim debug store key now ask recurse =
      (askLinks prim debug store key now (fun link => ask link (.lookup key recurse)) up.links 0 []).map (fun outcome =>
        (conclude up.links.length outcome, some (remember key now up.links.length left outcome))) := by
  simp only [lookup, consult, on, miss]
  rfl

end Lookup

end Upstream

structure Node (ν : Type) where
  store : Store
  peerCount : Nat
  allowSync : Bool
  upstream : Upstream ν

namespace Node

variable {ν : Type} (prim : Primitives) (debug : Response → String) (now : Nat)

def server (node : Node ν) : Server :=
  { store := node.store
    peerCount := node.peerCount
    upstreamCount := node.upstream.links.length
    cached := node.upstream.cached
    allowSync := node.allowSync }

-- `handle` on a Lookup. Upstream is asked only where `handle` would ask it.
def handleLookup (node : Node ν) (ask : PeerLink ν → Request → Option Reply) (key : PubKey) (recurse : UInt8) :
    Option (Response × Option Cache) :=
  match node.store.get key now with
  | some _ => some (node.server.handleLookup (fun _ _ => .ok none) key recurse now, node.upstream.cache)
  | none =>
      if recurse = 0 || node.upstream.links.length == 0 then
        some (node.server.handleLookup (fun _ _ => .ok none) key recurse now, node.upstream.cache)
      else
        (node.upstream.lookup prim debug node.store key now ask (recurse - 1)).map (fun result =>
          (node.server.handleLookup (fun _ _ => result.1) key recurse now, result.2))

theorem handle_lookup_hit (node : Node ν) (ask : PeerLink ν → Request → Option Reply) (key : PubKey) (recurse : UInt8)
    (record : SignedRecord) (held : node.store.get key now = some record) :
    node.handleLookup prim debug now ask key recurse =
      some (.answer (some record) (record.record.successor.bind (fun next => node.store.get next now)), node.upstream.cache) := by
  have here : node.server.store.get key now = some record := held
  rw [handleLookup, held]
  simp only [Server.handleLookup, here]
  rfl

theorem handle_lookup_stop (node : Node ν) (ask : PeerLink ν → Request → Option Reply) (key : PubKey) (recurse : UInt8)
    (missing : node.store.get key now = none) (last : recurse = 0 ∨ node.upstream.links.length = 0) :
    node.handleLookup prim debug now ask key recurse = some (.answer none none, node.upstream.cache) := by
  have here : node.server.store.get key now = none := missing
  have stops : (decide (recurse = 0) || node.upstream.links.length == 0) = true := by simpa using last
  have counted : (decide (recurse = 0) || node.server.upstreamCount == 0) = true := stops
  rw [handleLookup, missing]
  simp only [stops, if_true, Server.handleLookup, here, counted]

-- A Lookup is asked of every link with one hop less, and nothing else is.
theorem handle_lookup_congr (node : Node ν) (ask other : PeerLink ν → Request → Option Reply) (key : PubKey) (recurse : UInt8)
    (same : recurse ≠ 0 → ∀ link, ask link (.lookup key (recurse - 1)) = other link (.lookup key (recurse - 1))) :
    node.handleLookup prim debug now ask key recurse = node.handleLookup prim debug now other key recurse := by
  rw [handleLookup, handleLookup]
  split
  · rfl
  · split
    · rfl
    · rename_i forwards
      have hops : recurse ≠ 0 := by
        intro spent
        simp [spent] at forwards
      have asks : (fun link => ask link (.lookup key (recurse - 1))) = fun link => other link (.lookup key (recurse - 1)) :=
        funext (same hops)
      simp only [Upstream.lookup, asks]

section Miss

variable (node : Node ν) (ask : PeerLink ν → Request → Option Reply) (key : PubKey) (recurse : UInt8)
  (missing : node.store.get key now = none) (hops : recurse ≠ 0) (linked : node.upstream.links.length ≠ 0)

include missing hops linked

theorem miss_response (result : Except Error (Option Relayed)) :
    node.server.handleLookup (fun _ _ => result) key recurse now =
      match result with
      | .ok (some relayed) => .answer (some relayed.record) relayed.successor
      | .ok none => .answer none none
      | .error e => .error .upstreamFailed e.toText := by
  have here : node.server.store.get key now = none := missing
  have forwards : (decide (recurse = 0) || node.server.upstreamCount == 0) = false := by simp [hops, server, linked]
  rw [Server.handleLookup, here]
  simp only
  rw [forwards]
  rfl

theorem handle_lookup_miss : node.handleLookup prim debug now ask key recurse =
    (node.upstream.lookup prim debug node.store key now ask (recurse - 1)).map (fun result =>
      (node.server.handleLookup (fun _ _ => result.1) key recurse now, result.2)) := by
  simp [handleLookup, missing, hops, linked]

end Miss

end Node

end Sqns
