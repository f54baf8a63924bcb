import Mathlib.Data.Prod.Lex
import Sqns.Cache
import Sqns.Protocol
import Sqns.Select

set_option autoImplicit false

namespace Sqns

def defaultRecurse : UInt8 := 4
def maxSupersedeHops : Nat := 8

-- Servers by the text their address prints as. How a server is dialled (client
-- key, timeouts, DNSSEC) is part of what it answers and not kept here.
structure ResolverConfig where
  servers : List String
  cache : Bool
  recurse : UInt8
deriving DecidableEq

def ResolverConfig.default : ResolverConfig := ⟨[], true, defaultRecurse⟩

structure ServiceLocation where
  requested : PubKey
  key : PubKey
  identity : PubKey
  endpoints : List Endpoint
  supersededFrom : List PubKey
deriving DecidableEq

structure Rank where
  terminal : Bool
  serial : UInt64
deriving DecidableEq

namespace Rank

def of (record : Record) : Rank := ⟨record.isTerminal, record.serial⟩

def ordinal (r : Rank) : Bool ×ₗ Nat := toLex (r.terminal, r.serial.toNat)

theorem ordinal_injective : Function.Injective ordinal := by
  rintro ⟨a, m⟩ ⟨b, n⟩ same
  obtain ⟨terminal, serial⟩ := Prod.mk.inj (toLex.injective same)
  rw [Rank.mk.injEq]
  exact ⟨terminal, UInt64.toNat_inj.mp serial⟩

-- The derived `Ord`: the fields in order, and false before true.
instance : LinearOrder Rank := LinearOrder.lift' ordinal ordinal_injective

theorem le_iff (r s : Rank) :
    r ≤ s ↔ (r.terminal = false ∧ s.terminal = true) ∨ (r.terminal = s.terminal ∧ r.serial.toNat ≤ s.serial.toNat) := by
  have lex : r ≤ s ↔ r.ordinal ≤ s.ordinal := Iff.rfl
  rw [lex, ordinal, ordinal, Prod.Lex.toLex_le_toLex, Bool.lt_iff]

end Rank

structure Seen where
  rank : Rank
  identity : PubKey
deriving DecidableEq

def Seen.of (record : SignedRecord) : Seen := ⟨Rank.of record.record, record.identity⟩

structure Resolver where
  config : ResolverConfig
  cache : Cache
  marks : Map PubKey Seen

-- What one exchange with the servers meets: the clock when it starts, what each
-- server would reply, and the clock when the reply is judged and when the
-- successor in it is. Nothing is assumed of any of them.
structure Exchange where
  asked : Nat
  answered : Nat
  checked : Nat
  reply : Nat → Request → Except Error Response

def ErrorCode.debug : ErrorCode → String
  | .malformed => "Malformed"
  | .unsupported => "Unsupported"
  | .badSignature => "BadSignature"
  | .stale => "Stale"
  | .rateLimited => "RateLimited"
  | .internal => "Internal"
  | .notAuthorized => "NotAuthorized"
  | .revoked => "Revoked"
  | .upstreamFailed => "UpstreamFailed"
  | .superseded => "Superseded"
  | .badDelegation => "BadDelegation"

namespace Resolver

-- The derived text of a response occurs only inside error messages.
variable (prim : Primitives) (debug : Response → String)

def describe : Response → String
  | .error code message => s!"server error {code.debug}: {message}"
  | other => s!"unexpected response: {debug other}"

def unexpected : Response → Error
  | .error code message => .server code.toU16 message
  | other => .protocol s!"unexpected response: {debug other}"

def new (config : ResolverConfig) : Except Error Resolver :=
  if config.servers.isEmpty then .error (.noServer "no sqns servers configured")
  else .ok ⟨config, Cache.new, ∅⟩

theorem new_ok (config : ResolverConfig) (r : Resolver) (created : new config = .ok r) : r = ⟨config, Cache.new, ∅⟩ := by
  unfold new at created
  split at created
  · cases created
  · cases created
    rfl

-- The first answer that is not an error, or a line for each server.
def firstAnswer (ask : Nat → Except Error Response) : List String → Nat → Except (List String) Response
  | [], _ => .error []
  | server :: rest, idx =>
      match ask idx with
      | .ok (.error code message) =>
          (firstAnswer ask rest (idx + 1)).mapError
            (fun errors => s!"{server}: server error {code.debug}: {message}" :: errors)
      | .ok response => .ok response
      | .error e => (firstAnswer ask rest (idx + 1)).mapError (fun errors => s!"{server}: {e.toText}" :: errors)

theorem first_answer_shift (ask : Nat → Except Error Response) (servers : List String) (idx : Nat) :
    firstAnswer ask servers (idx + 1) = firstAnswer (fun i => ask (i + 1)) servers idx := by
  induction servers generalizing idx with
  | nil => rfl
  | cons server rest ih => rw [firstAnswer, firstAnswer, ih]

def joined (errors : List String) : String := "; ".intercalate errors

def tryServers (r : Resolver) (exchange : Exchange) (req : Request) (what : String) : Except Error Response :=
  (firstAnswer (fun idx => exchange.reply idx req) r.config.servers 0).mapError
    (fun errors => .noServer s!"{what} failed on every server ({joined errors})")

def noteRank (r : Resolver) (record : SignedRecord) : Except Error Resolver :=
  let seen := Seen.of record
  let noted := { r with marks := r.marks.insert record.key seen }
  match r.marks.lookup record.key with
  | none => .ok noted
  | some before =>
      if before.identity ≠ seen.identity then
        .error (.delegation (s!"{record.key.toText prim} was issued by {before.identity.toText prim}, " ++
          s!"but this answer claims {seen.identity.toText prim}"))
      else if seen.rank < before.rank then .error (.downgrade (record.key.toText prim))
      else .ok noted

def remember (r : Resolver) (record : SignedRecord) : Resolver :=
  if r.config.cache then { r with cache := r.cache.put record } else r

def rememberMissing (r : Resolver) (key : PubKey) (now : Nat) : Resolver :=
  if r.config.cache then { r with cache := r.cache.putMissing key now } else r

def consult (r : Resolver) (key : PubKey) (now : Nat) : Option (Option SignedRecord) × Resolver :=
  if r.config.cache then ((r.cache.get key now).1, { r with cache := (r.cache.get key now).2 }) else (none, r)

-- A record as it came with an answer, checked and noted before it is kept.
def take (r : Resolver) (key : PubKey) (now : Nat) (record : SignedRecord) : Except Error Resolver := do
  record.verifyAnswer prim key now
  let noted ← r.noteRank prim record
  pure (noted.remember record)

def settle (r : Resolver) (key : PubKey) (now : Nat) :
    Except Error Response → Except Error (Option SignedRecord × Option SignedRecord) × Resolver
  | .error e => (.error e, r)
  | .ok (.answer (some record) successor) =>
      match r.take prim key now record with
      | .error e => (.error e, r)
      | .ok taken => (.ok (some record, successor), taken)
  | .ok (.answer none _) => (.ok (none, none), r.rememberMissing key now)
  | .ok other => (.error (unexpected debug other), r)

def fetch (r : Resolver) (key : PubKey) (exchange : Exchange) :
    Except Error (Option SignedRecord × Option SignedRecord) × Resolver :=
  match r.consult key exchange.asked with
  | (some hit, r) => (.ok (hit, none), r)
  | (none, r) =>
      r.settle prim debug key exchange.answered (r.tryServers exchange (.lookup key r.config.recurse) "lookup")

def lookup (r : Resolver) (key : PubKey) (exchange : Exchange) : Except Error (Option SignedRecord) × Resolver :=
  ((r.fetch prim debug key exchange).1.map Prod.fst, (r.fetch prim debug key exchange).2)

def retirementError (record : SignedRecord) : Option Error := Store.retirementError prim record

def lookupLive (r : Resolver) (key : PubKey) (exchange : Exchange) : Except Error (Option SignedRecord) × Resolver :=
  match r.lookup prim debug key exchange with
  | (.ok (some record), r) =>
      match retirementError prim record with
      | some e => (.error e, r)
      | none => (.ok (some record), r)
  | other => other

-- The loop variables of `resolve_service`. `fetches` counts the exchanges made
-- and `used` lists the records the walk has taken a step from, in order.
structure Walker where
  resolver : Resolver
  current : PubKey
  visited : Finset PubKey
  chain : List PubKey
  prefetched : Option SignedRecord
  fetches : Nat
  used : List SignedRecord

inductive Turn where
  | done (outcome : Except Error ServiceLocation) (walker : Walker)
  | onward (walker : Walker)

def nextRecord (exchange : Exchange) (w : Walker) :
    Except Error (Option SignedRecord × Option SignedRecord) × Walker :=
  match w.prefetched with
  | some record => (.ok (some record, none), { w with prefetched := none })
  | none =>
      let fetched := w.resolver.fetch prim debug w.current exchange
      (fetched.1, { w with resolver := fetched.2, fetches := w.fetches + 1 })

-- The inline successor stands in for the next fetch only if it is the record
-- for the key the tombstone names and passes every check a fetched one would.
def prefetch (exchange : Exchange) (successor : Option SignedRecord) (next : PubKey) (w : Walker) : Walker :=
  match successor with
  | none => w
  | some candidate =>
      if candidate.key ≠ next then w
      else
        match w.resolver.take prim next exchange.checked candidate with
        | .error _ => w
        | .ok taken => { w with resolver := taken, prefetched := some candidate }

def follow (requested : PubKey) (exchange : Exchange) (draws : Draws) (record : SignedRecord)
    (successor : Option SignedRecord) (w : Walker) : Turn :=
  match record.revocationError prim with
  | some revoked => .done (.error revoked) w
  | none =>
      match record.record.successor with
      | none => .done (.ok ⟨requested, record.key, record.identity, Select.orderWith draws record.record, w.chain⟩) w
      | some next =>
          if next ∈ w.visited then
            .done (.error (.supersedeChain
              s!"{requested.toText prim} forwards in a cycle, back to {next.toText prim}")) w
          else
            .onward (prefetch prim exchange successor next
              { w with current := next, visited := insert next w.visited, chain := w.chain ++ [w.current] })

def turn (requested : PubKey) (network : Nat → Exchange) (draws : Draws) (w : Walker) : Turn :=
  let exchange := network w.fetches
  match nextRecord prim debug exchange w with
  | (.error e, w) => .done (.error e) w
  | (.ok (none, _), w) => .done (.error (.unpublished (w.current.toText prim))) w
  | (.ok (some record, successor), w) =>
      follow prim requested exchange draws record successor { w with used := w.used ++ [record] }

def walk (requested : PubKey) (network : Nat → Exchange) (draws : Draws) : Nat → Walker → Except Error ServiceLocation × Walker
  | 0, w => (.error (.supersedeChain s!"{requested.toText prim} forwards through more than {maxSupersedeHops} keys"), w)
  | hops + 1, w =>
      match turn prim debug requested network draws w with
      | .done outcome w => (outcome, w)
      | .onward w => walk requested network draws hops w

def resolveService (r : Resolver) (key : PubKey) (network : Nat → Exchange) (draws : Draws) :
    Except Error ServiceLocation × Walker :=
  walk prim debug key network draws maxSupersedeHops ⟨r, key, {key}, [], none, 0, []⟩

structure Tally where
  accepted : Option UInt64
  errors : List String
  staleOnly : Bool

def Tally.count (tally : Tally) (server : String) : Except Error Response → Tally
  | .ok (.published serial _) => { tally with accepted := some serial }
  | .ok (.error code message) =>
      { tally with staleOnly := tally.staleOnly && code = .stale, errors :=
          tally.errors ++ [s!"{server}: {describe debug (.error code message)}"] }
  | .ok other =>
      { tally with staleOnly := false, errors := tally.errors ++ [s!"{server}: {describe debug other}"] }
  | .error e => { tally with staleOnly := false, errors := tally.errors ++ [s!"{server}: {e.toText}"] }

def publishTally (ask : Nat → Except Error Response) (servers : List String) : Tally :=
  servers.zipIdx.foldl (fun tally server => tally.count debug server.1 (ask server.2)) ⟨none, [], true⟩

def publishOutcome (tally : Tally) : Except Error UInt64 :=
  match tally.accepted with
  | some serial => .ok serial
  | none =>
      if tally.staleOnly && !tally.errors.isEmpty then .error (.server ErrorCode.stale.toU16 (joined tally.errors))
      else .error (.noServer s!"no server accepted the record ({joined tally.errors})")

def publish (r : Resolver) (record : SignedRecord) (exchange : Exchange) : Except Error UInt64 × Resolver :=
  match record.verifyAnswer prim record.key exchange.asked with
  | .error e => (.error e, r)
  | .ok _ =>
      let tally := publishTally debug (fun idx => exchange.reply idx (.publish record)) r.config.servers
      (publishOutcome tally, { r with cache := r.cache.invalidate record.key })

end Resolver

end Sqns
