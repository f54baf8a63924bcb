import Sqns.RelayCache

set_option autoImplicit false

namespace Sqns.Upstream

open Store Trace

variable {ν : Type} (prim : Primitives) (debug : Response → String)

-- A server that relays, with the clock it reads.
structure Relay (ν : Type) where
  now : Nat
  node : Node ν

inductive RelayEvent (ν : Type) where
  | tick (later : Nat)
  | publish (record : SignedRecord) (response : Response)
  | lookup (q : Query ν) (response : Response)
  | purge

def purge (up : Upstream ν) (now : Nat) : Upstream ν := { up with cache := up.cache.map (fun cache => (cache.purge now).2) }

-- What each link replies is part of the query and unconstrained, so a link may
-- lie, contradict itself or stay silent.
inductive RelayStep : Relay ν → RelayEvent ν → Relay ν → Prop where
  | tick (r : Relay ν) (later : Nat) (forward : r.now ≤ later) : RelayStep r (.tick later) { r with now := later }
  | publish (r : Relay ν) (record : SignedRecord) :
      RelayStep r (.publish record (r.node.server.handlePublish prim record r.now).response)
        { r with node := { r.node with store := (r.node.server.handlePublish prim record r.now).store } }
  | lookup (r : Relay ν) (q : Query ν) (response : Response) (cache : Option Cache)
      (result : handled prim debug r.now r.node q = some (response, cache)) :
      RelayStep r (.lookup q response) { r with node := withCache r.node cache }
  | purge (r : Relay ν) :
      RelayStep r .purge
        { r with node := { r.node with
          store := (r.node.store.purgeExpired r.now).2, upstream := Upstream.purge r.node.upstream r.now } }

-- A server as it starts: a store read back from any file at all, and an empty
-- relay cache if there is one.
def Fresh (r : Relay ν) : Prop :=
  (∃ file openedAt, r.node.store = openFrom prim file openedAt) ∧ ∀ cache, r.node.upstream.cache = some cache → cache = Cache.new

theorem publish_store (server : Server) (record : SignedRecord) (now : Nat) :
    (server.handlePublish prim record now).store = (server.store.put prim record now).2 := by
  unfold Server.handlePublish
  rcases put_cases prim server.store record now with ⟨e, refused⟩ | ⟨stale, _⟩ | ⟨_, stored⟩
  · simp only [refused]
  · simp only [stale]
  · simp only [stored]

section Lookup

variable (now : Nat) (store : Store) (up : Upstream ν)

-- Where a record that upstream hands out for `key` can come from.
inductive Source (key : PubKey) (record : SignedRecord) : Prop where
  | cached (cache : Cache) (on : up.cache = some cache) (held : cache.lookup key = some (.found record))
  | accepted (ok : accept prim store now key record = .ok ())

theorem remember_found (key j : PubKey) (links : Nat) (cache : Cache) (outcome : Except (Nat × List String) Relayed)
    (x : SignedRecord) (found : (remember key now links cache outcome).lookup j = some (.found x)) :
    cache.lookup j = some (.found x) ∨ ∃ relayed, outcome = .ok relayed ∧ x.key = j ∧
      (x = relayed.record ∨ relayed.successor = some x) := by
  cases outcome with
  | error tried =>
      obtain ⟨count, lines⟩ := tried
      simp only [remember] at found
      split at found
      · exact .inl (Cache.put_missing_within cache key now j x found)
      · exact .inl found
  | ok relayed =>
      simp only [remember] at found
      cases next : relayed.successor with
      | none =>
          rw [next] at found
          rcases Cache.put_found cache relayed.record x j found with ⟨rfl, rfl⟩ | held
          · exact .inr ⟨relayed, rfl, rfl, .inl rfl⟩
          · exact .inl held
      | some successor =>
          rw [next] at found
          rcases Cache.put_found _ successor x j found with ⟨rfl, rfl⟩ | kept
          · exact .inr ⟨relayed, rfl, rfl, .inr next⟩
          · rcases Cache.put_found cache relayed.record x j kept with ⟨rfl, rfl⟩ | held
            · exact .inr ⟨relayed, rfl, rfl, .inl rfl⟩
            · exact .inl held

theorem cached_successor_source (key : PubKey) (cache : Cache) (record y : SignedRecord) (on : up.cache = some cache)
    (found : (cachedSuccessor now (cache.get key now).2 record).1 = some y) :
    ∃ next, record.record.successor = some next ∧ Source prim now store up next y := by
  unfold cachedSuccessor at found
  cases named : record.record.successor with
  | none =>
      rw [named] at found
      cases found
  | some next =>
      rw [named] at found
      have hit : ((cache.get key now).2.get next now).1 = some (some y) := Option.join_eq_some_iff.mp found
      exact ⟨next, rfl, .cached cache on (Cache.get_within cache key now next y (Cache.get_found _ next now y hit))⟩

theorem cached_successor_within (cache : Cache) (record : SignedRecord) :
    Cache.Within (cachedSuccessor now cache record).2 cache := by
  unfold cachedSuccessor
  cases record.record.successor with
  | none => exact fun _ _ found => found
  | some next => exact Cache.get_within cache next now

-- What a lookup hands out, and what it leaves in the cache, each has a source.
structure Sourced (key : PubKey) (result : Except Error (Option Relayed)) (left : Option Cache) : Prop where
  record : ∀ relayed, result = .ok (some relayed) →
    Source prim now store up key relayed.record ∧ relayed.record.record.isExpired now = false
  successor : ∀ relayed y, result = .ok (some relayed) → relayed.successor = some y →
    ∃ next, relayed.record.record.successor = some next ∧ Source prim now store up next y
  kept : ∀ cache j x, left = some cache → cache.lookup j = some (.found x) → Source prim now store up j x

theorem concluded_sourced (key : PubKey) (reply : PeerLink ν → Reply) (outcome : Except (Nat × List String) Relayed)
    (left : Option Cache)
    (asked : askLinks prim debug store key now (fun link => some (reply link)) up.links 0 [] = some outcome)
    (kept : ∀ cache, left = some cache → ∃ before got, up.cache = some before ∧ Cache.Within got before ∧
      cache = remember key now up.links.length got outcome) :
    Sourced prim now store up key (conclude up.links.length outcome) left := by
  rcases ask_links_cases prim debug now store key reply up.links 0 [] with
    ⟨relayed, found, accepted, successor, _⟩ | ⟨count, lines, failed, _⟩
  · rw [found, Option.some.injEq] at asked
    subst asked
    refine ⟨?_, ?_, ?_⟩
    · intro answer same
      cases same
      exact ⟨.accepted accepted, (accept_ok prim now store key relayed.record accepted).2⟩
    · intro answer y same offered
      cases same
      obtain ⟨next, named, passed⟩ := successor y offered
      exact ⟨next, named, .accepted passed⟩
    · intro cache j x present held
      obtain ⟨before, got, on, within, rfl⟩ := kept cache present
      rcases remember_found now key j _ got _ x held with old | ⟨other, same, rfl, first | second⟩
      · exact .cached before on (within j x old)
      · cases same
        subst first
        rw [(accept_ok prim now store key relayed.record accepted).1]
        exact .accepted accepted
      · cases same
        obtain ⟨next, _, passed⟩ := successor x second
        rw [(accept_ok prim now store next x passed).1]
        exact .accepted passed
  · rw [failed, Option.some.injEq] at asked
    subst asked
    refine ⟨?_, ?_, ?_⟩
    · intro answer same
      exact False.elim (conclude_no_record _ count lines answer same)
    · intro answer y same _
      exact False.elim (conclude_no_record _ count lines answer same)
    · intro cache j x present held
      obtain ⟨before, got, on, within, rfl⟩ := kept cache present
      rcases remember_found now key j _ got _ x held with old | ⟨relayed, same, _⟩
      · exact .cached before on (within j x old)
      · cases same

theorem lookup_sourced (key : PubKey) (reply : PeerLink ν → Request → Reply) (recurse : UInt8)
    (result : Except Error (Option Relayed)) (left : Option Cache)
    (looked : up.lookup prim debug store key now (fun link request => some (reply link request)) recurse = some (result, left)) :
    Sourced prim now store up key result left := by
  cases on : up.cache with
  | none =>
      rw [lookup_off prim debug store key now up _ recurse on] at looked
      obtain ⟨outcome, asked, same⟩ := Option.map_eq_some_iff.mp looked
      cases same
      exact concluded_sourced prim debug now store up key _ outcome none asked (by simp)
  | some cache =>
      have within := Cache.get_within cache key now
      have hit := cache_get_iff cache key now
      cases answered : cache.get key now with
      | mk answer got =>
          rw [answered] at within
          obtain _ | _ | record := answer
          · rw [lookup_forward prim debug store key now up _ recurse cache got on answered] at looked
            obtain ⟨outcome, asked, same⟩ := Option.map_eq_some_iff.mp looked
            cases same
            refine concluded_sourced prim debug now store up key _ outcome _ asked ?_
            intro after same
            cases same
            exact ⟨cache, got, on, within, rfl⟩
          · rw [lookup_negative prim debug store key now up _ recurse cache got on answered] at looked
            cases looked
            refine ⟨by simp, by simp, ?_⟩
            intro after j x same found
            cases same
            exact .cached cache on (within j x found)
          · rw [lookup_hit prim debug store key now up _ recurse cache got record on answered] at looked
            cases looked
            rw [answered] at hit
            obtain ⟨held, current⟩ := (hit record).mp rfl
            refine ⟨?_, ?_, ?_⟩
            · intro relayed same
              cases same
              exact ⟨.cached cache on held, current⟩
            · intro relayed y same offered
              cases same
              refine cached_successor_source prim now store up key cache record y on ?_
              rw [answered]
              exact offered
            · intro after j x same found
              cases same
              exact .cached cache on (within j x (cached_successor_within now got record j x found))

end Lookup

theorem handled_cases (now : Nat) (node : Node ν) (q : Query ν) (response : Response) (cache : Option Cache)
    (result : handled prim debug now node q = some (response, cache)) :
    (∃ record, node.store.get q.key now = some record ∧ cache = node.upstream.cache ∧
      response = .answer (some record) (record.record.successor.bind (fun next => node.store.get next now))) ∨
    (node.store.get q.key now = none ∧ cache = node.upstream.cache ∧ response = .answer none none) ∨
    (node.store.get q.key now = none ∧ ∃ relayed, Sourced prim now node.store node.upstream q.key relayed cache ∧
      response = match relayed with
        | .ok (some found) => .answer (some found.record) found.successor
        | .ok none => .answer none none
        | .error e => .error .upstreamFailed e.toText) := by
  obtain hit | stop | ⟨missing, hops, linked, relayed, looked, rfl⟩ := handled_turn prim debug now node q response cache result
  · exact .inl hit
  · exact .inr (.inl stop)
  · refine .inr (.inr ⟨missing, relayed, lookup_sourced prim debug now node.store node.upstream q.key _ _ relayed cache looked, ?_⟩)
    exact Node.miss_response now node q.key q.budget missing hops linked relayed

structure Trusted (r : Relay ν) : Prop where
  consistent : Consistent prim r.node.store
  genuine : ∀ cache, r.node.upstream.cache = some cache → Cache.Genuine prim cache

theorem fresh_trusted (r : Relay ν) (fresh : Fresh prim r) : Trusted prim r := by
  obtain ⟨⟨file, openedAt, opened⟩, empty⟩ := fresh
  refine ⟨opened ▸ open_consistent prim file openedAt, ?_⟩
  intro cache on
  exact empty cache on ▸ Cache.new_genuine prim

theorem source_genuine (now : Nat) (store : Store) (up : Upstream ν) (key : PubKey) (record : SignedRecord)
    (genuine : ∀ cache, up.cache = some cache → Cache.Genuine prim cache) (source : Source prim now store up key record) :
    record.key = key ∧ record.verify prim = .ok () := by
  cases source with
  | cached cache on held => exact genuine cache on key record held
  | accepted ok =>
      obtain ⟨own, verified, _⟩ := (verify_answer_iff prim record key now).mp (accept_pinned prim now store key record ok).1
      exact ⟨own, verified⟩

theorem step_trusted (r r' : Relay ν) (e : RelayEvent ν) (step : RelayStep prim debug r e r') (trusted : Trusted prim r) :
    Trusted prim r' := by
  cases step with
  | tick later forward => exact ⟨trusted.consistent, trusted.genuine⟩
  | publish record =>
      refine ⟨?_, trusted.genuine⟩
      rw [publish_store]
      exact put_consistent prim r.node.store record r.now trusted.consistent
  | lookup q response cache result =>
      refine ⟨trusted.consistent, ?_⟩
      intro after on
      rcases handled_cases prim debug r.now r.node q response cache result with
        ⟨_, _, same, _⟩ | ⟨_, same, _⟩ | ⟨_, relayed, sourced, _⟩
      · exact trusted.genuine after (same ▸ on)
      · exact trusted.genuine after (same ▸ on)
      · intro j x held
        exact source_genuine prim r.now _ _ j x trusted.genuine (sourced.kept after j x on held)
  | purge =>
      refine ⟨purge_consistent prim r.node.store r.now trusted.consistent, ?_⟩
      intro after on
      obtain ⟨cache, held, rfl⟩ := Option.map_eq_some_iff.mp on
      exact Cache.within_genuine prim _ cache (Cache.purge_within cache r.now) (trusted.genuine cache held)

def Vouched (key : PubKey) (record successor : Option SignedRecord) : Prop :=
  (∀ x, record = some x → x.key = key ∧ x.verify prim = .ok ()) ∧
    ∀ y, successor = some y → ∃ x next reason, record = some x ∧ x.record.body = .superseded next reason ∧
      y.key = next ∧ y.verify prim = .ok ()

theorem store_vouched (s : Store) (key : PubKey) (now : Nat) (record : SignedRecord) (consistent : Consistent prim s)
    (held : s.get key now = some record) :
    Vouched prim key (some record) (record.record.successor.bind (fun next => s.get next now)) := by
  have stored : ∀ k r, s.get k now = some r → r.key = k ∧ r.verify prim = .ok () := by
    intro k r found
    have inside := (Option.filter_eq_some_iff.mp found).1
    exact ⟨consistent.own k r inside, consistent.verified k r inside⟩
  constructor
  · intro x same
    cases same
    exact stored key record held
  · intro y found
    obtain ⟨next, named, there⟩ := Option.bind_eq_some_iff.mp found
    obtain ⟨reason, body⟩ := Record.successor_body record.record next named
    exact ⟨record, next, reason, rfl, body, stored next y there⟩

theorem sourced_vouched (now : Nat) (store : Store) (up : Upstream ν) (key : PubKey) (relayed : Relayed) (left : Option Cache)
    (genuine : ∀ cache, up.cache = some cache → Cache.Genuine prim cache)
    (sourced : Sourced prim now store up key (.ok (some relayed)) left) :
    Vouched prim key (some relayed.record) relayed.successor := by
  constructor
  · intro x same
    cases same
    exact source_genuine prim now store up key relayed.record genuine (sourced.record relayed rfl).1
  · intro y offered
    obtain ⟨next, named, source⟩ := sourced.successor relayed y rfl offered
    obtain ⟨reason, body⟩ := Record.successor_body relayed.record.record next named
    exact ⟨relayed.record, next, reason, rfl, body, source_genuine prim now store up next y genuine source⟩

theorem nothing_vouched (key : PubKey) : Vouched prim key none none := ⟨by simp, by simp⟩

theorem relaying_adds_no_trust (start r : Relay ν) (moves : List (Transition (Relay ν) (RelayEvent ν))) (fresh : Fresh prim start)
    (history : Run (RelayStep prim debug) start moves r) :
    ∀ move ∈ moves, ∀ q record successor, move.label = .lookup q (.answer record successor) →
      (∀ x, record = some x → x.key = q.key ∧ x.verify prim = .ok ()) ∧
      ∀ y, successor = some y → ∃ x next reason, record = some x ∧ x.record.body = .superseded next reason ∧
        y.key = next ∧ y.verify prim = .ok () := by
  intro move member q record successor asked
  obtain ⟨trusted, step, _⟩ := run_move_invariant (Trusted prim) (fun _ => True)
    (fun u e v step _ => step_trusted prim debug u v e step) (fun _ _ => trivial) history (fresh_trusted prim start fresh)
    move member
  rw [asked] at step
  generalize move.post = after at step
  cases step with
  | lookup _ _ cache result =>
      rcases handled_cases prim debug _ move.pre.node q _ cache result with
        ⟨x, held, _, same⟩ | ⟨_, _, same⟩ | ⟨_, relayed, sourced, same⟩
      · cases same
        exact store_vouched prim move.pre.node.store q.key _ x trusted.consistent held
      · cases same
        exact nothing_vouched prim q.key
      · cases relayed with
        | error e => cases same
        | ok found =>
            cases found with
            | none =>
                cases same
                exact nothing_vouched prim q.key
            | some found =>
                cases same
                exact sourced_vouched prim _ _ _ q.key found cache trusted.genuine sourced

-- A Publish that leaves a contradiction behind: it is accepted for a key for
-- which the cache keeps a record under another identity, and that record will
-- still be fresh when the new one lapses. `bind` never looks at the cache.
def Eclipsing (r : Relay ν) (record : SignedRecord) : Prop :=
  Accepted prim r.node.store record r.now ∧ record.record.isTerminal = false ∧
    ∃ cache x, r.node.upstream.cache = some cache ∧ cache.lookup record.key = some (.found x) ∧
      x.identity ≠ record.identity ∧ x.record.isExpired record.record.expiresAt = false

-- The record the store holds for the key keeps a cached record from being used,
-- for as long as that one is fresh.
def Shields (held cached : SignedRecord) : Prop :=
  held.record.isTerminal = true ∨ cached.record.isExpired held.record.expiresAt = true

def Agreeing (r : Relay ν) : Prop :=
  ∀ cache k x i, r.node.upstream.cache = some cache → cache.lookup k = some (.found x) →
    r.node.store.bindings.lookup k = some i →
    x.identity = i ∨ x.record.isExpired r.now = true ∨ ∃ y, r.node.store.records.lookup k = some y ∧ Shields y x

theorem shield_lapsed (held cached : SignedRecord) (now : Nat) (shields : Shields held cached)
    (lapsed : held.record.isExpired now = true) : cached.record.isExpired now = true := by
  rcases shields with terminal | first
  · rw [Record.terminal_not_expired _ now terminal] at lapsed
    cases lapsed
  · refine Record.expired_mono _ _ now ?_ first
    simp only [Record.isExpired, Bool.and_eq_true, decide_eq_true_eq] at lapsed
    exact lapsed.2

theorem fresh_agreeing (r : Relay ν) (fresh : Fresh prim r) : Agreeing r := by
  intro cache k x i on held
  rw [fresh.2 cache on] at held
  simp [Cache.new] at held

theorem publish_agreeing (r : Relay ν) (record : SignedRecord) (apart : ¬ Eclipsing prim r record) (agreeing : Agreeing r) :
    Agreeing { r with node := { r.node with store := (r.node.store.put prim record r.now).2 } } := by
  rcases put_cases prim r.node.store record r.now with ⟨e, refused⟩ | ⟨stale, _⟩ | ⟨accepted, stored⟩
  · rw [refused]
    exact agreeing
  · rw [stale]
    exact agreeing
  · rw [stored]
    intro cache k x i on held bound
    have bound : (r.node.store.accept record).bindings.lookup k = some i := bound
    have kept := agreeing cache k x
    by_cases own : k = record.key
    · subst own
      have named : record.identity = i := by
        rw [accept_bindings_lookup, if_pos rfl, Option.some.injEq] at bound
        cases before : r.node.store.bindings.lookup record.key with
        | none => simpa [before] using bound
        | some old =>
            rw [before, Option.getD_some] at bound
            exact (accepted.pinned old before).trans bound
      by_cases same : x.identity = i
      · exact .inl same
      · refine .inr (.inr ⟨record, by simp, ?_⟩)
        cases terminal : record.record.isTerminal with
        | true => exact .inl terminal
        | false =>
            refine .inr ?_
            by_contra outlives
            exact apart ⟨accepted, terminal, cache, x, on, held, named ▸ same, by simpa using outlives⟩
    · rw [accept_bindings_lookup, if_neg own] at bound
      rcases kept i on held bound with same | lapsed | ⟨y, there, shields⟩
      · exact .inl same
      · exact .inr (.inl lapsed)
      · exact .inr (.inr ⟨y, by simpa [own] using there, shields⟩)

theorem step_agreeing (r r' : Relay ν) (e : RelayEvent ν) (step : RelayStep prim debug r e r')
    (apart : ∀ record response, e = .publish record response → ¬ Eclipsing prim r record) (agreeing : Agreeing r) :
    Agreeing r' := by
  cases step with
  | tick later forward =>
      intro cache k x i on held bound
      rcases agreeing cache k x i on held bound with same | lapsed | shielded
      · exact .inl same
      · exact .inr (.inl (Record.expired_mono _ _ later forward lapsed))
      · exact .inr (.inr shielded)
  | publish record =>
      rw [publish_store]
      exact publish_agreeing prim r record (apart record _ rfl) agreeing
  | lookup q response cache result =>
      intro after k x i on held bound
      rcases handled_cases prim debug r.now r.node q response cache result with
        ⟨_, _, same, _⟩ | ⟨_, same, _⟩ | ⟨_, relayed, sourced, _⟩
      · exact agreeing after k x i (same ▸ on) held bound
      · exact agreeing after k x i (same ▸ on) held bound
      · cases sourced.kept after k x on held with
        | cached before present there => exact agreeing before k x i present there bound
        | accepted ok => exact .inl ((accept_pinned prim r.now r.node.store k x ok).2 i bound)
  | purge =>
      intro after k x i on held bound
      obtain ⟨cache, present, rfl⟩ := Option.map_eq_some_iff.mp on
      rcases agreeing cache k x i present (Cache.purge_within cache r.now k x held) bound with same | lapsed | ⟨y, there, shields⟩
      · exact .inl same
      · exact .inr (.inl lapsed)
      · cases swept : y.record.isExpired r.now with
        | true => exact .inr (.inl (shield_lapsed y x r.now shields swept))
        | false => exact .inr (.inr ⟨y, by simp [there, swept], shields⟩)

theorem agreeing_source (r : Relay ν) (k i : PubKey) (x : SignedRecord) (agreeing : Agreeing r)
    (missing : r.node.store.get k r.now = none) (bound : r.node.store.bindings.lookup k = some i)
    (source : Source prim r.now r.node.store r.node.upstream k x) (current : x.record.isExpired r.now = false) :
    x.identity = i := by
  cases source with
  | accepted ok => exact (accept_pinned prim r.now r.node.store k x ok).2 i bound
  | cached cache on held =>
      rcases agreeing cache k x i on held bound with same | lapsed | ⟨y, there, shields⟩
      · exact same
      · rw [current] at lapsed
        cases lapsed
      · have swept : y.record.isExpired r.now = true := by
          rw [Store.get, there, Option.filter_some] at missing
          simpa using missing
        rw [shield_lapsed y x r.now shields swept] at current
        cases current

theorem cached_hit_answers (now : Nat) (node : Node ν) (q : Query ν) (cache : Cache) (x : SignedRecord)
    (missing : node.store.get q.key now = none) (hops : q.budget ≠ 0) (linked : node.upstream.links.length ≠ 0)
    (on : node.upstream.cache = some cache) (held : cache.lookup q.key = some (.found x)) (current : x.record.isExpired now = false) :
    ∃ successor left, handled prim debug now node q = some (.answer (some x) successor, left) := by
  have hit : cache.get q.key now = (some (some x), cache) := by simp [Cache.get, held, Cache.fresh, current, Cache.answer]
  refine ⟨(cachedSuccessor now cache x).1, some (cachedSuccessor now cache x).2, ?_⟩
  rw [handled, Node.handle_lookup_miss prim debug now node _ q.key q.budget missing hops linked,
    lookup_hit prim debug _ q.key now _ _ _ cache cache x on hit, Option.map_some]
  rw [Node.miss_response now node q.key q.budget missing hops linked]

-- After such a Publish it only takes time: once its record has lapsed, whoever
-- asks is given the other identity's record.
theorem eclipsed_answer (r : Relay ν) (record : SignedRecord) (eclipsing : Eclipsing prim r record) (after : Node ν)
    (stored : after.store = (r.node.store.put prim record r.now).2) (same : after.upstream = r.node.upstream) (q : Query ν)
    (own : q.key = record.key) (hops : q.budget ≠ 0) (linked : after.upstream.links.length ≠ 0) :
    r.now ≤ record.record.expiresAt ∧ after.store.get q.key record.record.expiresAt = none ∧
      after.store.identityOf q.key = some record.identity ∧ ∃ x successor left, x.identity ≠ record.identity ∧
        handled prim debug record.record.expiresAt after q = some (.answer (some x) successor, left) := by
  obtain ⟨accepted, live, cache, x, on, held, other, outlives⟩ := eclipsing
  rw [put_accepted prim r.node.store record r.now accepted] at stored
  have current := accepted.admitted.fresh
  have lapsed : record.record.isExpired record.record.expiresAt = true := by simp [Record.isExpired, live]
  have missing : after.store.get q.key record.record.expiresAt = none := by
    rw [Store.get, own, stored, accept_records_lookup, if_pos rfl, Option.filter_some, lapsed]
    rfl
  refine ⟨?_, missing, ?_, ?_⟩
  · simp only [Record.isExpired, live, Bool.not_false, Bool.true_and, decide_eq_false_iff_not] at current
    omega
  · rw [own, identityOf, stored, accept_bindings_lookup, if_pos rfl]
    cases before : r.node.store.bindings.lookup record.key with
    | none => rfl
    | some old => rw [Option.getD_some, accepted.pinned old before]
  · obtain ⟨successor, left, answered⟩ := cached_hit_answers prim debug record.record.expiresAt after q cache x missing hops linked
      (same ▸ on) (own ▸ held) outlives
    exact ⟨x, successor, left, other, answered⟩

theorem relayed_identity_is_pinned (start r : Relay ν) (moves : List (Transition (Relay ν) (RelayEvent ν))) (fresh : Fresh prim start)
    (history : Run (RelayStep prim debug) start moves r) :
    ((∀ move ∈ moves, ∀ record response, move.label = .publish record response → ¬ Eclipsing prim move.pre record) →
      ∀ move ∈ moves, ∀ q x successor i, move.label = .lookup q (.answer (some x) successor) →
        move.pre.node.store.get q.key move.pre.now = none → move.pre.node.store.identityOf q.key = some i → x.identity = i) ∧
    ∀ move ∈ moves, ∀ record response, move.label = .publish record response → Eclipsing prim move.pre record →
      ∀ q : Query ν, q.key = record.key → q.budget ≠ 0 → move.post.node.upstream.links.length ≠ 0 →
        ∃ later x successor cache, move.post.now ≤ later ∧ move.post.node.store.get q.key later = none ∧
          handled prim debug later move.post.node q = some (.answer (some x) successor, cache) ∧
          move.post.node.store.identityOf q.key = some record.identity ∧ x.identity ≠ record.identity := by
  apply And.intro
  · intro apart move member q x successor i asked missing bound
    obtain ⟨agreeing, step, _⟩ := run_move_invariant Agreeing
      (fun move => ∀ record response, move.label = .publish record response → ¬ Eclipsing prim move.pre record)
      (fun u e v step ok => step_agreeing prim debug u v e step ok) apart history (fresh_agreeing prim start fresh) move member
    rw [asked] at step
    generalize move.post = after at step
    cases step with
    | lookup _ _ cache result =>
        rcases handled_cases prim debug _ move.pre.node q _ cache result with
          ⟨_, held, _⟩ | ⟨_, _, same⟩ | ⟨_, relayed, sourced, same⟩
        · rw [missing] at held
          cases held
        · cases same
        · cases relayed with
          | error e => cases same
          | ok found =>
              cases found with
              | none => cases same
              | some found =>
                  cases same
                  obtain ⟨source, current⟩ := sourced.record found rfl
                  exact agreeing_source prim move.pre q.key i found.record agreeing missing bound source current
  · intro move member record response published eclipsing q own hops linked
    obtain ⟨_, step, _⟩ := run_move_invariant (fun _ : Relay ν => True) (fun _ => True) (fun _ _ _ _ _ _ => trivial)
      (fun _ _ => trivial) history trivial move member
    rw [published] at step
    generalize move.post = after at step linked
    cases step with
    | publish =>
        obtain ⟨later, missing, bound, x, successor, left, other, answered⟩ :=
          eclipsed_answer prim debug move.pre record eclipsing
            { move.pre.node with store := (move.pre.node.server.handlePublish prim record move.pre.now).store }
            (publish_store prim move.pre.node.server record move.pre.now) rfl q own hops linked
        exact ⟨_, x, successor, left, later, missing, answered, bound, other⟩

section Sample

open Sample

-- An upstream that says whatever it likes, and a server that caches it.
def saying (response : Response) : PeerLink Unit → Request → Reply := fun _ _ => .answered response

def relay : Relay Unit := ⟨1000, Store.new, 0, true, [⟨"sqc://up", ()⟩], some Cache.new⟩

theorem relay_fresh : Fresh ed25519 relay := ⟨⟨none, 0, rfl⟩, fun _ on => (Option.some.inj on).symm⟩

theorem relaying_adds_no_trust_sample :
    ∃ r', RelayStep ed25519 (fun _ => "") relay
        (.lookup ⟨node, 1, saying (.answer (some publish) (some late))⟩ (.answer (some publish) none)) r' ∧
      publish.key = node ∧ publish.verify ed25519 = .ok () := by
  have answered : handled ed25519 (fun _ => "") 1000 relay.node ⟨node, 1, saying (.answer (some publish) (some late))⟩ =
      some (.answer (some publish) none, some (Cache.new.put publish)) := by decide +kernel
  have step := RelayStep.lookup relay _ _ _ answered
  have vouched := relaying_adds_no_trust ed25519 (fun _ => "") relay _ _ relay_fresh (.cons _ _ _ _ _ step (.nil _))
    _ (List.mem_singleton_self _) _ _ _ rfl
  exact ⟨_, step, vouched.1 publish rfl⟩

def remembering (x : SignedRecord) : Relay Unit := { relay with node := withCache relay.node (some (Cache.new.put x)) }

def published (x : SignedRecord) : Relay Unit :=
  { remembering x with node := { (remembering x).node with
    store := ((remembering x).node.server.handlePublish ed25519 withdrawal 1000).store } }

def lapsed (x : SignedRecord) : Relay Unit := { published x with now := 1030 }

def silence : Query Unit := ⟨node, 1, saying (.answer none none)⟩

def recalled (x : SignedRecord) : Transition (Relay Unit) (RelayEvent Unit) :=
  ⟨lapsed x, .lookup silence (.answer (some x) none), { lapsed x with node := withCache (lapsed x).node (some (Cache.new.put x)) }⟩

-- The server relays `x`, is then given a first record of its own for the same
-- key, outlives that one, and is asked again.
def episode (x : SignedRecord) : List (Transition (Relay Unit) (RelayEvent Unit)) :=
  [⟨relay, .lookup ⟨node, 1, saying (.answer (some x) none)⟩ (.answer (some x) none), remembering x⟩,
    ⟨remembering x, .publish withdrawal ((remembering x).node.server.handlePublish ed25519 withdrawal 1000).response, published x⟩,
    ⟨published x, .tick 1030, lapsed x⟩, recalled x]

theorem episode_runs (x : SignedRecord)
    (first : handled ed25519 (fun _ => "") 1000 relay.node ⟨node, 1, saying (.answer (some x) none)⟩ =
      some (.answer (some x) none, some (Cache.new.put x)))
    (last : handled ed25519 (fun _ => "") 1030 (lapsed x).node silence = some (.answer (some x) none, some (Cache.new.put x))) :
    Run (RelayStep ed25519 (fun _ => "")) relay (episode x) (recalled x).post :=
  .cons _ _ _ _ _ (.lookup relay _ _ _ first) (.cons _ _ _ _ _ (.publish (remembering x) withdrawal)
    (.cons _ _ _ _ _ (.tick (published x) 1030 (show 1000 ≤ 1030 by decide)) (.cons _ _ _ _ _ (.lookup (lapsed x) _ _ _ last) (.nil _))))

theorem relayed_identity_is_pinned_sample :
    (∃ r, Run (RelayStep ed25519 (fun _ => "")) relay (episode publish) r) ∧
      (lapsed publish).node.store.identityOf node = some alice ∧ publish.identity = alice := by
  have history := episode_runs publish (by decide +kernel) (by decide +kernel)
  have bound : (lapsed publish).node.store.identityOf node = some alice := by decide +kernel
  have missing : (lapsed publish).node.store.get node 1030 = none := by decide +kernel
  refine ⟨⟨_, history⟩, bound, ?_⟩
  refine (relayed_identity_is_pinned ed25519 (fun _ => "") relay _ (episode publish) relay_fresh history).1 ?_
    (recalled publish) (by simp [episode]) silence publish none alice rfl missing bound
  intro move member record response label eclipsing
  simp only [episode, List.mem_cons, List.not_mem_nil, or_false] at member
  rcases member with rfl | rfl | rfl | rfl
  · cases label
  · cases label
    obtain ⟨_, _, cache, x, on, held, other, _⟩ := eclipsing
    cases on
    have same : (Cache.new.put publish).lookup withdrawal.key = some (.found publish) := by decide +kernel
    rw [same] at held
    cases held
    exact other rfl
  · cases label
  · cases label

theorem cached_answer_contradicts_pin :
    Fresh ed25519 relay ∧ (∃ r, Run (RelayStep ed25519 (fun _ => "")) relay (episode hijack) r) ∧
      ∃ move ∈ episode hijack, move.label = .lookup silence (.answer (some hijack) none) ∧
        move.pre.node.store.get node move.pre.now = none ∧ move.pre.node.store.identityOf node = some alice ∧
        hijack.identity ≠ alice := by
  refine ⟨relay_fresh, ⟨_, episode_runs hijack (by decide +kernel) (by decide +kernel)⟩,
    recalled hijack, by simp [episode], rfl, ?_, ?_, ?_⟩
  · decide +kernel
  · decide +kernel
  · decide +kernel

end Sample

end Sqns.Upstream
