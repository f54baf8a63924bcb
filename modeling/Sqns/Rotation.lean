import Sqns.NoDowngrade
import Sqns.Serving

set_option autoImplicit false

namespace Sqns.Resolver

variable (prim : Primitives) (debug : Response → String)

theorem take_genuine (r taken : Resolver) (key : PubKey) (now : Nat) (record : SignedRecord)
    (genuine : Cache.Genuine prim r.cache) (ok : r.take prim key now record = .ok taken) :
    Cache.Genuine prim taken.cache ∧ record.key = key ∧ record.verify prim = .ok () := by
  simp only [take, then_ok] at ok
  obtain ⟨_, answers, noted, note, kept⟩ := ok
  obtain ⟨own, verified, _⟩ := (verify_answer_iff prim record key now).mp answers
  obtain ⟨rfl, _⟩ := note_rank_ok prim r noted record note
  cases kept
  refine ⟨?_, own, verified⟩
  unfold remember
  split
  · exact Cache.put_genuine prim r.cache record genuine verified
  · exact genuine

theorem consult_genuine (r : Resolver) (key : PubKey) (now : Nat) (genuine : Cache.Genuine prim r.cache) :
    Cache.Genuine prim (r.consult key now).2.cache ∧ ∀ record, (r.consult key now).1 = some (some record) →
      record.key = key ∧ record.verify prim = .ok () := by
  unfold consult
  split
  · refine ⟨Cache.within_genuine prim _ _ (Cache.get_within r.cache key now) genuine, ?_⟩
    intro record hit
    exact genuine key record (Cache.get_found r.cache key now record hit)
  · exact ⟨genuine, by simp⟩

theorem settle_genuine (r : Resolver) (key : PubKey) (now : Nat) (response : Except Error Response)
    (genuine : Cache.Genuine prim r.cache) :
    Cache.Genuine prim (r.settle prim debug key now response).2.cache ∧
      ∀ record successor, (r.settle prim debug key now response).1 = .ok (some record, successor) →
        record.key = key ∧ record.verify prim = .ok () := by
  match response with
  | .error e => exact ⟨genuine, by simp [settle]⟩
  | .ok (.answer (some record) successor) =>
      simp only [settle]
      cases took : r.take prim key now record with
      | error e => exact ⟨genuine, by simp⟩
      | ok taken =>
          obtain ⟨kept, own, verified⟩ := take_genuine prim r taken key now record genuine took
          refine ⟨kept, ?_⟩
          intro same _ eq
          cases eq
          exact ⟨own, verified⟩
  | .ok (.answer none _) =>
      refine ⟨?_, by simp [settle]⟩
      simp only [settle, rememberMissing]
      split
      · exact Cache.within_genuine prim _ _ (Cache.put_missing_within r.cache key now) genuine
      · exact genuine
  | .ok (.published _ _) => exact ⟨genuine, by simp [settle]⟩
  | .ok (.status _) => exact ⟨genuine, by simp [settle]⟩
  | .ok (.records _ _) => exact ⟨genuine, by simp [settle]⟩
  | .ok (.error _ _) => exact ⟨genuine, by simp [settle]⟩

theorem fetch_genuine (r : Resolver) (key : PubKey) (exchange : Exchange) (genuine : Cache.Genuine prim r.cache) :
    Cache.Genuine prim (r.fetch prim debug key exchange).2.cache ∧
      ∀ record successor, (r.fetch prim debug key exchange).1 = .ok (some record, successor) →
        record.key = key ∧ record.verify prim = .ok () := by
  obtain ⟨consulted, hits⟩ := consult_genuine prim r key exchange.asked genuine
  simp only [fetch]
  generalize r.consult key exchange.asked = reply at consulted hits
  obtain ⟨hit, r'⟩ := reply
  cases hit with
  | none => exact settle_genuine prim debug r' key _ _ consulted
  | some answer =>
      refine ⟨consulted, ?_⟩
      intro record successor same
      cases same
      exact hits record rfl

-- Each record names the key of the one after it, and the last one names `final`.
def Forwards (records : List SignedRecord) (final : PubKey) : Prop :=
  ∀ j record, records[j]? = some record → record.verify prim = .ok () ∧
    ∃ next reason, (records.map SignedRecord.key ++ [final])[j + 1]? = some next ∧ record.record.body = .superseded next reason

theorem forwards_snoc (records : List SignedRecord) (record : SignedRecord) (next : PubKey) (reason : String)
    (before : Forwards prim records record.key) (verified : record.verify prim = .ok ())
    (names : record.record.body = .superseded next reason) : Forwards prim (records ++ [record]) next := by
  intro j used here
  rcases Nat.lt_trichotomy j records.length with inside | last | beyond
  · rw [List.getElem?_append_left inside] at here
    obtain ⟨good, follower, why, after, body⟩ := before j used here
    refine ⟨good, follower, why, ?_, body⟩
    rw [List.map_append, List.map_singleton, List.getElem?_append_left (by simp; omega)]
    exact after
  · subst last
    rw [List.getElem?_concat_length, Option.some.injEq] at here
    subst here
    refine ⟨verified, next, reason, ?_, names⟩
    simp
  · rw [List.getElem?_eq_none (by simp; omega)] at here
    cases here

-- What the walk knows at the head of the loop. `used` is the chain's records.
structure Tracing (requested : PubKey) (w : Walker) : Prop where
  genuine : Cache.Genuine prim w.resolver.cache
  ready : ∀ record, w.prefetched = some record → record.key = w.current ∧ record.verify prim = .ok ()
  keys : w.used.map SignedRecord.key = w.chain
  visited : ∀ k, k ∈ w.visited ↔ k ∈ w.chain ++ [w.current]
  distinct : (w.chain ++ [w.current]).Nodup
  first : (w.chain ++ [w.current]).head? = some requested
  forwards : Forwards prim w.used w.current

theorem next_record_genuine (requested : PubKey) (exchange : Exchange) (w : Walker) (tracing : Tracing prim requested w) :
    Cache.Genuine prim (nextRecord prim debug exchange w).2.resolver.cache ∧
      (∃ resolver fetches, fetches ≤ w.fetches + 1 ∧
        (nextRecord prim debug exchange w).2 = { w with resolver := resolver, prefetched := none, fetches := fetches }) ∧
      ∀ record successor, (nextRecord prim debug exchange w).1 = .ok (some record, successor) →
        record.key = w.current ∧ record.verify prim = .ok () := by
  simp only [nextRecord]
  cases ready : w.prefetched with
  | some held =>
      refine ⟨tracing.genuine, ⟨w.resolver, w.fetches, by omega, rfl⟩, ?_⟩
      intro record successor same
      cases same
      exact tracing.ready held ready
  | none =>
      obtain ⟨kept, fetched⟩ := fetch_genuine prim debug w.resolver w.current exchange tracing.genuine
      exact ⟨kept, ⟨_, w.fetches + 1, Nat.le_refl _, rfl⟩, fetched⟩

-- The location is the end of the chain, read off the record that ends it.
structure Rotated (requested : PubKey) (used : List SignedRecord) (loc : ServiceLocation) : Prop where
  keys : used.map SignedRecord.key = loc.supersededFrom ++ [loc.key]
  distinct : (loc.supersededFrom ++ [loc.key]).Nodup
  first : (loc.supersededFrom ++ [loc.key]).head? = some requested
  forwards : Forwards prim used.dropLast loc.key
  last : ∃ record endpoints, used.getLast? = some record ∧ record.verify prim = .ok () ∧
    record.record.body = .live endpoints ∧ record.identity = loc.identity ∧ loc.endpoints.Perm endpoints

theorem prefetch_tracing (requested : PubKey) (exchange : Exchange) (successor : Option SignedRecord) (w : Walker)
    (tracing : Tracing prim requested w) : Tracing prim requested (prefetch prim exchange successor w.current w) ∧
      (prefetch prim exchange successor w.current w).chain = w.chain ∧
      (prefetch prim exchange successor w.current w).fetches = w.fetches := by
  unfold prefetch
  cases successor with
  | none => exact ⟨tracing, rfl, rfl⟩
  | some candidate =>
      dsimp only
      split
      · exact ⟨tracing, rfl, rfl⟩
      · cases took : w.resolver.take prim w.current exchange.checked candidate with
        | error e => exact ⟨tracing, rfl, rfl⟩
        | ok taken =>
            obtain ⟨kept, own, verified⟩ := take_genuine prim w.resolver taken w.current _ candidate tracing.genuine took
            refine ⟨⟨kept, ?_, tracing.keys, tracing.visited, tracing.distinct, tracing.first, tracing.forwards⟩, rfl, rfl⟩
            intro record same
            cases same
            exact ⟨own, verified⟩

-- In the middle of a turn: the record for the current key is at hand.
structure Arrived (requested : PubKey) (record : SignedRecord) (before : List SignedRecord) (w : Walker) : Prop where
  genuine : Cache.Genuine prim w.resolver.cache
  taken : w.prefetched = none
  used : w.used = before ++ [record]
  keys : before.map SignedRecord.key = w.chain
  own : record.key = w.current
  verified : record.verify prim = .ok ()
  visited : ∀ k, k ∈ w.visited ↔ k ∈ w.chain ++ [w.current]
  distinct : (w.chain ++ [w.current]).Nodup
  first : (w.chain ++ [w.current]).head? = some requested
  forwards : Forwards prim before w.current

theorem live_body (record : SignedRecord) (kept : record.revocationError prim = none) (ends : record.record.successor = none) :
    record.record.body = .live record.record.endpoints := by
  unfold SignedRecord.revocationError at kept
  unfold Record.successor at ends
  unfold Record.endpoints
  cases body : record.record.body with
  | live endpoints => rfl
  | superseded successor reason => simp [body] at ends
  | revoked reason => simp [body] at kept

theorem arrived_rotated (requested : PubKey) (draws : Draws) (record : SignedRecord) (before : List SignedRecord) (w : Walker)
    (arrived : Arrived prim requested record before w) (kept : record.revocationError prim = none)
    (ends : record.record.successor = none) :
    Rotated prim requested w.used ⟨requested, record.key, record.identity, Select.orderWith draws record.record, w.chain⟩ := by
  have body := live_body prim record kept ends
  have own := arrived.own
  refine ⟨?_, ?_, ?_, ?_, record, record.record.endpoints, ?_, arrived.verified, body, rfl, Select.order_with_perm draws record.record⟩
  · rw [arrived.used, List.map_append, arrived.keys]
    rfl
  · exact own ▸ arrived.distinct
  · exact own ▸ arrived.first
  · rw [arrived.used, List.dropLast_concat]
    exact own ▸ arrived.forwards
  · rw [arrived.used, List.getLast?_concat]

theorem arrived_onward (requested : PubKey) (record : SignedRecord) (before : List SignedRecord) (w : Walker)
    (arrived : Arrived prim requested record before w) (next : PubKey) (names : record.record.successor = some next)
    (fresh : next ∉ w.visited) :
    Tracing prim requested { w with current := next, visited := insert next w.visited, chain := w.chain ++ [w.current] } := by
  obtain ⟨reason, body⟩ := Record.successor_body record.record next names
  have unseen := fun member => fresh ((arrived.visited next).mpr member)
  refine ⟨arrived.genuine, by simp [arrived.taken], ?_, ?_, ?_, ?_, ?_⟩
  · show w.used.map SignedRecord.key = w.chain ++ [w.current]
    rw [arrived.used, List.map_append, arrived.keys, List.map_singleton, arrived.own]
  · intro k
    simp only [Finset.mem_insert, arrived.visited, List.mem_append, List.mem_singleton]
    tauto
  · show ((w.chain ++ [w.current]) ++ [next]).Nodup
    refine List.nodup_append.mpr ⟨arrived.distinct, by simp, ?_⟩
    intro a inside b last same
    rw [List.mem_singleton] at last
    exact unseen (last ▸ same ▸ inside)
  · show ((w.chain ++ [w.current]) ++ [next]).head? = some requested
    rw [List.head?_append, arrived.first]
    rfl
  · show Forwards prim w.used next
    rw [arrived.used]
    exact forwards_snoc prim before record next reason (arrived.own ▸ arrived.forwards) arrived.verified body

theorem follow_arrived (requested : PubKey) (exchange : Exchange) (draws : Draws) (record : SignedRecord)
    (successor : Option SignedRecord) (before : List SignedRecord) (w : Walker) (arrived : Arrived prim requested record before w) :
    (∃ outcome, follow prim requested exchange draws record successor w = .done outcome w ∧
      ∀ loc, outcome = .ok loc → loc.supersededFrom = w.chain ∧ Rotated prim requested w.used loc) ∨
    ∃ onward, follow prim requested exchange draws record successor w = .onward onward ∧ Tracing prim requested onward ∧
      onward.chain.length = w.chain.length + 1 ∧ onward.fetches = w.fetches := by
  unfold follow
  cases kept : record.revocationError prim with
  | some revoked => exact .inl ⟨_, rfl, by simp⟩
  | none =>
      cases names : record.record.successor with
      | none =>
          refine .inl ⟨_, rfl, ?_⟩
          intro loc same
          cases same
          exact ⟨rfl, arrived_rotated prim requested draws record before w arrived kept names⟩
      | some next =>
          dsimp only
          split
          · exact .inl ⟨_, rfl, by simp⟩
          · rename_i fresh
            have tracing := arrived_onward prim requested record before w arrived next names fresh
            obtain ⟨still, chain, fetches⟩ := prefetch_tracing prim requested exchange successor _ tracing
            exact .inr ⟨_, rfl, still, by rw [chain]; simp, fetches⟩

theorem turn_tracing (requested : PubKey) (network : Nat → Exchange) (draws : Draws) (w : Walker)
    (tracing : Tracing prim requested w) :
    (∃ outcome w', turn prim debug requested network draws w = .done outcome w' ∧ w'.fetches ≤ w.fetches + 1 ∧
      Cache.Genuine prim w'.resolver.cache ∧
      ∀ loc, outcome = .ok loc → loc.supersededFrom = w.chain ∧ Rotated prim requested w'.used loc) ∨
    ∃ w', turn prim debug requested network draws w = .onward w' ∧ w'.fetches ≤ w.fetches + 1 ∧
      Tracing prim requested w' ∧ w'.chain.length = w.chain.length + 1 := by
  obtain ⟨genuine, ⟨resolver, fetches, few, after⟩, fetched⟩ :=
    next_record_genuine prim debug requested (network w.fetches) w tracing
  simp only [turn]
  generalize nextRecord prim debug (network w.fetches) w = got at genuine after fetched
  obtain ⟨outcome, w'⟩ := got
  dsimp only at genuine after fetched
  subst after
  rcases outcome with e | ⟨_ | record, successor⟩
  · exact .inl ⟨_, _, rfl, few, genuine, by simp⟩
  · exact .inl ⟨_, _, rfl, few, genuine, by simp⟩
  · obtain ⟨own, verified⟩ := fetched record successor rfl
    dsimp only
    rcases follow_arrived prim requested (network w.fetches) draws record successor w.used
      { w with resolver := resolver, prefetched := none, fetches := fetches, used := w.used ++ [record] }
      ⟨genuine, rfl, rfl, tracing.keys, own, verified, tracing.visited, tracing.distinct, tracing.first, tracing.forwards⟩ with
      ⟨outcome, done, located⟩ | ⟨onward, turned, still, longer, same⟩
    · exact .inl ⟨outcome, _, done, few, genuine, located⟩
    · exact .inr ⟨onward, turned, same ▸ few, still, longer⟩

-- Induction over the turns that are left: each one fetches at most once and
-- either ends the walk or lengthens the chain by one.
theorem walk_tracing (requested : PubKey) (network : Nat → Exchange) (draws : Draws) (hops : Nat) (w : Walker)
    (tracing : Tracing prim requested w) :
    (walk prim debug requested network draws hops w).2.fetches ≤ w.fetches + hops ∧
      Cache.Genuine prim (walk prim debug requested network draws hops w).2.resolver.cache ∧
      ∀ loc, (walk prim debug requested network draws hops w).1 = .ok loc → loc.supersededFrom.length < w.chain.length + hops ∧
        Rotated prim requested (walk prim debug requested network draws hops w).2.used loc := by
  induction hops generalizing w with
  | zero => exact ⟨Nat.le_refl _, tracing.genuine, by simp [walk]⟩
  | succ hops ih =>
      simp only [walk]
      rcases turn_tracing prim debug requested network draws w tracing with
        ⟨outcome, w', done, few, genuine, located⟩ | ⟨w', onward, few, still, longer⟩
      · rw [done]
        refine ⟨by dsimp only; omega, genuine, ?_⟩
        intro loc same
        obtain ⟨chain, rotated⟩ := located loc same
        exact ⟨by rw [chain]; omega, rotated⟩
      · rw [onward]
        obtain ⟨total, genuine, located⟩ := ih w' still
        refine ⟨by dsimp only; omega, genuine, ?_⟩
        intro loc same
        obtain ⟨length, rotated⟩ := located loc same
        exact ⟨by omega, rotated⟩

theorem start_tracing (r : Resolver) (key : PubKey) (genuine : Cache.Genuine prim r.cache) :
    Tracing prim key ⟨r, key, {key}, [], none, 0, []⟩ :=
  ⟨genuine, by simp, rfl, by simp, by simp, rfl, by intro j record here; simp at here⟩

theorem lookup_genuine (r : Resolver) (key : PubKey) (exchange : Exchange) (genuine : Cache.Genuine prim r.cache) :
    Cache.Genuine prim (r.lookup prim debug key exchange).2.cache :=
  (fetch_genuine prim debug r key exchange genuine).1

theorem publish_genuine (r : Resolver) (record : SignedRecord) (exchange : Exchange) (genuine : Cache.Genuine prim r.cache) :
    Cache.Genuine prim (r.publish prim debug record exchange).2.cache := by
  unfold publish
  cases record.verifyAnswer prim record.key exchange.asked with
  | error e => exact genuine
  | ok _ => exact Cache.within_genuine prim _ _ (Cache.invalidate_within r.cache record.key) genuine

theorem perform_genuine (r : Resolver) (op : Op) (genuine : Cache.Genuine prim r.cache) :
    Cache.Genuine prim (r.perform prim debug op).1.cache := by
  cases op with
  | lookup key exchange => exact lookup_genuine prim debug r key exchange genuine
  | lookupLive key exchange =>
      simp only [perform]
      rw [lookup_live_state]
      exact lookup_genuine prim debug r key exchange genuine
  | resolveService key network draws =>
      exact (walk_tracing prim debug key network draws maxSupersedeHops _ (start_tracing prim r key genuine)).2.1
  | publish record exchange => exact publish_genuine prim debug r record exchange genuine
  | purge now => exact Cache.within_genuine prim _ _ (Cache.purge_within r.cache now) genuine
  | clear => exact Cache.within_genuine prim _ _ (Cache.clear_within r.cache) genuine
  | invalidate key => exact Cache.within_genuine prim _ _ (Cache.invalidate_within r.cache key) genuine

theorem after_genuine (r : Resolver) (ops : List Op) (genuine : Cache.Genuine prim r.cache) :
    Cache.Genuine prim (r.after prim debug ops).cache := by
  induction ops generalizing r with
  | nil => exact genuine
  | cons op rest ih => exact ih _ (perform_genuine prim debug r op genuine)

theorem resolved_chain_is_genuine (config : ResolverConfig) (r : Resolver) (created : new config = .ok r) (ops : List Op)
    (key : PubKey) (network : Nat → Exchange) (draws : Draws) :
    let resolved := (r.after prim debug ops).resolveService prim debug key network draws
    resolved.2.fetches ≤ maxSupersedeHops ∧ ∀ loc, resolved.1 = .ok loc →
      ∃ (keys : List PubKey) (records : List SignedRecord) (last : SignedRecord),
        keys = loc.supersededFrom ++ [loc.key] ∧ keys.head? = some key ∧ keys.Nodup ∧
        loc.supersededFrom.length < maxSupersedeHops ∧ resolved.2.used = records ++ [last] ∧
        (records ++ [last]).map SignedRecord.key = keys ∧
        (∀ (j : Nat) record, records[j]? = some record → record.verify prim = .ok () ∧
          ∃ next reason, keys[j + 1]? = some next ∧ record.record.body = .superseded next reason ∧
            prim.verify record.identity (signedMessage record.record.encode) record.signature = true) ∧
        last.verify prim = .ok () ∧ last.identity = loc.identity ∧
        ∃ endpoints, last.record.body = .live endpoints ∧ loc.endpoints.Perm endpoints := by
  intro resolved
  have empty : Cache.Genuine prim r.cache := by
    rw [new_ok config r created]
    exact Cache.new_genuine prim
  obtain ⟨few, _, located⟩ := walk_tracing prim debug key network draws maxSupersedeHops _
    (start_tracing prim (r.after prim debug ops) key (after_genuine prim debug r ops empty))
  rw [Nat.zero_add] at few
  refine ⟨few, ?_⟩
  intro loc ok
  obtain ⟨length, rotated⟩ := located loc ok
  obtain ⟨last, endpoints, ends, verified, body, identity, perm⟩ := rotated.last
  have split : resolved.2.used = resolved.2.used.dropLast ++ [last] := (List.dropLast_append_getLast? last ends).symm
  have names : resolved.2.used.dropLast.map SignedRecord.key = loc.supersededFrom := by
    have keys := rotated.keys
    change resolved.2.used.map SignedRecord.key = _ at keys
    rw [split, List.map_append] at keys
    exact List.append_inj_left' keys rfl
  refine ⟨_, resolved.2.used.dropLast, last, rfl, rotated.first, rotated.distinct, by simpa using length, split, ?_, ?_,
    verified, identity, endpoints, body, perm⟩
  · rw [← split]
    exact rotated.keys
  · intro j record here
    obtain ⟨good, next, reason, after, retired⟩ := rotated.forwards j record here
    change (resolved.2.used.dropLast.map SignedRecord.key ++ [loc.key])[j + 1]? = some next at after
    rw [names] at after
    have signer : record.record.expectedSigner = record.identity :=
      Record.terminal_signer record.record (by simp [Record.isTerminal, Record.isSuperseded, retired])
    exact ⟨good, next, reason, after, retired, signer ▸ (SignedRecord.verify_signatures prim record good).2⟩

section Sample

open Sample

def rotated : Primitives := attesting [succession, late]

-- A server that holds `node`, moved to `spare`, and `spare`.
def forwarding : Exchange :=
  ⟨1000, 1000, 1000, fun _ request =>
    match request with
    | .lookup key _ => .ok (if key = node then .answer (some succession) (some late) else .answer (some late) none)
    | _ => .error (.protocol "only lookups")⟩

def firstDraw : Draws := ⟨fun _ _ => 0, fun _ _ positive => positive⟩

def twoStep : Except Error ServiceLocation × Walker :=
  (oneServer.after rotated (fun _ => "") [.clear]).resolveService rotated (fun _ => "") node (fun _ => forwarding) firstDraw

theorem resolved_chain_sample :
    ∃ loc, twoStep.1 = .ok loc ∧ loc.key = spare ∧ loc.supersededFrom = [node] ∧ (loc.supersededFrom ++ [loc.key]).Nodup ∧
      twoStep.2.fetches ≤ maxSupersedeHops := by
  have ends : twoStep.1.map (fun loc => (loc.key, loc.supersededFrom)) = .ok (spare, [node]) := by decide +kernel
  obtain ⟨few, genuine⟩ := resolved_chain_is_genuine rotated (fun _ => "") oneServer.config oneServer rfl [.clear] node
    (fun _ => forwarding) firstDraw
  cases resolved : twoStep.1 with
  | error e =>
      rw [resolved] at ends
      cases ends
  | ok loc =>
      rw [resolved] at ends
      simp only [Except.map, Except.ok.injEq, Prod.mk.injEq] at ends
      obtain ⟨keys, records, last, rfl, _, distinct, _⟩ := genuine loc resolved
      refine ⟨loc, rfl, ends.1, ends.2, distinct, ?_⟩
      unfold twoStep
      exact few

end Sample

end Sqns.Resolver
