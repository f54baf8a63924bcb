import Sqns.Rotation
import Sqns.Server

set_option autoImplicit false

namespace Sqns.Resolver

open Store

variable (prim : Primitives) (debug : Response → String)

-- What a server without upstreams answers from its store.
def served (s : Store) (key : PubKey) (recurse : UInt8) (now : Nat) : Response :=
  Server.handleLookup ⟨s, 0, 0, 0, true⟩ (fun _ _ => .ok none) key recurse now

theorem served_held (s : Store) (key : PubKey) (recurse : UInt8) (now : Nat) (record : SignedRecord)
    (held : s.get key now = some record) :
    served s key recurse now = .answer (some record) (record.record.successor.bind (fun next => s.get next now)) := by
  simp only [served, Server.handleLookup, held]

theorem served_missing (s : Store) (key : PubKey) (recurse : UInt8) (now : Nat) (missing : s.get key now = none) :
    served s key recurse now = .answer none none := by
  simp [served, Server.handleLookup, missing]

theorem map_error_ok {ε ε' α : Type} (x : Except ε α) (f : ε → ε') (a : α) : x.mapError f = .ok a ↔ x = .ok a := by
  cases x with
  | error e => simp [Except.mapError]
  | ok b => simp [Except.mapError]

theorem first_answer_from (ask : Nat → Except Error Response) (servers : List String) (idx : Nat) (response : Response)
    (answered : firstAnswer ask servers idx = .ok response) : ∃ j, ask j = .ok response := by
  induction servers generalizing idx with
  | nil => cases answered
  | cons server rest ih =>
      unfold firstAnswer at answered
      split at answered
      · exact ih (idx + 1) ((map_error_ok _ _ _).mp answered)
      · rename_i first _ here
        cases answered
        exact ⟨idx, here⟩
      · exact ih (idx + 1) ((map_error_ok _ _ _).mp answered)

theorem try_servers_served (r : Resolver) (exchange : Exchange) (s : Store) (key : PubKey) (recurse : UInt8) (t : Nat) (what : String)
    (single : r.config.servers.length = 1) (reply : exchange.reply 0 (.lookup key recurse) = .ok (served s key recurse t)) :
    r.tryServers exchange (.lookup key recurse) what = .ok (served s key recurse t) := by
  obtain ⟨address, only⟩ := List.length_eq_one_iff.mp single
  simp only [tryServers, only, firstAnswer, reply]
  cases held : s.get key t with
  | none =>
      rw [served_missing s key recurse t held]
      rfl
  | some record =>
      rw [served_held s key recurse t record held]
      rfl

-- Lookups answered from one store. `fair clock t` says that a client whose clock
-- reads `clock` may be judging an answer the server gave at `t`.
section Told

variable (s : Store) (fair : Nat → Nat → Prop) (inv : Resolver → Prop)

structure Told (exchange : Exchange) : Prop where
  reply : ∀ idx key recurse response, exchange.reply idx (.lookup key recurse) = .ok response →
    ∃ t, fair exchange.answered t ∧ fair exchange.checked t ∧ response = served s key recurse t

def Reads : Op → Prop
  | .lookup _ exchange => Told s fair exchange
  | .lookupLive _ exchange => Told s fair exchange
  | .resolveService _ network _ => ∀ i, Told s fair (network i)
  | .publish _ _ => False
  | .purge _ => True
  | .clear => True
  | .invalidate _ => True

-- What such lookups do to a resolver comes down to three steps.
structure Maintained : Prop where
  shrinks : ∀ r cache, inv r → (∀ k entry, cache.lookup k = some entry → r.cache.lookup k = some entry) →
    inv { r with cache := cache }
  takes : ∀ r taken key clock t record, inv r → fair clock t → s.get key t = some record →
    r.take prim key clock record = .ok taken → inv taken
  misses : ∀ r key clock t, inv r → fair clock t → s.get key t = none → inv (r.rememberMissing key clock)

variable {s fair inv} (maintained : Maintained prim s fair inv)

include maintained

theorem consult_keeps (r : Resolver) (key : PubKey) (clock : Nat) (holds : inv r) : inv (r.consult key clock).2 := by
  unfold consult
  split
  · exact maintained.shrinks r _ holds (fun k entry found => Cache.get_entry r.cache key k clock entry found)
  · exact holds

theorem settle_keeps (r : Resolver) (key : PubKey) (recurse : UInt8) (exchange : Exchange) (response : Except Error Response)
    (holds : inv r) (told : ∀ given, response = .ok given →
      ∃ t, fair exchange.answered t ∧ fair exchange.checked t ∧ given = served s key recurse t) :
    inv (r.settle prim debug key exchange.answered response).2 ∧
      ∀ record y, (r.settle prim debug key exchange.answered response).1 = .ok (some record, some y) →
        ∃ t next, fair exchange.checked t ∧ record.record.successor = some next ∧ s.get next t = some y := by
  cases response with
  | error e => exact ⟨holds, by simp [settle]⟩
  | ok given =>
      obtain ⟨t, answered, checked, rfl⟩ := told given rfl
      cases held : s.get key t with
      | none =>
          rw [served_missing s key recurse t held]
          exact ⟨maintained.misses r key exchange.answered t holds answered held, by simp [settle]⟩
      | some record =>
          rw [served_held s key recurse t record held]
          simp only [settle]
          cases took : r.take prim key exchange.answered record with
          | error e => exact ⟨holds, by simp⟩
          | ok taken =>
              refine ⟨maintained.takes r taken key exchange.answered t record holds answered held took, ?_⟩
              intro same y eq
              simp only [Except.ok.injEq, Prod.mk.injEq, Option.some.injEq] at eq
              obtain ⟨rfl, offered⟩ := eq
              obtain ⟨next, named, there⟩ := Option.bind_eq_some_iff.mp offered
              exact ⟨t, next, checked, named, there⟩

theorem fetch_keeps (r : Resolver) (key : PubKey) (exchange : Exchange) (holds : inv r) (told : Told s fair exchange) :
    inv (r.fetch prim debug key exchange).2 ∧
      ∀ record y, (r.fetch prim debug key exchange).1 = .ok (some record, some y) →
        ∃ t next, fair exchange.checked t ∧ record.record.successor = some next ∧ s.get next t = some y := by
  have consulted := consult_keeps prim maintained r key exchange.asked holds
  simp only [fetch]
  generalize r.consult key exchange.asked = reply at consulted
  obtain ⟨hit, r'⟩ := reply
  cases hit with
  | some answer => exact ⟨consulted, by simp⟩
  | none =>
      refine settle_keeps prim debug maintained r' key r'.config.recurse exchange _ consulted ?_
      intro given answered
      obtain ⟨j, reply⟩ := first_answer_from _ _ _ _ ((map_error_ok _ _ _).mp answered)
      exact told.reply j key r'.config.recurse given reply

theorem next_record_keeps (exchange : Exchange) (w : Walker) (holds : inv w.resolver) (told : Told s fair exchange) :
    inv (nextRecord prim debug exchange w).2.resolver ∧
      ∀ record y, (nextRecord prim debug exchange w).1 = .ok (some record, some y) →
        ∃ t next, fair exchange.checked t ∧ record.record.successor = some next ∧ s.get next t = some y := by
  simp only [nextRecord]
  cases w.prefetched with
  | some held => exact ⟨holds, by simp⟩
  | none => exact fetch_keeps prim debug maintained w.resolver w.current exchange holds told

theorem prefetch_keeps (exchange : Exchange) (successor : Option SignedRecord) (next : PubKey) (w : Walker)
    (holds : inv w.resolver) (offered : ∀ y, successor = some y → ∃ t, fair exchange.checked t ∧ s.get next t = some y) :
    inv (prefetch prim exchange successor next w).resolver := by
  cases successor with
  | none => exact holds
  | some candidate =>
      simp only [prefetch]
      split
      · exact holds
      · obtain ⟨t, checked, seen⟩ := offered candidate rfl
        cases took : w.resolver.take prim next exchange.checked candidate with
        | error e => exact holds
        | ok taken => exact maintained.takes w.resolver taken next exchange.checked t candidate holds checked seen took

theorem follow_keeps (requested : PubKey) (exchange : Exchange) (draws : Draws) (record : SignedRecord)
    (successor : Option SignedRecord) (w : Walker) (holds : inv w.resolver)
    (offered : ∀ y, successor = some y →
      ∃ t next, fair exchange.checked t ∧ record.record.successor = some next ∧ s.get next t = some y) :
    inv (follow prim requested exchange draws record successor w).walker.resolver := by
  simp only [follow]
  cases record.revocationError prim with
  | some revoked => exact holds
  | none =>
      cases named : record.record.successor with
      | none => exact holds
      | some next =>
          dsimp only
          split
          · exact holds
          · refine prefetch_keeps prim maintained exchange successor next _ holds ?_
            intro y given
            obtain ⟨t, other, checked, same, seen⟩ := offered y given
            rw [named, Option.some.injEq] at same
            exact ⟨t, checked, same ▸ seen⟩

theorem turn_keeps (requested : PubKey) (network : Nat → Exchange) (draws : Draws) (w : Walker) (holds : inv w.resolver)
    (told : ∀ i, Told s fair (network i)) : inv (turn prim debug requested network draws w).walker.resolver := by
  obtain ⟨kept, offered⟩ := next_record_keeps prim debug maintained (network w.fetches) w holds (told w.fetches)
  simp only [turn]
  generalize nextRecord prim debug (network w.fetches) w = got at kept offered
  obtain ⟨outcome, w'⟩ := got
  rcases outcome with e | ⟨_ | record, successor⟩
  · exact kept
  · exact kept
  · refine follow_keeps prim maintained requested _ draws record successor _ kept ?_
    intro y given
    exact offered record y (by rw [given])

theorem walk_keeps (requested : PubKey) (network : Nat → Exchange) (draws : Draws) (hops : Nat) (w : Walker)
    (holds : inv w.resolver) (told : ∀ i, Told s fair (network i)) :
    inv (walk prim debug requested network draws hops w).2.resolver := by
  induction hops generalizing w with
  | zero => exact holds
  | succ hops ih =>
      have turned := turn_keeps prim debug maintained requested network draws w holds told
      simp only [walk]
      cases step : turn prim debug requested network draws w with
      | done outcome w' =>
          rw [step] at turned
          exact turned
      | onward w' =>
          rw [step] at turned
          exact ih w' turned

theorem perform_keeps (r : Resolver) (op : Op) (holds : inv r) (reads : Reads s fair op) : inv (r.perform prim debug op).1 := by
  cases op with
  | lookup key exchange => exact (fetch_keeps prim debug maintained r key exchange holds reads).1
  | lookupLive key exchange =>
      simp only [perform]
      rw [lookup_live_state]
      exact (fetch_keeps prim debug maintained r key exchange holds reads).1
  | resolveService key network draws =>
      exact walk_keeps prim debug maintained key network draws maxSupersedeHops _ holds reads
  | publish record exchange => exact False.elim reads
  | purge t =>
      refine maintained.shrinks r _ holds ?_
      intro k entry found
      rw [Cache.purge, Finmap.lookup_retain] at found
      exact (Option.filter_eq_some_iff.mp found).1
  | clear => exact maintained.shrinks r _ holds (by simp [Cache.clear])
  | invalidate key =>
      refine maintained.shrinks r _ holds ?_
      intro k entry found
      rw [Cache.invalidate, Cache.lookup_erase_ite] at found
      split at found
      · cases found
      · exact found

theorem after_keeps (r : Resolver) (ops : List Op) (holds : inv r) (reads : ∀ op ∈ ops, Reads s fair op) :
    inv (r.after prim debug ops) := by
  induction ops generalizing r with
  | nil => exact holds
  | cons op rest ih =>
      exact ih _ (perform_keeps prim debug maintained r op holds (reads op (by simp)))
        (fun other member => reads other (by simp [member]))

end Told

-- A resolver with one server. What it has kept of the records that are still
-- good is what that server's store holds.
structure Mirrors (s : Store) (now : Nat) (r : Resolver) : Prop where
  single : r.config.servers.length = 1
  cached : ∀ k x entry, s.get k now = some x → r.cache.lookup k = some entry → entry = .found x
  marked : ∀ k x seen, s.get k now = some x → r.marks.lookup k = some seen → seen = Seen.of x

section Mirrors

variable (s : Store) (now : Nat)

theorem get_earlier (k : PubKey) (t : Nat) (x : SignedRecord) (held : s.get k now = some x) (earlier : t ≤ now) :
    s.get k t = some x := by
  obtain ⟨stored, fresh⟩ := Option.filter_eq_some_iff.mp held
  refine Option.filter_eq_some_iff.mpr ⟨stored, ?_⟩
  cases lapsed : x.record.isExpired t with
  | false => rfl
  | true =>
      rw [Record.expired_mono _ t now earlier lapsed] at fresh
      cases fresh

theorem get_same (k : PubKey) (t : Nat) (x y : SignedRecord) (held : s.get k now = some x) (seen : s.get k t = some y) :
    y = x := by
  have first := (Option.filter_eq_some_iff.mp held).1
  have second := (Option.filter_eq_some_iff.mp seen).1
  exact Option.some.inj (second.symm.trans first)

theorem new_mirrors (config : ResolverConfig) (r : Resolver) (created : new config = .ok r)
    (single : config.servers.length = 1) : Mirrors s now r := by
  rw [new_ok config r created]
  exact ⟨single, by simp [Cache.new], by simp⟩

theorem mirrors_shrinks (r : Resolver) (cache : Cache) (mirrors : Mirrors s now r)
    (within : ∀ k entry, cache.lookup k = some entry → r.cache.lookup k = some entry) :
    Mirrors s now { r with cache := cache } :=
  ⟨mirrors.single, fun k x entry held found => mirrors.cached k x entry held (within k entry found), mirrors.marked⟩

theorem noted_mirrors (r : Resolver) (record : SignedRecord) (t : Nat) (mirrors : Mirrors s now r)
    (seen : s.get record.key t = some record) :
    Mirrors s now (remember { r with marks := r.marks.insert record.key (Seen.of record) } record) := by
  have marked : ∀ k x mark, s.get k now = some x →
      (r.marks.insert record.key (Seen.of record)).lookup k = some mark → mark = Seen.of x := by
    intro k x mark held found
    rw [Finmap.lookup_insert_ite] at found
    split at found
    · rename_i own
      cases found
      rw [get_same s now k t x record held (own ▸ seen)]
    · exact mirrors.marked k x mark held found
  unfold remember
  split
  · refine ⟨mirrors.single, ?_, marked⟩
    intro k x entry held found
    simp only [Cache.put, Finmap.lookup_insert_ite] at found
    split at found
    · rename_i own
      cases found
      rw [get_same s now k t x record held (own ▸ seen)]
    · exact mirrors.cached k x entry held found
  · exact ⟨mirrors.single, mirrors.cached, marked⟩

theorem take_mirrors (r taken : Resolver) (key : PubKey) (clock t : Nat) (record : SignedRecord) (mirrors : Mirrors s now r)
    (seen : s.get key t = some record) (ok : r.take prim key clock record = .ok taken) : Mirrors s now taken := by
  simp only [take, then_ok] at ok
  obtain ⟨_, answers, noted, note, kept⟩ := ok
  obtain ⟨rfl, _⟩ := (verify_answer_iff prim record key clock).mp answers
  obtain ⟨rfl, _⟩ := note_rank_ok prim r noted record note
  cases kept
  exact noted_mirrors s now r record t mirrors seen

theorem missing_mirrors (r : Resolver) (key : PubKey) (clock t : Nat) (mirrors : Mirrors s now r) (earlier : t ≤ now)
    (missing : s.get key t = none) : Mirrors s now (r.rememberMissing key clock) := by
  unfold rememberMissing
  split
  · refine ⟨mirrors.single, ?_, mirrors.marked⟩
    intro k x entry held found
    simp only [Cache.putMissing, Finmap.lookup_insert_ite] at found
    split at found
    · rename_i own
      subst own
      rw [get_earlier s now k t x held earlier] at missing
      cases missing
    · exact mirrors.cached k x entry held found
  · exact mirrors

theorem mirrors_maintained : Maintained prim s (fun _ t => t ≤ now) (Mirrors s now) where
  shrinks := fun r cache => mirrors_shrinks s now r cache
  takes := fun r taken key clock t record mirrors _ => take_mirrors prim s now r taken key clock t record mirrors
  misses := fun r key clock t => missing_mirrors s now r key clock t

-- Calls made against the same store before now, on whatever clock the server had.
-- Publishing would change the store.
def Earlier (op : Op) : Prop := Reads s (fun _ t => t ≤ now) op

theorem after_mirrors (r : Resolver) (ops : List Op) (mirrors : Mirrors s now r) (earlier : ∀ op ∈ ops, Earlier s now op) :
    Mirrors s now (r.after prim debug ops) :=
  after_keeps prim debug (mirrors_maintained prim s now) r ops mirrors earlier

end Mirrors

section Present

variable (s : Store) (now : Nat)

-- An exchange that takes place now and does not fail.
structure Present (exchange : Exchange) : Prop where
  asked : exchange.asked = now
  answered : exchange.answered = now
  checked : exchange.checked = now
  reply : ∀ idx key recurse, exchange.reply idx (.lookup key recurse) = .ok (served s key recurse now)

-- A record the server holds under its key and a client would accept.
structure Good (x : SignedRecord) : Prop where
  held : s.get x.key now = some x
  answers : x.verifyAnswer prim x.key now = .ok ()

theorem take_good (r : Resolver) (x : SignedRecord) (mirrors : Mirrors s now r) (good : Good prim s now x) :
    ∃ taken, r.take prim x.key now x = .ok taken ∧ Mirrors s now taken := by
  have noted : r.noteRank prim x = .ok { r with marks := r.marks.insert x.key (Seen.of x) } := by
    simp only [noteRank]
    cases held : r.marks.lookup x.key with
    | none => rfl
    | some before =>
        rw [mirrors.marked x.key x before good.held held]
        simp
  refine ⟨remember { r with marks := r.marks.insert x.key (Seen.of x) } x, ?_, noted_mirrors s now r x now mirrors good.held⟩
  rw [take, good.answers, noted]
  rfl

theorem fetch_good (r : Resolver) (x : SignedRecord) (exchange : Exchange) (mirrors : Mirrors s now r)
    (good : Good prim s now x) (present : Present s now exchange) :
    ∃ successor after, r.fetch prim debug x.key exchange = (.ok (some x, successor), after) ∧ Mirrors s now after ∧
      ∀ y, successor = some y → ∃ next, x.record.successor = some next ∧ s.get next now = some y := by
  have consulted := consult_keeps prim (mirrors_maintained prim s now) r x.key exchange.asked mirrors
  have hit : (r.consult x.key exchange.asked).1 = none ∨ (r.consult x.key exchange.asked).1 = some (some x) := by
    unfold consult
    split
    · cases entry : r.cache.lookup x.key with
      | none => exact .inl (by simp [Cache.get, entry])
      | some kept =>
          rw [mirrors.cached x.key x kept good.held entry] at entry
          obtain ⟨_, fresh⟩ := Option.filter_eq_some_iff.mp good.held
          rw [present.asked]
          exact .inr ((cache_get_iff r.cache x.key now x).mpr ⟨entry, by simpa using fresh⟩)
    · exact .inl rfl
  simp only [fetch]
  generalize r.consult x.key exchange.asked = reply at consulted hit
  obtain ⟨found, r'⟩ := reply
  rcases hit with none | some
  · dsimp only at none
    subst none
    dsimp only at consulted
    obtain ⟨taken, took, kept⟩ := take_good prim s now r' x consulted good
    have answered := try_servers_served r' exchange s x.key r'.config.recurse now "lookup" consulted.single (present.reply 0 _ _)
    rw [served_held s x.key _ now x good.held] at answered
    refine ⟨x.record.successor.bind (fun next => s.get next now), taken, ?_, kept, ?_⟩
    · simp only [answered, settle, present.answered, took]
    · intro y offered
      exact Option.bind_eq_some_iff.mp offered
  · dsimp only at some
    subst some
    exact ⟨none, r', rfl, consulted, by simp⟩

-- At the head of the loop, about to use `x`.
structure Standing (x : SignedRecord) (w : Walker) : Prop where
  mirrors : Mirrors s now w.resolver
  current : w.current = x.key
  ready : ∀ record, w.prefetched = some record → record = x

theorem next_record_good (exchange : Exchange) (x : SignedRecord) (w : Walker) (standing : Standing s now x w)
    (good : Good prim s now x) (present : Present s now exchange) :
    ∃ successor resolver fetches, nextRecord prim debug exchange w =
        (.ok (some x, successor), { w with resolver := resolver, prefetched := none, fetches := fetches }) ∧
      Mirrors s now resolver ∧ ∀ y, successor = some y → ∃ next, x.record.successor = some next ∧ s.get next now = some y := by
  simp only [nextRecord]
  cases ready : w.prefetched with
  | some held =>
      have same := standing.ready held ready
      subst same
      exact ⟨none, w.resolver, w.fetches, rfl, standing.mirrors, by simp⟩
  | none =>
      obtain ⟨successor, after, fetched, kept, offered⟩ := fetch_good prim debug s now w.resolver x exchange standing.mirrors
        good present
      rw [standing.current, fetched]
      exact ⟨successor, after, w.fetches + 1, rfl, kept, offered⟩

theorem prefetch_standing (exchange : Exchange) (successor : Option SignedRecord) (y : SignedRecord) (w : Walker)
    (standing : Standing s now y w) (good : Good prim s now y) (present : Present s now exchange)
    (offered : ∀ given, successor = some given → s.get y.key now = some given) :
    Standing s now y (prefetch prim exchange successor y.key w) ∧
      (prefetch prim exchange successor y.key w).visited = w.visited ∧
      (prefetch prim exchange successor y.key w).chain = w.chain := by
  cases successor with
  | none => exact ⟨standing, rfl, rfl⟩
  | some given =>
      have same := offered given rfl
      rw [good.held, Option.some.injEq] at same
      subst same
      obtain ⟨taken, took, kept⟩ := take_good prim s now w.resolver y standing.mirrors good
      rw [prefetch]
      simp only [ne_eq, not_true_eq_false, if_false, present.checked, took]
      refine ⟨⟨kept, standing.current, ?_⟩, trivial, trivial⟩
      intro record ready
      exact (Option.some.inj ready).symm

theorem turn_forwards (requested : PubKey) (network : Nat → Exchange) (draws : Draws) (x y : SignedRecord) (w : Walker)
    (standing : Standing s now x w) (good : Good prim s now x) (present : ∀ i, Present s now (network i))
    (named : x.record.successor = some y.key) (next : Good prim s now y) (fresh : y.key ∉ w.visited) :
    ∃ w', turn prim debug requested network draws w = .onward w' ∧ Standing s now y w' ∧
      w'.visited = insert y.key w.visited ∧ w'.chain = w.chain ++ [x.key] := by
  obtain ⟨successor, resolver, fetches, got, kept, offered⟩ :=
    next_record_good prim debug s now (network w.fetches) x w standing good (present w.fetches)
  obtain ⟨reason, body⟩ := Record.successor_body x.record y.key named
  have alive : x.revocationError prim = none := by simp [SignedRecord.revocationError, body]
  simp only [turn, got, follow, alive, named, fresh, if_false]
  obtain ⟨moved, visited, chain⟩ := prefetch_standing prim s now (network w.fetches) successor y
    ⟨resolver, y.key, insert y.key w.visited, w.chain ++ [w.current], none, fetches, w.used ++ [x]⟩
    ⟨kept, rfl, by simp⟩ next (present w.fetches) (by
      intro given here
      obtain ⟨key, same, seen⟩ := offered given here
      rw [named, Option.some.injEq] at same
      rw [same]
      exact seen)
  refine ⟨_, rfl, moved, visited, ?_⟩
  rw [chain, standing.current]

theorem turn_ends (requested : PubKey) (network : Nat → Exchange) (draws : Draws) (x : SignedRecord) (w : Walker)
    (standing : Standing s now x w) (good : Good prim s now x) (present : ∀ i, Present s now (network i))
    (live : ∃ endpoints, x.record.body = .live endpoints) :
    ∃ w', turn prim debug requested network draws w =
      .done (.ok ⟨requested, x.key, x.identity, Select.orderWith draws x.record, w.chain⟩) w' := by
  obtain ⟨successor, resolver, fetches, got, _⟩ :=
    next_record_good prim debug s now (network w.fetches) x w standing good (present w.fetches)
  obtain ⟨endpoints, body⟩ := live
  have alive : x.revocationError prim = none := by simp [SignedRecord.revocationError, body]
  have ends : x.record.successor = none := by simp [Record.successor, body]
  simp only [turn, got, follow, alive, ends]
  exact ⟨_, rfl⟩

-- Induction over the records still ahead. A turn uses up one of them and one of
-- the hops, so `n` rotations take `n + 1` turns.
theorem walk_chain (requested : PubKey) (network : Nat → Exchange) (draws : Draws) (records : List SignedRecord)
    (last : SignedRecord) (hops : Nat) (w : Walker) (present : ∀ i, Present s now (network i))
    (good : ∀ x ∈ records ++ [last], Good prim s now x) (live : ∃ endpoints, last.record.body = .live endpoints)
    (leads : ∀ (j : Nat) x y, records[j]? = some x → (records ++ [last])[j + 1]? = some y → x.record.successor = some y.key)
    (distinct : ((records ++ [last]).map SignedRecord.key).Nodup)
    (fresh : ∀ k ∈ ((records ++ [last]).map SignedRecord.key).tail, k ∉ w.visited)
    (standing : ∀ x, (records ++ [last]).head? = some x → Standing s now x w) :
    (records.length < hops → ∃ loc, (walk prim debug requested network draws hops w).1 = .ok loc ∧ loc.key = last.key ∧
      loc.supersededFrom = w.chain ++ records.map SignedRecord.key) ∧
    (hops ≤ records.length → ∃ message, (walk prim debug requested network draws hops w).1 = .error (.supersedeChain message)) := by
  induction hops generalizing records w with
  | zero => exact ⟨fun more => absurd more (Nat.not_lt_zero _), fun _ => ⟨_, rfl⟩⟩
  | succ hops ih =>
      simp only [walk]
      cases records with
      | nil =>
          obtain ⟨w', done⟩ := turn_ends prim debug s now requested network draws last w (standing last rfl)
            (good last (by simp)) present live
          rw [done]
          exact ⟨fun _ => ⟨_, rfl, rfl, by simp⟩, fun few => absurd few (by simp)⟩
      | cons x rest =>
          obtain ⟨y, tail, split⟩ : ∃ y tail, rest ++ [last] = y :: tail := List.exists_cons_of_ne_nil (by simp)
          have whole : (x :: rest) ++ [last] = x :: y :: tail := by rw [List.cons_append, split]
          rw [whole] at distinct fresh
          have named : x.record.successor = some y.key := leads 0 x y rfl (by rw [whole]; rfl)
          obtain ⟨w', onward, moved, visited, chain⟩ := turn_forwards prim debug s now requested network draws x y w
            (standing x rfl) (good x (by simp)) present named (good y (by rw [whole]; simp)) (fresh y.key (by simp))
          obtain ⟨ends, stops⟩ := ih rest w' (fun z member => good z (by rw [List.cons_append]; simp [member]))
            (fun j a b here after => leads (j + 1) a b (by simpa using here) (by simpa using after))
            (by rw [split]; exact (List.nodup_cons.mp distinct).2)
            (by
              rw [split, visited]
              intro k member
              rw [Finset.mem_insert, not_or]
              exact ⟨fun same => (List.nodup_cons.mp (List.nodup_cons.mp distinct).2).1 (same ▸ member),
                fresh k (List.mem_cons_of_mem _ member)⟩)
            (by
              intro z first
              rw [split, List.head?_cons, Option.some.injEq] at first
              exact first ▸ moved)
          rw [onward]
          constructor
          · intro more
            obtain ⟨loc, ok, key, through⟩ := ends (by simpa using more)
            exact ⟨loc, ok, key, by rw [through, chain]; simp⟩
          · intro few
            exact stops (by simpa using few)

end Present

theorem held_good (s : Store) (now : Nat) (x : SignedRecord) (held : s.records.lookup x.key = some x)
    (answers : x.verifyAnswer prim x.key now = .ok ()) : Good prim s now x := by
  obtain ⟨_, _, _, survives⟩ := (verify_answer_iff prim x x.key now).mp answers
  have fresh := ((survives_iff x now).mp survives).1
  exact ⟨Option.filter_eq_some_iff.mpr ⟨held, by simp [fresh]⟩, answers⟩

theorem resolve_chain (s : Store) (now : Nat) (r : Resolver) (mirrors : Mirrors s now r) (records : List SignedRecord)
    (last first : SignedRecord) (starts : (records ++ [last]).head? = some first)
    (distinct : ((records ++ [last]).map SignedRecord.key).Nodup) (good : ∀ x ∈ records ++ [last], Good prim s now x)
    (leads : ∀ (j : Nat) x y, records[j]? = some x → (records ++ [last])[j + 1]? = some y → x.record.successor = some y.key)
    (live : ∃ endpoints, last.record.body = .live endpoints) (network : Nat → Exchange)
    (present : ∀ i, Present s now (network i)) (draws : Draws) :
    (records.length < maxSupersedeHops → ∃ loc, (r.resolveService prim debug first.key network draws).1 = .ok loc ∧
      loc.key = last.key ∧ loc.supersededFrom = records.map SignedRecord.key) ∧
    (maxSupersedeHops ≤ records.length → ∃ message,
      (r.resolveService prim debug first.key network draws).1 = .error (.supersedeChain message)) := by
  refine walk_chain prim debug s now first.key network draws records last maxSupersedeHops
    ⟨r, first.key, {first.key}, [], none, 0, []⟩ present good live leads distinct ?_ ?_
  · obtain ⟨tail, split⟩ := List.head?_eq_some_iff.mp starts
    rw [split] at distinct ⊢
    intro k member
    rw [Finset.mem_singleton]
    intro same
    subst same
    exact (List.nodup_cons.mp distinct).1 member
  · intro x same
    rw [starts, Option.some.injEq] at same
    subst same
    exact ⟨mirrors, rfl, by simp⟩

theorem rotation_chain_resolves_iff (s : Store) (now : Nat) (config : ResolverConfig) (r : Resolver)
    (created : new config = .ok r) (single : config.servers.length = 1) (ops : List Op) (earlier : ∀ op ∈ ops, Earlier s now op)
    (records : List SignedRecord) (last first : SignedRecord) (starts : (records ++ [last]).head? = some first)
    (distinct : ((records ++ [last]).map SignedRecord.key).Nodup) (held : ∀ x ∈ records ++ [last], s.records.lookup x.key = some x)
    (answers : ∀ x ∈ records ++ [last], x.verifyAnswer prim x.key now = .ok ())
    (leads : ∀ (j : Nat) x y, records[j]? = some x → (records ++ [last])[j + 1]? = some y → x.record.successor = some y.key)
    (live : ∃ endpoints, last.record.body = .live endpoints) (network : Nat → Exchange)
    (present : ∀ i, Present s now (network i)) (draws : Draws) :
    let resolved := (r.after prim debug ops).resolveService prim debug first.key network draws
    ((records.length ≤ maxSupersedeHops → ∃ loc, resolved.1 = .ok loc ∧ loc.key = last.key ∧
        loc.supersededFrom = records.map SignedRecord.key) ∧
      (maxSupersedeHops < records.length → ∃ message, resolved.1 = .error (.supersedeChain message))) ↔
    records.length ≠ maxSupersedeHops := by
  intro resolved
  have mirrors := after_mirrors prim debug s now r ops (new_mirrors s now config r created single) earlier
  obtain ⟨ends, stops⟩ := resolve_chain prim debug s now (r.after prim debug ops) mirrors records last first starts distinct
    (fun x member => held_good prim s now x (held x member) (answers x member)) leads live network present draws
  apply Iff.intro
  · intro claims exactly
    obtain ⟨within, _⟩ := claims
    obtain ⟨loc, ok, _⟩ := within (Nat.le_of_eq exactly)
    obtain ⟨message, error⟩ := stops (Nat.le_of_eq exactly.symm)
    have clash := ok.symm.trans error
    cases clash
  · intro other
    exact ⟨fun few => ends (Nat.lt_of_le_of_ne few other), fun many => stops (Nat.le_of_lt many)⟩

section Sample

open Sample

-- The Ed25519 keys of the seeds 0x05.. to 0x0d.., each delegated to by the
-- identity and, up to the last, moved on to the next.
structure Stop where
  key : PubKey
  delegated : Signature
  signed : Signature

def stops : List Stop :=
  [⟨key 0x6e7a1cdd29b0b78fd13af4c5598feff4ef2a97166e3ca6f2e4fbfccd80505bf1,
      signature 0x07cae7fa1b2de50ae4d6f38ff596e99dd594066c1ddc887bb44d53fae8086351
        0xfc346a201b474ae73e9c8f17c7ff11efa899b2ac06dba63ef07a284115ed2d00,
      signature 0xcbc92705cdab4b38f6ef5a8a8d56b8aa207f488ec1bd9c33bd12b5d03fa7c86f
        0xdb83aca1765f2d048569168a3e2793a277e0d2548ce5374249e4d1a25b96fb05⟩,
    ⟨key 0x8a875fff1eb38451577acd5afee405456568dd7c89e090863a0557bc7af49f17,
      signature 0xd54742527f8a8a9e8de0e50f0f7b8546838a64060b43fa4ac1ce6d2f7198385d
        0x6be871e053d3f29edac8659ff6a8f5a41ec9b264621f045da50ac0fd33388d08,
      signature 0xa094cd6dffdab3facc40dbf2e96078920da740aa35573525d6a99cdd441a15c9
        0xa9372b483dcf0b441eaeae9673a50af28f9abdbc2ec032866a1d4f592001ae00⟩,
    ⟨key 0xea4a6c63e29c520abef5507b132ec5f9954776aebebe7b92421eea691446d22c,
      signature 0x68562cc6a9857d70c2bd0263f25409ce538410259716a0677b5800039ab55c70
        0xf9b2c160b564f208e3c9edcf6eb703f694d2c844060ff34a21cbd68d29fb170d,
      signature 0x47bc41ff50d2662cd3f3d21c0df058877dc11d1116521fc9f135d7e0bc30d4aa
        0x5f434eb582e635a9e73a4f2efb5455e1e0fa03150c0e44926de7f6cdc659120e⟩,
    ⟨key 0x1398f62c6d1a457c51ba6a4b5f3dbd2f69fca93216218dc8997e416bd17d93ca,
      signature 0xf7fd8f2337a6cbd17a48271c44d337ac7859ae471f3442103264900d12912578
        0x8348ba15164d2c3633237dd83b641788bec5e47c675e8ee20923c3dcc474a201,
      signature 0x1e94691fbe9970c4fafe7185f5adb8794aab852e11d23388c4bb9be0f5109d9d
        0x90731410cc63e0d1c7e63b0b1f058e7c982402ed08b7bee30abb88ce6f477b04⟩,
    ⟨key 0xfd1724385aa0c75b64fb78cd602fa1d991fdebf76b13c58ed702eac835e9f618,
      signature 0x3053423053c3021e3f216bff8eedeefbc501529b2fc3aa2000d86746d473bf19
        0xb3ef32f18bea865961a476598e9b4ffe013305ae7907ff7d26f5e867ed281c0f,
      signature 0xaf9b8ac139a68eee52821fc7d0f5bcc6c9d75193f6a778b88b946e1332b2e11b
        0xff31ad73f9a9fbb101deae3957b5c316b4371c1b2adbd7632bb160c324873605⟩,
    ⟨key 0x43a72e714401762df66b68c26dfbdf2682aaec9f2474eca4613e424a0fbafd3c,
      signature 0xfd8fe3ae8602886cc844cd2e7d4528c63324bfe7764b8ce987d96b027379b500
        0xcf1a6bae3b35b1e51b549f0217872c321faf1b5d93ca290d8c116ea92931a50b,
      signature 0x67677e0a9132b04783b40eaad40b8badf335aae2fa3791e56f270dbdb30ee033
        0x21c8af6e116f16da791bbfb8af07275968b6f355a45b96ea722642ec83c35b00⟩,
    ⟨key 0x66be7e332c7a453332bd9d0a7f7db055f5c5ef1a06ada66d98b39fb6810c473a,
      signature 0x79f1dbaab6c4b16b3269fab86b7bae03b6855c4bb62a5dbb13cc3b7fef8450af
        0x4f2a50649860d8609998d928c00d59fed644b5b68cda29034882c86de73ce207,
      signature 0x5fa7c9637aa5c55f12ebf724239c1933ac7b57aec72df6391c0118662ad785ac
        0xcbc409ba0ba3a4de8254068a8b4f775cf603a9b64fc760fb60f37d0b6f4ab801⟩,
    ⟨key 0x0b513ad9b4924015ca0902ed079044d3ac5dbec2306f06948c10da8eb6e39f2d,
      signature 0x57fd9eaa53052d3b2c9efd5f42b06377695a0621375b391dcec794d98950484c
        0xbdd3e6f28143cfcb20794b2e15b79ede86b8f6b80b78a7ec3c8014b7f83edb09,
      signature 0x46ee3ef38ebb25fec6f8e05f612f234b2bc82bf35e439e984763641418aa612b
        0xb2a6a05976f47ea822fd9a9f95945c3855ad50a76f427f92f1b3fcf5bc267908⟩]

def finalStop : Stop :=
  ⟨key 0x91a28a0b74381593a4d9469579208926afc8ad82c8839b7644359b9eba9a4b3a,
    signature 0xe66b8b8bbe7a256aa1b8b83b906384be5e9bd26501733187b8ab039aa924c90d
      0x1fecae890c86a442b539d95fda84a37c11056ca8c2bffcc054f0eb9862488901,
    signature 0x01fc847730a62caa99b949b0a6839e6beeaea923ea8a413f0ca1ec9bc12cfc41
      0x26e2d85993c81baa974e6cd134bd02b5920f399fce4daf992bc18db543e9a60f⟩

def moveTo (a b : Stop) : SignedRecord := ⟨.superseded a.key ⟨alice, neverExpires, a.delegated⟩ 1 b.key "" 1000, a.signed⟩

def moved : List SignedRecord := List.zipWith moveTo stops (stops.tail ++ [finalStop])

def landed : SignedRecord :=
  ⟨.live finalStop.key ⟨alice, neverExpires, finalStop.delegated⟩ 1 1000 [endpoint] 1000, finalStop.signed⟩

def travelled : Primitives := { attesting (moved ++ [landed]) with
  fromBytes := fun key =>
    if (alice :: (moved ++ [landed]).map SignedRecord.key).any (fun known => decide (key = known)) then .ok ()
    else .error "Cannot decompress Edwards point" }

def depot : Store := (moved ++ [landed]).foldl (fun s x => (s.put travelled x 1000).2) Store.new

def overThere : Exchange :=
  ⟨1000, 1000, 1000, fun _ request =>
    match request with
    | .lookup key recurse => .ok (served depot key recurse 1000)
    | _ => .error (.protocol "only lookups")⟩

theorem over_there_present : Present depot 1000 overThere := ⟨rfl, rfl, rfl, fun _ _ _ => rfl⟩

theorem moved_leads (j : Nat) (x y : SignedRecord) (here : moved[j]? = some x) (after : (moved ++ [landed])[j + 1]? = some y) :
    x.record.successor = some y.key := by
  have names : moved.map (fun x => x.record.successor) = (moved ++ [landed]).tail.map (fun y => some y.key) := by decide +kernel
  have slot : (moved.map (fun x => x.record.successor))[j]? = some (some y.key) := by
    rw [names, List.getElem?_map, List.getElem?_tail, after]
    rfl
  rw [List.getElem?_map, here] at slot
  exact Option.some.inj slot

theorem moved_distinct : ((moved ++ [landed]).map SignedRecord.key).Nodup := by decide +kernel

theorem moved_good : ∀ x ∈ moved ++ [landed], depot.records.lookup x.key = some x ∧ x.verifyAnswer travelled x.key 1000 = .ok () := by
  decide +kernel

theorem over_there_told : Told depot (fun _ t => t ≤ 1000) overThere := by
  refine ⟨?_⟩
  intro idx key recurse response reply
  exact ⟨1000, Nat.le_refl _, Nat.le_refl _, (Except.ok.inj reply).symm⟩

-- The last two moves, with the end of the chain already in the cache.
theorem two_rotations_resolve :
    ∃ first loc, (moved.drop 6 ++ [landed]).head? = some first ∧
      ((oneServer.after travelled (fun _ => "") [.lookup landed.key overThere]).resolveService travelled (fun _ => "") first.key
        (fun _ => overThere) firstDraw).1 = .ok loc ∧ loc.key = landed.key ∧
      loc.supersededFrom = (moved.drop 6).map SignedRecord.key := by
  obtain ⟨first, starts⟩ : ∃ first, (moved.drop 6 ++ [landed]).head? = some first :=
    Option.isSome_iff_exists.mp (by decide +kernel)
  have tail : moved.drop 6 ++ [landed] = (moved ++ [landed]).drop 6 := by decide +kernel
  have good : ∀ x ∈ moved.drop 6 ++ [landed], depot.records.lookup x.key = some x ∧ x.verifyAnswer travelled x.key 1000 = .ok () := by
    intro x member
    exact moved_good x (List.mem_of_mem_drop (tail ▸ member))
  have before : ∀ op ∈ [Op.lookup landed.key overThere], Earlier depot 1000 op := by
    intro op member
    cases List.mem_singleton.mp member
    exact over_there_told
  have distinct : ((moved.drop 6 ++ [landed]).map SignedRecord.key).Nodup := by
    rw [tail, List.map_drop]
    exact moved_distinct.sublist (List.drop_sublist _ _)
  have leads : ∀ (j : Nat) x y, (moved.drop 6)[j]? = some x → (moved.drop 6 ++ [landed])[j + 1]? = some y →
      x.record.successor = some y.key := by
    intro j x y here after
    rw [tail, List.getElem?_drop] at after
    rw [List.getElem?_drop] at here
    exact moved_leads (6 + j) x y here after
  have exactly := rotation_chain_resolves_iff travelled (fun _ => "") depot 1000 oneServer.config oneServer rfl rfl
    [.lookup landed.key overThere] before (moved.drop 6) landed first starts distinct (fun x member => (good x member).1)
    (fun x member => (good x member).2) leads ⟨[endpoint], rfl⟩ (fun _ => overThere) (fun _ => over_there_present) firstDraw
  have few : (moved.drop 6).length = 2 := by decide +kernel
  rw [few] at exactly
  obtain ⟨loc, ok, key, through⟩ := (exactly.mpr (by decide)).1 (by decide)
  exact ⟨first, loc, starts, ok, key, through⟩

theorem eight_rotations_refused :
    moved.length = maxSupersedeHops ∧ ((moved ++ [landed]).map SignedRecord.key).Nodup ∧
      (∀ x ∈ moved ++ [landed], depot.records.lookup x.key = some x ∧ x.verifyAnswer travelled x.key 1000 = .ok ()) ∧
      (∀ (j : Nat) x y, moved[j]? = some x → (moved ++ [landed])[j + 1]? = some y → x.record.successor = some y.key) ∧
      landed.record.body = .live [endpoint] ∧ Present depot 1000 overThere ∧
      ∀ first, (moved ++ [landed]).head? = some first → ∃ message,
        (oneServer.resolveService travelled (fun _ => "") first.key (fun _ => overThere) firstDraw).1 = .error (.supersedeChain message) := by
  refine ⟨by decide +kernel, moved_distinct, moved_good, moved_leads, rfl, over_there_present, ?_⟩
  intro first starts
  refine (resolve_chain travelled (fun _ => "") depot 1000 oneServer (new_mirrors depot 1000 oneServer.config oneServer rfl rfl) moved
    landed first starts moved_distinct ?_ moved_leads ⟨[endpoint], rfl⟩ (fun _ => overThere) (fun _ => over_there_present)
    firstDraw).2 (by decide +kernel)
  intro x member
  exact held_good travelled depot 1000 x (moved_good x member).1 (moved_good x member).2

end Sample

end Sqns.Resolver
