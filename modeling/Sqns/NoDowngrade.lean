import Sqns.Lib.Marks
import Sqns.Lifetime
import Sqns.Resolver

set_option autoImplicit false

namespace Sqns

-- What a later look at a key may say: the same identity, and no lower rank.
instance : Preorder Seen where
  le a b := a.identity = b.identity ∧ a.rank ≤ b.rank
  le_refl a := ⟨rfl, le_refl a.rank⟩
  le_trans a b c ab bc := ⟨ab.1.trans bc.1, ab.2.trans bc.2⟩

theorem Seen.terminal_le (a b : Seen) (le : a ≤ b) (terminal : a.rank.terminal = true) : b.rank.terminal = true := by
  rcases (Rank.le_iff a.rank b.rank).mp le.2 with ⟨live, _⟩ | ⟨same, _⟩
  · rw [terminal] at live
    cases live
  · rw [← same]
    exact terminal

namespace Resolver

open Marks

variable (prim : Primitives) (debug : Response → String)

inductive Op where
  | lookup (key : PubKey) (exchange : Exchange)
  | lookupLive (key : PubKey) (exchange : Exchange)
  | resolveService (key : PubKey) (network : Nat → Exchange) (draws : Draws)
  | publish (record : SignedRecord) (exchange : Exchange)
  | purge (now : Nat)
  | clear
  | invalidate (key : PubKey)

def returned : Except Error (Option SignedRecord) → List SignedRecord
  | .ok record => record.toList
  | .error _ => []

-- The resolver after a call, and the records the call returned or walked
-- through. `lookup_live` is charged with what the lookup inside it returned.
def perform (r : Resolver) : Op → Resolver × List SignedRecord
  | .lookup key exchange => ((r.lookup prim debug key exchange).2, returned (r.lookup prim debug key exchange).1)
  | .lookupLive key exchange =>
      ((r.lookupLive prim debug key exchange).2, returned (r.lookup prim debug key exchange).1)
  | .resolveService key network draws =>
      let walked := (r.resolveService prim debug key network draws).2
      (walked.resolver, walked.used)
  | .publish record exchange => ((r.publish prim debug record exchange).2, [])
  | .purge now => ({ r with cache := (r.cache.purge now).2 }, [])
  | .clear => ({ r with cache := r.cache.clear }, [])
  | .invalidate key => ({ r with cache := r.cache.invalidate key }, [])

def after (r : Resolver) (ops : List Op) : Resolver := ops.foldl (fun r op => (r.perform prim debug op).1) r

def uses (r : Resolver) : List Op → List SignedRecord
  | [] => []
  | op :: rest => (r.perform prim debug op).2 ++ uses (r.perform prim debug op).1 rest

def observed (record : SignedRecord) : PubKey × Seen := (record.key, Seen.of record)

-- The cache answers without asking the marks, so what it holds must be what
-- they say: each held record is the one its key's mark was last set from.
structure Guarded (r : Resolver) (trace : List (PubKey × Seen)) : Prop where
  cached : ∀ key record, r.cache.lookup key = some (.found record) →
    record.key = key ∧ r.marks.lookup key = some (Seen.of record)
  off : r.config.cache = false → ∀ key record, r.cache.lookup key ≠ some (.found record)
  bounds : Bounds r.marks trace

theorem new_guarded (config : ResolverConfig) (r : Resolver) (created : new config = .ok r) : Guarded r [] := by
  rw [new_ok config r created]
  exact ⟨by simp [Cache.new], by simp [Cache.new], bounds_nil _⟩

theorem guarded_shrinks (r : Resolver) (trace : List (PubKey × Seen)) (cache : Cache) (guarded : Guarded r trace)
    (within : Cache.Within cache r.cache) : Guarded { r with cache := cache } trace :=
  ⟨fun key record found => guarded.cached key record (within key record found),
    fun off key record found => guarded.off off key record (within key record found), guarded.bounds⟩

theorem guarded_observes (r : Resolver) (trace : List (PubKey × Seen)) (record : SignedRecord) (guarded : Guarded r trace)
    (current : r.marks.lookup record.key = some (Seen.of record)) : Guarded r (trace ++ [observed record]) :=
  ⟨guarded.cached, guarded.off, guarded.bounds.observe record.key (Seen.of record) current⟩

theorem note_rank_ok (r noted : Resolver) (record : SignedRecord) (ok : r.noteRank prim record = .ok noted) :
    noted = { r with marks := r.marks.insert record.key (Seen.of record) } ∧
      ∀ before, r.marks.lookup record.key = some before → before ≤ Seen.of record := by
  simp only [noteRank] at ok
  cases held : r.marks.lookup record.key with
  | none =>
      rw [held] at ok
      cases ok
      exact ⟨rfl, by simp⟩
  | some before =>
      rw [held] at ok
      dsimp only at ok
      split at ok
      · cases ok
      · split at ok
        · cases ok
        · rename_i sameIdentity notLower
          cases ok
          refine ⟨rfl, ?_⟩
          intro mark same
          cases same
          exact ⟨not_not.mp sameIdentity, not_lt.mp notLower⟩

theorem take_guarded (r taken : Resolver) (trace : List (PubKey × Seen)) (key : PubKey) (now : Nat) (record : SignedRecord)
    (guarded : Guarded r trace) (ok : r.take prim key now record = .ok taken) :
    Guarded taken trace ∧ record.key = key ∧ taken.marks.lookup key = some (Seen.of record) := by
  simp only [take, then_ok] at ok
  obtain ⟨_, verified, noted, note, kept⟩ := ok
  have own : record.key = key := by
    simp only [SignedRecord.verifyAnswer, unless_ok] at verified
    exact not_not.mp verified.1
  obtain ⟨rfl, rises⟩ := note_rank_ok prim r noted record note
  have raised := guarded.bounds.raise record.key (Seen.of record) rises
  cases kept
  subst own
  simp only [remember]
  by_cases on : r.config.cache = true
  · simp only [on, if_true]
    refine ⟨⟨?_, ?_, raised⟩, trivial, by simp⟩
    · intro other held found
      simp only [Cache.put, Finmap.lookup_insert_ite] at found ⊢
      by_cases same : other = record.key
      · rw [if_pos same, Option.some.injEq, Entry.found.injEq] at found
        rw [if_pos same, found]
        exact ⟨found ▸ same.symm, rfl⟩
      · rw [if_neg same] at found ⊢
        exact guarded.cached other held found
    · intro off
      cases on.symm.trans off
  · have off : r.config.cache = false := by simpa using on
    simp only [off, Bool.false_eq_true, if_false]
    exact ⟨⟨fun other held found => absurd found (guarded.off off other held), fun _ => guarded.off off, raised⟩, trivial,
      by simp⟩

theorem consult_guarded (r : Resolver) (trace : List (PubKey × Seen)) (key : PubKey) (now : Nat)
    (guarded : Guarded r trace) :
    Guarded (r.consult key now).2 trace ∧ ∀ record, (r.consult key now).1 = some (some record) →
      record.key = key ∧ (r.consult key now).2.marks.lookup key = some (Seen.of record) := by
  simp only [consult]
  by_cases on : r.config.cache = true
  · simp only [on, if_true]
    refine ⟨guarded_shrinks r trace _ guarded (Cache.get_within r.cache key now), ?_⟩
    intro record hit
    exact guarded.cached key record (Cache.get_found r.cache key now record hit)
  · simp only [on]
    exact ⟨guarded, by simp⟩

theorem remember_missing_guarded (r : Resolver) (trace : List (PubKey × Seen)) (key : PubKey) (now : Nat)
    (guarded : Guarded r trace) : Guarded (r.rememberMissing key now) trace := by
  simp only [rememberMissing]
  split
  · exact guarded_shrinks r trace _ guarded (Cache.put_missing_within r.cache key now)
  · exact guarded

-- Whichever way a record comes back from `fetch`, its key's mark is set from it.
structure Fetched (trace : List (PubKey × Seen)) (key : PubKey)
    (out : Except Error (Option SignedRecord × Option SignedRecord) × Resolver) : Prop where
  guarded : Guarded out.2 trace
  marked : ∀ record successor, out.1 = .ok (some record, successor) →
    record.key = key ∧ out.2.marks.lookup key = some (Seen.of record)

theorem fetched_nothing (r : Resolver) (trace : List (PubKey × Seen)) (key : PubKey)
    (outcome : Except Error (Option SignedRecord × Option SignedRecord)) (guarded : Guarded r trace)
    (empty : ∀ record successor, outcome ≠ .ok (some record, successor)) : Fetched trace key (outcome, r) :=
  ⟨guarded, fun record successor same => absurd same (empty record successor)⟩

theorem settle_fetched (r : Resolver) (trace : List (PubKey × Seen)) (key : PubKey) (now : Nat)
    (response : Except Error Response) (guarded : Guarded r trace) :
    Fetched trace key (r.settle prim debug key now response) := by
  match response with
  | .error e => exact fetched_nothing r trace key _ guarded (by simp)
  | .ok (.answer (some record) successor) =>
      simp only [settle]
      cases took : r.take prim key now record with
      | error e => exact fetched_nothing r trace key _ guarded (by simp)
      | ok taken =>
          obtain ⟨kept, own, marked⟩ := take_guarded prim r taken trace key now record guarded took
          refine ⟨kept, ?_⟩
          intro same _ eq
          cases eq
          exact ⟨own, marked⟩
  | .ok (.answer none _) => exact fetched_nothing _ trace key _ (remember_missing_guarded r trace key now guarded) (by simp)
  | .ok (.published _ _) => exact fetched_nothing r trace key _ guarded (by simp)
  | .ok (.status _) => exact fetched_nothing r trace key _ guarded (by simp)
  | .ok (.records _ _) => exact fetched_nothing r trace key _ guarded (by simp)
  | .ok (.error _ _) => exact fetched_nothing r trace key _ guarded (by simp)

theorem fetch_fetched (r : Resolver) (trace : List (PubKey × Seen)) (key : PubKey) (exchange : Exchange)
    (guarded : Guarded r trace) : Fetched trace key (r.fetch prim debug key exchange) := by
  obtain ⟨consulted, hits⟩ := consult_guarded r trace key exchange.asked guarded
  simp only [fetch]
  generalize r.consult key exchange.asked = reply at consulted hits
  obtain ⟨hit, r'⟩ := reply
  cases hit with
  | none => exact settle_fetched prim debug r' trace key _ _ consulted
  | some answer =>
      refine ⟨consulted, ?_⟩
      intro record successor same
      cases same
      exact hits record rfl

-- The walk's own invariant: what it has used so far is observed, and a record
-- it holds ready was noted when it was taken.
structure Walking (past : List (PubKey × Seen)) (w : Walker) : Prop where
  guarded : Guarded w.resolver (past ++ w.used.map observed)
  ready : ∀ record, w.prefetched = some record → w.resolver.marks.lookup record.key = some (Seen.of record)

theorem next_record_walking (past : List (PubKey × Seen)) (exchange : Exchange) (w : Walker) (walking : Walking past w) :
    Guarded (nextRecord prim debug exchange w).2.resolver (past ++ w.used.map observed) ∧
      (nextRecord prim debug exchange w).2.used = w.used ∧ (nextRecord prim debug exchange w).2.prefetched = none ∧
      ∀ record successor, (nextRecord prim debug exchange w).1 = .ok (some record, successor) →
        (nextRecord prim debug exchange w).2.resolver.marks.lookup record.key = some (Seen.of record) := by
  simp only [nextRecord]
  cases ready : w.prefetched with
  | some held =>
      refine ⟨walking.guarded, rfl, rfl, ?_⟩
      intro record successor same
      cases same
      exact walking.ready held ready
  | none =>
      have fetched := fetch_fetched prim debug w.resolver _ w.current exchange walking.guarded
      refine ⟨fetched.guarded, rfl, rfl, ?_⟩
      intro record successor answered
      obtain ⟨own, mark⟩ := fetched.marked record successor answered
      rw [own]
      exact mark

theorem prefetch_walking (past : List (PubKey × Seen)) (exchange : Exchange) (successor : Option SignedRecord)
    (next : PubKey) (w : Walker) (walking : Walking past w) : Walking past (prefetch prim exchange successor next w) := by
  cases successor with
  | none => exact walking
  | some candidate =>
      simp only [prefetch]
      split
      · exact walking
      · cases took : w.resolver.take prim next exchange.checked candidate with
        | error e => exact walking
        | ok taken =>
            obtain ⟨kept, own, marked⟩ := take_guarded prim w.resolver taken _ next _ candidate walking.guarded took
            refine ⟨kept, ?_⟩
            intro record same
            cases same
            rw [own]
            exact marked

theorem walking_moves (past : List (PubKey × Seen)) (w : Walker) (current : PubKey) (visited : Finset PubKey)
    (chain : List PubKey) (walking : Walking past w) :
    Walking past { w with current := current, visited := visited, chain := chain } :=
  ⟨walking.guarded, walking.ready⟩

def Turn.walker : Turn → Walker
  | .done _ w => w
  | .onward w => w

theorem follow_walking (past : List (PubKey × Seen)) (requested : PubKey) (exchange : Exchange) (draws : Draws)
    (record : SignedRecord) (successor : Option SignedRecord) (w : Walker) (walking : Walking past w) :
    Walking past (follow prim requested exchange draws record successor w).walker := by
  simp only [follow]
  cases record.revocationError prim with
  | some revoked => exact walking
  | none =>
      cases record.record.successor with
      | none => exact walking
      | some next =>
          dsimp only
          split
          · exact walking
          · exact prefetch_walking prim past exchange successor next _ (walking_moves past w _ _ _ walking)

theorem turn_walking (past : List (PubKey × Seen)) (requested : PubKey) (network : Nat → Exchange) (draws : Draws)
    (w : Walker) (walking : Walking past w) : Walking past (turn prim debug requested network draws w).walker := by
  obtain ⟨guarded, sameUsed, notReady, marked⟩ := next_record_walking prim debug past (network w.fetches) w walking
  simp only [turn]
  generalize nextRecord prim debug (network w.fetches) w = got at guarded sameUsed notReady marked
  obtain ⟨outcome, w'⟩ := got
  dsimp only at guarded sameUsed notReady marked
  rw [← sameUsed] at guarded
  have idle : Walking past w' := ⟨guarded, by simp [notReady]⟩
  match outcome with
  | .error e => exact idle
  | .ok (none, _) => exact idle
  | .ok (some record, successor) =>
      have observes := guarded_observes w'.resolver _ record guarded (marked record successor rfl)
      apply follow_walking
      refine ⟨?_, by simp [notReady]⟩
      simpa [List.map_append, List.append_assoc] using observes

theorem walk_walking (past : List (PubKey × Seen)) (requested : PubKey) (network : Nat → Exchange) (draws : Draws)
    (hops : Nat) (w : Walker) (walking : Walking past w) :
    Walking past (walk prim debug requested network draws hops w).2 := by
  induction hops generalizing w with
  | zero => exact walking
  | succ hops ih =>
      have turned := turn_walking prim debug past requested network draws w walking
      simp only [walk]
      cases step : turn prim debug requested network draws w with
      | done outcome w' =>
          rw [step] at turned
          exact turned
      | onward w' =>
          rw [step] at turned
          exact ih w' turned

theorem lookup_guarded (r : Resolver) (trace : List (PubKey × Seen)) (key : PubKey) (exchange : Exchange)
    (guarded : Guarded r trace) :
    Guarded (r.lookup prim debug key exchange).2
      (trace ++ (returned (r.lookup prim debug key exchange).1).map observed) := by
  have fetched := fetch_fetched prim debug r trace key exchange guarded
  simp only [lookup]
  generalize r.fetch prim debug key exchange = out at fetched
  obtain ⟨outcome, r'⟩ := out
  match outcome with
  | .error e => simpa [returned, Except.map] using fetched.guarded
  | .ok (none, _) => simpa [returned, Except.map] using fetched.guarded
  | .ok (some record, successor) =>
      obtain ⟨own, marked⟩ := fetched.marked record successor rfl
      exact guarded_observes r' trace record fetched.guarded (by rwa [own])

theorem lookup_live_state (r : Resolver) (key : PubKey) (exchange : Exchange) :
    (r.lookupLive prim debug key exchange).2 = (r.lookup prim debug key exchange).2 := by
  simp only [lookupLive]
  generalize r.lookup prim debug key exchange = out
  obtain ⟨outcome, r'⟩ := out
  match outcome with
  | .error e => rfl
  | .ok none => rfl
  | .ok (some record) =>
      dsimp only
      cases retirementError prim record with
      | none => rfl
      | some e => rfl

theorem publish_guarded (r : Resolver) (trace : List (PubKey × Seen)) (record : SignedRecord) (exchange : Exchange)
    (guarded : Guarded r trace) : Guarded (r.publish prim debug record exchange).2 trace := by
  simp only [publish]
  cases record.verifyAnswer prim record.key exchange.asked with
  | error e => exact guarded
  | ok _ => exact guarded_shrinks r trace _ guarded (Cache.invalidate_within r.cache record.key)

theorem perform_guarded (r : Resolver) (trace : List (PubKey × Seen)) (op : Op) (guarded : Guarded r trace) :
    Guarded (r.perform prim debug op).1 (trace ++ (r.perform prim debug op).2.map observed) := by
  cases op with
  | lookup key exchange => exact lookup_guarded prim debug r trace key exchange guarded
  | lookupLive key exchange =>
      simp only [perform]
      rw [lookup_live_state]
      exact lookup_guarded prim debug r trace key exchange guarded
  | resolveService key network draws =>
      have start : Walking trace ⟨r, key, {key}, [], none, 0, []⟩ := ⟨by simpa using guarded, by simp⟩
      exact (walk_walking prim debug trace key network draws maxSupersedeHops _ start).guarded
  | publish record exchange => simpa [perform] using publish_guarded prim debug r trace record exchange guarded
  | purge now => simpa [perform] using guarded_shrinks r trace _ guarded (Cache.purge_within r.cache now)
  | clear => simpa [perform] using guarded_shrinks r trace _ guarded (Cache.clear_within r.cache)
  | invalidate key => simpa [perform] using guarded_shrinks r trace _ guarded (Cache.invalidate_within r.cache key)

theorem run_guarded (r : Resolver) (trace : List (PubKey × Seen)) (ops : List Op) (guarded : Guarded r trace) :
    Guarded (r.after prim debug ops) (trace ++ (r.uses prim debug ops).map observed) := by
  induction ops generalizing r trace with
  | nil => simpa [after, uses] using guarded
  | cons op rest ih =>
      have later := ih (r.perform prim debug op).1 _ (perform_guarded prim debug r trace op guarded)
      simpa [after, uses, List.append_assoc] using later

-- From a guarded state on, nothing used of a key falls below its mark.
theorem uses_above_mark (r : Resolver) (trace : List (PubKey × Seen)) (ops : List Op) (key : PubKey) (seen : Seen)
    (guarded : Guarded r trace) (marked : r.marks.lookup key = some seen) (record : SignedRecord)
    (used : record ∈ r.uses prim debug ops) (own : record.key = key) : seen ≤ Seen.of record := by
  have here : Guarded r [(key, seen)] := ⟨guarded.cached, guarded.off, (bounds_nil r.marks).observe key seen marked⟩
  have later := (run_guarded prim debug r _ ops here).bounds
  exact later.above (key, seen) (observed record) (by simp) (List.mem_map_of_mem used) own.symm

theorem resolver_never_walks_back (config : ResolverConfig) (r : Resolver) (created : new config = .ok r) :
    (∀ ops, (r.uses prim debug ops).Pairwise (fun a b => a.key = b.key →
      a.identity = b.identity ∧ Rank.of a.record ≤ Rank.of b.record)) ∧
    ∀ before rest key seen, (r.after prim debug before).marks.lookup key = some seen → seen.rank.terminal = true →
      ∀ record ∈ (r.after prim debug before).uses prim debug rest, record.key = key → record.record.isTerminal = true := by
  have fresh := new_guarded config r created
  constructor
  · intro ops
    have ascending := (run_guarded prim debug r [] ops fresh).bounds.ascending
    rw [List.nil_append, List.pairwise_map] at ascending
    exact ascending
  · intro before rest key seen marked retired record used own
    have guarded := run_guarded prim debug r [] before fresh
    have above := uses_above_mark prim debug _ _ rest key seen guarded marked record used own
    exact Seen.terminal_le seen (Seen.of record) above retired

section Replay

open Sample

-- A server that gives the record it is told to, at a fixed time.
def offering (record : SignedRecord) : Exchange := ⟨1000, 1000, 1000, fun _ _ => .ok (.answer (some record) none)⟩

def oneServer : Resolver := ⟨{ ResolverConfig.default with servers := ["ns1.example:5300"] }, Cache.new, ∅⟩

-- After the revocation the old record is offered twice more: once while the
-- cache still answers, and once with the cache emptied, where it is refused.
theorem resolver_never_walks_back_replay :
    let before := [Op.lookup node (offering Sample.publish), .clear, .lookup node (offering revocation)]
    let rest := [Op.lookup node (offering Sample.publish), .clear, .lookup node (offering Sample.publish)]
    oneServer.uses ed25519 (fun _ => "") (before ++ rest) = [Sample.publish, revocation, revocation] ∧
      Sample.publish.identity = revocation.identity ∧ Rank.of Sample.publish.record ≤ Rank.of revocation.record ∧
      ∀ record ∈ (oneServer.after ed25519 (fun _ => "") before).uses ed25519 (fun _ => "") rest,
        record.key = node → record.record.isTerminal = true := by
  intro before rest
  obtain ⟨ordered, retired⟩ := resolver_never_walks_back ed25519 (fun _ => "") oneServer.config oneServer rfl
  have used : oneServer.uses ed25519 (fun _ => "") (before ++ rest) = [Sample.publish, revocation, revocation] := by
    decide +kernel
  have marked : (oneServer.after ed25519 (fun _ => "") before).marks.lookup node = some (Seen.of revocation) := by
    decide +kernel
  have first := ordered (before ++ rest)
  rw [used, List.pairwise_cons] at first
  obtain ⟨identity, rank⟩ := first.1 revocation (by simp) rfl
  exact ⟨used, identity, rank, retired before rest node _ marked rfl⟩

end Replay

end Resolver

end Sqns
