import Sqns.Prefetch

set_option autoImplicit false

namespace Sqns.Resolver

open Store

variable (prim : Primitives) (debug : Response → String)

section Trail

variable (s : Store) (now : Nat)

-- Where a key leads to in a store: the keys passed on the way and the record at
-- the end, or what stands in between.
def trail (requested : PubKey) : Nat → List PubKey → PubKey → Except Error (List PubKey × SignedRecord)
  | 0, _, _ => .error (.supersedeChain s!"{requested.toText prim} forwards through more than {maxSupersedeHops} keys")
  | hops + 1, passed, current =>
      match answerFor prim s now current with
      | .error e => .error e
      | .ok none => .error (.unpublished (current.toText prim))
      | .ok (some record) =>
          match record.revocationError prim with
          | some revoked => .error revoked
          | none =>
              match record.record.successor with
              | none => .ok (passed, record)
              | some next =>
                  if (passed ++ [current]).contains next then
                    .error (.supersedeChain s!"{requested.toText prim} forwards in a cycle, back to {next.toText prim}")
                  else trail requested hops (passed ++ [current]) next

def locationOf (requested : PubKey) (draws : Draws) (found : List PubKey × SignedRecord) : ServiceLocation :=
  ⟨requested, found.2.key, found.2.identity, Select.orderWith draws found.2.record, found.1⟩

-- A record of `current` that a client goes by.
structure Usable (current : PubKey) (record : SignedRecord) : Prop where
  answer : answerFor prim s now current = .ok (some record)
  kept : record.revocationError prim = none

theorem answer_for_key (key : PubKey) (record : SignedRecord) (answer : answerFor prim s now key = .ok (some record)) :
    s.get key now = some record ∧ record.verifyAnswer prim key now = .ok () ∧ record.key = key := by
  unfold answerFor at answer
  split at answer
  · cases answer
  · rename_i x held
    cases answers : x.verifyAnswer prim key now with
    | error e =>
        rw [answers] at answer
        cases answer
    | ok _ =>
        rw [answers] at answer
        cases answer
        exact ⟨held, answers, ((verify_answer_iff prim record key now).mp answers).1⟩

-- The trails that come to an end, however long.
inductive Ends : List PubKey → PubKey → List PubKey → SignedRecord → Prop where
  | here (passed : List PubKey) (current : PubKey) (record : SignedRecord) (usable : Usable prim s now current record)
      (last : record.record.successor = none) : Ends passed current passed record
  | onward (passed keys : List PubKey) (current next : PubKey) (record last : SignedRecord)
      (usable : Usable prim s now current record) (named : record.record.successor = some next)
      (fresh : next ∉ passed ++ [current]) (later : Ends (passed ++ [current]) next keys last) : Ends passed current keys last

theorem ends_passes (passed keys : List PubKey) (current : PubKey) (last : SignedRecord)
    (ends : Ends prim s now passed current keys last) : ∃ more, keys ++ [last.key] = passed ++ current :: more := by
  induction ends with
  | here passed current record usable _ =>
      exact ⟨[], by rw [(answer_for_key prim s now current record usable.answer).2.2]⟩
  | onward passed keys current next record last _ _ _ _ ih =>
      obtain ⟨more, whole⟩ := ih
      exact ⟨next :: more, by rw [whole, List.append_assoc]; rfl⟩

theorem trail_ok_iff (requested : PubKey) (hops : Nat) (passed keys : List PubKey) (current : PubKey) (last : SignedRecord) :
    trail prim s now requested hops passed current = .ok (keys, last) ↔
      Ends prim s now passed current keys last ∧ keys.length < passed.length + hops := by
  induction hops generalizing passed current with
  | zero =>
      refine iff_of_false (by simp [trail]) ?_
      rintro ⟨ends, few⟩
      obtain ⟨more, whole⟩ := ends_passes prim s now passed keys current last ends
      have lengths := congrArg List.length whole
      simp only [List.length_append, List.length_cons, List.length_nil] at lengths
      omega
  | succ hops ih =>
      rw [trail]
      apply Iff.intro
      · intro ok
        split at ok
        · cases ok
        · cases ok
        · rename_i record answer
          split at ok
          · cases ok
          · rename_i kept
            split at ok
            · rename_i ended
              cases ok
              exact ⟨.here _ current last ⟨answer, kept⟩ ended, by omega⟩
            · rename_i next named
              split at ok
              · cases ok
              · rename_i apart
                have fresh : next ∉ passed ++ [current] := fun seen => apart (List.contains_iff_mem.mpr seen)
                obtain ⟨later, few⟩ := (ih (passed ++ [current]) next).mp ok
                refine ⟨.onward passed keys current next record last ⟨answer, kept⟩ named fresh later, ?_⟩
                rw [List.length_append, List.length_singleton] at few
                omega
      · rintro ⟨ends, few⟩
        cases ends with
        | here _ _ record usable ended => simp only [usable.answer, usable.kept, ended]
        | onward _ _ _ next record _ usable named fresh later =>
            have apart : ¬ (passed ++ [current]).contains next = true := fun seen => fresh (List.contains_iff_mem.mp seen)
            simp only [usable.answer, usable.kept, named, if_neg apart]
            refine (ih (passed ++ [current]) next).mpr ⟨later, ?_⟩
            rw [List.length_append, List.length_singleton]
            omega

-- The head of the loop after `passed`, with `current` to be looked up.
structure Along (passed : List PubKey) (current : PubKey) (w : Walker) : Prop where
  synced : Synced prim s now w.resolver
  here : w.current = current
  chain : w.chain = passed
  visited : ∀ k, k ∈ w.visited ↔ k ∈ passed ++ [current]
  ready : ∀ x, w.prefetched = some x → answerFor prim s now current = .ok (some x)

theorem prefetch_along (exchange : Exchange) (successor : Option SignedRecord) (passed : List PubKey) (next : PubKey)
    (w : Walker) (along : Along prim s now passed next w) (present : Present s now exchange)
    (offered : ∀ y, successor = some y → s.get next now = some y) :
    Along prim s now passed next (prefetch prim exchange successor next w) := by
  have kept := prefetch_keeps prim (synced_maintained prim s now) exchange successor next w along.synced
    (fun y given => ⟨now, ⟨present.checked, rfl⟩, offered y given⟩)
  cases successor with
  | none => exact along
  | some candidate =>
      unfold prefetch at kept ⊢
      dsimp only at kept ⊢
      split at kept
      · rw [if_pos ‹_›]
        exact along
      · rw [if_neg ‹_›]
        cases took : w.resolver.take prim next exchange.checked candidate with
        | error e => exact along
        | ok taken =>
            rw [took] at kept
            refine ⟨kept, along.here, along.chain, along.visited, ?_⟩
            intro x ready
            cases ready
            simp only [take, then_ok, present.checked] at took
            obtain ⟨_, answers, _⟩ := took
            exact answer_for_held prim s now next candidate (offered candidate rfl) answers

theorem walk_trail (requested : PubKey) (network : Nat → Exchange) (draws : Draws) (present : ∀ i, Present s now (network i))
    (hops : Nat) (passed : List PubKey) (current : PubKey) (w : Walker) (along : Along prim s now passed current w) :
    (walk prim debug requested network draws hops w).1 =
      (trail prim s now requested hops passed current).map (locationOf requested draws) := by
  induction hops generalizing passed current w with
  | zero => rfl
  | succ hops ih =>
      have ready : ∀ y, w.prefetched = some y → answerFor prim s now w.current = .ok (some y) := along.here ▸ along.ready
      obtain ⟨synced, offered⟩ := next_record_keeps prim debug (synced_maintained prim s now) (network w.fetches) w along.synced
        (present_told s now _ (present w.fetches))
      obtain ⟨answers, resolver, fetches, moved⟩ := next_record_answers prim debug s now
        (network w.fetches) w along.synced ready
        (present w.fetches)
      simp only [walk, turn]
      generalize nextRecord prim debug (network w.fetches) w = got at synced offered answers moved
      obtain ⟨outcome, w'⟩ := got
      dsimp only at moved synced answers offered ⊢
      subst moved
      rw [along.here] at answers
      rw [trail, ← answers]
      rcases outcome with e | ⟨_ | record, successor⟩
      · rfl
      · rw [along.here]
        rfl
      · simp only [follow, Except.map]
        cases record.revocationError prim with
        | some revoked => rfl
        | none =>
            cases named : record.record.successor with
            | none => simp [locationOf, along.chain]
            | some next =>
                have known : (passed ++ [current]).contains next = true ↔ next ∈ w.visited :=
                  List.contains_iff_mem.trans (along.visited next).symm
                by_cases seen : next ∈ w.visited
                · simp only [seen, known.mpr seen, if_true]
                · have fresh : ¬ (passed ++ [current]).contains next = true := fun again => seen (known.mp again)
                  simp only [seen, fresh, if_false]
                  refine ih (passed ++ [current]) next _ (prefetch_along prim s now (network w.fetches) successor
                    (passed ++ [current]) next _ ⟨synced, rfl, ?_, ?_, ?_⟩ (present w.fetches) ?_)
                  · rw [along.chain, along.here]
                  · intro k
                    simp only [Finset.mem_insert, along.visited, List.mem_append, List.mem_singleton]
                    exact or_comm
                  · intro y kept
                    cases kept
                  · intro y given
                    obtain ⟨t, other, fair, same, there⟩ := offered record y (by rw [given])
                    rw [named, Option.some.injEq] at same
                    rw [fair.2] at there
                    exact same ▸ there

theorem resolve_trail (r : Resolver) (synced : Synced prim s now r) (key : PubKey) (network : Nat → Exchange)
    (present : ∀ i, Present s now (network i)) (draws : Draws) :
    (r.resolveService prim debug key network draws).1 =
      (trail prim s now key maxSupersedeHops [] key).map (locationOf key draws) :=
  walk_trail prim debug s now key network draws present maxSupersedeHops [] key _
    ⟨synced, rfl, rfl, by simp, fun x ready => by cases ready⟩

-- What a client finds at the end of its lookups, with whatever it has cached of
-- them, is what the server's store says: the same location, or the same error.
theorem resolve_follows_store (config : ResolverConfig) (r : Resolver) (created : new config = .ok r)
    (single : config.servers.length = 1) (ops : List Op) (earlier : ∀ op ∈ ops, Reads s (At now) op) (key : PubKey)
    (network : Nat → Exchange) (present : ∀ i, Present s now (network i)) (draws : Draws) :
    ((r.after prim debug ops).resolveService prim debug key network draws).1 =
      (trail prim s now key maxSupersedeHops [] key).map (locationOf key draws) := by
  have begun : Synced prim s now r := by
    rw [new_ok config r created]
    exact fresh_synced prim s now config single
  exact resolve_trail prim debug s now _ (after_keeps prim debug (synced_maintained prim s now) r ops begun earlier) key network
    present draws

end Trail

section Sample

open Sample

theorem resolve_follows_store_landed :
    ((oneServer.after travelled (fun _ => "") [.lookup landed.key overThere]).resolveService travelled (fun _ => "") landed.key
      (fun _ => overThere) firstDraw).1 =
      (trail travelled depot 1000 landed.key maxSupersedeHops [] landed.key).map (locationOf landed.key firstDraw) := by
  refine resolve_follows_store travelled (fun _ => "") depot 1000 oneServer.config oneServer rfl rfl
    [.lookup landed.key overThere] ?_
    landed.key (fun _ => overThere) (fun _ => over_there_present) firstDraw
  intro op member
  cases List.mem_singleton.mp member
  exact present_told depot 1000 overThere over_there_present

end Sample

end Sqns.Resolver
