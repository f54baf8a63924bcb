import Sqns.Seeding

set_option autoImplicit false

namespace Sqns.Delivery

open Store

variable (prim : Primitives)

-- What `Response::Records` says of itself: `complete` means nothing was left
-- out, and what is listed is held, wanted and listed once.
structure Truthful (s : Store) (now : Nat) (listing : Listing) (batch : List SignedRecord) (complete : Bool) : Prop where
  flag : complete = true ↔ ∀ r ∈ s.values, listing.wants s now r = true → r ∈ batch
  only : ∀ r ∈ batch, r ∈ s.values ∧ listing.wants s now r = true
  once : (batch.map SignedRecord.key).Nodup

section Listed

variable (s : Store) (now : Nat) (listing : Listing) (consistent : Consistent prim s)

include consistent

theorem full_once : ((listing.full s now).map SignedRecord.key).Nodup :=
  ((full_perm prim s now listing consistent).map _).nodup_iff.mpr
    ((values_once s consistent.own).sublist (List.filter_sublist.map _))

theorem page_complete_iff :
    (∀ r ∈ s.values, listing.wants s now r = true → r ∈ (listing.full s now).take listing.room) ↔
      (s.values.filter (listing.wants s now)).length ≤ listing.room := by
  rw [← (full_perm prim s now listing consistent).length_eq,
    ← Paging.take_all_iff _ _ (List.Nodup.of_map _ (full_once prim s now listing consistent))]
  apply Iff.intro
  · intro all r member
    obtain ⟨held, wanted⟩ := (mem_full prim s now listing consistent r).mp member
    exact all r held wanted
  · intro all r held wanted
    exact all r ((mem_full prim s now listing consistent r).mpr ⟨held, wanted⟩)

theorem page_truthful_iff (complete : Bool) :
    Truthful s now listing ((listing.full s now).take listing.room) complete ↔
      (complete = true ↔ (s.values.filter (listing.wants s now)).length ≤ listing.room) := by
  apply Iff.intro
  · intro truthful
    rw [← page_complete_iff prim s now listing consistent]
    exact truthful.flag
  · intro flag
    refine ⟨?_, ?_, ?_⟩
    · rw [page_complete_iff prim s now listing consistent]
      exact flag
    · intro r member
      exact (mem_full prim s now listing consistent r).mp (List.mem_of_mem_take member)
    · exact (full_once prim s now listing consistent).sublist ((List.take_sublist _ _).map _)

end Listed

-- `Sync` counts before it cuts; `LookupIdentity` says `complete` whatever it cut.
theorem listing_flag (server : Server) (relay : PubKey → UInt8 → Except Error (Option Relayed)) (now : Nat)
    (uptimeSecs : UInt64) (listing : Listing) (batch : List SignedRecord) (complete : Bool)
    (consistent : Consistent prim server.store)
    (answered : (server.handle prim relay now uptimeSecs listing.request).response = .records batch complete) :
    complete = true ↔ ∀ since limit, listing = .sync since limit →
      (server.store.values.filter (listing.wants server.store now)).length ≤ listing.room := by
  cases listing with
  | sync since limit =>
      rw [← (full_perm prim server.store now (.sync since limit) consistent).length_eq]
      simp only [Listing.request, Server.handle] at answered
      by_cases allowed : server.allowSync = true
      · rw [if_pos allowed, since_page server.store now consistent.own] at answered
        rw [← (Response.records.inj answered).2, decide_eq_true_eq]
        exact ⟨fun few _ _ _ => few, fun few => few since limit rfl⟩
      · rw [if_neg allowed] at answered
        cases answered
  | identity owner =>
      simp only [Listing.request, Server.handle] at answered
      rw [← (Response.records.inj answered).2]
      simp

theorem listing_truthful_iff (server : Server) (relay : PubKey → UInt8 → Except Error (Option Relayed)) (now : Nat)
    (uptimeSecs : UInt64) (listing : Listing) (batch : List SignedRecord) (complete : Bool)
    (consistent : Consistent prim server.store)
    (answered : (server.handle prim relay now uptimeSecs listing.request).response = .records batch complete) :
    Truthful server.store now listing batch complete ↔
      ∀ owner, listing = .identity owner →
        (server.store.values.filter (listing.wants server.store now)).length ≤ maxSyncBatch.toNat := by
  rw [listing_reply prim server relay now uptimeSecs listing batch complete consistent answered,
    page_truthful_iff prim server.store now listing consistent,
    listing_flag prim server relay now uptimeSecs listing batch complete consistent answered]
  cases listing with
  | sync since limit => simp
  | identity owner => simp [Listing.room]

theorem reached_consistent (file : Option Bytes) (openedAt : Nat) (ops : List Op) :
    Consistent prim (ops.foldl (Store.apply prim) (openFrom prim file openedAt)) :=
  fold_invariant prim (Consistent prim) (apply_consistent prim) ops _ (open_consistent prim file openedAt)

theorem complete_flag_truthful_iff (server : Server) (relay : PubKey → UInt8 → Except Error (Option Relayed)) (now : Nat)
    (uptimeSecs : UInt64) (listing : Listing) (batch : List SignedRecord) (complete : Bool) (file : Option Bytes)
    (openedAt : Nat) (ops : List Op) (reached : server.store = ops.foldl (Store.apply prim) (openFrom prim file openedAt))
    (answered : (server.handle prim relay now uptimeSecs listing.request).response = .records batch complete) :
    Truthful server.store now listing batch complete ↔
      ∀ owner, listing = .identity owner →
        (server.store.values.filter (listing.wants server.store now)).length ≤ maxSyncBatch.toNat := by
  have consistent := reached_consistent prim file openedAt ops
  rw [← reached] at consistent
  exact listing_truthful_iff prim server relay now uptimeSecs listing batch complete consistent answered

section Sample

open Sample Seeding

-- 513 keys of one identity: the reply lists 512 of them and calls that complete.
theorem crowded_identity_is_cut_short :
    ¬ ∀ (server : Server) (relay : PubKey → UInt8 → Except Error (Option Relayed)) (now : Nat) (uptimeSecs : UInt64)
      (listing : Listing) (batch : List SignedRecord) (complete : Bool) (file : Option Bytes) (openedAt : Nat) (ops : List Op),
      server.store = ops.foldl (Store.apply trusting) (openFrom trusting file openedAt) →
      (server.handle trusting relay now uptimeSecs listing.request).response = .records batch complete →
      Truthful server.store now listing batch complete := by
  intro claim
  obtain ⟨b, opened⟩ : ∃ b, b = (crowd.map (fun r => Op.put r 1000)).foldl (Store.apply trusting) (openFrom trusting none 0) :=
    ⟨_, rfl⟩
  have merged : b = merge trusting 1000 crowd Store.new := opened.trans (List.foldl_map ..)
  have perm := merge_values_perm trusting 1000 crowd (bulk_once [] 513 (by decide)) crowd_admitted
  rw [← merged] at perm
  have consistent : Consistent trusting b := by
    rw [opened]
    exact reached_consistent trusting none 0 _
  have wanted : ∀ r ∈ b.values, (Listing.identity alice).wants b 1000 r = true := by
    intro r member
    obtain ⟨i, _, rfl⟩ := crowd_bulk r (perm.mem_iff.mp member)
    have bound := consistent.bound _ _ ((mem_values b consistent.own _).mp member)
    simp only [Listing.wants, bulk_fresh, Bool.not_false, Bool.and_true, decide_eq_true_eq]
    exact bound
  have length : (b.values.filter ((Listing.identity alice).wants b 1000)).length = 513 := by
    rw [List.filter_eq_self.mpr wanted, perm.length_eq]
    exact (List.length_map _).trans List.length_range
  let server : Server := ⟨b, 0, 0, 0, true⟩
  let relay : PubKey → UInt8 → Except Error (Option Relayed) := fun _ _ => .ok none
  have truthful := claim server relay 1000 0 (.identity alice) _ true none 0 _ opened rfl
  have few := (listing_truthful_iff trusting server relay 1000 0 (.identity alice) _ true consistent rfl).mp truthful
  have cut := few alice rfl
  rw [length] at cut
  exact absurd cut (by decide)

theorem complete_flag_truthful_iff_publish :
    ∃ server : Server, server.store.records.lookup node = some publish ∧
      Truthful server.store 1000 (.identity alice) [publish] true := by
  obtain ⟨store, stored⟩ : ∃ store, store = [Op.put publish 1000].foldl (Store.apply ed25519) (openFrom ed25519 none 0) :=
    ⟨_, rfl⟩
  refine ⟨⟨store, 0, 0, 0, true⟩, by rw [stored]; decide +kernel, ?_⟩
  refine (complete_flag_truthful_iff ed25519 ⟨store, 0, 0, 0, true⟩ (fun _ _ => .ok none) 1000 0 (.identity alice) [publish] true
    none 0 _ stored (by rw [stored]; decide +kernel)).mpr ?_
  intro owner _
  rw [stored]
  decide +kernel

end Sample

end Sqns.Delivery
