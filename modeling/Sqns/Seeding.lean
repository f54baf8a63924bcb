import Sqns.Delivery
import Sqns.Replication

set_option autoImplicit false

namespace Sqns.Seeding

open Store Paging Replication

variable (prim : Primitives) (debug : Response → String) (relay : PubKey → UInt8 → Except Error (Option Relayed))
  (uptimeSecs : UInt64) (b : Store) (now : Nat)

-- An empty server after a number of pulls from a peer that does not change,
-- over a link that does not fail, all at one time.
def pullTimes : Nat → Store × UInt64
  | 0 => (Store.new, 0)
  | n + 1 =>
      let before := pullTimes n
      let pulled := pull prim debug (honest prim ⟨b, 0, 0, 0, true⟩ relay now uptimeSecs (fun _ => none)) now before.2 before.1
      (pulled.store, pulled.watermark)

structure Copied (a : Store) : Prop where
  mirrored : Mirrored a
  held : ∀ k r, a.records.lookup k = some r → b.records.lookup k = some r

structure Seeded (progress : Store × UInt64) : Prop where
  copied : Copied b progress.1
  behind : ∀ r ∈ b.unexpired now, issued r < progress.2.toNat → ¬ Accepted prim progress.1 r now

theorem put_copied (a : Store) (r : SignedRecord) (copied : Copied b a) (held : b.records.lookup r.key = some r) :
    Copied b (a.put prim r now).2 := by
  refine ⟨put_mirrored prim a r now copied.mirrored, ?_⟩
  intro k x found
  rcases put_held prim a r now k x found with old | ⟨same, here⟩
  · exact copied.held k x old
  · rw [same, here]
    exact held

section Calm

variable (own : ∀ k r, b.records.lookup k = some r → r.key = k)
  (calm : ∀ t, ¬ Crowded issued maxSyncBatch.toNat (b.unexpired now) t)

include own calm

theorem pull_seeds (n : Nat) (seeded : Seeded prim b now (pullTimes prim debug relay uptimeSecs b now n)) :
    Seeded prim b now (pullTimes prim debug relay uptimeSecs b now (n + 1)) ∧
      ∀ r ∈ b.unexpired now, ¬ Accepted prim (pullTimes prim debug relay uptimeSecs b now (n + 1)).1 r now := by
  obtain ⟨below, all⟩ := pull_settles prim debug ⟨b, 0, 0, 0, true⟩ relay now uptimeSecs (fun _ => none) own calm
    (pullTimes prim debug relay uptimeSecs b now n).2 (pullTimes prim debug relay uptimeSecs b now n).1 seeded.behind
  obtain ⟨count, ended⟩ := pull_reliable prim debug ⟨b, 0, 0, 0, true⟩ relay now uptimeSecs own rfl
    (pullTimes prim debug relay uptimeSecs b now n).2 (pullTimes prim debug relay uptimeSecs b now n).1
  have copied := pull_invariant prim debug ⟨b, 0, 0, 0, true⟩ relay now uptimeSecs (fun _ => none) (Copied b) own
    (pullTimes prim debug relay uptimeSecs b now n).2 (pullTimes prim debug relay uptimeSecs b now n).1
    (fun s cursor _ r member before => put_copied prim b now s r before
      ((mem_unexpired b now own r).mp (mem_page _ _ _ r member).1).1) seeded.copied
  exact ⟨⟨copied, below⟩, all count ended⟩

theorem pull_times_seeded (n : Nat) : Seeded prim b now (pullTimes prim debug relay uptimeSecs b now n) := by
  induction n with
  | zero => exact ⟨⟨new_mirrored, by simp [pullTimes, Store.new]⟩, by simp [pullTimes]⟩
  | succ n ih => exact (pull_seeds prim debug relay uptimeSecs b now own calm n ih).1

end Calm

theorem settled_copy_holds (a : Store) (r : SignedRecord) (copied : Copied b a) (held : b.records.lookup r.key = some r)
    (admitted : Admitted prim r now) (settled : ¬ Accepted prim a r now) : a.records.lookup r.key = some r := by
  cases found : a.records.lookup r.key with
  | none =>
      refine False.elim (settled ⟨admitted, ?_, by simp [found]⟩)
      intro bound pinned
      rw [copied.mirrored.bindings, found] at pinned
      cases pinned
  | some x => rw [← held, copied.held r.key x found]

theorem pull_seeds_completely (file : Option Bytes) (openedAt : Nat) (ops : List Op) (n : Nat) (k : PubKey) (r : SignedRecord)
    (calm : ∀ t, ¬ Crowded issued maxSyncBatch.toNat ((ops.foldl (Store.apply prim) (openFrom prim file openedAt)).unexpired now) t)
    (held : (ops.foldl (Store.apply prim) (openFrom prim file openedAt)).records.lookup k = some r)
    (fresh : r.record.isExpired now = false) (admitted : admission prim r now = .ok ()) :
    (pullTimes prim debug relay uptimeSecs (ops.foldl (Store.apply prim) (openFrom prim file openedAt)) now
      (n + 1)).1.records.lookup k = some r := by
  have consistent : Consistent prim (ops.foldl (Store.apply prim) (openFrom prim file openedAt)) :=
    fold_invariant prim (Consistent prim) (apply_consistent prim) ops _ (open_consistent prim file openedAt)
  generalize ops.foldl (Store.apply prim) (openFrom prim file openedAt) = b at calm held consistent ⊢
  have own := consistent.own
  have key := own k r held
  subst key
  have before := pull_times_seeded prim debug relay uptimeSecs b now own calm n
  obtain ⟨seeded, all⟩ := pull_seeds prim debug relay uptimeSecs b now own calm n before
  exact settled_copy_holds prim b now _ r seeded.copied held ((admission_ok_iff prim r now).mp admitted)
    (all r ((mem_unexpired b now own r).mpr ⟨held, fresh⟩))

-- Where all unexpired records share one second, every page is the same.
theorem one_second_page (items : List SignedRecord) (t cursor : Nat) (same : ∀ r ∈ items, issued r = t) (x : SignedRecord)
    (member : x ∈ page issued maxSyncBatch.toNat cursor items) : x ∈ items.take maxSyncBatch.toNat := by
  by_cases reached : cursor ≤ t
  · have all : Paging.since issued cursor items = items := by
      rw [Paging.since, List.filter_eq_self]
      intro r inItems
      simpa [same r inItems] using reached
    rwa [page, all] at member
  · have := same x (mem_page _ _ _ x member).1
    have := (mem_page _ _ _ x member).2
    omega

theorem one_second_stuck (own : ∀ k r, b.records.lookup k = some r → r.key = k) (t n : Nat)
    (same : ∀ r ∈ b.unexpired now, issued r = t) (k : PubKey) (r : SignedRecord)
    (held : (pullTimes prim debug relay uptimeSecs b now n).1.records.lookup k = some r) :
    r ∈ (b.unexpired now).take maxSyncBatch.toNat := by
  induction n generalizing k r with
  | zero => simp [pullTimes, Store.new] at held
  | succ n ih =>
      refine pull_invariant prim debug ⟨b, 0, 0, 0, true⟩ relay now uptimeSecs (fun _ => none)
        (fun a => ∀ k r, a.records.lookup k = some r → r ∈ (b.unexpired now).take maxSyncBatch.toNat) own
        (pullTimes prim debug relay uptimeSecs b now n).2 (pullTimes prim debug relay uptimeSecs b now n).1 ?_ ih k r held
      intro a cursor _ x member before k' r' found
      rcases put_held prim a x now k' r' found with old | ⟨same', _⟩
      · exact before k' r' old
      · rw [same']
        exact one_second_page _ t cursor same x member

section Sample

open Sample Delivery

def crowd : List SignedRecord := bulkRecords [] 513

theorem crowd_bulk (r : SignedRecord) (member : r ∈ crowd) : ∃ i, i < 513 ∧ r = bulk [] i := by
  obtain ⟨i, inRange, same⟩ := List.mem_map.mp member
  exact ⟨i, List.mem_range.mp inRange, same.symm⟩

theorem crowd_admitted (r : SignedRecord) (member : r ∈ crowd) : admission trusting r 1000 = .ok () := by
  obtain ⟨i, small, rfl⟩ := crowd_bulk r member
  exact bulk_admitted [] i (by omega) (Nat.zero_le _)

-- 513 keys published in one second. However often the new server pulls, one of
-- their records does not reach it.
theorem crowded_second_is_never_seeded :
    let b := (crowd.map (fun r => Op.put r 1000)).foldl (Store.apply trusting) (openFrom trusting none 0)
    ∃ k r, b.records.lookup k = some r ∧ r.record.isExpired 1000 = false ∧ admission trusting r 1000 = .ok () ∧
      ∀ n, (pullTimes trusting (fun _ => "") (fun _ _ => .ok none) 0 b 1000 n).1.records.lookup k ≠ some r := by
  intro b
  have merged : b = merge trusting 1000 crowd Store.new := List.foldl_map ..
  clear_value b
  have once := bulk_once [] 513 (by decide)
  have held := merge_distinct trusting 1000 crowd once crowd_admitted
  have perm := merge_values_perm trusting 1000 crowd once crowd_admitted
  rw [← merged] at held perm
  have own : ∀ k r, b.records.lookup k = some r → r.key = k := fun k r found => ((held k r).mp found).2
  have fresh : ∀ r ∈ b.values, (!r.record.isExpired 1000) = true := by
    intro r member
    obtain ⟨i, _, rfl⟩ := crowd_bulk r (perm.mem_iff.mp member)
    rw [bulk_fresh]
    rfl
  have same : ∀ r ∈ b.unexpired 1000, issued r = 1000 := by
    intro r member
    obtain ⟨i, _, rfl⟩ := crowd_bulk r ((held _ r).mp ((mem_unexpired b 1000 own r).mp member).1).1
    rfl
  have length : (b.unexpired 1000).length = 513 := by
    rw [unexpired, List.length_insertionSort, List.filter_eq_self.mpr fresh, perm.length_eq]
    exact (List.length_map _).trans List.length_range
  -- The last record in the listing lies beyond the first page.
  have split := List.take_append_drop maxSyncBatch.toNat (b.unexpired 1000)
  have beyond : ((b.unexpired 1000).drop maxSyncBatch.toNat).length = 1 := by
    rw [List.length_drop, length]
    rfl
  obtain ⟨r, last⟩ := List.length_eq_one_iff.mp beyond
  rw [last] at split
  have member : r ∈ b.unexpired 1000 := by
    rw [← split]
    simp
  obtain ⟨inStore, stillFresh⟩ := (mem_unexpired b 1000 own r).mp member
  refine ⟨r.key, r, inStore, stillFresh, crowd_admitted r ((held _ r).mp inStore).1, ?_⟩
  intro n found
  have inPage := one_second_stuck trusting (fun _ => "") (fun _ _ => .ok none) 0 b 1000 own 1000 n same r.key r found
  have distinct : (b.unexpired 1000).Nodup := List.Nodup.of_map _ (unexpired_once b 1000 own)
  rw [← split, List.nodup_append] at distinct
  exact distinct.2.2 r inPage r (by simp) rfl

theorem pull_seeds_completely_publish :
    (pullTimes ed25519 (fun _ => "") (fun _ _ => .ok none) 0 ([Op.put publish 1000].foldl (Store.apply ed25519)
      (openFrom ed25519 none 0)) 1000 1).1.records.lookup node = some publish := by
  refine pull_seeds_completely ed25519 _ _ _ 1000 none 0 [Op.put publish 1000] 0 node publish ?_ (by decide +kernel)
    (by decide) (by decide +kernel)
  intro t crowded
  have consistent : Consistent ed25519 ([Op.put publish 1000].foldl (Store.apply ed25519) (openFrom ed25519 none 0)) :=
    fold_invariant ed25519 (Consistent ed25519) (apply_consistent ed25519) _ _ (open_consistent ed25519 none 0)
  have whole := unexpired_length _ 1000 consistent.own
  have one : ([Op.put publish 1000].foldl (Store.apply ed25519) (openFrom ed25519 none 0)).records.keys.card = 1 := by
    decide +kernel
  have many := crowded.1.trans (List.length_filter_le _ _)
  have cap : maxSyncBatch.toNat = 512 := rfl
  omega

end Sample

end Sqns.Seeding
