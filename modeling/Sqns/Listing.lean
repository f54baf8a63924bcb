import Sqns.Lib.Paging
import Sqns.StoreInvariant

set_option autoImplicit false

namespace Sqns.Store

open Paging

def issued (r : SignedRecord) : Nat := r.record.issuedAt.toNat

def syncLt (a b : SignedRecord) : Prop := issued a < issued b ∨ issued a = issued b ∧ a.key < b.key

instance : DecidableRel syncLt := fun _ _ => instDecidableOr

theorem sync_lt_asymm (a b : SignedRecord) (before : syncLt a b) : ¬ syncLt b a := by
  intro after
  rcases before with less | ⟨same, less⟩
  · rcases after with more | ⟨equal, _⟩
    · omega
    · omega
  · rcases after with more | ⟨_, more⟩
    · omega
    · exact lt_asymm less more

instance : IsTrans SignedRecord syncLe := ⟨by
  intro a b c ab bc
  rcases ab with less | ⟨same, le⟩
  · rcases bc with more | ⟨equal, _⟩
    · exact .inl (less.trans more)
    · exact .inl (equal ▸ less)
  · rcases bc with more | ⟨equal, le'⟩
    · exact .inl (same ▸ more)
    · exact .inr ⟨same.trans equal, le.trans le'⟩⟩

instance : Std.Total (α := SignedRecord) syncLe := ⟨by
  intro a b
  rcases Nat.lt_trichotomy a.record.issuedAt.toNat b.record.issuedAt.toNat with less | same | more
  · exact .inl (.inl less)
  · rcases le_total a.key b.key with le | le
    · exact .inl (.inr ⟨same, le⟩)
    · exact .inr (.inr ⟨same.symm, le⟩)
  · exact .inr (.inl more)⟩

theorem sync_le_key (a b : SignedRecord) (ab : syncLe a b) (ba : syncLe b a) : a.key = b.key := by
  rcases ab with less | ⟨_, le⟩
  · rcases ba with more | ⟨same, _⟩
    · omega
    · omega
  · rcases ba with more | ⟨_, ge⟩
    · omega
    · exact le_antisymm le ge

theorem sorted_unique (items others : List SignedRecord) (once : (items.map SignedRecord.key).Nodup)
    (perm : items.Perm others) (first : items.Pairwise syncLe) (second : others.Pairwise syncLe) : items = others := by
  refine List.Perm.eq_of_pairwise ?_ first second perm
  intro a b inA inB ab ba
  exact List.inj_on_of_nodup_map once inA (perm.mem_iff.mpr inB) (sync_le_key a b ab ba)

section Values

variable (s : Store) (own : ∀ k r, s.records.lookup k = some r → r.key = k)

include own

theorem mem_values (r : SignedRecord) : r ∈ s.values ↔ s.records.lookup r.key = some r := by
  simp only [values, List.mem_map, Prod.exists]
  apply Iff.intro
  · intro found
    obtain ⟨k, r', member, same⟩ := found
    have held := (Finmap.mem_ascending s.records k r').mp member
    rw [← same, own k r' held]
    exact held
  · intro held
    exact ⟨r.key, r, (Finmap.mem_ascending s.records r.key r).mpr held, rfl⟩

theorem values_keys : s.values.map SignedRecord.key = s.records.keys.sort (· ≤ ·) := by
  rw [values, List.map_map, ← Finmap.ascending_keys]
  apply List.map_congr_left
  intro item member
  exact own item.1 item.2 ((Finmap.mem_ascending s.records item.1 item.2).mp member)

theorem values_once : (s.values.map SignedRecord.key).Nodup := by
  rw [values_keys s own]
  exact Finset.sort_nodup _ _

end Values

-- Everything a sync request can be answered with, in the order it is sent.
def unexpired (s : Store) (now : Nat) : List SignedRecord :=
  (s.values.filter (fun r => !r.record.isExpired now)).insertionSort syncLe

section Unexpired

variable (s : Store) (now : Nat) (own : ∀ k r, s.records.lookup k = some r → r.key = k)

include own

theorem mem_unexpired (r : SignedRecord) :
    r ∈ s.unexpired now ↔ s.records.lookup r.key = some r ∧ r.record.isExpired now = false := by
  simp only [unexpired, List.mem_insertionSort, List.mem_filter, mem_values s own, Bool.not_eq_true']

theorem unexpired_once : ((s.unexpired now).map SignedRecord.key).Nodup :=
  ((List.perm_insertionSort syncLe _).map _).nodup_iff.mpr ((values_once s own).sublist (List.filter_sublist.map _))

theorem unexpired_length : (s.unexpired now).length ≤ s.records.keys.card := by
  have values : s.values.length = s.records.keys.card := by
    rw [← List.length_map (f := SignedRecord.key), values_keys s own, Finset.length_sort]
  rw [unexpired, List.length_insertionSort, ← values]
  exact List.length_filter_le _ _

theorem unexpired_sorted : (s.unexpired now).Pairwise syncLt := by
  have distinct : (s.unexpired now).Pairwise (fun a b => a.key ≠ b.key) :=
    List.pairwise_map.mp (unexpired_once s now own)
  refine ((List.pairwise_insertionSort syncLe _).and distinct).imp ?_
  intro a b both
  rcases both.1 with less | ⟨same, le⟩
  · exact .inl less
  · exact .inr ⟨same, lt_of_le_of_ne le both.2⟩

theorem unexpired_by_stamp : (s.unexpired now).Pairwise (fun a b => issued a ≤ issued b) := by
  refine (unexpired_sorted s now own).imp ?_
  intro a b before
  rcases before with less | ⟨same, _⟩
  · exact less.le
  · exact same.le

theorem since_page (cursor : UInt64) (limit : Nat) :
    s.since cursor limit now = (page issued limit cursor.toNat (s.unexpired now),
      decide ((Paging.since issued cursor.toNat (s.unexpired now)).length ≤ limit)) := by
  have same : (s.values.filter (fun record =>
      decide (cursor.toNat ≤ record.record.issuedAt.toNat) && !record.record.isExpired now)).insertionSort syncLe =
      Paging.since issued cursor.toNat (s.unexpired now) := by
    have first : ((s.values.filter (fun record => decide (cursor.toNat ≤ record.record.issuedAt.toNat) &&
        !record.record.isExpired now)).insertionSort syncLe).Perm (Paging.since issued cursor.toNat (s.unexpired now)) := by
      have filtered := (List.perm_insertionSort syncLe (s.values.filter (fun r => !r.record.isExpired now))).filter
        (fun r => decide (cursor.toNat ≤ issued r))
      rw [List.filter_filter] at filtered
      exact (List.perm_insertionSort syncLe _).trans filtered.symm
    refine sorted_unique _ _ ?_ first (List.pairwise_insertionSort _ _) ((List.pairwise_insertionSort syncLe _).filter _)
    exact (first.map _).nodup_iff.mpr ((unexpired_once s now own).sublist (List.filter_sublist.map _))
  simp only [since, sinceOf]
  rw [same]
  rfl

end Unexpired

-- What `LookupIdentity` walks: the identity's keys in order.
def issuedBy (s : Store) (identity : PubKey) (now : Nat) : List SignedRecord :=
  s.heldAmong (s.keysOf identity) now

theorem identity_records_eq (s : Store) (identity : PubKey) (limit now : Nat) :
    s.identityRecords identity limit now = (s.issuedBy identity now).take limit := by
  simp only [identityRecords, issuedBy, keysOf]
  cases s.identityIndex.lookup identity with
  | none => simp [heldAmong]
  | some keys => rfl

section IssuedBy

variable (s : Store) (identity : PubKey) (now : Nat) (own : ∀ k r, s.records.lookup k = some r → r.key = k)

include own

theorem issued_by_sorted : (s.issuedBy identity now).Pairwise (fun a b => a.key < b.key) := by
  refine List.Pairwise.filter _ (List.pairwise_filterMap.mpr ?_)
  refine (Finset.sortedLT_sort _).pairwise.imp ?_
  intro k k' less a foundA b foundB
  rw [own k a foundA, own k' b foundB]
  exact less

theorem mem_issued_by (r : SignedRecord) (linked : Linked s) :
    r ∈ s.issuedBy identity now ↔
      s.records.lookup r.key = some r ∧ s.bindings.lookup r.key = some identity ∧ r.record.isExpired now = false := by
  simp only [issuedBy, heldAmong, List.mem_filter, List.mem_filterMap, Finset.mem_sort, linked.inverse, Bool.not_eq_true']
  apply Iff.intro
  · intro found
    obtain ⟨⟨k, bound, held⟩, fresh⟩ := found
    have key := own k r held
    exact ⟨key ▸ held, key ▸ bound, fresh⟩
  · intro found
    obtain ⟨held, bound, fresh⟩ := found
    exact ⟨⟨r.key, bound, held⟩, fresh⟩

end IssuedBy

end Sqns.Store
