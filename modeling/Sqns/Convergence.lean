import Sqns.Lib.Merge
import Sqns.Lifetime

set_option autoImplicit false

namespace Sqns.Store

open Merge

variable (prim : Primitives)

def newer (a b : SignedRecord) : Bool := a.record.supersedes b.record

theorem newer_trans (a b c : SignedRecord) (ab : newer a b = true) (bc : newer b c = true) : newer a c = true :=
  Record.supersedes_trans a.record b.record c.record ab bc

def merge (now : Nat) (records : List SignedRecord) (s : Store) : Store :=
  records.foldl (fun s record => (s.put prim record now).2) s

structure Honest (records : List SignedRecord) : Prop where
  identity : ∀ a ∈ records, ∀ b ∈ records, a.key = b.key → a.identity = b.identity
  terminal : ∀ a ∈ records, ∀ b ∈ records, a.key = b.key → a.record.isTerminal = true → b.record.isTerminal = true → a = b
  live : ∀ a ∈ records, ∀ b ∈ records, a.key = b.key → a.record.isTerminal = false → b.record.isTerminal = false →
    a.record.serial = b.record.serial → a.record.issuedAt = b.record.issuedAt → a = b

theorem honest_comparable (records : List SignedRecord) (honest : Honest records) (k : PubKey)
    (own : ∀ r ∈ records, r.key = k) : Comparable newer records := by
  intro a inA b inB
  have sameKey : a.key = b.key := (own a inA).trans (own b inB).symm
  simp only [newer, Record.supersedes_iff]
  cases aTerminal : a.record.isTerminal with
  | true =>
      cases bTerminal : b.record.isTerminal with
      | true => exact .inl (honest.terminal a inA b inB sameKey aTerminal bTerminal)
      | false => exact .inr (.inl ⟨rfl, .inl rfl⟩)
  | false =>
      cases bTerminal : b.record.isTerminal with
      | true => exact .inr (.inr ⟨rfl, .inl rfl⟩)
      | false =>
          by_cases serial : a.record.serial.toNat = b.record.serial.toNat
          · by_cases issued : a.record.issuedAt.toNat = b.record.issuedAt.toNat
            · exact .inl (honest.live a inA b inB sameKey aTerminal bTerminal (UInt64.toNat_inj.mp serial)
                (UInt64.toNat_inj.mp issued))
            · right
              simp only [true_and, Bool.false_eq_true, false_or]
              omega
          · right
            simp only [true_and, Bool.false_eq_true, false_or]
            omega

-- One `put` at one key. A refusal because the key is retired leaves what
-- `keepNewest` leaves, since nothing supersedes a terminal record.
theorem put_slot (s : Store) (record : SignedRecord) (now : Nat) (k : PubKey)
    (pinned : ∀ bound, s.bindings.lookup record.key = some bound → record.identity = bound) :
    (s.put prim record now).2.records.lookup k =
      if record.key = k ∧ admission prim record now = .ok () then keepNewest newer (s.records.lookup k) record
      else s.records.lookup k := by
  by_cases accepted : Accepted prim s record now
  · rw [put_accepted prim s record now accepted, accept_records_lookup]
    have admitted := (admission_ok_iff prim record now).mpr accepted.admitted
    by_cases here : record.key = k
    · rw [if_pos here.symm, if_pos ⟨here, admitted⟩]
      cases held : s.records.lookup k with
      | none => rfl
      | some old => simp [keepNewest, newer, accepted.newer old (here ▸ held)]
    · rw [if_neg (fun same => here same.symm), if_neg (fun both => here both.1)]
  · rw [put_unchanged prim s record now (fun stored => accepted ((put_stored_iff prim s record now).mp stored))]
    by_cases both : record.key = k ∧ admission prim record now = .ok ()
    · obtain ⟨rfl, admitted⟩ := both
      rw [if_pos ⟨rfl, admitted⟩]
      cases held : s.records.lookup record.key with
      | none =>
          exact False.elim (accepted ⟨(admission_ok_iff prim record now).mp admitted, pinned, by simp [held]⟩)
      | some old =>
          by_cases wins : record.record.supersedes old.record = true
          · refine False.elim (accepted ⟨(admission_ok_iff prim record now).mp admitted, pinned, ?_⟩)
            intro other found
            rw [held, Option.some.injEq] at found
            exact found ▸ wins
          · simp [keepNewest, newer, wins]
    · rw [if_neg both]

structure Mirrored (s : Store) : Prop where
  linked : Linked s
  own : ∀ k r, s.records.lookup k = some r → r.key = k
  bindings : ∀ k, s.bindings.lookup k = (s.records.lookup k).map SignedRecord.identity

theorem put_mirrored (s : Store) (record : SignedRecord) (now : Nat) (mirrored : Mirrored s) :
    Mirrored (s.put prim record now).2 := by
  by_cases accepted : Accepted prim s record now
  · rw [put_accepted prim s record now accepted]
    refine ⟨accept_linked s record mirrored.linked accepted.pinned, ?_, ?_⟩
    · intro k r found
      rw [accept_records_lookup] at found
      by_cases here : k = record.key
      · rw [if_pos here, Option.some.injEq] at found
        rw [← found, here]
      · rw [if_neg here] at found
        exact mirrored.own k r found
    · intro k
      rw [accept_bound s record k accepted.pinned, accept_records_lookup]
      by_cases here : k = record.key
      · rw [if_pos here, if_pos here, Option.map_some]
      · rw [if_neg here, if_neg here]
        exact mirrored.bindings k
  · rwa [put_unchanged prim s record now (fun stored => accepted ((put_stored_iff prim s record now).mp stored))]

def slot (now : Nat) (k : PubKey) (records : List SignedRecord) : List SignedRecord :=
  records.filter (fun record => decide (record.key = k ∧ admission prim record now = .ok ()))

theorem mem_slot (now : Nat) (k : PubKey) (records : List SignedRecord) (r : SignedRecord) :
    r ∈ slot prim now k records ↔ r ∈ records ∧ r.key = k ∧ admission prim r now = .ok () := by
  simp only [slot, List.mem_filter, decide_eq_true_eq]

theorem slot_comparable (now : Nat) (k : PubKey) (records : List SignedRecord) (honest : Honest records) :
    Comparable newer (slot prim now k records) := by
  have sub : ∀ r ∈ slot prim now k records, r ∈ records := fun r member => ((mem_slot prim now k records r).mp member).1
  apply honest_comparable _ _ k
  · intro r member
    exact ((mem_slot prim now k records r).mp member).2.1
  · exact ⟨fun a inA b inB => honest.identity a (sub a inA) b (sub b inB),
      fun a inA b inB => honest.terminal a (sub a inA) b (sub b inB),
      fun a inA b inB => honest.live a (sub a inA) b (sub b inB)⟩

theorem slot_cons (now : Nat) (k : PubKey) (head : SignedRecord) (tail : List SignedRecord) :
    slot prim now k (head :: tail) =
      if head.key = k ∧ admission prim head now = .ok () then head :: slot prim now k tail else slot prim now k tail := by
  simp only [slot, List.filter_cons, decide_eq_true_eq]

theorem merge_slot (now : Nat) (records seen : List SignedRecord) (s : Store) (mirrored : Mirrored s)
    (honest : ∀ a ∈ seen ++ records, ∀ b ∈ seen ++ records, a.key = b.key → a.identity = b.identity)
    (held : ∀ k r, s.records.lookup k = some r → r ∈ seen) :
    Mirrored (merge prim now records s) ∧
      ∀ k, (merge prim now records s).records.lookup k =
        (slot prim now k records).foldl (keepNewest newer) (s.records.lookup k) := by
  induction records generalizing s seen with
  | nil => exact ⟨mirrored, fun k => rfl⟩
  | cons head tail ih =>
      have pinned : ∀ bound, s.bindings.lookup head.key = some bound → head.identity = bound := by
        intro bound found
        rw [mirrored.bindings] at found
        obtain ⟨r, inStore, rfl⟩ := Option.map_eq_some_iff.mp found
        exact honest head (by simp) r (by simp [held _ r inStore]) (mirrored.own _ r inStore).symm
      have step := fun k => put_slot prim s head now k pinned
      have heldNext : ∀ k r, (s.put prim head now).2.records.lookup k = some r → r ∈ seen ++ [head] := by
        intro k r found
        rw [step k] at found
        by_cases both : head.key = k ∧ admission prim head now = .ok ()
        · rw [if_pos both] at found
          rcases keep_newest_mem _ _ _ found with rfl | old
          · simp
          · simp [held k r old]
        · rw [if_neg both] at found
          simp [held k r found]
      obtain ⟨rest, slots⟩ := ih (seen ++ [head]) (s.put prim head now).2 (put_mirrored prim s head now mirrored)
        (by simpa using honest) heldNext
      refine ⟨rest, fun k => (slots k).trans ?_⟩
      rw [step k, slot_cons]
      by_cases both : head.key = k ∧ admission prim head now = .ok ()
      · rw [if_pos both, if_pos both, List.foldl_cons]
      · rw [if_neg both, if_neg both]

theorem new_mirrored : Mirrored new := ⟨new_linked, by simp [new], by simp [new]⟩

theorem merge_order_irrelevant (now : Nat) (records others : List SignedRecord) (honest : Honest records)
    (same : ∀ r, r ∈ others ↔ r ∈ records) :
    (merge prim now others new).records = (merge prim now records new).records ∧
      (merge prim now others new).bindings = (merge prim now records new).bindings ∧
      (merge prim now others new).identityIndex = (merge prim now records new).identityIndex := by
  obtain ⟨mirrored, slots⟩ := merge_slot prim now records [] new new_mirrored (by simpa using honest.identity) (by simp [new])
  obtain ⟨mirrored', slots'⟩ := merge_slot prim now others [] new new_mirrored
    (by simpa [same] using honest.identity) (by simp [new])
  have held : (merge prim now others new).records = (merge prim now records new).records := by
    apply Finmap.ext_lookup
    intro k
    rw [slots k, slots' k]
    have elements : ∀ r, r ∈ slot prim now k others ↔ r ∈ slot prim now k records := by
      intro r
      simp only [slot, List.mem_filter, same r]
    exact fold_same_elements (fun a => Record.supersedes_irrefl a.record) newer_trans _ _
      (slot_comparable prim now k records honest) elements
  have bound : (merge prim now others new).bindings = (merge prim now records new).bindings := by
    apply Finmap.ext_lookup
    intro k
    rw [mirrored.bindings, mirrored'.bindings, held]
  exact ⟨held, bound, linked_index_eq _ _ mirrored'.linked mirrored.linked bound⟩

theorem merge_distinct (now : Nat) (records : List SignedRecord) (once : (records.map SignedRecord.key).Nodup)
    (admitted : ∀ r ∈ records, admission prim r now = .ok ()) (k : PubKey) (r : SignedRecord) :
    (merge prim now records new).records.lookup k = some r ↔ r ∈ records ∧ r.key = k := by
  have injective : ∀ a ∈ records, ∀ b ∈ records, a.key = b.key → a = b := fun a inA b inB =>
    List.inj_on_of_nodup_map once inA inB
  obtain ⟨_, slots⟩ := merge_slot prim now records [] new new_mirrored
    (fun a inA b inB same => by rw [injective a inA b inB same]) (by simp [new])
  have member : ∀ x, x ∈ slot prim now k records ↔ x ∈ records ∧ x.key = k := by
    intro x
    rw [mem_slot]
    exact ⟨fun both => ⟨both.1, both.2.1⟩, fun both => ⟨both.1, both.2, admitted x both.1⟩⟩
  rw [slots k, ← member]
  cases items : slot prim now k records with
  | nil => simp [new]
  | cons head tail =>
      have single : ∀ a ∈ head :: tail, ∀ b ∈ head :: tail, a = b := by
        intro a inA b inB
        rw [← items] at inA inB
        obtain ⟨inRecords, key⟩ := (member a).mp inA
        obtain ⟨inRecords', key'⟩ := (member b).mp inB
        exact injective a inRecords b inRecords' (key.trans key'.symm)
      obtain ⟨m, fold, greatest⟩ := fold_from_greatest newer_trans tail head (fun a inA b inB => .inl (single a inA b inB))
      have start : keepNewest newer (new.records.lookup k) head = some head := rfl
      rw [List.foldl_cons, start, fold, Option.some.injEq]
      apply Iff.intro
      · intro same
        exact same ▸ greatest.member
      · intro inSlot
        exact single m greatest.member r inSlot

section Sample

open Sample

theorem sample_honest : Honest [publish, withdrawal, revocation] := by
  refine ⟨?_, ?_, ?_⟩
  all_goals decide +kernel

theorem merge_order_irrelevant_sample :
    (merge ed25519 1000 [revocation, publish, publish, withdrawal] new).records =
      (merge ed25519 1000 [publish, withdrawal, revocation] new).records :=
  (merge_order_irrelevant ed25519 1000 [publish, withdrawal, revocation] [revocation, publish, publish, withdrawal]
    sample_honest (by intro r; simp only [List.mem_cons, List.not_mem_nil]; tauto)).1

end Sample

end Sqns.Store
