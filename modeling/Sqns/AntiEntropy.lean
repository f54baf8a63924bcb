import Sqns.Lifetime
import Sqns.Replication

set_option autoImplicit false

namespace Sqns.AntiEntropy

open Store Trace Paging Replication

variable (prim : Primitives) (debug : Response → String) (relay : PubKey → UInt8 → Except Error (Option Relayed))
  (uptimeSecs : UInt64)

-- Server A with its watermark for peer B, and B. Both read the same clock.
structure State where
  now : Nat
  a : Store
  b : Store
  watermark : UInt64

inductive Event where
  | tick (later : Nat)
  | putA (record : SignedRecord)
  | purgeA
  | putB (record : SignedRecord)
  | purgeB
  | pull (failure : Nat → Option Error) (result : Except Error Nat)

def pulled (s : State) (failure : Nat → Option Error) : Pulled :=
  pull prim debug (honest prim ⟨s.b, 0, 0, 0, true⟩ relay s.now uptimeSecs failure) s.now s.watermark s.a

inductive Step : State → Event → State → Prop where
  | tick (s : State) (later : Nat) (forward : s.now ≤ later) : Step s (.tick later) { s with now := later }
  | putA (s : State) (record : SignedRecord) : Step s (.putA record) { s with a := (s.a.put prim record s.now).2 }
  | purgeA (s : State) : Step s .purgeA { s with a := (s.a.purgeExpired s.now).2 }
  | putB (s : State) (record : SignedRecord) : Step s (.putB record) { s with b := (s.b.put prim record s.now).2 }
  | purgeB (s : State) : Step s .purgeB { s with b := (s.b.purgeExpired s.now).2 }
  | pull (s : State) (failure : Nat → Option Error) :
      Step s (.pull failure (pulled prim debug relay uptimeSecs s failure).result)
        { s with
          a := (pulled prim debug relay uptimeSecs s failure).store
          watermark := (pulled prim debug relay uptimeSecs s failure).watermark }

-- No second is shared by more than 511 of B's unexpired records.
def Sparse (s : State) : Prop :=
  ∀ t, ((s.b.unexpired s.now).filter (fun r => decide (issued r = t))).length ≤ 511

theorem sparse_calm (s : State) (sparse : Sparse s) (t : Nat) :
    ¬ Crowded issued maxSyncBatch.toNat (s.b.unexpired s.now) t := by
  intro crowded
  have cap : maxSyncBatch.toNat = 512 := rfl
  have few := sparse t
  have many := crowded.1
  omega

-- What keeps the cursor honest: B stores nothing behind it that A still lacks,
-- and A sweeps nothing that stands for a record behind it.
def Orderly (move : Transition State Event) : Prop :=
  match move.label with
  | .putB record => Accepted prim move.pre.b record move.pre.now → issued record < move.pre.watermark.toNat →
      ¬ Accepted prim move.pre.a record move.pre.now
  | .purgeA => ∀ r held, move.pre.b.records.lookup r.key = some r → r.record.isExpired move.pre.now = false →
      issued r < move.pre.watermark.toNat → move.pre.a.records.lookup r.key = some held →
      held.record.isExpired move.pre.now = true → Admitted prim r move.pre.now →
      ¬ ∀ bound, move.pre.a.bindings.lookup r.key = some bound → r.identity = bound
  | _ => True

-- Nothing B holds behind the watermark is news to A.
structure Caught (s : State) : Prop where
  consistent : Consistent prim s.b
  notFuture : ∀ k r, s.b.records.lookup k = some r → issued r ≤ s.now + maxClockSkew
  behind : ∀ k r, s.b.records.lookup k = some r → r.record.isExpired s.now = false → issued r < s.watermark.toNat →
    ¬ Accepted prim s.a r s.now

theorem start_caught (t₀ : Nat) : Caught prim ⟨t₀, Store.new, Store.new, 0⟩ := by
  refine ⟨new_consistent prim, ?_, ?_⟩
  all_goals simp [Store.new]

theorem accepted_earlier (s : Store) (r : SignedRecord) (now later : Nat) (le : now ≤ later)
    (notFuture : issued r ≤ now + maxClockSkew) (accepted : Accepted prim s r later) : Accepted prim s r now := by
  have admitted := accepted.admitted
  refine ⟨⟨admitted.valid, admitted.verified, notFuture, ?_, ?_⟩, accepted.pinned, accepted.newer⟩
  · cases early : r.record.isExpired now with
    | false => rfl
    | true =>
        have fresh := admitted.fresh
        rw [Record.expired_mono _ now later le early] at fresh
        cases fresh
  · rcases admitted.delegated with terminal | fresh
    · exact .inl terminal
    · refine .inr ?_
      cases early : r.record.delegation.isExpired now with
      | false => rfl
      | true =>
          rw [Delegation.expired_mono _ now later le early] at fresh
          cases fresh

theorem tick_caught (s : State) (later : Nat) (forward : s.now ≤ later) (caught : Caught prim s) :
    Caught prim { s with now := later } := by
  refine ⟨caught.consistent, ?_, ?_⟩
  · intro k r held
    have early := caught.notFuture k r held
    dsimp only
    omega
  · intro k r held fresh below accepted
    have stillFresh : r.record.isExpired s.now = false := by
      cases early : r.record.isExpired s.now with
      | false => rfl
      | true =>
          rw [Record.expired_mono _ s.now later forward early] at fresh
          cases fresh
    exact caught.behind k r held stillFresh below
      (accepted_earlier prim s.a r s.now later forward (caught.notFuture k r held) accepted)

theorem purge_a_caught (s : State) (caught : Caught prim s) (orderly : Orderly prim ⟨s, .purgeA, s⟩) :
    Caught prim { s with a := (s.a.purgeExpired s.now).2 } := by
  refine ⟨caught.consistent, caught.notFuture, ?_⟩
  intro k r held fresh below accepted
  have own := caught.consistent.own k r held
  apply caught.behind k r held fresh below
  refine ⟨accepted.admitted, accepted.pinned, ?_⟩
  intro old found
  by_cases expired : old.record.isExpired s.now = true
  · exact False.elim (orderly r old (own ▸ held) fresh below found expired accepted.admitted accepted.pinned)
  · exact accepted.newer old (by simp [found, expired])

theorem put_b_caught (s : State) (record : SignedRecord) (caught : Caught prim s)
    (orderly : Orderly prim ⟨s, .putB record, s⟩) : Caught prim { s with b := (s.b.put prim record s.now).2 } := by
  rcases put_cases prim s.b record s.now with ⟨e, refused⟩ | ⟨stale, _⟩ | ⟨accepted, stored⟩
  · rw [refused]
    exact caught
  · rw [stale]
    exact caught
  · rw [stored]
    refine ⟨accept_consistent prim s.b record s.now caught.consistent accepted, ?_, ?_⟩
    · intro k r held
      rw [accept_records_lookup] at held
      by_cases here : k = record.key
      · rw [if_pos here, Option.some.injEq] at held
        exact held ▸ accepted.admitted.notFuture
      · rw [if_neg here] at held
        exact caught.notFuture k r held
    · intro k r held fresh below
      rw [accept_records_lookup] at held
      by_cases here : k = record.key
      · rw [if_pos here, Option.some.injEq] at held
        subst held
        exact orderly accepted below
      · rw [if_neg here] at held
        exact caught.behind k r held fresh below

theorem pull_caught (s : State) (failure : Nat → Option Error) (sparse : Sparse s) (caught : Caught prim s) :
    Caught prim { s with
        a := (pulled prim debug relay uptimeSecs s failure).store
        watermark := (pulled prim debug relay uptimeSecs s failure).watermark } ∧
      ∀ n, (pulled prim debug relay uptimeSecs s failure).result = .ok n → ∀ r ∈ s.b.unexpired s.now,
        ¬ Accepted prim (pulled prim debug relay uptimeSecs s failure).store r s.now := by
  have own := caught.consistent.own
  obtain ⟨below, all⟩ := pull_settles prim debug ⟨s.b, 0, 0, 0, true⟩ relay s.now uptimeSecs failure own
    (sparse_calm s sparse) s.watermark s.a (by
      intro r member less
      obtain ⟨held, fresh⟩ := (mem_unexpired s.b s.now own r).mp member
      exact caught.behind r.key r held fresh less)
  refine ⟨⟨caught.consistent, caught.notFuture, ?_⟩, all⟩
  intro k r held fresh less
  have key := own k r held
  exact below r ((mem_unexpired s.b s.now own r).mpr ⟨key.symm ▸ held, fresh⟩) less

theorem step_caught (s t : State) (e : Event) (step : Step prim debug relay uptimeSecs s e t) (sparse : Sparse s)
    (orderly : Orderly prim ⟨s, e, t⟩) (caught : Caught prim s) : Caught prim t := by
  cases step with
  | tick later forward => exact tick_caught prim s later forward caught
  | putA record =>
      exact ⟨caught.consistent, caught.notFuture, fun k r held fresh below =>
        put_settled prim s.a record r s.now (caught.behind k r held fresh below)⟩
  | purgeA => exact purge_a_caught prim s caught orderly
  | putB record => exact put_b_caught prim s record caught orderly
  | purgeB =>
      have held : ∀ k r, (s.b.purgeExpired s.now).2.records.lookup k = some r → s.b.records.lookup k = some r := by
        intro k r found
        rw [purge_records_lookup, Option.filter_eq_some_iff] at found
        exact found.1
      exact ⟨purge_consistent prim s.b s.now caught.consistent, fun k r found => caught.notFuture k r (held k r found),
        fun k r found => caught.behind k r (held k r found)⟩
  | pull failure => exact (pull_caught prim debug relay uptimeSecs s failure sparse caught).1

theorem unaccepted_covered (s : Store) (r : SignedRecord) (now : Nat) (settled : ¬ Accepted prim s r now)
    (admitted : admission prim r now = .ok ()) (unrefused : s.refusal prim r = none) :
    ∃ held, s.records.lookup r.key = some held ∧ r.record.supersedes held.record = false := by
  obtain ⟨_, pinned⟩ := (refusal_eq_none prim s r).mp unrefused
  by_contra uncovered
  refine settled ⟨(admission_ok_iff prim r now).mp admitted, pinned, ?_⟩
  intro held found
  by_contra older
  exact uncovered ⟨held, found, by simpa using older⟩

def Complete (move : Transition State Event) : Prop :=
  ∀ failure n, move.label = .pull failure (.ok n) → ∀ r, move.pre.b.records.lookup r.key = some r →
    r.record.isExpired move.pre.now = false → admission prim r move.post.now = .ok () → move.post.a.refusal prim r = none →
    ∃ held, move.post.a.records.lookup r.key = some held ∧ r.record.supersedes held.record = false

-- A record behind the watermark is in no page: if A knows nothing of its key,
-- no pull will tell it.
theorem pull_skips_late (s : State) (failure : Nat → Option Error) (r : SignedRecord)
    (own : ∀ k r, s.b.records.lookup k = some r → r.key = k) (held : s.b.records.lookup r.key = some r)
    (late : issued r < s.watermark.toNat)
    (unknown : s.a.records.lookup r.key = none ∧ s.a.bindings.lookup r.key = none) :
    (pulled prim debug relay uptimeSecs s failure).store.records.lookup r.key = none ∧
      (pulled prim debug relay uptimeSecs s failure).store.bindings.lookup r.key = none := by
  apply pull_invariant prim debug ⟨s.b, 0, 0, 0, true⟩ relay s.now uptimeSecs failure
    (fun a => a.records.lookup r.key = none ∧ a.bindings.lookup r.key = none) own
  · intro a cursor above x member absent
    obtain ⟨inListing, reached⟩ := mem_page _ _ _ x member
    have heldX := ((mem_unexpired s.b s.now own x).mp inListing).1
    have other : r.key ≠ x.key := by
      intro same
      rw [← same, held, Option.some.injEq] at heldX
      rw [← heldX] at reached
      omega
    obtain ⟨records, bindings⟩ := put_other_key prim a x s.now r.key other
    exact ⟨records.trans absent.1, bindings.trans absent.2⟩
  · exact unknown

theorem late_pull_incomplete (s t : State) (failure : Nat → Option Error) (n : Nat) (r : SignedRecord)
    (own : ∀ k r, s.b.records.lookup k = some r → r.key = k) (held : s.b.records.lookup r.key = some r)
    (late : issued r < s.watermark.toNat)
    (unknown : s.a.records.lookup r.key = none ∧ s.a.bindings.lookup r.key = none) (admitted : Admitted prim r s.now)
    (same : t.now = s.now) (after : t.a = (pulled prim debug relay uptimeSecs s failure).store) :
    ¬ Complete prim ⟨s, .pull failure (.ok n), t⟩ := by
  intro complete
  obtain ⟨noRecord, noBinding⟩ := pull_skips_late prim debug relay uptimeSecs s failure r own held late unknown
  rw [← after] at noRecord noBinding
  have unrefused : t.a.refusal prim r = none := by
    rw [refusal_eq_none]
    constructor
    · intro held found
      cases noRecord.symm.trans found
    · intro bound found
      cases noBinding.symm.trans found
  obtain ⟨_, found, _⟩ := complete failure n rfl r held admitted.fresh
    ((admission_ok_iff prim r t.now).mpr (same ▸ admitted)) unrefused
  cases noRecord.symm.trans found

theorem few_sparse (s : State) (consistent : Consistent prim s.b) (few : s.b.records.keys.card ≤ 511) : Sparse s := fun _ =>
  (List.length_filter_le _ _).trans ((unexpired_length s.b s.now consistent.own).trans few)

theorem few_pulled (s : State) (consistent : Consistent prim s.b) (few : s.b.records.keys.card ≤ 511) :
    let batch := page issued maxSyncBatch.toNat s.watermark.toNat (s.b.unexpired s.now)
    pulled prim debug relay uptimeSecs s (fun _ => none) =
      ⟨.ok (applyBatch prim s.now (s.a, 0) batch).2, (applyBatch prim s.now (s.a, 0) batch).1, batchHigh s.watermark batch⟩ := by
  apply pull_in_one_batch prim debug ⟨s.b, 0, 0, 0, true⟩ relay s.now uptimeSecs consistent.own rfl s.watermark s.a
  have cap : maxSyncBatch.toNat = 512 := rfl
  have shorter := List.length_filter_le (fun r => decide (s.watermark.toNat ≤ issued r)) (s.b.unexpired s.now)
  have whole := unexpired_length s.b s.now consistent.own
  simp only [Paging.since]
  omega

section Sample

open Sample

def quietStep : State → Event → State → Prop := Step ed25519 (fun _ => "") (fun _ _ => .ok none) 0

def afterPull (s : State) : State :=
  { s with
    a := (pulled ed25519 (fun _ => "") (fun _ _ => .ok none) 0 s (fun _ => none)).store
    watermark := (pulled ed25519 (fun _ => "") (fun _ _ => .ok none) 0 s (fun _ => none)).watermark }

theorem pull_step (s : State) (consistent : Consistent ed25519 s.b) (few : s.b.records.keys.card ≤ 511) :
    ∃ n, quietStep s (.pull (fun _ => none) (.ok n)) (afterPull s) := by
  have step : quietStep s _ (afterPull s) := .pull s (fun _ => none)
  rw [few_pulled ed25519 _ _ _ s consistent few] at step
  exact ⟨_, step⟩

def arrival (s : State) (record : SignedRecord) : State := { s with b := (s.b.put ed25519 record s.now).2 }

theorem arrival_consistent (s : State) (record : SignedRecord) (consistent : Consistent ed25519 s.b) :
    Consistent ed25519 (arrival s record).b := put_consistent ed25519 s.b record s.now consistent

theorem arrival_rest (s : State) (record : SignedRecord) :
    (arrival s record).now = s.now ∧ (arrival s record).a = s.a ∧ (arrival s record).watermark = s.watermark :=
  ⟨rfl, rfl, rfl⟩

theorem after_pull_b (s : State) : (afterPull s).b = s.b ∧ (afterPull s).now = s.now := ⟨rfl, rfl⟩

theorem after_pull_a (s : State) :
    (afterPull s).a = (pulled ed25519 (fun _ => "") (fun _ _ => .ok none) 0 s (fun _ => none)).store := rfl

theorem after_pull_sparse (s : State) (sparse : Sparse s) : Sparse (afterPull s) := sparse

def published : State := arrival ⟨1000, Store.new, Store.new, 0⟩ publish

theorem published_consistent : Consistent ed25519 published.b :=
  arrival_consistent ⟨1000, Store.new, Store.new, 0⟩ publish (new_consistent ed25519)

theorem published_few : published.b.records.keys.card ≤ 511 := by decide +kernel

theorem published_pulled : (afterPull published).watermark.toNat = 1000 ∧
    (afterPull published).a.records.lookup spare = none ∧ (afterPull published).a.bindings.lookup spare = none := by
  rw [afterPull, few_pulled ed25519 _ _ _ published published_consistent published_few]
  decide +kernel

end Sample

end Sqns.AntiEntropy
