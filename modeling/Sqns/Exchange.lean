import Sqns.Convergence

set_option autoImplicit false

namespace Sqns.Store

open Merge Trace

variable (prim : Primitives)

-- What a pull does for one key: the record the other side holds is `put` here.
def putHeld (s other : Store) (k : PubKey) (now : Nat) : Store :=
  match other.records.lookup k with
  | none => s
  | some record => (s.put prim record now).2

-- The record `s` holds for `k` is still current and beats what `other` holds.
def Prevails (s other : Store) (k : PubKey) (now : Nat) : Prop :=
  ∃ r, s.records.lookup k = some r ∧ survives r now = true ∧
    ∀ held, other.records.lookup k = some held → r.record.supersedes held.record = true

theorem held_admission_iff (w : World) (k : PubKey) (r : SignedRecord) (sound : Sound prim w)
    (held : w.store.records.lookup k = some r) : admission prim r w.now = .ok () ↔ survives r w.now = true := by
  rw [admission_ok_iff, survives_iff]
  constructor
  · intro admitted
    exact ⟨admitted.fresh, admitted.delegated⟩
  · rintro ⟨fresh, delegated⟩
    exact ⟨sound.consistent.valid k r held, sound.consistent.verified k r held, sound.notFuture k r held, fresh, delegated⟩

theorem put_held_slot (a b : World) (k i : PubKey) (r : SignedRecord) (soundA : Sound prim a) (sameTime : a.now = b.now)
    (boundA : a.store.bindings.lookup k = some i) (boundB : b.store.bindings.lookup k = some i)
    (holds : a.store.records.lookup k = some r) : (b.store.putHeld prim a.store k b.now).records.lookup k =
      if survives r a.now = true then keepNewest newer (b.store.records.lookup k) r else b.store.records.lookup k := by
  have own : r.key = k := soundA.consistent.own k r holds
  have identity : r.identity = i := by
    have bound := soundA.consistent.bound k r holds
    rw [boundA, Option.some.injEq] at bound
    exact bound.symm
  have pinned : ∀ bound, b.store.bindings.lookup r.key = some bound → r.identity = bound := by
    intro bound found
    rw [own, boundB, Option.some.injEq] at found
    exact identity.trans found
  have slot := put_slot prim b.store r b.now k pinned
  have admits := held_admission_iff prim a k r soundA holds
  rw [← sameTime] at slot
  simp only [own, true_and, admits] at slot
  rw [putHeld, holds, ← sameTime]
  exact slot

theorem put_held_prevails (a b : World) (k i : PubKey) (soundA : Sound prim a)
    (sameTime : a.now = b.now) (boundA : a.store.bindings.lookup k = some i) (boundB : b.store.bindings.lookup k = some i) :
    (Prevails a.store b.store k a.now → (b.store.putHeld prim a.store k b.now).records.lookup k = a.store.records.lookup k) ∧
      (¬ Prevails a.store b.store k a.now →
        (b.store.putHeld prim a.store k b.now).records.lookup k = b.store.records.lookup k) := by
  cases holds : a.store.records.lookup k with
  | none =>
      refine ⟨?_, fun _ => by rw [putHeld, holds]⟩
      rintro ⟨r, held, _⟩
      rw [holds] at held
      cases held
  | some r =>
      rw [put_held_slot prim a b k i r soundA sameTime boundA boundB holds]
      constructor
      · rintro ⟨r', held, current, beats⟩
        rw [holds, Option.some.injEq] at held
        subst held
        rw [if_pos current]
        cases there : b.store.records.lookup k with
        | none => rfl
        | some old => simp [keepNewest, newer, beats old there]
      · intro loses
        by_cases current : survives r a.now = true
        · rw [if_pos current]
          cases there : b.store.records.lookup k with
          | none => exact False.elim (loses ⟨r, holds, current, by simp [there]⟩)
          | some old =>
              have under : ¬ r.record.supersedes old.record = true := by
                intro wins
                refine loses ⟨r, holds, current, fun held found => ?_⟩
                rw [there, Option.some.injEq] at found
                exact found ▸ wins
              simp [keepNewest, newer, under]
        · rw [if_neg current]

theorem not_both_prevail (s t : Store) (k : PubKey) (now : Nat) (first : Prevails s t k now) : ¬ Prevails t s k now := by
  obtain ⟨r, held, _, beats⟩ := first
  rintro ⟨r', held', _, beats'⟩
  have loop := Record.supersedes_trans _ _ _ (beats r' held') (beats' r held)
  rw [Record.supersedes_irrefl] at loop
  cases loop

-- Two servers that put each other's record for `k` agree afterwards exactly if
-- they agreed before or one record is current and beats the other. What is left
-- out: two different terminal records, two live ones with the same serial and
-- time of issue, and a newer record that has run out without being swept.
theorem exchange_agrees_iff (t₀ t₁ : Nat) (pastA pastB : List (Transition World (Event prim))) (a b : World)
    (reachedA : Run (Step prim) ⟨t₀, Store.new⟩ pastA a) (reachedB : Run (Step prim) ⟨t₁, Store.new⟩ pastB b)
    (sameTime : a.now = b.now) (k i : PubKey) (boundA : a.store.bindings.lookup k = some i)
    (boundB : b.store.bindings.lookup k = some i) :
    (a.store.putHeld prim b.store k a.now).records.lookup k = (b.store.putHeld prim a.store k b.now).records.lookup k ↔
      a.store.records.lookup k = b.store.records.lookup k ∨
        Prevails a.store b.store k a.now ∨ Prevails b.store a.store k a.now := by
  have soundA := reached_sound prim t₀ a pastA reachedA
  have soundB := reached_sound prim t₁ b pastB reachedB
  obtain ⟨takesA, keepsB⟩ := put_held_prevails prim a b k i soundA sameTime boundA boundB
  obtain ⟨takesB, keepsA⟩ := put_held_prevails prim b a k i soundB sameTime.symm boundB boundA
  rw [← sameTime] at takesB keepsA
  by_cases winsA : Prevails a.store b.store k a.now
  · rw [takesA winsA, keepsA (not_both_prevail _ _ k a.now winsA)]
    simp [winsA]
  · by_cases winsB : Prevails b.store a.store k a.now
    · rw [keepsB winsA, takesB winsB]
      simp [winsB]
    · rw [keepsB winsA, keepsA winsB]
      simp [winsA, winsB]

section Sample

open Sample

theorem exchange_agrees_iff_sample :
    let a := received ⟨1000, Store.new⟩ publish
    let b := received ⟨1000, Store.new⟩ revocation
    (a.store.putHeld ed25519 b.store node 1000).records.lookup node =
      (b.store.putHeld ed25519 a.store node 1000).records.lookup node := by
  intro a b
  have pastA : Run (Step ed25519) ⟨1000, Store.new⟩ _ a := .cons _ _ _ _ _ (.put _ (wire publish (by simp [known]))) (.nil _)
  have pastB : Run (Step ed25519) ⟨1000, Store.new⟩ _ b :=
    .cons _ _ _ _ _ (.put _ (wire revocation (by simp [known]))) (.nil _)
  have held : a.store.records.lookup node = some publish := by decide +kernel
  refine (exchange_agrees_iff ed25519 1000 1000 _ _ a b pastA pastB rfl node alice (by decide +kernel)
    (by decide +kernel)).mpr (.inr (.inr ⟨revocation, by decide +kernel, by decide +kernel, ?_⟩))
  intro other found
  rw [held, Option.some.injEq] at found
  subst found
  decide

-- One server learns that the key is revoked, the other that it is superseded.
-- Each refuses the other's record for good.
theorem two_retirements_stay_apart :
    ¬ ∀ (t₀ t₁ : Nat) (pastA pastB : List (Transition World (Event (attesting [revocation, succession])))) (a b : World),
      Run (Step (attesting [revocation, succession])) ⟨t₀, Store.new⟩ pastA a →
      Run (Step (attesting [revocation, succession])) ⟨t₁, Store.new⟩ pastB b → a.now = b.now →
      ∀ k i, a.store.bindings.lookup k = some i → b.store.bindings.lookup k = some i →
        (a.store.putHeld (attesting [revocation, succession]) b.store k a.now).records.lookup k =
          (b.store.putHeld (attesting [revocation, succession]) a.store k b.now).records.lookup k := by
  intro claim
  let revoked : WireRecord (attesting [revocation, succession]) :=
    ⟨revocation, (wire_iff_encodable _ revocation).mpr (by decide +kernel)⟩
  let moved : WireRecord (attesting [revocation, succession]) :=
    ⟨succession, (wire_iff_encodable _ succession).mpr (by decide +kernel)⟩
  have same := claim 1000 1000 _ _ _ _ (.cons _ _ _ _ _ (.put ⟨1000, Store.new⟩ revoked) (.nil _))
    (.cons _ _ _ _ _ (.put ⟨1000, Store.new⟩ moved) (.nil _)) rfl node alice (by decide +kernel) (by decide +kernel)
  exact absurd same (by decide +kernel)

end Sample

end Sqns.Store
