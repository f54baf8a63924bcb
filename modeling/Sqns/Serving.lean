import Sqns.Cache
import Sqns.Lifetime
import Sqns.Listing

set_option autoImplicit false

namespace Sqns

open Store Trace

variable (prim : Primitives)

-- A client's or a relay's cache with the clock it reads.
structure Caching where
  now : Nat
  cache : Cache

inductive CacheEvent where
  | tick (later : Nat)
  | put (record : SignedRecord)
  | putMissing (key : PubKey)
  | get (key : PubKey)
  | invalidate (key : PubKey)
  | clear
  | purge

-- Both callers of `Cache::put` have checked the record as an answer just before.
inductive CacheStep : Caching → CacheEvent → Caching → Prop where
  | tick (c : Caching) (later : Nat) (forward : c.now ≤ later) : CacheStep c (.tick later) { c with now := later }
  | put (c : Caching) (record : SignedRecord) (checked : record.verifyAnswer prim record.key c.now = .ok ()) :
      CacheStep c (.put record) { c with cache := c.cache.put record }
  | putMissing (c : Caching) (key : PubKey) :
      CacheStep c (.putMissing key) { c with cache := c.cache.putMissing key c.now }
  | get (c : Caching) (key : PubKey) : CacheStep c (.get key) { c with cache := (c.cache.get key c.now).2 }
  | invalidate (c : Caching) (key : PubKey) : CacheStep c (.invalidate key) { c with cache := c.cache.invalidate key }
  | clear (c : Caching) : CacheStep c .clear { c with cache := c.cache.clear }
  | purge (c : Caching) : CacheStep c .purge { c with cache := (c.cache.purge c.now).2 }

-- Live and within its own lifetime, while the delegation behind it has run out.
def outlived (r : SignedRecord) (now : Nat) : Bool :=
  !r.record.isTerminal && !r.record.isExpired now && r.record.delegation.isExpired now

theorem verify_answer_iff (r : SignedRecord) (asked : PubKey) (now : Nat) :
    r.verifyAnswer prim asked now = .ok () ↔
      r.key = asked ∧ r.verify prim = .ok () ∧ r.record.validate prim = .ok () ∧ survives r now = true := by
  simp only [SignedRecord.verifyAnswer, then_ok, unless_ok, unless_done_ok, survives_iff, SignedRecord.key, not_not,
    Bool.not_eq_true]
  constructor
  · rintro ⟨own, _, verified, _, valid, delegated, fresh⟩
    refine ⟨own, verified, valid, fresh, ?_⟩
    cases terminal : r.record.isTerminal with
    | true => exact .inl rfl
    | false => exact .inr (by simpa [terminal] using delegated)
  · rintro ⟨own, verified, valid, fresh, delegated⟩
    refine ⟨own, (), verified, (), valid, ?_, fresh⟩
    rcases delegated with terminal | unexpired
    · simp [terminal]
    · simp [unexpired]

theorem unexpired_verifies_iff (r : SignedRecord) (now : Nat) (verified : r.verify prim = .ok ())
    (valid : r.record.validate prim = .ok ()) (fresh : r.record.isExpired now = false) :
    r.verifyAnswer prim r.key now = .ok () ↔ outlived r now = false := by
  rw [verify_answer_iff, survives_iff]
  simp only [verified, valid, fresh, true_and, outlived]
  cases r.record.isTerminal with
  | true => simp
  | false => simp

theorem expired_not_outlived (r : SignedRecord) (now : Nat) (expired : r.record.isExpired now = true) :
    outlived r now = false := by
  simp [outlived, expired]

def Checked (c : Cache) : Prop :=
  ∀ k r, c.lookup k = some (.found r) → r.verify prim = .ok () ∧ r.record.validate prim = .ok ()

theorem within_checked (c d : Cache) (within : Cache.Within c d) (checked : Checked prim d) : Checked prim c :=
  fun k r found => checked k r (within k r found)

theorem cache_step_checked (c d : Caching) (e : CacheEvent) (step : CacheStep prim c e d) (checked : Checked prim c.cache) :
    Checked prim d.cache := by
  cases step with
  | tick later forward => exact checked
  | put record passed =>
      intro k r found
      rw [Cache.put, Finmap.lookup_insert_ite] at found
      split at found
      · cases found
        obtain ⟨_, verified, valid, _⟩ := (verify_answer_iff prim record record.key c.now).mp passed
        exact ⟨verified, valid⟩
      · exact checked k r found
  | putMissing key => exact within_checked prim _ _ (Cache.put_missing_within c.cache key c.now) checked
  | get key => exact within_checked prim _ _ (Cache.get_within c.cache key c.now) checked
  | invalidate key => exact within_checked prim _ _ (Cache.invalidate_within c.cache key) checked
  | clear => exact within_checked prim _ _ (Cache.clear_within c.cache) checked
  | purge => exact within_checked prim _ _ (Cache.purge_within c.cache c.now) checked

theorem filled_checked (t₀ : Nat) (past : List (Transition Caching CacheEvent)) (c : Caching)
    (filled : Run (CacheStep prim) ⟨t₀, Cache.new⟩ past c) : Checked prim c.cache :=
  run_invariant (fun d => Checked prim d.cache) (fun _ => True)
    (fun u e v step _ => cache_step_checked prim u v e step) (fun _ _ => trivial) filled
    (by intro k r found; simp [Cache.new] at found)

theorem get_verifies_iff (w : World) (k : PubKey) (sound : Sound prim w) :
    (∀ r, w.store.get k w.now = some r → r.verifyAnswer prim r.key w.now = .ok ()) ↔
      ∀ r, w.store.records.lookup k = some r → outlived r w.now = false := by
  simp only [Store.get, Option.filter_eq_some_iff, Bool.not_eq_true']
  constructor
  · intro verifies r held
    cases expired : r.record.isExpired w.now with
    | true => exact expired_not_outlived r w.now expired
    | false =>
        exact (unexpired_verifies_iff prim r w.now (sound.consistent.verified k r held) (sound.consistent.valid k r held)
          expired).mp (verifies r ⟨held, expired⟩)
  · rintro current r ⟨held, fresh⟩
    exact (unexpired_verifies_iff prim r w.now (sound.consistent.verified k r held) (sound.consistent.valid k r held)
      fresh).mpr (current r held)

theorem identity_records_verify_iff (w : World) (identity : PubKey) (sound : Sound prim w) :
    (∀ limit, ∀ r ∈ w.store.identityRecords identity limit w.now, r.verifyAnswer prim r.key w.now = .ok ()) ↔
      ∀ k r, w.store.bindings.lookup k = some identity → w.store.records.lookup k = some r → outlived r w.now = false := by
  have listed := fun r => mem_issued_by w.store identity w.now sound.consistent.own r sound.consistent.toLinked
  constructor
  · intro verifies k r bound held
    have own := sound.consistent.own k r held
    subst own
    refine (get_verifies_iff prim w r.key sound).mp ?_ r held
    intro r' found
    obtain ⟨held', fresh⟩ := Option.filter_eq_some_iff.mp found
    rw [held, Option.some.injEq] at held'
    subst held'
    refine verifies (w.store.issuedBy identity w.now).length r ?_
    rw [identity_records_eq, List.take_length]
    exact (listed r).mpr ⟨held, bound, by simpa using fresh⟩
  · intro current limit r member
    rw [identity_records_eq] at member
    obtain ⟨held, bound, fresh⟩ := (listed r).mp (List.mem_of_mem_take member)
    exact (unexpired_verifies_iff prim r w.now (sound.consistent.verified _ r held) (sound.consistent.valid _ r held)
      fresh).mpr (current r.key r bound held)

theorem cache_get_iff (c : Cache) (k : PubKey) (now : Nat) (r : SignedRecord) :
    (c.get k now).1 = some (some r) ↔ c.lookup k = some (.found r) ∧ r.record.isExpired now = false := by
  constructor
  · intro hit
    have held := Cache.get_found c k now r hit
    refine ⟨held, ?_⟩
    by_contra expired
    simp [Cache.get, held, Cache.fresh, expired] at hit
  · rintro ⟨held, fresh⟩
    simp [Cache.get, held, Cache.fresh, fresh, Cache.answer]

theorem cache_get_verifies_iff (c : Caching) (k : PubKey) (checked : Checked prim c.cache) :
    (∀ r, (c.cache.get k c.now).1 = some (some r) → r.verifyAnswer prim r.key c.now = .ok ()) ↔
      ∀ r, c.cache.lookup k = some (.found r) → outlived r c.now = false := by
  simp only [cache_get_iff]
  constructor
  · intro verifies r held
    obtain ⟨verified, valid⟩ := checked k r held
    cases expired : r.record.isExpired c.now with
    | true => exact expired_not_outlived r c.now expired
    | false => exact (unexpired_verifies_iff prim r c.now verified valid expired).mp (verifies r ⟨held, expired⟩)
  · rintro current r ⟨held, fresh⟩
    obtain ⟨verified, valid⟩ := checked k r held
    exact (unexpired_verifies_iff prim r c.now verified valid fresh).mpr (current r held)

theorem served_verifies_iff_not_outlived (t₀ t₁ : Nat) (past : List (Transition World (Event prim))) (w : World)
    (cachePast : List (Transition Caching CacheEvent)) (c : Caching) (reached : Run (Step prim) ⟨t₀, Store.new⟩ past w)
    (filled : Run (CacheStep prim) ⟨t₁, Cache.new⟩ cachePast c) :
    (∀ k, (∀ r, w.store.get k w.now = some r → r.verifyAnswer prim r.key w.now = .ok ()) ↔
      ∀ r, w.store.records.lookup k = some r → outlived r w.now = false) ∧
    (∀ identity, (∀ limit, ∀ r ∈ w.store.identityRecords identity limit w.now,
        r.verifyAnswer prim r.key w.now = .ok ()) ↔
      ∀ k r, w.store.bindings.lookup k = some identity → w.store.records.lookup k = some r → outlived r w.now = false) ∧
    ∀ k, (∀ r, (c.cache.get k c.now).1 = some (some r) → r.verifyAnswer prim r.key c.now = .ok ()) ↔
      ∀ r, c.cache.lookup k = some (.found r) → outlived r c.now = false := by
  have sound := reached_sound prim t₀ w past reached
  have checked := filled_checked prim t₁ cachePast c filled
  exact ⟨fun k => get_verifies_iff prim w k sound, fun identity => identity_records_verify_iff prim w identity sound,
    fun k => cache_get_verifies_iff prim c k checked⟩

theorem put_then_wait (w : World) (record : WireRecord prim) (later : Nat) (forward : w.now ≤ later) :
    ∃ past, Run (Step prim) w past { now := later, store := (w.store.put prim record.signed w.now).2 } :=
  ⟨_, .cons w _ _ _ _ (.put w record) (.cons _ _ _ _ _ (.tick _ later forward) (.nil _))⟩

section Sample

open Sample

theorem served_verifies_sample :
    let w := received ⟨1000, Store.new⟩ publish
    let c : Caching := ⟨1000, Cache.new.put publish⟩
    (∀ r, w.store.get node w.now = some r → r.verifyAnswer ed25519 r.key w.now = .ok ()) ∧
      ∀ r, (c.cache.get node c.now).1 = some (some r) → r.verifyAnswer ed25519 r.key c.now = .ok () := by
  intro w c
  have past : Run (Step ed25519) ⟨1000, Store.new⟩ _ w := .cons _ _ _ _ _ (.put _ (wire publish (by simp [known]))) (.nil _)
  have filled : Run (CacheStep ed25519) ⟨1000, Cache.new⟩ _ c :=
    .cons _ _ _ _ _ (.put ⟨1000, Cache.new⟩ publish (by decide +kernel)) (.nil _)
  obtain ⟨stored, _, cached⟩ := served_verifies_iff_not_outlived ed25519 1000 1000 _ w _ c past filled
  have held : w.store.records.lookup node = some publish := by decide +kernel
  have kept : c.cache.lookup node = some (.found publish) := by decide +kernel
  have current : outlived publish 1000 = false := by decide
  constructor
  · refine (stored node).mpr ?_
    intro r found
    rw [held, Option.some.injEq] at found
    subst found
    exact current
  · refine (cached node).mpr ?_
    intro r found
    rw [kept, Option.some.injEq] at found
    cases found
    exact current

-- The delegation runs out at 1500, the record at 2000. At 1600 both the store
-- and the cache still hand the record out, and `verify_answer` refuses it.
theorem lapsed_delegation_is_served :
    let prim := attesting [leased]
    let start : World := ⟨1000, Store.new⟩
    let w : World := { now := 1600, store := (start.store.put prim leased start.now).2 }
    let c : Caching := ⟨1600, Cache.new.put leased⟩
    (∃ past, Run (Step prim) start past w) ∧ (∃ past, Run (CacheStep prim) ⟨1000, Cache.new⟩ past c) ∧
      w.store.get node w.now = some leased ∧ w.store.identityRecords alice 512 w.now = [leased] ∧
      (c.cache.get node c.now).1 = some (some leased) ∧ leased.verifyAnswer prim leased.key 1600 ≠ .ok () := by
  intro prim start w c
  refine ⟨?_, ?_, ?_, ?_, ?_, ?_⟩
  · exact put_then_wait prim start ⟨leased, (wire_iff_encodable prim leased).mpr (by decide +kernel)⟩ 1600 (by decide)
  · exact ⟨_, .cons _ ⟨1000, Cache.new.put leased⟩ _ _ _ (.put ⟨1000, Cache.new⟩ leased (by decide +kernel))
      (.cons _ c _ _ _ (.tick _ 1600 (show 1000 ≤ 1600 by decide)) (.nil c))⟩
  · decide +kernel
  · decide +kernel
  · decide +kernel
  · decide +kernel

end Sample

end Sqns
