import Sqns.Store

set_option autoImplicit false

namespace Sqns.Store

variable (prim : Primitives)

structure Admitted (record : SignedRecord) (now : Nat) : Prop where
  valid : record.record.validate prim = .ok ()
  verified : record.verify prim = .ok ()
  notFuture : record.record.issuedAt.toNat ≤ now + maxClockSkew
  fresh : record.record.isExpired now = false
  delegated : record.record.isTerminal = true ∨ record.record.delegation.isExpired now = false

theorem admission_ok_iff (record : SignedRecord) (now : Nat) : admission prim record now = .ok () ↔ Admitted prim record now := by
  unfold admission
  simp only [then_ok, unless_ok, unless_done_ok]
  constructor
  · rintro ⟨_, valid, _, verified, notFuture, fresh, delegated⟩
    refine ⟨valid, verified, by omega, by simpa using fresh, ?_⟩
    cases terminal : record.record.isTerminal with
    | true => exact .inl rfl
    | false => exact .inr (by simpa [terminal] using delegated)
  · rintro ⟨valid, verified, notFuture, fresh, delegated⟩
    refine ⟨(), valid, (), verified, by omega, by simp [fresh], ?_⟩
    rcases delegated with terminal | unexpired
    · simp [terminal]
    · simp [unexpired]

theorem retirement_error_eq_none (held : SignedRecord) :
    retirementError prim held = none ↔ held.record.isTerminal = false := by
  unfold retirementError SignedRecord.revocationError Record.successor Record.isTerminal Record.isSuperseded
    Record.isRevoked
  cases held.record.body <;> simp

theorem refusal_eq_none (s : Store) (record : SignedRecord) :
    s.refusal prim record = none ↔
      (∀ held, s.records.lookup record.key = some held → held.record.isTerminal = false) ∧
        ∀ bound, s.bindings.lookup record.key = some bound → record.identity = bound := by
  unfold refusal
  cases held : s.records.lookup record.key with
  | none => cases bound : s.bindings.lookup record.key <;> simp
  | some old =>
      cases terminal : old.record.isTerminal with
      | true =>
          have retired : retirementError prim old ≠ none := by
            rw [ne_eq, retirement_error_eq_none, terminal]
            decide
          obtain ⟨e, error⟩ := Option.ne_none_iff_exists'.mp retired
          simp [error, terminal]
      | false =>
          have alive := (retirement_error_eq_none prim old).mpr terminal
          cases bound : s.bindings.lookup record.key <;> simp [alive, terminal]

-- Everything `put` requires before it inserts. A record that supersedes the
-- held one is never up against a retired key.
structure Accepted (s : Store) (record : SignedRecord) (now : Nat) : Prop where
  admitted : Admitted prim record now
  pinned : ∀ bound, s.bindings.lookup record.key = some bound → record.identity = bound
  newer : ∀ held, s.records.lookup record.key = some held → record.record.supersedes held.record = true

def accept (s : Store) (record : SignedRecord) : Store :=
  (s.insertRecord record).finishPut record.key record.identity

theorem put_locked_cases (s : Store) (record : SignedRecord) (now : Nat) :
    (∃ e, s.putLocked prim record now = (.error e, s)) ∨
    (s.putLocked prim record now = (.ok .stale, s) ∧ ∃ held, s.records.lookup record.key = some held ∧
      held.record.isTerminal = false ∧ record.record.supersedes held.record = false) ∨
    (Accepted prim s record now ∧ s.putLocked prim record now = (.ok .stored, s.insertRecord record)) := by
  unfold putLocked
  cases checks : admission prim record now with
  | error e => exact .inl ⟨e, rfl⟩
  | ok _ =>
      have admitted := (admission_ok_iff prim record now).mp checks
      cases refused : s.refusal prim record with
      | some e => exact .inl ⟨e, rfl⟩
      | none =>
          obtain ⟨alive, pinned⟩ := (refusal_eq_none prim s record).mp refused
          cases held : s.records.lookup record.key with
          | none => exact .inr (.inr ⟨⟨admitted, pinned, by simp [held]⟩, rfl⟩)
          | some old =>
              cases newer : record.record.supersedes old.record with
              | false => exact .inr (.inl ⟨by simp [newer], old, rfl, alive old held, newer⟩)
              | true =>
                  refine .inr (.inr ⟨⟨admitted, pinned, ?_⟩, by simp [newer]⟩)
                  intro other same
                  rw [held, Option.some.injEq] at same
                  exact same ▸ newer

theorem put_cases (s : Store) (record : SignedRecord) (now : Nat) :
    (∃ e, s.put prim record now = (.error e, s)) ∨
    (s.put prim record now = (.ok .stale, s) ∧ ∃ held, s.records.lookup record.key = some held ∧
      held.record.isTerminal = false ∧ record.record.supersedes held.record = false) ∨
    (Accepted prim s record now ∧ s.put prim record now = (.ok .stored, s.accept record)) := by
  unfold put
  rcases put_locked_cases prim s record now with ⟨e, refused⟩ | ⟨stale, held⟩ | ⟨accepted, stored⟩
  · exact .inl ⟨e, by rw [refused]⟩
  · exact .inr (.inl ⟨by rw [stale], held⟩)
  · exact .inr (.inr ⟨accepted, by rw [stored]; rfl⟩)

theorem put_accepted (s : Store) (record : SignedRecord) (now : Nat) (accepted : Accepted prim s record now) :
    s.put prim record now = (.ok .stored, s.accept record) := by
  have checks := (admission_ok_iff prim record now).mpr accepted.admitted
  have alive : s.refusal prim record = none := by
    rw [refusal_eq_none]
    refine ⟨fun held found => ?_, accepted.pinned⟩
    exact ((Record.supersedes_iff _ _).mp (accepted.newer held found)).1
  unfold put putLocked
  rw [checks, alive]
  cases held : s.records.lookup record.key with
  | none => rfl
  | some old => simp [accepted.newer old held, accept]

theorem put_stored_iff (s : Store) (record : SignedRecord) (now : Nat) :
    (s.put prim record now).1 = .ok .stored ↔ Accepted prim s record now := by
  constructor
  · intro stored
    rcases put_cases prim s record now with ⟨e, refused⟩ | ⟨stale, _⟩ | ⟨accepted, _⟩
    · rw [refused] at stored
      cases stored
    · rw [stale] at stored
      cases stored
    · exact accepted
  · intro accepted
    rw [put_accepted prim s record now accepted]

theorem put_refused (s : Store) (record : SignedRecord) (now : Nat) (refused : ¬ Accepted prim s record now) :
    (s.put prim record now).2 = s := by
  rcases put_cases prim s record now with ⟨e, failed⟩ | ⟨stale, _⟩ | ⟨accepted, _⟩
  · rw [failed]
  · rw [stale]
  · exact absurd accepted refused

theorem put_locked_split (s : Store) (record : SignedRecord) (now : Nat) :
    (¬ Accepted prim s record now ∧ ∃ outcome, outcome ≠ .ok .stored ∧ s.putLocked prim record now = (outcome, s)) ∨
    (Accepted prim s record now ∧ s.putLocked prim record now = (.ok .stored, s.insertRecord record)) := by
  rcases put_locked_cases prim s record now with ⟨e, refused⟩ | ⟨stale, held, found, _, older⟩ | stored
  · refine .inl ⟨fun accepted => ?_, .error e, by simp, refused⟩
    have outcome := (put_stored_iff prim s record now).mpr accepted
    rw [put, refused] at outcome
    cases outcome
  · refine .inl ⟨fun accepted => ?_, .ok .stale, by simp, stale⟩
    rw [accepted.newer held found] at older
    cases older
  · exact .inr stored

theorem put_unchanged (s : Store) (record : SignedRecord) (now : Nat)
    (refused : (s.put prim record now).1 ≠ .ok .stored) : (s.put prim record now).2 = s := by
  rcases put_cases prim s record now with ⟨e, error⟩ | ⟨stale, _⟩ | ⟨_, stored⟩
  · rw [error]
  · rw [stale]
  · rw [stored] at refused
    exact False.elim (refused rfl)

section Lookup

variable (s : Store) (record : SignedRecord) (k i : PubKey) (now : Nat)

@[simp] theorem accept_records_lookup :
    (s.accept record).records.lookup k = if k = record.key then some record else s.records.lookup k :=
  Finmap.lookup_insert_ite _

@[simp] theorem bind_bindings_lookup (serviceKey identity : PubKey) :
    (s.bind serviceKey identity).bindings.lookup k =
      if k = serviceKey then some ((s.bindings.lookup serviceKey).getD identity) else s.bindings.lookup k := by
  unfold bind
  cases held : s.bindings.lookup serviceKey with
  | none =>
      by_cases same : k = serviceKey <;> simp [same]
  | some bound =>
      by_cases same : k = serviceKey
      · subst same
        simp [held]
      · simp [same]

@[simp] theorem bind_index_lookup (serviceKey identity : PubKey) :
    (s.bind serviceKey identity).identityIndex.lookup i =
      if i = identity then some (insert serviceKey ((s.identityIndex.lookup identity).getD ∅))
      else s.identityIndex.lookup i :=
  Finmap.lookup_insert_ite _

@[simp] theorem accept_bindings_lookup :
    (s.accept record).bindings.lookup k =
      if k = record.key then some ((s.bindings.lookup record.key).getD record.identity) else s.bindings.lookup k :=
  bind_bindings_lookup (s.insertRecord record) k record.key record.identity

@[simp] theorem purge_records_lookup :
    (s.purgeExpired now).2.records.lookup k =
      (s.records.lookup k).filter (fun record => !record.record.isExpired now) :=
  Finmap.lookup_retain _ _ _

@[simp] theorem purge_bindings : (s.purgeExpired now).2.bindings = s.bindings := rfl

@[simp] theorem purge_index : (s.purgeExpired now).2.identityIndex = s.identityIndex := rfl

end Lookup

def keysOf (s : Store) (identity : PubKey) : Finset PubKey := (s.identityIndex.lookup identity).getD ∅

structure Linked (s : Store) : Prop where
  inverse : ∀ k i, k ∈ s.keysOf i ↔ s.bindings.lookup k = some i
  inhabited : ∀ i keys, s.identityIndex.lookup i = some keys → keys.Nonempty

structure Consistent (s : Store) : Prop extends Linked s where
  own : ∀ k r, s.records.lookup k = some r → r.key = k
  valid : ∀ k r, s.records.lookup k = some r → r.record.validate prim = .ok ()
  verified : ∀ k r, s.records.lookup k = some r → r.verify prim = .ok ()
  bound : ∀ k r, s.records.lookup k = some r → s.bindings.lookup k = some r.identity

theorem new_linked : Linked new := ⟨by simp [new, keysOf], by simp [new]⟩

theorem new_consistent : Consistent prim new := by
  refine ⟨new_linked, ?_, ?_, ?_, ?_⟩
  all_goals simp [new]

-- `bind` adds to the reverse index whatever the pinned identity is. The two
-- maps stay inverse because its callers only ever bind the pinned identity.
theorem bind_linked (s : Store) (serviceKey identity : PubKey) (linked : Linked s)
    (agrees : ∀ bound, s.bindings.lookup serviceKey = some bound → bound = identity) :
    Linked (s.bind serviceKey identity) := by
  have pin : (s.bindings.lookup serviceKey).getD identity = identity := by
    cases held : s.bindings.lookup serviceKey with
    | none => rfl
    | some bound => exact agrees bound held
  constructor
  · intro k i
    have before := linked.inverse k i
    unfold keysOf at before ⊢
    rw [bind_index_lookup, bind_bindings_lookup, pin]
    by_cases here : i = identity
    · subst here
      rw [if_pos rfl, Option.getD_some, Finset.mem_insert, before]
      by_cases same : k = serviceKey
      · simp [same]
      · simp [same]
    · rw [if_neg here, before]
      by_cases same : k = serviceKey
      · subst same
        rw [if_pos rfl]
        constructor
        · intro bound
          exact False.elim (here (agrees i bound))
        · intro bound
          exact False.elim (here (Option.some.inj bound).symm)
      · rw [if_neg same]
  · intro i keys found
    rw [bind_index_lookup] at found
    split at found
    · cases found
      exact Finset.insert_nonempty _ _
    · exact linked.inhabited i keys found

theorem accept_linked (s : Store) (record : SignedRecord) (linked : Linked s)
    (pinned : ∀ bound, s.bindings.lookup record.key = some bound → record.identity = bound) :
    Linked (s.accept record) := by
  have bound := bind_linked (s.insertRecord record) record.key record.identity ⟨linked.inverse, linked.inhabited⟩
    (fun bound found => (pinned bound found).symm)
  exact ⟨bound.inverse, bound.inhabited⟩

theorem accept_bound (s : Store) (record : SignedRecord) (k : PubKey)
    (pinned : ∀ bound, s.bindings.lookup record.key = some bound → record.identity = bound) :
    (s.accept record).bindings.lookup k = if k = record.key then some record.identity else s.bindings.lookup k := by
  rw [accept_bindings_lookup]
  cases held : s.bindings.lookup record.key with
  | none => rfl
  | some bound => rw [pinned bound held, Option.getD_some]

theorem accept_consistent (s : Store) (record : SignedRecord) (now : Nat) (consistent : Consistent prim s)
    (accepted : Accepted prim s record now) : Consistent prim (s.accept record) := by
  refine ⟨accept_linked s record consistent.toLinked accepted.pinned, ?_, ?_, ?_, ?_⟩
  all_goals
    intro k r found
    rw [accept_records_lookup] at found
    split at found
  · rename_i same
    cases found
    exact same.symm
  · exact consistent.own k r found
  · cases found
    exact accepted.admitted.valid
  · exact consistent.valid k r found
  · cases found
    exact accepted.admitted.verified
  · exact consistent.verified k r found
  · rename_i same
    cases found
    rw [accept_bound s record k accepted.pinned, if_pos same]
  · rename_i other
    rw [accept_bound s record k accepted.pinned, if_neg other]
    exact consistent.bound k r found

theorem put_consistent (s : Store) (record : SignedRecord) (now : Nat) (consistent : Consistent prim s) :
    Consistent prim (s.put prim record now).2 := by
  rcases put_cases prim s record now with ⟨e, refused⟩ | ⟨stale, _⟩ | ⟨accepted, stored⟩
  · rwa [refused]
  · rwa [stale]
  · rw [stored]
    exact accept_consistent prim s record now consistent accepted

theorem purge_consistent (s : Store) (now : Nat) (consistent : Consistent prim s) :
    Consistent prim (s.purgeExpired now).2 := by
  have held : ∀ k r, (s.purgeExpired now).2.records.lookup k = some r → s.records.lookup k = some r := by
    intro k r found
    rw [purge_records_lookup, Option.filter_eq_some_iff] at found
    exact found.1
  exact { toLinked := ⟨consistent.inverse, consistent.inhabited⟩
          own := fun k r found => consistent.own k r (held k r found)
          valid := fun k r found => consistent.valid k r (held k r found)
          verified := fun k r found => consistent.verified k r (held k r found)
          bound := fun k r found => consistent.bound k r (held k r found) }

theorem put_other_key (s : Store) (record : SignedRecord) (now : Nat) (k : PubKey) (other : k ≠ record.key) :
    (s.put prim record now).2.records.lookup k = s.records.lookup k ∧
      (s.put prim record now).2.bindings.lookup k = s.bindings.lookup k := by
  rcases put_cases prim s record now with ⟨e, refused⟩ | ⟨stale, _⟩ | ⟨_, stored⟩
  · rw [refused]
    exact ⟨rfl, rfl⟩
  · rw [stale]
    exact ⟨rfl, rfl⟩
  · rw [stored, accept_records_lookup, accept_bindings_lookup, if_neg other, if_neg other]
    exact ⟨rfl, rfl⟩

theorem put_held (s : Store) (record : SignedRecord) (now : Nat) (k : PubKey) (r : SignedRecord)
    (found : (s.put prim record now).2.records.lookup k = some r) :
    s.records.lookup k = some r ∨ (r = record ∧ k = record.key) := by
  rcases put_cases prim s record now with ⟨e, refused⟩ | ⟨stale, _⟩ | ⟨_, stored⟩
  · rw [refused] at found
    exact .inl found
  · rw [stale] at found
    exact .inl found
  · rw [stored, accept_records_lookup] at found
    by_cases here : k = record.key
    · rw [if_pos here, Option.some.injEq] at found
      exact .inr ⟨found.symm, here⟩
    · rw [if_neg here] at found
      exact .inl found

theorem bind_keeps (s : Store) (serviceKey identity k i : PubKey) (bound : s.bindings.lookup k = some i) :
    (s.bind serviceKey identity).bindings.lookup k = some i := by
  rw [bind_bindings_lookup]
  by_cases same : k = serviceKey
  · subst same
    simp [bound]
  · rwa [if_neg same]

theorem put_keeps_binding (s : Store) (record : SignedRecord) (now : Nat) (k i : PubKey)
    (bound : s.bindings.lookup k = some i) : (s.put prim record now).2.bindings.lookup k = some i := by
  rcases put_cases prim s record now with ⟨e, refused⟩ | ⟨stale, _⟩ | ⟨_, stored⟩
  · rwa [refused]
  · rwa [stale]
  · rw [stored]
    exact bind_keeps (s.insertRecord record) record.key record.identity k i bound

end Sqns.Store
