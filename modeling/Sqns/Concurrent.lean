import Mathlib.Data.Multiset.AddSub
import Sqns.Lifetime

set_option autoImplicit false

namespace Sqns.Concurrent

open Store Trace

variable (prim : Primitives)

-- `pending` holds the puts that have inserted their record and dropped the
-- records lock, but have not bound its key yet.
structure State where
  store : Store
  pending : Multiset SignedRecord

inductive Event where
  | lock (record : SignedRecord) (now : Nat)
  | finish (record : SignedRecord)

def enter (s : State) (record : SignedRecord) (now : Nat) : State :=
  match s.store.putLocked prim record now with
  | (.ok .stored, inserted) => ⟨inserted, record ::ₘ s.pending⟩
  | (_, unchanged) => ⟨unchanged, s.pending⟩

def leave (s : State) (record : SignedRecord) : State :=
  ⟨s.store.finishPut record.key record.identity, s.pending.erase record⟩

inductive Step : State → Event → State → Prop where
  | lock (s : State) (record : SignedRecord) (now : Nat) : Step s (.lock record now) (enter prim s record now)
  | finish (s : State) (record : SignedRecord) (waiting : record ∈ s.pending) : Step s (.finish record) (leave s record)

theorem enter_cases (s : State) (record : SignedRecord) (now : Nat) :
    (¬ Accepted prim s.store record now ∧ enter prim s record now = s) ∨
    (Accepted prim s.store record now ∧ enter prim s record now = ⟨s.store.insertRecord record, record ::ₘ s.pending⟩) := by
  rcases put_locked_split prim s.store record now with ⟨refused, outcome, notStored, same⟩ | ⟨accepted, stored⟩
  · refine .inl ⟨refused, ?_⟩
    rw [enter, same]
    split
    · rename_i inserted eq
      exact False.elim (notStored (congrArg Prod.fst eq))
    · rename_i unchanged _ eq
      rw [← (Prod.mk.inj eq).2]
  · exact .inr ⟨accepted, by rw [enter, stored]⟩

def Claims (s : State) (k i : PubKey) : Prop :=
  s.store.bindings.lookup k = some i ∨ ∃ record ∈ s.pending, record.key = k ∧ record.identity = i

structure Agreed (s : State) : Prop where
  linked : Linked s.store
  unique : ∀ k i j, Claims s k i → Claims s k j → i = j
  claimed : ∀ k r, s.store.records.lookup k = some r → Claims s k r.identity

-- The move inserts a record while another put of the same key, under another
-- identity, still has to bind.
def Races (move : Transition State Event) : Prop :=
  match move.label with
  | .lock record now => Accepted prim move.pre.store record now ∧
      ∃ other ∈ move.pre.pending, other.key = record.key ∧ other.identity ≠ record.identity
  | .finish _ => False

def Pinned (s : Store) : Prop :=
  ∀ k r, s.records.lookup k = some r →
    s.bindings.lookup k = some r.identity ∧ ∀ i, k ∈ s.keysOf i ↔ i = r.identity

theorem settled_agreed (s : Store) (consistent : Consistent prim s) : Agreed ⟨s, 0⟩ := by
  refine ⟨consistent.toLinked, ?_, fun k r held => .inl (consistent.bound k r held)⟩
  intro k i j first second
  have left : s.bindings.lookup k = some i := by simpa [Claims] using first
  have right : s.bindings.lookup k = some j := by simpa [Claims] using second
  rw [left, Option.some.injEq] at right
  exact right

theorem opened_agreed (file : Option Bytes) (openedAt : Nat) : Agreed ⟨openFrom prim file openedAt, 0⟩ :=
  settled_agreed prim _ (open_consistent prim file openedAt)

theorem inserted_claims (s : State) (record : SignedRecord) (k i : PubKey) :
    Claims ⟨s.store.insertRecord record, record ::ₘ s.pending⟩ k i ↔
      Claims s k i ∨ (k = record.key ∧ i = record.identity) := by
  simp only [Claims, insertRecord, Multiset.mem_cons, exists_eq_or_imp]
  apply Iff.intro
  · intro claims
    rcases claims with bound | ⟨here, same⟩ | waiting
    · exact .inl (.inl bound)
    · exact .inr ⟨here.symm, same.symm⟩
    · exact .inl (.inr waiting)
  · intro claims
    rcases claims with (bound | waiting) | ⟨here, same⟩
    · exact .inl bound
    · exact .inr (.inr waiting)
    · exact .inr (.inl ⟨here.symm, same.symm⟩)

theorem inserted_agreed (s : State) (record : SignedRecord) (now : Nat) (agreed : Agreed s)
    (accepted : Accepted prim s.store record now)
    (alone : ∀ other ∈ s.pending, other.key = record.key → other.identity = record.identity) :
    Agreed ⟨s.store.insertRecord record, record ::ₘ s.pending⟩ := by
  -- Whatever the key was claimed for before is the identity of the new record:
  -- the binding check says so of the pin, `alone` of the puts still in flight.
  have same : ∀ i, Claims s record.key i → i = record.identity := by
    intro i claims
    rcases claims with bound | ⟨other, waiting, here, identity⟩
    · exact (accepted.pinned i bound).symm
    · exact identity.symm.trans (alone other waiting here)
  refine ⟨⟨agreed.linked.inverse, agreed.linked.inhabited⟩, ?_, ?_⟩
  · intro k i j first second
    rw [inserted_claims] at first second
    rcases first with first | ⟨rfl, rfl⟩
    · rcases second with second | ⟨rfl, rfl⟩
      · exact agreed.unique k i j first second
      · exact same i first
    · rcases second with second | ⟨_, rfl⟩
      · exact (same j second).symm
      · rfl
  · intro k r held
    rw [inserted_claims]
    simp only [insertRecord, Finmap.lookup_insert_ite] at held
    by_cases here : k = record.key
    · rw [if_pos here, Option.some.injEq] at held
      exact .inr ⟨here, by rw [held]⟩
    · rw [if_neg here] at held
      exact .inl (agreed.claimed k r held)

theorem finished_claims (s : State) (record : SignedRecord) (k i : PubKey) (agreed : Agreed s)
    (waiting : record ∈ s.pending) : Claims (leave s record) k i ↔ Claims s k i := by
  have own : Claims s record.key record.identity := .inr ⟨record, waiting, rfl, rfl⟩
  have pin : (s.store.bindings.lookup record.key).getD record.identity = record.identity := by
    cases held : s.store.bindings.lookup record.key with
    | none => rfl
    | some bound => exact agreed.unique record.key bound record.identity (.inl held) own
  simp only [Claims, leave, finishPut, bind_bindings_lookup, pin]
  apply Iff.intro
  · intro claims
    rcases claims with bound | ⟨other, left, rest⟩
    · by_cases here : k = record.key
      · rw [if_pos here, Option.some.injEq] at bound
        exact here ▸ bound ▸ own
      · rw [if_neg here] at bound
        exact .inl bound
    · exact .inr ⟨other, Multiset.mem_of_mem_erase left, rest⟩
  · intro claims
    by_cases here : k = record.key
    · rw [if_pos here]
      exact .inl (congrArg some (agreed.unique k _ _ (here ▸ own) claims))
    · rw [if_neg here]
      rcases claims with bound | ⟨other, left, rest⟩
      · exact .inl bound
      · have different : other ≠ record := fun same => here (by rw [← rest.1, same])
        exact .inr ⟨other, (Multiset.mem_erase_of_ne different).mpr left, rest⟩

theorem finished_agreed (s : State) (record : SignedRecord) (agreed : Agreed s) (waiting : record ∈ s.pending) :
    Agreed (leave s record) := by
  have own : Claims s record.key record.identity := .inr ⟨record, waiting, rfl, rfl⟩
  have linked := bind_linked s.store record.key record.identity agreed.linked
    (fun bound found => agreed.unique record.key bound record.identity (.inl found) own)
  refine ⟨⟨linked.inverse, linked.inhabited⟩, ?_, ?_⟩
  · intro k i j first second
    rw [finished_claims s record _ _ agreed waiting] at first second
    exact agreed.unique k i j first second
  · intro k r held
    rw [finished_claims s record _ _ agreed waiting]
    exact agreed.claimed k r held

-- A sweep takes records and nothing else.
theorem swept_agreed (s : State) (now : Nat) (agreed : Agreed s) : Agreed ⟨(s.store.purgeExpired now).2, s.pending⟩ := by
  refine ⟨⟨agreed.linked.inverse, agreed.linked.inhabited⟩, agreed.unique, ?_⟩
  intro k r held
  rw [purge_records_lookup, Option.filter_eq_some_iff] at held
  exact agreed.claimed k r held.1

theorem step_agreed (s t : State) (e : Event) (step : Step prim s e t) (calm : ¬ Races prim ⟨s, e, t⟩) (agreed : Agreed s) :
    Agreed t := by
  cases step with
  | lock record now =>
      rcases enter_cases prim s record now with ⟨_, same⟩ | ⟨accepted, inserted⟩
      · rwa [same]
      · rw [inserted]
        apply inserted_agreed prim s record now agreed accepted
        intro other waiting here
        by_contra different
        exact calm ⟨accepted, other, waiting, here, different⟩
  | finish record waiting => exact finished_agreed s record agreed waiting

theorem quiet_pinned (s : State) (agreed : Agreed s) (quiet : s.pending = 0) : Pinned s.store := by
  have settled : ∀ k i, Claims s k i ↔ s.store.bindings.lookup k = some i := by simp [Claims, quiet]
  intro k r held
  have bound := (settled k r.identity).mp (agreed.claimed k r held)
  refine ⟨bound, fun i => ?_⟩
  rw [agreed.linked.inverse, bound, Option.some.injEq]
  exact eq_comm

-- Once inserted, a put leaves its mark for good: it is waiting or the key has
-- been filed under its identity.
def Filed (k i : PubKey) (s : State) : Prop :=
  k ∈ s.store.keysOf i ∨ ∃ record ∈ s.pending, record.key = k ∧ record.identity = i

theorem step_filed (s t : State) (e : Event) (k i : PubKey) (step : Step prim s e t) (filed : Filed k i s) : Filed k i t := by
  cases step with
  | lock record now =>
      rcases enter_cases prim s record now with ⟨_, same⟩ | ⟨_, inserted⟩
      · rwa [same]
      · rw [inserted]
        rcases filed with listed | ⟨other, waiting, rest⟩
        · exact .inl listed
        · exact .inr ⟨other, Multiset.mem_cons_of_mem waiting, rest⟩
  | finish record waiting =>
      simp only [Filed, leave, finishPut, keysOf, bind_index_lookup]
      by_cases here : i = record.identity
      · rw [if_pos here, Option.getD_some, Finset.mem_insert]
        by_cases same : k = record.key
        · exact .inl (.inl same)
        · rcases filed with listed | ⟨other, left, rest⟩
          · exact .inl (.inr (here ▸ listed))
          · have different : other ≠ record := fun eq => same (by rw [← rest.1, eq])
            exact .inr ⟨other, (Multiset.mem_erase_of_ne different).mpr left, rest⟩
      · rw [if_neg here]
        rcases filed with listed | ⟨other, left, rest⟩
        · exact .inl listed
        · have different : other ≠ record := fun eq => here (by rw [← rest.2, eq])
          exact .inr ⟨other, (Multiset.mem_erase_of_ne different).mpr left, rest⟩

theorem step_keeps_key (s t : State) (e : Event) (k : PubKey) (step : Step prim s e t)
    (held : ∃ r, s.store.records.lookup k = some r) : ∃ r, t.store.records.lookup k = some r := by
  obtain ⟨r, held⟩ := held
  cases step with
  | lock record now =>
      rcases enter_cases prim s record now with ⟨_, same⟩ | ⟨_, inserted⟩
      · exact ⟨r, by rwa [same]⟩
      · rw [inserted, insertRecord]
        by_cases here : k = record.key
        · exact ⟨record, by simp [here]⟩
        · exact ⟨r, by simpa [here] using held⟩
  | finish record waiting => exact ⟨r, held⟩

theorem race_never_settles (s t : State) (run : List (Transition State Event)) (move : Transition State Event)
    (whole : Run (Step prim) s run t) (member : move ∈ run) (race : Races prim move) (quiet : t.pending = 0) :
    ¬ Pinned t.store := by
  obtain ⟨before, after, rfl⟩ := List.append_of_mem member
  obtain ⟨u, _, rest⟩ := run_append.mp whole
  obtain ⟨v, e, v'⟩ := move
  obtain ⟨rfl, step, later⟩ := run_cons rest
  dsimp only at step
  cases step with
  | finish record waiting => exact False.elim race
  | lock record now =>
      obtain ⟨accepted, other, waiting, sameKey, different⟩ := race
      have entered : enter prim v record now = ⟨v.store.insertRecord record, record ::ₘ v.pending⟩ := by
        rcases enter_cases prim v record now with ⟨refused, _⟩ | ⟨_, inserted⟩
        · exact False.elim (refused accepted)
        · exact inserted
      let doomed : State → Prop := fun x => Filed record.key record.identity x ∧ Filed record.key other.identity x ∧
        ∃ r, x.store.records.lookup record.key = some r
      have preserved : ∀ x e y, Step prim x e y → True → doomed x → doomed y := fun x e y step _ inv =>
        ⟨step_filed prim x y e _ _ step inv.1, step_filed prim x y e _ _ step inv.2.1,
          step_keeps_key prim x y e _ step inv.2.2⟩
      have start : doomed (enter prim v record now) := by
        rw [entered]
        refine ⟨.inr ⟨record, by simp, rfl, rfl⟩, .inr ⟨other, by simp [waiting], sameKey, rfl⟩, record, ?_⟩
        simp [insertRecord]
      obtain ⟨mine, theirs, r, held⟩ := run_invariant doomed (fun _ => True) preserved (fun _ _ => trivial) later start
      intro pinned
      have single := (pinned record.key r held).2
      have first := (single record.identity).mp (by simpa [Filed, quiet] using mine)
      have second := (single other.identity).mp (by simpa [Filed, quiet] using theirs)
      exact different (second.trans first.symm)

-- Any interleaving of any number of puts, from any opened store. Both directions:
-- a race is what breaks the pin, and it always does.
theorem quiet_pinned_iff_no_race (file : Option Bytes) (openedAt : Nat) (t : State) (run : List (Transition State Event))
    (whole : Run (Step prim) ⟨openFrom prim file openedAt, 0⟩ run t) (quiet : t.pending = 0) :
    Pinned t.store ↔ ∀ move ∈ run, ¬ Races prim move := by
  apply Iff.intro
  · intro pinned move member race
    exact race_never_settles prim _ t run move whole member race quiet pinned
  · intro calm
    have agreed := run_invariant Agreed (fun move => ¬ Races prim move)
      (fun s e t step quietly agreed => step_agreed prim s t e step quietly agreed) calm whole
      (opened_agreed prim file openedAt)
    exact quiet_pinned t agreed quiet

section Sample

open Sample

-- The node's key first under its own identity, then under Mallory's before the
-- first put has bound it.
theorem two_first_publishes_break_the_pin :
    ¬ ∀ (file : Option Bytes) (openedAt : Nat) (t : State) (run : List (Transition State Event)),
      Run (Step ed25519) ⟨openFrom ed25519 file openedAt, 0⟩ run t → t.pending = 0 → Pinned t.store := by
  intro claim
  let first := enter ed25519 ⟨Store.new, 0⟩ publish 1000
  let second := enter ed25519 first hijack 1000
  have run : Run (Step ed25519) ⟨Store.new, 0⟩ [_, _, _, _] (leave (leave second publish) hijack) :=
    .cons _ first _ _ _ (.lock _ publish 1000) (.cons first second _ _ _ (.lock first hijack 1000)
      (.cons second _ _ _ _ (.finish second publish (by decide +kernel))
        (.cons _ _ _ _ _ (.finish (leave second publish) hijack (by decide +kernel)) (.nil _))))
  have pinned := claim none 0 _ _ run (by decide +kernel) node hijack (by decide +kernel)
  exact absurd pinned.1 (by decide +kernel)

theorem quiet_pinned_iff_no_race_publish :
    Pinned (leave (enter ed25519 ⟨Store.new, 0⟩ publish 1000) publish).store := by
  let first := enter ed25519 ⟨Store.new, 0⟩ publish 1000
  have run : Run (Step ed25519) ⟨Store.new, 0⟩ [_, _] (leave first publish) :=
    .cons _ first _ _ _ (.lock _ publish 1000) (.cons first _ _ _ _ (.finish first publish (by decide +kernel)) (.nil _))
  rw [quiet_pinned_iff_no_race ed25519 none 0 _ _ run (by decide +kernel)]
  intro move member race
  simp only [List.mem_cons, List.not_mem_nil, or_false] at member
  rcases member with rfl | rfl
  · obtain ⟨_, other, waiting, _⟩ := race
    exact Multiset.notMem_zero other waiting
  · exact race

end Sample

end Sqns.Concurrent
