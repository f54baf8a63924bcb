import Mathlib.Data.Multiset.AddSub
import Sqns.Concurrent
import Sqns.Delivery
import Sqns.Lib.Stamps

set_option autoImplicit false

namespace Sqns.Maintenance

open Store Trace Stamps

variable (prim : Primitives)

-- A put that stores its record inserts it, binds its key and bumps the counter,
-- with no lock held in between. The puts on the way are kept beside the store:
-- `inserted` still have to bind, `bound` still have to bump.
structure Traffic where
  store : Store
  inserted : Multiset SignedRecord
  bound : Nat

namespace Traffic

def insert (t : Traffic) (record : SignedRecord) (now : Nat) : Traffic :=
  let entered := Concurrent.enter prim ⟨t.store, t.inserted⟩ record now
  ⟨entered.store, entered.pending, t.bound⟩

def bind (t : Traffic) (record : SignedRecord) : Traffic :=
  ⟨t.store.bind record.key record.identity, t.inserted.erase record, t.bound + 1⟩

def bump (t : Traffic) : Traffic :=
  { t with store := { t.store with revision := t.store.revision + 1 }, bound := t.bound - 1 }

def purge (t : Traffic) (now : Nat) : Traffic := { t with store := (t.store.purgeExpired now).2 }

def Settled (t : Traffic) : Prop := t.inserted = 0 ∧ t.bound = 0

def version (t : Traffic) : Nat := t.store.revision.toNat

end Traffic

inductive Activity where
  | insert (record : WireRecord prim) (now : Nat)
  | bind (record : SignedRecord)
  | bump
  | purge (now : Nat)

inductive Act : Traffic → Activity prim → Traffic → Prop where
  | insert (t : Traffic) (record : WireRecord prim) (now : Nat) :
      Act t (.insert record now) (t.insert prim record.signed now)
  | bind (t : Traffic) (record : SignedRecord) (waiting : record ∈ t.inserted) : Act t (.bind record) (t.bind record)
  | bump (t : Traffic) (waiting : 0 < t.bound) : Act t .bump t.bump
  | purge (t : Traffic) (now : Nat) : Act t (.purge now) (t.purge now)

theorem insert_cases (t : Traffic) (record : SignedRecord) (now : Nat) :
    (¬ Accepted prim t.store record now ∧ t.insert prim record now = t) ∨
    (Accepted prim t.store record now ∧
      t.insert prim record now = ⟨t.store.insertRecord record, record ::ₘ t.inserted, t.bound⟩) := by
  rcases Concurrent.enter_cases prim ⟨t.store, t.inserted⟩ record now with ⟨refused, same⟩ | ⟨accepted, inserted⟩
  · exact .inl ⟨refused, by rw [Traffic.insert, same]⟩
  · exact .inr ⟨accepted, by rw [Traffic.insert, inserted]⟩

-- The three steps of one put, with nothing in between, are `put`.
theorem put_in_steps (t : Traffic) (record : SignedRecord) (now : Nat) (accepted : Accepted prim t.store record now) :
    ((t.insert prim record now).bind record).bump = { t with store := (t.store.put prim record now).2 } := by
  rcases insert_cases prim t record now with ⟨refused, _⟩ | ⟨_, inserted⟩
  · exact False.elim (refused accepted)
  · rw [inserted, put_accepted prim t.store record now accepted]
    simp [Traffic.bind, Traffic.bump, accept, finishPut, Store.bind]

-- Every change of the store is followed by a bump, and until then a put is in
-- flight. A sweep that removes nothing changes nothing.
theorem act_counted (t u : Traffic) (activity : Activity prim) (act : Act prim t activity u)
    (unwrapped : t.version < u64Max) : Counted Traffic.version Traffic.Settled t u := by
  cases act with
  | insert record now =>
      rcases insert_cases prim t record.signed now with ⟨_, same⟩ | ⟨_, inserted⟩
      · exact .unchanged same
      · rw [inserted]
        exact .uncounted rfl (fun settled => Multiset.cons_ne_zero settled.1)
  | bind record waiting => exact .uncounted rfl (fun settled => Nat.succ_ne_zero _ settled.2)
  | bump waiting =>
      apply Counted.counted
      simp only [Traffic.version, Traffic.bump, UInt64.toNat_add, UInt64.toNat_one] at unwrapped ⊢
      simp only [u64Max] at unwrapped
      omega
  | purge now =>
      by_cases none : (t.store.purgeExpired now).1 = 0
      · apply Counted.unchanged
        have kept : (t.store.purgeExpired now).2.records = t.store.records := Finmap.retain_of_card _ _ none
        have store : (t.store.purgeExpired now).2 = t.store := by
          have still : ¬ (t.store.purgeExpired now).1 > 0 := by omega
          simp only [purgeExpired] at kept still ⊢
          rw [if_neg still, kept]
        rw [Traffic.purge, store]
      · apply Counted.counted
        have some : (t.store.purgeExpired now).1 > 0 := by omega
        simp only [purgeExpired] at some
        simp only [Traffic.version, Traffic.purge, purgeExpired, if_pos some, UInt64.toNat_add, UInt64.toNat_one]
        simp only [Traffic.version, u64Max] at unwrapped
        omega

theorem act_encodable (t u : Traffic) (activity : Activity prim) (act : Act prim t activity u)
    (fits : ∀ k r, t.store.records.lookup k = some r → r.Encodable) :
    ∀ k r, u.store.records.lookup k = some r → r.Encodable := by
  intro k r held
  cases act with
  | insert record now =>
      rcases insert_cases prim t record.signed now with ⟨_, same⟩ | ⟨_, inserted⟩
      · exact fits k r (same ▸ held)
      · rw [inserted] at held
        simp only [insertRecord, Finmap.lookup_insert_ite] at held
        by_cases here : k = record.signed.key
        · rw [if_pos here, Option.some.injEq] at held
          exact held ▸ (wire_iff_encodable prim record.signed).mp record.decoded
        · rw [if_neg here] at held
          exact fits k r held
  | bind record waiting => exact fits k r held
  | bump waiting => exact fits k r held
  | purge now =>
      rw [Traffic.purge, purge_records_lookup, Option.filter_eq_some_iff] at held
      exact fits k r held.1

-- One arm of the `select!` in `maintenance`, from the read of the counter to the
-- note of what has been persisted.
inductive Tick where
  | idle
  | called (revision : UInt64)
  | encoded (revision : UInt64) (bytes : Bytes)
  | replaced (revision : UInt64)

-- `persistedRevision` is a local of `maintenance`; `file` is what lies at the
-- snapshot path.
structure State where
  traffic : Traffic
  tick : Tick
  persistedRevision : UInt64
  file : Option Bytes

def start (file : Option Bytes) (openedAt : Nat) : State :=
  ⟨⟨openFrom prim file openedAt, 0, 0⟩, .idle, UInt64.ofNat u64Max, file⟩

inductive Event where
  | traffic (activity : Activity prim)
  | skip
  | call
  | encode
  | replace
  | fail
  | note

-- `encode` holds both read locks, so it sees one state of the store, walked in
-- the hash map's own order. A write that fails leaves the old file.
inductive Step : State → Event prim → State → Prop where
  | traffic (s : State) (activity : Activity prim) (next : Traffic) (act : Act prim s.traffic activity next) :
      Step s (.traffic activity) { s with traffic := next }
  | skip (s : State) (idle : s.tick = .idle) (same : s.traffic.store.revision = s.persistedRevision) : Step s .skip s
  | call (s : State) (idle : s.tick = .idle) (changed : s.traffic.store.revision ≠ s.persistedRevision) :
      Step s .call { s with tick := .called s.traffic.store.revision }
  | encode (s : State) (revision : UInt64) (items : List (PubKey × SignedRecord)) (called : s.tick = .called revision)
      (order : Finmap.Iterates items s.traffic.store.records) :
      Step s .encode { s with tick := .encoded revision (encodeSnapshot (items.map Prod.snd) s.traffic.store.bindings) }
  | replace (s : State) (revision : UInt64) (bytes : Bytes) (encoded : s.tick = .encoded revision bytes) :
      Step s .replace { s with tick := .replaced revision, file := some bytes }
  | notCreated (s : State) (revision : UInt64) (called : s.tick = .called revision) : Step s .fail { s with tick := .idle }
  | notReplaced (s : State) (revision : UInt64) (bytes : Bytes) (encoded : s.tick = .encoded revision bytes) :
      Step s .fail { s with tick := .idle }
  | note (s : State) (revision : UInt64) (replaced : s.tick = .replaced revision) :
      Step s .note { s with tick := .idle, persistedRevision := revision }

def Quiet (s : State) : Prop := s.traffic.Settled ∧ s.tick = .idle

-- The file is an encoding of this very store.
def Written (file : Option Bytes) (t : Traffic) : Prop :=
  ∃ items, Finmap.Iterates items t.store.records ∧
    file = some (encodeSnapshot (items.map Prod.snd) t.store.bindings)

-- The file reads back as exactly this store, records and bindings.
def Saved (file : Option Bytes) (s : Store) : Prop :=
  ∃ bytes items, file = some bytes ∧ Finmap.Iterates items s.records ∧
    decodeSnapshot prim bytes = .ok (items.map Prod.snd, s.bindings)

def Fresh (file : Option Bytes) (revision : UInt64) (t : Traffic) : Prop :=
  Dated Traffic.version Traffic.Settled (Written file) revision.toNat t

-- What was persisted last is older than what the tick in flight has read.
def Newer (s : State) (revision : UInt64) : Prop :=
  revision.toNat ≤ s.traffic.version ∧
    (s.persistedRevision = UInt64.ofNat u64Max ∨ s.persistedRevision.toNat < revision.toNat)

def InFlight (s : State) : Tick → Prop
  | .idle => True
  | .called revision => Newer s revision
  | .encoded revision bytes => Newer s revision ∧ Fresh (some bytes) revision s.traffic
  | .replaced revision => Newer s revision ∧ Fresh s.file revision s.traffic

structure Kept (s : State) : Prop where
  fits : ∀ k r, s.traffic.store.records.lookup k = some r → r.Encodable
  saved : s.persistedRevision = UInt64.ofNat u64Max ∨ Fresh s.file s.persistedRevision s.traffic
  inFlight : InFlight s s.tick

theorem start_kept (file : Option Bytes) (openedAt : Nat) : Kept (start prim file openedAt) :=
  ⟨open_encodable prim file openedAt, .inl rfl, trivial⟩

theorem traffic_in_flight (s : State) (next : Traffic) (counted : Counted Traffic.version Traffic.Settled s.traffic next)
    (tick : Tick) (inFlight : InFlight s tick) : InFlight { s with traffic := next } tick := by
  have newer : ∀ revision, Newer s revision → Newer { s with traffic := next } revision :=
    fun revision older => ⟨Nat.le_trans older.1 counted.mono, older.2⟩
  cases tick with
  | idle => trivial
  | called revision => exact newer revision inFlight
  | encoded revision bytes => exact ⟨newer revision inFlight.1, inFlight.2.step counted⟩
  | replaced revision => exact ⟨newer revision inFlight.1, inFlight.2.step counted⟩

theorem call_newer (s : State) (changed : s.traffic.store.revision ≠ s.persistedRevision)
    (saved : s.persistedRevision = UInt64.ofNat u64Max ∨ Fresh s.file s.persistedRevision s.traffic) :
    Newer s s.traffic.store.revision := by
  refine ⟨Nat.le_refl _, saved.imp_right (fun fresh => ?_)⟩
  have different : s.persistedRevision.toNat ≠ s.traffic.store.revision.toNat :=
    fun same => changed (UInt64.toNat_inj.mp same.symm)
  exact Nat.lt_of_le_of_ne fresh.past different

theorem step_kept (s t : State) (e : Event prim) (step : Step prim s e t) (unwrapped : s.traffic.version < u64Max)
    (kept : Kept s) : Kept t := by
  have tick := kept.inFlight
  cases step with
  | traffic activity next act =>
      have counted := act_counted prim s.traffic next activity act unwrapped
      refine ⟨act_encodable prim s.traffic next activity act kept.fits, ?_, traffic_in_flight s next counted s.tick tick⟩
      exact kept.saved.imp_right (fun fresh => fresh.step counted)
  | skip idle same => exact kept
  | call idle changed => exact ⟨kept.fits, kept.saved, call_newer s changed kept.saved⟩
  | encode revision items called order =>
      rw [called] at tick
      exact ⟨kept.fits, kept.saved, tick, dated_now ⟨items, order, rfl⟩ tick.1⟩
  | replace revision bytes encoded =>
      rw [encoded] at tick
      refine ⟨kept.fits, ?_, tick⟩
      -- The old stamp is behind the counter, so it says nothing of the new file.
      exact tick.1.2.imp_right (fun older => dated_before (Nat.lt_of_lt_of_le older tick.1.1))
  | notCreated revision called => exact ⟨kept.fits, kept.saved, trivial⟩
  | notReplaced revision bytes encoded => exact ⟨kept.fits, kept.saved, trivial⟩
  | note revision replaced =>
      rw [replaced] at tick
      exact ⟨kept.fits, .inr tick.2, trivial⟩

theorem written_saved_iff (file : Option Bytes) (t : Traffic)
    (fits : ∀ k r, t.store.records.lookup k = some r → r.Encodable) (written : Written file t) :
    Saved prim file t.store ↔ t.store.records.keys.card < 2 ^ 32 ∧ t.store.bindings.keys.card < 2 ^ 32 := by
  obtain ⟨items, order, rfl⟩ := written
  apply Iff.intro
  · intro saved
    obtain ⟨bytes, others, _, walked, decoded⟩ := saved
    obtain ⟨_, records, bindings⟩ := decode_snapshot_holds prim bytes _ _ decoded
    rw [List.length_map, walked.length_eq] at records
    exact ⟨records, bindings⟩
  · intro small
    refine ⟨_, items, rfl, order, decode_snapshot_encode prim _ _ ?_ ?_ small.2⟩
    · intro r member
      obtain ⟨item, inItems, rfl⟩ := List.mem_map.mp member
      exact fits item.1 item.2 ((order.held _ _).mp inItems)
    · rw [List.length_map, order.length_eq]
      exact small.1

-- Whatever the interleaving, the file of a quiet state with equal counters was
-- encoded from this very store. It reads back unless a count overflows its u32.
theorem skipped_write_loses_nothing_iff (file : Option Bytes) (openedAt : Nat) (t : State)
    (run : List (Transition State (Event prim))) (whole : Run (Step prim) (start prim file openedAt) run t)
    (unwrapped : ∀ v ∈ visited (start prim file openedAt) run, v.traffic.store.revision.toNat < 2 ^ 64 - 1)
    (quiet : Quiet t) (same : t.traffic.store.revision = t.persistedRevision) :
    Saved prim t.file t.traffic.store ↔
      t.traffic.store.records.keys.card < 2 ^ 32 ∧ t.traffic.store.bindings.keys.card < 2 ^ 32 := by
  have kept := run_invariant Kept (fun move => move.pre.traffic.version < u64Max)
    (fun s e t step below kept => step_kept prim s t e step below kept)
    (fun move member => unwrapped _ (run_pre_visited whole move member)) whole (start_kept prim file openedAt)
  have below := unwrapped t (run_end_visited whole)
  rcases kept.saved with never | fresh
  · rw [same, never] at below
    exact absurd below (by decide)
  · exact written_saved_iff prim t.file t.traffic kept.fits (fresh.current (congrArg UInt64.toNat same) quiet.1)

section Sample

open Sample Delivery

-- One put and nothing else: where it ends, and what the counter reads on the way.
theorem put_runs (s : State) (record : WireRecord prim) (now : Nat)
    (accepted : Accepted prim s.traffic.store record.signed now) :
    ∃ run, Run (Step prim) s run { s with traffic := { s.traffic with store := s.traffic.store.accept record.signed } } ∧
      ∀ move ∈ run, move.post.traffic.version ≤ s.traffic.version + 1 := by
  have final := put_in_steps prim s.traffic record.signed now accepted
  rw [put_accepted prim s.traffic.store record.signed now accepted] at final
  rcases insert_cases prim s.traffic record.signed now with ⟨refused, _⟩ | ⟨_, inserted⟩
  · exact False.elim (refused accepted)
  · let first := s.traffic.insert prim record.signed now
    have waiting : record.signed ∈ first.inserted := by simp [first, inserted]
    have same : first.version = s.traffic.version := by simp [first, inserted, Traffic.version, insertRecord]
    refine ⟨[_, _, _], .cons _ { s with traffic := first } _ _ _ (.traffic s _ _ (.insert _ record now))
      (.cons _ { s with traffic := first.bind record.signed } _ _ _ (.traffic _ _ _ (.bind first _ waiting))
        (.cons _ _ _ _ _ (.traffic _ .bump (first.bind record.signed).bump (.bump _ (Nat.succ_pos _))) ?_)), ?_⟩
    · simp only [first, final]
      exact .nil _
    · simp only [List.mem_cons, List.not_mem_nil, or_false, forall_eq_or_imp, forall_eq]
      refine ⟨by omega, ?_, ?_⟩
      · show first.version ≤ _
        omega
      · show (first.store.revision + 1).toNat ≤ _
        have step : (first.store.revision + 1).toNat ≤ first.version + 1 := by
          rw [UInt64.toNat_add]
          exact Nat.mod_le _ _
        omega

theorem tick_runs (s : State) (idle : s.tick = .idle) (changed : s.traffic.store.revision ≠ s.persistedRevision) :
    ∃ run bytes, Run (Step prim) s run { s with file := some bytes, persistedRevision := s.traffic.store.revision } ∧
      ∀ move ∈ run, move.post.traffic = s.traffic := by
  let revision := s.traffic.store.revision
  let bytes := encodeSnapshot (s.traffic.store.records.ascending.map Prod.snd) s.traffic.store.bindings
  let called : State := { s with tick := .called revision }
  let encoded : State := { s with tick := .encoded revision bytes }
  let replaced : State := { s with tick := .replaced revision, file := some bytes }
  refine ⟨[_, _, _, _], bytes, .cons s called _ _ _ (.call s idle changed)
    (.cons called encoded _ _ _ (.encode called revision _ rfl (Finmap.ascending_iterates _))
      (.cons encoded replaced _ _ _ (.replace encoded revision bytes rfl)
        (.cons replaced _ _ _ _ (.note replaced revision rfl) ?_))), ?_⟩
  · rw [← idle]
    exact .nil _
  · simp [called, encoded, replaced]

theorem visited_unwrapped (s : State) (run : List (Transition State (Event prim))) (bound : Nat) (small : bound < 2 ^ 64 - 1)
    (first : s.traffic.version ≤ bound) (later : ∀ move ∈ run, move.post.traffic.version ≤ bound) :
    ∀ v ∈ visited s run, v.traffic.store.revision.toNat < 2 ^ 64 - 1 := by
  intro v member
  rw [visited, List.mem_cons, List.mem_map] at member
  rcases member with rfl | ⟨move, inRun, rfl⟩
  · exact Nat.lt_of_le_of_lt first small
  · exact Nat.lt_of_le_of_lt (later move inRun) small

theorem skipped_write_loses_nothing_publish :
    ∃ (t : State) (run : List (Transition State (Event ed25519))), Run (Step ed25519) (start ed25519 none 0) run t ∧
      t.traffic.store.revision = t.persistedRevision ∧ t.traffic.store.records.lookup node = some publish ∧
      Saved ed25519 t.file t.traffic.store := by
  let opened := start ed25519 none 0
  have accepted : Accepted ed25519 opened.traffic.store publish 1000 :=
    (put_stored_iff ed25519 Store.new publish 1000).mp (by decide +kernel)
  obtain ⟨puts, stored, below⟩ := put_runs ed25519 opened (wire publish (by simp [known])) 1000 accepted
  let holding : State := { opened with traffic := { opened.traffic with store := opened.traffic.store.accept publish } }
  obtain ⟨ticks, bytes, written, still⟩ := tick_runs ed25519 holding rfl (by decide +kernel)
  have run := run_append.mpr ⟨_, stored, written⟩
  have small : ∀ move ∈ puts ++ ticks, move.post.traffic.version ≤ 1 := by
    intro move member
    rcases List.mem_append.mp member with old | new
    · exact below move old
    · rw [still move new]
      decide +kernel
  have held : holding.traffic.store.records.lookup node = some publish := by decide +kernel
  have few : holding.traffic.store.records.keys.card < 2 ^ 32 ∧ holding.traffic.store.bindings.keys.card < 2 ^ 32 := by
    decide +kernel
  exact ⟨_, _, run, rfl, held, (skipped_write_loses_nothing_iff ed25519 none 0 _ _ run
      (visited_unwrapped ed25519 opened _ 1 (by decide) (Nat.zero_le _) small) ⟨⟨rfl, rfl⟩, rfl⟩ rfl).mpr few⟩

def crowd : Nat → Store
  | 0 => Store.new
  | n + 1 => (crowd n).accept (bulk [] n)

theorem crowd_keys (n : Nat) (k : PubKey)
    (known : (crowd n).records.lookup k ≠ none ∨ (crowd n).bindings.lookup k ≠ none) : ∃ i, i < n ∧ k = key (i + 1) := by
  induction n with
  | zero => simp [crowd, Store.new] at known
  | succ n ih =>
      by_cases here : k = key (n + 1)
      · exact ⟨n, Nat.lt_succ_self n, here⟩
      · have other : k ≠ (bulk [] n).key := here
        simp only [crowd, accept_records_lookup, accept_bindings_lookup, if_neg other] at known
        obtain ⟨i, small, same⟩ := ih known
        exact ⟨i, Nat.lt_succ_of_lt small, same⟩

theorem crowd_fresh (n : Nat) (small : n < 2 ^ 64) :
    (crowd n).records.lookup (bulk [] n).key = none ∧ (crowd n).bindings.lookup (bulk [] n).key = none := by
  by_contra known
  rw [not_and_or] at known
  obtain ⟨i, before, same⟩ := crowd_keys n _ known
  have := key_injective (n + 1) (i + 1) (by omega) (by omega) same
  omega

theorem crowd_accepts (n : Nat) (small : n < 2 ^ 64) : Accepted trusting (crowd n) (bulk [] n) 1000 := by
  obtain ⟨unheld, unbound⟩ := crowd_fresh n small
  refine ⟨(admission_ok_iff trusting _ _).mp (bulk_admitted [] n small (Nat.zero_le _)), ?_, ?_⟩
  · simp [unbound]
  · simp [unheld]

theorem crowd_card (n : Nat) (small : n ≤ 2 ^ 64) : (crowd n).records.keys.card = n := by
  induction n with
  | zero => rfl
  | succ n ih =>
      obtain ⟨unheld, _⟩ := crowd_fresh n (by omega)
      have grown : (crowd (n + 1)).records.keys = insert (bulk [] n).key (crowd n).records.keys := by
        ext k
        rw [crowd, accept, finishPut, Store.bind, insertRecord]
        simp [Finmap.mem_keys, Finmap.mem_insert]
      rw [grown, Finset.card_insert_of_notMem (by rwa [Finmap.mem_keys, ← Finmap.lookup_eq_none]),
        ih (by omega)]

theorem crowd_revision (n : Nat) (small : n < 2 ^ 64) : (crowd n).revision.toNat = n := by
  induction n with
  | zero => rfl
  | succ n ih =>
      have before := ih (by omega)
      rw [crowd, accept, finishPut, UInt64.toNat_add]
      simp only [insertRecord, before, UInt64.toNat_one]
      omega

theorem bulk_wire (n : Nat) : (bulk [] n).Encodable := by
  refine ⟨⟨by decide, by simp⟩, ?_⟩
  have body : (bulk [] n).record.body = .live [] := rfl
  rw [Record.encode_length, body]
  decide

def crowded (n : Nat) : State := ⟨⟨crowd n, 0, 0⟩, .idle, UInt64.ofNat u64Max, none⟩

theorem crowd_runs (n : Nat) (small : n ≤ 2 ^ 32) :
    ∃ run, Run (Step trusting) (crowded 0) run (crowded n) ∧ ∀ move ∈ run, move.post.traffic.version ≤ n := by
  induction n with
  | zero => exact ⟨[], .nil _, by simp⟩
  | succ n ih =>
      obtain ⟨before, run, below⟩ := ih (by omega)
      have version : (crowded n).traffic.version = n := crowd_revision n (by omega)
      obtain ⟨last, step, above⟩ := put_runs trusting (crowded n)
        ⟨bulk [] n, (wire_iff_encodable trusting _).mpr (bulk_wire n)⟩ 1000 (crowd_accepts n (by omega))
      refine ⟨before ++ last, run_append.mpr ⟨crowded n, run, step⟩, ?_⟩
      intro move member
      rcases List.mem_append.mp member with old | new
      · exact Nat.le_succ_of_le (below move old)
      · exact version ▸ above move new

-- 2^32 keys, one put after the other, then one tick: the count field of the
-- file reads 0.
theorem crowd_is_not_saved :
    ¬ ∀ (file : Option Bytes) (openedAt : Nat) (t : State) (run : List (Transition State (Event trusting))),
      Run (Step trusting) (start trusting file openedAt) run t →
      (∀ v ∈ visited (start trusting file openedAt) run, v.traffic.store.revision.toNat < 2 ^ 64 - 1) →
      Quiet t → t.traffic.store.revision = t.persistedRevision → Saved trusting t.file t.traffic.store := by
  intro claim
  obtain ⟨puts, filled, below⟩ := crowd_runs (2 ^ 32) (Nat.le_refl _)
  have version : (crowd (2 ^ 32)).revision.toNat = 2 ^ 32 := crowd_revision _ (by decide)
  have changed : (crowded (2 ^ 32)).traffic.store.revision ≠ (crowded (2 ^ 32)).persistedRevision := by
    intro same
    have eq : (crowd (2 ^ 32)).revision.toNat = (UInt64.ofNat u64Max).toNat := congrArg UInt64.toNat same
    rw [version] at eq
    exact absurd eq (by decide)
  obtain ⟨ticks, bytes, written, still⟩ := tick_runs trusting (crowded (2 ^ 32)) rfl changed
  have small : ∀ move ∈ puts ++ ticks, move.post.traffic.version ≤ 2 ^ 32 := by
    intro move member
    rcases List.mem_append.mp member with old | new
    · exact below move old
    · rw [still move new]
      exact Nat.le_of_eq version
  have unwrapped := visited_unwrapped trusting (crowded 0) (puts ++ ticks) (2 ^ 32) (by decide) (Nat.zero_le _) small
  obtain ⟨_, items, _, walked, decoded⟩ := claim none 0 _ _ (run_append.mpr ⟨_, filled, written⟩) unwrapped
    ⟨⟨rfl, rfl⟩, rfl⟩ rfl
  have records := (decode_snapshot_holds trusting _ _ _ decoded).2.1
  rw [List.length_map, walked.length_eq] at records
  have count : (crowd (2 ^ 32)).records.keys.card < 2 ^ 32 := records
  rw [crowd_card _ (by decide)] at count
  exact Nat.lt_irrefl _ count

end Sample

end Sqns.Maintenance
