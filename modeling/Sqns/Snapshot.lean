import Sqns.StoreInvariant

set_option autoImplicit false

namespace Sqns.Store

open ByteReader

variable (prim : Primitives)

def snapshotMagic : Bytes := utf8Bytes "SQNSDB"
def snapshotVersion : UInt8 := 3

def encodeBinding (binding : PubKey × PubKey) : Bytes := binding.1.bytes.toList ++ binding.2.bytes.toList

-- `records` comes in the hash map's own order; the bindings are sorted by key.
def encodeSnapshot (records : List SignedRecord) (bindings : Map PubKey PubKey) : Bytes :=
  snapshotMagic ++ snapshotVersion :: (toBe 4 records.length ++ records.flatMap SignedRecord.encode ++
    toBe 4 bindings.ascending.length ++ bindings.ascending.flatMap encodeBinding)

def decodeBinding : Read (PubKey × PubKey) := do
  let serviceKey ← Reader.array 32 "binding service key"
  let identity ← Reader.array 32 "binding identity"
  pure (⟨serviceKey⟩, ⟨identity⟩)

def decodeSnapshotFrom : Read (List SignedRecord × Map PubKey PubKey) := do
  let magic ← Reader.bytes snapshotMagic.length "snapshot magic"
  if magic ≠ snapshotMagic then throw (.record "not an sqns snapshot file")
  let version ← Reader.u8 "snapshot version"
  if version ≠ snapshotVersion then
    throw (.record s!"unsupported snapshot version {version} (this build writes {snapshotVersion})")
  let count ← Reader.u32 "snapshot record count"
  let records ← many (SignedRecord.decodeFrom prim) count.toNat
  let bindingCount ← Reader.u32 "snapshot binding count"
  let bindings ← many decodeBinding bindingCount.toNat
  pure (records, Finmap.ofPairs bindings)

def decodeSnapshot (input : Bytes) : Except Error (List SignedRecord × Map PubKey PubKey) :=
  decodeAll (decodeSnapshotFrom prim) "snapshot" input

def loadRecord (now : Nat) (s : Store) (record : SignedRecord) : Store :=
  if record.record.isExpired now then s else (s.put prim record now).2

def bindAll (s : Store) (bindings : List (PubKey × PubKey)) : Store :=
  bindings.foldl (fun s binding => s.bind binding.1 binding.2) s

-- `Store::open`: `file` is what lies at the configured path, if anything does.
-- The loop and each `put` read the clock; one instant stands for all of them,
-- since a record that lapses between two reads is dropped by either check.
-- The decoded bindings are a hash map, and `open` binds them in the order that
-- map hands them out. `walk` is that order.
def openWith (walk : Map PubKey PubKey → List (PubKey × PubKey)) (file : Option Bytes) (now : Nat) : Store :=
  match file with
  | none => new
  | some bytes =>
      match decodeSnapshot prim bytes with
      | .error _ => new
      | .ok (records, bindings) => records.foldl (loadRecord prim now) (bindAll new (walk bindings))

def openFrom (file : Option Bytes) (now : Nat) : Store := openWith prim Finmap.ascending file now

theorem binding_reads (binding : PubKey × PubKey) (rest : Bytes) :
    decodeBinding (encodeBinding binding ++ rest) = .ok (binding, rest) := by
  rw [encodeBinding, List.append_assoc, decodeBinding, bind_of_ok _ _ _ _ _ (Reader.array_reads _ _ _ _),
    bind_of_ok _ _ _ _ _ (Reader.array_reads _ _ _ _)]
  rfl

theorem count_reads (what : String) (n : Nat) (rest : Bytes) (small : n < 2 ^ 32) :
    Reader.u32 what (toBe 4 n ++ rest) = .ok (UInt32.ofNat n, rest) ∧ (UInt32.ofNat n).toNat = n := by
  have cast : (UInt32.ofNat n).toNat = n := UInt32.toNat_ofNat_of_lt' small
  have read := Reader.u32_reads what (UInt32.ofNat n) rest
  rw [be32, cast] at read
  exact ⟨read, cast⟩

theorem decode_snapshot_encode (records : List SignedRecord) (bindings : Map PubKey PubKey)
    (fits : ∀ r ∈ records, r.Encodable) (recordCount : records.length < 2 ^ 32)
    (bindingCount : bindings.keys.card < 2 ^ 32) :
    decodeSnapshot prim (encodeSnapshot records bindings) = .ok (records, bindings) := by
  have order := Finmap.ascending_iterates bindings
  rw [← order.length_eq] at bindingCount
  have pairs := many_reads decodeBinding encodeBinding bindings.ascending []
    (fun binding _ after => binding_reads binding after)
  rw [List.append_nil] at pairs
  obtain ⟨readPairs, pairCast⟩ := count_reads "snapshot binding count" bindings.ascending.length
    (bindings.ascending.flatMap encodeBinding) bindingCount
  have loop := many_reads (SignedRecord.decodeFrom prim) SignedRecord.encode records
    (toBe 4 bindings.ascending.length ++ bindings.ascending.flatMap encodeBinding)
    (fun r member => signed_reads prim r (fits r member))
  obtain ⟨readCount, countCast⟩ := count_reads "snapshot record count" records.length
    (records.flatMap SignedRecord.encode ++
      (toBe 4 bindings.ascending.length ++ bindings.ascending.flatMap encodeBinding)) recordCount
  rw [decodeSnapshot, decode_all_ok, encodeSnapshot, decodeSnapshotFrom, bind_of_ok _ _ _ _ _ (Reader.bytes_reads _ _ _),
    if_neg (by simp)]
  beta_reduce
  rw [bind_of_ok _ _ _ _ _ (Reader.u8_reads _ _ _), if_neg (by simp)]
  simp only [List.append_assoc]
  rw [bind_of_ok _ _ _ _ _ readCount, countCast, bind_of_ok _ _ _ _ _ loop, bind_of_ok _ _ _ _ _ readPairs, pairCast,
    bind_of_ok _ _ _ _ _ pairs, order.of_pairs]
  rfl

-- Both counts are read as a u32, so no file holds 2^32 records or bindings.
theorem decode_snapshot_holds (input : Bytes) (records : List SignedRecord) (bindings : Map PubKey PubKey)
    (success : decodeSnapshot prim input = .ok (records, bindings)) :
    (∀ r ∈ records, r.Encodable) ∧ records.length < 2 ^ 32 ∧ bindings.keys.card < 2 ^ 32 := by
  rw [decodeSnapshot, decode_all_ok] at success
  obtain ⟨magic, afterMagic, _, success⟩ := (bind_ok _ _ _ _ _).mp success
  split at success
  · obtain ⟨_, _, refused, _⟩ := (bind_ok _ _ _ _ _).mp success
    exact False.elim (throw_ok _ _ _ _ refused)
  obtain ⟨version, afterVersion, _, success⟩ := (bind_ok _ _ _ _ _).mp success
  split at success
  · obtain ⟨_, _, refused, _⟩ := (bind_ok _ _ _ _ _).mp success
    exact False.elim (throw_ok _ _ _ _ refused)
  obtain ⟨count, afterCount, _, success⟩ := (bind_ok _ _ _ _ _).mp success
  obtain ⟨read, afterRecords, readRecords, success⟩ := (bind_ok _ _ _ _ _).mp success
  obtain ⟨bindingCount, afterBindingCount, _, success⟩ := (bind_ok _ _ _ _ _).mp success
  obtain ⟨pairs, afterPairs, readPairs, final⟩ := (bind_ok _ _ _ _ _).mp success
  obtain ⟨same, _⟩ := (pure_ok _ _ _ _).mp final
  obtain ⟨rfl, rfl⟩ := Prod.mk.inj same
  refine ⟨?_, ?_, ?_⟩
  · exact many_forall _ SignedRecord.Encodable _ _ _ _ (fun source a after decoded => (signed_exact prim _ _ _ decoded).1)
      readRecords
  · rw [many_length _ _ _ _ _ readRecords]
    exact count.toNat_lt
  · have fewer := Finmap.of_pairs_card pairs
    rw [many_length _ _ _ _ _ readPairs] at fewer
    exact Nat.lt_of_le_of_lt fewer bindingCount.toNat_lt

theorem linked_index_eq (s t : Store) (first : Linked s) (second : Linked t) (same : s.bindings = t.bindings) :
    s.identityIndex = t.identityIndex := by
  apply Finmap.ext_lookup
  intro i
  have keys : s.keysOf i = t.keysOf i := by
    ext k
    rw [first.inverse, second.inverse, same]
  unfold keysOf at keys
  cases left : s.identityIndex.lookup i with
  | none =>
      cases right : t.identityIndex.lookup i with
      | none => rfl
      | some set =>
          rw [left, right] at keys
          exact False.elim ((second.inhabited i set right).ne_empty keys.symm)
  | some set =>
      cases right : t.identityIndex.lookup i with
      | none =>
          rw [left, right] at keys
          exact False.elim ((first.inhabited i set left).ne_empty keys)
      | some other =>
          rw [left, right] at keys
          exact congrArg some keys

theorem bind_all_spec (s : Store) (bindings : List (PubKey × PubKey)) (linked : Linked s)
    (once : (bindings.map Prod.fst).Nodup) (absent : ∀ b ∈ bindings, s.bindings.lookup b.1 = none) :
    Linked (bindAll s bindings) ∧ (bindAll s bindings).records = s.records ∧
      (bindAll s bindings).bindings = bindings.foldl (fun m b => m.insert b.1 b.2) s.bindings := by
  induction bindings generalizing s with
  | nil => exact ⟨linked, rfl, rfl⟩
  | cons head tail ih =>
      rw [List.map_cons, List.nodup_cons] at once
      have fresh := absent head (by simp)
      have step : Linked (s.bind head.1 head.2) :=
        bind_linked s head.1 head.2 linked (fun bound found => by rw [fresh] at found; cases found)
      have inserted : (s.bind head.1 head.2).bindings = s.bindings.insert head.1 head.2 := by
        simp only [bind, fresh]
      have later : ∀ b ∈ tail, (s.bind head.1 head.2).bindings.lookup b.1 = none := by
        intro b member
        have other : b.1 ≠ head.1 := fun same => once.1 (List.mem_map.mpr ⟨b, member, same⟩)
        rw [bind_bindings_lookup, if_neg other]
        exact absent b (by simp [member])
      obtain ⟨restLinked, restRecords, restBindings⟩ := ih (s.bind head.1 head.2) step once.2 later
      refine ⟨restLinked, restRecords, ?_⟩
      rw [List.foldl_cons, ← inserted]
      exact restBindings

theorem bind_all_new (items : List (PubKey × PubKey)) (bindings : Map PubKey PubKey)
    (order : Finmap.Iterates items bindings) :
    Linked (bindAll new items) ∧ (bindAll new items).records = ∅ ∧ (bindAll new items).bindings = bindings := by
  obtain ⟨linked, records, same⟩ := bind_all_spec new items new_linked order.once (fun b _ => by simp [new])
  exact ⟨linked, records, same.trans order.of_pairs⟩

theorem load_consistent (now : Nat) (records : List SignedRecord) (s : Store) (consistent : Consistent prim s) :
    Consistent prim (records.foldl (loadRecord prim now) s) := by
  induction records generalizing s with
  | nil => exact consistent
  | cons head tail ih =>
      apply ih
      unfold loadRecord
      split
      · exact consistent
      · exact put_consistent prim s head now consistent

-- Nothing is assumed about the bytes: unreadable ones give the empty store, and
-- readable ones go through `bind` on distinct keys and through `put`.
theorem open_consistent (file : Option Bytes) (now : Nat) : Consistent prim (openFrom prim file now) := by
  unfold openFrom openWith
  cases file with
  | none => exact new_consistent prim
  | some bytes =>
      cases decoded : decodeSnapshot prim bytes with
      | error e => simpa only [decoded] using new_consistent prim
      | ok loaded =>
          obtain ⟨records, bindings⟩ := loaded
          obtain ⟨linked, empty, _⟩ := bind_all_new _ bindings (Finmap.ascending_iterates bindings)
          simp only [decoded]
          apply load_consistent
          refine ⟨linked, ?_, ?_, ?_, ?_⟩
          all_goals simp [empty]

theorem load_encodable (now : Nat) (records : List SignedRecord) (s : Store) (fits : ∀ r ∈ records, r.Encodable)
    (held : ∀ k r, s.records.lookup k = some r → r.Encodable) :
    ∀ k r, (records.foldl (loadRecord prim now) s).records.lookup k = some r → r.Encodable := by
  induction records generalizing s with
  | nil => exact held
  | cons head tail ih =>
      apply ih _ (fun r member => fits r (by simp [member]))
      intro k r found
      unfold loadRecord at found
      split at found
      · exact held k r found
      · rcases put_held prim s head now k r found with old | ⟨same, _⟩
        · exact held k r old
        · exact same ▸ fits head (by simp)

theorem open_encodable (file : Option Bytes) (now : Nat) (k : PubKey) (r : SignedRecord)
    (held : (openFrom prim file now).records.lookup k = some r) : r.Encodable := by
  unfold openFrom openWith at held
  cases file with
  | none => simp [new] at held
  | some bytes =>
      cases decoded : decodeSnapshot prim bytes with
      | error e => simp [decoded, new] at held
      | ok loaded =>
          obtain ⟨records, bindings⟩ := loaded
          obtain ⟨_, empty, _⟩ := bind_all_new _ bindings (Finmap.ascending_iterates bindings)
          simp only [decoded] at held
          exact load_encodable prim now records _ (decode_snapshot_holds prim bytes records bindings decoded).1
            (by simp [empty]) k r held

inductive Op where
  | put (record : SignedRecord) (now : Nat)
  | purge (now : Nat)

def apply (s : Store) : Op → Store
  | .put record now => (s.put prim record now).2
  | .purge now => (s.purgeExpired now).2

theorem apply_consistent (s : Store) (op : Op) (consistent : Consistent prim s) : Consistent prim (s.apply prim op) := by
  cases op with
  | put record now => exact put_consistent prim s record now consistent
  | purge now => exact purge_consistent prim s now consistent

theorem apply_keeps_binding (s : Store) (op : Op) (k i : PubKey) (bound : s.bindings.lookup k = some i) :
    (s.apply prim op).bindings.lookup k = some i := by
  cases op with
  | put record now => exact put_keeps_binding prim s record now k i bound
  | purge now => exact bound

theorem fold_invariant (inv : Store → Prop) (step : ∀ s op, inv s → inv (s.apply prim op)) (ops : List Op) (s : Store)
    (start : inv s) : inv (ops.foldl (apply prim) s) := by
  induction ops generalizing s with
  | nil => exact start
  | cons head tail ih => exact ih (s.apply prim head) (step s head start)

-- From `Store::new` (no file) or from any bytes at the path, through any puts
-- and sweeps at any times, the clock going back included.
theorem representation_invariant (file : Option Bytes) (openedAt : Nat) (ops : List Op) :
    let s := ops.foldl (apply prim) (openFrom prim file openedAt)
    (∀ k r, s.records.lookup k = some r → r.key = k ∧ r.record.validate prim = .ok () ∧ r.verify prim = .ok ()) ∧
    (∀ k r, s.records.lookup k = some r → s.bindings.lookup k = some r.identity) ∧
    (∀ k i, (∃ keys, s.identityIndex.lookup i = some keys ∧ k ∈ keys) ↔ s.bindings.lookup k = some i) ∧
    ∀ (later : List Op) (k i : PubKey), s.bindings.lookup k = some i →
      (later.foldl (apply prim) s).bindings.lookup k = some i := by
  intro s
  have consistent : Consistent prim s :=
    fold_invariant prim (Consistent prim) (apply_consistent prim) ops _ (open_consistent prim file openedAt)
  refine ⟨?_, consistent.bound, ?_, ?_⟩
  · intro k r held
    exact ⟨consistent.own k r held, consistent.valid k r held, consistent.verified k r held⟩
  · intro k i
    rw [← consistent.inverse k i, keysOf]
    cases s.identityIndex.lookup i <;> simp
  · intro later k i bound
    exact fold_invariant prim (fun t => t.bindings.lookup k = some i)
      (fun t op held => apply_keeps_binding prim t op k i held) later s bound

-- What a record needs, besides being held, to come back from a snapshot.
def survives (record : SignedRecord) (now : Nat) : Bool :=
  record.record.isTerminal || (!record.record.isExpired now && !record.record.delegation.isExpired now)

structure Reloadable (s : Store) (record : SignedRecord) (now : Nat) : Prop where
  valid : record.record.validate prim = .ok ()
  verified : record.verify prim = .ok ()
  notFuture : record.record.issuedAt.toNat ≤ now + maxClockSkew
  bound : s.bindings.lookup record.key = some record.identity
  absent : s.records.lookup record.key = none

theorem survives_iff (record : SignedRecord) (now : Nat) :
    survives record now = true ↔ record.record.isExpired now = false ∧
      (record.record.isTerminal = true ∨ record.record.delegation.isExpired now = false) := by
  simp only [survives]
  cases terminal : record.record.isTerminal with
  | true => simp [Record.terminal_not_expired _ now terminal]
  | false => simp

theorem Reloadable.pinned {s : Store} {record : SignedRecord} {now : Nat} (ready : Reloadable prim s record now)
    (other : PubKey) (found : s.bindings.lookup record.key = some other) : record.identity = other := by
  rw [ready.bound, Option.some.injEq] at found
  exact found

theorem load_record_eq (s : Store) (record : SignedRecord) (now : Nat) (ready : Reloadable prim s record now) :
    loadRecord prim now s record = if survives record now then s.accept record else s := by
  simp only [loadRecord]
  by_cases kept : survives record now = true
  · obtain ⟨fresh, delegated⟩ := (survives_iff record now).mp kept
    have accepted : Accepted prim s record now :=
      { admitted := ⟨ready.valid, ready.verified, ready.notFuture, fresh, delegated⟩
        pinned := ready.pinned
        newer := fun held found => by
          rw [ready.absent] at found
          cases found }
    rw [fresh, if_neg (by simp), if_pos kept, put_accepted prim s record now accepted]
  · rw [if_neg kept]
    split
    · rfl
    · have refused : (s.put prim record now).1 ≠ .ok .stored := by
        rw [ne_eq, put_stored_iff]
        intro accepted
        exact kept ((survives_iff record now).mpr ⟨accepted.admitted.fresh, accepted.admitted.delegated⟩)
      rw [put_unchanged prim s record now refused]

theorem accept_reloaded (s : Store) (record : SignedRecord) (now : Nat) (linked : Linked s)
    (ready : Reloadable prim s record now) :
    Linked (s.accept record) ∧ (s.accept record).bindings = s.bindings ∧
      (s.accept record).identityIndex = s.identityIndex := by
  have stillLinked := accept_linked s record linked ready.pinned
  have same : (s.accept record).bindings = s.bindings := by
    apply Finmap.ext_lookup
    intro k
    rw [accept_bound s record k ready.pinned]
    by_cases here : k = record.key
    · rw [if_pos here, here, ready.bound]
    · rw [if_neg here]
  exact ⟨stillLinked, same, linked_index_eq _ _ stillLinked linked same⟩

theorem load_record_spec (s : Store) (record : SignedRecord) (now : Nat) (linked : Linked s)
    (ready : Reloadable prim s record now) :
    Linked (loadRecord prim now s record) ∧ (loadRecord prim now s record).bindings = s.bindings ∧
      (loadRecord prim now s record).identityIndex = s.identityIndex ∧
      ∀ k r, (loadRecord prim now s record).records.lookup k = some r ↔
        s.records.lookup k = some r ∨ ((k, r) = (record.key, record) ∧ survives record now = true) := by
  rw [load_record_eq prim s record now ready]
  by_cases kept : survives record now = true
  · obtain ⟨stepLinked, bindings, index⟩ := accept_reloaded prim s record now linked ready
    rw [if_pos kept]
    refine ⟨stepLinked, bindings, index, fun k r => ?_⟩
    rw [accept_records_lookup]
    by_cases here : k = record.key
    · subst here
      simp [ready.absent, kept, eq_comm]
    · simp [here]
  · rw [if_neg kept]
    exact ⟨linked, rfl, rfl, fun k r => by simp [kept]⟩

theorem load_record_reloadable (s : Store) (record other : SignedRecord) (now : Nat) (linked : Linked s)
    (first : Reloadable prim s record now) (ready : Reloadable prim s other now) (distinct : other.key ≠ record.key) :
    Reloadable prim (loadRecord prim now s record) other now := by
  obtain ⟨_, bindings, _, records⟩ := load_record_spec prim s record now linked first
  refine ⟨ready.valid, ready.verified, ready.notFuture, bindings ▸ ready.bound, ?_⟩
  rw [Option.eq_none_iff_forall_ne_some]
  intro r found
  rcases (records other.key r).mp found with held | ⟨same, _⟩
  · rw [ready.absent] at held
    cases held
  · exact distinct (congrArg Prod.fst same)

theorem load_spec (now : Nat) (items : List (PubKey × SignedRecord)) (s : Store) (linked : Linked s)
    (once : (items.map Prod.fst).Nodup) (own : ∀ item ∈ items, item.2.key = item.1)
    (ready : ∀ item ∈ items, Reloadable prim s item.2 now) :
    let t := (items.map Prod.snd).foldl (loadRecord prim now) s
    t.bindings = s.bindings ∧ t.identityIndex = s.identityIndex ∧
      ∀ k r, t.records.lookup k = some r ↔
        s.records.lookup k = some r ∨ ((k, r) ∈ items ∧ survives r now = true) := by
  induction items generalizing s with
  | nil => simp
  | cons head tail ih =>
      obtain ⟨k₀, r₀⟩ := head
      have key : r₀.key = k₀ := own (k₀, r₀) (by simp)
      have here : Reloadable prim s r₀ now := ready (k₀, r₀) (by simp)
      rw [List.map_cons, List.nodup_cons] at once
      rw [List.map_cons, List.foldl_cons]
      obtain ⟨stepLinked, sameBindings, sameIndex, step⟩ := load_record_spec prim s r₀ now linked here
      have later : ∀ item ∈ tail, Reloadable prim (loadRecord prim now s r₀) item.2 now := by
        intro item member
        apply load_record_reloadable prim s r₀ item.2 now linked here (ready item (by simp [member]))
        rw [own item (by simp [member]), key]
        exact fun same => once.1 (List.mem_map.mpr ⟨item, member, same⟩)
      obtain ⟨bindings, index, records⟩ := ih (loadRecord prim now s r₀) stepLinked once.2
        (fun item member => own item (by simp [member])) later
      refine ⟨bindings.trans sameBindings, index.trans sameIndex, fun k r => ?_⟩
      rw [records, step, key, List.mem_cons]
      by_cases same : (k, r) = (k₀, r₀)
      · cases same
        have notLater : (k₀, r₀) ∉ tail := fun member => once.1 (List.mem_map.mpr ⟨(k₀, r₀), member, rfl⟩)
        simp [notLater]
      · simp [same]

theorem open_written (s : Store) (now : Nat) (items : List (PubKey × SignedRecord))
    (walk : Map PubKey PubKey → List (PubKey × PubKey)) (consistent : Consistent prim s)
    (order : Finmap.Iterates items s.records) (walks : ∀ m, Finmap.Iterates (walk m) m)
    (fits : ∀ k r, s.records.lookup k = some r → r.Encodable)
    (notFuture : ∀ k r, s.records.lookup k = some r → r.record.issuedAt.toNat ≤ now + maxClockSkew)
    (recordCount : s.records.keys.card < 2 ^ 32) (bindingCount : s.bindings.keys.card < 2 ^ 32) :
    let t := openWith prim walk (some (encodeSnapshot (items.map Prod.snd) s.bindings)) now
    t.bindings = s.bindings ∧ t.identityIndex = s.identityIndex ∧
      ∀ k, t.records.lookup k = (s.records.lookup k).filter (fun r => survives r now) := by
  intro t
  have held : ∀ item ∈ items, s.records.lookup item.1 = some item.2 := fun item member => (order.held _ _).mp member
  have readable : ∀ r ∈ items.map Prod.snd, r.Encodable := by
    intro r member
    obtain ⟨item, inItems, rfl⟩ := List.mem_map.mp member
    exact fits item.1 item.2 (held item inItems)
  have length : (items.map Prod.snd).length < 2 ^ 32 := by
    rw [List.length_map, order.length_eq]
    exact recordCount
  obtain ⟨linked, empty, bindings⟩ := bind_all_new _ s.bindings (walks s.bindings)
  have ready : ∀ item ∈ items, Reloadable prim (bindAll new (walk s.bindings)) item.2 now := by
    intro item member
    have found := held item member
    refine ⟨consistent.valid _ _ found, consistent.verified _ _ found, notFuture _ _ found, ?_, by simp [empty]⟩
    rw [bindings, consistent.own _ _ found]
    exact consistent.bound _ _ found
  have loaded := load_spec prim now items _ linked order.once (fun item member => consistent.own _ _ (held item member)) ready
  have decoded := decode_snapshot_encode prim _ s.bindings readable length bindingCount
  have opened : t = (items.map Prod.snd).foldl (loadRecord prim now) (bindAll new (walk s.bindings)) := by
    simp only [t, openWith, decoded]
  rw [opened]
  refine ⟨loaded.1.trans bindings, loaded.2.1.trans (linked_index_eq _ _ linked consistent.toLinked bindings), ?_⟩
  intro k
  apply Option.ext
  intro r
  rw [loaded.2.2 k r, Option.filter_eq_some_iff, order.held]
  simp [empty]

-- `persist` followed by `open` on the written bytes; `items` is the order in
-- which the hash map of records happened to be walked.
def reopen (s : Store) (items : List (PubKey × SignedRecord)) (now : Nat) : Store :=
  openFrom prim (some (encodeSnapshot (items.map Prod.snd) s.bindings)) now

theorem reopen_spec (s : Store) (now : Nat) (items : List (PubKey × SignedRecord)) (consistent : Consistent prim s)
    (order : Finmap.Iterates items s.records) (fits : ∀ k r, s.records.lookup k = some r → r.Encodable)
    (notFuture : ∀ k r, s.records.lookup k = some r → r.record.issuedAt.toNat ≤ now + maxClockSkew)
    (recordCount : s.records.keys.card < 2 ^ 32) (bindingCount : s.bindings.keys.card < 2 ^ 32) :
    (s.reopen prim items now).bindings = s.bindings ∧ (s.reopen prim items now).identityIndex = s.identityIndex ∧
      ∀ k, (s.reopen prim items now).records.lookup k = (s.records.lookup k).filter (fun r => survives r now) :=
  open_written prim s now items Finmap.ascending consistent order Finmap.ascending_iterates fits notFuture recordCount
    bindingCount

end Sqns.Store
