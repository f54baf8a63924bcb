import Sqns.Publisher
import Sqns.Revoking
import Sqns.Trail

set_option autoImplicit false

namespace Sqns

open Store Trace

namespace Resolver

variable (prim : Primitives) (s : Store) (now : Nat)

-- A trail that comes by a key is the rest of it, unless it gets back there.
theorem ends_behind (old : PubKey) (passed keys : List PubKey) (current : PubKey) (last : SignedRecord)
    (apart : old ∉ passed ++ [current]) :
    Ends prim s now (old :: passed) current keys last ↔
      ∃ rest, keys = old :: rest ∧ Ends prim s now passed current rest last ∧ old ∉ rest ++ [last.key] := by
  apply Iff.intro
  · intro ends
    generalize start : old :: passed = before at ends
    induction ends generalizing passed with
    | here before current record usable ended =>
        have own := (answer_for_key prim s now current record usable.answer).2.2
        exact ⟨passed, start.symm, .here passed current record usable ended, own ▸ apart⟩
    | onward before keys current next record last usable named fresh later ih =>
        rw [← start, List.cons_append, List.mem_cons, not_or] at fresh
        obtain ⟨rest, whole, ends, away⟩ := ih (passed ++ [current])
          (by simp only [List.mem_append, List.mem_singleton] at apart fresh ⊢; grind) (by rw [← start]; rfl)
        exact ⟨rest, whole, .onward passed rest current next record last usable named fresh.2 ends, away⟩
  · rintro ⟨rest, rfl, ends, away⟩
    induction ends with
    | here passed current record usable ended => exact .here _ current record usable ended
    | onward passed keys current next record last usable named fresh later ih =>
        obtain ⟨more, whole⟩ := ends_passes prim s now _ keys next last later
        rw [whole] at away
        have other : next ≠ old := by
          intro same
          exact away (by simp [same])
        refine .onward _ _ current next record last usable named ?_ (ih ?_ (whole ▸ away))
        · rw [List.cons_append, List.mem_cons, not_or]
          exact ⟨other, fresh⟩
        · intro member
          exact away (by simp only [List.mem_append, List.mem_cons] at member ⊢; grind)

theorem successor_kept (record : SignedRecord) (next : PubKey) (named : record.record.successor = some next) :
    record.revocationError prim = none := by
  obtain ⟨reason, body⟩ := Record.successor_body record.record next named
  simp [SignedRecord.revocationError, body]

-- From a superseded key the trail goes on as it does from its successor.
theorem superseded_ends (old new : PubKey) (record last : SignedRecord) (keys : List PubKey)
    (answer : answerFor prim s now old = .ok (some record)) (named : record.record.successor = some new) (other : new ≠ old) :
    Ends prim s now [] old keys last ↔ ∃ rest, keys = old :: rest ∧ Ends prim s now [] new rest last ∧
      old ∉ rest ++ [last.key] := by
  rw [← ends_behind prim s now old [] keys new last (by simpa using other.symm)]
  apply Iff.intro
  · intro ends
    cases ends with
    | here _ _ _ usable ended =>
        have same : record = last := Option.some.inj (Except.ok.inj (answer.symm.trans usable.answer))
        rw [← same, named] at ended
        cases ended
    | onward _ _ _ next found _ usable following fresh later =>
        have same : record = found := Option.some.inj (Except.ok.inj (answer.symm.trans usable.answer))
        rw [← same, named, Option.some.injEq] at following
        exact following ▸ later
  · intro ends
    exact .onward [] keys old new record last ⟨answer, successor_kept prim record new named⟩ named (by simpa using other) ends

theorem superseded_trail (old new : PubKey) (record last : SignedRecord) (keys : List PubKey)
    (answer : answerFor prim s now old = .ok (some record)) (named : record.record.successor = some new) (other : new ≠ old) :
    trail prim s now old maxSupersedeHops [] old = .ok (keys, last) ↔
      ∃ rest, keys = old :: rest ∧ trail prim s now new maxSupersedeHops [] new = .ok (rest, last) ∧
        rest.length + 1 < maxSupersedeHops ∧ old ∉ rest ++ [last.key] := by
  rw [trail_ok_iff, superseded_ends prim s now old new record last keys answer named other]
  apply Iff.intro
  · rintro ⟨⟨rest, rfl, ends, away⟩, few⟩
    rw [List.length_cons, List.length_nil, Nat.zero_add] at few
    exact ⟨rest, rfl, (trail_ok_iff _ _ _ _ _ _ _ _ _).mpr ⟨ends, by simp; omega⟩, few, away⟩
  · rintro ⟨rest, rfl, onward, few, away⟩
    exact ⟨⟨rest, rfl, ((trail_ok_iff _ _ _ _ _ _ _ _ _).mp onward).1, away⟩, by simpa using few⟩

theorem located_ok_iff (requested : PubKey) (draws : Draws) (ends : Except Error (List PubKey × SignedRecord))
    (found : ServiceLocation) : ends.map (locationOf requested draws) = .ok found ↔
      ∃ keys last, ends = .ok (keys, last) ∧ found = locationOf requested draws (keys, last) := by
  cases ends with
  | error e => simp [Except.map]
  | ok pair =>
      obtain ⟨keys, last⟩ := pair
      simp [Except.map, eq_comm]

end Resolver

section Command

variable (prim : Primitives) (debug : Response → String) (site : Server) (identity : SigningKey) (reason : String)
  (visit : Visit)

def signSuccession (old new : PubKey) (now : Nat) : Except Error SignedRecord :=
  (Record.superseded old (retirementDelegation identity old now) (UInt64.ofNat now) new reason (UInt64.ofNat now)).sign
    prim identity

-- As with `revoke`, a command that fails says nothing about the store.
def supersede (r : Resolver) (old new : PubKey) (s : Store) : Except Error Store := do
  let arrived := visit.arrive s
  let record ← signSuccession prim identity reason old new visit.asked
  let published := r.publish prim debug record (visit.exchange prim site arrived)
  let _ ← published.1
  pure (visit.handled prim site arrived (.publish record)).store

-- The record the command signs.
def handover (old new : PubKey) (now : Nat) : SignedRecord :=
  let record := Record.superseded old (retirementDelegation identity old now) (UInt64.ofNat now) new reason (UInt64.ofNat now)
  ⟨record, identity.sign (signedMessage record.encode)⟩

theorem handover_signed (old new : PubKey) (now : Nat) :
    signSuccession prim identity reason old new now = .ok (handover identity reason old new now) := by
  unfold signSuccession Record.sign
  rw [if_neg (by simp [Record.superseded, Record.expectedSigner, Record.identity, retirementDelegation, Delegation.issue])]
  rfl

variable (address : String) (r : Resolver) (single : r.config.servers = [address]) (old new : PubKey) (s s' : Store)

include single in
-- What the command leaves is the store with its record taken in.
theorem supersede_accepted (done : supersede prim debug site identity reason visit r old new s = .ok s') :
    Accepted prim (visit.arrive s) (handover identity reason old new visit.asked) visit.served ∧
      s' = (visit.arrive s).accept (handover identity reason old new visit.asked) := by
  obtain ⟨record, signed, continued⟩ := (then_ok _ _ _).mp done
  rw [handover_signed, Except.ok.injEq] at signed
  subst signed
  obtain ⟨serial, published, finished⟩ := (then_ok _ _ _).mp continued
  have accepted := publish_accepted prim debug site address visit _ r _ serial single published
  refine ⟨accepted, ?_⟩
  cases finished
  simp only [Visit.handled, Server.handle, Server.handlePublish, put_accepted prim _ _ _ accepted]

theorem sweep_sound (now : Nat) (w : World) (sound : Sound prim w) : Sound prim ⟨w.now, (w.store.purgeExpired now).2⟩ := by
  refine ⟨purge_consistent prim w.store now sound.consistent, ?_, ?_⟩
  · intro k r held
    rw [purge_records_lookup, Option.filter_eq_some_iff] at held
    exact sound.wire k r held.1
  · intro k r held
    rw [purge_records_lookup, Option.filter_eq_some_iff] at held
    exact sound.notFuture k r held.1

theorem arrive_sound (now : Nat) (sound : Sound prim ⟨now, s⟩) : Sound prim ⟨now, visit.arrive s⟩ := by
  unfold Visit.arrive
  induction visit.sweeps generalizing s with
  | nil => exact sound
  | cons t rest ih => exact ih _ (sweep_sound prim t ⟨now, s⟩ sound)

theorem superseded_valid_iff (record : Record) (body : record.body = .superseded new reason) :
    record.validate prim = .ok () ↔ record.key.verifyingKey prim = .ok () ∧ record.identity.verifyingKey prim = .ok () ∧
      record.identity ≠ record.key ∧ new.verifyingKey prim = .ok () ∧ new ≠ record.key ∧
        reason.utf8ByteSize ≤ maxReasonLen := by
  have checked : checkReason reason = .ok () ↔ reason.utf8ByteSize ≤ maxReasonLen := by
    unfold checkReason
    split
    · rename_i long
      exact iff_of_false (by simp) (Nat.not_le.mpr long)
    · rename_i short
      exact iff_of_true rfl (Nat.le_of_not_gt short)
  simp only [Record.validate, body, then_ok, unless_ok, checked, Record.identity]
  apply Iff.intro
  · rintro ⟨_, key, _, identity, apart, _, following, rest⟩
    exact ⟨key, identity, apart, following, rest⟩
  · rintro ⟨key, identity, apart, following, rest⟩
    exact ⟨_, key, _, identity, apart, _, following, rest⟩

theorem handover_encodable (now : Nat) (valid : (handover identity reason old new now).record.validate prim = .ok ()) :
    (handover identity reason old new now).Encodable ∧ new ≠ old := by
  obtain ⟨_, _, _, _, other, short⟩ := (superseded_valid_iff prim reason new _ rfl).mp valid
  have cap : maxReasonLen = 256 := rfl
  refine ⟨⟨?_, ?_⟩, other⟩
  · change reason.utf8ByteSize < 2 ^ 16
    omega
  · rw [Record.encode_length]
    change 157 + (bodySuperseded :: (new.bytes.toList ++ putString reason)).length < 2 ^ 16
    simp only [List.length_cons, List.length_append, putString, ByteReader.to_be_length, utf8_bytes_length,
      List.Vector.toList_length]
    omega

include single in
theorem supersede_sound (sound : Sound prim ⟨visit.served, s⟩)
    (done : supersede prim debug site identity reason visit r old new s = .ok s') :
    Sound prim ⟨visit.served, s'⟩ ∧ s'.records.lookup old = some (handover identity reason old new visit.asked) ∧
      new ≠ old := by
  obtain ⟨accepted, rfl⟩ := supersede_accepted prim debug site identity reason visit address r single old new s s' done
  obtain ⟨encodable, other⟩ := handover_encodable prim identity reason old new visit.asked accepted.admitted.valid
  have step : Step prim ⟨visit.served, visit.arrive s⟩ (.put ⟨_, (wire_iff_encodable prim _).mpr encodable⟩ _) _ := .put _ _
  simp only [put_accepted prim _ _ _ accepted] at step
  refine ⟨step_sound prim _ _ _ step (arrive_sound prim visit s visit.served sound), ?_, other⟩
  exact (accept_records_lookup _ _ old).trans (if_pos rfl)

end Command

-- What the two keys, the identity and the reason have to be, and what the
-- server must not know yet.
structure Supersedable (prim : Primitives) (identity : PubKey) (reason : String) (old new : PubKey) (s : Store) : Prop where
  oldKey : old.verifyingKey prim = .ok ()
  identityKey : identity.verifyingKey prim = .ok ()
  newKey : new.verifyingKey prim = .ok ()
  apart : identity ≠ old
  moved : new ≠ old
  short : reason.utf8ByteSize ≤ maxReasonLen
  bound : ∀ bound, s.bindings.lookup old = some bound → identity = bound
  open_ : ¬ Retired s old

theorem publish_reached (prim : Primitives) (debug : Response → String) (site : Server) (visit : Visit) (address : String)
    (r : Resolver) (single : r.config.servers = [address]) (s : Store) (record : SignedRecord) (serial : UInt64)
    (ok : (r.publish prim debug record (visit.exchange prim site s)).1 = .ok serial) : visit.lost = none := by
  unfold Resolver.publish at ok
  cases checked : record.verifyAnswer prim record.key (visit.exchange prim site s).asked with
  | error e =>
      rw [checked] at ok
      cases ok
  | ok _ =>
      rw [checked, single] at ok
      obtain ⟨expiresAt, reply⟩ := count_accepted debug address _ _ serial rfl (publish_outcome_ok _ serial ok)
      simp only [Visit.exchange] at reply
      split at reply
      · cases reply
      · assumption

section Success

variable (prim : Primitives) (identity : SigningKey) (reason : String) (old new : PubKey) (s : Store)
  (genuine : ∀ message, prim.verify identity.publicKey message (identity.sign message) = true)

include genuine in
theorem handover_verified (asked : Nat) (point : identity.publicKey.verifyingKey prim = .ok ()) :
    (handover identity reason old new asked).verify prim = .ok () := by
  have granted : (handover identity reason old new asked).record.delegation.verify prim old = .ok () :=
    (then_ok _ _ _).mpr ⟨(), point, if_pos (genuine _)⟩
  exact (then_ok _ _ _).mpr ⟨(), granted, (then_ok _ _ _).mpr ⟨(), point, if_pos (genuine _)⟩⟩

theorem handover_valid_iff (asked : Nat) :
    (handover identity reason old new asked).record.validate prim = .ok () ↔ old.verifyingKey prim = .ok () ∧
      identity.publicKey.verifyingKey prim = .ok () ∧ identity.publicKey ≠ old ∧ new.verifyingKey prim = .ok () ∧ new ≠ old ∧
        reason.utf8ByteSize ≤ maxReasonLen :=
  superseded_valid_iff prim reason new _ rfl

theorem not_retired_iff : ¬ Retired s old ↔ ∀ held, s.records.lookup old = some held → held.record.isTerminal = false := by
  simp only [Retired, not_exists, not_and, Bool.not_eq_true]

-- A retirement goes in over every record that is not one.
theorem handover_newer_iff (asked : Nat) :
    (∀ held, s.records.lookup old = some held → (handover identity reason old new asked).record.supersedes held.record = true) ↔
      ¬ Retired s old := by
  rw [not_retired_iff]
  have terminal : (handover identity reason old new asked).record.isTerminal = true := rfl
  simp only [Record.supersedes_iff, terminal, true_or, and_true]

include genuine in
theorem handover_accepted_iff (asked served : Nat) (clock : asked < 2 ^ 64) :
    Accepted prim s (handover identity reason old new asked) served ↔
      Supersedable prim identity.publicKey reason old new s ∧ asked ≤ served + maxClockSkew := by
  have dated : (handover identity reason old new asked).record.issuedAt.toNat = asked := UInt64.toNat_ofNat_of_lt' clock
  have fresh := Record.terminal_not_expired (handover identity reason old new asked).record served rfl
  apply Iff.intro
  · intro accepted
    obtain ⟨oldKey, identityKey, apart, newKey, moved, short⟩ :=
      (handover_valid_iff prim identity reason old new asked).mp accepted.admitted.valid
    refine ⟨⟨oldKey, identityKey, newKey, apart, moved, short, accepted.pinned, ?_⟩, dated ▸ accepted.admitted.notFuture⟩
    exact (handover_newer_iff identity reason old new s asked).mp accepted.newer
  · rintro ⟨fits, soon⟩
    have valid := (handover_valid_iff prim identity reason old new asked).mpr
      ⟨fits.oldKey, fits.identityKey, fits.apart, fits.newKey, fits.moved, fits.short⟩
    exact ⟨⟨valid, handover_verified prim identity reason old new genuine asked fits.identityKey,
        Nat.le_trans (Nat.le_of_eq dated) soon, fresh, .inl rfl⟩,
      fits.bound, (handover_newer_iff identity reason old new s asked).mpr fits.open_⟩

include genuine in
-- The command reports success exactly when the one server is reached, has taken
-- no retirement of the key and has no other identity pinned to it.
theorem supersede_succeeds_iff (debug : Response → String) (site : Server) (visit : Visit) (address : String) (r : Resolver)
    (single : r.config.servers = [address]) (clock : visit.asked < 2 ^ 64) :
    (∃ s', supersede prim debug site identity reason visit r old new s = .ok s') ↔
      visit.lost = none ∧ Supersedable prim identity.publicKey reason old new s ∧
        visit.asked ≤ visit.served + maxClockSkew := by
  have accepts := handover_accepted_iff prim identity reason old new (visit.arrive s) genuine visit.asked visit.served clock
  have swept : Supersedable prim identity.publicKey reason old new (visit.arrive s) ↔
      Supersedable prim identity.publicKey reason old new s := by
    have bindings := Visit.arrive_bindings visit s
    have retired := Visit.arrive_retired_iff visit s old
    exact ⟨fun fits => { fits with bound := bindings ▸ fits.bound, open_ := fun gone => fits.open_ (retired.mpr gone) },
      fun fits => { fits with bound := bindings ▸ fits.bound, open_ := fun gone => fits.open_ (retired.mp gone) }⟩
  rw [swept] at accepts
  apply Iff.intro
  · rintro ⟨s', done⟩
    have accepted := (supersede_accepted prim debug site identity reason visit address r single old new s s' done).1
    obtain ⟨record, _, continued⟩ := (then_ok _ _ _).mp done
    obtain ⟨serial, published, _⟩ := (then_ok _ _ _).mp continued
    exact ⟨publish_reached prim debug site visit address r single _ record serial published, accepts.mp accepted⟩
  · rintro ⟨reached, fits⟩
    have accepted := accepts.mpr fits
    have fresh := Record.terminal_not_expired (handover identity reason old new visit.asked).record visit.asked rfl
    have answers : (handover identity reason old new visit.asked).verifyAnswer prim old visit.asked = .ok () := by
      rw [verify_answer_iff, survives_iff]
      exact ⟨rfl, accepted.admitted.verified, accepted.admitted.valid, fresh, .inl rfl⟩
    have reply : (visit.exchange prim site (visit.arrive s)).reply 0 (.publish (handover identity reason old new visit.asked)) =
        .ok (.published (handover identity reason old new visit.asked).record.serial
          (UInt64.ofNat (handover identity reason old new visit.asked).record.expiresAt)) := by
      simp only [Visit.exchange, reached, Visit.handled, Server.handle, Server.handlePublish, put_accepted prim _ _ _ accepted]
    have published := Publisher.publish_stored prim debug r (handover identity reason old new visit.asked) address single _ _
      (visit.exchange prim site (visit.arrive s)) answers reply
    refine ⟨(visit.handled prim site (visit.arrive s) (.publish (handover identity reason old new visit.asked))).store, ?_⟩
    rw [supersede, handover_signed]
    exact (then_ok _ _ _).mpr ⟨_, rfl, (then_ok _ _ _).mpr ⟨_, by rw [published], rfl⟩⟩

end Success

theorem retired_stays (prim : Primitives) (k : PubKey) (held : SignedRecord) (terminal : held.record.isTerminal = true)
    (w w' : World) (run : List (Transition World (Event prim))) (whole : Run (Step prim) w run w') (sound : Sound prim w)
    (found : w.store.records.lookup k = some held) :
    (Sound prim w' ∧ w'.store.records.lookup k = some held) ∧ ∀ move ∈ run, ∀ x result, move.label = .put x result →
      x.signed.key = k → (∃ e, result = .error e) ∧ move.post.store = move.pre.store := by
  let inv : World → Prop := fun u => Sound prim u ∧ u.store.records.lookup k = some held
  have kept : ∀ (u : World) (e : Event prim) (v : World), Step prim u e v → True → inv u → inv v :=
    fun u e v step _ both => ⟨step_sound prim u v e step both.1,
      step_keeps_retired prim k held u v e both.1 step both.2 terminal⟩
  refine ⟨run_invariant inv (fun _ => True) kept (fun _ _ => trivial) whole ⟨sound, found⟩, ?_⟩
  intro move member x result label own
  obtain ⟨before, step, _⟩ := run_move_invariant inv (fun _ => True) kept (fun _ _ => trivial) whole ⟨sound, found⟩ move member
  rw [label] at step
  exact step_refuses_retired prim k held move.pre move.post x result step before.2 terminal own

theorem held_terminal_answers (prim : Primitives) (w : World) (sound : Sound prim w) (k : PubKey) (held : SignedRecord)
    (found : w.store.records.lookup k = some held) (terminal : held.record.isTerminal = true) :
    Resolver.answerFor prim w.store w.now k = .ok (some held) := by
  have fresh := Record.terminal_not_expired held.record w.now terminal
  have own := sound.consistent.own k held found
  refine Resolver.answer_for_held prim w.store w.now k held (by simp [Store.get, found, fresh]) ?_
  rw [verify_answer_iff, survives_iff]
  exact ⟨own, sound.consistent.verified k held found, sound.consistent.valid k held found, fresh, .inl terminal⟩

-- A key that has been superseded is closed for good, and resolves as the key it
-- was superseded by does, short of one hop and of coming back.
theorem superseded_key_resolves_onward (prim : Primitives) (debug : Response → String) (site : Server) (identity : SigningKey)
    (reason : String) (visit : Visit) (address : String) (r : Resolver) (single : r.config.servers = [address])
    (old new : PubKey) (s s' : Store) (sound : Sound prim ⟨visit.served, s⟩)
    (done : supersede prim debug site identity reason visit r old new s = .ok s') (w : World)
    (run : List (Transition World (Event prim))) (later : Run (Step prim) ⟨visit.served, s'⟩ run w) (config : ResolverConfig)
    (client : Resolver) (created : Resolver.new config = .ok client) (alone : config.servers.length = 1)
    (network : Nat → Exchange) (present : ∀ i, Resolver.Present w.store w.now (network i)) (draws : Draws) :
    (∀ move ∈ run, ∀ x result, move.label = .put x result → x.signed.key = old →
      (∃ e, result = .error e) ∧ move.post.store = move.pre.store) ∧
    ∀ found, (client.resolveService prim debug old network draws).1 = .ok found ↔
      ∃ onward, (client.resolveService prim debug new network draws).1 = .ok onward ∧
        onward.supersededFrom.length + 1 < maxSupersedeHops ∧ old ∉ onward.supersededFrom ++ [onward.key] ∧
        found = { onward with requested := old, supersededFrom := old :: onward.supersededFrom } := by
  obtain ⟨sound', held, other⟩ := supersede_sound prim debug site identity reason visit address r single old new s s' sound done
  obtain ⟨⟨sound'', kept⟩, refused⟩ := retired_stays prim old _ rfl _ w run later sound' held
  refine ⟨refused, ?_⟩
  have answer := held_terminal_answers prim w sound'' old (handover identity reason old new visit.asked) kept rfl
  have synced : Resolver.Synced prim w.store w.now client := by
    rw [Resolver.new_ok config client created]
    exact Resolver.fresh_synced prim w.store w.now config alone
  have onward := Resolver.resolve_trail prim debug w.store w.now client synced new network present draws
  intro found
  rw [Resolver.resolve_trail prim debug w.store w.now client synced old network present draws, onward]
  simp only [Resolver.located_ok_iff]
  apply Iff.intro
  · rintro ⟨keys, last, ends, rfl⟩
    obtain ⟨rest, rfl, rests, few, away⟩ :=
      (Resolver.superseded_trail prim w.store w.now old new _ last keys answer rfl other).mp ends
    exact ⟨_, ⟨rest, last, rests, rfl⟩, few, away, rfl⟩
  · rintro ⟨_, ⟨rest, last, rests, rfl⟩, few, away, rfl⟩
    exact ⟨old :: rest, last, (Resolver.superseded_trail prim w.store w.now old new _ last _ answer rfl other).mpr
      ⟨rest, rfl, rests, few, away⟩, rfl⟩

section Sample

open Sample Resolver

-- What `supersede` signs for `node` at 1000, with `spare` as the key to go to.
def moving : SignedRecord := ⟨Record.superseded node minted 1000 spare "moved" 1000,
  signature 0xb38a0e0a0e5fdb37490b1163d6e994f4e3bce86209e196da6be9b5c96d3f749f
    0xe0f767b522de91dc27855db63ce669f40910fa59f2f2619269fe01d9729a120c⟩

def mover : SigningKey := ⟨alice, fun message =>
  if message = Delegation.signedMessage alice node 7777000 then minted.signature else moving.signature⟩

def aliceSigns : Primitives := { ed25519 with
  verify := fun key message signature =>
    ed25519.verify key message signature || (decide (key = alice) && decide (signature = mover.sign message)) }

theorem mover_genuine (message : Bytes) : aliceSigns.verify mover.publicKey message (mover.sign message) = true := by
  simp [aliceSigns, mover]

def answering (s : Store) : Exchange :=
  ⟨1000, 1000, 1000, fun _ request =>
    match request with
    | .lookup key recurse => .ok (served s key recurse 1000)
    | _ => .error (.protocol "only lookups")⟩

theorem node_supersedable : Supersedable aliceSigns alice "moved" node spare Store.new where
  oldKey := by decide +kernel
  identityKey := by decide +kernel
  newKey := by decide +kernel
  apart := by decide +kernel
  moved := by decide +kernel
  short := by decide +kernel
  bound := by simp [Store.new]
  open_ := by simp [Retired, Store.new]

theorem supersede_succeeds_iff_moved :
    ∃ s', supersede aliceSigns (fun _ => "") alone mover "moved" (promptly 1000 0) client node spare Store.new = .ok s' :=
  (supersede_succeeds_iff aliceSigns mover "moved" node spare Store.new mover_genuine (fun _ => "") alone (promptly 1000 0)
    "sqc://ns" client rfl (by decide)).mpr ⟨rfl, node_supersedable, by decide⟩

theorem superseded_key_resolves_onward_moved :
    ∃ s', supersede aliceSigns (fun _ => "") alone mover "moved" (promptly 1000 0) client node spare Store.new = .ok s' ∧
      ∀ found, (oneServer.resolveService aliceSigns (fun _ => "") node (fun _ => answering s') firstDraw).1 = .ok found ↔
        ∃ onward, (oneServer.resolveService aliceSigns (fun _ => "") spare (fun _ => answering s') firstDraw).1 = .ok onward ∧
          onward.supersededFrom.length + 1 < maxSupersedeHops ∧ node ∉ onward.supersededFrom ++ [onward.key] ∧
          found = { onward with requested := node, supersededFrom := node :: onward.supersededFrom } := by
  have reached : (supersede aliceSigns (fun _ => "") alone mover "moved" (promptly 1000 0) client node spare Store.new).map
      (fun s => (s.records.lookup node).isSome) = .ok true := by decide +kernel
  cases done : supersede aliceSigns (fun _ => "") alone mover "moved" (promptly 1000 0) client node spare Store.new with
  | error e =>
      rw [done] at reached
      cases reached
  | ok s' =>
      refine ⟨s', rfl, ?_⟩
      exact (superseded_key_resolves_onward aliceSigns (fun _ => "") alone mover "moved" (promptly 1000 0) "sqc://ns" client rfl
        node spare Store.new s' (fresh_sound aliceSigns 1000) done ⟨1000, s'⟩ [] (.nil _) oneServer.config oneServer rfl rfl
        (fun _ => answering s') (fun _ => ⟨rfl, rfl, rfl, fun _ _ _ => rfl⟩) firstDraw).2

end Sample

end Sqns
