import Sqns.Link
import Sqns.Publisher

set_option autoImplicit false

namespace Sqns

open Store Trace

-- Of seconds: a third of the lifetime.
def Publisher.refreshInterval {prim : Primitives} (p : Publisher prim) : Nat := max (p.ttl.toNat / 3) 10

namespace Refreshing

open Publisher Link

variable {prim : Primitives} (debug : Response → String) (p : Publisher prim)

-- `Publisher::run` beside one server. The publisher keeps all its fields but the
-- counter. `due` is when the ticker fires next, `last` when a refresh reached
-- the server for the last time, heard of or not, and `lost` how many have not since.
structure State where
  serial : UInt64
  resolver : Resolver
  world : World
  due : Nat
  lost : Nat
  last : Option Nat

def holding (serial : UInt64) : Publisher prim := { p with serial := serial }

@[simp] theorem holding_endpoints (serial : UInt64) : (holding p serial).endpoints = p.endpoints := rfl

def clock (s : State) : UInt64 := UInt64.ofNat s.world.now

def refresh (fates : Fates) (s : State) : Published prim :=
  (holding p s.serial).publish debug fates s.resolver s.world.store (fun _ => clock s)

-- Whether the server is given the first record at all.
def reaches (fates : Fates) : Bool := decide (0 < fates.first.deliveries)

inductive Event (prim : Primitives) where
  | tick (later : Nat)
  | refresh (fates : Fates) (outcome : Except Error UInt64)
  | server (e : Sqns.Event prim)

-- Publishing takes no time: the clock only moves with `tick`.
inductive Step : State → Event prim → State → Prop where
  | tick (s : State) (later : Nat) (forward : s.world.now ≤ later) :
      Step s (.tick later) { s with world := ⟨later, s.world.store⟩ }
  | refresh (s : State) (now : s.due ≤ s.world.now) (fates : Fates) :
      Step s (.refresh fates (refresh debug p fates s).outcome) ⟨(refresh debug p fates s).publisher.serial,
        (refresh debug p fates s).resolver, ⟨s.world.now, (refresh debug p fates s).store⟩, s.world.now + p.refreshInterval,
        if reaches fates then 0 else s.lost + 1, if reaches fates then some s.world.now else s.last⟩
  | server (s : State) (e : Sqns.Event prim) (after : World) (step : Sqns.Step prim s.world e after)
      (still : after.now = s.world.now) : Step s (.server e) { s with world := after }

def start (r : Resolver) (w : World) : State := ⟨p.serial, r, w, w.now, 0, none⟩

-- Nobody else publishes for the key.
def Alone (move : Transition State (Event prim)) : Prop :=
  ∀ e, move.label = .server e → Quiet prim p.key e

-- No tick comes late.
def Punctual (move : Transition State (Event prim)) : Prop :=
  ∀ later, move.label = .tick later → later ≤ move.pre.due

-- The counter and the clock are far from the end of their ranges, and the
-- delegation has not run out.
structure Usual (s : State) : Prop where
  serial : s.serial.toNat + 1 < u64Max
  clock : s.world.now + maxTtl.toNat < u64Max
  delegated : p.delegation.isExpired s.world.now = false

def signedAt (serial : UInt64) (issued : Nat) : SignedRecord := (holding p serial).signed p.endpoints (UInt64.ofNat issued)

theorem quiet_lookup (k : PubKey) (w w' : World) (e : Sqns.Event prim) (sound : Sound prim w) (step : Sqns.Step prim w e w')
    (quiet : Quiet prim k e) (held : SignedRecord) (found : w'.store.records.lookup k = some held) :
    w.store.records.lookup k = some held := by
  cases step_change prim k w w' e sound step with
  | kept e same refused => exact same.symm.trans found
  | stored x own accepted now => exact absurd own quiet
  | dropped e r _ gone _ =>
      rw [gone] at found
      cases found

theorem quiet_binding (k : PubKey) (w w' : World) (e : Sqns.Event prim) (sound : Sound prim w) (step : Sqns.Step prim w e w')
    (quiet : Quiet prim k e) : w'.store.bindings.lookup k = w.store.bindings.lookup k := by
  cases step with
  | tick later forward => rfl
  | put record => exact (put_other_key prim w.store record.signed w.now k (fun same => quiet same.symm)).2
  | purge => simp
  | reopen items order recordCount bindingCount =>
      have spec := reopen_spec prim w.store w.now items sound.consistent order sound.wire sound.notFuture recordCount
        bindingCount
      simp only [spec.1]

section Run

variable (address : String) (valid : (p.draft p.endpoints 0).validate prim = .ok ())
  (fits : Fits p.endpoints)
  (genuine : ∀ message, prim.verify p.key message (p.signingKey.sign message) = true)

include valid in
theorem interval_fits : 3 * p.refreshInterval ≤ p.ttl.toNat ∧ p.ttl.toNat ≤ maxTtl.toNat ∧ 0 < p.refreshInterval := by
  obtain ⟨least, most⟩ : minTtl.toNat ≤ p.ttl.toNat ∧ p.ttl.toNat ≤ maxTtl.toNat :=
    Record.live_ttl prim (p.draft p.endpoints 0) p.endpoints rfl valid
  have thirty : minTtl.toNat = 30 := rfl
  have third : p.refreshInterval = p.ttl.toNat / 3 := max_eq_left (by omega)
  rw [third]
  omega

include valid fits in
theorem signed_encodable (serial : UInt64) (issued : Nat) : (signedAt p serial issued).Encodable :=
  (live_encodable_iff prim (signedAt p serial issued) p.endpoints rfl valid).mpr fits

-- A live record with a smaller serial, or none, and the last one that arrived
-- for as long as the server would take it.
structure Kept (s : State) : Prop where
  sound : Sound prim s.world
  single : s.resolver.config.servers = [address]
  alive : ∀ held, s.world.store.records.lookup p.key = some held → held.record.isTerminal = false
  pinned : ∀ bound, s.world.store.bindings.lookup p.key = some bound → p.delegation.identity = bound
  older : ∀ held, s.world.store.records.lookup p.key = some held → held.record.serial.toNat < s.serial.toNat
  shown : ∀ issued, s.last = some issued → issued ≤ s.world.now ∧ ∃ serial, Stays (signedAt p serial issued) s.world

theorem instant_round_trip (now : Nat) (range : now + maxTtl.toNat < u64Max) : (UInt64.ofNat now).toNat = now := by
  have top : u64Max < UInt64.size := by decide
  exact UInt64.toNat_ofNat_of_lt' (by omega)

include valid in
theorem signed_lasts (serial : UInt64) (issued later : Nat) (range : issued + maxTtl.toNat < u64Max)
    (soon : later < issued + p.ttl.toNat) (delegated : p.delegation.isExpired later = false) :
    Lasts (signedAt p serial issued).record later := by
  have now := instant_round_trip issued range
  have few := (interval_fits p valid).2.1
  refine ⟨?_, delegated⟩
  have ends : (signedAt p serial issued).record.expiresAt = min ((UInt64.ofNat issued).toNat + p.ttl.toNat) u64Max := rfl
  have live : (signedAt p serial issued).record.isTerminal = false := rfl
  rw [Record.isExpired, ends, live, now]
  simp only [Bool.not_false, Bool.true_and, decide_eq_false_iff_not]
  omega

include valid in
theorem refresh_signs (serial : UInt64) (s : State) : (holding p serial).sign p.endpoints (clock s) =
    (.ok (signedAt p serial s.world.now), holding p (serial + 1)) :=
  sign_ok prim p p.endpoints valid serial (clock s)

-- A record of this publisher's, signed now, that the store has taken over all it held.
structure Landed (s : State) (serial : UInt64) (store : Store) : Prop where
  sound : Sound prim ⟨s.world.now, store⟩
  held : store.records.lookup p.key = some (signedAt p serial s.world.now)
  bound : store.bindings.lookup p.key = some p.delegation.identity

include valid fits genuine in
theorem newer_lands (s : State) (usual : Usual p s) (store : Store) (serial : UInt64) (sound : Sound prim ⟨s.world.now, store⟩)
    (alive : ∀ held, store.records.lookup p.key = some held → held.record.isTerminal = false)
    (pinned : ∀ bound, store.bindings.lookup p.key = some bound → p.delegation.identity = bound)
    (older : ∀ held, store.records.lookup p.key = some held → held.record.serial.toNat < serial.toNat) :
    Ready prim store (signedAt p serial s.world.now) ∧ Lasts (signedAt p serial s.world.now).record s.world.now ∧
      (∀ held, store.records.lookup p.key = some held →
        (signedAt p serial s.world.now).record.supersedes held.record = true) ∧
      Landed p s serial (store.accept (signedAt p serial s.world.now)) := by
  have now : (clock s).toNat = s.world.now := instant_round_trip s.world.now usual.clock
  have interval := interval_fits p valid
  have lasts := signed_lasts p valid serial s.world.now s.world.now usual.clock (by omega) usual.delegated
  have ready : Ready prim store (signedAt p serial s.world.now) :=
    signed_ready prim p p.endpoints valid genuine store serial (clock s) alive pinned
  have newer : ∀ held, store.records.lookup p.key = some held →
      (signedAt p serial s.world.now).record.supersedes held.record = true := fun held found =>
    (draft_supersedes_iff prim (holding p serial) p.endpoints (clock s) held.record (alive held found)).mpr
      (.inl (older held found))
  have accepted : Accepted prim store (signedAt p serial s.world.now) s.world.now :=
    ⟨ready_admitted prim store _ s.world.now ready (Nat.le_of_eq now) lasts, ready.pinned, newer⟩
  let wire : WireRecord prim :=
    ⟨signedAt p serial s.world.now, (wire_iff_encodable prim _).mpr (signed_encodable p valid fits serial s.world.now)⟩
  have step : Sqns.Step prim ⟨s.world.now, store⟩ _ _ := .put ⟨s.world.now, store⟩ wire
  rw [put_accepted prim store wire.signed s.world.now accepted] at step
  exact ⟨ready, lasts, newer, step_sound prim _ _ _ step sound,
    (accept_records_lookup store _ p.key).trans (if_pos rfl), (accept_bound store _ p.key ready.pinned).trans (if_pos rfl)⟩

-- What one refresh leaves behind, whatever becomes of its requests.
structure Refreshed (s : State) (fates : Fates) (done : Published prim) : Prop where
  config : done.resolver.config = s.resolver.config
  counter : s.serial.toNat < done.publisher.serial.toNat
  close : done.publisher.serial.toNat ≤ s.serial.toNat + 2
  heard : fates.first = .heard → done.outcome = .ok s.serial
  missed : reaches fates = false → done.store = s.world.store ∧ ∀ serial, done.outcome ≠ .ok serial
  reached : reaches fates = true → ∃ serial, serial.toNat < done.publisher.serial.toNat ∧ Landed p s serial done.store ∧
    ∀ other, done.outcome = .ok other → other = serial

theorem raised (serial : UInt64) (range : serial.toNat < u64Max) : (serial + 1).toNat = serial.toNat + 1 := by
  rw [UInt64.toNat_add]
  exact Nat.mod_eq_of_lt (Nat.add_lt_of_lt_sub range)

theorem adopted_counter (serial : UInt64) (range : serial.toNat + 1 < u64Max) :
    (holding p (serial + 1)).fetchMax (saturatingAdd serial 1) = holding p (serial + 1) := by
  have next : (saturatingAdd serial 1).toNat = serial.toNat + 1 := by
    rw [saturatingAdd, UInt64.toNat_ofNat_of_lt' (Nat.lt_of_le_of_lt (Nat.min_le_right _ _) (by decide))]
    exact Nat.min_eq_left (Nat.le_of_lt range)
  have notLess : ¬ serial + 1 < saturatingAdd serial 1 := by
    rw [UInt64.lt_iff_toNat_lt, raised serial (Nat.lt_of_succ_lt range), next]
    exact Nat.lt_irrefl _
  exact congrArg (holding p) (if_neg notLess)

include valid fits genuine in
-- The retry after a reply that was lost: the first record is what is held, and the second is one above it.
theorem retry_refreshed (s : State) (usual : Usual p s) (after : Resolver) (single : after.config.servers = [address])
    (unknown : after.cache.lookup p.key = none) (lookup second : Fate)
    (landed : Landed p s s.serial (s.world.store.accept (signedAt p s.serial s.world.now))) :
    let store := s.world.store.accept (signedAt p s.serial s.world.now)
    let next := holding p (s.serial + 1)
    (∃ e last, next.adoptNetworkSerial debug lookup after store s.world.now s.world.now s.world.now = (.error e, next, last) ∧
      last.config = after.config) ∨
    ∃ adopted outcome last serial left,
      next.adoptNetworkSerial debug lookup after store s.world.now s.world.now s.world.now = (.ok (), next, adopted) ∧
        send prim debug second adopted store (signedAt p (s.serial + 1) s.world.now) s.world.now s.world.now =
          (outcome, last, left) ∧
        last.config = after.config ∧ Landed p s serial left ∧ serial.toNat < s.serial.toNat + 2 ∧
        (∀ other, outcome = .ok other → other = serial) := by
  intro store next
  have range := usual.serial
  have now : (clock s).toNat = s.world.now := instant_round_trip s.world.now usual.clock
  have interval := interval_fits p valid
  have fresh := signed_lasts p valid s.serial s.world.now s.world.now usual.clock (by omega) usual.delegated
  have shown : store.get p.key s.world.now = some (signedAt p s.serial s.world.now) := by
    simp [Store.get, store, landed.held, fresh.1]
  have one : after.config.servers.length = 1 := by simp [single]
  obtain ⟨adopted, same, ⟨e, refused⟩ | taken⟩ := adopt_cases prim debug next lookup after store s.world.now s.world.now
    s.world.now one unknown _ shown
  · exact .inl ⟨e, adopted, refused, same⟩
  · have counter : next.fetchMax (saturatingAdd (signedAt p s.serial s.world.now).record.serial 1) = next :=
      adopted_counter p s.serial range
    rw [counter] at taken
    have alive : ∀ held, store.records.lookup p.key = some held → held.record.isTerminal = false := by
      intro held found
      rw [landed.held, Option.some.injEq] at found
      exact found ▸ rfl
    have pinned : ∀ bound, store.bindings.lookup p.key = some bound → p.delegation.identity = bound := by
      intro bound found
      rw [landed.bound, Option.some.injEq] at found
      exact found
    have older : ∀ held, store.records.lookup p.key = some held → held.record.serial.toNat < (s.serial + 1).toNat := by
      intro held found
      rw [landed.held, Option.some.injEq] at found
      rw [← found, raised s.serial (Nat.lt_of_succ_lt range)]
      exact Nat.lt_succ_self _
    obtain ⟨ready, lasts, newer, again⟩ := newer_lands p valid fits genuine s usual store
      (s.serial + 1) landed.sound alive pinned older
    have above : (s.serial + 1).toNat < s.serial.toNat + 2 := by
      rw [raised s.serial (Nat.lt_of_succ_lt range)]
      exact Nat.lt_succ_self _
    rcases send_cases prim debug adopted store _ s.world.now s.world.now address (same ▸ single) ready
      (signed_encodable p valid fits _ _) (Nat.le_refl _) (Nat.le_of_eq now) second lasts newer with
      ⟨_, text, out⟩ | ⟨_, outcome, out, which⟩
    · exact .inr ⟨adopted, _, _, s.serial, store, taken, out, same, landed, Nat.lt_add_of_pos_right (by decide), by simp⟩
    · refine .inr ⟨adopted, _, _, s.serial + 1, _, taken, out, same, again, above, ?_⟩
      intro other ok
      rcases which with rfl | ⟨text, rfl⟩ | ⟨text, rfl⟩
      · exact (Except.ok.inj ok).symm
      · cases ok
      · cases ok

include valid fits genuine in
theorem refresh_refreshed (s : State) (fates : Fates) (kept : Kept p address s) (usual : Usual p s) :
    Refreshed p s fates (refresh debug p fates s) := by
  have range := usual.serial
  have now : (clock s).toNat = s.world.now := instant_round_trip s.world.now usual.clock
  have counter := raised s.serial (Nat.lt_of_succ_lt range)
  have last : (s.serial + 1 + 1).toNat = s.serial.toNat + 2 := by
    rw [raised (s.serial + 1) (counter ▸ range), counter]
  obtain ⟨ready, lasts, newer, landed⟩ := newer_lands p valid fits genuine s usual s.world.store s.serial kept.sound kept.alive
    kept.pinned kept.older
  have encodable := signed_encodable p valid fits s.serial s.world.now
  have heard := send_newer prim debug s.resolver s.world.store _ s.world.now s.world.now address kept.single ready encodable
    (Nat.le_refl _) (Nat.le_of_eq now) lasts newer
  have signs := refresh_signs p valid s.serial s
  let sent : Resolver := { s.resolver with cache := s.resolver.cache.invalidate (signedAt p s.serial s.world.now).key }
  rcases send_cases prim debug s.resolver s.world.store _ s.world.now s.world.now address kept.single ready encodable
    (Nat.le_refl _) (Nat.le_of_eq now) fates.first lasts newer with ⟨none, text, out⟩ | ⟨some, outcome, out, which⟩
  · have done : refresh debug p fates s = ⟨.error (.noServer text), holding p (s.serial + 1), sent, s.world.store⟩ := by
      simp only [refresh, Publisher.publish, publishEndpoints, holding_endpoints, signs, now, out]
      rfl
    rw [done]
    refine ⟨rfl, by simp [holding, counter], by simp [holding, counter], ?_, fun _ => ⟨rfl, by simp⟩, ?_⟩
    · intro plain
      rw [plain] at none
      cases none
    · intro reached
      rw [reaches, none] at reached
      cases reached
  · have reached : reaches fates = true := decide_eq_true some
    have plain : fates.first = .heard → outcome = .ok s.serial := by
      intro plain
      rw [plain, heard] at out
      exact (congrArg Prod.fst out).symm
    by_cases stale : ∃ text, outcome = .error (.server ErrorCode.stale.toU16 text)
    · obtain ⟨text, rfl⟩ := stale
      have unheard : fates.first ≠ .heard := by
        intro same
        cases plain same
      have unknown : sent.cache.lookup p.key = none := by
        change (s.resolver.cache.invalidate p.key).lookup p.key = none
        simp [Cache.invalidate]
      rcases retry_refreshed debug p address valid fits genuine s usual sent kept.single unknown fates.lookup
        fates.second landed with ⟨e, after, refused, same⟩ |
          ⟨adopted, outcome, after, serial, left, taken, sent, same, held, above, ok⟩
      · have done : refresh debug p fates s =
            ⟨.error e, holding p (s.serial + 1), after, s.world.store.accept (signedAt p s.serial s.world.now)⟩ := by
          simp only [refresh, Publisher.publish, publishEndpoints, holding_endpoints, signs, now, out, if_true]
          rw [refused]
        rw [done]
        refine ⟨same, by simp [holding, counter], by simp [holding, counter], fun same => absurd same unheard,
          by simp [reached], fun _ => ?_⟩
        exact ⟨s.serial, by simp [holding, counter], landed, by simp⟩
      · have done : refresh debug p fates s = ⟨outcome, holding p (s.serial + 1 + 1), after, left⟩ := by
          simp only [refresh, Publisher.publish, publishEndpoints, holding_endpoints, signs, now, out, if_true]
          rw [taken]
          simp only [refresh_signs p valid (s.serial + 1) s, sent]
        rw [done]
        refine ⟨same, ?_, Nat.le_of_eq last, fun same => absurd same unheard, by simp [reached], fun _ => ?_⟩
        · change s.serial.toNat < (s.serial + 1 + 1).toNat
          omega
        · exact ⟨serial, Nat.lt_of_lt_of_eq above last.symm, held, ok⟩
    · have done : refresh debug p fates s =
          ⟨outcome, holding p (s.serial + 1), sent, s.world.store.accept (signedAt p s.serial s.world.now)⟩ := by
        rcases which with rfl | ⟨text, rfl⟩ | which
        · simp only [refresh, Publisher.publish, publishEndpoints, holding_endpoints, signs, now, out]
          rfl
        · simp only [refresh, Publisher.publish, publishEndpoints, holding_endpoints, signs, now, out]
          rfl
        · exact absurd which stale
      rw [done]
      refine ⟨rfl, by simp [holding, counter], by simp [holding, counter], plain, by simp [reached], fun _ => ?_⟩
      refine ⟨s.serial, by simp [holding, counter], landed, ?_⟩
      intro other ok
      rcases which with rfl | ⟨text, rfl⟩ | which
      · exact (Except.ok.inj ok).symm
      · cases ok
      · exact absurd which stale

include valid fits genuine in
theorem step_kept (s s' : State) (e : Event prim) (step : Step debug p s e s') (alone : Alone p ⟨s, e, s'⟩) (usual : Usual p s)
    (kept : Kept p address s) : Kept p address s' := by
  cases step with
  | tick later forward =>
      refine ⟨step_sound prim _ _ _ (.tick s.world later forward) kept.sound, kept.single, kept.alive, kept.pinned,
        kept.older, ?_⟩
      intro issued last
      obtain ⟨past, serial, stays⟩ := kept.shown issued last
      exact ⟨past.trans forward, serial,
        step_stays prim _ _ _ _ kept.sound (.tick s.world later forward) trivial stays⟩
  | refresh now fates =>
      have done := refresh_refreshed debug p address valid fits genuine s fates kept usual
      cases reached : reaches fates with
      | false =>
          obtain ⟨same, _⟩ := done.missed reached
          refine ⟨same ▸ kept.sound, done.config ▸ kept.single, same ▸ kept.alive, same ▸ kept.pinned, ?_, ?_⟩
          · intro held found
            rw [same] at found
            exact Nat.lt_trans (kept.older held found) done.counter
          · rw [same]
            exact kept.shown
      | true =>
          obtain ⟨serial, below, landed, _⟩ := done.reached reached
          refine ⟨landed.sound, done.config ▸ kept.single, ?_, ?_, ?_, ?_⟩
          · intro other found
            rw [landed.held, Option.some.injEq] at found
            exact found ▸ rfl
          · intro identity found
            rw [landed.bound, Option.some.injEq] at found
            exact found
          · intro other found
            rw [landed.held, Option.some.injEq] at found
            exact found ▸ below
          · intro issued last
            have same : s.world.now = issued := Option.some.inj last
            exact ⟨Nat.le_of_eq same.symm, serial, .inl (same ▸ landed.held)⟩
  | server e after step still =>
      have quiet := alone e rfl
      have before := quiet_lookup p.key s.world after e kept.sound step quiet
      refine ⟨step_sound prim _ _ _ step kept.sound, kept.single, ?_, ?_, ?_, ?_⟩
      · intro held found
        exact kept.alive held (before held found)
      · intro bound found
        rw [quiet_binding p.key s.world after e kept.sound step quiet] at found
        exact kept.pinned bound found
      · intro held found
        exact kept.older held (before held found)
      · intro issued last
        obtain ⟨past, serial, stays⟩ := kept.shown issued last
        exact ⟨past.trans (Nat.le_of_eq still.symm), serial, step_stays prim _ _ _ _ kept.sound step quiet stays⟩

-- While no tick comes late, `due` follows from when a refresh last arrived.
structure Timed (s : State) : Prop where
  punctual : s.world.now ≤ s.due
  schedule : ∀ issued, s.last = some issued → s.due = issued + (s.lost + 1) * p.refreshInterval

theorem step_timed (s s' : State) (e : Event prim) (step : Step debug p s e s') (punctual : Punctual ⟨s, e, s'⟩)
    (timed : Timed p s) : Timed p s' := by
  cases step with
  | tick later forward => exact ⟨punctual later rfl, timed.schedule⟩
  | refresh now fates =>
      refine ⟨Nat.le_add_right _ _, ?_⟩
      intro issued last
      cases reached : reaches fates with
      | true =>
          simp only [reached, if_true, Option.some.injEq] at last ⊢
          rw [last, Nat.zero_add, Nat.one_mul]
      | false =>
          have due := Nat.le_antisymm timed.punctual now
          simp only [reached, Bool.false_eq_true, if_false] at last ⊢
          rw [due, timed.schedule issued last, Nat.add_mul (s.lost + 1) 1, Nat.one_mul, Nat.add_assoc]
  | server e after step still => exact ⟨still ▸ timed.punctual, timed.schedule⟩

include valid in
theorem stays_shown (s : State) (usual : Usual p s) (serial : UInt64) (issued : Nat) (past : issued ≤ s.world.now)
    (soon : s.world.now < issued + p.ttl.toNat) (stays : Stays (signedAt p serial issued) s.world) :
    s.world.store.get p.key s.world.now = some (signedAt p serial issued) := by
  have range := Nat.lt_of_le_of_lt (Nat.add_le_add_right past _) usual.clock
  have lasts := signed_lasts p valid serial issued s.world.now range soon usual.delegated
  have survives := (survives_iff (signedAt p serial issued) s.world.now).mpr ⟨lasts.1, .inr lasts.2⟩
  rcases stays with held | gone
  · simp [Store.get, show s.world.store.records.lookup p.key = _ from held, lasts.1]
  · rw [gone] at survives
    cases survives

include valid fits genuine in
theorem refresh_moves (s s' : State) (fates : Fates) (outcome : Except Error UInt64)
    (step : Step debug p s (.refresh fates outcome) s') (kept : Kept p address s) (usual : Usual p s) :
    (fates.first = .heard → outcome = .ok s.serial) ∧
      (∀ serial, outcome = .ok serial →
        s'.world.store.get p.key s'.world.now = some (signedAt p serial s.world.now)) ∧
      (reaches fates = true →
        ∃ serial, s'.world.store.get p.key s'.world.now = some (signedAt p serial s.world.now)) := by
  have interval := interval_fits p valid
  cases step with
  | refresh now =>
      have done := refresh_refreshed debug p address valid fits genuine s fates kept usual
      have shown : ∀ serial, Landed p s serial (refresh debug p fates s).store →
          (refresh debug p fates s).store.get p.key s.world.now = some (signedAt p serial s.world.now) := by
        intro serial landed
        have lasts := signed_lasts p valid serial s.world.now s.world.now usual.clock (by omega) usual.delegated
        simp [Store.get, landed.held, lasts.1]
      cases reached : reaches fates with
      | false => exact ⟨done.heard, fun serial ok => absurd ok ((done.missed reached).2 serial), by simp⟩
      | true =>
          obtain ⟨serial, _, landed, only⟩ := done.reached reached
          exact ⟨done.heard, fun other ok => only other ok ▸ shown serial landed, fun _ => ⟨serial, shown serial landed⟩⟩

end Run

-- A third of the lifetime each: two refreshes in a row may miss the server, and
-- the last one that reached it is still what a lookup finds. A publisher that has
-- not heard the reply signs once more, above the record it does not know is held.
theorem refreshed_key_never_goes_dark (r : Resolver) (address : String) (single : r.config.servers = [address]) (w : World)
    (sound : Sound prim w)
    (alive : ∀ held, w.store.records.lookup p.key = some held → held.record.isTerminal = false)
    (pinned : ∀ bound, w.store.bindings.lookup p.key = some bound → p.delegation.identity = bound)
    (older : ∀ held, w.store.records.lookup p.key = some held → held.record.serial.toNat < p.serial.toNat)
    (valid : (p.draft p.endpoints 0).validate prim = .ok ()) (fits : Fits p.endpoints)
    (genuine : ∀ message, prim.verify p.key message (p.signingKey.sign message) = true)
    (run : List (Transition State (Event prim))) (done : State) (whole : Run (Step debug p) (start p r w) run done)
    (alone : ∀ move ∈ run, Alone p move) (usual : ∀ s ∈ visited (start p r w) run, Usual p s) :
    (∀ move ∈ run, ∀ fates outcome, move.label = .refresh fates outcome →
      (fates.first = .heard → outcome = .ok move.pre.serial) ∧
      (∀ serial, outcome = .ok serial →
        move.post.world.store.get p.key move.post.world.now = some (signedAt p serial move.pre.world.now)) ∧
      (reaches fates = true →
        ∃ serial, move.post.world.store.get p.key move.post.world.now = some (signedAt p serial move.pre.world.now))) ∧
    ((∀ move ∈ run, Punctual move) → ∀ s ∈ visited (start p r w) run, ∀ issued, s.last = some issued →
      s.lost < 2 ∨ s.lost = 2 ∧ s.world.now < s.due →
      ∃ serial, s.world.store.get p.key s.world.now = some (signedAt p serial issued)) := by
  have started : Kept p address (start p r w) := ⟨sound, single, alive, pinned, older, fun issued last => by cases last⟩
  have before : ∀ move ∈ run, Usual p move.pre :=
    fun move member => usual move.pre (run_pre_visited whole move member)
  apply And.intro
  · intro move member fates outcome label
    obtain ⟨kept, step, _⟩ := run_move_invariant (Kept p address) (fun move => Alone p move ∧ Usual p move.pre)
      (fun u e v step ok kept => step_kept debug p address valid fits genuine u v e step ok.1 ok.2 kept)
      (fun move member => ⟨alone move member, before move member⟩) whole started move member
    exact refresh_moves debug p address valid fits genuine move.pre move.post fates outcome (label ▸ step) kept
      (before move member)
  · intro punctual s member issued last few
    obtain ⟨kept, timed⟩ := run_visited_invariant (fun s => Kept p address s ∧ Timed p s)
      (fun move => Alone p move ∧ Usual p move.pre ∧ Punctual move)
      (fun u e v step ok both => ⟨step_kept debug p address valid fits genuine u v e step ok.1 ok.2.1 both.1,
        step_timed debug p u v e step ok.2.2 both.2⟩)
      (fun move member => ⟨alone move member, before move member, punctual move member⟩) whole
      ⟨started, Nat.le_refl _, fun issued last => by cases last⟩ s member
    obtain ⟨past, serial, stays⟩ := kept.shown issued last
    refine ⟨serial, stays_shown p valid s (usual s member) serial issued past ?_ stays⟩
    have due := timed.schedule issued last
    have punctual := timed.punctual
    obtain ⟨thirds, _, some⟩ := interval_fits p valid
    rcases few with fewer | ⟨two, sooner⟩
    · have reach : (s.lost + 1) * p.refreshInterval ≤ 2 * p.refreshInterval := Nat.mul_le_mul_right _ fewer
      omega
    · rw [two] at due
      omega

section Sample

open Sample

def atHome : State := start Publisher.holder Resolver.oneServer ⟨1500, Store.new⟩

theorem holder_usual (s : State) (serial : s.serial.toNat ≤ 4) (early : s.world.now ≤ 2000) : Usual Publisher.holder s := by
  have last : u64Max = 18446744073709551615 := rfl
  have week : maxTtl.toNat = 604800 := rfl
  exact ⟨by omega, by omega, rfl⟩

-- The reply to one refresh is lost, and so is all of the next one.
theorem refreshed_key_never_goes_dark_missed :
    ∃ s : State, s.lost = 1 ∧ ∃ serial, s.world.store.get node s.world.now = some (signedAt Publisher.holder serial 1500) := by
  let unheard : Fates := ⟨⟨1, some reset⟩, .heard, .heard⟩
  let missed : Fates := ⟨⟨0, some reset⟩, .heard, .heard⟩
  have kept : Kept Publisher.holder "ns1.example:5300" atHome :=
    ⟨fresh_sound keeper 1500, rfl, fun held found => by simp [atHome, start, Store.new] at found,
      fun bound found => by simp [atHome, start, Store.new] at found,
      fun held found => by simp [atHome, start, Store.new] at found, fun issued last => by cases last⟩
  have usual := holder_usual atHome (by decide) (by decide)
  have first : Step (fun _ => "") Publisher.holder atHome _ _ := .refresh atHome (Nat.le_refl _) unheard
  have near := (refresh_refreshed (fun _ => "") Publisher.holder _ holder_valid holder_fits holder_genuine atHome unheard kept
    usual).close
  generalize refresh (fun _ => "") Publisher.holder unheard atHome = arrived at first near
  let here : State := ⟨arrived.publisher.serial, arrived.resolver, ⟨1500, arrived.store⟩, 1833, 0, some 1500⟩
  let later : State := { here with world := ⟨1833, arrived.store⟩ }
  have early : here.serial.toNat ≤ 2 := near
  have reached : Kept Publisher.holder "ns1.example:5300" here := step_kept (fun _ => "") Publisher.holder _ holder_valid
    holder_fits holder_genuine atHome here _ first (by simp [Alone]) usual kept
  have second : Step (fun _ => "") Publisher.holder here (.tick 1833) later := .tick here 1833 (show 1500 ≤ 1833 by decide)
  have usualHere := holder_usual here (Nat.le_trans early (by decide)) (show 1500 ≤ 2000 by decide)
  have usualLater := holder_usual later (Nat.le_trans early (by decide)) (show 1833 ≤ 2000 by decide)
  have waited := step_kept (fun _ => "") Publisher.holder _ holder_valid holder_fits holder_genuine here later _ second
    (by simp [Alone]) usualHere reached
  have third : Step (fun _ => "") Publisher.holder later _ _ := .refresh later (Nat.le_refl _) missed
  have far := (refresh_refreshed (fun _ => "") Publisher.holder _ holder_valid holder_fits holder_genuine later missed waited
    usualLater).close
  generalize refresh (fun _ => "") Publisher.holder missed later = behind at third far
  let last : State := ⟨behind.publisher.serial, behind.resolver, ⟨1833, behind.store⟩, 2166, 1, some 1500⟩
  have usualLast := holder_usual last (Nat.le_trans far (Nat.add_le_add_right early 2)) (show 1833 ≤ 2000 by decide)
  let moves : List (Transition State (Event keeper)) :=
    [⟨atHome, .refresh unheard arrived.outcome, here⟩, ⟨here, .tick 1833, later⟩, ⟨later, .refresh missed behind.outcome, last⟩]
  have run : Run (Step (fun _ => "") Publisher.holder) atHome moves last :=
    .cons _ _ _ _ _ first (.cons _ _ _ _ _ second (.cons _ _ _ _ _ third (.nil last)))
  have punctual : ∀ move ∈ moves, Punctual move := by
    simp only [moves, List.forall_mem_cons]
    refine ⟨fun _ same => ?_, fun _ same => ?_, fun _ same => ?_, fun move member => by cases member⟩
    · cases same
    · cases same
      exact Nat.le_refl 1833
    · cases same
  refine ⟨last, rfl, ?_⟩
  refine (refreshed_key_never_goes_dark (fun _ => "") Publisher.holder Resolver.oneServer "ns1.example:5300" rfl
    ⟨1500, Store.new⟩ kept.sound kept.alive kept.pinned kept.older holder_valid holder_fits holder_genuine moves last
    run (by simp [moves, Alone]) ?_).2 punctual last (run_end_visited run) 1500 rfl (.inl (show 1 < 2 by decide))
  simp only [moves, visited, List.map_cons, List.map_nil, List.forall_mem_cons]
  exact ⟨usual, usualHere, usualLater, usualLast, fun s member => by cases member⟩

end Sample

end Refreshing

end Sqns
