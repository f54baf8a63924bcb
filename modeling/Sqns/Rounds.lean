import Sqns.AntiEntropy

set_option autoImplicit false

namespace Sqns.Rounds

open Store Trace Paging Replication
open AntiEntropy (Caught Sparse Orderly)

variable (prim : Primitives) (debug : Response → String) (relay : PubKey → UInt8 → Except Error (Option Relayed))
  (uptimeSecs : UInt64) (count : Nat) (honest : Nat → Prop)

-- `Replicator::run` at the peer with index `place`. `pulling` is the cursor and
-- the count of a pull that has begun; `peers` is what honest peers hold meanwhile.
structure State where
  now : Nat
  store : Store
  peers : Nat → Store
  watermarks : Nat → UInt64
  place : Nat
  pulling : Option (UInt64 × Nat)

inductive Event where
  | tick (later : Nat)
  | put (record : SignedRecord)
  | purge
  | peerPut (j : Nat) (record : SignedRecord)
  | peerPurge (j : Nat)
  | begin_
  | turn (reply : Except Error Response) (ended : Option (Except Error Nat))

def answer (s : State) (failure : Nat → Option Error) (since : UInt64) : Except Error Response :=
  Replication.honest prim ⟨s.peers s.place, 0, 0, 0, true⟩ relay s.now uptimeSecs failure 0 since

-- One request of a pull and what is made of its reply. An error ends the pull,
-- and the loop goes on to the next peer all the same.
def turned (s : State) (since : UInt64) (applied : Nat) (reply : Except Error Response) : State × Option (Except Error Nat) :=
  match pullTurn prim debug s.now since (s.store, applied) reply with
  | .asking later next =>
      ({ s with
          store := next.1
          watermarks := Function.update s.watermarks s.place later
          pulling := some (later, next.2) }, none)
  | .stopped pulled =>
      ({ s with
          store := pulled.store
          watermarks := Function.update s.watermarks s.place pulled.watermark
          place := (s.place + 1) % count
          pulling := none }, some pulled.result)

-- A peer that is not honest may reply anything.
inductive Step : State → Event → State → Prop where
  | tick (s : State) (later : Nat) (forward : s.now ≤ later) : Step s (.tick later) { s with now := later }
  | put (s : State) (record : SignedRecord) : Step s (.put record) { s with store := (s.store.put prim record s.now).2 }
  | purge (s : State) : Step s .purge { s with store := (s.store.purgeExpired s.now).2 }
  | peerPut (s : State) (j : Nat) (record : SignedRecord) :
      Step s (.peerPut j record) { s with peers := Function.update s.peers j ((s.peers j).put prim record s.now).2 }
  | peerPurge (s : State) (j : Nat) :
      Step s (.peerPurge j) { s with peers := Function.update s.peers j ((s.peers j).purgeExpired s.now).2 }
  | begin_ (s : State) (idle : s.pulling = none) : Step s .begin_ { s with pulling := some (s.watermarks s.place, 0) }
  | turn (s : State) (since : UInt64) (applied : Nat) (reply : Except Error Response)
      (asking : s.pulling = some (since, applied))
      (fair : honest s.place → ∃ failure, reply = answer prim relay uptimeSecs s failure since) :
      Step s (.turn reply (turned prim debug count s since applied reply).2) (turned prim debug count s since applied reply).1

-- The two servers that one peer's pulls are about.
def between (h : Nat) (s : State) : AntiEntropy.State := ⟨s.now, s.store, s.peers h, s.watermarks h⟩

def concerning (h : Nat) (now : Nat) : Event → AntiEntropy.Event
  | .purge => .purgeA
  | .peerPut j record => if j = h then .putB record else .tick now
  | _ => .tick now

def OrderlyAt (h : Nat) (move : Transition State Event) : Prop :=
  Orderly prim ⟨between h move.pre, concerning h move.pre.now move.label, between h move.post⟩

-- In the middle of a pull the cursor is the watermark already.
structure Following (h : Nat) (s : State) : Prop where
  caught : Caught prim (between h s)
  cursor : s.place = h → ∀ since applied, s.pulling = some (since, applied) → since = s.watermarks h

section Turn

variable (now : Nat) (since : UInt64) (progress : Store × Nat)

def storeAfter : Pulling → Store
  | .asking _ next => next.1
  | .stopped pulled => pulled.store

def watermarkAfter : Pulling → UInt64
  | .asking later _ => later
  | .stopped pulled => pulled.watermark

-- Whatever a reply holds, it is offered to `put` and to nothing else.
theorem turn_settled (reply : Except Error Response) (r : SignedRecord) (settled : ¬ Accepted prim progress.1 r now) :
    ¬ Accepted prim (storeAfter (pullTurn prim debug now since progress reply)) r now := by
  cases reply with
  | error e => exact settled
  | ok response =>
      cases response with
      | records batch complete =>
          have kept := apply_batch_settled prim now batch progress r settled
          simp only [pullTurn]
          split
          · exact kept
          · split
            · exact kept
            · exact kept
      | answer record successor => exact settled
      | published serial expiresAt => exact settled
      | status info => exact settled
      | error code message => exact settled

variable (b : Server) (own : ∀ k r, b.store.records.lookup k = some r → r.key = k) (failure : Nat → Option Error)

include own in
-- What one request leaves to be done: nothing below the new watermark, and
-- nothing at all when the pull ends with it.
theorem turn_settles (calm : ∀ t, ¬ Crowded issued maxSyncBatch.toNat (b.store.unexpired now) t)
    (behind : ∀ r ∈ b.store.unexpired now, issued r < since.toNat → ¬ Accepted prim progress.1 r now) :
    let turn := pullTurn prim debug now since progress (Replication.honest prim b relay now uptimeSecs failure 0 since)
    (∀ r ∈ b.store.unexpired now, issued r < (watermarkAfter turn).toNat → ¬ Accepted prim (storeAfter turn) r now) ∧
      ∀ pulled n, turn = .stopped pulled → pulled.result = .ok n →
        ∀ r ∈ b.store.unexpired now, ¬ Accepted prim pulled.store r now := by
  rcases honest_turn prim debug b relay now uptimeSecs failure own 0 since progress with
    ⟨_, e, failed⟩ | ⟨ended, stopped⟩ | ⟨_, _, onward⟩
  · simp only [failed]
    refine ⟨behind, ?_⟩
    intro pulled n same ok
    cases same
    cases ok
  · have all := last_batch_settles prim b now calm since progress behind ended
    simp only [stopped]
    refine ⟨fun r member _ => all r member, ?_⟩
    intro pulled n same _
    cases same
    exact all
  · simp only [onward]
    exact ⟨batch_settles_below prim b now own since progress behind, fun pulled n same => by cases same⟩

end Turn

section Run

variable (s : State) (since : UInt64) (applied : Nat) (reply : Except Error Response) (h : Nat)

theorem turned_between :
    let turn := pullTurn prim debug s.now since (s.store, applied) reply
    between h (turned prim debug count s since applied reply).1 =
      ⟨s.now, storeAfter turn, s.peers h, if h = s.place then watermarkAfter turn else s.watermarks h⟩ := by
  simp only [turned]
  cases pullTurn prim debug s.now since (s.store, applied) reply with
  | asking later next => simp [between, storeAfter, watermarkAfter, Function.update_apply]
  | stopped pulled => simp [between, storeAfter, watermarkAfter, Function.update_apply]

theorem turned_peers : (turned prim debug count s since applied reply).1.peers = s.peers := by
  simp only [turned]
  split
  · rfl
  · rfl

theorem turned_cursor (later : UInt64) (more : Nat)
    (asking : (turned prim debug count s since applied reply).1.pulling = some (later, more)) :
    (turned prim debug count s since applied reply).1.place = s.place ∧
      (turned prim debug count s since applied reply).1.watermarks s.place = later := by
  simp only [turned] at asking ⊢
  cases turn : pullTurn prim debug s.now since (s.store, applied) reply with
  | asking cursor next =>
      rw [turn] at asking
      cases asking
      exact ⟨rfl, Function.update_self _ _ _⟩
  | stopped pulled =>
      rw [turn] at asking
      cases asking

variable (sparse : Sparse (between h s)) (caught : Caught prim (between h s))

include sparse caught in
theorem honest_turn_caught (failure : Nat → Option Error) (here : s.place = h) (cursor : since = s.watermarks h) :
    let done := turned prim debug count s since applied (answer prim relay uptimeSecs s failure since)
    Caught prim (between h done.1) ∧
      ∀ n, done.2 = some (.ok n) → ∀ r ∈ (s.peers h).unexpired s.now, ¬ Accepted prim done.1.store r s.now := by
  subst here
  have own : ∀ k r, (s.peers s.place).records.lookup k = some r → r.key = k := caught.consistent.own
  obtain ⟨below, all⟩ := turn_settles prim debug relay uptimeSecs s.now since
    (s.store, applied) ⟨s.peers s.place, 0, 0, 0, true⟩
    own failure (AntiEntropy.sparse_calm _ sparse) (by
      intro r member less
      obtain ⟨held, fresh⟩ := (mem_unexpired (s.peers s.place) s.now own r).mp member
      rw [cursor] at less
      exact caught.behind r.key r held fresh less)
  intro done
  refine ⟨?_, ?_⟩
  · rw [turned_between, if_pos rfl]
    refine ⟨caught.consistent, caught.notFuture, ?_⟩
    intro k r held fresh less
    have key := own k r held
    exact below r ((mem_unexpired (s.peers s.place) s.now own r).mpr ⟨key.symm ▸ held, fresh⟩) less
  · intro n ok r member
    simp only [done, turned] at ok ⊢
    cases turn : pullTurn prim debug s.now since (s.store, applied) (answer prim relay uptimeSecs s failure since) with
    | asking later next =>
        rw [turn] at ok
        cases ok
    | stopped pulled =>
        rw [turn] at ok
        exact all pulled n turn (Option.some.inj ok) r member

include caught in
-- Nothing another peer says moves the watermark of this one.
theorem other_turn_caught (elsewhere : s.place ≠ h) :
    Caught prim (between h (turned prim debug count s since applied reply).1) := by
  rw [turned_between, if_neg (Ne.symm elsewhere)]
  exact ⟨caught.consistent, caught.notFuture, fun k r held fresh less =>
    turn_settled prim debug s.now since (s.store, applied) reply r (caught.behind k r held fresh less)⟩

end Run

theorem step_following (h : Nat) (trusted : honest h) (s t : State) (e : Event)
    (step : Step prim debug relay uptimeSecs count honest s e t) (sparse : Sparse (between h s))
    (orderly : OrderlyAt prim h ⟨s, e, t⟩) (following : Following prim h s) : Following prim h t := by
  obtain ⟨caught, cursor⟩ := following
  cases step with
  | tick later forward => exact ⟨AntiEntropy.tick_caught prim _ later forward caught, cursor⟩
  | put record =>
      exact ⟨⟨caught.consistent, caught.notFuture, fun k r held fresh below =>
        put_settled prim s.store record r s.now (caught.behind k r held fresh below)⟩, cursor⟩
  | purge => exact ⟨AntiEntropy.purge_a_caught prim _ caught orderly, cursor⟩
  | peerPut j record =>
      refine ⟨?_, cursor⟩
      by_cases same : j = h
      · subst same
        simp only [OrderlyAt, concerning, if_pos] at orderly
        have stored := AntiEntropy.put_b_caught prim (between j s) record caught orderly
        simpa only [between, Function.update_self] using stored
      · simpa only [between, Function.update_of_ne (Ne.symm same)] using caught
  | peerPurge j =>
      refine ⟨?_, cursor⟩
      by_cases same : j = h
      · subst same
        have swept := AntiEntropy.step_caught prim debug relay uptimeSecs _ _ _ (.purgeB (between j s)) sparse trivial caught
        simpa only [between, Function.update_self] using swept
      · simpa only [between, Function.update_of_ne (Ne.symm same)] using caught
  | begin_ idle =>
      refine ⟨caught, ?_⟩
      intro here since applied asking
      cases asking
      rw [← here]
  | turn since applied reply asking fair =>
      refine ⟨?_, ?_⟩
      · by_cases here : s.place = h
        · obtain ⟨failure, same⟩ := fair (here ▸ trusted)
          subst same
          exact (honest_turn_caught prim debug relay uptimeSecs count s since applied h sparse caught failure here
            (cursor here since applied asking)).1
        · exact other_turn_caught prim debug count s since applied reply h caught here
      · intro here later more asked
        obtain ⟨stays, moved⟩ := turned_cursor prim debug count s since applied reply later more asked
        rw [← here, stays]
        exact moved.symm

-- After a restart the watermarks are gone, and the store may hold anything.
structure Started (s : State) : Prop where
  watermarks : ∀ j, s.watermarks j = 0
  idle : s.pulling = none
  sound : ∀ j, honest j → Consistent prim (s.peers j) ∧
    ∀ k r, (s.peers j).records.lookup k = some r → issued r ≤ s.now + maxClockSkew

theorem started_following (h : Nat) (trusted : honest h) (s : State) (started : Started prim honest s) :
    Following prim h s := by
  obtain ⟨consistent, notFuture⟩ := started.sound h trusted
  refine ⟨⟨consistent, notFuture, ?_⟩, ?_⟩
  · intro k r held fresh below
    have zero : (between h s).watermark = 0 := started.watermarks h
    rw [zero] at below
    exact absurd below (Nat.not_lt_zero _)
  · intro _ since applied asking
    rw [started.idle] at asking
    cases asking

section Sample

open Sample

-- The first of two peers is not honest.
def second : Nat → Prop := (· = 1)

def asleep : State := ⟨1000, Store.new, fun _ => Store.new, fun _ => 0, 0, none⟩

def told : State := { asleep with peers := Function.update asleep.peers 1 ((asleep.peers 1).put ed25519 publish 1000).2 }

-- It claims the end of time for a record it made up.
def lie : Except Error Response := .ok (.records [{ hijack with record :=
    { hijack.record with issuedAt := 18446744073709551615 } }] true)

def asked : State := { told with pulling := some (0, 0) }

def misled : State := (turned ed25519 (fun _ => "") 2 asked 0 0 lie).1

def askedNext : State := { misled with pulling := some (misled.watermarks misled.place, 0) }

def truth : Except Error Response :=
  answer ed25519 (fun _ _ => .ok none) 0 askedNext (fun _ => none) (misled.watermarks misled.place)

def heardOut : State × Option (Except Error Nat) :=
  turned ed25519 (fun _ => "") 2 askedNext (misled.watermarks misled.place) 0 truth

theorem misled_state : askedNext.place = 1 ∧ askedNext.now = 1000 ∧ misled.pulling = none ∧
    misled.watermarks 0 = 18446744073709551615 ∧
    (turned ed25519 (fun _ => "") 2 asked 0 0 lie).2 = some (.ok 0) := by decide +kernel

theorem heard_out_state : heardOut.2 = some (.ok 1) ∧ heardOut.1.store.refusal ed25519 publish = none := by decide +kernel

theorem told_sparse (s : State) (same : s.peers 1 = AntiEntropy.published.b) : Sparse (between 1 s) := by
  have held : (between 1 s).b = AntiEntropy.published.b := same
  refine AntiEntropy.few_sparse ed25519 (between 1 s) ?_ ?_
  · rw [held]
    exact AntiEntropy.published_consistent
  · rw [held]
    exact AntiEntropy.published_few

theorem told_peers : told.peers 1 = AntiEntropy.published.b := by
  simp only [told, asleep, Function.update_self, AntiEntropy.published, AntiEntropy.arrival]

theorem asked_peers : asked.peers = told.peers := rfl

theorem misled_peers : misled.peers 1 = AntiEntropy.published.b := by
  rw [misled, turned_peers, asked_peers]
  exact told_peers

theorem asked_next_peers : askedNext.peers = misled.peers := rfl

end Sample

end Sqns.Rounds
