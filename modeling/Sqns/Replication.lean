import Sqns.Server

set_option autoImplicit false

namespace Sqns

instance u64LawfulOrderMax : Std.LawfulOrderMax UInt64 where
  max_le_iff a b c := by
    simp only [max, UInt64.le_iff_toNat_le]
    split
    · omega
    · omega
  max_eq_or a b := by
    simp only [max]
    split
    · exact .inr rfl
    · exact .inl rfl

namespace Replication

open Store Paging

variable (prim : Primitives)

-- `records.iter().map(|rec| rec.record.issued_at).max().unwrap_or(since)`.
def batchHigh (since : UInt64) (batch : List SignedRecord) : UInt64 :=
  (batch.map (fun record => record.record.issuedAt)).max?.getD since

def applyRecord (now : Nat) (progress : Store × Nat) (record : SignedRecord) : Store × Nat :=
  match progress.1.put prim record now with
  | (.ok .stored, store) => (store, progress.2 + 1)
  | (_, store) => (store, progress.2)

def applyBatch (now : Nat) (progress : Store × Nat) (batch : List SignedRecord) : Store × Nat :=
  batch.foldl (applyRecord prim now) progress

structure Pulled where
  result : Except Error Nat
  store : Store
  watermark : UInt64

-- Where a pull stands between two requests. Nothing here says that it ends.
inductive Pulling where
  | asking (since : UInt64) (progress : Store × Nat)
  | stopped (pulled : Pulled)

-- The body of the loop, on whatever the link brings back.
def pullTurn (debug : Response → String) (now : Nat) (since : UInt64) (progress : Store × Nat) : Except Error Response → Pulling
  | .error e => .stopped ⟨.error e, progress.1, since⟩
  | .ok (.records batch complete) =>
      let next := applyBatch prim now progress batch
      if complete then .stopped ⟨.ok next.2, next.1, batchHigh since batch⟩
      else if batchHigh since batch ≤ since then .stopped ⟨.ok next.2, next.1, batchHigh since batch⟩
      else .asking (batchHigh since batch) next
  | .ok (.error code message) => .stopped ⟨.error (.server code.toU16 message), progress.1, since⟩
  | .ok other => .stopped ⟨.error (.protocol s!"unexpected sync response: {debug other}"), progress.1, since⟩

-- The only way on is an unfinished batch above the cursor.
theorem turn_onward (debug : Response → String) (now : Nat) (since later : UInt64) (progress next : Store × Nat)
    (reply : Except Error Response) (onward : pullTurn prim debug now since progress reply = .asking later next) :
    ∃ batch, reply = .ok (.records batch false) ∧ later = batchHigh since batch ∧ since < later := by
  unfold pullTurn at onward
  split at onward
  · cases onward
  · rename_i batch complete
    simp only at onward
    split_ifs at onward with done stuck
    cases onward
    rw [Bool.not_eq_true] at done
    refine ⟨batch, by rw [done], rfl, ?_⟩
    rw [UInt64.lt_iff_toNat_lt]
    rw [UInt64.le_iff_toNat_le] at stuck
    omega
  · cases onward
  · cases onward

-- The loop of `pull`. At its head `since` is the peer's watermark. `answer n`
-- is what the link brings back for the n-th request of this pull, and `debug`
-- the derived text of an unexpected response.
def pullLoop (debug : Response → String) (answer : Nat → UInt64 → Except Error Response) (now request : Nat)
    (since : UInt64) (progress : Store × Nat) : Pulled :=
  match _turn : pullTurn prim debug now since progress (answer request since) with
  | .stopped pulled => pulled
  | .asking later next => pullLoop debug answer now (request + 1) later next
termination_by 2 ^ 64 - since.toNat
decreasing_by
  obtain ⟨_, _, _, above⟩ := turn_onward prim debug now since later progress next _ _turn
  rw [UInt64.lt_iff_toNat_lt] at above
  have top := later.toNat_lt
  omega

def pull (debug : Response → String) (answer : Nat → UInt64 → Except Error Response) (now : Nat) (watermark : UInt64)
    (store : Store) : Pulled := pullLoop prim debug answer now 0 watermark (store, 0)

-- An honest peer behind a link that may fail: `failure n` is what goes wrong
-- with the n-th request, if anything does.
def honest (b : Server) (relay : PubKey → UInt8 → Except Error (Option Relayed)) (now : Nat) (uptimeSecs : UInt64)
    (failure : Nat → Option Error) (request : Nat) (since : UInt64) : Except Error Response :=
  match failure request with
  | some e => .error e
  | none => .ok (b.handle prim relay now uptimeSecs (.sync since maxSyncBatch)).response

theorem loop_turn (debug : Response → String) (answer : Nat → UInt64 → Except Error Response) (now request : Nat)
    (since : UInt64) (progress : Store × Nat) :
    pullLoop prim debug answer now request since progress =
      match pullTurn prim debug now since progress (answer request since) with
      | .stopped pulled => pulled
      | .asking later next => pullLoop prim debug answer now (request + 1) later next := by
  rw [pullLoop]
  split
  · rename_i pulled turn
    rw [turn]
  · rename_i later next turn
    rw [turn]

theorem batch_high_spec (since : UInt64) (batch : List SignedRecord) :
    High issued since.toNat batch (batchHigh since batch).toNat := by
  unfold batchHigh
  cases found : (batch.map (fun record => record.record.issuedAt)).max? with
  | none =>
      have empty : batch = [] := List.map_eq_nil_iff.mp (List.max?_eq_none_iff.mp found)
      subst empty
      exact ⟨by simp, by simp, fun _ => rfl⟩
  | some high =>
      obtain ⟨member, above⟩ := List.max?_eq_some_iff.mp found
      obtain ⟨r, inBatch, same⟩ := List.mem_map.mp member
      refine ⟨?_, fun _ => ⟨r, inBatch, ?_⟩, ?_⟩
      · intro x inBatch'
        exact UInt64.le_iff_toNat_le.mp (above x.record.issuedAt (List.mem_map.mpr ⟨x, inBatch', rfl⟩))
      · rw [issued, same]
        rfl
      · intro empty
        rw [empty] at inBatch
        simp at inBatch

theorem put_settled (s : Store) (x r : SignedRecord) (now : Nat) (settled : ¬ Accepted prim s r now) :
    ¬ Accepted prim (s.put prim x now).2 r now := by
  intro later
  apply settled
  rcases put_cases prim s x now with ⟨e, refused⟩ | ⟨stale, _⟩ | ⟨accepted, stored⟩
  · rwa [refused] at later
  · rwa [stale] at later
  · rw [stored] at later
    refine ⟨later.admitted, ?_, ?_⟩
    · intro bound found
      exact later.pinned bound (bind_keeps (s.insertRecord x) x.key x.identity r.key bound found)
    · intro held found
      by_cases same : r.key = x.key
      · have wins := later.newer x (by simp [same])
        exact Record.supersedes_trans _ _ _ wins (accepted.newer held (same ▸ found))
      · exact later.newer held (by simpa [same] using found)

theorem put_settles (s : Store) (r : SignedRecord) (now : Nat) : ¬ Accepted prim (s.put prim r now).2 r now := by
  by_cases accepted : Accepted prim s r now
  · intro again
    rw [put_accepted prim s r now accepted] at again
    have wins := again.newer r (by simp)
    rw [Record.supersedes_irrefl] at wins
    cases wins
  · exact put_settled prim s r r now accepted

theorem apply_record_store (now : Nat) (progress : Store × Nat) (record : SignedRecord) :
    (applyRecord prim now progress record).1 = (progress.1.put prim record now).2 := by
  unfold applyRecord
  rcases put_cases prim progress.1 record now with ⟨e, refused⟩ | ⟨stale, _⟩ | ⟨_, stored⟩
  · rw [refused]
  · rw [stale]
  · rw [stored]

theorem apply_batch_invariant (inv : Store → Prop) (now : Nat) (batch : List SignedRecord) (progress : Store × Nat)
    (step : ∀ s, ∀ r ∈ batch, inv s → inv (s.put prim r now).2) (start : inv progress.1) :
    inv (applyBatch prim now progress batch).1 := by
  induction batch generalizing progress with
  | nil => exact start
  | cons head tail ih =>
      apply ih (applyRecord prim now progress head) (fun s r member => step s r (List.mem_cons_of_mem _ member))
      rw [apply_record_store]
      exact step progress.1 head (by simp) start

theorem apply_batch_settled (now : Nat) (batch : List SignedRecord) (progress : Store × Nat) (r : SignedRecord)
    (settled : ¬ Accepted prim progress.1 r now) : ¬ Accepted prim (applyBatch prim now progress batch).1 r now :=
  apply_batch_invariant prim (fun s => ¬ Accepted prim s r now) now batch progress
    (fun s x _ => put_settled prim s x r now) settled

theorem apply_batch_settles (now : Nat) (batch : List SignedRecord) (progress : Store × Nat) (r : SignedRecord)
    (member : r ∈ batch) : ¬ Accepted prim (applyBatch prim now progress batch).1 r now := by
  induction batch generalizing progress with
  | nil => simp at member
  | cons head tail ih =>
      by_cases same : r = head
      · apply apply_batch_settled prim now tail (applyRecord prim now progress head) r
        rw [apply_record_store, same]
        exact put_settles prim progress.1 head now
      · exact ih (applyRecord prim now progress head) (by simpa [same] using member)

section Honest

variable (debug : Response → String) (b : Server) (relay : PubKey → UInt8 → Except Error (Option Relayed)) (now : Nat)
  (uptimeSecs : UInt64) (failure : Nat → Option Error)

def batchFrom (since : UInt64) : List SignedRecord := page issued maxSyncBatch.toNat since.toNat (b.store.unexpired now)

def Finished (since : UInt64) : Prop :=
  (Paging.since issued since.toNat (b.store.unexpired now)).length ≤ maxSyncBatch.toNat

theorem honest_turn (own : ∀ k r, b.store.records.lookup k = some r → r.key = k) (request : Nat) (since : UInt64)
    (progress : Store × Nat) :
    let batch := batchFrom b now since
    let next := applyBatch prim now progress batch
    let high := batchHigh since batch
    let turn := pullTurn prim debug now since progress (honest prim b relay now uptimeSecs failure request since)
    ((failure request ≠ none ∨ b.allowSync = false) ∧ ∃ e, turn = .stopped ⟨.error e, progress.1, since⟩) ∨
    ((Finished b now since ∨ high ≤ since) ∧ turn = .stopped ⟨.ok next.2, next.1, high⟩) ∨
    (¬ Finished b now since ∧ since.toNat < high.toNat ∧ turn = .asking high next) := by
  intro batch next high turn
  cases fails : failure request with
  | some e => exact .inl ⟨.inl (by simp), e, by simp only [turn, honest, fails, pullTurn]⟩
  | none =>
      by_cases allowed : b.allowSync = true
      · have reply : honest prim b relay now uptimeSecs failure request since = .ok (.records batch
            (decide ((Paging.since issued since.toNat (b.store.unexpired now)).length ≤ maxSyncBatch.toNat))) := by
          have limit : Server.clampLimit maxSyncBatch = maxSyncBatch.toNat := by decide
          simp only [honest, fails, Server.handle, if_pos allowed, limit, since_page b.store now own, batch, batchFrom]
        by_cases complete : (Paging.since issued since.toNat (b.store.unexpired now)).length ≤ maxSyncBatch.toNat
        · exact .inr (.inl ⟨.inl complete, by simp only [turn, reply, pullTurn, complete, decide_true, if_true]; rfl⟩)
        · by_cases stuck : high ≤ since
          · refine .inr (.inl ⟨.inr stuck, ?_⟩)
            simp only [turn, reply, pullTurn, complete, decide_false, Bool.false_eq_true, if_false]
            rw [if_pos stuck]
          · refine .inr (.inr ⟨complete, ?_, ?_⟩)
            · rw [UInt64.le_iff_toNat_le] at stuck
              omega
            · simp only [turn, reply, pullTurn, complete, decide_false, Bool.false_eq_true, if_false]
              rw [if_neg stuck]
      · refine .inl ⟨.inr (by simpa using allowed), .server ErrorCode.notAuthorized.toU16
          "this server does not answer sync requests", ?_⟩
        simp only [turn, honest, fails, Server.handle, if_neg allowed, pullTurn]

-- The induction over the loop, once for all: the cursor only moves up.
theorem pull_rule (own : ∀ k r, b.store.records.lookup k = some r → r.key = k) (P : UInt64 → Store × Nat → Pulled → Prop)
    (failed : ∀ since progress e, ((∃ n, failure n ≠ none) ∨ b.allowSync = false) →
      P since progress ⟨.error e, progress.1, since⟩)
    (done : ∀ since progress, Finished b now since ∨ batchHigh since (batchFrom b now since) ≤ since →
      P since progress ⟨.ok (applyBatch prim now progress (batchFrom b now since)).2,
        (applyBatch prim now progress (batchFrom b now since)).1, batchHigh since (batchFrom b now since)⟩)
    (again : ∀ since progress later, ¬ Finished b now since → since.toNat < (batchHigh since (batchFrom b now since)).toNat →
      P (batchHigh since (batchFrom b now since)) (applyBatch prim now progress (batchFrom b now since)) later →
      P since progress later)
    (request : Nat) (since : UInt64) (progress : Store × Nat) :
    P since progress (pullLoop prim debug (honest prim b relay now uptimeSecs failure) now request since progress) := by
  generalize distance : 2 ^ 64 - since.toNat = d
  induction d using Nat.strong_induction_on generalizing request since progress with
  | _ d ih =>
      rw [loop_turn]
      rcases honest_turn prim debug b relay now uptimeSecs failure own request since progress with
        ⟨broken, e, error⟩ | ⟨ended, stopped⟩ | ⟨more, advanced, onward⟩
      · rw [error]
        exact failed since progress e (broken.imp_left (fun fails => ⟨request, fails⟩))
      · rw [stopped]
        exact done since progress ended
      · rw [onward]
        have top := (batchHigh since (batchFrom b now since)).toNat_lt
        exact again since progress _ more advanced (ih _ (by omega) (request + 1) _ _ rfl)

-- A record is settled by a batch if it is in it, or if it was settled before.
theorem batch_settles (since : UInt64) (progress : Store × Nat) (r : SignedRecord)
    (before : issued r < since.toNat → ¬ Accepted prim progress.1 r now)
    (sent : since.toNat ≤ issued r → r ∈ batchFrom b now since) :
    ¬ Accepted prim (applyBatch prim now progress (batchFrom b now since)).1 r now := by
  by_cases reached : since.toNat ≤ issued r
  · exact apply_batch_settles prim now _ progress r (sent reached)
  · exact apply_batch_settled prim now _ progress r (before (by omega))

-- The batch a pull ends with leaves nothing to be done, and any other leaves
-- nothing below the cursor it moves to.
section Settling

variable (own : ∀ k r, b.store.records.lookup k = some r → r.key = k)
  (calm : ∀ t, ¬ Crowded issued maxSyncBatch.toNat (b.store.unexpired now) t) (since : UInt64) (progress : Store × Nat)
  (behind : ∀ r ∈ b.store.unexpired now, issued r < since.toNat → ¬ Accepted prim progress.1 r now)

include calm behind in
theorem last_batch_settles (ended : Finished b now since ∨ batchHigh since (batchFrom b now since) ≤ since) :
    ∀ r ∈ b.store.unexpired now, ¬ Accepted prim (applyBatch prim now progress (batchFrom b now since)).1 r now := by
  have few : Finished b now since := by
    by_contra more
    rcases ended with few | stuck
    · exact more few
    · have advanced := page_advances _ _ _ _ (batch_high_spec since (batchFrom b now since)) (Nat.lt_of_not_le more)
        (calm since.toNat)
      have below := UInt64.le_iff_toNat_le.mp stuck
      omega
  intro r member
  apply batch_settles prim b now since progress r (behind r member)
  intro reached
  rw [batchFrom, page_whole _ _ _ few, mem_since]
  exact ⟨member, reached⟩

include own behind in
theorem batch_settles_below : ∀ r ∈ b.store.unexpired now, issued r < (batchHigh since (batchFrom b now since)).toNat →
    ¬ Accepted prim (applyBatch prim now progress (batchFrom b now since)).1 r now := by
  intro r member below
  exact batch_settles prim b now since progress r (behind r member)
    (fun reached => page_below_high _ _ _ _ r (unexpired_by_stamp b.store now own)
      (batch_high_spec since (batchFrom b now since)) member reached below)

end Settling

-- What a pull leaves to be done: nothing below the watermark, and nothing at
-- all when it ends well.
theorem pull_settles (own : ∀ k r, b.store.records.lookup k = some r → r.key = k)
    (calm : ∀ t, ¬ Crowded issued maxSyncBatch.toNat (b.store.unexpired now) t) (watermark : UInt64) (a : Store)
    (behind : ∀ r ∈ b.store.unexpired now, issued r < watermark.toNat → ¬ Accepted prim a r now) :
    let pulled := pull prim debug (honest prim b relay now uptimeSecs failure) now watermark a
    (∀ r ∈ b.store.unexpired now, issued r < pulled.watermark.toNat → ¬ Accepted prim pulled.store r now) ∧
      ∀ n, pulled.result = .ok n → ∀ r ∈ b.store.unexpired now, ¬ Accepted prim pulled.store r now := by
  refine pull_rule prim debug b relay now uptimeSecs failure own
    (fun since progress pulled => (∀ r ∈ b.store.unexpired now, issued r < since.toNat → ¬ Accepted prim progress.1 r now) →
      (∀ r ∈ b.store.unexpired now, issued r < pulled.watermark.toNat → ¬ Accepted prim pulled.store r now) ∧
      ∀ n, pulled.result = .ok n → ∀ r ∈ b.store.unexpired now, ¬ Accepted prim pulled.store r now)
    ?_ ?_ ?_ 0 watermark (a, 0) behind
  · intro since progress e _ before
    exact ⟨before, fun n ok => by cases ok⟩
  · intro since progress ended before
    have all := last_batch_settles prim b now calm since progress before ended
    exact ⟨fun r member _ => all r member, fun _ _ => all⟩
  · intro since progress later _ _ next before
    exact next (batch_settles_below prim b now own since progress before)

theorem pull_invariant (inv : Store → Prop) (own : ∀ k r, b.store.records.lookup k = some r → r.key = k)
    (watermark : UInt64) (a : Store)
    (step : ∀ s cursor, watermark.toNat ≤ cursor → ∀ r ∈ page issued maxSyncBatch.toNat cursor (b.store.unexpired now),
      inv s → inv (s.put prim r now).2)
    (start : inv a) : inv (pull prim debug (honest prim b relay now uptimeSecs failure) now watermark a).store := by
  have batch : ∀ since : UInt64, watermark.toNat ≤ since.toNat → ∀ progress : Store × Nat, inv progress.1 →
      inv (applyBatch prim now progress (batchFrom b now since)).1 := fun since above progress before =>
    apply_batch_invariant prim inv now _ progress (fun s r member => step s since.toNat above r member) before
  refine pull_rule prim debug b relay now uptimeSecs failure own
    (fun since progress pulled => watermark.toNat ≤ since.toNat → inv progress.1 → inv pulled.store)
    ?_ ?_ ?_ 0 watermark (a, 0) (Nat.le_refl _) start
  · exact fun _ _ _ _ _ before => before
  · exact fun since progress _ above before => batch since above progress before
  · exact fun since progress later _ advanced next above before =>
      next (by omega) (batch since above progress before)

theorem pull_reliable (own : ∀ k r, b.store.records.lookup k = some r → r.key = k) (allowed : b.allowSync = true)
    (watermark : UInt64) (a : Store) :
    ∃ n, (pull prim debug (honest prim b relay now uptimeSecs (fun _ => none)) now watermark a).result = .ok n := by
  refine pull_rule prim debug b relay now uptimeSecs (fun _ => none) own (fun _ _ pulled => ∃ n, pulled.result = .ok n)
    ?_ ?_ ?_ 0 watermark (a, 0)
  · intro since progress e broken
    rcases broken with ⟨n, fails⟩ | closed
    · exact False.elim (fails rfl)
    · rw [allowed] at closed
      cases closed
  · exact fun since progress _ => ⟨_, rfl⟩
  · exact fun _ _ _ _ _ next => next

theorem pull_in_one_batch (own : ∀ k r, b.store.records.lookup k = some r → r.key = k) (allowed : b.allowSync = true)
    (watermark : UInt64) (a : Store)
    (few : (Paging.since issued watermark.toNat (b.store.unexpired now)).length ≤ maxSyncBatch.toNat) :
    let batch := page issued maxSyncBatch.toNat watermark.toNat (b.store.unexpired now)
    pull prim debug (honest prim b relay now uptimeSecs (fun _ => none)) now watermark a =
      ⟨.ok (applyBatch prim now (a, 0) batch).2, (applyBatch prim now (a, 0) batch).1, batchHigh watermark batch⟩ := by
  intro batch
  rw [pull, loop_turn]
  rcases honest_turn prim debug b relay now uptimeSecs (fun _ => none) own 0 watermark (a, 0) with
    ⟨broken, _⟩ | ⟨_, stopped⟩ | ⟨more, _⟩
  · rcases broken with failed | closed
    · exact False.elim (failed rfl)
    · rw [allowed] at closed
      cases closed
  · rw [stopped]
    rfl
  · exact False.elim (more few)

end Honest

section Endless

variable (debug : Response → String)

theorem turn_stuck (now : Nat) (since : UInt64) (progress : Store × Nat) (batch : List SignedRecord) (complete : Bool)
    (backward : ∀ r ∈ batch, r.record.issuedAt ≤ since) :
    ∃ pulled, pullTurn prim debug now since progress (.ok (.records batch complete)) = .stopped pulled := by
  cases out : pullTurn prim debug now since progress (.ok (.records batch complete)) with
  | stopped pulled => exact ⟨pulled, rfl⟩
  | asking later next =>
      obtain ⟨sent, same, rfl, above⟩ := turn_onward prim debug now since later progress next _ out
      cases same
      have high := batch_high_spec since batch
      rw [UInt64.lt_iff_toNat_lt] at above
      by_cases empty : batch = []
      · have still := high.empty empty
        omega
      · obtain ⟨r, member, top⟩ := high.attained empty
        have below : issued r ≤ since.toNat := UInt64.le_iff_toNat_le.mp (backward r member)
        omega

variable (answer : Nat → UInt64 → Except Error Response) (clock : Nat → Nat) (watermark : UInt64) (store : Store)

-- The loop after so many requests. `clock n` is the time at which the n-th
-- batch is applied.
def pullAfter : Nat → Pulling
  | 0 => .asking watermark (store, 0)
  | n + 1 =>
      match pullAfter n with
      | .asking cursor progress => pullTurn prim debug (clock n) cursor progress (answer n cursor)
      | .stopped pulled => .stopped pulled

theorem after_asking (n : Nat) (since : UInt64) (progress : Store × Nat)
    (asking : pullAfter prim debug answer clock watermark store n = .asking since progress) :
    pullAfter prim debug answer clock watermark store (n + 1) =
      pullTurn prim debug (clock n) since progress (answer n since) := by
  simp only [pullAfter, asking]

theorem after_stopped (n more : Nat) (pulled : Pulled)
    (stopped : pullAfter prim debug answer clock watermark store n = .stopped pulled) :
    pullAfter prim debug answer clock watermark store (n + more) = .stopped pulled := by
  induction more with
  | zero => exact stopped
  | succ more ih =>
      rw [← Nat.add_assoc]
      simp only [pullAfter, ih]

-- A request that is still made has moved the cursor once for each before it.
theorem cursor_ascends (n : Nat) (since : UInt64) (progress : Store × Nat)
    (asking : pullAfter prim debug answer clock watermark store n = .asking since progress) :
    watermark.toNat + n ≤ since.toNat := by
  induction n generalizing since progress with
  | zero =>
      cases asking
      exact Nat.le_refl _
  | succ n ih =>
      cases before : pullAfter prim debug answer clock watermark store n with
      | stopped pulled =>
          rw [after_stopped prim debug answer clock watermark store n 1 pulled before] at asking
          cases asking
      | asking earlier held =>
          rw [after_asking prim debug answer clock watermark store n earlier held before] at asking
          obtain ⟨_, _, _, above⟩ := turn_onward prim debug (clock n) earlier since held progress _ asking
          have far := ih earlier held before
          rw [UInt64.lt_iff_toNat_lt] at above
          omega

-- There are only so many cursors above the watermark.
theorem stops_in_time :
    ∃ pulled, pullAfter prim debug answer clock watermark store (2 ^ 64 - watermark.toNat) = .stopped pulled := by
  cases out : pullAfter prim debug answer clock watermark store (2 ^ 64 - watermark.toNat) with
  | stopped pulled => exact ⟨pulled, rfl⟩
  | asking since progress =>
      have far := cursor_ascends prim debug answer clock watermark store _ since progress out
      have top := since.toNat_lt
      have start := watermark.toNat_lt
      omega

theorem first_stop (n : Nat) (pulled : Pulled)
    (stopped : pullAfter prim debug answer clock watermark store n = .stopped pulled) :
    ∃ requests, 0 < requests ∧ requests ≤ n ∧ pullAfter prim debug answer clock watermark store requests = .stopped pulled ∧
      ∀ m, m < requests → ∃ since progress, pullAfter prim debug answer clock watermark store m = .asking since progress := by
  induction n with
  | zero => cases stopped
  | succ n ih =>
      cases before : pullAfter prim debug answer clock watermark store n with
      | stopped out =>
          have same := after_stopped prim debug answer clock watermark store n 1 out before
          rw [stopped] at same
          cases same
          obtain ⟨requests, some, few, ended, asked⟩ := ih before
          exact ⟨requests, some, by omega, ended, asked⟩
      | asking since progress =>
          refine ⟨n + 1, by omega, Nat.le_refl _, stopped, ?_⟩
          intro m earlier
          cases out : pullAfter prim debug answer clock watermark store m with
          | asking cursor held => exact ⟨cursor, held, rfl⟩
          | stopped done =>
              have later := after_stopped prim debug answer clock watermark store m (n - m) done out
              rw [Nat.add_sub_of_le (by omega), before] at later
              cases later

-- The loop of `pull`, run at one instant, ends where the requests do.
theorem after_agrees (now : Nat) (still : ∀ n, clock n = now) (n : Nat) :
    (∀ since progress, pullAfter prim debug answer clock watermark store n = .asking since progress →
      pull prim debug answer now watermark store = pullLoop prim debug answer now n since progress) ∧
    ∀ pulled, pullAfter prim debug answer clock watermark store n = .stopped pulled →
      pull prim debug answer now watermark store = pulled := by
  induction n with
  | zero =>
      apply And.intro
      · intro since progress asking
        cases asking
        rfl
      · intro pulled stopped
        cases stopped
  | succ n ih =>
      cases before : pullAfter prim debug answer clock watermark store n with
      | stopped out =>
          rw [after_stopped prim debug answer clock watermark store n 1 out before]
          apply And.intro
          · intro since progress asking
            cases asking
          · intro pulled stopped
            cases stopped
            exact ih.2 out before
      | asking earlier held =>
          have here := (ih.1 earlier held before).trans (loop_turn prim debug answer now n earlier held)
          rw [after_asking prim debug answer clock watermark store n earlier held before, still n]
          apply And.intro
          · intro since progress asking
            rw [here, asking]
          · intro pulled stopped
            rw [here, stopped]

theorem pull_ends_whatever_the_peer_says :
    (∃ requests pulled, 0 < requests ∧ requests ≤ 2 ^ 64 - watermark.toNat ∧
      (∀ n, n < requests → ∃ since progress, pullAfter prim debug answer clock watermark store n = .asking since progress) ∧
      (∀ n, requests ≤ n → pullAfter prim debug answer clock watermark store n = .stopped pulled) ∧
      ∀ now, (∀ n, clock n = now) → pull prim debug answer now watermark store = pulled) ∧
    (∀ n since progress later next, pullAfter prim debug answer clock watermark store n = .asking since progress →
      pullAfter prim debug answer clock watermark store (n + 1) = .asking later next →
      ∃ batch, answer n since = .ok (.records batch false) ∧ later = batchHigh since batch ∧ since < later) ∧
    ∀ n since progress batch complete, pullAfter prim debug answer clock watermark store n = .asking since progress →
      answer n since = .ok (.records batch complete) → (∀ r ∈ batch, r.record.issuedAt ≤ since) →
      ∃ pulled, pullAfter prim debug answer clock watermark store (n + 1) = .stopped pulled := by
  refine ⟨?_, ?_, ?_⟩
  · obtain ⟨pulled, ended⟩ := stops_in_time prim debug answer clock watermark store
    obtain ⟨requests, some, few, stopped, before⟩ := first_stop prim debug answer clock watermark store _ pulled ended
    refine ⟨requests, pulled, some, few, before, ?_, ?_⟩
    · intro n after
      have later := after_stopped prim debug answer clock watermark store requests (n - requests) pulled stopped
      rwa [Nat.add_sub_of_le after] at later
    · intro now same
      exact (after_agrees prim debug answer clock watermark store now same requests).2 pulled stopped
  · intro n since progress later next asking onward
    rw [after_asking prim debug answer clock watermark store n since progress asking] at onward
    exact turn_onward prim debug (clock n) since later progress next (answer n since) onward
  · intro n since progress batch complete asking sent backward
    rw [after_asking prim debug answer clock watermark store n since progress asking, sent]
    exact turn_stuck prim debug (clock n) since progress batch complete backward

end Endless

end Replication

end Sqns
