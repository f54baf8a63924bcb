import Mathlib.Algebra.BigOperators.Ring.Finset
import Mathlib.Algebra.Order.BigOperators.Group.Finset
import Sqns.Mesh

set_option autoImplicit false

namespace Sqns.Mesh

open Store Merge Trace

variable {ν : Type} [DecidableEq ν] (prim : Primitives) (peers : ν → List ν) (now : Nat)

def Event.target : Event ν → ν × SignedRecord
  | .publish v record => (v, record)
  | .deliver v record => (v, record)

abbrev Move (ν : Type) := Transition (Mesh ν) (Event ν)

-- Whether the `put` of this transition returned Stored.
def storedBy (move : Move ν) : Bool :=
  match ((move.pre.servers move.label.target.1).store.put prim move.label.target.2 now).1 with
  | .ok .stored => true
  | _ => false

def acceptances (run : List (Move ν)) : List (ν × SignedRecord) :=
  (run.filter (storedBy prim now)).map (fun move => move.label.target)

-- The Publish messages this transition makes its server send.
def sentBy (move : Move ν) : List (ν × SignedRecord) :=
  push (peers move.label.target.1)
    ((move.pre.servers move.label.target.1).handlePublish prim move.label.target.2 now).push

def messages (run : List (Move ν)) : List (ν × SignedRecord) := run.flatMap (sentBy prim peers now)

omit [DecidableEq ν] in
theorem stored_by_iff (move : Move ν) : storedBy prim now move = true ↔
    Accepted prim (move.pre.servers move.label.target.1).store move.label.target.2 now := by
  rw [← put_stored_iff, storedBy]
  cases ((move.pre.servers move.label.target.1).store.put prim move.label.target.2 now).1 with
  | error e => simp
  | ok outcome => cases outcome <;> simp

omit [DecidableEq ν] in
theorem sent_by_eq (move : Move ν) : sentBy prim peers now move =
    if storedBy prim now move then (peers move.label.target.1).map (fun peer => (peer, move.label.target.2)) else [] := by
  rw [sentBy, storedBy, Server.handlePublish]
  cases (move.pre.servers move.label.target.1).store.put prim move.label.target.2 now with
  | mk result store =>
      cases result with
      | error e => rfl
      | ok outcome => cases outcome <;> rfl

-- Client publish or delivery, a transition is one `receive`; only a delivery
-- takes a message away first.
theorem step_receive (m m' : Mesh ν) (e : Event ν) (step : Step prim peers now m e m') :
    ∃ flight, (∀ message ∈ flight, message ∈ m.inFlight) ∧ flight.card + 1 = m.inFlight.card + e.client.toList.length ∧
      (e.target.2 ∈ e.client.toList ∨ e.target ∈ m.inFlight) ∧
      m' = { m with inFlight := flight }.receive prim peers now e.target.1 e.target.2 := by
  cases step with
  | publish v record => exact ⟨m.inFlight, fun _ old => old, by simp [Event.client], by simp [Event.client, Event.target], rfl⟩
  | deliver v record waiting =>
      exact ⟨m.inFlight.erase (v, record), fun _ old => Multiset.mem_of_mem_erase old, Multiset.card_erase_add_one waiting,
        .inr waiting, rfl⟩

theorem step_covers (m m' : Mesh ν) (e : Event ν) (step : Step prim peers now m e m') (v : ν) (k : PubKey) (r : SignedRecord)
    (covers : Covers newer (m.held v k) r) : Covers newer (m'.held v k) r := by
  obtain ⟨flight, _, _, _, rfl⟩ := step_receive prim peers now m m' e step
  exact receive_covers prim peers now { m with inFlight := flight } _ _ v k r covers

theorem step_stored_covers (m m' : Mesh ν) (e : Event ν) (step : Step prim peers now m e m')
    (stored : storedBy prim now ⟨m, e, m'⟩ = true) : Covers newer (m'.held e.target.1 e.target.2.key) e.target.2 := by
  have accepted := (stored_by_iff prim now _).mp stored
  obtain ⟨flight, _, _, _, rfl⟩ := step_receive prim peers now m m' e step
  exact receive_accepted_covers prim peers now { m with inFlight := flight } _ _ accepted

omit [DecidableEq ν] in
theorem acceptances_cons (move : Move ν) (rest : List (Move ν)) : acceptances prim now (move :: rest) =
    if storedBy prim now move then move.label.target :: acceptances prim now rest else acceptances prim now rest := by
  by_cases stored : storedBy prim now move = true
  · simp [acceptances, stored]
  · simp [acceptances, stored]

-- What a server holds only moves up, so a record it has once taken is never
-- newer than what it holds again.
theorem covered_not_accepted (m m' : Mesh ν) (run : List (Move ν)) (whole : Run (Step prim peers now) m run m') (v : ν)
    (r : SignedRecord) (covers : Covers newer (m.held v r.key) r) : (v, r) ∉ acceptances prim now run := by
  induction whole with
  | nil => simp [acceptances]
  | cons m mid m' e rest first later ih =>
      have further := ih (step_covers prim peers now m mid e first v r.key r covers)
      rw [acceptances_cons]
      by_cases stored : storedBy prim now ⟨m, e, mid⟩ = true
      · rw [if_pos stored, List.mem_cons, not_or]
        refine ⟨fun same => ?_, further⟩
        have accepted := (stored_by_iff prim now _).mp stored
        simp only at accepted
        rw [← same] at accepted
        exact covered_not_newer (fun a => Record.supersedes_irrefl a.record) newer_trans _ r covers accepted.newer
      · rw [if_neg stored]
        exact further

theorem acceptances_once (m m' : Mesh ν) (run : List (Move ν)) (whole : Run (Step prim peers now) m run m') :
    (acceptances prim now run).Nodup := by
  induction whole with
  | nil => simp [acceptances]
  | cons m mid m' e rest first later ih =>
      rw [acceptances_cons]
      by_cases stored : storedBy prim now ⟨m, e, mid⟩ = true
      · rw [if_pos stored, List.nodup_cons]
        exact ⟨covered_not_accepted prim peers now mid m' rest later _ _
          (step_stored_covers prim peers now m mid e first stored), ih⟩
      · rw [if_neg stored]
        exact ih

def Carried (seen : List SignedRecord) (m : Mesh ν) : Prop := ∀ message ∈ m.inFlight, message.2 ∈ seen

theorem step_carried (seen : List SignedRecord) (m m' : Mesh ν) (e : Event ν) (step : Step prim peers now m e m')
    (carried : Carried seen m) : Carried (e.client.toList ++ seen) m' ∧ e.target.2 ∈ e.client.toList ++ seen := by
  obtain ⟨flight, older, _, origin, rfl⟩ := step_receive prim peers now m m' e step
  have known : e.target.2 ∈ e.client.toList ++ seen := by
    rcases origin with client | waiting
    · exact List.mem_append_left _ client
    · exact List.mem_append_right _ (carried _ waiting)
  refine ⟨fun message waiting => ?_, known⟩
  rcases receive_flight prim peers now { m with inFlight := flight } _ _ message waiting with old | ⟨same, _⟩
  · exact List.mem_append_right _ (carried message (older message old))
  · exact same ▸ known

theorem acceptances_published (seen : List SignedRecord) (m m' : Mesh ν) (run : List (Move ν))
    (whole : Run (Step prim peers now) m run m') (carried : Carried seen m) (pair : ν × SignedRecord)
    (member : pair ∈ acceptances prim now run) : pair.2 ∈ seen ++ published run := by
  induction whole generalizing seen with
  | nil => simp [acceptances] at member
  | cons m mid m' e rest first later ih =>
      obtain ⟨next, known⟩ := step_carried prim peers now seen m mid e first carried
      have earlier : pair.2 ∈ e.client.toList ++ seen ∨ pair ∈ acceptances prim now rest := by
        rw [acceptances_cons] at member
        split at member
        · rcases List.mem_cons.mp member with rfl | inRest
          · exact .inl known
          · exact .inr inRest
        · exact .inr member
      have found : pair.2 ∈ (e.client.toList ++ seen) ++ published rest := by
        rcases earlier with here | inRest
        · exact List.mem_append_left _ here
        · exact ih _ next inRest
      rw [published_cons]
      simp only [List.mem_append] at found ⊢
      tauto

omit [DecidableEq ν] in
theorem messages_eq (run : List (Move ν)) : messages prim peers now run =
    (acceptances prim now run).flatMap (fun pair => (peers pair.1).map (fun peer => (peer, pair.2))) := by
  induction run with
  | nil => rfl
  | cons move rest ih =>
      rw [messages, List.flatMap_cons, ← messages, ih, sent_by_eq, acceptances_cons]
      by_cases stored : storedBy prim now move = true
      · simp [stored]
      · simp [stored]

-- A run makes at most one round of messages for each server and record.
theorem messages_bounded [Fintype ν] (start m : Mesh ν) (run : List (Move ν)) (fresh : Fresh start)
    (reached : Run (Step prim peers now) start run m) :
    (messages prim peers now run).length ≤ (published run).toFinset.card * ∑ v, (peers v).length := by
  have carried : Carried [] start := by
    intro message waiting
    simp [fresh.idle] at waiting
  have once := acceptances_once prim peers now start m run reached
  have within : (acceptances prim now run).toFinset ⊆ Finset.univ ×ˢ (published run).toFinset := by
    intro pair member
    have inRun := acceptances_published prim peers now [] start m run reached carried pair (List.mem_toFinset.mp member)
    exact Finset.mem_product.mpr ⟨Finset.mem_univ _, List.mem_toFinset.mpr (by simpa using inRun)⟩
  calc
    (messages prim peers now run).length
        = ((acceptances prim now run).map (fun pair => (peers pair.1).length)).sum := by
          rw [messages_eq, List.length_flatMap]
          simp only [List.length_map]
    _ = ∑ pair ∈ (acceptances prim now run).toFinset, (peers pair.1).length := (List.sum_toFinset _ once).symm
    _ ≤ ∑ pair ∈ Finset.univ ×ˢ (published run).toFinset, (peers pair.1).length := Finset.sum_le_sum_of_subset within
    _ = (published run).toFinset.card * ∑ v, (peers v).length := by
          rw [Finset.sum_product, Finset.mul_sum]
          simp only [Finset.sum_const, nsmul_eq_mul, Nat.cast_id]

-- Each delivery uses up one of the messages made before it.
theorem run_balance (m m' : Mesh ν) (run : List (Move ν)) (whole : Run (Step prim peers now) m run m') :
    m'.inFlight.card + run.length = m.inFlight.card + (published run).length + (messages prim peers now run).length := by
  induction whole with
  | nil => simp [published, messages]
  | cons m mid m' e rest first later ih =>
      have sent : mid.inFlight.card + 1 = m.inFlight.card + e.client.toList.length + (sentBy prim peers now ⟨m, e, mid⟩).length := by
        obtain ⟨flight, _, used, _, rfl⟩ := step_receive prim peers now m mid e first
        rw [receive, Multiset.card_add, Multiset.coe_card, sentBy]
        simp only
        omega
      rw [published_cons, messages, List.flatMap_cons, ← messages, List.length_cons, List.length_append, List.length_append]
      simp only
      omega

theorem run_bounded [Fintype ν] (start m : Mesh ν) (run : List (Move ν)) (fresh : Fresh start)
    (reached : Run (Step prim peers now) start run m) :
    run.length ≤ (published run).length + (published run).toFinset.card * ∑ v, (peers v).length := by
  have balance := run_balance prim peers now start m run reached
  have bounded := messages_bounded prim peers now start m run fresh reached
  rw [fresh.idle, Multiset.card_zero] at balance
  omega

omit [DecidableEq ν] in
theorem published_stops (states : Nat → Mesh ν) (events : Nat → Event ν) (n : Nat)
    (last : ∀ i, n ≤ i → (events i).isPublish = false) (further : Nat) :
    published (firstMoves states events (n + further)) = published (firstMoves states events n) := by
  induction further with
  | zero => rfl
  | succ further ih =>
      have quiet : (events (n + further)).client = none := by
        have silent := last (n + further) (by omega)
        cases event : events (n + further) with
        | publish v record =>
            rw [event] at silent
            cases silent
        | deliver v record => rfl
      rw [← Nat.add_assoc, firstMoves, published, List.filterMap_append, ← published, ih]
      simp [quiet]

theorem pushes_cannot_storm [Fintype ν] :
    (∀ (start m : Mesh ν) (run : List (Move ν)), Fresh start → Run (Step prim peers now) start run m →
      (acceptances prim now run).Nodup ∧
      (messages prim peers now run).length ≤ (published run).toFinset.card * ∑ v, (peers v).length ∧
      run.length ≤ (published run).length + (published run).toFinset.card * ∑ v, (peers v).length) ∧
    ∀ (states : Nat → Mesh ν) (events : Nat → Event ν), Fresh (states 0) →
      (∀ n, Step prim peers now (states n) (events n) (states (n + 1))) → ∀ n, ∃ i, n ≤ i ∧ (events i).isPublish = true := by
  constructor
  · intro start m run fresh reached
    exact ⟨acceptances_once prim peers now start m run reached, messages_bounded prim peers now start m run fresh reached,
      run_bounded prim peers now start m run fresh reached⟩
  · intro states events fresh steps n
    by_contra never
    have last : ∀ i, n ≤ i → (events i).isPublish = false := by
      intro i later
      by_contra published
      exact never ⟨i, later, by simpa using published⟩
    -- From `n` on nothing new is published, so the bound no longer grows.
    generalize fixed : published (firstMoves states events n) = sent at *
    let bound := sent.length + sent.toFinset.card * ∑ v, (peers v).length
    have tooLong := run_bounded prim peers now _ _ _ fresh (first_moves_run states events steps (n + (bound + 1)))
    rw [published_stops states events n last, fixed, first_moves_length] at tooLong
    simp only [bound] at tooLong
    omega

section Sample

open Sample

def across : Bool → List Bool := fun v => [!v]

-- The record comes back to where it was published and goes no further.
theorem pushes_cannot_storm_pair :
    let first := pair.receive ed25519 across 1000 false publish
    let second := { first with inFlight := first.inFlight.erase (true, publish) }.receive ed25519 across 1000 true publish
    let last := { second with inFlight := second.inFlight.erase (false, publish) }.receive ed25519 across 1000 false publish
    let run : List (Move Bool) := [⟨pair, .publish false publish, first⟩, ⟨first, .deliver true publish, second⟩,
      ⟨second, .deliver false publish, last⟩]
    acceptances ed25519 1000 run = [(false, publish), (true, publish)] ∧ (acceptances ed25519 1000 run).Nodup ∧
      messages ed25519 across 1000 run = [(true, publish), (false, publish)] ∧
      (messages ed25519 across 1000 run).length ≤ (published run).toFinset.card * ∑ v, (across v).length ∧
      run.length ≤ (published run).length + (published run).toFinset.card * ∑ v, (across v).length := by
  intro first second last run
  have fresh : Fresh pair := ⟨fun _ => rfl, rfl⟩
  have whole : Run (Step ed25519 across 1000) pair run last :=
    .cons _ first _ _ _ (.publish pair false publish) (.cons _ second _ _ _ (.deliver first true publish (by decide +kernel))
      (.cons _ last _ _ _ (.deliver second false publish (by decide +kernel)) (.nil last)))
  obtain ⟨once, sent, steps⟩ := (pushes_cannot_storm ed25519 across 1000).1 pair last run fresh whole
  exact ⟨by decide +kernel, once, by decide +kernel, sent, steps⟩

end Sample

end Sqns.Mesh
