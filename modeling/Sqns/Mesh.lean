import Mathlib.Data.Multiset.AddSub
import Mathlib.Logic.Relation
import Sqns.Convergence
import Sqns.Server

set_option autoImplicit false

namespace Sqns

open Store Merge Trace

-- Servers that push to each other at one instant. A message is the server it is
-- addressed to and the record it publishes.
structure Mesh (ν : Type) where
  servers : ν → Server
  inFlight : Multiset (ν × SignedRecord)

namespace Mesh

variable {ν : Type} [DecidableEq ν] (prim : Primitives) (peers : ν → List ν) (now : Nat)

-- `Replicator::push` asks the peers one after the other and does not look at
-- what they answer, so all its messages are on their way at once.
def push (targets : List ν) : Option SignedRecord → List (ν × SignedRecord)
  | some record => targets.map (fun peer => (peer, record))
  | none => []

def receive (m : Mesh ν) (v : ν) (record : SignedRecord) : Mesh ν :=
  let handled := (m.servers v).handlePublish prim record now
  { servers := Function.update m.servers v { m.servers v with store := handled.store }
    inFlight := m.inFlight + ↑(push (peers v) handled.push) }

inductive Event (ν : Type) where
  | publish (v : ν) (record : SignedRecord)
  | deliver (v : ν) (record : SignedRecord)

inductive Step : Mesh ν → Event ν → Mesh ν → Prop where
  | publish (m : Mesh ν) (v : ν) (record : SignedRecord) : Step m (.publish v record) (m.receive prim peers now v record)
  | deliver (m : Mesh ν) (v : ν) (record : SignedRecord) (waiting : (v, record) ∈ m.inFlight) :
      Step m (.deliver v record) ({ m with inFlight := m.inFlight.erase (v, record) }.receive prim peers now v record)

def Event.isPublish : Event ν → Bool
  | .publish _ _ => true
  | .deliver _ _ => false

def Event.client : Event ν → Option SignedRecord
  | .publish _ record => some record
  | .deliver _ _ => none

def published (run : List (Transition (Mesh ν) (Event ν))) : List SignedRecord := run.filterMap (fun move => move.label.client)

structure Fresh (m : Mesh ν) : Prop where
  empty : ∀ v, (m.servers v).store = Store.new
  idle : m.inFlight = 0

def held (m : Mesh ν) (v : ν) (k : PubKey) : Option SignedRecord := (m.servers v).store.records.lookup k

-- The two things a Publish can do at the server it reaches.
theorem receive_cases (m : Mesh ν) (v : ν) (record : SignedRecord) :
    (Accepted prim (m.servers v).store record now ∧
      m.receive prim peers now v record =
        { servers := Function.update m.servers v { m.servers v with store := (m.servers v).store.accept record }
          inFlight := m.inFlight + ↑((peers v).map (fun peer => (peer, record))) }) ∨
    (¬ Accepted prim (m.servers v).store record now ∧ m.receive prim peers now v record = m) := by
  unfold receive Server.handlePublish
  rcases put_cases prim (m.servers v).store record now with ⟨e, refused⟩ | ⟨stale, old, found, live, under⟩ | ⟨accepted, stored⟩
  · right
    refine ⟨fun accepted => ?_, by simp [refused, push]⟩
    rw [put_accepted prim _ record now accepted] at refused
    cases refused
  · right
    refine ⟨fun accepted => ?_, by simp [stale, push]⟩
    rw [accepted.newer old found] at under
    cases under
  · left
    exact ⟨accepted, by simp [stored, push]⟩

section Receive

variable (m : Mesh ν) (v : ν) (record : SignedRecord)

theorem receive_keeps_flight (message : ν × SignedRecord) (waiting : message ∈ m.inFlight) :
    message ∈ (m.receive prim peers now v record).inFlight := Multiset.mem_add.mpr (.inl waiting)

theorem receive_flight (message : ν × SignedRecord) (waiting : message ∈ (m.receive prim peers now v record).inFlight) :
    message ∈ m.inFlight ∨ message.2 = record ∧ Accepted prim (m.servers v).store record now := by
  rcases receive_cases prim peers now m v record with ⟨accepted, taken⟩ | ⟨_, same⟩
  · rw [taken, Multiset.mem_add, Multiset.mem_coe] at waiting
    rcases waiting with old | sent
    · exact .inl old
    · obtain ⟨peer, _, rfl⟩ := List.mem_map.mp sent
      exact .inr ⟨rfl, accepted⟩
  · exact .inl (same ▸ waiting)

theorem receive_held (u : ν) (k : PubKey) (r : SignedRecord) (found : (m.receive prim peers now v record).held u k = some r) :
    m.held u k = some r ∨ (u = v ∧ k = record.key ∧ r = record ∧ Accepted prim (m.servers v).store record now ∧
      ∀ peer ∈ peers v, (peer, record) ∈ (m.receive prim peers now v record).inFlight) := by
  rcases receive_cases prim peers now m v record with ⟨accepted, taken⟩ | ⟨_, same⟩
  · rw [taken] at found ⊢
    by_cases here : u = v
    · subst here
      simp only [held, Function.update_self, accept_records_lookup] at found
      by_cases own : k = record.key
      · rw [if_pos own, Option.some.injEq] at found
        refine .inr ⟨rfl, own, found.symm, accepted, fun peer member => ?_⟩
        exact Multiset.mem_add.mpr (.inr (List.mem_map.mpr ⟨peer, member, rfl⟩))
      · rw [if_neg own] at found
        exact .inl found
    · simp only [held, Function.update_of_ne here] at found
      exact .inl found
  · exact .inl (same ▸ found)

-- A server never goes back: what it holds covers all it ever held.
theorem receive_covers (u : ν) (k : PubKey) (r : SignedRecord) (covers : Covers newer (m.held u k) r) :
    Covers newer ((m.receive prim peers now v record).held u k) r := by
  rcases receive_cases prim peers now m v record with ⟨accepted, taken⟩ | ⟨_, same⟩
  · obtain ⟨h, found, ahead⟩ := covers
    rw [taken]
    by_cases here : u = v ∧ k = record.key
    · obtain ⟨rfl, rfl⟩ := here
      have wins : newer record h = true := accepted.newer h found
      refine covers_trans newer_trans _ h r ⟨record, ?_, .inr wins⟩ ahead
      simp [held]
    · refine ⟨h, ?_, ahead⟩
      by_cases other : u = v
      · subst other
        have distinct : k ≠ record.key := fun own => here ⟨rfl, own⟩
        simpa [held, distinct] using found
      · simpa [held, other] using found
  · rwa [same]

theorem receive_accepted_covers (accepted : Accepted prim (m.servers v).store record now) :
    Covers newer ((m.receive prim peers now v record).held v record.key) record := by
  rcases receive_cases prim peers now m v record with ⟨_, taken⟩ | ⟨refused, _⟩
  · refine ⟨record, ?_, .inl rfl⟩
    rw [taken]
    simp [held]
  · exact False.elim (refused accepted)

theorem receive_mirrored (mirrored : ∀ u, Mirrored (m.servers u).store) (u : ν) :
    Mirrored ((m.receive prim peers now v record).servers u).store := by
  rcases receive_cases prim peers now m v record with ⟨accepted, taken⟩ | ⟨_, same⟩
  · rw [taken]
    by_cases here : u = v
    · subst here
      have stored := put_mirrored prim (m.servers u).store record now (mirrored u)
      rw [put_accepted prim _ record now accepted] at stored
      simpa using stored
    · simpa [here] using mirrored u
  · rw [same]
    exact mirrored u

end Receive

-- While messages are on their way, an edge of the peer graph either still
-- carries what its source holds or its target is at least as far.
structure Spread (all seen : List SignedRecord) (m : Mesh ν) : Prop where
  mirrored : ∀ v, Mirrored (m.servers v).store
  known : ∀ v k r, m.held v k = some r → r ∈ slot prim now k all
  carried : ∀ v r, (v, r) ∈ m.inFlight → r ∈ all
  somewhere : ∀ r ∈ seen, admission prim r now = .ok () → ∃ v, Covers newer (m.held v r.key) r
  edges : ∀ v, ∀ peer ∈ peers v, ∀ k r, m.held v k = some r →
    (peer, r) ∈ m.inFlight ∨ Covers newer (m.held peer k) r

omit [DecidableEq ν] in
theorem fresh_spread (all : List SignedRecord) (m : Mesh ν) (fresh : Fresh m) : Spread prim peers now all [] m := by
  have nothing : ∀ v k, m.held v k = none := by
    intro v k
    simp [held, fresh.empty v, Store.new]
  refine ⟨fun v => fresh.empty v ▸ new_mirrored, ?_, ?_, ?_, ?_⟩
  · intro v k r found
    rw [nothing] at found
    cases found
  · intro v r waiting
    simp [fresh.idle] at waiting
  · simp
  · intro v peer _ k r found
    rw [nothing] at found
    cases found

omit [DecidableEq ν] in
theorem spread_pinned (all seen : List SignedRecord) (m : Mesh ν) (v : ν) (record : SignedRecord) (honest : Honest all)
    (spread : Spread prim peers now all seen m) (inAll : record ∈ all) (bound : PubKey)
    (found : (m.servers v).store.bindings.lookup record.key = some bound) : record.identity = bound := by
  rw [(spread.mirrored v).bindings] at found
  obtain ⟨r, holds, rfl⟩ := Option.map_eq_some_iff.mp found
  obtain ⟨known, own, _⟩ := (mem_slot prim now record.key all r).mp (spread.known v _ r holds)
  exact honest.identity record inAll r known own.symm

-- A published record that passes the checks is covered wherever it arrives: the
-- server takes it, or holds something the record does not beat.
theorem receive_taken (all seen : List SignedRecord) (m : Mesh ν) (v : ν) (record : SignedRecord) (honest : Honest all)
    (spread : Spread prim peers now all seen m) (inAll : record ∈ all) (checks : admission prim record now = .ok ()) :
    Covers newer ((m.receive prim peers now v record).held v record.key) record := by
  by_cases accepted : Accepted prim (m.servers v).store record now
  · exact receive_accepted_covers prim peers now m v record accepted
  · apply receive_covers
    by_contra uncovered
    apply accepted
    refine ⟨(admission_ok_iff prim record now).mp checks, spread_pinned prim peers now all seen m v record honest spread inAll, ?_⟩
    intro h holds
    have here : record ∈ slot prim now record.key all := (mem_slot prim now record.key all record).mpr ⟨inAll, rfl, checks⟩
    have there := spread.known v record.key h holds
    rcases slot_comparable prim now record.key all honest h there record here with same | beats | wins
    · exact False.elim (uncovered ⟨h, holds, .inl same⟩)
    · exact False.elim (uncovered ⟨h, holds, .inr beats⟩)
    · exact wins

-- `flight` is what is left on the way once the message that brought the record,
-- if one did, is gone.
theorem receive_spread (all seen : List SignedRecord) (m : Mesh ν) (v : ν) (record : SignedRecord)
    (flight : Multiset (ν × SignedRecord)) (honest : Honest all) (spread : Spread prim peers now all seen m)
    (inAll : record ∈ all) (older : ∀ message ∈ flight, message ∈ m.inFlight)
    (kept : ∀ message ∈ m.inFlight, message = (v, record) ∨ message ∈ flight) :
    Spread prim peers now all (record :: seen) ({ m with inFlight := flight }.receive prim peers now v record) := by
  let left : Mesh ν := { m with inFlight := flight }
  have taken := receive_taken prim peers now all seen m v record honest spread inAll
  have onward := fun u k r => receive_covers prim peers now left v record u k r
  refine ⟨receive_mirrored prim peers now left v record spread.mirrored, ?_, ?_, ?_, ?_⟩
  · intro u k r found
    rcases receive_held prim peers now left v record u k r found with old | ⟨_, rfl, rfl, accepted, _⟩
    · exact spread.known u k r old
    · exact (mem_slot prim now _ all r).mpr ⟨inAll, rfl, (admission_ok_iff prim r now).mpr accepted.admitted⟩
  · intro u r waiting
    rcases receive_flight prim peers now left v record (u, r) waiting with old | ⟨same, _⟩
    · exact spread.carried u r (older _ old)
    · cases same
      exact inAll
  · intro r member checks
    rcases List.mem_cons.mp member with rfl | earlier
    · exact ⟨v, taken checks⟩
    · obtain ⟨u, covers⟩ := spread.somewhere r earlier checks
      exact ⟨u, onward u r.key r covers⟩
  · intro u peer member k r found
    rcases receive_held prim peers now left v record u k r found with old | ⟨rfl, _, rfl, _, sent⟩
    · rcases spread.edges u peer member k r old with waiting | covers
      · obtain ⟨_, own, checks⟩ := (mem_slot prim now k all r).mp (spread.known u k r old)
        rcases kept (peer, r) waiting with same | still
        · cases same
          exact .inr (own ▸ taken checks)
        · exact .inl (receive_keeps_flight prim peers now left v record _ still)
      · exact .inr (onward peer k r covers)
    · exact .inl (sent peer member)

omit [DecidableEq ν] in
theorem spread_of_subset (all seen fewer : List SignedRecord) (m : Mesh ν) (spread : Spread prim peers now all seen m)
    (sub : ∀ r ∈ fewer, r ∈ seen) : Spread prim peers now all fewer m :=
  { spread with somewhere := fun r member => spread.somewhere r (sub r member) }

theorem step_spread (all seen : List SignedRecord) (m m' : Mesh ν) (e : Event ν) (honest : Honest all)
    (spread : Spread prim peers now all seen m) (sent : ∀ r, e.client = some r → r ∈ all)
    (step : Step prim peers now m e m') : Spread prim peers now all (e.client.toList ++ seen) m' := by
  cases step with
  | publish v record =>
      exact receive_spread prim peers now all seen m v record m.inFlight honest spread (sent record rfl) (fun _ old => old)
        (fun _ old => .inr old)
  | deliver v record waiting =>
      refine spread_of_subset prim peers now all _ _ _ (receive_spread prim peers now all seen m v record _ honest spread
        (spread.carried v record waiting) (fun _ old => Multiset.mem_of_mem_erase old) ?_)
        (fun r member => List.mem_cons_of_mem _ member)
      intro message old
      by_cases same : message = (v, record)
      · exact .inl same
      · exact .inr ((Multiset.mem_erase_of_ne same).mpr old)

omit [DecidableEq ν] in
theorem published_cons (move : Transition (Mesh ν) (Event ν)) (rest : List (Transition (Mesh ν) (Event ν))) :
    published (move :: rest) = move.label.client.toList ++ published rest := by
  cases client : move.label.client with
  | none => simp [published, client]
  | some r => simp [published, client]

theorem run_spread (all seen : List SignedRecord) (m m' : Mesh ν) (run : List (Transition (Mesh ν) (Event ν)))
    (honest : Honest all) (whole : Run (Step prim peers now) m run m') (sent : ∀ r ∈ published run, r ∈ all)
    (spread : Spread prim peers now all seen m) : Spread prim peers now all (seen ++ published run) m' := by
  induction whole generalizing seen with
  | nil m => exact spread_of_subset prim peers now all seen _ m spread (by simp [published])
  | cons m mid m' e rest first later ih =>
      rw [published_cons] at sent ⊢
      have next := step_spread prim peers now all seen m mid e honest spread (fun r same => sent r (by simp [same])) first
      have final := ih (e.client.toList ++ seen) (fun r member => sent r (List.mem_append_right _ member)) next
      refine spread_of_subset prim peers now all _ _ m' final ?_
      intro r member
      simp only [List.mem_append] at member ⊢
      tauto

omit [DecidableEq ν] in
-- With nothing on its way the edges alone order the servers, so along a path
-- what is held only grows, and around a cycle it is the same.
theorem quiet_path_covers (all seen : List SignedRecord) (m : Mesh ν) (spread : Spread prim peers now all seen m)
    (quiet : m.inFlight = 0) (u v : ν) (path : Relation.ReflTransGen (fun a b => b ∈ peers a) u v) (k : PubKey)
    (r : SignedRecord) (found : m.held u k = some r) : Covers newer (m.held v k) r := by
  induction path with
  | refl => exact ⟨r, found, .inl rfl⟩
  | tail _ edge ih =>
      obtain ⟨h, holds, ahead⟩ := ih
      rcases spread.edges _ _ edge k h holds with waiting | covers
      · simp [quiet] at waiting
      · exact covers_trans newer_trans _ h r covers ahead

theorem quiescent_mesh_agrees (start m : Mesh ν) (run : List (Transition (Mesh ν) (Event ν))) (fresh : Fresh start)
    (reached : Run (Step prim peers now) start run m)
    (connected : ∀ u v, Relation.ReflTransGen (fun a b => b ∈ peers a) u v) (honest : Honest (published run))
    (quiet : m.inFlight = 0) (v : ν) (k : PubKey) :
    (∀ r, m.held v k = some r ↔ Greatest newer (slot prim now k (published run)) r) ∧
      (m.held v k = none ↔ slot prim now k (published run) = []) := by
  have spread := run_spread prim peers now (published run) [] start m run honest reached (fun _ member => member)
    (fresh_spread prim peers now (published run) start fresh)
  have top : ∀ r ∈ slot prim now k (published run), Covers newer (m.held v k) r := by
    intro r member
    obtain ⟨inRun, rfl, checks⟩ := (mem_slot prim now k _ r).mp member
    obtain ⟨u, h, holds, ahead⟩ := spread.somewhere r (by simpa using inRun) checks
    exact covers_trans newer_trans _ h r (quiet_path_covers prim peers now _ _ m spread quiet u v (connected u v) _ h holds) ahead
  have greatest : ∀ r, m.held v k = some r → Greatest newer (slot prim now k (published run)) r := by
    intro r holds
    refine ⟨spread.known v k r holds, fun x member => ?_⟩
    obtain ⟨h, found, ahead⟩ := top x member
    rw [holds, Option.some.injEq] at found
    subst found
    exact ahead.imp Eq.symm id
  constructor
  · intro r
    refine ⟨greatest r, fun best => ?_⟩
    obtain ⟨h, holds, _⟩ := top r best.member
    rw [holds, greatest_unique (fun a => Record.supersedes_irrefl a.record) newer_trans _ h r (greatest h holds) best]
  · constructor
    · intro nothing
      refine List.eq_nil_iff_forall_not_mem.mpr (fun r member => ?_)
      obtain ⟨h, holds, _⟩ := top r member
      rw [nothing] at holds
      cases holds
    · intro empty
      cases holds : m.held v k with
      | none => rfl
      | some r =>
          have member := (greatest r holds).member
          rw [empty] at member
          cases member

section Sample

open Sample

-- Two servers that list each other as peers.
def pair : Mesh Bool := ⟨fun _ => ⟨Store.new, 1, 0, 0, true⟩, 0⟩

theorem quiescent_mesh_agrees_pair :
    let across : Bool → List Bool := fun v => [!v]
    let first := pair.receive ed25519 across 1000 false publish
    let second := { first with inFlight := first.inFlight.erase (true, publish) }.receive ed25519 across 1000 true publish
    let last := { second with inFlight := second.inFlight.erase (false, publish) }.receive ed25519 across 1000 false publish
    last.inFlight = 0 ∧ last.held true node = some publish ∧ last.held false node = some publish := by
  intro across first second last
  have run : Run (Step ed25519 across 1000) pair [_, _, _] last :=
    .cons _ first _ _ _ (.publish pair false publish) (.cons _ second _ _ _ (.deliver first true publish (by decide +kernel))
      (.cons _ last _ _ _ (.deliver second false publish (by decide +kernel)) (.nil last)))
  have quiet : last.inFlight = 0 := by decide +kernel
  have connected : ∀ u v : Bool, Relation.ReflTransGen (fun a b => b ∈ across a) u v := by
    intro u v
    by_cases same : u = v
    · exact same ▸ .refl
    · exact .single (by simpa [across] using Bool.eq_not_of_ne (Ne.symm same))
  have honest : Honest [publish] := ⟨by decide +kernel, by decide +kernel, by decide +kernel⟩
  have agrees := quiescent_mesh_agrees ed25519 across 1000 pair last _ ⟨fun _ => rfl, rfl⟩ run connected honest quiet
  have best : Greatest newer (slot ed25519 1000 node [publish]) publish := by
    refine ⟨(mem_slot ed25519 1000 node [publish] publish).mpr ⟨by simp, rfl, by decide +kernel⟩, ?_⟩
    intro x member
    exact .inl (by simpa using ((mem_slot ed25519 1000 node [publish] x).mp member).1)
  exact ⟨quiet, ((agrees true node).1 publish).mpr best, ((agrees false node).1 publish).mpr best⟩

end Sample

end Mesh

end Sqns
