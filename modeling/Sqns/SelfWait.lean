import Sqns.Forwarding

set_option autoImplicit false

namespace Sqns.Forwarding

open Trace Walks Upstream

variable {ν : Type} [DecidableEq ν] (prim : Primitives) (debug : Response → String) (net : ν → Node ν) (inflight : ν → Nat)
  (key : PubKey) (now : Nat)

-- The lock the next forward needs is not one the chain holds.
def Unheld (c : Chain ν) : Prop :=
  ∀ call, c.head = .asking call → call.place < (net call.server).upstream.links.length → call.link ∉ locks c.waiting

structure NeverWaits (s : ν) (recurse : UInt8) : Prop where
  unheld : ∀ run c, Moves prim debug net inflight key s recurse run c → Unheld net c
  stops : ∀ run c, Moves prim debug net inflight key s recurse run c →
    ∀ now, step prim debug net inflight key c now = none → Answered c
  bounded : ∃ most, ∀ run c, Moves prim debug net inflight key s recurse run c → run.length ≤ most

-- A walk the chain can hold all the links of: none of them twice, and no more
-- from one server than it has permits.
def Fits (walk : List (Link ν)) : Prop := walk.Nodup ∧ ∀ v, walk.countP (fun l => l.1 = v) ≤ max (inflight v) 1

def Fitting (s : ν) (budget : Nat) : Prop :=
  ∀ t walk, Walk (neighbours net) s walk t → walk.length ≤ budget → Fits inflight walk

-- With as many permits as the walk is long, only its links matter.
theorem fits_of_room (walk : List (Link ν)) (once : walk.Nodup) (room : ∀ v, walk.length ≤ inflight v) : Fits inflight walk :=
  ⟨once, fun v => Nat.le_trans List.countP_le_length (Nat.le_trans (room v) (Nat.le_max_left _ _))⟩

theorem fits_snoc (waiting : List (Call ν)) (v : ν) (i : Nat) : Fits inflight ((locks waiting).reverse ++ [(v, i)]) ↔
    Fits inflight (locks waiting).reverse ∧ Permitted inflight waiting v ∧ (v, i) ∉ locks waiting := by
  have own : [(v, i)].countP (fun l => l.1 = v) = 1 := by simp
  simp only [Fits, Permitted, List.nodup_append, List.countP_append, List.countP_reverse]
  constructor
  · rintro ⟨⟨once, _, apart⟩, room⟩
    refine ⟨⟨once, fun u => ?_⟩, ?_, ?_⟩
    · exact Nat.le_trans (Nat.le_add_right _ _) (room u)
    · have last := room v
      rw [own] at last
      exact last
    · intro held
      exact apart _ (List.mem_reverse.mpr held) _ (List.mem_singleton.mpr rfl) rfl
  · rintro ⟨⟨once, room⟩, permit, free⟩
    refine ⟨⟨once, by simp, ?_⟩, ?_⟩
    · intro l held l' last same
      rw [List.mem_singleton] at last
      rw [same, last, List.mem_reverse] at held
      exact free held
    · intro u
      by_cases same : v = u
      · subst same
        rw [own]
        exact permit
      · simpa [same] using room u

-- Where the walks fit, the innermost call can always go out on its next link.
theorem along_ready (s : ν) (budget : Nat) (fitting : Fitting net inflight s budget) (waiting : List (Call ν)) (call : Call ν)
    (path : Path net s budget waiting call.server (call.recurse.toNat + 1))
    (more : call.place < (net call.server).upstream.links.length) :
    Permitted inflight waiting call.server ∧ call.link ∉ locks waiting := by
  obtain ⟨walk, spent⟩ := path_walk net s budget waiting _ _ path
  have link := link_neighbour net call.server call.place _ (List.getElem?_eq_getElem more)
  have fits := fitting _ _ (walk_snoc s call.server _ call.place _ walk link) (by
    rw [List.length_append, List.length_reverse, locks, List.length_map, List.length_singleton]
    omega)
  exact ((fits_snoc inflight waiting call.server call.place).mp fits).2

theorem along_stops (s : ν) (budget : Nat) (fitting : Fitting net inflight s budget) (c : Chain ν)
    (along : Along net s budget c) (stuck : step prim debug net inflight key c now = none) : Answered c := by
  obtain ⟨head, waiting, caches⟩ := c
  cases head with
  | arriving v recurse => cases stuck
  | asking call =>
      cases found : (net call.server).upstream.links[call.place]? with
      | none => simp [step, found] at stuck
      | some link =>
          have more := (List.getElem?_eq_some_iff.mp found).1
          have ready := along_ready net inflight s budget fitting waiting call along more
          simp [step, found, ready] at stuck
  | replying response =>
      cases waiting with
      | nil => exact ⟨response, rfl, rfl⟩
      | cons call rest =>
          obtain ⟨v, hops, there, _⟩ := along
          rw [neighbours, List.getElem?_map, Option.map_eq_some_iff] at there
          obtain ⟨link, found, _⟩ := there
          simp only [step, found, Option.bind_some, Option.map_eq_none_iff] at stuck
          rcases resume_cases prim debug net key now caches call link response with ⟨relayed, turn⟩ | ⟨answered, errors, turn⟩
          · rw [turn] at stuck
            cases stuck
          · rw [turn] at stuck
            cases stuck

section Whole

variable (s : ν) (recurse : UInt8)

theorem fitting_never_waits (fitting : Fitting net inflight s (budgeted recurse)) :
    NeverWaits prim debug net inflight key s recurse where
  unheld := by
    intro run c moves call asking more
    have along := moves_along prim debug net inflight key s recurse run c moves
    rw [Along, asking] at along
    exact (along_ready net inflight s (budgeted recurse) fitting c.waiting call along more).2
  stops := by
    intro run c moves now stuck
    have along := moves_along prim debug net inflight key s recurse run c moves
    exact along_stops prim debug net inflight key now s (budgeted recurse) fitting c along stuck
  bounded := ⟨_, moves_bounded prim debug net inflight key s recurse⟩

end Whole

-- A reply that makes the loop go on to its next link.
def Fruitless : Response → Prop
  | .answer none _ => True
  | .error _ _ => True
  | _ => False

theorem resume_fruitless (caches : ν → Option Cache) (call : Call ν) (link : PeerLink ν) (response : Response)
    (fruitless : Fruitless response) : ∃ answered errors, resume prim debug net key now caches call link response =
      some (.asking { call with place := call.place + 1, answered, errors }, caches) := by
  cases response with
  | answer record successor =>
      cases record with
      | none => exact ⟨_, _, rfl⟩
      | some record => cases fruitless
  | error code message => exact ⟨_, _, rfl⟩
  | published serial expiresAt => cases fruitless
  | status info => cases fruitless
  | records batch complete => cases fruitless

theorem relay_fruitless (links count : Nat) (lines : List String) : Fruitless (relay (conclude links (.error (count, lines)))) := by
  cases concluded : conclude links (.error (count, lines)) with
  | error e => trivial
  | ok found =>
      cases found with
      | none => trivial
      | some relayed => exact False.elim (conclude_no_record links count lines relayed concluded)

section Reached

variable (s : ν) (recurse : UInt8) (unheld : ∀ v now, (net v).store.get key now = none)
  (never : NeverWaits prim debug net inflight key s recurse)

def Reached (c : Chain ν) : Prop := ∃ run, Moves prim debug net inflight key s recurse run c

theorem reached_step (c d : Chain ν) (reached : Reached prim debug net inflight key s recurse c)
    (taken : step prim debug net inflight key c 0 = some d) : Reached prim debug net inflight key s recurse d := by
  obtain ⟨run, moves⟩ := reached
  exact ⟨run ++ [⟨c, 0, d⟩], run_append.mpr ⟨c, moves, .cons c d d 0 [] taken (.nil d)⟩⟩

include unheld in
theorem reached_stop (v : ν) (hops : UInt8) (waiting : List (Call ν)) (last : hops = 0 ∨ (net v).upstream.links.length = 0)
    (reached : Reached prim debug net inflight key s recurse ⟨.arriving v hops, waiting, uncached⟩) :
    Reached prim debug net inflight key s recurse ⟨.replying (.answer none none), waiting, uncached⟩ := by
  refine reached_step prim debug net inflight key s recurse _ _ reached ?_
  simp only [step, arrive_stops net key 0 v hops (unheld v 0) last]

include unheld in
theorem reached_enter (v : ν) (hops : UInt8) (waiting : List (Call ν)) (more : hops ≠ 0)
    (linked : (net v).upstream.links.length ≠ 0)
    (reached : Reached prim debug net inflight key s recurse ⟨.arriving v hops, waiting, uncached⟩) :
    Reached prim debug net inflight key s recurse ⟨.asking ⟨v, hops - 1, 0, 0, []⟩, waiting, uncached⟩ := by
  refine reached_step prim debug net inflight key s recurse _ _ reached ?_
  simp only [step, arrive_enters net key 0 v hops (unheld v 0) more linked]

theorem reached_finish (call : Call ν) (waiting : List (Call ν))
    (through : (net call.server).upstream.links[call.place]? = none)
    (reached : Reached prim debug net inflight key s recurse ⟨.asking call, waiting, uncached⟩) :
    ∃ response, Fruitless response ∧
      Reached prim debug net inflight key s recurse ⟨.replying response, waiting, uncached⟩ := by
  refine ⟨_, relay_fruitless (net call.server).upstream.links.length call.answered call.errors,
    reached_step prim debug net inflight key s recurse _ _ reached ?_⟩
  simp only [step, through, close_uncached]

include never in
theorem reached_forward (call : Call ν) (link : PeerLink ν) (waiting : List (Call ν))
    (found : (net call.server).upstream.links[call.place]? = some link)
    (reached : Reached prim debug net inflight key s recurse ⟨.asking call, waiting, uncached⟩) :
    (Permitted inflight waiting call.server ∧ call.link ∉ locks waiting) ∧
      Reached prim debug net inflight key s recurse
        ⟨.arriving link.server (min call.recurse maxRecurse), call :: waiting, uncached⟩ := by
  by_cases ready : Permitted inflight waiting call.server ∧ call.link ∉ locks waiting
  · refine ⟨ready, reached_step prim debug net inflight key s recurse _ _ reached ?_⟩
    simp only [step, found, if_pos ready]
  · obtain ⟨run, moves⟩ := reached
    have stuck : step prim debug net inflight key ⟨.asking call, waiting, uncached⟩ 0 = none := by
      simp only [step, found, if_neg ready]
    obtain ⟨response, replying, _⟩ := never.stops run _ moves 0 stuck
    cases replying

-- The reply finds its call where it was left, and the loop moves on.
theorem reached_next (call : Call ν) (waiting : List (Call ν)) (response : Response) (fruitless : Fruitless response)
    (reached : Reached prim debug net inflight key s recurse ⟨.replying response, call :: waiting, uncached⟩) :
    ∃ answered errors, Reached prim debug net inflight key s recurse
      ⟨.asking { call with place := call.place + 1, answered, errors }, waiting, uncached⟩ := by
  obtain ⟨run, moves⟩ := reached
  obtain ⟨v, hops, there, _⟩ := moves_along prim debug net inflight key s recurse run _ moves
  rw [neighbours, List.getElem?_map, Option.map_eq_some_iff] at there
  obtain ⟨link, found, _⟩ := there
  obtain ⟨answered, errors, turn⟩ := resume_fruitless prim debug net key 0 uncached call link response fruitless
  refine ⟨answered, errors, reached_step prim debug net inflight key s recurse _ _ ⟨run, moves⟩ ?_⟩
  simp only [step, found, Option.bind_some, turn, Option.map_some]

def Returns (hops : UInt8) : Prop := ∀ v call waiting,
  Reached prim debug net inflight key s recurse ⟨.arriving v hops, call :: waiting, uncached⟩ →
    ∃ answered errors, Reached prim debug net inflight key s recurse
      ⟨.asking { call with place := call.place + 1, answered, errors }, waiting, uncached⟩

include never in
theorem reached_place (v : ν) (sent : UInt8) (waiting : List (Call ν))
    (returns : Returns prim debug net inflight key s recurse (min sent maxRecurse))
    (reached : Reached prim debug net inflight key s recurse ⟨.asking ⟨v, sent, 0, 0, []⟩, waiting, uncached⟩)
    (place : Nat) (within : place ≤ (net v).upstream.links.length) :
    ∃ answered errors, Reached prim debug net inflight key s recurse
      ⟨.asking ⟨v, sent, place, answered, errors⟩, waiting, uncached⟩ := by
  induction place with
  | zero => exact ⟨0, [], reached⟩
  | succ place ih =>
      obtain ⟨answered, errors, here⟩ := ih (by omega)
      have found : (net v).upstream.links[place]? = some (net v).upstream.links[place] := List.getElem?_eq_getElem (by omega)
      have forwarded := (reached_forward prim debug net inflight key s recurse never ⟨v, sent, place, answered, errors⟩ _
        waiting found here).2
      exact returns _ _ waiting forwarded

include unheld never in
theorem every_call_returns (depth : Nat) (hops : UInt8) (low : hops.toNat ≤ depth) :
    Returns prim debug net inflight key s recurse hops := by
  induction depth generalizing hops with
  | zero =>
      intro v call waiting reached
      have spent : hops = 0 := UInt8.toNat_inj.mp (Nat.le_zero.mp low)
      exact reached_next prim debug net inflight key s recurse call waiting (.answer none none) trivial
        (reached_stop prim debug net inflight key s recurse unheld v hops _ (.inl spent) reached)
  | succ depth ih =>
      intro v call waiting reached
      by_cases last : hops = 0 ∨ (net v).upstream.links.length = 0
      · exact reached_next prim debug net inflight key s recurse call waiting (.answer none none) trivial
          (reached_stop prim debug net inflight key s recurse unheld v hops _ last reached)
      · obtain ⟨more, linked⟩ := not_or.mp last
        have less : (min (hops - 1) maxRecurse).toNat ≤ depth := by
          have pred := recurse_pred hops more
          rw [budget_eq]
          omega
        have entered := reached_enter prim debug net inflight key s recurse unheld v hops _ more linked reached
        obtain ⟨answered, errors, through⟩ := reached_place prim debug net inflight key s recurse never v (hops - 1) _ (ih _ less)
          entered _ (Nat.le_refl _)
        obtain ⟨response, fruitless, replied⟩ := reached_finish prim debug net inflight key s recurse _ _
          (List.getElem?_eq_none (Nat.le_refl _)) through
        exact reached_next prim debug net inflight key s recurse call waiting response fruitless replied

-- With nothing cached the chain goes down every walk the budget allows, so it
-- comes to hold the links of each.
include unheld never in
theorem walk_reached (off : ∀ v, (net v).upstream.cache = none) (t : ν) (walk : List (Link ν))
    (path : Walk (neighbours net) s walk t) (short : walk.length ≤ budgeted recurse) :
    ∃ hops waiting, (locks waiting).reverse = walk ∧ Fits inflight walk ∧
      Reached prim debug net inflight key s recurse ⟨.arriving t hops, waiting, uncached⟩ := by
  induction walk using List.reverseRecOn generalizing t with
  | nil =>
      cases path
      have start : asked net s recurse = ⟨.arriving s (min recurse maxRecurse), [], uncached⟩ := by
        rw [asked]
        exact congrArg (Chain.mk _ _) (funext off)
      refine ⟨min recurse maxRecurse, [], rfl, ⟨List.nodup_nil, by simp⟩, [], ?_⟩
      rw [← start]
      exact .nil _
  | append_singleton walk last ih =>
      obtain ⟨w, before, after⟩ := walk_split path
      rw [List.length_append, List.length_singleton] at short
      obtain ⟨hops, waiting, held, fits, reached⟩ := ih w before (by omega)
      cases after with
      | cons _ _ _ place _ link later =>
          cases later
          obtain ⟨run, moves⟩ := reached
          have spent := (path_walk net s _ waiting _ _ (moves_along prim debug net inflight key s recurse run _ moves)).2
          have size : waiting.length = walk.length := by rw [← held, List.length_reverse, locks, List.length_map]
          have more : hops ≠ 0 := by
            intro zero
            rw [zero] at spent
            have none_ : (0 : UInt8).toNat = 0 := rfl
            omega
          rw [neighbours, List.getElem?_map, Option.map_eq_some_iff] at link
          obtain ⟨found, there, rfl⟩ := link
          have within := (List.getElem?_eq_some_iff.mp there).1
          have entered := reached_enter prim debug net inflight key s recurse unheld w hops waiting more (by omega) ⟨run, moves⟩
          obtain ⟨answered, errors, here⟩ := reached_place prim debug net inflight key s recurse never w (hops - 1) waiting
            (every_call_returns prim debug net inflight key s recurse unheld never _ _ (Nat.le_refl _)) entered place (by omega)
          obtain ⟨ready, forwarded⟩ := reached_forward prim debug net inflight key s recurse never _ found waiting there here
          refine ⟨_, _, ?_, ?_, forwarded⟩
          · rw [locks, List.map_cons, List.reverse_cons, ← locks, held]
            rfl
          · rw [← held] at fits ⊢
            exact (fits_snoc inflight waiting w place).mpr ⟨fits, ready⟩

end Reached

theorem lookup_never_waits_iff (s : ν) (recurse : UInt8) (unheld : ∀ v now, (net v).store.get key now = none) :
    (Fitting net inflight s (budgeted recurse) → NeverWaits prim debug net inflight key s recurse) ∧
    ((∀ v, (net v).upstream.cache = none) → NeverWaits prim debug net inflight key s recurse →
      Fitting net inflight s (budgeted recurse)) := by
  constructor
  · exact fitting_never_waits prim debug net inflight key s recurse
  · intro off never t walk path short
    obtain ⟨_, _, _, fits, _⟩ := walk_reached prim debug net inflight key s recurse unheld never off t walk path short
    exact fits

section Sample

open Sample

theorem chain_walks (t : Tier) (walk : List (Link Tier)) (path : Walk (neighbours (chain Store.new none)) .leaf walk t) :
    walk = [] ∨ walk = [(.leaf, 0)] ∨ walk = [(.leaf, 0), (.mid, 0)] := by
  cases path with
  | nil => exact .inl rfl
  | cons _ w _ i rest link later =>
      obtain ⟨rfl, rfl⟩ : i = 0 ∧ w = .mid := by
        cases i with
        | zero => exact ⟨rfl, (Option.some.inj link).symm⟩
        | succ i => cases link
      cases later with
      | nil => exact .inr (.inl rfl)
      | cons _ w _ i rest link later =>
          obtain ⟨rfl, rfl⟩ : i = 0 ∧ w = .root := by
            cases i with
            | zero => exact ⟨rfl, (Option.some.inj link).symm⟩
            | succ i => cases link
          cases later with
          | nil => exact .inr (.inr rfl)
          | cons _ w _ i rest link later => cases link

theorem lookup_never_waits_chain : NeverWaits ed25519 (fun _ => "") (chain Store.new none) (fun _ => 64) node .leaf 8 := by
  have unheld : ∀ v now, (chain Store.new none v).store.get node now = none := by
    intro v now
    cases v with
    | leaf => rfl
    | mid => rfl
    | root => rfl
  refine (lookup_never_waits_iff ed25519 (fun _ => "") (chain Store.new none) (fun _ => 64) node .leaf 8 unheld).1 ?_
  intro t walk path _
  rcases chain_walks t walk path with rfl | rfl | rfl
  · exact fits_of_room _ _ (by decide) (fun _ => by decide)
  · exact fits_of_room _ _ (by decide) (fun _ => by decide)
  · exact fits_of_room _ _ (by decide) (fun _ => by decide)

-- Two servers, each the other's only upstream.
def eachOther (v : Bool) : Node Bool := ⟨Store.new, 0, true, [⟨"sqc://other", !v⟩], none⟩

theorem servers_at_each_other_wait : ∃ c, Reached ed25519 (fun _ => "") eachOther (fun _ => 64) node false 4 c ∧
    (∀ v now, (eachOther v).store.get node now = none) ∧ ¬ Unheld eachOther c ∧ ¬ Answered c ∧
    ∀ now, step ed25519 (fun _ => "") eachOther (fun _ => 64) node c now = none := by
  have start : Reached ed25519 (fun _ => "") eachOther (fun _ => 64) node false 4 (asked eachOther false 4) := ⟨[], .nil _⟩
  have enters : ∀ v recurse waiting, recurse ≠ 0 →
      step ed25519 (fun _ => "") eachOther (fun _ => 64) node ⟨.arriving v recurse, waiting, uncached⟩ 0 =
        some ⟨.asking ⟨v, recurse - 1, 0, 0, []⟩, waiting, uncached⟩ := by
    intro v recurse waiting hops
    simp only [step, arrive_enters eachOther node 0 v recurse rfl hops Nat.one_ne_zero]
  have asking := reached_step _ _ _ _ _ _ _ _ _ start (enters false 4 [] (by decide))
  have there := reached_step _ _ _ _ _ _ _ _ ⟨.arriving true 3, [⟨false, 3, 0, 0, []⟩], uncached⟩ asking rfl
  have askingBack := reached_step _ _ _ _ _ _ _ _ _ there (enters true 3 _ (by decide))
  have back := reached_step _ _ _ _ _ _ _ _
    ⟨.arriving false 2, [⟨true, 2, 0, 0, []⟩, ⟨false, 3, 0, 0, []⟩], uncached⟩ askingBack rfl
  have again := reached_step _ _ _ _ _ _ _ _ _ back (enters false 2 _ (by decide))
  refine ⟨_, again, ?_, ?_, ?_, ?_⟩
  · intro v now
    rfl
  · intro unheld
    exact unheld _ rfl (by decide) (by decide)
  · rintro ⟨response, replying, _⟩
    cases replying
  · intro now
    rfl

end Sample

end Sqns.Forwarding
