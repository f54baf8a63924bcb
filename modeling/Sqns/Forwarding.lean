import Sqns.RelayCache

set_option autoImplicit false

namespace Sqns.Forwarding

open Trace Walks Upstream

variable {ν : Type} [DecidableEq ν] (prim : Primitives) (debug : Response → String) (net : ν → Node ν) (inflight : ν → Nat)
  (key : PubKey) (now : Nat)

-- `Upstream::lookup` in its loop over the links of one server. `place` is the link
-- it has come to and `recurse` what it asks each of them with.
structure Call (ν : Type) where
  server : ν
  recurse : UInt8
  place : Nat
  answered : Nat
  errors : List String

def Call.link (call : Call ν) : Link ν := (call.server, call.place)

-- Where the one Lookup in the network has come to.
inductive Head (ν : Type) where
  | arriving (server : ν) (recurse : UInt8)
  | asking (call : Call ν)
  | replying (response : Response)

-- The calls that wait for a reply, innermost first. Each of them is inside
-- `PeerLink::request`, so it holds its link's lock and one of its server's permits.
structure Chain (ν : Type) where
  head : Head ν
  waiting : List (Call ν)
  caches : ν → Option Cache

def locks (waiting : List (Call ν)) : List (Link ν) := waiting.map Call.link

-- `Semaphore::new(max_inflight.max(1))`, less the permits the chain holds already.
def Permitted (waiting : List (Call ν)) (v : ν) : Prop := (locks waiting).countP (fun l => l.1 = v) < max (inflight v) 1

instance decidablePermitted (waiting : List (Call ν)) (v : ν) : Decidable (Permitted inflight waiting v) := Nat.decLt _ _

def relay : Except Error (Option Relayed) → Response
  | .ok (some relayed) => .answer (some relayed.record) relayed.successor
  | .ok none => .answer none none
  | .error e => .error .upstreamFailed e.toText

-- `handle` on a Lookup, up to the loop over the links.
def arrive (caches : ν → Option Cache) (v : ν) (recurse : UInt8) : Head ν × (ν → Option Cache) :=
  match (net v).store.get key now with
  | some record =>
      (.replying (.answer (some record) (record.record.successor.bind (fun next => (net v).store.get next now))), caches)
  | none =>
      if recurse = 0 || (net v).upstream.links.length == 0 then (.replying (.answer none none), caches)
      else
        match consult key now (caches v) with
        | (some known, cache) => (.replying (relay (.ok known)), Function.update caches v cache)
        | (none, cache) => (.asking ⟨v, recurse - 1, 0, 0, []⟩, Function.update caches v cache)

def close (caches : ν → Option Cache) (call : Call ν) (outcome : Except (Nat × List String) Relayed) :
    Head ν × (ν → Option Cache) :=
  let settled := settle key now (net call.server).upstream.links.length (caches call.server) outcome
  (.replying (relay settled.1), Function.update caches call.server settled.2)

-- The rest of the loop's turn for the link that replied.
def resume (caches : ν → Option Cache) (call : Call ν) (link : PeerLink ν) (response : Response) :
    Option (Head ν × (ν → Option Cache)) :=
  (askLinks prim debug (net call.server).store key now (fun _ => some (.answered response)) [link] call.answered call.errors).map
    (fun
      | .ok relayed => close net key now caches call (.ok relayed)
      | .error (answered, errors) => (.asking { call with place := call.place + 1, answered, errors }, caches))

-- One step of the chain at the instant `now`. There is none where the answer has
-- been given, and none while a lock or a permit is not to be had.
def step (c : Chain ν) (now : Nat) : Option (Chain ν) :=
  match c.head with
  | .arriving v recurse =>
      let (head, caches) := arrive net key now c.caches v recurse
      some ⟨head, c.waiting, caches⟩
  | .asking call =>
      match (net call.server).upstream.links[call.place]? with
      | none =>
          let (head, caches) := close net key now c.caches call (.error (call.answered, call.errors))
          some ⟨head, c.waiting, caches⟩
      | some link =>
          if Permitted inflight c.waiting call.server ∧ call.link ∉ locks c.waiting then
            some ⟨.arriving link.server (min call.recurse maxRecurse), call :: c.waiting, c.caches⟩
          else none
  | .replying response =>
      match c.waiting with
      | [] => none
      | call :: rest =>
          (net call.server).upstream.links[call.place]?.bind (fun link =>
            (resume prim debug net key now c.caches call link response).map (fun (head, caches) => ⟨head, rest, caches⟩))

def asked (s : ν) (recurse : UInt8) : Chain ν :=
  ⟨.arriving s (min recurse maxRecurse), [], fun v => (net v).upstream.cache⟩

-- The whole run of the Lookup. Its labels are what the clock shows at each step.
def Moves (s : ν) (recurse : UInt8) (run : List (Transition (Chain ν) Nat)) (c : Chain ν) : Prop :=
  Run (fun u now v => step prim debug net inflight key u now = some v) (asked net s recurse) run c

def Answered (c : Chain ν) : Prop := ∃ response, c.head = .replying response ∧ c.waiting = []

-- Every step, without what it does to the caches and what the replies hold.
inductive Move : Chain ν → Chain ν → Prop where
  | settle (v : ν) (recurse : UInt8) (response : Response) (waiting : List (Call ν)) (caches caches' : ν → Option Cache) :
      Move ⟨.arriving v recurse, waiting, caches⟩ ⟨.replying response, waiting, caches'⟩
  | enter (v : ν) (recurse : UInt8) (waiting : List (Call ν)) (caches caches' : ν → Option Cache) (hops : recurse ≠ 0) :
      Move ⟨.arriving v recurse, waiting, caches⟩ ⟨.asking ⟨v, recurse - 1, 0, 0, []⟩, waiting, caches'⟩
  | finish (call : Call ν) (response : Response) (waiting : List (Call ν)) (caches caches' : ν → Option Cache) :
      Move ⟨.asking call, waiting, caches⟩ ⟨.replying response, waiting, caches'⟩
  | forward (call : Call ν) (link : PeerLink ν) (waiting : List (Call ν)) (caches : ν → Option Cache)
      (found : (net call.server).upstream.links[call.place]? = some link) :
      Move ⟨.asking call, waiting, caches⟩ ⟨.arriving link.server (min call.recurse maxRecurse), call :: waiting, caches⟩
  | next (call : Call ν) (answered : Nat) (errors : List String) (response : Response) (waiting : List (Call ν))
      (caches : ν → Option Cache) :
      Move ⟨.replying response, call :: waiting, caches⟩
        ⟨.asking { call with place := call.place + 1, answered, errors }, waiting, caches⟩
  | pass (call : Call ν) (response response' : Response) (waiting : List (Call ν)) (caches caches' : ν → Option Cache) :
      Move ⟨.replying response, call :: waiting, caches⟩ ⟨.replying response', waiting, caches'⟩

theorem arrive_cases (caches : ν → Option Cache) (v : ν) (recurse : UInt8) :
    (∃ response caches', arrive net key now caches v recurse = (.replying response, caches')) ∨
    (recurse ≠ 0 ∧ ∃ caches', arrive net key now caches v recurse = (.asking ⟨v, recurse - 1, 0, 0, []⟩, caches')) := by
  rw [arrive]
  split
  · exact .inl ⟨_, _, rfl⟩
  · split
    · exact .inl ⟨_, _, rfl⟩
    · rename_i forwards
      have hops : recurse ≠ 0 := by
        intro spent
        simp [spent] at forwards
      split
      · exact .inl ⟨_, _, rfl⟩
      · exact .inr ⟨hops, _, rfl⟩

theorem resume_cases (caches : ν → Option Cache) (call : Call ν) (link : PeerLink ν) (response : Response) :
    (∃ relayed, resume prim debug net key now caches call link response = some (close net key now caches call (.ok relayed))) ∨
    (∃ answered errors, resume prim debug net key now caches call link response =
      some (.asking { call with place := call.place + 1, answered, errors }, caches)) := by
  rw [resume]
  rcases ask_links_cases prim debug now (net call.server).store key (fun _ : PeerLink ν => .answered response) [link]
    call.answered call.errors with ⟨relayed, found, _⟩ | ⟨count, lines, ended, _⟩
  · exact .inl ⟨relayed, by rw [found]; rfl⟩
  · exact .inr ⟨count, lines, by rw [ended]; rfl⟩

theorem step_move (c d : Chain ν) (taken : step prim debug net inflight key c now = some d) : Move net c d := by
  obtain ⟨head, waiting, caches⟩ := c
  cases head with
  | arriving v recurse =>
      rcases arrive_cases net key now caches v recurse with ⟨response, caches', arrived⟩ | ⟨hops, caches', arrived⟩
      · simp only [step, arrived, Option.some.injEq] at taken
        subst taken
        exact .settle v recurse response waiting caches caches'
      · simp only [step, arrived, Option.some.injEq] at taken
        subst taken
        exact .enter v recurse waiting caches caches' hops
  | asking call =>
      cases found : (net call.server).upstream.links[call.place]? with
      | none =>
          simp only [step, found, Option.some.injEq] at taken
          subst taken
          exact .finish call _ waiting caches _
      | some link =>
          simp only [step, found] at taken
          split at taken
          · cases taken
            exact .forward call link waiting caches found
          · cases taken
  | replying response =>
      cases waiting with
      | nil => cases taken
      | cons call rest =>
          obtain ⟨link, _, resumed⟩ := Option.bind_eq_some_iff.mp taken
          rcases resume_cases prim debug net key now caches call link response with
            ⟨relayed, turn⟩ | ⟨answered, errors, turn⟩
          · rw [turn] at resumed
            cases resumed
            exact .pass call response _ rest caches _
          · rw [turn] at resumed
            cases resumed
            exact .next call answered errors response rest caches

omit [DecidableEq ν] in
theorem link_neighbour (v : ν) (i : Nat) (link : PeerLink ν) (found : (net v).upstream.links[i]? = some link) :
    (neighbours net v)[i]? = some link.server := by
  rw [neighbours, List.getElem?_map, found]
  rfl

-- The waiting calls lead from `s` to `v`, each one along its link, and leave this
-- many hops of the budget.
def Path (s : ν) (budget : Nat) : List (Call ν) → ν → Nat → Prop
  | [], v, hops => v = s ∧ hops = budget
  | call :: rest, v, hops =>
      (neighbours net call.server)[call.place]? = some v ∧ call.recurse.toNat = hops ∧ Path s budget rest call.server (hops + 1)

def Along (s : ν) (budget : Nat) (c : Chain ν) : Prop :=
  match c.head with
  | .arriving v recurse => Path net s budget c.waiting v recurse.toNat
  | .asking call => Path net s budget c.waiting call.server (call.recurse.toNat + 1)
  | .replying _ => ∃ v hops, Path net s budget c.waiting v hops

omit [DecidableEq ν] in
theorem path_walk (s : ν) (budget : Nat) (waiting : List (Call ν)) (v : ν) (hops : Nat)
    (path : Path net s budget waiting v hops) :
    Walk (neighbours net) s (locks waiting).reverse v ∧ waiting.length + hops = budget := by
  induction waiting generalizing v hops with
  | nil =>
      obtain ⟨rfl, rfl⟩ := path
      exact ⟨.nil _, Nat.zero_add _⟩
  | cons call rest ih =>
      obtain ⟨link, _, path⟩ := path
      obtain ⟨walk, spent⟩ := ih call.server (hops + 1) path
      constructor
      · rw [locks, List.map_cons, List.reverse_cons]
        exact walk_snoc s call.server v call.place _ walk link
      · rw [List.length_cons]
        omega

theorem recurse_pred (recurse : UInt8) (hops : recurse ≠ 0) : (recurse - 1).toNat + 1 = recurse.toNat := by
  have positive : recurse.toNat ≠ 0 := fun zero => hops (UInt8.toNat_inj.mp zero)
  have one : (1 : UInt8) ≤ recurse := by
    rw [UInt8.le_iff_toNat_le]
    exact Nat.one_le_iff_ne_zero.mpr positive
  rw [UInt8.toNat_sub_of_le _ _ one]
  have unit : (1 : UInt8).toNat = 1 := rfl
  omega

omit [DecidableEq ν] in
-- What a server sends on is never above the cap, so the clamp of the one that
-- reads it changes nothing.
theorem clamp_forwarded (s : ν) (budget : Nat) (most : budget ≤ maxRecurse.toNat) (call : Call ν) (waiting : List (Call ν))
    (path : Path net s budget waiting call.server (call.recurse.toNat + 1)) :
    (min call.recurse maxRecurse).toNat = call.recurse.toNat := by
  have spent := (path_walk net s budget waiting _ _ path).2
  rw [budget_eq]
  omega

omit [DecidableEq ν] in
theorem move_along (s : ν) (budget : Nat) (most : budget ≤ maxRecurse.toNat) (c d : Chain ν) (move : Move net c d)
    (along : Along net s budget c) : Along net s budget d := by
  cases move with
  | settle v recurse response waiting caches caches' => exact ⟨v, recurse.toNat, along⟩
  | enter v recurse waiting caches caches' hops =>
      have path : Path net s budget waiting v recurse.toNat := along
      rw [← recurse_pred recurse hops] at path
      exact path
  | finish call response waiting caches caches' => exact ⟨call.server, _, along⟩
  | forward call link waiting caches found =>
      exact ⟨link_neighbour net call.server call.place link found, (clamp_forwarded net s budget most call waiting along).symm,
        by rw [clamp_forwarded net s budget most call waiting along]; exact along⟩
  | next call answered errors response waiting caches =>
      obtain ⟨v, hops, _, same, path⟩ := along
      subst same
      exact path
  | pass call response response' waiting caches caches' =>
      obtain ⟨v, hops, _, _, path⟩ := along
      exact ⟨call.server, hops + 1, path⟩

-- The steps a waiting call still has to take once its reply is there.
def suspended (call : Call ν) : Nat :=
  2 + total (fun w => 2 + tour (neighbours net) call.recurse.toNat w) ((neighbours net call.server).drop (call.place + 1))

def weight (c : Chain ν) : Nat :=
  total (suspended net) c.waiting +
    match c.head with
    | .arriving v recurse => tour (neighbours net) recurse.toNat v
    | .asking call =>
        1 + total (fun w => 2 + tour (neighbours net) call.recurse.toNat w) ((neighbours net call.server).drop call.place)
    | .replying _ => 0

omit [DecidableEq ν] in
theorem tour_pos (depth : Nat) (v : ν) : 0 < tour (neighbours net) depth v := by
  cases depth with
  | zero => exact Nat.one_pos
  | succ depth =>
      rw [tour]
      omega

omit [DecidableEq ν] in
theorem move_lowers (s : ν) (budget : Nat) (most : budget ≤ maxRecurse.toNat) (c d : Chain ν) (move : Move net c d)
    (along : Along net s budget c) : weight net d < weight net c := by
  cases move with
  | settle v recurse response waiting caches caches' =>
      have positive := tour_pos net recurse.toNat v
      simp only [weight]
      omega
  | enter v recurse waiting caches caches' hops =>
      simp only [weight, List.drop_zero]
      rw [← recurse_pred recurse hops, tour]
      omega
  | finish call response waiting caches caches' =>
      simp only [weight]
      omega
  | forward call link waiting caches found =>
      have turn := total_drop (fun w => 2 + tour (neighbours net) call.recurse.toNat w) (neighbours net call.server) call.place
        link.server (link_neighbour net call.server call.place link found)
      simp only [weight, total, suspended]
      rw [clamp_forwarded net s budget most call waiting along, turn]
      omega
  | next call answered errors response waiting caches =>
      simp only [weight, total, suspended]
      omega
  | pass call response response' waiting caches caches' =>
      simp only [weight, total, suspended]
      omega

section Whole

variable (s : ν) (recurse : UInt8)

def budgeted (recurse : UInt8) : Nat := min recurse.toNat maxRecurse.toNat

omit [DecidableEq ν] in
theorem asked_along : Along net s (budgeted recurse) (asked net s recurse) := ⟨rfl, budget_eq recurse⟩

theorem moves_along (run : List (Transition (Chain ν) Nat)) (c : Chain ν)
    (moves : Moves prim debug net inflight key s recurse run c) : Along net s (budgeted recurse) c :=
  run_invariant (Along net s (budgeted recurse)) (fun _ => True)
    (fun u now v taken _ => move_along net s (budgeted recurse) (Nat.min_le_right _ _) u v
      (step_move prim debug net inflight key now u v taken))
    (fun _ _ => trivial) moves (asked_along net s recurse)

theorem moves_bounded (run : List (Transition (Chain ν) Nat)) (c : Chain ν)
    (moves : Moves prim debug net inflight key s recurse run c) : run.length ≤ weight net (asked net s recurse) := by
  have most : budgeted recurse ≤ maxRecurse.toNat := Nat.min_le_right _ _
  have fewer := run_length_le (Along net s (budgeted recurse)) (weight net)
    (fun u now v taken => move_along net s (budgeted recurse) most u v (step_move prim debug net inflight key now u v taken))
    (fun u now v taken => move_lowers net s (budgeted recurse) most u v (step_move prim debug net inflight key now u v taken))
    moves (asked_along net s recurse)
  omega

end Whole

-- No server keeps relayed answers, so that only the graph decides where the chain
-- goes.
def uncached : ν → Option Cache := fun _ => none

theorem close_uncached (call : Call ν) (outcome : Except (Nat × List String) Relayed) :
    close net key now uncached call outcome =
      (.replying (relay (conclude (net call.server).upstream.links.length outcome)), uncached) := by
  rw [close]
  exact congrArg (Prod.mk _) (Function.update_eq_self call.server uncached)

section Serve

-- A turn of the loop is its first link's reply, taken in as `resume` takes it,
-- and then the rest of the loop.
def goOn (store : Store) (ask : PeerLink ν → Option Reply) (rest : List (PeerLink ν)) :
    Except (Nat × List String) Relayed → Option (Except (Nat × List String) Relayed)
  | .ok relayed => some (.ok relayed)
  | .error (answered, errors) => askLinks prim debug store key now ask rest answered errors

omit [DecidableEq ν] in
theorem ask_links_cons (store : Store) (ask : PeerLink ν → Option Reply) (link : PeerLink ν) (rest : List (PeerLink ν))
    (answered : Nat) (errors : List String) :
    askLinks prim debug store key now ask (link :: rest) answered errors =
      (ask link).bind (fun reply => (askLinks prim debug store key now (fun _ => some reply) [link] answered errors).bind
        (goOn prim debug key now store ask rest)) := by
  rw [askLinks]
  cases ask link with
  | none => rfl
  | some reply =>
      rw [Option.bind_some]
      cases reply with
      | failed e => rfl
      | timedOut => rfl
      | answered response =>
          cases response with
          | answer record successor =>
              cases record with
              | none => rfl
              | some record =>
                  simp only [askLinks]
                  cases accept prim store now key record with
                  | ok _ => rfl
                  | error e => rfl
          | published serial expiresAt => rfl
          | status info => rfl
          | records batch complete => rfl
          | error code message => rfl

-- What the servers answer when each call simply runs the next.
def served (v : ν) (recurse : UInt8) : Option Response := serve prim debug now net maxRecurse.toNat v key recurse

def asks (call : Call ν) (link : PeerLink ν) : Option Reply := (served prim debug net key now link.server call.recurse).map .answered

def concluded (call : Call ν) (outcome : Except (Nat × List String) Relayed) : Response :=
  relay (conclude (net call.server).upstream.links.length outcome)

def looped (call : Call ν) : Option Response :=
  (askLinks prim debug (net call.server).store key now (asks prim debug net key now call)
    ((net call.server).upstream.links.drop call.place) call.answered call.errors).map (concluded net call)

-- What a call comes to once its link has replied.
def resumed (call : Call ν) (response : Response) (link : PeerLink ν) : Option Response :=
  (askLinks prim debug (net call.server).store key now (fun _ => some (.answered response)) [link] call.answered call.errors).bind
    (fun
      | .ok relayed => some (concluded net call (.ok relayed))
      | .error (answered, errors) => looped prim debug net key now { call with place := call.place + 1, answered, errors })

-- The reply to the innermost call, carried through all that wait for it.
def unwind : List (Call ν) → Response → Option Response
  | [], response => some response
  | call :: rest, response =>
      ((net call.server).upstream.links[call.place]?.bind (resumed prim debug net key now call response)).bind (unwind rest)

def outcome (c : Chain ν) : Option Response :=
  match c.head with
  | .arriving v recurse => (served prim debug net key now v recurse).bind (unwind prim debug net key now c.waiting)
  | .asking call => (looped prim debug net key now call).bind (unwind prim debug net key now c.waiting)
  | .replying response => unwind prim debug net key now c.waiting response

theorem arrive_stops (v : ν) (recurse : UInt8) (missing : (net v).store.get key now = none)
    (last : recurse = 0 ∨ (net v).upstream.links.length = 0) :
    arrive net key now uncached v recurse = (.replying (.answer none none), uncached) := by
  have stops : (decide (recurse = 0) || (net v).upstream.links.length == 0) = true := by simpa using last
  simp only [arrive, missing, stops, if_true]

theorem arrive_enters (v : ν) (recurse : UInt8) (missing : (net v).store.get key now = none) (hops : recurse ≠ 0)
    (linked : (net v).upstream.links.length ≠ 0) :
    arrive net key now uncached v recurse = (.asking ⟨v, recurse - 1, 0, 0, []⟩, uncached) := by
  have forwards : (decide (recurse = 0) || (net v).upstream.links.length == 0) = false := by simp [hops, linked]
  simp only [arrive, missing, forwards, Bool.false_eq_true, if_false]
  exact congrArg (Prod.mk _) (Function.update_eq_self v uncached)

omit [DecidableEq ν] in
theorem served_respond (v : ν) (recurse : UInt8) : served prim debug net key now v recurse =
    ((net v).handleLookup prim debug now (forward (serve prim debug now net 7)) key (min recurse maxRecurse)).map Prod.fst := by
  rw [← respond_eq]
  rfl

omit [DecidableEq ν] in
theorem served_clamped (v : ν) (recurse : UInt8) :
    served prim debug net key now v (min recurse maxRecurse) = served prim debug net key now v recurse := by
  have twice : min (min recurse maxRecurse) maxRecurse = min recurse maxRecurse := by
    rw [← UInt8.toNat_inj, budget_eq, budget_eq, Nat.min_assoc, Nat.min_self]
  rw [served_respond, served_respond, twice]

theorem arrive_served (off : ∀ v, (net v).upstream.cache = none) (v : ν) (recurse : UInt8)
    (low : recurse.toNat ≤ maxRecurse.toNat) :
    (∃ response, arrive net key now uncached v recurse = (.replying response, uncached) ∧
      served prim debug net key now v recurse = some response) ∨
    (arrive net key now uncached v recurse = (.asking ⟨v, recurse - 1, 0, 0, []⟩, uncached) ∧
      served prim debug net key now v recurse = looped prim debug net key now ⟨v, recurse - 1, 0, 0, []⟩) := by
  have kept : min recurse maxRecurse = recurse := if_pos (UInt8.le_iff_toNat_le.mpr low)
  rw [served_respond, kept]
  cases held : (net v).store.get key now with
  | some record =>
      left
      rw [Node.handle_lookup_hit prim debug now (net v) _ key recurse record held, arrive, held]
      exact ⟨_, rfl, rfl⟩
  | none =>
      by_cases last : recurse = 0 ∨ (net v).upstream.links.length = 0
      · left
        rw [Node.handle_lookup_stop prim debug now (net v) _ key recurse held last, arrive_stops net key now v recurse held last]
        exact ⟨_, rfl, rfl⟩
      · right
        obtain ⟨hops, linked⟩ := not_or.mp last
        refine ⟨arrive_enters net key now v recurse held hops linked, ?_⟩
        have less : (min (recurse - 1) maxRecurse).toNat ≤ 7 := by
          have pred := recurse_pred recurse hops
          have top : maxRecurse.toNat = 8 := rfl
          rw [budget_eq]
          omega
        have same : (fun link : PeerLink ν => forward (serve prim debug now net 7) link (.lookup key (recurse - 1))) =
            asks prim debug net key now ⟨v, recurse - 1, 0, 0, []⟩ := by
          funext link
          rw [forward, serve_deeper prim debug now net key 7 link.server _ less]
          rfl
        rw [Node.handle_lookup_miss prim debug now (net v) _ key recurse held hops linked,
          lookup_off prim debug (net v).store key now (net v).upstream _ (recurse - 1) (off v)]
        simp only [same, Option.map_map, looped, List.drop_zero]
        refine congrFun (congrArg Option.map (funext fun result => ?_)) _
        exact Node.miss_response now (net v) key recurse held hops linked _

omit [DecidableEq ν] in
theorem looped_turn (call : Call ν) (link : PeerLink ν) (found : (net call.server).upstream.links[call.place]? = some link) :
    looped prim debug net key now call = (served prim debug net key now link.server call.recurse).bind (fun response =>
      resumed prim debug net key now call response link) := by
  obtain ⟨bound, rfl⟩ := List.getElem?_eq_some_iff.mp found
  rw [looped, List.drop_eq_getElem_cons bound, ask_links_cons, asks]
  cases served prim debug net key now (net call.server).upstream.links[call.place].server call.recurse with
  | none => rfl
  | some response =>
      rw [Option.map_some, Option.bind_some, Option.bind_some, resumed, Option.map_bind]
      refine congrArg (Option.bind _) (funext fun turn => ?_)
      cases turn with
      | ok relayed => rfl
      | error counted => rfl

-- Each step leaves the answer the chain is on the way to as it is.
theorem step_outcome (off : ∀ v, (net v).upstream.cache = none) (s : ν) (budget : Nat) (most : budget ≤ maxRecurse.toNat)
    (c d : Chain ν) (bare : c.caches = uncached) (along : Along net s budget c)
    (taken : step prim debug net inflight key c now = some d) :
    d.caches = uncached ∧ outcome prim debug net key now d = outcome prim debug net key now c := by
  obtain ⟨head, waiting, caches⟩ := c
  subst bare
  cases head with
  | arriving v recurse =>
      have spent := (path_walk net s budget waiting v _ along).2
      rcases arrive_served prim debug net key now off v recurse (by omega) with ⟨response, arrived, answer⟩ | ⟨arrived, answer⟩
      · simp only [step, arrived, Option.some.injEq] at taken
        subst taken
        exact ⟨rfl, by simp only [outcome, answer, Option.bind_some]⟩
      · simp only [step, arrived, Option.some.injEq] at taken
        subst taken
        exact ⟨rfl, by simp only [outcome, answer]⟩
  | asking call =>
      cases found : (net call.server).upstream.links[call.place]? with
      | none =>
          simp only [step, found, close_uncached, Option.some.injEq] at taken
          subst taken
          have through : (net call.server).upstream.links.drop call.place = [] :=
            List.drop_eq_nil_of_le (List.getElem?_eq_none_iff.mp found)
          exact ⟨rfl, by simp only [outcome, looped, through, askLinks, Option.map_some, Option.bind_some, concluded]⟩
      | some link =>
          simp only [step, found] at taken
          split at taken
          · cases taken
            refine ⟨rfl, ?_⟩
            simp only [outcome, served_clamped, looped_turn prim debug net key now call link found, Option.bind_assoc]
            refine congrArg (Option.bind _) (funext fun response => ?_)
            rw [unwind, found, Option.bind_some]
          · cases taken
  | replying response =>
      cases waiting with
      | nil => cases taken
      | cons call rest =>
          obtain ⟨link, found, reached⟩ := Option.bind_eq_some_iff.mp taken
          obtain ⟨⟨head, caches⟩, back, rfl⟩ := Option.map_eq_some_iff.mp reached
          obtain ⟨turn, heard, next⟩ := Option.map_eq_some_iff.mp back
          simp only [outcome, unwind, found, Option.bind_some, resumed, heard]
          cases turn with
          | ok relayed =>
              simp only [close_uncached, Prod.mk.injEq] at next
              obtain ⟨rfl, rfl⟩ := next
              exact ⟨rfl, rfl⟩
          | error counted =>
              cases next
              exact ⟨rfl, rfl⟩

-- The answer the chain ends with is the one the servers give when each call
-- simply runs the next, as in `serve`.
theorem chain_answers_as_served (off : ∀ v, (net v).upstream.cache = none) (s : ν) (recurse : UInt8)
    (run : List (Transition (Chain ν) Nat)) (c : Chain ν) (moves : Moves prim debug net inflight key s recurse run c)
    (still : ∀ move ∈ run, move.label = now) (response : Response) (replying : c.head = .replying response)
    (done : c.waiting = []) : serve prim debug now net maxRecurse.toNat s key recurse = some response := by
  have most : budgeted recurse ≤ maxRecurse.toNat := Nat.min_le_right _ _
  have kept := run_invariant
    (fun c : Chain ν => Along net s (budgeted recurse) c ∧ c.caches = uncached ∧
      outcome prim debug net key now c = served prim debug net key now s recurse)
    (fun move => move.label = now)
    (by
      intro u clock v taken same ⟨along, bare, ends⟩
      rw [show clock = now from same] at taken
      obtain ⟨bare', step_ends⟩ := step_outcome prim debug net inflight key now off s _ most u v bare along taken
      exact ⟨move_along net s _ most u v (step_move prim debug net inflight key now u v taken) along, bare', step_ends.trans ends⟩)
    still moves ⟨asked_along net s recurse, funext off, by
      simp only [asked, outcome, served_clamped, unwind, Option.bind_fun_some]⟩
  obtain ⟨_, _, ends⟩ := kept
  rw [outcome, replying] at ends
  simp only [done, unwind] at ends
  exact ends.symm

end Serve

end Sqns.Forwarding
