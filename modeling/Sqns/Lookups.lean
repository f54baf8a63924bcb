import Sqns.Forwarding

set_option autoImplicit false

namespace Sqns.Lookups

open Trace Upstream Forwarding

variable {ν : Type} [DecidableEq ν] (prim : Primitives) (debug : Response → String) (base : ν → Node ν) (turn : Nat)

-- A Lookup in the loop over the links of a server: when it came there, and when
-- it went on to the link whose reply it waits for.
structure Ongoing (ν : Type) where
  key : PubKey
  began : Nat
  since : Nat
  call : Call ν

structure Said (ν : Type) where
  server : ν
  key : PubKey
  recurse : UInt8
  response : Response
  time : Nat

-- Any number of servers with any number of Lookups on their way between them.
structure State (ν : Type) where
  now : Nat
  stores : ν → Store
  caches : ν → Option Cache
  calls : List (Ongoing ν)
  said : List (Said ν)

namespace State

def net (s : State ν) (v : ν) : Node ν := { base v with store := s.stores v }

-- What becomes of a Lookup that a server has dealt with, for now or for good.
def settle (s : State ν) (v : ν) (key : PubKey) (recurse : UInt8) (dealt : Head ν × (ν → Option Cache)) : State ν :=
  match dealt.1 with
  | .replying response => { s with caches := dealt.2, said := ⟨v, key, recurse, response, s.now⟩ :: s.said }
  | .asking call => { s with caches := dealt.2, calls := ⟨key, s.now, s.now, call⟩ :: s.calls }
  | .arriving _ _ => s

def arrived (s : State ν) (v : ν) (key : PubKey) (recurse : UInt8) : State ν :=
  s.settle v key recurse (arrive (s.net base) key s.now s.caches v recurse)

-- A server asks with one hop less than it was asked with.
def finished (s : State ν) (others : List (Ongoing ν)) (o : Ongoing ν) (outcome : Except (Nat × List String) Relayed) :
    State ν :=
  { s with calls := others }.settle o.call.server o.key (o.call.recurse + 1)
    (close (s.net base) o.key s.now s.caches o.call outcome)

def heard (s : State ν) (front back : List (Ongoing ν)) (o : Ongoing ν) (link : PeerLink ν) (reply : Reply) : State ν :=
  match askLinks prim debug (s.stores o.call.server) o.key s.now (fun _ => some reply) [link] o.call.answered o.call.errors with
  | some (.ok relayed) => s.finished base (front ++ back) o (.ok relayed)
  | some (.error (answered, errors)) =>
      { s with calls := front ++ { o with since := s.now, call :=
          { o.call with place := o.call.place + 1, answered, errors } } :: back }
  | none => s

end State

inductive Act (ν : Type) where
  | tick
  | store (v : ν) (e : Sqns.Event prim)
  | sweep (v : ν)
  | lookup (v : ν) (key : PubKey) (recurse : UInt8)
  | forward (o : Ongoing ν)
  | hear (o : Ongoing ν) (link : PeerLink ν) (reply : Reply)
  | finish (o : Ongoing ν)

def linkOf (o : Ongoing ν) : Option (PeerLink ν) := (base o.call.server).upstream.links[o.call.place]?

-- A response comes from the server at the other end, which gave it to this
-- Lookup after it was asked.
def Carried (s : State ν) (o : Ongoing ν) (link : PeerLink ν) (response : Response) : Prop :=
  ∃ a ∈ s.said, a.server = link.server ∧ a.key = o.key ∧ a.recurse = min o.call.recurse maxRecurse ∧
    a.response = response ∧ o.since ≤ a.time

-- A link has `turn` seconds: the wait for a permit and the timeout. What the
-- network loses or delays is in the replies `failed` and `timedOut`.
inductive Step : State ν → Act prim ν → State ν → Prop where
  | tick (s : State ν) (later : Nat) (forward : s.now ≤ later) : Step s .tick { s with now := later }
  | store (s : State ν) (v : ν) (e : Sqns.Event prim) (changed : Store)
      (step : Sqns.Step prim ⟨s.now, s.stores v⟩ e ⟨s.now, changed⟩) :
      Step s (.store v e) { s with stores := Function.update s.stores v changed }
  | sweep (s : State ν) (v : ν) :
      Step s (.sweep v) { s with caches := Function.update s.caches v ((s.caches v).map (fun cache => (cache.purge s.now).2)) }
  | lookup (s : State ν) (v : ν) (key : PubKey) (recurse : UInt8) :
      Step s (.lookup v key recurse) (s.arrived base v key (min recurse maxRecurse))
  | forward (s : State ν) (o : Ongoing ν) (link : PeerLink ν) (waiting : o ∈ s.calls) (found : linkOf base o = some link) :
      Step s (.forward o) (s.arrived base link.server o.key (min o.call.recurse maxRecurse))
  | hear (s : State ν) (front back : List (Ongoing ν)) (o : Ongoing ν) (link : PeerLink ν) (reply : Reply)
      (waiting : s.calls = front ++ o :: back) (found : linkOf base o = some link)
      (carried : ∀ response, reply = .answered response → Carried s o link response) (prompt : s.now ≤ o.since + turn) :
      Step s (.hear o link reply) (s.heard prim debug base front back o link reply)
  | finish (s : State ν) (front back : List (Ongoing ν)) (o : Ongoing ν) (waiting : s.calls = front ++ o :: back)
      (through : linkOf base o = none) (prompt : s.now = o.since) :
      Step s (.finish o) (s.finished base (front ++ back) o (.error (o.call.answered, o.call.errors)))

-- Every entry of the caches is an old one or one of these.
def Gains (before after : ν → Option Cache) (new : ν → PubKey → Entry → Prop) : Prop :=
  ∀ v cache, after v = some cache → ∀ key entry, cache.lookup key = some entry →
    (∃ kept, before v = some kept ∧ kept.lookup key = some entry) ∨ new v key entry

def nothing : ν → PubKey → Entry → Prop := fun _ _ _ => False

omit [DecidableEq ν] in
theorem gains_self (caches : ν → Option Cache) (new : ν → PubKey → Entry → Prop) : Gains caches caches new :=
  fun _ cache on _ _ found => .inl ⟨cache, on, found⟩

theorem gains_update (caches : ν → Option Cache) (v : ν) (cache : Cache) (new : ν → PubKey → Entry → Prop)
    (own : ∀ key entry, cache.lookup key = some entry →
      (∃ kept, caches v = some kept ∧ kept.lookup key = some entry) ∨ new v key entry) :
    Gains caches (Function.update caches v (some cache)) new := by
  intro w left on key entry found
  by_cases same : w = v
  · subst same
    rw [Function.update_self, Option.some.injEq] at on
    subst on
    exact own key entry found
  · rw [Function.update_of_ne same] at on
    exact .inl ⟨left, on, found⟩

theorem gains_map (caches : ν → Option Cache) (v : ν) (change : Cache → Cache) (new : ν → PubKey → Entry → Prop)
    (own : ∀ cache, ∀ key entry, (change cache).lookup key = some entry → cache.lookup key = some entry ∨ new v key entry) :
    Gains caches (Function.update caches v ((caches v).map change)) new := by
  cases on : caches v with
  | none =>
      have unchanged : Function.update caches v (none.map change) = caches := by
        rw [Option.map_none, ← on, Function.update_eq_self]
      rw [unchanged]
      exact gains_self caches new
  | some cache =>
      refine gains_update caches v (change cache) new ?_
      intro key entry found
      exact (own cache key entry found).imp (fun kept => ⟨cache, on, kept⟩) id

theorem purge_entry (cache : Cache) (now : Nat) (key : PubKey) (entry : Entry)
    (found : (cache.purge now).2.lookup key = some entry) : cache.lookup key = some entry := by
  rw [Cache.purge, Finmap.lookup_retain, Option.filter_eq_some_iff] at found
  exact found.1

def foundEntry (relayed : Relayed) (key : PubKey) (entry : Entry) : Prop :=
  ∃ x, entry = .found x ∧ x.key = key ∧ (x = relayed.record ∨ relayed.successor = some x)

theorem remember_found (key : PubKey) (now links : Nat) (cache : Cache) (relayed : Relayed) (other : PubKey) (entry : Entry)
    (found : (remember key now links cache (.ok relayed)).lookup other = some entry) :
    cache.lookup other = some entry ∨ foundEntry relayed other entry := by
  have put : ∀ (c : Cache) (x : SignedRecord), (c.put x).lookup other = some entry →
      c.lookup other = some entry ∨ (entry = .found x ∧ x.key = other) := by
    intro c x held
    rw [Cache.put, Finmap.lookup_insert_ite] at held
    split at held
    · rename_i own
      exact .inr ⟨(Option.some.inj held).symm, own.symm⟩
    · exact .inl held
  obtain ⟨record, successor⟩ := relayed
  cases successor with
  | none =>
      rcases put _ _ found with older | own
      · exact .inl older
      · exact .inr ⟨record, own.1, own.2, .inl rfl⟩
  | some y =>
      rcases put _ _ found with older | own
      · rcases put _ _ older with oldest | own
        · exact .inl oldest
        · exact .inr ⟨record, own.1, own.2, .inl rfl⟩
      · exact .inr ⟨y, own.1, own.2, .inr rfl⟩

theorem remember_missing (key : PubKey) (now links : Nat) (cache : Cache) (answered : Nat) (errors : List String)
    (other : PubKey)
    (entry : Entry) (found : (remember key now links cache (.error (answered, errors))).lookup other = some entry) :
    cache.lookup other = some entry ∨ other = key ∧ entry = .missing (now + negativeTtl) := by
  simp only [remember] at found
  split at found
  · rw [Cache.putMissing, Finmap.lookup_insert_ite] at found
    split at found
    · rename_i own
      exact .inr ⟨own, (Option.some.inj found).symm⟩
    · exact .inl found
  · exact .inl found

-- The ways a server deals with a Lookup that reaches it.
inductive Arrival (net : ν → Node ν) (key : PubKey) (now : Nat) (caches : ν → Option Cache) (v : ν) (recurse : UInt8) :
    Head ν × (ν → Option Cache) → Prop where
  | held (record : SignedRecord) (found : (net v).store.get key now = some record) :
      Arrival net key now caches v recurse
        (.replying (.answer (some record) (record.record.successor.bind (fun next => (net v).store.get next now))), caches)
  | stopped (missing : (net v).store.get key now = none) (last : recurse = 0 ∨ (net v).upstream.links.length = 0) :
      Arrival net key now caches v recurse (.replying (.answer none none), caches)
  | known (cache : Cache) (record : SignedRecord) (successor : Option SignedRecord) (left : ν → Option Cache)
      (on : caches v = some cache) (hit : cache.lookup key = some (.found record)) (fresh : record.record.isExpired now = false)
      (offered : ∀ y, successor = some y → y.record.isExpired now = false ∧ ∃ next, cache.lookup next = some (.found y))
      (kept : Gains caches left nothing) :
      Arrival net key now caches v recurse (.replying (.answer (some record) successor), left)
  | remembered (cache : Cache) (until_ : Nat) (left : ν → Option Cache) (on : caches v = some cache)
      (hit : cache.lookup key = some (.missing until_)) (current : now < until_) (kept : Gains caches left nothing) :
      Arrival net key now caches v recurse (.replying (.answer none none), left)
  | opened (left : ν → Option Cache) (missing : (net v).store.get key now = none) (hops : recurse ≠ 0)
      (linked : (net v).upstream.links.length ≠ 0) (kept : Gains caches left nothing) :
      Arrival net key now caches v recurse (.asking ⟨v, recurse - 1, 0, 0, []⟩, left)

theorem get_cases (cache : Cache) (key : PubKey) (now : Nat) :
    (∃ record, cache.get key now = (some (some record), cache) ∧ cache.lookup key = some (.found record) ∧
      record.record.isExpired now = false) ∨
    (∃ until_, cache.get key now = (some none, cache) ∧ cache.lookup key = some (.missing until_) ∧ now < until_) ∨
    ∃ left, cache.get key now = (none, left) := by
  rw [Cache.get]
  cases held : cache.lookup key with
  | none => exact .inr (.inr ⟨cache, rfl⟩)
  | some entry =>
      by_cases usable : Cache.fresh now entry = true
      · dsimp only
        rw [if_pos usable]
        cases entry with
        | found record => exact .inl ⟨record, rfl, rfl, by simpa [Cache.fresh] using usable⟩
        | missing until_ => exact .inr (.inl ⟨until_, rfl, rfl, by simpa [Cache.fresh] using usable⟩)
      · dsimp only
        rw [if_neg usable]
        exact .inr (.inr ⟨_, rfl⟩)

theorem cached_successor_fresh (now : Nat) (cache : Cache) (record y : SignedRecord)
    (offered : (cachedSuccessor now cache record).1 = some y) :
    y.record.isExpired now = false ∧ ∃ next, cache.lookup next = some (.found y) := by
  rw [cachedSuccessor] at offered
  cases named : record.record.successor with
  | none => simp [named] at offered
  | some next =>
      rw [named] at offered
      dsimp only at offered
      rcases get_cases cache next now with ⟨x, got, hit, fresh⟩ | ⟨_, got, _⟩ | ⟨_, got⟩
      · rw [got] at offered
        cases offered
        exact ⟨fresh, next, hit⟩
      · rw [got] at offered
        cases offered
      · rw [got] at offered
        cases offered

theorem cached_successor_entry (now : Nat) (cache : Cache) (record : SignedRecord) (key : PubKey) (entry : Entry)
    (found : (cachedSuccessor now cache record).2.lookup key = some entry) : cache.lookup key = some entry := by
  rw [cachedSuccessor] at found
  cases named : record.record.successor with
  | none => simpa [named] using found
  | some next =>
      rw [named] at found
      exact Cache.get_entry cache next key now entry found

theorem arrive_arrival (net : ν → Node ν) (key : PubKey) (now : Nat) (caches : ν → Option Cache) (v : ν) (recurse : UInt8) :
    Arrival net key now caches v recurse (arrive net key now caches v recurse) := by
  rw [arrive]
  cases missing : (net v).store.get key now with
  | some record => exact .held record missing
  | none =>
      dsimp only
      by_cases last : recurse = 0 ∨ (net v).upstream.links.length = 0
      · rw [if_pos (by simpa using last)]
        exact .stopped missing last
      · rw [if_neg (by simpa using last)]
        obtain ⟨hops, linked⟩ := not_or.mp last
        cases on : caches v with
        | none =>
            have unchanged : Function.update caches v none = caches := by rw [← on, Function.update_eq_self]
            refine .opened _ missing hops linked ?_
            rw [unchanged]
            exact gains_self caches nothing
        | some cache =>
            have forgets : ∀ left : Cache, (∀ k entry, left.lookup k = some entry → cache.lookup k = some entry) →
                Gains caches (Function.update caches v (some left)) nothing :=
              fun left fewer => gains_update caches v left nothing (fun k entry found => .inl ⟨cache, on, fewer k entry found⟩)
            rcases get_cases cache key now with ⟨record, got, hit, fresh⟩ | ⟨until_, got, hit, current⟩ | ⟨left, got⟩
            · rw [consult, got]
              exact .known cache record _ _ on hit fresh (fun y offered => cached_successor_fresh now cache record y offered)
                (forgets _ (cached_successor_entry now cache record))
            · rw [consult, got]
              exact .remembered cache until_ _ on hit current (forgets _ (fun _ _ found => found))
            · rw [consult, got]
              exact .opened _ missing hops linked (forgets left (fun k entry found =>
                Cache.get_entry cache key k now entry (by rw [got]; exact found)))

def carried : Response → List SignedRecord
  | .answer record successor => record.toList ++ successor.toList
  | _ => []

section Turns

variable (s : State ν) (front back : List (Ongoing ν)) (o : Ongoing ν) (link : PeerLink ν) (reply : Reply)

def goneOn (answered : Nat) (errors : List String) : State ν :=
  { s with calls := front ++ { o with since := s.now, call :=
      { o.call with place := o.call.place + 1, answered, errors } } :: back }

omit [DecidableEq ν] in
theorem ask_one (store : Store) (key : PubKey) (now answered : Nat) (errors : List String) :
    (∃ record successor, reply = .answered (.answer (some record) successor) ∧ accept prim store now key record = .ok () ∧
      askLinks prim debug store key now (fun _ => some reply) [link] answered errors =
        some (.ok ⟨record, successor.bind (acceptSuccessor prim store now record)⟩)) ∨
    ∃ count lines, askLinks prim debug store key now (fun _ => some reply) [link] answered errors = some
      (.error (count, lines)) ∧
      ∀ record successor, reply = .answered (.answer (some record) successor) → accept prim store now key record ≠ .ok () := by
  rcases ask_links_turn prim debug now store key (fun _ => reply) link [] answered errors with
    ⟨record, successor, answer, accepted, outcome⟩ | ⟨count, lines, outcome, _, _, _, refused⟩
  · exact .inl ⟨record, successor, answer, accepted, outcome⟩
  · exact .inr ⟨count, lines, outcome, refused⟩

theorem heard_cases :
    (∃ record successor, reply = .answered (.answer (some record) successor) ∧
      accept prim (s.stores o.call.server) s.now o.key record = .ok () ∧
      s.heard prim debug base front back o link reply = s.finished base (front ++ back) o
        (.ok ⟨record, successor.bind (acceptSuccessor prim (s.stores o.call.server) s.now record)⟩)) ∨
    ∃ answered errors, s.heard prim debug base front back o link reply = goneOn s front back o answered errors ∧
      ∀ record successor, reply = .answered (.answer (some record) successor) →
        accept prim (s.stores o.call.server) s.now o.key record ≠ .ok () := by
  rcases ask_one prim debug link reply (s.stores o.call.server) o.key s.now o.call.answered o.call.errors with
    ⟨record, successor, answer, accepted, outcome⟩ | ⟨count, lines, outcome, refused⟩
  · exact .inl ⟨record, successor, answer, accepted, by rw [State.heard, outcome]⟩
  · exact .inr ⟨count, lines, by rw [State.heard, outcome]; rfl, refused⟩

variable (others : List (Ongoing ν))

theorem finished_relayed (relayed : Relayed) :
    ∃ caches, Gains s.caches caches (fun v key entry => v = o.call.server ∧ foundEntry relayed key entry) ∧
      s.finished base others o (.ok relayed) = { s with
        calls := others
        caches := caches
        said := ⟨o.call.server, o.key, o.call.recurse + 1, .answer (some relayed.record) relayed.successor, s.now⟩ ::
          s.said } := by
  refine ⟨_, gains_map s.caches o.call.server _ _ ?_, rfl⟩
  intro cache key entry found
  exact (remember_found o.key s.now _ cache relayed key entry found).imp id (fun new => ⟨rfl, new⟩)

theorem finished_vain (answered : Nat) (errors : List String) :
    ∃ response caches, (∀ record successor, response ≠ .answer (some record) successor) ∧ carried response = [] ∧
      Gains s.caches caches (fun v key entry => v = o.call.server ∧ key = o.key ∧ entry = .missing (s.now + negativeTtl)) ∧
      s.finished base others o (.error (answered, errors)) = { s with
        calls := others
        caches := caches
        said := ⟨o.call.server, o.key, o.call.recurse + 1, response, s.now⟩ :: s.said } := by
  refine ⟨relay (conclude (base o.call.server).upstream.links.length (.error (answered, errors))), _, ?_, ?_,
    gains_map s.caches o.call.server _ _ ?_, rfl⟩
  · intro record successor
    simp only [conclude]
    split
    · simp [relay]
    · split
      · simp [relay]
      · simp [relay]
  · simp only [conclude]
    split
    · rfl
    · split
      · rfl
      · rfl
  · intro cache key entry found
    exact (remember_missing o.key s.now _ cache answered errors key entry found).imp id (fun new => ⟨rfl, new⟩)

end Turns

section Provenance

variable (P : SignedRecord → Prop)

-- Whatever is on its way or kept has property `P`.
structure Faithful (s : State ν) : Prop where
  answers : ∀ a ∈ s.said, ∀ record successor, a.response = .answer (some record) successor → record.key = a.key
  fresh : ∀ a ∈ s.said, ∀ x ∈ carried a.response, x.record.isExpired a.time = false ∧ P x
  cached : ∀ v cache, s.caches v = some cache → ∀ key x, cache.lookup key = some (.found x) → x.key = key ∧ P x

def Stocked (s : State ν) : Prop :=
  ∀ v key x, (s.stores v).get key s.now = some x → x.key = key ∧ x.record.isExpired s.now = false ∧ P x

omit [DecidableEq ν] in
theorem gains_cached (s : State ν) (faithful : Faithful P s) (after : ν → Option Cache) (new : ν → PubKey → Entry → Prop)
    (gains : Gains s.caches after new) (good : ∀ v key x, new v key (.found x) → x.key = key ∧ P x) (v : ν) (cache : Cache)
    (on : after v = some cache) (key : PubKey) (x : SignedRecord) (found : cache.lookup key = some (.found x)) :
    x.key = key ∧ P x := by
  rcases gains v cache on key (.found x) found with ⟨kept, before, held⟩ | fresh
  · exact faithful.cached v kept before key x held
  · exact good v key x fresh

omit [DecidableEq ν] in
theorem spoken_faithful (s : State ν) (faithful : Faithful P s) (calls : List (Ongoing ν)) (after : ν → Option Cache)
    (new : ν → PubKey → Entry → Prop) (gains : Gains s.caches after new)
    (good : ∀ v key x, new v key (.found x) → x.key = key ∧ P x) (a : Said ν)
    (own : ∀ record successor, a.response = .answer (some record) successor → record.key = a.key)
    (fresh : ∀ x ∈ carried a.response, x.record.isExpired a.time = false ∧ P x) :
    Faithful P { s with calls := calls, caches := after, said := a :: s.said } where
  answers := by
    intro b member
    rcases List.mem_cons.mp member with rfl | older
    · exact own
    · exact faithful.answers b older
  fresh := by
    intro b member
    rcases List.mem_cons.mp member with rfl | older
    · exact fresh
    · exact faithful.fresh b older
  cached := gains_cached P s faithful after new gains good

theorem arrived_faithful (s : State ν) (stocked : Stocked P s) (faithful : Faithful P s) (v : ν) (key : PubKey)
    (recurse : UInt8) :
    Faithful P (s.arrived base v key recurse) := by
  have nothingNew : ∀ w k x, (nothing : ν → PubKey → Entry → Prop) w k (.found x) → x.key = k ∧ P x := fun _ _ _ new => new.elim
  have arrival := arrive_arrival (s.net base) key s.now s.caches v recurse
  rw [State.arrived]
  generalize arrive (s.net base) key s.now s.caches v recurse = dealt at arrival
  cases arrival with
  | held record found =>
      refine spoken_faithful P s faithful s.calls s.caches nothing (gains_self _ _) nothingNew _ ?_ ?_
      · intro x successor same
        cases same
        exact (stocked v key record found).1
      · intro x member
        rcases List.mem_append.mp member with here | following
        · rw [Option.toList_some, List.mem_singleton] at here
          exact here ▸ (stocked v key record found).2
        · obtain ⟨next, _, there⟩ := Option.bind_eq_some_iff.mp (Option.mem_toList.mp following)
          exact (stocked v next x there).2
  | stopped missing last =>
      exact spoken_faithful P s faithful s.calls s.caches nothing (gains_self _ _) nothingNew _ (by simp) (by simp [carried])
  | known cache record successor left on hit fresh offered kept =>
      refine spoken_faithful P s faithful s.calls left nothing kept nothingNew _ ?_ ?_
      · intro x _ same
        cases same
        exact (faithful.cached v cache on key record hit).1
      · intro x member
        rcases List.mem_append.mp member with here | following
        · rw [Option.toList_some, List.mem_singleton] at here
          subst here
          exact ⟨fresh, (faithful.cached v cache on key x hit).2⟩
        · obtain ⟨unexpired, next, there⟩ := offered x (Option.mem_toList.mp following)
          exact ⟨unexpired, (faithful.cached v cache on next x there).2⟩
  | remembered cache until_ left on hit current kept =>
      exact spoken_faithful P s faithful s.calls left nothing kept nothingNew _ (by simp) (by simp [carried])
  | opened left missing hops linked kept =>
      exact ⟨faithful.answers, faithful.fresh, gains_cached P s faithful left nothing kept nothingNew⟩

omit [DecidableEq ν] in
theorem accept_successor_same (store : Store) (now : Nat) (record successor kept : SignedRecord)
    (ok : acceptSuccessor prim store now record successor = some kept) : kept = successor := by
  obtain ⟨expected, _, checked⟩ := Option.bind_eq_some_iff.mp ok
  split at checked
  · cases checked
  · cases accepted : accept prim store now expected successor with
    | error e =>
        rw [accepted] at checked
        cases checked
    | ok _ =>
        rw [accepted] at checked
        exact (Option.some.inj checked).symm

theorem step_faithful (s s' : State ν) (act : Act prim ν) (step : Step prim debug base turn s act s') (stocked : Stocked P s)
    (faithful : Faithful P s) : Faithful P s' := by
  cases step with
  | tick later forward => exact ⟨faithful.answers, faithful.fresh, faithful.cached⟩
  | store v e changed step => exact ⟨faithful.answers, faithful.fresh, faithful.cached⟩
  | sweep v =>
      refine ⟨faithful.answers, faithful.fresh, ?_⟩
      exact gains_cached P s faithful _ nothing (gains_map s.caches v _ nothing (fun cache key entry found =>
        .inl (purge_entry cache s.now key entry found))) (fun _ _ _ new => new.elim)
  | lookup v key recurse => exact arrived_faithful base P s stocked faithful v key _
  | forward o link waiting found => exact arrived_faithful base P s stocked faithful link.server o.key _
  | hear front back o link reply waiting found carries prompt =>
      rcases heard_cases prim debug base s front back o link reply with ⟨record, successor, answer, accepted, whole⟩ |
        ⟨_, _, whole, _⟩
      · obtain ⟨a, said, _, _, _, same, _⟩ := carries _ answer
        have own := accept_ok prim s.now _ o.key record accepted
        have from_ : ∀ x ∈ carried (.answer (some record) successor), P x :=
          fun x member => (faithful.fresh a said x (same ▸ member)).2
        obtain ⟨caches, gains, done⟩ := finished_relayed base s o (front ++ back)
          ⟨record, successor.bind (acceptSuccessor prim (s.stores o.call.server) s.now record)⟩
        have kept : ∀ y, successor.bind (acceptSuccessor prim (s.stores o.call.server) s.now record) = some y →
            y.record.isExpired s.now = false ∧ P y := by
          intro y passed
          obtain ⟨z, offered, taken⟩ := Option.bind_eq_some_iff.mp passed
          obtain ⟨next, _, good⟩ := accept_successor_ok prim s.now _ record z y taken
          have same : y = z := accept_successor_same prim _ s.now record z y taken
          subst same
          exact ⟨(accept_ok prim s.now _ next y good).2, from_ y (by simp [carried, offered])⟩
        rw [whole, done]
        refine spoken_faithful P s faithful (front ++ back) caches _ gains ?_ _ ?_ ?_
        · rintro v key x ⟨_, y, entry, slot, origin⟩
          cases entry
          rcases origin with rfl | following
          · exact ⟨slot, from_ _ (by simp [carried])⟩
          · exact ⟨slot, (kept x following).2⟩
        · intro x _ same
          cases same
          exact own.1
        · intro x member
          rcases List.mem_append.mp member with here | following
          · rw [Option.toList_some, List.mem_singleton] at here
            subst here
            exact ⟨own.2, from_ _ (by simp [carried])⟩
          · exact kept x (Option.mem_toList.mp following)
      · rw [whole]
        exact ⟨faithful.answers, faithful.fresh, faithful.cached⟩
  | finish front back o waiting through prompt =>
      obtain ⟨response, caches, unlike, bare, gains, done⟩ :=
        finished_vain base s o (front ++ back) o.call.answered o.call.errors
      rw [done]
      refine spoken_faithful P s faithful (front ++ back) caches _ gains ?_ _ ?_ ?_
      · rintro v key x ⟨_, _, entry⟩
        cases entry
      · intro record successor same
        exact absurd same (unlike record successor)
      · intro x member
        rw [show carried response = [] from bare] at member
        cases member

end Provenance

section Worlds

omit [DecidableEq ν] in
@[simp] theorem settle_now (s : State ν) (v : ν) (key : PubKey) (recurse : UInt8) (dealt : Head ν × (ν → Option Cache)) :
    (s.settle v key recurse dealt).now = s.now := by
  obtain ⟨head, caches⟩ := dealt
  cases head <;> rfl

omit [DecidableEq ν] in
@[simp] theorem settle_stores (s : State ν) (v : ν) (key : PubKey) (recurse : UInt8) (dealt : Head ν × (ν → Option Cache)) :
    (s.settle v key recurse dealt).stores = s.stores := by
  obtain ⟨head, caches⟩ := dealt
  cases head <;> rfl

theorem heard_world (s : State ν) (front back : List (Ongoing ν)) (o : Ongoing ν) (link : PeerLink ν) (reply : Reply) :
    (s.heard prim debug base front back o link reply).now = s.now ∧
      (s.heard prim debug base front back o link reply).stores = s.stores := by
  rcases heard_cases prim debug base s front back o link reply with ⟨_, _, _, _, whole⟩ | ⟨_, _, whole, _⟩
  · rw [whole, State.finished]
    exact ⟨settle_now _ _ _ _ _, settle_stores _ _ _ _ _⟩
  · rw [whole]
    exact ⟨rfl, rfl⟩

def Sounds (s : State ν) : Prop := ∀ v, Sound prim ⟨s.now, s.stores v⟩

omit [DecidableEq ν] in
theorem sound_later (now later : Nat) (store : Store) (forward : now ≤ later) (sound : Sound prim ⟨now, store⟩) :
    Sound prim ⟨later, store⟩ :=
  step_sound prim _ _ _ (.tick ⟨now, store⟩ later forward) sound

theorem step_sounds (s s' : State ν) (act : Act prim ν) (step : Step prim debug base turn s act s') (sounds : Sounds prim s) :
    Sounds prim s' := by
  cases step with
  | tick later forward => exact fun v => sound_later prim s.now later _ forward (sounds v)
  | store v e changed step =>
      intro w
      by_cases same : w = v
      · subst same
        simp only [Function.update_self]
        exact step_sound prim _ _ e step (sounds w)
      · simp only [Function.update_of_ne same]
        exact sounds w
  | sweep v => exact sounds
  | lookup v key recurse => simpa [Sounds, State.arrived] using sounds
  | forward o link waiting found => simpa [Sounds, State.arrived] using sounds
  | hear front back o link reply waiting found carries prompt =>
      obtain ⟨now, stores⟩ := heard_world prim debug base s front back o link reply
      rw [Sounds, now, stores]
      exact sounds
  | finish front back o waiting through prompt => simpa [Sounds, State.finished] using sounds

omit [DecidableEq ν] in
theorem stored_own (s : State ν) (sounds : Sounds prim s) (v : ν) (key : PubKey) (x : SignedRecord)
    (found : (s.stores v).get key s.now = some x) :
    (s.stores v).records.lookup key = some x ∧ x.key = key ∧ x.record.isExpired s.now = false := by
  obtain ⟨held, fresh⟩ := Option.filter_eq_some_iff.mp found
  exact ⟨held, (sounds v).consistent.own key x held, by simpa using fresh⟩

-- No Lookup has been sent and nothing is cached.
structure Quiet (s : State ν) : Prop where
  calls : s.calls = []
  said : s.said = []
  caches : ∀ v cache, s.caches v = some cache → cache = Cache.new

omit [DecidableEq ν] in
theorem quiet_faithful (P : SignedRecord → Prop) (s : State ν) (quiet : Quiet s) : Faithful P s where
  answers := by simp [quiet.said]
  fresh := by simp [quiet.said]
  cached := by
    intro v cache on key x found
    rw [quiet.caches v cache on] at found
    cases found

-- Over a whole run: a property of what the stores hold, in each state, is one of
-- everything that is said and cached.
theorem run_faithful (P : SignedRecord → Prop) (start done : State ν) (run : List (Transition (State ν) (Act prim ν)))
    (whole : Run (Step prim debug base turn) start run done) (sounds : Sounds prim start) (faithful : Faithful P start)
    (stocked : ∀ s ∈ visited start run, Sounds prim s → ∀ v key x, (s.stores v).records.lookup key = some x →
      x.record.isExpired s.now = false → P x) :
    ∀ s ∈ visited start run, Sounds prim s ∧ Faithful P s := by
  let ok : Transition (State ν) (Act prim ν) → Prop := fun move => Sounds prim move.pre → Stocked P move.pre
  refine run_visited_invariant (fun s => Sounds prim s ∧ Faithful P s) ok ?_ ?_ whole ⟨sounds, faithful⟩
  · intro u act v step fits both
    exact ⟨step_sounds prim debug base turn u v act step both.1,
      step_faithful prim debug base turn P u v act step (fits both.1) both.2⟩
  · intro move member sound v key x found
    obtain ⟨held, own, fresh⟩ := stored_own prim move.pre sound v key x found
    exact ⟨own, fresh, stocked move.pre (run_pre_visited whole move member) sound v key x held fresh⟩

end Worlds

-- A record lives for a week at most, and what has come in is dated at most five
-- minutes ahead.
theorem held_lives (now : Nat) (store : Store) (sound : Sound prim ⟨now, store⟩) (key : PubKey) (x : SignedRecord)
    (held : store.records.lookup key = some x) :
    x.record.isTerminal = true ∨ x.record.expiresAt ≤ now + maxClockSkew + maxTtl.toNat := by
  have dated := sound.notFuture key x held
  have valid := sound.consistent.valid key x held
  cases body : x.record.body with
  | live endpoints =>
      have short := (Record.live_ttl prim x.record endpoints body valid).2
      refine .inr ?_
      rw [Record.expiresAt, if_neg (by simp [Record.isTerminal, Record.isSuperseded, Record.isRevoked, body])]
      dsimp only at dated
      omega
  | superseded successor reason => exact .inl (by simp [Record.isTerminal, Record.isSuperseded, Record.isRevoked, body])
  | revoked reason => exact .inl (by simp [Record.isTerminal, Record.isSuperseded, Record.isRevoked, body])

-- Once every server that holds a key holds its retirement, what the caches and
-- the replies on their way still say of it is over with the last record from
-- before: no answer for any key carries a record of it any more.
theorem retired_key_dies_out (start done : State ν) (run : List (Transition (State ν) (Act prim ν)))
    (whole : Run (Step prim debug base turn) start run done) (sounds : Sounds prim start) (quiet : Quiet start) (k : PubKey)
    (retiredAt : Nat) (retired : ∀ s ∈ visited start run, retiredAt ≤ s.now → ∀ v held,
      (s.stores v).records.lookup k = some held → held.record.isTerminal = true) :
    ∀ a ∈ done.said, retiredAt + maxClockSkew + maxTtl.toNat ≤ a.time → ∀ x ∈ carried a.response, x.key = k →
      x.record.isTerminal = true := by
  let P : SignedRecord → Prop := fun x =>
    x.key = k → x.record.isTerminal = true ∨ x.record.expiresAt ≤ retiredAt + maxClockSkew + maxTtl.toNat
  have stocked : ∀ s ∈ visited start run, Sounds prim s → ∀ v key x, (s.stores v).records.lookup key = some x →
      x.record.isExpired s.now = false → P x := by
    intro s member sound v key x held _ own
    rw [(sound v).consistent.own key x held] at own
    subst own
    by_cases late : retiredAt ≤ s.now
    · exact .inl (retired s member late v x held)
    · exact (held_lives prim s.now _ (sound v) key x held).imp id (fun soon => by omega)
  have faithful := (run_faithful prim debug base turn P start done run whole sounds (quiet_faithful P start quiet) stocked
    done (run_end_visited whole)).2
  intro a said late x member own
  obtain ⟨fresh, came⟩ := faithful.fresh a said x member
  rcases came own with terminal | lived
  · exact terminal
  · by_contra live
    simp only [Record.isExpired, Bool.and_eq_false_iff, Bool.not_eq_false', decide_eq_false_iff_not] at fresh
    rcases fresh with terminal | ongoing
    · exact live terminal
    · omega

section Absence

variable (source : ν → Prop) (depth : ν → Nat) (wide : Nat) (k i : PubKey) (heldFrom : Nat)

-- The servers from which some way along the links gets to a source.
inductive Leads : ν → Prop where
  | source (v : ν) (here : source v) : Leads v
  | link (v : ν) (link : PeerLink ν) (linked : link ∈ (base v).upstream.links) (leads : Leads link.server) : Leads v

-- No server asks in a circle.
structure Layered : Prop where
  down : ∀ v, ∀ link ∈ (base v).upstream.links, depth link.server < depth v
  narrow : ∀ v, (base v).upstream.links.length ≤ wide

-- How long a server this far from a source can still miss the key.
def horizon (d : Nat) : Nat := heldFrom + d * (negativeTtl + wide * turn)

theorem horizon_mono (d e : Nat) (lower : d ≤ e) : horizon turn wide heldFrom d ≤ horizon turn wide heldFrom e :=
  Nat.add_le_add_left (Nat.mul_le_mul_right _ lower) _

theorem horizon_above (d now : Nat) (early : now < heldFrom) : now < horizon turn wide heldFrom d :=
  Nat.lt_of_lt_of_le early (Nat.le_add_right _ _)

theorem horizon_next (d began now place : Nat) (early : began < horizon turn wide heldFrom d) (few : place ≤ wide)
    (soon : now ≤ began + place * turn) : now + negativeTtl < horizon turn wide heldFrom (d + 1) := by
  have turns : place * turn ≤ wide * turn := Nat.mul_le_mul_right turn few
  have split : (d + 1) * (negativeTtl + wide * turn) = d * (negativeTtl + wide * turn) + (negativeTtl + wide * turn) :=
    Nat.succ_mul _ _
  simp only [horizon] at early ⊢
  omega

structure Serving (s : State ν) : Prop where
  held : heldFrom ≤ s.now → ∀ v, source v → ∃ record, (s.stores v).get k s.now = some record
  pinned : ∀ v bound, (s.stores v).bindings.lookup k = some bound → bound = i

-- A Lookup comes with the hops to get to a source, and a link towards one
-- replies, with a record that is still good when it is there.
def Calm (move : Transition (State ν) (Act prim ν)) : Prop :=
  match move.label with
  | .lookup v key recurse => key = k → Leads base source v → depth v ≤ (min recurse maxRecurse).toNat
  | .hear o link reply => o.key = k → Leads base source link.server → heldFrom ≤ move.pre.now →
      ∃ response, reply = .answered response ∧ ∀ record successor, response = .answer (some record) successor →
        Store.survives record move.pre.now = true
  | _ => True

structure Paced (now : Nat) (o : Ongoing ν) : Prop where
  began : o.began ≤ o.since
  since : o.since ≤ now
  place : o.call.place ≤ (base o.call.server).upstream.links.length
  pace : o.since ≤ o.began + o.call.place * turn
  hops : o.call.recurse.toNat + 1 ≤ maxRecurse.toNat

-- Either a link towards a source is still to be asked, or the Lookup is from
-- before those servers knew the key.
def OnTrack (o : Ongoing ν) : Prop :=
  ∃ d, depth o.call.server = d + 1 ∧ d ≤ o.call.recurse.toNat ∧
    ((∃ j link, o.call.place ≤ j ∧ (base o.call.server).upstream.links[j]? = some link ∧ Leads base source link.server) ∨
      o.began < horizon turn wide heldFrom d)

structure Aging (s : State ν) : Prop where
  cached : ∀ v, Leads base source v → ∀ cache, s.caches v = some cache → ∀ until_,
    cache.lookup k = some (.missing until_) → until_ ≤ horizon turn wide heldFrom (depth v)
  said : ∀ a ∈ s.said, a.key = k → Leads base source a.server →
    (∃ record successor, a.response = .answer (some record) successor) ∨ a.time < horizon turn wide heldFrom (depth a.server)
  paced : ∀ o ∈ s.calls, Paced base turn s.now o
  calls : ∀ o ∈ s.calls, o.key = k → Leads base source o.call.server → OnTrack base turn source depth wide heldFrom o

omit [DecidableEq ν] in
theorem gains_aged (s : State ν) (aging : Aging base turn source depth wide k heldFrom s) (after : ν → Option Cache)
    (new : ν → PubKey → Entry → Prop) (gains : Gains s.caches after new)
    (soon : ∀ v until_, Leads base source v → new v k (.missing until_) → until_ ≤ horizon turn wide heldFrom (depth v)) (v : ν)
    (leads : Leads base source v) (cache : Cache) (on : after v = some cache) (until_ : Nat)
    (found : cache.lookup k = some (.missing until_)) : until_ ≤ horizon turn wide heldFrom (depth v) := by
  rcases gains v cache on k (.missing until_) found with ⟨kept, before, held⟩ | fresh
  · exact aging.cached v leads kept before until_ held
  · exact soon v until_ leads fresh

omit [DecidableEq ν] in
theorem spoken_aging (s : State ν) (aging : Aging base turn source depth wide k heldFrom s) (calls : List (Ongoing ν))
    (fewer : ∀ o ∈ calls, o ∈ s.calls) (after : ν → Option Cache) (new : ν → PubKey → Entry → Prop)
    (gains : Gains s.caches after new)
    (soon : ∀ v until_, Leads base source v → new v k (.missing until_) → until_ ≤ horizon turn wide heldFrom (depth v))
    (a : Said ν) (own : a.key = k → Leads base source a.server →
      (∃ record successor, a.response = .answer (some record) successor) ∨
        a.time < horizon turn wide heldFrom (depth a.server)) :
    Aging base turn source depth wide k heldFrom { s with calls := calls, caches := after, said := a :: s.said } where
  cached := gains_aged base turn source depth wide k heldFrom s aging after new gains soon
  said := by
    intro b member
    rcases List.mem_cons.mp member with rfl | older
    · exact own
    · exact aging.said b older
  paced := fun o member => aging.paced o (fewer o member)
  calls := fun o member => aging.calls o (fewer o member)

section Arriving

variable (layered : Layered base depth wide) (s : State ν) (serving : Serving source k i heldFrom s)
  (aging : Aging base turn source depth wide k heldFrom s) (v : ν) (key : PubKey) (recurse : UInt8)
  (enough : key = k → Leads base source v → depth v ≤ recurse.toNat) (low : recurse.toNat ≤ maxRecurse.toNat)

omit [DecidableEq ν] in
include serving in
theorem missing_linked (missing : (s.stores v).get k s.now = none) (leads : Leads base source v) :
    s.now < heldFrom ∨ ∃ link ∈ (base v).upstream.links, Leads base source link.server := by
  by_cases late : heldFrom ≤ s.now
  · cases leads with
    | source _ here =>
        obtain ⟨record, held⟩ := serving.held late v here
        rw [missing] at held
        cases held
    | link _ link linked leads => exact .inr ⟨link, linked, leads⟩
  · exact .inl (Nat.lt_of_not_le late)

include layered serving aging enough low in
theorem arrived_aging : Aging base turn source depth wide k heldFrom (s.arrived base v key recurse) := by
  have nothingNew : ∀ w until_, Leads base source w → (nothing : ν → PubKey → Entry → Prop) w k (.missing until_) →
      until_ ≤ horizon turn wide heldFrom (depth w) := fun _ _ _ new => new.elim
  have arrival := arrive_arrival (s.net base) key s.now s.caches v recurse
  rw [State.arrived]
  generalize arrive (s.net base) key s.now s.caches v recurse = dealt at arrival
  cases arrival with
  | held record found =>
      exact spoken_aging base turn source depth wide k heldFrom s aging s.calls (fun _ member => member) s.caches nothing
        (gains_self _ _) nothingNew _ (fun _ _ => .inl ⟨_, _, rfl⟩)
  | stopped missing last =>
      refine spoken_aging base turn source depth wide k heldFrom s aging s.calls (fun _ member => member) s.caches nothing
        (gains_self _ _) nothingNew _ (fun own leads => .inr ?_)
      subst own
      rcases missing_linked base source _ i heldFrom s serving v missing leads with early | ⟨link, linked, _⟩
      · exact horizon_above turn wide heldFrom _ _ early
      · exfalso
        have below := layered.down v link linked
        have hops := enough rfl leads
        rcases last with none_ | alone
        · rw [none_] at hops
          simp at hops
          omega
        · have empty : (base v).upstream.links = [] := List.eq_nil_of_length_eq_zero alone
          rw [empty] at linked
          cases linked
  | known cache record successor left on hit fresh offered kept =>
      exact spoken_aging base turn source depth wide k heldFrom s aging s.calls (fun _ member => member) left nothing kept
        nothingNew _ (fun _ _ => .inl ⟨_, _, rfl⟩)
  | remembered cache until_ left on hit current kept =>
      refine spoken_aging base turn source depth wide k heldFrom s aging s.calls (fun _ member => member) left nothing kept
        nothingNew _ (fun own leads => .inr ?_)
      subst own
      exact Nat.lt_of_lt_of_le current (aging.cached v leads cache on until_ hit)
  | opened left missing hops linked kept =>
      have pred := recurse_pred recurse hops
      refine ⟨gains_aged base turn source depth wide k heldFrom s aging left nothing kept nothingNew, aging.said, ?_, ?_⟩
      · intro o member
        rcases List.mem_cons.mp member with rfl | older
        · exact ⟨Nat.le_refl _, Nat.le_refl _, Nat.zero_le _, Nat.le_add_right _ _, by simpa [pred] using low⟩
        · exact aging.paced o older
      · intro o member
        rcases List.mem_cons.mp member with rfl | older
        · intro own leads
          dsimp only at own leads ⊢
          subst own
          obtain ⟨first, there⟩ := List.exists_mem_of_length_pos (Nat.pos_of_ne_zero linked)
          have below := layered.down v first there
          have asked := enough rfl leads
          refine ⟨depth v - 1, by dsimp only; omega, by dsimp only; omega, ?_⟩
          rcases missing_linked base source _ i heldFrom s serving v missing leads with early | ⟨link, towards, on⟩
          · exact .inr (horizon_above turn wide heldFrom _ _ early)
          · obtain ⟨j, short, same⟩ := List.mem_iff_getElem.mp towards
            exact .inl ⟨j, link, Nat.zero_le _, List.getElem?_eq_some_iff.mpr ⟨short, same⟩, on⟩
        · exact aging.calls o older

end Arriving

-- What a record of `k` has to be for a server to pass it on.
def Passable (x : SignedRecord) : Prop :=
  x.verify prim = .ok () ∧ x.record.validate prim = .ok () ∧ (x.key = k → x.identity = i)

omit [DecidableEq ν] in
theorem passable_accepted (store : Store) (now : Nat) (x : SignedRecord) (passable : Passable prim k i x) (own : x.key = k)
    (pinned : ∀ bound, store.bindings.lookup k = some bound → bound = i) (good : Store.survives x now = true) :
    accept prim store now k x = .ok () := by
  obtain ⟨verified, valid, identity⟩ := passable
  refine (then_ok _ _ _).mpr ⟨(), (verify_answer_iff prim x k now).mpr ⟨own, verified, valid, good⟩, ?_⟩
  cases bound : store.bindings.lookup k with
  | none => simp only [Store.identityOf, bound]; rfl
  | some b =>
      have same : x.identity = b := (identity own).trans (pinned b bound).symm
      simp only [Store.identityOf, bound, same, ne_eq, not_true_eq_false, if_false]
      rfl

section Step

variable (layered : Layered base depth wide) (s : State ν) (serving : Serving source k i heldFrom s)
  (aging : Aging base turn source depth wide k heldFrom s)

omit [DecidableEq ν] in
include layered aging in
theorem finish_late (front back : List (Ongoing ν)) (o : Ongoing ν) (waiting : s.calls = front ++ o :: back)
    (through : linkOf base o = none) (prompt : s.now = o.since) (own : o.key = k) (leads : Leads base source o.call.server) :
    s.now + negativeTtl < horizon turn wide heldFrom (depth o.call.server) := by
  have member : o ∈ s.calls := by simp [waiting]
  obtain ⟨d, deep, _, behind⟩ := aging.calls o member own leads
  have paced := aging.paced o member
  have few : o.call.place ≤ wide := Nat.le_trans paced.place (layered.narrow _)
  rw [deep]
  rcases behind with ⟨j, link, later, there, _⟩ | early
  · exfalso
    have past := List.getElem?_eq_none_iff.mp through
    have short := (List.getElem?_eq_some_iff.mp there).1
    omega
  · exact horizon_next turn wide heldFrom d o.began s.now o.call.place early few (prompt ▸ paced.pace)

omit [DecidableEq ν] in
include layered serving aging in
-- A link that has brought nothing is not one towards a source, or the Lookup is an early one.
theorem gone_on_track (faithful : Faithful (Passable prim k i) s) (o : Ongoing ν) (member : o ∈ s.calls) (link : PeerLink ν)
    (reply : Reply) (found : linkOf base o = some link)
    (carries : ∀ response, reply = .answered response → Carried s o link response)
    (refused : ∀ record successor, reply = .answered (.answer (some record) successor) →
      accept prim (s.stores o.call.server) s.now o.key record ≠ .ok ())
    (calm : o.key = k → Leads base source link.server → heldFrom ≤ s.now → ∃ response, reply = .answered response ∧
      ∀ record successor, response = .answer (some record) successor → Store.survives record s.now = true)
    (own : o.key = k) (leads : Leads base source o.call.server) (answered : Nat) (errors : List String) :
    OnTrack base turn source depth wide heldFrom
      { o with since := s.now, call := { o.call with place := o.call.place + 1, answered, errors } } := by
  obtain ⟨d, deep, hops, behind⟩ := aging.calls o member own leads
  have paced := aging.paced o member
  refine ⟨d, deep, hops, ?_⟩
  rcases behind with ⟨j, towards, later, there, onward⟩ | early
  · by_cases here : j = o.call.place
    · refine .inr ?_
      subst here
      have same : link = towards := Option.some.inj (found.symm.trans there)
      subst same
      by_cases late : heldFrom ≤ s.now
      · obtain ⟨response, replied, good⟩ := calm own onward late
        obtain ⟨a, said, server, key, _, answer, after⟩ := carries response replied
        rcases aging.said a said (key.trans own) (server ▸ onward) with ⟨record, successor, holds⟩ | early
        · exfalso
          rw [answer] at holds
          subst holds
          have slot := faithful.answers a said record successor answer
          have passable := (faithful.fresh a said record (by simp [answer, carried])).2
          refine refused record successor replied ?_
          rw [own]
          exact passable_accepted prim k i _ s.now record passable (slot.trans (key.trans own))
            (serving.pinned o.call.server) (good record successor rfl)
        · have below := layered.down _ link (List.mem_of_getElem? there)
          have sooner := horizon_mono turn wide heldFrom (depth a.server) d (by rw [server]; omega)
          have began := paced.began
          change o.began < _
          omega
      · have began := paced.began
        have since := paced.since
        exact horizon_above turn wide heldFrom d o.began (by omega)
    · exact .inl ⟨j, towards, by dsimp only; omega, there, onward⟩
  · exact .inr early

omit [DecidableEq ν] in
theorem others_waiting (calls front back : List (Ongoing ν)) (o : Ongoing ν) (waiting : calls = front ++ o :: back)
    (other : Ongoing ν) (inside : other ∈ front ++ back) : other ∈ calls := by
  rw [waiting]
  simp only [List.mem_append, List.mem_cons] at inside ⊢
  exact inside.imp id .inr

omit [DecidableEq ν] in
theorem each_of_moved (P : Ongoing ν → Prop) (calls front back : List (Ongoing ν)) (o moved : Ongoing ν)
    (waiting : calls = front ++ o :: back) (before : ∀ other ∈ calls, P other) (onward : P moved) :
    ∀ other ∈ front ++ moved :: back, P other := by
  intro other inside
  rcases List.mem_append.mp inside with early | late
  · exact before other (others_waiting calls front back o waiting other (List.mem_append_left _ early))
  · rcases List.mem_cons.mp late with rfl | behind
    · exact onward
    · exact before other (others_waiting calls front back o waiting other (List.mem_append_right _ behind))

include layered serving aging in
theorem step_aging (faithful : Faithful (Passable prim k i) s) (act : Act prim ν) (s' : State ν)
    (step : Step prim debug base turn s act s') (calm : Calm prim base source depth k heldFrom ⟨s, act, s'⟩) :
    Aging base turn source depth wide k heldFrom s' := by
  cases step with
  | tick later forward =>
      exact ⟨aging.cached, aging.said, fun o member => { aging.paced o member with
        since := Nat.le_trans (aging.paced o member).since forward }, aging.calls⟩
  | store v e changed step => exact ⟨aging.cached, aging.said, aging.paced, aging.calls⟩
  | sweep v =>
      exact ⟨gains_aged base turn source depth wide k heldFrom s aging _ nothing (gains_map s.caches v _ nothing
        (fun cache key entry found => .inl (purge_entry cache s.now key entry found))) (fun _ _ _ new => new.elim),
        aging.said, aging.paced, aging.calls⟩
  | lookup v key recurse =>
      have capped : (min recurse maxRecurse).toNat ≤ maxRecurse.toNat := by
        rw [budget_eq]
        exact Nat.min_le_right _ _
      exact arrived_aging base turn source depth wide k i heldFrom layered s serving aging v key _ calm capped
  | forward o link waiting found =>
      have hops := (aging.paced o waiting).hops
      have uncapped : min o.call.recurse maxRecurse = o.call.recurse := if_pos (UInt8.le_iff_toNat_le.mpr (by omega))
      rw [uncapped]
      refine arrived_aging base turn source depth wide k i heldFrom layered s serving aging link.server o.key _ ?_ (by omega)
      intro own leads
      have linked : link ∈ (base o.call.server).upstream.links := List.mem_of_getElem? found
      obtain ⟨d, deep, enough, _⟩ := aging.calls o waiting own (.link _ link linked leads)
      have below := layered.down _ link linked
      omega
  | hear front back o link reply waiting found carries prompt =>
      have member : o ∈ s.calls := by simp [waiting]
      rcases heard_cases prim debug base s front back o link reply with ⟨record, successor, answer, accepted, whole⟩ |
        ⟨answered, errors, whole, refused⟩
      · obtain ⟨caches, gains, done⟩ := finished_relayed base s o (front ++ back)
          ⟨record, successor.bind (acceptSuccessor prim (s.stores o.call.server) s.now record)⟩
        rw [whole, done]
        refine spoken_aging base turn source depth wide k heldFrom s aging (front ++ back)
          (others_waiting s.calls front back o waiting) caches _ gains ?_ _ (fun _ _ => .inl ⟨_, _, rfl⟩)
        rintro v until_ _ ⟨_, x, entry, _⟩
        cases entry
      · rw [whole]
        have paced := aging.paced o member
        have inLinks := (List.getElem?_eq_some_iff.mp found).1
        have onward : Paced base turn s.now
            { o with since := s.now, call := { o.call with place := o.call.place + 1, answered, errors } } := by
          have pace := paced.pace
          have began := paced.began
          have since := paced.since
          have more : (o.call.place + 1) * turn = o.call.place * turn + turn := Nat.succ_mul _ _
          exact ⟨by dsimp only; omega, Nat.le_refl _, inLinks, by dsimp only; omega, paced.hops⟩
        refine ⟨aging.cached, aging.said, each_of_moved _ s.calls front back o _ waiting aging.paced onward,
          each_of_moved _ s.calls front back o _ waiting aging.calls ?_⟩
        intro own leads
        exact gone_on_track prim base turn source depth wide k i heldFrom layered s serving aging faithful o member link
          reply found carries refused calm own leads answered errors
  | finish front back o waiting through prompt =>
      have late := finish_late base turn source depth wide k heldFrom layered s aging front back o waiting through prompt
      obtain ⟨response, caches, unlike, bare, gains, done⟩ :=
        finished_vain base s o (front ++ back) o.call.answered o.call.errors
      rw [done]
      refine spoken_aging base turn source depth wide k heldFrom s aging (front ++ back)
        (others_waiting s.calls front back o waiting) caches _ gains ?_ _ ?_
      · rintro v until_ leads ⟨rfl, own, entry⟩
        cases entry
        exact Nat.le_of_lt (late own.symm leads)
      · intro own leads
        have soon := late own leads
        exact .inr (by dsimp only; omega)

end Step

omit [DecidableEq ν] in
theorem quiet_aging (s : State ν) (quiet : Quiet s) : Aging base turn source depth wide k heldFrom s where
  cached := by
    intro v _ cache on until_ found
    rw [quiet.caches v cache on] at found
    cases found
  said := by simp [quiet.said]
  paced := by simp [quiet.calls]
  calls := by simp [quiet.calls]

omit [DecidableEq ν] in
theorem held_passable (s : State ν) (sounds : Sounds prim s) (serving : Serving source k i heldFrom s) (v : ν) (key : PubKey)
    (x : SignedRecord) (held : (s.stores v).records.lookup key = some x) : Passable prim k i x := by
  have consistent := (sounds v).consistent
  refine ⟨consistent.verified key x held, consistent.valid key x held, ?_⟩
  intro own
  have slot := consistent.own key x held
  exact serving.pinned v x.identity ((slot.symm.trans own) ▸ consistent.bound key x held)

-- From when the sources hold a key, the network forgets that there was none. A
-- server says for the last time that it knows of no record when every server on
-- the way has had its thirty seconds and its turns.
theorem absence_wears_off (start done : State ν) (run : List (Transition (State ν) (Act prim ν)))
    (whole : Run (Step prim debug base turn) start run done) (sounds : Sounds prim start) (quiet : Quiet start)
    (layered : Layered base depth wide) (serving : ∀ s ∈ visited start run, Serving source k i heldFrom s)
    (calm : ∀ move ∈ run, Calm prim base source depth k heldFrom move) :
    (∀ v, Leads base source v → ∀ cache, done.caches v = some cache → ∀ until_, cache.lookup k = some (.missing until_) →
      until_ ≤ horizon turn wide heldFrom (depth v)) ∧
    ∀ a ∈ done.said, a.key = k → Leads base source a.server → horizon turn wide heldFrom (depth a.server) ≤ a.time →
      ∃ record successor, a.response = .answer (some record) successor ∧ record.key = k ∧ record.identity = i ∧
        record.verify prim = .ok () ∧ record.record.isExpired a.time = false := by
  have faithful := run_faithful prim debug base turn (Passable prim k i) start done run whole sounds
    (quiet_faithful (Passable prim k i) start quiet)
    (fun s member sound v key x held _ => held_passable prim source k i heldFrom s sound (serving s member) v key x held)
  let ok : Transition (State ν) (Act prim ν) → Prop := fun move =>
    Serving source k i heldFrom move.pre ∧ Faithful (Passable prim k i) move.pre ∧ Calm prim base source depth k heldFrom move
  have aged : Aging base turn source depth wide k heldFrom done := by
    refine run_invariant (Aging base turn source depth wide k heldFrom) ok ?_ ?_ whole
      (quiet_aging base turn source depth wide k heldFrom start quiet)
    · intro u act v step fits aging
      exact step_aging prim debug base turn source depth wide k i heldFrom layered u fits.1 aging fits.2.1 act v step fits.2.2
    · intro move member
      have seen := run_pre_visited whole move member
      exact ⟨serving move.pre seen, (faithful move.pre seen).2, calm move member⟩
  refine ⟨aged.cached, ?_⟩
  intro a said own leads late
  have good := (faithful done (run_end_visited whole)).2
  rcases aged.said a said own leads with ⟨record, successor, holds⟩ | early
  · obtain ⟨fresh, verified, _, identity⟩ := good.fresh a said record (by simp [holds, carried])
    have slot := (good.answers a said record successor holds).trans own
    exact ⟨record, successor, holds, slot, identity slot, verified, fresh⟩
  · omega

end Absence

section Sample

open Sample

def begun (root : Store) : State Tier := ⟨1000, fun v => (chain root none v).store, fun _ => none, [], []⟩

def height : Tier → Nat
  | .leaf => 2
  | .mid => 1
  | .root => 0

def pending (t : Nat) : Ongoing Tier := ⟨node, t, t, ⟨.mid, 1, 0, 0, []⟩⟩

def fromRoot (x : SignedRecord) (t : Nat) : Said Tier := ⟨.root, node, 1, .answer (some x) none, t⟩

def passedOn (x : SignedRecord) (t : Nat) : Said Tier := ⟨.mid, node, 2, .answer (some x) none, t⟩

-- A client asks the server in the middle, which asks the root.
def errand (prim : Primitives) (root : Store) (x : SignedRecord) (t : Nat) : List (Transition (State Tier) (Act prim Tier)) :=
  [⟨begun root, .tick, { begun root with now := t }⟩,
    ⟨{ begun root with now := t }, .lookup .mid node 2, { begun root with now := t, calls := [pending t] }⟩,
    ⟨{ begun root with now := t, calls := [pending t] }, .forward (pending t),
      { begun root with now := t, calls := [pending t], said := [fromRoot x t] }⟩,
    ⟨{ begun root with now := t, calls := [pending t], said := [fromRoot x t] },
      .hear (pending t) ⟨"sqc://root", .root⟩ (.answered (.answer (some x) none)),
      { begun root with now := t, said := [passedOn x t, fromRoot x t] }⟩]

theorem errand_run (prim : Primitives) (root : Store) (x : SignedRecord) (t : Nat) (later : 1000 ≤ t)
    (held : root.get node t = some x) (last : x.record.successor = none) (accepted : accept prim Store.new t node x = .ok ()) :
    Run (Step prim (fun _ => "") (chain root none) 5) (begun root) (errand prim root x t)
      { begun root with now := t, said := [passedOn x t, fromRoot x t] } := by
  have uncached : Function.update (fun _ : Tier => (none : Option Cache)) .mid none = fun _ => none :=
    Function.update_eq_self _ _
  have asked : State.arrived (chain root none) { begun root with now := t } .mid node (min 2 maxRecurse) =
      { begun root with now := t, calls := [pending t] } :=
    congrArg (fun caches => ({ begun root with now := t, caches, calls := [pending t] } : State Tier)) uncached
  have answered :
      State.arrived (chain root none) { begun root with now := t, calls := [pending t] } .root node (min 1 maxRecurse) =
        { begun root with now := t, calls := [pending t], said := [fromRoot x t] } := by
    have found :
        (({ begun root with now := t, calls := [pending t] } : State Tier).net (chain root none) .root).store.get node t =
          some x := held
    rw [State.arrived, arrive]
    simp only [found, last, Option.bind_none]
    rfl
  have passed : State.heard prim (fun _ => "") (chain root none)
      { begun root with now := t, calls := [pending t], said := [fromRoot x t] } [] [] (pending t) ⟨"sqc://root", .root⟩
      (.answered (.answer (some x) none)) = { begun root with now := t, said := [passedOn x t, fromRoot x t] } := by
    have fits : accept prim (chain root none .mid).store t node x = .ok () := accepted
    simp only [State.heard, pending, askLinks, fits, State.finished, State.settle, close, Upstream.settle, conclude, relay,
      begun, Option.map_none, uncached, Option.bind_none]
    rfl
  refine .cons _ _ _ _ _ (.tick _ t later) (.cons _ _ _ _ _ ?_ (.cons _ _ _ _ _ ?_ (.cons _ _ _ _ _ ?_ (.nil _))))
  · have entered : Step prim (fun _ => "") (chain root none) 5 _ _ _ := .lookup { begun root with now := t } Tier.mid node 2
    exact asked ▸ entered
  · have forwarded : Step prim (fun _ => "") (chain root none) 5 _ _ _ :=
      .forward { begun root with now := t, calls := [pending t] } (pending t) ⟨"sqc://root", .root⟩ (by simp) rfl
    exact answered ▸ forwarded
  · have back : Step prim (fun _ => "") (chain root none) 5 _ _ _ :=
      .hear { begun root with now := t, calls := [pending t], said := [fromRoot x t] } [] [] (pending t) ⟨"sqc://root", .root⟩
        (.answered (.answer (some x) none)) rfl rfl ?_ (Nat.le_add_right _ _)
    · exact passed ▸ back
    · intro response same
      cases same
      exact ⟨fromRoot x t, by simp, rfl, rfl, rfl, rfl, Nat.le_refl _⟩

theorem errand_visited (prim : Primitives) (root : Store) (x : SignedRecord) (t : Nat) (s : State Tier)
    (member : s ∈ visited (begun root) (errand prim root x t)) :
    (s.now = 1000 ∨ s.now = t) ∧ s.stores = fun v => (chain root none v).store := by
  simp only [visited, errand, List.map_cons, List.map_nil, List.mem_cons, List.not_mem_nil, or_false] at member
  rcases member with rfl | rfl | rfl | rfl | rfl
  · exact ⟨.inl rfl, rfl⟩
  all_goals exact ⟨.inr rfl, rfl⟩

theorem begun_quiet (root : Store) : Quiet (begun root) := ⟨rfl, rfl, fun _ _ on => by cases on⟩

theorem begun_sounds (root : Store) (sound : Sound ed25519 ⟨1000, root⟩) : Sounds ed25519 (begun root) := by
  intro v
  cases v with
  | leaf => exact fresh_sound ed25519 1000
  | mid => exact fresh_sound ed25519 1000
  | root => exact sound

def rooted (r : SignedRecord) : Store := (Store.new.put ed25519 r 1000).2

theorem rooted_sound (r : SignedRecord) (member : r ∈ known) : Sound ed25519 ⟨1000, rooted r⟩ :=
  step_sound ed25519 ⟨1000, Store.new⟩ ⟨1000, rooted r⟩ _ (.put ⟨1000, Store.new⟩ (wire r member)) (fresh_sound ed25519 1000)

theorem retired_key_dies_out_revoked :
    ∃ done, Run (Step ed25519 (fun _ => "") (chain (rooted revocation) none) 5) (begun (rooted revocation))
        (errand ed25519 (rooted revocation) revocation 606100) done ∧
      ∀ a ∈ done.said, 1000 + maxClockSkew + maxTtl.toNat ≤ a.time → ∀ x ∈ carried a.response, x.key = node →
        x.record.isTerminal = true := by
  have run := errand_run ed25519 (rooted revocation) revocation 606100 (by decide) (by decide +kernel) rfl (by decide +kernel)
  refine ⟨_, run, ?_⟩
  refine retired_key_dies_out ed25519 (fun _ => "") (chain (rooted revocation) none) 5 (begun (rooted revocation)) _ _ run
    (begun_sounds _ (rooted_sound revocation (by simp [known]))) (begun_quiet _) node 1000 ?_
  intro s member _ v held found
  rw [(errand_visited ed25519 _ _ _ s member).2] at found
  cases v with
  | leaf => cases found
  | mid => cases found
  | root =>
      have only : (rooted revocation).records.lookup node = some revocation := by decide +kernel
      have same : some revocation = some held := only.symm.trans found
      cases same
      rfl

-- The server in the middle is one hop from the root: thirty seconds and one turn
-- after 1000 it answers with the record.
theorem absence_wears_off_fetched :
    ∃ done, Run (Step ed25519 (fun _ => "") (chain (rooted publish) none) 5) (begun (rooted publish))
        (errand ed25519 (rooted publish) publish 1100) done ∧ passedOn publish 1100 ∈ done.said ∧
      ∃ record successor, (passedOn publish 1100).response = .answer (some record) successor ∧ record.key = node ∧
        record.identity = alice ∧ record.verify ed25519 = .ok () ∧ record.record.isExpired 1100 = false := by
  have run := errand_run ed25519 (rooted publish) publish 1100 (by decide) (by decide +kernel) rfl (by decide +kernel)
  have here : passedOn publish 1100 ∈ [passedOn publish 1100, fromRoot publish 1100] := by simp
  refine ⟨_, run, here, ?_⟩
  have towards : Leads (chain (rooted publish) none) (· = .root) .mid :=
    .link _ ⟨"sqc://root", .root⟩ (by simp [chain]) (.source _ rfl)
  refine (absence_wears_off ed25519 (fun _ => "") (chain (rooted publish) none) 5 (· = .root) height 1 node alice 1000
    (begun (rooted publish)) _ _ run (begun_sounds _ (rooted_sound publish (by simp [known]))) (begun_quiet _) ⟨?_, ?_⟩ ?_ ?_).2
    (passedOn publish 1100) here rfl towards (by decide)
  · intro v link linked
    cases v with
    | leaf => simp only [chain, List.mem_singleton] at linked; subst linked; decide
    | mid => simp only [chain, List.mem_singleton] at linked; subst linked; decide
    | root => cases linked
  · intro v
    cases v with
    | leaf => exact Nat.le_refl 1
    | mid => exact Nat.le_refl 1
    | root => exact Nat.zero_le 1
  · intro s member
    obtain ⟨time, stores⟩ := errand_visited ed25519 _ _ _ s member
    refine ⟨?_, ?_⟩
    · rintro _ v rfl
      rw [stores]
      rcases time with start | end_
      · rw [start]
        exact ⟨publish, by decide +kernel⟩
      · rw [end_]
        exact ⟨publish, by decide +kernel⟩
    · intro v bound held
      rw [stores] at held
      cases v with
      | leaf => cases held
      | mid => cases held
      | root =>
          have only : (rooted publish).bindings.lookup node = some alice := by decide +kernel
          exact Option.some.inj (held.symm.trans only)
  · intro move member
    simp only [errand, List.mem_cons, List.not_mem_nil, or_false] at member
    rcases member with rfl | rfl | rfl | rfl
    · trivial
    · intro _ _
      decide
    · trivial
    · intro _ _ _
      refine ⟨_, rfl, ?_⟩
      intro record successor same
      cases same
      decide +kernel

end Sample

end Sqns.Lookups
