import Sqns.Recursion
import Sqns.Serving

set_option autoImplicit false

namespace Sqns.Upstream

open Trace

variable {ν : Type} (prim : Primitives) (debug : Response → String) (now : Nat)

-- A Lookup as a client sends it, and what each link would bring back meanwhile.
structure Query (ν : Type) where
  key : PubKey
  recurse : UInt8
  reply : PeerLink ν → Request → Reply

def Query.budget (q : Query ν) : UInt8 := min q.recurse maxRecurse

def handled (node : Node ν) (q : Query ν) : Option (Response × Option Cache) :=
  node.handleLookup prim debug now (fun link request => some (q.reply link request)) q.key q.budget

def withCache (node : Node ν) (cache : Option Cache) : Node ν := { node with upstream := { node.upstream with cache } }

inductive Served : Node ν → Query ν → Node ν → Prop where
  | mk (node : Node ν) (q : Query ν) (response : Response) (cache : Option Cache)
      (result : handled prim debug now node q = some (response, cache)) : Served node q (withCache node cache)

-- The three ways a Lookup is answered. Only the last one goes upstream.
theorem handled_turn (node : Node ν) (q : Query ν) (response : Response) (cache : Option Cache)
    (result : handled prim debug now node q = some (response, cache)) :
    (∃ record, node.store.get q.key now = some record ∧ cache = node.upstream.cache ∧
      response = .answer (some record) (record.record.successor.bind (fun next => node.store.get next now))) ∨
    (node.store.get q.key now = none ∧ cache = node.upstream.cache ∧ response = .answer none none) ∨
    (node.store.get q.key now = none ∧ q.budget ≠ 0 ∧ node.upstream.links.length ≠ 0 ∧ ∃ relayed,
      node.upstream.lookup prim debug node.store q.key now (fun link request => some (q.reply link request)) (q.budget - 1) =
        some (relayed, cache) ∧
      response = node.server.handleLookup (fun _ _ => relayed) q.key q.budget now) := by
  unfold handled at result
  cases held : node.store.get q.key now with
  | some record =>
      rw [Node.handle_lookup_hit prim debug now node _ q.key q.budget record held] at result
      cases result
      exact .inl ⟨record, rfl, rfl, rfl⟩
  | none =>
      by_cases last : q.budget = 0 ∨ node.upstream.links.length = 0
      · rw [Node.handle_lookup_stop prim debug now node _ q.key q.budget held last] at result
        cases result
        exact .inr (.inl ⟨rfl, rfl, rfl⟩)
      · obtain ⟨hops, linked⟩ := not_or.mp last
        rw [Node.handle_lookup_miss prim debug now node _ q.key q.budget held hops linked] at result
        obtain ⟨⟨relayed, left⟩, looked, same⟩ := Option.map_eq_some_iff.mp result
        cases same
        exact .inr (.inr ⟨rfl, hops, linked, relayed, looked, rfl⟩)

-- The link answered, but with nothing this server would pass on.
def Barren (store : Store) (key : PubKey) : Reply → Prop
  | .answered (.answer none _) => True
  | .answered (.answer (some record) _) => accept prim store now key record ≠ .ok ()
  | _ => False

-- A query for `k` that goes out on every link and comes back with nothing,
-- whether nobody there holds `k` or the hop budget ran out on the way.
structure Exhausting (k : PubKey) (node : Node ν) (q : Query ν) : Prop where
  asked : q.key = k
  missing : node.store.get k now = none
  hops : q.budget ≠ 0
  linked : node.upstream.links ≠ []
  unknown : ∀ cache, node.upstream.cache = some cache → (cache.get k now).1 = none
  barren : ∀ link ∈ node.upstream.links, Barren prim now node.store k (q.reply link (.lookup k (q.budget - 1)))

theorem accept_pinned (store : Store) (asked : PubKey) (record : SignedRecord)
    (ok : accept prim store now asked record = .ok ()) :
    record.verifyAnswer prim asked now = .ok () ∧ ∀ bound, store.identityOf asked = some bound → record.identity = bound := by
  obtain ⟨_, verified, pin⟩ := (then_ok _ _ _).mp ok
  refine ⟨verified, ?_⟩
  intro bound held
  rw [held] at pin
  exact not_not.mp ((unless_done_ok _ _ _).mp pin)

theorem accept_ok (store : Store) (asked : PubKey) (record : SignedRecord)
    (ok : accept prim store now asked record = .ok ()) : record.key = asked ∧ record.record.isExpired now = false := by
  obtain ⟨own, _, _, current⟩ := (verify_answer_iff prim record asked now).mp (accept_pinned prim now store asked record ok).1
  exact ⟨own, ((Store.survives_iff record now).mp current).1⟩

theorem accept_successor_ok (store : Store) (record successor kept : SignedRecord)
    (ok : acceptSuccessor prim store now record successor = some kept) :
    ∃ next, record.record.successor = some next ∧ accept prim store now next kept = .ok () := by
  obtain ⟨expected, named, checked⟩ := Option.bind_eq_some_iff.mp ok
  split at checked
  · cases checked
  · cases accepted : accept prim store now expected successor with
    | error e =>
        rw [accepted] at checked
        cases checked
    | ok _ =>
        rw [accepted] at checked
        cases checked
        exact ⟨expected, named, accepted⟩

section Asking

variable (store : Store) (key : PubKey) (reply : PeerLink ν → Reply)

-- One turn of the loop: it ends with this link's record, or goes on, and counts
-- the link as answered only where it was asked in vain.
theorem ask_links_turn (link : PeerLink ν) (rest : List (PeerLink ν)) (answered : Nat) (errors : List String) :
    (∃ record successor, reply link = .answered (.answer (some record) successor) ∧
      accept prim store now key record = .ok () ∧
      askLinks prim debug store key now (fun link => some (reply link)) (link :: rest) answered errors =
        some (.ok ⟨record, successor.bind (acceptSuccessor prim store now record)⟩)) ∨
    (∃ count lines, askLinks prim debug store key now (fun link => some (reply link)) (link :: rest) answered errors =
        askLinks prim debug store key now (fun link => some (reply link)) rest count lines ∧
      answered ≤ count ∧ count ≤ answered + 1 ∧ (count = answered + 1 ↔ Barren prim now store key (reply link)) ∧
      ∀ record successor, reply link = .answered (.answer (some record) successor) → accept prim store now key record ≠ .ok ()) := by
  simp only [askLinks]
  cases reply link with
  | failed e => exact .inr ⟨answered, _, rfl, by omega, by omega, by simp [Barren], by simp⟩
  | timedOut => exact .inr ⟨answered, _, rfl, by omega, by omega, by simp [Barren], by simp⟩
  | answered response =>
      cases response with
      | answer record successor =>
          cases record with
          | none => exact .inr ⟨answered + 1, _, rfl, by omega, by omega, by simp [Barren], by simp⟩
          | some record =>
              cases accepted : accept prim store now key record with
              | ok _ => exact .inl ⟨record, successor, rfl, accepted, by simp only [accepted]⟩
              | error e =>
                  refine .inr ⟨answered + 1, _, by simp only [accepted]; rfl, by omega, by omega, by simp [Barren, accepted], ?_⟩
                  intro other extra same
                  cases same
                  simp [accepted]
      | published serial expiresAt => exact .inr ⟨answered, _, rfl, by omega, by omega, by simp [Barren], by simp⟩
      | status info => exact .inr ⟨answered, _, rfl, by omega, by omega, by simp [Barren], by simp⟩
      | records batch complete => exact .inr ⟨answered, _, rfl, by omega, by omega, by simp [Barren], by simp⟩
      | error code message => exact .inr ⟨answered, _, rfl, by omega, by omega, by simp [Barren], by simp⟩

-- With a reply from every link the loop always comes to an end, in one of the
-- two ways it can.
theorem ask_links_cases (links : List (PeerLink ν)) (answered : Nat) (errors : List String) :
    (∃ relayed, askLinks prim debug store key now (fun link => some (reply link)) links answered errors = some (.ok relayed) ∧
      accept prim store now key relayed.record = .ok () ∧
      (∀ y, relayed.successor = some y → ∃ next, relayed.record.record.successor = some next ∧
        accept prim store now next y = .ok ()) ∧
      ¬ ∀ link ∈ links, Barren prim now store key (reply link)) ∨
    (∃ count lines, askLinks prim debug store key now (fun link => some (reply link)) links answered errors =
        some (.error (count, lines)) ∧ count ≤ answered + links.length ∧
      (count = answered + links.length ↔ ∀ link ∈ links, Barren prim now store key (reply link))) := by
  induction links generalizing answered errors with
  | nil => exact .inr ⟨answered, errors, rfl, Nat.le_refl _, by simp⟩
  | cons link rest ih =>
      rcases ask_links_turn prim debug now store key reply link rest answered errors with
        ⟨record, successor, offers, accepted, done⟩ | ⟨count, lines, turn, _, least, here, _⟩
      · refine .inl ⟨_, done, accepted, ?_, ?_⟩
        · intro y found
          obtain ⟨offered, _, kept⟩ := Option.bind_eq_some_iff.mp found
          exact accept_successor_ok prim now store record offered y kept
        · intro all
          have here := all link (by simp)
          rw [offers] at here
          exact here accepted
      · rw [turn]
        rcases ih count lines with ⟨relayed, found, accepted, next, fruitful⟩ | ⟨total, lines, ended, most, all⟩
        · exact .inl ⟨relayed, found, accepted, next, fun all => fruitful (fun l member => all l (by simp [member]))⟩
        · refine .inr ⟨total, lines, ended, by rw [List.length_cons]; omega, ?_⟩
          rw [List.forall_mem_cons, ← here, ← all, List.length_cons]
          constructor
          · intro complete
            exact ⟨by omega, by omega⟩
          · intro complete
            omega

end Asking

theorem conclude_no_record (links count : Nat) (lines : List String) (relayed : Relayed) :
    conclude links (.error (count, lines)) ≠ .ok (some relayed) := by
  simp only [conclude]
  split
  · simp
  · split
    · simp
    · simp

-- A cache that can only help with `k`: its records are good at this instant and
-- it does not say that `k` is absent.
structure Helpful (k : PubKey) (cache : Cache) : Prop where
  current : ∀ j x, cache.lookup j = some (.found x) → x.key = j ∧ x.record.isExpired now = false
  silent : ∀ until_, cache.lookup k ≠ some (.missing until_)

theorem new_helpful (k : PubKey) : Helpful now k Cache.new := by
  refine ⟨?_, ?_⟩
  · intro j x found
    simp [Cache.new] at found
  · intro until_ found
    simp [Cache.new] at found

theorem helpful_get (k key : PubKey) (cache : Cache) (helpful : Helpful now k cache) :
    Helpful now k (cache.get key now).2 :=
  ⟨fun j x found => helpful.current j x (Cache.get_entry cache key j now _ found),
    fun until_ found => helpful.silent until_ (Cache.get_entry cache key k now _ found)⟩

theorem helpful_put (k : PubKey) (cache : Cache) (record : SignedRecord) (helpful : Helpful now k cache)
    (fresh : record.record.isExpired now = false) : Helpful now k (cache.put record) := by
  refine ⟨?_, ?_⟩
  · intro j x found
    rw [Cache.put, Finmap.lookup_insert_ite] at found
    split at found
    · rename_i own
      cases found
      exact ⟨own.symm, fresh⟩
    · exact helpful.current j x found
  · intro until_ found
    rw [Cache.put, Finmap.lookup_insert_ite] at found
    split at found
    · cases found
    · exact helpful.silent until_ found

theorem helpful_put_missing (k key : PubKey) (cache : Cache) (helpful : Helpful now k cache) (other : key ≠ k) :
    Helpful now k (cache.putMissing key now) := by
  refine ⟨?_, ?_⟩
  · intro j x found
    exact helpful.current j x (Cache.put_missing_within cache key now j x found)
  · intro until_ found
    rw [Cache.putMissing, Finmap.lookup_insert_ite, if_neg (Ne.symm other)] at found
    exact helpful.silent until_ found

theorem helpful_remember (k key : PubKey) (links : Nat) (cache : Cache) (relayed : Relayed) (helpful : Helpful now k cache)
    (fresh : relayed.record.record.isExpired now = false)
    (successor : ∀ y, relayed.successor = some y → y.record.isExpired now = false) :
    Helpful now k (remember key now links cache (.ok relayed)) := by
  have first := helpful_put now k cache relayed.record helpful fresh
  rw [remember]
  cases next : relayed.successor with
  | none => exact first
  | some y => exact helpful_put now k _ y first (successor y next)

section Lookup

variable (store : Store) (up : Upstream ν) (reply : PeerLink ν → Request → Reply) (recurse : UInt8)

theorem lookup_keeps_helpful (k key : PubKey) (cache : Cache) (on : up.cache = some cache) (helpful : Helpful now k cache)
    (found : key = k → (cache.get k now).1 = none →
      ¬ ∀ link ∈ up.links, Barren prim now store k (reply link (.lookup k recurse))) :
    ∃ result left, up.lookup prim debug store key now (fun link request => some (reply link request)) recurse =
      some (result, some left) ∧ Helpful now k left := by
  have after := helpful_get now k key cache helpful
  generalize hit : cache.get key now = got at after
  obtain ⟨answer, left⟩ := got
  cases answer with
  | some kept =>
      cases kept with
      | some record =>
          refine ⟨_, _, lookup_hit prim debug store key now up _ recurse cache left record on hit, ?_⟩
          unfold cachedSuccessor
          cases record.record.successor with
          | none => exact after
          | some next => exact helpful_get now k next left after
      | none => exact ⟨_, _, lookup_negative prim debug store key now up _ recurse cache left on hit, after⟩
  | none =>
      rw [lookup_forward prim debug store key now up _ recurse cache left on hit]
      rcases ask_links_cases prim debug now store key (fun link => reply link (.lookup key recurse)) up.links 0 [] with
        ⟨relayed, asked, accepted, successor, _⟩ | ⟨count, lines, asked, _, complete⟩
      · refine ⟨_, _, by rw [asked]; rfl, ?_⟩
        refine helpful_remember now k key _ left relayed after (accept_ok prim now store key _ accepted).2 ?_
        intro y offered
        obtain ⟨next, _, passed⟩ := successor y offered
        exact (accept_ok prim now store next y passed).2
      · refine ⟨_, _, by rw [asked]; rfl, ?_⟩
        rw [Nat.zero_add] at complete
        simp only [remember]
        by_cases all : count = up.links.length
        · rw [if_pos all]
          by_cases own : key = k
          · subst own
            exact False.elim (found rfl (by rw [hit]) (complete.mp all))
          · exact helpful_put_missing now k key left after own
        · rw [if_neg all]
          exact after

theorem lookup_found (k : PubKey) (cache : Cache) (on : up.cache = some cache) (helpful : Helpful now k cache)
    (relayed : Relayed) (asked : askLinks prim debug store k now (fun link => some (reply link (.lookup k recurse))) up.links 0 [] =
      some (.ok relayed)) (own : relayed.record.key = k) :
    ∃ found left, up.lookup prim debug store k now (fun link request => some (reply link request)) recurse =
      some (.ok (some found), left) ∧ found.record.key = k := by
  cases entry : cache.lookup k with
  | none =>
      have miss : cache.get k now = (none, cache) := by simp [Cache.get, entry]
      rw [lookup_forward prim debug store k now up _ recurse cache cache on miss, asked]
      exact ⟨relayed, _, rfl, own⟩
  | some kept =>
      cases kept with
      | missing until_ => exact False.elim (helpful.silent until_ entry)
      | found x =>
          obtain ⟨ownX, fresh⟩ := helpful.current k x entry
          have hit : cache.get k now = (some (some x), cache) := by simp [Cache.get, entry, Cache.fresh, fresh, Cache.answer]
          exact ⟨⟨x, _⟩, _, lookup_hit prim debug store k now up _ recurse cache cache x on hit, ownX⟩

end Lookup

def Ready (k : PubKey) (start node : Node ν) : Prop :=
  ∃ cache, node = withCache start (some cache) ∧ Helpful now k cache

theorem served_ready (k : PubKey) (start node node' : Node ν) (q : Query ν) (ready : Ready now k start node)
    (step : Served prim debug now node q node') (useful : ¬ Exhausting prim now k node q) : Ready now k start node' := by
  obtain ⟨cache, rfl, helpful⟩ := ready
  cases step with
  | mk response left result =>
      have rest : ∃ after, left = some after ∧ Helpful now k after := by
        obtain ⟨_, _, same, _⟩ | ⟨_, same, _⟩ | ⟨missing, hops, linked, relayed, looked, _⟩ :=
          handled_turn prim debug now _ q response left result
        · exact ⟨cache, same, helpful⟩
        · exact ⟨cache, same, helpful⟩
        · obtain ⟨_, after, again, kept⟩ := lookup_keeps_helpful prim debug now start.store
            (withCache start (some cache)).upstream q.reply (q.budget - 1) k q.key cache rfl helpful (by
              intro own unknown barren
              refine useful ⟨own, own ▸ missing, hops, fun none => linked (List.length_eq_zero_iff.mpr none), ?_, barren⟩
              intro same holds
              cases holds
              exact unknown)
          have same : (withCache start (some cache)).store = start.store := rfl
          rw [same, again] at looked
          cases looked
          exact ⟨after, rfl, kept⟩
      obtain ⟨after, rfl, kept⟩ := rest
      exact ⟨after, rfl, kept⟩

theorem ready_answers (k : PubKey) (start node : Node ν) (q : Query ν) (own : q.key = k) (ready : Ready now k start node)
    (keyed : ∀ r, start.store.get k now = some r → r.key = k) (record : SignedRecord) (successor : Option SignedRecord)
    (cache : Option Cache)
    (fresh : handled prim debug now (withCache start (some Cache.new)) q = some (.answer (some record) successor, cache)) :
    ∃ record' successor' cache', handled prim debug now node q = some (.answer (some record') successor', cache') ∧
      record'.key = k := by
  obtain ⟨held, rfl, helpful⟩ := ready
  subst own
  have linksSame : ∀ c, (withCache start c).upstream.links = start.upstream.links := fun _ => rfl
  cases here : start.store.get q.key now with
  | some r =>
      exact ⟨r, _, _, Node.handle_lookup_hit prim debug now (withCache start (some held)) _ q.key q.budget r here, keyed r here⟩
  | none =>
      by_cases last : q.budget = 0 ∨ start.upstream.links.length = 0
      · rw [handled, Node.handle_lookup_stop prim debug now (withCache start (some Cache.new)) _ q.key q.budget here last] at fresh
        cases fresh
      · obtain ⟨hops, linked⟩ := not_or.mp last
        have response := Node.miss_response now (withCache start (some held)) q.key q.budget here hops linked
        have empty := Node.miss_response now (withCache start (some Cache.new)) q.key q.budget here hops linked
        rw [handled, Node.handle_lookup_miss prim debug now (withCache start (some Cache.new)) _ q.key q.budget here hops linked] at fresh
        rw [handled, Node.handle_lookup_miss prim debug now (withCache start (some held)) _ q.key q.budget here hops linked]
        have miss : Cache.new.get q.key now = (none, Cache.new) := by simp [Cache.get, Cache.new]
        rcases ask_links_cases prim debug now start.store q.key (fun link => q.reply link (.lookup q.key (q.budget - 1)))
          start.upstream.links 0 [] with ⟨relayed, asked, accepted, _⟩ | ⟨count, lines, asked, _⟩
        · obtain ⟨found, left, looked, ownFound⟩ := lookup_found prim debug now start.store
            (withCache start (some held)).upstream q.reply (q.budget - 1) q.key held rfl helpful relayed asked
            (accept_ok prim now start.store q.key relayed.record accepted).1
          have same : (withCache start (some held)).store = start.store := rfl
          rw [same, looked]
          exact ⟨found.record, found.successor, left, by simp [response], ownFound⟩
        · exfalso
          have same : (withCache start (some Cache.new)).store = start.store := rfl
          have on : (withCache start (some Cache.new)).upstream.cache = some Cache.new := rfl
          have nothing := conclude_no_record start.upstream.links.length count lines
          rw [lookup_forward prim debug _ q.key now _ _ _ Cache.new Cache.new on miss] at fresh
          simp only [same, linksSame, asked, Option.map_some, empty] at fresh
          split at fresh
          · rename_i found concluded
            exact nothing found concluded
          · cases fresh
          · cases fresh

-- The query that found nothing leaves a negative entry for the key.
theorem exhausting_marks (node node' : Node ν) (cache : Cache) (on : node.upstream.cache = some cache) (q : Query ν)
    (exhausting : Exhausting prim now q.key node q) (step : Served prim debug now node q node') :
    ∃ kept : Cache, node' = withCache node (some (kept.putMissing q.key now)) := by
  obtain ⟨_, missing, hops, linked, unknown, barren⟩ := exhausting
  have present : node.upstream.links.length ≠ 0 := fun none => linked (List.length_eq_zero_iff.mp none)
  have miss : cache.get q.key now = (none, (cache.get q.key now).2) := Prod.ext (unknown cache on) rfl
  cases step with
  | mk response left result =>
      rw [handled, Node.handle_lookup_miss prim debug now node _ q.key q.budget missing hops present] at result
      rcases ask_links_cases prim debug now node.store q.key (fun link => q.reply link (.lookup q.key (q.budget - 1)))
        node.upstream.links 0 [] with ⟨_, _, _, _, fruitful⟩ | ⟨count, lines, tried, _, complete⟩
      · exact False.elim (fruitful barren)
      · have all : count = node.upstream.links.length := by
          rw [Nat.zero_add] at complete
          exact complete.mpr barren
        rw [lookup_forward prim debug node.store q.key now _ _ _ cache _ on miss] at result
        simp only [tried, Option.map_some, remember, if_pos all, Option.some.injEq, Prod.mk.injEq] at result
        rw [← result.2]
        exact ⟨_, rfl⟩

-- That entry answers every later query for the key, whatever budget it brings.
theorem marked_hides (node : Node ν) (kept : Cache) (later : Query ν) (missing : node.store.get later.key now = none)
    (linked : node.upstream.links.length ≠ 0) :
    ∃ left, handled prim debug now (withCache node (some (kept.putMissing later.key now))) later = some (.answer none none, left) := by
  have absent : (withCache node (some (kept.putMissing later.key now))).store.get later.key now = none := missing
  by_cases last : later.budget = 0
  · exact ⟨_, Node.handle_lookup_stop prim debug now _ _ later.key later.budget absent (.inl last)⟩
  · have response := Node.miss_response now (withCache node (some (kept.putMissing later.key now))) later.key later.budget
      absent last linked
    have hit : (kept.putMissing later.key now).get later.key now = (some none, kept.putMissing later.key now) := by
      simp [Cache.get, Cache.putMissing, Cache.fresh, Cache.answer, negativeTtl]
    have stored : (withCache node (some (kept.putMissing later.key now))).upstream.cache = some (kept.putMissing later.key now) := rfl
    rw [handled, Node.handle_lookup_miss prim debug now _ _ later.key later.budget absent last linked,
      lookup_negative prim debug _ later.key now _ _ _ _ _ stored hit]
    exact ⟨some (kept.putMissing later.key now), by simp [response]⟩

theorem exhausted_hides (k : PubKey) (node node' : Node ν) (cache : Cache) (on : node.upstream.cache = some cache) (q later : Query ν)
    (exhausting : Exhausting prim now k node q) (step : Served prim debug now node q node') (own : later.key = k) :
    ∃ left, handled prim debug now node' later = some (.answer none none, left) := by
  subst own
  have asked := exhausting.asked
  rw [← asked] at exhausting
  obtain ⟨kept, rfl⟩ := exhausting_marks prim debug now node node' cache on q exhausting step
  rw [asked] at exhausting ⊢
  exact marked_hides prim debug now node kept later exhausting.missing
    (fun none => exhausting.linked (List.length_eq_zero_iff.mp none))

theorem lookup_caching (store : Store) (up : Upstream ν) (ask : PeerLink ν → Request → Option Reply) (key : PubKey)
    (recurse : UInt8) (cache : Cache) (on : up.cache = some cache) (result : Except Error (Option Relayed)) (left : Option Cache)
    (looked : up.lookup prim debug store key now ask recurse = some (result, left)) : left.isSome = true := by
  cases hit : cache.get key now with
  | mk answer got =>
      obtain _ | _ | record := answer
      · rw [lookup_forward prim debug store key now up ask recurse cache got on hit] at looked
        obtain ⟨outcome, _, same⟩ := Option.map_eq_some_iff.mp looked
        cases same
        rfl
      · rw [lookup_negative prim debug store key now up ask recurse cache got on hit] at looked
        cases looked
        rfl
      · rw [lookup_hit prim debug store key now up ask recurse cache got record on hit] at looked
        cases looked
        rfl

theorem served_caching (node node' : Node ν) (q : Query ν) (step : Served prim debug now node q node')
    (on : node.upstream.cache.isSome = true) : node'.upstream.cache.isSome = true := by
  cases step with
  | mk response left result =>
      show left.isSome = true
      obtain ⟨_, _, same, _⟩ | ⟨_, same, _⟩ | ⟨_, _, _, relayed, looked, _⟩ :=
        handled_turn prim debug now node q response left result
      · rw [same]
        exact on
      · rw [same]
        exact on
      · obtain ⟨cache, held⟩ := Option.isSome_iff_exists.mp on
        exact lookup_caching prim debug now node.store node.upstream _ q.key _ cache held relayed left looked

theorem run_ready (k : PubKey) (start node : Node ν) (moves : List (Transition (Node ν) (Query ν)))
    (history : Run (Served prim debug now) (withCache start (some Cache.new)) moves node)
    (useful : ∀ move ∈ moves, ¬ Exhausting prim now k move.pre move.label) : Ready now k start node :=
  run_invariant (Ready now k start) (fun move => ¬ Exhausting prim now k move.pre move.label)
    (fun u q v step ok ready => served_ready prim debug now k start u v q ready step ok) useful history
    ⟨Cache.new, rfl, new_helpful now k⟩

-- Replies are arbitrary, at each query and for each link, so whatever an honest
-- network would say is among them. The second part is why no condition on the
-- history can be weaker at its last query.
theorem relay_cache_hides_only_exhausted (t₀ : Nat) (past : List (Transition World (Event prim))) (start node : Node ν)
    (moves : List (Transition (Node ν) (Query ν))) (k : PubKey)
    (reached : Run (Step prim) ⟨t₀, Store.new⟩ past ⟨now, start.store⟩)
    (history : Run (Served prim debug now) (withCache start (some Cache.new)) moves node) :
    ((∀ move ∈ moves, ¬ Exhausting prim now k move.pre move.label) →
      ∀ q : Query ν, q.key = k → ∀ record successor cache,
        handled prim debug now (withCache start (some Cache.new)) q = some (.answer (some record) successor, cache) →
        ∃ record' successor' cache', handled prim debug now node q = some (.answer (some record') successor', cache') ∧
          record'.key = k) ∧
    ∀ move ∈ moves, Exhausting prim now k move.pre move.label →
      ∀ q : Query ν, q.key = k → ∃ cache, handled prim debug now move.post q = some (.answer none none, cache) := by
  have sound := reached_sound prim t₀ _ past reached
  constructor
  · intro useful q own record successor cache fresh
    have keyed : ∀ r, start.store.get k now = some r → r.key = k := by
      intro r found
      exact sound.consistent.own k r (Option.filter_eq_some_iff.mp found).1
    exact ready_answers prim debug now k start node q own (run_ready prim debug now k start node moves history useful) keyed
      record successor cache fresh
  · intro move member exhausting q own
    obtain ⟨on, step, _⟩ := run_move_invariant (fun u : Node ν => u.upstream.cache.isSome = true) (fun _ => True)
      (fun u query v step _ on => served_caching prim debug now u v query step on) (fun _ _ => trivial) history rfl move member
    obtain ⟨cache, held⟩ := Option.isSome_iff_exists.mp on
    exact exhausted_hides prim debug now k move.pre move.post cache held move.label q exhausting step own

section Sample

open Sample

def networkReply (root : Store) (link : PeerLink Tier) (request : Request) : Reply :=
  (forward (serve ed25519 (fun _ => "") 1000 (chain root none) 8) link request).getD .timedOut

def leaf (root : Store) : Node Tier := withCache (chain root none .leaf) (some Cache.new)

theorem root_reached (prim : Primitives) (record : WireRecord prim) (now : Nat) :
    ∃ past, Run (Step prim) ⟨now, Store.new⟩ past ⟨now, (Store.new.put prim record.signed now).2⟩ :=
  ⟨_, .cons _ _ _ _ _ (.put ⟨now, Store.new⟩ record) (.nil _)⟩

theorem relay_cache_keeps_answering :
    ∃ root later, Run (Served ed25519 (fun _ => "") 1000) (leaf root) [⟨leaf root, ⟨node, 2, networkReply root⟩, later⟩] later ∧
      ∃ record successor cache, handled ed25519 (fun _ => "") 1000 later ⟨node, 3, networkReply root⟩ =
        some (.answer (some record) successor, cache) ∧ record.key = node := by
  obtain ⟨root, first, third, mid⟩ : ∃ root,
      handled ed25519 (fun _ => "") 1000 (leaf root) ⟨node, 2, networkReply root⟩ =
        some (.answer (some publish) none, some (Cache.new.put publish)) ∧
      handled ed25519 (fun _ => "") 1000 (leaf root) ⟨node, 3, networkReply root⟩ =
        some (.answer (some publish) none, some (Cache.new.put publish)) ∧
      networkReply root ⟨"sqc://mid", .mid⟩ (.lookup node (min 2 maxRecurse - 1)) = .answered (.answer (some publish) none) :=
    ⟨(Store.new.put ed25519 publish 1000).2, by decide +kernel, by decide +kernel, by decide +kernel⟩
  have accepted : accept ed25519 Store.new 1000 node publish = .ok () := by decide +kernel
  have history : Run (Served ed25519 (fun _ => "") 1000) (leaf root) [_] _ := .cons _ _ _ _ _ (.mk _ _ _ _ first) (.nil _)
  have start : Run (Step ed25519) ⟨1000, Store.new⟩ [] ⟨1000, (chain root none .leaf).store⟩ := .nil _
  refine ⟨root, _, history, ?_⟩
  refine (relay_cache_hides_only_exhausted ed25519 (fun _ => "") 1000 1000 [] (chain root none .leaf) _ _ node start history).1 ?_
    ⟨node, 3, networkReply root⟩ rfl _ _ _ third
  intro move member exhausting
  cases List.mem_singleton.mp member
  have barren : Barren ed25519 1000 Store.new node (networkReply root ⟨"sqc://mid", .mid⟩ (.lookup node (min 2 maxRecurse - 1))) :=
    exhausting.barren ⟨"sqc://mid", .mid⟩ (List.mem_singleton.mpr rfl)
  rw [mid] at barren
  exact barren accepted

-- One hop reaches only the middle server. The leaf then answers for thirty
-- seconds that the key does not exist, to a client that can reach the root too.
theorem short_query_hides_record :
    ∃ root, (∃ past, Run (Step ed25519) ⟨1000, Store.new⟩ past ⟨1000, root⟩) ∧
      ∃ remembered, handled ed25519 (fun _ => "") 1000 (leaf root) ⟨node, 1, networkReply root⟩ =
          some (.answer none none, some remembered) ∧
        (handled ed25519 (fun _ => "") 1000 (leaf root) ⟨node, 2, networkReply root⟩).map Prod.fst =
          some (.answer (some publish) none) ∧
        (handled ed25519 (fun _ => "") 1000 (withCache (leaf root) (some remembered)) ⟨node, 2, networkReply root⟩).map Prod.fst =
          some (.answer none none) := by
  refine ⟨(Store.new.put ed25519 publish 1000).2, root_reached ed25519 (wire publish (by simp [known])) 1000,
    Cache.new.putMissing node 1000, ?_, ?_, ?_⟩
  · decide +kernel
  · decide +kernel
  · decide +kernel

end Sample

end Sqns.Upstream
