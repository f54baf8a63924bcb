import Sqns.Chain
import Sqns.RelayCache

set_option autoImplicit false

namespace Sqns

namespace Upstream

variable {ν : Type} (prim : Primitives) (debug : Response → String) (store : Store) (key : PubKey) (now : Nat)

-- What a reply gives the server to pass on, if anything.
def offered : Reply → Option Relayed
  | .answered (.answer (some record) successor) =>
      match accept prim store now key record with
      | .ok () => some ⟨record, successor.bind (acceptSuccessor prim store now record)⟩
      | .error _ => none
  | _ => none

def Answers (reply : Reply) : Prop := ∃ record successor, reply = .answered (.answer record successor)

def Absent (reply : Reply) : Prop := ∃ successor, reply = .answered (.answer none successor)

-- An absence is reported, and remembered, on the word of every upstream. A
-- record is passed on from the first that has one. Anything else is an error.
structure Candid (replies : List Reply) (outcome : Except Error (Option Relayed)) (after : Option Cache) : Prop where
  absent : outcome = .ok none ↔ ∀ reply ∈ replies, Absent reply
  remembered : ∀ cache until_, after = some cache → cache.lookup key = some (.missing until_) →
    outcome = .ok none ∧ ∀ reply ∈ replies, Absent reply
  relayed : ∀ relayed, replies.findSome? (offered prim store key now) = some relayed → outcome = .ok (some relayed)
  failed : replies.findSome? (offered prim store key now) = none → (¬ ∀ reply ∈ replies, Absent reply) →
    ∃ e, outcome = .error e

theorem barren_answers (reply : Reply) (barren : Barren prim now store key reply) : Answers reply := by
  cases reply with
  | failed e => exact False.elim barren
  | timedOut => exact False.elim barren
  | answered response =>
      cases response with
      | answer record successor => exact ⟨record, successor, rfl⟩
      | published serial expiresAt => exact False.elim barren
      | status info => exact False.elim barren
      | records batch complete => exact False.elim barren
      | error code message => exact False.elim barren

theorem answers_barren (reply : Reply) (answers : Answers reply) (none : offered prim store key now reply = none) :
    Barren prim now store key reply := by
  obtain ⟨record, successor, rfl⟩ := answers
  cases record with
  | none => trivial
  | some record =>
      intro accepted
      simp [offered, accepted] at none

theorem offered_none (reply : Reply) (vain : ∀ record successor, reply = .answered (.answer (some record) successor) →
    accept prim store now key record ≠ .ok ()) : offered prim store key now reply = none := by
  unfold offered
  split
  · rename_i record successor
    cases accepted : accept prim store now key record with
    | ok _ => exact absurd accepted (vain record successor rfl)
    | error e => rfl
  · rfl

section Asking

variable (reply : PeerLink ν → Reply)

-- Induction over the links: the first offer ends the loop, and without one the
-- loop has counted the links that answered in vain.
theorem ask_links_offered (links : List (PeerLink ν)) (answered : Nat) (errors : List String) :
    (∀ relayed, (links.map reply).findSome? (offered prim store key now) = some relayed →
      askLinks prim debug store key now (fun link => some (reply link)) links answered errors = some (.ok relayed)) ∧
    ((links.map reply).findSome? (offered prim store key now) = none →
      ∃ count lines, askLinks prim debug store key now (fun link => some (reply link)) links answered errors =
          some (.error (count, lines)) ∧ answered ≤ count ∧ count ≤ answered + links.length ∧
        (count = answered + links.length ↔ ∀ r ∈ links.map reply, Answers r) ∧
        (count = answered ↔ ∀ r ∈ links.map reply, ¬ Answers r)) := by
  induction links generalizing answered errors with
  | nil => exact ⟨by simp, fun _ => ⟨answered, errors, rfl, by simp⟩⟩
  | cons link rest ih =>
      rw [List.map_cons, List.findSome?_cons]
      rcases ask_links_turn prim debug now store key reply link rest answered errors with
        ⟨record, successor, given, accepted, ended⟩ | ⟨count, lines, onward, few, more, counted, vain⟩
      · have here : offered prim store key now (reply link) = some ⟨record, successor.bind (acceptSuccessor prim store now record)⟩ := by
          simp [given, offered, accepted]
        rw [here, ended]
        exact ⟨fun relayed same => by rw [Option.some.inj same], by simp⟩
      · have none := offered_none prim store key now (reply link) vain
        have answers : count = answered + 1 ↔ Answers (reply link) :=
          counted.trans ⟨barren_answers prim store key now _, fun given => answers_barren prim store key now _ given none⟩
        rw [none, onward]
        obtain ⟨first, ended⟩ := ih count lines
        refine ⟨first, ?_⟩
        intro exhausted
        obtain ⟨total, texts, out, least, most, every, never⟩ := ended exhausted
        refine ⟨total, texts, out, by omega, by rw [List.length_cons]; omega, ?_, ?_⟩
        · rw [List.forall_mem_cons, ← answers, ← every, List.length_cons]
          omega
        · have silent : count = answered ↔ ¬ Answers (reply link) := by
            rw [← answers]
            omega
          rw [List.forall_mem_cons, ← silent, ← never]
          omega

end Asking

-- Whether the relay cache is off or has nothing to say, the links are asked.
theorem lookup_miss (up : Upstream ν) (reply : PeerLink ν → Request → Reply) (recurse : UInt8)
    (outcome : Except (Nat × List String) Relayed) (miss : ∀ cache, up.cache = some cache → (cache.get key now).1 = none)
    (asked : askLinks prim debug store key now (fun link => some (reply link (.lookup key recurse))) up.links 0 [] = some outcome) :
    up.lookup prim debug store key now (fun link request => some (reply link request)) recurse =
      some (conclude up.links.length outcome,
        up.cache.map (fun cache => remember key now up.links.length (cache.get key now).2 outcome)) := by
  cases held : up.cache with
  | none =>
      rw [lookup_off prim debug store key now up _ recurse held, asked]
      rfl
  | some cache =>
      have silent : cache.get key now = (none, (cache.get key now).2) := Prod.ext (miss cache held) rfl
      rw [lookup_forward prim debug store key now up _ recurse cache _ held silent, asked]
      rfl

theorem get_miss (cache : Cache) (miss : (cache.get key now).1 = none) : (cache.get key now).2.lookup key = none := by
  unfold Cache.get at miss ⊢
  cases held : cache.lookup key with
  | none => exact held
  | some entry =>
      rw [held] at miss
      dsimp only at miss ⊢
      split at miss
      · cases miss
      · rename_i stale
        rw [if_neg stale, Cache.lookup_erase_ite, if_pos rfl]

theorem put_missing_before (cache : Cache) (record : SignedRecord) (until_ : Nat)
    (found : (cache.put record).lookup key = some (.missing until_)) : cache.lookup key = some (.missing until_) := by
  rw [Cache.put, Finmap.lookup_insert_ite] at found
  split at found
  · cases found
  · exact found

theorem remember_record (links : Nat) (cache : Cache) (relayed : Relayed) (until_ : Nat) (unknown : cache.lookup key = none) :
    (remember key now links cache (.ok relayed)).lookup key ≠ some (.missing until_) := by
  intro found
  have before : cache.lookup key = some (.missing until_) := by
    simp only [remember] at found
    split at found
    · exact put_missing_before key cache relayed.record until_ (put_missing_before key _ _ until_ found)
    · exact put_missing_before key cache relayed.record until_ found
  rw [unknown] at before
  cases before

theorem conclude_none_iff (links count : Nat) (lines : List String) :
    conclude links (.error (count, lines)) = .ok none ↔ count = links ∨ 0 < count := by
  simp only [conclude]
  by_cases complete : count = links
  · simp [complete]
  · by_cases some : 0 < count
    · simp [complete, some]
    · simp [complete, some]

theorem conclude_fails (links count : Nat) (lines : List String) (partial_ : count ≠ links) (silent : count = 0) :
    ∃ e, conclude links (.error (count, lines)) = .error e := by
  simp only [conclude]
  rw [if_neg partial_, if_neg (by omega)]
  exact ⟨_, rfl⟩

theorem absent_answers (replies : List Reply) (absent : ∀ r ∈ replies, Absent r) (r : Reply) (member : r ∈ replies) : Answers r := by
  obtain ⟨successor, rfl⟩ := absent r member
  exact ⟨_, successor, rfl⟩

section Candid

variable (replies : List Reply) (before : Option Cache) (unknown : ∀ cache, before = some cache → cache.lookup key = none)

include unknown

theorem relayed_candid (links : Nat) (relayed : Relayed)
    (first : replies.findSome? (offered prim store key now) = some relayed) :
    Candid prim store key now replies (conclude links (.ok relayed))
      (before.map (fun cache => remember key now links cache (.ok relayed))) := by
  refine ⟨?_, ?_, ?_, ?_⟩
  · apply Iff.intro
    · intro none
      cases none
    · intro absent
      obtain ⟨reply, member, offers⟩ := List.exists_of_findSome?_eq_some first
      obtain ⟨successor, rfl⟩ := absent reply member
      cases offers
  · intro cache until_ after found
    obtain ⟨held, same, rfl⟩ := Option.map_eq_some_iff.mp after
    exact False.elim (remember_record key now links held relayed until_ (unknown held same) found)
  · intro other again
    rw [first, Option.some.injEq] at again
    rw [← again]
    rfl
  · intro none
    rw [first] at none
    cases none

-- Nothing to pass on: `count` of the upstreams answered all the same.
theorem vain_candid_iff (count : Nat) (lines : List String)
    (nothing : replies.findSome? (offered prim store key now) = none)
    (every : count = replies.length ↔ ∀ r ∈ replies, Answers r) (never : count = 0 ↔ ∀ r ∈ replies, ¬ Answers r) :
    Candid prim store key now replies (conclude replies.length (.error (count, lines)))
        (before.map (fun cache => remember key now replies.length cache (.error (count, lines)))) ↔
      (∀ r ∈ replies, Absent r) ∨ ∀ r ∈ replies, ¬ Answers r := by
  apply Iff.intro
  · intro candid
    by_cases silent : count = 0
    · exact .inr (never.mp silent)
    · exact .inl (candid.absent.mp ((conclude_none_iff _ _ _).mpr (.inr (Nat.pos_of_ne_zero silent))))
  · intro allowed
    -- With every link silent the count is complete only where there are none.
    have complete : count = replies.length → ∀ r ∈ replies, Absent r := by
      intro all r member
      obtain absent | silent := allowed
      · exact absent r member
      · exact absurd (every.mp all r member) (silent r member)
    refine ⟨?_, ?_, ?_, ?_⟩
    · rw [conclude_none_iff]
      apply Iff.intro
      · intro concluded
        obtain all | some := concluded
        · exact complete all
        · obtain absent | silent := allowed
          · exact absent
          · exact absurd (never.mpr silent) (by omega)
      · intro absent
        exact .inl (every.mpr (absent_answers replies absent))
    · intro cache until_ after found
      obtain ⟨held, same, rfl⟩ := Option.map_eq_some_iff.mp after
      simp only [remember] at found
      split at found
      · rename_i all
        exact ⟨(conclude_none_iff _ _ _).mpr (.inl all), complete all⟩
      · rw [unknown held same] at found
        cases found
    · intro relayed some
      rw [nothing] at some
      cases some
    · intro _ notAbsent
      obtain absent | silent := allowed
      · exact absurd absent notAbsent
      · exact conclude_fails _ _ _ (fun all => notAbsent (complete all)) (never.mpr silent)

end Candid

theorem outage_is_not_absence_iff (up : Upstream ν) (reply : PeerLink ν → Request → Reply) (recurse : UInt8)
    (miss : ∀ cache, up.cache = some cache → (cache.get key now).1 = none) :
    let replies := up.links.map (fun link => reply link (.lookup key recurse))
    ∃ outcome after,
      up.lookup prim debug store key now (fun link request => some (reply link request)) recurse = some (outcome, after) ∧
      (Candid prim store key now replies outcome after ↔
        (∃ r ∈ replies, offered prim store key now r ≠ none) ∨ (∀ r ∈ replies, Absent r) ∨ ∀ r ∈ replies, ¬ Answers r) := by
  intro replies
  have unknown : ∀ cache, up.cache.map (fun cache => (cache.get key now).2) = some cache → cache.lookup key = none := by
    intro cache held
    obtain ⟨before, same, rfl⟩ := Option.map_eq_some_iff.mp held
    exact get_miss key now before (miss before same)
  have length : replies.length = up.links.length := List.length_map _
  obtain ⟨ends, exhausts⟩ := ask_links_offered prim debug store key now (fun link => reply link (.lookup key recurse)) up.links 0 []
  cases first : replies.findSome? (offered prim store key now) with
  | some relayed =>
      refine ⟨_, _, lookup_miss prim debug store key now up reply recurse _ miss (ends relayed first), ?_⟩
      obtain ⟨r, member, offers⟩ := List.exists_of_findSome?_eq_some first
      have candid := relayed_candid prim store key now replies _ unknown up.links.length relayed first
      rw [Option.map_map] at candid
      exact iff_of_true candid (.inl ⟨r, member, by rw [offers]; exact Option.some_ne_none _⟩)
  | none =>
      obtain ⟨count, lines, out, _, _, every, never⟩ := exhausts first
      refine ⟨_, _, lookup_miss prim debug store key now up reply recurse _ miss out, ?_⟩
      rw [Nat.zero_add, ← length] at every
      have vain := vain_candid_iff prim store key now replies _ unknown count lines first every never
      rw [Option.map_map] at vain
      rw [← length]
      refine vain.trans ?_
      have nothing := List.findSome?_eq_none_iff.mp first
      apply Iff.intro
      · intro allowed
        exact .inr allowed
      · intro allowed
        rcases allowed with ⟨r, member, some⟩ | rest
        · exact absurd (nothing r member) some
        · exact rest

section Sample

open Sample

def twoUpstreams : Upstream Unit := ⟨[⟨"ns1.example:5300", ()⟩, ⟨"ns2.example:5300", ()⟩], some Cache.new⟩

-- The first upstream has no record and the second does not answer in time.
def halfAnswered (link : PeerLink Unit) : Reply :=
  if link.addr = "ns1.example:5300" then .answered (.answer none none) else .timedOut

theorem half_answered_is_absence :
    ¬ ∀ (ν : Type) (up : Upstream ν) (reply : PeerLink ν → Request → Reply) (store : Store) (key : PubKey) (now : Nat) (recurse : UInt8)
      (outcome : Except Error (Option Relayed)) (after : Option Cache),
      (∀ cache, up.cache = some cache → (cache.get key now).1 = none) →
      up.lookup ed25519 (fun _ => "") store key now (fun link request => some (reply link request)) recurse = some (outcome, after) →
      Candid ed25519 store key now (up.links.map (fun link => reply link (.lookup key recurse))) outcome after := by
  intro claim
  have miss : ∀ cache, twoUpstreams.cache = some cache → (cache.get node 1000).1 = none := by
    intro cache held
    cases held
    rfl
  have candid := claim Unit twoUpstreams (fun link _ => halfAnswered link) Store.new node 1000 3 (.ok none) (some Cache.new) miss rfl
  obtain ⟨successor, timedOut⟩ := candid.absent.mp rfl .timedOut (by simp [twoUpstreams, halfAnswered])
  cases timedOut

def lateAnswered (link : PeerLink Unit) : Reply :=
  if link.addr = "ns1.example:5300" then .timedOut else .answered (.answer (some publish) none)

theorem outage_is_not_absence_iff_relayed :
    ∃ after, twoUpstreams.lookup ed25519 (fun _ => "") Store.new node 1000 (fun link _ => some (lateAnswered link)) 3 =
      some (.ok (some ⟨publish, none⟩), after) := by
  have miss : ∀ cache, twoUpstreams.cache = some cache → (cache.get node 1000).1 = none := by
    intro cache held
    cases held
    rfl
  have accepted : accept ed25519 Store.new 1000 node publish = .ok () := by decide +kernel
  have offers : offered ed25519 Store.new node 1000 (.answered (.answer (some publish) none)) = some ⟨publish, none⟩ := by
    simp [offered, accepted]
  have silent : offered ed25519 Store.new node 1000 .timedOut = none := rfl
  obtain ⟨outcome, after, asked, exactly⟩ := outage_is_not_absence_iff ed25519 (fun _ => "") Store.new node 1000 twoUpstreams
    (fun link _ => lateAnswered link) 3 miss
  have candid := exactly.mpr (.inl ⟨.answered (.answer (some publish) none), by simp [twoUpstreams, lateAnswered], by simp [offers]⟩)
  have relayed := candid.relayed ⟨publish, none⟩ (by simp [twoUpstreams, lateAnswered, silent, offers])
  exact ⟨after, relayed ▸ asked⟩

end Sample

end Upstream

namespace Resolver

variable (prim : Primitives) (debug : Response → String)

-- What makes `try_servers` go on to the next server.
def Failing : Except Error Response → Prop
  | .error _ => True
  | .ok (.error _ _) => True
  | _ => False

theorem useful_ok (response : Response) (useful : ∀ code message, response ≠ .error code message) :
    ¬ Failing (.ok response) := by
  intro fails
  cases response with
  | error code message => exact useful code message rfl
  | answer record successor => exact fails
  | published serial expiresAt => exact fails
  | status info => exact fails
  | records batch complete => exact fails

-- The first of `count` servers, from `idx` on, whose reply is of use.
def FirstUseful (ask : Nat → Except Error Response) (count idx : Nat) (response : Response) : Prop :=
  ∃ i, i < count ∧ ask (idx + i) = .ok response ∧ ¬ Failing (.ok response) ∧ ∀ j, j < i → Failing (ask (idx + j))

theorem first_useful_skip (ask : Nat → Except Error Response) (count idx : Nat) (response : Response)
    (fails : Failing (ask idx)) : FirstUseful ask (count + 1) idx response ↔ FirstUseful ask count (idx + 1) response := by
  have shift : ∀ i, idx + 1 + i = idx + (i + 1) := fun i => by omega
  simp only [FirstUseful, shift]
  apply Iff.intro
  · intro found
    obtain ⟨i, bound, here, useful, before⟩ := found
    cases i with
    | zero => exact absurd (here ▸ fails) useful
    | succ i => exact ⟨i, by omega, here, useful, fun j less => before (j + 1) (by omega)⟩
  · intro found
    obtain ⟨i, bound, here, useful, before⟩ := found
    refine ⟨i + 1, by omega, here, useful, ?_⟩
    intro j less
    cases j with
    | zero => exact fails
    | succ j => exact before j (by omega)

theorem first_useful_here (ask : Nat → Except Error Response) (count idx : Nat) (first response : Response)
    (here : ask idx = .ok first) (useful : ¬ Failing (.ok first)) : FirstUseful ask (count + 1) idx response ↔ first = response := by
  apply Iff.intro
  · intro found
    obtain ⟨i, _, there, _, before⟩ := found
    cases i with
    | zero => exact Except.ok.inj (here.symm.trans there)
    | succ i => exact absurd (here ▸ before 0 (by omega)) useful
  · rintro rfl
    exact ⟨0, by omega, here, useful, fun j less => absurd less (by omega)⟩

theorem first_answer_iff (ask : Nat → Except Error Response) (servers : List String) (idx : Nat) (response : Response) :
    firstAnswer ask servers idx = .ok response ↔ FirstUseful ask servers.length idx response := by
  induction servers generalizing idx with
  | nil => simp [firstAnswer, FirstUseful]
  | cons server rest ih =>
      rw [List.length_cons]
      unfold firstAnswer
      split
      · rename_i code message failed
        rw [map_error_ok, ih, first_useful_skip ask rest.length idx response (by rw [failed]; trivial)]
      · rename_i first useful here
        rw [first_useful_here ask rest.length idx first response here (useful_ok first useful), Except.ok.injEq]
      · rename_i e failed
        rw [map_error_ok, ih, first_useful_skip ask rest.length idx response (by rw [failed]; trivial)]

-- No server would reply with a record a client accepts.
def Nobody (r : Resolver) (key : PubKey) (exchange : Exchange) : Prop :=
  ∀ i record successor, i < r.config.servers.length →
    exchange.reply i (.lookup key r.config.recurse) = .ok (.answer (some record) successor) →
    record.verifyAnswer prim key exchange.answered ≠ .ok ()

-- Where nothing was cached, an entry found afterwards has been stored.
structure Confirmed (r : Resolver) (key : PubKey) (exchange : Exchange) (outcome : Except Error (Option SignedRecord))
    (after : Resolver) : Prop where
  reported : outcome = .ok none → Nobody prim r key exchange
  remembered : r.config.cache = true → ∀ until_, after.cache.lookup key = some (.missing until_) → Nobody prim r key exchange

theorem settle_none_iff (r : Resolver) (key : PubKey) (now : Nat) (response : Except Error Response) :
    (r.settle prim debug key now response).1.map Prod.fst = .ok none ↔ ∃ successor, response = .ok (.answer none successor) := by
  cases response with
  | error e => simp [settle, Except.map]
  | ok given =>
      cases given with
      | answer record successor =>
          cases record with
          | none => simp [settle, Except.map]
          | some record =>
              simp only [settle]
              cases r.take prim key now record with
              | error e => simp [Except.map]
              | ok taken => simp [Except.map]
      | published serial expiresAt => simp [settle, Except.map]
      | status info => simp [settle, Except.map]
      | records batch complete => simp [settle, Except.map]
      | error code message => simp [settle, Except.map]

theorem take_missing (r taken : Resolver) (key : PubKey) (now : Nat) (record : SignedRecord) (until_ : Nat)
    (took : r.take prim key now record = .ok taken) (found : taken.cache.lookup key = some (.missing until_)) :
    r.cache.lookup key = some (.missing until_) := by
  simp only [take, then_ok] at took
  obtain ⟨_, _, noted, note, kept⟩ := took
  obtain ⟨rfl, _⟩ := note_rank_ok prim r noted record note
  cases kept
  unfold remember at found
  split at found
  · exact Upstream.put_missing_before key r.cache record until_ found
  · exact found

theorem settle_missing (r : Resolver) (key : PubKey) (now : Nat) (response : Except Error Response) (until_ : Nat)
    (unknown : r.cache.lookup key = none)
    (found : (r.settle prim debug key now response).2.cache.lookup key = some (.missing until_)) :
    ∃ successor, response = .ok (.answer none successor) := by
  have unchanged : r.cache.lookup key ≠ some (.missing until_) := by simp [unknown]
  cases response with
  | error e => exact absurd found unchanged
  | ok given =>
      cases given with
      | answer record successor =>
          cases record with
          | none => exact ⟨successor, rfl⟩
          | some record =>
              simp only [settle] at found
              cases took : r.take prim key now record with
              | error e =>
                  rw [took] at found
                  exact absurd found unchanged
              | ok taken =>
                  rw [took] at found
                  exact absurd (take_missing prim r taken key now record until_ took found) unchanged
      | published serial expiresAt => exact absurd found unchanged
      | status info => exact absurd found unchanged
      | records batch complete => exact absurd found unchanged
      | error code message => exact absurd found unchanged

theorem consult_miss (r : Resolver) (key : PubKey) (clock : Nat) (miss : (r.consult key clock).1 = none) :
    (r.consult key clock).2.config = r.config ∧
      (r.config.cache = true → (r.consult key clock).2.cache.lookup key = none) := by
  unfold consult at miss ⊢
  split at miss
  · rename_i on
    rw [if_pos on]
    exact ⟨rfl, fun _ => Upstream.get_miss key clock r.cache miss⟩
  · rename_i off
    rw [if_neg off]
    exact ⟨rfl, fun on => absurd on off⟩

theorem first_none_iff (r : Resolver) (key : PubKey) (exchange : Exchange) (what : String) :
    (∃ successor, r.tryServers exchange (.lookup key r.config.recurse) what = .ok (.answer none successor)) ↔
      ∃ i successor, i < r.config.servers.length ∧
        (∀ j, j < i → Failing (exchange.reply j (.lookup key r.config.recurse))) ∧
        exchange.reply i (.lookup key r.config.recurse) = .ok (.answer none successor) := by
  simp only [tryServers, map_error_ok, first_answer_iff, FirstUseful, Nat.zero_add]
  apply Iff.intro
  · intro found
    obtain ⟨successor, i, bound, here, _, before⟩ := found
    exact ⟨i, successor, bound, before, here⟩
  · intro found
    obtain ⟨i, successor, bound, before, here⟩ := found
    exact ⟨successor, i, bound, here, id, before⟩

theorem absence_is_confirmed_iff (r : Resolver) (key : PubKey) (exchange : Exchange)
    (miss : (r.consult key exchange.asked).1 = none) :
    Confirmed prim r key exchange (r.lookup prim debug key exchange).1 (r.lookup prim debug key exchange).2 ↔
      ∀ i successor, i < r.config.servers.length →
        (∀ j, j < i → Failing (exchange.reply j (.lookup key r.config.recurse))) →
        exchange.reply i (.lookup key r.config.recurse) = .ok (.answer none successor) → Nobody prim r key exchange := by
  obtain ⟨config, unknown⟩ := consult_miss r key exchange.asked miss
  simp only [lookup, fetch]
  generalize r.consult key exchange.asked = reply at miss config unknown
  obtain ⟨hit, r'⟩ := reply
  dsimp only at miss config unknown ⊢
  subst miss
  dsimp only
  have first := first_none_iff r' key exchange "lookup"
  generalize r'.tryServers exchange (.lookup key r'.config.recurse) "lookup" = response at first
  have exactly := settle_none_iff prim debug r' key exchange.answered response
  rw [config] at first
  apply Iff.intro
  · intro confirmed i successor bound before here
    exact confirmed.reported (exactly.mpr (first.mpr ⟨i, successor, bound, before, here⟩))
  · intro nobody
    have known : (∃ successor, response = .ok (.answer none successor)) → Nobody prim r key exchange := by
      intro none
      obtain ⟨i, successor, bound, before, here⟩ := first.mp none
      exact nobody i successor bound before here
    refine ⟨fun none => known (exactly.mp none), ?_⟩
    intro on until_ found
    exact known (settle_missing prim debug r' key exchange.answered response until_ (unknown on) found)

section Sample

open Sample

def twoServers : Resolver := ⟨{ ResolverConfig.default with servers := ["ns1.example:5300", "ns2.example:5300"] }, Cache.new, ∅⟩

-- The first server has not heard of the key; the second holds its record.
def secondHolds : Exchange :=
  ⟨1000, 1000, 1000, fun idx _ => if idx = 0 then .ok (.answer none none) else .ok (.answer (some Sample.publish) none)⟩

theorem first_server_speaks_for_all :
    ¬ ∀ (r : Resolver) (key : PubKey) (exchange : Exchange), (r.consult key exchange.asked).1 = none →
      Confirmed ed25519 r key exchange (r.lookup ed25519 (fun _ => "") key exchange).1 (r.lookup ed25519 (fun _ => "") key exchange).2 := by
  intro claim
  have confirmed := claim twoServers node secondHolds rfl
  exact confirmed.reported rfl 1 Sample.publish none (by decide) rfl (by decide +kernel)

def firstHolds : Exchange :=
  ⟨1000, 1000, 1000, fun idx _ => if idx = 0 then .ok (.answer (some Sample.publish) none) else .ok (.answer none none)⟩

theorem absence_is_confirmed_iff_first :
    Confirmed ed25519 twoServers node firstHolds (twoServers.lookup ed25519 (fun _ => "") node firstHolds).1
      (twoServers.lookup ed25519 (fun _ => "") node firstHolds).2 := by
  refine (absence_is_confirmed_iff ed25519 (fun _ => "") twoServers node firstHolds rfl).mpr ?_
  intro i successor _ before here
  cases i with
  | zero => cases here
  | succ i => exact False.elim (before 0 (by omega))

end Sample

end Resolver

end Sqns
