import Sqns.Chain

set_option autoImplicit false

namespace Sqns.Resolver

open Store

variable (prim : Primitives) (debug : Response → String)

section Plain

-- `resolve_service` without its shortcuts: every key is fetched, and what comes
-- along with an answer is dropped.
def plainTurn (requested : PubKey) (network : Nat → Exchange) (draws : Draws) (w : Walker) : Turn :=
  let exchange := network w.fetches
  let fetched := w.resolver.fetch prim debug w.current exchange
  let w := { w with resolver := fetched.2, fetches := w.fetches + 1 }
  match fetched.1 with
  | .error e => .done (.error e) w
  | .ok (none, _) => .done (.error (.unpublished (w.current.toText prim))) w
  | .ok (some record, _) => follow prim requested exchange draws record none { w with used := w.used ++ [record] }

def plainWalk (requested : PubKey) (network : Nat → Exchange) (draws : Draws) :
    Nat → Walker → Except Error ServiceLocation × Walker
  | 0, w => (.error (.supersedeChain s!"{requested.toText prim} forwards through more than {maxSupersedeHops} keys"), w)
  | hops + 1, w =>
      match plainTurn prim debug requested network draws w with
      | .done outcome w => (outcome, w)
      | .onward w => plainWalk requested network draws hops w

-- On a resolver of its own, which keeps no answers.
def plainResolve (config : ResolverConfig) (key : PubKey) (network : Nat → Exchange) (draws : Draws) :
    Except Error ServiceLocation × Walker :=
  plainWalk prim debug key network draws maxSupersedeHops
    ⟨⟨{ config with cache := false }, Cache.new, ∅⟩, key, {key}, [], none, 0, []⟩

end Plain

-- The draws that order the endpoints are the caller's own.
inductive SameOutcome : Except Error ServiceLocation → Except Error ServiceLocation → Prop where
  | refused (e : Error) : SameOutcome (.error e) (.error e)
  | located (a b : ServiceLocation) (requested : a.requested = b.requested) (key : a.key = b.key)
      (identity : a.identity = b.identity) (supersededFrom : a.supersededFrom = b.supersededFrom)
      (endpoints : a.endpoints.Perm b.endpoints) : SameOutcome (.ok a) (.ok b)

section Fixed

variable (s : Store) (now : Nat)

-- The clocks of a lookup when time stands still.
def At (clock t : Nat) : Prop := clock = now ∧ t = now

-- What asking the server about a key comes to.
def answerFor (key : PubKey) : Except Error (Option SignedRecord) :=
  match s.get key now with
  | none => .ok none
  | some x => (x.verifyAnswer prim key now).map (fun _ => some x)

-- Nothing the resolver keeps, for or against a key, differs from that.
structure Synced (r : Resolver) : Prop where
  single : r.config.servers.length = 1
  cached : ∀ k entry, r.cache.lookup k = some entry → answerFor prim s now k = .ok (Cache.answer entry)
  marked : ∀ k seen, r.marks.lookup k = some seen → ∃ x, s.get k now = some x ∧ seen = Seen.of x

theorem fresh_synced (config : ResolverConfig) (single : config.servers.length = 1) :
    Synced prim s now ⟨config, Cache.new, ∅⟩ := ⟨single, by simp [Cache.new], by simp⟩

theorem answer_for_held (key : PubKey) (x : SignedRecord) (held : s.get key now = some x)
    (answers : x.verifyAnswer prim key now = .ok ()) : answerFor prim s now key = .ok (some x) := by
  rw [answerFor, held]
  simp only [answers]
  rfl

theorem noted_synced (r : Resolver) (x : SignedRecord) (synced : Synced prim s now r) (held : s.get x.key now = some x)
    (answers : x.verifyAnswer prim x.key now = .ok ()) :
    Synced prim s now (remember { r with marks := r.marks.insert x.key (Seen.of x) } x) := by
  have marked : ∀ k seen, (r.marks.insert x.key (Seen.of x)).lookup k = some seen → ∃ y, s.get k now = some y ∧ seen = Seen.of y := by
    intro k seen found
    rw [Finmap.lookup_insert_ite] at found
    split at found
    · rename_i own
      cases found
      exact ⟨x, own ▸ held, rfl⟩
    · exact synced.marked k seen found
  unfold remember
  split
  · refine ⟨synced.single, ?_, marked⟩
    intro k entry found
    simp only [Cache.put, Finmap.lookup_insert_ite] at found
    split at found
    · rename_i own
      cases found
      rw [own]
      exact answer_for_held prim s now x.key x held answers
    · exact synced.cached k entry found
  · exact ⟨synced.single, synced.cached, marked⟩

-- A mark was set from the very record the server still holds, so none stands in
-- the way of taking it again.
theorem take_synced (r : Resolver) (key : PubKey) (x : SignedRecord) (synced : Synced prim s now r) (held : s.get key now = some x)
    (answers : x.verifyAnswer prim key now = .ok ()) : ∃ taken, r.take prim key now x = .ok taken ∧ Synced prim s now taken := by
  obtain ⟨rfl, _⟩ := (verify_answer_iff prim x key now).mp answers
  have noted : r.noteRank prim x = .ok { r with marks := r.marks.insert x.key (Seen.of x) } := by
    simp only [noteRank]
    cases mark : r.marks.lookup x.key with
    | none => rfl
    | some before =>
        obtain ⟨y, same, rfl⟩ := synced.marked x.key before mark
        rw [held, Option.some.injEq] at same
        simp [same]
  refine ⟨_, ?_, noted_synced prim s now r x synced held answers⟩
  rw [take, answers, noted]
  rfl

theorem synced_maintained : Maintained prim s (At now) (Synced prim s now) := by
  refine ⟨?_, ?_, ?_⟩
  · intro r cache synced within
    exact ⟨synced.single, fun k entry found => synced.cached k entry (within k entry found), synced.marked⟩
  · intro r taken key clock t x synced fair held took
    rw [fair.1] at took
    rw [fair.2] at held
    have answers := ((then_ok _ _ _).mp took).choose_spec.1
    obtain ⟨other, same, kept⟩ := take_synced prim s now r key x synced held answers
    rw [took, Except.ok.injEq] at same
    exact same ▸ kept
  · intro r key clock t synced fair missing
    obtain ⟨rfl, rfl⟩ := fair
    unfold rememberMissing
    split
    · refine ⟨synced.single, ?_, synced.marked⟩
      intro k entry found
      simp only [Cache.putMissing, Finmap.lookup_insert_ite] at found
      split at found
      · rename_i own
        cases found
        simp [own, answerFor, missing, Cache.answer]
      · exact synced.cached k entry found
    · exact synced

theorem present_told (exchange : Exchange) (present : Present s now exchange) : Told s (At now) exchange := by
  refine ⟨?_⟩
  intro idx key recurse response reply
  rw [present.reply, Except.ok.injEq] at reply
  exact ⟨now, ⟨present.answered, rfl⟩, ⟨present.checked, rfl⟩, reply.symm⟩

theorem settle_answers (r : Resolver) (key : PubKey) (recurse : UInt8) (synced : Synced prim s now r) :
    (r.settle prim debug key now (.ok (served s key recurse now))).1.map Prod.fst = answerFor prim s now key := by
  cases held : s.get key now with
  | none =>
      rw [served_missing s key recurse now held]
      simp [settle, answerFor, held, Except.map]
  | some x =>
      rw [served_held s key recurse now x held]
      cases answers : x.verifyAnswer prim key now with
      | error e =>
          have refused : r.take prim key now x = .error e := by
            rw [take, answers]
            rfl
          simp [settle, refused, answerFor, held, answers, Except.map]
      | ok _ =>
          obtain ⟨taken, took, _⟩ := take_synced prim s now r key x synced held answers
          simp [settle, took, answerFor, held, answers, Except.map]

theorem fetch_answers (r : Resolver) (key : PubKey) (exchange : Exchange) (synced : Synced prim s now r)
    (present : Present s now exchange) :
    (r.fetch prim debug key exchange).1.map Prod.fst = answerFor prim s now key := by
  have consulted := consult_keeps prim (synced_maintained prim s now) r key exchange.asked synced
  have hit : ∀ answer, (r.consult key exchange.asked).1 = some answer → answerFor prim s now key = .ok answer := by
    intro answer found
    unfold consult at found
    split at found
    · simp only [Cache.get] at found
      cases entry : r.cache.lookup key with
      | none => simp [entry] at found
      | some kept =>
          rw [entry] at found
          dsimp only at found
          split at found
          · rw [synced.cached key kept entry, ← Option.some.inj found]
          · cases found
    · cases found
  simp only [fetch]
  generalize r.consult key exchange.asked = reply at consulted hit
  obtain ⟨found, r'⟩ := reply
  cases found with
  | some answer =>
      rw [hit answer rfl]
      rfl
  | none =>
      dsimp only
      rw [try_servers_served r' exchange s key r'.config.recurse now "lookup" consulted.single (present.reply 0 _ _), present.answered]
      exact settle_answers prim debug s now r' key r'.config.recurse consulted

-- The two walks at the head of their loops. A prefetched record is what the
-- plain walk is about to fetch.
structure Alongside (w v : Walker) : Prop where
  left : Synced prim s now w.resolver
  right : Synced prim s now v.resolver
  current : w.current = v.current
  visited : w.visited = v.visited
  chain : w.chain = v.chain
  ready : ∀ y, w.prefetched = some y → answerFor prim s now w.current = .ok (some y)

def SameTurn : Turn → Turn → Prop
  | .done a _, .done b _ => SameOutcome a b
  | .onward w, .onward v => Alongside prim s now w v
  | _, _ => False

theorem next_record_answers (exchange : Exchange) (w : Walker) (synced : Synced prim s now w.resolver)
    (ready : ∀ y, w.prefetched = some y → answerFor prim s now w.current = .ok (some y)) (present : Present s now exchange) :
    (nextRecord prim debug exchange w).1.map Prod.fst = answerFor prim s now w.current ∧
      ∃ resolver fetches, (nextRecord prim debug exchange w).2 =
        { w with resolver := resolver, prefetched := none, fetches := fetches } := by
  simp only [nextRecord]
  cases held : w.prefetched with
  | some y =>
      rw [ready y held]
      exact ⟨rfl, w.resolver, w.fetches, rfl⟩
  | none => exact ⟨fetch_answers prim debug s now w.resolver w.current exchange synced present, _, _, rfl⟩

theorem prefetch_alongside (exchange : Exchange) (successor : Option SignedRecord) (w v : Walker)
    (alongside : Alongside prim s now w v) (present : Present s now exchange)
    (offered : ∀ y, successor = some y → s.get w.current now = some y) :
    Alongside prim s now (prefetch prim exchange successor w.current w) v := by
  cases successor with
  | none => exact alongside
  | some candidate =>
      simp only [prefetch]
      split
      · exact alongside
      · cases took : w.resolver.take prim w.current exchange.checked candidate with
        | error e => exact alongside
        | ok taken =>
            have held := offered candidate rfl
            rw [present.checked] at took
            have answers := ((then_ok _ _ _).mp took).choose_spec.1
            refine ⟨?_, alongside.right, alongside.current, alongside.visited, alongside.chain, ?_⟩
            · exact (synced_maintained prim s now).takes w.resolver taken w.current now now candidate alongside.left
                ⟨rfl, rfl⟩ held took
            · intro y same
              rw [← Option.some.inj same]
              exact answer_for_held prim s now w.current candidate held answers

theorem follow_alongside (requested : PubKey) (exchange other : Exchange) (draws plainDraws : Draws) (record : SignedRecord)
    (successor : Option SignedRecord) (w v : Walker) (alongside : Alongside prim s now w v) (spent : w.prefetched = none)
    (present : Present s now exchange)
    (offered : ∀ y, successor = some y → ∃ next, record.record.successor = some next ∧ s.get next now = some y) :
    SameTurn prim s now (follow prim requested exchange draws record successor w)
      (follow prim requested other plainDraws record none v) := by
  simp only [follow]
  cases record.revocationError prim with
  | some revoked => exact .refused revoked
  | none =>
      cases named : record.record.successor with
      | none =>
          refine .located _ _ rfl rfl rfl alongside.chain ?_
          exact (Select.order_with_perm draws record.record).trans (Select.order_with_perm plainDraws record.record).symm
      | some next =>
          dsimp only
          rw [← alongside.visited]
          split
          · exact .refused _
          · refine prefetch_alongside prim s now exchange successor
              ⟨w.resolver, next, insert next w.visited, w.chain ++ [w.current], w.prefetched, w.fetches, w.used⟩
              ⟨v.resolver, next, insert next w.visited, v.chain ++ [v.current], v.prefetched, v.fetches, v.used⟩ ?_ present ?_
            · refine ⟨alongside.left, alongside.right, rfl, rfl, ?_, ?_⟩
              · rw [alongside.chain, alongside.current]
              · intro y ready
                rw [spent] at ready
                cases ready
            · intro y given
              obtain ⟨key, same, seen⟩ := offered y given
              rw [named, Option.some.injEq] at same
              exact same ▸ seen

theorem turn_alongside (requested : PubKey) (network plain : Nat → Exchange) (draws plainDraws : Draws) (w v : Walker)
    (alongside : Alongside prim s now w v) (present : ∀ i, Present s now (network i)) (plainly : ∀ i, Present s now (plain i)) :
    SameTurn prim s now (turn prim debug requested network draws w) (plainTurn prim debug requested plain plainDraws v) := by
  obtain ⟨left, offered⟩ := next_record_keeps prim debug (synced_maintained prim s now) (network w.fetches) w alongside.left
    (present_told s now _ (present w.fetches))
  obtain ⟨answers, resolver, fetches, moved⟩ := next_record_answers prim debug s now (network w.fetches) w alongside.left
    alongside.ready (present w.fetches)
  have right := (fetch_keeps prim debug (synced_maintained prim s now) v.resolver v.current (plain v.fetches) alongside.right
    (present_told s now _ (plainly v.fetches))).1
  have plainAnswers := fetch_answers prim debug s now v.resolver v.current (plain v.fetches) alongside.right (plainly v.fetches)
  rw [← alongside.current] at plainAnswers
  simp only [turn, plainTurn]
  generalize nextRecord prim debug (network w.fetches) w = got at left offered answers moved
  rw [← alongside.current]
  rw [← alongside.current] at right
  generalize v.resolver.fetch prim debug w.current (plain v.fetches) = fetched at right plainAnswers
  obtain ⟨outcome, w'⟩ := got
  obtain ⟨plainOutcome, v'⟩ := fetched
  dsimp only at moved left right answers plainAnswers offered ⊢
  subst moved
  rw [← plainAnswers] at answers
  rcases outcome with e | ⟨_ | record, successor⟩
  · rcases plainOutcome with f | ⟨_ | other, extra⟩
    · rw [Except.error.inj answers]
      exact .refused f
    · cases answers
    · cases answers
  · rcases plainOutcome with f | ⟨_ | other, extra⟩
    · cases answers
    · exact .refused _
    · cases answers
  · rcases plainOutcome with f | ⟨_ | other, extra⟩
    · cases answers
    · cases answers
    · have same : record = other := Option.some.inj (Except.ok.inj answers)
      subst same
      refine follow_alongside prim s now requested _ _ draws plainDraws record successor _ _ ?_ rfl (present w.fetches) ?_
      · exact ⟨left, right, rfl, alongside.visited, alongside.chain, by simp⟩
      · intro y given
        obtain ⟨t, next, fair, named, seen⟩ := offered record y (by rw [given])
        exact ⟨next, named, fair.2 ▸ seen⟩

theorem walk_alongside (requested : PubKey) (network plain : Nat → Exchange) (draws plainDraws : Draws) (hops : Nat) (w v : Walker)
    (alongside : Alongside prim s now w v) (present : ∀ i, Present s now (network i)) (plainly : ∀ i, Present s now (plain i)) :
    SameOutcome (walk prim debug requested network draws hops w).1 (plainWalk prim debug requested plain plainDraws hops v).1 := by
  induction hops generalizing w v with
  | zero => exact .refused _
  | succ hops ih =>
      have same := turn_alongside prim debug s now requested network plain draws plainDraws w v alongside present plainly
      simp only [walk, plainWalk]
      cases here : turn prim debug requested network draws w with
      | done outcome w' =>
          cases there : plainTurn prim debug requested plain plainDraws v with
          | done other v' =>
              rw [here, there] at same
              exact same
          | onward v' =>
              rw [here, there] at same
              exact False.elim same
      | onward w' =>
          cases there : plainTurn prim debug requested plain plainDraws v with
          | done other v' =>
              rw [here, there] at same
              exact False.elim same
          | onward v' =>
              rw [here, there] at same
              exact ih w' v' same

end Fixed

theorem prefetch_finds_the_same (s : Store) (now : Nat) (config : ResolverConfig) (r : Resolver) (created : new config = .ok r)
    (single : config.servers.length = 1) (ops : List Op) (earlier : ∀ op ∈ ops, Reads s (At now) op) (key : PubKey)
    (network plain : Nat → Exchange) (present : ∀ i, Present s now (network i)) (plainly : ∀ i, Present s now (plain i))
    (draws plainDraws : Draws) :
    SameOutcome ((r.after prim debug ops).resolveService prim debug key network draws).1
      (plainResolve prim debug config key plain plainDraws).1 := by
  have begun : Synced prim s now r := by
    rw [new_ok config r created]
    exact fresh_synced prim s now config single
  have synced := after_keeps prim debug (synced_maintained prim s now) r ops begun earlier
  refine walk_alongside prim debug s now key network plain draws plainDraws maxSupersedeHops _ _ ?_ present plainly
  exact ⟨synced, fresh_synced prim s now { config with cache := false } single, rfl, rfl, rfl, by simp⟩

section Sample

open Sample

-- Two rotations, with the end of the chain already in the cache.
theorem prefetch_finds_the_same_moved :
    ∃ first, (moved.drop 6 ++ [landed]).head? = some first ∧
      SameOutcome ((oneServer.after travelled (fun _ => "") [.lookup landed.key overThere]).resolveService travelled (fun _ => "")
        first.key (fun _ => overThere) firstDraw).1
        (plainResolve travelled (fun _ => "") oneServer.config first.key (fun _ => overThere) firstDraw).1 := by
  obtain ⟨first, starts⟩ : ∃ first, (moved.drop 6 ++ [landed]).head? = some first :=
    Option.isSome_iff_exists.mp (by decide +kernel)
  have before : ∀ op ∈ [Op.lookup landed.key overThere], Reads depot (At 1000) op := by
    intro op member
    cases List.mem_singleton.mp member
    exact present_told depot 1000 overThere over_there_present
  have same := prefetch_finds_the_same travelled (fun _ => "") depot 1000 oneServer.config oneServer rfl rfl
    [.lookup landed.key overThere] before first.key (fun _ => overThere) (fun _ => overThere) (fun _ => over_there_present)
    (fun _ => over_there_present) firstDraw firstDraw
  exact ⟨first, starts, same⟩

end Sample

end Sqns.Resolver
