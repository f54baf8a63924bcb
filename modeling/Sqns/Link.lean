import Sqns.Lib.Pool
import Sqns.Chain
import Sqns.Lifetime

set_option autoImplicit false

namespace Sqns.Link

open Pool Store Trace

variable {κ : Type} (prim : Primitives) (relay : PubKey → UInt8 → Except Error (Option Relayed)) (uptimeSecs : UInt64)

-- A server and its clock, at the other end of a pooled connection. Its other
-- callers are part of the weather.
structure FarEnd where
  now : Nat
  server : Server

def FarEnd.world (far : FarEnd) : World := ⟨far.now, far.server.store⟩

def answer (far : FarEnd) (req : Request) : Response × FarEnd :=
  let handled := far.server.handle prim relay far.now uptimeSecs req
  (handled.response, { far with server := { far.server with store := handled.store } })

-- `PeerLink::request`, and `request_server` on one of a resolver's connections.
def request (slot : Option κ) (weather : Weather κ Error FarEnd) (far : FarEnd) (req : Request) :
    Outcome κ Response Error FarEnd :=
  Pool.request (answer prim relay uptimeSecs) slot weather far req

def session (far : FarEnd) (turns : List (Weather κ Error FarEnd × Request)) : Session κ FarEnd :=
  turns.foldl (turn (answer prim relay uptimeSecs)) ⟨none, far, []⟩

theorem connections_used_in_order (far : FarEnd) (turns : List (Weather κ Error FarEnd × Request))
    (distinct : (offered turns).Nodup) :
    let done := session prim relay uptimeSecs far turns
    done.touches.Pairwise Touch.InOrder ∧ (∀ touch ∈ done.touches, Touch.dialled touch.conn ∈ done.touches) ∧
      (∀ conn, done.slot = some conn → Touch.failed conn ∉ done.touches) ∧
      ∀ front next back, turns = front ++ next :: back →
        let before := session prim relay uptimeSecs far front
        Bounded (request prim relay uptimeSecs before.slot next.1 (next.1.before before.far) next.2) 2 := by
  have disciplined := turns_disciplined (answer prim relay uptimeSecs) turns ⟨none, far, []⟩ empty_disciplined distinct
    (fun _ _ _ member => absurd member List.not_mem_nil)
  refine ⟨disciplined.order, disciplined.opened, fun conn kept => (disciplined.kept conn kept).2, ?_⟩
  intro front next back _
  exact request_bounded _ _ _ _ _

section Retry

-- Whoever else talks to the server meanwhile does not publish for `k`.
def Quiet (k : PubKey) : Event prim → Prop
  | .put x _ => x.signed.key ≠ k
  | _ => True

def Calm (k : PubKey) (change : FarEnd → FarEnd) : Prop :=
  ∀ far, ∃ run, Run (Step prim) far.world run (change far).world ∧ ∀ move ∈ run, Quiet prim k move.label

-- Once stored, a record is held until it is no longer one the server would take.
def Stays (r : SignedRecord) (w : World) : Prop :=
  w.store.records.lookup r.key = some r ∨ survives r w.now = false

theorem survives_later (r : SignedRecord) (now later : Nat) (le : now ≤ later) (gone : survives r now = false) :
    survives r later = false := by
  rw [Bool.eq_false_iff, ne_eq, survives_iff] at gone ⊢
  rintro ⟨fresh, delegated⟩
  apply gone
  refine ⟨?_, delegated.imp_right ?_⟩
  · rw [Bool.eq_false_iff] at fresh ⊢
    exact fun expired => fresh (Record.expired_mono _ _ _ le expired)
  · intro current
    rw [Bool.eq_false_iff] at current ⊢
    exact fun expired => current (Delegation.expired_mono _ _ _ le expired)

theorem step_stays (r : SignedRecord) (w w' : World) (e : Event prim) (sound : Sound prim w) (step : Step prim w e w')
    (quiet : Quiet prim r.key e) (stays : Stays r w) : Stays r w' := by
  have onward : survives r w.now = false → Stays r w' :=
    fun gone => .inr (survives_later r _ _ (step_clock prim w w' e step) gone)
  rcases stays with held | gone
  · cases step_change prim r.key w w' e sound step with
    | kept e same refused => exact .inl (same.trans held)
    | stored x own accepted now => exact absurd own quiet
    | dropped e other found _ lapsed =>
        have same : other = r := Option.some.inj (found.symm.trans held)
        subst same
        apply onward
        cases e with
        | tick later => cases lapsed
        | put x result => cases lapsed
        | purge =>
            simp only [drops] at lapsed
            rw [Bool.eq_false_iff, ne_eq, survives_iff]
            rintro ⟨fresh, _⟩
            rw [lapsed] at fresh
            cases fresh
        | reopen => simpa [drops] using lapsed
  · exact onward gone

theorem quiet_run_stays (r : SignedRecord) (w w' : World) (run : List (Transition World (Event prim)))
    (whole : Run (Step prim) w run w') (quiet : ∀ move ∈ run, Quiet prim r.key move.label) (sound : Sound prim w)
    (stays : Stays r w) : Sound prim w' ∧ Stays r w' := by
  apply run_invariant (fun v => Sound prim v ∧ Stays r v) (fun move => Quiet prim r.key move.label) _ quiet whole ⟨sound, stays⟩
  intro u label v step here both
  exact ⟨step_sound prim u v label step both.1, step_stays prim r u v label both.1 step here both.2⟩

theorem stays_refused (r : SignedRecord) (w : World) (stays : Stays r w) : ¬ Accepted prim w.store r w.now := by
  intro accepted
  rcases stays with held | gone
  · have newer := accepted.newer r held
    rw [Record.supersedes_irrefl] at newer
    cases newer
  · rw [Bool.eq_false_iff, ne_eq, survives_iff] at gone
    exact gone ⟨accepted.admitted.fresh, accepted.admitted.delegated⟩

def isPublished : Response → Bool
  | .published _ _ => true
  | _ => false

def storesFor (k : PubKey) (move : Transition World (Event prim)) : Bool :=
  match move.label with
  | .put x (.ok .stored) => decide (x.signed.key = k)
  | _ => false

theorem quiet_stores_nothing (k : PubKey) (run : List (Transition World (Event prim)))
    (quiet : ∀ move ∈ run, Quiet prim k move.label) : run.filter (storesFor prim k) = [] := by
  rw [List.filter_eq_nil_iff]
  intro move member stores
  have here := quiet move member
  unfold storesFor at stores
  unfold Quiet at here
  split at stores
  · rename_i x label
    rw [label] at here
    exact here (of_decide_eq_true stores)
  · cases stores

variable (record : WireRecord prim)

-- One delivery of a Publish is one `put`.
theorem delivery_puts (far : FarEnd) :
    let answered := answer prim relay uptimeSecs far (.publish record.signed)
    ∃ move : Transition World (Event prim), Run (Step prim) far.world [move] answered.2.world ∧
      ((isPublished answered.1 = true ∧ storesFor prim record.signed.key move = true ∧ Accepted prim far.world.store
          record.signed far.world.now ∧ answered.2.server.store.records.lookup record.signed.key = some record.signed) ∨
        (isPublished answered.1 = false ∧ storesFor prim record.signed.key move = false ∧ answered.2 = far)) := by
  have step := Step.put far.world record
  rcases put_cases prim far.server.store record.signed far.now with ⟨e, error⟩ | ⟨stale, _⟩ | ⟨accepted, stored⟩
  · have after : (answer prim relay uptimeSecs far (.publish record.signed)) =
        (.error (Server.codeOf e) e.toText, far) := by
      simp only [answer, Server.handle, Server.handlePublish, error]
    rw [after]
    simp only [FarEnd.world, error] at step
    exact ⟨_, .cons _ _ _ _ _ step (.nil _), .inr ⟨rfl, rfl, rfl⟩⟩
  · have after : ∃ text, (answer prim relay uptimeSecs far (.publish record.signed)) = (.error .stale text, far) := by
      simp only [answer, Server.handle, Server.handlePublish, stale]
      exact ⟨_, rfl⟩
    obtain ⟨text, after⟩ := after
    rw [after]
    simp only [FarEnd.world, stale] at step
    exact ⟨_, .cons _ _ _ _ _ step (.nil _), .inr ⟨rfl, rfl, rfl⟩⟩
  · have after : (answer prim relay uptimeSecs far (.publish record.signed)) =
        (.published record.signed.record.serial (UInt64.ofNat record.signed.record.expiresAt),
          { far with server := { far.server with store := far.server.store.accept record.signed } }) := by
      simp only [answer, Server.handle, Server.handlePublish, stored]
    rw [after]
    simp only [FarEnd.world, stored] at step
    refine ⟨_, .cons _ _ _ _ _ step (.nil _), .inl ⟨rfl, ?_, accepted, ?_⟩⟩
    · simp [storesFor]
    · simp

theorem redial_puts (weather : Weather κ Error FarEnd) (far : FarEnd) :
    let out := redial (answer prim relay uptimeSecs) weather far (.publish record.signed)
    ∃ run : List (Transition World (Event prim)), Run (Step prim) far.world run out.far.world ∧
      ((run.filter (storesFor prim record.signed.key)).length = (out.replies.filter isPublished).length ∧
        (out.replies.filter isPublished).length ≤ 1) ∧
      ((∃ reply ∈ out.replies, isPublished reply = true) → Accepted prim far.world.store record.signed far.world.now ∧
        out.far.server.store.records.lookup record.signed.key = some record.signed) ∧
      ((∀ reply ∈ out.replies, isPublished reply = false) → out.far = far) := by
  have silent : ∃ run : List (Transition World (Event prim)), Run (Step prim) far.world run far.world ∧
      run.filter (storesFor prim record.signed.key) = [] := ⟨[], .nil _, rfl⟩
  obtain ⟨nothing, still, none⟩ := silent
  obtain ⟨move, delivered, outcome⟩ := delivery_puts prim relay uptimeSecs record far
  rcases redial_cases (answer prim relay uptimeSecs) weather far (.publish record.signed) with
    ⟨e, _, same⟩ | ⟨conn, _, ⟨e, same⟩ | ⟨e, same⟩ | same⟩
  · rw [same]
    exact ⟨nothing, still, by simp [none], by simp⟩
  · rw [same]
    exact ⟨nothing, still, by simp [none], by simp⟩
  all_goals
    rw [same]
    refine ⟨[move], delivered, ?_⟩
    rcases outcome with ⟨published, stores, accepted, held⟩ | ⟨refused, kept, unchanged⟩
    · simp [published, stores, accepted, held]
    · simp [refused, kept, unchanged]

theorem second_attempt (weather : Weather κ Error FarEnd) (later : FarEnd) (replies : List Response)
    (sound : Sound prim later.world) (calm : Calm prim record.signed.key weather.meanwhile)
    (once : (replies.filter isPublished).length ≤ 1)
    (stays : (∃ reply ∈ replies, isPublished reply = true) → Stays record.signed later.world) :
    let again := redial (answer prim relay uptimeSecs) weather (weather.meanwhile later) (.publish record.signed)
    ((replies ++ again.replies).filter isPublished).length ≤ 1 ∧
      ((∃ reply ∈ replies ++ again.replies, isPublished reply = true) → Stays record.signed again.far.world) := by
  obtain ⟨between, moved, quiet⟩ := calm later
  obtain ⟨_, _, ⟨_, few⟩, held, unchanged⟩ :=
    redial_puts prim relay uptimeSecs record weather (weather.meanwhile later)
  intro again
  by_cases before : ∃ reply ∈ replies, isPublished reply = true
  · have still := (quiet_run_stays prim record.signed _ _ between moved quiet sound (stays before)).2
    have refused : ∀ reply ∈ again.replies, isPublished reply = false := by
      intro reply member
      rw [Bool.eq_false_iff]
      intro published
      exact stays_refused prim record.signed _ still (held ⟨reply, member, published⟩).1
    have none : again.replies.filter isPublished = [] := by
      rw [List.filter_eq_nil_iff]
      intro reply member published
      rw [refused reply member] at published
      cases published
    refine ⟨by rw [List.filter_append, none, List.append_nil]; exact once, fun _ => ?_⟩
    rw [unchanged refused]
    exact still
  · have none : replies.filter isPublished = [] := by
      rw [List.filter_eq_nil_iff]
      exact fun reply member published => before ⟨reply, member, published⟩
    refine ⟨by rw [List.filter_append, none]; exact few, ?_⟩
    rintro ⟨reply, member, published⟩
    rcases List.mem_append.mp member with early | late
    · exact absurd ⟨reply, early, published⟩ before
    · exact .inl (held ⟨reply, late, published⟩).2

theorem first_attempt (far later : FarEnd) (replies : List Response)
    (sent : later = far ∧ replies = [] ∨ later = (answer prim relay uptimeSecs far (.publish record.signed)).2 ∧
      replies = [(answer prim relay uptimeSecs far (.publish record.signed)).1]) :
    ∃ first : List (Transition World (Event prim)), Run (Step prim) far.world first later.world ∧
      (first.filter (storesFor prim record.signed.key)).length = (replies.filter isPublished).length ∧
      (replies.filter isPublished).length ≤ 1 ∧
      ((∃ reply ∈ replies, isPublished reply = true) → Stays record.signed later.world) := by
  rcases sent with ⟨nobody, nothing⟩ | ⟨somebody, something⟩
  · subst nobody nothing
    exact ⟨[], .nil _, by simp, by simp, by simp⟩
  · subst somebody something
    obtain ⟨move, delivered, outcome⟩ := delivery_puts prim relay uptimeSecs record far
    refine ⟨[move], delivered, ?_⟩
    rcases outcome with ⟨published, stores, accepted, held⟩ | ⟨refused, kept, unchanged⟩
    · simp [published, stores, held, Stays, FarEnd.world]
    · simp [refused, kept]

-- Both deliveries of a Publish that is sent again, with the clock, sweeps,
-- restarts and other keys' records in between.
theorem retried_publish_stores_once (slot : Option κ) (weather : Weather κ Error FarEnd) (far : FarEnd)
    (sound : Sound prim far.world) (calm : Calm prim record.signed.key weather.meanwhile) :
    let out := request prim relay uptimeSecs slot weather far (.publish record.signed)
    ∃ run : List (Transition World (Event prim)), Run (Step prim) far.world run out.far.world ∧
      (run.filter (storesFor prim record.signed.key)).length = (out.replies.filter isPublished).length ∧
      (out.replies.filter isPublished).length ≤ 1 ∧
      ((∃ reply ∈ out.replies, isPublished reply = true) → Stays record.signed out.far.world) ∧
      ∀ serial expiresAt, out.reply = .ok (.published serial expiresAt) →
        out.far.server.store.records.lookup record.signed.key = some record.signed := by
  obtain ⟨move, delivered, outcome⟩ := delivery_puts prim relay uptimeSecs record far
  have arrived : ∀ serial expiresAt,
      let out := request prim relay uptimeSecs slot weather far (.publish record.signed)
      out.reply = .ok (.published serial expiresAt) → ∃ reply ∈ out.replies.getLast?, isPublished reply = true := by
    intro serial expiresAt out reply
    have last := (request_bounded (answer prim relay uptimeSecs) weather far (.publish record.signed) slot).last _ reply
    exact ⟨_, last, rfl⟩
  rcases request_cases (answer prim relay uptimeSecs) weather far (.publish record.signed) slot with
    ⟨_, same⟩ | ⟨conn, _, same | ⟨later, replies, sent, same⟩⟩
  · obtain ⟨run, whole, ⟨counted, once⟩, held, _⟩ := redial_puts prim relay uptimeSecs record weather far
    simp only [request] at arrived ⊢
    rw [same] at arrived ⊢
    refine ⟨run, whole, counted, once, fun published => .inl (held published).2, ?_⟩
    intro serial expiresAt reply
    obtain ⟨answered, last, published⟩ := arrived serial expiresAt reply
    exact (held ⟨answered, List.mem_of_getLast? last, published⟩).2
  · simp only [request]
    rw [same]
    refine ⟨[move], delivered, ?_⟩
    rcases outcome with ⟨published, stores, accepted, held⟩ | ⟨refused, kept, unchanged⟩
    · simp [published, stores, held, Stays, FarEnd.world]
    · refine ⟨by simp [refused, kept], by simp [refused], by simp [refused], ?_⟩
      intro serial expiresAt reply
      rw [Except.ok.inj reply] at refused
      cases refused
  · obtain ⟨first, reached, counted, once, stays⟩ :=
      first_attempt prim relay uptimeSecs record far later replies sent
    obtain ⟨between, moved, quiet⟩ := calm later
    obtain ⟨again, whole, ⟨counts, twice⟩, held, unchanged⟩ :=
      redial_puts prim relay uptimeSecs record weather (weather.meanwhile later)
    simp only [request] at arrived ⊢
    rw [same] at arrived ⊢
    refine ⟨first ++ (between ++ again), ?_, ?_, ?_, ?_, ?_⟩
    · exact run_append.mpr ⟨_, reached, run_append.mpr ⟨_, moved, whole⟩⟩
    · simp only [List.filter_append, List.length_append, quiet_stores_nothing prim _ between quiet, counted, counts,
        List.length_nil, Nat.zero_add]
    · exact (second_attempt prim relay uptimeSecs record weather later replies
        (run_sound prim _ _ first reached sound) calm once stays).1
    · exact (second_attempt prim relay uptimeSecs record weather later replies
        (run_sound prim _ _ first reached sound) calm once stays).2
    · intro serial expiresAt reply
      have last := (redial_bounded (answer prim relay uptimeSecs) weather (weather.meanwhile later)
        (.publish record.signed)).last _ reply
      exact (held ⟨_, List.mem_of_getLast? last, rfl⟩).2

end Retry

section Servers

-- A resolver's connection to one of its servers.
structure Line (κ : Type) where
  address : String
  slot : Option κ
  far : FarEnd

-- One request over one line: what it brings back and what it leaves.
def Line.ask (line : Line κ) (weather : Weather κ Error FarEnd) (req : Request) : Except Error Response × Line κ :=
  let out := request prim relay uptimeSecs line.slot weather (weather.before line.far) req
  (out.reply, { line with slot := out.slot, far := out.far })

-- What `try_servers` notes of a reply that does not end it.
def complaint (address : String) : Except Error Response → Option String
  | .ok (.error code message) => some s!"{address}: server error {code.debug}: {message}"
  | .ok _ => none
  | .error e => some s!"{address}: {e.toText}"

variable (req : Request)

def replyOf (lines : List (Line κ × Weather κ Error FarEnd)) (idx : Nat) : Except Error Response :=
  match lines[idx]? with
  | some (line, weather) => (line.ask prim relay uptimeSecs weather req).1
  | none => .error (.noServer "no such server")

-- The lines once the loop has ended: it does not reach past the first useful reply.
def linesAfter : List (Line κ × Weather κ Error FarEnd) → List (Line κ)
  | [] => []
  | (line, weather) :: rest =>
      match line.ask prim relay uptimeSecs weather req with
      | (reply, used) => used :: if complaint line.address reply = none then rest.map Prod.fst else linesAfter rest

def tryLines (lines : List (Line κ × Weather κ Error FarEnd)) : Except (List String) Response × List (Line κ) :=
  (Resolver.firstAnswer (replyOf prim relay uptimeSecs req lines) (lines.map (fun next => next.1.address)) 0,
    linesAfter prim relay uptimeSecs req lines)

section Next

variable (line used : Line κ) (weather : Weather κ Error FarEnd) (rest : List (Line κ × Weather κ Error FarEnd))

theorem try_lines_stop (response : Response) (asked : line.ask prim relay uptimeSecs weather req = (.ok response, used))
    (quiet : complaint line.address (.ok response) = none) :
    tryLines prim relay uptimeSecs req ((line, weather) :: rest) = (.ok response, used :: rest.map Prod.fst) := by
  have first : replyOf prim relay uptimeSecs req ((line, weather) :: rest) 0 = .ok response := congrArg Prod.fst asked
  rw [tryLines, linesAfter, asked, List.map_cons, Resolver.firstAnswer, first]
  cases response with
  | error code message => cases quiet
  | answer => rfl
  | published => rfl
  | status => rfl
  | records => rfl

theorem try_lines_go (reply : Except Error Response) (text : String)
    (asked : line.ask prim relay uptimeSecs weather req = (reply, used)) (loud : complaint line.address reply = some text) :
    tryLines prim relay uptimeSecs req ((line, weather) :: rest) =
      ((tryLines prim relay uptimeSecs req rest).1.mapError (text :: ·), used ::
        (tryLines prim relay uptimeSecs req rest).2) := by
  have first : replyOf prim relay uptimeSecs req ((line, weather) :: rest) 0 = reply := congrArg Prod.fst asked
  have others : Resolver.firstAnswer (replyOf prim relay uptimeSecs req ((line, weather) :: rest))
      (rest.map (fun next => next.1.address)) 1 = (tryLines prim relay uptimeSecs req rest).1 :=
    Resolver.first_answer_shift _ _ 0
  rw [tryLines, linesAfter, asked, List.map_cons, Resolver.firstAnswer, first, others]
  dsimp only
  rw [loud]
  cases reply with
  | error e => rw [← Option.some.inj loud]; rfl
  | ok response =>
      cases response with
      | error code message => rw [← Option.some.inj loud]; rfl
      | answer => cases loud
      | published => cases loud
      | status => cases loud
      | records => cases loud

end Next

-- The loop stops at the first line that brings anything but an error, and has
-- not touched the ones behind it.
theorem try_lines_cases (lines : List (Line κ × Weather κ Error FarEnd)) :
    let done := tryLines prim relay uptimeSecs req lines
    (∃ front line weather back response, lines = front ++ (line, weather) :: back ∧ done.1 = .ok response ∧
      (line.ask prim relay uptimeSecs weather req).1 = .ok response ∧ complaint line.address (.ok response) = none ∧
      (∀ next ∈ front, complaint next.1.address (next.1.ask prim relay uptimeSecs next.2 req).1 ≠ none) ∧
      done.2 = (front ++ [(line, weather)]).map (fun next => (next.1.ask prim relay uptimeSecs next.2 req).2) ++
        back.map Prod.fst) ∨
    (∃ errors, done.1 = .error errors ∧
      errors.map some = lines.map (fun next => complaint next.1.address (next.1.ask prim relay uptimeSecs next.2 req).1) ∧
      done.2 = lines.map (fun next => (next.1.ask prim relay uptimeSecs next.2 req).2)) := by
  induction lines with
  | nil => exact .inr ⟨[], rfl, rfl, rfl⟩
  | cons next rest ih =>
      obtain ⟨line, weather⟩ := next
      rcases asked : line.ask prim relay uptimeSecs weather req with ⟨reply, used⟩
      cases noted : complaint line.address reply with
      | none =>
          obtain ⟨response, same⟩ : ∃ response, reply = .ok response := by
            cases reply with
            | error e => cases noted
            | ok response => exact ⟨response, rfl⟩
          subst same
          rw [try_lines_stop prim relay uptimeSecs req line used weather rest response asked noted]
          exact .inl ⟨[], line, weather, rest, response, rfl, rfl, by rw [asked], noted, by simp, by simp [asked]⟩
      | some text =>
          have loud : complaint line.address (line.ask prim relay uptimeSecs weather req).1 = some text := by rw [asked, noted]
          rw [try_lines_go prim relay uptimeSecs req line used weather rest reply text asked noted]
          rcases ih with ⟨front, good, sky, back, response, split, answered, own, quiet, tried, left⟩ |
            ⟨errors, failed, lines, left⟩
          · refine .inl ⟨(line, weather) :: front, good, sky, back, response, by rw [split]; rfl, ?_, own, quiet, ?_, ?_⟩
            · rw [answered]
              rfl
            · intro other member
              rcases List.mem_cons.mp member with here | there
              · rw [here, loud]
                simp
              · exact tried other there
            · rw [left, List.cons_append, List.map_cons, List.cons_append, asked]
          · refine .inr ⟨text :: errors, ?_, ?_, ?_⟩
            · rw [failed]
              rfl
            · rw [List.map_cons, List.map_cons, lines, loud]
            · rw [List.map_cons, left, asked]

-- What `try_servers` does to pooled connections.
theorem servers_tried_in_order (r : Resolver) (lines : List (Line κ × Weather κ Error FarEnd)) (exchange : Exchange)
    (what : String) (addressed : r.config.servers = lines.map (fun next => next.1.address))
    (replies : exchange.reply = fun idx req => replyOf prim relay uptimeSecs req lines idx) :
    let done := tryLines prim relay uptimeSecs req lines
    r.tryServers exchange req what =
        done.1.mapError (fun errors => .noServer s!"{what} failed on every server ({Resolver.joined errors})") ∧
      ((∃ front line weather back response, lines = front ++ (line, weather) :: back ∧ done.1 = .ok response ∧
          (line.ask prim relay uptimeSecs weather req).1 = .ok response ∧ complaint line.address (.ok response) = none ∧
          (∀ next ∈ front, complaint next.1.address (next.1.ask prim relay uptimeSecs next.2 req).1 ≠ none) ∧
          done.2 = (front ++ [(line, weather)]).map (fun next => (next.1.ask prim relay uptimeSecs next.2 req).2) ++
            back.map Prod.fst) ∨
        ∃ errors, done.1 = .error errors ∧
          errors.map some = lines.map (fun next => complaint next.1.address (next.1.ask prim relay uptimeSecs next.2 req).1) ∧
          done.2 = lines.map (fun next => (next.1.ask prim relay uptimeSecs next.2 req).2)) := by
  refine ⟨?_, try_lines_cases prim relay uptimeSecs req lines⟩
  rw [Resolver.tryServers, addressed, replies]
  rfl

end Servers

section Sample

open Sample

def quietly (fate : Fate Error) (conn : Nat) : Weather Nat Error FarEnd := ⟨id, fate, id, .ok conn, .answered⟩

def farEnd : FarEnd := ⟨1000, ⟨Store.new, 0, 0, 0, true⟩⟩

def reset : Error := .connection "cannot open stream: reset"

theorem connections_used_in_order_redialled :
    let done := session ed25519 (fun _ _ => .ok none) 0 farEnd
      [(quietly .answered 0, .status), (quietly (.lost reset) 1, .status)]
    done.touches = [.dialled 0, .carried 0, .failed 0, .dialled 1, .carried 1] ∧ done.touches.Pairwise Touch.InOrder :=
  ⟨rfl, (connections_used_in_order ed25519 (fun _ _ => .ok none) 0 farEnd
    [(quietly .answered 0, .status), (quietly (.lost reset) 1, .status)] (by decide)).1⟩

theorem late_known : late ∈ known := by simp [known]

-- Somebody else publishes, a minute goes by, and the server sweeps.
def meanwhile (prim : Primitives) (x : WireRecord prim) (far : FarEnd) : FarEnd :=
  let stored := (far.server.store.put prim x.signed far.now).2
  ⟨far.now + 60, { far.server with store := (stored.purgeExpired (far.now + 60)).2 }⟩

theorem meanwhile_calm (prim : Primitives) (x : WireRecord prim) (k : PubKey) (other : x.signed.key ≠ k) :
    Calm prim k (meanwhile prim x) := by
  intro far
  refine ⟨_, .cons _ _ _ _ _ (.put far.world x) (.cons _ _ _ _ _ (.tick _ (far.now + 60) (Nat.le_add_right _ _))
    (.cons _ _ _ _ _ (.purge _) (.nil _))), ?_⟩
  intro move member
  simp only [List.mem_cons, List.not_mem_nil, or_false] at member
  rcases member with rfl | rfl | rfl
  · exact other
  · exact True.intro
  · exact True.intro

-- The reply to the first delivery is lost, and the record is sent again.
theorem retried_publish_stores_once_unanswered :
    let weather := { quietly (.unanswered reset) 1 with meanwhile := meanwhile ed25519 (wire late late_known) }
    let out := request ed25519 (fun _ _ => .ok none) 0 (some 0) weather farEnd (.publish publish)
    out.replies.map isPublished = [true, false] ∧ out.far.now = 1060 ∧
      out.far.server.store.records.lookup node = some publish ∧ out.far.server.store.records.lookup spare = some late ∧
      ∃ run : List (Transition World (Event ed25519)), Run (Step ed25519) farEnd.world run out.far.world ∧
        (run.filter (storesFor ed25519 node)).length = 1 := by
  intro weather out
  have replied : out.replies.map isPublished = [true, false] := by decide +kernel
  have counted : (out.replies.filter isPublished).length = 1 := by decide +kernel
  obtain ⟨run, whole, stores, _, _, _⟩ := retried_publish_stores_once ed25519 (fun _ _ => .ok none) 0
    (wire publish (by simp [known])) (some 0) weather farEnd (fresh_sound ed25519 1000)
    (meanwhile_calm ed25519 (wire late late_known) node (by decide +kernel))
  exact ⟨replied, rfl, by decide +kernel, by decide +kernel, run, whole, stores.trans counted⟩

theorem servers_tried_in_order_second :
    let lines : List (Line Nat × Weather Nat Error FarEnd) :=
      [(⟨"sqc://a", none, farEnd⟩, { quietly .answered 0 with dialled := .error reset }),
        (⟨"sqc://b", none, farEnd⟩, quietly .answered 1)]
    let r : Resolver := ⟨⟨["sqc://a", "sqc://b"], true, defaultRecurse⟩, Cache.new, ∅⟩
    let exchange : Exchange := ⟨1000, 1000, 1000, fun idx req => replyOf ed25519 (fun _ _ => .ok none) 0 req lines idx⟩
    r.tryServers exchange .status "status" =
      (tryLines ed25519 (fun _ _ => .ok none) 0 .status lines).1.mapError
        (fun errors => .noServer s!"status failed on every server ({Resolver.joined errors})") :=
  (servers_tried_in_order ed25519 (fun _ _ => .ok none) 0 .status _ _ _ "status" rfl rfl).1

end Sample

end Sqns.Link
