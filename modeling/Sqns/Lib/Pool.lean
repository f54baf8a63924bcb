import Mathlib.Data.List.Basic

set_option autoImplicit false

-- A connection that is kept between requests, and dialled anew when it fails.
namespace Pool

variable {κ ρ α ε σ : Type}

-- An exchange fails before the far side has the request or after it.
inductive Fate (ε : Type) where
  | lost (e : ε)
  | unanswered (e : ε)
  | answered

-- What one request meets. The far side has other callers: `before` is what they
-- do ahead of the request and `meanwhile` what they do between the two attempts.
structure Weather (κ ε σ : Type) where
  before : σ → σ
  pooled : Fate ε
  meanwhile : σ → σ
  dialled : Except ε κ
  fresh : Fate ε

inductive Touch (κ : Type) where
  | dialled (conn : κ)
  | carried (conn : κ)
  | failed (conn : κ)

namespace Touch

def conn : Touch κ → κ
  | .dialled conn => conn
  | .carried conn => conn
  | .failed conn => conn

def isDial : Touch κ → Bool
  | .dialled _ => true
  | _ => false

-- A connection is new when it is dialled and given up when it fails.
def InOrder (a b : Touch κ) : Prop :=
  (∀ conn, b = .dialled conn → a.conn ≠ conn) ∧ ∀ conn, a = .failed conn → b.conn ≠ conn

end Touch

-- `replies` is what the far side has answered, whether or not it arrived.
structure Outcome (κ α ε σ : Type) where
  reply : Except ε α
  slot : Option κ
  far : σ
  replies : List α
  touches : List (Touch κ)

section Request

variable (handle : σ → ρ → α × σ)

def exchange (fate : Fate ε) (far : σ) (req : ρ) : Except ε α × σ × List α :=
  match fate with
  | .lost e => (.error e, far, [])
  | .unanswered e => (.error e, (handle far req).2, [(handle far req).1])
  | .answered => (.ok (handle far req).1, (handle far req).2, [(handle far req).1])

def redial (weather : Weather κ ε σ) (far : σ) (req : ρ) : Outcome κ α ε σ :=
  match weather.dialled with
  | .error e => ⟨.error e, none, far, [], []⟩
  | .ok conn =>
      match exchange handle weather.fresh far req with
      | (.ok reply, far, replies) => ⟨.ok reply, some conn, far, replies, [.dialled conn, .carried conn]⟩
      | (.error e, far, replies) => ⟨.error e, none, far, replies, [.dialled conn, .failed conn]⟩

def request (slot : Option κ) (weather : Weather κ ε σ) (far : σ) (req : ρ) : Outcome κ α ε σ :=
  match slot with
  | none => redial handle weather far req
  | some conn =>
      match exchange handle weather.pooled far req with
      | (.ok reply, far, replies) => ⟨.ok reply, some conn, far, replies, [.carried conn]⟩
      | (.error _, far, replies) =>
          let again := redial handle weather (weather.meanwhile far) req
          { again with replies := replies ++ again.replies, touches := .failed conn :: again.touches }

-- Two attempts at most, and the reply is the last thing the far side said.
structure Bounded (out : Outcome κ α ε σ) (attempts : Nat) : Prop where
  dials : (out.touches.filter Touch.isDial).length ≤ 1
  exchanges : (out.touches.filter (fun touch => !touch.isDial)).length ≤ attempts
  replies : out.replies.length ≤ attempts
  last : ∀ reply, out.reply = .ok reply → out.replies.getLast? = some reply
  kept : (∃ reply, out.reply = .ok reply) ↔ ∃ conn, out.slot = some conn ∧ out.touches.getLast? = some (.carried conn)
  dropped : ∀ e, out.reply = .error e → out.slot = none

variable (weather : Weather κ ε σ) (far : σ) (req : ρ)

theorem exchange_cases (fate : Fate ε) :
    (∃ e, exchange handle fate far req = (.error e, far, ([] : List α))) ∨
    (∃ e, exchange handle fate far req = (.error e, (handle far req).2, [(handle far req).1])) ∨
    exchange handle fate far req = (.ok (handle far req).1, (handle far req).2, [(handle far req).1]) := by
  cases fate with
  | lost e => exact .inl ⟨e, rfl⟩
  | unanswered e => exact .inr (.inl ⟨e, rfl⟩)
  | answered => exact .inr (.inr rfl)

theorem redial_cases :
    (∃ e, weather.dialled = .error e ∧ redial handle weather far req = ⟨.error e, none, far, [], []⟩) ∨
    (∃ conn, weather.dialled = .ok conn ∧
      ((∃ e, redial handle weather far req = ⟨.error e, none, far, [], [.dialled conn, .failed conn]⟩) ∨
       (∃ e, redial handle weather far req =
          ⟨.error e, none, (handle far req).2, [(handle far req).1], [.dialled conn, .failed conn]⟩) ∨
       redial handle weather far req =
          ⟨.ok (handle far req).1, some conn, (handle far req).2, [(handle far req).1], [.dialled conn, .carried conn]⟩)) := by
  unfold redial
  cases dialled : weather.dialled with
  | error e => exact .inl ⟨e, rfl, rfl⟩
  | ok conn =>
      refine .inr ⟨conn, rfl, ?_⟩
      rcases exchange_cases handle far req weather.fresh with ⟨e, lost⟩ | ⟨e, unanswered⟩ | answered
      · exact .inl ⟨e, by simp only [lost]⟩
      · exact .inr (.inl ⟨e, by simp only [unanswered]⟩)
      · exact .inr (.inr (by simp only [answered]))

-- A request on a kept connection that fails goes on as one without.
theorem request_cases (slot : Option κ) :
    (slot = none ∧ request handle slot weather far req = redial handle weather far req) ∨
    ∃ conn, slot = some conn ∧
      (request handle slot weather far req =
          ⟨.ok (handle far req).1, some conn, (handle far req).2, [(handle far req).1], [.carried conn]⟩ ∨
       ∃ later replies, (later = far ∧ replies = [] ∨ later = (handle far req).2 ∧ replies = [(handle far req).1]) ∧
        request handle slot weather far req =
          { redial handle weather (weather.meanwhile later) req with
            replies := replies ++ (redial handle weather (weather.meanwhile later) req).replies
            touches := .failed conn :: (redial handle weather (weather.meanwhile later) req).touches }) := by
  cases slot with
  | none => exact .inl ⟨rfl, rfl⟩
  | some conn =>
      refine .inr ⟨conn, rfl, ?_⟩
      unfold request
      rcases exchange_cases handle far req weather.pooled with ⟨e, lost⟩ | ⟨e, unanswered⟩ | answered
      · exact .inr ⟨far, [], .inl ⟨rfl, rfl⟩, by simp only [lost]⟩
      · exact .inr ⟨(handle far req).2, [(handle far req).1], .inr ⟨rfl, rfl⟩, by simp only [unanswered]⟩
      · exact .inl (by simp only [answered])

theorem redial_bounded : Bounded (redial handle weather far req) 1 := by
  rcases redial_cases handle weather far req with ⟨e, _, same⟩ | ⟨conn, _, ⟨e, same⟩ | ⟨e, same⟩ | same⟩
  all_goals
    rw [same]
    constructor <;> simp [Touch.isDial, List.filter_cons]

theorem request_bounded (slot : Option κ) : Bounded (request handle slot weather far req) 2 := by
  rcases request_cases handle weather far req slot with ⟨_, same⟩ | ⟨conn, _, same | ⟨later, replies, delivered, same⟩⟩
  · have once := redial_bounded handle weather far req
    rw [same]
    exact ⟨once.dials, Nat.le_succ_of_le once.exchanges, Nat.le_succ_of_le once.replies, once.last, once.kept, once.dropped⟩
  · rw [same]
    constructor <;> simp [Touch.isDial]
  · have once := redial_bounded handle weather (weather.meanwhile later) req
    have few : replies.length ≤ 1 := by
      rcases delivered with ⟨_, none⟩ | ⟨_, one⟩
      · simp [none]
      · simp [one]
    rw [same]
    constructor
    · simpa [Touch.isDial] using once.dials
    · simpa [Touch.isDial, List.filter_cons] using once.exchanges
    · have more := once.replies
      simp only [List.length_append]
      omega
    · intro reply arrived
      rw [List.getLast?_append, once.last reply arrived]
      rfl
    · rw [once.kept]
      apply exists_congr
      intro conn
      apply and_congr_right
      intro _
      cases (redial handle weather (weather.meanwhile later) req).touches with
      | nil => simp
      | cons first rest => simp
    · exact once.dropped

end Request

section Discipline

-- What is kept is open and has not failed, and every connection is used between
-- its dial and its first failure only.
structure Disciplined (slot : Option κ) (touches : List (Touch κ)) : Prop where
  order : touches.Pairwise Touch.InOrder
  opened : ∀ touch ∈ touches, Touch.dialled touch.conn ∈ touches
  kept : ∀ conn, slot = some conn → Touch.dialled conn ∈ touches ∧ Touch.failed conn ∉ touches

variable {slot : Option κ} {touches : List (Touch κ)} {conn : κ}

theorem empty_disciplined : Disciplined (none : Option κ) [] :=
  ⟨List.Pairwise.nil, fun _ member => absurd member List.not_mem_nil, fun _ kept => by cases kept⟩

theorem append_disciplined (disciplined : Disciplined slot touches) (next : Touch κ) (after : Option κ)
    (order : ∀ touch ∈ touches, touch.InOrder next) (opened : Touch.dialled next.conn ∈ touches ++ [next])
    (kept : ∀ conn, after = some conn → Touch.dialled conn ∈ touches ++ [next] ∧ Touch.failed conn ∉ touches ++ [next]) :
    Disciplined after (touches ++ [next]) := by
  refine ⟨?_, ?_, kept⟩
  · rw [List.pairwise_append]
    refine ⟨disciplined.order, List.pairwise_singleton _ _, ?_⟩
    intro touch before last same
    rw [List.mem_singleton.mp same]
    exact order touch before
  · intro touch member
    rcases List.mem_append.mp member with before | last
    · exact List.mem_append_left _ (disciplined.opened touch before)
    · rw [List.mem_singleton.mp last]
      exact opened

theorem dial_disciplined (disciplined : Disciplined slot touches) (fresh : ∀ touch ∈ touches, touch.conn ≠ conn) :
    Disciplined (some conn) (touches ++ [.dialled conn]) := by
  apply append_disciplined disciplined
  · intro touch before
    refine ⟨?_, ?_⟩
    · intro other same
      cases same
      exact fresh touch before
    · intro other failed same
      exact fresh touch before (by rw [failed, ← same]; rfl)
  · simp [Touch.conn]
  · intro other same
    cases same
    simp only [List.mem_append, List.mem_singleton, or_true, reduceCtorEq, or_false, true_and]
    intro failed
    exact fresh _ failed rfl

theorem used_in_order (disciplined : Disciplined (some conn) touches) (next : Touch κ) (own : next.conn = conn)
    (use : ∀ other, next ≠ .dialled other) : ∀ touch ∈ touches, touch.InOrder next := by
  intro touch before
  refine ⟨fun other dialled => absurd dialled (use other), ?_⟩
  intro other failed same
  apply (disciplined.kept conn rfl).2
  rw [← own, same, ← failed]
  exact before

theorem carry_disciplined (disciplined : Disciplined (some conn) touches) :
    Disciplined (some conn) (touches ++ [.carried conn]) := by
  apply append_disciplined disciplined _ _ (used_in_order disciplined (.carried conn) rfl (fun _ => by simp))
  · exact List.mem_append_left _ (disciplined.kept conn rfl).1
  · intro other same
    cases same
    simpa using disciplined.kept conn rfl

theorem fail_disciplined (disciplined : Disciplined (some conn) touches) :
    Disciplined none (touches ++ [.failed conn]) := by
  apply append_disciplined disciplined _ _ (used_in_order disciplined (.failed conn) rfl (fun _ => by simp))
  · exact List.mem_append_left _ (disciplined.kept conn rfl).1
  · intro other same
    cases same

end Discipline

-- One caller's requests, one after the other.
structure Session (κ σ : Type) where
  slot : Option κ
  far : σ
  touches : List (Touch κ)

section Runs

variable (handle : σ → ρ → α × σ)

def turn (session : Session κ σ) (next : Weather κ ε σ × ρ) : Session κ σ :=
  let out := request handle session.slot next.1 (next.1.before session.far) next.2
  ⟨out.slot, out.far, session.touches ++ out.touches⟩

-- The connections that dialling would bring, in order.
def offered (turns : List (Weather κ ε σ × ρ)) : List κ := turns.filterMap (fun next => next.1.dialled.toOption)

theorem redial_disciplined (weather : Weather κ ε σ) (far : σ) (req : ρ) (slot : Option κ) (touches : List (Touch κ))
    (disciplined : Disciplined slot touches)
    (fresh : ∀ conn, weather.dialled = .ok conn → ∀ touch ∈ touches, touch.conn ≠ conn) :
    Disciplined (redial handle weather far req).slot (touches ++ (redial handle weather far req).touches) := by
  rcases redial_cases handle weather far req with ⟨e, _, same⟩ | ⟨conn, dialled, ⟨e, same⟩ | ⟨e, same⟩ | same⟩
  · rw [same, List.append_nil]
    exact ⟨disciplined.order, disciplined.opened, fun _ kept => by cases kept⟩
  all_goals
    have open_ := dial_disciplined disciplined (fresh conn dialled)
    rw [same]
  · simpa using fail_disciplined open_
  · simpa using fail_disciplined open_
  · simpa using carry_disciplined open_

theorem request_disciplined (weather : Weather κ ε σ) (far : σ) (req : ρ) (slot : Option κ) (touches : List (Touch κ))
    (disciplined : Disciplined slot touches)
    (fresh : ∀ conn, weather.dialled = .ok conn → ∀ touch ∈ touches, touch.conn ≠ conn) :
    Disciplined (request handle slot weather far req).slot (touches ++ (request handle slot weather far req).touches) := by
  rcases request_cases handle weather far req slot with ⟨none, same⟩ | ⟨conn, kept, same | ⟨later, replies, _, same⟩⟩
  · rw [same]
    exact redial_disciplined handle weather far req slot touches disciplined fresh
  · rw [same]
    exact carry_disciplined (kept ▸ disciplined)
  · have failed := fail_disciplined (kept ▸ disciplined : Disciplined (some conn) touches)
    have again := redial_disciplined handle weather (weather.meanwhile later) req none _ failed (by
      intro other dialled touch member
      rcases List.mem_append.mp member with before | last
      · exact fresh other dialled touch before
      · rw [List.mem_singleton.mp last]
        subst kept
        exact fresh other dialled (.dialled conn) (disciplined.kept conn rfl).1)
    rw [same]
    simpa using again

theorem request_touches (weather : Weather κ ε σ) (far : σ) (req : ρ) (slot : Option κ) (touch : Touch κ)
    (member : touch ∈ (request handle slot weather far req).touches) :
    slot = some touch.conn ∨ weather.dialled = .ok touch.conn := by
  have again : ∀ far, touch ∈ (redial handle weather far req).touches → weather.dialled = .ok touch.conn := by
    intro far member
    rcases redial_cases handle weather far req with ⟨e, _, same⟩ | ⟨conn, dialled, ⟨e, same⟩ | ⟨e, same⟩ | same⟩
    · simp [same] at member
    all_goals
      rw [same] at member
      simp only [List.mem_cons, List.not_mem_nil, or_false] at member
      rcases member with here | here
      · rw [here]; exact dialled
      · rw [here]; exact dialled
  rcases request_cases handle weather far req slot with ⟨none, same⟩ | ⟨conn, kept, same | ⟨later, replies, _, same⟩⟩
  · exact .inr (again far (same ▸ member))
  · rw [same, List.mem_singleton] at member
    rw [member]
    exact .inl kept
  · rw [same, List.mem_cons] at member
    rcases member with here | there
    · rw [here]
      exact .inl kept
    · exact .inr (again _ there)

-- Whatever fails, as long as no two dials bring the same connection.
theorem turns_disciplined (turns : List (Weather κ ε σ × ρ)) (session : Session κ σ)
    (disciplined : Disciplined session.slot session.touches) (distinct : (offered turns).Nodup)
    (fresh : ∀ conn ∈ offered turns, ∀ touch ∈ session.touches, touch.conn ≠ conn) :
    Disciplined (turns.foldl (turn handle) session).slot (turns.foldl (turn handle) session).touches := by
  induction turns generalizing session with
  | nil => exact disciplined
  | cons next rest ih =>
      have brings : ∀ conn, next.1.dialled = .ok conn → offered (next :: rest) = conn :: offered rest := by
        intro conn dialled
        simp [offered, dialled, Except.toOption]
      apply ih (turn handle session next)
      · apply request_disciplined handle next.1 _ next.2 _ _ disciplined
        intro conn dialled
        exact fresh conn (by rw [brings conn dialled]; exact List.mem_cons_self)
      · cases dialled : next.1.dialled with
        | error e => simpa [offered, dialled, Except.toOption] using distinct
        | ok conn => exact (List.nodup_cons.mp (brings conn dialled ▸ distinct)).2
      · intro conn later touch member
        have among : conn ∈ offered (next :: rest) := by
          simp only [offered, List.filterMap_cons]
          split
          · exact later
          · exact List.mem_cons_of_mem _ later
        rcases List.mem_append.mp member with before | now
        · exact fresh conn among touch before
        · rcases request_touches handle next.1 _ next.2 _ touch now with kept | dialled
          · exact fresh conn among (.dialled touch.conn) (disciplined.kept _ kept).1
          · intro same
            have once := (List.nodup_cons.mp (brings _ dialled ▸ distinct)).1
            exact once (same ▸ later)

end Runs

end Pool
