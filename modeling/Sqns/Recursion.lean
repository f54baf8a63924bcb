import Sqns.Lib.Walks
import Sqns.Lifetime
import Sqns.Upstream

set_option autoImplicit false

namespace Sqns.Upstream

open ByteReader Walks

variable {ν : Type} (prim : Primitives) (debug : Response → String) (now : Nat)

-- A Lookup as the server at the other end reads it off the wire.
def received (key : PubKey) (recurse : UInt8) : Except Error Request :=
  Request.decode prim reqLookup (Request.encodePayload (.lookup key recurse))

def respond (node : Node ν) (ask : PeerLink ν → Request → Option Reply) (key : PubKey) (recurse : UInt8) : Option Response :=
  match received prim key recurse with
  | .error e => some (.error .malformed e.toText)
  | .ok (.lookup key recurse) => (node.handleLookup prim debug now ask key recurse).map Prod.fst
  | .ok _ => none

-- `request` on a link, where the server behind it answers as `served` says.
-- Upstream sends nothing but Lookups.
def forward (served : ν → PubKey → UInt8 → Option Response) (link : PeerLink ν) : Request → Option Reply
  | .lookup key recurse => (served link.server key recurse).map .answered
  | _ => none

-- A server in a network of servers. The number is how deep forwarded Lookups
-- may nest under this one; where more would be needed there is no answer.
def serve (net : ν → Node ν) : Nat → ν → PubKey → UInt8 → Option Response
  | 0, v, key, recurse => respond prim debug now (net v) (fun _ _ => none) key recurse
  | deeper + 1, v, key, recurse => respond prim debug now (net v) (forward (serve net deeper)) key recurse

theorem received_lookup (key : PubKey) (recurse : UInt8) :
    received prim key recurse = .ok (.lookup key (min recurse maxRecurse)) := by
  rw [received, Request.decode, decode_all_ok, Request.encodePayload, Request.decodeFrom, if_pos rfl,
    bind_of_ok _ _ _ _ _ (Reader.array_reads _ _ _ _), bind_of_ok _ _ _ _ _ (Reader.u8_reads _ _ _)]
  rfl

theorem respond_eq (node : Node ν) (ask : PeerLink ν → Request → Option Reply) (key : PubKey) (recurse : UInt8) :
    respond prim debug now node ask key recurse =
      (node.handleLookup prim debug now ask key (min recurse maxRecurse)).map Prod.fst := by
  rw [respond, received_lookup]

section AllAnswer

variable (store : Store) (key : PubKey) (ask : PeerLink ν → Option Reply)

-- The loop when every link answers the question and offers nothing unacceptable:
-- it stops at the first record, and without one it has counted every link.
theorem ask_links_all_answer (links : List (PeerLink ν)) (answered : Nat) (errors : List String)
    (each : ∀ link ∈ links, ∃ record successor, ask link = some (.answered (.answer record successor)) ∧
      ∀ x, record = some x → accept prim store now key x = .ok ()) :
    (∃ relayed, askLinks prim debug store key now ask links answered errors = some (.ok relayed) ∧
      ∃ link ∈ links, ∃ successor, ask link = some (.answered (.answer (some relayed.record) successor))) ∨
    (askLinks prim debug store key now ask links answered errors = some (.error (answered + links.length, errors)) ∧
      ∀ link ∈ links, ∃ successor, ask link = some (.answered (.answer none successor))) := by
  induction links generalizing answered with
  | nil => exact .inr ⟨rfl, by simp⟩
  | cons link rest ih =>
      obtain ⟨record, successor, reply, accepted⟩ := each link (by simp)
      rw [askLinks, reply]
      cases record with
      | some x =>
          simp only [accepted x rfl]
          exact .inl ⟨_, rfl, link, by simp, successor, reply⟩
      | none =>
          simp only
          rcases ih (answered + 1) (fun l member => each l (by simp [member])) with ⟨relayed, found, l, member, from_⟩ | ⟨nothing, all⟩
          · exact .inl ⟨relayed, found, l, by simp [member], from_⟩
          · right
            rw [nothing, List.length_cons]
            refine ⟨by rw [Nat.add_right_comm, Nat.add_assoc], ?_⟩
            intro l member
            rcases List.mem_cons.mp member with rfl | later
            · exact ⟨successor, reply⟩
            · exact all l later

end AllAnswer

section Network

variable (net : ν → Node ν) (key : PubKey)

def neighbours (v : ν) : List ν := (net v).upstream.links.map PeerLink.server

def Holds (v : ν) : Prop := ((net v).store.get key now).isSome = true

-- An answer, never an error; a record in it is one every server would accept,
-- and there is one exactly if some server close enough holds the key.
def Settled (budget : Nat) (v : ν) (response : Option Response) : Prop :=
  ∃ record successor, response = some (.answer record successor) ∧
    (∀ x, record = some x → ∀ u, accept prim (net u).store now key x = .ok ()) ∧
    (record.isSome = true ↔ Within (neighbours net) (Holds now net key) budget v)

theorem settled_answer (budget : Nat) (v : ν) (response : Option Response) (record successor : Option SignedRecord)
    (settled : Settled prim now net key budget v response) (same : response = some (.answer record successor)) :
    (∀ x, record = some x → ∀ u, accept prim (net u).store now key x = .ok ()) ∧
      (record.isSome = true ↔ Within (neighbours net) (Holds now net key) budget v) := by
  obtain ⟨record', successor', answer, accepted, found⟩ := settled
  rw [same] at answer
  cases answer
  exact ⟨accepted, found⟩

theorem forward_answered (served : ν → PubKey → UInt8 → Option Response) (link : PeerLink ν) (recurse : UInt8)
    (response : Response) :
    forward served link (.lookup key recurse) = some (.answered response) ↔ served link.server key recurse = some response := by
  simp [forward]

theorem lookup_settled (served : ν → PubKey → UInt8 → Option Response) (budget : Nat) (v : ν) (recurse : UInt8)
    (off : (net v).upstream.cache = none) (missing : (net v).store.get key now = none) (hops : recurse ≠ 0)
    (linked : (net v).upstream.links.length ≠ 0)
    (each : ∀ link ∈ (net v).upstream.links,
      Settled prim now net key budget link.server (served link.server key (recurse - 1))) :
    Settled prim now net key (budget + 1) v
      (((net v).handleLookup prim debug now (forward served) key recurse).map Prod.fst) := by
  have answers : ∀ link ∈ (net v).upstream.links, ∃ record successor,
      forward served link (.lookup key (recurse - 1)) = some (.answered (.answer record successor)) ∧
        ∀ x, record = some x → accept prim (net v).store now key x = .ok () := by
    intro link member
    obtain ⟨record, successor, answer, accepted, _⟩ := each link member
    exact ⟨record, successor, (forward_answered key served link _ _).mpr answer, fun x same => accepted x same v⟩
  have unheld : ¬ Holds now net key v := by simp [Holds, missing]
  have response := Node.miss_response now (net v) key recurse missing hops linked
  rw [Node.handle_lookup_miss prim debug now (net v) _ key recurse missing hops linked]
  rcases ask_links_all_answer prim debug now (net v).store key (fun link => forward served link (.lookup key (recurse - 1)))
    (net v).upstream.links 0 [] answers with ⟨found, asked, link, member, successor, reply⟩ | ⟨asked, nothing⟩
  · have answer := (forward_answered key served link _ _).mp reply
    obtain ⟨accepted, near⟩ := settled_answer prim now net key budget link.server _ _ _ (each link member) answer
    refine ⟨some found.record, found.successor, ?_, accepted, ?_⟩
    · simp [lookup_off _ _ _ _ _ _ _ _ off, asked, conclude, response]
    · rw [within_succ]
      exact ⟨fun _ => .inr ⟨link.server, List.mem_map.mpr ⟨link, member, rfl⟩, near.mp rfl⟩, fun _ => rfl⟩
  · refine ⟨none, none, ?_, by simp, ?_⟩
    · simp [lookup_off _ _ _ _ _ _ _ _ off, asked, conclude, response]
    · rw [within_succ]
      constructor
      · intro absent
        cases absent
      · rintro (here | ⟨w, member, close⟩)
        · exact False.elim (unheld here)
        · obtain ⟨link, inLinks, rfl⟩ := List.mem_map.mp member
          obtain ⟨successor, reply⟩ := nothing link inLinks
          have answer := (forward_answered key served link _ _).mp reply
          exact (settled_answer prim now net key budget link.server _ _ _ (each link inLinks) answer).2.mpr close

theorem budget_eq (recurse : UInt8) : (min recurse maxRecurse).toNat = min recurse.toNat maxRecurse.toNat := by
  by_cases small : recurse ≤ maxRecurse
  · have kept : min recurse maxRecurse = recurse := if_pos small
    rw [kept, Nat.min_eq_left (UInt8.le_iff_toNat_le.mp small)]
  · have large : maxRecurse.toNat ≤ recurse.toNat := by
      rw [UInt8.le_iff_toNat_le] at small
      omega
    have cut : min recurse maxRecurse = maxRecurse := if_neg small
    rw [cut, Nat.min_eq_right large]

-- One hop further the budget is one less, and the clamp changes nothing.
theorem budget_pred (recurse : UInt8) (budget : Nat) (left : (min recurse maxRecurse).toNat = budget + 1) :
    (min (min recurse maxRecurse - 1) maxRecurse).toNat = budget := by
  have top : maxRecurse.toNat = 8 := rfl
  have one : (1 : UInt8) ≤ min recurse maxRecurse := by
    rw [UInt8.le_iff_toNat_le, left]
    exact Nat.succ_le_succ (Nat.zero_le budget)
  have spent : (min recurse maxRecurse - 1).toNat = budget := by
    rw [UInt8.toNat_sub_of_le _ _ one, left]
    rfl
  rw [budget_eq] at left
  rw [budget_eq, spent]
  omega

theorem settled_here (budget : Nat) (v : ν) (recurse : UInt8) (ask : PeerLink ν → Request → Option Reply) (x : SignedRecord)
    (held : (net v).store.get key now = some x) (accepted : ∀ u, accept prim (net u).store now key x = .ok ()) :
    Settled prim now net key budget v (((net v).handleLookup prim debug now ask key recurse).map Prod.fst) := by
  have here : Holds now net key v := by simp [Holds, held]
  refine ⟨some x, x.record.successor.bind (fun next => (net v).store.get next now), ?_, ?_, ?_⟩
  · rw [Node.handle_lookup_hit prim debug now (net v) ask key recurse x held]
    rfl
  · intro y same
    cases same
    exact accepted
  · exact ⟨fun _ => ⟨v, [], .nil v, Nat.zero_le _, here⟩, fun _ => rfl⟩

theorem settled_nowhere (budget : Nat) (v : ν) (recurse : UInt8) (ask : PeerLink ν → Request → Option Reply)
    (missing : (net v).store.get key now = none) (last : recurse = 0 ∨ (net v).upstream.links.length = 0)
    (far : ¬ Within (neighbours net) (Holds now net key) budget v) :
    Settled prim now net key budget v (((net v).handleLookup prim debug now ask key recurse).map Prod.fst) := by
  refine ⟨none, none, ?_, by simp, by simpa using far⟩
  rw [Node.handle_lookup_stop prim debug now (net v) ask key recurse missing last]
  rfl

theorem serve_settled (off : ∀ v, (net v).upstream.cache = none)
    (accepted : ∀ u v x, (net u).store.get key now = some x → accept prim (net v).store now key x = .ok ())
    (budget forwards : Nat) (v : ν) (recurse : UInt8) (left : (min recurse maxRecurse).toNat = budget)
    (enough : budget ≤ forwards) : Settled prim now net key budget v (serve prim debug now net forwards v key recurse) := by
  induction budget generalizing forwards v recurse with
  | zero =>
      have spent : min recurse maxRecurse = 0 := UInt8.toNat_inj.mp left
      have stops : ∀ ask, Settled prim now net key 0 v (respond prim debug now (net v) ask key recurse) := by
        intro ask
        rw [respond_eq]
        cases held : (net v).store.get key now with
        | some x => exact settled_here prim debug now net key 0 v _ ask x held (fun u => accepted v u x held)
        | none =>
            refine settled_nowhere prim debug now net key 0 v _ ask held (.inl spent) ?_
            rw [within_zero]
            simp [Holds, held]
      cases forwards with
      | zero => exact stops _
      | succ deeper => exact stops _
  | succ budget ih =>
      obtain ⟨deeper, rfl⟩ : ∃ deeper, forwards = deeper + 1 := ⟨forwards - 1, by omega⟩
      rw [serve, respond_eq]
      cases held : (net v).store.get key now with
      | some x => exact settled_here prim debug now net key _ v _ _ x held (fun u => accepted v u x held)
      | none =>
          by_cases linked : (net v).upstream.links.length = 0
          · refine settled_nowhere prim debug now net key _ v _ _ held (.inr linked) ?_
            rw [within_succ, neighbours, List.length_eq_zero_iff.mp linked]
            simp [Holds, held]
          · have hops : min recurse maxRecurse ≠ 0 := by
              intro spent
              rw [spent] at left
              cases left
            refine lookup_settled prim debug now net key (serve prim debug now net deeper) budget v _ (off v) held hops linked ?_
            intro link _
            exact ih deeper link.server _ (budget_pred recurse budget left) (by omega)

-- Deeper nesting than the budget allows is never used.
theorem serve_deeper (depth : Nat) (v : ν) (recurse : UInt8) (enough : (min recurse maxRecurse).toNat ≤ depth) :
    serve prim debug now net depth v key recurse = serve prim debug now net (depth + 1) v key recurse := by
  induction depth generalizing v recurse with
  | zero =>
      rw [serve, serve, respond_eq, respond_eq]
      refine congrArg (Option.map Prod.fst) (Node.handle_lookup_congr prim debug now (net v) _ _ key _ ?_)
      intro hops
      exact False.elim (hops (UInt8.toNat_inj.mp (Nat.le_zero.mp enough)))
  | succ depth ih =>
      rw [serve, serve, respond_eq, respond_eq]
      refine congrArg (Option.map Prod.fst) (Node.handle_lookup_congr prim debug now (net v) _ _ key _ ?_)
      intro hops link
      obtain ⟨budget, left⟩ := Nat.exists_eq_succ_of_ne_zero (fun zero => hops (UInt8.toNat_inj.mp zero))
      have less := budget_pred recurse budget left
      rw [forward, forward, ih link.server _ (by omega)]

theorem hop_budget_decides_lookup (off : ∀ v, (net v).upstream.cache = none)
    (accepted : ∀ u v x, (net u).store.get key now = some x → accept prim (net v).store now key x = .ok ())
    (s : ν) (recurse : UInt8) (forwards : Nat) (enough : min recurse.toNat maxRecurse.toNat ≤ forwards) :
    ∃ record successor, serve prim debug now net forwards s key recurse = some (.answer record successor) ∧
      (record.isSome = true ↔ ∃ t links, Walk (neighbours net) s links t ∧
        links.length ≤ min recurse.toNat maxRecurse.toNat ∧ ((net t).store.get key now).isSome = true) := by
  obtain ⟨record, successor, answer, _, near⟩ := serve_settled prim debug now net key off accepted _ forwards s recurse
    (budget_eq recurse) enough
  exact ⟨record, successor, answer, near⟩

end Network

section Sample

open Sample

inductive Tier where
  | leaf
  | mid
  | root
deriving DecidableEq

-- A leaf that asks a middle server that asks a root.
def chain (root : Store) (cache : Option Cache) : Tier → Node Tier
  | .leaf => ⟨Store.new, 0, true, [⟨"sqc://mid", .mid⟩], cache⟩
  | .mid => ⟨Store.new, 0, true, [⟨"sqc://root", .root⟩], none⟩
  | .root => ⟨root, 0, true, [], none⟩

theorem chain_accepts (root : Store) (cache : Option Cache) (held : root.get node 1000 = some publish)
    (own : accept ed25519 root 1000 node publish = .ok ()) (u v : Tier) (x : SignedRecord)
    (found : (chain root cache u).store.get node 1000 = some x) :
    accept ed25519 (chain root cache v).store 1000 node x = .ok () := by
  cases u with
  | leaf => cases found
  | mid => cases found
  | root =>
      have same : root.get node 1000 = some x := found
      rw [held, Option.some.injEq] at same
      subst same
      have unbound : accept ed25519 Store.new 1000 node publish = .ok () := by decide +kernel
      cases v with
      | leaf => exact unbound
      | mid => exact unbound
      | root => exact own

theorem hop_budget_decides_chain :
    ∃ root, ∃ record successor,
      serve ed25519 (fun _ => "") 1000 (chain root none) 2 .leaf node 2 = some (.answer record successor) ∧
        record.isSome = true := by
  obtain ⟨root, held, own⟩ : ∃ root : Store, root.get node 1000 = some publish ∧
      accept ed25519 root 1000 node publish = .ok () :=
    ⟨(Store.new.put ed25519 publish 1000).2, by decide +kernel, by decide +kernel⟩
  have off : ∀ v, (chain root none v).upstream.cache = none := by
    intro v
    cases v with
    | leaf => rfl
    | mid => rfl
    | root => rfl
  obtain ⟨record, successor, answer, near⟩ := hop_budget_decides_lookup ed25519 (fun _ => "") 1000 (chain root none) node off
    (chain_accepts root none held own) .leaf 2 2 (by decide)
  have holder : ((chain root none .root).store.get node 1000).isSome = true := congrArg Option.isSome held
  exact ⟨root, record, successor, answer, near.mpr ⟨.root, [(.leaf, 0), (.mid, 0)],
    .cons _ Tier.mid _ 0 _ rfl (.cons _ Tier.root _ 0 _ rfl (.nil _)), by decide, holder⟩⟩

end Sample

end Sqns.Upstream
