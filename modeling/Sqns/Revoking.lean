import Sqns.Publishing

set_option autoImplicit false

namespace Sqns

open Store

-- One request of the command and what goes on around it: the sweeps the server
-- makes before it arrives, the clocks on both sides, and whether it gets through.
structure Visit where
  sweeps : List Nat
  served : Nat
  asked : Nat
  answered : Nat
  lost : Option Error

namespace Visit

variable (prim : Primitives) (site : Server)

def arrive (visit : Visit) (s : Store) : Store := visit.sweeps.foldl (fun s now => (s.purgeExpired now).2) s

-- Neither request goes upstream or reads the uptime.
def handled (visit : Visit) (s : Store) (request : Request) : Handled :=
  { site with store := s }.handle prim (fun _ _ => .ok none) visit.served 0 request

def exchange (visit : Visit) (s : Store) : Exchange :=
  { asked := visit.asked
    answered := visit.answered
    checked := visit.answered
    reply := fun _ request =>
      match visit.lost with
      | some e => .error e
      | none => .ok (visit.handled prim site s request).response }

end Visit

def retirementDelegation (identity : SigningKey) (serviceKey : PubKey) (now : Nat) : Delegation :=
  Delegation.issue identity serviceKey (UInt64.ofNat (now + defaultDelegationLifetime))

section Command

variable (prim : Primitives) (debug : Response → String) (site : Server) (identity : SigningKey) (reason : String)
  (visits : Nat → Visit)

def signRevocation (target : PubKey) (now : Nat) : Except Error SignedRecord :=
  (Record.revoked target (retirementDelegation identity target now) (UInt64.ofNat now) reason (UInt64.ofNat now)).sign prim identity

-- The loop of `revoke`. A command that fails says nothing about the store it
-- leaves, so there the result is the error alone.
def revokeEach : Nat → Resolver → List PubKey → Store → Except Error Store
  | _, _, [], s => pure s
  | n, r, target :: rest, s => do
      let visit := visits n
      let arrived := visit.arrive s
      let record ← signRevocation prim identity reason target visit.asked
      let published := r.publish prim debug record (visit.exchange prim site arrived)
      let _ ← published.1
      revokeEach (n + 1) published.2 rest (visit.handled prim site arrived (.publish record)).store

-- `revoke --all`, confirmed. The first visit is the listing.
def revokeAll (r : Resolver) (s : Store) : Except Error Store := do
  let visit := visits 0
  let arrived := visit.arrive s
  let listed ← r.lookupIdentity prim debug identity.publicKey (visit.exchange prim site arrived)
  let targets := (listed.filter (fun record => !record.record.isTerminal)).map SignedRecord.key
  revokeEach prim debug site identity reason visits 1 r targets arrived

end Command

def Retired (s : Store) (k : PubKey) : Prop := ∃ r, s.records.lookup k = some r ∧ r.record.isTerminal = true

section Store

variable (prim : Primitives) (s : Store) (k : PubKey)

theorem purge_retired_iff (now : Nat) : Retired (s.purgeExpired now).2 k ↔ Retired s k := by
  simp only [Retired, purge_records_lookup, Option.filter_eq_some_iff]
  apply Iff.intro
  · intro retired
    obtain ⟨r, ⟨held, _⟩, terminal⟩ := retired
    exact ⟨r, held, terminal⟩
  · intro retired
    obtain ⟨r, held, terminal⟩ := retired
    exact ⟨r, ⟨held, by simp [Record.terminal_not_expired _ now terminal]⟩, terminal⟩

theorem accept_retired_iff (record : SignedRecord) (terminal : record.record.isTerminal = true) :
    Retired (s.accept record) k ↔ k = record.key ∨ Retired s k := by
  simp only [Retired, accept_records_lookup]
  by_cases own : k = record.key
  · simp [own, terminal]
  · simp [own]

theorem retired_refuses (record : SignedRecord) (now : Nat) (retired : Retired s record.key) :
    ∃ e, s.put prim record now = (.error e, s) := by
  obtain ⟨r, held, terminal⟩ := retired
  rcases put_cases prim s record now with refused | ⟨_, old, found, live, _⟩ | ⟨accepted, _⟩
  · exact refused
  · rw [held, Option.some.injEq] at found
    rw [found, live] at terminal
    cases terminal
  · have newer := ((Record.supersedes_iff _ _).mp (accepted.newer r held)).1
    rw [terminal] at newer
    cases newer

theorem apply_keeps_retired (op : Op) (retired : Retired s k) : Retired (s.apply prim op) k := by
  cases op with
  | purge now => exact (purge_retired_iff s k now).mpr retired
  | put record now =>
      obtain ⟨r, held, terminal⟩ := retired
      by_cases own : record.key = k
      · obtain ⟨e, refused⟩ := retired_refuses prim s record now ⟨r, own ▸ held, terminal⟩
        rw [apply, refused]
        exact ⟨r, held, terminal⟩
      · exact ⟨r, by rw [apply, (put_other_key prim s record now k (Ne.symm own)).1, held], terminal⟩

theorem retired_for_good (later : List Op) (record : SignedRecord) (now : Nat) (retired : Retired s record.key) :
    ∃ e, ((later.foldl (apply prim) s).put prim record now).1 = .error e := by
  have kept := fold_invariant prim (fun t => Retired t record.key) (fun t op => apply_keeps_retired prim t record.key op) later s retired
  obtain ⟨e, refused⟩ := retired_refuses prim _ record now kept
  exact ⟨e, by rw [refused]⟩

end Store

namespace Visit

variable (prim : Primitives) (visit : Visit) (s : Store)

theorem arrive_consistent (consistent : Consistent prim s) : Consistent prim (visit.arrive s) := by
  unfold arrive
  induction visit.sweeps generalizing s with
  | nil => exact consistent
  | cons now rest ih => exact ih _ (purge_consistent prim s now consistent)

theorem arrive_bindings : (visit.arrive s).bindings = s.bindings := by
  unfold arrive
  induction visit.sweeps generalizing s with
  | nil => rfl
  | cons now rest ih => exact ih _

theorem arrive_retired_iff (k : PubKey) : Retired (visit.arrive s) k ↔ Retired s k := by
  unfold arrive
  induction visit.sweeps generalizing s with
  | nil => exact Iff.rfl
  | cons now rest ih => exact (ih _).trans (purge_retired_iff s k now)

end Visit

section Single

variable (prim : Primitives) (debug : Response → String) (site : Server) (address : String) (visit : Visit) (s : Store)

theorem publish_outcome_ok (tally : Resolver.Tally) (serial : UInt64) (ok : Resolver.publishOutcome tally = .ok serial) :
    tally.accepted = some serial := by
  unfold Resolver.publishOutcome at ok
  cases accepted : tally.accepted with
  | some first =>
      rw [accepted] at ok
      cases ok
      rfl
  | none =>
      rw [accepted] at ok
      dsimp only at ok
      split at ok
      · cases ok
      · cases ok

theorem count_accepted (tally : Resolver.Tally) (reply : Except Error Response) (serial : UInt64) (none : tally.accepted = none)
    (counted : (tally.count debug address reply).accepted = some serial) : ∃ expiresAt, reply = .ok (.published serial expiresAt) := by
  cases reply with
  | error e => simp [Resolver.Tally.count, none] at counted
  | ok response =>
      cases response with
      | published first expiresAt =>
          simp only [Resolver.Tally.count, Option.some.injEq] at counted
          exact ⟨expiresAt, by rw [counted]⟩
      | answer record successor => simp [Resolver.Tally.count, none] at counted
      | status info => simp [Resolver.Tally.count, none] at counted
      | records batch complete => simp [Resolver.Tally.count, none] at counted
      | error code message => simp [Resolver.Tally.count, none] at counted

theorem published_accepted (server : Server) (record : SignedRecord) (now : Nat) (serial expiresAt : UInt64)
    (reply : (server.handlePublish prim record now).response = .published serial expiresAt) :
    Accepted prim server.store record now := by
  unfold Server.handlePublish at reply
  rcases put_cases prim server.store record now with ⟨e, refused⟩ | ⟨stale, _⟩ | ⟨accepted, _⟩
  · simp [refused] at reply
  · simp [stale] at reply
  · exact accepted

-- With one server, a publication that succeeds is one that server stored.
theorem publish_accepted (r : Resolver) (record : SignedRecord) (serial : UInt64) (single : r.config.servers = [address])
    (ok : (r.publish prim debug record (visit.exchange prim site s)).1 = .ok serial) :
    Accepted prim s record visit.served := by
  unfold Resolver.publish at ok
  cases checked : record.verifyAnswer prim record.key (visit.exchange prim site s).asked with
  | error e =>
      rw [checked] at ok
      cases ok
  | ok _ =>
      rw [checked, single] at ok
      obtain ⟨expiresAt, reply⟩ := count_accepted debug address _ _ serial rfl (publish_outcome_ok _ serial ok)
      simp only [Visit.exchange] at reply
      split at reply
      · cases reply
      · exact published_accepted prim { site with store := s } record visit.served serial expiresAt (Except.ok.inj reply)

theorem publish_config (r : Resolver) (record : SignedRecord) (exchange : Exchange) :
    (r.publish prim debug record exchange).2.config = r.config := by
  unfold Resolver.publish
  cases record.verifyAnswer prim record.key exchange.asked with
  | error e => rfl
  | ok _ => rfl

theorem listing_eq (r : Resolver) (identity : PubKey) (listed : List SignedRecord) (single : r.config.servers = [address])
    (ok : r.lookupIdentity prim debug identity (visit.exchange prim site s) = .ok listed) :
    listed = (s.issuedBy identity visit.served).take maxSyncBatch.toNat := by
  obtain ⟨response, tried, rest⟩ := (then_ok _ _ _).mp ok
  cases lost : visit.lost with
  | some e =>
      simp [Resolver.tryServers, single, Resolver.firstAnswer, Visit.exchange, lost, Except.mapError] at tried
  | none =>
      simp only [Resolver.tryServers, single, Resolver.firstAnswer, Visit.exchange, lost, Visit.handled, Server.handle,
        Except.mapError, Except.ok.injEq] at tried
      subst tried
      rw [Resolver.check_listed_ok prim identity _ _ listed rest, identity_records_eq]

end Single

section Signing

variable (prim : Primitives) (identity : SigningKey) (reason : String)

theorem revocation_fields (target : PubKey) (now : Nat) (record : SignedRecord)
    (ok : signRevocation prim identity reason target now = .ok record) :
    record.key = target ∧ record.identity = identity.publicKey ∧ record.record.isTerminal = true := by
  unfold signRevocation Record.sign at ok
  split at ok
  · cases ok
  · cases ok
    exact ⟨rfl, rfl, rfl⟩

theorem revoke_each_spec (debug : Response → String) (site : Server) (visits : Nat → Visit) (address : String) (n : Nat)
    (r : Resolver) (targets : List PubKey) (s s' : Store) (single : r.config.servers = [address])
    (bound : ∀ target ∈ targets, s.bindings.lookup target = some identity.publicKey)
    (finished : revokeEach prim debug site identity reason visits n r targets s = .ok s') :
    (∀ k, s'.bindings.lookup k = s.bindings.lookup k) ∧ ∀ k, Retired s' k ↔ k ∈ targets ∨ Retired s k := by
  induction targets generalizing n r s with
  | nil =>
      cases finished
      simp
  | cons target rest ih =>
      obtain ⟨record, signed, continued⟩ := (then_ok _ _ _).mp finished
      obtain ⟨serial, published, onward⟩ := (then_ok _ _ _).mp continued
      obtain ⟨rfl, named, terminal⟩ := revocation_fields prim identity reason target _ record signed
      have accepted := publish_accepted prim debug site address (visits n) _ r record serial single published
      have stored : ((visits n).handled prim site ((visits n).arrive s) (.publish record)).store =
          ((visits n).arrive s).accept record := by
        simp only [Visit.handled, Server.handle, Server.handlePublish, put_accepted prim _ record _ accepted]
      rw [stored] at onward
      have same : ∀ k, (((visits n).arrive s).accept record).bindings.lookup k = s.bindings.lookup k := by
        intro k
        rw [accept_bindings_lookup, Visit.arrive_bindings]
        split
        · rename_i own
          rw [own, bound record.key (by simp)]
          rfl
        · rfl
      obtain ⟨bindings, retired⟩ := ih (n + 1) _ _ (by rw [publish_config]; exact single)
        (fun other member => (same other).trans (bound other (by simp [member]))) onward
      refine ⟨fun k => (bindings k).trans (same k), ?_⟩
      intro k
      rw [retired, accept_retired_iff _ _ _ terminal, Visit.arrive_retired_iff, List.mem_cons]
      tauto

end Signing

section Listed

variable (prim : Primitives) (s : Store) (identity : PubKey) (now : Nat) (k : PubKey) (consistent : Consistent prim s)

-- The identity's keys that come before `k` in the listing.
def ahead : Finset PubKey := (s.keysOf identity).filter (fun j => j < k ∧ (s.get j now).isSome = true)

include consistent

theorem mem_issued_keys (j : PubKey) :
    j ∈ (s.issuedBy identity now).map SignedRecord.key ↔ j ∈ s.keysOf identity ∧ (s.get j now).isSome = true := by
  simp only [List.mem_map, mem_issued_by s identity now consistent.own _ consistent.toLinked, consistent.inverse,
    Option.isSome_iff_exists, Store.get, Option.filter_eq_some_iff, Bool.not_eq_true']
  apply Iff.intro
  · intro issued
    obtain ⟨r, ⟨held, bound, fresh⟩, rfl⟩ := issued
    exact ⟨bound, r, held, fresh⟩
  · intro issued
    obtain ⟨bound, r, held, fresh⟩ := issued
    have own := consistent.own j r held
    exact ⟨r, ⟨own ▸ held, own ▸ bound, fresh⟩, own⟩

theorem issued_by_rank :
    ((s.issuedBy identity now).filter (fun r => decide (r.key < k))).length = (ahead s identity now k).card := by
  have once : ((s.issuedBy identity now).map SignedRecord.key).Nodup :=
    (List.pairwise_map.mpr (issued_by_sorted s identity now consistent.own)).imp ne_of_lt
  have keys : (((s.issuedBy identity now).map SignedRecord.key).filter (fun j => decide (j < k))).toFinset = ahead s identity now k := by
    ext j
    rw [List.mem_toFinset, List.mem_filter, mem_issued_keys prim s identity now consistent, ahead, Finset.mem_filter]
    simp only [decide_eq_true_eq]
    tauto
  rw [← keys, List.toFinset_card_of_nodup (once.filter _), List.filter_map, List.length_map]
  rfl

theorem listed_iff (limit : Nat) (bound : s.bindings.lookup k = some identity) :
    (∃ r ∈ (s.issuedBy identity now).take limit, r.key = k) ↔
      (s.get k now).isSome = true ∧ (ahead s identity now k).card < limit := by
  have sorted := issued_by_sorted s identity now consistent.own
  have rank : ∀ r ∈ s.issuedBy identity now, r.key = k →
      (r ∈ (s.issuedBy identity now).take limit ↔ (ahead s identity now k).card < limit) := by
    intro r member own
    rw [← issued_by_rank prim s identity now k consistent, ← own]
    exact @Paging.mem_take_iff SignedRecord (fun a b => a.key < b.key) _ (fun a b less more => lt_asymm less more) _ limit r
      sorted member
  apply Iff.intro
  · intro listed
    obtain ⟨r, taken, own⟩ := listed
    have member := List.mem_of_mem_take taken
    refine ⟨?_, (rank r member own).mp taken⟩
    exact ((mem_issued_keys prim s identity now consistent k).mp (own ▸ List.mem_map_of_mem member)).2
  · intro within
    obtain ⟨held, few⟩ := within
    obtain ⟨r, member, own⟩ := List.mem_map.mp ((mem_issued_keys prim s identity now consistent k).mpr
      ⟨(consistent.inverse k identity).mpr bound, held⟩)
    exact ⟨r, (rank r member own).mpr few, own⟩

end Listed

theorem revoke_all_retires_iff (prim : Primitives) (debug : Response → String) (site : Server) (identity : SigningKey)
    (reason : String) (visits : Nat → Visit) (address : String) (r : Resolver) (file : Option Bytes) (openedAt : Nat)
    (past : List Op) (s' : Store) (single : r.config.servers = [address])
    (finished : revokeAll prim debug site identity reason visits r (past.foldl (apply prim) (openFrom prim file openedAt)) = .ok s') :
    let listed := (visits 0).arrive (past.foldl (apply prim) (openFrom prim file openedAt))
    (∀ k, s'.bindings.lookup k = some identity.publicKey →
      (∃ held, s'.records.lookup k = some held ∧ held.record.isTerminal = true) ∧
        ∀ (later : List Op) (x : SignedRecord) (now : Nat), x.key = k → ∃ e, ((later.foldl (apply prim) s').put prim x now).1 = .error e) ↔
    ∀ k, listed.bindings.lookup k = some identity.publicKey →
      (∃ held, listed.records.lookup k = some held ∧ held.record.isTerminal = true) ∨
        (listed.get k (visits 0).served).isSome = true ∧
          (ahead listed identity.publicKey (visits 0).served k).card < maxSyncBatch.toNat := by
  intro listed
  have consistent : Consistent prim listed := Visit.arrive_consistent prim (visits 0) _
    (fold_invariant prim (Consistent prim) (apply_consistent prim) past _ (open_consistent prim file openedAt))
  obtain ⟨records, shown, continued⟩ := (then_ok _ _ _).mp finished
  have answer := listing_eq prim debug site address (visits 0) listed r identity.publicKey records single shown
  have kept := fun x => mem_issued_by listed identity.publicKey (visits 0).served consistent.own x consistent.toLinked
  obtain ⟨bindings, retired⟩ := revoke_each_spec prim identity reason debug site visits address 1 r _ listed s' single (by
    intro target member
    obtain ⟨x, inside, rfl⟩ := List.mem_map.mp member
    rw [answer] at inside
    exact ((kept x).mp (List.mem_of_mem_take (List.mem_of_mem_filter inside))).2.1) continued
  have each : ∀ k, listed.bindings.lookup k = some identity.publicKey → (Retired s' k ↔ Retired listed k ∨
      (listed.get k (visits 0).served).isSome = true ∧
        (ahead listed identity.publicKey (visits 0).served k).card < maxSyncBatch.toNat) := by
    intro k bound
    rw [retired, ← listed_iff prim listed identity.publicKey (visits 0).served k consistent _ bound, answer]
    apply Iff.intro
    · intro reached
      rcases reached with target | before
      · obtain ⟨x, inside, own⟩ := List.mem_map.mp target
        exact .inr ⟨x, List.mem_of_mem_filter inside, own⟩
      · exact .inl before
    · intro reached
      rcases reached with before | ⟨x, taken, own⟩
      · exact .inr before
      · cases terminal : x.record.isTerminal with
        | true => exact .inr ⟨x, own ▸ ((kept x).mp (List.mem_of_mem_take taken)).1, terminal⟩
        | false => exact .inl (List.mem_map.mpr ⟨x, List.mem_filter.mpr ⟨taken, by simp [terminal]⟩, own⟩)
  apply Iff.intro
  · intro dead k bound
    exact (each k bound).mp (dead k ((bindings k).trans bound)).1
  · intro reached k bound
    have gone := (each k ((bindings k).symm.trans bound)).mpr (reached k ((bindings k).symm.trans bound))
    refine ⟨gone, ?_⟩
    intro later x now own
    subst own
    exact retired_for_good prim s' later x now gone

section Sample

open Sample

-- What `revoke` signs for `node` at 1000 with the identity's key.
def minted : Delegation := ⟨alice, 7777000,
  signature 0x754d21897962b7a0c18f9650a909e723a6ddccd22ee75c4667b152c80f49cf1e
    0xa3bcb9da1530d19b2b4025946763043ef8d66eb10154b7749adf25d204296805⟩

def retirement : SignedRecord := ⟨.revoked node minted 1000 "stolen" 1000,
  signature 0xc355f7337a97dc887ff675f2409ddf5296a9eade9c9100dd3f305fab951c4a41
    0xa829f3e8d9914219b847dd20ae9e531805d004df948b6abec5640c3aabaffb08⟩

def holder : SigningKey := ⟨alice, fun message =>
  if message = Delegation.signedMessage alice node 7777000 then minted.signature else retirement.signature⟩

def signedHere : Primitives := attesting [publish, withdrawal, retirement]

def client : Resolver := ⟨⟨["sqc://ns"], true, defaultRecurse⟩, Cache.new, ∅⟩

def alone : Server := ⟨Store.new, 0, 0, 0, true⟩

def promptly (now : Nat) : Nat → Visit := fun _ => ⟨[], now, now, now, none⟩

def revokedAt (now : Nat) (past : List Op) : Except Error Store :=
  revokeAll signedHere (fun _ => "") alone holder "stolen" (promptly now) client
    (past.foldl (apply signedHere) (openFrom signedHere none 0))

theorem sole_binding (s : Store) (k j i : PubKey) (only : s.bindings.keys = {j}) (bound : s.bindings.lookup k = some i) : k = j := by
  rw [← Finset.mem_singleton, ← only, Finmap.mem_keys]
  exact Finmap.mem_of_lookup_eq_some bound

theorem revoke_all_retires_node :
    ∃ s', revokedAt 1000 [.put publish 1000] = .ok s' ∧
      ∃ held, s'.records.lookup node = some held ∧ held.record.isTerminal = true := by
  have bound : (revokedAt 1000 [.put publish 1000]).map (fun s => s.bindings.lookup node) = .ok (some alice) := by decide +kernel
  cases finished : revokedAt 1000 [.put publish 1000] with
  | error e =>
      rw [finished] at bound
      cases bound
  | ok s' =>
      rw [finished] at bound
      refine ⟨s', rfl, ?_⟩
      refine ((revoke_all_retires_iff signedHere (fun _ => "") alone holder "stolen" (promptly 1000) "sqc://ns" client none 0
        [.put publish 1000] s' rfl finished).mpr ?_ node (Except.ok.inj bound)).1
      intro k owned
      have only : ((promptly 1000 0).arrive ([Op.put publish 1000].foldl (apply signedHere) (openFrom signedHere none 0))).bindings.keys
          = {node} := by decide +kernel
      have same := sole_binding _ k node _ only owned
      subst same
      exact .inr (by decide +kernel)

-- The one record under the identity has lapsed and is swept. The command lists
-- nothing, reports success, and the key is still free to be published.
theorem revoke_all_misses_lapsed :
    ∃ s', revokedAt 1030 [.put withdrawal 1000, .purge 1030] = .ok s' ∧ s'.bindings.lookup node = some alice ∧
      s'.records.lookup node = none ∧ (s'.put signedHere publish 1030).1 = .ok .stored := by
  have facts : (revokedAt 1030 [.put withdrawal 1000, .purge 1030]).map (fun s => (s.bindings.lookup node,
      s.records.lookup node, (s.put signedHere publish 1030).1)) = .ok (some alice, none, .ok .stored) := by decide +kernel
  cases finished : revokedAt 1030 [.put withdrawal 1000, .purge 1030] with
  | error e =>
      rw [finished] at facts
      cases facts
  | ok s' =>
      rw [finished] at facts
      simp only [Except.map, Except.ok.injEq, Prod.mk.injEq] at facts
      exact ⟨s', rfl, facts⟩

end Sample

end Sqns
