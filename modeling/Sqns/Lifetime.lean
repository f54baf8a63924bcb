import Mathlib.Data.Nat.Digits.Defs
import Sqns.Lib.Trace
import Sqns.Snapshot

set_option autoImplicit false

namespace Sqns

open ByteReader Store Trace

variable (prim : Primitives)

-- A server over its whole life: the clock and the store behind it. The clock is
-- part of the state, so that no step can move it back.
structure World where
  now : Nat
  store : Store

-- Every caller of `put` hands it a record it has decoded.
structure WireRecord where
  signed : SignedRecord
  decoded : ∃ input, SignedRecord.decode prim input = .ok signed

inductive Event where
  | tick (later : Nat)
  | put (record : WireRecord prim) (result : Except Error PutOutcome)
  | purge
  | reopen

inductive Step : World → Event prim → World → Prop where
  | tick (w : World) (later : Nat) (forward : w.now ≤ later) : Step w (.tick later) { w with now := later }
  | put (w : World) (record : WireRecord prim) :
      Step w (.put record (w.store.put prim record.signed w.now).1) { w with store := (w.store.put prim record.signed w.now).2 }
  | purge (w : World) : Step w .purge { w with store := (w.store.purgeExpired w.now).2 }
  | reopen (w : World) (items : List (PubKey × SignedRecord)) (order : Finmap.Iterates items w.store.records)
      (recordCount : w.store.records.keys.card < 2 ^ 32) (bindingCount : w.store.bindings.keys.card < 2 ^ 32) :
      Step w .reopen { w with store := w.store.reopen prim items w.now }

structure Sound (w : World) : Prop where
  consistent : Consistent prim w.store
  wire : ∀ k r, w.store.records.lookup k = some r → r.Encodable
  notFuture : ∀ k r, w.store.records.lookup k = some r → r.record.issuedAt.toNat ≤ w.now + maxClockSkew

theorem fresh_sound (now : Nat) : Sound prim ⟨now, Store.new⟩ := by
  refine ⟨new_consistent prim, ?_, ?_⟩
  all_goals simp [Store.new]

-- When a sweep or a restart gives up a held record.
def drops (e : Event prim) (r : SignedRecord) (now : Nat) : Bool :=
  match e with
  | .purge => r.record.isExpired now
  | .reopen => !survives r now
  | .tick _ => false
  | .put _ _ => false

theorem terminal_not_dropped (e : Event prim) (r : SignedRecord) (now : Nat) (terminal : r.record.isTerminal = true) :
    drops prim e r now = false := by
  cases e with
  | tick later => rfl
  | put record result => rfl
  | purge => exact Record.terminal_not_expired _ now terminal
  | reopen => simp [drops, survives, terminal]

inductive Change (k : PubKey) (w w' : World) : Event prim → Prop where
  | kept (e : Event prim) (same : w'.store.records.lookup k = w.store.records.lookup k)
      (refused : ∀ x result, e = .put x result → x.signed.key = k → result ≠ .ok .stored ∧ w'.store = w.store) :
      Change k w w' e
  | stored (x : WireRecord prim) (own : x.signed.key = k) (accepted : Accepted prim w.store x.signed w.now)
      (now : w'.store.records.lookup k = some x.signed) : Change k w w' (.put x (.ok .stored))
  | dropped (e : Event prim) (r : SignedRecord) (held : w.store.records.lookup k = some r)
      (gone : w'.store.records.lookup k = none) (lapsed : drops prim e r w.now = true) : Change k w w' e

theorem filtered_change (k : PubKey) (w w' : World) (e : Event prim) (noPut : ∀ x result, e ≠ .put x result)
    (filtered : w'.store.records.lookup k = (w.store.records.lookup k).filter (fun r => !drops prim e r w.now)) :
    Change prim k w w' e := by
  have refused : ∀ x result, e = .put x result → x.signed.key = k → result ≠ .ok .stored ∧ w'.store = w.store :=
    fun x result same => False.elim (noPut x result same)
  cases held : w.store.records.lookup k with
  | none => exact .kept e (by rw [filtered, held]; rfl) refused
  | some r =>
      rw [held, Option.filter_some] at filtered
      cases lapsed : drops prim e r w.now with
      | true => exact .dropped e r held (by simpa [lapsed] using filtered) lapsed
      | false => exact .kept e (by simpa [lapsed, held] using filtered) refused

theorem step_change (k : PubKey) (w w' : World) (e : Event prim) (sound : Sound prim w) (step : Step prim w e w') :
    Change prim k w w' e := by
  cases step with
  | tick later forward => exact .kept _ rfl (fun _ _ same => by cases same)
  | put record =>
      rcases put_cases prim w.store record.signed w.now with ⟨error, refused⟩ | ⟨stale, _⟩ | ⟨accepted, stored⟩
      · rw [refused]
        refine .kept _ rfl ?_
        intro x result same _
        cases same
        exact ⟨by simp, rfl⟩
      · rw [stale]
        refine .kept _ rfl ?_
        intro x result same _
        cases same
        exact ⟨by simp, rfl⟩
      · rw [stored]
        by_cases own : record.signed.key = k
        · exact .stored record own accepted (by simp [own])
        · refine .kept _ ?_ ?_
          · have other : k ≠ record.signed.key := fun same => own same.symm
            simp [other]
          · intro x result same here
            cases same
            exact False.elim (own here)
  | purge => exact filtered_change prim k w _ _ (by simp) (purge_records_lookup w.store k w.now)
  | reopen items order recordCount bindingCount =>
      obtain ⟨_, _, records⟩ := reopen_spec prim w.store w.now items sound.consistent order sound.wire sound.notFuture
        recordCount bindingCount
      exact filtered_change prim k w _ _ (by simp) (by simpa [drops] using records k)

theorem step_clock (w w' : World) (e : Event prim) (step : Step prim w e w') : w.now ≤ w'.now := by
  cases step with
  | tick later forward => exact forward
  | put record => exact Nat.le_refl _
  | purge => exact Nat.le_refl _
  | reopen => exact Nat.le_refl _

theorem step_sound (w w' : World) (e : Event prim) (step : Step prim w e w') (sound : Sound prim w) : Sound prim w' := by
  have consistent : Consistent prim w'.store := by
    cases step with
    | tick later forward => exact sound.consistent
    | put record => exact put_consistent prim w.store record.signed w.now sound.consistent
    | purge => exact purge_consistent prim w.store w.now sound.consistent
    | reopen items => exact open_consistent prim (some (encodeSnapshot (items.map Prod.snd) w.store.bindings)) w.now
  have clock := step_clock prim w w' e step
  have held : ∀ k r, w'.store.records.lookup k = some r → r.Encodable ∧ r.record.issuedAt.toNat ≤ w'.now + maxClockSkew := by
    intro k r found
    cases step_change prim k w w' e sound step with
    | kept _ same _ =>
        rw [same] at found
        have early := sound.notFuture k r found
        exact ⟨sound.wire k r found, by omega⟩
    | stored x _ accepted now =>
        rw [now, Option.some.injEq] at found
        subst found
        have early := accepted.admitted.notFuture
        exact ⟨(wire_iff_encodable prim x.signed).mp x.decoded, by omega⟩
    | dropped _ _ _ gone _ =>
        rw [gone] at found
        cases found
  exact ⟨consistent, fun k r found => (held k r found).1, fun k r found => (held k r found).2⟩

theorem step_keeps_binding (w w' : World) (e : Event prim) (k i : PubKey) (sound : Sound prim w)
    (step : Step prim w e w') (bound : w.store.bindings.lookup k = some i) : w'.store.bindings.lookup k = some i := by
  cases step with
  | tick later forward => exact bound
  | put record => exact put_keeps_binding prim w.store record.signed w.now k i bound
  | purge => exact bound
  | reopen items order recordCount bindingCount =>
      obtain ⟨bindings, _, _⟩ := reopen_spec prim w.store w.now items sound.consistent order sound.wire sound.notFuture
        recordCount bindingCount
      exact bindings ▸ bound

theorem run_sound (w w' : World) (run : List (Transition World (Event prim))) (whole : Run (Step prim) w run w')
    (sound : Sound prim w) : Sound prim w' :=
  run_invariant (Sound prim) (fun _ => True) (fun u e v step _ => step_sound prim u v e step) (fun _ _ => trivial)
    whole sound

theorem reached_sound (t₀ : Nat) (w : World) (past : List (Transition World (Event prim)))
    (reached : Run (Step prim) ⟨t₀, Store.new⟩ past w) : Sound prim w :=
  run_sound prim _ w past reached (fresh_sound prim t₀)

theorem step_keeps_retired (k : PubKey) (r : SignedRecord) (w w' : World) (e : Event prim) (sound : Sound prim w)
    (step : Step prim w e w') (held : w.store.records.lookup k = some r) (terminal : r.record.isTerminal = true) :
    w'.store.records.lookup k = some r := by
  cases step_change prim k w w' e sound step with
  | kept _ same _ => exact same.trans held
  | stored x own accepted now =>
      have newer := accepted.newer r (own ▸ held)
      rw [Record.supersedes_iff, terminal] at newer
      exact False.elim (Bool.noConfusion newer.1)
  | dropped _ r' held' _ lapsed =>
      rw [held, Option.some.injEq] at held'
      subst held'
      rw [terminal_not_dropped prim e r w.now terminal] at lapsed
      cases lapsed

theorem step_refuses_retired (k : PubKey) (r : SignedRecord) (w w' : World) (x : WireRecord prim)
    (result : Except Error PutOutcome) (step : Step prim w (.put x result) w')
    (held : w.store.records.lookup k = some r) (terminal : r.record.isTerminal = true) (own : x.signed.key = k) :
    (∃ e, result = .error e) ∧ w'.store = w.store := by
  cases step with
  | put =>
      subst own
      rcases put_cases prim w.store x.signed w.now with ⟨e, refused⟩ | ⟨_, old, found, live, _⟩ | ⟨accepted, _⟩
      · rw [refused]
        exact ⟨⟨e, rfl⟩, rfl⟩
      · rw [held, Option.some.injEq] at found
        subst found
        rw [terminal] at live
        cases live
      · have newer := accepted.newer r held
        rw [Record.supersedes_iff, terminal] at newer
        exact False.elim (Bool.noConfusion newer.1)

theorem retirement_is_permanent (t₀ : Nat) (past further : List (Transition World (Event prim))) (w w' : World)
    (k : PubKey) (r : SignedRecord) (reached : Run (Step prim) ⟨t₀, Store.new⟩ past w)
    (held : w.store.records.lookup k = some r) (terminal : r.record.isTerminal = true)
    (continued : Run (Step prim) w further w') :
    w'.store.records.lookup k = some r ∧ w'.store.get k w'.now = some r ∧
      ∀ move ∈ further, ∀ x result, move.label = .put x result → x.signed.key = k →
        (∃ e, result = .error e) ∧ move.post.store = move.pre.store := by
  let retired : World → Prop := fun v => Sound prim v ∧ v.store.records.lookup k = some r
  have preserved : ∀ u e v, Step prim u e v → True → retired u → retired v := fun u e v step _ inv =>
    ⟨step_sound prim u v e step inv.1, step_keeps_retired prim k r u v e inv.1 step inv.2 terminal⟩
  have start : retired w := ⟨reached_sound prim t₀ w past reached, held⟩
  have final := run_invariant retired (fun _ => True) preserved (fun _ _ => trivial) continued start
  refine ⟨final.2, ?_, ?_⟩
  · rw [Store.get, final.2, Option.filter_some, Record.terminal_not_expired _ _ terminal]
    rfl
  · intro move member x result label own
    obtain ⟨before, step, _⟩ := run_move_invariant retired (fun _ => True) preserved (fun _ _ => trivial) continued start
      move member
    rw [label] at step
    exact step_refuses_retired prim k r move.pre move.post x result step before.2 terminal own

namespace Sample

-- The Ed25519 keys of the seeds 0x01.. to 0x04.. and what they sign.
def key (value : Nat) : PubKey := ⟨⟨toBe 32 value, to_be_length 32 value⟩⟩
def alice : PubKey := key 0x8a88e3dd7409f195fd52db2d3cba5d72ca6709bf1d94121bf3748801b40f6f5c
def node : PubKey := key 0x8139770ea87d175f56a35466c34c7ecccb8d8a91b4ee37a25df60f5b8fc9b394
def mallory : PubKey := key 0xed4928c628d1c2c6eae90338905995612959273a5c63f93636c14614ac8737d1
def spare : PubKey := key 0xca93ac1705187071d67b83c7ff0efe8108e8ec4530575d7726879333dbdabe7c

def signature (r s : Nat) : Signature := ⟨toBe 32 r ++ toBe 32 s, by simp⟩

def fromAlice : Delegation := ⟨alice, neverExpires,
  signature 0x06d4b87c24d04662a4bf77e015beee5aae11c1b835a14b7737cbf87190ac3170
    0x031acca46a94a88861278e8535091a4446a076ce2ec3d81842ce0919053d0e01⟩

def fromMallory : Delegation := ⟨mallory, neverExpires,
  signature 0xfc520ccf8d13f0a3fb57bc07f8ecca4c49ac8b0237a51f0205b0c727ea62353f
    0x1de4d2d279c0de22924a2fc1fe333771ef412e9c37ae7a047b7cf7ddfabc7009⟩

def fromAliceSpare : Delegation := ⟨alice, neverExpires,
  signature 0x4eecbdf546fca441184f01a90c34e2b96de9bef2d4a738a5dfdeac2bc346a51a
    0x89409d6b3de84d95544560ef026575e1a68cfeb4660f1ed35668082c33f4e50e⟩

def endpoint : Endpoint := ⟨.v4 ⟨[127, 0, 0, 1], rfl⟩, 5300, 0, 1⟩

def publish : SignedRecord := ⟨.live node fromAlice 1 1000 [endpoint] 1000,
  signature 0x200bbb36a88bbb68eadd46ccafbbd8a999b07bb1bb7c6ca97c31ff57bde3780b
    0xd1a95d9a0b746645e955d3ca53fa124b978313302f3def6ad3b874ea658c2e0c⟩

def withdrawal : SignedRecord := ⟨.live node fromAlice 2 30 [] 1000,
  signature 0x1737f57e84a74d9d79af810eff82fd6aa35edbc58ef38899b2a014f89213ad2f
    0x4e671aa7990dfe975863b561051fbcbc6dec16769d48fb70fb732d1c5ae77f0d⟩

def revocation : SignedRecord := ⟨.revoked node fromAlice 3 "stolen" 1000,
  signature 0xa5cece77029e8c5408418b59b01c03f20e30488713a946d12a9bc73b92f967f0
    0x7206862cb6733cb9b0c9d75ef4cbdfa495a8dcc337b47eeebe81f6f98e48d102⟩

def hijack : SignedRecord := ⟨.live node fromMallory 9 1000 [endpoint] 1000,
  signature 0x06ac6023cf8f5ae1a1dc93cdf59d1616923faf386fc19ea00564c945651205af
    0x4b719d3bbcb77757266dee799131162a831d69d2a8572ef4af9c33048f269c02⟩

def stranger : SignedRecord := ⟨.revoked node fromMallory 9 "stolen" 1000,
  signature 0xb22f50f4de950a6780e6d3490f4c74e9df3132299760b89c1a1aae1e60d5109a
    0x30e87e0f6b6ebafb37ba6a1fc4a6a96376b12a3f826b43348a932b4594d14604⟩

def late : SignedRecord := ⟨.live spare fromAliceSpare 1 1000 [endpoint] 900,
  signature 0x86a391a8904fcac8e02f361b76e378c90dc677df7ec6d8a4ee1b710e2aea4f0c
    0x76f467f50a3e5fa6bb2b95e88c323da1149d64ea8416c7dc0233947e72922b0d⟩

def known : List SignedRecord := [publish, withdrawal, revocation, hijack, stranger, late]

def ed25519 : Primitives where
  fromBytes key := if key ∈ [alice, node, mallory, spare] then .ok () else .error "Cannot decompress Edwards point"
  verify key message signature := known.any (fun r =>
    let d := r.record.delegation
    decide ((key, message, signature) = (d.identity, Delegation.signedMessage d.identity r.key d.notAfter, d.signature)) ||
    decide ((key, message, signature) = (r.record.expectedSigner, signedMessage r.record.encode, r.signature)))
  toBase58 key := String.ofList ((Nat.digits 58 (ofBe key.bytes.toList)).reverse.map (fun digit =>
    "123456789ABCDEFGHJKLMNPQRSTUVWXYZabcdefghijkmnopqrstuvwxyz".toList.getD digit '1'))
  utf8Error _ := "invalid utf-8 sequence"

theorem known_encodable : ∀ r ∈ known, r.Encodable := by decide +kernel

def wire (r : SignedRecord) (member : r ∈ known) : WireRecord ed25519 :=
  ⟨r, (wire_iff_encodable ed25519 r).mpr (known_encodable r member)⟩

def received (w : World) (r : SignedRecord) : World := { w with store := (w.store.put ed25519 r w.now).2 }

def succession : SignedRecord := ⟨.superseded node fromAlice 4 spare "moved" 1000,
  signature 0xcd8c6f69568624bb036342912fe987243a60e59d1b63e505846d4b711adb9ece
    0x4762a093799aa88788049b511872a72dac9b170599fa8721ebde35149ceade09⟩

def briefly : Delegation := ⟨alice, 1500,
  signature 0xb772dc3309376233bc48404c43fcfcedc337e04910c77d7ffafa18dc4aecdf2b
    0xf45b492ba478efc84df82509a52bf8da31434da6d77fd6601206b1d53d399408⟩

-- A record that outlives the delegation it is published under.
def leased : SignedRecord := ⟨.live node briefly 1 1000 [endpoint] 1000,
  signature 0x428c0af36eaba04cfc235325493419098150f98d66c5148c9a567743aacb8fc2
    0x7c33fe800a8f34bea6ceb87f1dff82e3a4910a7e4bc55d6bf0d3bf56b36f8907⟩

def attesting (records : List SignedRecord) : Primitives where
  fromBytes := ed25519.fromBytes
  verify key message signature := records.any (fun r =>
    let d := r.record.delegation
    decide ((key, message, signature) = (d.identity, Delegation.signedMessage d.identity r.key d.notAfter, d.signature)) ||
    decide ((key, message, signature) = (r.record.expectedSigner, signedMessage r.record.encode, r.signature)))
  toBase58 := ed25519.toBase58
  utf8Error := ed25519.utf8Error

end Sample

open Sample

theorem retirement_is_permanent_revocation :
    let w := received ⟨1000, Store.new⟩ revocation
    let late : World := { w with now := 2000000 }
    let w' := received late publish
    w'.store.records.lookup node = some revocation ∧ w'.store.get node w'.now = some revocation ∧
      (∃ e, (late.store.put ed25519 publish late.now).1 = .error e) ∧ w'.store = late.store := by
  intro w late w'
  let revoked := wire revocation (by simp [known])
  let replayed := wire publish (by simp [known])
  have past : Run (Step ed25519) ⟨1000, Store.new⟩ _ w := .cons _ _ _ _ _ (.put _ revoked) (.nil _)
  have further : Run (Step ed25519) w [_, ⟨late, _, w'⟩] w' :=
    .cons _ late _ _ _ (.tick _ 2000000 (show 1000 ≤ 2000000 by decide)) (.cons late _ _ _ _ (.put late replayed) (.nil w'))
  have held : w.store.records.lookup node = some revocation := by decide +kernel
  obtain ⟨kept, found, refused⟩ := retirement_is_permanent ed25519 1000 _ _ w w' node revocation past held (by decide) further
  exact ⟨kept, found, refused _ (List.mem_cons_of_mem _ (List.mem_singleton_self _)) replayed _ rfl rfl⟩

-- The record held for `k` is `r` or was accepted over it.
def Ahead (k : PubKey) (r : SignedRecord) (w : World) : Prop :=
  ∃ h, w.store.records.lookup k = some h ∧ (h = r ∨ h.record.supersedes r.record = true)

theorem supersedes_ahead (x h r : SignedRecord) (wins : x.record.supersedes h.record = true)
    (ahead : h = r ∨ h.record.supersedes r.record = true) : x.record.supersedes r.record = true := by
  rcases ahead with same | newer
  · exact same ▸ wins
  · exact Record.supersedes_trans _ _ _ wins newer

theorem step_stays_ahead (k : PubKey) (r : SignedRecord) (u v : World) (e : Event prim) (sound : Sound prim u)
    (step : Step prim u e v)
    (alive : ∀ held, u.store.records.lookup k = some held → drops prim e held u.now = false)
    (ahead : Ahead k r u) : Ahead k r v := by
  obtain ⟨h, held, newer⟩ := ahead
  cases step_change prim k u v e sound step with
  | kept _ same _ => exact ⟨h, same.trans held, newer⟩
  | stored x here accepted now =>
      have wins := accepted.newer h (here ▸ held)
      exact ⟨x.signed, now, .inr (supersedes_ahead x.signed h r wins newer)⟩
  | dropped _ other held' _ lapsed =>
      rw [alive other held'] at lapsed
      cases lapsed

-- Two acceptances for one key, with anything in between. The order is only
-- remembered through the record that is held, so it is kept for as long as
-- no sweep or restart in between drops the record held at that moment.
theorem accepted_records_increase (t₀ : Nat) (past middle : List (Transition World (Event prim)))
    (first second : Transition World (Event prim)) (w : World) (r r' : WireRecord prim)
    (run : Run (Step prim) ⟨t₀, Store.new⟩ (past ++ first :: (middle ++ [second])) w)
    (storedFirst : first.label = .put r (.ok .stored)) (storedSecond : second.label = .put r' (.ok .stored))
    (sameKey : r'.signed.key = r.signed.key)
    (alive : ∀ sweep ∈ middle, ∀ held, sweep.pre.store.records.lookup r.signed.key = some held →
      drops prim sweep.label held sweep.pre.now = false) :
    r'.signed.record.supersedes r.signed.record = true := by
  obtain ⟨u, before, rest⟩ := run_append.mp run
  obtain ⟨rfl, stepFirst, rest⟩ := run_cons rest
  obtain ⟨v, between, last⟩ := run_append.mp rest
  obtain ⟨rfl, stepSecond, _⟩ := run_cons last
  have soundFirst := reached_sound prim t₀ _ past before
  have soundNext := step_sound prim _ _ _ stepFirst soundFirst
  rw [storedFirst] at stepFirst
  rw [storedSecond] at stepSecond
  have start : Ahead r.signed.key r.signed first.post := by
    cases step_change prim r.signed.key _ _ _ soundFirst stepFirst with
    | kept _ _ refused => exact False.elim ((refused r _ rfl rfl).1 rfl)
    | stored x own accepted now => exact ⟨r.signed, now, .inl rfl⟩
    | dropped _ _ _ _ lapsed => cases lapsed
  have kept : Sound prim second.pre ∧ Ahead r.signed.key r.signed second.pre := by
    refine run_invariant (fun x => Sound prim x ∧ Ahead r.signed.key r.signed x)
      (fun move => move ∈ middle) ?_ (fun _ member => member) between ⟨soundNext, start⟩
    intro x e y step member inv
    exact ⟨step_sound prim x y e step inv.1, step_stays_ahead prim _ _ x y e inv.1 step (alive _ member) inv.2⟩
  obtain ⟨soundLast, h, held, newer⟩ := kept
  cases step_change prim r'.signed.key _ _ _ soundLast stepSecond with
  | kept _ _ refused => exact False.elim ((refused r' _ rfl rfl).1 rfl)
  | stored x own accepted now =>
      have wins := accepted.newer h (sameKey ▸ held)
      exact supersedes_ahead r'.signed h r.signed wins newer
  | dropped _ _ _ _ lapsed => cases lapsed

theorem accepted_records_increase_withdrawal : withdrawal.record.supersedes publish.record = true := by
  let published := wire publish (by simp [known])
  let withdrawn := wire withdrawal (by simp [known])
  let w := received ⟨1000, Store.new⟩ publish
  let late : World := { w with now := 1010 }
  have run : Run (Step ed25519) ⟨1000, Store.new⟩ [_, _, _, _] _ :=
    .cons _ w _ _ _ (.put _ published) (.cons w late _ _ _ (.tick w 1010 (show 1000 ≤ 1010 by decide))
      (.cons late _ _ _ _ (.purge late) (.cons _ _ _ _ _ (.put _ withdrawn) (.nil _))))
  refine accepted_records_increase ed25519 1000 [] [_, _] _ _ _ published withdrawn run
    (congrArg (Event.put published) (by decide +kernel)) (congrArg (Event.put withdrawn) (by decide +kernel)) rfl ?_
  intro sweep inMiddle held inStore
  simp only [List.mem_cons, List.not_mem_nil, or_false] at inMiddle
  rcases inMiddle with rfl | rfl
  · rfl
  · have holds : late.store.records.lookup node = some publish := by decide +kernel
    have same : publish = held := Option.some.inj (holds.symm.trans inStore)
    rw [← same]
    decide +kernel

-- A withdrawal with a short lifetime runs out and is swept while the record it
-- replaced is still within its own: that record is accepted once more.
theorem swept_withdrawal_lets_older_record_back :
    ¬ ∀ (t₀ : Nat) (past middle : List (Transition World (Event ed25519))) (first second : Transition World (Event ed25519))
      (w : World) (r r' : WireRecord ed25519),
      Run (Step ed25519) ⟨t₀, Store.new⟩ (past ++ first :: (middle ++ [second])) w →
      first.label = .put r (.ok .stored) → second.label = .put r' (.ok .stored) → r'.signed.key = r.signed.key →
      r'.signed.record.supersedes r.signed.record = true := by
  intro claim
  let published := wire publish (by simp [known])
  let withdrawn := wire withdrawal (by simp [known])
  let w := received ⟨1000, Store.new⟩ publish
  have before : Run (Step ed25519) ⟨1000, Store.new⟩ [_] w := .cons _ _ _ _ _ (.put _ published) (.nil _)
  have replay : Run (Step ed25519) w (_ :: ([_, _] ++ [_])) _ :=
    .cons _ _ _ _ _ (.put _ withdrawn) (.cons _ _ _ _ _ (.tick _ 1030 (show 1000 ≤ 1030 by decide)) (.cons _ _ _ _ _ (.purge _)
      (.cons _ _ _ _ _ (.put _ published) (.nil _))))
  have newer := claim 1000 _ _ _ _ _ withdrawn published (run_append.mpr ⟨_, before, replay⟩)
    (congrArg (Event.put withdrawn) (by decide +kernel)) (congrArg (Event.put published) (by decide +kernel)) rfl
  exact absurd newer (by decide +kernel)

theorem accepted_retirement_signed (s : Store) (x : SignedRecord) (now : Nat) (i : PubKey)
    (accepted : Accepted prim s x now) (bound : s.bindings.lookup x.key = some i) (terminal : x.record.isTerminal = true) :
    prim.verify i (sigContext ++ x.record.encode) x.signature = true := by
  have signature := (SignedRecord.verify_signatures prim x accepted.admitted.verified).2
  rw [Record.terminal_signer _ terminal] at signature
  rw [← accepted.pinned i bound]
  exact signature

theorem step_keeps_live (k i : PubKey) (u v : World) (e : Event prim) (sound : Sound prim u) (step : Step prim u e v)
    (bound : u.store.bindings.lookup k = some i)
    (unsigned : ∀ x result, e = .put x result → x.signed.key = k → x.signed.record.isTerminal = true →
      prim.verify i (sigContext ++ x.signed.record.encode) x.signed.signature = false)
    (live : ∀ r, u.store.records.lookup k = some r → r.record.isTerminal = false) (r : SignedRecord)
    (found : v.store.records.lookup k = some r) : r.record.isTerminal = false := by
  cases step_change prim k u v e sound step with
  | kept _ same _ => exact live r (same ▸ found)
  | stored x own accepted now =>
      rw [now, Option.some.injEq] at found
      subst found
      by_contra retired
      have terminal : x.signed.record.isTerminal = true := by simpa using retired
      have signed := accepted_retirement_signed prim u.store x.signed u.now i accepted (own ▸ bound) terminal
      rw [unsigned x _ rfl own terminal] at signed
      cases signed
  | dropped _ _ _ gone _ =>
      rw [gone] at found
      cases found

theorem held_delegation_signed (w : World) (k i : PubKey) (r : SignedRecord) (sound : Sound prim w)
    (bound : w.store.bindings.lookup k = some i) (held : w.store.records.lookup k = some r) :
    r.record.delegation.identity = i ∧
      prim.verify i (delegationContext ++ i.bytes.toList ++ k.bytes.toList ++ be64 r.record.delegation.notAfter)
        r.record.delegation.signature = true := by
  have identity : r.identity = i := by
    have same := sound.consistent.bound k r held
    rw [bound, Option.some.injEq] at same
    exact same.symm
  have own := sound.consistent.own k r held
  have signature := (SignedRecord.verify_signatures prim r (sound.consistent.verified k r held)).1
  rw [identity, own] at signature
  exact ⟨identity, signature⟩

theorem only_bound_identity_retires (t₀ : Nat) (past run : List (Transition World (Event prim))) (w w' : World)
    (k i : PubKey) (reached : Run (Step prim) ⟨t₀, Store.new⟩ past w) (bound : w.store.bindings.lookup k = some i)
    (continued : Run (Step prim) w run w')
    (unsigned : ∀ move ∈ run, ∀ x result, move.label = .put x result → x.signed.key = k →
      x.signed.record.isTerminal = true → prim.verify i (sigContext ++ x.signed.record.encode) x.signed.signature = false) :
    ((∀ r, w.store.records.lookup k = some r → r.record.isTerminal = false) →
      ∀ v ∈ visited w run, ∀ r, v.store.records.lookup k = some r → r.record.isTerminal = false) ∧
    ∀ v ∈ visited w run, v.store.bindings.lookup k = some i ∧
      ∀ r, v.store.records.lookup k = some r → r.record.delegation.identity = i ∧
        prim.verify i (delegationContext ++ i.bytes.toList ++ k.bytes.toList ++ be64 r.record.delegation.notAfter)
          r.record.delegation.signature = true := by
  have sound := reached_sound prim t₀ w past reached
  have pinned : ∀ u e v, Step prim u e v → True → Sound prim u ∧ u.store.bindings.lookup k = some i →
      Sound prim v ∧ v.store.bindings.lookup k = some i := fun u e v step _ inv =>
    ⟨step_sound prim u v e step inv.1, step_keeps_binding prim u v e k i inv.1 step inv.2⟩
  constructor
  · intro live
    have stays := run_visited_invariant
      (fun v => (Sound prim v ∧ v.store.bindings.lookup k = some i) ∧
        ∀ r, v.store.records.lookup k = some r → r.record.isTerminal = false)
      (fun move => move ∈ run) ?_ (fun _ member => member) continued ⟨⟨sound, bound⟩, live⟩
    · exact fun v member => (stays v member).2
    · intro u e v step member inv
      exact ⟨pinned u e v step trivial inv.1,
        step_keeps_live prim k i u v e inv.1.1 step inv.1.2 (unsigned _ member) inv.2⟩
  · intro v member
    obtain ⟨soundHere, boundHere⟩ := run_visited_invariant _ (fun _ => True) pinned (fun _ _ => trivial) continued
      ⟨sound, bound⟩ v member
    exact ⟨boundHere, fun r held => held_delegation_signed prim v k i r soundHere boundHere held⟩

-- Mallory holds the service key and a delegation of her own. She publishes under
-- it, waits until the pinned identity's record is swept, and then tries to revoke.
theorem only_bound_identity_retires_stranger :
    let w := received ⟨1000, Store.new⟩ publish
    let late : World := { received w hijack with now := 2000 }
    let swept : World := { late with store := (late.store.purgeExpired late.now).2 }
    let w' := received swept stranger
    (∀ r, w'.store.records.lookup node = some r → r.record.isTerminal = false) ∧
      w'.store.bindings.lookup node = some alice := by
  intro w late swept w'
  let published := wire publish (by simp [known])
  let hijacked := wire hijack (by simp [known])
  let revoked := wire stranger (by simp [known])
  have past : Run (Step ed25519) ⟨1000, Store.new⟩ _ w := .cons _ _ _ _ _ (.put _ published) (.nil _)
  have attack : Run (Step ed25519) w [_, _, _, _] w' :=
    .cons w _ _ _ _ (.put w hijacked) (.cons _ late _ _ _ (.tick _ 2000 (show 1000 ≤ 2000 by decide))
      (.cons late swept _ _ _ (.purge late) (.cons swept w' _ _ _ (.put swept revoked) (.nil w'))))
  have held : ∀ r, w.store.records.lookup node = some r → r.record.isTerminal = false := by
    have found : w.store.records.lookup node = some publish := by decide +kernel
    intro r same
    rw [found, Option.some.injEq] at same
    subst same
    decide
  obtain ⟨live, pinned⟩ := only_bound_identity_retires ed25519 1000 _ _ w w' node alice past (by decide +kernel) attack (by
    intro move member x result label own terminal
    simp only [List.mem_cons, List.not_mem_nil, or_false] at member
    rcases member with rfl | rfl | rfl | rfl
    · cases label
      exact absurd terminal (by decide)
    · cases label
    · cases label
    · cases label
      decide +kernel)
  exact ⟨live held w' (by simp [visited]), (pinned w' (by simp [visited])).1⟩

theorem snapshot_restores_store (t₀ now : Nat) (past : List (Transition World (Event prim))) (w : World)
    (items : List (PubKey × SignedRecord)) (walk : Map PubKey PubKey → List (PubKey × PubKey))
    (reached : Run (Step prim) ⟨t₀, Store.new⟩ past w) (forward : w.now ≤ now)
    (order : Finmap.Iterates items w.store.records) (walks : ∀ m, Finmap.Iterates (walk m) m)
    (recordCount : w.store.records.keys.card < 2 ^ 32) (bindingCount : w.store.bindings.keys.card < 2 ^ 32) :
    let opened := openWith prim walk (some (encodeSnapshot (items.map Prod.snd) w.store.bindings)) now
    opened.bindings = w.store.bindings ∧ opened.identityIndex = w.store.identityIndex ∧
      ∀ k r, opened.records.lookup k = some r ↔ w.store.records.lookup k = some r ∧
        (r.record.isTerminal = true ∨
          r.record.isTerminal = false ∧ r.record.isExpired now = false ∧ r.record.delegation.isExpired now = false) := by
  intro opened
  have sound := reached_sound prim t₀ w past reached
  have notFuture : ∀ k r, w.store.records.lookup k = some r → r.record.issuedAt.toNat ≤ now + maxClockSkew := by
    intro k r held
    have early := sound.notFuture k r held
    omega
  obtain ⟨bindings, index, records⟩ := open_written prim w.store now items walk sound.consistent order walks sound.wire
    notFuture recordCount bindingCount
  refine ⟨bindings, index, fun k r => ?_⟩
  rw [records k, Option.filter_eq_some_iff]
  refine and_congr_right (fun _ => ?_)
  cases terminal : r.record.isTerminal with
  | true => simp [survives, terminal]
  | false => simp [survives, terminal]

theorem snapshot_restores_store_sample :
    let w := received ⟨1000, Store.new⟩ publish
    let opened := openWith ed25519 Finmap.ascending (some (encodeSnapshot [publish] w.store.bindings)) 1999
    opened.bindings = w.store.bindings ∧ opened.records.lookup node = some publish := by
  intro w opened
  have past : Run (Step ed25519) ⟨1000, Store.new⟩ _ w :=
    .cons _ _ _ _ _ (.put _ (wire publish (by simp [known]))) (.nil _)
  have held : w.store.records.ascending = [(node, publish)] := by decide +kernel
  have order : Finmap.Iterates [(node, publish)] w.store.records := held ▸ Finmap.ascending_iterates w.store.records
  obtain ⟨bindings, _, records⟩ := snapshot_restores_store ed25519 1000 1999 _ w [(node, publish)] Finmap.ascending past
    (show 1000 ≤ 1999 by decide) order Finmap.ascending_iterates (by decide +kernel) (by decide +kernel)
  exact ⟨bindings, (records node publish).mpr ⟨by decide +kernel, by decide +kernel⟩⟩

end Sqns
