import Sqns.EndpointText
import Sqns.Lib.IpText
import Sqns.Resolver

set_option autoImplicit false

namespace Sqns

open IpText

def Scheme.requiresDnssec : Scheme → Bool
  | .sqns => true
  | .sqc => false

def ServerAddr.isIpLiteral (a : ServerAddr) : Bool := (IpAddr.parse a.host).isSome

namespace Dialing

inductive RecordType where
  | a
  | aaaa
  | other
deriving DecidableEq

inductive Proof where
  | secure
  | insecure
  | bogus
  | indeterminate
deriving DecidableEq

structure Answer where
  recordType : RecordType
  proof : Proof
  ip : Option IpAddr
deriving DecidableEq

-- What is asked about names outside of this repository: `lookup_host` of the
-- operating system, and the validating resolver as far as it can be set up.
-- `feature` is whether the build has the dnssec feature.
structure Names where
  system : Str → Except String (List SocketAddr)
  feature : Bool
  configuration : Except String Unit
  built : Except String Unit
  lookupIp : Str → Except String (List Answer)

section Resolve

variable (names : Names)

def systemResolve (a : ServerAddr) : Except Error (List SocketAddr) :=
  match names.system a.authority with
  | .error e => .error (.connection s!"cannot resolve {String.ofList a.authority}: {e}")
  | .ok candidates =>
      if candidates.isEmpty then .error (.connection s!"{String.ofList a.authority} resolved to no addresses")
      else .ok candidates

def isAddress (answer : Answer) : Bool := answer.recordType == .a || answer.recordType == .aaaa

-- The addresses so far, and how many answers came without a proof.
def collect (port : UInt16) (found : List SocketAddr × Nat) (answer : Answer) : List SocketAddr × Nat :=
  if !isAddress answer then found
  else if answer.proof ≠ .secure then (found.1, found.2 + 1)
  else
    match answer.ip with
    | some ip => (found.1 ++ [SocketAddr.new ip port], found.2)
    | none => found

def validatedResolve (host : Str) (port : UInt16) : Except Error (List SocketAddr) :=
  let name := String.ofList host
  if !names.feature then
    .error (.address (s!"sqns://{name} needs DNSSEC validation, but this build has the 'dnssec' feature turned off; " ++
      "use an sqc:// address, or an sqns:// one with DNSSEC not required"))
  else
    match names.configuration with
    | .error e => .error (.connection s!"cannot read the system DNS configuration: {e}")
    | .ok _ =>
        match names.built with
        | .error e => .error (.connection s!"cannot build a validating resolver: {e}")
        | .ok _ =>
            match names.lookupIp host with
            | .error e =>
                .error (.address (s!"DNSSEC resolution of {name} failed: {e}. A bogus signature means the answer was " ++
                  "tampered with; a resolver that strips DNSSEC records looks the same from here. " ++
                  "Use sqc:// or allow insecure DNS if this network cannot carry DNSSEC."))
            | .ok answers =>
                let (addrs, unproven) := answers.foldl (collect port) ([], 0)
                if addrs.isEmpty then
                  if unproven > 0 then
                    .error (.address (s!"{name} resolved, but the answer is not signed (DNSSEC proof was not Secure for " ++
                      s!"{unproven} record(s)). An sqns:// address requires a signed zone: use sqc:// instead, or allow " ++
                      "insecure DNS."))
                  else .error (.address s!"{name} resolved to no addresses")
                else .ok addrs

def resolve (a : ServerAddr) (requireDnssec : Bool) : Except Error (List SocketAddr) :=
  if a.isIpLiteral then systemResolve names a
  else if !a.scheme.requiresDnssec then systemResolve names a
  else if !requireDnssec then systemResolve names a
  else validatedResolve names a.host a.port

end Resolve

inductive Joined (κ : Type) where
  | connected (conn : κ)
  | failed (e : String)
  | panicked (e : String)

-- An attempt that has come to an end, so many milliseconds after the first one
-- was spawned.
structure Finish (κ : Type) where
  address : SocketAddr
  ended : Nat
  joined : Joined κ

def happyEyeballsDelay : Nat := 250

section Connect

variable {κ : Type}

def candidates (routable : SocketAddr → Bool) (all : List SocketAddr) : List SocketAddr :=
  let reachable := all.filter routable
  if reachable.isEmpty then all else reachable

-- What dialling the i-th candidate comes to, and how long that takes.
def attempts (dial : Nat → SocketAddr → Nat × Joined κ) (addresses : List SocketAddr) : List (Finish κ) :=
  addresses.zipIdx.map (fun next =>
    ⟨next.1, happyEyeballsDelay * next.2 + (dial next.2 next.1).1, (dial next.2 next.1).2⟩)

def Finish.line (finish : Finish κ) : String :=
  match finish.joined with
  | .connected _ => ""
  | .failed e => s!"{String.ofList finish.address.toText}: {e}"
  | .panicked e => s!"attempt panicked: {e}"

-- `join_next` hands the attempts out as they end.
def firstConnected : List (Finish κ) → List String → Except (List String) κ
  | [], errors => .error errors
  | finish :: rest, errors =>
      match finish.joined with
      | .connected conn => .ok conn
      | .failed _ => firstConnected rest (errors ++ [finish.line])
      | .panicked _ => firstConnected rest (errors ++ [finish.line])

-- `race` is the order in which the attempts on the candidates end.
def connectWith (prim : Primitives) (names : Names) (routable : SocketAddr → Bool) (race : List SocketAddr → List (Finish κ))
    (a : ServerAddr) (requireDnssec : Bool) : Except Error κ :=
  match resolve names a requireDnssec with
  | .error e => .error e
  | .ok all =>
      if all.isEmpty then .error (.connection s!"{String.ofList (a.toText prim)} resolved to no addresses")
      else
        match firstConnected (race (candidates routable all)) [] with
        | .ok conn => .ok conn
        | .error errors =>
            .error (.connection s!"could not reach {String.ofList (a.toText prim)}: {Resolver.joined errors}")

-- Attempts end when they do, and those that end at once come in any order.
structure Races (dial : Nat → SocketAddr → Nat × Joined κ) (race : List SocketAddr → List (Finish κ)) : Prop where
  perm : ∀ addresses, (race addresses).Perm (attempts dial addresses)
  timely : ∀ addresses, (race addresses).Pairwise (fun a b => a.ended ≤ b.ended)

-- One such order: those that end at once in the order they were spawned.
def inOrder (dial : Nat → SocketAddr → Nat × Joined κ) (addresses : List SocketAddr) : List (Finish κ) :=
  (attempts dial addresses).insertionSort (fun a b => a.ended ≤ b.ended)

theorem in_order_races (dial : Nat → SocketAddr → Nat × Joined κ) : Races dial (inOrder dial) := by
  have total : Std.Total (fun a b : Finish κ => a.ended ≤ b.ended) := ⟨fun a b => Nat.le_total a.ended b.ended⟩
  have trans : IsTrans (Finish κ) (fun a b => a.ended ≤ b.ended) := ⟨fun _ _ _ => Nat.le_trans⟩
  exact ⟨fun addresses => List.perm_insertionSort _ _, fun addresses => List.pairwise_insertionSort _ _⟩

end Connect

section Names

variable (names : Names)

-- An address record in the response to the question for this host is secure.
-- The code does not look at the name the record is for.
def Proven (a : ServerAddr) (address : SocketAddr) : Prop :=
  ∃ answers answer ip, names.lookupIp a.host = .ok answers ∧ answer ∈ answers ∧ isAddress answer = true ∧
    answer.proof = .secure ∧ answer.ip = some ip ∧ address = SocketAddr.new ip a.port

theorem collect_addresses (port : UInt16) (answers : List Answer) (found : List SocketAddr × Nat) (address : SocketAddr) :
    address ∈ (answers.foldl (collect port) found).1 ↔ address ∈ found.1 ∨
      ∃ answer ∈ answers, isAddress answer = true ∧ answer.proof = .secure ∧ ∃ ip, answer.ip = some ip ∧
        address = SocketAddr.new ip port := by
  induction answers generalizing found with
  | nil => simp
  | cons answer rest ih =>
      rw [List.foldl_cons, ih]
      simp only [List.mem_cons, exists_eq_or_imp, ← or_assoc]
      apply or_congr_left
      unfold collect
      cases kind : isAddress answer with
      | false => simp
      | true =>
          by_cases proven : answer.proof = .secure
          · cases ip : answer.ip with
            | none => simp [proven]
            | some ip => simp [proven]
          · simp [proven]

theorem validated_resolve_ok (a : ServerAddr) (all : List SocketAddr)
    (resolved : validatedResolve names a.host a.port = .ok all) :
    all ≠ [] ∧ ∀ address, address ∈ all ↔ Proven names a address := by
  unfold validatedResolve at resolved
  split at resolved
  · cases resolved
  · split at resolved
    · cases resolved
    · split at resolved
      · cases resolved
      · cases looked : names.lookupIp a.host with
        | error e =>
            rw [looked] at resolved
            cases resolved
        | ok answers =>
            simp only [looked] at resolved
            split at resolved
            · split at resolved
              · cases resolved
              · cases resolved
            · rename_i found
              cases resolved
              refine ⟨by simpa using found, ?_⟩
              intro address
              rw [collect_addresses]
              simp [Proven, looked]

-- A name of the sqns scheme, where nobody has waived the validation.
structure Guarded (a : ServerAddr) (requireDnssec : Bool) : Prop where
  named : a.isIpLiteral = false
  scheme : a.scheme = .sqns
  required : requireDnssec = true

theorem guarded_resolve (a : ServerAddr) (requireDnssec : Bool) (guarded : Guarded a requireDnssec) :
    resolve names a requireDnssec = validatedResolve names a.host a.port := by
  simp [resolve, guarded.named, guarded.scheme, guarded.required, Scheme.requiresDnssec]

end Names

section Race

variable {κ : Type}

theorem candidates_within (routable : SocketAddr → Bool) (all : List SocketAddr) (address : SocketAddr)
    (candidate : address ∈ candidates routable all) : address ∈ all := by
  simp only [candidates] at candidate
  split at candidate
  · exact candidate
  · exact (List.mem_filter.mp candidate).1

def Finish.conn (finish : Finish κ) : Option κ :=
  match finish.joined with
  | .connected conn => some conn
  | _ => none

-- The first attempt to end well, or a line for each in the order they failed.
theorem first_connected_cases (finishes : List (Finish κ)) (errors : List String) :
    (∃ front finish conn back, finishes = front ++ finish :: back ∧ finish.conn = some conn ∧
      (∀ other ∈ front, other.conn = none) ∧ firstConnected finishes errors = .ok conn) ∨
    ((∀ finish ∈ finishes, finish.conn = none) ∧
      firstConnected finishes errors = .error (errors ++ finishes.map Finish.line)) := by
  induction finishes generalizing errors with
  | nil => exact .inr ⟨by simp, by simp [firstConnected]⟩
  | cons finish rest ih =>
      cases ended : finish.joined with
      | connected conn =>
          refine .inl ⟨[], finish, conn, rest, rfl, by rw [Finish.conn, ended], by simp, ?_⟩
          rw [firstConnected, ended]
      | failed e =>
          have dead : finish.conn = none := by rw [Finish.conn, ended]
          have next : firstConnected (finish :: rest) errors = firstConnected rest (errors ++ [finish.line]) := by
            rw [firstConnected, ended]
          rw [next]
          rcases ih (errors ++ [finish.line]) with ⟨front, good, conn, back, split, own, before, result⟩ | ⟨all, result⟩
          · exact .inl ⟨finish :: front, good, conn, back, by rw [split]; rfl, own, by simpa [dead] using before, result⟩
          · exact .inr ⟨by simpa [dead] using all, by rw [result]; simp⟩
      | panicked e =>
          have dead : finish.conn = none := by rw [Finish.conn, ended]
          have next : firstConnected (finish :: rest) errors = firstConnected rest (errors ++ [finish.line]) := by
            rw [firstConnected, ended]
          rw [next]
          rcases ih (errors ++ [finish.line]) with ⟨front, good, conn, back, split, own, before, result⟩ | ⟨all, result⟩
          · exact .inl ⟨finish :: front, good, conn, back, by rw [split]; rfl, own, by simpa [dead] using before, result⟩
          · exact .inr ⟨by simpa [dead] using all, by rw [result]; simp⟩

variable (dial : Nat → SocketAddr → Nat × Joined κ) (race : List SocketAddr → List (Finish κ))

def finishOf (i : Nat) (address : SocketAddr) : Finish κ :=
  ⟨address, happyEyeballsDelay * i + (dial i address).1, (dial i address).2⟩

theorem mem_attempts (addresses : List SocketAddr) (finish : Finish κ) :
    finish ∈ attempts dial addresses ↔ ∃ i address, addresses[i]? = some address ∧ finish = finishOf dial i address := by
  simp only [attempts, List.mem_map, Prod.exists, List.mem_zipIdx_iff_getElem?, finishOf]
  constructor
  · rintro ⟨address, i, found, same⟩
    exact ⟨i, address, found, same.symm⟩
  · rintro ⟨i, address, found, same⟩
    exact ⟨address, i, found, same.symm⟩

-- Whoever wins has ended no later than any other attempt that gets through.
theorem race_won (races : Races dial race) (addresses : List SocketAddr) (conn : κ)
    (won : firstConnected (race addresses) [] = .ok conn) :
    ∃ i address, addresses[i]? = some address ∧ (finishOf dial i address).conn = some conn ∧
      ∀ j other, addresses[j]? = some other → (finishOf dial j other).conn ≠ none →
        (finishOf dial i address).ended ≤ (finishOf dial j other).ended := by
  rcases first_connected_cases (race addresses) [] with ⟨front, finish, found, back, split, own, before, result⟩ | ⟨_, result⟩
  · rw [result, Except.ok.injEq] at won
    subst won
    have inside : finish ∈ attempts dial addresses := (races.perm addresses).mem_iff.mp (by rw [split]; simp)
    obtain ⟨i, address, at_, same⟩ := (mem_attempts dial addresses finish).mp inside
    refine ⟨i, address, at_, same ▸ own, ?_⟩
    intro j other there alive
    have among : finishOf dial j other ∈ race addresses :=
      (races.perm addresses).mem_iff.mpr ((mem_attempts dial addresses _).mpr ⟨j, other, there, rfl⟩)
    have order := races.timely addresses
    rw [split] at among order
    rcases List.mem_append.mp among with early | later
    · exact absurd (before _ early) alive
    · rcases List.mem_cons.mp later with here | late
      · rw [here, ← same]
      · rw [← same]
        exact (List.pairwise_cons.mp (List.pairwise_append.mp order).2.1).1 _ late
  · rw [result] at won
    cases won

theorem race_lost (races : Races dial race) (addresses : List SocketAddr) (errors : List String)
    (lost : firstConnected (race addresses) [] = .error errors) :
    (∀ i address, addresses[i]? = some address → (finishOf dial i address).conn = none) ∧
      errors.Perm ((attempts dial addresses).map Finish.line) := by
  rcases first_connected_cases (race addresses) [] with ⟨front, finish, found, back, split, own, before, result⟩ |
    ⟨dead, result⟩
  · rw [result] at lost
    cases lost
  · rw [result, Except.error.injEq, List.nil_append] at lost
    subst lost
    refine ⟨?_, (races.perm addresses).map _⟩
    intro i address at_
    exact dead _ ((races.perm addresses).mem_iff.mpr ((mem_attempts dial addresses _).mpr ⟨i, address, at_, rfl⟩))

variable (prim : Primitives) (names : Names) (routable : SocketAddr → Bool) (a : ServerAddr) (requireDnssec : Bool)

theorem connect_with_resolved (all : List SocketAddr) (resolved : resolve names a requireDnssec = .ok all) (some : all ≠ []) :
    connectWith prim names routable race a requireDnssec =
      match firstConnected (race (candidates routable all)) [] with
      | .ok conn => .ok conn
      | .error errors =>
          .error (.connection s!"could not reach {String.ofList (a.toText prim)}: {Resolver.joined errors}") := by
  have written : all.isEmpty = false := by simpa using some
  simp only [connectWith, resolved, written]
  rfl

theorem resolve_some (all : List SocketAddr) (resolved : resolve names a requireDnssec = .ok all) : all ≠ [] := by
  have fromSystem : systemResolve names a = .ok all → all ≠ [] := by
    intro asked
    unfold systemResolve at asked
    split at asked
    · cases asked
    · split at asked
      · cases asked
      · rename_i found
        cases asked
        simpa using found
  unfold resolve at resolved
  split at resolved
  · exact fromSystem resolved
  · split at resolved
    · exact fromSystem resolved
    · split at resolved
      · exact fromSystem resolved
      · exact (validated_resolve_ok names a all resolved).1

theorem connected_resolved (conn : κ) (connected : connectWith prim names routable race a requireDnssec = .ok conn) :
    ∃ all, resolve names a requireDnssec = .ok all ∧ firstConnected (race (candidates routable all)) [] = .ok conn := by
  cases resolved : resolve names a requireDnssec with
  | error e =>
      rw [connectWith, resolved] at connected
      cases connected
  | ok all =>
      refine ⟨all, rfl, ?_⟩
      rw [connect_with_resolved race prim names routable a requireDnssec all resolved
        (resolve_some names a requireDnssec all resolved)] at connected
      cases raced : firstConnected (race (candidates routable all)) [] with
      | ok found =>
          simp only [raced, Except.ok.injEq] at connected
          rw [connected]
      | error errors =>
          rw [raced] at connected
          cases connected

theorem connect_congr (other : Names) (same : resolve other a requireDnssec = resolve names a requireDnssec) :
    connectWith prim other routable race a requireDnssec = connectWith prim names routable race a requireDnssec := by
  rw [connectWith, same, connectWith]

-- The system's own resolver and the validating one are never mixed, and what
-- is dialled for a guarded name has been proven.
theorem guarded_names_dial_proven_addresses (races : Races dial race) :
    (Guarded a requireDnssec →
      (∀ system, connectWith prim { names with system := system } routable race a requireDnssec =
        connectWith prim names routable race a requireDnssec) ∧
      ∀ conn, connectWith prim names routable race a requireDnssec = .ok conn →
        ∃ i address, Proven names a address ∧ address.port = a.port ∧ (finishOf dial i address).conn = some conn) ∧
    (¬ Guarded a requireDnssec → ∀ feature configuration built lookupIp,
      connectWith prim ⟨names.system, feature, configuration, built, lookupIp⟩ routable race a requireDnssec =
        connectWith prim names routable race a requireDnssec) := by
  refine ⟨fun guarded => ⟨fun system => ?_, fun conn connected => ?_⟩, fun open_ feature configuration built lookupIp => ?_⟩
  · apply connect_congr
    rw [guarded_resolve _ a requireDnssec guarded, guarded_resolve _ a requireDnssec guarded]
    rfl
  · obtain ⟨all, resolved, won⟩ := connected_resolved race prim names routable a requireDnssec conn connected
    rw [guarded_resolve names a requireDnssec guarded] at resolved
    obtain ⟨i, address, at_, alive, _⟩ := race_won dial race races _ conn won
    have inside := candidates_within routable all address (List.mem_of_getElem? at_)
    have proven := ((validated_resolve_ok names a all resolved).2 address).mp inside
    refine ⟨i, address, proven, ?_, alive⟩
    obtain ⟨_, _, ip, _, _, _, _, _, made⟩ := proven
    rw [made]
    cases ip <;> rfl
  · apply connect_congr
    have system : ∀ other : Names, resolve other a requireDnssec = systemResolve other a := by
      intro other
      unfold resolve
      split
      · rfl
      · split
        · rfl
        · split
          · rfl
          · rename_i named scheme required
            have sqns : a.scheme = .sqns := by
              cases scheme_ : a.scheme with
              | sqc => simp [scheme_, Scheme.requiresDnssec] at scheme
              | sqns => rfl
            exact absurd ⟨by simpa using named, sqns, by simpa using required⟩ open_
    rw [system, system]
    rfl

-- A dead address costs the ones behind it the stagger, not its own timeout.
theorem first_live_candidate_connects (races : Races dial race) (all : List SocketAddr)
    (resolved : resolve names a requireDnssec = .ok all) :
    let addresses := candidates routable all
    ((∃ conn, connectWith prim names routable race a requireDnssec = .ok conn) ↔
      ∃ i address, addresses[i]? = some address ∧ (finishOf dial i address).conn ≠ none) ∧
    (∀ conn, connectWith prim names routable race a requireDnssec = .ok conn →
      ∃ i address, addresses[i]? = some address ∧ (finishOf dial i address).conn = some conn ∧
        ∀ j other, addresses[j]? = some other → (finishOf dial j other).conn ≠ none →
          (finishOf dial i address).ended ≤ happyEyeballsDelay * j + (dial j other).1) ∧
    ∀ e, connectWith prim names routable race a requireDnssec = .error e →
      ∃ lines, e = .connection s!"could not reach {String.ofList (a.toText prim)}: {Resolver.joined lines}" ∧
        lines.Perm ((attempts dial addresses).map Finish.line) := by
  intro addresses
  have whole := connect_with_resolved race prim names routable a requireDnssec all resolved
    (resolve_some names a requireDnssec all resolved)
  cases raced : firstConnected (race (candidates routable all)) [] with
  | ok conn =>
      rw [raced] at whole
      obtain ⟨i, address, at_, alive, first⟩ := race_won dial race races _ conn raced
      refine ⟨⟨fun _ => ⟨i, address, at_, by simp [alive]⟩, fun _ => ⟨conn, whole⟩⟩, ?_, ?_⟩
      · intro other connected
        rw [whole, Except.ok.injEq] at connected
        subst connected
        exact ⟨i, address, at_, alive, first⟩
      · intro e failed
        rw [whole] at failed
        cases failed
  | error errors =>
      rw [raced] at whole
      obtain ⟨dead, lines⟩ := race_lost dial race races _ errors raced
      refine ⟨⟨?_, ?_⟩, ?_, ?_⟩
      · rintro ⟨conn, connected⟩
        rw [whole] at connected
        cases connected
      · rintro ⟨i, address, at_, alive⟩
        exact absurd (dead i address at_) alive
      · intro conn connected
        rw [whole] at connected
        cases connected
      · intro e failed
        rw [whole, Except.error.injEq] at failed
        exact ⟨errors, failed.symm, lines⟩

end Race

section Sample

open Sample

def loopback : List.Vector UInt8 4 := ⟨[127, 0, 0, 53], rfl⟩

-- The zone signs one of its two addresses.
def halfSigned : Names :=
  ⟨fun _ => .error "no route to host", true, .ok (), .ok (),
    fun _ => .ok [⟨.a, .insecure, some (.v4 ⟨[192, 0, 2, 1], rfl⟩)⟩, ⟨.a, .secure, some (.v4 loopback)⟩]⟩

def secured : ServerAddr := ⟨.sqns, ['n', 's', '1'], defaultPort, node⟩

def slowly (i : Nat) (_ : SocketAddr) : Nat × Joined Nat := (40, .connected i)

theorem secured_guarded : Guarded secured true := ⟨by decide +kernel, rfl, rfl⟩

theorem secured_resolved : resolve halfSigned secured true = .ok [.v4 loopback defaultPort] := by decide +kernel

theorem guarded_names_dial_proven_addresses_signed :
    ∃ i address, Proven halfSigned secured address ∧ address.port = defaultPort ∧ (finishOf slowly i address).conn = some 0 :=
  ((guarded_names_dial_proven_addresses slowly (inOrder slowly) ed25519 halfSigned (fun _ => true) secured true
    (in_order_races slowly)).1 secured_guarded).2 0 (by
      rw [connect_with_resolved _ _ _ _ _ _ _ secured_resolved (by simp)]
      rfl)

theorem first_live_candidate_connects_loopback :
    ∃ conn, connectWith ed25519 halfSigned (fun _ => true) (inOrder slowly) secured true = .ok conn :=
  (first_live_candidate_connects slowly (inOrder slowly) ed25519 halfSigned (fun _ => true) secured true (in_order_races slowly)
    [.v4 loopback defaultPort] secured_resolved).1.mpr ⟨0, .v4 loopback defaultPort,
    rfl, by simp [Finish.conn, finishOf, slowly]⟩

end Sample

end Dialing

end Sqns
