import Mathlib.Data.List.Sort
import Sqns.Lib.Maps
import Sqns.RecordWire

set_option autoImplicit false

namespace Sqns

inductive PutOutcome where
  | stored
  | stale
deriving DecidableEq

abbrev Map (α β : Type) := Finmap (fun _ : α => β)

-- The three maps sit behind three separate locks. The snapshot path is kept
-- outside: `open` takes the bytes found there. The counter wraps like AtomicU64.
structure Store where
  records : Map PubKey SignedRecord
  bindings : Map PubKey PubKey
  identityIndex : Map PubKey (Finset PubKey)
  revision : UInt64

namespace Store

def new : Store := ⟨∅, ∅, ∅, 0⟩

def retirementError (prim : Primitives) (held : SignedRecord) : Option Error :=
  match held.record.successor with
  | some successor => some (.superseded (held.key.toText prim) (successor.toText prim))
  | none => held.revocationError prim

-- The checks `put` makes before it takes a lock. They read the record and the
-- clock only, never the store.
def admission (prim : Primitives) (record : SignedRecord) (now : Nat) : Except Error Unit := do
  record.record.validate prim
  record.verify prim
  if record.record.issuedAt.toNat > now + maxClockSkew then
    throw (.record (s!"record is issued {record.record.issuedAt.toNat - now}s in the future " ++
      s!"(max skew {maxClockSkew}s)"))
  if record.record.isExpired now then throw (.expired (now - record.record.expiresAt))
  let delegation := record.record.delegation
  if delegation.isExpired now && !record.record.isTerminal then
    throw (.delegation (s!"the delegation over {record.key.toText prim} from " ++
      s!"{delegation.identity.toText prim} expired {now - delegation.notAfter.toNat}s ago"))

-- Under the records lock: a retired key first, then the pinned identity.
def refusal (prim : Primitives) (s : Store) (record : SignedRecord) : Option Error :=
  match (s.records.lookup record.key).bind (retirementError prim) with
  | some retired => some retired
  | none =>
      match s.bindings.lookup record.key with
      | none => none
      | some bound =>
          if record.identity ≠ bound then
            some (.delegation (s!"{record.key.toText prim} belongs to identity {bound.toText prim}, " ++
              s!"but this record claims {record.identity.toText prim}"))
          else none

def insertRecord (s : Store) (record : SignedRecord) : Store :=
  { s with records := s.records.insert record.key record }

-- The section of `put` up to the point where the records lock is dropped.
def putLocked (prim : Primitives) (s : Store) (record : SignedRecord) (now : Nat) : Except Error PutOutcome × Store :=
  match admission prim record now with
  | .error e => (.error e, s)
  | .ok () =>
      match s.refusal prim record with
      | some e => (.error e, s)
      | none =>
          match s.records.lookup record.key with
          | some held =>
              if record.record.supersedes held.record then (.ok .stored, s.insertRecord record) else (.ok .stale, s)
          | none => (.ok .stored, s.insertRecord record)

def bind (s : Store) (serviceKey identity : PubKey) : Store :=
  { s with
    bindings := match s.bindings.lookup serviceKey with
      | some _ => s.bindings
      | none => s.bindings.insert serviceKey identity
    identityIndex := s.identityIndex.insert identity
      (insert serviceKey ((s.identityIndex.lookup identity).getD ∅)) }

-- What `put` still does once the records lock is gone.
def finishPut (s : Store) (serviceKey identity : PubKey) : Store :=
  { s.bind serviceKey identity with revision := s.revision + 1 }

def put (prim : Primitives) (s : Store) (record : SignedRecord) (now : Nat) : Except Error PutOutcome × Store :=
  match s.putLocked prim record now with
  | (.ok .stored, inserted) => (.ok .stored, inserted.finishPut record.key record.identity)
  | unchanged => unchanged

def get (s : Store) (key : PubKey) (now : Nat) : Option SignedRecord :=
  (s.records.lookup key).filter (fun record => !record.record.isExpired now)

def identityOf (s : Store) (serviceKey : PubKey) : Option PubKey := s.bindings.lookup serviceKey

-- A BTreeSet hands out its keys in ascending order.
def heldAmong (s : Store) (keys : Finset PubKey) (now : Nat) : List SignedRecord :=
  ((keys.sort (· ≤ ·)).filterMap (fun key => s.records.lookup key)).filter (fun record => !record.record.isExpired now)

def identityRecords (s : Store) (identity : PubKey) (limit now : Nat) : List SignedRecord :=
  match s.identityIndex.lookup identity with
  | none => []
  | some keys => (s.heldAmong keys now).take limit

-- `sort_by_key(|rec| (rec.record.issued_at, rec.key()))`.
def syncLe (a b : SignedRecord) : Prop :=
  a.record.issuedAt.toNat < b.record.issuedAt.toNat ∨
    a.record.issuedAt.toNat = b.record.issuedAt.toNat ∧ a.key ≤ b.key

instance : DecidableRel syncLe := fun _ _ => instDecidableOr

-- `values` is the order in which the hash map hands its records out. The sort
-- is stable, and as keys differ its result does not depend on that order.
def sinceOf (values : List SignedRecord) (since : UInt64) (limit now : Nat) : List SignedRecord × Bool :=
  let wanted := values.filter (fun record =>
    decide (since.toNat ≤ record.record.issuedAt.toNat) && !record.record.isExpired now)
  let out := wanted.insertionSort syncLe
  (out.take limit, decide (out.length ≤ limit))

def values (s : Store) : List SignedRecord := s.records.ascending.map Prod.snd

def since (s : Store) (since : UInt64) (limit now : Nat) : List SignedRecord × Bool := sinceOf s.values since limit now

def purgeExpired (s : Store) (now : Nat) : Nat × Store :=
  let kept := s.records.retain (fun record => !record.record.isExpired now)
  let removed := s.records.keys.card - kept.keys.card
  (removed, { s with records := kept, revision := if removed > 0 then s.revision + 1 else s.revision })

def len (s : Store) : Nat := s.records.keys.card

end Store

end Sqns
