import Sqns.Store

set_option autoImplicit false

namespace Sqns

def negativeTtl : Nat := 30

inductive Entry where
  | found (record : SignedRecord)
  | missing (until_ : Nat)
deriving DecidableEq

abbrev Cache := Map PubKey Entry

namespace Cache

def new : Cache := ∅

def fresh (now : Nat) : Entry → Bool
  | .found record => !record.record.isExpired now
  | .missing until_ => decide (now < until_)

def answer : Entry → Option SignedRecord
  | .found record => some record
  | .missing _ => none

-- The outer option is whether the cache can answer at all, the inner one
-- whether the key has a record. An entry past its time is removed on the way.
def get (c : Cache) (key : PubKey) (now : Nat) : Option (Option SignedRecord) × Cache :=
  match c.lookup key with
  | some entry => if fresh now entry then (some (answer entry), c) else (none, c.erase key)
  | none => (none, c)

def put (c : Cache) (record : SignedRecord) : Cache := c.insert record.key (.found record)

def putMissing (c : Cache) (key : PubKey) (now : Nat) : Cache := c.insert key (.missing (now + negativeTtl))

def invalidate (c : Cache) (key : PubKey) : Cache := c.erase key

def clear (_ : Cache) : Cache := ∅

def purge (c : Cache) (now : Nat) : Nat × Cache := (c.keys.card - (c.retain (fresh now)).keys.card, c.retain (fresh now))

@[simp] theorem lookup_erase_ite (c : Cache) (key other : PubKey) :
    Finmap.lookup other (c.erase key) = if other = key then none else c.lookup other := by
  by_cases same : other = key
  · subst same
    simp
  · rw [if_neg same, Finmap.lookup_erase_ne same]

-- What the cache has to say of a key, wherever it says anything, is a record
-- it was given: every other operation only takes entries away.
def Within (c d : Cache) : Prop := ∀ key record, c.lookup key = some (.found record) → d.lookup key = some (.found record)

theorem get_entry (c : Cache) (key other : PubKey) (now : Nat) (entry : Entry)
    (found : (c.get key now).2.lookup other = some entry) : c.lookup other = some entry := by
  simp only [get] at found
  cases held : c.lookup key with
  | none => simpa [held] using found
  | some kept =>
      by_cases usable : fresh now kept
      · simpa [held, usable] using found
      · simp only [held, usable, Bool.false_eq_true, if_false, lookup_erase_ite] at found
        split at found
        · cases found
        · exact found

theorem get_within (c : Cache) (key : PubKey) (now : Nat) : Within (c.get key now).2 c :=
  fun other record found => get_entry c key other now (.found record) found

theorem get_found (c : Cache) (key : PubKey) (now : Nat) (record : SignedRecord)
    (hit : (c.get key now).1 = some (some record)) : c.lookup key = some (.found record) := by
  simp only [get] at hit
  cases held : c.lookup key with
  | none => simp [held] at hit
  | some entry =>
      rw [held] at hit
      dsimp only at hit
      split at hit
      · cases entry with
        | found stored =>
            simp only [answer, Option.some.injEq] at hit
            rw [hit]
        | missing until_ => simp [answer] at hit
      · cases hit

theorem put_missing_within (c : Cache) (key : PubKey) (now : Nat) : Within (c.putMissing key now) c := by
  intro other record found
  rw [putMissing, Finmap.lookup_insert_ite] at found
  split at found
  · cases found
  · exact found

theorem invalidate_within (c : Cache) (key : PubKey) : Within (c.invalidate key) c := by
  intro other record found
  rw [invalidate, lookup_erase_ite] at found
  split at found
  · cases found
  · exact found

theorem clear_within (c : Cache) : Within c.clear c := by
  intro key record found
  simp [clear] at found

theorem purge_within (c : Cache) (now : Nat) : Within (c.purge now).2 c := by
  intro key record found
  rw [purge, Finmap.lookup_retain, Option.filter_eq_some_iff] at found
  exact found.1

-- Every record the cache holds lies under its own key and carries good signatures.
def Genuine (prim : Primitives) (c : Cache) : Prop :=
  ∀ key record, c.lookup key = some (.found record) → record.key = key ∧ record.verify prim = .ok ()

theorem new_genuine (prim : Primitives) : Genuine prim new := by
  intro key record found
  simp [new] at found

theorem within_genuine (prim : Primitives) (c d : Cache) (within : Within c d) (genuine : Genuine prim d) : Genuine prim c :=
  fun key record found => genuine key record (within key record found)

theorem put_found (c : Cache) (record other : SignedRecord) (key : PubKey)
    (found : (c.put record).lookup key = some (.found other)) : (key = record.key ∧ other = record) ∨
      c.lookup key = some (.found other) := by
  rw [put, Finmap.lookup_insert_ite] at found
  split at found
  · rename_i own
    cases found
    exact .inl ⟨own, rfl⟩
  · exact .inr found

theorem put_genuine (prim : Primitives) (c : Cache) (record : SignedRecord) (genuine : Genuine prim c)
    (verified : record.verify prim = .ok ()) : Genuine prim (c.put record) := by
  intro key other found
  rcases put_found c record other key found with ⟨rfl, rfl⟩ | held
  · exact ⟨rfl, verified⟩
  · exact genuine key other held

end Cache

end Sqns
