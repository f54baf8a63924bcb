import Sqns.Lib.Trace
import Sqns.Snapshot

set_option autoImplicit false

namespace Sqns.Store

open Trace

variable (prim : Primitives) (k : PubKey)

-- What the store has to say about one key.
def Alike (s t : Store) : Prop :=
  s.records.lookup k = t.records.lookup k ∧ s.bindings.lookup k = t.bindings.lookup k

def isPutFor : Op → Bool
  | .put record _ => record.key = k
  | .purge _ => false

def isPutForOther : Op → Bool
  | .put record _ => record.key ≠ k
  | .purge _ => false

def putResult (s : Store) : Op → Option (Except Error PutOutcome)
  | .put record now => some (s.put prim record now).1
  | .purge _ => none

theorem refusal_alike (s t : Store) (record : SignedRecord) (alike : Alike record.key s t) :
    s.refusal prim record = t.refusal prim record := by
  unfold refusal
  rw [alike.1, alike.2]

theorem put_result_alike (s t : Store) (record : SignedRecord) (now : Nat) (alike : Alike record.key s t) :
    (s.put prim record now).1 = (t.put prim record now).1 := by
  have refused := refusal_alike prim s t record alike
  unfold put putLocked
  cases admission prim record now with
  | error e => rfl
  | ok _ =>
      rw [refused]
      cases t.refusal prim record with
      | some e => rfl
      | none =>
          rw [alike.1]
          cases t.records.lookup record.key with
          | none => rfl
          | some held => cases newer : record.record.supersedes held.record <;> simp [newer]

theorem put_alike (s t : Store) (record : SignedRecord) (now : Nat) (alike : Alike record.key s t) :
    Alike record.key (s.put prim record now).2 (t.put prim record now).2 := by
  have result := put_result_alike prim s t record now alike
  by_cases stored : (t.put prim record now).1 = .ok .stored
  · have first := (put_stored_iff prim s record now).mp (result.trans stored)
    have second := (put_stored_iff prim t record now).mp stored
    rw [put_accepted prim s record now first, put_accepted prim t record now second]
    exact ⟨by simp, by simp [alike.2]⟩
  · rw [put_unchanged prim t record now stored, put_unchanged prim s record now (result ▸ stored)]
    exact alike

theorem purge_alike (s t : Store) (now : Nat) (alike : Alike k s t) : Alike k (s.purgeExpired now).2 (t.purgeExpired now).2 :=
  ⟨by simp [alike.1], alike.2⟩

theorem apply_alike (s t : Store) (op : Op) (kept : isPutForOther k op = false) (alike : Alike k s t) :
    Alike k (s.apply prim op) (t.apply prim op) := by
  cases op with
  | purge now => exact purge_alike k s t now alike
  | put record now =>
      have own : record.key = k := by simpa [isPutForOther] using kept
      subst own
      exact put_alike prim s t record now alike

-- A put for another key never touches this one's slots. The reverse index and
-- the revision do change, and nothing that is asked about `k` reads them.
theorem apply_other_alike (s t : Store) (op : Op) (other : isPutForOther k op = true) (alike : Alike k s t) :
    Alike k (s.apply prim op) t := by
  cases op with
  | purge now => cases other
  | put record now =>
      have different : k ≠ record.key := fun same => by simp [isPutForOther, same] at other
      obtain ⟨records, bindings⟩ := put_other_key prim s record now k different
      exact ⟨records.trans alike.1, bindings.trans alike.2⟩

theorem watched_kept (op : Op) (own : isPutFor k op = true) : (!isPutForOther k op) = true := by
  cases op with
  | purge now => cases own
  | put record now => simpa [isPutFor, isPutForOther] using own

theorem watched_result (s t : Store) (op : Op) (own : isPutFor k op = true) (alike : Alike k s t) :
    putResult prim s op = putResult prim t op := by
  cases op with
  | purge now => cases own
  | put record now =>
      have same : record.key = k := by simpa [isPutFor] using own
      subst same
      exact congrArg some (put_result_alike prim s t record now alike)

theorem keys_do_not_interfere (ops : List Op) :
    let alone := ops.filter (fun op => !isPutForOther k op)
    (ops.foldl (apply prim) new).records.lookup k = (alone.foldl (apply prim) new).records.lookup k ∧
      (ops.foldl (apply prim) new).bindings.lookup k = (alone.foldl (apply prim) new).bindings.lookup k ∧
      outputs (apply prim) (putResult prim) (isPutFor k) new ops =
        outputs (apply prim) (putResult prim) (isPutFor k) new alone := by
  intro alone
  have deleted : ∀ s t op, (!isPutForOther k op) = false → Alike k s t → Alike k (s.apply prim op) t :=
    fun s t op other alike => apply_other_alike prim k s t op (by simpa using other) alike
  have kept : ∀ s t op, (!isPutForOther k op) = true → Alike k s t → Alike k (s.apply prim op) (t.apply prim op) :=
    fun s t op own alike => apply_alike prim k s t op (by simpa using own) alike
  obtain ⟨⟨records, bindings⟩, results⟩ := unwinding (apply prim) (putResult prim) (fun op => !isPutForOther k op) (isPutFor k)
    (Alike k) (watched_kept k) deleted kept (watched_result prim k) ops new new ⟨rfl, rfl⟩
  exact ⟨records, bindings, results⟩

end Sqns.Store
