import Sqns.Lib.Files
import Sqns.Maintenance

set_option autoImplicit false

namespace Sqns.SnapshotFile

open Store Trace Files Maintenance

variable (prim : Primitives)

-- A path as `with_extension` sees it.
structure Path where
  parent : String
  stem : String
  extension : Option String
deriving DecidableEq

def Path.withExtension (path : Path) (extension : String) : Path := { path with extension := some extension }

-- Both tasks call `persist` on one store: `maintenance` whenever the counter has
-- moved, `serve` once, after the shutdown signal, with `maintenance` still alive.
inductive Task where
  | maintenance
  | serve
deriving DecidableEq

def Task.other : Task → Task
  | .maintenance => .serve
  | .serve => .maintenance

-- Where a task is in `persist`.
inductive Writer where
  | waiting
  | called
  | encoded (bytes : Bytes)
  | writing (file : Handle) (rest : Bytes)
  | synced
  | finished

def Task.returned : Task → Writer
  | .maintenance => .waiting
  | .serve => .finished

-- From the open of the temporary file until it is renamed or given up.
def Writer.holdsTmp : Writer → Bool
  | .writing _ _ => true
  | .synced => true
  | _ => false

structure State where
  traffic : Traffic
  disk : Disk Path UInt8
  writer : Task → Writer
  noted : UInt64
  persistedRevision : UInt64

def State.turn (s : State) (task : Task) (next : Writer) : State := { s with writer := Function.update s.writer task next }

def start (path : Path) (disk : Disk Path UInt8) (openedAt : Nat) : State :=
  ⟨⟨openFrom prim (disk.read path) openedAt, 0, 0⟩, disk, fun _ => .waiting, 0, UInt64.ofNat u64Max⟩

inductive Event where
  | traffic (activity : Activity prim)
  | call (task : Task)
  | encode (task : Task)
  | create (task : Task)
  | write (task : Task)
  | sync (task : Task)
  | rename (task : Task)
  | fail (task : Task)

section Steps

variable (path : Path)

-- `write` takes any number of the bytes that are left. `fail` is an error from
-- any of the calls: the handle is closed and what is on the disk stays.
inductive Step : State → Event prim → State → Prop where
  | traffic (s : State) (activity : Activity prim) (next : Traffic) (act : Act prim s.traffic activity next) :
      Step s (.traffic activity) { s with traffic := next }
  | tick (s : State) (waiting : s.writer .maintenance = .waiting)
      (changed : s.traffic.store.revision ≠ s.persistedRevision) :
      Step s (.call .maintenance) { s.turn .maintenance .called with noted := s.traffic.store.revision }
  | shutdown (s : State) (waiting : s.writer .serve = .waiting) : Step s (.call .serve) (s.turn .serve .called)
  | encode (s : State) (task : Task) (items : List (PubKey × SignedRecord)) (called : s.writer task = .called)
      (order : Finmap.Iterates items s.traffic.store.records) :
      Step s (.encode task) (s.turn task (.encoded (encodeSnapshot (items.map Prod.snd) s.traffic.store.bindings)))
  | create (s : State) (task : Task) (bytes : Bytes) (encoded : s.writer task = .encoded bytes) :
      Step s (.create task) { s.turn task (.writing (s.disk.create (path.withExtension "tmp")).1 bytes) with
        disk := (s.disk.create (path.withExtension "tmp")).2 }
  | write (s : State) (task : Task) (file : Handle) (chunk rest : Bytes)
      (writing : s.writer task = .writing file (chunk ++ rest)) :
      Step s (.write task) { s.turn task (.writing (s.disk.write file chunk).1 rest) with
        disk := (s.disk.write file chunk).2 }
  | sync (s : State) (task : Task) (file : Handle) (written : s.writer task = .writing file []) :
      Step s (.sync task) (s.turn task .synced)
  | rename (s : State) (task : Task) (after : Disk Path UInt8) (synced : s.writer task = .synced)
      (renamed : s.disk.rename (path.withExtension "tmp") path = some after) :
      Step s (.rename task) { s.turn task task.returned with
        disk := after
        persistedRevision := if task = .maintenance then s.noted else s.persistedRevision }
  | fail (s : State) (task : Task) (started : s.writer task ≠ .waiting ∧ s.writer task ≠ .finished) :
      Step s (.fail task) (s.turn task task.returned)

-- The two ways to go wrong: the temporary file is opened while the other task
-- is not done with it, or a count does not fit its u32.
def Clean (move : Transition State (Event prim)) : Prop :=
  match move.label with
  | .create task => (move.pre.writer task.other).holdsTmp = false
  | .encode _ => move.pre.traffic.store.records.keys.card < 2 ^ 32 ∧ move.pre.traffic.store.bindings.keys.card < 2 ^ 32
  | _ => True

-- A complete encoding of one of these states, which reads back as that state.
def Whole (past : Traffic → Prop) (file : Option Bytes) : Prop :=
  ∃ v, past v ∧ Written file v ∧ Saved prim file v.store

def Sane (past : Traffic → Prop) (disk : Disk Path UInt8) : Writer → Prop
  | .encoded bytes => Whole prim past (some bytes)
  | .writing file rest => ∃ done, disk.Owns (path.withExtension "tmp") file done ∧ Whole prim past (some (done ++ rest))
  | .synced => ∃ file bytes, disk.Owns (path.withExtension "tmp") file bytes ∧ Whole prim past (some bytes)
  | _ => True

structure Orderly (past : Traffic → Prop) (s : State) : Prop where
  fits : ∀ k r, s.traffic.store.records.lookup k = some r → r.Encodable
  sane : ∀ task, Sane prim path past s.disk (s.writer task)
  alone : ∀ task, (s.writer task).holdsTmp = true → (s.writer task.other).holdsTmp = false

theorem start_orderly (past : Traffic → Prop) (disk : Disk Path UInt8) (openedAt : Nat) :
    Orderly prim path past (start prim path disk openedAt) :=
  ⟨open_encodable prim (disk.read path) openedAt, fun _ => trivial, fun _ holds => by cases holds⟩

theorem task_cases (task other : Task) : other = task ∨ other = task.other := by
  cases task <;> cases other <;> simp [Task.other]

theorem other_ne (task : Task) : task.other ≠ task := by
  cases task <;> simp [Task.other]

theorem other_other (task : Task) : task.other.other = task := by
  cases task <;> rfl

-- Only a task that has the temporary file open depends on what is on the disk.
theorem sane_elsewhere (past : Traffic → Prop) (disk after : Disk Path UInt8) (writer : Writer)
    (free : writer.holdsTmp = false) (sane : Sane prim path past disk writer) : Sane prim path past after writer := by
  cases writer with
  | writing file rest => cases free
  | synced => cases free
  | waiting => trivial
  | called => trivial
  | encoded bytes => exact sane
  | finished => trivial

-- One task moves on, the other is where it was.
theorem turn_orderly (past : Traffic → Prop) (s t : State) (task : Task) (next : Writer) (orderly : Orderly prim path past s)
    (traffic : t.traffic = s.traffic) (turned : t.writer = Function.update s.writer task next)
    (mine : Sane prim path past t.disk next) (theirs : Sane prim path past t.disk (s.writer task.other))
    (alone : next.holdsTmp = true → (s.writer task.other).holdsTmp = false) : Orderly prim path past t := by
  have own : t.writer task = next := by rw [turned, Function.update_self]
  have kept : t.writer task.other = s.writer task.other := by rw [turned, Function.update_of_ne (other_ne task)]
  refine ⟨by rw [traffic]; exact orderly.fits, ?_, ?_⟩
  · intro other
    rcases task_cases task other with rfl | rfl
    · rwa [own]
    · rwa [kept]
  · intro other holds
    rcases task_cases task other with rfl | rfl
    · rw [own] at holds
      rw [kept]
      exact alone holds
    · rw [kept] at holds
      rw [other_other, own]
      cases free : next.holdsTmp with
      | false => rfl
      | true =>
          rw [alone free] at holds
          cases holds

theorem step_orderly (past : Traffic → Prop) (s t : State) (e : Event prim) (step : Step prim path s e t)
    (clean : Clean prim ⟨s, e, t⟩) (seen : past s.traffic) (orderly : Orderly prim path past s) : Orderly prim path past t := by
  have theirs : ∀ task : Task, Sane prim path past s.disk (s.writer task.other) := fun task => orderly.sane task.other
  cases step with
  | traffic activity next act =>
      exact ⟨act_encodable prim s.traffic next activity act orderly.fits, orderly.sane, orderly.alone⟩
  | tick waiting changed =>
      exact turn_orderly prim path past s _ .maintenance .called orderly rfl rfl trivial (theirs _) (fun holds => by cases holds)
  | shutdown waiting =>
      exact turn_orderly prim path past s _ .serve .called orderly rfl rfl trivial (theirs _) (fun holds => by cases holds)
  | encode task items called order =>
      refine turn_orderly prim path past s _ task _ orderly rfl rfl ?_ (theirs task) (fun holds => by cases holds)
      have written : Written (some (encodeSnapshot (items.map Prod.snd) s.traffic.store.bindings)) s.traffic :=
        ⟨items, order, rfl⟩
      exact ⟨s.traffic, seen, written, (written_saved_iff prim _ s.traffic orderly.fits written).mpr clean⟩
  | create task bytes encoded =>
      have whole := orderly.sane task
      rw [encoded] at whole
      refine turn_orderly prim path past s _ task _ orderly rfl rfl ⟨[], s.disk.create_owns _, whole⟩ ?_ (fun _ => clean)
      exact sane_elsewhere prim path past s.disk _ _ clean (theirs task)
  | write task file chunk rest writing =>
      have alone := orderly.alone task
      have mine := orderly.sane task
      rw [writing] at alone mine
      obtain ⟨done, owns, whole⟩ := mine
      rw [← List.append_assoc] at whole
      refine turn_orderly prim path past s _ task _ orderly rfl rfl ⟨done ++ chunk, owns.write chunk, whole⟩ ?_ alone
      exact sane_elsewhere prim path past s.disk _ _ (alone rfl) (theirs task)
  | sync task file written =>
      have alone := orderly.alone task
      have mine := orderly.sane task
      rw [written] at alone mine
      obtain ⟨done, owns, whole⟩ := mine
      rw [List.append_nil] at whole
      exact turn_orderly prim path past s _ task _ orderly rfl rfl ⟨file, done, owns, whole⟩ (theirs task) alone
  | rename task after synced renamed =>
      have alone := orderly.alone task
      rw [synced] at alone
      refine turn_orderly prim path past s _ task task.returned orderly rfl rfl ?_ ?_ (fun _ => alone rfl)
      · cases task <;> trivial
      · exact sane_elsewhere prim path past s.disk _ _ (alone rfl) (theirs task)
  | fail task started =>
      refine turn_orderly prim path past s _ task task.returned orderly rfl rfl ?_ (theirs task) (fun holds => ?_)
      · cases task <;> trivial
      · cases task <;> cases holds

variable (plain : path.extension ≠ some "tmp")

include plain

theorem tmp_is_a_sibling : path ≠ path.withExtension "tmp" :=
  fun same => plain (congrArg Path.extension same)

theorem rename_whole (past : Traffic → Prop) (s t : State) (task : Task) (step : Step prim path s (.rename task) t)
    (orderly : Orderly prim path past s) : Whole prim past (t.disk.read path) := by
  cases step with
  | rename _ after synced renamed =>
      have mine := orderly.sane task
      rw [synced] at mine
      obtain ⟨file, bytes, owns, whole⟩ := mine
      have replaced : after.read path = some bytes := owns.rename path (tmp_is_a_sibling path plain).symm after renamed
      rwa [← replaced] at whole

theorem step_whole (past : Traffic → Prop) (s t : State) (e : Event prim) (step : Step prim path s e t)
    (orderly : Orderly prim path past s) (whole : Whole prim past (s.disk.read path)) :
    Whole prim past (t.disk.read path) := by
  have sibling := tmp_is_a_sibling path plain
  cases step with
  | traffic activity next act => exact whole
  | tick waiting changed => exact whole
  | shutdown waiting => exact whole
  | encode task items called order => exact whole
  | create task bytes encoded => rwa [← s.disk.create_frame (path.withExtension "tmp") path sibling] at whole
  | write task file chunk rest writing =>
      have mine := orderly.sane task
      rw [writing] at mine
      obtain ⟨done, owns, _⟩ := mine
      rwa [← owns.write_frame chunk path sibling] at whole
  | sync task file written => exact whole
  | rename task after synced renamed =>
      exact rename_whole prim path plain past s _ task (.rename s task after synced renamed) orderly
  | fail task started => exact whole

-- Any interleaving of the two tasks with puts and sweeps, from any files found
-- at the start. Every state after a rename is the end of such a run.
theorem snapshot_always_whole (disk : Disk Path UInt8) (openedAt : Nat) (t : State) (run : List (Transition State (Event prim)))
    (whole : Run (Step prim path) (start prim path disk openedAt) run t) (clean : ∀ move ∈ run, Clean prim move)
    (renamed : ∃ move ∈ run, ∃ task, move.label = .rename task) :
    ∃ v ∈ visited (start prim path disk openedAt) run,
      Written (t.disk.read path) v.traffic ∧ Saved prim (t.disk.read path) v.traffic.store := by
  let past : Traffic → Prop := fun v => ∃ s ∈ visited (start prim path disk openedAt) run, s.traffic = v
  have seen : ∀ move ∈ run, Clean prim move ∧ past move.pre.traffic :=
    fun move member => ⟨clean move member, move.pre, run_pre_visited whole move member, rfl⟩
  obtain ⟨move, member, task, label⟩ := renamed
  obtain ⟨before, after, rfl⟩ := List.append_of_mem member
  obtain ⟨s, first, rest⟩ := run_append.mp whole
  obtain ⟨rfl, step, later⟩ := run_cons rest
  have preserved : ∀ u e v, Step prim path u e v → Clean prim ⟨u, e, v⟩ ∧ past u.traffic →
      Orderly prim path past u → Orderly prim path past v :=
    fun u e v step ok orderly => step_orderly prim path past u v e step ok.1 ok.2 orderly
  have orderly := run_invariant (Orderly prim path past) (fun move => Clean prim move ∧ past move.pre.traffic) preserved
    (fun move inBefore => seen move (by simp [inBefore])) first (start_orderly prim path past disk openedAt)
  have next := preserved _ _ _ step (seen move (by simp)) orderly
  rw [label] at step
  have replaced := rename_whole prim path plain past _ _ task step orderly
  obtain ⟨_, v, past, written, saved⟩ := run_invariant
    (fun u => Orderly prim path past u ∧ Whole prim past (u.disk.read path))
    (fun move => Clean prim move ∧ past move.pre.traffic)
    (fun u e v step ok both => ⟨preserved u e v step ok both.1, step_whole prim path plain past u v e step both.1 both.2⟩)
    (fun move inAfter => seen move (by simp [inAfter])) later ⟨next, replaced⟩
  obtain ⟨u, visits, rfl⟩ := past
  exact ⟨u, visits, written, saved⟩

end Steps

section Sample

open Sample

def snapshotPath : Path := ⟨"/var/lib/sqnsd", "records", some "db"⟩

theorem persist_runs (path : Path) (s : State) (called : s.writer .maintenance = .called)
    (free : (s.writer .serve).holdsTmp = false)
    (few : s.traffic.store.records.keys.card < 2 ^ 32 ∧ s.traffic.store.bindings.keys.card < 2 ^ 32) :
    ∃ run t, Run (Step prim path) s run t ∧ (∀ move ∈ run, Clean prim move) ∧
      ∃ move ∈ run, ∃ task, move.label = .rename task := by
  let bytes := encodeSnapshot (s.traffic.store.records.ascending.map Prod.snd) s.traffic.store.bindings
  let opened := s.disk.create (path.withExtension "tmp")
  let written := opened.2.write opened.1 bytes
  have owns := (s.disk.create_owns (path.withExtension "tmp")).write bytes
  obtain ⟨after, renamed⟩ := owns.renames path
  let first := s.turn .maintenance (.encoded bytes)
  let second : State := { first.turn .maintenance (.writing opened.1 bytes) with disk := opened.2 }
  let third : State := { second.turn .maintenance (.writing written.1 []) with disk := written.2 }
  let fourth := third.turn .maintenance .synced
  have atEnd : second.writer .maintenance = .writing opened.1 (bytes ++ []) := by
    rw [List.append_nil]
    rfl
  refine ⟨[_, _, _, _, _], _, .cons s first _ _ _ (.encode s .maintenance _ called (Finmap.ascending_iterates _))
    (.cons first second _ _ _ (.create first .maintenance bytes rfl)
      (.cons second third _ _ _ (.write second .maintenance opened.1 bytes [] atEnd)
        (.cons third fourth _ _ _ (.sync third .maintenance written.1 rfl)
          (.cons fourth _ _ _ _ (.rename fourth .maintenance after rfl renamed) (.nil _))))),
    ?_, ?_⟩
  · simp only [List.mem_cons, List.not_mem_nil, or_false, forall_eq_or_imp, forall_eq]
    exact ⟨few, free, trivial, trivial, trivial⟩
  · exact ⟨_, .tail _ (.tail _ (.tail _ (.tail _ (.head _)))), .maintenance, rfl⟩

-- The encoding falls into the middle of a put: its record has been inserted, its
-- key is not bound yet.
theorem snapshot_always_whole_publish :
    ∃ (t : State) (run : List (Transition State (Event ed25519))),
      Run (Step ed25519 snapshotPath) (start ed25519 snapshotPath .empty 0) run t ∧
      ∃ v ∈ visited (start ed25519 snapshotPath .empty 0) run,
        Written (t.disk.read snapshotPath) v.traffic ∧ Saved ed25519 (t.disk.read snapshotPath) v.traffic.store := by
  let opened := start ed25519 snapshotPath .empty 0
  let called : State := { opened.turn .maintenance .called with noted := opened.traffic.store.revision }
  let inserted : State := { called with traffic := called.traffic.insert ed25519 publish 1000 }
  obtain ⟨persists, t, later, clean, renamed⟩ := persist_runs ed25519 snapshotPath inserted
    rfl rfl (by decide +kernel)
  have run : Run (Step ed25519 snapshotPath) opened (⟨_, _, called⟩ :: ⟨_, _, inserted⟩ :: persists) t :=
    .cons opened called _ _ _ (.tick opened rfl (by decide +kernel))
      (.cons called inserted _ _ _ (.traffic called _ _ (.insert _ (wire publish (by simp [known])) 1000)) later)
  refine ⟨t, _, run, snapshot_always_whole ed25519 snapshotPath (by decide) .empty 0 t _ run ?_ ?_⟩
  · intro move member
    rcases List.mem_cons.mp member with rfl | later
    · trivial
    · rcases List.mem_cons.mp later with rfl | inPersist
      · trivial
      · exact clean move inPersist
  · obtain ⟨move, member, label⟩ := renamed
    exact ⟨move, .tail _ (.tail _ member), label⟩

-- `maintenance` has synced its temporary file when `serve` opens the same name
-- for the final snapshot. The rename then puts an empty file at the target.
theorem overlapping_persists_tear :
    ¬ ∀ (path : Path) (disk : Disk Path UInt8) (openedAt : Nat) (t : State) (run : List (Transition State (Event ed25519))),
      Run (Step ed25519 path) (start ed25519 path disk openedAt) run t →
      (∃ move ∈ run, ∃ task, move.label = .rename task) →
      ∃ v ∈ visited (start ed25519 path disk openedAt) run,
        Written (t.disk.read path) v.traffic ∧ Saved ed25519 (t.disk.read path) v.traffic.store := by
  intro claim
  let tmp := snapshotPath.withExtension "tmp"
  let bytes := encodeSnapshot [] ∅
  let s0 := start ed25519 snapshotPath .empty 0
  let mine := s0.disk.create tmp
  let full := mine.2.write mine.1 bytes
  let cut := full.2.create tmp
  obtain ⟨after, renamed⟩ := (full.2.create_owns tmp).renames snapshotPath
  have emptied : after.read snapshotPath = some [] :=
    (full.2.create_owns tmp).rename snapshotPath (by decide) after renamed
  let s1 : State := { s0.turn .maintenance .called with noted := 0 }
  let s2 := s1.turn .maintenance (.encoded bytes)
  let s3 : State := { s2.turn .maintenance (.writing mine.1 bytes) with disk := mine.2 }
  let s4 : State := { s3.turn .maintenance (.writing full.1 []) with disk := full.2 }
  let s5 := s4.turn .maintenance .synced
  let s6 := s5.turn .serve .called
  let s7 := s6.turn .serve (.encoded bytes)
  let s8 : State := { s7.turn .serve (.writing cut.1 bytes) with disk := cut.2 }
  have atEnd : s3.writer .maintenance = .writing mine.1 (bytes ++ []) := by
    rw [List.append_nil]
    rfl
  have empty : Finmap.Iterates ([] : List (PubKey × SignedRecord)) (∅ : Map PubKey SignedRecord) :=
    ⟨List.nodup_nil, by simp⟩
  have run : Run (Step ed25519 snapshotPath) s0 [_, _, _, _, _, _, _, _, _] _ :=
    .cons s0 s1 _ _ _ (.tick s0 rfl (by decide +kernel))
      (.cons s1 s2 _ _ _ (.encode s1 .maintenance [] rfl empty)
        (.cons s2 s3 _ _ _ (.create s2 .maintenance bytes rfl)
          (.cons s3 s4 _ _ _ (.write s3 .maintenance mine.1 bytes [] atEnd)
            (.cons s4 s5 _ _ _ (.sync s4 .maintenance full.1 rfl)
              (.cons s5 s6 _ _ _ (.shutdown s5 rfl)
                (.cons s6 s7 _ _ _ (.encode s6 .serve [] rfl empty)
                  (.cons s7 s8 _ _ _ (.create s7 .serve bytes rfl)
                    (.cons s8 _ _ _ _ (.rename s8 .maintenance after rfl renamed) (.nil _)))))))))
  obtain ⟨_, _, ⟨items, _, written⟩, _⟩ := claim snapshotPath .empty 0 _ _ run
    ⟨_, .tail _ (.tail _ (.tail _ (.tail _ (.tail _ (.tail _ (.tail _ (.tail _ (.head _)))))))), .maintenance, rfl⟩
  have nothing := Option.some.inj (emptied.symm.trans written)
  have marked : (encodeSnapshot (items.map Prod.snd) _).length = 0 := congrArg List.length nothing.symm
  simp [encodeSnapshot] at marked

end Sample

end Sqns.SnapshotFile
