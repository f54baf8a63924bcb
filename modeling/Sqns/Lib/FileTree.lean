import Mathlib.Logic.Function.Basic

set_option autoImplicit false

-- A tree of files with POSIX permission bits, and the calls a program makes on it.
namespace FileTree

-- A path from the working directory or, under an empty first name, from the root.
-- `..` and links are not looked into, so a path names one entry.
inductive Path (ν : Type) where
  | here
  | child (dir : Path ν) (name : ν)
deriving DecidableEq

namespace Path

variable {ν : Type}

def parent : Path ν → Path ν
  | here => here
  | child dir _ => dir

-- The path and what leads to it, topmost first.
def along : Path ν → List (Path ν)
  | here => []
  | child dir name => along dir ++ [child dir name]

theorem mem_along_self (dir : Path ν) (name : ν) : child dir name ∈ (child dir name).along := by simp [along]

end Path

inductive Entry (β : Type) where
  | file (mode : Nat) (contents : List β)
  | directory (mode : Nat)
deriving DecidableEq

namespace Entry

variable {β : Type}

def mode : Entry β → Nat
  | file mode _ => mode
  | directory mode => mode

def isFile : Entry β → Bool
  | file _ _ => true
  | directory _ => false

def isDirectory : Entry β → Bool
  | file _ _ => false
  | directory _ => true

def setMode (bits : Nat) : Entry β → Entry β
  | file _ contents => file bits contents
  | directory _ => directory bits

end Entry

inductive Errno where
  | notFound
  | notDirectory
  | isDirectory
  | alreadyThere
  | other (message : String)
deriving DecidableEq

abbrev Disk (ν β : Type) := Path ν → Option (Entry β)

namespace Disk

variable {ν β : Type}

def isFile (d : Disk ν β) (p : Path ν) : Bool := (d p).any Entry.isFile

def isDirectory (d : Disk ν β) (p : Path ν) : Bool := (d p).any Entry.isDirectory

theorem is_file_iff (d : Disk ν β) (p : Path ν) : d.isFile p = true ↔ ∃ entry, d p = some entry ∧ entry.isFile = true := by
  simp [isFile, Option.any_eq_true]

theorem is_directory_iff (d : Disk ν β) (p : Path ν) :
    d.isDirectory p = true ↔ ∃ entry, d p = some entry ∧ entry.isDirectory = true := by
  simp [isDirectory, Option.any_eq_true]

-- Everything on the way is a directory.
def walks (d : Disk ν β) (p : Path ν) : Bool := p.along.all d.isDirectory

def find (d : Disk ν β) : Path ν → Option (Entry β)
  | .here => none
  | .child dir name => if d.walks dir then d (.child dir name) else none

theorem find_some (d : Disk ν β) (p : Path ν) (entry : Entry β) (held : d.find p = some entry) : d p = some entry := by
  cases p with
  | here => cases held
  | child dir name =>
      simp only [find] at held
      split at held
      · exact held
      · cases held

def missing (d : Disk ν β) (p : Path ν) : Errno := if p.parent.along.any d.isFile then .notDirectory else .notFound

end Disk

inductive Call (ν β : Type) where
  | metadata (path : Path ν)
  | read (path : Path ν)
  | create (path : Path ν)
  | write (path : Path ν) (bytes : List β)
  | setPermissions (path : Path ν) (bits : Nat)
  | createDir (path : Path ν)

namespace Call

variable {ν β : Type}

abbrev Reply : Call ν β → Type
  | .metadata _ => Except Errno Nat
  | .read _ => Except Errno (List β)
  | .create _ => Except Errno Unit
  | .write _ _ => Except Errno Unit
  | .setPermissions _ _ => Except Errno Unit
  | .createDir _ => Except Errno Unit

def refused (e : Errno) : (c : Call ν β) → c.Reply
  | .metadata _ => .error e
  | .read _ => .error e
  | .create _ => .error e
  | .write _ _ => .error e
  | .setPermissions _ _ => .error e
  | .createDir _ => .error e

def path : Call ν β → Path ν
  | .metadata path => path
  | .read path => path
  | .create path => path
  | .write path _ => path
  | .setPermissions path _ => path
  | .createDir path => path

variable [DecidableEq ν] (umask : Nat)

-- The caller owns what is there. `create` is the open of a whole-file write: it
-- empties a file and leaves its mode. `write` is at the start of the file, over
-- what others have put there since it was opened. A directory that is already
-- there is as good as one just made.
def perform : (c : Call ν β) → Disk ν β → c.Reply × Disk ν β
  | .metadata p, d =>
      match d.find p with
      | some entry => (.ok entry.mode, d)
      | none => (.error (d.missing p), d)
  | .read p, d =>
      match d.find p with
      | some (.file _ contents) => (.ok contents, d)
      | some (.directory _) => (.error .isDirectory, d)
      | none => (.error (d.missing p), d)
  | .create .here, d => (.error .notFound, d)
  | .create (.child dir name), d =>
      if d.walks dir then
        match d (.child dir name) with
        | some (.file mode _) => (.ok (), Function.update d (.child dir name) (some (.file mode [])))
        | some (.directory _) => (.error .isDirectory, d)
        | none => (.ok (), Function.update d (.child dir name) (some (.file (0o666 &&& (0o777 ^^^ umask)) [])))
      else (.error (d.missing (.child dir name)), d)
  | .write p bytes, d =>
      match d p with
      | some (.file mode contents) => (.ok (), Function.update d p (some (.file mode (bytes ++ contents.drop bytes.length))))
      | _ => (.error .notFound, d)
  | .setPermissions p bits, d =>
      match d.find p with
      | some entry => (.ok (), Function.update d p (some (entry.setMode bits)))
      | none => (.error (d.missing p), d)
  | .createDir .here, d => (.error .notFound, d)
  | .createDir (.child dir name), d =>
      if d.walks dir then
        match d (.child dir name) with
        | some (.directory _) => (.ok (), d)
        | some (.file _ _) => (.error .alreadyThere, d)
        | none => (.ok (), Function.update d (.child dir name) (some (.directory (0o777 &&& (0o777 ^^^ umask)))))
      else (.error (d.missing (.child dir name)), d)

-- A call may also fail for a reason of the system's own, a write after some of
-- its bytes.
inductive Performs : (c : Call ν β) → Disk ν β → c.Reply → Disk ν β → Prop where
  | done (c : Call ν β) (d : Disk ν β) : Performs c d (perform umask c d).1 (perform umask c d).2
  | refused (c : Call ν β) (d : Disk ν β) (e : Errno) : Performs c d (c.refused e) d
  | partly (p : Path ν) (some_ rest : List β) (d : Disk ν β) (e : Errno) :
      Performs (.write p (some_ ++ rest)) d (.error e) (perform umask (.write p some_) d).2

theorem performs_cases (c : Call ν β) (d after : Disk ν β) (a : c.Reply) (performs : Performs umask c d a after) :
    (a = (perform umask c d).1 ∧ after = (perform umask c d).2) ∨ ∃ e, a = c.refused e := by
  cases performs with
  | done => exact .inl ⟨rfl, rfl⟩
  | refused => exact .inr ⟨_, rfl⟩
  | partly p some_ rest => exact .inr ⟨_, rfl⟩

section Answers

variable (d after : Disk ν β) (p : Path ν)

theorem metadata_ok (mode : Nat) (performs : Performs umask (.metadata p) d (.ok mode) after) :
    ∃ entry, d p = some entry ∧ entry.mode = mode := by
  rcases performs_cases umask _ d after _ performs with ⟨answer, _⟩ | ⟨e, answer⟩
  · simp only [perform] at answer
    split at answer
    · rename_i entry held
      exact ⟨entry, Disk.find_some d p entry held, (Except.ok.inj answer).symm⟩
    · cases answer
  · cases answer

theorem read_ok (contents : List β) (performs : Performs umask (.read p) d (.ok contents) after) :
    ∃ mode, d p = some (.file mode contents) := by
  rcases performs_cases umask _ d after _ performs with ⟨answer, _⟩ | ⟨e, answer⟩
  · simp only [perform] at answer
    split at answer
    · rename_i mode held found
      rw [Except.ok.inj answer]
      exact ⟨mode, Disk.find_some d p _ found⟩
    · cases answer
    · cases answer
  · cases answer

theorem create_ok (performs : Performs umask (.create p) d (.ok ()) after) :
    d.walks p.parent = true ∧ after.isFile p = true := by
  rcases performs_cases umask _ d after _ performs with ⟨answer, same⟩ | ⟨e, answer⟩
  · subst same
    cases p with
    | here => cases answer
    | child dir name =>
        simp only [perform] at answer ⊢
        split at answer
        · rename_i walks
          rw [if_pos walks]
          split at answer
          · simp [Path.parent, walks, Disk.isFile, Entry.isFile]
          · cases answer
          · simp [Path.parent, walks, Disk.isFile, Entry.isFile]
        · cases answer
  · cases answer

theorem permissions_ok (bits : Nat) (performs : Performs umask (.setPermissions p bits) d (.ok ()) after) :
    ∃ entry, d p = some entry ∧ after p = some (entry.setMode bits) := by
  rcases performs_cases umask _ d after _ performs with ⟨answer, same⟩ | ⟨e, answer⟩
  · subst same
    simp only [perform] at answer ⊢
    split at answer
    · rename_i entry held
      exact ⟨entry, Disk.find_some d p entry held, Function.update_self _ _ _⟩
    · cases answer
  · cases answer

end Answers

-- What becomes of the entry a call is about. Nothing is removed, and only
-- `setPermissions` changes the bits of what is there.
inductive Change (c : Call ν β) : Option (Entry β) → Option (Entry β) → Prop where
  | kept (entry : Option (Entry β)) : Change c entry entry
  | created (bits : Nat) : Change c none (some (.file bits []))
  | made (bits : Nat) : Change c none (some (.directory bits))
  | filled (mode : Nat) (old new : List β) : Change c (some (.file mode old)) (some (.file mode new))
  | set (p : Path ν) (bits : Nat) (entry : Entry β) (own : c = .setPermissions p bits) :
      Change c (some entry) (some (entry.setMode bits))

theorem perform_change (c : Call ν β) (d : Disk ν β) :
    ∃ entry, (perform umask c d).2 = Function.update d c.path entry ∧ Change c (d c.path) entry := by
  have same : ∃ entry, d = Function.update d c.path entry ∧ Change c (d c.path) entry :=
    ⟨d c.path, (Function.update_eq_self _ _).symm, .kept _⟩
  cases c with
  | metadata q =>
      simp only [perform]
      split
      · exact same
      · exact same
  | read q =>
      simp only [perform]
      split
      · exact same
      · exact same
      · exact same
  | create q =>
      cases q with
      | here => exact same
      | child dir name =>
          simp only [perform]
          split
          · split
            · rename_i mode contents held
              refine ⟨_, rfl, ?_⟩
              rw [path, held]
              exact .filled mode contents []
            · exact same
            · rename_i absent
              refine ⟨_, rfl, ?_⟩
              rw [path, absent]
              exact .created _
          · exact same
  | write q bytes =>
      simp only [perform]
      split
      · rename_i mode contents held
        refine ⟨_, rfl, ?_⟩
        rw [path, held]
        exact .filled mode contents _
      · exact same
  | setPermissions q bits =>
      simp only [perform]
      split
      · rename_i entry held
        refine ⟨_, rfl, ?_⟩
        rw [path, Disk.find_some d q entry held]
        exact .set q bits entry rfl
      · exact same
  | createDir q =>
      cases q with
      | here => exact same
      | child dir name =>
          simp only [perform]
          split
          · split
            · exact same
            · exact same
            · rename_i absent
              refine ⟨_, rfl, ?_⟩
              rw [path, absent]
              exact .made _
          · exact same

theorem performs_change (c : Call ν β) (d after : Disk ν β) (a : c.Reply) (performs : Performs umask c d a after) :
    ∃ entry, after = Function.update d c.path entry ∧ Change c (d c.path) entry := by
  cases performs with
  | done => exact perform_change umask c d
  | refused => exact ⟨d c.path, (Function.update_eq_self _ _).symm, .kept _⟩
  | partly p some_ rest =>
      obtain ⟨entry, same, change⟩ := perform_change umask (.write p some_) d
      refine ⟨entry, same, ?_⟩
      change Change _ (d p) entry at change
      change Change _ (d p) entry
      generalize d p = old at change
      cases change with
      | kept => exact .kept _
      | created bits => exact .created bits
      | made bits => exact .made bits
      | filled mode old new => exact .filled mode old new
      | set q bits entry own => cases own

-- What is there stays what it is.
theorem performs_entry (c : Call ν β) (d after : Disk ν β) (a : c.Reply) (performs : Performs umask c d a after) (p : Path ν)
    (entry : Entry β) (held : d p = some entry) :
    ∃ later, after p = some later ∧ later.isFile = entry.isFile ∧ later.isDirectory = entry.isDirectory ∧
      (later.mode = entry.mode ∨ c = .setPermissions p later.mode) := by
  obtain ⟨changed, rfl, change⟩ := performs_change umask c d after a performs
  by_cases here : p = c.path
  · subst here
    rw [held] at change
    rw [Function.update_self]
    cases change with
    | kept => exact ⟨entry, rfl, rfl, rfl, .inl rfl⟩
    | filled mode old new => exact ⟨.file mode new, rfl, rfl, rfl, .inl rfl⟩
    | set q bits entry own =>
        subst own
        cases entry with
        | file mode contents => exact ⟨.file bits contents, rfl, rfl, rfl, .inr rfl⟩
        | directory mode => exact ⟨.directory bits, rfl, rfl, rfl, .inr rfl⟩
  · rw [Function.update_of_ne here]
    exact ⟨entry, held, rfl, rfl, .inl rfl⟩

end Call

-- Bits beyond the owner's.
def Shared (mode : Nat) : Prop := mode &&& 0o077 ≠ 0

instance shared_decidable (mode : Nat) : Decidable (Shared mode) := inferInstanceAs (Decidable (mode &&& 0o077 ≠ 0))

namespace Disk

variable {ν β : Type}

def Private (d : Disk ν β) (p : Path ν) : Prop := ∃ entry, d p = some entry ∧ entry.isFile = true ∧ ¬ Shared entry.mode

def Closed (d : Disk ν β) (p : Path ν) : Prop := ∃ entry, d p = some entry ∧ entry.isDirectory = true ∧ ¬ Shared entry.mode

-- Others get at the file: its own bits let them, and no directory on the way
-- keeps them out.
def Exposed (d : Disk ν β) (p : Path ν) : Prop :=
  (∃ entry, d p = some entry ∧ entry.isFile = true ∧ Shared entry.mode) ∧ ∀ dir ∈ p.parent.along, ¬ d.Closed dir

section Tightening

variable (on : Path ν → Prop)

-- Of the paths in `on`, nothing goes away and nothing is opened up. Anything may
-- happen elsewhere.
structure Tightens (d after : Disk ν β) : Prop where
  files : ∀ p, on p → d.isFile p = true → after.isFile p = true
  kept : ∀ p, on p → d.Private p → after.Private p
  closed : ∀ p, on p → d.Closed p → after.Closed p

theorem tightens_still (d : Disk ν β) : Tightens on d d := ⟨fun _ _ h => h, fun _ _ h => h, fun _ _ h => h⟩

theorem tightens_joined (a b c : Disk ν β) (first : Tightens on a b) (second : Tightens on b c) : Tightens on a c where
  files p here file := second.files p here (first.files p here file)
  kept p here held := second.kept p here (first.kept p here held)
  closed p here shut := second.closed p here (first.closed p here shut)

end Tightening

theorem closed_hidden (d : Disk ν β) (p dir : Path ν) (on : dir ∈ p.parent.along) (shut : d.Closed dir) : ¬ d.Exposed p :=
  fun exposed => exposed.2 dir on shut

variable [DecidableEq ν] (umask : Nat)

-- A call tightens unless it sets bits that others have a share in.
theorem performs_tightens (c : Call ν β) (d after : Disk ν β) (a : c.Reply) (performs : c.Performs umask d a after)
    (strict : ∀ p bits, c = .setPermissions p bits → ¬ Shared bits) (on : Path ν → Prop) : Tightens on d after := by
  have entry := Call.performs_entry umask c d after a performs
  have strictly : ∀ p e later, d p = some e → ¬ Shared e.mode → after p = some later →
      (later.mode = e.mode ∨ c = .setPermissions p later.mode) → ¬ Shared later.mode := by
    intro p e later _ hidden _ bits
    rcases bits with same | set
    · rw [same]
      exact hidden
    · exact strict p later.mode set
  refine ⟨?_, ?_, ?_⟩
  · intro p _ held
    obtain ⟨e, found, file⟩ := (is_file_iff d p).mp held
    obtain ⟨later, there, sameFile, _⟩ := entry p e found
    exact (is_file_iff after p).mpr ⟨later, there, sameFile.trans file⟩
  · intro p _ held
    obtain ⟨e, found, file, hidden⟩ := held
    obtain ⟨later, there, sameFile, _, bits⟩ := entry p e found
    exact ⟨later, there, sameFile.trans file, strictly p e later found hidden there bits⟩
  · intro p _ held
    obtain ⟨e, found, directory, hidden⟩ := held
    obtain ⟨later, there, _, sameDirectory, bits⟩ := entry p e found
    exact ⟨later, there, sameDirectory.trans directory, strictly p e later found hidden there bits⟩

end Disk

end FileTree
