import Mathlib.Logic.Function.Basic

set_option autoImplicit false

namespace Files

-- Files as POSIX has them. A directory entry names an inode, and a handle keeps
-- its inode and its own offset whatever becomes of the name. An unlinked inode
-- is never handed out again, and no two names share one.
structure Disk (ν β : Type) where
  names : ν → Option Nat
  contents : Nat → List β
  next : Nat
  allocated : ∀ name inode, names name = some inode → inode < next
  single : ∀ a b inode, names a = some inode → names b = some inode → a = b

structure Handle where
  inode : Nat
  offset : Nat

namespace Disk

variable {ν β : Type}

def empty : Disk ν β where
  names _ := none
  contents _ := []
  next := 0
  allocated _ _ found := by cases found
  single _ _ _ found := by cases found

def read (d : Disk ν β) (name : ν) : Option (List β) := (d.names name).map d.contents

def setContents (d : Disk ν β) (inode : Nat) (bytes : List β) : Disk ν β :=
  { d with contents := Function.update d.contents inode bytes }

theorem set_contents_frame (d : Disk ν β) (inode : Nat) (bytes : List β) (name : ν) (apart : d.names name ≠ some inode) :
    (d.setContents inode bytes).read name = d.read name := by
  simp only [read, setContents]
  cases named : d.names name with
  | none => rfl
  | some elsewhere =>
      have different : elsewhere ≠ inode := fun same => apart (same ▸ named)
      rw [Option.map_some, Option.map_some, Function.update_of_ne different]

section Names

variable [DecidableEq ν]

def link (d : Disk ν β) (name : ν) : Disk ν β where
  names := Function.update d.names name (some d.next)
  contents := d.contents
  next := d.next + 1
  allocated other inode found := by
    by_cases same : other = name
    · rw [same, Function.update_self, Option.some.injEq] at found
      exact found ▸ Nat.lt_succ_self _
    · rw [Function.update_of_ne same] at found
      exact Nat.lt_succ_of_lt (d.allocated other inode found)
  single a b inode first second := by
    have old : ∀ other, other ≠ name → Function.update d.names name (some d.next) other = some inode → inode < d.next := by
      intro other different found
      rw [Function.update_of_ne different] at found
      exact d.allocated other inode found
    by_cases sameA : a = name
    · by_cases sameB : b = name
      · rw [sameA, sameB]
      · rw [sameA, Function.update_self, Option.some.injEq] at first
        exact False.elim (Nat.lt_irrefl _ (first ▸ old b sameB second))
    · by_cases sameB : b = name
      · rw [sameB, Function.update_self, Option.some.injEq] at second
        exact False.elim (Nat.lt_irrefl _ (second ▸ old a sameA first))
      · rw [Function.update_of_ne sameA] at first
        rw [Function.update_of_ne sameB] at second
        exact d.single a b inode first second

-- `open` with O_CREAT and O_TRUNC: an existing file is emptied in place.
def create (d : Disk ν β) (name : ν) : Handle × Disk ν β :=
  match d.names name with
  | some inode => (⟨inode, 0⟩, d.setContents inode [])
  | none => (⟨d.next, 0⟩, (d.link name).setContents d.next [])

def move (d : Disk ν β) (source target : ν) (inode : Nat) (found : d.names source = some inode) : Disk ν β where
  names := Function.update (Function.update d.names source none) target (some inode)
  contents := d.contents
  next := d.next
  allocated name other named := by
    by_cases here : name = target
    · rw [here, Function.update_self, Option.some.injEq] at named
      exact named ▸ d.allocated source inode found
    · rw [Function.update_of_ne here] at named
      by_cases there : name = source
      · rw [there, Function.update_self] at named
        cases named
      · rw [Function.update_of_ne there] at named
        exact d.allocated name other named
  single a b other first second := by
    have old : ∀ name, name ≠ target →
        Function.update (Function.update d.names source none) target (some inode) name = some other →
        name ≠ source ∧ d.names name = some other := by
      intro name different named
      rw [Function.update_of_ne different] at named
      by_cases there : name = source
      · rw [there, Function.update_self] at named
        cases named
      · exact ⟨there, by rwa [Function.update_of_ne there] at named⟩
    by_cases sameA : a = target
    · by_cases sameB : b = target
      · rw [sameA, sameB]
      · rw [sameA, Function.update_self, Option.some.injEq] at first
        obtain ⟨different, named⟩ := old b sameB second
        exact False.elim (different (d.single b source other named (first ▸ found)))
    · by_cases sameB : b = target
      · rw [sameB, Function.update_self, Option.some.injEq] at second
        obtain ⟨different, named⟩ := old a sameA first
        exact False.elim (different (d.single a source other named (second ▸ found)))
      · exact d.single a b other (old a sameA first).2 (old b sameB second).2

-- Renaming a file onto itself does nothing; a missing source is an error.
def rename (d : Disk ν β) (source target : ν) : Option (Disk ν β) :=
  match found : d.names source with
  | none => none
  | some inode => some (if source = target then d else d.move source target inode found)

end Names

-- A write past the end of a file that was cut short fills the gap with zeros.
def overwrite [Inhabited β] (file : List β) (offset : Nat) (chunk : List β) : List β :=
  file.take offset ++ List.replicate (offset - file.length) default ++ chunk ++ file.drop (offset + chunk.length)

def write [Inhabited β] (d : Disk ν β) (file : Handle) (chunk : List β) : Handle × Disk ν β :=
  (⟨file.inode, file.offset + chunk.length⟩,
    d.setContents file.inode (overwrite (d.contents file.inode) file.offset chunk))

-- The handle has written exactly `bytes`, and nobody has touched the file or its
-- name since it was created.
structure Owns (d : Disk ν β) (name : ν) (file : Handle) (bytes : List β) : Prop where
  named : d.names name = some file.inode
  whole : d.contents file.inode = bytes
  atEnd : file.offset = bytes.length

theorem overwrite_end [Inhabited β] (file chunk : List β) : overwrite file file.length chunk = file ++ chunk := by
  simp [overwrite]

section Owned

variable {d : Disk ν β} {name : ν} {file : Handle} {bytes : List β}

theorem Owns.write [Inhabited β] (owns : d.Owns name file bytes) (chunk : List β) :
    (d.write file chunk).2.Owns name (d.write file chunk).1 (bytes ++ chunk) := by
  refine ⟨owns.named, ?_, ?_⟩
  · simp only [Disk.write, setContents, Function.update_self]
    rw [owns.atEnd, owns.whole, overwrite_end]
  · simp [Disk.write, owns.atEnd]

theorem Owns.write_frame [Inhabited β] (owns : d.Owns name file bytes) (chunk : List β) (other : ν)
    (different : other ≠ name) : (d.write file chunk).2.read other = d.read other :=
  set_contents_frame d file.inode _ other (fun named => different (d.single other name file.inode named owns.named))

end Owned

section Rules

variable [DecidableEq ν] (d : Disk ν β) (name : ν)

theorem create_owns : (d.create name).2.Owns name (d.create name).1 [] := by
  unfold create
  cases found : d.names name with
  | some inode => exact ⟨found, Function.update_self _ _ _, rfl⟩
  | none => exact ⟨Function.update_self _ _ _, Function.update_self _ _ _, rfl⟩

theorem create_frame (other : ν) (different : other ≠ name) : (d.create name).2.read other = d.read other := by
  unfold create
  cases found : d.names name with
  | some inode => exact set_contents_frame d inode [] other (fun named => different (d.single other name inode named found))
  | none =>
      have kept : (d.link name).names other = d.names other := Function.update_of_ne different _ _
      have unnamed : (d.link name).names other ≠ some d.next := by
        rw [kept]
        exact fun named => Nat.lt_irrefl _ (d.allocated other d.next named)
      refine (set_contents_frame _ d.next [] other unnamed).trans ?_
      rw [read, read, kept]
      rfl

theorem Owns.renames {d : Disk ν β} {name : ν} {file : Handle} {bytes : List β} (owns : d.Owns name file bytes)
    (target : ν) : ∃ after, d.rename name target = some after := by
  unfold Disk.rename
  split
  · rename_i missing
    rw [owns.named] at missing
    cases missing
  · exact ⟨_, rfl⟩

theorem Owns.rename {d : Disk ν β} {name : ν} {file : Handle} {bytes : List β} (owns : d.Owns name file bytes)
    (target : ν) (different : name ≠ target) (after : Disk ν β) (renamed : d.rename name target = some after) :
    after.read target = some bytes := by
  unfold Disk.rename at renamed
  split at renamed
  · cases renamed
  · rename_i inode found
    rw [if_neg different, Option.some.injEq] at renamed
    have same : inode = file.inode := Option.some.inj (found.symm.trans owns.named)
    have here : after.names target = some inode := by
      rw [← renamed]
      exact Function.update_self _ _ _
    have kept : after.contents = d.contents := by
      rw [← renamed]
      rfl
    rw [read, here, Option.map_some, kept, same, owns.whole]

end Rules

end Disk

end Files
