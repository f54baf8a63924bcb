import Sqns.KeyFiles
import Sqns.Trail

set_option autoImplicit false

namespace Sqns.KeyFiles

open Calls FileTree Text Trace

section Quiet

variable (umask : Nat) (ours needed : List Path)

-- What the others may do: leave our files alone, put none in the way and remove
-- no directory.
structure Undisturbed (d after : Disk) : Prop where
  kept : ∀ p ∈ ours, after p = d p
  clear : ∀ p ∈ needed, d.isFile p = false → after.isFile p = false
  stay : ∀ p, d.isDirectory p = true → after.isDirectory p = true

theorem undisturbed_still (d : Disk) : Undisturbed ours needed d d := ⟨fun _ _ => rfl, fun _ _ same => same, fun _ same => same⟩

theorem undisturbed_joined (a b c : Disk) (first : Undisturbed ours needed a b) (second : Undisturbed ours needed b c) :
    Undisturbed ours needed a c where
  kept p member := (second.kept p member).trans (first.kept p member)
  clear p member free := second.clear p member (first.clear p member free)
  stay p directory := second.stay p (first.stay p directory)

-- What a command knows of the disk: our files, and directories that are made.
structure Layout where
  entry : Path → Option (FileTree.Entry UInt8)
  made : List Path

namespace Layout

def put (l : Layout) (p : Path) (entry : FileTree.Entry UInt8) : Layout := ⟨Function.update l.entry p (some entry), l.made⟩

def reach (l : Layout) (dirs : List Path) : Layout := ⟨l.entry, dirs ++ l.made⟩

@[simp] theorem put_self (l : Layout) (p : Path) (entry : FileTree.Entry UInt8) : (l.put p entry).entry p = some entry :=
  Function.update_self _ _ _

theorem put_other (l : Layout) (p q : Path) (entry : FileTree.Entry UInt8) (other : q ≠ p) :
    (l.put p entry).entry q = l.entry q :=
  Function.update_of_ne other _ _

@[simp] theorem put_made (l : Layout) (p : Path) (entry : FileTree.Entry UInt8) : (l.put p entry).made = l.made := rfl

@[simp] theorem put_put (l : Layout) (p : Path) (first second : FileTree.Entry UInt8) :
    (l.put p first).put p second = l.put p second := by
  simp [put, Function.update_idem]

-- The same files, and these directories besides.
structure Reaches (l : Layout) (dirs : List Path) (m : Layout) : Prop where
  entry : m.entry = l.entry
  made : ∀ dir, dir ∈ dirs ∨ dir ∈ l.made → dir ∈ m.made

theorem reaches_still (l : Layout) : l.Reaches [] l := ⟨rfl, fun _ known => known.resolve_left (by simp)⟩

theorem Reaches.joined {l m n : Layout} {first second : List Path} (one : l.Reaches first m) (two : m.Reaches second n) :
    l.Reaches (first ++ second) n := by
  refine ⟨two.entry.trans one.entry, ?_⟩
  intro dir known
  rcases known with listed | older
  · rcases List.mem_append.mp listed with early | late
    · exact two.made dir (.inr (one.made dir (.inl early)))
    · exact two.made dir (.inl late)
  · exact two.made dir (.inr (one.made dir (.inr older)))

theorem Reaches.put {l m : Layout} {dirs : List Path} (reaches : l.Reaches dirs m) (p : Path) (entry : FileTree.Entry UInt8) :
    (l.put p entry).Reaches dirs (m.put p entry) := by
  refine ⟨?_, reaches.made⟩
  simp only [Layout.put, reaches.entry]

theorem Reaches.fewer {l m : Layout} {first second : List Path} (reaches : l.Reaches (first ++ second) m) :
    l.Reaches second m := by
  refine ⟨reaches.entry, ?_⟩
  intro dir known
  exact reaches.made dir (known.imp (List.mem_append_right first) id)

@[simp] theorem reach_entry (l : Layout) (dirs : List Path) : (l.reach dirs).entry = l.entry := rfl

end Layout

structure Laid (l : Layout) (d : Disk) : Prop where
  held : ∀ p ∈ ours, d p = l.entry p
  clear : ∀ p ∈ needed, d.isFile p = false
  made : ∀ p ∈ l.made, d.isDirectory p = true

theorem laid_later (l : Layout) (d after : Disk) (laid : Laid ours needed l d) (moved : Undisturbed ours needed d after) :
    Laid ours needed l after where
  held p member := (moved.kept p member).trans (laid.held p member)
  clear p member := moved.clear p member (laid.clear p member)
  made p member := moved.stay p (laid.made p member)

-- The command succeeds, with a result and a disk as `R` has them.
def Lays {α : Type} (R : α → Layout → Prop) (p : Command α) (d : Disk) : Prop :=
  Meets (fun c d a after => FileTree.Call.perform umask c d = (a, after)) (Undisturbed ours needed) (fun _ _ _ => True)
    (fun r t => ∃ a, r = .ok a ∧ ∃ l, R a l ∧ Laid ours needed l t) p d

variable {umask ours needed} {α β : Type}

theorem lays_bind {R : α → Layout → Prop} {S : β → Layout → Prop} {p : Command α} {next : α → Command β} {d : Disk}
    (first : Lays umask ours needed R p d)
    (onward : ∀ a l t, R a l → Laid ours needed l t → Lays umask ours needed S (next a) t) :
    Lays umask ours needed S (p >>= next) d := by
  refine Meets.bind (undisturbed_still ours needed) first ?_ ?_
  · intro a t ended
    obtain ⟨b, same, l, result, laid⟩ := ended
    cases same
    exact onward a l t result laid
  · intro e t ended
    obtain ⟨b, same, _⟩ := ended
    cases same

theorem lays_pure {R : α → Layout → Prop} {a : α} {l : Layout} {d : Disk} (result : R a l) (laid : Laid ours needed l d) :
    Lays umask ours needed R (pure a) d :=
  fun t moved => ⟨a, rfl, l, result, laid_later ours needed l d t laid moved⟩

theorem lays_except {R : α → Layout → Prop} {r : Except Error α} {a : α} {l : Layout} {d : Disk} (ok : r = .ok a)
    (result : R a l) (laid : Laid ours needed l d) : Lays umask ours needed R (.ofExcept r) d := by
  subst ok
  exact lays_pure result laid

theorem lays_ask {c : Call} {R : c.Reply → Layout → Prop} {l : Layout} {d : Disk} (laid : Laid ours needed l d)
    (does : ∀ t, Laid ours needed l t →
      ∃ l', R (FileTree.Call.perform umask c t).1 l' ∧ Laid ours needed l' (FileTree.Call.perform umask c t).2) :
    Lays umask ours needed R (.ask c) d := by
  refine Meets.ask ?_
  intro t moved a after performed
  obtain ⟨l', result, later⟩ := does t (laid_later ours needed l d t laid moved)
  rw [performed] at result later
  exact ⟨trivial, fun u again => ⟨a, rfl, l', result, laid_later ours needed l' after u later again⟩⟩

theorem lays_attempt {R : α → Layout → Prop} {p : Command (Except Errno α)} {d : Disk}
    (asked : Lays umask ours needed (fun r l => ∃ a, r = .ok a ∧ R a l) p d) : Lays umask ours needed R (attempt p) d := by
  refine lays_bind asked ?_
  intro r l t answered laid
  obtain ⟨a, rfl, result⟩ := answered
  exact lays_pure result laid

theorem lays_weaken {R S : α → Layout → Prop} {p : Command α} {d : Disk} (lays : Lays umask ours needed R p d)
    (weaker : ∀ a l, R a l → S a l) : Lays umask ours needed S p d := by
  refine Meets.weaken lays ?_
  intro r t ended
  obtain ⟨a, same, l, result, laid⟩ := ended
  exact ⟨a, same, l, weaker a l result, laid⟩

end Quiet

section Calls

variable {umask : Nat} {ours needed : List Path} (l : Layout) (d : Disk)

theorem laid_walks (p : Path) (laid : Laid ours needed l d) (made : ∀ dir ∈ p.along, dir ∈ l.made) : d.walks p = true :=
  List.all_eq_true.mpr (fun dir on => laid.made dir (made dir on))

theorem laid_find (p : Path) (entry : FileTree.Entry UInt8) (laid : Laid ours needed l d) (own : p ∈ ours) (some_ : p ≠ .here)
    (made : ∀ dir ∈ p.parent.along, dir ∈ l.made) (held : l.entry p = some entry) : d.find p = some entry := by
  cases p with
  | here => exact absurd rfl some_
  | child dir name =>
      simp only [Disk.find]
      rw [if_pos (laid_walks l d dir laid made), laid.held _ own, held]

-- A change to one of our files.
theorem laid_update (p : Path) (entry : FileTree.Entry UInt8) (laid : Laid ours needed l d) (free : p ∉ needed)
    (before : ∀ old, d p = some old → old.isDirectory = false) :
    Laid ours needed (l.put p entry) (Function.update d p (some entry)) where
  held q member := by
    by_cases same : q = p
    · rw [same, Function.update_self, Layout.put_self]
    · rw [Function.update_of_ne same, Layout.put_other l p q entry same]
      exact laid.held q member
  clear q member := by
    have other : q ≠ p := fun same => free (same ▸ member)
    simp only [Disk.isFile, Function.update_of_ne other]
    exact laid.clear q member
  made q member := by
    have other : q ≠ p := by
      intro same
      obtain ⟨old, held, directory⟩ := (Disk.is_directory_iff d q).mp (laid.made q member)
      rw [same] at held
      rw [before old held] at directory
      cases directory
    simp only [Disk.isDirectory, Function.update_of_ne other]
    exact laid.made q member

variable (p : Path)

theorem lays_absent (laid : Laid ours needed l d) (own : p ∈ ours) (absent : l.entry p = none) :
    Lays umask ours needed (fun there m => there = false ∧ m = l) (pathExists p) d := by
  have asked : Lays umask ours needed (fun r m => (∃ e, r = .error e) ∧ m = l) (metadata p) d := by
    refine lays_ask laid ?_
    intro t still
    have none_ : t.find p = none := by
      cases found : t.find p with
      | none => rfl
      | some entry =>
          have held := Disk.find_some t p entry found
          rw [still.held p own, absent] at held
          cases held
    refine ⟨l, ⟨⟨t.missing p, ?_⟩, rfl⟩, ?_⟩
    · simp only [FileTree.Call.perform, none_]
    · simpa only [FileTree.Call.perform, none_] using still
  refine lays_bind asked ?_
  intro r m t answered still
  obtain ⟨⟨e, rfl⟩, rfl⟩ := answered
  exact lays_pure ⟨rfl, rfl⟩ still

theorem lays_present (laid : Laid ours needed l d) (own : p ∈ ours) (some_ : p ≠ .here)
    (made : ∀ dir ∈ p.parent.along, dir ∈ l.made) (entry : FileTree.Entry UInt8) (held : l.entry p = some entry) :
    Lays umask ours needed (fun mode m => mode = .ok entry.mode ∧ m = l) (metadata p) d := by
  refine lays_ask laid ?_
  intro t still
  have found := laid_find l t p entry still own some_ made held
  refine ⟨l, ⟨?_, rfl⟩, ?_⟩
  · simp only [FileTree.Call.perform, found]
  · simpa only [FileTree.Call.perform, found] using still

theorem lays_exists (laid : Laid ours needed l d) (own : p ∈ ours) (some_ : p ≠ .here)
    (made : ∀ dir ∈ p.parent.along, dir ∈ l.made) (entry : FileTree.Entry UInt8) (held : l.entry p = some entry) :
    Lays umask ours needed (fun there m => there = true ∧ m = l) (pathExists p) d := by
  refine lays_bind (lays_present l d p laid own some_ made entry held) ?_
  intro r m t answered still
  obtain ⟨rfl, rfl⟩ := answered
  exact lays_pure ⟨rfl, rfl⟩ still

theorem lays_create_dir (dir : Path) (name : Str) (laid : Laid ours needed l d) (need : dir.child name ∈ needed)
    (apart : ∀ q ∈ needed, q ∉ ours) (made : ∀ up ∈ dir.along, up ∈ l.made) :
    Lays umask ours needed (fun _ m => m = l.reach [dir.child name]) (attempt (createDir (dir.child name))) d := by
  refine lays_attempt (lays_ask laid ?_)
  intro t still
  have walks := laid_walks l t dir still made
  refine ⟨l.reach [dir.child name], ?_⟩
  simp only [FileTree.Call.perform, if_pos walks]
  have reached : ∀ after : Disk, (∀ q ∈ ours, after q = t q) → (∀ q, q ≠ dir.child name → after q = t q) →
      after.isDirectory (dir.child name) = true → Laid ours needed (l.reach [dir.child name]) after := by
    intro after same others directory
    have isFile : after.isFile (dir.child name) = false := by
      obtain ⟨entry, held, isDirectory⟩ := (Disk.is_directory_iff after _).mp directory
      cases entry with
      | file => cases isDirectory
      | directory bits => simp [Disk.isFile, held, FileTree.Entry.isFile]
    refine ⟨?_, ?_, ?_⟩
    · exact fun q member => (same q member).trans (still.held q member)
    · intro q member
      by_cases here : q = dir.child name
      · rw [here]
        exact isFile
      · simp only [Disk.isFile, others q here]
        exact still.clear q member
    · intro q member
      by_cases here : q = dir.child name
      · rw [here]
        exact directory
      · simp only [Disk.isDirectory, others q here]
        rcases List.mem_append.mp member with fresh | older
        · exact absurd (List.mem_singleton.mp fresh) here
        · exact still.made q older
  split
  · rename_i bits held
    exact ⟨⟨(), rfl, trivial⟩, reached t (fun _ _ => rfl) (fun _ _ => rfl) ((Disk.is_directory_iff t _).mpr ⟨_, held, rfl⟩)⟩
  · rename_i bits contents held
    have free := still.clear _ need
    simp [Disk.isFile, held, FileTree.Entry.isFile] at free
  · refine ⟨⟨(), rfl, trivial⟩, reached _ ?_ ?_ ?_⟩
    · intro q member
      refine Function.update_of_ne ?_ _ _
      rintro rfl
      exact apart _ need member
    · exact fun q other => Function.update_of_ne other _ _
    · exact (Disk.is_directory_iff _ _).mpr ⟨_, Function.update_self _ _ _, rfl⟩

theorem lays_create_dir_all (laid : Laid ours needed l d) (need : ∀ dir ∈ p.along, dir ∈ needed)
    (apart : ∀ q ∈ needed, q ∉ ours) :
    Lays umask ours needed (fun _ m => l.Reaches p.along m) (createDirAll p) d := by
  induction p with
  | here => exact lays_pure l.reaches_still laid
  | child up name ih =>
      refine lays_bind (ih (fun dir on => need dir (by simp [FileTree.Path.along, on]))) ?_
      intro _ m t reached still
      refine lays_weaken (lays_create_dir m t up name still (need _ (FileTree.Path.mem_along_self up name)) apart
        (fun dir on => reached.made dir (.inl on))) ?_
      intro _ m' same
      subst same
      refine ⟨reached.entry, ?_⟩
      intro dir known
      simp only [FileTree.Path.along, List.mem_append, List.mem_singleton] at known
      rcases known with (above | rfl) | older
      · exact List.mem_append_right _ (reached.made dir (.inl above))
      · exact List.mem_append_left _ (by simp)
      · exact List.mem_append_right _ (reached.made dir (.inr older))

-- One of our files is opened anew.
theorem lays_create (laid : Laid ours needed l d) (own : p ∈ ours) (some_ : p ≠ .here) (free : p ∉ needed)
    (made : ∀ dir ∈ p.parent.along, dir ∈ l.made) (before : ∀ old, l.entry p = some old → old.isDirectory = false) :
    Lays umask ours needed (fun _ m => ∃ bits, m = l.put p (.file bits [])) (attempt (create p)) d := by
  cases p with
  | here => exact absurd rfl some_
  | child dir name =>
      refine lays_attempt (lays_ask laid ?_)
      intro t still
      have walks := laid_walks l t dir still made
      have open_ : ∀ old, t (dir.child name) = some old → old.isDirectory = false := by
        intro old held
        rw [still.held _ own] at held
        exact before old held
      simp only [FileTree.Call.perform, if_pos walks]
      split
      · rename_i bits contents held
        exact ⟨_, ⟨(), rfl, bits, rfl⟩, laid_update l t _ _ still free open_⟩
      · rename_i bits held
        have file := open_ _ held
        cases file
      · exact ⟨_, ⟨(), rfl, _, rfl⟩, laid_update l t _ _ still free open_⟩

theorem lays_write (laid : Laid ours needed l d) (own : p ∈ ours) (free : p ∉ needed) (bits : Nat)
    (opened : l.entry p = some (.file bits [])) (bytes : Bytes) :
    Lays umask ours needed (fun _ m => m = l.put p (.file bits bytes)) (attempt (writeAll p bytes)) d := by
  refine lays_attempt (lays_ask laid ?_)
  intro t still
  have held : t p = some (.file bits []) := (still.held p own).trans opened
  refine ⟨l.put p (.file bits bytes), ⟨(), ?_, rfl⟩, ?_⟩
  · simp only [FileTree.Call.perform, held]
  · simp only [FileTree.Call.perform, held, List.drop_nil, List.append_nil]
    refine laid_update l t p _ still free ?_
    intro old same
    cases held.symm.trans same
    rfl

theorem lays_chmod (laid : Laid ours needed l d) (own : p ∈ ours) (some_ : p ≠ .here) (free : p ∉ needed)
    (made : ∀ dir ∈ p.parent.along, dir ∈ l.made) (old bits : Nat) (contents : Bytes)
    (held : l.entry p = some (.file old contents)) :
    Lays umask ours needed (fun _ m => m = l.put p (.file bits contents)) (attempt (setPermissions p bits)) d := by
  refine lays_attempt (lays_ask laid ?_)
  intro t still
  have found := laid_find l t p _ still own some_ made held
  refine ⟨l.put p (.file bits contents), ⟨(), ?_, rfl⟩, ?_⟩
  · simp only [FileTree.Call.perform, found]
  · simp only [FileTree.Call.perform, found]
    refine laid_update l t p _ still free ?_
    intro other same
    cases (Disk.find_some t p _ found).symm.trans same
    rfl

theorem lays_write_file (laid : Laid ours needed l d) (own : p ∈ ours) (some_ : p ≠ .here) (free : p ∉ needed)
    (made : ∀ dir ∈ p.parent.along, dir ∈ l.made) (before : ∀ old, l.entry p = some old → old.isDirectory = false)
    (bytes : Bytes) :
    Lays umask ours needed (fun _ m => ∃ bits, m = l.put p (.file bits bytes)) (writeFile p bytes) d := by
  refine lays_bind (lays_create l d p laid own some_ free made before) ?_
  intro _ m t opened still
  obtain ⟨bits, rfl⟩ := opened
  refine lays_weaken (lays_write _ t p still own free bits (Layout.put_self _ _ _) bytes) ?_
  intro _ m' same
  exact ⟨bits, by rw [same, Layout.put_put]⟩

theorem lays_read (laid : Laid ours needed l d) (own : p ∈ ours) (some_ : p ≠ .here)
    (made : ∀ dir ∈ p.parent.along, dir ∈ l.made) (bits : Nat) (contents : Bytes)
    (held : l.entry p = some (.file bits contents)) :
    Lays umask ours needed (fun r m => r = .ok contents ∧ m = l) (readBytes p) d := by
  refine lays_ask laid ?_
  intro t still
  have found := laid_find l t p _ still own some_ made held
  refine ⟨l, ⟨?_, rfl⟩, ?_⟩
  · simp only [FileTree.Call.perform, found]
  · simpa only [FileTree.Call.perform, found] using still

end Calls

-- A path the session puts a file at.
structure Ours (ours needed : List Path) (p : Path) : Prop where
  own : p ∈ ours
  named : p ≠ .here
  free : p ∉ needed
  above : ∀ dir ∈ p.parent.along, dir ∈ needed

section Home

variable {umask : Nat} {ours needed : List Path} (l : Layout) (d : Disk) (home : Path) (apart : ∀ q ∈ needed, q ∉ ours)
  (need : ∀ dir ∈ home.along, dir ∈ needed) (named : home ≠ .here)

include need named in
theorem lays_look_home (laid : Laid ours needed l d) :
    Lays umask ours needed (fun there m => l.Reaches (if there then home.along else []) m) (pathExists home) d := by
  have asked : Lays umask ours needed (fun r m => l.Reaches (if r.isOk then home.along else []) m)
      (metadata home) d := by
    refine lays_ask laid ?_
    intro t still
    cases found : t.find home with
    | none =>
        simp only [FileTree.Call.perform, found]
        exact ⟨l, l.reaches_still, still⟩
    | some entry =>
        simp only [FileTree.Call.perform, found]
        refine ⟨l.reach home.along, ⟨rfl, fun dir known => List.mem_append.mpr known⟩, still.held, still.clear, ?_⟩
        intro dir member
        rcases List.mem_append.mp member with on | older
        · cases home with
          | here => exact absurd rfl named
          | child up name =>
              simp only [Disk.find] at found
              split at found
              · rename_i walks
                simp only [FileTree.Path.along, List.mem_append, List.mem_singleton] at on
                rcases on with above | rfl
                · exact List.all_eq_true.mp walks dir above
                · have free := still.clear _ (need _ (FileTree.Path.mem_along_self up name))
                  refine (Disk.is_directory_iff t _).mpr ⟨entry, found, ?_⟩
                  cases entry with
                  | file bits contents => simp [Disk.isFile, found, FileTree.Entry.isFile] at free
                  | directory bits => rfl
              · cases found
        · exact still.made dir older
  refine lays_bind asked ?_
  intro r m t reached still
  refine lays_pure ?_ still
  cases r with
  | ok mode => exact reached
  | error e => exact reached

include apart need named

theorem lays_chmod_home (laid : Laid ours needed l d) (made : ∀ dir ∈ home.along, dir ∈ l.made) (bits : Nat) :
    Lays umask ours needed (fun _ m => m = l) (attempt (setPermissions home bits)) d := by
  refine lays_attempt (lays_ask laid ?_)
  intro t still
  cases home with
  | here => exact absurd rfl named
  | child up name =>
      have self := FileTree.Path.mem_along_self up name
      have walks := laid_walks l t up still (fun dir on => made dir (by simp [FileTree.Path.along, on]))
      obtain ⟨entry, held, directory⟩ := (Disk.is_directory_iff t _).mp (still.made _ (made _ self))
      have found : t.find (up.child name) = some entry := by
        simp only [Disk.find]
        rw [if_pos walks, held]
      refine ⟨l, ⟨(), ?_, rfl⟩, ?_⟩
      · simp only [FileTree.Call.perform, found]
      · simp only [FileTree.Call.perform, found]
        have kind : (entry.setMode bits).isDirectory = true ∧ (entry.setMode bits).isFile = false := by
          cases entry with
          | file => cases directory
          | directory => exact ⟨rfl, rfl⟩
        refine ⟨?_, ?_, ?_⟩
        · intro q member
          rw [Function.update_of_ne (by rintro rfl; exact apart _ (need _ self) member)]
          exact still.held q member
        · intro q member
          by_cases here : q = up.child name
          · simp only [here, Disk.isFile, Function.update_self, Option.any_some, kind.2]
          · simp only [Disk.isFile, Function.update_of_ne here]
            exact still.clear q member
        · intro q member
          by_cases here : q = up.child name
          · simp only [here, Disk.isDirectory, Function.update_self, Option.any_some, kind.1]
          · simp only [Disk.isDirectory, Function.update_of_ne here]
            exact still.made q member

theorem lays_ensure (laid : Laid ours needed l d) :
    Lays umask ours needed (fun dir m => dir = home ∧ l.Reaches home.along m) (ensureSqnsDir home) d := by
  refine lays_bind (lays_look_home l d home need named laid) ?_
  intro there m t looked still
  have made : Lays umask ours needed (fun _ n => l.Reaches home.along n) (whenever (!there) (createDirAll home)) t := by
    cases there with
    | true => exact lays_pure looked still
    | false => exact lays_weaken (lays_create_dir_all m t home still need apart) (fun _ n reached => looked.joined reached)
  refine lays_bind made ?_
  intro _ n u reached there
  refine lays_bind (lays_chmod_home n u home apart need named there (fun dir on => reached.made dir (.inl on)) _) ?_
  intro _ n' v same again
  subst same
  exact lays_pure ⟨rfl, reached⟩ again

theorem lays_path_or_default (laid : Laid ours needed l d) (given : Option Path) (name : Str) :
    Lays umask ours needed (fun p m => p = given.getD (home.child name) ∧ l.Reaches (if given = none then home.along else []) m)
      (pathOrDefault home given name) d := by
  cases given with
  | some p => exact lays_pure ⟨rfl, l.reaches_still⟩ laid
  | none =>
      refine lays_bind (lays_ensure l d home apart need named laid) ?_
      intro dir m t ensured still
      obtain ⟨rfl, reached⟩ := ensured
      exact lays_pure ⟨rfl, reached⟩ still

end Home

section Secrets

variable (codec : KeyCodec) (derive : Seed → SigningKey) (seed : Seed)

-- What the hex crate documents of its two functions.
def Hexed (codec : KeyCodec) (seed : Seed) : Prop := codec.hexDecode (hexEncode seed.toList) = .ok seed.toList

theorem digit_char_solid : ∀ n, n < 16 → isWhitespace (Nat.digitChar n) = false := by decide

theorem hex_encode_solid (bytes : Bytes) (c : Char) (member : c ∈ hexEncode bytes) : isWhitespace c = false := by
  obtain ⟨b, _, digit⟩ := List.mem_flatMap.mp member
  have small : b.toNat < 256 := b.toNat_lt
  simp only [List.mem_cons, List.not_mem_nil, or_false] at digit
  rcases digit with rfl | rfl
  · exact digit_char_solid _ (by omega)
  · exact digit_char_solid _ (by omega)

theorem hex_encode_written (seed : Seed) : hexEncode seed.toList ≠ [] := by
  obtain ⟨bytes, long⟩ := seed
  cases bytes with
  | nil => cases long
  | cons b rest => simp [hexEncode]

theorem secret_text_trimmed (seed : Seed) : trim isWhitespace (hexEncode seed.toList ++ ['\n']) = hexEncode seed.toList := by
  have clean := trim_clean isWhitespace (hexEncode seed.toList) (hex_encode_solid seed.toList)
  have kept : (hexEncode seed.toList ++ ['\n']).dropWhile isWhitespace = hexEncode seed.toList ++ ['\n'] := by
    cases written : hexEncode seed.toList with
    | nil => exact absurd written (hex_encode_written seed)
    | cons c rest =>
        have solid := hex_encode_solid seed.toList c (by simp [written])
        simp [solid]
  rw [trim, kept, List.rdropWhile_concat_pos _ _ _ (by decide)]
  cases written : hexEncode seed.toList with
  | nil => exact absurd written (hex_encode_written seed)
  | cons c rest =>
      have solid := hex_encode_solid seed.toList c (by simp [written])
      rw [written] at clean
      simpa [trim, solid] using clean

-- A seed is read back from the text that is written for it.
theorem secret_text_reads (hexed : Hexed codec seed) :
    String.fromUTF8? ⟨(secretText seed).toArray⟩ = some (String.ofList (hexEncode seed.toList ++ ['\n'])) ∧
      secretFromHex codec derive (trim isWhitespace (hexEncode seed.toList ++ ['\n'])) = .ok (derive seed) := by
  refine ⟨Reader.from_utf8_bytes _, ?_⟩
  rw [secret_text_trimmed, secretFromHex, trim_clean isWhitespace _ (hex_encode_solid seed.toList), hexed]
  exact dif_pos seed.toList_length

end Secrets

section Steps

variable {umask : Nat} {ours needed : List Path} (l : Layout) (d : Disk) (apart : ∀ q ∈ needed, q ∉ ours)
  (codec : KeyCodec) (derive : Seed → SigningKey) (seed : Seed) (p : Path) (place : Ours ours needed p)

def secretFile (seed : Seed) : FileTree.Entry UInt8 := .file 0o600 (secretText seed)

include place

include apart in
theorem lays_save (laid : Laid ours needed l d) (absent : l.entry p = none) :
    Lays umask ours needed (fun _ m => (l.put p (secretFile seed)).Reaches p.parent.along m) (saveSecretFile p seed) d := by
  have made : Lays umask ours needed (fun _ m => l.Reaches p.parent.along m)
    (whenever (p.parent ≠ .here) (createDirAll p.parent)) d := by
    by_cases top : p.parent = .here
    · rw [top]
      exact lays_pure l.reaches_still laid
    · simp only [whenever, ne_eq, top, not_false_eq_true, decide_true, if_true]
      exact lays_create_dir_all l d p.parent laid place.above apart
  refine lays_bind made ?_
  intro _ m t reached still
  have parents : ∀ dir ∈ p.parent.along, dir ∈ m.made := fun dir on => reached.made dir (.inl on)
  refine lays_bind (lays_write_file m t p still place.own place.named place.free parents ?_ (secretText seed)) ?_
  · intro old held
    rw [reached.entry, absent] at held
    cases held
  · intro _ n u written there
    obtain ⟨bits, rfl⟩ := written
    refine lays_weaken (lays_chmod _ u p there place.own place.named place.free parents bits 0o600 _ (Layout.put_self _ _ _)) ?_
    intro _ n' same
    rw [same, Layout.put_put]
    exact reached.put p _

include apart in
theorem lays_keygen (laid : Laid ours needed l d) (absent : l.entry p = none) (force : Bool) :
    Lays umask ours needed (fun _ m => (l.put p (secretFile seed)).Reaches p.parent.along m) (keygen p force seed) d := by
  refine lays_bind (lays_absent l d p laid place.own absent) ?_
  intro there m t answered still
  obtain ⟨rfl, rfl⟩ := answered
  exact lays_save m t apart seed p place still absent

theorem lays_load_secret (hexed : Hexed codec seed) (laid : Laid ours needed l d) (held : l.entry p = some (secretFile seed))
    (made : ∀ dir ∈ p.parent.along, dir ∈ l.made) :
    Lays umask ours needed (fun signingKey m => signingKey = derive seed ∧ m = l) (loadSecretFile codec derive p) d := by
  have looked : Lays umask ours needed (fun mode m => mode = 0o600 ∧ m = l) (attempt (metadata p)) d := by
    refine lays_attempt (lays_weaken (lays_present l d p laid place.own place.named made _ held) ?_)
    intro r m answered
    exact ⟨_, answered.1, rfl, answered.2⟩
  refine lays_bind looked ?_
  intro mode m t answered still
  obtain ⟨rfl, rfl⟩ := answered
  rw [if_neg (by decide)]
  have loaded : Lays umask ours needed (fun bytes n => bytes = secretText seed ∧ n = m) (attempt (readBytes p)) t := by
    refine lays_attempt (lays_weaken (lays_read m t p still place.own place.named made _ _ held) ?_)
    intro r n answered
    exact ⟨_, answered.1, rfl, answered.2⟩
  refine lays_bind loaded ?_
  intro bytes n u answered there
  obtain ⟨rfl, rfl⟩ := answered
  obtain ⟨decoded, parsed⟩ := secret_text_reads codec derive seed hexed
  rw [decoded]
  refine lays_except ?_ ⟨rfl, rfl⟩ there
  simpa using parsed

theorem lays_load_key (hexed : Hexed codec seed) (laid : Laid ours needed l d) (held : l.entry p = some (secretFile seed))
    (made : ∀ dir ∈ p.parent.along, dir ∈ l.made) (hint : String) :
    Lays umask ours needed (fun signingKey m => signingKey = derive seed ∧ m = l) (loadKey codec derive p hint) d := by
  refine lays_bind (lays_exists l d p laid place.own place.named made _ held) ?_
  intro there m t answered still
  obtain ⟨rfl, rfl⟩ := answered
  exact lays_load_secret m t codec derive seed p place hexed still held made

-- The key itself or the path of its file.
inductive Denotes (text : Str) : Prop where
  | key (parsed : PubKey.fromStr codec text = .ok (derive seed).publicKey)
  | file (unreadable : ∃ e, PubKey.fromStr codec text = .error e) (path : pathOf text = p)

theorem lays_read_pubkey (hexed : Hexed codec seed) (laid : Laid ours needed l d) (held : l.entry p = some (secretFile seed))
    (made : ∀ dir ∈ p.parent.along, dir ∈ l.made) (text : Str) (denotes : Denotes codec derive seed p text) :
    Lays umask ours needed (fun key m => key = (derive seed).publicKey ∧ m = l) (readPubkey codec derive text) d := by
  cases denotes with
  | key parsed =>
      rw [readPubkey, parsed]
      exact lays_pure ⟨rfl, rfl⟩ laid
  | file unreadable path =>
      obtain ⟨e, failed⟩ := unreadable
      rw [readPubkey, failed, path]
      refine lays_bind (lays_exists l d p laid place.own place.named made _ held) ?_
      intro there m t answered still
      obtain ⟨rfl, rfl⟩ := answered
      refine lays_bind (lays_load_secret m t codec derive seed p place hexed still held made) ?_
      intro signingKey n u answered there
      obtain ⟨rfl, rfl⟩ := answered
      exact lays_pure ⟨rfl, rfl⟩ there

end Steps

section Paths

-- Names as a file system has them.
structure Normal (p : Path) : Prop where
  plain : ∀ name ∈ names p, '/' ∉ name
  written : ∀ name ∈ (names p).tail, name ≠ []

theorem normal_child (dir : Path) (normal : Normal dir) (name : Str) (plain : '/' ∉ name) (written : name ≠ []) :
    Normal (dir.child name) := by
  refine ⟨?_, ?_⟩
  · intro other member
    rcases List.mem_append.mp member with above | own
    · exact normal.plain other above
    · rw [List.mem_singleton.mp own]
      exact plain
  · intro other member
    have before := normal.written
    rw [names] at member
    cases listed : names dir with
    | nil => simp [listed] at member
    | cons first rest =>
        simp only [listed, List.cons_append, List.tail_cons, List.mem_append, List.mem_singleton] at member before
        rcases member with above | rfl
        · exact before other above
        · exact written

theorem names_fold (p : Path) : (names p).foldl FileTree.Path.child .here = p := by
  induction p with
  | here => rfl
  | child dir name ih => simp [names, ih]

theorem path_of_display (p : Path) (normal : Normal p) : pathOf (display p) = p := by
  by_cases top : p = root
  · subst top
    decide
  · rw [display, if_neg top]
    cases listed : names p with
    | nil =>
        have folded := names_fold p
        rw [listed] at folded
        subst folded
        rfl
    | cons first rest =>
        have folded := names_fold p
        have plain := normal.plain
        have written := normal.written
        rw [listed] at folded plain written
        have text : ((['/'] : Str).intercalate (first :: rest)).isEmpty = false := by
          cases rest with
          | nil =>
              cases first with
              | nil => exact absurd folded.symm top
              | cons c more => simp [List.intercalate]
          | cons second more => simp [List.intercalate]
        have whole : rest.filter (fun name => !name.isEmpty) = rest := by
          rw [List.filter_eq_self]
          intro name member
          simpa using written name member
        rw [pathOf, List.splitOn_intercalate '/' plain (by simp), text]
        simp only [whole]
        exact folded

end Paths

section Granting

variable {umask : Nat} {ours needed : List Path} (l : Layout) (d : Disk) (apart : ∀ q ∈ needed, q ∉ ours)
  (prim : Primitives) (codec : KeyCodec) (derive : Seed → SigningKey) (a b : Seed) (identityPath servicePath outPath : Path)
  (hexedA : Hexed codec a) (hexedB : Hexed codec b) (identityPlace : Ours ours needed identityPath)
  (servicePlace : Ours ours needed servicePath) (outPlace : Ours ours needed outPath)

include hexedA hexedB identityPlace servicePlace outPlace in
theorem lays_delegate (laid : Laid ours needed l d) (identityHeld : l.entry identityPath = some (secretFile a))
    (serviceHeld : l.entry servicePath = some (secretFile b)) (identityMade : ∀ dir ∈ identityPath.parent.along, dir ∈ l.made)
    (serviceMade : ∀ dir ∈ servicePath.parent.along, dir ∈ l.made) (outMade : ∀ dir ∈ outPath.parent.along, dir ∈ l.made)
    (free : ∀ old, l.entry outPath = some old → old.isDirectory = false) (text : Str)
    (denotes : Denotes codec derive b servicePath text) (other : (derive b).publicKey ≠ (derive a).publicKey) (days : UInt64)
    (neverExpires_ : Bool) (now : Nat) (until_ : UInt64) (lasting : notAfter days neverExpires_ now = .ok until_) :
    Lays umask ours needed (fun _ m => ∃ bits, m = l.put outPath (.file bits
        (DelegationFile.encode ⟨(derive b).publicKey, Delegation.issue (derive a) (derive b).publicKey until_⟩)))
      (delegate codec derive identityPath text days neverExpires_ outPath now) d := by
  refine lays_bind (lays_load_key l d codec derive a identityPath identityPlace hexedA laid identityHeld identityMade _) ?_
  intro identity m t answered still
  obtain ⟨rfl, rfl⟩ := answered
  refine lays_bind (lays_read_pubkey m t codec derive b servicePath servicePlace hexedB still serviceHeld serviceMade text
    denotes) ?_
  intro servicePub n u answered there
  obtain ⟨rfl, rfl⟩ := answered
  rw [if_neg other]
  refine lays_bind (R := fun limit k => limit = until_ ∧ k = n) (lays_except lasting ⟨rfl, rfl⟩ there) ?_
  intro limit k v answered here
  obtain ⟨rfl, rfl⟩ := answered
  exact lays_write_file k v outPath here outPlace.own outPlace.named outPlace.free outMade free _

include outPlace in
theorem lays_load_delegation (laid : Laid ours needed l d) (file : DelegationFile) (bits : Nat)
    (held : l.entry outPath = some (.file bits file.encode)) (made : ∀ dir ∈ outPath.parent.along, dir ∈ l.made)
    (verified : file.delegation.verify prim file.serviceKey = .ok ()) :
    Lays umask ours needed (fun loaded m => loaded = file ∧ m = l) (loadDelegation prim outPath) d := by
  refine lays_bind (lays_read l d outPath laid outPlace.own outPlace.named made bits _ held) ?_
  intro r m t answered still
  obtain ⟨rfl, rfl⟩ := answered
  exact lays_except ((DelegationFile.file_decode_iff prim _ file).mpr ⟨verified, rfl⟩) ⟨rfl, rfl⟩ still

end Granting

-- Who is to be set up where. Each path is given or left to its default.
structure Plan where
  home : Path
  identityOut : Option Path
  serviceOut : Option Path
  service : Option Str
  days : UInt64
  neverExpires_ : Bool
  out : Option Path
  now : Nat
  identitySeed : Seed
  serviceSeed : Seed
  endpoints : List Str
  ttl : UInt32
  started : UInt64

namespace Plan

variable (plan : Plan)

def identityPath : Path := plan.identityOut.getD (plan.home.child identityKeyName)
def servicePath : Path := plan.serviceOut.getD (plan.home.child serviceKeyName)
def outPath : Path := plan.out.getD (plan.home.child serviceDelegationName)
def ours : List Path := [plan.identityPath, plan.servicePath, plan.outPath]

def needed : List Path :=
  plan.home.along ++ plan.identityPath.parent.along ++ plan.servicePath.parent.along ++ plan.outPath.parent.along

def keygens : Command Unit := do
  runKeygen plan.home plan.identityOut true false plan.identitySeed
  runKeygen plan.home plan.serviceOut false false plan.serviceSeed

-- `sqns keygen --identity`, `sqns keygen`, `sqns delegate` and `sqns publish`.
def session (prim : Primitives) (codec : KeyCodec) (derive : Seed → SigningKey) : Command (Publisher prim) := do
  plan.keygens
  runDelegate codec derive plan.home plan.identityOut plan.service plan.days plan.neverExpires_ plan.out plan.now
  runPublish prim codec derive plan.home plan.serviceOut plan.out plan.endpoints plan.ttl plan.started

def identity (derive : Seed → SigningKey) : SigningKey := derive plan.identitySeed
def key (derive : Seed → SigningKey) : SigningKey := derive plan.serviceSeed

end Plan

-- The paths are apart, nothing is in their way, and the service key is named by
-- its text, by its file or not at all.
structure Workable (codec : KeyCodec) (derive : Seed → SigningKey) (plan : Plan) (disk : Disk) : Prop where
  home : plan.home ≠ .here
  normal : Normal plan.home
  identityNamed : plan.identityPath ≠ .here
  serviceNamed : plan.servicePath ≠ .here
  outNamed : plan.outPath ≠ .here
  keysApart : plan.identityPath ≠ plan.servicePath
  grantApart : plan.outPath ≠ plan.identityPath ∧ plan.outPath ≠ plan.servicePath
  apart : ∀ q ∈ plan.needed, q ∉ plan.ours
  clear : ∀ q ∈ plan.needed, disk.isFile q = false
  identityFree : disk plan.identityPath = none
  serviceFree : disk plan.servicePath = none
  outFree : disk.isDirectory plan.outPath = false
  outReady : plan.out = none ∨ ∀ dir ∈ plan.outPath.parent.along, disk.isDirectory dir = true
  byText : ∀ text, plan.service = some text → Denotes codec derive plan.serviceSeed plan.servicePath text
  byDefault : plan.service = none → plan.serviceOut = none ∧ ∃ e, PubKey.fromStr codec (display plan.servicePath) = .error e
  identityHexed : Hexed codec plan.identitySeed
  serviceHexed : Hexed codec plan.serviceSeed

section Session

variable {umask : Nat} (prim : Primitives) (codec : KeyCodec) (derive : Seed → SigningKey) (plan : Plan)

theorem identity_place (disk : Disk) (workable : Workable codec derive plan disk) :
    Ours plan.ours plan.needed plan.identityPath where
  own := by simp [Plan.ours]
  named := workable.identityNamed
  free := fun need => workable.apart _ need (by simp [Plan.ours])
  above := fun dir on => by simp [Plan.needed, on]

theorem service_place (disk : Disk) (workable : Workable codec derive plan disk) :
    Ours plan.ours plan.needed plan.servicePath where
  own := by simp [Plan.ours]
  named := workable.serviceNamed
  free := fun need => workable.apart _ need (by simp [Plan.ours])
  above := fun dir on => by simp [Plan.needed, on]

theorem out_place (disk : Disk) (workable : Workable codec derive plan disk) : Ours plan.ours plan.needed plan.outPath where
  own := by simp [Plan.ours]
  named := workable.outNamed
  free := fun need => workable.apart _ need (by simp [Plan.ours])
  above := fun dir on => by simp [Plan.needed, on]

theorem new_publisher_ok (delegation : Delegation) (signingKey : SigningKey) (endpoints : List Endpoint) (ttl : UInt32)
    (now : UInt64) (granted : delegation.verify prim signingKey.publicKey = .ok ()) :
    newPublisher signingKey delegation endpoints ttl now =
      .ok (⟨signingKey, delegation, endpoints, ttl, now, granted⟩ : Publisher prim) := by
  unfold newPublisher
  split
  · rfl
  · rename_i e failed
    rw [granted] at failed
    cases failed

theorem home_needed (dir : Path) (on : dir ∈ plan.home.along) : dir ∈ plan.needed := by simp [Plan.needed, on]

variable (disk : Disk) (workable : Workable codec derive plan disk)

include workable

theorem lays_named (l : Layout) (d : Disk) (laid : Laid plan.ours plan.needed l d) (given : Option Path) (name : Str) :
    Lays umask plan.ours plan.needed
      (fun p m => p = given.getD (plan.home.child name) ∧ l.Reaches (if given = none then plan.home.along else []) m)
      (pathOrDefault plan.home given name) d :=
  lays_path_or_default l d plan.home workable.apart (home_needed plan) workable.home laid given name

theorem lays_run_keygen (l : Layout) (d : Disk) (laid : Laid plan.ours plan.needed l d) (out : Option Path) (isIdentity : Bool)
    (seed : Seed) (p : Path) (same : p = out.getD (plan.home.child (if isIdentity then identityKeyName else serviceKeyName)))
    (place : Ours plan.ours plan.needed p) (absent : l.entry p = none) :
    Lays umask plan.ours plan.needed (fun _ m => (l.put p (secretFile seed)).Reaches p.parent.along m)
      (runKeygen plan.home out isIdentity false seed) d := by
  refine lays_bind (lays_named codec derive plan disk workable l d laid out _) ?_
  intro q m t placed still
  obtain ⟨rfl, reached⟩ := placed
  rw [← same]
  refine lays_weaken (lays_keygen m t workable.apart seed p place still (reached.entry ▸ absent) false) ?_
  exact fun _ n later => ((reached.put p _).joined later).fewer

-- What the two key files hold, and that they can be got at.
structure Keyed (plan : Plan) (l : Layout) : Prop where
  identity : l.entry plan.identityPath = some (secretFile plan.identitySeed)
  identityMade : ∀ dir ∈ plan.identityPath.parent.along, dir ∈ l.made
  service : l.entry plan.servicePath = some (secretFile plan.serviceSeed)
  serviceMade : ∀ dir ∈ plan.servicePath.parent.along, dir ∈ l.made

omit workable in
theorem keyed_later (l m : Layout) (dirs : List Path) (keyed : Keyed plan l) (reached : l.Reaches dirs m) : Keyed plan m where
  identity := reached.entry ▸ keyed.identity
  identityMade := fun dir on => reached.made dir (.inr (keyed.identityMade dir on))
  service := reached.entry ▸ keyed.service
  serviceMade := fun dir on => reached.made dir (.inr (keyed.serviceMade dir on))

theorem keyed_put (l : Layout) (keyed : Keyed plan l) (entry : FileTree.Entry UInt8) :
    Keyed plan (l.put plan.outPath entry) where
  identity := by
    rw [Layout.put_other _ _ _ _ (Ne.symm workable.grantApart.1)]
    exact keyed.identity
  identityMade := keyed.identityMade
  service := by
    rw [Layout.put_other _ _ _ _ (Ne.symm workable.grantApart.2)]
    exact keyed.service
  serviceMade := keyed.serviceMade

theorem lays_keygens (l : Layout) (d : Disk) (laid : Laid plan.ours plan.needed l d)
    (identityFree : l.entry plan.identityPath = none) (serviceFree : l.entry plan.servicePath = none) :
    Lays umask plan.ours plan.needed (fun _ m => Keyed plan m ∧ (∀ p, p ≠ plan.identityPath → p ≠ plan.servicePath →
        m.entry p = l.entry p) ∧ ∀ dir ∈ l.made, dir ∈ m.made)
      plan.keygens d := by
  refine lays_bind (lays_run_keygen codec derive plan disk workable l d laid plan.identityOut true plan.identitySeed
    plan.identityPath rfl (identity_place codec derive plan disk workable) identityFree) ?_
  intro _ m t first still
  have free : m.entry plan.servicePath = none := by
    rw [first.entry, Layout.put_other _ _ _ _ (Ne.symm workable.keysApart)]
    exact serviceFree
  refine lays_weaken (lays_run_keygen codec derive plan disk workable m t still plan.serviceOut false plan.serviceSeed
    plan.servicePath rfl (service_place codec derive plan disk workable) free) ?_
  intro _ n second
  refine ⟨⟨?_, ?_, ?_, ?_⟩, ?_, ?_⟩
  · rw [second.entry, Layout.put_other _ _ _ _ workable.keysApart, first.entry, Layout.put_self]
  · exact fun dir on => second.made dir (.inr (first.made dir (.inl on)))
  · rw [second.entry, Layout.put_self]
  · exact fun dir on => second.made dir (.inl on)
  · intro p one two
    rw [second.entry, Layout.put_other _ _ _ _ two, first.entry, Layout.put_other _ _ _ _ one]
  · exact fun dir known => second.made dir (.inr (first.made dir (.inr known)))

def grantFile (until_ : UInt64) : DelegationFile :=
  ⟨(plan.key derive).publicKey, Delegation.issue (plan.identity derive) (plan.key derive).publicKey until_⟩

theorem lays_grant (l : Layout) (d : Disk) (laid : Laid plan.ours plan.needed l d) (keyed : Keyed plan l)
    (free : ∀ old, l.entry plan.outPath = some old → old.isDirectory = false)
    (ready : plan.out ≠ none → ∀ dir ∈ plan.outPath.parent.along, dir ∈ l.made)
    (other : (plan.key derive).publicKey ≠ (plan.identity derive).publicKey) (until_ : UInt64)
    (lasting : notAfter plan.days plan.neverExpires_ plan.now = .ok until_) :
    Lays umask plan.ours plan.needed (fun _ m => Keyed plan m ∧ (∃ bits, m.entry plan.outPath =
        some (.file bits (grantFile derive plan until_).encode)) ∧ ∀ dir ∈ plan.outPath.parent.along, dir ∈ m.made)
      (runDelegate codec derive plan.home plan.identityOut plan.service plan.days plan.neverExpires_ plan.out plan.now) d := by
  refine lays_bind (lays_named codec derive plan disk workable l d laid plan.identityOut _) ?_
  intro identityPath m t placed still
  obtain ⟨rfl, first⟩ := placed
  have named : Lays umask plan.ours plan.needed
      (fun text n => Denotes codec derive plan.serviceSeed plan.servicePath text ∧ ∃ dirs, m.Reaches dirs n)
      (serviceText plan.home plan.service) t := by
    cases service : plan.service with
    | some text => exact lays_pure ⟨workable.byText text service, [], m.reaches_still⟩ still
    | none =>
        obtain ⟨default_, unreadable⟩ := workable.byDefault service
        have here : plan.servicePath = plan.home.child serviceKeyName := by rw [Plan.servicePath, default_, Option.getD_none]
        refine lays_bind (lays_named codec derive plan disk workable m t still none _) ?_
        intro p n u placed there
        obtain ⟨rfl, reached⟩ := placed
        have normal : Normal plan.servicePath := by
          rw [here]
          exact normal_child plan.home workable.normal serviceKeyName (by decide) (by decide)
        refine lays_pure ⟨.file ?_ ?_, _, reached⟩ there
        · rw [Option.getD_none, ← here]
          exact unreadable
        · rw [Option.getD_none, ← here]
          exact path_of_display _ normal
  refine lays_bind named ?_
  intro text n u told there
  obtain ⟨denotes, dirs, second⟩ := told
  refine lays_bind (lays_named codec derive plan disk workable n u there plan.out _) ?_
  intro outPath k v placed here
  obtain ⟨rfl, third⟩ := placed
  have known : Keyed plan k := keyed_later plan _ _ _ (keyed_later plan _ _ _ (keyed_later plan _ _ _ keyed first) second) third
  have made : ∀ dir ∈ plan.outPath.parent.along, dir ∈ k.made := by
    intro dir on
    by_cases default_ : plan.out = none
    · refine third.made dir (.inl ?_)
      rw [Plan.outPath, default_, Option.getD_none] at on
      rw [if_pos default_]
      exact on
    · exact third.made dir (.inr (second.made dir (.inr (first.made dir (.inr (ready default_ dir on))))))
  have open_ : ∀ old, k.entry plan.outPath = some old → old.isDirectory = false := by
    intro old held
    rw [third.entry, second.entry, first.entry] at held
    exact free old held
  refine lays_weaken (lays_delegate k v codec derive plan.identitySeed plan.serviceSeed plan.identityPath plan.servicePath
    plan.outPath workable.identityHexed workable.serviceHexed (identity_place codec derive plan disk workable)
    (service_place codec derive plan disk workable) (out_place codec derive plan disk workable) here known.identity
    known.service known.identityMade known.serviceMade made open_ text denotes other plan.days plan.neverExpires_ plan.now
    until_ lasting) ?_
  intro _ m' written
  obtain ⟨bits, rfl⟩ := written
  exact ⟨keyed_put codec derive plan disk workable k known _, ⟨bits, Layout.put_self _ _ _⟩, made⟩

theorem lays_publisher (l : Layout) (d : Disk) (laid : Laid plan.ours plan.needed l d) (keyed : Keyed plan l) (until_ : UInt64)
    (bits : Nat) (held : l.entry plan.outPath = some (.file bits (grantFile derive plan until_).encode))
    (made : ∀ dir ∈ plan.outPath.parent.along, dir ∈ l.made) (endpoints : List Endpoint)
    (parsed : plan.endpoints.mapM Endpoint.fromStr = .ok endpoints)
    (granted : (grantFile derive plan until_).delegation.verify prim (plan.key derive).publicKey = .ok ()) :
    Lays umask plan.ours plan.needed (fun publisher _ =>
        publisher = ⟨plan.key derive, (grantFile derive plan until_).delegation, endpoints, plan.ttl, plan.started, granted⟩)
      (runPublish prim codec derive plan.home plan.serviceOut plan.out plan.endpoints plan.ttl plan.started) d := by
  refine lays_bind (lays_named codec derive plan disk workable l d laid plan.serviceOut _) ?_
  intro keyPath m t placed still
  obtain ⟨rfl, first⟩ := placed
  have known := keyed_later plan _ _ _ keyed first
  refine lays_bind (lays_load_key m t codec derive plan.serviceSeed plan.servicePath
    (service_place codec derive plan disk workable) workable.serviceHexed still known.service known.serviceMade _) ?_
  intro signingKey n u answered there
  obtain ⟨rfl, rfl⟩ := answered
  refine lays_bind (R := fun read k => read = endpoints ∧ k = n) (lays_except parsed ⟨rfl, rfl⟩ there) ?_
  intro read k v answered again
  obtain ⟨rfl, rfl⟩ := answered
  refine lays_bind (lays_named codec derive plan disk workable k v again plan.out _) ?_
  intro outPath k' w placed here
  obtain ⟨rfl, second⟩ := placed
  have grant : k'.entry plan.outPath = some (.file bits (grantFile derive plan until_).encode) := by
    rw [second.entry, first.entry]
    exact held
  refine lays_bind (lays_load_delegation k' w prim plan.outPath (out_place codec derive plan disk workable) here
    (grantFile derive plan until_) bits grant
    (fun dir on => second.made dir (.inr (first.made dir (.inr (made dir on))))) granted) ?_
  intro file k'' x answered last
  obtain ⟨rfl, rfl⟩ := answered
  exact lays_except (new_publisher_ok prim _ _ _ _ _ granted) rfl last

theorem lays_session (until_ : UInt64) (lasting : notAfter plan.days plan.neverExpires_ plan.now = .ok until_)
    (other : (plan.key derive).publicKey ≠ (plan.identity derive).publicKey) (endpoints : List Endpoint)
    (parsed : plan.endpoints.mapM Endpoint.fromStr = .ok endpoints)
    (granted : (grantFile derive plan until_).delegation.verify prim (plan.key derive).publicKey = .ok ()) :
    Lays umask plan.ours plan.needed (fun publisher _ =>
        publisher = ⟨plan.key derive, (grantFile derive plan until_).delegation, endpoints, plan.ttl, plan.started, granted⟩)
      (plan.session prim codec derive) disk := by
  let l : Layout := ⟨disk, if plan.out = none then [] else plan.outPath.parent.along⟩
  have laid : Laid plan.ours plan.needed l disk := by
    refine ⟨fun _ _ => rfl, workable.clear, ?_⟩
    intro p member
    by_cases default_ : plan.out = none
    · simp only [l, if_pos default_] at member
      cases member
    · simp only [l, if_neg default_] at member
      exact workable.outReady.resolve_left default_ p member
  refine lays_bind (lays_keygens codec derive plan disk workable l disk laid workable.identityFree workable.serviceFree) ?_
  intro _ m t first still
  obtain ⟨keyed, same, kept⟩ := first
  have free : ∀ old, m.entry plan.outPath = some old → old.isDirectory = false := by
    intro old held
    rw [same _ workable.grantApart.1 workable.grantApart.2] at held
    have closed := workable.outFree
    simp only [Disk.isDirectory] at closed
    change disk plan.outPath = some old at held
    rw [held] at closed
    exact closed
  have ready : plan.out ≠ none → ∀ dir ∈ plan.outPath.parent.along, dir ∈ m.made := by
    intro default_ dir on
    refine kept dir ?_
    simp only [l, if_neg default_]
    exact on
  refine lays_bind (lays_grant codec derive plan disk workable m t still keyed free ready other until_ lasting) ?_
  intro _ n u second there
  obtain ⟨keyed, ⟨bits, held⟩, made⟩ := second
  exact lays_publisher prim codec derive plan disk workable n u there keyed until_ bits held made endpoints parsed granted

end Session

section Network

open Store Resolver

-- Published to a server that knows nothing of its key, the service is found
-- there by every client for as long as its record lasts.
def Reachable {prim : Primitives} (publisher : Publisher prim) (identity : PubKey) (endpoints : List Endpoint) : Prop :=
  ∀ (debug : Response → String) (r : Resolver) (address : String) (store : Store) (clock : Nat → UInt64),
    r.config.servers = [address] → r.marks.lookup publisher.key = none → Consistent prim store →
    store.records.lookup publisher.key = none → store.bindings.lookup publisher.key = none →
    (∀ n, (clock n).toNat ≤ (clock (n + 1)).toNat) → Publisher.Lasts (publisher.draft endpoints (clock 0)) (clock 2).toNat →
    ∃ serial record, (publisher.publish debug .heard r store clock).outcome = .ok serial ∧
      (publisher.publish debug .heard r store clock).store.records.lookup publisher.key = some record ∧
      ∀ now, Publisher.Lasts record.record now → ∀ config client, Resolver.new config = .ok client →
        config.servers.length = 1 → ∀ network, (∀ i, Present (publisher.publish debug .heard r store clock).store now (network i)) →
        ∀ draws, ∃ found, (client.resolveService prim debug publisher.key network draws).1 = .ok found ∧
          found.key = publisher.key ∧ found.identity = identity ∧ found.endpoints.Perm endpoints

theorem publisher_reachable {prim : Primitives} (publisher : Publisher prim)
    (valid : (publisher.draft publisher.endpoints 0).validate prim = .ok ())
    (genuine : ∀ message, prim.verify publisher.key message (publisher.signingKey.sign message) = true)
    (fits : Fits publisher.endpoints) : Reachable publisher publisher.delegation.identity publisher.endpoints := by
  intro debug r address store clock single unmarked consistent unknown unbound forward lasts
  have alive : ∀ held, store.records.lookup publisher.key = some held → held.record.isTerminal = false := by
    intro held found
    rw [unknown] at found
    cases found
  have pinned : ∀ bound, store.bindings.lookup publisher.key = some bound → publisher.delegation.identity = bound := by
    intro bound found
    rw [unbound] at found
    cases found
  obtain ⟨serial, n, _, outcome, stored⟩ := (Publisher.fitting_wins_iff prim debug publisher r store
    publisher.endpoints clock address single valid genuine alive pinned fits consistent unmarked forward).mpr
    ⟨lasts, fun held found => by rw [unknown] at found; cases found⟩
  let record := ({ publisher with serial := serial } : Publisher prim).signed publisher.endpoints (clock n)
  let after := (publisher.publish debug .heard r store clock).store
  have held : after.records.lookup publisher.key = some record := stored
  refine ⟨serial, record, outcome, held, ?_⟩
  intro now current config client created alone network present draws
  have ready := Publisher.signed_ready prim publisher publisher.endpoints valid genuine store serial (clock n) alive pinned
  have checked : record.verifyAnswer prim publisher.key now = .ok () :=
    Publisher.ready_answers prim store record now ready current
  have synced : Synced prim after now client := by
    rw [new_ok config client created]
    exact fresh_synced prim after now config alone
  have shown : after.get publisher.key now = some record := by
    simp only [Store.get, held, Option.filter_some]
    rw [if_pos (by simpa using current.1)]
  have answer : answerFor prim after now publisher.key = .ok (some record) := by
    simp only [answerFor, shown, checked]
    rfl
  have ends : trail prim after now publisher.key maxSupersedeHops [] publisher.key = .ok ([], record) :=
    (trail_ok_iff prim after now publisher.key maxSupersedeHops [] [] publisher.key record).mpr
      ⟨.here [] publisher.key record ⟨answer, rfl⟩ rfl, by decide⟩
  refine ⟨locationOf publisher.key draws ([], record), ?_, rfl, rfl, Select.order_with_perm draws record.record⟩
  rw [resolve_trail prim debug after now client synced publisher.key network present draws, ends]
  rfl

end Network

section Whole

-- `none` is the session, and the others may be any programs at all.
abbrev Crew (prim : Primitives) {κ : Type} (β : κ → Type) : Option κ → Type
  | none => Publisher prim
  | some other => β other

variable (umask : Nat) (prim : Primitives) (codec : KeyCodec) (derive : Seed → SigningKey) (plan : Plan) (disk : Disk)

omit umask codec derive plan disk in
theorem live_checks (record : Record) (endpoints : List Endpoint) (body : record.body = .live endpoints)
    (valid : record.validate prim = .ok ()) : record.identity.verifyingKey prim = .ok () ∧ record.identity ≠ record.key := by
  simp only [Record.validate, body, then_ok, unless_ok, unless_done_ok] at valid
  obtain ⟨_, _, _, point, differs, _⟩ := valid
  exact ⟨point, differs⟩

end Whole

section Sample

open Sample

def ones : Seed := List.Vector.replicate 32 1
def twos : Seed := List.Vector.replicate 32 2

def keyPair (seed : Seed) : SigningKey :=
  if seed = ones then ⟨alice, fun _ => fromAlice.signature⟩ else ⟨node, fun _ => Sample.publish.signature⟩

def bothSign : Primitives := { ed25519 with
  verify := fun key message signature => ed25519.verify key message signature ||
    (decide (key = alice) && decide (signature = fromAlice.signature)) ||
    (decide (key = node) && decide (signature = Sample.publish.signature)) }

def fromNothing : Plan where
  home := ourHome
  identityOut := none
  serviceOut := none
  service := none
  days := 0
  neverExpires_ := true
  out := none
  now := 1000
  identitySeed := ones
  serviceSeed := twos
  endpoints := ["127.0.0.1:5300".toList]
  ttl := 1000
  started := 1

theorem from_nothing_workable : Workable crates keyPair fromNothing bare where
  home := by decide
  normal := ⟨by decide, by decide⟩
  identityNamed := by decide
  serviceNamed := by decide
  outNamed := by decide
  keysApart := by decide
  grantApart := by decide
  apart := by decide
  clear := by decide
  identityFree := by decide
  serviceFree := by decide
  outFree := by decide
  outReady := .inl rfl
  byText := by intro text given; cases given
  byDefault := fun _ => ⟨rfl, _, rfl⟩
  identityHexed := by
    unfold Hexed
    decide +kernel
  serviceHexed := by
    unfold Hexed
    decide +kernel

theorem twos_genuine (message : Bytes) :
    bothSign.verify (keyPair twos).publicKey message ((keyPair twos).sign message) = true := by
  have other : twos ≠ ones := by decide
  simp [bothSign, keyPair, other]

def alone : Pool Call Call.Reply Error Disk (Option Empty) (Crew bothSign (fun _ : Empty => Unit)) where
  shared := bare
  programs i :=
    match i with
    | none => fromNothing.session bothSign crates keyPair

end Sample

end Sqns.KeyFiles
