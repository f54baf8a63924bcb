import Mathlib.Data.List.Perm.Subperm

set_option autoImplicit false

namespace Paging

section Prefix

variable {α : Type} {lt : α → α → Prop} [DecidableRel lt]

-- A prefix of a strictly sorted list holds what has few elements before it.
theorem mem_take_iff (asymm : ∀ a b, lt a b → ¬ lt b a) (items : List α) (n : Nat) (x : α) (sorted : items.Pairwise lt)
    (member : x ∈ items) : x ∈ items.take n ↔ (items.filter (fun y => decide (lt y x))).length < n := by
  induction items generalizing n with
  | nil => simp at member
  | cons head tail ih =>
      obtain ⟨below, sortedTail⟩ := List.pairwise_cons.mp sorted
      cases n with
      | zero => simp
      | succ n =>
          rw [List.take_succ_cons, List.mem_cons, List.filter_cons]
          rcases List.mem_cons.mp member with rfl | later
          · have none : tail.filter (fun y => decide (lt y x)) = [] := by
              rw [List.filter_eq_nil_iff]
              intro y inTail
              simpa using asymm x y (below y inTail)
            have self : ¬ lt x x := fun loop => asymm x x loop loop
            simp [self, none]
          · have before := below x later
            have different : x ≠ head := fun same => asymm head x before (by rw [same] at before ⊢; exact before)
            rw [if_pos (by simpa using before), List.length_cons, Nat.add_lt_add_iff_right, ← ih n sortedTail later]
            simp [different]

end Prefix

theorem take_all_iff {α : Type} (items : List α) (n : Nat) (once : items.Nodup) :
    (∀ x ∈ items, x ∈ items.take n) ↔ items.length ≤ n := by
  apply Iff.intro
  · intro all
    have fits := (List.Nodup.subperm once all).length_le
    rw [List.length_take] at fits
    exact Nat.le_trans fits (Nat.min_le_left _ _)
  · intro few x member
    rw [List.take_of_length_le few]
    exact member

section Cursor

variable {α : Type} (stamp : α → Nat)

def since (cursor : Nat) (items : List α) : List α := items.filter (fun x => decide (cursor ≤ stamp x))

-- One page of a listing sorted by `stamp`, from an inclusive cursor.
def page (limit cursor : Nat) (items : List α) : List α := (since stamp cursor items).take limit

structure High (cursor : Nat) (batch : List α) (h : Nat) : Prop where
  above : ∀ x ∈ batch, stamp x ≤ h
  attained : batch ≠ [] → ∃ x ∈ batch, stamp x = h
  empty : batch = [] → h = cursor

-- A stamp so common that the page it fills cannot lead beyond it.
def Crowded (limit : Nat) (items : List α) (t : Nat) : Prop :=
  limit ≤ (items.filter (fun x => decide (stamp x = t))).length ∧ limit < (since stamp t items).length

variable {stamp}

theorem mem_since (cursor : Nat) (items : List α) (x : α) : x ∈ since stamp cursor items ↔ x ∈ items ∧ cursor ≤ stamp x := by
  simp [since]

theorem mem_page (limit cursor : Nat) (items : List α) (x : α) (member : x ∈ page stamp limit cursor items) :
    x ∈ items ∧ cursor ≤ stamp x :=
  (mem_since cursor items x).mp (List.mem_of_mem_take member)

theorem page_whole (limit cursor : Nat) (items : List α) (few : (since stamp cursor items).length ≤ limit) :
    page stamp limit cursor items = since stamp cursor items := List.take_of_length_le few

theorem page_below_high (limit cursor h : Nat) (items : List α) (x : α)
    (sorted : items.Pairwise (fun a b => stamp a ≤ stamp b)) (high : High stamp cursor (page stamp limit cursor items) h)
    (member : x ∈ items) (reached : cursor ≤ stamp x) (below : stamp x < h) : x ∈ page stamp limit cursor items := by
  have wanted : x ∈ since stamp cursor items := (mem_since cursor items x).mpr ⟨member, reached⟩
  have ordered : (since stamp cursor items).Pairwise (fun a b => stamp a ≤ stamp b) := sorted.filter _
  rw [← List.take_append_drop limit (since stamp cursor items)] at wanted ordered
  rcases List.mem_append.mp wanted with here | later
  · exact here
  · by_cases empty : page stamp limit cursor items = []
    · have := high.empty empty
      omega
    · obtain ⟨y, inPage, same⟩ := high.attained empty
      have := (List.pairwise_append.mp ordered).2.2 y inPage x later
      omega

theorem page_advances (limit cursor h : Nat) (items : List α) (high : High stamp cursor (page stamp limit cursor items) h)
    (more : limit < (since stamp cursor items).length) (calm : ¬ Crowded stamp limit items cursor) : cursor < h := by
  by_contra stuck
  refine calm ⟨?_, more⟩
  have all : ∀ x ∈ page stamp limit cursor items, x ∈ items.filter (fun y => decide (stamp y = cursor)) := by
    intro x member
    obtain ⟨inItems, reached⟩ := mem_page limit cursor items x member
    have := high.above x member
    rw [List.mem_filter, decide_eq_true_eq]
    exact ⟨inItems, by omega⟩
  have sub : (page stamp limit cursor items).Sublist (items.filter (fun y => decide (stamp y = cursor))) := by
    have part : (page stamp limit cursor items).Sublist items := (List.take_sublist limit _).trans List.filter_sublist
    have kept := part.filter (fun y => decide (stamp y = cursor))
    rwa [List.filter_eq_self.mpr (fun x member => (List.mem_filter.mp (all x member)).2)] at kept
  have length : (page stamp limit cursor items).length = limit := by
    rw [page, List.length_take]
    omega
  exact length ▸ sub.length_le

end Cursor

end Paging
