import Mathlib.Data.List.Basic

set_option autoImplicit false

namespace Merge

variable {α : Type} (newer : α → α → Bool)

-- Last-writer-wins on one slot: a value replaces the held one if it is newer.
def keepNewest (held : Option α) (x : α) : Option α :=
  match held with
  | none => some x
  | some h => if newer x h then some x else some h

structure Greatest (items : List α) (m : α) : Prop where
  member : m ∈ items
  newest : ∀ x ∈ items, x = m ∨ newer m x = true

def Comparable (items : List α) : Prop :=
  ∀ a ∈ items, ∀ b ∈ items, a = b ∨ newer a b = true ∨ newer b a = true

variable {newer}

theorem keep_newest_mem (held : Option α) (x r : α) (kept : keepNewest newer held x = some r) : r = x ∨ held = some r := by
  cases held with
  | none => exact .inl (Option.some.inj kept).symm
  | some h =>
      by_cases wins : newer x h = true
      · rw [keepNewest, if_pos wins, Option.some.injEq] at kept
        exact .inl kept.symm
      · rw [keepNewest, if_neg wins] at kept
        exact .inr kept

theorem fold_from_greatest (trans : ∀ a b c, newer a b = true → newer b c = true → newer a c = true) (items : List α)
    (h : α) (comparable : Comparable newer (h :: items)) :
    ∃ m, items.foldl (keepNewest newer) (some h) = some m ∧ Greatest newer (h :: items) m := by
  induction items generalizing h with
  | nil => exact ⟨h, rfl, by simp, by simp⟩
  | cons x rest ih =>
      by_cases wins : newer x h = true
      · obtain ⟨m, fold, member, newest⟩ := ih x (fun a inA b inB =>
          comparable a (List.mem_cons_of_mem _ inA) b (List.mem_cons_of_mem _ inB))
        refine ⟨m, by simpa [keepNewest, wins] using fold, List.mem_cons_of_mem _ member, ?_⟩
        intro y inY
        rcases List.mem_cons.mp inY with rfl | later
        · rcases newest x (by simp) with rfl | beats
          · exact .inr wins
          · exact .inr (trans m x y beats wins)
        · exact newest y later
      · have keep : ∀ y ∈ h :: rest, y ∈ h :: x :: rest := by
          intro y inY
          rcases List.mem_cons.mp inY with rfl | later
          · simp
          · simp [later]
        obtain ⟨m, fold, member, newest⟩ := ih h (fun a inA b inB => comparable a (keep a inA) b (keep b inB))
        refine ⟨m, by simpa [keepNewest, wins] using fold, keep m member, ?_⟩
        intro y inY
        by_cases same : y = x
        · rcases comparable x (by simp) h (by simp) with equal | isOver | under
          · exact newest y (by simp [same, equal])
          · exact False.elim (wins isOver)
          · rcases newest h (by simp) with rfl | beats
            · exact .inr (same ▸ under)
            · exact .inr (same ▸ trans m h x beats under)
        · exact newest y (by simpa [same] using inY)

theorem ahead_antisymm (irrefl : ∀ a, newer a a = false)
    (trans : ∀ a b c, newer a b = true → newer b c = true → newer a c = true) (x y : α)
    (first : x = y ∨ newer x y = true) (second : y = x ∨ newer y x = true) : x = y := by
  rcases first with same | wins
  · exact same
  · rcases second with same | under
    · exact same.symm
    · have loop := trans _ _ _ wins under
      rw [irrefl] at loop
      cases loop

theorem greatest_unique (irrefl : ∀ a, newer a a = false)
    (trans : ∀ a b c, newer a b = true → newer b c = true → newer a c = true) (items : List α) (m n : α)
    (first : Greatest newer items m) (second : Greatest newer items n) : m = n := by
  have ahead : m = n ∨ newer m n = true := (first.newest n second.member).imp Eq.symm id
  have behind : n = m ∨ newer n m = true := (second.newest m first.member).imp Eq.symm id
  exact ahead_antisymm irrefl trans m n ahead behind

-- The slot holds `x` or something newer.
def Covers (newer : α → α → Bool) (held : Option α) (x : α) : Prop := ∃ h, held = some h ∧ (h = x ∨ newer h x = true)

theorem covers_trans (trans : ∀ a b c, newer a b = true → newer b c = true → newer a c = true) (held : Option α) (x y : α)
    (covers : Covers newer held x) (ahead : x = y ∨ newer x y = true) : Covers newer held y := by
  obtain ⟨h, found, beats⟩ := covers
  rcases ahead with same | wins
  · exact ⟨h, found, same ▸ beats⟩
  · rcases beats with rfl | beats
    · exact ⟨h, found, .inr wins⟩
    · exact ⟨h, found, .inr (trans h x y beats wins)⟩

-- A value that is already covered cannot replace what covers it.
theorem covered_not_newer (irrefl : ∀ a, newer a a = false)
    (trans : ∀ a b c, newer a b = true → newer b c = true → newer a c = true) (held : Option α) (x : α)
    (covers : Covers newer held x) : ¬ ∀ h, held = some h → newer x h = true := by
  obtain ⟨h, found, rfl | beats⟩ := covers
  · intro wins
    have loop := wins h found
    rw [irrefl] at loop
    cases loop
  · intro wins
    have loop := trans _ _ _ (wins h found) beats
    rw [irrefl] at loop
    cases loop

-- The slot ends with the greatest value, so order and repetition are forgotten.
theorem fold_same_elements (irrefl : ∀ a, newer a a = false)
    (trans : ∀ a b c, newer a b = true → newer b c = true → newer a c = true) (items others : List α)
    (comparable : Comparable newer items) (same : ∀ x, x ∈ others ↔ x ∈ items) :
    others.foldl (keepNewest newer) none = items.foldl (keepNewest newer) none := by
  cases items with
  | nil =>
      have empty : others = [] := List.eq_nil_iff_forall_not_mem.mpr (fun x member => by simpa using (same x).mp member)
      rw [empty]
  | cons h rest =>
      cases others with
      | nil => simpa using (same h).mpr (by simp)
      | cons h' rest' =>
          obtain ⟨m, fold, greatest⟩ := fold_from_greatest trans rest h comparable
          obtain ⟨n, fold', greatest'⟩ := fold_from_greatest trans rest' h' (fun a inA b inB =>
            comparable a ((same a).mp inA) b ((same b).mp inB))
          have moved : Greatest newer (h :: rest) n :=
            ⟨(same n).mp greatest'.member, fun x member => greatest'.newest x ((same x).mpr member)⟩
          rw [List.foldl_cons, List.foldl_cons, keepNewest, keepNewest, fold, fold',
            greatest_unique irrefl trans _ m n greatest moved]

end Merge
