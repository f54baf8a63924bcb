import Mathlib.Data.Finmap
import Mathlib.Order.Basic

set_option autoImplicit false

namespace Marks

variable {κ σ : Type} [DecidableEq κ] [Preorder σ]

-- High-water marks over a trace of observations. Each key's mark is at or
-- above everything observed of it, and no observation fell below an earlier one.
structure Bounds (marks : Finmap fun _ : κ => σ) (trace : List (κ × σ)) : Prop where
  covered : ∀ item ∈ trace, ∃ mark, marks.lookup item.1 = some mark ∧ item.2 ≤ mark
  ascending : trace.Pairwise (fun a b => a.1 = b.1 → a.2 ≤ b.2)

theorem bounds_nil (marks : Finmap fun _ : κ => σ) : Bounds marks [] := ⟨by simp, .nil⟩

theorem Bounds.raise {marks : Finmap fun _ : κ => σ} {trace : List (κ × σ)} (bounds : Bounds marks trace) (key : κ)
    (value : σ) (rises : ∀ before, marks.lookup key = some before → before ≤ value) :
    Bounds (marks.insert key value) trace := by
  refine ⟨?_, bounds.ascending⟩
  intro item member
  obtain ⟨mark, found, below⟩ := bounds.covered item member
  by_cases same : item.1 = key
  · rw [same] at found ⊢
    exact ⟨value, Finmap.lookup_insert marks, below.trans (rises mark found)⟩
  · exact ⟨mark, (Finmap.lookup_insert_of_ne marks same).trans found, below⟩

theorem Bounds.observe {marks : Finmap fun _ : κ => σ} {trace : List (κ × σ)} (bounds : Bounds marks trace) (key : κ)
    (value : σ) (current : marks.lookup key = some value) : Bounds marks (trace ++ [(key, value)]) := by
  constructor
  · intro item member
    rcases List.mem_append.mp member with earlier | last
    · exact bounds.covered item earlier
    · rw [List.mem_singleton.mp last]
      exact ⟨value, current, le_refl value⟩
  · rw [List.pairwise_append]
    refine ⟨bounds.ascending, List.pairwise_singleton _ _, ?_⟩
    intro earlier member last only same
    rw [List.mem_singleton.mp only] at same ⊢
    obtain ⟨mark, found, below⟩ := bounds.covered earlier member
    rw [same, current, Option.some.injEq] at found
    rw [found]
    exact below

theorem Bounds.above {marks : Finmap fun _ : κ => σ} {first last : List (κ × σ)} (bounds : Bounds marks (first ++ last))
    (a b : κ × σ) (earlier : a ∈ first) (later : b ∈ last) (same : a.1 = b.1) : a.2 ≤ b.2 :=
  (List.pairwise_append.mp bounds.ascending).2.2 a earlier b later same

end Marks
