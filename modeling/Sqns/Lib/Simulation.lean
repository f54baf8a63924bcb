import Sqns.Lib.Trace

set_option autoImplicit false

namespace Trace

-- The simulation rule: from related states, every move of the concrete machine is
-- matched by moves of the abstract one to states that are related again, and what
-- is watched of either comes out in the same order.
theorem run_simulation {σ ι τ κ ω : Type} {step : σ → ι → σ → Prop} {plain : τ → κ → τ → Prop} (rel : σ → τ → Prop)
    (ok : Transition σ ι → Prop) (seen : Transition σ ι → List ω) (shown : Transition τ κ → List ω)
    (matched : ∀ u label v x, step u label v → ok ⟨u, label, v⟩ → rel u x →
      ∃ moves y, Run plain x moves y ∧ rel v y ∧ moves.flatMap shown = seen ⟨u, label, v⟩)
    {s t : σ} {x : τ} {run : List (Transition σ ι)} (all : ∀ move ∈ run, ok move) (whole : Run step s run t) (start : rel s x) :
    ∃ moves y, Run plain x moves y ∧ rel t y ∧ moves.flatMap shown = run.flatMap seen := by
  induction whole generalizing x with
  | nil s => exact ⟨[], x, .nil _, start, rfl⟩
  | cons s m t label rest first later ih =>
      obtain ⟨front, y, before, related, same⟩ := matched s label m x first (all _ List.mem_cons_self) start
      obtain ⟨back, z, after, final, agree⟩ := ih (fun move member => all move (List.mem_cons_of_mem _ member)) related
      refine ⟨front ++ back, z, run_append.mpr ⟨y, before, after⟩, final, ?_⟩
      rw [List.flatMap_append, List.flatMap_cons, same, agree]

end Trace
