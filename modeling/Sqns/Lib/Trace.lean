set_option autoImplicit false

namespace Trace

structure Transition (σ ι : Type) where
  pre : σ
  label : ι
  post : σ

-- A finite run of a labelled step relation. The list keeps every transition
-- with both of its states, so a property of a run can speak about each of them.
inductive Run {σ ι : Type} (step : σ → ι → σ → Prop) : σ → List (Transition σ ι) → σ → Prop where
  | nil (s : σ) : Run step s [] s
  | cons (s m t : σ) (label : ι) (rest : List (Transition σ ι)) (first : step s label m)
      (later : Run step m rest t) : Run step s (⟨s, label, m⟩ :: rest) t

def visited {σ ι : Type} (s : σ) (run : List (Transition σ ι)) : List σ := s :: run.map Transition.post

theorem run_append {σ ι : Type} {step : σ → ι → σ → Prop} {s t : σ} {a b : List (Transition σ ι)} :
    Run step s (a ++ b) t ↔ ∃ m, Run step s a m ∧ Run step m b t := by
  induction a generalizing s with
  | nil =>
      constructor
      · intro run
        exact ⟨s, .nil s, run⟩
      · rintro ⟨m, empty, run⟩
        cases empty
        exact run
  | cons head tail ih =>
      constructor
      · intro run
        cases run with
        | cons _ m _ label _ first later =>
            obtain ⟨u, before, after⟩ := ih.mp later
            exact ⟨u, .cons s m u label tail first before, after⟩
      · rintro ⟨u, before, after⟩
        cases before with
        | cons _ m _ label _ first later => exact .cons s m t label _ first (ih.mpr ⟨u, later, after⟩)

theorem run_cons {σ ι : Type} {step : σ → ι → σ → Prop} {s t : σ} {head : Transition σ ι} {tail : List (Transition σ ι)}
    (run : Run step s (head :: tail) t) : head.pre = s ∧ step s head.label head.post ∧ Run step head.post tail t := by
  cases run with
  | cons _ m _ label _ first later => exact ⟨rfl, first, later⟩

-- The invariant rule. A step only has to preserve `inv` where the run's side
-- condition `ok` holds of it; `fun _ => True` gives the unconditional rule.
theorem run_invariant {σ ι : Type} {step : σ → ι → σ → Prop} {s t : σ} {run : List (Transition σ ι)}
    (inv : σ → Prop) (ok : Transition σ ι → Prop)
    (preserved : ∀ u label v, step u label v → ok ⟨u, label, v⟩ → inv u → inv v)
    (all : ∀ move ∈ run, ok move) (whole : Run step s run t) (start : inv s) : inv t := by
  induction whole with
  | nil => exact start
  | cons s m t label rest first later ih =>
      exact ih (fun move member => all move (by simp [member])) (preserved s label m first (all _ (by simp)) start)

theorem run_move_invariant {σ ι : Type} {step : σ → ι → σ → Prop} {s t : σ} {run : List (Transition σ ι)}
    (inv : σ → Prop) (ok : Transition σ ι → Prop)
    (preserved : ∀ u label v, step u label v → ok ⟨u, label, v⟩ → inv u → inv v)
    (all : ∀ move ∈ run, ok move) (whole : Run step s run t) (start : inv s) :
    ∀ move ∈ run, inv move.pre ∧ step move.pre move.label move.post ∧ inv move.post := by
  induction whole with
  | nil => simp
  | cons s m t label rest first later ih =>
      have next := preserved s label m first (all _ (by simp)) start
      intro move member
      rcases List.mem_cons.mp member with rfl | inRest
      · exact ⟨start, first, next⟩
      · exact ih (fun move member => all move (by simp [member])) next move inRest

theorem run_visited_invariant {σ ι : Type} {step : σ → ι → σ → Prop} {s t : σ} {run : List (Transition σ ι)}
    (inv : σ → Prop) (ok : Transition σ ι → Prop)
    (preserved : ∀ u label v, step u label v → ok ⟨u, label, v⟩ → inv u → inv v)
    (all : ∀ move ∈ run, ok move) (whole : Run step s run t) (start : inv s) :
    ∀ v ∈ visited s run, inv v := by
  intro v member
  rcases List.mem_cons.mp member with rfl | later
  · exact start
  · obtain ⟨move, inRun, rfl⟩ := List.mem_map.mp later
    exact (run_move_invariant inv ok preserved all whole start move inRun).2.2

theorem run_end_visited {σ ι : Type} {step : σ → ι → σ → Prop} {s t : σ} {run : List (Transition σ ι)}
    (whole : Run step s run t) : t ∈ visited s run := by
  induction whole with
  | nil => simp [visited]
  | cons s m t label rest first later ih => exact List.mem_cons_of_mem _ ih

theorem run_pre_visited {σ ι : Type} {step : σ → ι → σ → Prop} {s t : σ} {run : List (Transition σ ι)}
    (whole : Run step s run t) : ∀ move ∈ run, move.pre ∈ visited s run := by
  induction whole with
  | nil => simp
  | cons s m t label rest first later ih =>
      intro move member
      rcases List.mem_cons.mp member with rfl | inRest
      · exact List.mem_cons_self
      · exact List.mem_cons_of_mem _ (ih move inRest)

-- A measure that every step lowers bounds the length of a run.
theorem run_length_le {σ ι : Type} {step : σ → ι → σ → Prop} {s t : σ} {run : List (Transition σ ι)}
    (inv : σ → Prop) (measure : σ → Nat) (preserved : ∀ u label v, step u label v → inv u → inv v)
    (lowered : ∀ u label v, step u label v → inv u → measure v < measure u)
    (whole : Run step s run t) (start : inv s) : run.length + measure t ≤ measure s := by
  induction whole with
  | nil => simp
  | cons s m t label rest first later ih =>
      have fewer := ih (preserved s label m first start)
      have less := lowered s label m first start
      rw [List.length_cons]
      omega

-- The first `n` transitions of an infinite execution.
def firstMoves {σ ι : Type} (states : Nat → σ) (labels : Nat → ι) : Nat → List (Transition σ ι)
  | 0 => []
  | n + 1 => firstMoves states labels n ++ [⟨states n, labels n, states (n + 1)⟩]

theorem first_moves_run {σ ι : Type} {step : σ → ι → σ → Prop} (states : Nat → σ) (labels : Nat → ι)
    (steps : ∀ n, step (states n) (labels n) (states (n + 1))) (n : Nat) :
    Run step (states 0) (firstMoves states labels n) (states n) := by
  induction n with
  | zero => exact .nil _
  | succ n ih => exact run_append.mpr ⟨states n, ih, .cons _ _ _ _ _ (steps n) (.nil _)⟩

@[simp] theorem first_moves_length {σ ι : Type} (states : Nat → σ) (labels : Nat → ι) (n : Nat) :
    (firstMoves states labels n).length = n := by
  induction n with
  | zero => rfl
  | succ n ih => simp [firstMoves, ih]

section Unwinding

variable {σ ι ω : Type} (step : σ → ι → σ) (output : σ → ι → ω)

-- What a deterministic machine puts out for the inputs that are watched.
def outputs (watched : ι → Bool) : σ → List ι → List ω
  | _, [] => []
  | s, input :: rest =>
      if watched input then output s input :: outputs watched (step s input) rest else outputs watched (step s input) rest

-- The unwinding rule: inputs that leave the view of the state alone can be
-- deleted from a run, and nobody who only sees that view can tell.
theorem unwinding (kept watched : ι → Bool) (alike : σ → σ → Prop)
    (visible : ∀ input, watched input = true → kept input = true)
    (silent : ∀ s t input, kept input = false → alike s t → alike (step s input) t)
    (together : ∀ s t input, kept input = true → alike s t → alike (step s input) (step t input))
    (same : ∀ s t input, watched input = true → alike s t → output s input = output t input)
    (inputs : List ι) (s t : σ) (start : alike s t) :
    alike (inputs.foldl step s) ((inputs.filter kept).foldl step t) ∧
      outputs step output watched s inputs = outputs step output watched t (inputs.filter kept) := by
  induction inputs generalizing s t with
  | nil => exact ⟨start, rfl⟩
  | cons input rest ih =>
      cases keep : kept input with
      | false =>
          have unseen : watched input = false := by
            cases seen : watched input with
            | false => rfl
            | true =>
                rw [visible input seen] at keep
                cases keep
          rw [List.filter_cons_of_neg (by simp [keep])]
          simpa only [outputs, unseen, Bool.false_eq_true, if_false, List.foldl_cons] using
            ih (step s input) t (silent s t input keep start)
      | true =>
          rw [List.filter_cons_of_pos keep]
          obtain ⟨final, tail⟩ := ih (step s input) (step t input) (together s t input keep start)
          refine ⟨final, ?_⟩
          cases seen : watched input with
          | false => simpa only [outputs, seen, Bool.false_eq_true, if_false] using tail
          | true => simp only [outputs, seen, if_true, same s t input seen start, tail]

end Unwinding

end Trace
