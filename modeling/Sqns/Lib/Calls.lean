import Mathlib.Logic.Function.Basic
import Sqns.Lib.Trace

set_option autoImplicit false

-- Programs that work on something they share, one call at a time.
namespace Calls

open Trace

-- What a call answers decides how the program goes on.
inductive Program (κ : Type) (reply : κ → Type) (ε α : Type) where
  | done (result : α)
  | fail (error : ε)
  | call (c : κ) (rest : reply c → Program κ reply ε α)

namespace Program

variable {κ : Type} {reply : κ → Type} {ε α β : Type}

def bind (p : Program κ reply ε α) (next : α → Program κ reply ε β) : Program κ reply ε β :=
  match p with
  | .done a => next a
  | .fail e => .fail e
  | .call c rest => .call c (fun a => (rest a).bind next)

instance monad : Monad (Program κ reply ε) where
  pure := .done
  bind := .bind

def ask (c : κ) : Program κ reply ε (reply c) := .call c .done

def ofExcept : Except ε α → Program κ reply ε α
  | .ok a => .done a
  | .error e => .fail e

section Alone

variable {σ : Type} (perform : (c : κ) → σ → reply c × σ)

-- The program by itself, from its first call to its end.
def exec : Program κ reply ε α → σ → Except ε α × σ
  | .done a, s => (.ok a, s)
  | .fail e, s => (.error e, s)
  | .call c rest, s => exec (rest (perform c s).1) (perform c s).2

end Alone

end Program

-- What is shared, and what each program has still to do.
structure Pool (κ : Type) (reply : κ → Type) (ε σ ι : Type) (α : ι → Type) where
  shared : σ
  programs : (i : ι) → Program κ reply ε (α i)

inductive Act (ι κ : Type) where
  | outside
  | turn (i : ι) (c : κ)

section Pool

variable {κ : Type} {reply : κ → Type} {ε σ ι : Type} {α : ι → Type} [DecidableEq ι]
  (handles : (c : κ) → σ → reply c → σ → Prop) (outside : σ → σ → Prop)

inductive Step : Pool κ reply ε σ ι α → Act ι κ → Pool κ reply ε σ ι α → Prop where
  | outside (s : Pool κ reply ε σ ι α) (after : σ) (moved : outside s.shared after) : Step s .outside { s with shared := after }
  | turn (s : Pool κ reply ε σ ι α) (i : ι) (c : κ) (rest : reply c → Program κ reply ε (α i)) (a : reply c) (after : σ)
      (next : s.programs i = .call c rest) (handled : handles c s.shared a after) :
      Step s (.turn i c) ⟨after, Function.update s.programs i (rest a)⟩

-- From wherever the others have left it, a program can go on to its end alone.
theorem exec_run (perform : (c : κ) → σ → reply c × σ) (allowed : ∀ c s, handles c s (perform c s).1 (perform c s).2) (i : ι)
    (p : Program κ reply ε (α i)) (s : Pool κ reply ε σ ι α) (here : s.programs i = p) :
    ∃ moves, (∀ move ∈ moves, ∃ c, move.label = .turn i c) ∧ Run (Step handles outside) s moves
      ⟨(p.exec perform s.shared).2, Function.update s.programs i (.ofExcept (p.exec perform s.shared).1)⟩ := by
  induction p generalizing s with
  | done a =>
      have same : Function.update s.programs i (.done a) = s.programs := by rw [← here, Function.update_eq_self]
      refine ⟨[], by simp, ?_⟩
      simp only [Program.exec, Program.ofExcept, same]
      exact .nil s
  | fail e =>
      have same : Function.update s.programs i (.fail e) = s.programs := by rw [← here, Function.update_eq_self]
      refine ⟨[], by simp, ?_⟩
      simp only [Program.exec, Program.ofExcept, same]
      exact .nil s
  | call c rest ih =>
      have first : Step handles outside s (.turn i c)
          ⟨(perform c s.shared).2, Function.update s.programs i (rest (perform c s.shared).1)⟩ :=
        .turn s i c rest _ _ here (allowed c s.shared)
      obtain ⟨moves, own, later⟩ := ih (perform c s.shared).1
        ⟨(perform c s.shared).2, Function.update s.programs i (rest (perform c s.shared).1)⟩ (Function.update_self _ _ _)
      simp only [Function.update_idem] at later
      refine ⟨_, ?_, .cons _ _ _ _ _ first later⟩
      intro move member
      rcases List.mem_cons.mp member with rfl | after
      · exact ⟨c, rfl⟩
      · exact own move after

end Pool

section Rules

variable {κ : Type} {reply : κ → Type} {ε σ : Type} (handles : (c : κ) → σ → reply c → σ → Prop) (rely : σ → σ → Prop)
  (promise : κ → σ → σ → Prop)

-- Whatever is done in between within `rely`, each call of the program keeps its
-- promise and the program ends as `ended` has it.
def Meets {α : Type} (ended : Except ε α → σ → Prop) : Program κ reply ε α → σ → Prop
  | .done a, s => ∀ t, rely s t → ended (.ok a) t
  | .fail e, s => ∀ t, rely s t → ended (.error e) t
  | .call c rest, s =>
      ∀ t, rely s t → ∀ a after, handles c t a after → promise c t after ∧ Meets ended (rest a) after

variable {handles rely promise} {α β : Type} (still : ∀ s, rely s s) (joined : ∀ s t u, rely s t → rely t u → rely s u)

include joined in
theorem Meets.later {ended : Except ε α → σ → Prop} {p : Program κ reply ε α} {s t : σ}
    (meets : Meets handles rely promise ended p s) (moved : rely s t) : Meets handles rely promise ended p t := by
  cases p with
  | done a => exact fun u more => meets u (joined s t u moved more)
  | fail e => exact fun u more => meets u (joined s t u moved more)
  | call c rest => exact fun u more => meets u (joined s t u moved more)

theorem Meets.weaken {ended wanted : Except ε α → σ → Prop} {p : Program κ reply ε α} {s : σ}
    (meets : Meets handles rely promise ended p s) (weaker : ∀ r t, ended r t → wanted r t) :
    Meets handles rely promise wanted p s := by
  induction p generalizing s with
  | done a => exact fun t moved => weaker _ t (meets t moved)
  | fail e => exact fun t moved => weaker _ t (meets t moved)
  | call c rest ih =>
      intro t moved a after handled
      obtain ⟨kept, later⟩ := meets t moved a after handled
      exact ⟨kept, ih a later⟩

-- What neither side disturbs is still there at the end.
theorem Meets.frame {ended : Except ε α → σ → Prop} {p : Program κ reply ε α} {s : σ} (K : σ → Prop)
    (quiet : ∀ s t, rely s t → K s → K t) (own : ∀ c s t, promise c s t → K s → K t) (holds : K s)
    (meets : Meets handles rely promise ended p s) :
    Meets handles rely promise (fun r t => ended r t ∧ K t) p s := by
  induction p generalizing s with
  | done a => exact fun t moved => ⟨meets t moved, quiet s t moved holds⟩
  | fail e => exact fun t moved => ⟨meets t moved, quiet s t moved holds⟩
  | call c rest ih =>
      intro t moved a after handled
      obtain ⟨kept, later⟩ := meets t moved a after handled
      exact ⟨kept, ih a (own c t after kept (quiet s t moved holds)) later⟩

include still in
theorem Meets.bind {ended : Except ε α → σ → Prop} {wanted : Except ε β → σ → Prop} {p : Program κ reply ε α}
    {next : α → Program κ reply ε β} {s : σ} (meets : Meets handles rely promise ended p s)
    (onward : ∀ a t, ended (.ok a) t → Meets handles rely promise wanted (next a) t)
    (failed : ∀ e t, ended (.error e) t → wanted (.error e) t) :
    Meets handles rely promise wanted (p >>= next) s := by
  induction p generalizing s with
  | done a => exact onward a s (meets s (still s))
  | fail e => exact fun t moved => failed e t (meets t moved)
  | call c rest ih =>
      intro t moved a after handled
      obtain ⟨kept, later⟩ := meets t moved a after handled
      exact ⟨kept, ih a later⟩

theorem Meets.ask {c : κ} {ended : Except ε (reply c) → σ → Prop} {s : σ}
    (answered : ∀ t, rely s t → ∀ a after, handles c t a after →
      promise c t after ∧ ∀ u, rely after u → ended (.ok a) u) :
    Meets handles rely promise ended (.ask c) s := answered

theorem Meets.ofExcept {r : Except ε α} {ended : Except ε α → σ → Prop} {s : σ} (result : ∀ t, rely s t → ended r t) :
    Meets handles rely promise ended (.ofExcept r) s := by
  cases r with
  | ok a => exact result
  | error e => exact result

end Rules

section Runs

variable {κ : Type} {reply : κ → Type} {ε σ ι : Type} {α : ι → Type} [DecidableEq ι]
  {handles : (c : κ) → σ → reply c → σ → Prop} {outside : σ → σ → Prop}

section One

variable (i : ι) {rely : σ → σ → Prop} {promise : κ → σ → σ → Prop} {ended : Except ε (α i) → σ → Prop}
  (still : ∀ s, rely s s) (joined : ∀ s t u, rely s t → rely t u → rely s u)

include still joined

theorem meets_step (u v : Pool κ reply ε σ ι α) (label : Act ι κ) (step : Step handles outside u label v)
    (within : (∀ c, label ≠ .turn i c) → rely u.shared v.shared)
    (meets : Meets handles rely promise ended (u.programs i) u.shared) :
    Meets handles rely promise ended (v.programs i) v.shared ∧ ∀ c, label = .turn i c → promise c u.shared v.shared := by
  cases step with
  | outside after moved =>
      have kept : rely u.shared after := within (fun c own => by cases own)
      exact ⟨meets.later joined kept, fun c own => by cases own⟩
  | turn j c rest a after next handled =>
      by_cases own : j = i
      · subst own
        rw [next] at meets
        obtain ⟨kept, later⟩ := meets u.shared (still _) a after handled
        refine ⟨?_, ?_⟩
        · simpa only [Function.update_self] using later
        · intro d same
          cases same
          exact kept
      · have other : ∀ d, Act.turn j c ≠ .turn i d := by
          intro d same
          cases same
          exact own rfl
        refine ⟨?_, fun d same => absurd same (other d)⟩
        simpa only [Function.update_of_ne (Ne.symm own)] using meets.later joined (within other)

-- One program among others that stay within what it relies on.
theorem meets_run {s t : Pool κ reply ε σ ι α} {run : List (Transition (Pool κ reply ε σ ι α) (Act ι κ))}
    (whole : Run (Step handles outside) s run t)
    (others : ∀ move ∈ run, (∀ c, move.label ≠ .turn i c) → rely move.pre.shared move.post.shared)
    (start : Meets handles rely promise ended (s.programs i) s.shared) :
    Meets handles rely promise ended (t.programs i) t.shared :=
  run_invariant (fun u => Meets handles rely promise ended (u.programs i) u.shared)
    (fun move => (∀ c, move.label ≠ .turn i c) → rely move.pre.shared move.post.shared)
    (fun u label v step within meets => (meets_step i still joined u v label step within meets).1) others whole start

end One

-- Programs each of which keeps to what the others rely on.
theorem pool_run (rely : ι → σ → σ → Prop) (promise : ι → κ → σ → σ → Prop) {ended : (i : ι) → Except ε (α i) → σ → Prop}
    (still : ∀ i s, rely i s s) (joined : ∀ i s t u, rely i s t → rely i t u → rely i s u)
    (kept : ∀ i j c s t, i ≠ j → promise j c s t → rely i s t) (calm : ∀ i s t, outside s t → rely i s t)
    {s t : Pool κ reply ε σ ι α} {run : List (Transition (Pool κ reply ε σ ι α) (Act ι κ))}
    (whole : Run (Step handles outside) s run t)
    (start : ∀ i, Meets handles (rely i) (promise i) (ended i) (s.programs i) s.shared) :
    (∀ i, Meets handles (rely i) (promise i) (ended i) (t.programs i) t.shared) ∧
      ∀ move ∈ run, ∀ i c, move.label = .turn i c → promise i c move.pre.shared move.post.shared := by
  have one : ∀ u label v, Step handles outside u label v →
      (∀ i, Meets handles (rely i) (promise i) (ended i) (u.programs i) u.shared) →
      (∀ i, Meets handles (rely i) (promise i) (ended i) (v.programs i) v.shared) ∧
        ∀ i c, label = .turn i c → promise i c u.shared v.shared := by
    intro u label v step meets
    have own : ∀ i c, label = .turn i c → promise i c u.shared v.shared := by
      intro i c same
      exact (meets_step i (still i) (joined i) u v label step (fun other => absurd same (other c)) (meets i)).2 c same
    refine ⟨?_, own⟩
    intro i
    refine (meets_step i (still i) (joined i) u v label step ?_ (meets i)).1
    intro other
    cases step with
    | outside after moved => exact calm i _ _ moved
    | turn j c rest a after next handled =>
        by_cases same : i = j
        · exact absurd (same ▸ rfl) (other c)
        · exact kept i j c _ _ same (own j c rfl)
  refine ⟨?_, ?_⟩
  · exact run_invariant (fun u => ∀ i, Meets handles (rely i) (promise i) (ended i) (u.programs i) u.shared) (fun _ => True)
      (fun u label v step _ meets => (one u label v step meets).1) (fun _ _ => trivial) whole start
  · intro move member i c same
    obtain ⟨before, step, _⟩ := run_move_invariant
      (fun u => ∀ i, Meets handles (rely i) (promise i) (ended i) (u.programs i) u.shared) (fun _ => True)
      (fun u label v step _ meets => (one u label v step meets).1) (fun _ _ => trivial) whole start move member
    exact (one _ _ _ step before).2 i c same

end Runs

end Calls
