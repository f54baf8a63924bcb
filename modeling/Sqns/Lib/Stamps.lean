set_option autoImplicit false

namespace Stamps

variable {σ : Type} (version : σ → Nat) (calm : σ → Prop)

-- A change may come before the count of it, as long as the state is not calm
-- until it has been counted.
inductive Counted (s t : σ) : Prop where
  | unchanged (same : t = s)
  | uncounted (still : version t = version s) (busy : ¬ calm t)
  | counted (later : version s < version t)

-- Something known to be `good` when the version was `stamp`. It is good of every
-- calm state that still has that version.
structure Dated (good : σ → Prop) (stamp : Nat) (s : σ) : Prop where
  past : stamp ≤ version s
  current : version s = stamp → calm s → good s

variable {version calm} {good : σ → Prop} {stamp : Nat} {s t : σ}

theorem Counted.mono (step : Counted version calm s t) : version s ≤ version t := by
  cases step with
  | unchanged same => exact same ▸ Nat.le_refl _
  | uncounted still busy => exact Nat.le_of_eq still.symm
  | counted later => exact Nat.le_of_lt later

theorem Dated.step (step : Counted version calm s t) (dated : Dated version calm good stamp s) :
    Dated version calm good stamp t := by
  refine ⟨Nat.le_trans dated.past step.mono, ?_⟩
  intro same quiet
  cases step with
  | unchanged eq => exact eq ▸ dated.current (eq ▸ same) (eq ▸ quiet)
  | uncounted still busy => exact False.elim (busy quiet)
  | counted later => exact False.elim (Nat.not_lt.mpr dated.past (same ▸ later))

theorem dated_now (seen : good s) (past : stamp ≤ version s) : Dated version calm good stamp s := ⟨past, fun _ _ => seen⟩

theorem dated_before (before : stamp < version s) : Dated version calm good stamp s :=
  ⟨Nat.le_of_lt before, fun same => False.elim (Nat.ne_of_gt before same)⟩

end Stamps
