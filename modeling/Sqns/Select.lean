import Mathlib.Data.List.Sort
import Sqns.Record

set_option autoImplicit false

namespace Sqns

-- A random generator is whatever it hands out: `pick n total` is the answer to
-- `random_range(0..total)` once n endpoints are placed, and lies in that range.
structure Draws where
  pick : Nat → Nat → Nat
  below : ∀ n total, 0 < total → pick n total < total

namespace Select

def pushBand (bands : List (UInt16 × List Endpoint)) (ep : Endpoint) : List (UInt16 × List Endpoint) :=
  match bands.getLast? with
  | some (prio, band) =>
      if prio = ep.priority then bands.dropLast ++ [(prio, band ++ [ep])] else bands ++ [(ep.priority, [ep])]
  | none => [(ep.priority, [ep])]

def bands (endpoints : List Endpoint) : List (UInt16 × List Endpoint) :=
  (endpoints.insertionSort (fun a b => a.priority ≤ b.priority)).foldl pushBand []

def totalWeight : List Endpoint → Nat
  | [] => 0
  | ep :: rest => ep.weight.toNat + totalWeight rest

-- The index at which the running subtraction stops, if it does.
def walk : List Endpoint → Nat → Nat → Option Nat
  | [], _, _ => none
  | ep :: rest, i, pick => if pick < ep.weight.toNat then some i else walk rest (i + 1) (pick - ep.weight.toNat)

def chosen (draws : Draws) (placed : Nat) (band : List Endpoint) : Nat :=
  if totalWeight band = 0 then 0
  else (walk band 0 (draws.pick placed (totalWeight band))).getD (band.length - 1)

-- `while !band.is_empty()`: every turn removes one endpoint, so the band's
-- length counts the turns.
def drawBand (draws : Draws) : Nat → List Endpoint → List Endpoint → List Endpoint
  | 0, out, _ => out
  | turns + 1, out, band =>
      let idx := chosen draws out.length band
      drawBand draws turns (out ++ (band[idx]?).toList) (band.eraseIdx idx)

def orderWith (draws : Draws) (record : Record) : List Endpoint :=
  (bands record.endpoints).foldl (fun out band => drawBand draws band.2.length out band.2) []

theorem walk_bound (band : List Endpoint) (start pick i : Nat) (found : walk band start pick = some i) :
    start ≤ i ∧ i < start + band.length := by
  induction band generalizing start pick with
  | nil => cases found
  | cons ep rest ih =>
      simp only [walk] at found
      rw [List.length_cons]
      split at found
      · cases found
        omega
      · have later := ih (start + 1) _ found
        omega

theorem chosen_lt (draws : Draws) (placed : Nat) (band : List Endpoint) (nonempty : band ≠ []) :
    chosen draws placed band < band.length := by
  have some_ : 0 < band.length := List.length_pos_iff.mpr nonempty
  simp only [chosen]
  split
  · exact some_
  · cases stop : walk band 0 (draws.pick placed (totalWeight band)) with
    | none =>
        rw [Option.getD_none]
        omega
    | some i =>
        have bound := walk_bound band 0 _ i stop
        rw [Option.getD_some]
        omega

theorem draw_band_perm (draws : Draws) (turns : Nat) (out band : List Endpoint) (all : turns = band.length) :
    (drawBand draws turns out band).Perm (out ++ band) := by
  induction turns generalizing out band with
  | zero =>
      rw [List.length_eq_zero_iff.mp all.symm, List.append_nil]
      exact .refl _
  | succ turns ih =>
      have nonempty : band ≠ [] := by
        rintro rfl
        cases all
      have inside := chosen_lt draws out.length band nonempty
      have rest : turns = (band.eraseIdx (chosen draws out.length band)).length := by
        rw [List.length_eraseIdx_of_lt inside]
        omega
      simp only [drawBand]
      refine (ih _ _ rest).trans ?_
      rw [List.getElem?_eq_getElem inside, Option.toList_some, List.append_assoc]
      exact (List.getElem_cons_eraseIdx_perm inside).append_left out

theorem push_band_flat (grouped : List (UInt16 × List Endpoint)) (ep : Endpoint) :
    (pushBand grouped ep).flatMap Prod.snd = grouped.flatMap Prod.snd ++ [ep] := by
  simp only [pushBand]
  cases last : grouped.getLast? with
  | none => simp [List.getLast?_eq_none_iff.mp last]
  | some group =>
      obtain ⟨prio, band⟩ := group
      dsimp only
      split
      · have whole := List.dropLast_append_getLast? (prio, band) last
        have flat : grouped.flatMap Prod.snd = grouped.dropLast.flatMap Prod.snd ++ band := by
          nth_rewrite 1 [← whole]
          simp
        simp [flat]
      · simp

theorem bands_pushed (items : List Endpoint) (grouped : List (UInt16 × List Endpoint)) :
    (items.foldl pushBand grouped).flatMap Prod.snd = grouped.flatMap Prod.snd ++ items := by
  induction items generalizing grouped with
  | nil => simp
  | cons ep rest ih =>
      rw [List.foldl_cons, ih, push_band_flat, List.append_assoc]
      rfl

theorem bands_flat (endpoints : List Endpoint) :
    (bands endpoints).flatMap Prod.snd = endpoints.insertionSort (fun a b => a.priority ≤ b.priority) := by
  rw [bands, bands_pushed]
  rfl

theorem bands_perm (endpoints : List Endpoint) : ((bands endpoints).flatMap Prod.snd).Perm endpoints := by
  rw [bands_flat]
  exact List.perm_insertionSort _ _

-- Every endpoint is tried, and none is invented, whatever is drawn.
theorem order_with_perm (draws : Draws) (record : Record) : (orderWith draws record).Perm record.endpoints := by
  have drawn : ∀ (grouped : List (UInt16 × List Endpoint)) (out : List Endpoint),
      (grouped.foldl (fun out band => drawBand draws band.2.length out band.2) out).Perm (out ++ grouped.flatMap Prod.snd) := by
    intro grouped
    induction grouped with
    | nil => simp
    | cons band rest ih =>
        intro out
        rw [List.foldl_cons, List.flatMap_cons, ← List.append_assoc]
        exact (ih _).trans ((draw_band_perm draws band.2.length out band.2 rfl).append_right _)
  have placed := drawn (bands record.endpoints) []
  rw [List.nil_append] at placed
  exact placed.trans (bands_perm record.endpoints)

end Select

end Sqns
