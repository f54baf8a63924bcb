import Mathlib.Data.List.Infix
import Mathlib.Order.Interval.Finset.Nat
import Sqns.Select

set_option autoImplicit false

namespace Sqns.Select

def unweighted (ep : Endpoint) : Bool := ep.weight.toNat == 0

theorem unweighted_iff (ep : Endpoint) : unweighted ep = true ↔ ep.weight.toNat = 0 := beq_iff_eq

theorem total_zero_iff (band : List Endpoint) : totalWeight band = 0 ↔ ∀ ep ∈ band, unweighted ep = true := by
  induction band with
  | nil => simp [totalWeight]
  | cons ep rest ih => simp [totalWeight, ih, unweighted_iff]

-- A pick below the total is used up before the band is.
theorem walk_stops (band : List Endpoint) (start pick : Nat) (below : pick < totalWeight band) :
    ∃ i ep, walk band start pick = some (start + i) ∧ band[i]? = some ep ∧ unweighted ep = false := by
  induction band generalizing start pick with
  | nil => cases below
  | cons ep rest ih =>
      simp only [walk]
      by_cases here : pick < ep.weight.toNat
      · refine ⟨0, ep, if_pos here, rfl, ?_⟩
        rw [Bool.eq_false_iff, ne_eq, unweighted_iff]
        omega
      · simp only [totalWeight] at below
        obtain ⟨i, other, stop, found, heavy⟩ := ih (start + 1) (pick - ep.weight.toNat) (by omega)
        refine ⟨i + 1, other, ?_, found, heavy⟩
        rw [if_neg here, stop, Nat.add_assoc, Nat.add_comm 1 i]

theorem fallback_unused (draws : Draws) (placed : Nat) (band : List Endpoint) (total : totalWeight band ≠ 0) :
    ∃ i, walk band 0 (draws.pick placed (totalWeight band)) = some i := by
  have below := draws.below placed (totalWeight band) (Nat.pos_of_ne_zero total)
  obtain ⟨i, _, stop, _⟩ := walk_stops band 0 _ below
  exact ⟨0 + i, stop⟩

-- One draw: the endpoint taken has weight, unless none in the band has.
theorem chosen_weighted (draws : Draws) (placed : Nat) (band : List Endpoint) (nonempty : band ≠ []) :
    ∃ ep, band[chosen draws placed band]? = some ep ∧
      (unweighted ep = false ∨ (∀ other ∈ band, unweighted other = true) ∧ chosen draws placed band = 0) := by
  by_cases total : totalWeight band = 0
  · obtain ⟨head, tail, rfl⟩ := List.exists_cons_of_ne_nil nonempty
    have first : chosen draws placed (head :: tail) = 0 := if_pos total
    exact ⟨head, by rw [first]; rfl, .inr ⟨(total_zero_iff _).mp total, first⟩⟩
  · obtain ⟨i, ep, stop, found, heavy⟩ := walk_stops band 0 (draws.pick placed (totalWeight band))
      (draws.below placed _ (Nat.pos_of_ne_zero total))
    have picked : chosen draws placed band = i := by
      rw [chosen, if_neg total, stop, Option.getD_some, Nat.zero_add]
    exact ⟨ep, by rw [picked]; exact found, .inl heavy⟩

def Starved (a b : Endpoint) : Prop := unweighted a = true → unweighted b = true

-- What a whole band comes out as, whatever is drawn.
structure Drawn (band drawn : List Endpoint) : Prop where
  perm : drawn.Perm band
  starved : drawn.Pairwise Starved
  resting : drawn.filter unweighted = band.filter unweighted

theorem erase_resting (band : List Endpoint) (idx : Nat) (ep : Endpoint) (found : band[idx]? = some ep)
    (heavy : unweighted ep = false) : (band.eraseIdx idx).filter unweighted = band.filter unweighted := by
  induction band generalizing idx with
  | nil => cases found
  | cons head tail ih =>
      cases idx with
      | zero =>
          rw [List.getElem?_cons_zero, Option.some.injEq] at found
          rw [List.eraseIdx_cons_zero, List.filter_cons_of_neg (by simp [found, heavy])]
      | succ idx =>
          rw [List.getElem?_cons_succ] at found
          rw [List.eraseIdx_cons_succ, List.filter_cons, List.filter_cons, ih idx found]

theorem drawn_cons (band drawn : List Endpoint) (idx : Nat) (ep : Endpoint) (found : band[idx]? = some ep)
    (choice : unweighted ep = false ∨ (∀ other ∈ band, unweighted other = true) ∧ idx = 0)
    (rest : Drawn (band.eraseIdx idx) drawn) : Drawn band (ep :: drawn) := by
  obtain ⟨inside, same⟩ := List.getElem?_eq_some_iff.mp found
  refine ⟨?_, ?_, ?_⟩
  · rw [← same]
    exact (rest.perm.cons _).trans (List.getElem_cons_eraseIdx_perm inside)
  · refine List.pairwise_cons.mpr ⟨?_, rest.starved⟩
    intro other member light
    rcases choice with heavy | ⟨all, _⟩
    · rw [heavy] at light
      cases light
    · exact all other (List.mem_of_mem_eraseIdx (rest.perm.mem_iff.mp member))
  · rcases choice with heavy | ⟨all, first⟩
    · rw [List.filter_cons_of_neg (by simp [heavy]), rest.resting, erase_resting band idx ep found heavy]
    · obtain ⟨head, tail, rfl⟩ := List.exists_cons_of_length_pos (Nat.lt_of_le_of_lt (Nat.zero_le _) inside)
      subst first
      rw [List.getElem?_cons_zero, Option.some.injEq] at found
      rw [List.eraseIdx_cons_zero] at rest
      rw [List.filter_cons, List.filter_cons, rest.resting, found]

theorem draw_band_drawn (draws : Draws) (turns : Nat) (out band : List Endpoint) (all : turns = band.length) :
    ∃ drawn, drawBand draws turns out band = out ++ drawn ∧ Drawn band drawn := by
  induction turns generalizing out band with
  | zero =>
      rw [List.length_eq_zero_iff.mp all.symm]
      exact ⟨[], by simp [drawBand], .refl _, .nil, rfl⟩
  | succ turns ih =>
      have nonempty : band ≠ [] := List.ne_nil_of_length_eq_add_one all.symm
      obtain ⟨ep, found, choice⟩ := chosen_weighted draws out.length band nonempty
      have inside := chosen_lt draws out.length band nonempty
      obtain ⟨drawn, same, rest⟩ := ih (out ++ [ep]) (band.eraseIdx (chosen draws out.length band)) (by
        rw [List.length_eraseIdx_of_lt inside]
        omega)
      refine ⟨ep :: drawn, ?_, drawn_cons band drawn _ ep found choice rest⟩
      simp only [drawBand]
      rw [found, Option.toList_some, same, List.append_assoc]
      rfl

-- The bands as the grouping loop leaves them.
structure Grouped (groups : List (UInt16 × List Endpoint)) : Prop where
  ascending : groups.Pairwise (fun a b => a.1 < b.1)
  uniform : ∀ group ∈ groups, ∀ ep ∈ group.2, ep.priority = group.1

theorem grouped_concat (front : List (UInt16 × List Endpoint)) (group : UInt16 × List Endpoint) (grouped : Grouped front)
    (below : ∀ other ∈ front, other.1 < group.1) (uniform : ∀ ep ∈ group.2, ep.priority = group.1) :
    Grouped (front ++ [group]) ∧ ∀ other ∈ front ++ [group], other.1 ≤ group.1 := by
  refine ⟨⟨?_, ?_⟩, ?_⟩
  · refine List.pairwise_append.mpr ⟨grouped.ascending, List.pairwise_singleton _ _, ?_⟩
    intro a inFront b single
    rw [List.mem_singleton.mp single]
    exact below a inFront
  · intro other member ep inside
    obtain old | new := List.mem_append.mp member
    · exact grouped.uniform other old ep inside
    · rw [List.mem_singleton.mp new] at inside ⊢
      exact uniform ep inside
  · intro other member
    obtain old | new := List.mem_append.mp member
    · exact UInt16.le_of_lt (below other old)
    · rw [List.mem_singleton.mp new]
      exact UInt16.le_refl _

theorem push_band_grouped (groups : List (UInt16 × List Endpoint)) (ep : Endpoint) (grouped : Grouped groups)
    (last : ∀ group ∈ groups, group.1 ≤ ep.priority) :
    Grouped (pushBand groups ep) ∧ ∀ group ∈ pushBand groups ep, group.1 ≤ ep.priority := by
  have fresh : ∀ other ∈ [ep], other.priority = ep.priority := fun other member => by rw [List.mem_singleton.mp member]
  simp only [pushBand]
  cases ends : groups.getLast? with
  | none =>
      rw [List.getLast?_eq_none_iff.mp ends] at grouped
      exact grouped_concat [] (ep.priority, [ep]) grouped (by simp) fresh
  | some group =>
      obtain ⟨prio, band⟩ := group
      have whole := List.dropLast_append_getLast? (prio, band) ends
      have sorted := grouped.ascending
      rw [← whole, List.pairwise_append] at sorted
      have before : ∀ group ∈ groups.dropLast, group.1 < prio := fun group member => sorted.2.2 group member (prio, band) (by simp)
      have inGroups : (prio, band) ∈ groups := List.mem_of_getLast? ends
      dsimp only
      split
      · rename_i same
        have front : Grouped groups.dropLast :=
          ⟨sorted.1, fun group member => grouped.uniform group (List.mem_of_mem_dropLast member)⟩
        rw [← same]
        apply grouped_concat groups.dropLast (prio, band ++ [ep]) front before
        intro other member
        obtain held | added := List.mem_append.mp member
        · exact grouped.uniform (prio, band) inGroups other held
        · rw [List.mem_singleton.mp added, same]
      · rename_i different
        have less : prio < ep.priority := UInt16.lt_of_le_of_ne (last _ inGroups) different
        apply grouped_concat groups (ep.priority, [ep]) grouped _ fresh
        intro group member
        rw [← whole] at member
        obtain old | new := List.mem_append.mp member
        · exact UInt16.lt_trans (before group old) less
        · rw [List.mem_singleton.mp new]
          exact less

theorem bands_grouped (endpoints : List Endpoint) : Grouped (bands endpoints) := by
  have pushed : ∀ (items : List Endpoint) (groups : List (UInt16 × List Endpoint)), Grouped groups →
      items.Pairwise (fun a b => a.priority ≤ b.priority) → (∀ group ∈ groups, ∀ ep ∈ items, group.1 ≤ ep.priority) →
      Grouped (items.foldl pushBand groups) := by
    intro items
    induction items with
    | nil => exact fun groups grouped _ _ => grouped
    | cons ep rest ih =>
        intro groups grouped sorted last
        rw [List.pairwise_cons] at sorted
        obtain ⟨still, atMost⟩ := push_band_grouped groups ep grouped (fun group member => last group member ep (by simp))
        refine ih _ still sorted.2 ?_
        intro group member other inRest
        exact UInt16.le_trans (atMost group member) (sorted.1 other inRest)
  refine pushed _ [] ⟨.nil, by simp⟩ ?_ (by simp)
  have total : Std.Total (fun a b : Endpoint => a.priority ≤ b.priority) := ⟨fun a b => UInt16.le_total a.priority b.priority⟩
  have trans : IsTrans Endpoint (fun a b => a.priority ≤ b.priority) := ⟨fun _ _ _ => UInt16.le_trans⟩
  exact List.pairwise_insertionSort _ _

def InOrder (a b : Endpoint) : Prop := a.priority ≤ b.priority ∧ (a.priority = b.priority → Starved a b)

theorem bands_drawn (draws : Draws) (groups : List (UInt16 × List Endpoint)) (out : List Endpoint) (grouped : Grouped groups) :
    ∃ drawn, groups.foldl (fun out band => drawBand draws band.2.length out band.2) out = out ++ drawn ∧
      (∀ ep ∈ drawn, ∃ group ∈ groups, ep.priority = group.1) ∧ drawn.Pairwise InOrder ∧
      drawn.filter unweighted = (groups.flatMap Prod.snd).filter unweighted := by
  induction groups generalizing out with
  | nil => exact ⟨[], by simp⟩
  | cons group rest ih =>
      obtain ⟨first, same, drawn⟩ := draw_band_drawn draws group.2.length out group.2 rfl
      have sorted := List.pairwise_cons.mp grouped.ascending
      obtain ⟨later, rest_, among, ordered, resting⟩ := ih (out ++ first)
        ⟨sorted.2, fun g member => grouped.uniform g (by simp [member])⟩
      have own : ∀ ep ∈ first, ep.priority = group.1 := fun ep member =>
        grouped.uniform group (by simp) ep (drawn.perm.mem_iff.mp member)
      refine ⟨first ++ later, ?_, ?_, ?_, ?_⟩
      · rw [List.foldl_cons, same, rest_, List.append_assoc]
      · intro ep member
        rcases List.mem_append.mp member with here | there
        · exact ⟨group, by simp, own ep here⟩
        · obtain ⟨g, inRest, prio⟩ := among ep there
          exact ⟨g, by simp [inRest], prio⟩
      · refine List.pairwise_append.mpr ⟨?_, ordered, ?_⟩
        · refine drawn.starved.imp_of_mem ?_
          intro a b inA inB starved
          exact ⟨by rw [own a inA, own b inB]; exact UInt16.le_refl _, fun _ => starved⟩
        · intro a here b there
          obtain ⟨g, inRest, prio⟩ := among b there
          have less : a.priority < b.priority := by
            rw [own a here, prio]
            exact sorted.1 g inRest
          exact ⟨UInt16.le_of_lt less, fun equal => False.elim (UInt16.ne_of_lt less equal)⟩
      · rw [List.filter_append, List.flatMap_cons, List.filter_append, drawn.resting, resting]

-- The sort is stable: what it may not tell apart stays as it was.
theorem sorted_filter (endpoints : List Endpoint) (keep : Endpoint → Bool) (prio : UInt16)
    (alike : ∀ ep, keep ep = true → ep.priority = prio) :
    (endpoints.insertionSort (fun a b => a.priority ≤ b.priority)).filter keep = endpoints.filter keep := by
  have total : Std.Total (fun a b : Endpoint => a.priority ≤ b.priority) := ⟨fun a b => UInt16.le_total a.priority b.priority⟩
  have trans : IsTrans Endpoint (fun a b => a.priority ≤ b.priority) := ⟨fun _ _ _ => UInt16.le_trans⟩
  have equal : (endpoints.filter keep).Pairwise (fun a b => a.priority ≤ b.priority) := by
    refine List.pairwise_of_forall_mem_list ?_
    intro a inA b inB
    rw [alike a (List.mem_filter.mp inA).2, alike b (List.mem_filter.mp inB).2]
    exact UInt16.le_refl _
  have kept := (List.sublist_insertionSort equal List.filter_sublist).filter keep
  simp only [List.filter_filter, Bool.and_self] at kept
  exact (kept.eq_of_length ((List.perm_insertionSort _ endpoints).filter keep).length_eq.symm).symm

theorem order_with_starves_unweighted (draws : Draws) (record : Record) :
    (orderWith draws record).Perm record.endpoints ∧
    (orderWith draws record).Pairwise (fun a b => a.priority ≤ b.priority) ∧
    (orderWith draws record).Pairwise (fun a b => a.priority = b.priority → a.weight = 0 → b.weight = 0) ∧
    (∀ prio, (orderWith draws record).filter (fun ep => ep.weight = 0 && ep.priority = prio) =
      record.endpoints.filter (fun ep => ep.weight = 0 && ep.priority = prio)) ∧
    ∀ placed band, totalWeight band ≠ 0 → walk band 0 (draws.pick placed (totalWeight band)) ≠ none := by
  have light : ∀ ep : Endpoint, ep.weight = 0 ↔ unweighted ep = true := by
    intro ep
    rw [unweighted_iff, ← UInt16.toNat_inj]
    rfl
  obtain ⟨drawn, same, _, ordered, resting⟩ := bands_drawn draws (bands record.endpoints) [] (bands_grouped record.endpoints)
  have out : orderWith draws record = drawn := same
  rw [bands_flat] at resting
  refine ⟨order_with_perm draws record, ?_, ?_, ?_, ?_⟩
  · rw [out]
    exact ordered.imp (fun inOrder => inOrder.1)
  · rw [out]
    refine ordered.imp ?_
    intro a b inOrder equal zero
    exact (light b).mpr (inOrder.2 equal ((light a).mp zero))
  · intro prio
    let here : Endpoint → Bool := fun ep => ep.priority = prio
    have split : (fun ep : Endpoint => decide (ep.weight = 0) && decide (ep.priority = prio)) = fun ep => here ep && unweighted ep := by
      funext ep
      have weighed : decide (ep.weight = 0) = unweighted ep := by simp only [light, Bool.decide_eq_true]
      rw [Bool.and_comm, weighed]
    rw [out, split, ← List.filter_filter, resting, List.filter_filter]
    refine sorted_filter record.endpoints _ prio ?_
    intro ep kept
    rw [Bool.and_eq_true] at kept
    exact of_decide_eq_true kept.1
  · intro placed band total none
    obtain ⟨i, stop⟩ := fallback_unused draws placed band total
    rw [none] at stop
    cases stop

-- The walk stops at an endpoint on the picks from the weight before it up to,
-- and without, the weight up to it.
theorem walk_at_iff (band : List Endpoint) (start pick i : Nat) (ep : Endpoint) (here : band[i]? = some ep) :
    walk band start pick = some (start + i) ↔
      totalWeight (band.take i) ≤ pick ∧ pick < totalWeight (band.take i) + ep.weight.toNat := by
  induction band generalizing start pick i with
  | nil => cases here
  | cons head rest ih =>
      cases i with
      | zero =>
          rw [List.getElem?_cons_zero, Option.some.injEq] at here
          subst here
          simp only [walk, List.take_zero, totalWeight, Nat.zero_le, true_and, Nat.zero_add, Nat.add_zero]
          by_cases early : pick < head.weight.toNat
          · simp [early]
          · simp only [early, iff_false]
            intro found
            have later := walk_bound rest (start + 1) _ start found
            omega
      | succ i =>
          rw [List.getElem?_cons_succ] at here
          have shift : start + (i + 1) = start + 1 + i := by omega
          simp only [walk, List.take_succ_cons, totalWeight]
          by_cases early : pick < head.weight.toNat
          · simp only [if_pos early, Option.some.injEq]
            omega
          · rw [if_neg early, shift, ih (start + 1) (pick - head.weight.toNat) i here]
            omega

theorem total_take_le (band : List Endpoint) (i : Nat) (ep : Endpoint) (here : band[i]? = some ep) :
    totalWeight (band.take i) + ep.weight.toNat ≤ totalWeight band := by
  induction band generalizing i with
  | nil => cases here
  | cons head rest ih =>
      cases i with
      | zero =>
          rw [List.getElem?_cons_zero, Option.some.injEq] at here
          subst here
          simp [totalWeight]
      | succ i =>
          rw [List.getElem?_cons_succ] at here
          have later := ih i here
          simp only [List.take_succ_cons, totalWeight]
          omega

theorem chosen_iff (draws : Draws) (placed i : Nat) (band : List Endpoint) (ep : Endpoint) (positive : 0 < totalWeight band)
    (here : band[i]? = some ep) :
    chosen draws placed band = i ↔ totalWeight (band.take i) ≤ draws.pick placed (totalWeight band) ∧
      draws.pick placed (totalWeight band) < totalWeight (band.take i) + ep.weight.toNat := by
  obtain ⟨j, stop⟩ := fallback_unused draws placed band (Nat.ne_of_gt positive)
  have stopped := walk_at_iff band 0 (draws.pick placed (totalWeight band)) i ep here
  rw [Nat.zero_add, stop, Option.some.injEq] at stopped
  rw [← stopped, chosen, if_neg (Nat.ne_of_gt positive), stop, Option.getD_some]

theorem draw_band_takes (draws : Draws) (turns : Nat) (out band : List Endpoint) (ep : Endpoint) (i : Nat)
    (here : band[i]? = some ep) (choice : chosen draws out.length band = i) :
    drawBand draws (turns + 1) out band = drawBand draws turns (out ++ [ep]) (band.eraseIdx i) := by
  simp only [drawBand, choice, here, Option.toList_some]

-- A generator that answers `pick` wherever that lies in the range.
def answering (pick : Nat) : Draws where
  pick _ total := if pick < total then pick else 0
  below _ total some := by
    split
    · assumption
    · exact some

theorem draws_proportional_to_weight (band : List Endpoint) (positive : 0 < totalWeight band) (placed i : Nat) (ep : Endpoint)
    (here : band[i]? = some ep) :
    ((Finset.range (totalWeight band)).filter (fun pick => chosen (answering pick) placed band = i)).card = ep.weight.toNat ∧
    (0 < ep.weight.toNat → ∃ draws, chosen draws placed band = i ∧ ∀ turns out, out.length = placed →
      drawBand draws (turns + 1) out band = drawBand draws turns (out ++ [ep]) (band.eraseIdx i)) ∧
    ∀ draws, chosen draws placed band = i ↔ totalWeight (band.take i) ≤ draws.pick placed (totalWeight band) ∧
      draws.pick placed (totalWeight band) < totalWeight (band.take i) + ep.weight.toNat := by
  have fits := total_take_le band i ep here
  have answered : ∀ pick, pick < totalWeight band → (chosen (answering pick) placed band = i ↔
      totalWeight (band.take i) ≤ pick ∧ pick < totalWeight (band.take i) + ep.weight.toNat) := by
    intro pick below
    have picked : (answering pick).pick placed (totalWeight band) = pick := if_pos below
    rw [chosen_iff (answering pick) placed i band ep positive here, picked]
  refine ⟨?_, ?_, fun draws => chosen_iff draws placed i band ep positive here⟩
  · have interval : (Finset.range (totalWeight band)).filter (fun pick => chosen (answering pick) placed band = i) =
        Finset.Ico (totalWeight (band.take i)) (totalWeight (band.take i) + ep.weight.toNat) := by
      ext pick
      rw [Finset.mem_filter, Finset.mem_range, Finset.mem_Ico]
      apply Iff.intro
      · intro both
        exact (answered pick both.1).mp both.2
      · intro inside
        exact ⟨by omega, (answered pick (by omega)).mpr inside⟩
    rw [interval, Nat.card_Ico]
    omega
  · intro heavy
    have choice := (answered (totalWeight (band.take i)) (by omega)).mpr (by omega)
    refine ⟨answering (totalWeight (band.take i)), choice, ?_⟩
    rintro turns out rfl
    exact draw_band_takes _ turns out band ep i here choice

theorem draws_proportional_to_weight_heavy :
    let light : Endpoint := ⟨.v4 ⟨[198, 51, 100, 1], rfl⟩, 5300, 10, 1⟩
    let heavy : Endpoint := ⟨.v4 ⟨[198, 51, 100, 2], rfl⟩, 5300, 10, 999⟩
    totalWeight [light, heavy] = 1000 ∧
      ((Finset.range (totalWeight [light, heavy])).filter (fun pick => chosen (answering pick) 0 [light, heavy] = 1)).card = 999 := by
  intro light heavy
  have total : totalWeight [light, heavy] = 1000 := rfl
  exact ⟨total, (draws_proportional_to_weight [light, heavy] (by rw [total]; decide) 0 1 heavy rfl).1⟩

end Sqns.Select
