import Mathlib.Data.Finmap
import Mathlib.Data.Finset.Sort

set_option autoImplicit false

namespace Finmap

section Retain

variable {α β : Type} [DecidableEq α]

-- `HashMap::retain` with a predicate on the values.
def retain (keep : β → Bool) (m : Finmap fun _ : α => β) : Finmap fun _ : α => β :=
  ⟨m.entries.filter (fun entry => keep entry.2),
    Multiset.nodup_keys.mp (Multiset.nodup_of_le (Multiset.map_le_map (Multiset.filter_le _ _))
      (Multiset.nodup_keys.mpr m.nodupKeys))⟩

@[simp] theorem lookup_retain (keep : β → Bool) (m : Finmap fun _ : α => β) (a : α) :
    (m.retain keep).lookup a = (m.lookup a).filter keep := by
  apply Option.ext
  intro b
  have entry : (m.retain keep).lookup a = some b ↔ m.lookup a = some b ∧ keep b = true := by
    have here := mem_lookup_iff (s := m.retain keep) (a := a) (b := b)
    have there := mem_lookup_iff (s := m) (a := a) (b := b)
    rw [Option.mem_def] at here there
    rw [here, there]
    exact Multiset.mem_filter
  rw [entry, Option.filter_eq_some_iff]

@[simp] theorem lookup_insert_ite {a a' : α} {b : β} (m : Finmap fun _ : α => β) :
    (m.insert a' b).lookup a = if a = a' then some b else m.lookup a := by
  by_cases same : a = a'
  · subst same
    simp [lookup_insert]
  · rw [lookup_insert_of_ne m same, if_neg same]

-- The order in which a hash map hands out its entries is any list with each
-- held key exactly once.
structure Iterates (items : List (α × β)) (m : Finmap fun _ : α => β) : Prop where
  once : (items.map Prod.fst).Nodup
  held : ∀ a b, (a, b) ∈ items ↔ m.lookup a = some b

theorem Iterates.length_eq {items : List (α × β)} {m : Finmap fun _ : α => β} (order : Iterates items m) :
    items.length = m.keys.card := by
  have same : (items.map Prod.fst).toFinset = m.keys := by
    ext a
    simp only [List.mem_toFinset, List.mem_map, mem_keys, mem_iff]
    constructor
    · rintro ⟨⟨a', b⟩, member, rfl⟩
      exact ⟨b, (order.held _ _).mp member⟩
    · rintro ⟨b, found⟩
      exact ⟨(a, b), (order.held a b).mpr found, rfl⟩
  rw [← same, List.toFinset_card_of_nodup order.once, List.length_map]

def ofPairs (items : List (α × β)) : Finmap fun _ : α => β :=
  items.foldl (fun m item => m.insert item.1 item.2) ∅

theorem lookup_foldl_insert (items : List (α × β)) (m : Finmap fun _ : α => β) (a : α)
    (once : (items.map Prod.fst).Nodup) :
    (items.foldl (fun acc item => acc.insert item.1 item.2) m).lookup a =
      ((items.find? (fun item => item.1 = a)).map Prod.snd).or (m.lookup a) := by
  induction items generalizing m with
  | nil => rfl
  | cons head tail ih =>
      rw [List.map_cons, List.nodup_cons] at once
      rw [List.foldl_cons, ih _ once.2, List.find?_cons, lookup_insert_ite]
      by_cases same : head.1 = a
      · have absent : tail.find? (fun item => item.1 = a) = none := by
          rw [List.find?_eq_none]
          intro item member
          simp only [decide_eq_true_eq]
          intro eq
          exact once.1 (List.mem_map.mpr ⟨item, member, eq.trans same.symm⟩)
        simp [same, absent]
      · have flipped : ¬ a = head.1 := fun eq => same eq.symm
        simp [same, flipped]

theorem Iterates.of_pairs {items : List (α × β)} {m : Finmap fun _ : α => β} (order : Iterates items m) :
    ofPairs items = m := by
  apply ext_lookup
  intro a
  rw [ofPairs, lookup_foldl_insert items ∅ a order.once, lookup_empty, Option.or_none]
  cases found : items.find? (fun item => item.1 = a) with
  | some item =>
      have member := List.mem_of_find?_eq_some found
      have key : item.1 = a := by simpa using List.find?_some found
      rw [Option.map_some, eq_comm, ← key]
      exact (order.held item.1 item.2).mp member
  | none =>
      rw [Option.map_none, eq_comm, Option.eq_none_iff_forall_ne_some]
      intro b present
      have member := (order.held a b).mpr present
      rw [List.find?_eq_none] at found
      exact found (a, b) member (by simp)

theorem of_pairs_card (items : List (α × β)) : (ofPairs items).keys.card ≤ items.length := by
  have grown : ∀ m : Finmap fun _ : α => β,
      (items.foldl (fun acc item => acc.insert item.1 item.2) m).keys.card ≤ m.keys.card + items.length := by
    induction items with
    | nil => simp
    | cons head tail ih =>
        intro m
        have later := ih (m.insert head.1 head.2)
        have first : (m.insert head.1 head.2).keys.card ≤ m.keys.card + 1 := by
          have within : (m.insert head.1 head.2).keys ⊆ Insert.insert head.1 m.keys := by
            intro a member
            simpa only [mem_keys, mem_insert, Finset.mem_insert] using member
          exact (Finset.card_le_card within).trans (Finset.card_insert_le _ _)
        rw [List.foldl_cons, List.length_cons]
        omega
  simpa [ofPairs] using grown ∅

theorem retain_of_card (keep : β → Bool) (m : Finmap fun _ : α => β) (none : m.keys.card - (m.retain keep).keys.card = 0) :
    m.retain keep = m := by
  have fewer : (m.retain keep).keys ⊆ m.keys := by
    intro a member
    rw [mem_keys, mem_iff] at member ⊢
    obtain ⟨b, found⟩ := member
    rw [lookup_retain, Option.filter_eq_some_iff] at found
    exact ⟨b, found.1⟩
  have same := Finset.eq_of_subset_of_card_le fewer (by omega)
  apply ext_lookup
  intro a
  rw [lookup_retain]
  cases found : m.lookup a with
  | none => rfl
  | some b =>
      have member : a ∈ (m.retain keep).keys := by
        rw [same, mem_keys, mem_iff]
        exact ⟨b, found⟩
      rw [mem_keys, mem_iff] at member
      obtain ⟨c, kept⟩ := member
      rw [lookup_retain, found, Option.filter_eq_some_iff, Option.some.injEq] at kept
      rw [Option.filter_some, if_pos (kept.1 ▸ kept.2)]

end Retain

section Ascending

variable {α β : Type} [LinearOrder α]

def ascending (m : Finmap fun _ : α => β) : List (α × β) :=
  (m.keys.sort (· ≤ ·)).filterMap (fun a => (m.lookup a).map (fun b => (a, b)))

theorem mem_ascending (m : Finmap fun _ : α => β) (a : α) (b : β) : (a, b) ∈ m.ascending ↔ m.lookup a = some b := by
  simp only [ascending, List.mem_filterMap, Finset.mem_sort, mem_keys, Option.map_eq_some_iff, Prod.mk.injEq]
  constructor
  · rintro ⟨a', _, b', found, rfl, rfl⟩
    exact found
  · intro found
    exact ⟨a, mem_of_lookup_eq_some found, b, found, rfl, rfl⟩

theorem ascending_keys (m : Finmap fun _ : α => β) : m.ascending.map Prod.fst = m.keys.sort (· ≤ ·) := by
  have total : ∀ a ∈ m.keys.sort (· ≤ ·), ∃ b, m.lookup a = some b := by
    intro a member
    rwa [Finset.mem_sort, mem_keys, mem_iff] at member
  unfold ascending
  generalize m.keys.sort (· ≤ ·) = keys at total ⊢
  induction keys with
  | nil => rfl
  | cons head tail ih =>
      obtain ⟨b, found⟩ := total head (by simp)
      have rest := ih (fun a member => total a (by simp [member]))
      simp [found, rest]

theorem ascending_iterates (m : Finmap fun _ : α => β) : Iterates m.ascending m := by
  refine ⟨?_, mem_ascending m⟩
  rw [ascending_keys]
  exact Finset.sort_nodup _ _

end Ascending

end Finmap
