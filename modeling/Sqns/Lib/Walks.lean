import Mathlib.Data.List.Basic

set_option autoImplicit false

namespace Walks

-- A graph as the ordered list of links out of each node. A link is known by the
-- node it starts from and its place in that node's list.
variable {ν : Type} (next : ν → List ν)

abbrev Link (ν : Type) := ν × Nat

inductive Walk : ν → List (Link ν) → ν → Prop where
  | nil (v : ν) : Walk v [] v
  | cons (v w t : ν) (i : Nat) (rest : List (Link ν)) (link : (next v)[i]? = some w) (later : Walk w rest t) :
      Walk v ((v, i) :: rest) t

variable {next}

theorem walk_snoc (v w t : ν) (i : Nat) (links : List (Link ν)) (walk : Walk next v links w) (link : (next w)[i]? = some t) :
    Walk next v (links ++ [(w, i)]) t := by
  induction walk with
  | nil v => exact .cons v t t i [] link (.nil t)
  | cons v u w j rest first later ih => exact .cons v u t j _ first (ih link)

theorem walk_split {v t : ν} {links more : List (Link ν)} (walk : Walk next v (links ++ more) t) :
    ∃ w, Walk next v links w ∧ Walk next w more t := by
  induction links generalizing v with
  | nil => exact ⟨v, .nil v, walk⟩
  | cons head tail ih =>
      cases walk with
      | cons _ w _ i _ link later =>
          obtain ⟨u, before, after⟩ := ih later
          exact ⟨u, .cons v w u i tail link before, after⟩

-- Some node a walk of at most `n` links away has the property.
def Within (next : ν → List ν) (good : ν → Prop) (n : Nat) (v : ν) : Prop :=
  ∃ t links, Walk next v links t ∧ links.length ≤ n ∧ good t

theorem within_zero (good : ν → Prop) (v : ν) : Within next good 0 v ↔ good v := by
  constructor
  · rintro ⟨t, links, walk, short, found⟩
    rw [Nat.le_zero, List.length_eq_zero_iff] at short
    subst short
    cases walk
    exact found
  · intro found
    exact ⟨v, [], .nil v, Nat.le_refl 0, found⟩

theorem within_succ (good : ν → Prop) (n : Nat) (v : ν) :
    Within next good (n + 1) v ↔ good v ∨ ∃ w ∈ next v, Within next good n w := by
  constructor
  · rintro ⟨t, links, walk, short, found⟩
    cases walk with
    | nil => exact .inl found
    | cons _ w _ i rest link later =>
        exact .inr ⟨w, List.mem_of_getElem? link, t, rest, later, Nat.le_of_succ_le_succ short, found⟩
  · rintro (found | ⟨w, member, t, links, walk, short, found⟩)
    · exact ⟨v, [], .nil v, Nat.zero_le _, found⟩
    · obtain ⟨i, link⟩ := List.mem_iff_getElem?.mp member
      exact ⟨t, (v, i) :: links, .cons v w t i links link walk, Nat.succ_le_succ short, found⟩

def total {α : Type} (f : α → Nat) : List α → Nat
  | [] => 0
  | a :: rest => f a + total f rest

theorem total_drop {α : Type} (f : α → Nat) (l : List α) (i : Nat) (a : α) (found : l[i]? = some a) :
    total f (l.drop i) = f a + total f (l.drop (i + 1)) := by
  obtain ⟨bound, rfl⟩ := List.getElem?_eq_some_iff.mp found
  rw [List.drop_eq_getElem_cons bound, total]

-- The steps of a depth-first tour `depth` links deep: one into a node, one into
-- its list and one out of it, and along every link one each way.
def tour (next : ν → List ν) : Nat → ν → Nat
  | 0, _ => 1
  | depth + 1, v => 2 + total (fun w => 2 + tour next depth w) (next v)

end Walks
