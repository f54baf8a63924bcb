import Mathlib.Data.List.DropRight
import Mathlib.Data.List.TakeWhile

set_option autoImplicit false

namespace Text

section Split

variable {α : Type} [DecidableEq α]

-- The text before the first separator and the text after it.
def splitOnce (sep : α) : List α → Option (List α × List α)
  | [] => none
  | c :: rest => if c = sep then some ([], rest) else (splitOnce sep rest).map (fun parts => (c :: parts.1, parts.2))

theorem split_once_iff (sep : α) (text front back : List α) :
    splitOnce sep text = some (front, back) ↔ text = front ++ sep :: back ∧ sep ∉ front := by
  induction text generalizing front with
  | nil => simp [splitOnce]
  | cons c rest ih =>
      by_cases here : c = sep
      · simp only [splitOnce, here, if_true, Option.some.injEq, Prod.mk.injEq]
        cases front with
        | nil => simp
        | cons d front =>
            simp only [List.cons_append, List.cons.injEq, List.mem_cons, not_or]
            apply Iff.intro
            · intro both
              cases both.1
            · intro both
              exact absurd both.1.1 both.2.1
      · simp only [splitOnce, here, if_false, Option.map_eq_some_iff, Prod.exists, Prod.mk.injEq]
        apply Iff.intro
        · intro found
          obtain ⟨inner, after, split, rfl, rfl⟩ := found
          obtain ⟨rfl, clean⟩ := (ih inner).mp split
          exact ⟨rfl, by simp [Ne.symm here, clean]⟩
        · intro found
          obtain ⟨same, clean⟩ := found
          cases front with
          | nil => exact absurd (List.cons.inj same).1 here
          | cons d front =>
              obtain ⟨rfl, rest_⟩ := List.cons.inj same
              exact ⟨front, back, (ih front).mpr ⟨rest_, fun member => clean (List.mem_cons_of_mem _ member)⟩, rfl, rfl⟩

theorem split_once_none (sep : α) (text : List α) : splitOnce sep text = none ↔ sep ∉ text := by
  induction text with
  | nil => simp [splitOnce]
  | cons c rest ih =>
      by_cases here : c = sep
      · simp [splitOnce, here]
      · simp [splitOnce, here, ih, Ne.symm here]

theorem split_once_append (sep : α) (front back : List α) (clean : sep ∉ front) :
    splitOnce sep (front ++ sep :: back) = some (front, back) := (split_once_iff sep _ front back).mpr ⟨rfl, clean⟩

theorem last_separator {α : Type} (sep : α) (text : List α) (member : sep ∈ text) :
    ∃ front back, text = front ++ sep :: back ∧ sep ∉ back := by
  induction text with
  | nil => cases member
  | cons c rest ih =>
      by_cases later : sep ∈ rest
      · obtain ⟨front, back, same, last⟩ := ih later
        exact ⟨c :: front, back, by rw [same, List.cons_append], last⟩
      · obtain rfl | within := List.mem_cons.mp member
        · exact ⟨[], rest, rfl, later⟩
        · exact absurd within later

-- What is left of a text that begins with `lead`.
def strip (lead text : List α) : Option (List α) := if lead.isPrefixOf text then some (text.drop lead.length) else none

end Split

section Trim

variable {α : Type} (space : α → Bool)

def trim (text : List α) : List α := (text.dropWhile space).rdropWhile space

theorem trim_solid (front solid : List α) (written : solid ≠ []) (clean : ∀ c ∈ solid, space c = false) :
    trim space (front ++ solid) = front.dropWhile space ++ solid := by
  have kept : solid.dropWhile space = solid := by
    rw [List.dropWhile_eq_self_iff]
    intro some
    simp [clean _ (List.getElem_mem some)]
  have opened : (front ++ solid).dropWhile space = front.dropWhile space ++ solid := by
    rw [List.dropWhile_append]
    split
    · rename_i empty
      rw [kept, List.isEmpty_iff.mp empty, List.nil_append]
    · rfl
  rw [trim, opened, List.rdropWhile_eq_self_iff]
  intro some
  rw [List.getLast_append_of_ne_nil some written]
  simp [clean _ (List.getLast_mem written)]

theorem trim_clean (text : List α) (clean : ∀ c ∈ text, space c = false) : trim space text = text := by
  cases text with
  | nil => rfl
  | cons c rest => exact trim_solid space [] (c :: rest) (by simp) clean

theorem trim_between (first last : α) (middle : List α) (front : space first = false) (back : space last = false) :
    trim space (first :: (middle ++ [last])) = first :: (middle ++ [last]) := by
  have ended := trim_solid space (first :: middle) [last] (by simp) (by simpa using back)
  rw [List.dropWhile_cons, if_neg (by simp [front])] at ended
  exact ended

end Trim

section Decimal

def unsigned : List Char → List Char
  | '+' :: rest => rest
  | other => other

-- A number below `limit` the way Rust parses one: an optional plus sign, then
-- digits, at least one and with any number of leading zeros.
def parseNat (limit : Nat) (text : List Char) : Option Nat :=
  let digits := unsigned text
  if digits.isEmpty || !digits.all Char.isDigit then none
  else if Nat.ofDigitChars 10 digits 0 < limit then some (Nat.ofDigitChars 10 digits 0) else none

theorem digit_of_mem (n : Nat) (c : Char) (member : c ∈ Nat.toDigits 10 n) : c.isDigit = true :=
  Nat.isDigit_of_mem_toDigits (by decide) (by decide) member

theorem unsigned_digits (n : Nat) : unsigned (Nat.toDigits 10 n) = Nat.toDigits 10 n := by
  have digits := digit_of_mem n
  cases text : Nat.toDigits 10 n with
  | nil => rfl
  | cons c rest =>
      have digit := digits c (by simp [text])
      unfold unsigned
      split
      · rename_i same
        rw [(List.cons.inj same).1] at digit
        exact absurd digit (by decide)
      · rfl

theorem parse_digits (limit n : Nat) (below : n < limit) : parseNat limit (Nat.toDigits 10 n) = some n := by
  have all : (Nat.toDigits 10 n).all Char.isDigit = true := List.all_eq_true.mpr (digit_of_mem n)
  have some : (Nat.toDigits 10 n).isEmpty = false := by simp [Nat.toDigits_ne_nil]
  simp only [parseNat, unsigned_digits, all, some, Nat.ofDigitChars_ten_toDigits]
  rw [if_neg (by decide), if_pos below]

theorem parse_nat_chars (limit : Nat) (text : List Char) (n : Nat) (parsed : parseNat limit text = some n) (c : Char)
    (member : c ∈ text) : c.isDigit = true ∨ c = '+' := by
  by_cases digits : (unsigned text).all Char.isDigit = true
  · unfold unsigned at digits
    split at digits
    · obtain rfl | later := List.mem_cons.mp member
      · exact .inr rfl
      · exact .inl (List.all_eq_true.mp digits c later)
    · exact .inl (List.all_eq_true.mp digits c member)
  · simp [parseNat, digits] at parsed

end Decimal

end Text
