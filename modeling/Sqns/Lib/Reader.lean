import Mathlib.Data.List.Induction
import Mathlib.Data.Vector.Basic

set_option autoImplicit false

namespace ByteReader

-- A reader is a cursor over a byte slice. Only the unread suffix is kept: the
-- bytes already consumed can no longer influence any later read.
abbrev Read (ε α : Type) := StateT (List UInt8) (Except ε) α

theorem bind_ok {ε α β : Type} (p : Read ε α) (f : α → Read ε β) (input rest : List UInt8) (b : β) :
    (p >>= f) input = .ok (b, rest) ↔ ∃ a mid, p input = .ok (a, mid) ∧ f a mid = .ok (b, rest) := by
  constructor
  · intro success
    cases first : p input with
    | error e => simp [bind, StateT.bind, Except.bind, first] at success
    | ok pair =>
        obtain ⟨a, mid⟩ := pair
        refine ⟨a, mid, rfl, ?_⟩
        simpa [bind, StateT.bind, Except.bind, first] using success
  · rintro ⟨a, mid, first, second⟩
    simp [bind, StateT.bind, Except.bind, first, second]

theorem bind_of_ok {ε α β : Type} (p : Read ε α) (f : α → Read ε β) (input mid : List UInt8) (a : α)
    (first : p input = .ok (a, mid)) : (p >>= f) input = f a mid := by
  simp [bind, StateT.bind, Except.bind, first]

theorem pure_ok {ε α : Type} (a b : α) (input rest : List UInt8) :
    (pure a : Read ε α) input = .ok (b, rest) ↔ a = b ∧ input = rest := by
  constructor
  · intro success
    cases success
    exact ⟨rfl, rfl⟩
  · rintro ⟨rfl, rfl⟩
    rfl

theorem throw_ok {ε α : Type} (e : ε) (input rest : List UInt8) (a : α) :
    ¬ (throw e : Read ε α) input = .ok (a, rest) := by
  intro success
  cases success

theorem lift_ok {ε α : Type} (x : Except ε α) (a : α) (input rest : List UInt8) :
    (liftM x : Read ε α) input = .ok (a, rest) ↔ x = .ok a ∧ input = rest := by
  cases x with
  | error e => simp [liftM, monadLift, MonadLift.monadLift, StateT.lift, bind, Except.bind]
  | ok b => simp [liftM, monadLift, MonadLift.monadLift, StateT.lift, bind, Except.bind, pure, Except.pure]

-- The loop shape `for _ in 0..count { out.push(p()?) }`.
def many {ε α : Type} (p : Read ε α) : Nat → Read ε (List α)
  | 0 => pure []
  | count + 1 => do
      let head ← p
      let tail ← many p count
      pure (head :: tail)

theorem many_reads {ε α : Type} (p : Read ε α) (enc : α → List UInt8) (items : List α) (rest : List UInt8)
    (each : ∀ a ∈ items, ∀ after, p (enc a ++ after) = .ok (a, after)) :
    many p items.length (items.flatMap enc ++ rest) = .ok (items, rest) := by
  induction items with
  | nil => rfl
  | cons head tail ih =>
      have first := each head (by simp) (tail.flatMap enc ++ rest)
      have later := ih (fun a member => each a (by simp [member]))
      rw [List.flatMap_cons, List.append_assoc, List.length_cons, many, bind_of_ok _ _ _ _ _ first,
        bind_of_ok _ _ _ _ _ later]
      rfl

theorem many_exact {ε α : Type} (p : Read ε α) (enc : α → List UInt8) (count : Nat) (input rest : List UInt8)
    (items : List α) (each : ∀ source a after, p source = .ok (a, after) → source = enc a ++ after)
    (success : many p count input = .ok (items, rest)) :
    items.length = count ∧ input = items.flatMap enc ++ rest := by
  induction count generalizing input items with
  | zero =>
      obtain ⟨rfl, rfl⟩ := (pure_ok _ _ _ _).mp success
      exact ⟨rfl, rfl⟩
  | succ count ih =>
      obtain ⟨head, mid, first, second⟩ := (bind_ok _ _ _ _ _).mp success
      obtain ⟨tail, last, later, final⟩ := (bind_ok _ _ _ _ _).mp second
      obtain ⟨rfl, rfl⟩ := (pure_ok _ _ _ _).mp final
      obtain ⟨length, tailEq⟩ := ih mid tail later
      refine ⟨by simp [length], ?_⟩
      rw [each input head mid first, tailEq]
      simp [List.append_assoc]

theorem many_length {ε α : Type} (p : Read ε α) (count : Nat) (input rest : List UInt8) (items : List α)
    (success : many p count input = .ok (items, rest)) : items.length = count := by
  induction count generalizing input items with
  | zero =>
      obtain ⟨rfl, rfl⟩ := (pure_ok _ _ _ _).mp success
      rfl
  | succ count ih =>
      obtain ⟨head, mid, _, second⟩ := (bind_ok _ _ _ _ _).mp success
      obtain ⟨tail, last, later, final⟩ := (bind_ok _ _ _ _ _).mp second
      obtain ⟨rfl, rfl⟩ := (pure_ok _ _ _ _).mp final
      rw [List.length_cons, ih mid tail later]

theorem many_forall {ε α : Type} (p : Read ε α) (good : α → Prop) (count : Nat) (input rest : List UInt8)
    (items : List α) (each : ∀ source a after, p source = .ok (a, after) → good a)
    (success : many p count input = .ok (items, rest)) : ∀ a ∈ items, good a := by
  induction count generalizing input items with
  | zero =>
      obtain ⟨rfl, rfl⟩ := (pure_ok _ _ _ _).mp success
      simp
  | succ count ih =>
      obtain ⟨head, mid, first, second⟩ := (bind_ok _ _ _ _ _).mp success
      obtain ⟨tail, last, later, final⟩ := (bind_ok _ _ _ _ _).mp second
      obtain ⟨rfl, rfl⟩ := (pure_ok _ _ _ _).mp final
      intro a member
      rcases List.mem_cons.mp member with same | inTail
      · exact same ▸ each input head mid first
      · exact ih mid tail later a inTail

-- A reader that is blind to whatever follows the bytes it consumes.
def Blind {ε α : Type} (p : Read ε α) : Prop :=
  ∀ input rest more a, p input = .ok (a, rest) → p (input ++ more) = .ok (a, rest ++ more)

section Blind

variable {ε α β : Type}

theorem blind_pure (a : α) : Blind (pure a : Read ε α) := by
  intro input rest more b success
  obtain ⟨rfl, rfl⟩ := (pure_ok _ _ _ _).mp success
  rfl

theorem blind_throw (e : ε) : Blind (throw e : Read ε α) :=
  fun _ _ _ _ success => False.elim (throw_ok _ _ _ _ success)

theorem blind_bind (p : Read ε α) (f : α → Read ε β) (first : Blind p) (later : ∀ a, Blind (f a)) : Blind (p >>= f) := by
  intro input rest more b success
  obtain ⟨a, mid, read, final⟩ := (bind_ok _ _ _ _ _).mp success
  rw [bind_of_ok _ _ _ _ _ (first input mid more a read)]
  exact later a mid rest more b final

theorem blind_ite (c : Prop) [Decidable c] (p q : Read ε α) (yes : Blind p) (no : Blind q) : Blind (if c then p else q) := by
  split
  · exact yes
  · exact no

theorem blind_many (p : Read ε α) (each : Blind p) (count : Nat) : Blind (many p count) := by
  induction count with
  | zero => exact blind_pure _
  | succ count ih => exact blind_bind _ _ each (fun head => blind_bind _ _ ih (fun tail => blind_pure _))

-- A reader that undoes an encoder, and reads nothing the encoder did not write.
theorem blind_of_exact (p : Read ε α) (enc : α → List UInt8) (good : α → Prop)
    (exact_ : ∀ input rest a, p input = .ok (a, rest) → good a ∧ input = enc a ++ rest)
    (reads : ∀ a rest, good a → p (enc a ++ rest) = .ok (a, rest)) : Blind p := by
  intro input rest more a success
  obtain ⟨fits, rfl⟩ := exact_ input rest a success
  rw [List.append_assoc]
  exact reads a (rest ++ more) fits

-- What such a reader takes whole, it takes in no longer and no shorter form.
theorem blind_delimits (p : Read ε α) (blind : Blind p) (input more : List UInt8) (a b : α) (nonempty : more ≠ [])
    (whole : p input = .ok (a, [])) : p (input ++ more) ≠ .ok (b, []) := by
  intro extended
  rw [blind input [] more a whole, List.nil_append] at extended
  cases extended
  exact nonempty rfl

end Blind

-- Big-endian bytes: `toBe width n` are the low `width` bytes of `n`, so a
-- narrowing cast before the encoding is already part of it.
def toBe : Nat → Nat → List UInt8
  | 0, _ => []
  | width + 1, n => toBe width (n / 256) ++ [UInt8.ofNat n]

def ofBe (bytes : List UInt8) : Nat := bytes.foldl (fun acc byte => acc * 256 + byte.toNat) 0

@[simp] theorem to_be_length (width n : Nat) : (toBe width n).length = width := by
  induction width generalizing n with
  | zero => rfl
  | succ width ih => simp [toBe, ih]

theorem of_be_append (bytes : List UInt8) (byte : UInt8) : ofBe (bytes ++ [byte]) = ofBe bytes * 256 + byte.toNat := by
  simp [ofBe]

theorem of_be_to_be (width n : Nat) : ofBe (toBe width n) = n % 256 ^ width := by
  induction width generalizing n with
  | zero => simp [toBe, ofBe, Nat.mod_one]
  | succ width ih =>
      have last : (UInt8.ofNat n).toNat = n % 256 := UInt8.toNat_ofNat'
      have split : n % 256 ^ (width + 1) = n % 256 + 256 * (n / 256 % 256 ^ width) := by
        rw [Nat.pow_succ', Nat.mod_mul]
      rw [toBe, of_be_append, ih, last, split]
      omega

theorem of_be_lt (bytes : List UInt8) : ofBe bytes < 256 ^ bytes.length := by
  induction bytes using List.reverseRecOn with
  | nil => simp [ofBe]
  | append_singleton head byte ih =>
      have small := byte.toNat_lt
      rw [of_be_append, List.length_append, List.length_singleton, Nat.pow_succ]
      omega

theorem to_be_of_be (bytes : List UInt8) : toBe bytes.length (ofBe bytes) = bytes := by
  induction bytes using List.reverseRecOn with
  | nil => rfl
  | append_singleton head byte ih =>
      have small := byte.toNat_lt
      have quotient : (ofBe head * 256 + byte.toNat) / 256 = ofBe head := by omega
      have low : UInt8.ofNat (ofBe head * 256 + byte.toNat) = byte := by
        apply UInt8.toNat_inj.mp
        rw [UInt8.toNat_ofNat']
        omega
      rw [of_be_append, List.length_append, List.length_singleton, toBe, quotient, ih, low]

end ByteReader
