import Sqns.Key
import Sqns.Lib.Reader

set_option autoImplicit false

namespace Sqns

open ByteReader

abbrev Read (α : Type) := ByteReader.Read Error α

namespace Reader

def array (n : Nat) (what : String) : Read (List.Vector UInt8 n) := fun buf =>
  if fits : n ≤ buf.length then .ok (⟨buf.take n, by simp [fits]⟩, buf.drop n)
  else .error (.record s!"truncated while reading {what}: need {n} bytes, {buf.length} left")

def bytes (n : Nat) (what : String) : Read Bytes := do
  let b ← array n what
  pure b.toList

def u8 (what : String) : Read UInt8 := do
  let b ← array 1 what
  pure b.head

def u16 (what : String) : Read UInt16 := do
  let b ← array 2 what
  pure (UInt16.ofNat (ofBe b.toList))

def u32 (what : String) : Read UInt32 := do
  let b ← array 4 what
  pure (UInt32.ofNat (ofBe b.toList))

def u64 (what : String) : Read UInt64 := do
  let b ← array 8 what
  pure (UInt64.ofNat (ofBe b.toList))

def utf8 (prim : Primitives) (what : String) (b : Bytes) : Read String :=
  match String.fromUTF8? ⟨b.toArray⟩ with
  | some s => pure s
  | none => throw (.record s!"{what} is not valid UTF-8: {prim.utf8Error b}")

def shortString (prim : Primitives) (what : String) : Read String := do
  let len ← u8 what
  let b ← bytes len.toNat what
  utf8 prim what b

def string (prim : Primitives) (what : String) : Read String := do
  let len ← u16 what
  let b ← bytes len.toNat what
  utf8 prim what b

def finish (what : String) : Read Unit := fun buf =>
  if buf.length ≠ 0 then .error (.record s!"{what}: {buf.length} trailing bytes") else .ok ((), buf)

end Reader

def decodeAll {α : Type} (p : Read α) (what : String) (input : Bytes) : Except Error α := do
  let (a, rest) ← p input
  let _ ← Reader.finish what rest
  pure a

def be16 (n : UInt16) : Bytes := toBe 2 n.toNat
def be32 (n : UInt32) : Bytes := toBe 4 n.toNat
def be64 (n : UInt64) : Bytes := toBe 8 n.toNat

def utf8Bytes (s : String) : Bytes := s.toUTF8.data.toList

def putShortString (s : String) : Bytes := toBe 1 s.utf8ByteSize ++ utf8Bytes s
def putString (s : String) : Bytes := toBe 2 s.utf8ByteSize ++ utf8Bytes s

@[simp] theorem utf8_bytes_length (s : String) : (utf8Bytes s).length = s.utf8ByteSize := by
  rw [utf8Bytes, Array.length_toList]
  rfl

@[simp] theorem be16_length (n : UInt16) : (be16 n).length = 2 := by simp [be16]
@[simp] theorem be32_length (n : UInt32) : (be32 n).length = 4 := by simp [be32]
@[simp] theorem be64_length (n : UInt64) : (be64 n).length = 8 := by simp [be64]

namespace Reader

theorem array_reads (n : Nat) (what : String) (v : List.Vector UInt8 n) (rest : Bytes) :
    array n what (v.toList ++ rest) = .ok (v, rest) := by
  obtain ⟨b, length⟩ := v
  subst length
  simp [array, List.Vector.toList]

theorem array_exact (n : Nat) (what : String) (input rest : Bytes) (v : List.Vector UInt8 n)
    (success : array n what input = .ok (v, rest)) : input = v.toList ++ rest := by
  unfold array at success
  split at success
  · cases success
    simp [List.Vector.toList]
  · cases success

theorem bytes_reads (what : String) (b rest : Bytes) : bytes b.length what (b ++ rest) = .ok (b, rest) := by
  have first : array b.length what (b ++ rest) = .ok (⟨b, rfl⟩, rest) := array_reads b.length what ⟨b, rfl⟩ rest
  rw [bytes, bind_of_ok _ _ _ _ _ first]
  rfl

theorem bytes_exact (n : Nat) (what : String) (input rest b : Bytes) (success : bytes n what input = .ok (b, rest)) :
    b.length = n ∧ input = b ++ rest := by
  obtain ⟨v, mid, first, final⟩ := (bind_ok _ _ _ _ _).mp success
  obtain ⟨rfl, rfl⟩ := (pure_ok _ _ _ _).mp final
  exact ⟨v.toList_length, array_exact n what input mid v first⟩

theorem u8_reads (what : String) (byte : UInt8) (rest : Bytes) : u8 what (byte :: rest) = .ok (byte, rest) := by
  have first : array 1 what (byte :: rest) = .ok (⟨[byte], rfl⟩, rest) := array_reads 1 what ⟨[byte], rfl⟩ rest
  rw [u8, bind_of_ok _ _ _ _ _ first]
  rfl

theorem u8_exact (what : String) (input rest : Bytes) (byte : UInt8) (success : u8 what input = .ok (byte, rest)) :
    input = byte :: rest := by
  obtain ⟨v, mid, first, final⟩ := (bind_ok _ _ _ _ _).mp success
  obtain ⟨rfl, rfl⟩ := (pure_ok _ _ _ _).mp final
  rw [array_exact 1 what input mid v first]
  obtain ⟨b, length⟩ := v
  obtain ⟨byte, rfl⟩ := List.length_eq_one_iff.mp length
  rfl

theorem be_reads {α : Type} (width : Nat) (what : String) (ofNat : Nat → α) (n : Nat) (rest : Bytes)
    (small : n < 256 ^ width) :
    (do let b ← array width what; pure (ofNat (ofBe b.toList)) : Read α) (toBe width n ++ rest) = .ok (ofNat n, rest) := by
  have first : array width what (toBe width n ++ rest) = .ok (⟨toBe width n, to_be_length width n⟩, rest) :=
    array_reads width what ⟨toBe width n, to_be_length width n⟩ rest
  rw [bind_of_ok _ _ _ _ _ first]
  change Except.ok (ofNat (ofBe (toBe width n)), rest) = _
  rw [of_be_to_be, Nat.mod_eq_of_lt small]

theorem be_exact {α : Type} (width : Nat) (what : String) (ofNat : Nat → α) (toNat : α → Nat) (input rest : Bytes) (a : α)
    (inverse : ∀ n, n < 256 ^ width → toNat (ofNat n) = n)
    (success : (do let b ← array width what; pure (ofNat (ofBe b.toList)) : Read α) input = .ok (a, rest)) :
    input = toBe width (toNat a) ++ rest := by
  obtain ⟨v, mid, first, final⟩ := (bind_ok _ _ _ _ _).mp success
  obtain ⟨rfl, rfl⟩ := (pure_ok _ _ _ _).mp final
  have bound := of_be_lt v.toList
  rw [v.toList_length] at bound
  have back := to_be_of_be v.toList
  rw [v.toList_length] at back
  rw [array_exact width what input mid v first, inverse _ bound, back]

theorem u16_reads (what : String) (n : UInt16) (rest : Bytes) : u16 what (be16 n ++ rest) = .ok (n, rest) := by
  have read := be_reads 2 what UInt16.ofNat n.toNat rest n.toNat_lt
  rwa [UInt16.ofNat_toNat] at read

theorem u32_reads (what : String) (n : UInt32) (rest : Bytes) : u32 what (be32 n ++ rest) = .ok (n, rest) := by
  have read := be_reads 4 what UInt32.ofNat n.toNat rest n.toNat_lt
  rwa [UInt32.ofNat_toNat] at read

theorem u64_reads (what : String) (n : UInt64) (rest : Bytes) : u64 what (be64 n ++ rest) = .ok (n, rest) := by
  have read := be_reads 8 what UInt64.ofNat n.toNat rest n.toNat_lt
  rwa [UInt64.ofNat_toNat] at read

theorem u16_exact (what : String) (input rest : Bytes) (n : UInt16) (success : u16 what input = .ok (n, rest)) :
    input = be16 n ++ rest :=
  be_exact 2 what UInt16.ofNat UInt16.toNat input rest n (fun _ small => UInt16.toNat_ofNat_of_lt' small) success

theorem u32_exact (what : String) (input rest : Bytes) (n : UInt32) (success : u32 what input = .ok (n, rest)) :
    input = be32 n ++ rest :=
  be_exact 4 what UInt32.ofNat UInt32.toNat input rest n (fun _ small => UInt32.toNat_ofNat_of_lt' small) success

theorem u64_exact (what : String) (input rest : Bytes) (n : UInt64) (success : u64 what input = .ok (n, rest)) :
    input = be64 n ++ rest :=
  be_exact 8 what UInt64.ofNat UInt64.toNat input rest n (fun _ small => UInt64.toNat_ofNat_of_lt' small) success

theorem from_utf8_bytes (s : String) : String.fromUTF8? ⟨(utf8Bytes s).toArray⟩ = some s := by
  have same : (⟨(utf8Bytes s).toArray⟩ : ByteArray) = s.toByteArray := by simp [utf8Bytes, String.toUTF8]
  rw [same, String.fromUTF8?, dif_pos s.isValidUTF8]
  rfl

theorem from_utf8_exact (b : Bytes) (s : String) (decoded : String.fromUTF8? ⟨b.toArray⟩ = some s) : utf8Bytes s = b := by
  unfold String.fromUTF8? at decoded
  split at decoded
  · simp only [Option.some.injEq] at decoded
    subst decoded
    simp [utf8Bytes, String.toUTF8, String.fromUTF8]
  · cases decoded

theorem utf8_reads (prim : Primitives) (what : String) (s : String) (rest : Bytes) :
    utf8 prim what (utf8Bytes s) rest = .ok (s, rest) := by
  rw [utf8, from_utf8_bytes]
  rfl

theorem utf8_exact (prim : Primitives) (what s : String) (b input rest : Bytes)
    (success : utf8 prim what b input = .ok (s, rest)) : b = utf8Bytes s ∧ input = rest := by
  unfold utf8 at success
  cases decoded : String.fromUTF8? ⟨b.toArray⟩ with
  | some t =>
      rw [decoded] at success
      obtain ⟨rfl, rfl⟩ := (pure_ok _ _ _ _).mp success
      exact ⟨(from_utf8_exact b t decoded).symm, rfl⟩
  | none =>
      rw [decoded] at success
      exact False.elim (throw_ok _ _ _ _ success)

theorem short_string_reads (prim : Primitives) (what s : String) (rest : Bytes) (short : s.utf8ByteSize < 2 ^ 8) :
    shortString prim what (putShortString s ++ rest) = .ok (s, rest) := by
  have len : (UInt8.ofNat s.utf8ByteSize).toNat = (utf8Bytes s).length := by
    rw [utf8_bytes_length]
    exact UInt8.toNat_ofNat_of_lt' short
  rw [putShortString, List.append_assoc, shortString]
  change (u8 what >>= _) (UInt8.ofNat s.utf8ByteSize :: (utf8Bytes s ++ rest)) = _
  rw [bind_of_ok _ _ _ _ _ (u8_reads what _ _), len, bind_of_ok _ _ _ _ _ (bytes_reads what _ rest)]
  exact utf8_reads prim what s rest

theorem string_reads (prim : Primitives) (what s : String) (rest : Bytes) (short : s.utf8ByteSize < 2 ^ 16) :
    string prim what (putString s ++ rest) = .ok (s, rest) := by
  have cast : (UInt16.ofNat s.utf8ByteSize).toNat = s.utf8ByteSize := UInt16.toNat_ofNat_of_lt' short
  have len : (UInt16.ofNat s.utf8ByteSize).toNat = (utf8Bytes s).length := by rw [utf8_bytes_length, cast]
  have first := u16_reads what (UInt16.ofNat s.utf8ByteSize) (utf8Bytes s ++ rest)
  rw [be16, cast] at first
  rw [putString, List.append_assoc, string, bind_of_ok _ _ _ _ _ first, len,
    bind_of_ok _ _ _ _ _ (bytes_reads what _ rest)]
  exact utf8_reads prim what s rest

theorem short_string_exact (prim : Primitives) (what s : String) (input rest : Bytes)
    (success : shortString prim what input = .ok (s, rest)) :
    s.utf8ByteSize < 2 ^ 8 ∧ input = putShortString s ++ rest := by
  obtain ⟨len, mid, first, second⟩ := (bind_ok _ _ _ _ _).mp success
  obtain ⟨b, last, body, final⟩ := (bind_ok _ _ _ _ _).mp second
  obtain ⟨rfl, rfl⟩ := utf8_exact prim what s b last rest final
  obtain ⟨length, split⟩ := bytes_exact _ what mid last _ body
  rw [utf8_bytes_length] at length
  refine ⟨length ▸ len.toNat_lt, ?_⟩
  rw [u8_exact what input mid len first, split, putShortString, length]
  have back : toBe 1 len.toNat = [len] := by simp [toBe]
  rw [back]
  rfl

theorem string_exact (prim : Primitives) (what s : String) (input rest : Bytes)
    (success : string prim what input = .ok (s, rest)) :
    s.utf8ByteSize < 2 ^ 16 ∧ input = putString s ++ rest := by
  obtain ⟨len, mid, first, second⟩ := (bind_ok _ _ _ _ _).mp success
  obtain ⟨b, last, body, final⟩ := (bind_ok _ _ _ _ _).mp second
  obtain ⟨rfl, rfl⟩ := utf8_exact prim what s b last rest final
  obtain ⟨length, split⟩ := bytes_exact _ what mid last _ body
  rw [utf8_bytes_length] at length
  refine ⟨length ▸ len.toNat_lt, ?_⟩
  rw [u16_exact what input mid len first, split, putString, length, be16, List.append_assoc]

end Reader

theorem decode_all_ok {α : Type} (p : Read α) (what : String) (input : Bytes) (a : α) :
    decodeAll p what input = .ok a ↔ p input = .ok (a, []) := by
  unfold decodeAll
  cases result : p input with
  | error e => simp [bind, Except.bind]
  | ok pair =>
      obtain ⟨value, rest⟩ := pair
      cases rest with
      | nil => simp [bind, Except.bind, Reader.finish, pure, Except.pure]
      | cons byte tail => simp [bind, Except.bind, Reader.finish]

end Sqns
