import Sqns.Lib.Text
import Sqns.Lifetime

set_option autoImplicit false

namespace Sqns

open ByteReader Text

-- A string slice as its characters.
abbrev Str := List Char

def defaultPort : UInt16 := 5300

-- `char::is_whitespace`, the Unicode property White_Space.
def isWhitespace (c : Char) : Bool :=
  let n := c.toNat
  (9 ≤ n && n ≤ 13) || n == 0x20 || n == 0x85 || n == 0xa0 || n == 0x1680 || (0x2000 ≤ n && n ≤ 0x200a) || n == 0x2028 ||
    n == 0x2029 || n == 0x202f || n == 0x205f || n == 0x3000

def isHexDigit (c : Char) : Bool := c.isDigit || ('a' ≤ c && c ≤ 'f') || ('A' ≤ c && c ≤ 'F')

def decimal (port : UInt16) : Str := Nat.toDigits 10 port.toNat

def parsePort (s : Str) : Except Error UInt16 :=
  match parseNat 65536 s with
  | some n => .ok (UInt16.ofNat n)
  | none => .error (.address s!"invalid port '{String.ofList s}'")

-- What follows the closing bracket. Only a colon makes it a port.
def portAfter : Str → Except Error UInt16
  | ':' :: p => parsePort p
  | _ => .ok defaultPort

def splitAuthority (authority : Str) : Except Error (Str × UInt16) :=
  match authority with
  | [] => .error (.address "empty host")
  | first :: rest =>
      if first = '[' then
        match splitOnce ']' rest with
        | none => .error (.address s!"unclosed '[' in '{String.ofList authority}'")
        | some (host, tail) => (portAfter tail).map (fun port => (host, port))
      else if 1 < authority.count ':' then .ok (authority, defaultPort)
      else
        match splitOnce ':' authority with
        | some (host, p) => (parsePort p).map (fun port => (host, port))
        | none => .ok (authority, defaultPort)

inductive Scheme where
  | sqc
  | sqns
deriving DecidableEq

def Scheme.prefixText : Scheme → Str
  | .sqc => ['s', 'q', 'c', ':', '/', '/']
  | .sqns => ['s', 'q', 'n', 's', ':', '/', '/']

structure ServerAddr where
  scheme : Scheme
  host : Str
  port : UInt16
  key : PubKey
deriving DecidableEq

-- The hex and bs58 crates: the bytes a text stands for, or their message.
structure KeyCodec where
  hexDecode : Str → Except String Bytes
  base58Decode : Str → Except String Bytes

namespace PubKey

def fromSlice (raw : Bytes) : Except Error PubKey :=
  if long : raw.length = 32 then .ok ⟨⟨raw, long⟩⟩ else .error (.key s!"public key must be 32 bytes, got {raw.length}")

def fromBase58 (codec : KeyCodec) (s : Str) : Except Error PubKey :=
  match codec.base58Decode s with
  | .ok raw => fromSlice raw
  | .error e => .error (.base58Decode e)

def fromHex (codec : KeyCodec) (s : Str) : Except Error PubKey :=
  match codec.hexDecode s with
  | .ok raw => fromSlice raw
  | .error e => .error (.key s!"bad hex: {e}")

-- The length is in bytes. Where every character is a hexadecimal digit there
-- is one for each.
def fromStr (codec : KeyCodec) (s : Str) : Except Error PubKey :=
  let s := trim isWhitespace s
  if s.length == 64 && s.all isHexDigit then fromHex codec s else fromBase58 codec s

end PubKey

def splitScheme (trimmed : Str) : Scheme × Str :=
  match strip Scheme.sqns.prefixText trimmed with
  | some rest => (.sqns, rest)
  | none => (.sqc, (strip Scheme.sqc.prefixText trimmed).getD trimmed)

namespace ServerAddr

def authority (a : ServerAddr) : Str :=
  if a.host.contains ':' then '[' :: (a.host ++ ']' :: ':' :: decimal a.port) else a.host ++ ':' :: decimal a.port

def writtenAuthority (a : ServerAddr) : Str :=
  if a.port ≠ defaultPort then a.authority
  else if a.host.contains ':' then '[' :: (a.host ++ [']'])
  else a.host

def toText (prim : Primitives) (a : ServerAddr) : Str :=
  a.scheme.prefixText ++ (a.writtenAuthority ++ '/' :: (a.key.toText prim).toList)

def fromStr (codec : KeyCodec) (s : Str) : Except Error ServerAddr :=
  let (scheme, rest) := splitScheme (trim isWhitespace s)
  match splitOnce '/' rest with
  | none => .error (.address s!"missing '/<base58 key>' in '{String.ofList s}' (want sqns://host/<key>)")
  | some (authority, keyText) =>
      if keyText.isEmpty then .error (.address s!"no server key in '{String.ofList s}'")
      else
        match PubKey.fromStr codec keyText with
        | .error e => .error (.address s!"bad server key in '{String.ofList s}': {e.toText}")
        | .ok key => (splitAuthority authority).map (fun parts => ⟨scheme, parts.1, parts.2, key⟩)

end ServerAddr

theorem map_ok {α β : Type} (x : Except Error α) (f : α → β) (b : β) : x.map f = .ok b ↔ ∃ a, x = .ok a ∧ f a = b := by
  cases x with
  | error e => simp [Except.map]
  | ok a => simp [Except.map]

theorem parse_port_decimal (port : UInt16) : parsePort (decimal port) = .ok port := by
  simp only [parsePort, decimal, parse_digits 65536 port.toNat port.toNat_lt, UInt16.ofNat_toNat]

section Authority

variable (authority host : Str) (port : UInt16)

-- Every way an authority is accepted.
inductive Splits : Str → Str → UInt16 → Prop where
  | bracketed (host tail : Str) (port : UInt16) (closed : ']' ∉ host) (after : portAfter tail = .ok port) :
      Splits ('[' :: (host ++ ']' :: tail)) host port
  | colons (authority : Str) (bare : authority.head? ≠ some '[') (many : 1 < authority.count ':') :
      Splits authority authority defaultPort
  | pair (host p : Str) (port : UInt16) (bare : (host ++ ':' :: p).head? ≠ some '[') (clean : ':' ∉ host) (last : ':' ∉ p)
      (read : parsePort p = .ok port) : Splits (host ++ ':' :: p) host port
  | whole (authority : Str) (written : authority ≠ []) (bare : authority.head? ≠ some '[') (clean : ':' ∉ authority) :
      Splits authority authority defaultPort

theorem count_pair (front back : Str) (clean : ':' ∉ front) (few : (front ++ ':' :: back).count ':' ≤ 1) : ':' ∉ back := by
  rw [List.count_append, List.count_cons_self, List.count_eq_zero_of_not_mem clean] at few
  exact List.count_eq_zero.mp (by omega)

theorem split_bracketed (rest : Str) (split : splitAuthority ('[' :: rest) = .ok (host, port)) :
    ∃ tail, rest = host ++ ']' :: tail ∧ ']' ∉ host ∧ portAfter tail = .ok port := by
  simp only [splitAuthority, if_true] at split
  cases parts : splitOnce ']' rest with
  | none => simp [parts] at split
  | some pair =>
      obtain ⟨front, tail⟩ := pair
      simp only [parts, map_ok, Prod.mk.injEq] at split
      obtain ⟨_, read, rfl, rfl⟩ := split
      obtain ⟨same, closed⟩ := (split_once_iff ']' rest _ tail).mp parts
      exact ⟨tail, same, closed, read⟩

theorem split_sound (split : splitAuthority authority = .ok (host, port)) : Splits authority host port := by
  cases authority with
  | nil => cases split
  | cons first rest =>
      by_cases bracket : first = '['
      · subst bracket
        obtain ⟨tail, rfl, closed, after⟩ := split_bracketed host port rest split
        exact .bracketed host tail port closed after
      · have bare : (first :: rest).head? ≠ some '[' := by simp [bracket]
        simp only [splitAuthority, bracket, if_false] at split
        by_cases many : 1 < (first :: rest).count ':'
        · rw [if_pos many] at split
          cases split
          exact .colons _ bare many
        · rw [if_neg many] at split
          cases parts : splitOnce ':' (first :: rest) with
          | none =>
              rw [parts] at split
              cases split
              exact .whole _ (by simp) bare ((split_once_none ':' _).mp parts)
          | some pair =>
              obtain ⟨front, p⟩ := pair
              simp only [parts, map_ok, Prod.mk.injEq] at split
              obtain ⟨_, read, rfl, rfl⟩ := split
              obtain ⟨same, clean⟩ := (split_once_iff ':' _ _ p).mp parts
              rw [same] at bare many ⊢
              exact .pair _ p _ bare clean (count_pair _ p clean (by omega)) read

theorem split_complete (splits : Splits authority host port) : splitAuthority authority = .ok (host, port) := by
  cases splits with
  | bracketed _ tail _ closed after =>
      simp only [splitAuthority, if_true, split_once_append ']' host tail closed, after]
      rfl
  | colons _ bare many =>
      cases authority with
      | nil => simp at many
      | cons first rest =>
          have plain : first ≠ '[' := fun same => bare (by rw [same]; rfl)
          simp only [splitAuthority, plain, if_false]
          rw [if_pos many]
  | pair _ p _ bare clean last read =>
      have single : ¬ 1 < (host ++ ':' :: p).count ':' := by
        rw [List.count_append, List.count_cons_self, List.count_eq_zero_of_not_mem clean, List.count_eq_zero_of_not_mem last]
        omega
      have parts := split_once_append ':' host p clean
      obtain ⟨first, rest, same⟩ : ∃ first rest, host ++ ':' :: p = first :: rest := List.exists_cons_of_ne_nil (by simp)
      rw [same] at bare single parts ⊢
      have plain : first ≠ '[' := fun bracket => bare (by rw [bracket]; rfl)
      simp only [splitAuthority, plain, if_false]
      rw [if_neg single, parts]
      simp only [read]
      rfl
  | whole _ written bare clean =>
      obtain ⟨first, rest, rfl⟩ := List.exists_cons_of_ne_nil written
      have plain : first ≠ '[' := fun bracket => bare (by rw [bracket]; rfl)
      have few : ¬ 1 < (first :: rest).count ':' := by
        rw [List.count_eq_zero_of_not_mem clean]
        omega
      simp only [splitAuthority, plain, if_false]
      rw [if_neg few, (split_once_none ':' _).mpr clean]

end Authority

-- The four forms the parser documents.
def FourForms (authority host : Str) (port : UInt16) : Prop :=
  (authority = host ∧ port = defaultPort) ∨ (∃ p, authority = host ++ ':' :: p ∧ parsePort p = .ok port) ∨
    (authority = '[' :: (host ++ [']']) ∧ port = defaultPort) ∨
    ∃ p, authority = '[' :: (host ++ ']' :: ':' :: p) ∧ parsePort p = .ok port

-- Text after the closing bracket that does not begin with a colon.
def Trailing (authority : Str) : Prop :=
  ∃ host tail, authority = '[' :: (host ++ ']' :: tail) ∧ ']' ∉ host ∧ tail ≠ [] ∧ tail.head? ≠ some ':'

theorem port_after_other (tail : Str) (other : tail.head? ≠ some ':') : portAfter tail = .ok defaultPort := by
  unfold portAfter
  split
  · simp at other
  · rfl

-- A host that the bracket before it shifts by one would have to be brackets
-- all through, so the colon of `host:port` has nowhere to stand.
theorem shifted_host (host after p : Str) : '[' :: (host ++ after) ≠ host ++ ':' :: p := by
  induction host with
  | nil => simp
  | cons c host ih =>
      intro same
      obtain ⟨bracket, rest⟩ := List.cons.inj same
      exact ih (by rw [bracket]; exact rest)

theorem trailing_not_forms (host tail : Str) (port : UInt16) (some : tail ≠ []) (other : tail.head? ≠ Option.some ':') :
    ¬ FourForms ('[' :: (host ++ ']' :: tail)) host port := by
  intro forms
  obtain ⟨same, _⟩ | ⟨p, same, _⟩ | ⟨same, _⟩ | ⟨p, same, _⟩ := forms
  · have longer := congrArg List.length same
    simp only [List.length_cons, List.length_append] at longer
    omega
  · exact shifted_host host _ p same
  · simp only [List.cons.injEq, List.append_cancel_left_eq, true_and] at same
    exact some same
  · simp only [List.cons.injEq, List.append_cancel_left_eq, true_and] at same
    exact other (by rw [same]; rfl)

theorem splits_forms (authority host : Str) (port : UInt16) (splits : Splits authority host port)
    (whole : ¬ Trailing authority) : FourForms authority host port := by
  cases splits with
  | bracketed _ tail _ closed after =>
      cases tail with
      | nil => exact .inr (.inr (.inl ⟨rfl, (Except.ok.inj after).symm⟩))
      | cons c p =>
          by_cases colon : c = ':'
          · subst colon
            exact .inr (.inr (.inr ⟨p, rfl, after⟩))
          · exact absurd ⟨host, c :: p, rfl, closed, by simp, by simp [colon]⟩ whole
  | colons _ _ _ => exact .inl ⟨rfl, rfl⟩
  | pair _ p _ _ _ _ read => exact .inr (.inl ⟨p, rfl, read⟩)
  | whole _ _ _ _ => exact .inl ⟨rfl, rfl⟩

theorem accepted_forms_iff (authority : Str) :
    (∀ host port, splitAuthority authority = .ok (host, port) → FourForms authority host port) ↔ ¬ Trailing authority := by
  apply Iff.intro
  · intro forms trailing
    obtain ⟨host, tail, rfl, closed, written, other⟩ := trailing
    have splits : Splits _ host defaultPort := .bracketed host tail defaultPort closed (port_after_other tail other)
    exact trailing_not_forms host tail defaultPort written other (forms host defaultPort (split_complete _ _ _ splits))
  · intro whole host port split
    exact splits_forms authority host port (split_sound authority host port split) whole

-- A port typed without its colon reads as the default one.
theorem mistyped_port_ignored :
    splitAuthority "[::1]9".toList = .ok ("::1".toList, defaultPort) ∧ ¬ FourForms "[::1]9".toList "::1".toList defaultPort :=
  ⟨by decide, trailing_not_forms "::1".toList "9".toList defaultPort (by decide) (by decide)⟩

-- What bs58 documents of the text of a key: it decodes to the key's bytes, in
-- an alphabet without white space, and 32 bytes take 32 to 44 characters.
structure Readable (prim : Primitives) (codec : KeyCodec) (key : PubKey) : Prop where
  inverse : codec.base58Decode (key.toText prim).toList = .ok key.bytes.toList
  plain : ∀ c ∈ (key.toText prim).toList, isWhitespace c = false
  written : (key.toText prim).toList ≠ []
  short : (key.toText prim).toList.length ≠ 64

-- The hosts and ports whose written authority splits into them again.
def Survives (host : Str) (port : UInt16) : Prop :=
  (':' ∈ host → ']' ∉ host) ∧ (':' ∉ host → host.head? ≠ some '[' ∧ (port = defaultPort → host ≠ []))

-- The accepted authorities that name no such host.
inductive Lossy : Str → Prop where
  | empty (tail : Str) (default : portAfter tail = .ok defaultPort) : Lossy ('[' :: ']' :: tail)
  | nested (inner tail : Str) (plain : ':' ∉ inner) (closed : ']' ∉ inner) : Lossy ('[' :: '[' :: (inner ++ ']' :: tail))
  | closing (authority : Str) (bare : authority.head? ≠ some '[') (many : 1 < authority.count ':') (closes : ']' ∈ authority) :
      Lossy authority
  | unnamed (p : Str) (default : parsePort p = .ok defaultPort) : Lossy (':' :: p)

-- The text between the scheme and the first slash.
def authorityOf (s : Str) : Str :=
  let rest := (splitScheme (trim isWhitespace s)).2
  ((splitOnce '/' rest).map Prod.fst).getD rest

theorem decimal_digit (port : UInt16) (c : Char) (member : c ∈ decimal port) : c.isDigit = true :=
  digit_of_mem port.toNat c member

theorem parse_port_chars (p : Str) (port : UInt16) (read : parsePort p = .ok port) (c : Char) (member : c ∈ p) :
    c.isDigit = true ∨ c = '+' := by
  unfold parsePort at read
  split at read
  · rename_i n parsed
    exact parse_nat_chars 65536 p n parsed c member
  · cases read

theorem pair_splits (host : Str) (port : UInt16) (clean : ':' ∉ host) (bare : host.head? ≠ some '[') :
    Splits (host ++ ':' :: decimal port) host port := by
  have digits : ':' ∉ decimal port := fun member => absurd (decimal_digit port ':' member) (by decide)
  apply Splits.pair host (decimal port) port _ clean digits (parse_port_decimal port)
  cases host with
  | nil => simp
  | cons c rest => simpa using bare

section Printed

variable (a : ServerAddr)

theorem written_colons (colons : ':' ∈ a.host) :
    ∃ tail, a.writtenAuthority = '[' :: (a.host ++ ']' :: tail) ∧ portAfter tail = .ok a.port := by
  by_cases default : a.port = defaultPort
  · exact ⟨[], by simp [ServerAddr.writtenAuthority, default, colons], by rw [default]; rfl⟩
  · exact ⟨':' :: decimal a.port, by simp [ServerAddr.writtenAuthority, ServerAddr.authority, default, colons],
      parse_port_decimal a.port⟩

theorem written_plain (plain : ':' ∉ a.host) :
    a.writtenAuthority = if a.port = defaultPort then a.host else a.host ++ ':' :: decimal a.port := by
  by_cases default : a.port = defaultPort
  · simp [ServerAddr.writtenAuthority, default, plain]
  · simp [ServerAddr.writtenAuthority, ServerAddr.authority, default, plain]

theorem written_splits (survives : Survives a.host a.port) : splitAuthority a.writtenAuthority = .ok (a.host, a.port) := by
  apply split_complete
  by_cases colons : ':' ∈ a.host
  · obtain ⟨tail, same, after⟩ := written_colons a colons
    rw [same]
    exact .bracketed a.host tail a.port (survives.1 colons) after
  · obtain ⟨bare, written⟩ := survives.2 colons
    rw [written_plain a colons]
    by_cases default : a.port = defaultPort
    · rw [if_pos default, default]
      exact .whole a.host (written default) bare colons
    · rw [if_neg default]
      exact pair_splits a.host a.port colons bare

-- Where the written form begins with a bracket the host itself cannot close it.
theorem written_bracket_closed (plain : ':' ∉ a.host) (bracket : a.host.head? = some '[')
    (split : splitAuthority a.writtenAuthority = .ok (a.host, a.port)) : False := by
  obtain ⟨inner, same⟩ : ∃ inner, a.host = '[' :: inner := List.head?_eq_some_iff.mp bracket
  have closes : ∀ after : Str, ']' ∉ after → splitAuthority (a.host ++ after) ≠ .ok (a.host, a.port) := by
    intro after clean split
    rw [same, List.cons_append] at split
    obtain ⟨tail, rest, closed, _⟩ := split_bracketed _ a.port (inner ++ after) split
    have member : ']' ∈ inner ++ after := by
      rw [rest]
      simp
    obtain within | beyond := List.mem_append.mp member
    · exact closed (List.mem_cons_of_mem '[' within)
    · exact clean beyond
  rw [written_plain a plain] at split
  by_cases default : a.port = defaultPort
  · rw [if_pos default] at split
    exact closes [] (by simp) (by rw [List.append_nil]; exact split)
  · rw [if_neg default] at split
    have digits : ']' ∉ decimal a.port := fun member => absurd (decimal_digit a.port ']' member) (by decide)
    exact closes (':' :: decimal a.port) (by simp [digits]) split

theorem written_survives (split : splitAuthority a.writtenAuthority = .ok (a.host, a.port)) : Survives a.host a.port := by
  apply And.intro
  · intro colons
    obtain ⟨tail, same, _⟩ := written_colons a colons
    rw [same] at split
    obtain ⟨_, _, closed, _⟩ := split_bracketed a.host a.port _ split
    exact closed
  · intro plain
    apply And.intro
    · intro bracket
      exact written_bracket_closed a plain bracket split
    · intro default empty
      rw [written_plain a plain, if_pos default, empty] at split
      cases split

end Printed

section Parsed

variable (authority host : Str) (port : UInt16)

theorem lossy_lost (split : splitAuthority authority = .ok (host, port)) (lossy : Lossy authority) : ¬ Survives host port := by
  have only : ∀ host' port', Splits authority host' port' → host = host' ∧ port = port' := by
    intro host' port' splits
    have same := split.symm.trans (split_complete authority host' port' splits)
    simpa using same
  intro survives
  cases lossy with
  | empty tail default =>
      obtain ⟨rfl, rfl⟩ := only [] defaultPort (.bracketed [] tail defaultPort (by simp) default)
      exact (survives.2 (by simp)).2 rfl rfl
  | nested inner tail plain closed =>
      obtain ⟨tail', rest, closed', _⟩ := split_bracketed host port _ split
      have found := split_once_append ']' host tail' closed'
      rw [← rest, ← List.cons_append, split_once_append ']' ('[' :: inner) tail (by simp [closed])] at found
      obtain ⟨rfl, rfl⟩ := Prod.mk.inj (Option.some.inj found)
      exact (survives.2 (by simp [plain])).1 rfl
  | closing _ bare many closes =>
      obtain ⟨rfl, _⟩ := only authority defaultPort (.colons authority bare many)
      exact survives.1 (List.count_pos_iff.mp (by omega)) closes
  | unnamed p default =>
      have clean : ':' ∉ p := fun member => absurd (parse_port_chars p _ default ':' member) (by decide)
      obtain ⟨rfl, rfl⟩ := only [] defaultPort (.pair [] p defaultPort (by simp) (by simp) clean default)
      exact (survives.2 (by simp)).2 rfl rfl

theorem lossless_survives (split : splitAuthority authority = .ok (host, port)) (kept : ¬ Lossy authority) :
    Survives host port := by
  cases split_sound authority host port split with
  | bracketed _ tail _ closed after =>
      refine ⟨fun _ => closed, fun plain => ⟨?_, ?_⟩⟩
      · intro bracket
        obtain ⟨inner, rfl⟩ := List.head?_eq_some_iff.mp bracket
        simp only [List.mem_cons, not_or] at plain closed
        exact kept (.nested inner tail plain.2 closed.2)
      · rintro rfl rfl
        exact kept (.empty tail after)
  | colons _ bare many =>
      have colons : ':' ∈ authority := List.count_pos_iff.mp (by omega)
      exact ⟨fun _ closes => kept (.closing authority bare many closes), fun plain => absurd colons plain⟩
  | pair _ p _ bare clean last read =>
      refine ⟨fun colons => absurd colons clean, fun _ => ⟨?_, ?_⟩⟩
      · intro bracket
        obtain ⟨inner, rfl⟩ := List.head?_eq_some_iff.mp bracket
        exact bare rfl
      · rintro rfl rfl
        exact kept (.unnamed p read)
  | whole _ written bare clean =>
      exact ⟨fun colons => absurd colons clean, fun _ => ⟨bare, fun _ => written⟩⟩

theorem lossless_iff (split : splitAuthority authority = .ok (host, port)) : Survives host port ↔ ¬ Lossy authority :=
  ⟨fun survives lossy => lossy_lost authority host port split lossy survives, lossless_survives authority host port split⟩

theorem host_within (splits : Splits authority host port) (c : Char) (member : c ∈ host) : c ∈ authority := by
  cases splits with
  | bracketed _ tail _ _ _ => simp [member]
  | colons _ _ _ => exact member
  | pair _ p _ _ _ _ _ => simp [member]
  | whole _ _ _ _ => exact member

end Parsed

theorem split_scheme_text (scheme : Scheme) (rest : Str) : splitScheme (scheme.prefixText ++ rest) = (scheme, rest) := by
  cases scheme with
  | sqc => simp [splitScheme, strip, Scheme.prefixText]
  | sqns => simp [splitScheme, strip, Scheme.prefixText]

theorem readable_key (prim : Primitives) (codec : KeyCodec) (key : PubKey) (readable : Readable prim codec key) :
    PubKey.fromStr codec (key.toText prim).toList = .ok key := by
  obtain ⟨⟨bytes, long⟩⟩ := key
  have inverse := readable.inverse
  simp only [PubKey.fromStr, trim_clean isWhitespace _ readable.plain, beq_false_of_ne readable.short, Bool.false_and,
    Bool.false_eq_true, if_false, PubKey.fromBase58, inverse]
  simp [PubKey.fromSlice, long]

namespace ServerAddr

variable (prim : Primitives) (codec : KeyCodec)

theorem text_trimmed (a : ServerAddr) (readable : Readable prim codec a.key) :
    trim isWhitespace (a.toText prim) = a.toText prim := by
  have last : isWhitespace ((a.key.toText prim).toList.getLast readable.written) = false :=
    readable.plain _ (List.getLast_mem readable.written)
  obtain ⟨rest, same⟩ : ∃ rest, a.scheme.prefixText = 's' :: rest := by
    cases a.scheme with
    | sqc => exact ⟨_, rfl⟩
    | sqns => exact ⟨_, rfl⟩
  rw [toText, same, ← List.dropLast_concat_getLast readable.written]
  have between := trim_between isWhitespace 's' _ (rest ++ (a.writtenAuthority ++ '/' :: (a.key.toText prim).toList.dropLast))
    (by decide) last
  simpa only [List.cons_append, List.append_assoc] using between

theorem written_chars (a : ServerAddr) (c : Char) (member : c ∈ a.writtenAuthority) :
    c ∈ a.host ∨ c = '[' ∨ c = ']' ∨ c = ':' ∨ c.isDigit = true := by
  have digits := decimal_digit a.port c
  simp only [writtenAuthority, authority] at member
  split_ifs at member with port colons colons
  · simp only [List.mem_cons, List.mem_append] at member
    tauto
  · simp only [List.mem_cons, List.mem_append] at member
    tauto
  · simp only [List.mem_cons, List.mem_append, List.not_mem_nil, or_false] at member
    tauto
  · exact .inl member

theorem from_str_text (a : ServerAddr) (readable : Readable prim codec a.key) (clean : '/' ∉ a.host) :
    fromStr codec (a.toText prim) = (splitAuthority a.writtenAuthority).map (fun parts => ⟨a.scheme, parts.1, parts.2, a.key⟩) := by
  have unslashed : '/' ∉ a.writtenAuthority := by
    intro member
    obtain within | brackets := written_chars a '/' member
    · exact clean within
    · exact absurd brackets (by decide)
  have nonempty : (a.key.toText prim).toList.isEmpty = false := by simpa using readable.written
  simp only [fromStr, text_trimmed prim codec a readable]
  rw [toText, split_scheme_text]
  simp only [split_once_append '/' a.writtenAuthority _ unslashed, nonempty, readable_key prim codec a.key readable]
  simp

theorem from_str_ok (s : Str) (a : ServerAddr) (parsed : fromStr codec s = .ok a) :
    splitAuthority (authorityOf s) = .ok (a.host, a.port) ∧ '/' ∉ authorityOf s := by
  unfold fromStr at parsed
  unfold authorityOf
  generalize splitScheme (trim isWhitespace s) = split at parsed ⊢
  obtain ⟨scheme, rest⟩ := split
  cases parts : splitOnce '/' rest with
  | none => simp [parts] at parsed
  | some pair =>
      obtain ⟨front, keyText⟩ := pair
      simp only [parts] at parsed
      split at parsed
      · cases parsed
      · split at parsed
        · cases parsed
        · obtain ⟨split, accepted, rfl⟩ := (map_ok _ _ a).mp parsed
          simp only [parts, Option.map_some, Option.getD_some]
          exact ⟨accepted, ((split_once_iff '/' rest front keyText).mp parts).2⟩

theorem printed_address_parses_iff (s : Str) (a : ServerAddr) (parsed : fromStr codec s = .ok a)
    (readable : Readable prim codec a.key) : fromStr codec (a.toText prim) = .ok a ↔ ¬ Lossy (authorityOf s) := by
  obtain ⟨split, unslashed⟩ := from_str_ok codec s a parsed
  have clean : '/' ∉ a.host := fun member => unslashed (host_within _ _ _ (split_sound _ _ _ split) '/' member)
  rw [from_str_text prim codec a readable clean, map_ok, ← lossless_iff _ _ _ split]
  apply Iff.intro
  · intro again
    obtain ⟨parts, splits, same⟩ := again
    have parts_ : parts = (a.host, a.port) := by
      rw [← same]
    exact written_survives a (by rw [splits, parts_])
  · intro survives
    exact ⟨(a.host, a.port), written_splits a survives, rfl⟩

end ServerAddr

namespace Sample

def hexValue (c : Char) : Nat := if c.isDigit then c.toNat - 48 else if 'a' ≤ c then c.toNat - 87 else c.toNat - 55

def base58Alphabet : Str := "123456789ABCDEFGHJKLMNPQRSTUVWXYZabcdefghijkmnopqrstuvwxyz".toList

-- A leading `1` is a leading zero byte.
def crates : KeyCodec where
  hexDecode text :=
    if text.length % 2 = 1 then .error "Odd number of digits"
    else if text.all isHexDigit then .ok (toBe (text.length / 2) (text.foldl (fun value c => value * 16 + hexValue c) 0))
    else .error "Invalid character"
  base58Decode text :=
    if text.all base58Alphabet.contains then
      let value := text.foldl (fun value c => value * 58 + base58Alphabet.idxOf c) 0
      .ok ((text.takeWhile (· == '1')).map (fun _ => 0) ++ toBe (Nat.digits 256 value).length value)
    else .error "provided string contained invalid character"

def nodeText : Str := "9hSR6S7WPtxmTojgo6GG3k4yDPecgJY292j7xrsUGWBu".toList

theorem node_text : (node.toText ed25519).toList = nodeText := by decide +kernel

theorem node_text_solid : nodeText.all (fun c => !isWhitespace c) = true := by decide +kernel

theorem node_readable : Readable ed25519 crates node where
  inverse := by
    rw [node_text]
    decide +kernel
  plain := by
    intro c member
    rw [node_text] at member
    simpa using List.all_eq_true.mp node_text_solid c member
  written := by
    rw [node_text]
    decide +kernel
  short := by
    rw [node_text]
    decide +kernel

end Sample

open Sample

-- The default port is left out, and nothing is left.
theorem unnamed_host_lost :
    let a : ServerAddr := ⟨.sqc, [], defaultPort, node⟩
    ServerAddr.fromStr crates ("sqc://:5300/".toList ++ nodeText) = .ok a ∧ Readable ed25519 crates a.key ∧
      ∃ e, ServerAddr.fromStr crates (a.toText ed25519) = .error e := by
  intro a
  have rejected := ServerAddr.from_str_text ed25519 crates a node_readable (by decide)
  exact ⟨by decide +kernel, node_readable, .address "empty host", rejected⟩

theorem printed_address_parses_iff_named :
    let a : ServerAddr := ⟨.sqns, "ns1.example".toList, 5301, node⟩
    ServerAddr.fromStr crates (a.toText ed25519) = .ok a ∧ ¬ Lossy "ns1.example:5301".toList := by
  intro a
  have parsed : ServerAddr.fromStr crates (" sqns://ns1.example:5301/".toList ++ nodeText) = .ok a := by decide +kernel
  have authority : authorityOf (" sqns://ns1.example:5301/".toList ++ nodeText) = "ns1.example:5301".toList := by decide +kernel
  have whole := ServerAddr.printed_address_parses_iff ed25519 crates _ a parsed node_readable
  have again := ServerAddr.from_str_text ed25519 crates a node_readable (by decide +kernel)
  have split : splitAuthority a.writtenAuthority = .ok (a.host, a.port) := by decide +kernel
  rw [split] at again
  rw [authority] at whole
  exact ⟨again, whole.mp again⟩

end Sqns
