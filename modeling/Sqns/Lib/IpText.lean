import Mathlib.Data.List.Chain
import Mathlib.Data.Vector.Basic
import Sqns.Lib.Text

set_option autoImplicit false

-- The texts of IP addresses as the Rust standard library writes and reads them.
namespace IpText

section Number

variable (radix : Nat)

-- `char::to_digit`, with 16 for what is no digit.
def digitValue (c : Char) : Nat :=
  if '0' ≤ c ∧ c ≤ '9' then c.toNat - 48
  else if 'a' ≤ c ∧ c ≤ 'f' then c.toNat - 87
  else if 'A' ≤ c ∧ c ≤ 'F' then c.toNat - 55
  else 16

def readDigits : List Char → Nat → Option Nat
  | [], value => some value
  | c :: rest, value => if digitValue c < radix then readDigits rest (value * radix + digitValue c) else none

-- At least one digit and at most `digits`, below `limit`. Without
-- `zeroPrefix` only a lone zero may begin with one.
def readNumber (digits limit : Nat) (zeroPrefix : Bool) (text : List Char) : Option Nat :=
  if text.isEmpty || digits < text.length || (!zeroPrefix && text.head? == some '0' && 1 < text.length) then none
  else (readDigits radix text 0).filter (· < limit)

theorem digit_value_char : ∀ d < 16, digitValue d.digitChar = d := by decide

theorem digit_char_zero : ∀ d < 16, d.digitChar = '0' → d = 0 := by decide

theorem read_digits_append (text more : List Char) (value : Nat) :
    readDigits radix (text ++ more) value = (readDigits radix text value).bind (readDigits radix more) := by
  induction text generalizing value with
  | nil => rfl
  | cons c text ih =>
      by_cases digit : digitValue c < radix
      · simp only [List.cons_append, readDigits, if_pos digit, ih]
      · simp only [List.cons_append, readDigits, if_neg digit, Option.bind_none]

theorem read_digits_chars (text : List Char) (value n : Nat) (read : readDigits radix text value = some n) (c : Char)
    (member : c ∈ text) : digitValue c < radix := by
  induction text generalizing value with
  | nil => cases member
  | cons d text ih =>
      by_cases digit : digitValue d < radix
      · rw [readDigits, if_pos digit] at read
        obtain rfl | later := List.mem_cons.mp member
        · exact digit
        · exact ih _ read later
      · rw [readDigits, if_neg digit] at read
        cases read

theorem read_number_chars (digits limit n : Nat) (zeroPrefix : Bool) (text : List Char)
    (read : readNumber radix digits limit zeroPrefix text = some n) (c : Char) (member : c ∈ text) : digitValue c < radix := by
  unfold readNumber at read
  split at read
  · cases read
  · exact read_digits_chars radix text 0 n (Option.filter_eq_some_iff.mp read).1 c member

section Written

variable (positional : 1 < radix) (known : radix ≤ 16)
include positional known

theorem read_to_digits (n : Nat) : readDigits radix (Nat.toDigits radix n) 0 = some n := by
  induction n using Nat.strong_induction_on with
  | h n ih =>
      by_cases single : n < radix
      · have value : digitValue n.digitChar = n := digit_value_char n (by omega)
        simp [Nat.toDigits_of_lt_base single, readDigits, value, single]
      · have last : n % radix < radix := Nat.mod_lt n (by omega)
        have value : digitValue (n % radix).digitChar = n % radix := digit_value_char _ (by omega)
        rw [Nat.toDigits_of_base_le positional (by omega), read_digits_append, ih (n / radix) (Nat.div_lt_self (by omega) positional)]
        simp only [Option.bind_some, readDigits, value, if_pos last, Option.some.injEq]
        rw [Nat.mul_comm]
        exact Nat.div_add_mod n radix

theorem to_digits_chars (n : Nat) (c : Char) (member : c ∈ Nat.toDigits radix n) : digitValue c < radix :=
  read_digits_chars radix _ 0 n (read_to_digits radix positional known n) c member

theorem to_digits_zero (n : Nat) (zero : (Nat.toDigits radix n).head? = some '0') : n = 0 := by
  induction n using Nat.strong_induction_on with
  | h n ih =>
      by_cases single : n < radix
      · rw [Nat.toDigits_of_lt_base single] at zero
        exact digit_char_zero n (by omega) (Option.some.inj zero)
      · rw [Nat.toDigits_of_base_le positional (by omega), List.head?_append_of_ne_nil _ Nat.toDigits_ne_nil] at zero
        have none := ih (n / radix) (Nat.div_lt_self (by omega) positional) zero
        rw [Nat.div_eq_zero_iff] at none
        omega

theorem read_number_digits (digits limit n : Nat) (zeroPrefix : Bool) (short : n < radix ^ digits) (some_ : 0 < digits)
    (below : n < limit) : readNumber radix digits limit zeroPrefix (Nat.toDigits radix n) = some n := by
  have fits : (Nat.toDigits radix n).length ≤ digits := (Nat.length_toDigits_le_iff positional some_).mpr short
  have lone : (Nat.toDigits radix n).head? = some '0' → (Nat.toDigits radix n).length = 1 := by
    intro zero
    rw [to_digits_zero radix positional known n zero, Nat.toDigits_zero]
    rfl
  unfold readNumber
  rw [if_neg, read_to_digits radix positional known n]
  · simp [below]
  · simp only [Bool.or_eq_true, List.isEmpty_iff, Nat.toDigits_ne_nil, decide_eq_true_eq, Bool.and_eq_true, beq_iff_eq]
    intro bad
    obtain (none | long) | ⟨⟨_, zero⟩, more⟩ := bad
    · exact none
    · omega
    · have one := lone zero
      omega

end Written

end Number

theorem map_m_read {α β : Type} (read : β → Option α) (write : α → β) (items : List α)
    (inverse : ∀ a ∈ items, read (write a) = some a) : (items.map write).mapM read = some items := by
  induction items with
  | nil => rfl
  | cons a items ih =>
      have first := inverse a (List.mem_cons_self ..)
      have later := ih (fun b member => inverse b (List.mem_cons_of_mem _ member))
      simp [first, later]

theorem map_m_each {α β : Type} (read : β → Option α) (texts : List β) (items : List α)
    (all : texts.mapM read = some items) (text : β) (member : text ∈ texts) : ∃ a, read text = some a := by
  induction texts generalizing items with
  | nil => cases member
  | cons first texts ih =>
      simp only [List.mapM_cons, bind, Option.bind_eq_some_iff] at all
      obtain ⟨a, read_, rest, later, _⟩ := all
      obtain rfl | within := List.mem_cons.mp member
      · exact ⟨a, read_⟩
      · exact ih rest later within

theorem mem_intercalate {α : Type} (sep : α) (pieces : List (List α)) (c : α) (member : c ∈ [sep].intercalate pieces) :
    c = sep ∨ ∃ piece ∈ pieces, c ∈ piece := by
  induction pieces with
  | nil => cases member
  | cons piece pieces ih =>
      cases pieces with
      | nil =>
          rw [List.intercalate_singleton] at member
          exact .inr ⟨piece, List.mem_singleton_self piece, member⟩
      | cons next pieces =>
          rw [List.intercalate_cons_cons] at member
          simp only [List.append_assoc, List.mem_append, List.mem_singleton] at member
          obtain here | rfl | later := member
          · exact .inr ⟨piece, List.mem_cons_self .., here⟩
          · exact .inl rfl
          · obtain same | ⟨other, within, found⟩ := ih later
            · exact .inl same
            · exact .inr ⟨other, List.mem_cons_of_mem _ within, found⟩

section V4

def octetText (octet : UInt8) : List Char := Nat.toDigits 10 octet.toNat

def readOctet (text : List Char) : Option UInt8 := (readNumber 10 3 256 false text).map UInt8.ofNat

def dotted (octets : List UInt8) : List Char := ['.'].intercalate (octets.map octetText)

def v4Text (octets : List.Vector UInt8 4) : List Char := dotted octets.toList

def parseV4 (text : List Char) : Option (List.Vector UInt8 4) :=
  ((text.splitOn '.').mapM readOctet).bind (fun octets => if long : octets.length = 4 then some ⟨octets, long⟩ else none)

theorem read_octet (octet : UInt8) : readOctet (octetText octet) = some octet := by
  have below : octet.toNat < 256 := octet.toNat_lt
  rw [readOctet, octetText, read_number_digits 10 (by decide) (by decide) 3 256 _ false (by omega) (by decide) below]
  simp

theorem octet_chars (octet : UInt8) (c : Char) (member : c ∈ octetText octet) : digitValue c < 10 :=
  to_digits_chars 10 (by decide) (by decide) octet.toNat c member

theorem dotted_chars (octets : List UInt8) (c : Char) (member : c ∈ dotted octets) : c = '.' ∨ digitValue c < 10 := by
  obtain rfl | ⟨piece, within, found⟩ := mem_intercalate '.' _ c member
  · exact .inl rfl
  · obtain ⟨octet, _, rfl⟩ := List.mem_map.mp within
    exact .inr (octet_chars octet c found)

theorem split_dotted (octets : List UInt8) (some : octets ≠ []) : (dotted octets).splitOn '.' = octets.map octetText := by
  apply List.splitOn_intercalate
  · intro piece member
    obtain ⟨octet, _, rfl⟩ := List.mem_map.mp member
    intro dot
    exact absurd (octet_chars octet '.' dot) (by decide)
  · simpa using some

theorem v4_inverse (octets : List.Vector UInt8 4) : parseV4 (v4Text octets) = some octets := by
  obtain ⟨octets, long⟩ := octets
  have nonempty : octets ≠ [] := by
    intro empty
    simp [empty] at long
  simp only [parseV4, v4Text, List.Vector.toList_mk, split_dotted octets nonempty,
    map_m_read readOctet octetText octets (fun octet _ => read_octet octet), Option.bind_some]
  rw [dif_pos long]

theorem parse_v4_chars (text : List Char) (octets : List.Vector UInt8 4) (parsed : parseV4 text = some octets) (c : Char)
    (member : c ∈ text) : c = '.' ∨ digitValue c < 10 := by
  obtain ⟨values, read, _⟩ := Option.bind_eq_some_iff.mp parsed
  have joined : ['.'].intercalate (text.splitOn '.') = text := List.intercalate_splitOn '.'
  rw [← joined] at member
  obtain rfl | ⟨piece, within, found⟩ := mem_intercalate '.' _ c member
  · exact .inl rfl
  · obtain ⟨octet, one⟩ := map_m_each readOctet _ values read piece within
    obtain ⟨n, number, _⟩ := Option.map_eq_some_iff.mp one
    exact .inr (read_number_chars 10 3 256 n false piece number c found)

end V4

section Joined

variable {α : Type} (sep : α)

-- The text before the first two separators in a row and the text after them.
def splitDouble [DecidableEq α] : List α → Option (List α × List α)
  | [] => none
  | [_] => none
  | c :: d :: rest =>
      if c = sep ∧ d = sep then some ([], rest) else (splitDouble (d :: rest)).map (fun parts => (c :: parts.1, parts.2))

abbrev Apart (text : List α) : Prop := text.IsChain (fun c d => ¬ (c = sep ∧ d = sep))

theorem split_double_append [DecidableEq α] (front back : List α) (apart : Apart sep (front ++ [sep])) :
    splitDouble sep (front ++ sep :: sep :: back) = some (front, back) := by
  induction front with
  | nil => simp [splitDouble]
  | cons c front ih =>
      cases front with
      | nil =>
          have other : c ≠ sep := fun same => (List.isChain_cons_cons.mp apart).1 ⟨same, rfl⟩
          simp [splitDouble, other]
      | cons d front =>
          obtain ⟨other, later⟩ := List.isChain_cons_cons.mp apart
          have split := ih later
          simp only [List.cons_append] at split ⊢
          rw [splitDouble, if_neg other, split]
          rfl

theorem split_double_none [DecidableEq α] (text : List α) (apart : Apart sep text) : splitDouble sep text = none := by
  induction text with
  | nil => rfl
  | cons c text ih =>
      cases text with
      | nil => rfl
      | cons d text =>
          obtain ⟨other, later⟩ := List.isChain_cons_cons.mp apart
          rw [splitDouble, if_neg other, ih later]
          rfl

theorem clean_apart (piece text : List α) (clean : sep ∉ piece) (apart : Apart sep text) : Apart sep (piece ++ text) := by
  induction piece with
  | nil => exact apart
  | cons c piece ih =>
      have other : c ≠ sep := fun same => clean (by simp [same])
      have later := ih (fun member => clean (List.mem_cons_of_mem _ member))
      exact List.isChain_cons.mpr ⟨fun _ _ both => other both.1, later⟩

theorem joined_apart (pieces : List (List α)) (clean : ∀ piece ∈ pieces, piece ≠ [] ∧ sep ∉ piece) :
    Apart sep ([sep].intercalate pieces ++ [sep]) := by
  induction pieces with
  | nil => exact List.isChain_singleton sep
  | cons piece pieces ih =>
      cases pieces with
      | nil =>
          rw [List.intercalate_singleton]
          exact clean_apart sep piece [sep] (clean piece (by simp)).2 (List.isChain_singleton sep)
      | cons next pieces =>
          have later := ih (fun other member => clean other (List.mem_cons_of_mem _ member))
          rw [List.intercalate_cons_cons, List.append_assoc, List.append_assoc]
          apply clean_apart sep piece _ (clean piece (by simp)).2
          obtain ⟨nonempty, plain⟩ := clean next (by simp)
          obtain ⟨c, rest, rfl⟩ := List.exists_cons_of_ne_nil nonempty
          rw [List.intercalate_cons_cons_left, List.cons_append] at later ⊢
          exact List.isChain_cons_cons.mpr ⟨fun both => plain (by simp [both.2]), later⟩

end Joined

section Zeroes

structure Span where
  start : Nat
  len : Nat

def Span.grow (current : Span) (i : Nat) : Span := ⟨if current.len = 0 then i else current.start, current.len + 1⟩

-- The first of the longest runs of zero segments.
def longestZeroes : List Nat → Nat → Span → Span → Span
  | [], _, longest, _ => longest
  | segment :: rest, i, longest, current =>
      if segment = 0 then
        let current := current.grow i
        longestZeroes rest (i + 1) (if longest.len < current.len then current else longest) current
      else longestZeroes rest (i + 1) longest ⟨0, 0⟩

def zeroes (segments : List Nat) : Span := longestZeroes segments 0 ⟨0, 0⟩ ⟨0, 0⟩

def Run (segments : List Nat) (span : Span) : Prop :=
  ∃ front back, segments = front ++ (List.replicate span.len 0 ++ back) ∧ front.length = span.start

theorem run_extends (passed more : List Nat) (span : Span) (held : Run passed span) : Run (passed ++ more) span := by
  obtain ⟨front, back, rfl, starts⟩ := held
  exact ⟨front, back ++ more, by simp, starts⟩

-- What the loop knows of the segments it has passed: the longest run is one
-- of them, and the current one reaches their end.
theorem longest_zeroes_run (passed rest : List Nat) (longest current : Span) (held : Run passed longest)
    (ends : ∃ front, passed = front ++ List.replicate current.len 0 ∧ (0 < current.len → front.length = current.start)) :
    Run (passed ++ rest) (longestZeroes rest passed.length longest current) := by
  induction rest generalizing passed longest current with
  | nil =>
      rw [List.append_nil]
      exact held
  | cons segment rest ih =>
      have step : passed ++ segment :: rest = passed ++ [segment] ++ rest := by simp
      have index : passed.length + 1 = (passed ++ [segment]).length := by simp
      have extended := run_extends passed [segment] longest held
      rw [longestZeroes, step, index]
      by_cases zero : segment = 0
      · rw [if_pos zero]
        obtain ⟨front, same, starts⟩ := ends
        have reaches : passed ++ [segment] = front ++ List.replicate (current.grow passed.length).len 0 := by
          rw [same, zero, List.append_assoc, ← List.replicate_succ']
          rfl
        have begins : front.length = (current.grow passed.length).start := by
          by_cases fresh : current.len = 0
          · simp [Span.grow, fresh, same]
          · simp only [Span.grow, if_neg fresh]
            exact starts (by omega)
        have grown : Run (passed ++ [segment]) (current.grow passed.length) :=
          ⟨front, [], by rw [List.append_nil]; exact reaches, begins⟩
        apply ih
        · by_cases longer : longest.len < (current.grow passed.length).len
          · rw [if_pos longer]
            exact grown
          · rw [if_neg longer]
            exact extended
        · exact ⟨front, reaches, fun _ => begins⟩
      · rw [if_neg zero]
        exact ih _ _ _ extended ⟨passed ++ [segment], by simp, fun some => absurd some (by simp)⟩

theorem zeroes_run (segments : List Nat) : Run segments (zeroes segments) :=
  longest_zeroes_run [] segments ⟨0, 0⟩ ⟨0, 0⟩ ⟨[], [], rfl, rfl⟩ ⟨[], rfl, fun some => absurd some (by decide)⟩

end Zeroes

section V6

def groups : List UInt8 → List Nat
  | [] => []
  | [_] => []
  | high :: low :: rest => (high.toNat * 256 + low.toNat) :: groups rest

def octets (segments : List Nat) : List UInt8 :=
  segments.flatMap (fun segment => [UInt8.ofNat (segment / 256), UInt8.ofNat (segment % 256)])

def colons (segments : List Nat) : List Char := [':'].intercalate (segments.map (Nat.toDigits 16))

-- The first twelve octets of an IPv4-mapped address.
def mapped : List UInt8 := [0, 0, 0, 0, 0, 0, 0, 0, 0, 0, 255, 255]

def compressed (segments : List Nat) : List Char :=
  let run := zeroes segments
  if 1 < run.len then colons (segments.take run.start) ++ ':' :: ':' :: colons (segments.drop (run.start + run.len))
  else colons segments

def v6Text (address : List.Vector UInt8 16) : List Char :=
  if address.toList.take 12 = mapped then ':' :: ':' :: 'f' :: 'f' :: 'f' :: 'f' :: ':' :: dotted (address.toList.drop 12)
  else compressed (groups address.toList)

def readGroup (text : List Char) : Option Nat := readNumber 16 4 65536 true text

-- An IPv4 text may stand for the last two groups.
def readGroups (v4 : Bool) : List (List Char) → Option (List Nat)
  | [] => some []
  | [piece] =>
      match if v4 then parseV4 piece else none with
      | some address => some (groups address.toList)
      | none => (readGroup piece).map (fun group => [group])
  | piece :: next :: rest => (readGroup piece).bind (fun group => (readGroups v4 (next :: rest)).map (group :: ·))

def parseGroups (v4 : Bool) (text : List Char) : Option (List Nat) :=
  if text.isEmpty then some [] else readGroups v4 (text.splitOn ':')

def ofGroups (segments : List Nat) : Option (List.Vector UInt8 16) :=
  if long : (octets segments).length = 16 then some ⟨octets segments, long⟩ else none

-- Two colons stand for at least one group of zeroes.
def parseV6 (text : List Char) : Option (List.Vector UInt8 16) :=
  match splitDouble ':' text with
  | some (front, back) =>
      (parseGroups false front).bind (fun head =>
        (parseGroups true back).bind (fun tail =>
          if head.length + tail.length < 8 then ofGroups (head ++ (List.replicate (8 - (head.length + tail.length)) 0 ++ tail))
          else none))
  | none => (parseGroups true text).bind ofGroups

theorem octets_length (segments : List Nat) : (octets segments).length = 2 * segments.length := by
  simp [octets, Nat.mul_comm]

theorem groups_length (bytes : List UInt8) : (groups bytes).length = bytes.length / 2 := by
  induction bytes using groups.induct with
  | case1 => rfl
  | case2 => simp [groups]
  | case3 high low rest ih =>
      simp only [groups, List.length_cons, ih]
      omega

theorem groups_below (bytes : List UInt8) (segment : Nat) (member : segment ∈ groups bytes) : segment < 65536 := by
  induction bytes using groups.induct with
  | case1 => cases member
  | case2 => cases member
  | case3 high low rest ih =>
      rw [groups, List.mem_cons] at member
      obtain rfl | later := member
      · have first := high.toNat_lt
        have second := low.toNat_lt
        omega
      · exact ih later

theorem octets_groups (bytes : List UInt8) (even : bytes.length % 2 = 0) : octets (groups bytes) = bytes := by
  induction bytes using groups.induct with
  | case1 => rfl
  | case2 => cases even
  | case3 high low rest ih =>
      have later := ih (by simp only [List.length_cons] at even; omega)
      have first := low.toNat_lt
      have quotient : (high.toNat * 256 + low.toNat) / 256 = high.toNat := by omega
      have remainder : (high.toNat * 256 + low.toNat) % 256 = low.toNat := by omega
      rw [octets] at later
      simp [groups, octets, quotient, remainder, later]

theorem of_groups_iff (segments : List Nat) (address : List.Vector UInt8 16) :
    ofGroups segments = some address ↔ octets segments = address.toList := by
  obtain ⟨bytes, long⟩ := address
  rw [List.Vector.toList_mk]
  apply Iff.intro
  · intro read
    unfold ofGroups at read
    split at read
    · exact congrArg List.Vector.toList (Option.some.inj read)
    · cases read
  · rintro rfl
    rw [ofGroups, dif_pos long]

theorem read_group (segment : Nat) (below : segment < 65536) : readGroup (Nat.toDigits 16 segment) = some segment :=
  read_number_digits 16 (by decide) (by decide) 4 65536 segment true below (by decide) below

theorem hex_clean (segment : Nat) (c : Char) (other : 16 ≤ digitValue c) : c ∉ Nat.toDigits 16 segment := by
  intro member
  have digit := to_digits_chars 16 (by decide) (by decide) segment c member
  omega

theorem undotted_not_v4 (text : List Char) (clean : '.' ∉ text) : parseV4 text = none := by
  rw [parseV4, List.splitOn_eq_singleton clean]
  cases one : readOctet text with
  | none => simp [one]
  | some octet => simp [one]

theorem read_groups_hex (v4 : Bool) (segments : List Nat) (below : ∀ segment ∈ segments, segment < 65536) :
    readGroups v4 (segments.map (Nat.toDigits 16)) = some segments := by
  induction segments with
  | nil => rfl
  | cons segment segments ih =>
      have first := read_group segment (below segment (List.mem_cons_self ..))
      have later := ih (fun other member => below other (List.mem_cons_of_mem _ member))
      cases segments with
      | nil =>
          have plain : (if v4 then parseV4 (Nat.toDigits 16 segment) else none) = none := by
            rw [undotted_not_v4 _ (hex_clean segment '.' (by decide)), ite_self]
          simp only [List.map_cons, List.map_nil, readGroups, plain, first, Option.map_some]
      | cons next segments =>
          simp only [List.map_cons] at later ⊢
          rw [readGroups, first, later]
          rfl

theorem hex_pieces (segments : List Nat) (piece : List Char) (member : piece ∈ segments.map (Nat.toDigits 16)) :
    piece ≠ [] ∧ ':' ∉ piece := by
  obtain ⟨segment, _, rfl⟩ := List.mem_map.mp member
  exact ⟨Nat.toDigits_ne_nil, hex_clean segment ':' (by decide)⟩

theorem parse_colons (v4 : Bool) (segments : List Nat) (below : ∀ segment ∈ segments, segment < 65536) :
    parseGroups v4 (colons segments) = some segments := by
  by_cases empty : segments = []
  · subst empty
    rfl
  · have split : (colons segments).splitOn ':' = segments.map (Nat.toDigits 16) :=
      List.splitOn_intercalate ':' (fun piece member => (hex_pieces segments piece member).2) (by simpa using empty)
    have written : (colons segments).isEmpty = false := by
      rw [List.isEmpty_eq_false_iff]
      intro none
      rw [none, List.splitOn_nil] at split
      exact (hex_pieces segments [] (by rw [← split]; exact List.mem_singleton_self [])).1 rfl
    simp only [parseGroups, written, split, read_groups_hex v4 segments below]
    rfl

theorem parse_double (text front back : List Char) (head tail : List Nat) (len : Nat)
    (double : splitDouble ':' text = some (front, back)) (first : parseGroups false front = some head)
    (second : parseGroups true back = some tail) (total : head.length + len + tail.length = 8) (filled : 0 < len) :
    parseV6 text = ofGroups (head ++ (List.replicate len 0 ++ tail)) := by
  have missing : 8 - (head.length + tail.length) = len := by omega
  simp only [parseV6, double, first, second, Option.bind_some, missing]
  rw [if_pos (by omega)]

theorem parse_mapped (bytes : List UInt8) (long : bytes.length = 4) :
    parseV6 (':' :: ':' :: 'f' :: 'f' :: 'f' :: 'f' :: ':' :: dotted bytes) =
      ofGroups (List.replicate 5 0 ++ 65535 :: groups bytes) := by
  have double := split_double_append ':' [] ('f' :: 'f' :: 'f' :: 'f' :: ':' :: dotted bytes) (List.isChain_singleton ':')
  have clean : ':' ∉ dotted bytes := fun member => absurd (dotted_chars bytes ':' member) (by decide)
  have split : ('f' :: 'f' :: 'f' :: 'f' :: ':' :: dotted bytes).splitOn ':' = [['f', 'f', 'f', 'f'], dotted bytes] := by
    have first := List.splitOn_append_cons_self_of_not_mem (a := ':') (show ':' ∉ ['f', 'f', 'f', 'f'] by decide) (dotted bytes)
    rw [List.splitOn_eq_singleton clean] at first
    exact first
  have ffff : readGroup ['f', 'f', 'f', 'f'] = some 65535 := by decide
  have last : parseV4 (dotted bytes) = some ⟨bytes, long⟩ := v4_inverse ⟨bytes, long⟩
  have tail : parseGroups true ('f' :: 'f' :: 'f' :: 'f' :: ':' :: dotted bytes) = some (65535 :: groups bytes) := by
    simp only [parseGroups, List.isEmpty_cons, split, readGroups, ffff, last, if_true]
    rfl
  exact parse_double _ [] _ [] _ 5 double rfl tail (by simp [groups_length, long]) (by decide)

theorem parse_compressed (segments : List Nat) (below : ∀ segment ∈ segments, segment < 65536) (eight : segments.length = 8) :
    parseV6 (compressed segments) = ofGroups segments := by
  obtain ⟨front, back, same, starts⟩ := zeroes_run segments
  unfold compressed
  generalize zeroes segments = run at same starts ⊢
  subst same
  by_cases long : 1 < run.len
  · have before : (front ++ (List.replicate run.len 0 ++ back)).take run.start = front := by
      rw [← starts, List.take_left]
    have after : (front ++ (List.replicate run.len 0 ++ back)).drop (run.start + run.len) = back := by
      rw [← starts, ← List.append_assoc, List.drop_left' (by simp)]
    have double : splitDouble ':' (colons front ++ ':' :: ':' :: colons back) = some (colons front, colons back) :=
      split_double_append ':' _ _ (joined_apart ':' _ (hex_pieces front))
    have head := parse_colons false front (fun segment member => below segment (by simp [member]))
    have tail := parse_colons true back (fun segment member => below segment (by simp [member]))
    simp only [List.length_append, List.length_replicate] at eight
    simp only [if_pos long, before, after]
    exact parse_double _ _ _ front back run.len double head tail (by omega) (by omega)
  · have single : ∀ segments : List Nat, splitDouble ':' (colons segments) = none := fun segments =>
      split_double_none ':' _ (joined_apart ':' _ (hex_pieces segments)).left_of_append
    simp only [if_neg long, parseV6, single, parse_colons true _ below, Option.bind_some]

theorem octets_mapped (bytes : List UInt8) (even : bytes.length % 2 = 0) :
    octets (List.replicate 5 0 ++ 65535 :: groups bytes) = mapped ++ bytes := by
  have lead : octets (List.replicate 5 0 ++ [65535]) = mapped := by decide
  calc
    octets (List.replicate 5 0 ++ 65535 :: groups bytes) = octets (List.replicate 5 0 ++ [65535]) ++ octets (groups bytes) := by
      simp [octets]
    _ = mapped ++ bytes := by rw [lead, octets_groups bytes even]

theorem v6_inverse (address : List.Vector UInt8 16) : parseV6 (v6Text address) = some address := by
  have long : address.toList.length = 16 := address.toList_length
  unfold v6Text
  by_cases v4 : address.toList.take 12 = mapped
  · have four : (address.toList.drop 12).length = 4 := by rw [List.length_drop, long]
    rw [if_pos v4, parse_mapped _ four, of_groups_iff, octets_mapped _ (by omega), ← v4, List.take_append_drop]
  · have eight : (groups address.toList).length = 8 := by rw [groups_length, long]
    rw [if_neg v4, parse_compressed _ (groups_below address.toList) eight, of_groups_iff, octets_groups _ (by omega)]

theorem colons_chars (segments : List Nat) (c : Char) (member : c ∈ colons segments) : c = ':' ∨ digitValue c < 16 := by
  obtain rfl | ⟨piece, within, found⟩ := mem_intercalate ':' _ c member
  · exact .inl rfl
  · obtain ⟨segment, _, rfl⟩ := List.mem_map.mp within
    exact .inr (to_digits_chars 16 (by decide) (by decide) segment c found)

theorem compressed_chars (segments : List Nat) (c : Char) (member : c ∈ compressed segments) : c = ':' ∨ digitValue c < 16 := by
  unfold compressed at member
  by_cases long : 1 < (zeroes segments).len
  · simp only [if_pos long, List.mem_append, List.mem_cons] at member
    obtain front | colon | colon | back := member
    · exact colons_chars _ c front
    · exact .inl colon
    · exact .inl colon
    · exact colons_chars _ c back
  · simp only [if_neg long] at member
    exact colons_chars segments c member

theorem v6_chars (address : List.Vector UInt8 16) (c : Char) (member : c ∈ v6Text address) :
    c = ':' ∨ c = '.' ∨ digitValue c < 16 := by
  have lead : [':', ':', 'f', 'f', 'f', 'f', ':'].all (fun c => c = ':' ∨ c = '.' ∨ digitValue c < 16) = true := by decide
  unfold v6Text at member
  split at member
  · obtain first | rest := List.mem_append.mp (show c ∈ [':', ':', 'f', 'f', 'f', 'f', ':'] ++ dotted _ from member)
    · exact of_decide_eq_true (List.all_eq_true.mp lead c first)
    · obtain dot | digit := dotted_chars _ c rest
      · exact .inr (.inl dot)
      · exact .inr (.inr (by omega))
  · obtain colon | digit := compressed_chars _ c member
    · exact .inl colon
    · exact .inr (.inr digit)

theorem parse_v6_colon (text : List Char) (address : List.Vector UInt8 16) (parsed : parseV6 text = some address) :
    ':' ∈ text := by
  by_contra clean
  have apart : Apart ':' text := by simpa using clean_apart ':' text [] clean List.isChain_nil
  simp only [parseV6, split_double_none ':' text apart, Option.bind_eq_some_iff] at parsed
  obtain ⟨segments, read, whole⟩ := parsed
  have many := congrArg List.length ((of_groups_iff segments address).mp whole)
  rw [octets_length, address.toList_length] at many
  unfold parseGroups at read
  split at read
  · cases read
    simp at many
  · rw [List.splitOn_eq_singleton clean, readGroups] at read
    split at read
    · cases read
      rw [groups_length, List.Vector.toList_length] at many
      omega
    · obtain ⟨group, _, rfl⟩ := Option.map_eq_some_iff.mp read
      simp at many

end V6

section Addresses

inductive IpAddr where
  | v4 (octets : List.Vector UInt8 4)
  | v6 (octets : List.Vector UInt8 16)
deriving DecidableEq

def IpAddr.parse (text : List Char) : Option IpAddr :=
  match parseV4 text with
  | some a => some (.v4 a)
  | none => (parseV6 text).map .v6

-- The flow label of an IPv6 socket address is not written.
inductive SocketAddr where
  | v4 (octets : List.Vector UInt8 4) (port : UInt16)
  | v6 (octets : List.Vector UInt8 16) (port : UInt16) (scope : UInt32)
deriving DecidableEq

namespace SocketAddr

def new : IpAddr → UInt16 → SocketAddr
  | .v4 a, port => .v4 a port
  | .v6 a, port => .v6 a port 0

def port : SocketAddr → UInt16
  | .v4 _ port => port
  | .v6 _ port _ => port

def zoned (a : List.Vector UInt8 16) (scope : UInt32) : List Char :=
  if scope = 0 then v6Text a else v6Text a ++ '%' :: Nat.toDigits 10 scope.toNat

def toText : SocketAddr → List Char
  | .v4 a port => v4Text a ++ ':' :: Nat.toDigits 10 port.toNat
  | .v6 a port scope => '[' :: (zoned a scope ++ ']' :: ':' :: Nat.toDigits 10 port.toNat)

end SocketAddr

end Addresses

end IpText
