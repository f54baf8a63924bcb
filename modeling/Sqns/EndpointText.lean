import Sqns.Addr
import Sqns.Lib.IpText

set_option autoImplicit false

namespace Sqns

open IpText Text

def Host.toText : Host → Str
  | .v4 a => v4Text a
  | .v6 a => '[' :: (v6Text a ++ [']'])
  | .name n => n.toList

-- `strip_prefix('[')` and then `strip_suffix(']')`.
def unbracketed : Str → Option Str
  | '[' :: rest => if rest.getLast? = some ']' then some rest.dropLast else none
  | _ => none

def Host.fromStr (s : Str) : Except Error Host :=
  let s := trim isWhitespace s
  match unbracketed s with
  | some inner =>
      match parseV6 inner with
      | some a => .ok (.v6 a)
      | none => .error (.record s!"bad IPv6 literal '{String.ofList inner}': invalid IPv6 address syntax")
  | none =>
      match parseV4 s with
      | some a => .ok (.v4 a)
      | none =>
          match parseV6 s with
          | some a => .ok (.v6 a)
          | none =>
              let size := (String.ofList s).utf8ByteSize
              if s.isEmpty || 255 < size then .error (.record s!"host name must be 1..=255 bytes, got {size}")
              else if s.any (fun c => isWhitespace c || c == '/' || c == ':') then
                .error (.record s!"invalid host name '{String.ofList s}'")
              else .ok (.name (String.ofList s))

namespace Endpoint

def new (host : Host) (port : UInt16) : Endpoint := ⟨host, port, 0, 1⟩

def authority (e : Endpoint) : Str := e.host.toText ++ ':' :: decimal e.port

-- One `key=value` of the list after the address.
def applyOption (ep : Endpoint) (opt : Str) : Except Error Endpoint :=
  let opt := trim isWhitespace opt
  if opt.isEmpty then .ok ep
  else
    match splitOnce '=' opt with
    | none => .error (.record s!"expected key=value, got '{String.ofList opt}'")
    | some (name, value) =>
        match parseNat 65536 (trim isWhitespace value) with
        | none => .error (.record s!"'{String.ofList value}' is not a 0..=65535 value")
        | some parsed =>
            let other := String.ofList (trim isWhitespace name)
            if ["priority", "prio", "p"].contains other then .ok { ep with priority := UInt16.ofNat parsed }
            else if ["weight", "w"].contains other then .ok { ep with weight := UInt16.ofNat parsed }
            else .error (.record s!"unknown endpoint option '{other}' (want priority= or weight=)")

-- `split` always yields a first part.
def fromStr (s : Str) : Except Error Endpoint :=
  match s.splitOn ',' with
  | [] => .error (.record s!"empty endpoint '{String.ofList s}'")
  | authority :: options =>
      match splitAuthority (trim isWhitespace authority) with
      | .error e => .error (.record s!"bad endpoint '{String.ofList s}': {e.toText}")
      | .ok (hostStr, port) => do
          let host ← Host.fromStr hostStr
          options.foldlM applyOption (new host port)

end Endpoint

-- The names that the text parser takes for themselves.
def Host.Printable : Host → Prop
  | .v4 _ => True
  | .v6 _ => True
  | .name n => (∀ c ∈ n.toList, isWhitespace c = false ∧ c ≠ ',' ∧ c ≠ '/' ∧ c ≠ ':') ∧ n.toList.head? ≠ some '[' ∧
      parseV4 n.toList = none

section HostText

theorem unbracketed_bare (s : Str) (bare : s.head? ≠ some '[') : unbracketed s = none := by
  unfold unbracketed
  split
  · simp at bare
  · rfl

theorem host_named (s : Str) (n : String) (read : Host.fromStr s = .ok (.name n)) :
    n.toList = trim isWhitespace s ∧ parseV4 n.toList = none ∧
      ∀ c ∈ n.toList, isWhitespace c = false ∧ c ≠ '/' ∧ c ≠ ':' := by
  unfold Host.fromStr at read
  generalize trim isWhitespace s = text at read ⊢
  simp only at read
  split at read
  · split at read
    · cases read
    · cases read
  · split at read
    · cases read
    · rename_i notV4
      split at read
      · cases read
      · split_ifs at read with size bad
        cases read
        rw [String.toList_ofList]
        refine ⟨rfl, notV4, ?_⟩
        simpa [and_assoc] using bad

theorem digit_range (c : Char) (digit : digitValue c < 16) : 48 ≤ c.toNat ∧ c.toNat ≤ 102 := by
  have code : ∀ d : Char, (d ≤ c → d.toNat ≤ c.toNat) ∧ (c ≤ d → c.toNat ≤ d.toNat) := fun _ => ⟨id, id⟩
  unfold digitValue at digit
  split_ifs at digit with decimal lower upper
  · exact ⟨(code '0').1 decimal.1, le_trans ((code '9').2 decimal.2) (by decide)⟩
  · exact ⟨le_trans (by decide) ((code 'a').1 lower.1), (code 'f').2 lower.2⟩
  · exact ⟨le_trans (by decide) ((code 'A').1 upper.1), le_trans ((code 'F').2 upper.2) (by decide)⟩
  · omega

theorem address_char (c : Char) (known : c = ':' ∨ c = '.' ∨ digitValue c < 16) :
    isWhitespace c = false ∧ c ≠ ',' ∧ c ≠ '[' ∧ c ≠ ']' := by
  obtain rfl | rfl | digit := known
  · decide
  · decide
  · have range := digit_range c digit
    have other : ∀ d : Char, digitValue d = 16 → c ≠ d := by
      rintro d none rfl
      omega
    refine ⟨?_, other ',' (by decide), other '[' (by decide), other ']' (by decide)⟩
    simp only [isWhitespace, Bool.or_eq_false_iff, Bool.and_eq_false_iff, decide_eq_false_iff_not, beq_eq_false_iff_ne]
    omega

theorem v4_char (a : List.Vector UInt8 4) (c : Char) (member : c ∈ v4Text a) :
    isWhitespace c = false ∧ c ≠ ',' ∧ c ≠ '[' ∧ c ≠ ']' := by
  obtain dot | digit := dotted_chars a.toList c member
  · exact address_char c (.inr (.inl dot))
  · exact address_char c (.inr (.inr (by omega)))

theorem v6_char (a : List.Vector UInt8 16) (c : Char) (member : c ∈ v6Text a) :
    isWhitespace c = false ∧ c ≠ ',' ∧ c ≠ '[' ∧ c ≠ ']' := address_char c (v6_chars a c member)

theorem decimal_char (port : UInt16) (c : Char) (member : c ∈ decimal port) :
    isWhitespace c = false ∧ c ≠ ',' ∧ c ≠ '[' ∧ c ≠ ']' := by
  have digit := to_digits_chars 10 (by decide) (by decide) port.toNat c member
  exact address_char c (.inr (.inr (by omega)))

theorem v4_bare (a : List.Vector UInt8 4) : (v4Text a).head? ≠ some '[' :=
  fun head => (v4_char a '[' (List.mem_of_head? head)).2.2.1 rfl

theorem host_reads_v4 (a : List.Vector UInt8 4) : Host.fromStr (v4Text a) = .ok (.v4 a) := by
  simp only [Host.fromStr, trim_clean isWhitespace _ (fun c member => (v4_char a c member).1),
    unbracketed_bare _ (v4_bare a), v4_inverse]

theorem host_reads_v6 (a : List.Vector UInt8 16) : Host.fromStr (v6Text a) = .ok (.v6 a) := by
  have bare : (v6Text a).head? ≠ some '[' := fun head => (v6_char a '[' (List.mem_of_head? head)).2.2.1 rfl
  have notV4 : parseV4 (v6Text a) = none := by
    cases parsed : parseV4 (v6Text a) with
    | none => rfl
    | some b => exact absurd (parse_v4_chars _ b parsed ':' (parse_v6_colon _ a (v6_inverse a))) (by decide)
  simp only [Host.fromStr, trim_clean isWhitespace _ (fun c member => (v6_char a c member).1), unbracketed_bare _ bare, notV4,
    v6_inverse]

theorem host_reads_name (n : String) (fits : (Host.name n).Encodable) (printable : (Host.name n).Printable) :
    Host.fromStr n.toList = .ok (.name n) := by
  obtain ⟨clean, bare, notV4⟩ := printable
  have notV6 : parseV6 n.toList = none := by
    cases parsed : parseV6 n.toList with
    | none => rfl
    | some a => exact absurd rfl (clean ':' (parse_v6_colon _ a parsed)).2.2.2
  have written : n.toList.isEmpty = false := by
    have some := fits.1
    rw [List.isEmpty_eq_false_iff]
    intro none
    rw [String.toList_eq_nil_iff.mp none] at some
    exact absurd some (by decide)
  have plain : n.toList.any (fun c => isWhitespace c || c == '/' || c == ':') = false := by
    rw [List.any_eq_false]
    intro c member
    obtain ⟨solid, _, slash, colon⟩ := clean c member
    simp [solid, slash, colon]
  have short : ¬ 255 < n.utf8ByteSize := by
    have bound := fits.2
    omega
  simp only [Host.fromStr, trim_clean isWhitespace _ (fun c member => (clean c member).1), unbracketed_bare _ bare, notV4, notV6,
    written, plain, String.ofList_toList]
  simp [short]

end HostText

namespace Endpoint

theorem apply_option_keeps (ep ep' : Endpoint) (opt : Str) (applied : ep.applyOption opt = .ok ep') :
    ep'.host = ep.host ∧ ep'.port = ep.port := by
  unfold applyOption at applied
  simp only at applied
  split at applied
  · cases applied
    exact ⟨rfl, rfl⟩
  · split at applied
    · cases applied
    · split at applied
      · cases applied
      · split_ifs at applied with priority weight
        · cases applied
          exact ⟨rfl, rfl⟩
        · cases applied
          exact ⟨rfl, rfl⟩

theorem options_keep (options : List Str) (ep e : Endpoint) (applied : options.foldlM applyOption ep = .ok e) :
    e.host = ep.host ∧ e.port = ep.port := by
  induction options generalizing ep with
  | nil =>
      cases applied
      exact ⟨rfl, rfl⟩
  | cons opt options ih =>
      rw [List.foldlM_cons, then_ok] at applied
      obtain ⟨next, first, rest⟩ := applied
      obtain ⟨host, port⟩ := apply_option_keeps ep next opt first
      rw [← host, ← port]
      exact ih next rest

theorem port_solid (port : UInt16) (c : Char) (member : c ∈ ':' :: decimal port) : isWhitespace c = false := by
  obtain rfl | digit := List.mem_cons.mp member
  · decide
  · exact (decimal_char port c digit).1

theorem ported_mem (front : Str) (port : UInt16) (c : Char) (member : c ∈ front ++ ':' :: decimal port) :
    c ∈ front ∨ isWhitespace c = false ∧ c ≠ ',' := by
  obtain within | ported := List.mem_append.mp member
  · exact .inl within
  · obtain rfl | digit := List.mem_cons.mp ported
    · exact .inr (by decide)
    · exact .inr ⟨(decimal_char port c digit).1, (decimal_char port c digit).2.1⟩

theorem ported_single (front : Str) (port : UInt16) (clean : ',' ∉ front) : ',' ∉ front ++ ':' :: decimal port := by
  intro member
  obtain within | other := ported_mem front port ',' member
  · exact clean within
  · exact other.2 rfl

theorem after_equals (lead name value : Str) (port : UInt16) (same : lead ++ ':' :: decimal port = name ++ '=' :: value) :
    ∃ rest, value = rest ++ ':' :: decimal port := by
  have clean : '=' ∉ ':' :: decimal port := by
    intro member
    obtain colon | digit := List.mem_cons.mp member
    · exact absurd colon (by decide)
    · exact absurd (decimal_digit port '=' digit) (by decide)
  obtain ⟨within, _, back⟩ | ⟨within, _, back⟩ := List.append_eq_append_iff.mp same
  · exact absurd (by rw [back]; simp) clean
  · cases within with
    | nil => exact absurd (List.cons.inj back).1 (by decide)
    | cons c rest => exact ⟨rest, (List.cons.inj back).2⟩

-- A part that ends in a port is no option: after its equals sign, if it has
-- one, the colon still stands.
theorem port_is_no_option (ep e : Endpoint) (front : Str) (port : UInt16) :
    ep.applyOption (front ++ ':' :: decimal port) ≠ .ok e := by
  intro applied
  simp only [applyOption, trim_solid isWhitespace front _ (List.cons_ne_nil _ _) (port_solid port)] at applied
  generalize front.dropWhile isWhitespace = lead at applied
  have written : (lead ++ ':' :: decimal port).isEmpty = false := by simp
  rw [written] at applied
  cases parts : splitOnce '=' (lead ++ ':' :: decimal port) with
  | none => simp [parts] at applied
  | some pair =>
      obtain ⟨name, value⟩ := pair
      have after := after_equals lead name value port ((split_once_iff '=' _ name value).mp parts).1
      obtain ⟨rest, rfl⟩ := after
      have colon : ':' ∈ trim isWhitespace (rest ++ ':' :: decimal port) := by
        rw [trim_solid isWhitespace rest _ (List.cons_ne_nil _ _) (port_solid port)]
        simp
      have unread : parseNat 65536 (trim isWhitespace (rest ++ ':' :: decimal port)) = none := by
        cases parsed : parseNat 65536 (trim isWhitespace (rest ++ ':' :: decimal port)) with
        | none => rfl
        | some n => exact absurd (parse_nat_chars 65536 _ n parsed ':' colon) (by decide)
      simp [parts, unread] at applied

theorem from_str_ok (s : Str) (e : Endpoint) (read : fromStr s = .ok e) :
    ∃ first options hostStr ep, s.splitOn ',' = first :: options ∧
      splitAuthority (trim isWhitespace first) = .ok (hostStr, e.port) ∧ Host.fromStr hostStr = .ok e.host ∧
      options.foldlM applyOption ep = .ok e := by
  unfold fromStr at read
  split at read
  · cases read
  · rename_i first options parts
    split at read
    · cases read
    · rename_i hostStr port split
      obtain ⟨host, named, applied⟩ := (then_ok _ _ _).mp read
      obtain ⟨kept, ported⟩ := options_keep options _ e applied
      refine ⟨first, options, hostStr, _, parts, ?_, ?_, applied⟩
      · rw [split, ported]
        rfl
      · rw [named, kept]
        rfl

theorem comma_refused (front : Str) (port : UInt16) (e : Endpoint) (comma : ',' ∈ front) :
    fromStr (front ++ ':' :: decimal port) ≠ .ok e := by
  intro read
  obtain ⟨first, options, _, ep, parts, _, _, applied⟩ := from_str_ok _ e read
  obtain ⟨lead, last, rfl, clean⟩ := last_separator ',' front comma
  have single := List.splitOn_eq_singleton (ported_single last port clean)
  rw [List.append_assoc, List.cons_append, List.splitOn_append_cons_self, single] at parts
  obtain ⟨head, more, opened⟩ := List.exists_cons_of_ne_nil (List.splitOn_ne_nil ',' lead)
  rw [opened, List.cons_append] at parts
  rw [← (List.cons.inj parts).2, List.foldlM_append, then_ok] at applied
  obtain ⟨before, _, final⟩ := applied
  rw [List.foldlM_cons, then_ok] at final
  obtain ⟨after, ended, _⟩ := final
  exact port_is_no_option before after last port ended

theorem from_str_plain (text hostStr : Str) (port : UInt16) (host : Host)
    (clean : ∀ c ∈ text, isWhitespace c = false ∧ c ≠ ',') (split : splitAuthority text = .ok (hostStr, port))
    (named : Host.fromStr hostStr = .ok host) : fromStr text = .ok (new host port) := by
  have single : ',' ∉ text := fun member => (clean ',' member).2 rfl
  simp only [fromStr, List.splitOn_eq_singleton single, trim_clean isWhitespace text (fun c member => (clean c member).1), split,
    named]
  rfl

theorem printable_reads (e : Endpoint) (fits : e.host.Encodable) (printable : e.host.Printable) :
    fromStr e.authority = .ok (new e.host e.port) := by
  obtain ⟨host, port, _, _⟩ := e
  have ported : ∀ front : Str, (∀ c ∈ front, isWhitespace c = false ∧ c ≠ ',') →
      ∀ c ∈ front ++ ':' :: decimal port, isWhitespace c = false ∧ c ≠ ',' :=
    fun front clean c member => (ported_mem front port c member).elim (clean c) id
  cases host with
  | v4 a =>
      have plain : ':' ∉ v4Text a := fun member => absurd (dotted_chars a.toList ':' member) (by decide)
      have clean := ported (v4Text a) (fun c member => ⟨(v4_char a c member).1, (v4_char a c member).2.1⟩)
      have split := split_complete _ _ _ (pair_splits (v4Text a) port plain (v4_bare a))
      exact from_str_plain _ (v4Text a) port _ clean split (host_reads_v4 a)
  | v6 a =>
      have closed : ']' ∉ v6Text a := fun member => (v6_char a ']' member).2.2.2 rfl
      have clean := ported ('[' :: (v6Text a ++ [']'])) (by
        intro c member
        simp only [List.mem_cons, List.mem_append, List.not_mem_nil, or_false] at member
        obtain rfl | within | rfl := member
        · decide
        · exact ⟨(v6_char a c within).1, (v6_char a c within).2.1⟩
        · decide)
      have splits : Splits ('[' :: (v6Text a ++ ']' :: ':' :: decimal port)) (v6Text a) port :=
        .bracketed (v6Text a) (':' :: decimal port) port closed (parse_port_decimal port)
      have split : splitAuthority ('[' :: (v6Text a ++ [']']) ++ ':' :: decimal port) = .ok (v6Text a, port) := by
        simpa using split_complete _ _ _ splits
      exact from_str_plain _ (v6Text a) port _ clean split (host_reads_v6 a)
  | name n =>
      have plain : ':' ∉ n.toList := fun member => (printable.1 ':' member).2.2.2 rfl
      have clean := ported n.toList (fun c member => ⟨(printable.1 c member).1, (printable.1 c member).2.1⟩)
      have split := split_complete _ _ _ (pair_splits n.toList port plain printable.2.1)
      exact from_str_plain _ n.toList port _ clean split (host_reads_name n fits printable)

-- A bracket in front hides the name from the parser, which looks behind it.
theorem bracket_hides (text hostStr : Str) (port port' : UInt16) (clean : ∀ c ∈ text, isWhitespace c = false)
    (split : splitAuthority (text ++ ':' :: decimal port) = .ok (hostStr, port')) (same : text = trim isWhitespace hostStr) :
    text.head? ≠ some '[' := by
  intro bracket
  obtain ⟨inner, opened⟩ := List.head?_eq_some_iff.mp bracket
  rw [opened, List.cons_append] at split
  obtain ⟨tail, rest, _, _⟩ := split_bracketed hostStr port' _ split
  have solid : ∀ c ∈ hostStr, isWhitespace c = false := by
    intro c member
    have within : c ∈ inner ++ ':' :: decimal port := by
      rw [rest]
      simp [member]
    obtain early | late := List.mem_append.mp within
    · exact clean c (by rw [opened]; exact List.mem_cons_of_mem _ early)
    · exact port_solid port c late
  rw [trim_clean isWhitespace hostStr solid] at same
  apply shifted_host text (']' :: tail) (decimal port)
  rw [same, ← rest, ← List.cons_append, ← opened, same]

theorem reads_printable (e e' : Endpoint) (read : fromStr e.authority = .ok e') (same : e'.host = e.host) : e.host.Printable := by
  obtain ⟨host, port, _, _⟩ := e
  cases host with
  | v4 a => trivial
  | v6 a => trivial
  | name n =>
      obtain ⟨first, options, hostStr, _, parts, split, named, _⟩ := from_str_ok _ e' read
      rw [same] at named
      obtain ⟨trimmed, notV4, clean⟩ := host_named hostStr n named
      have comma : ',' ∉ n.toList := fun member => comma_refused n.toList port e' member read
      refine ⟨?_, ?_, notV4⟩
      · intro c member
        obtain ⟨solid, slash, colon⟩ := clean c member
        exact ⟨solid, fun here => comma (by rw [← here]; exact member), slash, colon⟩
      · have single := List.splitOn_eq_singleton (ported_single n.toList port comma)
        have solid : ∀ c ∈ n.toList ++ ':' :: decimal port, isWhitespace c = false := by
          intro c member
          obtain within | other := ported_mem n.toList port c member
          · exact (clean c within).1
          · exact other.1
        have whole : [n.toList ++ ':' :: decimal port] = first :: options := single.symm.trans parts
        rw [← (List.cons.inj whole).1, trim_clean isWhitespace _ solid] at split
        exact bracket_hides n.toList hostStr port _ (fun c member => (clean c member).1) split trimmed

theorem endpoint_encodable (r : Record) (e : Endpoint) (fits : r.Encodable) (inside : e ∈ r.endpoints) : e.host.Encodable := by
  unfold Record.Encodable at fits
  unfold Record.endpoints at inside
  cases body : r.body with
  | live endpoints =>
      rw [body] at fits inside
      exact fits.2 e inside
  | superseded successor reason =>
      rw [body] at inside
      cases inside
  | revoked reason =>
      rw [body] at inside
      cases inside

theorem printed_endpoint_reads_iff (prim : Primitives) (bytes : Bytes) (r : Record) (e : Endpoint)
    (decoded : Record.decode prim bytes = .ok r) (_accepted : r.validate prim = .ok ()) (inside : e ∈ r.endpoints) :
    (∃ e', fromStr e.authority = .ok e' ∧ e'.host = e.host ∧ e'.port = e.port) ↔ e.host.Printable := by
  obtain ⟨fits, _⟩ := (record_decode_iff prim bytes r).mp decoded
  apply Iff.intro
  · intro read
    obtain ⟨e', read, same, _⟩ := read
    exact reads_printable e e' read same
  · intro printable
    exact ⟨new e.host e.port, printable_reads e (endpoint_encodable r e fits inside) printable, rfl, rfl⟩

end Endpoint

open Sample

-- The decoder takes any name that is not empty.
theorem spaced_name_unread :
    let e : Endpoint := ⟨.name "a b", 5300, 0, 1⟩
    let r : Record := .live node fromAlice 1 1000 [e] 1000
    Record.decode ed25519 r.encode = .ok r ∧ r.validate ed25519 = .ok () ∧ e ∈ r.endpoints ∧
      Endpoint.fromStr e.authority = .error (.record "invalid host name 'a b'") := by
  intro e r
  have fits : r.body.Encodable := by decide +kernel
  exact ⟨(record_decode_iff ed25519 _ r).mpr ⟨fits, rfl⟩, by decide +kernel, List.mem_singleton_self e, by decide +kernel⟩

theorem printed_endpoint_reads_iff_loopback :
    let r := publish.record
    r.validate ed25519 = .ok () ∧ (∃ e', Endpoint.fromStr "127.0.0.1:5300".toList = .ok e' ∧ e'.host = endpoint.host ∧
      e'.port = endpoint.port) := by
  intro r
  have fits : r.body.Encodable := by decide +kernel
  have decoded : Record.decode ed25519 r.encode = .ok r := (record_decode_iff ed25519 _ r).mpr ⟨fits, rfl⟩
  have accepted : r.validate ed25519 = .ok () := by decide +kernel
  have written : endpoint.authority = "127.0.0.1:5300".toList := by decide +kernel
  have read := Endpoint.printed_endpoint_reads_iff ed25519 r.encode r endpoint decoded accepted (List.mem_singleton_self endpoint)
  rw [written] at read
  exact ⟨accepted, read.mpr trivial⟩

end Sqns
