import Eipc.Lib.Wire

/-!
# Flat JSON objects

The compact JSON text of an object whose values are strings and unsigned
numbers, byte for byte as a serializer that escapes for HTML writes it: strings
in UTF-8 with quote, backslash, control bytes, `<`, `>`, `&` and the two Unicode
line separators escaped, and invalid UTF-8 replaced. The reader takes such a text
apart again, and undoes the writer on objects whose strings are valid UTF-8
(`Json.readObject_writeObject`).
-/

open Bytes

namespace Json

/-- Valid UTF-8: the encoding of some sequence of characters. -/
def ValidUTF8 (s : Bytes) : Prop := ∃ cs : List Char, s = cs.flatMap String.utf8EncodeChar

theorem validUTF8_nil : ValidUTF8 [] := ⟨[], rfl⟩

/-- A byte of ASCII is the encoding of a character. -/
theorem utf8EncodeChar_ofNat :
    ∀ n < 128, String.utf8EncodeChar (Char.ofNat n) = [UInt8.ofNat n] := by
  decide

/-- A string of ASCII bytes is valid UTF-8. -/
theorem validUTF8_of_ascii {s : Bytes} (h : s.all (· < 0x80) = true) : ValidUTF8 s := by
  rw [List.all_eq_true] at h
  refine ⟨s.map fun b => Char.ofNat b.toNat, ?_⟩
  induction s with
  | nil => rfl
  | cons b s ih =>
    have hb := UInt8.lt_iff_toNat_lt.mp (of_decide_eq_true (h b List.mem_cons_self))
    rw [List.map_cons, List.flatMap_cons, utf8EncodeChar_ofNat b.toNat hb, UInt8.ofNat_toNat,
      ← ih fun c hc => h c (List.mem_cons_of_mem b hc)]
    rfl

/-! ## Numbers -/

/-- A decimal digit. -/
def digit (n : ℕ) : UInt8 := UInt8.ofNat (0x30 + n)

def isDigit (b : UInt8) : Bool := 0x30 ≤ b && b ≤ 0x39

/-- The decimal digits of a number. -/
def decimal (n : ℕ) : Bytes :=
  if n < 10 then [digit n] else decimal (n / 10) ++ [digit (n % 10)]

/-- The number some decimal digits stand for. -/
def ofDecimal (ds : Bytes) : ℕ := ds.foldl (fun acc d => 10 * acc + (d.toNat - 0x30)) 0

theorem toNat_digit {n : ℕ} (h : n < 10) : (digit n).toNat = 0x30 + n := by
  rw [digit, UInt8.toNat_ofNat']
  omega

theorem isDigit_digit {n : ℕ} (h : n < 10) : isDigit (digit n) = true := by
  rw [isDigit, Bool.and_eq_true, decide_eq_true_iff, decide_eq_true_iff, UInt8.le_iff_toNat_le,
    UInt8.le_iff_toNat_le, toNat_digit h]
  show 48 ≤ 48 + n ∧ 48 + n ≤ 57
  omega

theorem isDigit_of_mem_decimal (n : ℕ) : ∀ b ∈ decimal n, isDigit b = true := by
  induction n using decimal.induct with
  | case1 n h =>
    rw [decimal, if_pos h]
    exact List.forall_mem_singleton.mpr (isDigit_digit h)
  | case2 n h ih =>
    rw [decimal, if_neg h]
    exact List.forall_mem_append.mpr
      ⟨ih, List.forall_mem_singleton.mpr (isDigit_digit (Nat.mod_lt _ (by decide)))⟩

theorem decimal_ne_nil (n : ℕ) : decimal n ≠ [] := by
  rw [decimal]
  split <;> simp

theorem ofDecimal_decimal (n : ℕ) : ofDecimal (decimal n) = n := by
  induction n using decimal.induct with
  | case1 n h =>
    rw [decimal, if_pos h, ofDecimal, List.foldl_cons, List.foldl_nil, toNat_digit h]
    omega
  | case2 n h ih =>
    have hmod : n % 10 < 10 := Nat.mod_lt _ (by decide)
    rw [ofDecimal] at ih
    rw [decimal, if_neg h, ofDecimal, List.foldl_append, ih, List.foldl_cons, List.foldl_nil,
      toNat_digit hmod]
    omega

/-- A number below `10 ^ k` has at most `k` digits. -/
theorem length_decimal_le (n : ℕ) : ∀ {k : ℕ}, 0 < k → n < 10 ^ k → (decimal n).length ≤ k := by
  induction n using decimal.induct with
  | case1 n h =>
    intro k hk _
    rw [decimal, if_pos h]
    exact hk
  | case2 n h ih =>
    intro k hk hlt
    obtain ⟨k, rfl⟩ := Nat.exists_eq_add_of_lt hk
    rw [zero_add] at hlt ⊢
    have hdiv : n / 10 < 10 ^ k := Nat.div_lt_of_lt_mul (by rwa [pow_succ, mul_comm] at hlt)
    have hpos : 0 < k := by
      by_contra hzero
      rw [Nat.eq_zero_of_not_pos hzero, zero_add, pow_one] at hlt
      exact h hlt
    rw [decimal, if_neg h, List.length_append, List.length_singleton]
    exact Nat.succ_le_succ (ih hpos hdiv)

/-! ## Strings -/

/-- How an ASCII byte is written inside a string. -/
def escapeByte (b : UInt8) : Bytes :=
  if b = 0x5c ∨ b = 0x22 then [0x5c, b]
  else if b = 0x08 then ascii "\\b"
  else if b = 0x0c then ascii "\\f"
  else if b = 0x0a then ascii "\\n"
  else if b = 0x0d then ascii "\\r"
  else if b = 0x09 then ascii "\\t"
  else if b < 0x20 ∨ b = 0x3c ∨ b = 0x3e ∨ b = 0x26 then
    ascii "\\u00" ++ [hexDigit (b.toNat / 16), hexDigit (b.toNat % 16)]
  else [b]

/-- How a character beyond ASCII is written inside a string. -/
def escapeRune (c : Char) : Bytes :=
  if c.toNat = 0x2028 then ascii "\\u2028"
  else if c.toNat = 0x2029 then ascii "\\u2029"
  else String.utf8EncodeChar c

/-- The character a byte string starts with, if it starts with a valid one. -/
def decodeRune (s : Bytes) : Option Char := ByteArray.utf8DecodeChar? s.toByteArray 0

/-- The inside of a string literal; a byte that starts no valid character is
written as the replacement character. -/
def escape : Bytes → Bytes
  | [] => []
  | b :: rest =>
    if b < 0x80 then escapeByte b ++ escape rest
    else
      match decodeRune (b :: rest) with
      | none => ascii "\\ufffd" ++ escape rest
      | some c => escapeRune c ++ escape (rest.drop (c.utf8Size - 1))
termination_by s => s.length

/-- A string literal. -/
def quote (s : Bytes) : Bytes := 0x22 :: escape s ++ [0x22]

/-- The byte a one-letter escape stands for. -/
def unescapeByte (e : UInt8) : Option UInt8 :=
  if e = 0x22 ∨ e = 0x5c ∨ e = 0x2f then some e
  else if e = 0x62 then some 0x08
  else if e = 0x66 then some 0x0c
  else if e = 0x6e then some 0x0a
  else if e = 0x72 then some 0x0d
  else if e = 0x74 then some 0x09
  else none

/-- The character a four-digit escape stands for; surrogates are not read. -/
def unescapeRune (a b c d : UInt8) : Option Bytes := do
  let n := ((← hexValue a) * 16 + (← hexValue b)) * 256 + (← hexValue c) * 16 + (← hexValue d)
  if 0xd800 ≤ n ∧ n < 0xe000 then none else some (String.utf8EncodeChar (Char.ofNat n))

/-- Reads the inside of a string literal up to its closing quote: the string,
and what follows. -/
def readString : Bytes → Option (Bytes × Bytes)
  | [] => none
  | b :: rest =>
    if b = 0x22 then some ([], rest)
    else if b = 0x5c then
      match rest with
      | [] => none
      | e :: rest =>
        if e = 0x75 then
          match rest with
          | h₁ :: h₂ :: h₃ :: h₄ :: rest =>
            (unescapeRune h₁ h₂ h₃ h₄).bind fun c =>
              (readString rest).map fun (s, r) => (c ++ s, r)
          | _ => none
        else
          (unescapeByte e).bind fun c => (readString rest).map fun (s, r) => (c :: s, r)
    else if b < 0x20 then none
    else (readString rest).map fun (s, r) => (b :: s, r)

/-! ## The reader undoes the writer on strings -/

/-- How a character is written inside a string. -/
def escapeChar (c : Char) : Bytes :=
  if c.utf8Size = 1 then escapeByte c.toUInt8 else escapeRune c

theorem utf8EncodeChar_of_ascii {c : Char} (h : c.utf8Size = 1) :
    String.utf8EncodeChar c = [c.toUInt8] ∧ c.toUInt8 < 0x80 := by
  refine ⟨String.utf8EncodeChar_eq_singleton h, ?_⟩
  rw [Char.utf8Size_eq_one_iff, UInt32.le_iff_toNat_le] at h
  rw [UInt8.lt_iff_toNat_lt]
  show c.val.toNat % 256 < 128
  exact (Nat.mod_le _ _).trans_lt (Nat.lt_succ_of_le h)

/-- Every byte of a character beyond ASCII is beyond ASCII. -/
theorem not_lt_of_mem_utf8EncodeChar {c : Char} (h : c.utf8Size ≠ 1) :
    ∀ b ∈ String.utf8EncodeChar c, ¬b < 0x80 := by
  have hbyte : ∀ n, 128 ≤ n → n < 256 → ¬UInt8.ofNat n < 0x80 := by
    intro n hle hlt
    rw [UInt8.lt_iff_toNat_lt, UInt8.toNat_ofNat', Nat.mod_eq_of_lt hlt]
    exact not_lt.mpr hle
  rw [Ne, Char.utf8Size_eq_one_iff, UInt32.le_iff_toNat_le] at h
  have hascii : ¬c.val.toNat ≤ 127 := h
  intro b hb
  simp only [String.utf8EncodeChar, if_neg hascii] at hb
  split at hb
  · simp only [List.mem_cons, List.not_mem_nil, or_false] at hb
    rcases hb with rfl | rfl <;> exact hbyte _ (by omega) (by omega)
  · split at hb <;> simp only [List.mem_cons, List.not_mem_nil, or_false] at hb
    · rcases hb with rfl | rfl | rfl <;> exact hbyte _ (by omega) (by omega)
    · rcases hb with rfl | rfl | rfl | rfl <;> exact hbyte _ (by omega) (by omega)

theorem decodeRune_append (c : Char) (t : Bytes) :
    decodeRune (String.utf8EncodeChar c ++ t) = some c := by
  rw [decodeRune, List.toByteArray_append]
  exact ByteArray.utf8DecodeChar?_utf8EncodeChar_append

theorem escape_append (c : Char) (t : Bytes) :
    escape (String.utf8EncodeChar c ++ t) = escapeChar c ++ escape t := by
  by_cases h : c.utf8Size = 1
  · obtain ⟨henc, hlt⟩ := utf8EncodeChar_of_ascii h
    rw [henc, List.singleton_append, escape, if_pos hlt, escapeChar, if_pos h]
  · have hdec := decodeRune_append c t
    have hlen := String.length_utf8EncodeChar c
    have hbytes := not_lt_of_mem_utf8EncodeChar h
    cases henc : String.utf8EncodeChar c with
    | nil =>
      rw [henc, List.length_nil] at hlen
      exact absurd hlen c.utf8Size_pos.ne
    | cons b bs =>
      rw [henc] at hdec hlen hbytes
      have hdrop : (bs ++ t).drop (c.utf8Size - 1) = t := by
        rw [← hlen, List.length_cons, Nat.add_sub_cancel, List.drop_left]
      rw [List.cons_append] at hdec ⊢
      rw [escape, if_neg (hbytes b List.mem_cons_self), hdec, escapeChar, if_neg h]
      show escapeRune c ++ escape ((bs ++ t).drop (c.utf8Size - 1)) = _
      rw [hdrop]

theorem escape_flatMap (cs : List Char) :
    escape (cs.flatMap String.utf8EncodeChar) = cs.flatMap escapeChar := by
  induction cs with
  | nil => rw [List.flatMap_nil, List.flatMap_nil, escape]
  | cons c cs ih => rw [List.flatMap_cons, List.flatMap_cons, escape_append, ih]

/-- A four-digit escape of an ASCII byte stands for that byte. -/
theorem unescapeRune_hexDigit : ∀ n < 128,
    unescapeRune 0x30 0x30 (hexDigit (n / 16)) (hexDigit (n % 16)) = some [UInt8.ofNat n] := by
  decide

theorem readString_plain {b : UInt8} (hquote : b ≠ 0x22) (hslash : b ≠ 0x5c) (hctl : ¬b < 0x20)
    (t : Bytes) : readString (b :: t) = (readString t).map fun (s, r) => (b :: s, r) := by
  rw [readString.eq_def]
  show (if b = 0x22 then _ else if b = 0x5c then _ else if b < 0x20 then _ else _) = _
  rw [if_neg hquote, if_neg hslash, if_neg hctl]

theorem readString_letter {e b : UInt8} (hu : e ≠ 0x75) (h : unescapeByte e = some b)
    (t : Bytes) : readString (0x5c :: e :: t) = (readString t).map fun (s, r) => (b :: s, r) := by
  rw [readString.eq_def]
  show (if e = 0x75 then _ else _) = _
  rw [if_neg hu, h, Option.bind_some]

theorem readString_hex {a b c d : UInt8} {u : Bytes} (h : unescapeRune a b c d = some u)
    (t : Bytes) :
    readString (0x5c :: 0x75 :: a :: b :: c :: d :: t)
      = (readString t).map fun (s, r) => (u ++ s, r) := by
  rw [readString.eq_def]
  show (unescapeRune a b c d).bind _ = _
  rw [h, Option.bind_some]

theorem readString_escapeByte {b : UInt8} (h : b < 0x80) (t : Bytes) :
    readString (escapeByte b ++ t) = (readString t).map fun (s, r) => (b :: s, r) := by
  unfold escapeByte
  split_ifs with h₁ h₂ h₃ h₄ h₅ h₆ h₇
  · rcases h₁ with rfl | rfl <;> exact readString_letter (by decide) (by decide) t
  · subst h₂
    exact readString_letter (by decide) (by decide) t
  · subst h₃
    exact readString_letter (by decide) (by decide) t
  · subst h₄
    exact readString_letter (by decide) (by decide) t
  · subst h₅
    exact readString_letter (by decide) (by decide) t
  · subst h₆
    exact readString_letter (by decide) (by decide) t
  · have hhex := unescapeRune_hexDigit b.toNat (UInt8.lt_iff_toNat_lt.mp h)
    rw [UInt8.ofNat_toNat] at hhex
    exact readString_hex hhex t
  · rw [not_or] at h₁ h₇
    exact readString_plain h₁.2 h₁.1 h₇.1 t

theorem readString_of_not_ascii {bs : Bytes} (h : ∀ b ∈ bs, ¬b < 0x80) (t : Bytes) :
    readString (bs ++ t) = (readString t).map fun (s, r) => (bs ++ s, r) := by
  induction bs with
  | nil => simp
  | cons b bs ih =>
    have hb := h b List.mem_cons_self
    have hne : ∀ {c : UInt8}, c < 0x80 → b ≠ c := fun hc heq => hb (heq ▸ hc)
    have hctl : ¬b < 0x20 := fun hlt => hb (UInt8.lt_trans hlt (by decide))
    rw [List.cons_append, readString_plain (hne (by decide)) (hne (by decide)) hctl,
      ih fun c hc => h c (List.mem_cons_of_mem b hc), Option.map_map]
    rfl

theorem readString_escapeRune {c : Char} (h : c.utf8Size ≠ 1) (t : Bytes) :
    readString (escapeRune c ++ t)
      = (readString t).map fun (s, r) => (String.utf8EncodeChar c ++ s, r) := by
  unfold escapeRune
  split_ifs with h₁ h₂
  · have hc : c = Char.ofNat 0x2028 := by rw [← h₁, Char.ofNat_toNat]
    subst hc
    exact readString_hex (by decide) t
  · have hc : c = Char.ofNat 0x2029 := by rw [← h₂, Char.ofNat_toNat]
    subst hc
    exact readString_hex (by decide) t
  · exact readString_of_not_ascii (not_lt_of_mem_utf8EncodeChar h) t

theorem readString_escapeChar (c : Char) (t : Bytes) :
    readString (escapeChar c ++ t)
      = (readString t).map fun (s, r) => (String.utf8EncodeChar c ++ s, r) := by
  unfold escapeChar
  split_ifs with h
  · obtain ⟨henc, hlt⟩ := utf8EncodeChar_of_ascii h
    rw [henc]
    exact readString_escapeByte hlt t
  · exact readString_escapeRune h t

/-- **A string literal reads back as the string it was written from.** -/
theorem readString_escape {s : Bytes} (h : ValidUTF8 s) (t : Bytes) :
    readString (escape s ++ 0x22 :: t) = some (s, t) := by
  obtain ⟨cs, rfl⟩ := h
  rw [escape_flatMap]
  induction cs with
  | nil =>
    rw [List.flatMap_nil, List.flatMap_nil, List.nil_append, readString.eq_def]
    rfl
  | cons c cs ih =>
    rw [List.flatMap_cons, List.append_assoc, readString_escapeChar, ih]
    rfl

/-! ## Objects -/

/-- A value of a flat object. -/
inductive Value where
  | str (s : Bytes)
  | num (n : ℕ)
  deriving DecidableEq

/-- The text of a value. -/
def Value.write : Value → Bytes
  | .str s => quote s
  | .num n => decimal n

/-- A value whose text, if it is a string, is valid UTF-8. -/
def Value.Valid : Value → Prop
  | .str s => ValidUTF8 s
  | .num _ => True

/-- A key and its value. -/
def writeMember (kv : Bytes × Value) : Bytes := quote kv.1 ++ 0x3a :: kv.2.write

/-- The members that follow the first one, and the closing brace. -/
def writeMembers : List (Bytes × Value) → Bytes
  | [] => [0x7d]
  | kv :: kvs => 0x2c :: writeMember kv ++ writeMembers kvs

/-- The text of an object. -/
def writeObject : List (Bytes × Value) → Bytes
  | [] => [0x7b, 0x7d]
  | kv :: kvs => 0x7b :: writeMember kv ++ writeMembers kvs

/-- Reads a string or a number. -/
def readValue : Bytes → Option (Value × Bytes)
  | [] => none
  | b :: rest =>
    if b = 0x22 then (readString rest).map fun (s, r) => (.str s, r)
    else
      let ds := (b :: rest).takeWhile isDigit
      if ds = [] then none else some (.num (ofDecimal ds), (b :: rest).dropWhile isDigit)

/-- Reads a key, the colon and the value. -/
def readMember : Bytes → Option ((Bytes × Value) × Bytes)
  | [] => none
  | b :: rest =>
    if b = 0x22 then
      (readString rest).bind fun (key, r) =>
        if r.head? = some 0x3a then (readValue r.tail).map fun (v, r) => ((key, v), r) else none
    else none

/-- Reads the members that follow the first one, `n` at most, and the closing
brace. -/
def readMembers : ℕ → Bytes → Option (List (Bytes × Value) × Bytes)
  | 0, _ => none
  | _ + 1, [] => none
  | n + 1, b :: rest =>
    if b = 0x7d then some ([], rest)
    else if b = 0x2c then
      (readMember rest).bind fun (kv, r) =>
        (readMembers n r).map fun (kvs, r) => (kv :: kvs, r)
    else none

/-- Reads an object that is the whole text. -/
def readObject (s : Bytes) : Option (List (Bytes × Value)) :=
  if s = [0x7b, 0x7d] then some []
  else if s.head? = some 0x7b then
    (readMember s.tail).bind fun (kv, r) =>
      (readMembers s.length r).bind fun (kvs, r) => if r = [] then some (kv :: kvs) else none
  else none

/-- A number is read back when no digit follows it. -/
theorem readValue_decimal (n : ℕ) {b : UInt8} (hb : isDigit b = false) (t : Bytes) :
    readValue (decimal n ++ b :: t) = some (.num n, b :: t) := by
  have hall := isDigit_of_mem_decimal n
  have htake : (decimal n ++ b :: t).takeWhile isDigit = decimal n := by
    rw [List.takeWhile_append_of_pos hall, List.takeWhile_cons_of_neg (by rw [hb]; decide),
      List.append_nil]
  have hdrop : (decimal n ++ b :: t).dropWhile isDigit = b :: t := by
    rw [List.dropWhile_append_of_pos hall, List.dropWhile_cons_of_neg (by rw [hb]; decide)]
  cases hdec : decimal n with
  | nil => exact absurd hdec (decimal_ne_nil n)
  | cons d ds =>
    rw [hdec] at htake hdrop hall
    have hd : d ≠ 0x22 := by
      rintro rfl
      exact absurd (hall _ List.mem_cons_self) (by decide)
    rw [List.cons_append] at htake hdrop ⊢
    rw [readValue, if_neg hd]
    show (if List.takeWhile isDigit (d :: (ds ++ b :: t)) = [] then _ else _) = _
    rw [htake, hdrop, if_neg (List.cons_ne_nil d ds), ← hdec, ofDecimal_decimal]

theorem readValue_write {v : Value} (hv : v.Valid) {b : UInt8} (hb : isDigit b = false)
    (t : Bytes) : readValue (v.write ++ b :: t) = some (v, b :: t) := by
  cases v with
  | num n => exact readValue_decimal n hb t
  | str s =>
    show (readString (escape s ++ [0x22] ++ b :: t)).map _ = _
    rw [List.append_assoc, List.singleton_append, readString_escape hv]
    rfl

theorem readMember_writeMember {kv : Bytes × Value} (hk : ValidUTF8 kv.1) (hv : kv.2.Valid)
    {b : UInt8} (hb : isDigit b = false) (t : Bytes) :
    readMember (writeMember kv ++ b :: t) = some (kv, b :: t) := by
  have htext : writeMember kv ++ b :: t
      = 0x22 :: (escape kv.1 ++ 0x22 :: (0x3a :: (kv.2.write ++ b :: t))) := by
    simp [writeMember, quote]
  rw [htext, readMember, if_pos rfl, readString_escape hk, Option.bind_some]
  show (readValue (kv.2.write ++ b :: t)).map _ = _
  rw [readValue_write hv hb]
  rfl

/-- A text of members goes on with a comma or a brace, never with a digit. -/
theorem exists_writeMembers (kvs : List (Bytes × Value)) :
    ∃ b t, writeMembers kvs = b :: t ∧ isDigit b = false := by
  cases kvs with
  | nil => exact ⟨0x7d, [], rfl, by decide⟩
  | cons kv kvs => exact ⟨0x2c, _, rfl, by decide⟩

theorem readMembers_writeMembers {kvs : List (Bytes × Value)}
    (h : ∀ kv ∈ kvs, ValidUTF8 kv.1 ∧ kv.2.Valid) {n : ℕ} (hn : kvs.length < n) :
    readMembers n (writeMembers kvs) = some (kvs, []) := by
  induction kvs generalizing n with
  | nil =>
    obtain ⟨n, rfl⟩ := Nat.exists_eq_add_of_lt hn
    rfl
  | cons kv kvs ih =>
    obtain ⟨n, rfl⟩ : ∃ m, n = m + 1 := Nat.exists_eq_succ_of_ne_zero (by omega)
    obtain ⟨hk, hv⟩ := h kv List.mem_cons_self
    obtain ⟨b, t, htext, hb⟩ := exists_writeMembers kvs
    have hrest := ih (fun kv' hkv' => h kv' (List.mem_cons_of_mem kv hkv'))
      (Nat.lt_of_succ_lt_succ hn)
    rw [writeMembers, htext, List.cons_append, readMembers, if_neg (by decide), if_pos rfl,
      readMember_writeMember hk hv hb, Option.bind_some]
    show (readMembers n (b :: t)).map _ = _
    rw [← htext, hrest]
    rfl

theorem length_lt_writeMembers (kvs : List (Bytes × Value)) :
    kvs.length < (writeMembers kvs).length := by
  induction kvs with
  | nil => decide
  | cons kv kvs ih =>
    rw [writeMembers, List.length_append, List.length_cons, List.length_cons]
    omega

/-- **The reader undoes the writer**, when the strings are valid UTF-8. -/
theorem readObject_writeObject {kvs : List (Bytes × Value)}
    (h : ∀ kv ∈ kvs, ValidUTF8 kv.1 ∧ kv.2.Valid) :
    readObject (writeObject kvs) = some kvs := by
  cases kvs with
  | nil => rfl
  | cons kv kvs =>
    obtain ⟨hk, hv⟩ := h kv List.mem_cons_self
    obtain ⟨b, t, htext, hb⟩ := exists_writeMembers kvs
    have hne : writeObject (kv :: kvs) ≠ [0x7b, 0x7d] := by
      simp [writeObject, writeMember, quote]
    have hlen : kvs.length < (writeObject (kv :: kvs)).length := by
      rw [writeObject, List.length_append]
      exact (length_lt_writeMembers kvs).trans_le (Nat.le_add_left _ _)
    have hrest := readMembers_writeMembers
      (fun kv' hkv' => h kv' (List.mem_cons_of_mem kv hkv')) hlen
    have hhead : (writeObject (kv :: kvs)).head? = some 0x7b := rfl
    rw [readObject, if_neg hne, if_pos hhead]
    show (readMember (writeMember kv ++ writeMembers kvs)).bind _ = _
    rw [htext] at hrest ⊢
    rw [readMember_writeMember hk hv hb, Option.bind_some]
    dsimp only
    rw [hrest, Option.bind_some, if_pos rfl]

end Json
