import Eipc.Lib.Json

/-!
# Flat JSON objects with numbers and lists

The objects of `Eipc.Lib.Json` hold strings and natural numbers. Here a value may also be
any number, kept as the text it is written with, or a list of strings. As there, texts are
compact.

An array and an object are both lists of items between two brackets, with commas in between
(`Json.writeList`). Such a list is read back if its items are (`Json.readList_writeList`), and
this is all that the two of them need (`Json.Flat.readObject_writeObject`).
-/

open Bytes

namespace Json

/-! ## Lists in brackets -/

section Items

variable {α : Type} {write : α → Bytes} {read : Bytes → Option (α × Bytes)} {opening close : UInt8}

/-- What follows the first item of a list. -/
def writeItems (write : α → Bytes) (close : UInt8) : List α → Bytes
  | [] => [close]
  | a :: as => 0x2c :: write a ++ writeItems write close as

/-- The items, between brackets. -/
def writeList (write : α → Bytes) (opening close : UInt8) : List α → Bytes
  | [] => [opening, close]
  | a :: as => opening :: write a ++ writeItems write close as

/-- The number bounds how many items are read. -/
def readItems (read : Bytes → Option (α × Bytes)) (close : UInt8) :
    ℕ → Bytes → Option (List α × Bytes)
  | 0, _ => none
  | _ + 1, [] => none
  | n + 1, b :: rest =>
    if b = close then some ([], rest)
    else if b = 0x2c then
      (read rest).bind fun (a, r) => (readItems read close n r).map fun (as, r) => (a :: as, r)
    else none

/-- A list, and what is left of the text. -/
def readList (read : Bytes → Option (α × Bytes)) (opening close : UInt8) :
    Bytes → Option (List α × Bytes)
  | b :: c :: rest =>
    if b ≠ opening then none
    else if c = close then some ([], rest)
    else
      (read (c :: rest)).bind fun (a, r) =>
        (readItems read close (r.length + 1) r).map fun (as, r) => (a :: as, r)
  | _ => none

/-- What is asked of an item: it does not start like the end of the list, and it is read back
from in front of a comma or the end. -/
structure IsItem (write : α → Bytes) (read : Bytes → Option (α × Bytes)) (close : UInt8) (a : α) :
    Prop where
  starts : ∃ b t, write a = b :: t ∧ b ≠ close
  reads : ∀ b t, b = 0x2c ∨ b = close → read (write a ++ b :: t) = some (a, b :: t)

/-- An item is followed by a comma or by the end. -/
theorem exists_writeItems (write : α → Bytes) (close : UInt8) (as : List α) (t : Bytes) :
    ∃ b t', writeItems write close as ++ t = b :: t' ∧ (b = 0x2c ∨ b = close) := by
  cases as with
  | nil => exact ⟨close, t, rfl, .inr rfl⟩
  | cons a as => exact ⟨0x2c, _, rfl, .inl rfl⟩

theorem length_lt_writeItems (write : α → Bytes) (close : UInt8) (as : List α) :
    as.length < (writeItems write close as).length := by
  induction as with
  | nil => exact Nat.one_pos
  | cons a as ih =>
    rw [writeItems, List.cons_append, List.length_cons, List.length_cons, List.length_append]
    exact Nat.succ_lt_succ (ih.trans_le (Nat.le_add_left _ _))

theorem readItems_writeItems {as : List α} (hclose : close ≠ 0x2c)
    (h : ∀ a ∈ as, IsItem write read close a) {n : ℕ} (hn : as.length < n) (t : Bytes) :
    readItems read close n (writeItems write close as ++ t) = some (as, t) := by
  induction as generalizing n with
  | nil =>
    obtain ⟨n, rfl⟩ : ∃ m, n = m + 1 := Nat.exists_eq_succ_of_ne_zero (Nat.ne_zero_of_lt hn)
    show (if close = close then some ([], t) else _) = _
    rw [if_pos rfl]
  | cons a as ih =>
    obtain ⟨n, rfl⟩ : ∃ m, n = m + 1 := Nat.exists_eq_succ_of_ne_zero (Nat.ne_zero_of_lt hn)
    have hrest := ih (fun b hb => h b (List.mem_cons_of_mem a hb)) (Nat.lt_of_succ_lt_succ hn)
    obtain ⟨b, t', htext, hb⟩ := exists_writeItems write close as t
    show readItems read close (n + 1) (0x2c :: (write a ++ writeItems write close as ++ t)) = _
    rw [readItems, if_neg hclose.symm, if_pos rfl, List.append_assoc, htext,
      (h a List.mem_cons_self).reads b t' hb, Option.bind_some, ← htext]
    dsimp only
    rw [hrest]
    rfl

/-- **A list is read back**, if its items are. -/
theorem readList_writeList (opening : UInt8) {as : List α} (hclose : close ≠ 0x2c)
    (h : ∀ a ∈ as, IsItem write read close a) (t : Bytes) :
    readList read opening close (writeList write opening close as ++ t) = some (as, t) := by
  cases as with
  | nil =>
    show (if opening ≠ opening then none else if close = close then _ else _) = _
    rw [if_neg (not_not.mpr rfl), if_pos rfl]
    rfl
  | cons a as =>
    obtain ⟨⟨c, u, hstart, hc⟩, hreads⟩ := h a List.mem_cons_self
    obtain ⟨b, t', htext, hb⟩ := exists_writeItems write close as t
    have hlen : (writeItems write close as).length ≤ (b :: t').length := by
      rw [← htext, List.length_append]
      exact Nat.le_add_right _ _
    have hread := hreads b t' hb
    show readList read opening close (opening :: (write a ++ writeItems write close as ++ t)) = _
    rw [List.append_assoc, htext]
    rw [hstart] at hread ⊢
    rw [List.cons_append] at hread ⊢
    rw [readList, if_neg (not_not.mpr rfl), if_neg hc, hread, Option.bind_some]
    dsimp only
    rw [← htext, readItems_writeItems hclose (fun a' ha' => h a' (List.mem_cons_of_mem a ha'))
      (Nat.lt_succ_of_lt ((length_lt_writeItems write close as).trans_le (htext ▸ hlen))) t]
    rfl

end Items

/-- A string with its quotes. -/
def readQuoted : Bytes → Option (Bytes × Bytes)
  | [] => none
  | b :: rest => if b = 0x22 then readString rest else none

theorem readQuoted_quote {s : Bytes} (h : ValidUTF8 s) (t : Bytes) :
    readQuoted (quote s ++ t) = some (s, t) := by
  show (if (0x22 : UInt8) = 0x22 then readString (escape s ++ [0x22] ++ t) else none) = _
  rw [if_pos rfl, List.append_assoc, List.singleton_append, readString_escape h]

/-- A string is an item of a list in square brackets. -/
theorem isItem_quote {s : Bytes} (h : ValidUTF8 s) : IsItem quote readQuoted 0x5d s where
  starts := ⟨0x22, _, rfl, by decide⟩
  reads b t _ := readQuoted_quote h (b :: t)

/-! ## Numbers -/

/-- The bytes that a number is made of. -/
def isNumberByte (b : UInt8) : Bool :=
  isDigit b || b == 0x2d || b == 0x2b || b == 0x2e || b == 0x65 || b == 0x45

/-- What may follow the integer and the fraction of a number. -/
def isExponent : Bytes → Bool
  | [] => true
  | e :: s =>
    let ds := if s.head? = some 0x2d ∨ s.head? = some 0x2b then s.tail else s
    (e == 0x65 || e == 0x45) && !ds.isEmpty && ds.all isDigit

/-- What may follow the integer of a number. -/
def isFraction (s : Bytes) : Bool :=
  if s.head? = some 0x2e then
    !(s.tail.takeWhile isDigit).isEmpty && isExponent (s.tail.dropWhile isDigit)
  else isExponent s

/-- A number, as JSON has it: no sign but a minus, no leading zeros. -/
def isNumber (s : Bytes) : Bool :=
  match if s.head? = some 0x2d then s.tail else s with
  | [] => false
  | d :: s => isDigit d && isFraction (if d = 0x30 then s else s.dropWhile isDigit)

/-! ## Values and objects -/

/-- A string, a number or a list of strings. -/
inductive Flat where
  | str (s : Bytes)
  | num (text : Bytes)
  | strs (ss : List Bytes)
  deriving DecidableEq

namespace Flat

def write : Flat → Bytes
  | .str s => quote s
  | .num text => text
  | .strs ss => writeList quote 0x5b 0x5d ss

def read : Bytes → Option (Flat × Bytes)
  | [] => none
  | b :: rest =>
    if b = 0x22 then (readString rest).map fun (s, r) => (.str s, r)
    else if b = 0x5b then
      (readList readQuoted 0x5b 0x5d (b :: rest)).map fun (ss, r) => (.strs ss, r)
    else
      let text := (b :: rest).takeWhile isNumberByte
      if isNumber text then some (.num text, (b :: rest).dropWhile isNumberByte) else none

/-- The value can be written: strings are valid UTF-8, and a number is one. -/
def Valid : Flat → Prop
  | .str s => ValidUTF8 s
  | .num text => isNumber text = true ∧ text.all isNumberByte = true
  | .strs ss => ∀ s ∈ ss, ValidUTF8 s

theorem read_number {text : Bytes} (hnum : isNumber text = true)
    (hall : text.all isNumberByte = true) {b : UInt8} (hb : isNumberByte b = false) (t : Bytes) :
    read (text ++ b :: t) = some (.num text, b :: t) := by
  have hmem : ∀ c ∈ text, isNumberByte c = true := List.all_eq_true.mp hall
  have htake : (text ++ b :: t).takeWhile isNumberByte = text := by
    rw [List.takeWhile_append_of_pos hmem, List.takeWhile_cons_of_neg (by rw [hb]; decide),
      List.append_nil]
  have hdrop : (text ++ b :: t).dropWhile isNumberByte = b :: t := by
    rw [List.dropWhile_append_of_pos hmem, List.dropWhile_cons_of_neg (by rw [hb]; decide)]
  cases text with
  | nil => cases hnum
  | cons d ds =>
    have hd := hmem d List.mem_cons_self
    have hquote : d ≠ 0x22 := by
      rintro rfl
      exact absurd hd (by decide)
    have hbracket : d ≠ 0x5b := by
      rintro rfl
      exact absurd hd (by decide)
    rw [List.cons_append] at htake hdrop ⊢
    rw [read, if_neg hquote, if_neg hbracket]
    dsimp only
    rw [htake, hdrop, if_pos hnum]

/-- **A value is read back** from in front of a comma or a brace. -/
theorem read_write {v : Flat} (hv : v.Valid) {b : UInt8} (hb : b = 0x2c ∨ b = 0x7d) (t : Bytes) :
    read (v.write ++ b :: t) = some (v, b :: t) := by
  cases v with
  | str s =>
    show read (0x22 :: (escape s ++ [0x22] ++ b :: t)) = _
    rw [read, if_pos rfl, List.append_assoc, List.singleton_append, readString_escape hv]
    rfl
  | num text =>
    refine read_number hv.1 hv.2 ?_ t
    rcases hb with rfl | rfl
    · decide
    · decide
  | strs ss =>
    have hlist := readList_writeList 0x5b (by decide)
      (fun s hs => isItem_quote (hv s hs)) (b :: t)
    obtain ⟨u, hu⟩ : ∃ u, writeList quote 0x5b 0x5d ss ++ b :: t = 0x5b :: u := by
      cases ss with
      | nil => exact ⟨_, rfl⟩
      | cons s ss => exact ⟨_, rfl⟩
    show read (writeList quote 0x5b 0x5d ss ++ b :: t) = _
    rw [hu] at hlist ⊢
    rw [read, if_neg (by decide), if_pos rfl, hlist]
    rfl

/-- A member of an object. -/
def writeMember (kv : Bytes × Flat) : Bytes := quote kv.1 ++ 0x3a :: kv.2.write

def readMember (s : Bytes) : Option ((Bytes × Flat) × Bytes) :=
  (readQuoted s).bind fun (key, r) =>
    if r.head? = some 0x3a then (read r.tail).map fun (v, r) => ((key, v), r) else none

/-- A member is an item of a list in braces. -/
theorem isItem_writeMember {kv : Bytes × Flat} (hk : ValidUTF8 kv.1) (hv : kv.2.Valid) :
    IsItem writeMember readMember 0x7d kv where
  starts := ⟨0x22, _, rfl, by decide⟩
  reads b t hb := by
    unfold readMember writeMember
    rw [List.append_assoc, readQuoted_quote hk, Option.bind_some]
    show (read (kv.2.write ++ b :: t)).map _ = _
    rw [read_write hv hb]
    rfl

/-- The text of an object. -/
def writeObject (kvs : List (Bytes × Flat)) : Bytes := writeList writeMember 0x7b 0x7d kvs

/-- The members of an object, if the text is one. -/
def readObject (s : Bytes) : Option (List (Bytes × Flat)) :=
  (readList readMember 0x7b 0x7d s).bind fun (kvs, r) => if r = [] then some kvs else none

/-- **An object is read back**, when the strings are valid UTF-8 and the numbers are numbers. -/
theorem readObject_writeObject {kvs : List (Bytes × Flat)}
    (h : ∀ kv ∈ kvs, ValidUTF8 kv.1 ∧ kv.2.Valid) : readObject (writeObject kvs) = some kvs := by
  have hlist := readList_writeList 0x7b (by decide)
    (fun kv hkv => isItem_writeMember (h kv hkv).1 (h kv hkv).2) []
  rw [List.append_nil] at hlist
  unfold readObject writeObject
  rw [hlist]
  rfl

/-- The values of `Eipc.Lib.Json` are among these. -/
def ofValue : Value → Flat
  | .str s => .str s
  | .num n => .num (decimal n)

theorem write_ofValue (v : Value) : (ofValue v).write = v.write := by
  cases v with
  | str s => rfl
  | num n => rfl

theorem writeItems_ofValue (kvs : List (Bytes × Value)) :
    writeItems writeMember 0x7d (kvs.map fun kv => (kv.1, ofValue kv.2)) = writeMembers kvs := by
  induction kvs with
  | nil => rfl
  | cons kv kvs ih =>
    show 0x2c :: (quote kv.1 ++ 0x3a :: (ofValue kv.2).write) ++ writeItems _ _ _ = _
    rw [ih, write_ofValue]
    rfl

/-- An object of strings and natural numbers is written the same way. -/
theorem writeObject_ofValue (kvs : List (Bytes × Value)) :
    writeObject (kvs.map fun kv => (kv.1, ofValue kv.2)) = Json.writeObject kvs := by
  cases kvs with
  | nil => rfl
  | cons kv kvs =>
    show 0x7b :: (quote kv.1 ++ 0x3a :: (ofValue kv.2).write) ++ writeItems _ _ _ = _
    rw [writeItems_ofValue, write_ofValue]
    rfl

end Flat

/-! ## Lengths -/

theorem length_escapeByte_le (b : UInt8) : (escapeByte b).length ≤ 6 := by
  have hdigits : ∀ d e : UInt8, (ascii "\\u00" ++ [d, e]).length = 6 := fun _ _ => rfl
  unfold escapeByte
  split_ifs
  · exact Nat.le_add_left 2 4
  · decide
  · decide
  · decide
  · decide
  · decide
  · exact (hdigits _ _).le
  · exact Nat.le_add_left 1 5

theorem length_escapeRune_le (c : Char) : (escapeRune c).length ≤ 6 := by
  unfold escapeRune
  split_ifs
  · decide
  · decide
  · rw [String.length_utf8EncodeChar]
    exact c.utf8Size_le_four.trans (by decide)

/-- An escaped string is at most six times as long. -/
theorem length_escape_le (s : Bytes) : (escape s).length ≤ 6 * s.length := by
  induction hn : s.length using Nat.strong_induction_on generalizing s with
  | _ n ih =>
    cases s with
    | nil =>
      rw [escape]
      exact Nat.zero_le _
    | cons b rest =>
      rw [List.length_cons] at hn
      have hrest : ∀ t : Bytes, t.length ≤ rest.length → (escape t).length ≤ 6 * rest.length :=
        fun t ht => (ih t.length (by omega) t rfl).trans (Nat.mul_le_mul_left 6 ht)
      rw [escape]
      split_ifs
      · rw [List.length_append]
        have := hrest rest (Nat.le_refl _)
        have := length_escapeByte_le b
        omega
      · cases decodeRune (b :: rest) with
        | none =>
          have := hrest rest (Nat.le_refl _)
          rw [List.length_append]
          show 6 + _ ≤ _
          omega
        | some c =>
          have := hrest (rest.drop (c.utf8Size - 1))
            ((List.length_drop).trans_le (Nat.sub_le _ _))
          have := length_escapeRune_le c
          dsimp only
          rw [List.length_append]
          omega

theorem length_quote_le (s : Bytes) : (quote s).length ≤ 6 * s.length + 2 := by
  have := length_escape_le s
  show (0x22 :: escape s ++ [0x22]).length ≤ _
  rw [List.length_append, List.length_cons, List.length_singleton]
  omega

theorem length_writeItems {α : Type} (write : α → Bytes) (close : UInt8) (as : List α) :
    (writeItems write close as).length = (as.map fun a => (write a).length + 1).sum + 1 := by
  induction as with
  | nil => rfl
  | cons a as ih =>
    rw [writeItems, List.cons_append, List.length_cons, List.length_append, ih, List.map_cons,
      List.sum_cons]
    omega

/-- How long a list is. -/
theorem length_writeList_le {α : Type} (write : α → Bytes) (opening close : UInt8) (as : List α) :
    (writeList write opening close as).length ≤ (as.map fun a => (write a).length + 1).sum + 2 := by
  cases as with
  | nil => exact Nat.le_refl _
  | cons a as =>
    rw [writeList, List.cons_append, List.length_cons, List.length_append, length_writeItems,
      List.map_cons, List.sum_cons]
    omega

namespace Flat

theorem length_writeMember_str_le (key s : Bytes) :
    (writeMember (key, .str s)).length ≤ 6 * key.length + 6 * s.length + 5 := by
  have hkey := length_quote_le key
  have hs := length_quote_le s
  show (quote key ++ 0x3a :: quote s).length ≤ _
  rw [List.length_append, List.length_cons]
  omega

theorem length_writeObject_le (kvs : List (Bytes × Flat)) :
    (writeObject kvs).length ≤ (kvs.map fun kv => (writeMember kv).length + 1).sum + 2 :=
  length_writeList_le writeMember 0x7b 0x7d kvs

end Flat

end Json
