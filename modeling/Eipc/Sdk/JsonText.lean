import Eipc.Lib.Search
import Eipc.Sdk.Receive

/-!
# What the C SDK's reader finds in a flat object

The reader of `sdk/c/src/eipc_json.c` looks for the first occurrence of a quoted key and takes
what follows it. Applied to the text of a flat object this is the member with that key, unless
the quoted key occurs before: at the end of an earlier string, where the string's closing quote
completes it. Such a string **hides** the key (`Written.Hides`), and what the reader then finds
after the key is the comma that follows the string.

A string is read up to a quote that no backslash precedes, so that what is read depends on how
the scan leaves the text between the quotes (`literalEnd`). `JsonField.readsBack_iff` puts the two
together: for a list of fields, written one after the other, it says when the reader gives every
one of them back.
-/

open Bytes CString Search

/-! ## String literals -/

/-- How the scan for the closing quote leaves the text between the quotes of a literal. -/
inductive LiteralEnd where
  /-- At its end, before the closing quote. -/
  | closed
  /-- At its end, after a backslash that takes the closing quote with it. -/
  | pending
  /-- At a quote in it. -/
  | stopped
  deriving DecidableEq

/-- A backslash takes the next byte with it, whatever that is; a quote ends the scan. -/
def literalEnd : Bytes → LiteralEnd
  | [] => .closed
  | b :: rest =>
    if b = 0x22 then .stopped
    else if b = 0x5c then
      match rest with
      | [] => .pending
      | _ :: rest => literalEnd rest
    else literalEnd rest

theorem literalEnd_nil : literalEnd [] = .closed := rfl

theorem literalEnd_quote (s : Bytes) : literalEnd (0x22 :: s) = .stopped := by
  cases s <;> rfl

theorem literalEnd_slash : literalEnd [0x5c] = .pending := rfl

theorem literalEnd_escape (e : UInt8) (s : Bytes) :
    literalEnd (0x5c :: e :: s) = literalEnd s := rfl

theorem literalEnd_plain {b : UInt8} (hquote : b ≠ 0x22) (hslash : b ≠ 0x5c) (s : Bytes) :
    literalEnd (b :: s) = literalEnd s := by
  rw [literalEnd.eq_def]
  show (if b = 0x22 then _ else if b = 0x5c then _ else _) = _
  rw [if_neg hquote, if_neg hslash]

theorem literalEnd_append_of_plain {u : Bytes} (h : ∀ b ∈ u, b ≠ 0x22 ∧ b ≠ 0x5c) (s : Bytes) :
    literalEnd (u ++ s) = literalEnd s := by
  induction u with
  | nil => rfl
  | cons b u ih =>
    rw [List.forall_mem_cons] at h
    rw [List.cons_append, literalEnd_plain h.1.1 h.1.2, ih h.2]

theorem jsonScanString_quote (s : Bytes) : jsonScanString (0x22 :: s) = [] := by
  cases s <;> rfl

theorem jsonScanString_escape (e : UInt8) (s : Bytes) :
    jsonScanString (0x5c :: e :: s) = 0x5c :: e :: jsonScanString s := rfl

theorem jsonScanString_plain {b : UInt8} (hquote : b ≠ 0x22) (hslash : b ≠ 0x5c) (s : Bytes) :
    jsonScanString (b :: s) = b :: jsonScanString s := by
  rw [jsonScanString.eq_def]
  show (if b = 0x22 then _ else if b = 0x5c then _ else _) = _
  rw [if_neg hquote, if_neg hslash]

/-- The steps of the scan: a quote, a backslash at the end, an escape, any other byte. -/
theorem literal_induction {P : Bytes → Prop} (nil : P []) (quote : ∀ s, P (0x22 :: s))
    (slash : P [0x5c]) (escape : ∀ e s, P s → P (0x5c :: e :: s))
    (plain : ∀ b s, b ≠ 0x22 → b ≠ 0x5c → P s → P (b :: s)) (s : Bytes) : P s := by
  induction s using literalEnd.induct with
  | case1 => exact nil
  | case2 s => exact quote s
  | case3 => exact slash
  | case4 e s _ ih => exact escape e s ih
  | case5 b s hquote hslash ih => exact plain b s hquote hslash ih

/-- **A closed literal is read as it is**, and no further. -/
theorem jsonScanString_of_closed {s : Bytes} (h : literalEnd s = .closed) (t : Bytes) :
    jsonScanString (s ++ 0x22 :: t) = s := by
  induction s using literal_induction with
  | nil => exact jsonScanString_quote t
  | quote s => exact (nomatch (literalEnd_quote s).symm.trans h)
  | slash => exact (nomatch literalEnd_slash.symm.trans h)
  | escape e s ih =>
    rw [literalEnd_escape] at h
    rw [List.cons_append, List.cons_append, jsonScanString_escape, ih h]
  | plain b s hquote hslash ih =>
    rw [literalEnd_plain hquote hslash] at h
    rw [List.cons_append, jsonScanString_plain hquote hslash, ih h]

/-- A literal that ends in the middle of an escape is read on, over the closing quote. -/
theorem jsonScanString_of_pending {s : Bytes} (h : literalEnd s = .pending) (t : Bytes) :
    jsonScanString (s ++ 0x22 :: t) = s ++ 0x22 :: jsonScanString t := by
  induction s using literal_induction with
  | nil => exact (nomatch literalEnd_nil.symm.trans h)
  | quote s => exact (nomatch (literalEnd_quote s).symm.trans h)
  | slash => exact jsonScanString_escape 0x22 t
  | escape e s ih =>
    rw [literalEnd_escape] at h
    rw [List.cons_append, List.cons_append, jsonScanString_escape, ih h]
    rfl
  | plain b s hquote hslash ih =>
    rw [literalEnd_plain hquote hslash] at h
    rw [List.cons_append, jsonScanString_plain hquote hslash, ih h]
    rfl

/-- A literal with a quote in it is cut there. -/
theorem length_jsonScanString_of_stopped {s : Bytes} (h : literalEnd s = .stopped) (t : Bytes) :
    (jsonScanString (s ++ t)).length < s.length := by
  induction s using literal_induction with
  | nil => exact (nomatch literalEnd_nil.symm.trans h)
  | quote s =>
    rw [List.cons_append, jsonScanString_quote]
    exact Nat.succ_pos _
  | slash => exact (nomatch literalEnd_slash.symm.trans h)
  | escape e s ih =>
    rw [literalEnd_escape] at h
    rw [List.cons_append, List.cons_append, jsonScanString_escape]
    exact Nat.succ_lt_succ (Nat.succ_lt_succ (ih h))
  | plain b s hquote hslash ih =>
    rw [literalEnd_plain hquote hslash] at h
    rw [List.cons_append, jsonScanString_plain hquote hslash]
    exact Nat.succ_lt_succ (ih h)

/-- Where the scan does not stop, every quote has a backslash before it. -/
theorem guarded_of_literalEnd {s : Bytes} (h : literalEnd s ≠ .stopped) : Guarded 0x22 0x5c s := by
  induction s using literal_induction with
  | nil => exact guarded_of_notMem List.not_mem_nil
  | quote s => exact absurd (literalEnd_quote s) h
  | slash => exact guarded_of_notMem (by decide)
  | escape e s ih =>
    rw [literalEnd_escape] at h
    intro u v huv
    match u with
    | [] => exact (nomatch (List.cons.inj huv).1)
    | [b] =>
      obtain rfl := (List.cons.inj huv).1
      exact ⟨[], rfl⟩
    | b :: b' :: u =>
      obtain ⟨rfl, hrest⟩ := List.cons.inj huv
      obtain ⟨-, hrest⟩ := List.cons.inj hrest
      obtain ⟨w, rfl⟩ := ih h u v hrest
      exact ⟨0x5c :: b' :: w, rfl⟩
  | plain b s hquote hslash ih =>
    rw [literalEnd_plain hquote hslash] at h
    intro u v huv
    match u with
    | [] => exact absurd (List.cons.inj huv).1 hquote
    | c :: u =>
      obtain ⟨-, hrest⟩ := List.cons.inj huv
      obtain ⟨w, rfl⟩ := ih h u v hrest
      exact ⟨c :: w, rfl⟩

/-! ## Flat objects -/

/-- A value as it is written: a text between quotes, or a text without. -/
inductive Written where
  | quoted (body : Bytes)
  | bare (text : Bytes)
  deriving DecidableEq

namespace Written

def text : Written → Bytes
  | quoted body => 0x22 :: body ++ [0x22]
  | bare text => text

/-- The quoted key is found in the value: the value is a string, and the key is what it ends in
after its opening quote or an escaped one. -/
def Hides (key : Bytes) : Written → Prop
  | quoted body => (0x22 :: key) <:+ (0x22 :: body)
  | bare _ => False

instance (key : Bytes) : (w : Written) → Decidable (w.Hides key)
  | quoted body => inferInstanceAs (Decidable ((0x22 :: key) <:+ (0x22 :: body)))
  | bare _ => inferInstanceAs (Decidable False)

/-- The scan for the closing quote goes through the value. -/
def Quiet : Written → Prop
  | quoted body => literalEnd body ≠ .stopped
  | bare text => 0x22 ∉ text

end Written

/-- A key and its value. -/
abbrev Member := Bytes × Written

/-- The text of a member. -/
def Member.text (m : Member) : Bytes := 0x22 :: m.1 ++ 0x22 :: 0x3a :: m.2.text

/-- The members that follow the first one, and the closing brace. -/
def tailText : List Member → Bytes
  | [] => [0x7d]
  | m :: ms => 0x2c :: Member.text m ++ tailText ms

/-- The text of an object. -/
def objectText : List Member → Bytes
  | [] => [0x7b, 0x7d]
  | m :: ms => 0x7b :: Member.text m ++ tailText ms

/-- A key that one of the members hides. -/
def Hidden (key : Bytes) (ms : List Member) : Prop := ∃ m ∈ ms, m.2.Hides key

instance (key : Bytes) (ms : List Member) : Decidable (Hidden key ms) :=
  inferInstanceAs (Decidable (∃ m ∈ ms, m.2.Hides key))

/-- A byte of a key: a small letter or an underscore. -/
def isKeyByte (b : UInt8) : Bool := b = 0x5f || (0x61 ≤ b && b ≤ 0x7a)

/-- A key that is written as it is and that the reader's pattern has room for. -/
structure PlainKey (key : Bytes) : Prop where
  ne_nil : key ≠ []
  all : key.all isKeyByte = true
  length_le : key.length ≤ 125

/-- What follows a value: a comma or a brace, and more. -/
def Separated (t : Bytes) : Prop := ∃ b t', t = b :: t' ∧ (b = 0x2c ∨ b = 0x7d)

theorem separated_tailText (ms : List Member) : Separated (tailText ms) := by
  cases ms with
  | nil => exact ⟨0x7d, [], rfl, .inr rfl⟩
  | cons m ms => exact ⟨0x2c, _, rfl, .inl rfl⟩

namespace PlainKey

variable {key : Bytes} (h : PlainKey key)

include h

theorem notMem {b : UInt8} (hb : isKeyByte b = false) : b ∉ key := by
  intro hmem
  rw [List.all_eq_true.mp h.all b hmem] at hb
  exact (nomatch hb)

/-- The pattern is the quoted key. -/
theorem jsonPattern_eq : jsonPattern key = quoted 0x22 key := by
  refine List.take_of_length_le ?_
  have hlen := h.length_le
  rw [List.length_append, List.length_cons, List.length_singleton]
  omega

/-- The quoted key does not start at a quote that something else follows. -/
theorem not_isPrefix {b : UInt8} (hb : isKeyByte b = false) (t : Bytes) :
    ¬quoted 0x22 key <+: 0x22 :: b :: t := by
  obtain ⟨c, key', rfl⟩ := List.exists_cons_of_ne_nil h.ne_nil
  rintro ⟨r, hr⟩
  obtain rfl : c = b := (List.cons.inj (List.cons.inj hr).2).1
  exact h.notMem hb List.mem_cons_self

theorem notMem_quote : 0x22 ∉ key := h.notMem rfl

theorem slash_notMem : 0x5c ∉ (0x22 : UInt8) :: key := by
  rw [List.mem_cons, not_or]
  exact ⟨by decide, h.notMem rfl⟩

/-- At a quote before a comma or a brace nothing starts. -/
theorem not_startsIn_closing {t : Bytes} (ht : Separated t) :
    ¬StartsIn (quoted 0x22 key) [0x22] t := by
  obtain ⟨b, t', rfl, hb⟩ := ht
  rw [startsIn_cons, not_or]
  refine ⟨h.not_isPrefix ?_ t', not_startsIn_nil⟩
  rcases hb with rfl | rfl <;> rfl

end PlainKey

/-! ## The first occurrence of a key -/

theorem strstr_append_of_not_startsIn {pat x y : Bytes} (h : ¬StartsIn pat x y) :
    strstr pat (x ++ y) = strstr pat y := by
  induction x with
  | nil => rfl
  | cons b x ih =>
    rw [startsIn_cons, not_or] at h
    have hpat : ¬pat.isPrefixOf (b :: (x ++ y)) = true := fun hpat =>
      h.1 (List.isPrefixOf_iff_prefix.mp hpat)
    rw [List.cons_append, strstr, if_neg hpat, ih h.2]

theorem strstr_append_self {pat : Bytes} (h : pat ≠ []) (t : Bytes) :
    strstr pat (pat ++ t) = some (pat ++ t) := by
  obtain ⟨b, pat, rfl⟩ := List.exists_cons_of_ne_nil h
  rw [List.cons_append, strstr, if_pos]
  exact List.isPrefixOf_iff_prefix.mpr ⟨t, rfl⟩

/-- What stands before the first member makes no difference. -/
theorem strstr_objectText {ms : List Member} {key : Bytes} (hne : ms ≠ []) :
    strstr (quoted 0x22 key) (objectText ms) = strstr (quoted 0x22 key) (tailText ms) := by
  obtain ⟨m, ms, rfl⟩ := List.exists_cons_of_ne_nil hne
  have hbyte : ∀ {b : UInt8} {y : Bytes}, b ≠ 0x22 →
      strstr (quoted 0x22 key) (b :: y) = strstr (quoted 0x22 key) y := fun {b y} hb =>
    strstr_append_of_not_startsIn (not_startsIn_of_notMem (by simpa using hb.symm) :
      ¬StartsIn (quoted 0x22 key) [b] y)
  exact (hbyte (by decide)).trans (hbyte (by decide)).symm

section Search

variable {key : Bytes} {m : Member} {c : UInt8} {t : Bytes}

/-- The member with the key is found. -/
theorem strstr_member_self (hm : m.1 = key) (hc : c ≠ 0x22) :
    strstr (quoted 0x22 key) (c :: Member.text m ++ t)
      = some (quoted 0x22 key ++ (0x3a :: m.2.text ++ t)) := by
  have hsplit : c :: Member.text m ++ t = [c] ++ (quoted 0x22 key ++ (0x3a :: m.2.text ++ t)) := by
    simp [Member.text, quoted, hm]
  have hstart : ¬StartsIn (quoted 0x22 key) [c] (quoted 0x22 key ++ (0x3a :: m.2.text ++ t)) :=
    not_startsIn_of_notMem (by simpa using hc.symm)
  rw [hsplit, strstr_append_of_not_startsIn hstart, strstr_append_self (by simp [quoted])]

variable (hkey : PlainKey key)

include hkey

/-- In another member the key is not found before the value. -/
theorem strstr_member_of_ne (hm : PlainKey m.1) (hne : m.1 ≠ key) (hc : c ≠ 0x22) :
    strstr (quoted 0x22 key) (c :: Member.text m ++ t)
      = strstr (quoted 0x22 key) (m.2.text ++ t) := by
  have hsplit : c :: Member.text m ++ t
      = [c] ++ ((0x22 :: m.1) ++ ([0x22] ++ ([0x3a] ++ (m.2.text ++ t)))) := by
    simp [Member.text]
  have hbyte : ∀ {b : UInt8} {y : Bytes}, b ≠ 0x22 → ¬StartsIn (quoted 0x22 key) [b] y :=
    fun hb => not_startsIn_of_notMem (by simpa using hb.symm)
  have hopen : ¬StartsIn (quoted 0x22 key) (0x22 :: m.1)
      ([0x22] ++ ([0x3a] ++ (m.2.text ++ t))) := by
    show ¬StartsIn _ _ (0x22 :: _)
    rw [startsIn_literal hkey.notMem_quote hkey.slash_notMem (guarded_of_notMem hm.notMem_quote)]
    rintro ⟨u, hu⟩
    cases u with
    | nil => exact hne (List.cons.inj hu).2.symm
    | cons b u =>
      refine hm.notMem_quote ?_
      rw [← (List.cons.inj hu).2]
      exact List.mem_append_right u List.mem_cons_self
  have hclose : ¬StartsIn (quoted 0x22 key) [0x22] ([0x3a] ++ (m.2.text ++ t)) := by
    rw [startsIn_cons, not_or]
    exact ⟨hkey.not_isPrefix rfl _, not_startsIn_nil⟩
  rw [hsplit, strstr_append_of_not_startsIn (hbyte hc), strstr_append_of_not_startsIn hopen,
    strstr_append_of_not_startsIn hclose, strstr_append_of_not_startsIn (hbyte (by decide))]

/-- Nor in its value, if that does not hide it. -/
theorem strstr_value_of_not_hides {w : Written} (hw : w.Quiet) (hhides : ¬w.Hides key)
    (ht : Separated t) : strstr (quoted 0x22 key) (w.text ++ t) = strstr (quoted 0x22 key) t := by
  cases w with
  | bare text => exact strstr_append_of_not_startsIn (not_startsIn_of_notMem hw)
  | quoted body =>
    have hsplit : (Written.quoted body).text ++ t = (0x22 :: body) ++ ([0x22] ++ t) := by
      simp [Written.text]
    have hbody : ¬StartsIn (quoted 0x22 key) (0x22 :: body) ([0x22] ++ t) := by
      show ¬StartsIn _ _ (0x22 :: t)
      rwa [startsIn_literal hkey.notMem_quote hkey.slash_notMem (guarded_of_literalEnd hw)]
    rw [hsplit, strstr_append_of_not_startsIn hbody,
      strstr_append_of_not_startsIn (hkey.not_startsIn_closing ht)]

/-- A value that hides the key: its closing quote is taken for the key's, and the search ends
behind the value. -/
theorem strstr_value_of_hides {w : Written} (hw : w.Quiet) (hhides : w.Hides key) :
    strstr (quoted 0x22 key) (w.text ++ t) = some (quoted 0x22 key ++ t) := by
  cases w with
  | bare text => exact hhides.elim
  | quoted body =>
    obtain ⟨u, hu⟩ := hhides
    have hsplit : (Written.quoted body).text ++ t = u ++ (quoted 0x22 key ++ t) := by
      show 0x22 :: body ++ [0x22] ++ t = _
      rw [← hu]
      simp [quoted]
    rw [hsplit, strstr_append_of_not_startsIn (not_startsIn_of_isSuffix hkey.notMem_quote
      hkey.slash_notMem (guarded_of_literalEnd hw) hu.symm), strstr_append_self (by simp [quoted])]

/-- The first occurrence of a key after some members: in one that hides it, or behind them all. -/
theorem strstr_members {pre : List Member} (post : List Member) (hplain : ∀ m ∈ pre, PlainKey m.1)
    (hne : ∀ m ∈ pre, m.1 ≠ key) (hquiet : ∀ m ∈ pre, m.2.Quiet) :
    if Hidden key pre then
      ∃ t, Separated t ∧ strstr (quoted 0x22 key) (tailText (pre ++ post))
        = some (quoted 0x22 key ++ t)
    else strstr (quoted 0x22 key) (tailText (pre ++ post))
      = strstr (quoted 0x22 key) (tailText post) := by
  induction pre with
  | nil => simp [Hidden]
  | cons m pre ih =>
    rw [List.forall_mem_cons] at hplain hne hquiet
    have hstep : strstr (quoted 0x22 key) (tailText (m :: pre ++ post))
        = strstr (quoted 0x22 key) (m.2.text ++ tailText (pre ++ post)) :=
      strstr_member_of_ne hkey hplain.1 hne.1 (by decide)
    have hsep := separated_tailText (pre ++ post)
    have hcons : Hidden key (m :: pre) ↔ m.2.Hides key ∨ Hidden key pre := by
      simp only [Hidden, List.mem_cons, exists_eq_or_imp]
    by_cases hhides : m.2.Hides key
    · rw [if_pos (hcons.mpr (.inl hhides)), hstep]
      exact ⟨_, hsep, strstr_value_of_hides hkey hquiet.1 hhides⟩
    · have hiff : Hidden key (m :: pre) ↔ Hidden key pre := hcons.trans (or_iff_right hhides)
      simp only [hiff, hstep, strstr_value_of_not_hides hkey hquiet.1 hhides hsep]
      exact ih hplain.2 hne.2 hquiet.2

end Search

/-! ## The value of a key -/

/-- What the reader skips between a key and its value. -/
def isBlank (b : UInt8) : Bool := b = 0x20 || b = 0x3a || b = 0x09 || b = 0x0a

/-- The value starts with something that is not skipped. -/
def Written.Starts (w : Written) : Prop := ∃ b s, w.text = b :: s ∧ isBlank b = false

theorem Written.starts_quoted (body : Bytes) : (Written.quoted body).Starts :=
  ⟨0x22, body ++ [0x22], rfl, rfl⟩

theorem dropWhile_of_separated {t : Bytes} (ht : Separated t) : t.dropWhile isBlank = t := by
  obtain ⟨b, t, rfl, hb⟩ := ht
  refine List.dropWhile_cons_of_neg ?_
  rcases hb with rfl | rfl <;> decide

section Value

variable {key : Bytes} (hkey : PlainKey key)

include hkey

theorem jsonValueStart_of_strstr {json t : Bytes}
    (h : strstr (quoted 0x22 key) json = some (quoted 0x22 key ++ t)) :
    jsonValueStart json key = some (t.dropWhile isBlank) := by
  have hdrop : (quoted 0x22 key ++ t).drop (quoted 0x22 key).length = t := List.drop_left
  rw [jsonValueStart, hkey.jsonPattern_eq, h, Option.map_some, hdrop]
  rfl

variable {pre : List Member} (post : List Member) (hplain : ∀ m ∈ pre, PlainKey m.1)
  (hne : ∀ m ∈ pre, m.1 ≠ key) (hquiet : ∀ m ∈ pre, m.2.Quiet)

include hplain hne hquiet

/-- A key that an earlier string hides is taken to be followed by what follows that string. -/
theorem jsonValueStart_of_hidden (hhidden : Hidden key pre) :
    ∃ t, Separated t ∧ jsonValueStart (objectText (pre ++ post)) key = some t := by
  have hnil : pre ++ post ≠ [] := by
    rintro hnil
    obtain ⟨m, hm, -⟩ := hhidden
    rw [(List.append_eq_nil_iff.mp hnil).1] at hm
    exact (nomatch hm)
  have hfind := strstr_members hkey post hplain hne hquiet
  rw [if_pos hhidden, ← strstr_objectText hnil] at hfind
  obtain ⟨t, ht, hfind⟩ := hfind
  refine ⟨t, ht, ?_⟩
  rw [jsonValueStart_of_strstr hkey hfind, dropWhile_of_separated ht]

/-- **A key that nothing hides is found with its value.** -/
theorem jsonValueStart_of_not_hidden {w : Written} (hw : w.Starts) (hhidden : ¬Hidden key pre) :
    jsonValueStart (objectText (pre ++ (key, w) :: post)) key = some (w.text ++ tailText post) := by
  have hfind := strstr_members hkey ((key, w) :: post) hplain hne hquiet
  have hself : strstr (quoted 0x22 key) (tailText ((key, w) :: post))
      = some (quoted 0x22 key ++ (0x3a :: w.text ++ tailText post)) :=
    strstr_member_self rfl (by decide)
  obtain ⟨b, s, hs, hb⟩ := hw
  have hnil : pre ++ (key, w) :: post ≠ [] := by simp
  rw [if_neg hhidden, hself, ← strstr_objectText hnil] at hfind
  rw [jsonValueStart_of_strstr hkey hfind, hs, List.cons_append,
    List.dropWhile_cons_of_pos (by decide), List.cons_append,
    List.dropWhile_cons_of_neg (by simp [hb])]

/-- A key that the object does not have, and that nothing hides, is not found. -/
theorem jsonValueStart_of_absent (hnil : pre ≠ []) (hhidden : ¬Hidden key pre) :
    jsonValueStart (objectText pre) key = none := by
  have hfind := strstr_members hkey [] hplain hne hquiet
  have hlast : strstr (quoted 0x22 key) (tailText []) = none := by
    have hno : ¬StartsIn (quoted 0x22 key) [0x7d] [] := not_startsIn_of_notMem (by decide)
    exact strstr_append_of_not_startsIn hno
  rw [if_neg hhidden, hlast, List.append_nil, ← strstr_objectText hnil] at hfind
  rw [jsonValueStart, hkey.jsonPattern_eq, hfind, Option.map_none]

/-- No string is found for a key that an earlier string hides. -/
theorem jsonFindString_of_hidden (hhidden : Hidden key pre) (size : ℕ) :
    jsonFindString (objectText (pre ++ post)) key size = none := by
  obtain ⟨t, ⟨b, t', rfl, hb⟩, hstart⟩ :=
    jsonValueStart_of_hidden hkey post hplain hne hquiet hhidden
  rw [jsonFindString, hstart]
  refine if_neg ?_
  rcases hb with rfl | rfl <;> simp

/-- Nor for a key that the object does not have, hidden or not. -/
theorem jsonFindString_of_absent (hnil : pre ≠ []) (size : ℕ) :
    jsonFindString (objectText pre) key size = none := by
  by_cases hhidden : Hidden key pre
  · have hnone := jsonFindString_of_hidden hkey [] hplain hne hquiet hhidden size
    rwa [List.append_nil] at hnone
  · rw [jsonFindString, jsonValueStart_of_absent hkey hplain hne hquiet hnil hhidden,
      Option.bind_none]

end Value

/-! ## Fields -/

/-- A number as it is written, and what `strtoull` makes of it. -/
structure Numeral (text : Bytes) (n : UInt64) : Prop where
  starts : (Written.bare text).Starts
  quiet : 0x22 ∉ text
  read : ∀ t, Separated t → strtoull (text ++ t) = n

/-- A string that is written as it is comes back: the scan leaves it before its closing quote, or
runs over that quote when the array of `size` bytes is full. -/
def RawKept (size : ℕ) (s : Bytes) : Prop :=
  literalEnd s = .closed ∨ literalEnd s = .pending ∧ s.length = size - 1

instance (size : ℕ) (s : Bytes) : Decidable (RawKept size s) :=
  inferInstanceAs (Decidable (_ ∨ _ ∧ _))

theorem RawKept.ne_stopped {size : ℕ} {s : Bytes} (h : RawKept size s) :
    literalEnd s ≠ .stopped := by
  rcases h with h | ⟨h, -⟩ <;> rw [h] <;> decide

theorem take_jsonScanString_eq_iff {size : ℕ} {s : Bytes} (hlen : s.length ≤ size - 1) (t : Bytes) :
    (jsonScanString (s ++ 0x22 :: t)).take (size - 1) = s ↔ RawKept size s := by
  unfold RawKept
  cases hend : literalEnd s with
  | closed =>
    rw [jsonScanString_of_closed hend]
    exact ⟨fun _ => .inl rfl, fun _ => List.take_of_length_le hlen⟩
  | pending =>
    rw [jsonScanString_of_pending hend]
    constructor
    · intro heq
      have hlength := congrArg List.length heq
      rw [List.length_take, List.length_append, List.length_cons] at hlength
      exact .inr ⟨rfl, by omega⟩
    · rintro (h | ⟨-, h⟩)
      · exact (nomatch h)
      · exact List.take_left' h
  | stopped =>
    have hlt := length_jsonScanString_of_stopped hend (0x22 :: t)
    refine iff_of_false (fun heq => ?_) (by simp)
    have hlength := congrArg List.length heq
    rw [List.length_take] at hlength
    omega

/-- A field of a structure that is written as a member of an object: a string, with the size of
its array, the text that is written for it and what it takes for that to be read as the value; a
number, with the conversion that the reader applies to it; or a member that the reader does not
look at. -/
inductive JsonField where
  | str (key : Bytes) (size : ℕ) (value body : Bytes) (kept : Prop)
  | num (key text : Bytes) (convert : UInt64 → UInt64) (value : UInt64)
  | unread (key : Bytes) (written : Written)

namespace JsonField

/-- A string that is written as it is. -/
def raw (key : Bytes) (size : ℕ) (value : Bytes) : JsonField :=
  str key size value value (RawKept size value)

/-- The member that is written for the field. -/
def member : JsonField → Member
  | str key _ _ body _ => (key, .quoted body)
  | num key text _ _ => (key, .bare text)
  | unread key written => (key, written)

/-- The reader gives the field's value. -/
def ReadsBack (json : Bytes) : JsonField → Prop
  | str key size value _ _ => (jsonFindString json key size).getD [] = value
  | num key _ convert value => convert ((jsonFindUint64 json key).getD 0) = value
  | unread _ _ => True

/-- The text that is written is read as the value. -/
def Kept : JsonField → Prop
  | str _ _ _ _ kept => kept
  | num _ _ _ _ => True
  | unread _ _ => True

/-- The value is what the reader leaves in a field it does not find. -/
def IsZero : JsonField → Prop
  | str _ _ value _ _ => value = []
  | num _ _ _ value => value = 0
  | unread _ _ => True

/-- **The fields come back**: each is kept, and one that the fields before it hide is zero. -/
def Recoverable : List Member → List JsonField → Prop
  | _, [] => True
  | pre, f :: fs =>
    (f.Kept ∧ (Hidden f.member.1 pre → f.IsZero)) ∧ Recoverable (pre ++ [f.member]) fs

/-- Fields that are kept come back if no name is hidden by any of them. -/
theorem recoverable_of_kept {pre : List Member} {fs : List JsonField} (hkept : ∀ f ∈ fs, f.Kept)
    (hshown : ∀ m ∈ fs.map member, ¬Hidden m.1 (pre ++ fs.map member)) : Recoverable pre fs := by
  induction fs generalizing pre with
  | nil => trivial
  | cons f fs ih =>
    rw [List.forall_mem_cons] at hkept
    rw [List.map_cons, List.append_cons, List.forall_mem_cons] at hshown
    refine ⟨⟨hkept.1, fun hhidden => absurd ?_ hshown.1⟩, ih hkept.2 hshown.2⟩
    obtain ⟨m, hm, hhides⟩ := hhidden
    exact ⟨m, List.mem_append_left _ (List.mem_append_left _ hm), hhides⟩

/-- What the fields are assumed to be: `kept` says when the text of a string is read as its value,
numbers are numerals, and what is not read back does not stop the scan. -/
def Regular : JsonField → Prop
  | str _ size value body kept =>
    (∀ t, (jsonScanString (body ++ 0x22 :: t)).take (size - 1) = value ↔ kept)
      ∧ (kept → literalEnd body ≠ .stopped) ∧ (value = [] → kept)
  | num _ text convert value => convert 0 = 0 ∧ ∃ n, Numeral text n ∧ convert n = value
  | unread _ written => written.Quiet

theorem regular_raw {key : Bytes} {size : ℕ} {value : Bytes} (h : value.length ≤ size - 1) :
    (raw key size value).Regular := by
  refine ⟨take_jsonScanString_eq_iff h, RawKept.ne_stopped, ?_⟩
  rintro rfl
  exact .inl literalEnd_nil

/-- A field that is kept does not stop the scan. -/
theorem Kept.quiet {f : JsonField} (hf : f.Regular) (h : f.Kept) : f.member.2.Quiet := by
  cases f with
  | str key size value body kept => exact hf.2.1 h
  | num key text convert value =>
    obtain ⟨-, n, hn, -⟩ := hf
    exact hn.quiet
  | unread key written => exact hf

/-- A field that is zero is kept. -/
theorem kept_of_isZero {f : JsonField} (hf : f.Regular) (h : f.IsZero) : f.Kept := by
  cases f with
  | str key size value body kept => exact hf.2.2 h
  | num key text convert value => trivial
  | unread key written => trivial

section ReadsBack

variable {f : JsonField} {pre : List Member} (post : List Member) (hkey : PlainKey f.member.1)
  (hf : f.Regular)
  (hplain : ∀ m ∈ pre, PlainKey m.1) (hne : ∀ m ∈ pre, m.1 ≠ f.member.1)
  (hquiet : ∀ m ∈ pre, m.2.Quiet)

include hkey hf hplain hne hquiet

/-- A hidden field is read as zero. -/
theorem readsBack_of_hidden (hhidden : Hidden f.member.1 pre) :
    f.ReadsBack (objectText (pre ++ f.member :: post)) ↔ f.IsZero := by
  obtain ⟨t, ⟨b, t', rfl, hb⟩, hstart⟩ :=
    jsonValueStart_of_hidden hkey (f.member :: post) hplain hne hquiet hhidden
  have hquote : (b :: t').head? ≠ some 0x22 := by
    rcases hb with rfl | rfl <;> simp
  cases f with
  | str key size value body kept =>
    show (jsonFindString _ key size).getD [] = value ↔ value = []
    have hfind : jsonFindString (objectText (pre ++ (key, .quoted body) :: post)) key size = none :=
      jsonFindString_of_hidden hkey _ hplain hne hquiet hhidden size
    rw [member, hfind, Option.getD_none, eq_comm]
  | num key text convert value =>
    have hzero : strtoull (b :: t') = 0 := by
      rcases hb with rfl | rfl <;> simp [strtoull, isSpace, Json.isDigit, Json.ofDecimal]
    show convert ((jsonFindUint64 _ key).getD 0) = value ↔ value = 0
    have hstart : jsonValueStart (objectText (pre ++ (key, .bare text) :: post)) key
        = some (b :: t') := hstart
    have hfind : jsonFindUint64 (objectText (pre ++ (key, .bare text) :: post)) key = some 0 := by
      rw [jsonFindUint64, hstart, Option.map_some, if_neg hquote, hzero]
    rw [member, hfind, Option.getD_some, hf.1, eq_comm]
  | unread key written => exact Iff.rfl

/-- A field that is not hidden is read as what was written for it. -/
theorem readsBack_of_not_hidden (hhidden : ¬Hidden f.member.1 pre) :
    f.ReadsBack (objectText (pre ++ f.member :: post)) ↔ f.Kept := by
  cases f with
  | str key size value body kept =>
    have hstart : jsonValueStart (objectText (pre ++ (key, .quoted body) :: post)) key = _ :=
      jsonValueStart_of_not_hidden hkey post hplain hne hquiet (Written.starts_quoted body) hhidden
    have hfind : jsonFindString (objectText (pre ++ (key, .quoted body) :: post)) key size
        = some ((jsonScanString (body ++ 0x22 :: tailText post)).take (size - 1)) := by
      rw [jsonFindString, hstart]
      simp [Written.text]
    show (jsonFindString _ key size).getD [] = value ↔ _
    rw [member, hfind, Option.getD_some]
    exact hf.1 _
  | num key text convert value =>
    obtain ⟨hzero, n, hn, hvalue⟩ := hf
    have hstart : jsonValueStart (objectText (pre ++ (key, .bare text) :: post)) key = _ :=
      jsonValueStart_of_not_hidden hkey post hplain hne hquiet hn.starts hhidden
    have hquote : (text ++ tailText post).head? ≠ some 0x22 := by
      obtain ⟨b, s, hs, -⟩ := hn.starts
      obtain rfl : text = b :: s := hs
      rintro hhead
      obtain rfl := Option.some.inj hhead
      exact hn.quiet List.mem_cons_self
    have hfind : jsonFindUint64 (objectText (pre ++ (key, .bare text) :: post)) key = some n := by
      rw [jsonFindUint64, hstart]
      show some (strtoull (if (text ++ tailText post).head? = some 0x22 then _ else _)) = _
      rw [if_neg hquote]
      exact congrArg some (hn.read _ (separated_tailText post))
    show convert ((jsonFindUint64 _ key).getD 0) = value ↔ True
    rw [member, hfind, Option.getD_some, hvalue]
    exact iff_true_intro rfl
  | unread key written => exact Iff.rfl

/-- **One field**: what it takes to be read back, after members that do not stop the scan. -/
theorem readsBack_iff_of_quiet :
    f.ReadsBack (objectText (pre ++ f.member :: post))
      ↔ f.Kept ∧ (Hidden f.member.1 pre → f.IsZero) := by
  by_cases hhidden : Hidden f.member.1 pre
  · rw [readsBack_of_hidden post hkey hf hplain hne hquiet hhidden]
    exact ⟨fun h => ⟨kept_of_isZero hf h, fun _ => h⟩, fun h => h.2 hhidden⟩
  · rw [readsBack_of_not_hidden post hkey hf hplain hne hquiet hhidden]
    exact ⟨fun h => ⟨h, fun hyes => absurd hyes hhidden⟩, fun h => h.1⟩

end ReadsBack

/-- **All fields**, by induction on them: what was read back before did not stop the scan, so that
the next field is looked for in members that do not. -/
theorem readsBack_iff {fs : List JsonField} {pre : List Member} (hregular : ∀ f ∈ fs, f.Regular)
    (hplain : ∀ m ∈ pre ++ fs.map member, PlainKey m.1)
    (hnodup : ((pre ++ fs.map member).map Prod.fst).Nodup) (hquiet : ∀ m ∈ pre, m.2.Quiet) :
    (∀ f ∈ fs, f.ReadsBack (objectText (pre ++ fs.map member))) ↔ Recoverable pre fs := by
  induction fs generalizing pre with
  | nil => simp [Recoverable]
  | cons f fs ih =>
    rw [List.forall_mem_cons] at hregular ⊢
    rw [List.map_cons] at hplain hnodup ⊢
    have hne : ∀ m ∈ pre, m.1 ≠ f.member.1 := by
      intro m hm heq
      rw [List.map_append, List.map_cons, List.nodup_append] at hnodup
      exact hnodup.2.2 m.1 (List.mem_map_of_mem hm) f.member.1 List.mem_cons_self heq
    have hone := readsBack_iff_of_quiet (fs.map member)
      (hplain f.member (List.mem_append_right pre List.mem_cons_self)) hregular.1
      (fun m hm => hplain m (List.mem_append_left _ hm)) hne hquiet
    rw [Recoverable, hone]
    refine and_congr_right fun hkept => ?_
    rw [List.append_cons] at hplain hnodup ⊢
    refine ih hregular.2 hplain hnodup ?_
    rw [List.forall_mem_append, List.forall_mem_singleton]
    exact ⟨hquiet, hkept.1.quiet hregular.1⟩

end JsonField
