import Eipc.Sdk.Json

/-!
# Escaping into a buffer

`json_escape` (`sdk/c/src/eipc_json.c`) escapes a string into an array of a given size. It tests
for one free byte before a byte that is written as it is and for two before an escape, keeps one
for the NUL, and stops at the first byte whose escape does not fit. `jsonEscape` is the text that
it leaves in the array; here the function is followed store by store (`jsonEscapeInto`), and a
store outside of the array has no result.

The two agree (`jsonEscapeInto_eq`), and the text is the escape of a start of the string, which is
all of it exactly when it fits (`exists_jsonEscape_eq`). So no store is outside of the array, and
undoing the escapes gives that start back (`jsonEscapeInto_spec`).
-/

open Bytes CString

/-! ## Undoing escapes -/

/-- The byte that a letter after a backslash stands for, for the letters that `json_escape`
writes. -/
def jsonUnescapeLetter (e : UInt8) : Option UInt8 :=
  if e = 0x22 ∨ e = 0x5c then some e
  else if e = 0x6e then some 0x0a
  else if e = 0x72 then some 0x0d
  else if e = 0x74 then some 0x09
  else none

/-- The text that an escaped text stands for. -/
def jsonUnescape : Bytes → Option Bytes
  | [] => some []
  | b :: s =>
    if b = 0x5c then
      match s with
      | [] => none
      | e :: s => (jsonUnescapeLetter e).bind fun c => (jsonUnescape s).map (c :: ·)
    else (jsonUnescape s).map (b :: ·)

theorem jsonUnescape_nil : jsonUnescape [] = some [] := rfl

theorem jsonUnescape_slash : jsonUnescape [0x5c] = none := rfl

theorem jsonUnescape_escape (e : UInt8) (s : Bytes) :
    jsonUnescape (0x5c :: e :: s)
      = (jsonUnescapeLetter e).bind fun c => (jsonUnescape s).map (c :: ·) := rfl

theorem jsonUnescape_plain {b : UInt8} (h : b ≠ 0x5c) (s : Bytes) :
    jsonUnescape (b :: s) = (jsonUnescape s).map (b :: ·) := by
  rw [jsonUnescape.eq_def]
  show (if b = 0x5c then _ else _) = _
  rw [if_neg h]

/-- The steps: a backslash at the end, an escape, any other byte. -/
theorem unescape_induction {P : Bytes → Prop} (nil : P []) (slash : P [0x5c])
    (escape : ∀ e s, P s → P (0x5c :: e :: s)) (plain : ∀ b s, b ≠ 0x5c → P s → P (b :: s))
    (s : Bytes) : P s := by
  induction s using jsonUnescape.induct with
  | case1 => exact nil
  | case2 => exact slash
  | case3 e s ih => exact escape e s ih
  | case4 b s hslash ih => exact plain b s hslash ih

theorem jsonUnescapeLetter_of_some {b e : UInt8} (h : jsonEscapeLetter b = some e) :
    jsonUnescapeLetter e = some b := by
  unfold jsonEscapeLetter at h
  split_ifs at h with hself hn hr ht
  · obtain rfl := Option.some.inj h
    exact if_pos hself
  all_goals obtain rfl := Option.some.inj h
  · rw [hn]
    rfl
  · rw [hr]
    rfl
  · rw [ht]
    rfl

/-- **The escapes of `json_escape` are undone.** -/
theorem jsonUnescape_jsonEscaped (s : Bytes) : jsonUnescape (jsonEscaped s) = some s := by
  induction s with
  | nil => exact jsonUnescape_nil
  | cons b s ih =>
    rw [jsonEscaped_cons]
    cases hletter : jsonEscapeLetter b with
    | none =>
      rw [jsonEscapeByte_of_none hletter, List.singleton_append,
        jsonUnescape_plain (ne_of_jsonEscapeLetter hletter).2, ih, Option.map_some]
    | some e =>
      rw [jsonEscapeByte_of_some hletter]
      show jsonUnescape (0x5c :: e :: jsonEscaped s) = _
      rw [jsonUnescape_escape, jsonUnescapeLetter_of_some hletter, ih]
      rfl

/-! ## The text that is written -/

/-- What `json_escape` writes is the escape of a start of the text, and the longest that fits. -/
theorem jsonEscapeFrom_spec {dstSize di : ℕ} (hdi : di ≤ dstSize - 1) (s : Bytes) :
    ∃ u, u <+: s ∧ jsonEscapeFrom dstSize di s = jsonEscaped u
      ∧ di + (jsonEscaped u).length ≤ dstSize - 1
      ∧ ∀ v, v <+: s → di + (jsonEscaped v).length ≤ dstSize - 1 → v.length ≤ u.length := by
  induction s generalizing di with
  | nil =>
    refine ⟨[], List.nil_prefix, rfl, hdi, fun v hv _ => ?_⟩
    rw [List.prefix_nil.mp hv]
  | cons b s ih =>
    -- a start of `b :: s` that is not empty is `b` and a start of `s`
    rw [jsonEscapeFrom_cons]
    split_ifs with hfits
    · obtain ⟨u, hu, heq, hlen, hmax⟩ := ih hfits
      refine ⟨b :: u, List.cons_prefix_cons.mpr ⟨rfl, hu⟩, ?_, ?_, fun v hv hvfits => ?_⟩
      · rw [heq, jsonEscaped_cons]
      · rw [jsonEscaped_cons, List.length_append]
        omega
      · cases v with
        | nil => exact Nat.zero_le _
        | cons c v =>
          obtain ⟨rfl, htail⟩ := List.cons_prefix_cons.mp hv
          rw [jsonEscaped_cons, List.length_append] at hvfits
          exact Nat.succ_le_succ (hmax v htail (by omega))
    · refine ⟨[], List.nil_prefix, rfl, hdi, fun v hv hvfits => ?_⟩
      cases v with
      | nil => exact le_rfl
      | cons c v =>
        obtain ⟨rfl, -⟩ := List.cons_prefix_cons.mp hv
        rw [jsonEscaped_cons, List.length_append] at hvfits
        omega

/-- Escaping more takes no less room. -/
theorem length_jsonEscaped_mono {u v : Bytes} (h : u <+: v) :
    (jsonEscaped u).length ≤ (jsonEscaped v).length := by
  obtain ⟨t, rfl⟩ := h
  rw [jsonEscaped, jsonEscaped, List.flatMap_append, List.length_append]
  exact Nat.le_add_right _ _

/-- What is written leaves room for the NUL. -/
theorem length_jsonEscape_lt {dstSize : ℕ} (h : 1 ≤ dstSize) (s : Bytes) :
    (jsonEscape dstSize s).length < dstSize := by
  obtain ⟨u, -, heq, hlen, -⟩ := jsonEscapeFrom_spec (Nat.zero_le (dstSize - 1)) s
  rw [jsonEscape, heq]
  omega

/-- The whole text is escaped exactly when its escapes fit. -/
theorem exists_jsonEscape_eq (dstSize : ℕ) (s : Bytes) :
    ∃ u, u <+: s ∧ jsonEscape dstSize s = jsonEscaped u
      ∧ (u = s ↔ (jsonEscaped s).length ≤ dstSize - 1) := by
  obtain ⟨u, hu, heq, hlen, hmax⟩ := jsonEscapeFrom_spec (Nat.zero_le (dstSize - 1)) s
  rw [zero_add] at hlen
  refine ⟨u, hu, heq, ?_, fun hfits => ?_⟩
  · rintro rfl
    exact hlen
  · exact hu.eq_of_length_le (hmax s List.prefix_rfl (by rwa [zero_add]))

theorem zero_notMem_jsonEscape (dstSize : ℕ) {s : Bytes} (h : 0 ∉ s) :
    0 ∉ jsonEscape dstSize s := by
  obtain ⟨u, hu, heq, -⟩ := exists_jsonEscape_eq dstSize s
  rw [heq]
  exact notMem_jsonEscaped fun hmem => h (hu.subset hmem)

/-! ## Store by store -/

/-- `dst[i] = b`, which is undefined outside of the array. -/
def storeByte (dst : Bytes) (i : ℕ) (b : UInt8) : Option Bytes :=
  if i < dst.length then some (dst.set i b) else none

/-- From the label `done` on: the NUL, and how many bytes stand before it. -/
def escapeDone (dst : Bytes) (di : ℕ) : Option (ℕ × Bytes) := do
  let dst ← storeByte dst di 0
  return (di, dst)

/-- The loop of `json_escape`, with the source from `src[si]` on. Reading behind the array of the
source is undefined, too. -/
def escapeLoop (dstSize : ℕ) (dst : Bytes) (di : ℕ) : Bytes → Option (ℕ × Bytes)
  | [] => none
  | c :: src =>
    if c ≠ 0 ∧ di < dstSize - 1 then
      match jsonEscapeLetter c with
      | some e =>
        if di + 2 ≥ dstSize then escapeDone dst di
        else do
          let dst ← storeByte dst di 0x5c
          let dst ← storeByte dst (di + 1) e
          escapeLoop dstSize dst (di + 2) src
      | none => do
        let dst ← storeByte dst di c
        escapeLoop dstSize dst (di + 1) src
    else escapeDone dst di

/-- `json_escape`, on the arrays that the pointers point to, if they are not `NULL`: what it
returns and what it leaves in the array of the destination. -/
def jsonEscapeInto (src dst : Option Bytes) (dstSize : ℕ) : Option (ℕ × Option Bytes) :=
  match src, dst with
  | some src, some dst =>
    if dstSize = 0 then some (0, some dst)
    else (escapeLoop dstSize dst 0 src).map fun r => (r.1, some r.2)
  | _, dst => some (0, dst)

/-! Along the loop the array is what was written so far and the rest of what it held, and the
index `di` is the length of the first part. -/

theorem storeByte_append (p rest : Bytes) (b c : UInt8) :
    storeByte (p ++ b :: rest) p.length c = some (p ++ c :: rest) := by
  have hlt : p.length < (p ++ b :: rest).length := by
    rw [List.length_append, List.length_cons]
    omega
  rw [storeByte, if_pos hlt, List.set_append_right _ _ le_rfl, Nat.sub_self, List.set_cons_zero]

theorem escapeDone_append {rest : Bytes} (h : rest ≠ []) (p : Bytes) :
    escapeDone (p ++ rest) p.length = some (p.length, p ++ 0 :: rest.drop 1) := by
  obtain ⟨b, rest, rfl⟩ := List.exists_cons_of_ne_nil h
  rw [escapeDone, storeByte_append]
  rfl

/-- **One byte of the source**: its escape is stored when it leaves room for the NUL, and the
function is done when it does not. -/
theorem escapeLoop_cons {dstSize : ℕ} {p rest : Bytes} (hsize : p.length + rest.length = dstSize)
    {b : UInt8} (hb : b ≠ 0) (src : Bytes) :
    escapeLoop dstSize (p ++ rest) p.length (b :: src)
      = if p.length + (jsonEscapeByte b).length ≤ dstSize - 1 then
          escapeLoop dstSize (p ++ jsonEscapeByte b ++ rest.drop (jsonEscapeByte b).length)
            (p ++ jsonEscapeByte b).length src
        else escapeDone (p ++ rest) p.length := by
  rw [escapeLoop, List.length_append]
  cases hletter : jsonEscapeLetter b with
  | none =>
    rw [jsonEscapeByte_of_none hletter, List.length_singleton]
    by_cases hfits : p.length + 1 ≤ dstSize - 1
    · obtain ⟨r, rest, rfl⟩ : ∃ r rest', rest = r :: rest' :=
        List.exists_cons_of_length_pos (by omega)
      rw [if_pos ⟨hb, hfits⟩, if_pos hfits]
      show (storeByte _ _ _).bind _ = _
      rw [storeByte_append, List.append_assoc]
      rfl
    · rw [if_neg fun h => hfits h.2, if_neg hfits]
  | some e =>
    rw [jsonEscapeByte_of_some hletter]
    show (if _ then if p.length + 2 ≥ dstSize then _ else _ else _)
      = if p.length + 2 ≤ _ then _ else _
    by_cases hfits : p.length + 2 ≤ dstSize - 1
    · obtain ⟨r, r', rest, rfl⟩ : ∃ r r' rest', rest = r :: r' :: rest' := by
        match rest, hsize with
        | [], hsize | [_], hsize =>
          simp only [List.length_nil, List.length_singleton] at hsize
          omega
        | r :: r' :: rest, _ => exact ⟨r, r', rest, rfl⟩
      have hsecond : p ++ 0x5c :: r' :: rest = (p ++ [0x5c]) ++ r' :: rest := by
        rw [List.append_assoc]
        rfl
      have hindex : p.length + 1 = (p ++ [0x5c]).length := by
        rw [List.length_append, List.length_singleton]
      rw [if_pos ⟨hb, by omega⟩, if_neg (by omega), if_pos hfits]
      show (storeByte _ _ _).bind _ = _
      rw [storeByte_append, Option.bind_some, hsecond, hindex]
      show (storeByte _ _ _).bind _ = _
      rw [storeByte_append, List.append_assoc, List.append_assoc]
      rfl
    · rw [if_neg hfits]
      split_ifs
      · rfl
      · omega
      · rfl

/-- **The loop**, by induction on what it has not read: it stores the text that `jsonEscapeFrom`
says, and a NUL behind it. -/
theorem escapeLoop_eq {dstSize : ℕ} {s : Bytes} (hs : 0 ∉ s) (junk : Bytes) {p rest : Bytes}
    (hsize : p.length + rest.length = dstSize) (hrest : rest ≠ []) :
    escapeLoop dstSize (p ++ rest) p.length (s ++ 0 :: junk)
      = some (p.length + (jsonEscapeFrom dstSize p.length s).length,
          p ++ jsonEscapeFrom dstSize p.length s
            ++ 0 :: rest.drop ((jsonEscapeFrom dstSize p.length s).length + 1)) := by
  induction s generalizing p rest with
  | nil =>
    rw [List.nil_append, escapeLoop, if_neg fun h => h.1 rfl, escapeDone_append hrest,
      jsonEscapeFrom, List.append_nil]
    rfl
  | cons b s ih =>
    rw [List.mem_cons, not_or] at hs
    rw [List.cons_append, escapeLoop_cons hsize (Ne.symm hs.1), jsonEscapeFrom_cons]
    split_ifs with hfits
    · have hpos := List.length_pos_of_ne_nil hrest
      have hdrop : (rest.drop (jsonEscapeByte b).length).length
          = rest.length - (jsonEscapeByte b).length := List.length_drop
      have hsize' : (p ++ jsonEscapeByte b).length + (rest.drop (jsonEscapeByte b).length).length
          = dstSize := by
        rw [List.length_append, hdrop]
        omega
      have hrest' : rest.drop (jsonEscapeByte b).length ≠ [] :=
        List.ne_nil_of_length_pos (by rw [hdrop]; omega)
      rw [ih hs.2 hsize' hrest', List.length_append, List.length_append, List.drop_drop, add_assoc,
        add_assoc, List.append_assoc p]
    · rw [escapeDone_append hrest, List.append_nil]
      rfl

/-- **What `json_escape` does to an array**: the text, a NUL, and the rest as it was. -/
theorem jsonEscapeInto_eq {src dst s : Bytes} (hsrc : CString.ofArray src = some s)
    (hdst : dst ≠ []) :
    jsonEscapeInto (some src) (some dst) dst.length
      = some ((jsonEscape dst.length s).length, some (jsonEscape dst.length s
          ++ 0 :: dst.drop ((jsonEscape dst.length s).length + 1))) := by
  obtain ⟨hs, junk, rfl⟩ := CString.ofArray_eq_some_iff.mp hsrc
  have hloop : escapeLoop dst.length dst 0 (s ++ 0 :: junk)
      = some (0 + (jsonEscape dst.length s).length, [] ++ jsonEscape dst.length s
          ++ 0 :: dst.drop ((jsonEscape dst.length s).length + 1)) :=
    escapeLoop_eq hs junk (p := []) (Nat.zero_add _) hdst
  show (if dst.length = 0 then _ else _) = _
  rw [if_neg (List.length_pos_of_ne_nil hdst).ne', hloop, Nat.zero_add, List.nil_append]
  rfl

/-- **`json_escape` escapes a start of the string, and keeps to the array.** For a string in an
array and an array of `dstSize` bytes for its escape, every store is in the array, whose rest stays
as it was. A NUL is at the index that is returned, and it is the first one. What stands before it
is the escape of a start of the string, with no escape cut in two, and undoing the escapes gives
that start back. It is the whole string exactly when its escape is shorter than the array. -/
theorem jsonEscapeInto_spec {src dst s : Bytes} {dstSize : ℕ}
    (hsrc : CString.ofArray src = some s) (hdst : dst.length = dstSize) (hpos : 1 ≤ dstSize) :
    ∃ di out, jsonEscapeInto (some src) (some dst) dstSize = some (di, some out)
      ∧ out.length = dstSize ∧ out.drop (di + 1) = dst.drop (di + 1)
      ∧ out[di]? = some 0 ∧ CString.ofArray out = some (out.take di)
      ∧ ∃ u, u <+: s ∧ out.take di = jsonEscaped u ∧ jsonUnescape (out.take di) = some u
        ∧ (u = s ↔ (jsonEscaped s).length < dstSize) := by
  subst hdst
  obtain ⟨hs, -⟩ := CString.ofArray_eq_some_iff.mp hsrc
  obtain ⟨u, hu, heq, hwhole⟩ := exists_jsonEscape_eq dst.length s
  have hfits := length_jsonEscape_lt hpos s
  rw [heq] at hfits
  have hnoNul : 0 ∉ jsonEscaped u := heq ▸ zero_notMem_jsonEscape dst.length hs
  refine ⟨_, _, jsonEscapeInto_eq hsrc (List.ne_nil_of_length_pos hpos), ?_⟩
  rw [heq, List.take_left]
  refine ⟨?_, ?_, ?_, CString.ofArray_append hnoNul _, u, hu, rfl, jsonUnescape_jsonEscaped u, ?_⟩
  · rw [List.length_append, List.length_cons, List.length_drop]
    omega
  · rw [List.drop_append, List.drop_of_length_le (Nat.le_succ _), Nat.add_sub_cancel_left]
    rfl
  · rw [List.getElem?_append_right le_rfl, Nat.sub_self]
    rfl
  · rw [hwhole]
    omega

/-- The second quote has room for one byte, and is left out. -/
theorem jsonEscapeInto_cut :
    jsonEscapeInto (some (ascii "a\"b\"" ++ [0])) (some (List.replicate 6 0xff)) 6
        = some (4, some [0x61, 0x5c, 0x22, 0x62, 0, 0xff])
      ∧ ∃ di out u, jsonEscapeInto (some (ascii "a\"b\"" ++ [0])) (some (List.replicate 6 0xff)) 6
          = some (di, some out)
        ∧ jsonUnescape (out.take di) = some u ∧ u <+: ascii "a\"b\"" ∧ u ≠ ascii "a\"b\"" := by
  have hsrc : CString.ofArray (ascii "a\"b\"" ++ [0]) = some (ascii "a\"b\"") := by decide
  obtain ⟨di, out, hout, -, -, -, -, u, hu, -, hundone, hwhole⟩ :=
    jsonEscapeInto_spec hsrc (List.length_replicate (n := 6) (a := 0xff)) (by decide)
  refine ⟨by decide, di, out, u, hout, hundone, hu, fun heq => ?_⟩
  exact absurd (hwhole.mp heq) (by decide)
