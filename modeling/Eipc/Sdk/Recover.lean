import Eipc.Sdk.ToolRequest

/-!
# Undoing the escapes

What a receiver that undoes escapes makes of the payloads that the C SDK writes: it reads a string
literal up to its closing quote and undoes the escapes in between (`readLiteral`). It takes control
characters as they are, which a strict reader of JSON would refuse.

A string that went through `json_escape` comes back (`readLiteral_jsonEscaped`). A string that was
written as it is comes back exactly when it has neither quotes nor backslashes
(`readLiteral_raw_iff`): with either, the literal ends early, goes on behind its closing quote, or
loses a backslash.
-/

open Bytes CString

/-! ## Escapes -/

/-- A backslash is an escaped backslash. -/
theorem eq_slash_of_jsonUnescapeLetter {e : UInt8} (h : jsonUnescapeLetter e = some 0x5c) :
    e = 0x5c := by
  unfold jsonUnescapeLetter at h
  split_ifs at h
  · exact Option.some.inj h
  all_goals exact absurd (Option.some.inj h) (by decide)

/-- A text without backslashes stands for itself. -/
theorem jsonUnescape_of_notMem {s : Bytes} (h : 0x5c ∉ s) : jsonUnescape s = some s := by
  induction s with
  | nil => exact jsonUnescape_nil
  | cons b s ih =>
    rw [List.mem_cons, not_or] at h
    rw [jsonUnescape_plain (Ne.symm h.1), ih h.2, Option.map_some]

/-- Undoing escapes makes a text no longer. -/
theorem length_le_of_jsonUnescape {t s : Bytes} (h : jsonUnescape t = some s) :
    s.length ≤ t.length := by
  induction t using unescape_induction generalizing s with
  | nil =>
    rw [← Option.some.inj (jsonUnescape_nil.symm.trans h)]
  | slash => exact (nomatch jsonUnescape_slash.symm.trans h)
  | escape e t ih =>
    rw [jsonUnescape_escape, Option.bind_eq_some_iff] at h
    obtain ⟨c, -, hrest⟩ := h
    obtain ⟨s', hs', rfl⟩ := Option.map_eq_some_iff.mp hrest
    exact Nat.le_succ_of_le (Nat.succ_le_succ (ih hs'))
  | plain b t hb ih =>
    rw [jsonUnescape_plain hb] at h
    obtain ⟨s', hs', rfl⟩ := Option.map_eq_some_iff.mp h
    exact Nat.succ_le_succ (ih hs')

/-! ## Texts that were not escaped

The text `t` is what a receiver takes for an escaped one, and `p` a start that the text and what
it stands for have in common. -/

/-- What a text that stands for something starts with: a byte as it is, or an escape. -/
theorem jsonUnescape_eq_cons {t s : Bytes} {c : UInt8} (h : jsonUnescape t = some (c :: s)) :
    (c ≠ 0x5c ∧ ∃ t', t = c :: t' ∧ jsonUnescape t' = some s)
      ∨ ∃ e t', t = 0x5c :: e :: t' ∧ jsonUnescapeLetter e = some c ∧ jsonUnescape t' = some s := by
  cases t using unescape_induction with
  | nil => exact (nomatch jsonUnescape_nil.symm.trans h)
  | slash => exact (nomatch jsonUnescape_slash.symm.trans h)
  | escape e t _ =>
    rw [jsonUnescape_escape, Option.bind_eq_some_iff] at h
    obtain ⟨d, hd, hrest⟩ := h
    obtain ⟨s', hs', hcons⟩ := Option.map_eq_some_iff.mp hrest
    obtain ⟨rfl, rfl⟩ := List.cons.inj hcons
    exact .inr ⟨e, t, rfl, hd, hs'⟩
  | plain b t hb _ =>
    rw [jsonUnescape_plain hb] at h
    obtain ⟨s', hs', hcons⟩ := Option.map_eq_some_iff.mp h
    obtain ⟨rfl, rfl⟩ := List.cons.inj hcons
    exact .inl ⟨hb, t, rfl, hs'⟩

/-- A text that stands for one with a backslash in front starts with two. -/
theorem eq_slashes_of_jsonUnescape {t s : Bytes} (h : jsonUnescape t = some (0x5c :: s)) :
    ∃ t', t = 0x5c :: 0x5c :: t' ∧ jsonUnescape t' = some s := by
  rcases jsonUnescape_eq_cons h with ⟨hne, -⟩ | ⟨e, t', rfl, he, ht'⟩
  · exact absurd rfl hne
  · rw [eq_slash_of_jsonUnescapeLetter he]
    exact ⟨t', rfl, ht'⟩

theorem replicate_prefix_of_jsonUnescape {t s : Bytes} {k : ℕ} (h : jsonUnescape t = some s)
    (hs : List.replicate k 0x5c <+: s) : List.replicate (2 * k) 0x5c <+: t := by
  induction k generalizing t s with
  | zero => exact List.nil_prefix
  | succ k ih =>
    rw [List.replicate_succ] at hs
    obtain ⟨s', rfl, hs'⟩ := List.cons_prefix_iff.mp hs
    obtain ⟨t', rfl, ht'⟩ := eq_slashes_of_jsonUnescape h
    show List.replicate (2 * k + 1 + 1) 0x5c <+: _
    rw [List.replicate_succ, List.replicate_succ, List.cons_prefix_cons, List.cons_prefix_cons]
    exact ⟨rfl, rfl, ih ht' hs'⟩

/-- After one backslash too many, what the two have in common is backslashes. -/
theorem eq_replicate_of_jsonUnescape {t s p : Bytes} {j : ℕ} (h : jsonUnescape t = some s)
    (hs : p <+: s) (ht : p <+: List.replicate (j + 1) 0x5c ++ t) :
    p = List.replicate p.length 0x5c := by
  induction p generalizing t s j with
  | nil => rfl
  | cons c p ih =>
    rw [List.replicate_succ, List.cons_append] at ht
    obtain ⟨rfl, htail⟩ := List.cons_prefix_cons.mp ht
    obtain ⟨s', rfl, hs'⟩ := List.cons_prefix_iff.mp hs
    obtain ⟨t', rfl, ht'⟩ := eq_slashes_of_jsonUnescape h
    have hmore : List.replicate j 0x5c ++ 0x5c :: 0x5c :: t'
        = List.replicate (j + 1 + 1) 0x5c ++ t' := by
      rw [List.replicate_succ', List.replicate_succ', List.append_assoc, List.append_assoc]
      rfl
    rw [hmore] at htail
    rw [List.length_cons, List.replicate_succ, ← ih ht' hs' htail]

/-- **What a text and what it stands for start with alike**: bytes that are not escaped, and then
backslashes, which the text has twice. -/
theorem common_of_jsonUnescape {t s p : Bytes} (h : jsonUnescape t = some s) (hs : p <+: s)
    (ht : p <+: t) :
    ∃ u k, 0x5c ∉ u ∧ p = u ++ List.replicate k 0x5c ∧ u ++ List.replicate (2 * k) 0x5c <+: t := by
  induction p generalizing t s with
  | nil => exact ⟨[], 0, List.not_mem_nil, rfl, List.nil_prefix⟩
  | cons c p ih =>
    obtain ⟨s', rfl, hs'⟩ := List.cons_prefix_iff.mp hs
    rcases jsonUnescape_eq_cons h with ⟨hne, t', rfl, ht'⟩ | ⟨e, t', rfl, he, ht'⟩
    · obtain ⟨u, k, hu, rfl, hprefix⟩ := ih ht' hs' (List.cons_prefix_cons.mp ht).2
      refine ⟨c :: u, k, ?_, rfl, List.cons_prefix_cons.mpr ⟨rfl, hprefix⟩⟩
      rw [List.mem_cons, not_or]
      exact ⟨hne.symm, hu⟩
    · obtain ⟨rfl, htail⟩ := List.cons_prefix_cons.mp ht
      rw [eq_slash_of_jsonUnescapeLetter he] at htail
      have hp := eq_replicate_of_jsonUnescape (j := 0) ht' hs' htail
      have hslashes : 0x5c :: p = List.replicate (p.length + 1) 0x5c := by
        rw [List.replicate_succ, ← hp]
      refine ⟨[], p.length + 1, List.not_mem_nil, hslashes, ?_⟩
      rw [hslashes] at hs
      exact replicate_prefix_of_jsonUnescape h hs

/-! ## Literals -/

/-- A string that needs no escapes, and was not given any: without quotes and backslashes. -/
def Unmarked (s : Bytes) : Prop := 0x22 ∉ s ∧ 0x5c ∉ s

instance (s : Bytes) : Decidable (Unmarked s) := inferInstanceAs (Decidable (_ ∧ _))

theorem literalEnd_of_notMem {s : Bytes} (h : 0x5c ∉ s) :
    literalEnd s = if 0x22 ∈ s then .stopped else .closed := by
  induction s with
  | nil => rw [literalEnd_nil, if_neg List.not_mem_nil]
  | cons b s ih =>
    rw [List.mem_cons, not_or] at h
    by_cases hb : b = 0x22
    · rw [hb, literalEnd_quote, if_pos List.mem_cons_self]
    · rw [literalEnd_plain hb (Ne.symm h.1), ih h.2]
      simp only [List.mem_cons, Ne.symm hb, false_or]

/-- Reads a string literal and undoes its escapes; the string, and what follows the literal. -/
def readLiteral : Bytes → Option (Bytes × Bytes)
  | [] => none
  | b :: t =>
    let body := jsonScanString t
    if b = 0x22 ∧ (t.drop body.length).head? = some 0x22 then
      (jsonUnescape body).map fun s => (s, (t.drop body.length).tail)
    else none

theorem readLiteral_of_scan {body t rest : Bytes} (hscan : jsonScanString t = body)
    (ht : t = body ++ 0x22 :: rest) :
    readLiteral (0x22 :: t) = (jsonUnescape body).map fun s => (s, rest) := by
  have hdrop : t.drop body.length = 0x22 :: rest := by
    rw [ht, List.drop_left]
  rw [readLiteral]
  simp only [hscan, hdrop, List.head?_cons, and_self, if_true, List.tail_cons]

theorem jsonUnescape_of_readLiteral {b : UInt8} {t s rest : Bytes}
    (h : readLiteral (b :: t) = some (s, rest)) : jsonUnescape (jsonScanString t) = some s := by
  rw [readLiteral] at h
  split_ifs at h
  obtain ⟨s', hs', hpair⟩ := Option.map_eq_some_iff.mp h
  rw [hs', (Prod.mk.inj hpair).1]

/-- **A string that was escaped comes back.** -/
theorem readLiteral_jsonEscaped (s t : Bytes) :
    readLiteral (0x22 :: (jsonEscaped s ++ 0x22 :: t)) = some (s, t) := by
  rw [readLiteral_of_scan (jsonScanString_of_closed (literalEnd_jsonEscaped s) t) rfl,
    jsonUnescape_jsonEscaped, Option.map_some]

/-- A string without quotes and backslashes comes back. -/
theorem readLiteral_of_unmarked {s : Bytes} (h : Unmarked s) (t : Bytes) :
    readLiteral (0x22 :: (s ++ 0x22 :: t)) = some (s, t) := by
  have hclosed : literalEnd s = .closed := by
    rw [literalEnd_of_notMem h.2, if_neg h.1]
  rw [readLiteral_of_scan (jsonScanString_of_closed hclosed t) rfl, jsonUnescape_of_notMem h.2,
    Option.map_some]

/-- **A string that was written as it is**, or the start `p` of one, comes back as the string
exactly when it is the whole string and has neither quotes nor backslashes. -/
theorem readLiteral_raw_iff {p s : Bytes} (hp : p <+: s) (t : Bytes) :
    (∃ rest, readLiteral (0x22 :: (p ++ 0x22 :: t)) = some (s, rest)) ↔ p = s ∧ Unmarked s := by
  constructor
  · rintro ⟨rest, h⟩
    have hbody := jsonUnescape_of_readLiteral h
    cases hend : literalEnd p with
    | closed =>
      rw [jsonScanString_of_closed hend] at hbody
      have hps : p = s := hp.eq_of_length_le (length_le_of_jsonUnescape hbody)
      obtain ⟨u, k, hu, hpu, hprefix⟩ := common_of_jsonUnescape hbody hp List.prefix_rfl
      have hlen := hprefix.length_le
      rw [hpu, List.length_append, List.length_append, List.length_replicate,
        List.length_replicate] at hlen
      obtain rfl : k = 0 := by omega
      rw [List.replicate_zero, List.append_nil] at hpu
      subst hpu
      rw [literalEnd_of_notMem hu] at hend
      refine ⟨hps, hps ▸ ⟨fun hquote => ?_, hu⟩⟩
      rw [if_pos hquote] at hend
      exact (nomatch hend)
    | pending =>
      -- the backslash that takes the closing quote with it would have to be there twice
      rw [jsonScanString_of_pending hend] at hbody
      obtain ⟨u, k, hu, hpu, hprefix⟩ :=
        common_of_jsonUnescape hbody hp (List.prefix_append p _)
      cases k with
      | zero =>
        rw [List.replicate_zero, List.append_nil] at hpu
        subst hpu
        rw [literalEnd_of_notMem hu] at hend
        split_ifs at hend
      | succ k =>
        rw [hpu, List.append_assoc, List.prefix_append_right_inj, Nat.two_mul, List.replicate_add,
          List.prefix_append_right_inj, List.replicate_succ, List.cons_prefix_cons] at hprefix
        exact absurd hprefix.1 (by decide)
    | stopped =>
      have hlt := length_jsonScanString_of_stopped hend (0x22 :: t)
      exact absurd (hp.length_le.trans (length_le_of_jsonUnescape hbody)) (not_le.mpr hlt)
  · rintro ⟨rfl, hunmarked⟩
    exact ⟨t, readLiteral_of_unmarked hunmarked t⟩

/-! ## Payloads -/

/-- Takes a fixed text from the front. -/
def expect (p t : Bytes) : Option Bytes := if p <+: t then some (t.drop p.length) else none

theorem expect_append (p t : Bytes) : expect p (p ++ t) = some t := by
  rw [expect, if_pos (List.prefix_append p t), List.drop_left]

/-- The intent in a payload. -/
def recoverIntent (payload : Bytes) : Option Bytes := do
  let t ← expect (ascii "\x7b\"intent\":") payload
  let (intent, _) ← readLiteral t
  return intent

/-- The request id and the status in a payload. -/
def recoverAck (payload : Bytes) : Option (Bytes × Bytes) := do
  let t ← expect (ascii "\x7b\"request_id\":") payload
  let (requestId, t) ← readLiteral t
  let t ← expect (ascii ",\"status\":") t
  let (status, _) ← readLiteral t
  return (requestId, status)

/-- One argument of a tool request. -/
def readArg (t : Bytes) : Option (EipcKv × Bytes) := do
  let (key, t) ← readLiteral t
  let t ← expect [0x3a] t
  let (value, t) ← readLiteral t
  return (⟨key, value⟩, t)

/-- The arguments that follow the first one, `n` at most, up to the closing brace. -/
def readArgsTail : ℕ → Bytes → Option (List EipcKv)
  | 0, _ => none
  | n + 1, t =>
    if t.head? = some 0x7d then some []
    else do
      let t ← expect [0x2c] t
      let (arg, t) ← readArg t
      let args ← readArgsTail n t
      return arg :: args

/-- The arguments, after the opening brace. -/
def readArgs (t : Bytes) : Option (List EipcKv) :=
  if t.head? = some 0x7d then some []
  else do
    let (arg, t) ← readArg t
    let args ← readArgsTail t.length t
    return arg :: args

/-- The tool and the arguments in a payload. -/
def recoverToolRequest (payload : Bytes) : Option (Bytes × List EipcKv) := do
  let t ← expect (ascii "\x7b\"tool\":") payload
  let (tool, t) ← readLiteral t
  let t ← expect (ascii ",\"args\":\x7b") t
  let args ← readArgs t
  return (tool, args)

/-! ## Arguments -/

/-- The escapes of key and value fit their buffers. -/
def EipcKv.Fits (arg : EipcKv) : Prop :=
  (jsonEscaped arg.key).length ≤ 127 ∧ (jsonEscaped arg.value).length ≤ 255

/-- An argument comes back when it fits, and as another one when it does not. -/
theorem readArg_argText (arg : EipcKv) (t : Bytes) :
    ∃ arg', readArg (argText arg ++ t) = some (arg', t) ∧ (arg' = arg ↔ arg.Fits) := by
  obtain ⟨key, -, hkey, hkeyIff⟩ := exists_jsonEscape_eq 128 arg.key
  obtain ⟨value, -, hvalue, hvalueIff⟩ := exists_jsonEscape_eq 256 arg.value
  have htext : argText arg ++ t = 0x22 :: (jsonEscaped key ++ 0x22 :: ([0x3a]
      ++ 0x22 :: (jsonEscaped value ++ 0x22 :: t))) := by
    have hquote : ascii "\"" = [0x22] := by decide
    have hcolon : ascii "\":\"" = [0x22, 0x3a, 0x22] := by decide
    simp only [argText, hkey, hvalue, hquote, hcolon, List.append_assoc, List.cons_append,
      List.nil_append]
  refine ⟨⟨key, value⟩, ?_, ?_⟩
  · simp only [readArg, htext, readLiteral_jsonEscaped, expect_append, Option.bind_eq_bind,
      Option.bind_some, Option.pure_def]
  · rw [EipcKv.mk.injEq, hkeyIff, hvalueIff]
    rfl

theorem length_le_length_argsTail (args : List EipcKv) : args.length ≤ (argsTail args).length := by
  induction args with
  | nil => exact le_rfl
  | cons arg args ih =>
    rw [argsTail, List.flatMap_cons, List.length_append, List.length_cons, List.length_cons,
      Nat.add_comm]
    exact Nat.add_le_add (Nat.le_add_left 1 _) ih

theorem readArgsTail_argsTail {n : ℕ} {args : List EipcKv} (hn : args.length < n) (rest : Bytes) :
    ∃ args', readArgsTail n (argsTail args ++ 0x7d :: rest) = some args'
      ∧ (args' = args ↔ ∀ arg ∈ args, arg.Fits) := by
  induction args generalizing n with
  | nil =>
    obtain ⟨n, rfl⟩ : ∃ m, n = m + 1 := ⟨n - 1, (Nat.succ_pred_eq_of_pos hn).symm⟩
    exact ⟨[], if_pos rfl, iff_of_true rfl (List.forall_mem_nil _)⟩
  | cons arg args ih =>
    obtain ⟨n, rfl⟩ : ∃ m, n = m + 1 := ⟨n - 1, (Nat.succ_pred_eq_of_pos (by omega)).symm⟩
    obtain ⟨arg', hread, hargIff⟩ := readArg_argText arg (argsTail args ++ 0x7d :: rest)
    obtain ⟨args', htail, hargsIff⟩ := ih (Nat.lt_of_succ_lt_succ hn)
    have htext : argsTail (arg :: args) ++ 0x7d :: rest
        = [0x2c] ++ (argText arg ++ (argsTail args ++ 0x7d :: rest)) := by
      simp only [argsTail, List.flatMap_cons, List.cons_append, List.append_assoc, List.nil_append]
    refine ⟨arg' :: args', ?_, ?_⟩
    · have hcomma : ([0x2c] ++ (argText arg ++ (argsTail args ++ 0x7d :: rest))).head?
          ≠ some 0x7d := by
        simp
      rw [htext, readArgsTail, if_neg hcomma, expect_append]
      show (readArg _).bind _ = _
      rw [hread, Option.bind_some]
      show (readArgsTail n _).bind _ = _
      rw [htail]
      rfl
    · rw [List.cons.injEq, hargIff, hargsIff, List.forall_mem_cons]

/-- The arguments come back when all of them fit, and as others when one does not. -/
theorem readArgs_argsText (args : List EipcKv) (rest : Bytes) :
    ∃ args', readArgs (argsText args ++ 0x7d :: rest) = some args'
      ∧ (args' = args ↔ ∀ arg ∈ args, arg.Fits) := by
  cases args with
  | nil => exact ⟨[], if_pos rfl, iff_of_true rfl (List.forall_mem_nil _)⟩
  | cons arg args =>
    obtain ⟨arg', hread, hargIff⟩ := readArg_argText arg (argsTail args ++ 0x7d :: rest)
    have hlength : args.length < (argsTail args ++ 0x7d :: rest).length := by
      have hle := length_le_length_argsTail args
      rw [List.length_append, List.length_cons]
      omega
    obtain ⟨args', htail, hargsIff⟩ := readArgsTail_argsTail hlength rest
    refine ⟨arg' :: args', ?_, ?_⟩
    · have hquote : (argsText (arg :: args) ++ 0x7d :: rest).head? ≠ some 0x7d := by
        have hfirst : ascii "\"" = [0x22] := by decide
        simp [argsText, argText, hfirst]
      rw [readArgs, if_neg hquote, argsText, List.append_assoc, hread]
      show (readArgsTail _ _).bind _ = _
      rw [htail]
      rfl
    · rw [List.cons.injEq, hargIff, hargsIff, List.forall_mem_cons]
