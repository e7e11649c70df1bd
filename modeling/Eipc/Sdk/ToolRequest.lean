import Eipc.Sdk.Escape

/-!
# The arguments of a tool request

`eipc_tool_request_to_json` collects the arguments in a local array of 2048 bytes. An argument is
printed with `snprintf`, which is told how much room is left and fails when the text needs more;
separators, the closing brace and the NUL are stored without a test. The model keeps the index of
every byte that is stored (`ArgsJson.writes`).

What `snprintf` accepts leaves room for one byte, its NUL. A separator takes that byte, and the
next argument then fails; but after the last argument a brace and a NUL are to be stored. So a
text of exactly 2047 bytes before the brace puts the NUL behind the array, and nothing else does
(`argsJson_inBounds_iff`).
-/

open Bytes CString

/-! ## The length of what is escaped -/

/-- The length of the longest start of a text whose escapes fit the room. -/
def fittedLength (room : ℕ) (s : Bytes) : ℕ :=
  Nat.findGreatest (fun n => ∃ u ∈ s.inits, (jsonEscaped u).length = n) room

theorem length_jsonEscape (dstSize : ℕ) (s : Bytes) :
    (jsonEscape dstSize s).length = fittedLength (dstSize - 1) s := by
  obtain ⟨u, hu, heq, hlen, hmax⟩ := jsonEscapeFrom_spec (Nat.zero_le (dstSize - 1)) s
  rw [zero_add] at hlen
  rw [jsonEscape, heq, eq_comm, fittedLength, Nat.findGreatest_eq_iff]
  refine ⟨hlen, fun _ => ⟨u, (List.mem_inits u s).mpr hu, rfl⟩, ?_⟩
  rintro n hlt hle ⟨v, hv, rfl⟩
  have hv := (List.mem_inits v s).mp hv
  have hshorter := hmax v hv (by rwa [zero_add])
  have hprefix : v <+: u := List.prefix_of_prefix_length_le hv hu hshorter
  exact absurd (length_jsonEscaped_mono hprefix) (not_le.mpr hlt)

/-! ## The model -/

/-- `eipc_kv_t`. -/
structure EipcKv where
  key : Bytes
  value : Bytes
  deriving DecidableEq, Inhabited

def eipcMaxToolArgs : ℕ := 16
def eipcToolNameMax : ℕ := 64
def eipcKvKeyMax : ℕ := 64
def eipcKvValueMax : ℕ := 256

/-- `eipc_tool_request_t`, as far as it is written. -/
structure EipcToolRequest where
  tool : Bytes
  args : Vector EipcKv eipcMaxToolArgs
  argCount : Int32
  permission : Bytes

/-- Every string is in its array. -/
structure EipcToolRequest.WellFormed (req : EipcToolRequest) : Prop where
  tool : StoredIn eipcToolNameMax req.tool
  args : ∀ arg ∈ req.args.toList, StoredIn eipcKvKeyMax arg.key ∧ StoredIn eipcKvValueMax arg.value
  permission : StoredIn eipcCapabilityMax req.permission

/-- The arguments that the loop visits. -/
def EipcToolRequest.used (req : EipcToolRequest) : List EipcKv :=
  req.args.toList.take req.argCount.toInt.toNat

/-- `sizeof(args_json)`. -/
def argsJsonSize : ℕ := 2048

/-- The array `args_json`: the bytes before the index `ai`, and the indices at which a byte was
stored so far. -/
structure ArgsJson where
  text : Bytes
  writes : List ℕ

namespace ArgsJson

/-- `args_json[ai++] = b`. -/
def put (a : ArgsJson) (b : UInt8) : ArgsJson := ⟨a.text ++ [b], a.writes ++ [a.text.length]⟩

/-- `args_json[ai] = '\0'`. -/
def terminate (a : ArgsJson) : ArgsJson := { a with writes := a.writes ++ [a.text.length] }

/-- How many bytes `snprintf` stores in a buffer of `size`, with the NUL. -/
def printedLength (size : ℕ) (s : Bytes) : ℕ := if size = 0 then 0 else min s.length (size - 1) + 1

/-- `snprintf` at the index `ai`. A text that does not fit is cut, and the function returns: an
error is what was stored by then. -/
def print (a : ArgsJson) (s : Bytes) : Except ArgsJson ArgsJson :=
  let room := argsJsonSize - a.text.length
  let writes := a.writes ++ (List.range (printedLength room s)).map (a.text.length + ·)
  if s.length ≥ room then .error { a with writes } else .ok ⟨a.text ++ s, writes⟩

end ArgsJson

/-- An argument as it is printed. -/
def argText (arg : EipcKv) : Bytes :=
  ascii "\"" ++ jsonEscape 128 arg.key ++ ascii "\":\"" ++ jsonEscape 256 arg.value ++ ascii "\""

/-- The loop over the arguments, from the `i`-th on. -/
def addArgs (i : ℕ) (a : ArgsJson) : List EipcKv → Except ArgsJson ArgsJson
  | [] => .ok a
  | arg :: args => do
    let a ← (if i > 0 then a.put 0x2c else a).print (argText arg)
    addArgs (i + 1) a args

/-- What `eipc_tool_request_to_json` does with `args_json`. -/
def argsJson (req : EipcToolRequest) : Except ArgsJson ArgsJson := do
  let a ← addArgs 0 (ArgsJson.put ⟨[], []⟩ 0x7b) req.used
  return (a.put 0x7d).terminate

/-- The indices at which it stores a byte, when it succeeds and when it fails. -/
def argsWrites (req : EipcToolRequest) : List ℕ :=
  match argsJson req with
  | .ok a => a.writes
  | .error a => a.writes

/-- `eipc_tool_request_to_json`; `none` when it stores outside of `args_json`, where nothing is
said of what it does. -/
def eipcToolRequestToJson (req : EipcToolRequest) (bufSize : ℕ) :
    Option (Except EipcStatus Bytes) :=
  if (argsWrites req).all (· < argsJsonSize) then
    some (match argsJson req with
      | .error _ => .error .buffer
      | .ok a =>
        printed .buffer bufSize
          (ascii "\x7b\"tool\":\"" ++ req.tool ++ ascii "\"," ++ ascii "\"args\":" ++ a.text
            ++ ascii "," ++ ascii "\"permission\":\"" ++ req.permission ++ ascii "\"\x7d"))
  else none

/-! ## Bounds -/

/-- The length of an argument's text: the escapes of key and value as far as they fit their
buffers, and the five bytes around them. -/
def argLength (arg : EipcKv) : ℕ := fittedLength 127 arg.key + fittedLength 255 arg.value + 5

theorem length_argText (arg : EipcKv) : (argText arg).length = argLength arg := by
  have hkey : (jsonEscape 128 arg.key).length = fittedLength 127 arg.key := length_jsonEscape 128 _
  have hvalue : (jsonEscape 256 arg.value).length = fittedLength 255 arg.value :=
    length_jsonEscape 256 _
  have hquote : (ascii "\"").length = 1 := rfl
  have hcolon : (ascii "\":\"").length = 3 := rfl
  rw [argText, argLength, List.length_append, List.length_append, List.length_append,
    List.length_append, hkey, hvalue, hquote, hcolon]
  omega

/-- The length of the text before the closing brace: the opening brace, the arguments and the
commas between them. -/
def argsLength (args : List EipcKv) : ℕ := 1 + (args.map argLength).sum + (args.length - 1)

namespace ArgsJson

/-- Every byte was stored in the array. -/
def InBounds (a : ArgsJson) : Prop := ∀ i ∈ a.writes, i < argsJsonSize

theorem InBounds.put {a : ArgsJson} (h : a.InBounds) (hlt : a.text.length < argsJsonSize)
    (b : UInt8) : (a.put b).InBounds := by
  refine List.forall_mem_append.mpr ⟨h, List.forall_mem_singleton.mpr hlt⟩

theorem length_put (a : ArgsJson) (b : UInt8) : (a.put b).text.length = a.text.length + 1 := by
  rw [ArgsJson.put, List.length_append, List.length_singleton]

/-- What `snprintf` stores is in the array, whether the text fits or not. -/
theorem inBounds_print {a : ArgsJson} (h : a.InBounds) (s : Bytes) :
    ∀ i ∈ a.writes ++ (List.range (printedLength (argsJsonSize - a.text.length) s)).map
      (a.text.length + ·), i < argsJsonSize := by
  refine List.forall_mem_append.mpr ⟨h, List.forall_mem_map.mpr fun k hk => ?_⟩
  rw [List.mem_range, printedLength] at hk
  split_ifs at hk <;> omega

/-- **One print**: it succeeds when it leaves room for a byte more, and stays in the array. -/
theorem print_spec {a : ArgsJson} (h : a.InBounds) (s : Bytes) :
    (∃ a', a.print s = .ok a' ∧ a'.InBounds ∧ a'.text.length = a.text.length + s.length
        ∧ a'.text.length < argsJsonSize)
      ∨ ∃ a', a.print s = .error a' ∧ a'.InBounds ∧ argsJsonSize ≤ a.text.length + s.length := by
  by_cases hroom : s.length ≥ argsJsonSize - a.text.length
  · exact .inr ⟨_, if_pos hroom, inBounds_print h s, by omega⟩
  · refine .inl ⟨_, if_neg hroom, inBounds_print h s, List.length_append, ?_⟩
    rw [List.length_append]
    omega

end ArgsJson

/-- **The loop**: it succeeds when the whole text leaves room for a byte more, and stays in the
array. From the second argument on, every argument has a comma before it. -/
theorem addArgs_spec {i : ℕ} {a : ArgsJson} (h : a.InBounds) (hlt : a.text.length < argsJsonSize)
    (args : List EipcKv) {n : ℕ} (hn : n = a.text.length + (args.map argLength).sum
      + if i > 0 then args.length else args.length - 1) :
    (∃ a', addArgs i a args = .ok a' ∧ a'.InBounds ∧ a'.text.length = n ∧ n < argsJsonSize)
      ∨ ∃ a', addArgs i a args = .error a' ∧ a'.InBounds ∧ argsJsonSize ≤ n := by
  induction args generalizing i a n with
  | nil =>
    refine .inl ⟨a, rfl, h, ?_⟩
    simp only [List.map_nil, List.sum_nil, List.length_nil, Nat.zero_sub, ite_self] at hn
    omega
  | cons arg args ih =>
    rw [List.map_cons, List.sum_cons, List.length_cons, ← length_argText] at hn
    obtain ⟨a₀, ha₀, hbounds, hlen⟩ : ∃ a₀, (if i > 0 then a.put 0x2c else a) = a₀ ∧ a₀.InBounds
        ∧ a₀.text.length = a.text.length + if i > 0 then 1 else 0 := by
      refine ⟨_, rfl, ?_⟩
      split_ifs
      · exact ⟨h.put hlt 0x2c, a.length_put 0x2c⟩
      · exact ⟨h, rfl⟩
    have hstep : addArgs i a (arg :: args)
        = (a₀.print (argText arg)).bind fun a => addArgs (i + 1) a args := by
      rw [addArgs, ha₀]
      rfl
    rw [hstep]
    rcases a₀.print_spec hbounds (argText arg) with
      ⟨a', hprint, hbounds', hlen', hlt'⟩ | ⟨a', hprint, hbounds', hfull⟩
    · rw [hprint]
      refine ih hbounds' hlt' ?_
      rw [if_pos (Nat.succ_pos i), hlen', hlen, hn]
      split_ifs <;> omega
    · rw [hprint]
      refine .inr ⟨a', rfl, hbounds', ?_⟩
      rw [hlen] at hfull
      split_ifs at hn hfull <;> omega

/-- **Where the bytes go**: what the loop stores is in the array. If the text before the closing
brace leaves room for a byte, a brace and a NUL follow it. -/
theorem exists_argsWrites_eq (req : EipcToolRequest) :
    ∃ a : ArgsJson, a.InBounds ∧ argsWrites req = a.writes ++
      if argsLength req.used < argsJsonSize then [argsLength req.used, argsLength req.used + 1]
      else [] := by
  have hopen : (ArgsJson.put ⟨[], []⟩ 0x7b).InBounds :=
    List.forall_mem_singleton.mpr (by decide)
  have hspec := addArgs_spec (i := 0) hopen (by decide) req.used rfl
  rw [if_neg (by decide)] at hspec
  have hlength : (ArgsJson.put ⟨[], []⟩ 0x7b).text.length + (req.used.map argLength).sum
      + (req.used.length - 1) = argsLength req.used := rfl
  rw [hlength] at hspec
  rcases hspec with ⟨a, hok, hbounds, hlen, hlt⟩ | ⟨a, herr, hbounds, hle⟩
  · refine ⟨a, hbounds, ?_⟩
    rw [if_pos hlt, argsWrites, argsJson, hok]
    show a.writes ++ [a.text.length] ++ [(a.put 0x7d).text.length] = _
    rw [a.length_put, hlen, List.append_assoc]
    rfl
  · refine ⟨a, hbounds, ?_⟩
    rw [if_neg (not_lt.mpr hle), List.append_nil, argsWrites, argsJson, herr]
    rfl

/-- **The bounds of `args_json`.** Every byte is stored inside of the array exactly when the text
before the closing brace is not 2047 bytes long: then the brace takes the last byte. -/
theorem argsJson_inBounds_iff (req : EipcToolRequest) :
    (∀ i ∈ argsWrites req, i < 2048) ↔ argsLength req.used ≠ 2047 := by
  obtain ⟨a, hbounds, heq⟩ := exists_argsWrites_eq req
  have hsize : argsJsonSize = 2048 := rfl
  rw [heq, List.forall_mem_append]
  split_ifs with hlt
  · rw [List.forall_mem_cons, List.forall_mem_singleton]
    exact ⟨fun hall => by omega, fun hne => ⟨hbounds, hlt, by omega⟩⟩
  · exact ⟨fun _ => by omega, fun _ => ⟨hbounds, List.forall_mem_nil _⟩⟩

/-- Eight arguments with short keys and long values, whose text is 2047 bytes long. -/
theorem argsJson_outOfBounds :
    ∃ req : EipcToolRequest, req.WellFormed ∧ 2048 ∈ argsWrites req := by
  refine ⟨⟨ascii "t", Vector.ofFn fun i => ⟨ascii "k",
    List.replicate (if i.val < 7 then 255 else 206) 0x78⟩, 8, []⟩, ⟨?_, ?_, ?_⟩, ?_⟩
  · exact ⟨by decide, by decide⟩
  · intro arg harg
    obtain ⟨i, rfl⟩ := Vector.mem_ofFn.mp (Vector.mem_toList_iff.mp harg)
    have hkey : StoredIn eipcKvKeyMax (ascii "k") := ⟨by decide, by decide⟩
    refine ⟨hkey, ⟨?_, ?_⟩⟩
    · rw [List.length_replicate]
      split_ifs <;> decide
    · exact fun hmem => absurd (List.eq_of_mem_replicate hmem) (by decide)
  · exact ⟨by decide, by decide⟩
  · obtain ⟨a, -, heq⟩ := exists_argsWrites_eq ⟨ascii "t", Vector.ofFn fun i => ⟨ascii "k",
      List.replicate (if i.val < 7 then 255 else 206) 0x78⟩, 8, []⟩
    rw [heq]
    refine List.mem_append_right _ ?_
    have hlength : ∀ args : List EipcKv, argsLength args
        = 1 + (args.map fun arg => (argText arg).length).sum + (args.length - 1) := fun args => by
      simp only [length_argText]
      rfl
    rw [hlength]
    decide +kernel

/-! ## The text -/

/-- The arguments that follow the first one. -/
def argsTail (args : List EipcKv) : Bytes := args.flatMap fun arg => 0x2c :: argText arg

/-- The arguments, with commas between them. -/
def argsText : List EipcKv → Bytes
  | [] => []
  | arg :: args => argText arg ++ argsTail args

theorem ArgsJson.text_of_print {a a' : ArgsJson} {s : Bytes} (h : a.print s = .ok a') :
    a'.text = a.text ++ s := by
  unfold ArgsJson.print at h
  dsimp only at h
  split at h
  · exact (nomatch h)
  · rw [← Except.ok.inj h]

theorem text_of_addArgs_succ {i : ℕ} {a a' : ArgsJson} {args : List EipcKv}
    (h : addArgs (i + 1) a args = .ok a') : a'.text = a.text ++ argsTail args := by
  induction args generalizing i a with
  | nil =>
    rw [← Except.ok.inj h, argsTail, List.flatMap_nil, List.append_nil]
  | cons arg args ih =>
    rw [addArgs, if_pos (Nat.succ_pos i)] at h
    obtain ⟨a₁, hprint, hrest⟩ := Except.bind_eq_ok_iff.mp h
    rw [ih hrest, ArgsJson.text_of_print hprint, ArgsJson.put, argsTail, argsTail,
      List.flatMap_cons, List.append_assoc, List.append_assoc]
    rfl

/-- What the loop leaves in the array. -/
theorem text_of_addArgs {a a' : ArgsJson} {args : List EipcKv} (h : addArgs 0 a args = .ok a') :
    a'.text = a.text ++ argsText args := by
  cases args with
  | nil =>
    rw [← Except.ok.inj h, argsText, List.append_nil]
  | cons arg args =>
    rw [addArgs, if_neg (lt_irrefl 0)] at h
    obtain ⟨a₁, hprint, hrest⟩ := Except.bind_eq_ok_iff.mp h
    rw [text_of_addArgs_succ hrest, ArgsJson.text_of_print hprint, argsText, List.append_assoc]

/-- The text of the arguments, when there is one. -/
theorem text_of_argsJson {req : EipcToolRequest} {a : ArgsJson} (h : argsJson req = .ok a) :
    a.text = 0x7b :: argsText req.used ++ [0x7d] := by
  obtain ⟨a₁, hargs, hrest⟩ := Except.bind_eq_ok_iff.mp h
  rw [← Except.ok.inj hrest]
  show a₁.text ++ [0x7d] = _
  rw [text_of_addArgs hargs]
  rfl
