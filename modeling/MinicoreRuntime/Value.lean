import MinicoreRuntime.Containers.Utf8
import Mathlib.Algebra.BigOperators.Group.List.Basic
import Mathlib.Algebra.GroupWithZero.Nat
import Mathlib.Order.Nat
import Mathlib.Tactic.Common

/-!
# Bounded values

The text and JSON values every other component is built from, with their byte budgets. Text is a
list of characters and is measured in UTF-8 bytes.

Model text is normalised before it is stored: line breaks become LF and every other control
character becomes a space. The runtime normalises a whole text at once, and the stream assembler
normalises it delta by delta; `normalizeFrom` is the common refinement that carries a pending CR
from one delta to the next.

## Main definitions

* `Text`, `byteLen`, `validText`: text and its admission check.
* `BoundedText`: text within the absolute byte cap.
* `normalizeModelText`, `normalizeFrom`: normalisation of a whole text and of one delta.
* `Json`, `Json.writes`, `validateJsonSize`: JSON values and their budgets.

## Main results

* `normalizeFrom_append`: normalising in pieces is normalising the whole.
* `validText_normalizeModelText`, `normalizeModelText_of_valid`: normalised text is valid, and
  valid text is normalised.
* `validateJsonSize_mono`: a larger budget accepts more.
-/

namespace MinicoreRuntime

/-! ## Text -/

/-- Text, as its sequence of characters. -/
abbrev Text := List Char

/-- The length of a text in UTF-8 bytes. -/
def byteLen (value : Text) : Nat :=
  (value.map Char.utf8Size).sum

@[simp]
theorem byteLen_nil : byteLen [] = 0 := rfl

@[simp]
theorem byteLen_cons (c : Char) (value : Text) :
    byteLen (c :: value) = c.utf8Size + byteLen value := by
  simp [byteLen]

@[simp]
theorem byteLen_append (s t : Text) : byteLen (s ++ t) = byteLen s + byteLen t := by
  simp [byteLen]

theorem byteLen_eq_zero {value : Text} : byteLen value = 0 ↔ value = [] := by
  cases value with
  | nil => simp
  | cons c value =>
    have := c.utf8Size_pos
    simp only [byteLen_cons, reduceCtorEq, iff_false]
    omega

/-- Texts are measured in the bytes of their encoding. -/
theorem length_encode (value : Text) : (Utf8.encode value).length = byteLen value := by
  induction value with
  | nil => rfl
  | cons c value ih =>
    rw [Utf8.encode_cons, List.length_append, String.length_utf8EncodeChar, ih, byteLen_cons]

/-- The absolute cap on a bounded text. -/
def maxTextBytes : Nat := 256 * 1024

/-- The absolute cap on a JSON value. -/
def maxJsonBytes : Nat := 64 * 1024

/-- The absolute cap on the nesting depth of a JSON value. -/
def maxJsonDepth : Nat := 32

/-- The absolute cap on the number of nodes of a JSON value. -/
def maxJsonNodes : Nat := 4096

/-- The largest `usize`. -/
def usizeMax : Nat := 2 ^ 64 - 1

/-- The ways constructing a bounded value fails. -/
inductive ValueError where
  | invalidText
  | textLimitTooLarge
  | textTooLarge
  | jsonLimitTooLarge
  | jsonTooLarge
  | jsonTooDeep
  | jsonTooManyNodes
  | jsonSerialization
deriving DecidableEq, Repr

/-- A Unicode control character. -/
def isControl (c : Char) : Bool :=
  c.toNat < 0x20 || (0x7f ≤ c.toNat && c.toNat < 0xa0)

/-- A character that model text may contain. -/
def legalChar (c : Char) : Bool :=
  !isControl c || c == '\n' || c == '\t'

/-- Whether a text is within `maximum` bytes and has no control character but LF and TAB. -/
def validText (value : Text) (maximum : Nat) (allowEmpty : Bool) : Bool :=
  (allowEmpty || !value.isEmpty) && decide (byteLen value ≤ maximum) && value.all legalChar

theorem validText_iff {value : Text} {maximum : Nat} {allowEmpty : Bool} :
    validText value maximum allowEmpty = true ↔
      (allowEmpty = true ∨ value ≠ []) ∧ byteLen value ≤ maximum ∧
        ∀ c ∈ value, legalChar c = true := by
  simp [validText, and_assoc]

/-- A text within the absolute byte cap. -/
structure BoundedText where
  /-- The text. -/
  asStr : Text
  /-- It is within the cap. -/
  bounded : byteLen asStr ≤ maxTextBytes
deriving DecidableEq

namespace BoundedText

/-- The absolute cap. -/
def maxBytes : Nat := maxTextBytes

/-- Check a text against a byte limit, itself at most the absolute cap. -/
def newWithMaxBytes (value : Text) (limit : Nat) : Except ValueError BoundedText :=
  if h : limit > maxBytes then .error .textLimitTooLarge
  else if h' : byteLen value > limit then .error .textTooLarge
  else .ok ⟨value, by unfold maxBytes at h; omega⟩

/-- Check a text against the absolute cap. -/
def new (value : Text) : Except ValueError BoundedText :=
  newWithMaxBytes value maxBytes

/-- The length of the text in bytes. -/
def byteLen (t : BoundedText) : Nat := MinicoreRuntime.byteLen t.asStr

/-- Whether the text is empty. -/
def isEmpty (t : BoundedText) : Bool := t.asStr.isEmpty

/-- The text whose bound is evident from its size. -/
def ofBounded (value : Text) (h : MinicoreRuntime.byteLen value ≤ maxTextBytes) : BoundedText :=
  ⟨value, h⟩

theorem isEmpty_iff {t : BoundedText} : t.isEmpty = true ↔ t.asStr = [] := by
  rw [isEmpty, List.isEmpty_iff]

theorem new_eq_ok {value : Text} (h : MinicoreRuntime.byteLen value ≤ maxTextBytes) :
    new value = .ok ⟨value, h⟩ := by
  have hlt : ¬ maxTextBytes < MinicoreRuntime.byteLen value := by omega
  simp [new, newWithMaxBytes, maxBytes, hlt]

end BoundedText

/-! ## Normalisation -/

/-- The character a single character of model text is stored as, line breaks apart. -/
def normalizeChar (c : Char) : Char :=
  if c = '\r' then '\n' else if c = '\n' ∨ c = '\t' then c else if isControl c then ' ' else c

/-- The characters of a model text after normalisation. A CR with the LF that follows it is one
line break. -/
def normalizeChars : Text → Text
  | [] => []
  | '\r' :: '\n' :: rest => '\n' :: normalizeChars rest
  | c :: rest => normalizeChar c :: normalizeChars rest

/-- Normalise model text; valid text is returned as it is. -/
def normalizeModelText (value : Text) : Text :=
  if validText value usizeMax true then value else normalizeChars value

/-- Normalise one delta; `cr` says that the text before it ended with CR. -/
def normalizeFrom : Bool → Text → Text
  | _, [] => []
  | cr, c :: rest =>
    if cr && c == '\n' then normalizeFrom false rest
    else normalizeChar c :: normalizeFrom (c == '\r') rest

/-- Whether the text ends with CR once `value` follows a text that did so if `cr`. -/
def endsWithCr (cr : Bool) (value : Text) : Bool :=
  value.foldl (fun _ c ↦ c == '\r') cr

@[simp]
theorem endsWithCr_nil (cr : Bool) : endsWithCr cr [] = cr := rfl

@[simp]
theorem endsWithCr_cons (cr : Bool) (c : Char) (value : Text) :
    endsWithCr cr (c :: value) = endsWithCr (c == '\r') value := rfl

theorem endsWithCr_append (cr : Bool) (s t : Text) :
    endsWithCr cr (s ++ t) = endsWithCr (endsWithCr cr s) t := by
  simp [endsWithCr]

theorem endsWithCr_eq (cr : Bool) (value : Text) :
    endsWithCr cr value = (value.getLast?.map (· == '\r')).getD cr := by
  induction value generalizing cr with
  | nil => rfl
  | cons c value ih =>
    rw [endsWithCr_cons, ih, List.getLast?_cons]
    cases value.getLast? <;> rfl

/-- Normalising in pieces is normalising the whole. -/
theorem normalizeFrom_append (cr : Bool) (s t : Text) :
    normalizeFrom cr (s ++ t) = normalizeFrom cr s ++ normalizeFrom (endsWithCr cr s) t := by
  induction s generalizing cr with
  | nil => rfl
  | cons c s ih =>
    simp only [List.cons_append, normalizeFrom, endsWithCr_cons]
    by_cases h : (cr && c == '\n') = true
    · have hc : c = '\n' := by simpa using (Bool.and_eq_true_iff.mp h).2
      subst hc
      rw [if_pos h, if_pos h]
      exact ih false
    · rw [if_neg h, if_neg h, List.cons_append, ih]

theorem normalizeChars_cons {c : Char} {rest : Text} (h : c = '\r' → rest.head? ≠ some '\n') :
    normalizeChars (c :: rest) = normalizeChar c :: normalizeChars rest := by
  rw [normalizeChars]
  rintro rest' rfl rfl
  exact h rfl rfl

/-- Normalising a whole text carries no CR into it. -/
theorem normalizeChars_eq (value : Text) : normalizeChars value = normalizeFrom false value := by
  induction hn : value.length using Nat.strongRecOn generalizing value with
  | _ n ih =>
    subst hn
    match value with
    | [] => rfl
    | [c] =>
      rw [normalizeChars_cons (by simp)]
      simp [normalizeChars, normalizeFrom]
    | c :: d :: rest =>
      -- A line break of two characters is read at once.
      by_cases h : c = '\r' ∧ d = '\n'
      · obtain ⟨rfl, rfl⟩ := h
        have hrest := ih rest.length (by simp only [List.length_cons]; omega) rest rfl
        have hcr : normalizeChar '\r' = '\n' := by decide
        simp [normalizeChars, normalizeFrom, hrest, hcr]
      · have hhead : c = '\r' → (d :: rest).head? ≠ some '\n' := by
          rintro hc hd
          exact h ⟨hc, by simpa using hd⟩
        rw [normalizeChars_cons hhead, ih (d :: rest).length (by simp) _ rfl, normalizeFrom]
        simp only [Bool.false_and, Bool.false_eq_true, if_false]
        congr 1
        by_cases hc : c = '\r'
        · have hd : ¬ d = '\n' := fun hd ↦ h ⟨hc, hd⟩
          simp [hc, hd, normalizeFrom]
        · simp [beq_eq_false_iff_ne.mpr hc, normalizeFrom]

theorem legalChar_normalizeChar (c : Char) : legalChar (normalizeChar c) = true := by
  unfold normalizeChar
  split
  · decide
  · split
    · rename_i h
      rcases h with rfl | rfl <;> decide
    · split
      · decide
      · rename_i h
        simp [legalChar, h]

theorem utf8Size_normalizeChar_le (c : Char) : (normalizeChar c).utf8Size ≤ c.utf8Size := by
  have hpos := c.utf8Size_pos
  unfold normalizeChar
  split
  · have : Char.utf8Size '\n' = 1 := by decide
    omega
  · split
    · exact le_rfl
    · split
      · have : Char.utf8Size ' ' = 1 := by decide
        omega
      · exact le_rfl

/-- Legal characters other than CR are stored as they are. -/
theorem normalizeChar_of_legal {c : Char} (h : legalChar c = true) : normalizeChar c = c := by
  have hcr : c ≠ '\r' := by
    rintro rfl
    exact absurd h (by decide)
  simp only [legalChar, Bool.or_eq_true, Bool.not_eq_true', beq_iff_eq] at h
  rw [normalizeChar, if_neg hcr]
  split
  · rfl
  · rename_i hnot
    rcases h with (h | h) | h
    · simp [h]
    · exact absurd (.inl h) hnot
    · exact absurd (.inr h) hnot

theorem legal_normalizeFrom (cr : Bool) (value : Text) :
    ∀ c ∈ normalizeFrom cr value, legalChar c = true := by
  induction value generalizing cr with
  | nil => simp [normalizeFrom]
  | cons c value ih =>
    intro d hd
    rw [normalizeFrom] at hd
    split at hd
    · exact ih _ d hd
    · rcases List.mem_cons.mp hd with rfl | hd
      · exact legalChar_normalizeChar c
      · exact ih _ d hd

/-- Normalising a piece never makes it longer. -/
theorem byteLen_normalizeFrom_le (cr : Bool) (value : Text) :
    byteLen (normalizeFrom cr value) ≤ byteLen value := by
  induction value generalizing cr with
  | nil => simp [normalizeFrom]
  | cons c value ih =>
    rw [normalizeFrom]
    split
    · exact (ih _).trans (by simp)
    · have := ih (c == '\r')
      have := utf8Size_normalizeChar_le c
      simp only [byteLen_cons]
      omega

theorem normalizeFrom_of_legal {value : Text} (h : ∀ c ∈ value, legalChar c = true) :
    normalizeFrom false value = value := by
  induction value with
  | nil => rfl
  | cons c value ih =>
    have hc := h c (by simp)
    have hcr : (c == '\r') = false := by
      rw [beq_eq_false_iff_ne]
      rintro rfl
      exact absurd hc (by decide)
    simp [normalizeFrom, normalizeChar_of_legal hc, hcr, ih fun d hd ↦ h d (by simp [hd])]

/-- The shortcut for valid text makes no difference. -/
theorem normalizeModelText_eq (value : Text) :
    normalizeModelText value = normalizeFrom false value := by
  unfold normalizeModelText
  split
  · rename_i h
    rw [normalizeFrom_of_legal (validText_iff.mp h).2.2]
  · exact normalizeChars_eq value

/-- Text without illegal characters is normalised already. -/
theorem normalizeModelText_of_legal {value : Text} (h : ∀ c ∈ value, legalChar c = true) :
    normalizeModelText value = value := by
  rw [normalizeModelText_eq, normalizeFrom_of_legal h]

/-- Valid text is normalised already. -/
theorem normalizeModelText_of_valid {value : Text} {maximum : Nat} {allowEmpty : Bool}
    (h : validText value maximum allowEmpty = true) : normalizeModelText value = value :=
  normalizeModelText_of_legal (validText_iff.mp h).2.2

/-- Normalisation never makes a text longer. -/
theorem byteLen_normalizeModelText_le (value : Text) :
    byteLen (normalizeModelText value) ≤ byteLen value := by
  rw [normalizeModelText_eq]
  exact byteLen_normalizeFrom_le false value

/-- Normalised text is valid within any bound it fits. -/
theorem validText_normalizeModelText {value : Text} {maximum : Nat}
    (h : byteLen (normalizeModelText value) ≤ maximum) :
    validText (normalizeModelText value) maximum true = true := by
  rw [validText_iff]
  refine ⟨.inl rfl, h, ?_⟩
  rw [normalizeModelText_eq]
  exact legal_normalizeFrom false value

/-- What is left of `t` behind `s`: the LF of a line break that begins in `s` belongs to `s`. -/
def restAfter (s t : Text) : Text :=
  if s.getLast? = some '\r' ∧ t.head? = some '\n' then t.tail else t

/-- A pending CR takes the LF that follows it. -/
theorem normalizeFrom_endsWithCr (s t : Text) :
    normalizeFrom (endsWithCr false s) t = normalizeFrom false (restAfter s t) := by
  cases t with
  | nil => simp [restAfter, normalizeFrom]
  | cons c t =>
    by_cases hbreak : s.getLast? = some '\r' ∧ c = '\n'
    · obtain ⟨hlast, rfl⟩ := hbreak
      simp [restAfter, normalizeFrom, endsWithCr_eq, hlast]
    · have hrest : restAfter s (c :: t) = c :: t := if_neg (by simpa using hbreak)
      have hpending : ¬ (endsWithCr false s && c == '\n') = true := by
        rw [Bool.and_eq_true, beq_iff_eq, endsWithCr_eq]
        rintro ⟨hends, hc⟩
        refine hbreak ⟨?_, hc⟩
        cases hlast : s.getLast? with
        | none => simp [hlast] at hends
        | some d => simpa [hlast] using hends
      rw [hrest, normalizeFrom, if_neg hpending, normalizeFrom, Bool.false_and, if_neg (by simp)]

theorem normalizeModelText_eq_nil {value : Text} : normalizeModelText value = [] ↔ value = [] := by
  rw [normalizeModelText_eq]
  cases value with
  | nil => simp [normalizeFrom]
  | cons c value => simp [normalizeFrom]

/-- Normalised text has no control character but LF and TAB. It is never longer than the text, and
it is empty only where the text is. Text within a bound is left as it is exactly where it is valid,
so normalising twice is normalising once. A text is normalised piece by piece, but for a line break
that is split between two pieces. -/
theorem normalizeModelText_normal (s : Text) :
    (∀ c ∈ normalizeModelText s, isControl c = true → c = '\n' ∨ c = '\t') ∧
    byteLen (normalizeModelText s) ≤ byteLen s ∧
    (normalizeModelText s = [] ↔ s = []) ∧
    (∀ maximum, byteLen s ≤ maximum →
      (normalizeModelText s = s ↔ validText s maximum true = true)) ∧
    normalizeModelText (normalizeModelText s) = normalizeModelText s ∧
    ∀ t, normalizeModelText (s ++ t) =
      normalizeModelText s ++ normalizeModelText (restAfter s t) := by
  have hlegal : ∀ c ∈ normalizeModelText s, legalChar c = true := by
    rw [normalizeModelText_eq]
    exact legal_normalizeFrom false s
  refine ⟨fun c hc hcontrol ↦ ?_, byteLen_normalizeModelText_le s, normalizeModelText_eq_nil,
    fun maximum hle ↦ ⟨fun hsame ↦ ?_, normalizeModelText_of_valid⟩,
    normalizeModelText_of_legal hlegal, fun t ↦ ?_⟩
  · simpa [legalChar, hcontrol] using hlegal c hc
  · rw [hsame] at hlegal
    exact validText_iff.mpr ⟨.inl rfl, hle, hlegal⟩
  · rw [normalizeModelText_eq, normalizeModelText_eq, normalizeModelText_eq, normalizeFrom_append,
      normalizeFrom_endsWithCr]

/-- A line break that is split between two texts is one. -/
theorem normalizeModelText_normal_split :
    normalizeModelText ("a\r".toList ++ "\nb".toList) =
        normalizeModelText "a\r".toList ++ normalizeModelText "b".toList ∧
      (normalizeModelText "a\tb".toList = "a\tb".toList ↔
        validText "a\tb".toList 3 true = true) := by
  refine ⟨?_, (normalizeModelText_normal _).2.2.2.1 3 (by decide)⟩
  exact (normalizeModelText_normal "a\r".toList).2.2.2.2.2 "\nb".toList

/-! ## JSON -/

/-- A JSON value. Numbers keep their text, and objects their fields in key order. -/
inductive Json where
  | null
  | bool (b : Bool)
  | number (text : Text)
  | string (s : Text)
  | array (items : List Json)
  | object (fields : List (Text × Json))

namespace Json

/-- Whether a value is an object. -/
def isObject : Json → Bool
  | .object _ => true
  | _ => false

/-- A hexadecimal digit in lower case. -/
def hexDigit (n : Nat) : Char :=
  Char.ofNat (if n < 10 then 0x30 + n else 0x57 + n)

/-- The characters a character of a JSON string is written as. -/
def escapeChar (c : Char) : Text :=
  if c = '"' then ['\\', '"']
  else if c = '\\' then ['\\', '\\']
  else if c = '\n' then ['\\', 'n']
  else if c = '\r' then ['\\', 'r']
  else if c = '\t' then ['\\', 't']
  else if c.toNat = 0x08 then ['\\', 'b']
  else if c.toNat = 0x0c then ['\\', 'f']
  else if c.toNat < 0x20 then
    ['\\', 'u', '0', '0', hexDigit (c.toNat / 16), hexDigit (c.toNat % 16)]
  else [c]

/-- The writes of a string: the quotes, and each character escaped. -/
def stringWrites (s : Text) : List Text :=
  [['"']] ++ s.map escapeChar ++ [['"']]

mutual

/-- The writes of the compact serialisation of a value, in order. -/
def writes : Json → List Text
  | .null => ["null".toList]
  | .bool b => [if b then "true".toList else "false".toList]
  | .number text => [text]
  | .string s => stringWrites s
  | .array items => [['[']] ++ itemWrites true items ++ [[']']]
  | .object fields => [['\x7b']] ++ fieldWrites true fields ++ [['\x7d']]

/-- The writes of the items of an array; `first` says that no comma precedes them. -/
def itemWrites : Bool → List Json → List Text
  | _, [] => []
  | first, item :: items =>
    (if first then [] else [[',']]) ++ item.writes ++ itemWrites false items

/-- The writes of the fields of an object; `first` says that no comma precedes them. -/
def fieldWrites : Bool → List (Text × Json) → List Text
  | _, [] => []
  | first, (key, value) :: fields =>
    (if first then [] else [[',']]) ++ stringWrites key ++ [[':']] ++ value.writes ++
      fieldWrites false fields

end

/-- The compact serialisation of a value. -/
def compact (value : Json) : Text := value.writes.flatten

end Json

/-- A writer that counts bytes and refuses to go over a limit. -/
structure JsonCountingWriter where
  maxBytes : Nat
  written : Nat
  exceeded : Bool
deriving DecidableEq, Repr

namespace JsonCountingWriter

/-- A writer that has counted nothing. -/
def new (maxBytes : Nat) : JsonCountingWriter := ⟨maxBytes, 0, false⟩

/-- Count one write, or refuse it; the flag says whether the write succeeded. -/
def write (sink : JsonCountingWriter) (bytes : Text) : Bool × JsonCountingWriter :=
  let remaining := sink.maxBytes - sink.written
  if byteLen bytes > remaining then (false, { sink with exceeded := true })
  else (true, { sink with written := sink.written + byteLen bytes })

/-- Perform writes until one is refused. -/
def writeAll : JsonCountingWriter → List Text → Bool × JsonCountingWriter
  | sink, [] => (true, sink)
  | sink, bytes :: rest =>
    match sink.write bytes with
    | (true, sink) => sink.writeAll rest
    | (false, sink) => (false, sink)

/-- The writes succeed if and only if their total fits. -/
theorem writeAll_fst (sink : JsonCountingWriter) (ws : List Text)
    (h : sink.written ≤ sink.maxBytes) :
    (sink.writeAll ws).1 = decide (sink.written + byteLen ws.flatten ≤ sink.maxBytes) := by
  induction ws generalizing sink with
  | nil => simp [writeAll, h]
  | cons w ws ih =>
    rw [writeAll, write]
    simp only [List.flatten_cons, byteLen_append]
    by_cases hw : byteLen w > sink.maxBytes - sink.written
    · have hno : ¬ sink.written + (byteLen w + byteLen ws.flatten) ≤ sink.maxBytes := by omega
      simp [hw, hno]
    · rw [if_neg hw]
      have hle : sink.written + byteLen w ≤ sink.maxBytes := by omega
      rw [ih { sink with written := sink.written + byteLen w } hle, Nat.add_assoc]

end JsonCountingWriter

/-- The number of bytes of the compact serialisation. -/
def jsonBytes (value : Json) : Nat :=
  ((JsonCountingWriter.new usizeMax).writeAll value.writes).2.written

mutual

/-- Count the nodes of a value onto `nodes`, within the caps on depth and nodes. -/
def validateJsonShape : Json → Nat → Nat → Except ValueError Nat
  | value, depth, nodes =>
    if depth > maxJsonDepth then .error .jsonTooDeep
    else if nodes + 1 > maxJsonNodes then .error .jsonTooManyNodes
    else match value with
      | .array values => validateJsonItems values (depth + 1) (nodes + 1)
      | .object values => validateJsonFields values (depth + 1) (nodes + 1)
      | .null | .bool _ | .number _ | .string _ => .ok (nodes + 1)

/-- Count the nodes of the items of an array. -/
def validateJsonItems : List Json → Nat → Nat → Except ValueError Nat
  | [], _, nodes => .ok nodes
  | value :: values, depth, nodes =>
    match validateJsonShape value depth nodes with
    | .ok nodes => validateJsonItems values depth nodes
    | .error e => .error e

/-- Count the nodes of the values of an object. -/
def validateJsonFields : List (Text × Json) → Nat → Nat → Except ValueError Nat
  | [], _, nodes => .ok nodes
  | (_, value) :: values, depth, nodes =>
    match validateJsonShape value depth nodes with
    | .ok nodes => validateJsonFields values depth nodes
    | .error e => .error e

end

/-- Check a value against the caps on its shape and against a byte budget. -/
def validateJsonSize (value : Json) (maxBytes : Nat) : Except ValueError Unit :=
  if maxBytes > maxJsonBytes then .error .jsonLimitTooLarge
  else match validateJsonShape value 0 0 with
    | .error e => .error e
    | .ok _ =>
      match (JsonCountingWriter.new maxBytes).writeAll value.writes with
      | (true, _) => .ok ()
      | (false, sink) => if sink.exceeded then .error .jsonTooLarge else .error .jsonSerialization

/-- A value is within its budget if and only if the budget is admissible, its shape is, and its
compact serialisation fits. -/
theorem validateJsonSize_eq_ok {value : Json} {maxBytes : Nat} :
    validateJsonSize value maxBytes = .ok () ↔
      maxBytes ≤ maxJsonBytes ∧ (∃ nodes, validateJsonShape value 0 0 = .ok nodes) ∧
        byteLen value.compact ≤ maxBytes := by
  have hfst := (JsonCountingWriter.new maxBytes).writeAll_fst value.writes (Nat.zero_le _)
  unfold validateJsonSize
  by_cases hmax : maxBytes > maxJsonBytes
  · have : ¬ maxBytes ≤ maxJsonBytes := by omega
    simp [hmax, this]
  · rw [if_neg hmax]
    cases hshape : validateJsonShape value 0 0 with
    | error e => simp
    | ok nodes =>
      have hle : maxBytes ≤ maxJsonBytes := by omega
      rcases hw : (JsonCountingWriter.new maxBytes).writeAll value.writes with ⟨ok, sink⟩
      -- The counting writer accepts all writes exactly where their bytes are within the limit.
      have hok : ok = true ↔ byteLen value.compact ≤ maxBytes := by
        rw [hw] at hfst
        change ok = _ at hfst
        rw [hfst, decide_eq_true_iff, JsonCountingWriter.new, Nat.zero_add]
        rfl
      cases ok with
      | true => simpa [hle] using hok
      | false =>
        have : ¬ byteLen value.compact ≤ maxBytes := by simpa using hok
        simp only [this, and_false, iff_false]
        split <;> simp

/-- A larger admissible budget accepts more. -/
theorem validateJsonSize_mono {value : Json} {small large : Nat}
    (h : validateJsonSize value small = .ok ()) (hle : small ≤ large)
    (hmax : large ≤ maxJsonBytes) : validateJsonSize value large = .ok () := by
  rw [validateJsonSize_eq_ok] at h ⊢
  exact ⟨hmax, h.2.1, h.2.2.trans hle⟩

end MinicoreRuntime
