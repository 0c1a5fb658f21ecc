import MinicoreRuntime.Value

/-!
# Reading JSON

A reader of standard JSON texts, and the round trip: what the compact serialisation of a value is
read as is the value. Object members are read in the order of the text, and numbers keep their text.

Readers take fuel; the length of the text is enough of it.

## Main definitions

* `Json.readEscape`, `Json.readString`: strings with their escapes.
* `Json.validNumber`: the grammar of numbers.
* `Json.readValue`, `Json.decode`: values and whole texts.

## Main results

* `Json.readString_escaped`: a serialised string is read as the string.
* `Json.decode_compact`: a serialised value is read as the value.
-/

namespace MinicoreRuntime.Json

/-! ## Strings -/

/-- The value of a hexadecimal digit. -/
def hexValue? (c : Char) : Option Nat :=
  if '0' ≤ c ∧ c ≤ '9' then some (c.toNat - 0x30)
  else if 'a' ≤ c ∧ c ≤ 'f' then some (c.toNat - 0x57)
  else if 'A' ≤ c ∧ c ≤ 'F' then some (c.toNat - 0x37)
  else none

/-- Read four hexadecimal digits. -/
def readHex : Text → Option (Nat × Text)
  | a :: b :: c :: d :: rest =>
    match hexValue? a, hexValue? b, hexValue? c, hexValue? d with
    | some a, some b, some c, some d => some (((a * 16 + b) * 16 + c) * 16 + d, rest)
    | _, _, _, _ => none
  | _ => none

/-- Read what follows `\u`: one unit, or the two of a surrogate pair. -/
def readUnicode (text : Text) : Option (Char × Text) :=
  match readHex text with
  | none => none
  | some (unit, rest) =>
    if 0xd800 ≤ unit ∧ unit < 0xdc00 then
      match rest with
      | '\\' :: 'u' :: rest =>
        match readHex rest with
        | none => none
        | some (low, rest) =>
          if 0xdc00 ≤ low ∧ low < 0xe000 then
            some (Char.ofNat (0x10000 + (unit - 0xd800) * 0x400 + (low - 0xdc00)), rest)
          else none
      | _ => none
    else if 0xdc00 ≤ unit ∧ unit < 0xe000 then none
    else some (Char.ofNat unit, rest)

/-- The character an escape of two characters stands for. -/
def simpleEscape? (c : Char) : Option Char :=
  if c = '"' ∨ c = '\\' ∨ c = '/' then some c
  else if c = 'b' then some (Char.ofNat 0x08)
  else if c = 'f' then some (Char.ofNat 0x0c)
  else if c = 'n' then some '\n'
  else if c = 'r' then some '\r'
  else if c = 't' then some '\t'
  else none

/-- Read what follows a backslash. -/
def readEscape : Text → Option (Char × Text)
  | [] => none
  | c :: rest =>
    if c = 'u' then readUnicode rest else (simpleEscape? c).map fun char ↦ (char, rest)

/-- Read a string after its opening quote. -/
def readString : Nat → Text → Option (Text × Text)
  | 0, _ | _, [] => none
  | fuel + 1, c :: rest =>
    if c = '"' then some ([], rest)
    else if c = '\\' then
      match readEscape rest with
      | none => none
      | some (char, rest) => (readString fuel rest).map fun (s, rest) ↦ (char :: s, rest)
    else if c.toNat < 0x20 then none
    else (readString fuel rest).map fun (s, rest) ↦ (c :: s, rest)

theorem hexValue_hexDigit {n : Nat} (h : n < 16) : hexValue? (hexDigit n) = some n := by
  have hall : ∀ n < 16, hexValue? (hexDigit n) = some n := by decide
  exact hall n h

/-- A character is written as itself, or as an escape that is read as the character. -/
theorem escapeChar_spec (c : Char) :
    (escapeChar c = [c] ∧ c ≠ '"' ∧ c ≠ '\\' ∧ ¬ c.toNat < 0x20) ∨
      ∃ escape, escapeChar c = '\\' :: escape ∧
        ∀ rest, readEscape (escape ++ rest) = some (c, rest) := by
  have hof {n : Nat} (h : c.toNat = n) : c = Char.ofNat n := by
    rw [← h, Char.ofNat_toNat]
  unfold escapeChar
  by_cases hquote : c = '"'
  · subst hquote
    exact .inr ⟨['"'], rfl, fun _ ↦ rfl⟩
  by_cases hslash : c = '\\'
  · subst hslash
    exact .inr ⟨['\\'], rfl, fun _ ↦ rfl⟩
  by_cases hlf : c = '\n'
  · subst hlf
    exact .inr ⟨['n'], rfl, fun _ ↦ rfl⟩
  by_cases hcr : c = '\r'
  · subst hcr
    exact .inr ⟨['r'], rfl, fun _ ↦ rfl⟩
  by_cases htab : c = '\t'
  · subst htab
    exact .inr ⟨['t'], rfl, fun _ ↦ rfl⟩
  by_cases hbs : c.toNat = 0x08
  · obtain rfl := hof hbs
    exact .inr ⟨['b'], rfl, fun _ ↦ rfl⟩
  by_cases hff : c.toNat = 0x0c
  · obtain rfl := hof hff
    exact .inr ⟨['f'], rfl, fun _ ↦ rfl⟩
  rw [if_neg hquote, if_neg hslash, if_neg hlf, if_neg hcr, if_neg htab, if_neg hbs, if_neg hff]
  by_cases hcontrol : c.toNat < 0x20
  · -- The other control characters are written with four hexadecimal digits.
    rw [if_pos hcontrol]
    refine .inr ⟨_, rfl, fun rest ↦ ?_⟩
    have hzero : hexValue? '0' = some 0 := by decide
    have hhigh := hexValue_hexDigit (n := c.toNat / 16) (by omega)
    have hlow := hexValue_hexDigit (n := c.toNat % 16) (by omega)
    have hvalue : ((0 * 16 + 0) * 16 + c.toNat / 16) * 16 + c.toNat % 16 = c.toNat := by omega
    have hunit : ¬ (0xd800 ≤ c.toNat ∧ c.toNat < 0xdc00) ∧
        ¬ (0xdc00 ≤ c.toNat ∧ c.toNat < 0xe000) := by omega
    rw [List.cons_append, readEscape, if_pos rfl, readUnicode]
    simp only [List.cons_append, List.nil_append, readHex, hzero, hhigh, hlow, hvalue]
    rw [if_neg hunit.1, if_neg hunit.2, Char.ofNat_toNat]
  · rw [if_neg hcontrol]
    exact .inl ⟨rfl, hquote, hslash, hcontrol⟩

/-- A serialised string is read as the string. -/
theorem readString_escaped (s rest : Text) {fuel : Nat} (hfuel : s.length < fuel) :
    readString fuel (s.flatMap escapeChar ++ '"' :: rest) = some (s, rest) := by
  induction s generalizing fuel with
  | nil =>
    obtain ⟨fuel, rfl⟩ := Nat.exists_eq_add_of_lt hfuel
    simp [readString]
  | cons c s ih =>
    obtain ⟨fuel, rfl⟩ : ∃ n, fuel = n + 1 := ⟨fuel - 1, by omega⟩
    have hrest : readString fuel (s.flatMap escapeChar ++ '"' :: rest) = some (s, rest) :=
      ih (by simpa using hfuel)
    rw [List.flatMap_cons, List.append_assoc]
    rcases escapeChar_spec c with ⟨hescape, hquote, hslash, hcontrol⟩ | ⟨escape, hescape, hread⟩
    · rw [hescape, List.singleton_append, readString, if_neg hquote, if_neg hslash,
        if_neg hcontrol, hrest]
      rfl
    · rw [hescape, List.cons_append, readString, if_neg (by decide), if_pos rfl, hread]
      simp only [hrest, Option.map_some]

/-! ## Numbers -/

/-- The exponent of a number, up to its end. -/
def validExponent : Text → Bool
  | [] => true
  | c :: rest =>
    let digits := match rest with
      | '+' :: digits | '-' :: digits => digits
      | digits => digits
    (c == 'e' || c == 'E') && !digits.isEmpty && digits.all Char.isDigit

/-- What follows the integer part of a number. -/
def validFraction : Text → Bool
  | '.' :: rest =>
    !(rest.takeWhile Char.isDigit).isEmpty && validExponent (rest.dropWhile Char.isDigit)
  | rest => validExponent rest

/-- A number without its sign: no zero leads other digits. -/
def validUnsigned (text : Text) : Bool :=
  let digits := text.takeWhile Char.isDigit
  !digits.isEmpty && (digits.head? != some '0' || digits.length == 1) &&
    validFraction (text.dropWhile Char.isDigit)

/-- The grammar of numbers. -/
def validNumber : Text → Bool
  | '-' :: text => validUnsigned text
  | text => validUnsigned text

/-- A character of a number. -/
def numberChar (c : Char) : Bool :=
  c.isDigit || c == '-' || c == '+' || c == '.' || c == 'e' || c == 'E'

/-- Read a number, as far as its characters go. -/
def readNumber (text : Text) : Option (Json × Text) :=
  if validNumber (text.takeWhile numberChar) then
    some (.number (text.takeWhile numberChar), text.dropWhile numberChar)
  else none

theorem numberChar_of_isDigit {c : Char} (h : c.isDigit = true) : numberChar c = true := by
  simp [numberChar, h]

theorem numberChar_of_validExponent {text : Text} (h : validExponent text = true) :
    ∀ c ∈ text, numberChar c = true := by
  cases text with
  | nil => simp
  | cons c rest =>
    have hdigits {digits : Text} (hall : digits.all Char.isDigit = true) :
        ∀ d ∈ digits, numberChar d = true := fun d hd ↦
      numberChar_of_isDigit (List.all_eq_true.mp hall d hd)
    simp only [validExponent, Bool.and_eq_true, Bool.or_eq_true, beq_iff_eq] at h
    obtain ⟨⟨hc, -⟩, hall⟩ := h
    have hfirst : numberChar c = true := by
      rcases hc with rfl | rfl <;> decide
    rw [List.forall_mem_cons]
    refine ⟨hfirst, ?_⟩
    split at hall
    · rw [List.forall_mem_cons]
      exact ⟨by decide, hdigits hall⟩
    · rw [List.forall_mem_cons]
      exact ⟨by decide, hdigits hall⟩
    · exact hdigits hall

/-- Leading digits, and characters of a number after them. -/
theorem numberChar_of_digits {text : Text}
    (h : ∀ c ∈ text.dropWhile Char.isDigit, numberChar c = true) :
    ∀ c ∈ text, numberChar c = true := by
  intro c hc
  rw [← List.takeWhile_append_dropWhile (p := Char.isDigit) (l := text)] at hc
  rcases List.mem_append.mp hc with hc | hc
  · exact numberChar_of_isDigit (List.all_eq_true.mp List.all_takeWhile c hc)
  · exact h c hc

theorem numberChar_of_validFraction {text : Text} (h : validFraction text = true) :
    ∀ c ∈ text, numberChar c = true := by
  unfold validFraction at h
  split at h
  · rw [Bool.and_eq_true] at h
    rw [List.forall_mem_cons]
    exact ⟨by decide, numberChar_of_digits (numberChar_of_validExponent h.2)⟩
  · exact numberChar_of_validExponent h

theorem numberChar_of_validUnsigned {text : Text} (h : validUnsigned text = true) :
    ∀ c ∈ text, numberChar c = true := by
  simp only [validUnsigned, Bool.and_eq_true] at h
  exact numberChar_of_digits (numberChar_of_validFraction h.2)

/-- A number has only characters of a number. -/
theorem numberChar_of_validNumber {text : Text} (h : validNumber text = true) :
    ∀ c ∈ text, numberChar c = true := by
  unfold validNumber at h
  split at h
  · rw [List.forall_mem_cons]
    exact ⟨by decide, numberChar_of_validUnsigned h⟩
  · exact numberChar_of_validUnsigned h

/-- A number begins with a digit or a sign. -/
theorem exists_cons_of_validNumber {text : Text} (h : validNumber text = true) :
    ∃ c rest, text = c :: rest ∧ (c = '-' ∨ c.isDigit = true) := by
  have hunsigned {text : Text} (h : validUnsigned text = true) :
      ∃ c rest, text = c :: rest ∧ c.isDigit = true := by
    cases text with
    | nil => exact absurd h (by decide)
    | cons c rest =>
      refine ⟨c, rest, rfl, ?_⟩
      by_contra hc
      simp [validUnsigned, List.takeWhile_cons_of_neg hc] at h
  unfold validNumber at h
  split at h
  · exact ⟨_, _, rfl, .inl rfl⟩
  · obtain ⟨c, rest, rfl, hc⟩ := hunsigned h
    exact ⟨c, rest, rfl, .inr hc⟩

/-- The rest of a text does not go on with a number. -/
def Stops (rest : Text) : Prop := ∀ c, rest.head? = some c → numberChar c = false

theorem readNumber_append {text rest : Text} (h : validNumber text = true) (hrest : Stops rest) :
    readNumber (text ++ rest) = some (.number text, rest) := by
  have hall := numberChar_of_validNumber h
  have hnone : rest.takeWhile numberChar = [] ∧ rest.dropWhile numberChar = rest := by
    cases rest with
    | nil => exact ⟨rfl, rfl⟩
    | cons c rest =>
      have hc : ¬ numberChar c = true := by simp [hrest c rfl]
      exact ⟨List.takeWhile_cons_of_neg hc, List.dropWhile_cons_of_neg hc⟩
  have htake : (text ++ rest).takeWhile numberChar = text := by
    rw [List.takeWhile_append_of_pos hall, hnone.1, List.append_nil]
  have hdrop : (text ++ rest).dropWhile numberChar = rest := by
    rw [List.dropWhile_append_of_pos hall, hnone.2]
  rw [readNumber, htake, hdrop, if_pos h]

/-! ## Values -/

/-- A space between tokens. -/
def isSpace (c : Char) : Bool :=
  c == ' ' || c == '\n' || c == '\r' || c == '\t'

/-- The text from its first token. -/
def skipSpaces (text : Text) : Text := text.dropWhile isSpace

/-- Read the rest of a literal. -/
def readLiteral (word : Text) (value : Json) (text : Text) : Option (Json × Text) :=
  if word.isPrefixOf text then some (value, text.drop word.length) else none

/-- Read the key of a field and the colon after it. -/
def readKey (text : Text) : Option (Text × Text) :=
  match skipSpaces text with
  | [] => none
  | c :: rest =>
    if c = '"' then
      match readString (rest.length + 1) rest with
      | none => none
      | some (key, rest) =>
        if (skipSpaces rest).head? = some ':' then some (key, (skipSpaces rest).tail) else none
    else none

mutual

/-- Read a value. -/
def readValue : Nat → Text → Option (Json × Text)
  | 0, _ => none
  | fuel + 1, text =>
    match skipSpaces text with
    | [] => none
    | c :: rest =>
      if c = '"' then (readString (rest.length + 1) rest).map fun (s, rest) ↦ (.string s, rest)
      else if c = '[' then
        if (skipSpaces rest).head? = some ']' then some (.array [], (skipSpaces rest).tail)
        else (readItems fuel rest).map fun (items, rest) ↦ (.array items, rest)
      else if c = '\x7b' then
        if (skipSpaces rest).head? = some '\x7d' then some (.object [], (skipSpaces rest).tail)
        else (readFields fuel rest).map fun (fields, rest) ↦ (.object fields, rest)
      else if c = 't' then readLiteral "rue".toList (.bool true) rest
      else if c = 'f' then readLiteral "alse".toList (.bool false) rest
      else if c = 'n' then readLiteral "ull".toList .null rest
      else readNumber (c :: rest)

/-- Read items up to the end of their array. -/
def readItems : Nat → Text → Option (List Json × Text)
  | 0, _ => none
  | fuel + 1, text =>
    match readValue fuel text with
    | none => none
    | some (item, rest) =>
      match skipSpaces rest with
      | [] => none
      | c :: rest =>
        if c = ']' then some ([item], rest)
        else if c = ',' then (readItems fuel rest).map fun (items, rest) ↦ (item :: items, rest)
        else none

/-- Read fields up to the end of their object. -/
def readFields : Nat → Text → Option (List (Text × Json) × Text)
  | 0, _ => none
  | fuel + 1, text =>
    match readKey text with
    | none => none
    | some (key, rest) =>
      match readValue fuel rest with
      | none => none
      | some (value, rest) =>
        match skipSpaces rest with
        | [] => none
        | c :: rest =>
          if c = '\x7d' then some ([(key, value)], rest)
          else if c = ',' then
            (readFields fuel rest).map fun (fields, rest) ↦ ((key, value) :: fields, rest)
          else none

end

/-- Read a whole text as one value. -/
def decode (text : Text) : Option Json :=
  match readValue (text.length + 1) text with
  | some (value, rest) => if (skipSpaces rest).isEmpty then some value else none
  | none => none

mutual

/-- Every number of the value is one by the grammar. -/
def wellFormed : Json → Bool
  | .null | .bool _ | .string _ => true
  | .number text => validNumber text
  | .array items => wellFormedItems items
  | .object fields => wellFormedFields fields

/-- All items of an array are well formed. -/
def wellFormedItems : List Json → Bool
  | [] => true
  | item :: items => item.wellFormed && wellFormedItems items

/-- All fields of an object are well formed. -/
def wellFormedFields : List (Text × Json) → Bool
  | [] => true
  | (_, value) :: fields => value.wellFormed && wellFormedFields fields

end

/-! ## The round trip -/

theorem skipSpaces_cons {c : Char} {rest : Text} (h : isSpace c = false) :
    skipSpaces (c :: rest) = c :: rest :=
  List.dropWhile_cons_of_neg (by simp [h])

theorem stops_cons {c : Char} {rest : Text} (h : numberChar c = false) : Stops (c :: rest) := by
  intro d hd
  obtain rfl := Option.some.inj hd
  exact h

theorem flatten_stringWrites (s : Text) :
    (stringWrites s).flatten = '"' :: (s.flatMap escapeChar ++ ['"']) := by
  simp [stringWrites, List.flatMap]

theorem length_le_escaped (s : Text) : s.length ≤ (s.flatMap escapeChar).length := by
  induction s with
  | nil => exact le_rfl
  | cons c s ih =>
    have hc : 0 < (escapeChar c).length := by
      rcases escapeChar_spec c with ⟨hescape, -⟩ | ⟨escape, hescape, -⟩ <;> simp [hescape]
    rw [List.flatMap_cons, List.length_append, List.length_cons]
    omega

/-- A serialised string after its opening quote is read with the length of the text as fuel. -/
theorem readString_tail (s rest : Text) :
    readString ((s.flatMap escapeChar ++ '"' :: rest).length + 1)
      (s.flatMap escapeChar ++ '"' :: rest) = some (s, rest) := by
  apply readString_escaped
  have hlength := length_le_escaped s
  rw [List.length_append]
  omega

theorem readKey_string (key rest : Text) :
    readKey ((stringWrites key).flatten ++ ':' :: rest) = some (key, rest) := by
  have hcolon : skipSpaces (':' :: rest) = ':' :: rest := skipSpaces_cons rfl
  rw [flatten_stringWrites, List.cons_append, List.append_assoc, List.singleton_append, readKey,
    skipSpaces_cons rfl]
  simp only [if_true, readString_tail, hcolon, List.head?_cons, List.tail_cons]

/-- The text of a value begins with a token, and not with the end of an array. -/
theorem compact_cons {value : Json} (h : value.wellFormed = true) :
    ∃ c rest, value.compact = c :: rest ∧ isSpace c = false ∧ c ≠ ']' := by
  cases value with
  | null => exact ⟨'n', _, rfl, by decide, by decide⟩
  | bool b => cases b <;> exact ⟨_, _, rfl, by decide, by decide⟩
  | number text =>
    obtain ⟨c, rest, rfl, hc⟩ := exists_cons_of_validNumber h
    have hne {d : Char} (hd : (d == '-' || d.isDigit) = false) : c ≠ d := by
      rintro rfl
      rcases hc with rfl | hc
      · exact absurd hd (by decide)
      · simp [hc] at hd
    refine ⟨c, rest, by simp [compact, writes], ?_, hne (by decide)⟩
    simp only [isSpace, Bool.or_eq_false_iff, beq_eq_false_iff_ne]
    exact ⟨⟨⟨hne (by decide), hne (by decide)⟩, hne (by decide)⟩, hne (by decide)⟩
  | string s => exact ⟨'"', _, by rw [compact, writes, flatten_stringWrites], rfl, by decide⟩
  | array items => exact ⟨'[', _, rfl, rfl, by decide⟩
  | object fields => exact ⟨'\x7b', _, rfl, rfl, by decide⟩

theorem compact_array (items : List Json) :
    (Json.array items).compact = '[' :: ((itemWrites true items).flatten ++ [']']) := by
  simp [compact, writes]

theorem compact_object (fields : List (Text × Json)) :
    (Json.object fields).compact = '\x7b' :: ((fieldWrites true fields).flatten ++ ['\x7d']) := by
  simp [compact, writes]

theorem flatten_itemWrites (first : Bool) (item : Json) (items : List Json) :
    (itemWrites first (item :: items)).flatten =
      (if first then [] else [',']) ++ (item.compact ++ (itemWrites false items).flatten) := by
  cases first <;> simp [itemWrites, compact]

theorem flatten_fieldWrites (first : Bool) (key : Text) (value : Json)
    (fields : List (Text × Json)) :
    (fieldWrites first ((key, value) :: fields)).flatten =
      (if first then [] else [',']) ++ ((stringWrites key).flatten ++
        ':' :: (value.compact ++ (fieldWrites false fields).flatten)) := by
  cases first <;> simp [fieldWrites, compact]

/-- Reading a value whose text begins with a token. -/
theorem readValue_cons (fuel : Nat) {c : Char} (rest : Text) (h : isSpace c = false) :
    readValue (fuel + 1) (c :: rest) =
      if c = '"' then (readString (rest.length + 1) rest).map fun (s, rest) ↦ (.string s, rest)
      else if c = '[' then
        if (skipSpaces rest).head? = some ']' then some (.array [], (skipSpaces rest).tail)
        else (readItems fuel rest).map fun (items, rest) ↦ (.array items, rest)
      else if c = '\x7b' then
        if (skipSpaces rest).head? = some '\x7d' then some (.object [], (skipSpaces rest).tail)
        else (readFields fuel rest).map fun (fields, rest) ↦ (.object fields, rest)
      else if c = 't' then readLiteral "rue".toList (.bool true) rest
      else if c = 'f' then readLiteral "alse".toList (.bool false) rest
      else if c = 'n' then readLiteral "ull".toList .null rest
      else readNumber (c :: rest) := by
  rw [readValue, skipSpaces_cons h]

mutual

/-- A serialised value is read as the value, whatever follows it that is not part of a number. -/
theorem readValue_compact (value : Json) (h : value.wellFormed = true) {fuel : Nat}
    (hfuel : value.compact.length ≤ fuel) {rest : Text} (hrest : Stops rest) :
    readValue fuel (value.compact ++ rest) = some (value, rest) := by
  obtain ⟨fuel, rfl⟩ : ∃ n, fuel = n + 1 := by
    obtain ⟨c, tail, hcons, -, -⟩ := compact_cons h
    rw [hcons, List.length_cons] at hfuel
    exact ⟨fuel - 1, by omega⟩
  cases value with
  | null =>
    change readValue (fuel + 1) ('n' :: ("ull".toList ++ rest)) = _
    rw [readValue_cons _ _ rfl]
    simp [readLiteral]
  | bool b =>
    cases b with
    | true =>
      change readValue (fuel + 1) ('t' :: ("rue".toList ++ rest)) = _
      rw [readValue_cons _ _ rfl]
      simp [readLiteral]
    | false =>
      change readValue (fuel + 1) ('f' :: ("alse".toList ++ rest)) = _
      rw [readValue_cons _ _ rfl]
      simp [readLiteral]
  | number text =>
    obtain ⟨c, tail, rfl, hc⟩ := exists_cons_of_validNumber h
    have htext : (Json.number (c :: tail)).compact = c :: tail := by simp [compact, writes]
    obtain ⟨d, _, hcons, hspace, -⟩ := compact_cons h
    rw [htext] at hcons
    obtain ⟨rfl, -⟩ := List.cons.inj hcons
    -- A number starts like no value of another kind.
    have hne {d : Char} (hd : (d == '-' || d.isDigit) = false) : ¬ c = d := by
      rintro rfl
      rcases hc with rfl | hc
      · exact absurd hd (by decide)
      · simp [hc] at hd
    rw [htext, List.cons_append, readValue_cons _ _ hspace, if_neg (hne (by decide)),
      if_neg (hne (by decide)), if_neg (hne (by decide)), if_neg (hne (by decide)),
      if_neg (hne (by decide)), if_neg (hne (by decide)), ← List.cons_append]
    exact readNumber_append h hrest
  | string s =>
    rw [compact, writes, flatten_stringWrites, List.cons_append, List.append_assoc,
      readValue_cons _ _ rfl, if_pos rfl, List.singleton_append, readString_tail]
    rfl
  | array items =>
    rw [compact_array, List.cons_append, List.append_assoc, List.singleton_append,
      readValue_cons _ _ rfl, if_neg (by decide), if_pos rfl]
    cases items with
    | nil => rfl
    | cons item items =>
      have hitem : item.wellFormed = true := (Bool.and_eq_true_iff.mp h).1
      obtain ⟨c, tail, hcons, hspace, hopen⟩ := compact_cons hitem
      -- What comes first is an item and not the end of the array.
      have hhead : (skipSpaces ((itemWrites true (item :: items)).flatten ++ ']' :: rest)).head? ≠
          some ']' := by
        rw [flatten_itemWrites, if_pos rfl, List.nil_append, hcons, List.cons_append,
          List.cons_append, skipSpaces_cons hspace]
        simpa using hopen
      rw [compact_array, List.length_cons, List.length_append, List.length_singleton] at hfuel
      rw [if_neg hhead, readItems_writes item items h (by omega) rest]
      rfl
  | object fields =>
    rw [compact_object, List.cons_append, List.append_assoc, List.singleton_append,
      readValue_cons _ _ rfl, if_neg (by decide), if_neg (by decide), if_pos rfl]
    match fields with
    | [] => rfl
    | (key, value) :: fields =>
      have hhead : (skipSpaces ((fieldWrites true ((key, value) :: fields)).flatten ++
          '\x7d' :: rest)).head? ≠ some '\x7d' := by
        rw [flatten_fieldWrites, if_pos rfl, List.nil_append, flatten_stringWrites,
          List.cons_append, List.cons_append, skipSpaces_cons rfl]
        simp
      rw [compact_object, List.length_cons, List.length_append, List.length_singleton] at hfuel
      rw [if_neg hhead, readFields_writes key value fields h (by omega) rest]
      rfl
termination_by fuel

theorem readItems_writes (item : Json) (items : List Json)
    (h : wellFormedItems (item :: items) = true) {fuel : Nat}
    (hfuel : (itemWrites true (item :: items)).flatten.length + 1 ≤ fuel) (rest : Text) :
    readItems fuel ((itemWrites true (item :: items)).flatten ++ ']' :: rest) =
      some (item :: items, rest) := by
  obtain ⟨fuel, rfl⟩ : ∃ n, fuel = n + 1 := ⟨fuel - 1, by omega⟩
  obtain ⟨hitem, hitems⟩ := Bool.and_eq_true_iff.mp h
  rw [flatten_itemWrites, if_pos rfl, List.nil_append] at hfuel ⊢
  rw [List.length_append] at hfuel
  rw [List.append_assoc, readItems]
  -- The last item is followed by the bracket, every other one by a comma.
  match items with
  | [] =>
    have hclose : skipSpaces (']' :: rest) = ']' :: rest := skipSpaces_cons rfl
    have hstops : Stops (']' :: rest) := stops_cons (by decide)
    have hread : readValue fuel (item.compact ++ ']' :: rest) = _ :=
      readValue_compact item hitem (by omega) hstops
    simp only [itemWrites, List.flatten_nil, List.nil_append, hread, hclose, if_true]
  | next :: items =>
    rw [flatten_itemWrites, if_neg Bool.false_ne_true] at hfuel ⊢
    have hfuel' : (itemWrites true (next :: items)).flatten.length + 1 ≤ fuel := by
      rw [flatten_itemWrites, if_pos rfl, List.nil_append]
      rw [List.length_append, List.length_singleton] at hfuel
      omega
    have hnext := readItems_writes next items hitems hfuel' rest
    rw [flatten_itemWrites, if_pos rfl, List.nil_append] at hnext
    have hstops :
        Stops (',' :: (next.compact ++ (itemWrites false items).flatten ++ ']' :: rest)) :=
      stops_cons (by decide)
    have hread : readValue fuel (item.compact ++ _) = _ :=
      readValue_compact item hitem (by omega) hstops
    have hcomma :
        skipSpaces (',' :: (next.compact ++ (itemWrites false items).flatten ++ ']' :: rest)) =
        ',' :: (next.compact ++ (itemWrites false items).flatten ++ ']' :: rest) :=
      skipSpaces_cons rfl
    have hne : ¬ ',' = ']' := by decide
    rw [List.append_assoc, List.singleton_append, hread]
    simp only [hcomma, if_neg hne, if_true, hnext, Option.map_some]
termination_by fuel

theorem readFields_writes (key : Text) (value : Json) (fields : List (Text × Json))
    (h : wellFormedFields ((key, value) :: fields) = true) {fuel : Nat}
    (hfuel : (fieldWrites true ((key, value) :: fields)).flatten.length + 1 ≤ fuel) (rest : Text) :
    readFields fuel ((fieldWrites true ((key, value) :: fields)).flatten ++ '\x7d' :: rest) =
      some ((key, value) :: fields, rest) := by
  obtain ⟨fuel, rfl⟩ : ∃ n, fuel = n + 1 := ⟨fuel - 1, by omega⟩
  obtain ⟨hvalue, hfields⟩ := Bool.and_eq_true_iff.mp h
  rw [flatten_fieldWrites, if_pos rfl, List.nil_append] at hfuel ⊢
  rw [List.length_append, List.length_cons, List.length_append] at hfuel
  rw [List.append_assoc, List.cons_append, List.append_assoc, readFields, readKey_string]
  -- The last field is followed by the brace, every other one by a comma.
  match fields with
  | [] =>
    have hclose : skipSpaces ('\x7d' :: rest) = '\x7d' :: rest := skipSpaces_cons rfl
    have hstops : Stops ('\x7d' :: rest) := stops_cons (by decide)
    have hread : readValue fuel (value.compact ++ '\x7d' :: rest) = _ :=
      readValue_compact value hvalue (by omega) hstops
    simp only [fieldWrites, List.flatten_nil, List.nil_append, hread, hclose, if_true]
  | (next, nextValue) :: fields =>
    rw [flatten_fieldWrites, if_neg Bool.false_ne_true] at hfuel ⊢
    have hfuel' : (fieldWrites true ((next, nextValue) :: fields)).flatten.length + 1 ≤ fuel := by
      rw [flatten_fieldWrites, if_pos rfl, List.nil_append]
      rw [List.length_append, List.length_singleton] at hfuel
      omega
    have hnext := readFields_writes next nextValue fields hfields hfuel' rest
    rw [flatten_fieldWrites, if_pos rfl, List.nil_append] at hnext
    have hstops : Stops (',' :: ((stringWrites next).flatten ++
        ':' :: (nextValue.compact ++ (fieldWrites false fields).flatten) ++ '\x7d' :: rest)) :=
      stops_cons (by decide)
    have hread : readValue fuel (value.compact ++ _) = _ :=
      readValue_compact value hvalue (by omega) hstops
    have hcomma : skipSpaces (',' :: ((stringWrites next).flatten ++
        ':' :: (nextValue.compact ++ (fieldWrites false fields).flatten) ++ '\x7d' :: rest)) =
      ',' :: ((stringWrites next).flatten ++
        ':' :: (nextValue.compact ++ (fieldWrites false fields).flatten) ++ '\x7d' :: rest) :=
      skipSpaces_cons rfl
    have hne : ¬ ',' = '\x7d' := by decide
    rw [List.append_assoc, List.singleton_append]
    simp only [hread, hcomma, if_neg hne, if_true, hnext, Option.map_some]
termination_by fuel

end

/-- A serialised value is read as the value. -/
theorem decode_compact {value : Json} (h : value.wellFormed = true) :
    decode value.compact = some value := by
  have hstops : Stops [] := by simp [Stops]
  have hread := readValue_compact value h (Nat.le_succ _) hstops
  rw [List.append_nil] at hread
  rw [decode, hread]
  rfl

end MinicoreRuntime.Json
