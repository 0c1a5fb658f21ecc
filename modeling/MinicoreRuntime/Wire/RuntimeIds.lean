import MinicoreRuntime.Wire.Values

/-!
# Canonical runtime identifiers

The reader of runtime identifiers as it goes through the bytes of a text: whole pairs of them, one
after the other, into an array. It reads what the reader of characters reads. Every identifier has
one text.

## Main definitions

* `RuntimeId.decodeRuntimeId`, `RuntimeId.encodeRuntimeId`: the payload of an identifier.

## Main results

* `RuntimeId.decodeRuntimeId_eq`: reading bytes is reading characters.
* `RuntimeId.canonical_spelling`: what is read is what is written, and nothing else is.
-/

namespace MinicoreRuntime

/-! ## Digits -/

/-- A digit in lower case is the one its value is written as. -/
theorem hexDigit_of_decodeLowerHex {c : Char} {n : Nat} (h : decodeLowerHex c = some n) :
    n < 16 ∧ Json.hexDigit n = c := by
  unfold decodeLowerHex at h
  split at h
  · rename_i hdigit
    obtain rfl := Option.some.inj h
    have hrange : 0x30 ≤ c.toNat ∧ c.toNat ≤ 0x39 := by simpa using hdigit
    refine ⟨by omega, ?_⟩
    rw [Json.hexDigit, if_pos (by omega), Nat.add_sub_cancel' hrange.1, Char.ofNat_toNat]
  · split at h
    · rename_i hletter
      obtain rfl := Option.some.inj h
      have hrange : 0x61 ≤ c.toNat ∧ c.toNat ≤ 0x66 := by simpa using hletter
      have hvalue : 0x57 + (c.toNat - 0x61 + 10) = c.toNat := by omega
      refine ⟨by omega, ?_⟩
      rw [Json.hexDigit, if_neg (by omega), hvalue, Char.ofNat_toNat]
    · exact absurd h (by simp)

/-- Pairs of digits are those their bytes are written as. -/
theorem encodeHexBytes_of_decodeHexBytes {payload : Text} {bytes : List UInt8}
    (h : decodeHexBytes payload = some bytes) : encodeHexBytes bytes = payload := by
  induction payload using decodeHexBytes.induct generalizing bytes with
  | case1 =>
    obtain rfl := Option.some.inj h
    rfl
  | case2 c => exact absurd h (by simp [decodeHexBytes])
  | case3 high low rest ih =>
    obtain ⟨m, hhigh, n, hlow, values, hvalues, hbytes⟩ : ∃ m, decodeLowerHex high = some m ∧
        ∃ n, decodeLowerHex low = some n ∧ ∃ values, decodeHexBytes rest = some values ∧
          UInt8.ofNat (16 * m + n) :: values = bytes := by
      simpa [decodeHexBytes, Option.bind_eq_some_iff] using h
    obtain ⟨hm, rfl⟩ := hexDigit_of_decodeLowerHex hhigh
    obtain ⟨hn, rfl⟩ := hexDigit_of_decodeLowerHex hlow
    subst hbytes
    have hbyte : (UInt8.ofNat (16 * m + n)).toNat = 16 * m + n :=
      UInt8.toNat_ofNat_of_lt' (by simp [UInt8.size]; omega)
    have hdiv : (16 * m + n) / 16 = m := by omega
    have hmod : (16 * m + n) % 16 = n := by omega
    rw [encodeHexBytes, List.flatMap_cons, hbyte, hdiv, hmod]
    exact congrArg (fun rest ↦ Json.hexDigit m :: Json.hexDigit n :: rest) (ih hvalues)

/-- A text that is read is what is written for the identifier it is read as. -/
theorem encodeRuntimeId_of_decodeRuntimeId {idPrefix value : Text} {id : RuntimeId}
    (h : decodeRuntimeId idPrefix value = .ok id) : encodeRuntimeId idPrefix id = value := by
  unfold decodeRuntimeId at h
  split at h
  · exact absurd h (by simp)
  rename_i payload hpayload
  split at h
  · exact absurd h (by simp)
  split at h
  · exact absurd h (by simp)
  rename_i bytes hbytes
  split at h
  · split at h
    · obtain rfl := Except.ok.inj h
      rw [← List.isPrefixOf?_eq_some_iff_append_eq.mp hpayload]
      exact congrArg (idPrefix ++ ·) (encodeHexBytes_of_decodeHexBytes hbytes)
    · exact absurd h (by simp)
  · exact absurd h (by simp)

namespace RuntimeId

/-! ## Bytes -/

/-- The value of a byte that is a hexadecimal digit in lower case. -/
def decodeLowerHex (value : UInt8) : Option UInt8 :=
  if 0x30 ≤ value && value ≤ 0x39 then some (value - 0x30)
  else if 0x61 ≤ value && value ≤ 0x66 then some (value - 0x61 + 10)
  else none

/-- Read whole pairs of digits into an array, from an index on. -/
def decodeChunks : List UInt8 → Nat → Vector UInt8 16 → Except IdError (Vector UInt8 16)
  | high :: low :: rest, index, bytes =>
    match decodeLowerHex high, decodeLowerHex low with
    | some high, some low =>
      -- 32 digits are 16 pairs, so the index is one of the array.
      decodeChunks rest (index + 1) (bytes.setIfInBounds index ((high <<< 4) ||| low))
    | _, _ => .error .invalidHex
  | _, _, bytes => .ok bytes

/-- Read the payload of a runtime identifier. -/
def decodeRuntimeId (idPrefix value : Text) : Except IdError (Vector UInt8 16) :=
  match idPrefix.isPrefixOf? value with
  | none => .error .invalidPrefix
  | some payload =>
    if byteLen payload ≠ 32 then .error .invalidLength
    else match decodeChunks (Utf8.encode payload) 0 (.replicate 16 0) with
      | .error e => .error e
      | .ok bytes => if bytes.toList.all fun b ↦ b == 0 then .error .zeroPayload else .ok bytes

/-- Write the payload of a runtime identifier. -/
def encodeRuntimeId (idPrefix : Text) (bytes : Vector UInt8 16) : Text :=
  idPrefix ++ encodeHexBytes bytes.toList

/-! ## Reading bytes is reading characters -/

/-- A digit has the value of its byte. -/
theorem decodeLowerHex_ofNat {c : Char} (h : c.toNat < 0x80) :
    decodeLowerHex (UInt8.ofNat c.toNat) = (MinicoreRuntime.decodeLowerHex c).map UInt8.ofNat := by
  have hall : ∀ n < 0x80, decodeLowerHex (UInt8.ofNat n) =
      (MinicoreRuntime.decodeLowerHex (Char.ofNat n)).map UInt8.ofNat := by decide
  have hc := hall c.toNat h
  rwa [Char.ofNat_toNat] at hc

/-- A byte of a character that is not ASCII is no digit. -/
theorem decodeLowerHex_of_le {b : UInt8} (h : 0x80 ≤ b.toNat) : decodeLowerHex b = none := by
  have hdigit : ¬ b ≤ 0x39 := fun hle ↦ by
    have : b.toNat ≤ 0x39 := hle
    omega
  have hletter : ¬ b ≤ 0x66 := fun hle ↦ by
    have : b.toNat ≤ 0x66 := hle
    omega
  simp [decodeLowerHex, hdigit, hletter]

/-- A character that is not ASCII is no digit. -/
theorem decodeLowerHex_char_of_le {c : Char} (h : 0x80 ≤ c.toNat) :
    MinicoreRuntime.decodeLowerHex c = none := by
  have hdigit : ¬ c.toNat ≤ 0x39 := by omega
  have hletter : ¬ c.toNat ≤ 0x66 := by omega
  simp [MinicoreRuntime.decodeLowerHex, hdigit, hletter]

/-- Two digits make the byte they are written for. -/
theorem shift_or {m n : Nat} (hm : m < 16) (hn : n < 16) :
    (UInt8.ofNat m <<< 4) ||| UInt8.ofNat n = UInt8.ofNat (16 * m + n) := by
  have hall : ∀ m < 16, ∀ n < 16,
      (UInt8.ofNat m <<< 4) ||| UInt8.ofNat n = UInt8.ofNat (16 * m + n) := by decide
  exact hall m hm n hn

/-- A pair that begins with a byte that is no digit. -/
theorem decodeChunks_high {high : UInt8} (h : 0x80 ≤ high.toNat) {digits : List UInt8}
    (hdigits : 2 ≤ (high :: digits).length) (index : Nat) (bytes : Vector UInt8 16) :
    decodeChunks (high :: digits) index bytes = .error .invalidHex := by
  cases digits with
  | nil => exact absurd hdigits (by simp)
  | cons low rest => rw [decodeChunks, decodeLowerHex_of_le h]

/-- A pair that ends with a byte that is no digit. -/
theorem decodeChunks_low {low : UInt8} (h : 0x80 ≤ low.toNat) (high : UInt8) (rest : List UInt8)
    (index : Nat) (bytes : Vector UInt8 16) :
    decodeChunks (high :: low :: rest) index bytes = .error .invalidHex := by
  rw [decodeChunks, decodeLowerHex_of_le h]
  cases decodeLowerHex high <;> rfl

/-- What an array holds up to an index, after its entry there was set. -/
theorem take_setIfInBounds {index : Nat} (h : index < 16) (bytes : Vector UInt8 16) (b : UInt8) :
    (bytes.setIfInBounds index b).toList.take (index + 1) = bytes.toList.take index ++ [b] := by
  have hlength : index < bytes.toList.length := by simpa using h
  rw [Vector.toList_setIfInBounds, List.take_succ_eq_append_getElem (by simpa using hlength),
    List.take_set_of_le (Nat.le_refl _)]
  simp

/-- Pairs of bytes are read as pairs of characters are. -/
theorem decodeChunks_encode {payload : Text} {n index : Nat} (bytes : Vector UInt8 16)
    (hlength : (Utf8.encode payload).length = 2 * n) (hindex : index + n = 16) :
    match decodeHexBytes payload with
    | none => decodeChunks (Utf8.encode payload) index bytes = .error .invalidHex
    | some values => ∃ result, decodeChunks (Utf8.encode payload) index bytes = .ok result ∧
        result.toList = bytes.toList.take index ++ values := by
  induction payload using decodeHexBytes.induct generalizing n index bytes with
  | case1 =>
    refine ⟨bytes, rfl, ?_⟩
    have hall : index = 16 := by
      rw [Utf8.encode_nil, List.length_nil] at hlength
      omega
    rw [hall, List.append_nil, List.take_of_length_le (by simp)]
  | case2 c =>
    -- A single character is two bytes or more here, and then none of them is a digit.
    by_cases hascii : c.toNat < 0x80
    · rw [Utf8.encode_cons_of_lt hascii] at hlength
      simp at hlength
      omega
    · obtain ⟨b, rest, hencode, hb⟩ := Utf8.encode_cons_of_le (Nat.le_of_not_lt hascii) []
      rw [hencode] at hlength ⊢
      have hpos : 0 < (b :: rest).length := Nat.succ_pos _
      exact decodeChunks_high hb (by omega) index bytes
  | case3 high low rest ih =>
    by_cases hhigh : high.toNat < 0x80
    · rw [Utf8.encode_cons_of_lt hhigh] at hlength ⊢
      by_cases hlow : low.toNat < 0x80
      · rw [Utf8.encode_cons_of_lt hlow] at hlength ⊢
        rw [decodeChunks, decodeLowerHex_ofNat hhigh, decodeLowerHex_ofNat hlow, decodeHexBytes]
        cases hm : MinicoreRuntime.decodeLowerHex high with
        | none => rfl
        | some m =>
          cases hk : MinicoreRuntime.decodeLowerHex low with
          | none => rfl
          | some k =>
            obtain ⟨n, rfl⟩ : ∃ n', n = n' + 1 := ⟨n - 1, by simp at hlength; omega⟩
            have hshorter : (Utf8.encode rest).length = 2 * n := by
              simp at hlength
              omega
            have hnext : index + 1 + n = 16 := by omega
            have hrest := ih (bytes.setIfInBounds index ((UInt8.ofNat m <<< 4) ||| UInt8.ofNat k))
              hshorter hnext
            rw [take_setIfInBounds (by omega), shift_or (hexDigit_of_decodeLowerHex hm).1
              (hexDigit_of_decodeLowerHex hk).1] at hrest
            dsimp only [Option.map_some]
            rw [shift_or (hexDigit_of_decodeLowerHex hm).1 (hexDigit_of_decodeLowerHex hk).1]
            cases hvalues : decodeHexBytes rest with
            | none =>
              rw [hvalues] at hrest
              exact hrest
            | some values =>
              rw [hvalues] at hrest
              obtain ⟨result, hresult, htoList⟩ := hrest
              exact ⟨result, hresult, by simpa using htoList⟩
      · obtain ⟨b, rest', hencode, hb⟩ := Utf8.encode_cons_of_le (Nat.le_of_not_lt hlow) rest
        rw [hencode, decodeHexBytes, decodeLowerHex_char_of_le (Nat.le_of_not_lt hlow)]
        cases MinicoreRuntime.decodeLowerHex high <;> exact decodeChunks_low hb _ _ _ _
    · obtain ⟨b, rest', hencode, hb⟩ :=
        Utf8.encode_cons_of_le (Nat.le_of_not_lt hhigh) (low :: rest)
      rw [hencode] at hlength ⊢
      rw [decodeHexBytes, decodeLowerHex_char_of_le (Nat.le_of_not_lt hhigh)]
      have hpos : 0 < (b :: rest').length := Nat.succ_pos _
      exact decodeChunks_high hb (by omega) index bytes

/-- A payload is zero where all of its bytes are. -/
theorem all_zero_iff {bytes : Vector UInt8 16} :
    (bytes.toList.all fun b ↦ b == 0) = true ↔ bytes = .replicate 16 0 := by
  rw [List.all_eq_true, ← Vector.toList_inj, Vector.toList_replicate, List.eq_replicate_iff]
  simp

theorem any_nonzero (bytes : List UInt8) :
    (bytes.any fun b ↦ b != 0) = !(bytes.all fun b ↦ b == 0) := by
  rw [List.not_all_eq_any_not]
  rfl

/-- The reader of bytes reads what the reader of characters reads. -/
theorem decodeRuntimeId_eq (idPrefix value : Text) :
    decodeRuntimeId idPrefix value =
      (MinicoreRuntime.decodeRuntimeId idPrefix value).map RuntimeId.bytes := by
  unfold decodeRuntimeId MinicoreRuntime.decodeRuntimeId
  cases idPrefix.isPrefixOf? value with
  | none => rfl
  | some payload =>
    dsimp only
    split
    · rfl
    rename_i hbytes
    have hlength : (Utf8.encode payload).length = 2 * 16 := by
      rw [length_encode]
      exact Decidable.of_not_not hbytes
    have hread := decodeChunks_encode (.replicate 16 0) hlength (Nat.zero_add 16)
    cases hvalues : decodeHexBytes payload with
    | none =>
      rw [hvalues] at hread
      rw [hread]
      rfl
    | some values =>
      rw [hvalues] at hread
      obtain ⟨result, hresult, htoList⟩ := hread
      obtain rfl : result.toList = values := by simpa using htoList
      rw [hresult]
      dsimp only
      rw [dif_pos Vector.length_toList]
      -- Both read the same bytes; what is left is the check for zeros.
      cases hall : result.toList.all fun b ↦ b == 0 with
      | true =>
        have hany : ¬ (result.toList.any fun b ↦ b != 0) = true := by
          rw [any_nonzero, hall]
          simp
        rw [if_pos rfl, dif_neg hany]
        rfl
      | false =>
        have hany : (result.toList.any fun b ↦ b != 0) = true := by
          rw [any_nonzero, hall]
          rfl
        rw [if_neg (by simp), dif_pos hany]
        rfl

/-- What is written is read, and only what is written: every payload that is not zero is read back,
and a text that is read is what is written for the payload it is read as, which is not zero. Hence
two texts that are read as the same payload are one, and the texts that are read are those that are
written. -/
theorem canonical_spelling (idPrefix : Text) :
    (∀ b : Vector UInt8 16, b ≠ .replicate 16 0 →
      decodeRuntimeId idPrefix (encodeRuntimeId idPrefix b) = .ok b) ∧
    (∀ s b, decodeRuntimeId idPrefix s = .ok b →
      b ≠ .replicate 16 0 ∧ encodeRuntimeId idPrefix b = s) ∧
    (∀ s t b, decodeRuntimeId idPrefix s = .ok b → decodeRuntimeId idPrefix t = .ok b → s = t) ∧
    ∀ s, (∃ b, decodeRuntimeId idPrefix s = .ok b) ↔
      ∃ b, b ≠ .replicate 16 0 ∧ s = encodeRuntimeId idPrefix b := by
  -- A value that is not zero has a byte that is not zero, so that it is read back.
  have hwritten (b : Vector UInt8 16) (hb : b ≠ .replicate 16 0) :
      decodeRuntimeId idPrefix (encodeRuntimeId idPrefix b) = .ok b := by
    have hany : (b.toList.any fun b ↦ b != 0) = true := by
      rw [any_nonzero, Bool.not_eq_true', Bool.eq_false_iff]
      exact mt all_zero_iff.mp hb
    rw [decodeRuntimeId_eq]
    exact congrArg (Except.map bytes) (decodeRuntimeId_encodeRuntimeId idPrefix ⟨b, hany⟩)
  -- What is read is written the same way.
  have hread (s : Text) (b : Vector UInt8 16) (h : decodeRuntimeId idPrefix s = .ok b) :
      b ≠ .replicate 16 0 ∧ encodeRuntimeId idPrefix b = s := by
    rw [decodeRuntimeId_eq] at h
    cases hid : MinicoreRuntime.decodeRuntimeId idPrefix s with
    | error e =>
      rw [hid] at h
      exact absurd h (by simp [Except.map])
    | ok id =>
      rw [hid] at h
      obtain rfl : id.bytes = b := Except.ok.inj h
      refine ⟨fun hzero ↦ ?_, encodeRuntimeId_of_decodeRuntimeId hid⟩
      have hnonzero := id.nonzero
      simp [hzero] at hnonzero
  refine ⟨hwritten, hread, fun s t b hs ht ↦ ?_, fun s ↦ ⟨?_, ?_⟩⟩
  · rw [← (hread s b hs).2, ← (hread t b ht).2]
  · rintro ⟨b, hb⟩
    exact ⟨b, (hread s b hb).1, (hread s b hb).2.symm⟩
  · rintro ⟨b, hb, rfl⟩
    exact ⟨b, hwritten b hb⟩

/-- Identifiers of interactions and of loops are read back. -/
theorem canonical_spelling_prefixes :
    let bytes := (ofByte 0x1f (by decide)).bytes
    decodeRuntimeId "int_".toList (encodeRuntimeId "int_".toList bytes) = .ok bytes ∧
      decodeRuntimeId "lup_".toList (encodeRuntimeId "lup_".toList bytes) = .ok bytes :=
  ⟨(canonical_spelling "int_".toList).1 _ (by decide),
    (canonical_spelling "lup_".toList).1 _ (by decide)⟩

example : decodeRuntimeId "int_".toList "int_0000000000000000000000000000001f".toList =
    .ok ⟨#[0, 0, 0, 0, 0, 0, 0, 0, 0, 0, 0, 0, 0, 0, 0, 0x1f], rfl⟩ := by decide +kernel

end RuntimeId

end MinicoreRuntime
