import Mathlib.Tactic.Common
import Mathlib.Data.List.Infix

/-!
# UTF-8 boundaries

Texts as lists of characters, and positions in their UTF-8 bytes. A position is a boundary where a
character starts or the text ends. A slice up to a boundary is a prefix of the text, and there is no
slice up to any other position.

## Main definitions

* `Utf8.encode`: the bytes of a text.
* `Utf8.isBoundary`, `Utf8.floorBoundary`: boundaries, and the last one up to a position.
* `Utf8.sliceTo`: the slice up to a position.

## Main results

* `Utf8.isBoundary_iff`: boundaries are where the text can be split.
* `Utf8.sliceTo_eq_some`: slices are the prefixes of the text.
* `Utf8.sliceTo_floorBoundary`: the slice up to the last boundary is the longest prefix that fits.
-/

namespace Utf8

/-- The bytes of a text. -/
def encode (s : List Char) : List UInt8 := s.flatMap String.utf8EncodeChar

@[simp]
theorem encode_nil : encode [] = [] := rfl

@[simp]
theorem encode_cons (c : Char) (s : List Char) :
    encode (c :: s) = String.utf8EncodeChar c ++ encode s := rfl

@[simp]
theorem encode_append (s t : List Char) : encode (s ++ t) = encode s ++ encode t :=
  List.flatMap_append

/-- A character below 128 is one byte. -/
theorem encode_cons_of_lt {c : Char} (h : c.toNat < 0x80) (s : List Char) :
    encode (c :: s) = UInt8.ofNat c.toNat :: encode s := by
  have hle : c.val.toNat ≤ 0x7f := Nat.le_of_lt_succ h
  rw [encode_cons, String.utf8EncodeChar, if_pos hle]
  rfl

/-- Any other character begins with a byte that is none of these. -/
theorem encode_cons_of_le {c : Char} (h : 0x80 ≤ c.toNat) (s : List Char) :
    ∃ b rest, encode (c :: s) = b :: rest ∧ 0x80 ≤ b.toNat := by
  have hlt : ¬ c.val.toNat ≤ 0x7f := Nat.not_le.mpr h
  have hlead {n : Nat} (hn : 0x80 ≤ n) (hsize : n < 256) : 0x80 ≤ (UInt8.ofNat n).toNat := by
    rw [UInt8.toNat_ofNat_of_lt' hsize]
    exact hn
  rw [encode_cons, String.utf8EncodeChar, if_neg hlt]
  split
  · exact ⟨_, _, rfl, hlead (by omega) (by omega)⟩
  · split
    · exact ⟨_, _, rfl, hlead (by omega) (by omega)⟩
    · exact ⟨_, _, rfl, hlead (by omega) (by omega)⟩

/-- Whether a character starts at a position of some bytes, or the bytes end there. -/
def isBoundary (bytes : List UInt8) (index : Nat) : Bool :=
  match bytes[index]? with
  | some b => decide b.IsUTF8FirstByte
  | none => index == bytes.length

/-- Within the first character, only its start is a boundary. -/
theorem isBoundary_encode_of_lt {c : Char} (s : List Char) {index : Nat} (h : index < c.utf8Size) :
    isBoundary (encode (c :: s)) index = decide (index = 0) := by
  have hlt : index < (String.utf8EncodeChar c).length := by simpa using h
  have hget : (encode (c :: s))[index]? = some ((String.utf8EncodeChar c)[index]) := by
    rw [encode_cons, List.getElem?_append_left hlt, List.getElem?_eq_getElem hlt]
  simp only [isBoundary, hget, UInt8.isUTF8FirstByte_getElem_utf8EncodeChar]

/-- Behind the first character, the boundaries are those of the rest. -/
theorem isBoundary_encode_add (c : Char) (s : List Char) (index : Nat) :
    isBoundary (encode (c :: s)) (c.utf8Size + index) = isBoundary (encode s) index := by
  have hget : (encode (c :: s))[c.utf8Size + index]? = (encode s)[index]? := by
    rw [encode_cons, List.getElem?_append_right (by simp), String.length_utf8EncodeChar,
      Nat.add_sub_cancel_left]
  unfold isBoundary
  rw [hget]
  cases (encode s)[index]? with
  | some b => rfl
  | none => simp

/-- Boundaries are where the text can be split. -/
theorem isBoundary_iff {s : List Char} {index : Nat} :
    isBoundary (encode s) index = true ↔ ∃ t u, s = t ++ u ∧ (encode t).length = index := by
  induction s generalizing index with
  | nil =>
    constructor
    · intro h
      have hend : (index == 0) = true := h
      exact ⟨[], [], rfl, (beq_iff_eq.mp hend).symm⟩
    · rintro ⟨t, u, hsplit, rfl⟩
      obtain ⟨rfl, rfl⟩ := List.append_eq_nil_iff.mp hsplit.symm
      rfl
  | cons c s ih =>
    by_cases hlt : index < c.utf8Size
    · rw [isBoundary_encode_of_lt s hlt, decide_eq_true_iff]
      constructor
      · rintro rfl
        exact ⟨[], c :: s, rfl, rfl⟩
      · rintro ⟨t, u, hsplit, rfl⟩
        -- A prefix with a character in it is at least as long as the character.
        cases t with
        | nil => rfl
        | cons d t =>
          obtain ⟨rfl, -⟩ := List.cons.inj hsplit
          exact absurd hlt (by simp)
    · obtain ⟨rest, rfl⟩ := Nat.exists_eq_add_of_le (Nat.le_of_not_lt hlt)
      rw [isBoundary_encode_add, ih]
      constructor
      · rintro ⟨t, u, rfl, rfl⟩
        exact ⟨c :: t, u, rfl, by simp⟩
      · rintro ⟨t, u, hsplit, hlen⟩
        cases t with
        | nil =>
          have hpos := c.utf8Size_pos
          simp at hlen
          omega
        | cons d t =>
          obtain ⟨rfl, rfl⟩ := List.cons.inj hsplit
          exact ⟨t, u, rfl, by simpa using hlen⟩

/-- The start of a text is a boundary. -/
theorem isBoundary_zero (s : List Char) : isBoundary (encode s) 0 = true :=
  isBoundary_iff.mpr ⟨[], s, rfl, rfl⟩

/-- The last boundary up to a position, found by going back from it. -/
def floorBoundary (bytes : List UInt8) : Nat → Nat
  | 0 => 0
  | index + 1 => if isBoundary bytes (index + 1) then index + 1 else floorBoundary bytes index

theorem floorBoundary_le (bytes : List UInt8) (index : Nat) :
    floorBoundary bytes index ≤ index := by
  induction index with
  | zero => exact Nat.le_refl 0
  | succ index ih =>
    rw [floorBoundary]
    split
    · exact Nat.le_refl _
    · exact Nat.le_succ_of_le ih

/-- Going back ends at a boundary. -/
theorem isBoundary_floorBoundary (s : List Char) (index : Nat) :
    isBoundary (encode s) (floorBoundary (encode s) index) = true := by
  induction index with
  | zero => exact isBoundary_zero s
  | succ index ih =>
    rw [floorBoundary]
    split
    · assumption
    · exact ih

/-- No boundary lies between. -/
theorem le_floorBoundary {bytes : List UInt8} {index boundary : Nat}
    (h : isBoundary bytes boundary = true) (hle : boundary ≤ index) :
    boundary ≤ floorBoundary bytes index := by
  induction index with
  | zero => exact hle
  | succ index ih =>
    rw [floorBoundary]
    split
    · exact hle
    · rename_i hno
      apply ih
      -- The position itself is none.
      have hne : boundary ≠ index + 1 := by
        rintro rfl
        exact hno h
      omega

/-! ### Slices -/

/-- The characters in the first `n` bytes of a text. -/
def takeBytes : Nat → List Char → List Char
  | 0, _ => []
  | _ + 1, [] => []
  | n + 1, c :: s => c :: takeBytes (n + 1 - c.utf8Size) s

theorem takeBytes_cons {n : Nat} (h : 0 < n) (c : Char) (s : List Char) :
    takeBytes n (c :: s) = c :: takeBytes (n - c.utf8Size) s := by
  cases n with
  | zero => exact absurd h (Nat.lt_irrefl 0)
  | succ n => rfl

theorem takeBytes_length_encode (s t : List Char) : takeBytes (encode s).length (s ++ t) = s := by
  induction s with
  | nil => simp [takeBytes]
  | cons c s ih =>
    have hlen : (encode (c :: s)).length = c.utf8Size + (encode s).length := by simp
    have hpos : 0 < (encode (c :: s)).length := by
      rw [hlen]
      exact Nat.lt_add_right _ c.utf8Size_pos
    rw [List.cons_append, takeBytes_cons hpos, hlen, Nat.add_sub_cancel_left, ih]

/-- The slice of a text up to a position, where that is a boundary. -/
def sliceTo (s : List Char) (index : Nat) : Option (List Char) :=
  if isBoundary (encode s) index then some (takeBytes index s) else none

/-- Slices are the prefixes of the text. -/
theorem sliceTo_eq_some {s t : List Char} {index : Nat} :
    sliceTo s index = some t ↔ t <+: s ∧ (encode t).length = index := by
  unfold sliceTo
  constructor
  · intro h
    split at h
    · rename_i hboundary
      obtain ⟨t', u, rfl, rfl⟩ := isBoundary_iff.mp hboundary
      rw [takeBytes_length_encode, Option.some.injEq] at h
      obtain rfl := h
      exact ⟨List.prefix_append _ _, rfl⟩
    · exact absurd h (by simp)
  · rintro ⟨⟨u, rfl⟩, rfl⟩
    rw [if_pos (isBoundary_iff.mpr ⟨t, u, rfl, rfl⟩), takeBytes_length_encode]

/-- Prefixes of one text are ordered by their bytes. -/
theorem prefix_of_length_encode_le {s t u : List Char} (ht : t <+: s) (hu : u <+: s)
    (hle : (encode t).length ≤ (encode u).length) : t <+: u := by
  rcases List.prefix_or_prefix_of_prefix ht hu with h | ⟨v, rfl⟩
  · exact h
  · -- What the longer prefix has more takes no bytes, so there is none of it.
    cases v with
    | nil => simp
    | cons c v =>
      have hpos := c.utf8Size_pos
      simp at hle
      omega

/-- The slice up to the last boundary is the longest prefix that fits. -/
theorem sliceTo_floorBoundary (s : List Char) (limit : Nat) :
    ∃ t, sliceTo s (floorBoundary (encode s) limit) = some t ∧ t <+: s ∧
      (encode t).length ≤ limit ∧
      ∀ u, u <+: s → (encode u).length ≤ limit → u <+: t := by
  obtain ⟨t, v, hsplit, hlen⟩ := isBoundary_iff.mp (isBoundary_floorBoundary s limit)
  have hfirst : t <+: s := ⟨v, hsplit.symm⟩
  have hle : (encode t).length ≤ limit := by
    rw [hlen]
    exact floorBoundary_le _ _
  refine ⟨t, sliceTo_eq_some.mpr ⟨hfirst, hlen⟩, hfirst, hle, fun u hu hfits ↦ ?_⟩
  apply prefix_of_length_encode_le hu hfirst
  rw [hlen]
  obtain ⟨w, hw⟩ := hu
  exact le_floorBoundary (isBoundary_iff.mpr ⟨u, w, hw.symm, rfl⟩) hfits

end Utf8
