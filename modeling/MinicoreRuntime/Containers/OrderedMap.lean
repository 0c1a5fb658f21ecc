import Mathlib.Order.Lattice
import Mathlib.Data.List.Pairwise

/-!
# Ordered maps

Maps as lists of entries in strictly increasing order of their keys. A map carries the order of its
entries, so two maps with the same entries are equal, and a map built by inserting the entries of
another in order is that map.

## Main definitions

* `OrderedMap`: a map.
* `OrderedMap.insert`, `OrderedMap.find?`, `OrderedMap.contains`.
* `OrderedMap.ofList`: the map built by inserting entries in turn.

## Main results

* `OrderedMap.lookup_eq_some`: a lookup finds exactly the entries.
* `OrderedMap.lookup_insertEntry`: lookups after an insertion.
* `OrderedMap.toList_insert_of_lt`: inserting above all keys appends.
* `OrderedMap.lookup_ofList`: lookups in a map built from entries of distinct keys.
-/

/-- A map with its entries in increasing order of their keys. -/
@[ext]
structure OrderedMap (κ ν : Type) [LinearOrder κ] where
  /-- The entries. -/
  toList : List (κ × ν)
  /-- Their keys increase. -/
  ordered : toList.Pairwise fun a b ↦ a.1 < b.1

namespace OrderedMap

variable {κ ν : Type} [LinearOrder κ]

/-- Insert an entry into a list, replacing the entry of the same key. -/
def insertEntry (key : κ) (value : ν) : List (κ × ν) → List (κ × ν)
  | [] => [(key, value)]
  | entry :: rest =>
    if key < entry.1 then (key, value) :: entry :: rest
    else if key = entry.1 then (key, value) :: rest
    else entry :: insertEntry key value rest

theorem mem_insertEntry {key : κ} {value : ν} {entries : List (κ × ν)} {entry : κ × ν}
    (h : entry ∈ insertEntry key value entries) : entry = (key, value) ∨ entry ∈ entries := by
  induction entries with
  | nil => exact .inl (by simpa [insertEntry] using h)
  | cons first rest ih =>
    rw [insertEntry] at h
    split at h
    · rcases List.mem_cons.mp h with h | h
      · exact .inl h
      · exact .inr h
    · split at h
      · rcases List.mem_cons.mp h with h | h
        · exact .inl h
        · exact .inr (List.mem_cons_of_mem _ h)
      · rcases List.mem_cons.mp h with rfl | h
        · exact .inr List.mem_cons_self
        · exact (ih h).imp_right (List.mem_cons_of_mem _)

theorem ordered_insertEntry (key : κ) (value : ν) {entries : List (κ × ν)}
    (h : entries.Pairwise fun a b ↦ a.1 < b.1) :
    (insertEntry key value entries).Pairwise fun a b ↦ a.1 < b.1 := by
  induction entries with
  | nil => exact List.pairwise_singleton _ _
  | cons first rest ih =>
    obtain ⟨hfirst, hrest⟩ := List.pairwise_cons.mp h
    rw [insertEntry]
    split
    · rename_i hlt
      refine List.pairwise_cons.mpr ⟨?_, h⟩
      rintro entry (_ | ⟨_, hentry⟩)
      · exact hlt
      · exact lt_trans hlt (hfirst entry hentry)
    · split
      · rename_i heq
        refine List.pairwise_cons.mpr ⟨fun entry hentry ↦ ?_, hrest⟩
        rw [heq]
        exact hfirst entry hentry
      · rename_i hle hne
        refine List.pairwise_cons.mpr ⟨fun entry hentry ↦ ?_, ih hrest⟩
        rcases mem_insertEntry hentry with rfl | hentry
        · exact lt_of_le_of_ne (not_lt.mp hle) (Ne.symm hne)
        · exact hfirst entry hentry

/-- The map without entries. -/
def empty : OrderedMap κ ν := ⟨[], .nil⟩

/-- Insert an entry, replacing the one of the same key. -/
def insert (m : OrderedMap κ ν) (key : κ) (value : ν) : OrderedMap κ ν :=
  ⟨insertEntry key value m.toList, ordered_insertEntry key value m.ordered⟩

/-- The value of a key. -/
def find? (m : OrderedMap κ ν) (key : κ) : Option ν :=
  m.toList.lookup key

/-- Whether a key has a value. -/
def contains (m : OrderedMap κ ν) (key : κ) : Bool :=
  (m.find? key).isSome

@[simp]
theorem toList_empty : (empty : OrderedMap κ ν).toList = [] := rfl

@[simp]
theorem toList_insert (m : OrderedMap κ ν) (key : κ) (value : ν) :
    (m.insert key value).toList = insertEntry key value m.toList := rfl

theorem lookup_cons_eq [BEq κ] [LawfulBEq κ] (key : κ) (entry : κ × ν) (rest : List (κ × ν)) :
    (entry :: rest).lookup key = if key = entry.1 then some entry.2 else rest.lookup key := by
  rw [List.lookup_cons]
  by_cases h : key = entry.1
  · simp [h]
  · rw [beq_eq_false_iff_ne.mpr h, if_neg h]

/-- A lookup in entries of increasing keys finds exactly the entries. -/
theorem lookup_eq_some [BEq κ] [LawfulBEq κ] {entries : List (κ × ν)}
    (h : entries.Pairwise fun a b ↦ a.1 < b.1) {key : κ} {value : ν} :
    entries.lookup key = some value ↔ (key, value) ∈ entries := by
  induction entries with
  | nil => simp
  | cons first rest ih =>
    obtain ⟨hfirst, hrest⟩ := List.pairwise_cons.mp h
    obtain ⟨k, v⟩ := first
    rw [lookup_cons_eq, List.mem_cons, Prod.mk.injEq]
    by_cases hkey : key = k
    · subst hkey
      have habsent : (key, value) ∉ rest := fun hmem ↦
        lt_irrefl key (hfirst (key, value) hmem)
      simp [habsent, eq_comm]
    · simp [hkey, ih hrest]

/-- Lookups after an insertion. -/
theorem lookup_insertEntry [BEq κ] [LawfulBEq κ] (key key' : κ) (value : ν)
    (entries : List (κ × ν)) :
    (insertEntry key value entries).lookup key' =
      if key' = key then some value else entries.lookup key' := by
  induction entries with
  | nil => rw [insertEntry, lookup_cons_eq]
  | cons first rest ih =>
    rw [insertEntry]
    split
    · rw [lookup_cons_eq]
    · split
      · rename_i heq
        rw [lookup_cons_eq, lookup_cons_eq, ← heq]
        by_cases h : key' = key <;> simp [h]
      · rename_i hne
        rw [lookup_cons_eq, lookup_cons_eq, ih]
        by_cases h : key' = key
        · rw [h, if_neg hne, if_pos rfl, if_pos rfl]
        · simp [h]

/-- Inserting a key above all others appends its entry. -/
theorem toList_insert_of_lt {m : OrderedMap κ ν} {key : κ} {value : ν}
    (h : ∀ entry ∈ m.toList, entry.1 < key) :
    (m.insert key value).toList = m.toList ++ [(key, value)] := by
  rw [toList_insert]
  obtain ⟨entries, hordered⟩ := m
  show insertEntry key value entries = entries ++ [(key, value)]
  replace h : ∀ entry ∈ entries, entry.1 < key := h
  clear hordered
  induction entries with
  | nil => rfl
  | cons first rest ih =>
    have hlt := h first List.mem_cons_self
    rw [insertEntry, if_neg hlt.not_gt, if_neg hlt.ne', ih fun entry hentry ↦
      h entry (List.mem_cons_of_mem _ hentry), List.cons_append]

/-! ## Maps from entries -/

/-- The map built by inserting entries in turn. -/
def ofList (entries : List (κ × ν)) : OrderedMap κ ν :=
  entries.foldl (fun m entry ↦ m.insert entry.1 entry.2) empty

/-- Entries inserted in turn shadow those of the map before. -/
theorem lookup_foldl_insert [BEq κ] [LawfulBEq κ] {entries : List (κ × ν)}
    (hkeys : (entries.map Prod.fst).Nodup) (m : OrderedMap κ ν) (key : κ) :
    (entries.foldl (fun m entry ↦ m.insert entry.1 entry.2) m).toList.lookup key =
      (entries.lookup key).or (m.toList.lookup key) := by
  induction entries generalizing m with
  | nil => simp
  | cons entry rest ih =>
    obtain ⟨hfresh, hrest⟩ := List.nodup_cons.mp hkeys
    rw [List.foldl_cons, ih hrest, toList_insert, lookup_insertEntry, lookup_cons_eq]
    by_cases hkey : key = entry.1
    · -- The key is inserted here, and by no later entry.
      have habsent : rest.lookup key = none := by
        rw [List.lookup_eq_none_iff]
        intro other hother
        apply bne_iff_ne.mpr
        intro heq
        apply hfresh
        rw [← hkey, heq]
        exact List.mem_map_of_mem hother
      rw [habsent, if_pos hkey, if_pos hkey]
      rfl
    · simp [hkey]

/-- Lookups in a map built from entries of distinct keys. -/
theorem lookup_ofList [BEq κ] [LawfulBEq κ] {entries : List (κ × ν)}
    (hkeys : (entries.map Prod.fst).Nodup) (key : κ) :
    (ofList entries).toList.lookup key = entries.lookup key := by
  rw [ofList, lookup_foldl_insert hkeys, toList_empty, List.lookup_nil, Option.or_none]

/-- A map built from entries has no others. -/
theorem mem_of_mem_ofList {entries : List (κ × ν)} {entry : κ × ν}
    (h : entry ∈ (ofList entries).toList) : entry ∈ entries := by
  have hfold : ∀ (entries : List (κ × ν)) (m : OrderedMap κ ν),
      entry ∈ (entries.foldl (fun m entry ↦ m.insert entry.1 entry.2) m).toList →
      entry ∈ m.toList ∨ entry ∈ entries := by
    intro entries
    induction entries with
    | nil => exact fun m hm ↦ .inl hm
    | cons first rest ih =>
      intro m hm
      rcases ih _ hm with hm | hm
      · rcases mem_insertEntry hm with rfl | hm
        · exact .inr List.mem_cons_self
        · exact .inl hm
      · exact .inr (List.mem_cons_of_mem _ hm)
  exact (hfold entries empty h).resolve_left (by simp)

end OrderedMap
