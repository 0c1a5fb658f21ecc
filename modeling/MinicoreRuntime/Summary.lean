import MinicoreRuntime.Prompt

/-!
# Summaries cut to the size of a message

The content of a summary may be longer than the text of a message. The default provider cuts it: it
goes back from the last byte there is room for until a character starts there, and slices. A slice
that does not end at a boundary would unwind.

## Main definitions

* `summaryEnd`, `slicedSummaryMessage`: the cut as the code makes it, with its slice.

## Main results

* `slicedSummaryMessage_eq`: the slice never unwinds, and what it leaves is the message of the
  summary.
* `summary_truncation`: the message keeps the longest part of the content there is room for.
-/

namespace MinicoreRuntime

/-! ### The longest prefix -/

theorem byteLen_truncateAtCharBoundary_le (limit : Nat) (content : Text) :
    byteLen (truncateAtCharBoundary limit content) ≤ limit := by
  induction content generalizing limit with
  | nil => simp [truncateAtCharBoundary]
  | cons d content ih =>
    rw [truncateAtCharBoundary]
    split
    · have := ih (limit - d.utf8Size)
      rw [byteLen_cons]
      omega
    · simp

theorem truncateAtCharBoundary_prefix (limit : Nat) (content : Text) :
    truncateAtCharBoundary limit content <+: content := by
  induction content generalizing limit with
  | nil => exact List.prefix_refl []
  | cons c content ih =>
    rw [truncateAtCharBoundary]
    split
    · exact List.cons_prefix_cons.mpr ⟨rfl, ih _⟩
    · exact List.nil_prefix

/-- No longer prefix fits. -/
theorem prefix_truncateAtCharBoundary {limit : Nat} {content kept : Text} (h : kept <+: content)
    (hfits : byteLen kept ≤ limit) : kept <+: truncateAtCharBoundary limit content := by
  induction content generalizing limit kept with
  | nil =>
    rw [List.prefix_nil.mp h]
    exact List.nil_prefix
  | cons c content ih =>
    cases kept with
    | nil => exact List.nil_prefix
    | cons d kept =>
      obtain ⟨rfl, hrest⟩ := List.cons_prefix_cons.mp h
      rw [byteLen_cons] at hfits
      rw [truncateAtCharBoundary, if_pos (by omega)]
      exact List.cons_prefix_cons.mpr ⟨rfl, ih hrest (by omega)⟩

/-! ### The cut -/

/-- The bytes of a summary's content that its message has room for. -/
def summaryRoom : Nat := maxModelMessageTextBytes - byteLen summaryPrefix

theorem ModelMessage.newSystem_eq_ok {text : Text} {message : ModelMessage} :
    newSystem text = .ok message ↔
      validText text maxModelMessageTextBytes false = true ∧ message = .system text := by
  unfold newSystem
  by_cases h : validText text maxModelMessageTextBytes false = true
  · simp [h, eq_comm]
  · simp [h]

/-- The message of a summary is its content cut to the room there is. -/
theorem summaryMessage_eq (summary : SummaryHistory) :
    summaryMessage summary = ModelMessage.newSystem (summaryPrefix ++
      if byteLen summary.content.asStr ≤ summaryRoom then summary.content.asStr
      else truncateAtCharBoundary summaryRoom summary.content.asStr) := by
  have hroom : byteLen summaryPrefix + summaryRoom = maxModelMessageTextBytes := by decide
  simp only [summaryMessage]
  by_cases h : byteLen summary.content.asStr ≤ summaryRoom
  · have : ¬ byteLen summaryPrefix + byteLen summary.content.asStr > maxModelMessageTextBytes := by
      omega
    rw [if_pos h, if_neg this]
  · have : byteLen summaryPrefix + byteLen summary.content.asStr > maxModelMessageTextBytes := by
      omega
    rw [if_neg h, if_pos this]
    rfl

/-- Where the code ends the content: at its end, or at the last character boundary there is room
for. -/
def summaryEnd (content : Text) : Nat :=
  if byteLen summaryPrefix + byteLen content > maxModelMessageTextBytes then
    Utf8.floorBoundary (Utf8.encode content) (maxModelMessageTextBytes - byteLen summaryPrefix)
  else byteLen content

/-- The message of a summary with the slice of its content, or `none` where slicing unwinds. -/
def slicedSummaryMessage (summary : SummaryHistory) :
    Option (Except ModelValueError ModelMessage) :=
  let content := summary.content.asStr
  (Utf8.sliceTo content (summaryEnd content)).map fun kept ↦
    ModelMessage.newSystem (summaryPrefix ++ kept)

/-- What the slice leaves of a content. -/
theorem sliceTo_summaryEnd (content : Text) :
    Utf8.sliceTo content (summaryEnd content) =
      some (if byteLen content ≤ summaryRoom then content
        else truncateAtCharBoundary summaryRoom content) := by
  have hroom : byteLen summaryPrefix + summaryRoom = maxModelMessageTextBytes := by decide
  unfold summaryEnd
  by_cases h : byteLen content ≤ summaryRoom
  · rw [if_pos h, if_neg (by omega)]
    exact Utf8.sliceTo_eq_some.mpr ⟨List.prefix_refl content, length_encode content⟩
  · rw [if_neg h, if_pos (by omega)]
    obtain ⟨kept, hslice, hprefix, hfits, hlongest⟩ :=
      Utf8.sliceTo_floorBoundary content summaryRoom
    rw [length_encode] at hfits
    -- Both are the longest prefix that fits.
    have hle : truncateAtCharBoundary summaryRoom content <+: kept := by
      apply hlongest _ <| truncateAtCharBoundary_prefix _ _
      rw [length_encode]
      exact byteLen_truncateAtCharBoundary_le _ _
    have hge := prefix_truncateAtCharBoundary hprefix hfits
    have hkept : kept = truncateAtCharBoundary summaryRoom content :=
      hge.eq_of_length_le hle.length_le
    rw [← hkept]
    exact hslice

/-- Slicing never unwinds, and leaves the message of the summary. -/
theorem slicedSummaryMessage_eq (summary : SummaryHistory) :
    slicedSummaryMessage summary = some (summaryMessage summary) := by
  rw [slicedSummaryMessage, sliceTo_summaryEnd, summaryMessage_eq]
  rfl

/-- The message of a summary without control characters other than LF and TAB is the fixed prefix
and the longest prefix of the content that leaves the text within the limit of a message; the whole
content where that fits. -/
theorem summary_truncation (summary : SummaryHistory)
    (h : ∀ c ∈ summary.content.asStr, isControl c = true → c = '\n' ∨ c = '\t') :
    ∃ kept, slicedSummaryMessage summary = some (.ok (.system (summaryPrefix ++ kept))) ∧
      kept <+: summary.content.asStr ∧ byteLen (summaryPrefix ++ kept) ≤ 262144 ∧
      (∀ longer, longer <+: summary.content.asStr → byteLen (summaryPrefix ++ longer) ≤ 262144 →
        longer <+: kept) ∧
      (byteLen (summaryPrefix ++ summary.content.asStr) ≤ 262144 →
        kept = summary.content.asStr) := by
  have hroom : byteLen summaryPrefix + summaryRoom = 262144 := by decide
  have hprefix : ∀ c ∈ summaryPrefix, legalChar c = true := List.all_eq_true.mp (by decide)
  have hlegal : ∀ c ∈ summary.content.asStr, legalChar c = true := by
    intro c hc
    by_cases hcontrol : isControl c = true
    · rcases h c hc hcontrol with rfl | rfl <;> decide
    · simp [legalChar, hcontrol]
  -- What is kept is a prefix within the room there is, and no prefix within it is longer.
  have hkept : ∃ kept, slicedSummaryMessage summary =
        some (ModelMessage.newSystem (summaryPrefix ++ kept)) ∧
      kept <+: summary.content.asStr ∧ byteLen kept ≤ summaryRoom ∧
      (∀ longer, longer <+: summary.content.asStr → byteLen longer ≤ summaryRoom →
        longer <+: kept) := by
    rw [slicedSummaryMessage, sliceTo_summaryEnd]
    split
    · rename_i hfits
      exact ⟨_, rfl, List.prefix_refl _, hfits, fun longer hlonger _ ↦ hlonger⟩
    · exact ⟨_, rfl, truncateAtCharBoundary_prefix _ _, byteLen_truncateAtCharBoundary_le _ _,
        fun longer hlonger hfits ↦ prefix_truncateAtCharBoundary hlonger hfits⟩
  obtain ⟨kept, hmessage, hcontent, hfits, hlongest⟩ := hkept
  refine ⟨kept, ?_, hcontent, ?_, fun longer hlonger hlen ↦ ?_, fun hlen ↦ ?_⟩
  · have hvalid : validText (summaryPrefix ++ kept) maxModelMessageTextBytes false = true := by
      rw [validText_iff, byteLen_append]
      refine ⟨.inr fun hnil ↦ absurd (List.append_eq_nil_iff.mp hnil).1 (by decide), ?_, ?_⟩
      · exact (Nat.add_le_add_left hfits _).trans (by decide)
      · intro c hc
        rcases List.mem_append.mp hc with hc | hc
        · exact hprefix c hc
        · exact hlegal c (hcontent.subset hc)
    rw [hmessage, ModelMessage.newSystem_eq_ok.mpr ⟨hvalid, rfl⟩]
  · rw [byteLen_append]
    omega
  · apply hlongest longer hlonger
    rw [byteLen_append] at hlen
    omega
  · rw [byteLen_append] at hlen
    apply hcontent.eq_of_length_le
    exact (hlongest _ (List.prefix_refl _) (by omega)).length_le

namespace SummarySample

theorem byteLen_replicate (n : Nat) : byteLen (List.replicate n 'é') = n * 2 := by
  have hsize : Char.utf8Size 'é' = 2 := by decide
  simp [byteLen, hsize]

/-- A content as long as a text may be, of characters of two bytes. -/
def summary : SummaryHistory :=
  ⟨⟨List.replicate 131072 'é', (byteLen_replicate 131072).le⟩⟩

end SummarySample

/-- The theorem at the longest content there is: 131061 of its characters fit. -/
theorem summary_truncation_sample :
    slicedSummaryMessage SummarySample.summary =
      some (.ok (.system (summaryPrefix ++ List.replicate 131061 'é'))) := by
  have hlegal : ∀ c ∈ SummarySample.summary.content.asStr,
      isControl c = true → c = '\n' ∨ c = '\t' := by
    intro c hc hcontrol
    obtain rfl := List.eq_of_mem_replicate hc
    exact absurd hcontrol (by decide)
  obtain ⟨kept, hmessage, hcontent, hfits, hlongest, -⟩ :=
    summary_truncation SummarySample.summary hlegal
  have hprefix : byteLen summaryPrefix = 22 := by decide
  obtain ⟨-, hkept⟩ := List.prefix_replicate_iff.mp hcontent
  have hlonger : List.replicate 131061 'é' <+: kept := by
    apply hlongest
    · show List.replicate 131061 'é' <+: List.replicate (131061 + 11) 'é'
      rw [List.replicate_add]
      exact List.prefix_append _ _
    · rw [byteLen_append, SummarySample.byteLen_replicate, hprefix]
  have hle := hlonger.length_le
  rw [List.length_replicate] at hle
  rw [byteLen_append, hprefix, hkept, SummarySample.byteLen_replicate] at hfits
  have hlength : kept.length = 131061 := by omega
  rw [hmessage, hkept, hlength]

end MinicoreRuntime
