import MinicoreRuntime.AgentLoop.Runner.Tools
import MinicoreRuntime.Decode

/-!
# Answers to tools

The answer of the host to a question of a tool becomes the result of the tool's call, as a JSON text
that the runtime writes itself. The question is checked where the tool asks it and the answer where
the host gives it; together the two checks make the text one that fits every rule for results.

## Main definitions

* `ToolInputAnswer.canonical`: the JSON value of an answer.

## Main results

* `ToolInputAnswer.encodeResult_spec`: the text of a checked answer.
* `tool_input_answers`: what becomes of a checked answer to a checked question.
-/

namespace MinicoreRuntime

/-! ## Characters and bytes of escaped text -/

namespace Json

/-- A legal character is written without control characters, and in at most twice its bytes. -/
theorem escapeChar_legal {c : Char} (h : legalChar c = true) :
    (∀ d ∈ escapeChar c, isControl d = false) ∧ byteLen (escapeChar c) ≤ 2 * c.utf8Size := by
  have hsize := c.utf8Size_pos
  have htwo (a b : Char) (ha : isControl a = false) (hb : isControl b = false)
      (hlen : byteLen [a, b] = 2) :
      (∀ d ∈ [a, b], isControl d = false) ∧ byteLen [a, b] ≤ 2 * c.utf8Size := by
    refine ⟨?_, by omega⟩
    rw [List.forall_mem_cons, List.forall_mem_singleton]
    exact ⟨ha, hb⟩
  unfold escapeChar
  by_cases hquote : c = '"'
  · rw [if_pos hquote]
    exact htwo _ _ (by decide) (by decide) (by decide)
  by_cases hslash : c = '\\'
  · rw [if_neg hquote, if_pos hslash]
    exact htwo _ _ (by decide) (by decide) (by decide)
  by_cases hlf : c = '\n'
  · rw [if_neg hquote, if_neg hslash, if_pos hlf]
    exact htwo _ _ (by decide) (by decide) (by decide)
  by_cases hcr : c = '\r'
  · subst hcr
    exact absurd h (by decide)
  by_cases htab : c = '\t'
  · rw [if_neg hquote, if_neg hslash, if_neg hlf, if_neg hcr, if_pos htab]
    exact htwo _ _ (by decide) (by decide) (by decide)
  -- Every other legal character is no control character, and is written as it is.
  have hcontrol : isControl c = false := by
    simpa [legalChar, hlf, htab] using h
  have hlarge : ¬ c.toNat < 0x20 := by
    intro hsmall
    simp [isControl, hsmall] at hcontrol
  rw [if_neg hquote, if_neg hslash, if_neg hlf, if_neg hcr, if_neg htab, if_neg (by omega),
    if_neg (by omega), if_neg hlarge, List.forall_mem_singleton]
  refine ⟨hcontrol, ?_⟩
  rw [byteLen_cons, byteLen_nil]
  omega

/-- A legal text is written without control characters, and in at most twice its bytes. -/
theorem escaped_legal {s : Text} (h : ∀ c ∈ s, legalChar c = true) :
    (∀ d ∈ s.flatMap escapeChar, isControl d = false) ∧
      byteLen (s.flatMap escapeChar) ≤ 2 * byteLen s := by
  induction s with
  | nil => simp
  | cons c s ih =>
    rw [List.forall_mem_cons] at h
    obtain ⟨hchars, hbytes⟩ := ih h.2
    obtain ⟨hfirst, hsize⟩ := escapeChar_legal h.1
    rw [List.flatMap_cons, byteLen_append, byteLen_cons]
    refine ⟨fun d hd ↦ ?_, by omega⟩
    rcases List.mem_append.mp hd with hd | hd
    · exact hfirst d hd
    · exact hchars d hd

end Json

/-! ## The text of an answer -/

namespace ToolInputAnswer

/-- The JSON value of an answer. -/
def canonical (answer : ToolInputAnswer) (request : ToolInputRequest) : Option Json :=
  match answer with
  | .text value => some (.object [("answer".toList, .string value.asStr)])
  | .choice index => (request.choices[index]?).map fun chosen ↦
      .object [("choice_index".toList, .number (Nat.toDigits 10 index)),
        ("choice".toList, .string chosen.asStr)]

/-- An answer is written as its JSON value. -/
theorem encodeResult_eq (answer : ToolInputAnswer) (request : ToolInputRequest) :
    answer.encodeResult request = (answer.canonical request).map Json.compact := by
  cases answer with
  | text value => rfl
  | choice index =>
    rw [encodeResult, canonical]
    cases request.choices[index]? <;> rfl

/-- The text of an answer in words. -/
theorem compact_text (s : Text) :
    (Json.object [("answer".toList, .string s)]).compact =
      "\x7b\"answer\":\"".toList ++ s.flatMap Json.escapeChar ++ "\"\x7d".toList := by
  have hkey : "answer".toList.flatMap Json.escapeChar = "answer".toList := by decide
  rw [Json.compact_object, Json.flatten_fieldWrites, Json.flatten_stringWrites, hkey]
  simp [Json.compact, Json.writes, Json.flatten_stringWrites, Json.fieldWrites]

/-- The text of an answer that chooses. -/
theorem compact_choice (digits s : Text) :
    (Json.object [("choice_index".toList, .number digits),
        ("choice".toList, .string s)]).compact =
      "\x7b\"choice_index\":".toList ++ digits ++ ",\"choice\":\"".toList ++
        s.flatMap Json.escapeChar ++ "\"\x7d".toList := by
  have hindex : "choice_index".toList.flatMap Json.escapeChar = "choice_index".toList := by decide
  have hchoice : "choice".toList.flatMap Json.escapeChar = "choice".toList := by decide
  rw [Json.compact_object, Json.flatten_fieldWrites, Json.flatten_fieldWrites,
    Json.flatten_stringWrites, Json.flatten_stringWrites, hindex, hchoice]
  simp [Json.compact, Json.writes, Json.flatten_stringWrites, Json.fieldWrites]

/-- The index of a choice is a number of at most two digits. -/
theorem digits_of_lt {index : Nat} (h : index < 32) :
    Json.validNumber (Nat.toDigits 10 index) = true ∧
      byteLen (Nat.toDigits 10 index) ≤ 2 ∧
      (Nat.toDigits 10 index).all (fun c ↦ !isControl c) = true := by
  have hall : ∀ index < 32, Json.validNumber (Nat.toDigits 10 index) = true ∧
      byteLen (Nat.toDigits 10 index) ≤ 2 ∧
      (Nat.toDigits 10 index).all (fun c ↦ !isControl c) = true := by decide
  exact hall index h

end ToolInputAnswer

/-- What the check of a question says about its choices. -/
theorem ToolInputRequest.choices_of_validate {request : ToolInputRequest}
    (h : request.validate = true) :
    request.choices.length ≤ 32 ∧
      ∀ choice ∈ request.choices, validText choice.asStr 1024 false = true := by
  simp only [validate, Bool.not_eq_true', Bool.or_eq_false_iff, decide_eq_false_iff_not,
    List.any_eq_false] at h
  obtain ⟨⟨⟨-, hlength⟩, hchoices⟩, -⟩ := h
  refine ⟨by omega, fun choice hchoice ↦ ?_⟩
  simpa using hchoices choice hchoice

namespace ToolInputAnswer

variable {request : ToolInputRequest} {answer : ToolInputAnswer}

/-- The text of a checked answer to a checked question: it is read as the answer's value, has no
control characters, and is far below the cap. -/
theorem encodeResult_spec (hrequest : request.validate = true)
    (hanswer : answer.validate request = true) :
    ∃ value, answer.canonical request = some value ∧
      answer.encodeResult request = some value.compact ∧
      Json.decode value.compact = some value ∧
      (∀ c ∈ value.compact, isControl c = false) ∧ byteLen value.compact ≤ maxTextBytes := by
  have hcap : maxTextBytes = 262144 := rfl
  have hconstant {text : Text} (h : text.all (fun c ↦ !isControl c) = true) :
      ∀ c ∈ text, isControl c = false := fun c hc ↦ by
    simpa using List.all_eq_true.mp h c hc
  cases answer with
  | text value =>
    have hvalid : validText value.asStr 8192 false = true := by
      cases hkind : request.answerKind with
      | text => simpa [validate, hkind] using hanswer
      | singleChoice => simp [validate, hkind] at hanswer
    obtain ⟨-, hbytes, hlegal⟩ := validText_iff.mp hvalid
    obtain ⟨hchars, hescaped⟩ := Json.escaped_legal hlegal
    refine ⟨_, rfl, rfl, Json.decode_compact rfl, ?_, ?_⟩
    · rw [compact_text, List.forall_mem_append, List.forall_mem_append]
      exact ⟨⟨hconstant (by decide), hchars⟩, hconstant (by decide)⟩
    · -- What is written around the text is short.
      have hopen : byteLen "\x7b\"answer\":\"".toList = 11 := by decide
      have hclose : byteLen "\"\x7d".toList = 2 := by decide
      rw [compact_text, byteLen_append, byteLen_append, hopen, hclose]
      omega
  | choice index =>
    have hindex : index < request.choices.length := by
      cases hkind : request.answerKind with
      | text => simp [validate, hkind] at hanswer
      | singleChoice => simpa [validate, hkind] using hanswer
    obtain ⟨hlength, hchoices⟩ := ToolInputRequest.choices_of_validate hrequest
    have hchosen := List.getElem?_eq_getElem hindex
    obtain ⟨-, hbytes, hlegal⟩ :=
      validText_iff.mp (hchoices request.choices[index] (List.getElem_mem hindex))
    obtain ⟨hchars, hescaped⟩ := Json.escaped_legal hlegal
    -- There are few choices, so that the index has few digits.
    obtain ⟨hnumber, hdigits, hplain⟩ := digits_of_lt (hindex.trans_le hlength)
    have hcanonical : canonical (.choice index) request =
        some (.object [("choice_index".toList, .number (Nat.toDigits 10 index)),
          ("choice".toList, .string request.choices[index].asStr)]) := by
      rw [canonical, hchosen]
      rfl
    refine ⟨_, hcanonical, by rw [encodeResult_eq, hcanonical]; rfl, Json.decode_compact ?_, ?_, ?_⟩
    · simp [Json.wellFormed, Json.wellFormedFields, hnumber]
    · rw [compact_choice]
      simp only [List.forall_mem_append]
      exact ⟨⟨⟨⟨hconstant (by decide), hconstant hplain⟩, hconstant (by decide)⟩, hchars⟩,
        hconstant (by decide)⟩
    · have hopen : byteLen "\x7b\"choice_index\":".toList = 16 := by decide
      have hmiddle : byteLen ",\"choice\":\"".toList = 11 := by decide
      have hclose : byteLen "\"\x7d".toList = 2 := by decide
      simp only [compact_choice, byteLen_append, hopen, hmiddle, hclose]
      omega

end ToolInputAnswer

/-! ## The result -/

/-- A body is the constant, or empty where the constant is too long. -/
theorem staticOutput_spec (message : ToolOutput) (maxBytes : Nat) :
    (staticOutput message maxBytes).content.byteLen ≤ maxBytes ∧
      ((staticOutput message maxBytes).content.asStr = message.content.asStr ∨
        (staticOutput message maxBytes).content.asStr = []) := by
  unfold staticOutput
  split
  · rename_i hfits
    exact ⟨hfits, .inl rfl⟩
  · exact ⟨Nat.zero_le _, .inr rfl⟩

/-- Text without control characters within the cap is the body of a result. -/
theorem ToolOutput.new_of_plain {content : Text} (hplain : ∀ c ∈ content, isControl c = false)
    (hbytes : byteLen content ≤ maxTextBytes) :
    ∃ output, ToolOutput.new content = .ok output ∧ output.content.asStr = content := by
  have hvalid : validText content maxTextBytes true = true := by
    rw [validText_iff]
    exact ⟨.inl rfl, hbytes, fun c hc ↦ by simp [legalChar, hplain c hc]⟩
  exact ⟨_, dif_pos hvalid, rfl⟩

/-- What becomes of a checked answer to a checked question: its text is read as the answer, has no
control characters and is the body of a result; it is recorded where it fits, and otherwise the call
failed. -/
theorem tool_input_answers (request : ToolInputRequest) (answer : ToolInputAnswer)
    (hrequest : request.validate = true) (hanswer : answer.validate request = true) :
    ∃ content, answer.encodeResult request = some content ∧
      (∀ value, answer = .text value →
        Json.decode content = some (.object [("answer".toList, .string value.asStr)])) ∧
      (∀ index, answer = .choice index → ∃ chosen, request.choices[index]? = some chosen ∧
        Json.decode content = some (.object
          [("choice_index".toList, .number (Nat.toDigits 10 index)),
            ("choice".toList, .string chosen.asStr)])) ∧
      (∀ c ∈ content, isControl c = false) ∧
      (∃ output, ToolOutput.new content = .ok output ∧ output.content.asStr = content) ∧
      ∀ id requestIndex invocation maxBytes,
        (byteLen content ≤ maxBytes →
          (providedInputResult id requestIndex invocation content maxBytes).outcome =
            .inputProvided ∧
          (providedInputResult id requestIndex invocation content maxBytes).output.content.asStr =
            content) ∧
        (maxBytes < byteLen content →
          (providedInputResult id requestIndex invocation content maxBytes).outcome = .failed ∧
          (providedInputResult id requestIndex invocation content maxBytes).output.content.byteLen ≤
            maxBytes) := by
  obtain ⟨value, hcanonical, hencode, hdecode, hplain, hbytes⟩ :=
    ToolInputAnswer.encodeResult_spec hrequest hanswer
  have houtput := ToolOutput.new_of_plain hplain hbytes
  refine ⟨value.compact, hencode, ?_, ?_, hplain, houtput, ?_⟩
  · -- An answer in words.
    rintro text rfl
    rw [hdecode, ← hcanonical]
    rfl
  · -- A choice, which is one of the request's.
    rintro index rfl
    cases hchosen : request.choices[index]? with
    | none => simp [ToolInputAnswer.canonical, hchosen] at hcanonical
    | some chosen =>
      refine ⟨chosen, rfl, ?_⟩
      rw [hdecode, ← hcanonical, ToolInputAnswer.canonical, hchosen]
      rfl
  · -- The result of the call, by whether the content fits.
    intro id requestIndex invocation maxBytes
    obtain ⟨output, hnew, hcontent⟩ := houtput
    constructor
    · intro hfits
      rw [providedInputResult, if_pos hfits, hnew]
      exact ⟨rfl, hcontent⟩
    · intro hlarge
      rw [providedInputResult, if_neg (by omega)]
      exact ⟨rfl, (staticOutput_spec _ _).1⟩

namespace AnswerSample

/-- A question with two choices. -/
def request : ToolInputRequest :=
  ⟨⟨"which?".toList, by decide⟩, [⟨"tab\t".toList, by decide⟩, ⟨"quote\"".toList, by decide⟩],
    .singleChoice⟩

end AnswerSample

/-- The second choice of the sample, with its quote escaped. -/
theorem tool_input_answers_sample : ∃ content,
    (ToolInputAnswer.choice 1).encodeResult AnswerSample.request = some content ∧
      content = "\x7b\"choice_index\":1,\"choice\":\"quote\\\"\"\x7d".toList ∧
      Json.decode content = some (.object [("choice_index".toList, .number ['1']),
        ("choice".toList, .string "quote\"".toList)]) := by
  obtain ⟨content, hencode, -, hchoice, -⟩ :=
    tool_input_answers AnswerSample.request (.choice 1) (by decide) (by decide)
  obtain ⟨chosen, hchosen, hdecode⟩ := hchoice 1 rfl
  obtain rfl := Option.some.inj hchosen
  exact ⟨content, hencode, (Option.some.inj hencode).symm, hdecode⟩

end MinicoreRuntime
