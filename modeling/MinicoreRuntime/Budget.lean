import MinicoreRuntime.Model.Message
import MinicoreRuntime.Containers.Counting

/-!
# JSON budgets

What the two checks of JSON values accept, said without their walks and writers: by the depths of
the nodes of a value, and by the bytes of its compact serialisation. A serialiser may cut its output
into writes anywhere, also inside a character.

## Main definitions

* `Json.depths`, `Json.nodes`, `Json.height`: the nodes of a value with their depths.
* `Serializer`, `Serializer.toWriter`: a serialiser that writes into a counting writer.
* `validateJsonSizeBy`, `ProviderReplay.newBy`: the checks, with the serialiser a parameter.

## Main results

* `validateJsonShape_eq_ok`, `validateShape_eq_ok`: what the walks accept.
* `validateJsonSizeBy_eq`, `ProviderReplay.measureBy_eq`: the cuts of the output do not matter.
* `json_budgets`: both checks are exact.
-/

namespace MinicoreRuntime

/-! ### Shape -/

namespace Json

mutual

/-- The depths of the nodes of a value whose root lies at `depth`, in the order of a walk. -/
def depths : Json → Nat → List Nat
  | .array items, depth => depth :: itemDepths items (depth + 1)
  | .object fields, depth => depth :: fieldDepths fields (depth + 1)
  | .null, depth | .bool _, depth | .number _, depth | .string _, depth => [depth]

/-- The depths of the values in the items of an array. -/
def itemDepths : List Json → Nat → List Nat
  | [], _ => []
  | item :: items, depth => item.depths depth ++ itemDepths items depth

/-- The depths of the values in the fields of an object. -/
def fieldDepths : List (Text × Json) → Nat → List Nat
  | [], _ => []
  | (_, value) :: fields, depth => value.depths depth ++ fieldDepths fields depth

end

/-- The number of nodes of a value. -/
def nodes (value : Json) : Nat := (value.depths 0).length

/-- The depth of the deepest node; the root lies at depth zero. -/
def height (value : Json) : Nat := (value.depths 0).foldr max 0

theorem height_le_iff {value : Json} {limit : Nat} :
    value.height ≤ limit ↔ ∀ depth ∈ value.depths 0, depth ≤ limit := by
  unfold height
  induction value.depths 0 with
  | nil => simp
  | cons depth depths ih => rw [List.foldr_cons, Nat.max_le, ih, List.forall_mem_cons]

end Json

/-- Functions that walk over a value: they enter its root, and then the values in it one after the
other. -/
structure Json.Walks {ε : Type} (visit : Nat → Nat → Except ε Nat)
    (shape : Json → Nat → Nat → Except ε Nat) (items : List Json → Nat → Nat → Except ε Nat)
    (fields : List (Text × Json) → Nat → Nat → Except ε Nat) : Prop where
  leaf : ∀ value depth nodes, (∀ values, value ≠ .array values) →
    (∀ values, value ≠ .object values) → shape value depth nodes = (visit nodes depth).bind .ok
  array : ∀ values depth nodes, shape (.array values) depth nodes =
    (visit nodes depth).bind (items values (depth + 1))
  object : ∀ values depth nodes, shape (.object values) depth nodes =
    (visit nodes depth).bind (fields values (depth + 1))
  itemsNil : ∀ depth nodes, items [] depth nodes = .ok nodes
  itemsCons : ∀ value values depth nodes, items (value :: values) depth nodes =
    (shape value depth nodes).bind (items values depth)
  fieldsNil : ∀ depth nodes, fields [] depth nodes = .ok nodes
  fieldsCons : ∀ key value values depth nodes, fields ((key, value) :: values) depth nodes =
    (shape value depth nodes).bind (fields values depth)

namespace Json.Walks

variable {ε : Type} {visit : Nat → Nat → Except ε Nat} {shape : Json → Nat → Nat → Except ε Nat}
  {items : List Json → Nat → Nat → Except ε Nat}
  {fields : List (Text × Json) → Nat → Nat → Except ε Nat}

mutual

/-- A walk visits the nodes of a value one after the other. -/
theorem shape_eq (h : Json.Walks visit shape items fields) (value : Json) (depth nodes : Nat) :
    shape value depth nodes = (value.depths depth).foldlM visit nodes := by
  cases value with
  | array values =>
    rw [h.array, Json.depths, List.foldlM_cons]
    exact congrArg _ (funext fun nodes ↦ h.items_eq values (depth + 1) nodes)
  | object values =>
    rw [h.object, Json.depths, List.foldlM_cons]
    exact congrArg _ (funext fun nodes ↦ h.fields_eq values (depth + 1) nodes)
  | null | bool b | number text | string s =>
    rw [h.leaf _ _ _ (by simp) (by simp), Json.depths, List.foldlM_cons]
    rfl

theorem items_eq (h : Json.Walks visit shape items fields) (values : List Json)
    (depth nodes : Nat) :
    items values depth nodes = (Json.itemDepths values depth).foldlM visit nodes := by
  match values with
  | [] => exact h.itemsNil depth nodes
  | value :: values =>
    rw [h.itemsCons, Json.itemDepths, List.foldlM_append, ← h.shape_eq value]
    exact congrArg _ (funext fun nodes ↦ h.items_eq values depth nodes)

theorem fields_eq (h : Json.Walks visit shape items fields) (values : List (Text × Json))
    (depth nodes : Nat) :
    fields values depth nodes = (Json.fieldDepths values depth).foldlM visit nodes := by
  match values with
  | [] => exact h.fieldsNil depth nodes
  | (key, value) :: values =>
    rw [h.fieldsCons, Json.fieldDepths, List.foldlM_append, ← h.shape_eq value]
    exact congrArg _ (funext fun nodes ↦ h.fields_eq values depth nodes)

end

end Json.Walks

/-- The walk of the check of values. -/
theorem walks_validateJsonShape :
    Json.Walks (Counting.visit .jsonTooDeep .jsonTooManyNodes maxJsonDepth maxJsonNodes)
      validateJsonShape validateJsonItems validateJsonFields where
  leaf value depth nodes harray hobject := by
    rw [Counting.bind_visit]
    cases value with
    | array values => exact absurd rfl (harray values)
    | object values => exact absurd rfl (hobject values)
    | null | bool b | number text | string s => rfl
  array values depth nodes := by
    rw [validateJsonShape, Counting.bind_visit]
  object values depth nodes := by
    rw [validateJsonShape, Counting.bind_visit]
  itemsNil _ _ := rfl
  itemsCons value values depth nodes := by
    rw [validateJsonItems]
    cases validateJsonShape value depth nodes <;> rfl
  fieldsNil _ _ := rfl
  fieldsCons key value values depth nodes := by
    rw [validateJsonFields]
    cases validateJsonShape value depth nodes <;> rfl

/-- One test of both caps is a test of one after the other where their errors are the same. -/
private theorem replay_visit {α : Type} (nodes depth : Nat)
    (next : Nat → Except ModelValueError α) :
    (if depth > 32 || nodes + 1 > 16384 then .error .invalidProviderReplay else next (nodes + 1)) =
      (Counting.visit .invalidProviderReplay .invalidProviderReplay 32 16384 nodes depth).bind
        next := by
  rw [Counting.bind_visit]
  by_cases hdepth : depth > 32
  · simp [hdepth]
  · simp only [hdepth, decide_false, Bool.false_or, decide_eq_true_eq, if_false]

/-- The walk of the check of replay payloads, with one error for both caps. -/
theorem walks_validateShape :
    Json.Walks (Counting.visit .invalidProviderReplay .invalidProviderReplay 32 16384)
      validateShape validateShapeItems validateShapeFields where
  leaf value depth nodes harray hobject := by
    rw [← replay_visit]
    cases value with
    | array values => exact absurd rfl (harray values)
    | object values => exact absurd rfl (hobject values)
    | null | bool b | number text | string s => rfl
  array values depth nodes := by
    rw [validateShape, replay_visit nodes depth (validateShapeItems values (depth + 1))]
  object values depth nodes := by
    rw [validateShape, replay_visit nodes depth (validateShapeFields values (depth + 1))]
  itemsNil _ _ := rfl
  itemsCons value values depth nodes := by
    rw [validateShapeItems]
    cases validateShape value depth nodes <;> rfl
  fieldsNil _ _ := rfl
  fieldsCons key value values depth nodes := by
    rw [validateShapeFields]
    cases validateShape value depth nodes <;> rfl

/-- A walk from the root of a value accepts it within both caps. -/
theorem foldlM_visit_root {ε : Type} {tooDeep tooMany : ε} {maxDepth maxNodes total : Nat}
    {value : Json} :
    (value.depths 0).foldlM (Counting.visit tooDeep tooMany maxDepth maxNodes) 0 = .ok total ↔
      value.height ≤ maxDepth ∧ value.nodes ≤ maxNodes ∧ total = value.nodes := by
  rw [Counting.foldlM_visit_eq_ok (Nat.zero_le _), Json.height_le_iff, Nat.zero_add]
  rfl

/-- What the walk of the check of values accepts. -/
theorem validateJsonShape_eq_ok {value : Json} {total : Nat} :
    validateJsonShape value 0 0 = .ok total ↔
      value.height ≤ maxJsonDepth ∧ value.nodes ≤ maxJsonNodes ∧ total = value.nodes := by
  rw [walks_validateJsonShape.shape_eq, foldlM_visit_root]

/-- What the walk of the check of replay payloads accepts. -/
theorem validateShape_eq_ok {value : Json} {total : Nat} :
    validateShape value 0 0 = .ok total ↔
      value.height ≤ 32 ∧ value.nodes ≤ 16384 ∧ total = value.nodes := by
  rw [walks_validateShape.shape_eq, foldlM_visit_root]

/-! ### Size -/

namespace JsonCountingWriter

/-- Count one write of bytes, or refuse it; the flag says whether the write succeeded. -/
def writeBytes (sink : JsonCountingWriter) (bytes : List UInt8) : Bool × JsonCountingWriter :=
  let remaining := sink.maxBytes - sink.written
  if bytes.length > remaining then (false, { sink with exceeded := true })
  else (true, { sink with written := sink.written + bytes.length })

/-- Perform writes of bytes until one is refused. -/
def writeAllBytes : JsonCountingWriter → List (List UInt8) → Bool × JsonCountingWriter
  | sink, [] => (true, sink)
  | sink, bytes :: rest =>
    match sink.writeBytes bytes with
    | (true, sink) => sink.writeAllBytes rest
    | (false, sink) => (false, sink)

/-- A write of text is a write of its bytes. -/
theorem writeBytes_encode (sink : JsonCountingWriter) (text : Text) :
    sink.writeBytes (Utf8.encode text) = sink.write text := by
  simp only [writeBytes, write, length_encode]

theorem writeAllBytes_encode (sink : JsonCountingWriter) (texts : List Text) :
    sink.writeAllBytes (texts.map Utf8.encode) = sink.writeAll texts := by
  induction texts generalizing sink with
  | nil => rfl
  | cons text texts ih =>
    rw [List.map_cons, writeAllBytes, writeAll, writeBytes_encode]
    rcases sink.write text with ⟨- | -, sink'⟩
    · rfl
    · exact ih sink'

/-- Writes that fit succeed, however they are cut, and every byte is counted. -/
theorem writeAllBytes_of_le {sink : JsonCountingWriter} {chunks : List (List UInt8)}
    (h : sink.written + chunks.flatten.length ≤ sink.maxBytes) :
    sink.writeAllBytes chunks =
      (true, { sink with written := sink.written + chunks.flatten.length }) := by
  induction chunks generalizing sink with
  | nil => rfl
  | cons bytes rest ih =>
    rw [List.flatten_cons, List.length_append] at h
    have hroom : ¬ bytes.length > sink.maxBytes - sink.written := by omega
    rw [writeAllBytes, writeBytes, if_neg hroom, List.flatten_cons, List.length_append,
      ← Nat.add_assoc]
    apply ih
    simp only
    omega

/-- Of writes that do not fit one is refused, and the writer says so. -/
theorem writeAllBytes_of_lt {sink : JsonCountingWriter} {chunks : List (List UInt8)}
    (hsink : sink.written ≤ sink.maxBytes)
    (h : sink.maxBytes < sink.written + chunks.flatten.length) :
    (sink.writeAllBytes chunks).1 = false ∧ (sink.writeAllBytes chunks).2.exceeded = true := by
  induction chunks generalizing sink with
  | nil =>
    rw [List.flatten_nil, List.length_nil] at h
    omega
  | cons bytes rest ih =>
    rw [List.flatten_cons, List.length_append] at h
    rw [writeAllBytes, writeBytes]
    by_cases hlarge : bytes.length > sink.maxBytes - sink.written
    · simp [hlarge]
    · rw [if_neg hlarge]
      apply ih
      · simp only
        omega
      · simp only
        omega

end JsonCountingWriter

/-- A serialiser writes the compact serialisation in order, cut in some way. -/
structure Serializer where
  chunks : Json → List (List UInt8)
  /-- Together the writes are the serialisation. -/
  flatten_chunks : ∀ value, (chunks value).flatten = Utf8.encode value.compact

namespace Serializer

/-- Serialise into a counting writer. It fails if and only if a write does. -/
def toWriter (serializer : Serializer) (sink : JsonCountingWriter) (value : Json) :
    Bool × JsonCountingWriter :=
  sink.writeAllBytes (serializer.chunks value)

theorem length_chunks (serializer : Serializer) (value : Json) :
    (serializer.chunks value).flatten.length = byteLen value.compact := by
  rw [serializer.flatten_chunks, length_encode]

/-- The serialiser that writes one piece of text after the other. -/
def ofWrites : Serializer where
  chunks value := value.writes.map Utf8.encode
  flatten_chunks value := by
    rw [Json.compact, ← List.flatMap_def]
    induction value.writes with
    | nil => rfl
    | cons text texts ih => rw [List.flatMap_cons, List.flatten_cons, Utf8.encode_append, ih]

/-- A value that fits is written, and its bytes are counted. -/
theorem toWriter_of_le (serializer : Serializer) {value : Json} {maxBytes : Nat}
    (h : byteLen value.compact ≤ maxBytes) :
    serializer.toWriter (.new maxBytes) value =
      (true, ⟨maxBytes, byteLen value.compact, false⟩) := by
  rw [← serializer.length_chunks] at h ⊢
  rw [toWriter, JsonCountingWriter.writeAllBytes_of_le (by simpa [JsonCountingWriter.new] using h)]
  simp [JsonCountingWriter.new]

/-- A value that does not fit is refused. -/
theorem toWriter_of_lt (serializer : Serializer) {value : Json} {maxBytes : Nat}
    (h : maxBytes < byteLen value.compact) :
    ∃ sink, serializer.toWriter (.new maxBytes) value = (false, sink) ∧ sink.exceeded = true := by
  rw [← serializer.length_chunks] at h
  have hover : (JsonCountingWriter.new maxBytes).maxBytes <
      (JsonCountingWriter.new maxBytes).written + (serializer.chunks value).flatten.length := by
    simpa [JsonCountingWriter.new] using h
  obtain ⟨hrefused, hexceeded⟩ := JsonCountingWriter.writeAllBytes_of_lt (Nat.zero_le _) hover
  exact ⟨_, Prod.ext hrefused rfl, hexceeded⟩

end Serializer

/-! ### The checks -/

/-- Check a value against the caps on its shape and against a byte budget. -/
def validateJsonSizeBy (serializer : Serializer) (value : Json) (maxBytes : Nat) :
    Except ValueError Unit :=
  if maxBytes > maxJsonBytes then .error .jsonLimitTooLarge
  else match validateJsonShape value 0 0 with
    | .error e => .error e
    | .ok _ =>
      match serializer.toWriter (.new maxBytes) value with
      | (true, _) => .ok ()
      | (false, sink) => if sink.exceeded then .error .jsonTooLarge else .error .jsonSerialization

theorem validateJsonSizeBy_eq_ok (serializer : Serializer) {value : Json} {maxBytes : Nat} :
    validateJsonSizeBy serializer value maxBytes = .ok () ↔
      maxBytes ≤ maxJsonBytes ∧ value.nodes ≤ maxJsonNodes ∧ value.height ≤ maxJsonDepth ∧
        byteLen value.compact ≤ maxBytes := by
  unfold validateJsonSizeBy
  by_cases hmax : maxBytes > maxJsonBytes
  · rw [if_pos hmax]
    exact iff_of_false (by simp) fun h ↦ absurd h.1 (Nat.not_le_of_lt hmax)
  · rw [if_neg hmax]
    cases hshape : validateJsonShape value 0 0 with
    | error e =>
      refine iff_of_false (by simp) fun h ↦ ?_
      rw [validateJsonShape_eq_ok.mpr ⟨h.2.2.1, h.2.1, rfl⟩] at hshape
      exact absurd hshape (by simp)
    | ok total =>
      obtain ⟨hheight, hnodes, -⟩ := validateJsonShape_eq_ok.mp hshape
      by_cases hfits : byteLen value.compact ≤ maxBytes
      · rw [serializer.toWriter_of_le hfits]
        exact iff_of_true rfl ⟨Nat.le_of_not_lt hmax, hnodes, hheight, hfits⟩
      · obtain ⟨sink, hsink, hexceeded⟩ := serializer.toWriter_of_lt (Nat.lt_of_not_le hfits)
        rw [hsink]
        exact iff_of_false (by simp [hexceeded]) fun h ↦ hfits h.2.2.2

/-- Two serialisers pass the same check. -/
theorem validateJsonSizeBy_congr (serializer serializer' : Serializer) (value : Json)
    (maxBytes : Nat) :
    validateJsonSizeBy serializer value maxBytes =
      validateJsonSizeBy serializer' value maxBytes := by
  unfold validateJsonSizeBy
  by_cases hfits : byteLen value.compact ≤ maxBytes
  · rw [serializer.toWriter_of_le hfits, serializer'.toWriter_of_le hfits]
  · obtain ⟨sink, hsink, hexceeded⟩ := serializer.toWriter_of_lt (Nat.lt_of_not_le hfits)
    obtain ⟨sink', hsink', hexceeded'⟩ := serializer'.toWriter_of_lt (Nat.lt_of_not_le hfits)
    simp only [hsink, hsink', hexceeded, hexceeded']

/-- The cuts of the output do not matter: the check is the one that writes piece by piece. -/
theorem validateJsonSizeBy_eq (serializer : Serializer) (value : Json) (maxBytes : Nat) :
    validateJsonSizeBy serializer value maxBytes = validateJsonSize value maxBytes := by
  rw [validateJsonSizeBy_congr serializer .ofWrites, validateJsonSizeBy, Serializer.toWriter,
    Serializer.ofWrites, JsonCountingWriter.writeAllBytes_encode]
  rfl

namespace ProviderReplay

/-- The envelope of replay metadata. -/
def envelopeValue (format : Text) (payload : Json) : Json :=
  .object [("format".toList, .string format), ("payload".toList, payload)]

/-- Check replay metadata and count the bytes of its envelope. -/
def measureBy (serializer : Serializer) (format : Text) (payload : Json) :
    Except ModelValueError Nat :=
  if format.isEmpty || decide (byteLen format > 128) || !format.all isSymbolicChar then
    .error .invalidProviderReplay
  else match validateShape payload 0 0 with
    | .error e => .error e
    | .ok _ =>
      match serializer.toWriter (.new maxBytes) (envelopeValue format payload) with
      | (true, sink) => .ok sink.written
      | (false, _) => .error .invalidProviderReplay

/-- Two serialisers measure the same. -/
theorem measureBy_congr (serializer serializer' : Serializer) (format : Text) (payload : Json) :
    measureBy serializer format payload = measureBy serializer' format payload := by
  unfold measureBy
  by_cases hfits : byteLen (envelopeValue format payload).compact ≤ maxBytes
  · rw [serializer.toWriter_of_le hfits, serializer'.toWriter_of_le hfits]
  · obtain ⟨sink, hsink, -⟩ := serializer.toWriter_of_lt (Nat.lt_of_not_le hfits)
    obtain ⟨sink', hsink', -⟩ := serializer'.toWriter_of_lt (Nat.lt_of_not_le hfits)
    rw [hsink, hsink']

/-- The cuts of the output do not matter. -/
theorem measureBy_eq (serializer : Serializer) (format : Text) (payload : Json) :
    measureBy serializer format payload = measure format payload := by
  rw [measureBy_congr serializer .ofWrites, measureBy, Serializer.toWriter, Serializer.ofWrites,
    JsonCountingWriter.writeAllBytes_encode]
  rfl

/-- Check replay metadata. -/
def newBy (serializer : Serializer) (format : Text) (payload : Json) :
    Except ModelValueError ProviderReplay :=
  match h : measureBy serializer format payload with
  | .error e => .error e
  | .ok bytes => .ok ⟨format, payload, bytes, (measureBy_eq serializer format payload).symm.trans h⟩

theorem measureBy_eq_ok (serializer : Serializer) {format : Text} {payload : Json} {bytes : Nat} :
    measureBy serializer format payload = .ok bytes ↔
      (format ≠ [] ∧ byteLen format ≤ 128 ∧ ∀ c ∈ format, isSymbolicChar c = true) ∧
        payload.nodes ≤ 16384 ∧ payload.height ≤ 32 ∧
        byteLen (envelopeValue format payload).compact ≤ maxBytes ∧
        bytes = byteLen (envelopeValue format payload).compact := by
  have hformat : (format.isEmpty || decide (byteLen format > 128) ||
      !format.all isSymbolicChar) = true ↔
      ¬ (format ≠ [] ∧ byteLen format ≤ 128 ∧ ∀ c ∈ format, isSymbolicChar c = true) := by
    rw [← List.all_eq_true]
    simp only [Bool.or_eq_true, List.isEmpty_iff, decide_eq_true_eq, Bool.not_eq_true',
      not_and_or, not_not, Nat.not_le, gt_iff_lt, Bool.not_eq_true, or_assoc]
  unfold measureBy
  -- The format is checked first, then the shape, then the envelope is written.
  by_cases hbad : (format.isEmpty || decide (byteLen format > 128) ||
      !format.all isSymbolicChar) = true
  · rw [if_pos hbad]
    exact iff_of_false (by simp) fun h ↦ hformat.mp hbad h.1
  · rw [if_neg hbad]
    have hgood := not_not.mp (mt hformat.mpr hbad)
    cases hshape : validateShape payload 0 0 with
    | error e =>
      refine iff_of_false (by simp) fun h ↦ ?_
      rw [validateShape_eq_ok.mpr ⟨h.2.2.1, h.2.1, rfl⟩] at hshape
      exact absurd hshape (by simp)
    | ok total =>
      obtain ⟨hheight, hnodes, -⟩ := validateShape_eq_ok.mp hshape
      -- The writer stops once the limit is passed, however the serializer splits its writes.
      by_cases hfits : byteLen (envelopeValue format payload).compact ≤ maxBytes
      · rw [serializer.toWriter_of_le hfits]
        simp only [Except.ok.injEq]
        exact ⟨fun h ↦ ⟨hgood, hnodes, hheight, hfits, h.symm⟩, fun h ↦ h.2.2.2.2.symm⟩
      · obtain ⟨sink, hsink, -⟩ := serializer.toWriter_of_lt (Nat.lt_of_not_le hfits)
        rw [hsink]
        exact iff_of_false (by simp) fun h ↦ hfits h.2.2.2.1

/-- Metadata is built where its measure is taken, and carries it. -/
theorem newBy_eq_ok (serializer : Serializer) {format : Text} {payload : Json}
    {replay : ProviderReplay} :
    newBy serializer format payload = .ok replay ↔
      measureBy serializer format payload = .ok replay.bytes ∧ replay.format = format ∧
        replay.payload = payload := by
  unfold newBy
  split
  · rename_i e he
    exact iff_of_false (by simp) fun h ↦ by rw [h.1] at he; exact absurd he (by simp)
  · rename_i bytes hbytes
    obtain ⟨format', payload', bytes', hvalid⟩ := replay
    simp only [Except.ok.injEq, mk.injEq]
    constructor
    · rintro ⟨rfl, rfl, rfl⟩
      exact ⟨hbytes, rfl, rfl⟩
    · rintro ⟨hmeasure, rfl, rfl⟩
      exact ⟨rfl, rfl, Except.ok.inj (hbytes.symm.trans hmeasure)⟩

end ProviderReplay

/-- The budgets are exact, however the serialiser cuts its output. A value passes the check against
`maxBytes` exactly if it has at most 4096 nodes, none deeper than 32, and is serialised in at most
`maxBytes` bytes. Replay metadata is built exactly from a short symbolic name of a format and a
payload of at most 16384 nodes, none deeper than 32, whose envelope is serialised in at most 262144
bytes; these are the bytes it counts. -/
theorem json_budgets (serializer : Serializer) :
    (∀ (value : Json) (maxBytes : Nat), maxBytes ≤ 65536 →
      (validateJsonSizeBy serializer value maxBytes = .ok () ↔
        value.nodes ≤ 4096 ∧ value.height ≤ 32 ∧ byteLen value.compact ≤ maxBytes)) ∧
      ∀ (format : Text) (payload : Json),
        ((∃ replay, ProviderReplay.newBy serializer format payload = .ok replay) ↔
          (1 ≤ byteLen format ∧ byteLen format ≤ 128 ∧ ∀ c ∈ format, isSymbolicChar c = true) ∧
            payload.nodes ≤ 16384 ∧ payload.height ≤ 32 ∧
            byteLen (ProviderReplay.envelopeValue format payload).compact ≤ 262144) ∧
        ∀ replay, ProviderReplay.newBy serializer format payload = .ok replay →
          replay.bytes = byteLen (ProviderReplay.envelopeValue format payload).compact := by
  refine ⟨fun value maxBytes hmax ↦ ?_, fun format payload ↦ ⟨?_, fun replay hreplay ↦ ?_⟩⟩
  · rw [validateJsonSizeBy_eq_ok]
    exact and_iff_right hmax
  · have hlength : 1 ≤ byteLen format ↔ format ≠ [] := by
      rw [Nat.one_le_iff_ne_zero, Ne, byteLen_eq_zero]
    rw [hlength]
    constructor
    · rintro ⟨replay, hreplay⟩
      obtain ⟨hmeasure, -, -⟩ := (ProviderReplay.newBy_eq_ok serializer).mp hreplay
      obtain ⟨hformat, hnodes, hheight, hfits, -⟩ :=
        (ProviderReplay.measureBy_eq_ok serializer).mp hmeasure
      exact ⟨hformat, hnodes, hheight, hfits⟩
    · -- Every check passes, and measuring the value gives its bytes.
      rintro ⟨hformat, hnodes, hheight, hfits⟩
      have hmeasure := (ProviderReplay.measureBy_eq_ok serializer).mpr
        ⟨hformat, hnodes, hheight, hfits, rfl⟩
      exact ⟨⟨format, payload, _, (ProviderReplay.measureBy_eq serializer _ _).symm.trans hmeasure⟩,
        (ProviderReplay.newBy_eq_ok serializer).mpr ⟨hmeasure, rfl, rfl⟩⟩
  · obtain ⟨hmeasure, -, -⟩ := (ProviderReplay.newBy_eq_ok serializer).mp hreplay
    exact ((ProviderReplay.measureBy_eq_ok serializer).mp hmeasure).2.2.2.2

/-- The theorem at a value of three nodes and two levels, with the serialiser that writes piece by
piece, and at replay metadata without a format. -/
theorem json_budgets_sample :
    validateJsonSizeBy .ofWrites (.object [("a".toList, .array [.null])]) 12 = .ok () ∧
      ¬ ∃ replay, ProviderReplay.newBy .ofWrites [] .null = .ok replay := by
  refine ⟨((json_budgets .ofWrites).1 _ 12 (by decide)).mpr (by decide), fun hreplay ↦ ?_⟩
  have hformat := ((json_budgets .ofWrites).2 [] .null).1.mp hreplay
  exact absurd hformat.1.1 (by decide)

end MinicoreRuntime
