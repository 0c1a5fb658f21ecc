import MinicoreRuntime.AgentLoop.Transcript
import MinicoreRuntime.Wire.History

/-!
# Persistence

Whatever is made or appended can be persisted: messages, requests and responses that the
constructors return, and the items that a run appends, are read back as they were written.

## Main results

* `sound_of_permits`: the rules of sessions permit only sound items.
* `wire_round_trip`: what is written is read back.
-/

namespace MinicoreRuntime

open Interactive

/-- Items that the rules permit are sound: the index of a request is within 32 bits, and a response
is appended as its constructor returned it. -/
theorem sound_of_permits {setup : Setup} {s : Session} (hs : s.Shaped setup) {item : HistoryItem}
    (hitem : s.PermitsItem setup item) : item.Sound := by
  -- Only the items with a request index have something to bound.
  cases item with
  | user item | summary item => trivial
  | assistant item =>
    obtain ⟨-, issue, response, hphase, rfl, hresponse⟩ := hitem
    unfold Session.Shaped at hs
    rw [hphase] at hs
    refine ⟨?_, hresponse.accepted.ordered⟩
    change issue.index < 2 ^ 32
    have hindex := hs.1
    omega
  | toolResult item =>
    obtain ⟨-, c, hphase, -, hindex, -⟩ := hitem
    unfold Session.Shaped at hs
    rw [hphase] at hs
    obtain ⟨rounds, -, response, -, -, -, -, hnumber, hissue, -⟩ := hs
    change item.requestIndex < 2 ^ 32
    omega

/-- Every item of an accepted trace is sound. -/
theorem sound_of_accepts {setup : Setup} {trace : List (Entry interface Nat)}
    (h : (sessionMonitor setup).Accepts trace) : ∀ item ∈ appendedItems trace, item.Sound := by
  induction trace with
  | nil => simp [appendedItems]
  | cons e past ih =>
    obtain ⟨o, n, r⟩ := e
    obtain ⟨hpast, hallowed, -⟩ := h
    cases o with
    | append item =>
      intro item' hitem'
      rcases List.mem_append.mp hitem' with hitem' | hitem'
      · exact ih hpast item' hitem'
      · obtain rfl := List.mem_singleton.mp hitem'
        exact sound_of_permits (reported_of_accepts hpast).shaped hallowed
    | _ => exact ih hpast

/-- Every item a run has appended is sound, at any point of the run. -/
theorem sound_of_run [SerdeJson] (setup : Setup) (clock : Nat) (schedule : List Turn) :
    ∀ item ∈ (setup.run clock schedule).2.working.appended, item.Sound := by
  obtain ⟨htracks, haccepts, -⟩ := conforms setup clock schedule
  intro item hitem
  apply sound_of_accepts haccepts item
  rwa [htracks.working, World.session, (session_run setup _).2.2.1] at hitem

/-- What is written is read back: every message that a constructor or the check accepts, every
request and every response that was made, and every item that a run has appended, at any point of
the run. -/
theorem wire_round_trip [SerdeJson] :
    (∀ message : ModelMessage, message.Accepted →
      ModelMessage.deserialize message.serialize = some message) ∧
    (∀ request : ModelRequest, request.Built →
      ModelRequest.deserialize request.serialize = some request) ∧
    (∀ response : ModelResponse, response.Built →
      ModelResponse.deserialize response.serialize = some response) ∧
    ∀ (setup : Setup) (clock : Nat) (schedule : List Turn),
      ∀ item ∈ (setup.run clock schedule).2.working.appended,
        HistoryItem.deserialize item.serialize = some item := by
  refine ⟨fun message h ↦ ?_, fun request h ↦ ?_, fun response h ↦ ?_, ?_⟩
  · exact ModelMessage.deserialize_serialize h.validate
  · exact ModelRequest.deserialize_serialize h
  · exact ModelResponse.deserialize_serialize h
  · intro setup clock schedule item hitem
    exact HistoryItem.deserialize_serialize (sound_of_run setup clock schedule item hitem)

namespace Sample

/-- Replay metadata without parts. -/
def replay : ProviderReplay := ⟨"f".toList, .null, 29, rfl⟩

/-- A message that consists of replay metadata. -/
def opaqueMessage : ModelMessage := .assistantWithReplay [] replay

/-- A request made of it. -/
def opaqueRequest : ModelRequest := ⟨[opaqueMessage], [tool], .default, .xHigh⟩

/-- A response with one reported count. -/
def counted : ModelResponse :=
  ⟨[.text "ok".toList], .stop, some { Usage.default with inputTokens := some 3 }, some replay⟩

end Sample

/-- The theorem at a message without parts, a request made of it, a response, and the run with a
tool call, which appended four items. -/
theorem wire_round_trip_sample :
    ModelMessage.deserialize Sample.opaqueMessage.serialize = some Sample.opaqueMessage ∧
    ModelRequest.deserialize Sample.opaqueRequest.serialize = some Sample.opaqueRequest ∧
    ModelResponse.deserialize Sample.counted.serialize = some Sample.counted ∧
    (Sample.setup.run 0 Sample.schedule).2.working.appended.length = 4 ∧
    ∀ item ∈ (Sample.setup.run 0 Sample.schedule).2.working.appended,
      HistoryItem.deserialize item.serialize = some item := by
  have hrequest : ModelRequest.new [Sample.opaqueMessage] [Sample.tool] .default .xHigh =
      .ok Sample.opaqueRequest := rfl
  have hcounted : ModelResponse.newWithProviderReplay Sample.counted.parts .stop
      Sample.counted.usage Sample.counted.providerReplay = .ok Sample.counted := rfl
  refine ⟨wire_round_trip.1 _ (.validated rfl), wire_round_trip.2.1 _ (.new hrequest),
    wire_round_trip.2.2.1 _ (.new hcounted), by decide +kernel, ?_⟩
  exact wire_round_trip.2.2.2 Sample.setup 0 Sample.schedule

end MinicoreRuntime
