import MinicoreRuntime.Value

/-!
# Identifiers

The identifiers of loops, interactions, tool calls, tools and models. Each is checked where it is
built, so a value of the type is well formed.

## Main definitions

* `LoopId`, `InteractionId`: random 16-byte identifiers, never all zero.
* `ToolCallId`, `ToolName`, `ModelRef`: bounded ASCII identifiers.
-/

namespace MinicoreRuntime

/-- The payload of a runtime identifier: 16 bytes, not all zero. -/
structure RuntimeId where
  /-- The payload. -/
  bytes : Vector UInt8 16
  /-- The payload is not all zero. -/
  nonzero : (bytes.toList.any fun b ↦ b != 0) = true
deriving DecidableEq

namespace RuntimeId

/-- The identifier whose last byte is `b`. -/
def ofByte (b : UInt8) (h : (b != 0) = true) : RuntimeId :=
  ⟨⟨#[0, 0, 0, 0, 0, 0, 0, 0, 0, 0, 0, 0, 0, 0, 0, b], rfl⟩, by simpa using h⟩

end RuntimeId

/-- The identifier of a loop. -/
abbrev LoopId := RuntimeId

/-- The identifier of an interaction. -/
abbrev InteractionId := RuntimeId

/-- The ways a tool call identifier is malformed. -/
inductive ToolCallIdError where
  | invalidLength
  | nonPrintable
deriving DecidableEq, Repr

/-- A printable ASCII character other than a double quote and a backslash. -/
def isOpaqueChar (c : Char) : Bool :=
  0x21 ≤ c.toNat && c.toNat ≤ 0x7e && c != '"' && c != '\\'

/-- The identifier of a tool call. -/
structure ToolCallId where
  /-- The identifier. -/
  asStr : Text
  /-- It is neither empty nor too long. -/
  length : asStr ≠ [] ∧ byteLen asStr ≤ 256
  /-- It is printable. -/
  printable : asStr.all isOpaqueChar = true
deriving DecidableEq

/-- Check a tool call identifier. -/
def ToolCallId.new (value : Text) : Except ToolCallIdError ToolCallId :=
  if h : value = [] ∨ byteLen value > 256 then .error .invalidLength
  else if h' : value.all isOpaqueChar = true then
    .ok ⟨value, by rw [not_or] at h; exact ⟨h.1, by omega⟩, h'⟩
  else .error .nonPrintable

/-- An ASCII letter or digit. -/
def isAsciiAlphanumeric (c : Char) : Bool :=
  (0x30 ≤ c.toNat && c.toNat ≤ 0x39) || (0x41 ≤ c.toNat && c.toNat ≤ 0x5a) ||
    (0x61 ≤ c.toNat && c.toNat ≤ 0x7a)

/-- A character of a tool name. -/
def isToolNameChar (c : Char) : Bool :=
  isAsciiAlphanumeric c || c == '_' || c == '-'

/-- A character of a model reference or of a replay format. -/
def isSymbolicChar (c : Char) : Bool :=
  isAsciiAlphanumeric c || c == '_' || c == '-' || c == '.' || c == ':' || c == '/'

/-- The ways a bounded symbolic name is malformed. -/
inductive NameError where
  | invalidLength
  | invalidGrammar
deriving DecidableEq, Repr

/-- The name of a tool. -/
structure ToolName where
  /-- The name. -/
  asStr : Text
  /-- It is neither empty nor too long. -/
  length : asStr ≠ [] ∧ byteLen asStr ≤ 64
  /-- It is symbolic. -/
  grammar : asStr.all isToolNameChar = true
deriving DecidableEq

/-- Check a tool name. -/
def ToolName.fromStr (value : Text) : Except NameError ToolName :=
  if h : value = [] ∨ byteLen value > 64 then .error .invalidLength
  else if h' : value.all isToolNameChar = true then
    .ok ⟨value, by rw [not_or] at h; exact ⟨h.1, by omega⟩, h'⟩
  else .error .invalidGrammar

/-- Tool names are ordered by their bytes, which for ASCII are their characters. -/
def ToolName.lt (a b : ToolName) : Bool :=
  decide (a.asStr < b.asStr)

/-- A reference to a model. -/
structure ModelRef where
  /-- The reference. -/
  asStr : Text
  /-- It is neither empty nor too long. -/
  length : asStr ≠ [] ∧ byteLen asStr ≤ 256
  /-- It is symbolic. -/
  grammar : asStr.all isSymbolicChar = true
deriving DecidableEq

/-- Check a model reference. -/
def ModelRef.fromStr (value : Text) : Except NameError ModelRef :=
  if h : value = [] ∨ byteLen value > 256 then .error .invalidLength
  else if h' : value.all isSymbolicChar = true then
    .ok ⟨value, by rw [not_or] at h; exact ⟨h.1, by omega⟩, h'⟩
  else .error .invalidGrammar

end MinicoreRuntime
