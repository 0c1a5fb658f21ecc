import MinicoreRuntime.Tools
import MinicoreRuntime.Containers.OrderedMap
import Mathlib.Data.Char
import Mathlib.Data.List.Lex
import Mathlib.Data.List.Induction

/-!
# Tool sets

The builder of tool sets. Registered tools are kept by name; the first registration that fails is
remembered, and later ones do nothing.

## Main definitions

* `ToolSetBuilder`, `ToolSetBuilder.registerArc`, `ToolSetBuilder.build`.
* `ToolSet.Coherent`: the catalogue and the tools by name agree.

## Main results

* `ToolSetBuilder.build_coherent`: what is built is coherent, after any registrations.
-/

namespace MinicoreRuntime

theorem ToolName.asStr_injective : Function.Injective ToolName.asStr := by
  rintro ⟨_, _, _⟩ ⟨_, _, _⟩ h
  cases h
  rfl

instance : LinearOrder ToolName :=
  LinearOrder.lift' ToolName.asStr ToolName.asStr_injective

theorem ToolName.lt_iff {a b : ToolName} : ToolName.lt a b = true ↔ a < b := decide_eq_true_iff

/-- The ways a set of tools cannot be built. -/
inductive ToolSetError where
  | duplicateTool
  | panicked
deriving DecidableEq, Repr

/-- A tool with the specification it gave when it was registered. -/
structure RegisteredTool where
  tool : ToolHandle
  spec : ToolSpec

/-- Tools registered so far, and the first error. -/
structure ToolSetBuilder where
  tools : OrderedMap ToolName RegisteredTool
  error : Option ToolSetError

/-- A builder without tools. -/
def ToolSet.builder : ToolSetBuilder := ⟨.empty, none⟩

namespace ToolSetBuilder

/-- Register a tool. The specification is `none` where the tool panics when asked for it. -/
def registerArc (builder : ToolSetBuilder) (tool : ToolHandle) (spec : Option ToolSpec) :
    ToolSetBuilder :=
  if builder.error.isSome then builder
  else match spec with
    | none => { builder with error := some .panicked }
    | some spec =>
      if builder.tools.contains spec.name then { builder with error := some .duplicateTool }
      else { builder with tools := builder.tools.insert spec.name ⟨tool, spec⟩ }

/-- Register a tool that is not shared yet. -/
def register (builder : ToolSetBuilder) (tool : ToolHandle) (spec : Option ToolSpec) :
    ToolSetBuilder :=
  builder.registerArc tool spec

/-- Add a registered tool to a catalogue and to tools by name. -/
def buildStep (acc : List ToolSpec × OrderedMap ToolName EnabledTool)
    (entry : ToolName × RegisteredTool) : List ToolSpec × OrderedMap ToolName EnabledTool :=
  (acc.1 ++ [entry.2.spec], acc.2.insert entry.1 ⟨entry.2.tool, entry.2.spec⟩)

/-- Freeze the registered tools. -/
def build (builder : ToolSetBuilder) : Except ToolSetError ToolSet :=
  match builder.error with
  | some error => .error error
  | none =>
    let (specs, entries) := builder.tools.toList.foldl buildStep ([], .empty)
    .ok ⟨specs, entries.toList⟩

end ToolSetBuilder

/-- The catalogue increases strictly by name, and the tools by name are its specifications. -/
structure ToolSet.Coherent (tools : ToolSet) : Prop where
  increasing : tools.specs.Pairwise fun a b ↦ a.name < b.name
  entries : tools.entries.map (fun entry ↦ (entry.1, entry.2.spec)) =
    tools.specs.map fun spec ↦ (spec.name, spec)

namespace ToolSet.Coherent

variable {tools : ToolSet}

/-- The catalogue increases in the order that requests are checked with. -/
theorem ordered (h : tools.Coherent) :
    tools.specs.Pairwise fun a b ↦ ToolName.lt a.name b.name = true :=
  h.increasing.imp ToolName.lt_iff.mpr

/-- Lookups find exactly the names of the catalogue, with their specifications. -/
theorem find_iff (h : tools.Coherent) {name : ToolName} {spec : ToolSpec} :
    (∃ enabled, tools.find name = some enabled ∧ enabled.spec = spec) ↔
      spec ∈ tools.specs ∧ spec.name = name := by
  -- The entries are in the order of the specifications, so that the lookup finds each of them.
  have hordered : tools.entries.Pairwise fun a b ↦ a.1 < b.1 := by
    have hkeys : (tools.entries.map fun entry ↦ (entry.1, entry.2.spec)).Pairwise
        fun a b ↦ a.1 < b.1 := by
      rw [h.entries, List.pairwise_map]
      exact h.increasing
    rwa [List.pairwise_map] at hkeys
  have hmem : (∃ enabled, (name, enabled) ∈ tools.entries ∧ enabled.spec = spec) ↔
      (name, spec) ∈ tools.entries.map fun entry ↦ (entry.1, entry.2.spec) := by
    simp only [List.mem_map, Prod.mk.injEq, Prod.exists]
    constructor
    · rintro ⟨enabled, hmem, rfl⟩
      exact ⟨name, enabled, hmem, rfl, rfl⟩
    · rintro ⟨_, enabled, hmem, rfl, rfl⟩
      exact ⟨enabled, hmem, rfl⟩
  have hfind (enabled : EnabledTool) :
      tools.find name = some enabled ↔ (name, enabled) ∈ tools.entries :=
    OrderedMap.lookup_eq_some hordered
  simp only [hfind]
  rw [hmem, h.entries, List.mem_map]
  constructor
  · rintro ⟨spec', hspec, heq⟩
    obtain ⟨rfl, rfl⟩ := Prod.mk.inj heq
    exact ⟨hspec, rfl⟩
  · rintro ⟨hspec, rfl⟩
    exact ⟨spec, hspec, rfl⟩

/-- A name the catalogue offers is found. -/
theorem find_of_offers (h : tools.Coherent) {name : ToolName}
    (hoffers : ToolSet.offers tools.specs name = true) :
    ∃ enabled, tools.find name = some enabled ∧ enabled.spec ∈ tools.specs := by
  obtain ⟨spec, hspec, hname⟩ := List.any_eq_true.mp hoffers
  obtain ⟨enabled, hfind, rfl⟩ := h.find_iff.mpr ⟨hspec, by simpa using hname⟩
  exact ⟨enabled, hfind, hspec⟩

end ToolSet.Coherent

namespace ToolSetBuilder

/-- Every tool is registered under the name of its specification. -/
def Named (builder : ToolSetBuilder) : Prop :=
  ∀ entry ∈ builder.tools.toList, entry.2.spec.name = entry.1

theorem named_builder : ToolSet.builder.Named := by
  intro entry hentry
  exact absurd hentry (by simp [ToolSet.builder])

theorem Named.registerArc {builder : ToolSetBuilder} (h : builder.Named) (tool : ToolHandle)
    (spec : Option ToolSpec) : (builder.registerArc tool spec).Named := by
  unfold ToolSetBuilder.registerArc
  split
  · exact h
  · split
    · exact h
    · split
      · exact h
      · rintro entry hentry
        rcases OrderedMap.mem_insertEntry hentry with rfl | hentry
        · rfl
        · exact h entry hentry

/-- Freezing goes through the registered tools in order and keeps their order. -/
theorem foldl_buildStep (tools : List (ToolName × RegisteredTool))
    (acc : List ToolSpec × OrderedMap ToolName EnabledTool)
    (hordered : tools.Pairwise fun a b ↦ a.1 < b.1)
    (habove : ∀ entry ∈ tools, ∀ earlier ∈ acc.2.toList, earlier.1 < entry.1) :
    (tools.foldl buildStep acc).1 = acc.1 ++ tools.map (fun entry ↦ entry.2.spec) ∧
      (tools.foldl buildStep acc).2.toList = acc.2.toList ++
        tools.map fun entry ↦ (entry.1, ⟨entry.2.tool, entry.2.spec⟩) := by
  induction tools generalizing acc with
  | nil => simp
  | cons first rest ih =>
    obtain ⟨hfirst, hrest⟩ := List.pairwise_cons.mp hordered
    have hinsert : (acc.2.insert first.1 ⟨first.2.tool, first.2.spec⟩).toList =
        acc.2.toList ++ [(first.1, ⟨first.2.tool, first.2.spec⟩)] :=
      OrderedMap.toList_insert_of_lt (habove first List.mem_cons_self)
    have hnext := ih (buildStep acc first) hrest ?_
    · rw [List.foldl_cons, hnext.1, hnext.2, buildStep]
      simp only [hinsert]
      simp
    · -- The keys of the rest are above those inserted so far.
      intro entry hentry earlier hearlier
      rw [buildStep] at hearlier
      simp only [hinsert] at hearlier
      rcases List.mem_append.mp hearlier with hearlier | hearlier
      · exact habove entry (List.mem_cons_of_mem _ hentry) earlier hearlier
      · rw [List.mem_singleton.mp hearlier]
        exact hfirst entry hentry

/-- What is built from named tools is coherent. -/
theorem Named.build {builder : ToolSetBuilder} (h : builder.Named) {tools : ToolSet}
    (hbuild : builder.build = .ok tools) : tools.Coherent := by
  obtain ⟨hspecs, hentries⟩ := foldl_buildStep builder.tools.toList ([], .empty)
    builder.tools.ordered (by simp)
  unfold ToolSetBuilder.build at hbuild
  split at hbuild
  · exact absurd hbuild (by simp)
  · obtain rfl := Except.ok.inj hbuild
    rw [List.nil_append] at hspecs
    rw [OrderedMap.toList_empty, List.nil_append] at hentries
    refine ⟨?_, ?_⟩
    · show List.Pairwise _ (builder.tools.toList.foldl buildStep ([], .empty)).1
      rw [hspecs, List.pairwise_map]
      refine builder.tools.ordered.imp_of_mem fun ha hb hlt ↦ ?_
      rw [h _ ha, h _ hb]
      exact hlt
    · show List.map _ (builder.tools.toList.foldl buildStep ([], .empty)).2.toList = _
      rw [hentries, hspecs, List.map_map, List.map_map]
      refine List.map_congr_left fun entry hentry ↦ ?_
      show (entry.1, entry.2.spec) = (entry.2.spec.name, entry.2.spec)
      rw [h entry hentry]

/-- The builder after a sequence of registrations. -/
def registerAll (registrations : List (ToolHandle × Option ToolSpec)) : ToolSetBuilder :=
  registrations.foldl (fun builder registration ↦ builder.registerArc registration.1 registration.2)
    ToolSet.builder

theorem named_registerAll (registrations : List (ToolHandle × Option ToolSpec)) :
    (registerAll registrations).Named := by
  unfold registerAll
  induction registrations using List.reverseRecOn with
  | nil => exact named_builder
  | append_singleton registrations registration ih =>
    rw [List.foldl_append, List.foldl_cons, List.foldl_nil]
    exact ih.registerArc registration.1 registration.2

/-- Whatever was registered, a set that is built is coherent. -/
theorem build_coherent {registrations : List (ToolHandle × Option ToolSpec)} {tools : ToolSet}
    (h : (registerAll registrations).build = .ok tools) : tools.Coherent :=
  (named_registerAll registrations).build h

end ToolSetBuilder

end MinicoreRuntime
