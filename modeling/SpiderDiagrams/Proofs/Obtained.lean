import SpiderDiagrams.Proofs.Building
import SpiderDiagrams.Reasoning.Proof

/-!
# What can be obtained

A raw diagram is well-formed if the sides of its zones are disjoint, its habitats belong to declared
spiders and its compounds have as many operands as their operators take. Exactly the well-formed ones can
be built. The types of zones and diagrams demand the same, and every operation meets the demand where it is
defined. So whatever the operations make of each other has a well-formed raw form, and every well-formed raw
diagram describes something that they make.
-/
namespace SpiderDiagrams

/-! ## Well-formed raw diagrams -/

def RawZone.WellFormed (z : RawZone) : Prop := ∀ c ∈ z.inside, c ∉ z.outside

def RawRegion.WellFormed (r : RawRegion) : Prop := ∀ z ∈ r, z.WellFormed

inductive RawDiagram.WellFormed : RawDiagram → Prop
  | null : WellFormed .null
  | primary {spiders : List String} {habitats : List (String × RawRegion)} {shaded : RawRegion}
      (regions : ∀ h ∈ habitats, RawRegion.WellFormed h.2) (shading : RawRegion.WellFormed shaded)
      (declared : ∀ h ∈ habitats, h.1 ∈ spiders) : WellFormed (.primary spiders habitats shaded)
  | compound {op : Operator} {operands : List RawDiagram} (parts : ∀ x ∈ operands, WellFormed x)
      (arity : operands.length = op.arity.operandCount) : WellFormed (.compound op operands)

theorem smallestFault_eq_nil_iff {fault : String → DiagramError} {names : SortedSet String} :
    smallestFault fault names = [] ↔ ∀ c, c ∉ names := by
  rw [smallestFault, List.map_eq_nil_iff, Option.toList_eq_nil_iff, List.head?_eq_none_iff,
    List.eq_nil_iff_forall_not_mem]
  rfl

theorem RawZone.faults_eq_nil_iff {z : RawZone} : z.faults = [] ↔ z.WellFormed := by
  simp [faults, WellFormed, smallestFault_eq_nil_iff]

theorem RawRegion.faults_eq_nil_iff {r : RawRegion} : RawRegion.faults r = [] ↔ RawRegion.WellFormed r := by
  simp [RawRegion.faults, RawRegion.WellFormed, List.flatMap_eq_nil_iff, RawZone.faults_eq_nil_iff]

namespace RawDiagram

theorem wellFormed_primary_iff {spiders : List String} {habitats : List (String × RawRegion)}
    {shaded : RawRegion} :
    WellFormed (.primary spiders habitats shaded) ↔
      (∀ h ∈ habitats, RawRegion.WellFormed h.2) ∧ RawRegion.WellFormed shaded ∧
        ∀ h ∈ habitats, h.1 ∈ spiders := by
  constructor
  · intro h
    cases h with
    | primary regions shading declared => exact ⟨regions, shading, declared⟩
  · intro h
    exact .primary h.1 h.2.1 h.2.2

theorem wellFormed_compound_iff {op : Operator} {operands : List RawDiagram} :
    WellFormed (.compound op operands) ↔
      (∀ x ∈ operands, x.WellFormed) ∧ operands.length = op.arity.operandCount := by
  constructor
  · intro h
    cases h with
    | compound parts arity => exact ⟨parts, arity⟩
  · intro h
    exact .compound h.1 h.2

theorem primaryFaults_eq_nil_iff {spiders : List String} {habitats : List (String × RawRegion)}
    {shaded : RawRegion} :
    primaryFaults spiders habitats shaded = [] ↔ WellFormed (.primary spiders habitats shaded) := by
  have hundeclared : (∀ s, s ∉ (SortedSet.ofList (habitats.map (·.1))).diff (.ofList spiders)) ↔
      ∀ h ∈ habitats, h.1 ∈ spiders := by
    simp only [SortedSet.mem_diff, SortedSet.mem_ofList, not_and, Decidable.not_not]
    exact List.forall_mem_map
  rw [primaryFaults, List.append_eq_nil_iff, List.append_eq_nil_iff, List.flatMap_eq_nil_iff,
    smallestFault_eq_nil_iff, hundeclared, wellFormed_primary_iff]
  simp only [RawRegion.faults_eq_nil_iff]

/-- Just the well-formed raw diagrams have no fault. -/
theorem faults_eq_nil_iff (x : RawDiagram) : x.faults = [] ↔ x.WellFormed := by
  induction x using induct with
  | null => exact iff_of_true rfl .null
  | primary spiders habitats shaded => rw [faults, primaryFaults_eq_nil_iff]
  | compound op operands ih =>
    have harity : compoundFaults op operands.length = [] ↔ operands.length = op.arity.operandCount := by
      simp [compoundFaults]
    rw [faults, List.append_eq_nil_iff, allFaults_eq_flatMap, List.flatMap_eq_nil_iff, harity,
      wellFormed_compound_iff]
    exact and_congr_left' (forall₂_congr ih)

/-- Just the well-formed raw diagrams are built. -/
theorem wellFormed_iff_exists_build (x : RawDiagram) : x.WellFormed ↔ ∃ d, x.build = .ok d :=
  x.faults_eq_nil_iff.symm.trans x.reports_build.exists_ok_iff.symm

end RawDiagram

theorem Zone.wellFormed_raw (z : Zone) : z.raw.WellFormed :=
  RawZone.faults_eq_nil_iff.mp (z.raw.reports_build.exists_ok_iff.mp ⟨z, z.build_raw⟩)

theorem Region.wellFormed_raw (r : Region) : RawRegion.WellFormed (Region.raw r) :=
  RawRegion.faults_eq_nil_iff.mp
    ((RawRegion.reports_build (Region.raw r)).exists_ok_iff.mp ⟨r, Region.build_raw r⟩)

theorem Diagram.wellFormed_raw (d : Diagram) : d.raw.WellFormed :=
  d.raw.wellFormed_iff_exists_build.mpr ⟨d, d.build_raw⟩

/-! ## Values and how they are obtained -/

inductive Value where
  | zone (z : Zone)
  | region (r : Region)
  | primary (p : Primary)
  | diagram (d : Diagram)
  | proof (p : Proof)

def Value.WellFormed : Value → Prop
  | zone z => z.raw.WellFormed
  | region r => RawRegion.WellFormed (Region.raw r)
  | primary p => (Diagram.primary p).raw.WellFormed
  | diagram d => d.raw.WellFormed
  | proof p => ∀ goal ∈ p.goals, goal.raw.WellFormed

theorem Value.wellFormed (v : Value) : v.WellFormed := by
  cases v with
  | zone z => exact z.wellFormed_raw
  | region r => exact Region.wellFormed_raw r
  | primary p => exact (Diagram.primary p).wellFormed_raw
  | diagram d => exact d.wellFormed_raw
  | proof p => exact fun goal _ => goal.wellFormed_raw

open Interchange Value

/-- The values that finitely many operations make. -/
inductive Obtained : Value → Prop
  -- Zones are given by names, extended by a contour, read, and taken out of regions.
  | zoneOfLists {z : Zone} {inside outside : List String} (h : Zone.ofLists inside outside = .ok z) :
      Obtained (zone z)
  | insideOf (contours : List String) : Obtained (zone (.insideOf contours))
  | outsideOf (contours : List String) : Obtained (zone (.outsideOf contours))
  | withInside {z : Zone} (c : String) (hz : Obtained (zone z)) : Obtained (zone (z.withInside c))
  | withOutside {z : Zone} (c : String) (hz : Obtained (zone z)) : Obtained (zone (z.withOutside c))
  | readZone {z : Zone} {text : String} (h : readText (readZone nestingLimit) text = .ok z) :
      Obtained (zone z)
  | zoneOfRegion {z : Zone} {r : Region} (hr : Obtained (region r)) (hz : z ∈ r) : Obtained (zone z)
  -- Regions are sets of zones.
  | regionOfList (zones : List Zone) (hzones : ∀ z ∈ zones, Obtained (zone z)) :
      Obtained (region (.ofList zones))
  | emptyRegion : Obtained (region ∅)
  | union {r s : Region} (hr : Obtained (region r)) (hs : Obtained (region s)) :
      Obtained (region (r.union s))
  | inter {r s : Region} (hr : Obtained (region r)) (hs : Obtained (region s)) :
      Obtained (region (r.inter s))
  | diff {r s : Region} (hr : Obtained (region r)) (hs : Obtained (region s)) :
      Obtained (region (r.diff s))
  | allZones (contours : List String) : Obtained (region (Region.allZones contours))
  | insideAny {r : Region} (contours : List String) (hr : Obtained (region r)) :
      Obtained (region (Region.insideAny r contours))
  | insideNone {r : Region} (contours : List String) (hr : Obtained (region r)) :
      Obtained (region (Region.insideNone r contours))
  | expressedOver {r : Region} (contours : List String) (hr : Obtained (region r)) :
      Obtained (region (Region.expressedOver r contours))
  | extendedBy {r : Region} (c : String) (hr : Obtained (region r)) :
      Obtained (region (Region.extendedBy r c))
  | readRegion {r : Region} {text : String} (h : readText (readRegion nestingLimit) text = .ok r) :
      Obtained (region r)
  | habitat {p : Primary} {s : String} {r : Region} (hp : Obtained (primary p))
      (hr : p.habitat? s = some r) : Obtained (region r)
  | shading {p : Primary} (hp : Obtained (primary p)) : Obtained (region p.shaded)
  -- Primary diagrams are made of regions.
  | primaryOfParts {p : Primary} (spiders : List String) (habitats : List (String × Region))
      (shaded : List Zone) (hhabitats : ∀ h ∈ habitats, Obtained (region h.2))
      (hshaded : ∀ z ∈ shaded, Obtained (zone z))
      (h : Primary.ofParts (.ofList spiders) (.ofList habitats) (.ofList shaded) = .ok p) :
      Obtained (primary p)
  | blank : Obtained (primary .blank)
  | readPrimary {p : Primary} {text : String} (h : readText (readPrimary nestingLimit) text = .ok p) :
      Obtained (primary p)
  | contentOf {p : Primary} (hp : Obtained (diagram (.primary p))) : Obtained (primary p)
  -- Diagrams are built from each other, taken apart, read, rewritten, and reasoned about.
  | null : Obtained (diagram .null)
  | ofPrimary {p : Primary} (hp : Obtained (primary p)) : Obtained (diagram (.primary p))
  | compound {d : Diagram} {op : Operator} {operands : List Diagram}
      (hoperands : ∀ e ∈ operands, Obtained (diagram e)) (h : Diagram.compound op operands = .ok d) :
      Obtained (diagram d)
  | negation {d : Diagram} (hd : Obtained (diagram d)) : Obtained (diagram (.negation d))
  | binary {l r : Diagram} (c : Connective) (hl : Obtained (diagram l)) (hr : Obtained (diagram r)) :
      Obtained (diagram (.binary c l r))
  | operand {d e : Diagram} (hd : Obtained (diagram d)) (he : e ∈ d.operands) : Obtained (diagram e)
  | subdiagram {d e : Diagram} {i : Nat} (hd : Obtained (diagram d)) (he : d.subdiagram? i = some e) :
      Obtained (diagram e)
  | readDiagram {d : Diagram} {text : String} (h : Diagram.ofJsonText text = .ok d) :
      Obtained (diagram d)
  | readCompound {d : Diagram} {text : String} (h : readText (readCompound nestingLimit) text = .ok d) :
      Obtained (diagram d)
  | rewrite {σ : Type} {rewriter : Rewriter σ} {s : σ} {d e : Diagram} (hd : Obtained (diagram d))
      (h : (d.rewrite rewriter s).1 = .ok e) : Obtained (diagram e)
  | applyRule {registry : Registry} {name : String} {argument : Argument} {style : Style}
      {d e : Diagram} (hd : Obtained (diagram d))
      (h : registry.apply d name argument style = .ok e) : Obtained (diagram e)
  | goal {p : Proof} {d : Diagram} (hp : Obtained (proof p)) (hd : d ∈ p.goals) : Obtained (diagram d)
  -- Proofs go on from a goal by steps, which may be undone.
  | ofGoal {d : Diagram} (hd : Obtained (diagram d)) : Obtained (proof (.ofGoal d))
  | step {p q : Proof} {registry : Registry} {application : Application} (hp : Obtained (proof p))
      (h : p.applyRule registry application = .ok q) : Obtained (proof q)
  | undo {p q : Proof} {undone : Step} (hp : Obtained (proof p)) (h : p.undo = .ok (undone, q)) :
      Obtained (proof q)

namespace Obtained

theorem any_zone (z : Zone) : Obtained (zone z) := zoneOfLists z.build_raw

theorem any_region (r : Region) : Obtained (region r) := by
  have h := regionOfList r.toList fun z _ => any_zone z
  rwa [SortedSet.ofList_toList] at h

theorem any_primary (p : Primary) : Obtained (primary p) := by
  refine primaryOfParts p.spiders.toList p.habitats.entries p.shaded.toList
    (fun h _ => any_region h.2) (fun z _ => any_zone z) ?_
  rw [SortedSet.ofList_toList, SortedMap.ofList_entries, SortedSet.ofList_toList]
  exact p.ofParts_self

theorem any_diagram (d : Diagram) : Obtained (diagram d) := by
  induction d with
  | null => exact null
  | primary p => exact ofPrimary (any_primary p)
  | negation d ih => exact negation ih
  | binary c l r ihl ihr => exact binary c ihl ihr

end Obtained

/-- Whatever is obtained is well-formed, and just the well-formed raw diagrams describe something that is
obtained. -/
theorem obtained_wellFormed :
    (∀ v, Obtained v → v.WellFormed) ∧
      ∀ x : RawDiagram, x.WellFormed ↔ ∃ d, x.build = .ok d ∧ Obtained (diagram d) := by
  refine ⟨fun v _ => v.wellFormed, fun x => ?_⟩
  rw [x.wellFormed_iff_exists_build]
  exact exists_congr fun d => ⟨fun h => ⟨h, .any_diagram d⟩, And.left⟩

/-- The habitat in a doubly negated diagram that is written in arrays, with a contour added to it. -/
theorem obtained_wellFormed_extended :
    let v := region (Region.extendedBy (.ofList [.insideOf ["a"]]) "b")
    Obtained v ∧ v.WellFormed := by
  intro v
  let p : Primary := ⟨.ofList ["s"], .ofList [("s", .ofList [.insideOf ["a"]])], ∅, by decide⟩
  let text := "[\"compound\",\"negation\",[[\"compound\",\"negation\"," ++
    "[[\"primary\",[\"s\"],\x7b\"s\":[[[\"a\"]]]\x7d]]]]]"
  have hread : Diagram.ofJsonText text = .ok (.negation (.negation (.primary p))) :=
    toOption_eq_some_iff.mp (by decide +kernel)
  have happly : Registry.builtin.apply (.negation (.negation (.primary p)))
      "double_negation_elimination" (.subDiagram 0) .forward = .ok (.primary p) :=
    toOption_eq_some_iff.mp (by decide +kernel)
  have hprimary : Obtained (primary p) := .contentOf (.applyRule (.readDiagram hread) happly)
  have hv : Obtained v := .extendedBy "b" (.habitat (s := "s") hprimary (by decide +kernel))
  exact ⟨hv, obtained_wellFormed.1 v hv⟩

end SpiderDiagrams
