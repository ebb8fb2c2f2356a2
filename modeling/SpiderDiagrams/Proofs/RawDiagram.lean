import SpiderDiagrams.Interchange.Diagram
import SpiderDiagrams.Proofs.Nesting

/-!
# Raw diagrams

A raw diagram describes a diagram by lists alone: names may be repeated, the sides of a zone may overlap,
habitats may be given for undeclared spiders and more than once for one spider, and a compound may have any
number of operands. Building it calls the checked constructors from the bottom up, in the order of its
text. Every diagram has a raw form, from which it is built again.
-/
namespace SpiderDiagrams

structure RawZone where
  inside : List String
  outside : List String
  deriving DecidableEq, Repr

abbrev RawRegion := List RawZone

inductive RawDiagram where
  | null
  | primary (spiders : List String) (habitats : List (String × RawRegion)) (shaded : RawRegion)
  | compound (op : Operator) (operands : List RawDiagram)

/-! ## Their text -/

def namesJson (names : List String) : Json := .array (names.map fun name => .string (some name))

def RawZone.toJson (z : RawZone) : Json :=
  .object [(some "in_contours", namesJson z.inside), (some "out_contours", namesJson z.outside)]

def RawRegion.toJson (r : RawRegion) : Json := .array (r.map RawZone.toJson)

namespace RawDiagram

def habitatsJson (habitats : List (String × RawRegion)) : Json :=
  .object (habitats.map fun h => (some h.1, RawRegion.toJson h.2))

def primaryFields (spiders : List String) (habitats : List (String × RawRegion)) (shaded : RawRegion) :
    List (Option String × Json) :=
  [(some "spiders", namesJson spiders), (some "habitats", habitatsJson habitats),
    (some "shaded_zones", RawRegion.toJson shaded)]

mutual

def toJson : RawDiagram → Json
  | null => .object [(some "kind", .string (some "null"))]
  | primary spiders habitats shaded =>
    .object ((some "kind", .string (some "primary")) :: primaryFields spiders habitats shaded)
  | compound op operands =>
    .object ((some "kind", .string (some "compound")) :: Diagram.compoundFields op (toJsons operands))

def toJsons : List RawDiagram → List Json
  | [] => []
  | x :: xs => x.toJson :: toJsons xs

end

end RawDiagram

/-! ## Building -/

def RawZone.build (z : RawZone) : Except DiagramError Zone := Zone.ofLists z.inside z.outside

def RawRegion.build (r : RawRegion) : Except DiagramError Region := do
  return .ofList (← r.mapM RawZone.build)

namespace RawDiagram

def buildHabitat (h : String × RawRegion) : Except DiagramError (String × Region) := do
  return (h.1, ← RawRegion.build h.2)

/-- Of several habitats of one spider the last counts. -/
def buildPrimary (spiders : List String) (habitats : List (String × RawRegion)) (shaded : RawRegion) :
    Except DiagramError Primary := do
  let habitats ← habitats.mapM buildHabitat
  let shaded ← RawRegion.build shaded
  Primary.ofParts (.ofList spiders) (.ofList habitats) shaded

mutual

def build : RawDiagram → Except DiagramError Diagram
  | null => .ok .null
  | primary spiders habitats shaded => return .primary (← buildPrimary spiders habitats shaded)
  | compound op operands => do Diagram.compound op (← buildAll operands)

def buildAll : List RawDiagram → Except DiagramError (List Diagram)
  | [] => .ok []
  | x :: xs => do
    let d ← x.build
    return d :: (← buildAll xs)

end

/-- Induction over a raw diagram and its operands. -/
@[elab_as_elim]
theorem induct {motive : RawDiagram → Prop} (null : motive null)
    (primary : ∀ spiders habitats shaded, motive (primary spiders habitats shaded))
    (compound : ∀ op operands, (∀ x ∈ operands, motive x) → motive (compound op operands)) :
    ∀ x, motive x
  | .null => null
  | .primary spiders habitats shaded => primary spiders habitats shaded
  | .compound op operands => compound op operands fun x _ => induct null primary compound x

variable {spiders : List String} {habitats : List (String × RawRegion)} {shaded : RawRegion}
  {op : Operator} {operands : List RawDiagram}

theorem toJsons_eq_map (operands : List RawDiagram) : toJsons operands = operands.map toJson := by
  induction operands with
  | nil => rfl
  | cons x xs ih => rw [toJsons, ih, List.map_cons]

theorem buildAll_eq_mapM (operands : List RawDiagram) : buildAll operands = operands.mapM build := by
  induction operands with
  | nil => rfl
  | cons x xs ih => rw [buildAll, ih, List.mapM_cons]

end RawDiagram

/-! ## All texts are plain -/

theorem isPlain_namesJson (names : List String) : (namesJson names).IsPlain := by
  refine .array _ fun v hv => ?_
  obtain ⟨name, -, rfl⟩ := List.mem_map.mp hv
  exact .string name

theorem RawZone.isPlain_toJson (z : RawZone) : z.toJson.IsPlain := by
  refine .object _ (by simp) ?_
  simpa using ⟨isPlain_namesJson z.inside, isPlain_namesJson z.outside⟩

theorem RawRegion.isPlain_toJson (r : RawRegion) : (RawRegion.toJson r).IsPlain := by
  refine .array _ fun v hv => ?_
  obtain ⟨z, -, rfl⟩ := List.mem_map.mp hv
  exact z.isPlain_toJson

namespace RawDiagram

theorem isPlain_habitatsJson (habitats : List (String × RawRegion)) :
    (habitatsJson habitats).IsPlain := by
  refine .object _ (fun f hf => ?_) fun f hf => ?_
  · obtain ⟨h, -, rfl⟩ := List.mem_map.mp hf
    rfl
  · obtain ⟨h, -, rfl⟩ := List.mem_map.mp hf
    exact RawRegion.isPlain_toJson h.2

theorem isPlain_toJson (x : RawDiagram) : x.toJson.IsPlain := by
  induction x using induct with
  | null => exact .object _ (by simp) (by simpa using .string "null")
  | primary spiders habitats shaded =>
    refine .object _ (by simp [primaryFields]) ?_
    simpa [primaryFields] using ⟨.string "primary", isPlain_namesJson spiders,
      isPlain_habitatsJson habitats, RawRegion.isPlain_toJson shaded⟩
  | compound op operands ih =>
    have hoperands : (Json.array (toJsons operands)).IsPlain := by
      rw [toJsons_eq_map]
      refine .array _ fun v hv => ?_
      obtain ⟨x, hx, rfl⟩ := List.mem_map.mp hv
      exact ih x hx
    refine .object _ (by simp [Diagram.compoundFields]) ?_
    simpa [Diagram.compoundFields] using ⟨.string "compound", .string op.key, hoperands⟩

end RawDiagram

/-! ## The raw form of a diagram -/

def Zone.raw (z : Zone) : RawZone := ⟨z.inside.toList, z.outside.toList⟩

def Region.raw (r : Region) : RawRegion := r.toList.map Zone.raw

def Primary.rawHabitats (p : Primary) : List (String × RawRegion) :=
  p.habitats.entries.map fun e => (e.1, Region.raw e.2)

def Diagram.raw : Diagram → RawDiagram
  | null => .null
  | primary p => .primary p.spiders.toList p.rawHabitats (Region.raw p.shaded)
  | negation d => .compound .negation [d.raw]
  | binary c l r => .compound (.binary c) [l.raw, r.raw]

theorem Zone.toJson_raw (z : Zone) : z.raw.toJson = z.toJson := rfl

theorem Region.toJson_raw (r : Region) : RawRegion.toJson (Region.raw r) = Region.toJson r := by
  rw [RawRegion.toJson, Region.raw, List.map_map]
  rfl

theorem Primary.fields_raw (p : Primary) :
    RawDiagram.primaryFields p.spiders.toList p.rawHabitats (Region.raw p.shaded) = p.fields := by
  simp only [RawDiagram.primaryFields, RawDiagram.habitatsJson, Primary.rawHabitats, List.map_map,
    Function.comp_def, Region.toJson_raw]
  rfl

/-- A diagram and its raw form have the same text. -/
theorem Diagram.toJson_raw (d : Diagram) : d.raw.toJson = d.toJson := by
  induction d with
  | null => rfl
  | primary p => rw [raw, RawDiagram.toJson, Primary.fields_raw, toJson]
  | negation d ih => rw [raw, RawDiagram.toJson, RawDiagram.toJsons, RawDiagram.toJsons, ih, toJson]
  | binary c l r ihl ihr =>
    rw [raw, RawDiagram.toJson, RawDiagram.toJsons, RawDiagram.toJsons, RawDiagram.toJsons, ihl, ihr,
      toJson]

end SpiderDiagrams
