import SpiderDiagrams.Proofs.Failing
import SpiderDiagrams.Proofs.RawDiagram

/-!
# What building reports

The faults of a raw diagram are listed in the order of its text, inner ones first. Building succeeds
where there is none and otherwise reports the first one.
-/
namespace SpiderDiagrams

variable {α β : Type}

/-! ## The first of several faults -/

/-- The computation succeeds if there are no faults, and otherwise fails with the first one. -/
def Reports (x : Except DiagramError α) : List DiagramError → Prop
  | [] => ∃ a, x = .ok a
  | e :: _ => x = .error e

namespace Reports

variable {x : Except DiagramError α} {f : α → Except DiagramError β} {e : DiagramError}
  {faults later : List DiagramError}

theorem eq_error_iff (h : Reports x faults) : x = .error e ↔ faults.head? = some e := by
  cases faults with
  | nil =>
    obtain ⟨a, rfl⟩ := h
    simp
  | cons e' faults =>
    rw [Reports] at h
    simp [h]

theorem exists_ok_iff (h : Reports x faults) : (∃ a, x = .ok a) ↔ faults = [] := by
  cases faults with
  | nil => exact iff_of_true h rfl
  | cons e faults =>
    rw [Reports] at h
    simp [h]

theorem bind (h : Reports x faults) (hf : ∀ a, x = .ok a → Reports (f a) later) :
    Reports (x >>= f) (faults ++ later) := by
  cases faults with
  | nil =>
    obtain ⟨a, rfl⟩ := h
    exact hf a rfl
  | cons e faults =>
    rw [Reports] at h
    subst h
    rfl

theorem bind_ok {f : α → β} (h : Reports x faults) :
    Reports (x >>= fun a => .ok (f a)) faults := by
  have hok : ∀ a, x = .ok a → Reports (.ok (f a)) [] := fun a _ => ⟨f a, rfl⟩
  have hreports := h.bind (f := fun a => .ok (f a)) hok
  rwa [List.append_nil] at hreports

theorem mapM {γ : Type} {xs : List γ} {g : γ → Except DiagramError α} {fault : γ → List DiagramError}
    (h : ∀ c ∈ xs, Reports (g c) (fault c)) : Reports (xs.mapM g) (xs.flatMap fault) := by
  induction xs with
  | nil => exact ⟨[], rfl⟩
  | cons c cs ih =>
    rw [List.mapM_cons, List.flatMap_cons]
    refine (h c List.mem_cons_self).bind fun a _ => ?_
    exact (ih fun c hc => h c (List.mem_cons_of_mem _ hc)).bind_ok

end Reports

/-! ## Faults -/

/-- The smallest of the names makes the fault, if there are any. -/
def smallestFault (fault : String → DiagramError) (names : SortedSet String) : List DiagramError :=
  names.toList.head?.toList.map fault

def RawZone.faults (z : RawZone) : List DiagramError :=
  smallestFault .overlappingContours ((SortedSet.ofList z.inside).inter (.ofList z.outside))

def RawRegion.faults (r : RawRegion) : List DiagramError := r.flatMap RawZone.faults

namespace RawDiagram

def primaryFaults (spiders : List String) (habitats : List (String × RawRegion)) (shaded : RawRegion) :
    List DiagramError :=
  habitats.flatMap (fun h => RawRegion.faults h.2) ++ (RawRegion.faults shaded ++
    smallestFault .unknownHabitatSpider
      ((SortedSet.ofList (habitats.map (·.1))).diff (.ofList spiders)))

def compoundFaults (op : Operator) (operands : Nat) : List DiagramError :=
  if operands = op.arity.operandCount then [] else [.arityMismatch op op.arity.operandCount operands]

mutual

def faults : RawDiagram → List DiagramError
  | null => []
  | primary spiders habitats shaded => primaryFaults spiders habitats shaded
  | compound op operands => allFaults operands ++ compoundFaults op operands.length

def allFaults : List RawDiagram → List DiagramError
  | [] => []
  | x :: xs => x.faults ++ allFaults xs

end

theorem allFaults_eq_flatMap (operands : List RawDiagram) : allFaults operands = operands.flatMap faults := by
  induction operands with
  | nil => rfl
  | cons x xs ih => rw [allFaults, ih, List.flatMap_cons]

end RawDiagram

/-! ## Each constructor reports its fault -/

theorem Zone.reports_ofSides (inside outside : SortedSet String) :
    Reports (Zone.ofSides inside outside) (smallestFault .overlappingContours (inside.inter outside)) := by
  have hhead : (inside.inter outside).toList.head? = inside.toList.find? (· ∈ outside) :=
    List.head?_filter
  unfold Zone.ofSides
  split
  · rename_i c h
    rw [smallestFault, hhead, h]
    rfl
  · rename_i h
    have hnone : smallestFault .overlappingContours (inside.inter outside) = [] := by
      rw [smallestFault, hhead, h]
      rfl
    rw [hnone]
    exact ⟨_, rfl⟩

theorem Primary.reports_ofParts (spiders : SortedSet String) (habitats : SortedMap String Region)
    (shaded : Region) :
    Reports (Primary.ofParts spiders habitats shaded)
      (smallestFault .unknownHabitatSpider (habitats.keys.diff spiders)) := by
  have hhead : (habitats.keys.diff spiders).toList.head? = habitats.keys.toList.find? (· ∉ spiders) :=
    List.head?_filter
  unfold Primary.ofParts
  split
  · rename_i s h
    rw [smallestFault, hhead, h]
    rfl
  · rename_i h
    have hnone : smallestFault .unknownHabitatSpider (habitats.keys.diff spiders) = [] := by
      rw [smallestFault, hhead, h]
      rfl
    rw [hnone]
    exact ⟨_, rfl⟩

theorem Primary.parts_of_ofParts {spiders : SortedSet String} {habitats : SortedMap String Region}
    {shaded : Region} {p : Primary} (h : Primary.ofParts spiders habitats shaded = .ok p) :
    p.spiders = spiders ∧ p.habitats = habitats ∧ p.shaded = shaded := by
  unfold Primary.ofParts at h
  split at h
  · cases h
  · cases h
    exact ⟨rfl, rfl, rfl⟩

theorem Diagram.reports_compound (op : Operator) (operands : List Diagram) :
    Reports (Diagram.compound op operands) (RawDiagram.compoundFaults op operands.length) := by
  cases op with
  | negation =>
    match operands with
    | [] => rfl
    | [d] => exact ⟨_, rfl⟩
    | _ :: _ :: operands => rfl
  | binary c =>
    match operands with
    | [] => rfl
    | [d] => rfl
    | [l, r] => exact ⟨_, rfl⟩
    | _ :: _ :: _ :: operands => rfl

theorem RawZone.reports_build (z : RawZone) : Reports z.build z.faults :=
  Zone.reports_ofSides _ _

theorem RawRegion.reports_build (r : RawRegion) : Reports (RawRegion.build r) (RawRegion.faults r) :=
  (Reports.mapM fun z _ => z.reports_build).bind_ok

namespace RawDiagram

theorem reports_buildHabitat (h : String × RawRegion) :
    Reports (buildHabitat h) (RawRegion.faults h.2) :=
  (RawRegion.reports_build h.2).bind_ok

theorem eq_of_buildHabitat {h : String × RawRegion} {a : String × Region}
    (hb : buildHabitat h = .ok a) : a.1 = h.1 ∧ RawRegion.build h.2 = .ok a.2 := by
  obtain ⟨r, hr, hb⟩ := bind_eq_ok_iff.mp hb
  cases hb
  exact ⟨rfl, hr⟩

theorem reports_buildPrimary (spiders : List String) (habitats : List (String × RawRegion))
    (shaded : RawRegion) :
    Reports (buildPrimary spiders habitats shaded) (primaryFaults spiders habitats shaded) := by
  refine (Reports.mapM fun h _ => reports_buildHabitat h).bind fun built hbuilt => ?_
  refine (RawRegion.reports_build shaded).bind fun region _ => ?_
  have hspiders : built.map (·.1) = habitats.map (·.1) :=
    map_eq_of_mapM (fun h a hb => (eq_of_buildHabitat hb).1) hbuilt
  have hreports := Primary.reports_ofParts (.ofList spiders) (.ofList built) region
  rwa [SortedMap.keys_ofList, hspiders] at hreports

/-- Building a raw diagram reports the first of its faults. -/
theorem reports_build (x : RawDiagram) : Reports x.build x.faults := by
  induction x using induct with
  | null => exact ⟨_, rfl⟩
  | primary spiders habitats shaded => exact (reports_buildPrimary spiders habitats shaded).bind_ok
  | compound op operands ih =>
    rw [build, faults, buildAll_eq_mapM, allFaults_eq_flatMap]
    refine (Reports.mapM ih).bind fun built hbuilt => ?_
    have hreports := Diagram.reports_compound op built
    rwa [length_eq_of_mapM hbuilt] at hreports

/-- The habitat of a spider is what is built from the last habitat given for it. -/
theorem habitat?_of_buildPrimary {spiders : List String} {habitats : List (String × RawRegion)}
    {shaded : RawRegion} {p : Primary} (h : buildPrimary spiders habitats shaded = .ok p) (s : String) :
    (p.habitat? s).map .ok =
      (habitats.reverse.find? fun h => h.1 = s).map fun h => RawRegion.build h.2 := by
  obtain ⟨built, hbuilt, h⟩ := bind_eq_ok_iff.mp h
  obtain ⟨region, hregion, h⟩ := bind_eq_ok_iff.mp h
  have hmap : built.map (fun a => (a.1, Except.ok a.2)) =
      habitats.map fun h => (h.1, RawRegion.build h.2) := by
    refine map_eq_of_mapM (fun h a hb => ?_) hbuilt
    obtain ⟨hs, hr⟩ := eq_of_buildHabitat hb
    rw [hs, hr]
  have hlast := congrArg (fun l => (l.reverse.find? fun a => a.1 = s).map (·.2)) hmap
  simp only [← List.map_reverse, List.find?_map, Function.comp_def, Option.map_map] at hlast
  rw [Primary.habitat?, (Primary.parts_of_ofParts h).2.1, SortedMap.find?_ofList, Option.map_map]
  exact hlast

end RawDiagram

/-! ## Building from the raw form -/

theorem Zone.build_raw (z : Zone) : z.raw.build = .ok z := by
  rw [RawZone.build, Zone.ofLists, Zone.raw, SortedSet.ofList_toList, SortedSet.ofList_toList, ofSides]
  split
  · rename_i c h
    exact absurd (by simpa using List.find?_some h) (z.disjoint c (List.mem_of_find?_eq_some h))
  · rfl

theorem Region.build_raw (r : Region) : RawRegion.build (Region.raw r) = .ok r := by
  have hzones : (Region.raw r).mapM RawZone.build = .ok (r.toList.map id) :=
    mapM_map_of_ok fun z _ => z.build_raw
  rw [RawRegion.build, hzones, List.map_id]
  exact congrArg Except.ok (SortedSet.ofList_toList r)

theorem Primary.ofParts_self (p : Primary) : ofParts p.spiders p.habitats p.shaded = .ok p := by
  unfold ofParts
  split
  · rename_i s h
    exact absurd (p.declared s (List.mem_of_find?_eq_some h)) (by simpa using List.find?_some h)
  · rfl

theorem Primary.buildPrimary_raw (p : Primary) :
    RawDiagram.buildPrimary p.spiders.toList p.rawHabitats (Region.raw p.shaded) = .ok p := by
  have hhabitats : p.rawHabitats.mapM RawDiagram.buildHabitat = .ok (p.habitats.entries.map id) := by
    refine mapM_map_of_ok fun e _ => ?_
    rw [RawDiagram.buildHabitat, Region.build_raw]
    rfl
  rw [RawDiagram.buildPrimary, hhabitats, List.map_id, Region.build_raw]
  show Primary.ofParts (.ofList p.spiders.toList) (.ofList p.habitats.entries) p.shaded = .ok p
  rw [SortedSet.ofList_toList, SortedMap.ofList_entries, p.ofParts_self]

/-- Every diagram is built from its raw form. -/
theorem Diagram.build_raw (d : Diagram) : d.raw.build = .ok d := by
  induction d with
  | null => rfl
  | primary p => rw [raw, RawDiagram.build, Primary.buildPrimary_raw]; rfl
  | negation d ih => rw [raw, RawDiagram.build, RawDiagram.buildAll, RawDiagram.buildAll, ih]; rfl
  | binary c l r ihl ihr =>
    rw [raw, RawDiagram.build, RawDiagram.buildAll, RawDiagram.buildAll, RawDiagram.buildAll, ihl, ihr]
    rfl

end SpiderDiagrams
