import SpiderDiagrams.Proofs.Parts

/-!
# Extending regions

Extending a region by a contour adds the interior of that contour to what the region covers, and tells the
result over the old contours and the new one. Only an empty region is taken for the whole plane. What covers
the plane goes on to cover it, and of the regions over a vocabulary just one does: that of all zones. So all
zones of some contours are found as well by extending the empty region by one contour after another.
-/
namespace SpiderDiagrams

theorem Zone.mentions_insideOf {c d : String} : (insideOf [c]).mentions d = true ↔ d = c := by
  simp [mentions_iff, insideOf]

theorem Zone.covers_insideOf {c : String} {p : Point} : (insideOf [c]).covers p ↔ p c = true := by
  simp [covers, insideOf]

theorem Zone.covers_outsideOf {c : String} {p : Point} : (outsideOf [c]).covers p ↔ p c = false := by
  simp [covers, outsideOf]

namespace Region

variable {r : Region} {z w : Zone} {c d : String} {p : Point} {names done : List String}

theorem covers_ofList {zones : List Zone} :
    covers (.ofList zones) p ↔ ∃ z ∈ zones, z.covers p := by
  simp [covers]

/-! ## All zones -/

theorem covers_allZones (names : List String) (p : Point) : (allZones names).covers p := by
  rw [allZones, covers_expressedOver, covers_ofList]
  exact ⟨.plane, List.mem_singleton_self _, by simp [Zone.covers, Zone.plane]⟩

theorem isOver_allZones (names : List String) : (allZones names).IsOver names := by
  refine isOver_expressedOver fun c hc => ?_
  obtain ⟨z, hz, hm⟩ := mem_contours.mp hc
  cases List.mem_singleton.mp (SortedSet.mem_ofList.mp hz)
  simp [Zone.mentions_iff, Zone.plane] at hm

/-- Of the regions over a vocabulary only that of all zones covers the plane. -/
theorem eq_allZones (hr : r.IsOver names) (hp : ∀ p, r.covers p) : r = allZones names :=
  (eq_iff_covers hr (isOver_allZones names)).mpr fun p =>
    iff_of_true (hp p) (covers_allZones names p)

/-! ## One more contour -/

theorem mem_contours_of_isOver (h : z ∈ r) (hr : r.IsOver names) : d ∈ r.contours ↔ d ∈ names := by
  rw [mem_contours]
  constructor
  · intro hd
    obtain ⟨y, hy, hd⟩ := hd
    exact (hr y hy d).mp hd
  · intro hd
    exact ⟨z, h, (hr z h d).mpr hd⟩

/-- The interior of a contour, told over all that the region mentions besides. -/
def interior (r : Region) (c : String) : Region :=
  expressedOver (.ofList [.insideOf [c]]) (r.contours.erase c).toList

theorem mem_interior_iff :
    w ∈ r.interior c ↔ c ∈ w.inside ∧ ∀ d, w.mentions d = true ↔ d = c ∨ d ∈ r.contours := by
  have hmentions (d : String) : d = c ∨ (d ∈ r.contours ∧ d ≠ c) ↔ d = c ∨ d ∈ r.contours := by
    by_cases hd : d = c <;> simp [hd]
  simp [interior, mem_expressedOver_iff, Zone.isPartOver_iff_covers, Zone.covers_insideOf, Zone.mentions_insideOf,
    Zone.isInside, hmentions]

theorem covers_interior : (r.interior c).covers p ↔ p c = true := by
  rw [interior, covers_expressedOver, covers_ofList]
  simp [Zone.covers_insideOf]

theorem extendedBy_of_mem (h : z ∈ r) : r.extendedBy c = (r.split c).union (r.interior c) := by
  rw [extendedBy, SortedSet.isEmpty_eq_false_iff.mpr ⟨z, h⟩]
  rfl

theorem covers_extendedBy (h : z ∈ r) : (r.extendedBy c).covers p ↔ r.covers p ∨ p c = true := by
  rw [extendedBy_of_mem h, covers_union, covers_split, covers_interior]

theorem mentions_of_mem_extendedBy (h : z ∈ r) (hw : w ∈ r.extendedBy c) : w.mentions c = true := by
  rw [extendedBy_of_mem h, SortedSet.mem_union] at hw
  rcases hw with hw | hw
  · obtain ⟨y, -, hw⟩ := mem_split.mp hw
    exact (Zone.mentions_of_mem_split hw).mpr (.inr rfl)
  · exact ((mem_interior_iff.mp hw).2 c).mpr (.inl rfl)

theorem isOver_extendedBy (h : z ∈ r) (hr : r.IsOver names) :
    (r.extendedBy c).IsOver (names ++ [c]) := by
  intro w hw d
  rw [extendedBy_of_mem h, SortedSet.mem_union] at hw
  rw [List.mem_append, List.mem_singleton]
  rcases hw with hw | hw
  · obtain ⟨y, hy, hw⟩ := mem_split.mp hw
    rw [Zone.mentions_of_mem_split hw, hr y hy d]
  · rw [(mem_interior_iff.mp hw).2 d, mem_contours_of_isOver h hr, or_comm]

theorem extendedBy_allZones (names : List String) (c : String) :
    (allZones names).extendedBy c = allZones (names ++ [c]) := by
  obtain ⟨z, hz, -⟩ := covers_allZones names fun _ => true
  refine eq_allZones (isOver_extendedBy hz (isOver_allZones names)) fun p => ?_
  exact (covers_extendedBy hz).mpr (.inl (covers_allZones names p))

theorem extendedBy_empty (c : String) : extendedBy ∅ c = allZones [c] := by
  apply eq_allZones
  · intro w hw d
    rcases List.mem_cons.mp (SortedSet.mem_ofList.mp hw) with rfl | hw
    · simp [Zone.mentions_insideOf]
    · cases List.mem_singleton.mp hw
      simp [Zone.mentions_iff, Zone.outsideOf]
  · intro p
    refine covers_ofList.mpr ?_
    cases hp : p c with
    | true => exact ⟨_, List.mem_cons_self, Zone.covers_insideOf.mpr hp⟩
    | false => exact ⟨.outsideOf [c], by simp, Zone.covers_outsideOf.mpr hp⟩

/-- Extending a region adds the inside of the contour to it, whatever its zones mention. The empty region stands
for the whole plane here. Every zone of the result is on one side of the contour. -/
theorem extendedBy_adds_interior (r : Region) (c : String) :
    (r.isEmpty = true → ∀ p, (r.extendedBy c).covers p) ∧
      (r.isEmpty = false → ∀ p, (r.extendedBy c).covers p ↔ r.covers p ∨ p c = true) ∧
      ∀ w ∈ r.extendedBy c, w.mentions c = true := by
  cases hr : r.isEmpty with
  | true =>
    cases SortedSet.isEmpty_iff.mp hr
    rw [extendedBy_empty]
    refine ⟨fun _ => covers_allZones [c], by simp, fun w hw => ?_⟩
    exact (isOver_allZones [c] w hw c).mpr (List.mem_singleton_self c)
  | false =>
    obtain ⟨z, hz⟩ := SortedSet.isEmpty_eq_false_iff.mp hr
    exact ⟨by simp, fun _ p => covers_extendedBy hz, fun w hw => mentions_of_mem_extendedBy hz hw⟩

/-- One of the zones does not mention the contour and the other is outside it. A point that neither covers is
added where it is inside the contour, and where it is outside only if the region was empty. -/
theorem extendedBy_adds_interior_uncovered :
    let r : Region := .ofList [.insideOf ["A"], .outsideOf ["B", "C"]]
    let within : Point := fun c => c = "B" || c = "C"
    let beside : Point := fun c => c = "B"
    r.isEmpty = false ∧ (r.extendedBy "C").covers within ∧ ¬ (r.extendedBy "C").covers beside ∧
      (.outsideOf ["B", "C"] ∈ r.extendedBy "C" ∧ (Zone.outsideOf ["B", "C"]).mentions "C" = true) ∧
      (∅ : Region).isEmpty = true ∧ (extendedBy ∅ "C").covers beside := by
  intro r within beside
  have hne : r.isEmpty = false := by decide +kernel
  have hmem : .outsideOf ["B", "C"] ∈ r.extendedBy "C" := by decide +kernel
  have huncovered : ¬ r.covers beside := by
    simp [r, beside, covers_ofList, Zone.covers, Zone.insideOf, Zone.outsideOf]
  have hside : beside "C" ≠ true := by decide
  obtain ⟨-, hcovers, hmentions⟩ := extendedBy_adds_interior r "C"
  refine ⟨hne, (hcovers hne within).mpr (.inr rfl), ?_, ⟨hmem, hmentions _ hmem⟩, rfl, ?_⟩
  · exact fun h => ((hcovers hne beside).mp h).elim huncovered hside
  · exact (extendedBy_adds_interior ∅ "C").1 rfl beside

/-- Extending goes on from all zones of some contours to all zones of these and further ones. -/
theorem foldl_extendedBy_allZones (done names : List String) :
    names.foldl extendedBy (allZones done) = allZones (done ++ names) := by
  induction names generalizing done with
  | nil => rw [List.foldl_nil, List.append_nil]
  | cons c names ih => rw [List.foldl_cons, extendedBy_allZones, ih, List.append_assoc, List.singleton_append]

/-- Extending the empty region by one contour after another gives all zones of the contours, also where some
of them are named again. -/
theorem foldl_extendedBy_empty (names : List String) (h : names ≠ []) :
    names.foldl extendedBy ∅ = allZones names := by
  cases names with
  | nil => exact absurd rfl h
  | cons c names =>
    rw [List.foldl_cons, extendedBy_empty, foldl_extendedBy_allZones, List.singleton_append]

/-- The second mention of a contour adds nothing. -/
theorem foldl_extendedBy_empty_repeated :
    (["b", "a", "b"] : List String) ≠ [] ∧
      ["b", "a", "b"].foldl extendedBy ∅ = allZones ["b", "a", "b"] ∧
      (["b", "a", "b"].foldl extendedBy ∅).size = 4 :=
  ⟨by decide, foldl_extendedBy_empty ["b", "a", "b"] (by decide), by decide +kernel⟩

end Region

end SpiderDiagrams
