import Mathlib.Algebra.Group.Nat.Defs
import Mathlib.Data.List.Dedup
import SpiderDiagrams.Proofs.Extending

/-!
# How many zones there are

A contour cuts every zone that does not mention it into an inner and an outer half; a zone that mentions it is
its own half on one side. Halves of different zones may be equal, unless all zones mention the contour or none
does. So a split by a new contour doubles the number of zones, and regions told over new contours are as different
as they were before. When a region is extended whose zones mention the same contours, the inner halves are zones of
the interior, and only the outer ones come on top of it.
-/
namespace SpiderDiagrams

namespace Zone

variable {w y z : Zone} {c : String}

theorem withInside_of_mentions (h : z.mentions c = true) : z.withInside c = z := dif_pos h

theorem withOutside_of_mentions (h : z.mentions c = true) : z.withOutside c = z := dif_pos h

theorem mem_inside_withInside (h : c ∉ z.outside) : c ∈ (z.withInside c).inside := by
  cases hz : z.mentions c with
  | true =>
    rw [withInside_of_mentions hz]
    exact (mentions_iff.mp hz).resolve_right h
  | false =>
    rw [(withInside_of_not_mentions hz).1]
    exact SortedSet.mem_insert.mpr (.inl rfl)

theorem inside_withOutside (z : Zone) (c : String) : (z.withOutside c).inside = z.inside := by
  cases hz : z.mentions c with
  | true => rw [withOutside_of_mentions hz]
  | false => exact (withOutside_of_not_mentions hz).1

theorem not_mem_of_mentions_eq_false (h : z.mentions c = false) : c ∉ z.inside ∧ c ∉ z.outside := by
  simpa [mentions, isInside, isOutside] using h

/-- A zone that mentions the contour is its half on that side, and has none on the other. -/
theorem mem_split_iff_half : w ∈ z.split c ↔
    (c ∉ z.outside ∧ w = z.withInside c) ∨ (c ∉ z.inside ∧ w = z.withOutside c) := by
  rw [mem_split]
  cases hz : z.mentions c with
  | true =>
    have hside : c ∉ z.outside ∨ c ∉ z.inside :=
      (mentions_iff.mp hz).imp (z.disjoint c) fun ho hi => z.disjoint c hi ho
    simp [withInside_of_mentions hz, withOutside_of_mentions hz, ← or_and_right, hside]
  | false => simp [not_mem_of_mentions_eq_false hz]

/-- Zones with a common half are equal, unless only one of them mentions the contour. -/
theorem eq_of_mem_split (h : y.mentions c = z.mentions c) (hy : w ∈ y.split c) (hz : w ∈ z.split c) : y = z := by
  refine eq_of_isPartOver (fun d hd => ?_) (isPartOver_singleton.mpr hy) (isPartOver_singleton.mpr hz)
  rw [List.mem_singleton.mp hd, h]

end Zone

namespace Region

variable {r : Region} {w z : Zone} {c : String} {names : List String}

/-! ## Halves -/

/-- The inner halves of the zones that are not outside the contour. -/
def innerHalves (r : Region) (c : String) : Region :=
  .ofList ((r.filter fun z => !z.isOutside c).toList.map fun z => z.withInside c)

/-- The outer halves of the zones that are not inside the contour. -/
def outerHalves (r : Region) (c : String) : Region :=
  .ofList ((r.filter fun z => !z.isInside c).toList.map fun z => z.withOutside c)

theorem mem_innerHalves : w ∈ r.innerHalves c ↔ ∃ z ∈ r, c ∉ z.outside ∧ w = z.withInside c := by
  simp [innerHalves, Zone.isOutside, and_assoc, eq_comm (a := w)]

theorem mem_outerHalves : w ∈ r.outerHalves c ↔ ∃ z ∈ r, c ∉ z.inside ∧ w = z.withOutside c := by
  simp [outerHalves, Zone.isInside, and_assoc, eq_comm (a := w)]

theorem mem_inside_of_mem_innerHalves (h : w ∈ r.innerHalves c) : c ∈ w.inside := by
  obtain ⟨z, -, hz, rfl⟩ := mem_innerHalves.mp h
  exact Zone.mem_inside_withInside hz

theorem not_mem_inside_of_mem_outerHalves (h : w ∈ r.outerHalves c) : c ∉ w.inside := by
  obtain ⟨z, -, hz, rfl⟩ := mem_outerHalves.mp h
  rwa [Zone.inside_withOutside]

theorem split_eq_union (r : Region) (c : String) : r.split c = (r.innerHalves c).union (r.outerHalves c) := by
  ext w
  simp only [mem_split, Zone.mem_split_iff_half, SortedSet.mem_union, mem_innerHalves, mem_outerHalves, and_or_left,
    exists_or]

theorem size_innerHalves (h : ∀ y ∈ r, ∀ z ∈ r, y.mentions c = z.mentions c) :
    (r.innerHalves c).size = (r.filter fun z => !z.isOutside c).size := by
  refine SortedSet.size_ofList_map fun y hy z hz heq => ?_
  simp only [SortedSet.mem_filter, Zone.isOutside, Bool.not_eq_true', decide_eq_false_iff_not] at hy hz
  have hyw : y.withInside c ∈ y.split c := Zone.mem_split_iff_half.mpr (.inl ⟨hy.2, rfl⟩)
  have hzw : y.withInside c ∈ z.split c := Zone.mem_split_iff_half.mpr (.inl ⟨hz.2, heq⟩)
  exact Zone.eq_of_mem_split (h y hy.1 z hz.1) hyw hzw

theorem size_outerHalves (h : ∀ y ∈ r, ∀ z ∈ r, y.mentions c = z.mentions c) :
    (r.outerHalves c).size = (r.filter fun z => !z.isInside c).size := by
  refine SortedSet.size_ofList_map fun y hy z hz heq => ?_
  simp only [SortedSet.mem_filter, Zone.isInside, Bool.not_eq_true', decide_eq_false_iff_not] at hy hz
  have hyw : y.withOutside c ∈ y.split c := Zone.mem_split_iff_half.mpr (.inr ⟨hy.2, rfl⟩)
  have hzw : y.withOutside c ∈ z.split c := Zone.mem_split_iff_half.mpr (.inr ⟨hz.2, heq⟩)
  exact Zone.eq_of_mem_split (h y hy.1 z hz.1) hyw hzw

/-! ## New contours -/

/-- A contour that no zone mentions doubles the number of zones. -/
theorem size_split (h : ∀ z ∈ r, z.mentions c = false) : (r.split c).size = r.size * 2 := by
  have hsame : ∀ z ∈ r, ∀ w ∈ r, z.mentions c = w.mentions c := fun z hz w hw => by rw [h z hz, h w hw]
  have hapart : ∀ w ∈ r.innerHalves c, w ∉ r.outerHalves c := fun w hi ho =>
    not_mem_inside_of_mem_outerHalves ho (mem_inside_of_mem_innerHalves hi)
  have hinner : (r.filter fun z => !z.isOutside c) = r := SortedSet.filter_eq_self fun z hz => by
    simpa [Zone.isOutside] using (Zone.not_mem_of_mentions_eq_false (h z hz)).2
  have houter : (r.filter fun z => !z.isInside c) = r := SortedSet.filter_eq_self fun z hz => by
    simpa [Zone.isInside] using (Zone.not_mem_of_mentions_eq_false (h z hz)).1
  rw [split_eq_union, SortedSet.size_union hapart, size_innerHalves hsame, size_outerHalves hsame, hinner, houter]
  omega

theorem size_expressedOver (hn : names.Nodup) (h : ∀ z ∈ r, ∀ c ∈ names, z.mentions c = false) :
    (r.expressedOver names).size = r.size * 2 ^ names.length := by
  induction names generalizing r with
  | nil => simp [expressedOver]
  | cons c names ih =>
    rw [List.nodup_cons] at hn
    have hsplit : ∀ w ∈ r.split c, ∀ d ∈ names, w.mentions d = false := by
      intro w hw d hd
      obtain ⟨z, hz, hw⟩ := mem_split.mp hw
      have hdc : d ≠ c := fun hdc => hn.1 (hdc ▸ hd)
      rw [Bool.eq_false_iff, ne_eq, Zone.mentions_of_mem_split hw]
      simp [h z hz d (List.mem_cons_of_mem c hd), hdc]
    calc (r.expressedOver (c :: names)).size
        = (r.split c).size * 2 ^ names.length := ih hn.2 hsplit
      _ = r.size * 2 ^ (c :: names).length := by
        rw [size_split fun z hz => h z hz c List.mem_cons_self, List.length_cons, Nat.pow_succ', Nat.mul_assoc]

/-- Contours that are named again do not count. -/
theorem size_expressedOver_dedup (h : ∀ z ∈ r, ∀ c ∈ names, z.mentions c = false) :
    (r.expressedOver names).size = r.size * 2 ^ names.dedup.length := by
  have hdedup : ∀ c, c ∈ names.dedup ↔ c ∈ names := fun _ => List.mem_dedup
  rw [← expressedOver_eq_of_mem_iff hdedup]
  exact size_expressedOver names.nodup_dedup fun z hz c hc => h z hz c ((hdedup c).mp hc)

/-- Telling a region over new contours loses no zone and merges none: each makes as many as there are ways to lie
in or out of these contours, and regions that come out equal were equal before. -/
theorem expressedOver_keeps_zones (r₁ r₂ : Region) (names : List String)
    (h₁ : ∀ z ∈ r₁, ∀ c ∈ names, z.mentions c = false) (h₂ : ∀ z ∈ r₂, ∀ c ∈ names, z.mentions c = false) :
    (r₁.expressedOver names).size = r₁.size * 2 ^ names.dedup.length ∧
      (r₁.expressedOver names = r₂.expressedOver names → r₁ = r₂) := by
  have hsame : ∀ y ∈ r₁, ∀ z ∈ r₂, ∀ c ∈ names, y.mentions c = z.mentions c := by
    intro y hy z hz c hc
    rw [h₁ y hy c hc, h₂ z hz c hc]
  exact ⟨size_expressedOver_dedup h₁, eq_of_expressedOver_eq hsame⟩

/-- The zones mention different contours and overlap, and one of the two new contours is named twice. The second
region covers the same points as the first one, and still they do not come out equal. -/
theorem expressedOver_keeps_zones_overlapping :
    let r₁ : Region := .ofList [.insideOf ["A"], .outsideOf ["B"]]
    let r₂ : Region := r₁.union (.ofList [(Zone.insideOf ["A"]).withInside "B"])
    (∀ z ∈ r₁, ∀ c ∈ ["D", "C", "D"], z.mentions c = false) ∧
      (∀ z ∈ r₂, ∀ c ∈ ["D", "C", "D"], z.mentions c = false) ∧
      (r₁.expressedOver ["D", "C", "D"]).size = 2 * 2 ^ 2 ∧
      r₁.expressedOver ["D", "C", "D"] ≠ r₂.expressedOver ["D", "C", "D"] := by
  intro r₁ r₂
  have h₁ : ∀ z ∈ r₁, ∀ c ∈ ["D", "C", "D"], z.mentions c = false := by decide +kernel
  have h₂ : ∀ z ∈ r₂, ∀ c ∈ ["D", "C", "D"], z.mentions c = false := by decide +kernel
  have hne : r₁ ≠ r₂ := by decide +kernel
  obtain ⟨hsize, hinjective⟩ := expressedOver_keeps_zones r₁ r₂ ["D", "C", "D"] h₁ h₂
  exact ⟨h₁, h₂, hsize, fun h => hne (hinjective h)⟩

/-- The interior has a zone for each way to lie in or out of the other contours. -/
theorem size_interior (r : Region) (c : String) : (r.interior c).size = 2 ^ (r.contours.erase c).size := by
  have hfresh : ∀ z ∈ SortedSet.ofList [Zone.insideOf [c]], ∀ d ∈ (r.contours.erase c).toList,
      z.mentions d = false := by
    intro z hz d hd
    cases List.mem_singleton.mp (SortedSet.mem_ofList.mp hz)
    rw [Bool.eq_false_iff, ne_eq, Zone.mentions_insideOf]
    exact (SortedSet.mem_erase.mp hd).2
  have hone : (SortedSet.ofList [Zone.insideOf [c]]).size = 1 := rfl
  rw [interior, size_expressedOver (SortedSet.nodup_toList _) hfresh, hone, Nat.one_mul]
  rfl

/-! ## Extending -/

/-- Over one vocabulary the inner halves of all zones are zones of the interior. -/
theorem extendedBy_eq_union (h : z ∈ r) (hr : r.IsOver names) :
    r.extendedBy c = (r.outerHalves c).union (r.interior c) := by
  have hinner : ∀ w ∈ r.innerHalves c, w ∈ r.interior c := by
    intro w hw
    refine mem_interior_iff.mpr ⟨mem_inside_of_mem_innerHalves hw, fun d => ?_⟩
    obtain ⟨y, hy, hside, rfl⟩ := mem_innerHalves.mp hw
    have hhalf : y.withInside c ∈ y.split c := Zone.mem_split_iff_half.mpr (.inl ⟨hside, rfl⟩)
    rw [Zone.mentions_of_mem_split hhalf, hr y hy d, mem_contours_of_isOver h hr, or_comm]
  rw [extendedBy_of_mem h, split_eq_union]
  ext w
  simp only [SortedSet.mem_union]
  constructor
  · intro hw
    rcases hw with (hw | hw) | hw
    · exact .inr (hinner w hw)
    · exact .inl hw
    · exact .inr hw
  · intro hw
    rcases hw with hw | hw
    · exact .inl (.inr hw)
    · exact .inr hw

/-- A region whose zones all mention the same contours is extended to one whose zones all mention these and the
new one. No point is in two of its zones, and they are counted: those of the interior, and one for each zone
that is not inside the contour. -/
theorem extendedBy_uniform (r : Region) (vocabulary : SortedSet String) (c : String) (hne : r.isEmpty = false)
    (hr : ∀ z ∈ r, z.contours = vocabulary) :
    (∀ w ∈ r.extendedBy c, w.contours = vocabulary.insert c) ∧
      (∀ p, ∀ w ∈ r.extendedBy c, ∀ w' ∈ r.extendedBy c, w.covers p → w'.covers p → w = w') ∧
      (r.extendedBy c).size = 2 ^ (vocabulary.erase c).size + (r.filter fun z => !z.isInside c).size := by
  obtain ⟨z, hz⟩ := SortedSet.isEmpty_eq_false_iff.mp hne
  have hover : r.IsOver vocabulary.toList := fun y hy => hr y hy ▸ y.mentionsExactly_contours
  have hextended : (r.extendedBy c).IsOver (vocabulary.toList ++ [c]) := isOver_extendedBy hz hover
  refine ⟨?_, fun p w hw w' hw' => Zone.eq_of_covers (hextended w hw) (hextended w' hw'), ?_⟩
  · intro w hw
    ext d
    rw [Zone.mem_contours, hextended w hw d, SortedSet.mem_insert, List.mem_append, List.mem_singleton, or_comm]
    rfl
  · have hcontours : r.contours = vocabulary := SortedSet.ext fun d => mem_contours_of_isOver hz hover
    have hsame : ∀ y ∈ r, ∀ y' ∈ r, y.mentions c = y'.mentions c := by
      intro y hy y' hy'
      rw [Bool.eq_iff_iff, ← Zone.mem_contours, ← Zone.mem_contours, hr y hy, hr y' hy']
    have hapart : ∀ w ∈ r.outerHalves c, w ∉ r.interior c := fun w ho hi =>
      not_mem_inside_of_mem_outerHalves ho (mem_interior_iff.mp hi).1
    rw [extendedBy_eq_union hz hover, SortedSet.size_union hapart, size_outerHalves hsame, size_interior, hcontours,
      Nat.add_comm]

/-- The contour is mentioned by the zones, and one of them is inside it. That one is in the interior already. -/
theorem extendedBy_uniform_mentioned :
    let r : Region := .ofList [(Zone.insideOf ["A"]).withOutside "B", (Zone.insideOf ["B"]).withOutside "A"]
    r.isEmpty = false ∧ (∀ z ∈ r, z.contours = .ofList ["A", "B"]) ∧
      (∀ w ∈ r.extendedBy "A", w.contours = (SortedSet.ofList ["A", "B"]).insert "A") ∧
      (∀ p, ∀ w ∈ r.extendedBy "A", ∀ w' ∈ r.extendedBy "A", w.covers p → w'.covers p → w = w') ∧
      (r.extendedBy "A").size = 2 + 1 := by
  intro r
  have hne : r.isEmpty = false := by decide +kernel
  have hr : ∀ z ∈ r, z.contours = .ofList ["A", "B"] := by decide +kernel
  obtain ⟨hcontours, hapart, hsize⟩ := extendedBy_uniform r (.ofList ["A", "B"]) "A" hne hr
  have hinterior : 2 ^ ((SortedSet.ofList ["A", "B"]).erase "A").size = 2 := by decide +kernel
  have hothers : (r.filter fun z => !z.isInside "A").size = 1 := by decide +kernel
  rw [hinterior, hothers] at hsize
  exact ⟨hne, hr, hcontours, hapart, hsize⟩

end Region

end SpiderDiagrams
