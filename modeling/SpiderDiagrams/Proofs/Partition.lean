import Mathlib.Logic.ExistsUnique
import SpiderDiagrams.Proofs.Counting

/-!
# Cutting the plane and cutting regions

All zones of some contours cut the plane: each point is in just one of them, and there is one for each way to divide
the contours into inner and outer ones. The zones of a region that are inside one of some contours and those that
are inside none of them cut the region. They cut it along the contours only if its zones mention all of these, since
a zone that leaves a contour open counts as outside it.
-/
namespace SpiderDiagrams

namespace Zone

variable {z : Zone} {c : String} {p : Point} {names : List String}

/-- A zone that mentions the contour is on that side of it on which all its points are. -/
theorem isInside_eq_of_covers (hc : z.mentions c = true) (hp : z.covers p) : z.isInside c = p c := by
  have hmem := mem_inside_iff (c := c) z.mentionsExactly_contours hp
  rw [SortedSet.mem_toList, mem_contours, and_iff_right hc] at hmem
  rw [Bool.eq_iff_iff, isInside, decide_eq_true_iff, hmem]

theorem any_isInside_eq_of_covers (hz : ∀ c ∈ names, z.mentions c = true) (hp : z.covers p) :
    names.any z.isInside = names.any p := by
  rw [Bool.eq_iff_iff, List.any_eq_true, List.any_eq_true]
  refine exists_congr fun c => and_congr_right fun hc => ?_
  rw [isInside_eq_of_covers (hz c hc) hp]

end Zone

namespace Region

variable {r : Region} {z : Zone} {p : Point} {names : List String}

/-! ## The plane -/

theorem mem_allZones : z ∈ allZones names ↔ z.MentionsExactly names := by
  constructor
  · intro hz
    exact isOver_allZones names z hz
  · intro hz
    exact mem_of_covers (isOver_allZones names) hz z.covers_isInside (covers_allZones names _)

theorem size_allZones (names : List String) : (allZones names).size = 2 ^ names.dedup.length := by
  have hplane : ∀ z ∈ SortedSet.ofList [Zone.plane], ∀ c ∈ names, z.mentions c = false := by
    intro z hz c _
    cases List.mem_singleton.mp (SortedSet.mem_ofList.mp hz)
    rfl
  rw [allZones, size_expressedOver_dedup hplane]
  exact Nat.one_mul _

/-- The zones that some contours divide the plane into are those that have each of the contours on one side, and no
others. There are two to the power of the number of contours, and every point is in just one of them. -/
theorem allZones_partition (names : List String) :
    (∀ inside outside : SortedSet String, (∃ z ∈ allZones names, z.inside = inside ∧ z.outside = outside) ↔
        (∀ c ∈ inside, c ∉ outside) ∧ inside.union outside = .ofList names) ∧
      (allZones names).size = 2 ^ names.dedup.length ∧
      ∀ p, ∃! z, z ∈ allZones names ∧ z.covers p := by
  refine ⟨fun inside outside => ?_, size_allZones names, fun p => ?_⟩
  · have hexactly (z : Zone) : z ∈ allZones names ↔ z.inside.union z.outside = .ofList names := by
      rw [mem_allZones, SortedSet.ext_iff]
      simp only [Zone.MentionsExactly, ← Zone.mem_contours, SortedSet.mem_ofList]
      rfl
    constructor
    · intro h
      obtain ⟨z, hz, rfl, rfl⟩ := h
      exact ⟨z.disjoint, (hexactly z).mp hz⟩
    · intro h
      exact ⟨⟨inside, outside, h.1⟩, (hexactly _).mpr h.2, rfl, rfl⟩
  · obtain ⟨z, hz, hp⟩ := covers_allZones names p
    refine ⟨z, ⟨hz, hp⟩, fun w hw => ?_⟩
    exact Zone.eq_of_covers (mem_allZones.mp hw.1) (mem_allZones.mp hz) hw.2 hp

/-- The second mention of a contour does not count. -/
example : (allZones ["B", "A", "B"]).size = 4 := by decide +kernel

/-! ## Regions -/

/-- A point stays covered if the zones that cover it pass the test, and not if they fail it. -/
theorem covers_filter {test : Zone → Bool} {b : Bool} (h : ∀ z ∈ r, z.covers p → test z = b) :
    covers (r.filter test) p ↔ r.covers p ∧ b = true := by
  constructor
  · intro hr
    obtain ⟨z, hz, hp⟩ := hr
    obtain ⟨hz, htest⟩ := SortedSet.mem_filter.mp hz
    exact ⟨⟨z, hz, hp⟩, (h z hz hp).symm.trans htest⟩
  · intro hr
    obtain ⟨⟨z, hz, hp⟩, hb⟩ := hr
    exact ⟨z, SortedSet.mem_filter.mpr ⟨hz, (h z hz hp).trans hb⟩, hp⟩

theorem covers_insideAny (h : ∀ z ∈ r, ∀ c ∈ names, z.mentions c = true) :
    (r.insideAny names).covers p ↔ r.covers p ∧ ∃ c ∈ names, p c = true := by
  have hany : ∀ z ∈ r, z.covers p → names.any z.isInside = names.any p :=
    fun z hz => Zone.any_isInside_eq_of_covers (h z hz)
  rw [insideAny, covers_filter hany, List.any_eq_true]

theorem covers_insideNone (h : ∀ z ∈ r, ∀ c ∈ names, z.mentions c = true) :
    (r.insideNone names).covers p ↔ r.covers p ∧ ∀ c ∈ names, p c = false := by
  have hany : ∀ z ∈ r, z.covers p → (!names.any z.isInside) = !names.any p :=
    fun z hz hp => congrArg not (Zone.any_isInside_eq_of_covers (h z hz) hp)
  rw [insideNone, covers_filter hany]
  simp

theorem mentions_expressedOver (r : Region) (names : List String) :
    ∀ z ∈ r.expressedOver names, ∀ c ∈ names, z.mentions c = true := by
  intro z hz c hc
  obtain ⟨y, -, hmentions⟩ := mentions_of_mem_expressedOver hz
  exact (hmentions c).mpr (.inr hc)

/-- The zones inside one of some contours and those inside none of them cut a region in two. Where the region is
told over these contours before, they cut the part of the plane that it covers in two, by the same contours. -/
theorem insideAny_insideNone_cut (r : Region) (names : List String) :
    (r.insideAny names).inter (r.insideNone names) = ∅ ∧ (r.insideAny names).union (r.insideNone names) = r ∧
      ∀ p, (((r.expressedOver names).insideAny names).covers p ↔ r.covers p ∧ ∃ c ∈ names, p c = true) ∧
        (((r.expressedOver names).insideNone names).covers p ↔ r.covers p ∧ ∀ c ∈ names, p c = false) := by
  have hmentions := mentions_expressedOver r names
  refine ⟨?_, ?_, fun p => ⟨?_, ?_⟩⟩
  · ext z
    cases h : names.any z.isInside <;> simp [insideAny, insideNone, h]
  · ext z
    cases h : names.any z.isInside <;> simp [insideAny, insideNone, h]
  · rw [covers_insideAny hmentions, covers_expressedOver]
  · rw [covers_insideNone hmentions, covers_expressedOver]

end Region

end SpiderDiagrams
