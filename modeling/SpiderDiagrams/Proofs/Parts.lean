import SpiderDiagrams.Proofs.Coverage

/-!
# Which zones tell a region over more contours

A zone is part of another one when it lies on the same side of every contour that the other one mentions. A
zone that is split by some contours falls into exactly those of its parts that mention these contours besides
its own. So the zones that tell a region over more contours are known without a look at the splits, and it does
not matter in which order the contours are taken, which of them are named again or mentioned already, and
whether equal zones are merged after each split or once in the end. Zones that mention the same of these contours
have no part in common, so the region can be found again (`eq_of_expressedOver_eq`).
-/
namespace SpiderDiagrams

namespace Zone

variable {w y z : Zone} {c d : String} {p : Point} {names others : List String}

theorem mem_contours : c ∈ z.contours ↔ z.mentions c = true := by
  simp [contours, mentions_iff]

theorem mentionsExactly_contours (z : Zone) : z.MentionsExactly z.contours.toList :=
  fun _ => mem_contours.symm

/-- The zone lies on the same side of every contour that the other one mentions. -/
structure IsPartOf (w z : Zone) : Prop where
  inside : ∀ c ∈ z.inside, c ∈ w.inside
  outside : ∀ c ∈ z.outside, c ∈ w.outside

theorem IsPartOf.covers (h : w.IsPartOf z) (hp : w.covers p) : z.covers p :=
  ⟨fun c hc => hp.1 c (h.inside c hc), fun c hc => hp.2 c (h.outside c hc)⟩

/-- Of two zones with a common point one is part of the other if it mentions all that the other one does. -/
theorem isPartOf_of_covers (hw : w.covers p) (hz : z.covers p)
    (h : ∀ c, z.mentions c = true → w.mentions c = true) : w.IsPartOf z := by
  constructor
  · intro c hc
    have hwc := h c (mentions_iff.mpr (.inl hc))
    exact (mem_inside_iff w.mentionsExactly_contours hw).mpr ⟨mem_contours.mpr hwc, hz.1 c hc⟩
  · intro c hc
    have hwc := h c (mentions_iff.mpr (.inr hc))
    exact (mem_outside_iff w.mentionsExactly_contours hw).mpr ⟨mem_contours.mpr hwc, hz.2 c hc⟩

/-- The zone is a part of the other one, and mentions just the given contours besides what that one does. -/
structure IsPartOver (names : List String) (w z : Zone) : Prop where
  isPartOf : w.IsPartOf z
  mentions_iff : ∀ c, w.mentions c = true ↔ z.mentions c = true ∨ c ∈ names

/-- One point tells whether a zone is a part: that which is inside just the contours that the zone is inside. -/
theorem isPartOver_iff_covers : IsPartOver names w z ↔
    z.covers w.isInside ∧ ∀ c, w.mentions c = true ↔ z.mentions c = true ∨ c ∈ names := by
  constructor
  · intro h
    exact ⟨h.isPartOf.covers w.covers_isInside, h.mentions_iff⟩
  · intro h
    obtain ⟨hp, hmentions⟩ := h
    exact ⟨isPartOf_of_covers w.covers_isInside hp fun c hc => (hmentions c).mpr (.inl hc), hmentions⟩

theorem isPartOver_iff : IsPartOver names w z ↔
    z.inside.isSubsetOf w.inside = true ∧ z.outside.isSubsetOf w.outside = true ∧
      w.contours = z.contours.union (.ofList names) := by
  have hcontours : w.contours = z.contours.union (.ofList names) ↔
      ∀ c, w.mentions c = true ↔ z.mentions c = true ∨ c ∈ names := by
    simp only [SortedSet.ext_iff, SortedSet.mem_union, SortedSet.mem_ofList, mem_contours]
  rw [SortedSet.isSubsetOf_iff, SortedSet.isSubsetOf_iff, hcontours]
  constructor
  · intro h
    exact ⟨h.isPartOf.inside, h.isPartOf.outside, h.mentions_iff⟩
  · intro h
    exact ⟨⟨h.1, h.2.1⟩, h.2.2⟩

theorem isPartOver_nil : IsPartOver [] w z ↔ w = z := by
  constructor
  · intro h
    obtain ⟨hp, hmentions⟩ := isPartOver_iff_covers.mp h
    have hz : z.MentionsExactly w.contours.toList := fun c => by
      rw [SortedSet.mem_toList, mem_contours, hmentions, or_iff_left List.not_mem_nil]
    exact eq_of_covers w.mentionsExactly_contours hz w.covers_isInside hp
  · rintro rfl
    exact isPartOver_iff_covers.mpr ⟨w.covers_isInside, by simp⟩

/-- A part over several contours is a part over the others of one of the halves that the first one makes. -/
theorem isPartOver_cons : IsPartOver (c :: names) w z ↔ ∃ y ∈ z.split c, IsPartOver names w y := by
  have hmentions (y : Zone) (hy : y ∈ z.split c) :
      (∀ d, w.mentions d = true ↔ y.mentions d = true ∨ d ∈ names) ↔
        ∀ d, w.mentions d = true ↔ z.mentions d = true ∨ d ∈ c :: names := by
    simp only [mentions_of_mem_split hy, List.mem_cons, or_assoc]
  -- The half to take is the one that has the point of the part.
  simp only [isPartOver_iff_covers]
  constructor
  · intro h
    obtain ⟨y, hy, hp⟩ := exists_mem_split_covers_iff.mpr h.1
    exact ⟨y, hy, hp, (hmentions y hy).mpr h.2⟩
  · intro h
    obtain ⟨y, hy, hp, h⟩ := h
    exact ⟨exists_mem_split_covers_iff.mp ⟨y, hy, hp⟩, (hmentions y hy).mp h⟩

theorem isPartOver_singleton : IsPartOver [c] w z ↔ w ∈ z.split c := by
  simp [isPartOver_cons, isPartOver_nil]

theorem exists_isPartOver (names : List String) (z : Zone) : ∃ w, IsPartOver names w z := by
  induction names generalizing z with
  | nil => exact ⟨z, isPartOver_nil.mpr rfl⟩
  | cons c names ih =>
    obtain ⟨y, hy, -⟩ := exists_mem_split_covers_iff.mpr z.covers_isInside
    obtain ⟨w, hw⟩ := ih y
    exact ⟨w, isPartOver_cons.mpr ⟨y, hy, hw⟩⟩

/-- Zones with a common part over some contours are equal, unless only one of them mentions one of these. -/
theorem eq_of_isPartOver (h : ∀ c ∈ names, y.mentions c = z.mentions c) (hy : IsPartOver names w y)
    (hz : IsPartOver names w z) : y = z := by
  have hmentions : y.MentionsExactly z.contours.toList := by
    intro c
    rw [SortedSet.mem_toList, mem_contours]
    by_cases hc : c ∈ names
    · rw [h c hc]
    · rw [← or_iff_left (a := y.mentions c = true) hc, ← hy.mentions_iff, hz.mentions_iff, or_iff_left hc]
  exact eq_of_covers hmentions z.mentionsExactly_contours (hy.isPartOf.covers w.covers_isInside)
    (hz.isPartOf.covers w.covers_isInside)

/-- Splits some zones by some contours, and keeps zones that come out several times. -/
def splitAll (zones : List Zone) (names : List String) : List Zone :=
  names.foldl (fun zones c => zones.flatMap fun z => z.split c) zones

end Zone

namespace Region

variable {r r₁ r₂ : Region} {w : Zone} {names others : List String}

theorem split_ofList (zones : List Zone) (c : String) :
    split (.ofList zones) c = .ofList (zones.flatMap fun z => z.split c) := by
  ext w
  simp [mem_split]

/-- Equal zones may as well be merged only in the end. -/
theorem expressedOver_ofList (zones : List Zone) (names : List String) :
    expressedOver (.ofList zones) names = .ofList (Zone.splitAll zones names) := by
  induction names generalizing zones with
  | nil => rfl
  | cons c names ih =>
    rw [expressedOver, List.foldl_cons, split_ofList]
    exact ih _

/-- The result has just the parts over the given contours of all zones of the region. -/
theorem mem_expressedOver_iff : w ∈ r.expressedOver names ↔ ∃ z ∈ r, Zone.IsPartOver names w z := by
  induction names generalizing r with
  | nil => simp [expressedOver, Zone.isPartOver_nil]
  | cons c names ih =>
    simp only [Zone.isPartOver_cons]
    refine (ih (r := r.split c)).trans ?_
    constructor
    · intro h
      obtain ⟨y, hy, hw⟩ := h
      obtain ⟨z, hz, hy⟩ := mem_split.mp hy
      exact ⟨z, hz, y, hy, hw⟩
    · intro h
      obtain ⟨z, hz, y, hy, hw⟩ := h
      exact ⟨y, mem_split.mpr ⟨z, hz, hy⟩, hw⟩

theorem expressedOver_eq_of_mem_iff (h : ∀ c, c ∈ others ↔ c ∈ names) :
    r.expressedOver others = r.expressedOver names := by
  ext w
  simp only [mem_expressedOver_iff, Zone.isPartOver_iff_covers, h]

/-- A zone is in the second region with any of its parts, if no zone mentions more of the contours than another. -/
theorem mem_of_expressedOver_subset (hsame : ∀ y ∈ r₁, ∀ z ∈ r₂, ∀ c ∈ names, y.mentions c = z.mentions c)
    (h : ∀ w ∈ r₁.expressedOver names, w ∈ r₂.expressedOver names) : ∀ y ∈ r₁, y ∈ r₂ := by
  intro y hy
  obtain ⟨w, hwy⟩ := Zone.exists_isPartOver names y
  obtain ⟨z, hz, hwz⟩ := mem_expressedOver_iff.mp (h w (mem_expressedOver_iff.mpr ⟨y, hy, hwy⟩))
  rwa [Zone.eq_of_isPartOver (hsame y hy z hz) hwy hwz]

theorem eq_of_expressedOver_eq (hsame : ∀ y ∈ r₁, ∀ z ∈ r₂, ∀ c ∈ names, y.mentions c = z.mentions c)
    (h : r₁.expressedOver names = r₂.expressedOver names) : r₁ = r₂ := by
  have hsame' : ∀ z ∈ r₂, ∀ y ∈ r₁, ∀ c ∈ names, z.mentions c = y.mentions c :=
    fun z hz y hy c hc => (hsame y hy z hz c hc).symm
  ext z
  constructor
  · exact mem_of_expressedOver_subset hsame (fun w hw => h ▸ hw) z
  · exact mem_of_expressedOver_subset hsame' (fun w hw => h ▸ hw) z

/-- The zones that tell a region over some contours are determined by the region and the set of these contours.
Going on to further contours is the same as taking all at once, and no point is lost or added. -/
theorem expressedOver_determined (r : Region) (names : List String) :
    (∀ w, w ∈ r.expressedOver names ↔ ∃ z ∈ r,
      z.inside.isSubsetOf w.inside = true ∧ z.outside.isSubsetOf w.outside = true ∧
        w.contours = z.contours.union (.ofList names)) ∧
      (∀ others, SortedSet.ofList others = .ofList names → r.expressedOver others = r.expressedOver names) ∧
      (∀ more, (r.expressedOver names).expressedOver more = r.expressedOver (names ++ more)) ∧
      (∀ p, (r.expressedOver names).covers p ↔ r.covers p) ∧
      r.expressedOver names = .ofList (Zone.splitAll r.toList names) := by
  have hmem (names : List String) (w : Zone) : w ∈ r.expressedOver names ↔ ∃ z ∈ r,
      z.inside.isSubsetOf w.inside = true ∧ z.outside.isSubsetOf w.outside = true ∧
        w.contours = z.contours.union (.ofList names) := by
    simp only [mem_expressedOver_iff, Zone.isPartOver_iff]
  refine ⟨hmem names, ?_, ?_, fun p => covers_expressedOver r names, ?_⟩
  · intro others h
    ext w
    rw [hmem, hmem, h]
  · intro more
    exact List.foldl_append.symm
  · rw [← expressedOver_ofList, SortedSet.ofList_toList]

/-- The zones mention different contours, one of which is given twice. They have a part in common, which is
counted once. -/
theorem expressedOver_determined_overlapping :
    let r : Region := .ofList [.insideOf ["A"], .outsideOf ["B"]]
    SortedSet.ofList ["A", "B"] = .ofList ["B", "A", "B"] ∧
      r.expressedOver ["A", "B"] = r.expressedOver ["B", "A", "B"] ∧ (r.expressedOver ["A", "B"]).size = 3 := by
  intro r
  have hset : SortedSet.ofList ["A", "B"] = .ofList ["B", "A", "B"] := by decide +kernel
  exact ⟨hset, (expressedOver_determined r ["B", "A", "B"]).2.1 ["A", "B"] hset, by decide +kernel⟩

end Region

end SpiderDiagrams
