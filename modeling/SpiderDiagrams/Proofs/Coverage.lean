import SpiderDiagrams.Region

/-!
# What regions cover

A point of the plane is inside some contours and outside all others. A zone covers the points that lie on
its side of every contour it mentions, a region covers what one of its zones covers. Zones that mention
different contours may overlap, so sets of zones say little about sets of points. But splitting keeps
what is covered, and of the zones that mention exactly the same contours each point is in only one. Over a
common vocabulary the operations on sets of zones are therefore the operations on what they cover.
-/
namespace SpiderDiagrams

/-- Whether the point is inside each contour. -/
abbrev Point := String → Bool

namespace Zone

def covers (z : Zone) (p : Point) : Prop :=
  (∀ c ∈ z.inside, p c = true) ∧ ∀ c ∈ z.outside, p c = false

/-- The zone mentions the given contours and no others. -/
def MentionsExactly (z : Zone) (names : List String) : Prop := ∀ c, z.mentions c = true ↔ c ∈ names

variable {z w : Zone} {c d : String} {p : Point} {names : List String}

theorem withInside_of_not_mentions (h : z.mentions c = false) :
    (z.withInside c).inside = z.inside.insert c ∧ (z.withInside c).outside = z.outside := by
  have hn : ¬ z.mentions c = true := by simp [h]
  rw [withInside, dif_neg hn]
  exact ⟨rfl, rfl⟩

theorem withOutside_of_not_mentions (h : z.mentions c = false) :
    (z.withOutside c).inside = z.inside ∧ (z.withOutside c).outside = z.outside.insert c := by
  have hn : ¬ z.mentions c = true := by simp [h]
  rw [withOutside, dif_neg hn]
  exact ⟨rfl, rfl⟩

theorem covers_withInside (h : z.mentions c = false) :
    (z.withInside c).covers p ↔ p c = true ∧ z.covers p := by
  obtain ⟨hi, ho⟩ := withInside_of_not_mentions h
  simp only [covers, hi, ho, SortedSet.mem_insert, forall_eq_or_imp, and_assoc]

theorem covers_withOutside (h : z.mentions c = false) :
    (z.withOutside c).covers p ↔ p c = false ∧ z.covers p := by
  obtain ⟨hi, ho⟩ := withOutside_of_not_mentions h
  simp only [covers, hi, ho, SortedSet.mem_insert, forall_eq_or_imp]
  exact and_left_comm

theorem mem_split : w ∈ z.split c ↔
    (z.mentions c = true ∧ w = z) ∨
      (z.mentions c = false ∧ (w = z.withInside c ∨ w = z.withOutside c)) := by
  cases h : z.mentions c <;> simp [split, h]

/-- The parts that a zone is split into make up the zone. -/
theorem exists_mem_split_covers_iff : (∃ w ∈ z.split c, w.covers p) ↔ z.covers p := by
  simp only [mem_split]
  cases h : z.mentions c with
  | true => simp
  | false =>
    have hi := covers_withInside (p := p) h
    have ho := covers_withOutside (p := p) h
    cases hp : p c <;> simp [hi, ho, hp]

theorem mentions_of_mem_split (h : w ∈ z.split c) :
    w.mentions d = true ↔ z.mentions d = true ∨ d = c := by
  rcases mem_split.mp h with ⟨hm, rfl⟩ | ⟨hm, rfl | rfl⟩
  · constructor
    · exact .inl
    · rintro (h | rfl)
      · exact h
      · exact hm
  · obtain ⟨hi, ho⟩ := withInside_of_not_mentions hm
    simp only [mentions_iff, hi, ho, SortedSet.mem_insert]
    rw [or_assoc, or_comm]
  · obtain ⟨hi, ho⟩ := withOutside_of_not_mentions hm
    simp only [mentions_iff, hi, ho, SortedSet.mem_insert]
    rw [or_left_comm, or_comm]

theorem covers_isInside (z : Zone) : z.covers z.isInside := by
  constructor
  · intro c hc
    simpa [isInside] using hc
  · intro c hc
    simpa [isInside] using fun hi => z.disjoint c hi hc

/-- A zone that covers a point is inside exactly those of its contours that the point is inside. -/
theorem mem_inside_iff (hz : z.MentionsExactly names) (h : z.covers p) :
    c ∈ z.inside ↔ c ∈ names ∧ p c = true := by
  rw [← hz c, mentions_iff]
  constructor
  · intro hc
    exact ⟨.inl hc, h.1 c hc⟩
  · rintro ⟨hc | hc, hp⟩
    · exact hc
    · simp [h.2 c hc] at hp

theorem mem_outside_iff (hz : z.MentionsExactly names) (h : z.covers p) :
    c ∈ z.outside ↔ c ∈ names ∧ p c = false := by
  rw [← hz c, mentions_iff]
  constructor
  · intro hc
    exact ⟨.inr hc, h.2 c hc⟩
  · rintro ⟨hc | hc, hp⟩
    · simp [h.1 c hc] at hp
    · exact hc

/-- Two zones over the same contours have no point in common unless they are the same zone. -/
theorem eq_of_covers (hz : z.MentionsExactly names) (hw : w.MentionsExactly names)
    (hzp : z.covers p) (hwp : w.covers p) : z = w := by
  ext c
  · rw [mem_inside_iff hz hzp, mem_inside_iff hw hwp]
  · rw [mem_outside_iff hz hzp, mem_outside_iff hw hwp]

end Zone

namespace Region

def covers (r : Region) (p : Point) : Prop := ∃ z ∈ r, z.covers p

/-- All zones are told over the given contours. -/
def IsOver (r : Region) (names : List String) : Prop := ∀ z ∈ r, z.MentionsExactly names

variable {r r₁ r₂ e e₁ e₂ : Region} {z w : Zone} {c : String} {p : Point} {names : List String}

theorem mem_contours : c ∈ r.contours ↔ ∃ z ∈ r, z.mentions c = true := by
  simp [contours, Zone.contours, Zone.mentions_iff]

theorem mem_split : w ∈ r.split c ↔ ∃ z ∈ r, w ∈ z.split c := by
  simp [split]

theorem covers_split : (r.split c).covers p ↔ r.covers p := by
  simp only [covers, mem_split]
  constructor
  · rintro ⟨w, ⟨z, hz, hw⟩, hp⟩
    exact ⟨z, hz, Zone.exists_mem_split_covers_iff.mp ⟨w, hw, hp⟩⟩
  · rintro ⟨z, hz, hp⟩
    obtain ⟨w, hw, hp⟩ := Zone.exists_mem_split_covers_iff.mpr hp
    exact ⟨w, ⟨z, hz, hw⟩, hp⟩

/-- Telling a region over more contours keeps what it covers. -/
theorem covers_expressedOver (r : Region) (names : List String) :
    (r.expressedOver names).covers p ↔ r.covers p := by
  induction names generalizing r with
  | nil => rfl
  | cons c names ih => exact (ih (r.split c)).trans covers_split

/-- Every zone of the result comes from one zone, and mentions what that zone mentions and the new contours. -/
theorem mentions_of_mem_expressedOver (h : w ∈ r.expressedOver names) :
    ∃ z ∈ r, ∀ d, w.mentions d = true ↔ z.mentions d = true ∨ d ∈ names := by
  induction names generalizing r with
  | nil => exact ⟨w, h, by simp⟩
  | cons c names ih =>
    obtain ⟨y, hy, hw⟩ := ih (r := r.split c) h
    obtain ⟨z, hz, hyz⟩ := mem_split.mp hy
    refine ⟨z, hz, fun d => ?_⟩
    rw [hw, Zone.mentions_of_mem_split hyz, List.mem_cons, or_assoc]

theorem isOver_expressedOver (h : ∀ c ∈ r.contours, c ∈ names) : (r.expressedOver names).IsOver names := by
  intro w hw d
  obtain ⟨z, hz, hwz⟩ := mentions_of_mem_expressedOver hw
  rw [hwz d, or_iff_right_of_imp]
  exact fun hd => h d (mem_contours.mpr ⟨z, hz, hd⟩)

/-! ## Regions over the same contours -/

/-- A zone that has a point in common with a region over the same contours is one of its zones. -/
theorem mem_of_covers (he : e.IsOver names) (hz : z.MentionsExactly names) (hzp : z.covers p)
    (hep : e.covers p) : z ∈ e := by
  obtain ⟨w, hw, hwp⟩ := hep
  rw [Zone.eq_of_covers hz (he w hw) hzp hwp]
  exact hw

theorem isSubsetOf_iff_covers (h₁ : e₁.IsOver names) (h₂ : e₂.IsOver names) :
    e₁.isSubsetOf e₂ = true ↔ ∀ p, e₁.covers p → e₂.covers p := by
  rw [SortedSet.isSubsetOf_iff]
  constructor
  · rintro h p ⟨z, hz, hp⟩
    exact ⟨z, h z hz, hp⟩
  · intro h z hz
    have hp := z.covers_isInside
    exact mem_of_covers h₂ (h₁ z hz) hp (h _ ⟨z, hz, hp⟩)

theorem eq_iff_covers (h₁ : e₁.IsOver names) (h₂ : e₂.IsOver names) :
    e₁ = e₂ ↔ ∀ p, e₁.covers p ↔ e₂.covers p := by
  constructor
  · rintro rfl p
    rfl
  · intro h
    have h₁₂ := (isSubsetOf_iff_covers h₁ h₂).mpr fun p => (h p).mp
    have h₂₁ := (isSubsetOf_iff_covers h₂ h₁).mpr fun p => (h p).mpr
    rw [SortedSet.isSubsetOf_iff] at h₁₂ h₂₁
    exact SortedSet.ext fun z => ⟨h₁₂ z, h₂₁ z⟩

theorem covers_union : covers (e₁.union e₂) p ↔ e₁.covers p ∨ e₂.covers p := by
  simp only [covers, SortedSet.mem_union, or_and_right, exists_or]

theorem covers_inter (h₁ : e₁.IsOver names) (h₂ : e₂.IsOver names) :
    covers (e₁.inter e₂) p ↔ e₁.covers p ∧ e₂.covers p := by
  constructor
  · rintro ⟨z, hz, hp⟩
    rw [SortedSet.mem_inter] at hz
    exact ⟨⟨z, hz.1, hp⟩, ⟨z, hz.2, hp⟩⟩
  · rintro ⟨⟨z, hz, hp⟩, h⟩
    exact ⟨z, SortedSet.mem_inter.mpr ⟨hz, mem_of_covers h₂ (h₁ z hz) hp h⟩, hp⟩

theorem covers_diff (h₁ : e₁.IsOver names) (h₂ : e₂.IsOver names) :
    covers (e₁.diff e₂) p ↔ e₁.covers p ∧ ¬ e₂.covers p := by
  constructor
  · rintro ⟨z, hz, hp⟩
    rw [SortedSet.mem_diff] at hz
    exact ⟨⟨z, hz.1, hp⟩, fun h => hz.2 (mem_of_covers h₂ (h₁ z hz.1) hp h)⟩
  · rintro ⟨⟨z, hz, hp⟩, h⟩
    exact ⟨z, SortedSet.mem_diff.mpr ⟨hz, fun hz' => h ⟨z, hz', hp⟩⟩, hp⟩

/-- Once two regions are told over a common vocabulary, comparing and combining their zones compares and
combines the parts of the plane that they cover. -/
theorem expressedOver_exact (r₁ r₂ : Region) (names : List String)
    (h₁ : ∀ c ∈ r₁.contours, c ∈ names) (h₂ : ∀ c ∈ r₂.contours, c ∈ names) :
    let e₁ := r₁.expressedOver names
    let e₂ := r₂.expressedOver names
    (e₁.isSubsetOf e₂ = true ↔ ∀ p, r₁.covers p → r₂.covers p) ∧
      (e₁ = e₂ ↔ ∀ p, r₁.covers p ↔ r₂.covers p) ∧
      ∀ p, (covers (e₁.union e₂) p ↔ r₁.covers p ∨ r₂.covers p) ∧
        (covers (e₁.inter e₂) p ↔ r₁.covers p ∧ r₂.covers p) ∧
        (covers (e₁.diff e₂) p ↔ r₁.covers p ∧ ¬ r₂.covers p) := by
  intro e₁ e₂
  have ho₁ : e₁.IsOver names := isOver_expressedOver h₁
  have ho₂ : e₂.IsOver names := isOver_expressedOver h₂
  have hc₁ (p : Point) : e₁.covers p ↔ r₁.covers p := covers_expressedOver r₁ names
  have hc₂ (p : Point) : e₂.covers p ↔ r₂.covers p := covers_expressedOver r₂ names
  refine ⟨?_, ?_, fun p => ⟨?_, ?_, ?_⟩⟩
  · simp only [isSubsetOf_iff_covers ho₁ ho₂, hc₁, hc₂]
  · simp only [eq_iff_covers ho₁ ho₂, hc₁, hc₂]
  · rw [covers_union, hc₁, hc₂]
  · rw [covers_inter ho₁ ho₂, hc₁, hc₂]
  · rw [covers_diff ho₁ ho₂, hc₁, hc₂]

/-- The plane and the two sides of a contour share no zone, and yet they are the same region. -/
theorem expressedOver_exact_plane :
    let plane : Region := .ofList [.plane]
    let sides : Region := .ofList [.insideOf ["A"], .outsideOf ["A"]]
    plane.isSubsetOf sides = false ∧ (plane.expressedOver ["A"] = sides.expressedOver ["A"]) ∧
      ∀ p, plane.covers p ↔ sides.covers p := by
  intro plane sides
  have heq : plane.expressedOver ["A"] = sides.expressedOver ["A"] := by decide +kernel
  have hcovers := (expressedOver_exact plane sides ["A"] (by decide +kernel) (by decide +kernel)).2.1.mp heq
  exact ⟨by decide +kernel, heq, hcovers⟩

end Region

end SpiderDiagrams
