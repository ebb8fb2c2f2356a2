import SpiderDiagrams.DiagramError
import SpiderDiagrams.SortedSet

/-!
# Zones

A zone is a part of the plane: it lies inside some contours and outside others, and no contour is
mentioned on both sides. Contours that it does not mention leave it open.
-/
namespace SpiderDiagrams

structure Zone where
  inside : SortedSet String
  outside : SortedSet String
  disjoint : ∀ c ∈ inside, c ∉ outside
  deriving DecidableEq

namespace Zone

theorem eq_of_sides {z w : Zone} (h : (z.inside, z.outside) = (w.inside, w.outside)) : z = w := by
  cases z; cases w; simp_all

@[ext]
theorem ext {z w : Zone} (inside : ∀ c, c ∈ z.inside ↔ c ∈ w.inside)
    (outside : ∀ c, c ∈ z.outside ↔ c ∈ w.outside) : z = w :=
  eq_of_sides (Prod.ext (SortedSet.ext inside) (SortedSet.ext outside))

/-- Zones compare by the contours they are inside, then by those they are outside. -/
instance : Ordered Zone := Ordered.onKey (fun z => (z.inside, z.outside)) fun _ _ => eq_of_sides

/-- The zone that mentions no contour covers the whole plane. -/
def plane : Zone := ⟨∅, ∅, by simp⟩

/-- Fails with the first contour that both sides mention. -/
def ofSides (inside outside : SortedSet String) : Except DiagramError Zone :=
  match h : inside.toList.find? (· ∈ outside) with
  | some c => .error (.overlappingContours c)
  | none => .ok ⟨inside, outside, by simpa using h⟩

/-- Order and repetitions in the lists do not matter. -/
def ofLists (inside outside : List String) : Except DiagramError Zone :=
  ofSides (.ofList inside) (.ofList outside)

def insideOf (contours : List String) : Zone := ⟨.ofList contours, ∅, by simp⟩

def outsideOf (contours : List String) : Zone := ⟨∅, .ofList contours, by simp⟩

def contours (z : Zone) : SortedSet String := z.inside.union z.outside

def isInside (z : Zone) (c : String) : Bool := c ∈ z.inside

def isOutside (z : Zone) (c : String) : Bool := c ∈ z.outside

def mentions (z : Zone) (c : String) : Bool := z.isInside c || z.isOutside c

theorem mentions_iff {z : Zone} {c : String} : z.mentions c = true ↔ c ∈ z.inside ∨ c ∈ z.outside := by
  simp [mentions, isInside, isOutside]

/-- The part of the zone inside a contour; a contour that is mentioned changes nothing. -/
def withInside (z : Zone) (c : String) : Zone :=
  if h : z.mentions c then z
  else
    { z with
      inside := z.inside.insert c
      disjoint := by
        intro d hd
        rcases SortedSet.mem_insert.mp hd with rfl | hd
        · exact fun ho => h (mentions_iff.mpr (.inr ho))
        · exact z.disjoint d hd }

/-- The part of the zone outside a contour; a contour that is mentioned changes nothing. -/
def withOutside (z : Zone) (c : String) : Zone :=
  if h : z.mentions c then z
  else
    { z with
      outside := z.outside.insert c
      disjoint := by
        intro d hd ho
        rcases SortedSet.mem_insert.mp ho with rfl | ho
        · exact h (mentions_iff.mpr (.inl hd))
        · exact z.disjoint d hd ho }

def split (z : Zone) (c : String) : List Zone :=
  if z.mentions c then [z] else [z.withInside c, z.withOutside c]

def namesText (names : SortedSet String) : String := "[" ++ ", ".intercalate names.toList ++ "]"

def text (z : Zone) : String := s!"({namesText z.inside}, {namesText z.outside})"

end Zone

end SpiderDiagrams
