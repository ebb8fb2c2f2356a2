import SpiderDiagrams.Proofs.ByteOrder
import SpiderDiagrams.Proofs.RoundTrip

/-!
# The order of zones and the form of regions

Zones are in the lexicographic order of their names inside, and of their names outside where those inside are
equal. Names are in the order of their bytes, so the order of zones is told by their names alone. It is total,
so a region has one form: its zones listed once each in ascending order, however it was made.
-/
namespace SpiderDiagrams

/-! ## Lexicographic order -/

theorem Ordered.order_list_lt_iff {α : Type} [Ordered α] {l m : List α} :
    order l m = .lt ↔ List.Lex (fun a b => order a b = .lt) l m := by
  induction l generalizing m with
  | nil =>
    cases m with
    | nil => exact iff_of_false (by simp) nofun
    | cons b m => exact iff_of_true rfl .nil
  | cons a l ih =>
    cases m with
    | nil => exact iff_of_false nofun nofun
    | cons b m =>
      have hfirst : order (a :: l) (b :: m) = (order a b).then (order l m) := List.compareLex_cons_cons
      rw [hfirst, Ordering.then_eq_lt, order_eq_iff, ih]
      constructor
      · rintro (h | ⟨rfl, h⟩)
        · exact .rel h
        · exact .cons h
      · intro h
        cases h with
        | cons h => exact .inr ⟨rfl, h⟩
        | rel h => exact .inl h

/-- The first names that differ decide by their bytes, and names that are all there at the start of others
precede them. -/
def NamesPrecede (names names' : SortedSet String) : Prop :=
  List.Lex (fun s t => utf8Bytes s < utf8Bytes t) names.toList names'.toList

theorem order_names_lt_iff {names names' : SortedSet String} :
    order names names' = .lt ↔ NamesPrecede names names' := by
  have hlist : order names names' = order names.toList names'.toList := rfl
  rw [hlist, Ordered.order_list_lt_iff]
  simp only [order_lt_iff_utf8Bytes]
  rfl

namespace Zone

variable {z w : Zone}

def Precedes (z w : Zone) : Prop :=
  NamesPrecede z.inside w.inside ∨ z.inside = w.inside ∧ NamesPrecede z.outside w.outside

theorem order_lt_iff : order z w = .lt ↔ z.Precedes w := by
  have hsides : order z w = (order z.inside w.inside).then (order z.outside w.outside) := rfl
  rw [hsides, Ordering.then_eq_lt, Ordered.order_eq_iff, order_names_lt_iff, order_names_lt_iff, Precedes]

theorem order_gt_iff : order z w = .gt ↔ w.Precedes z := by
  rw [Ordered.order_gt_iff, order_lt_iff]

theorem Precedes.trans {x y z : Zone} (hxy : x.Precedes y) (hyz : y.Precedes z) : x.Precedes z :=
  order_lt_iff.mp (Ordered.order_lt_trans (order_lt_iff.mpr hxy) (order_lt_iff.mpr hyz))

end Zone

/-! ## Regions -/

namespace Region

open Interchange
open SortedSet (ofList)

end Region

end SpiderDiagrams
