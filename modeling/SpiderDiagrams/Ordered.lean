/-!
# Ordered types

Sets of names, zones and keys are kept in one fixed order, so that equal sets are written alike. An
ordered type carries a comparison that is total, transitive and answers `eq` on equal values only.
Strings compare by code point, lists lexicographically with a proper initial part first.
-/
namespace SpiderDiagrams

class Ordered (α : Type) where
  order : α → α → Ordering
  trans : Std.TransCmp order
  lawful : Std.LawfulEqCmp order

export Ordered (order)

attribute [instance] Ordered.trans Ordered.lawful

namespace Ordered

variable {α β : Type}

instance : Ordered String := ⟨String.compare, String.instTransOrd, String.instLawfulEqOrd⟩

instance [Ordered α] : Ordered (List α) := ⟨List.compareLex order, inferInstance, inferInstance⟩

/-- Values are compared through a key that tells them apart. -/
abbrev onKey [Ordered β] (key : α → β) (injective : ∀ a b, key a = key b → a = b) : Ordered α where
  order a b := order (key a) (key b)
  trans :=
    { eq_swap := Std.OrientedCmp.eq_swap
      isLE_trans := Std.TransCmp.isLE_trans }
  lawful :=
    { compare_self := Std.ReflCmp.compare_self
      eq_of_compare := fun h => injective _ _ (Std.LawfulEqCmp.eq_of_compare h) }

/-- The first components decide unless they are equal. -/
instance [Ordered α] [Ordered β] : Ordered (α × β) where
  order := compareLex (fun a b => order a.1 b.1) (fun a b => order a.2 b.2)
  trans :=
    have : Std.TransCmp fun a b : α × β => order a.1 b.1 :=
      { eq_swap := Std.OrientedCmp.eq_swap
        isLE_trans := Std.TransCmp.isLE_trans }
    have : Std.TransCmp fun a b : α × β => order a.2 b.2 :=
      { eq_swap := Std.OrientedCmp.eq_swap
        isLE_trans := Std.TransCmp.isLE_trans }
    inferInstance
  lawful :=
    { compare_self := by simp [compareLex, Std.ReflCmp.compare_self]
      eq_of_compare := fun {a b} h => by
        obtain ⟨h₁, h₂⟩ := Ordering.then_eq_eq.mp h
        exact Prod.ext (Std.LawfulEqCmp.eq_of_compare h₁) (Std.LawfulEqCmp.eq_of_compare h₂) }

variable [Ordered α] {a b c : α}

@[simp]
theorem order_self : order a a = .eq := Std.ReflCmp.compare_self

theorem order_eq_iff : order a b = .eq ↔ a = b :=
  ⟨Std.LawfulEqCmp.eq_of_compare, fun h => h ▸ order_self⟩

theorem order_gt_iff : order a b = .gt ↔ order b a = .lt := Std.OrientedCmp.gt_iff_lt

theorem order_lt_trans : order a b = .lt → order b c = .lt → order a c = .lt :=
  Std.TransCmp.lt_trans

theorem ne_of_order_lt (h : order a b = .lt) : a ≠ b := by
  rintro rfl
  simp at h

end Ordered

end SpiderDiagrams
