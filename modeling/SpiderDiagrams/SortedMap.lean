import SpiderDiagrams.SortedSet

/-!
# Maps with ascending keys

A finite map is the list of its entries in ascending order of their keys, each key once. Inserting
under a key that is there replaces its value, so of several entries with one key the last counts.
-/
namespace SpiderDiagrams

structure SortedMap (κ ν : Type) [Ordered κ] where
  entries : List (κ × ν)
  ascending : entries.Pairwise fun a b => order a.1 b.1 = .lt
  deriving DecidableEq

namespace SortedMap

variable {κ ν : Type} [Ordered κ]

def empty : SortedMap κ ν := ⟨[], .nil⟩

instance : EmptyCollection (SortedMap κ ν) := ⟨empty⟩

def size (m : SortedMap κ ν) : Nat := m.entries.length

def keys (m : SortedMap κ ν) : SortedSet κ := ⟨m.entries.map (·.1), List.pairwise_map.mpr m.ascending⟩

def values (m : SortedMap κ ν) : List ν := m.entries.map (·.2)

def find? [DecidableEq κ] (m : SortedMap κ ν) (k : κ) : Option ν :=
  (m.entries.find? fun e => e.1 = k).map (·.2)

theorem mem_keys {m : SortedMap κ ν} {k : κ} : k ∈ m.keys ↔ ∃ v, (k, v) ∈ m.entries := by
  simp [keys, SortedSet.mem_def]

theorem eq_of_entries {m₁ m₂ : SortedMap κ ν} (h : m₁.entries = m₂.entries) : m₁ = m₂ := by
  cases m₁; cases m₂; congr

def insertInto (k : κ) (v : ν) : List (κ × ν) → List (κ × ν)
  | [] => [(k, v)]
  | e :: es =>
    match order k e.1 with
    | .lt => (k, v) :: e :: es
    | .eq => (k, v) :: es
    | .gt => e :: insertInto k v es

theorem mem_insertInto {k : κ} {v : ν} {l : List (κ × ν)} {e : κ × ν}
    (h : e ∈ insertInto k v l) : e = (k, v) ∨ e ∈ l := by
  fun_induction insertInto k v l with
  | case1 => simpa using h
  | case2 e' es _ => simpa using h
  | case3 e' es _ => grind
  | case4 e' es _ ih => grind

theorem ascending_insertInto (k : κ) (v : ν) {l : List (κ × ν)}
    (h : l.Pairwise fun a b => order a.1 b.1 = .lt) :
    (insertInto k v l).Pairwise fun a b => order a.1 b.1 = .lt := by
  fun_induction insertInto k v l with
  | case1 => simp
  | case2 e es hk =>
    refine List.pairwise_cons.mpr ⟨fun z hz => ?_, h⟩
    rcases List.mem_cons.mp hz with rfl | hz
    · exact hk
    · exact Ordered.order_lt_trans hk ((List.pairwise_cons.mp h).1 z hz)
  | case3 e es hk =>
    rw [List.pairwise_cons] at h
    exact List.pairwise_cons.mpr ⟨fun z hz => Ordered.order_eq_iff.mp hk ▸ h.1 z hz, h.2⟩
  | case4 e es hk ih =>
    rw [List.pairwise_cons] at h
    refine List.pairwise_cons.mpr ⟨fun z hz => ?_, ih h.2⟩
    rcases mem_insertInto hz with rfl | hz
    · exact Ordered.order_gt_iff.mp hk
    · exact h.1 z hz

def insert (m : SortedMap κ ν) (k : κ) (v : ν) : SortedMap κ ν :=
  ⟨insertInto k v m.entries, ascending_insertInto k v m.ascending⟩

/-- Of several entries with one key the last counts. -/
def ofList (l : List (κ × ν)) : SortedMap κ ν := l.foldl (fun m e => m.insert e.1 e.2) ∅

theorem mem_foldl_insert (m : SortedMap κ ν) {l : List (κ × ν)} {e : κ × ν}
    (h : e ∈ (l.foldl (fun m e => m.insert e.1 e.2) m).entries) : e ∈ m.entries ∨ e ∈ l := by
  induction l generalizing m with
  | nil => exact .inl h
  | cons a l ih =>
    rcases ih _ h with h | h
    · rcases mem_insertInto h with rfl | h
      · exact .inr List.mem_cons_self
      · exact .inl h
    · exact .inr (List.mem_cons_of_mem _ h)

theorem mem_of_mem_ofList {l : List (κ × ν)} {e : κ × ν} (h : e ∈ (ofList l).entries) : e ∈ l :=
  (mem_foldl_insert ∅ h).resolve_left List.not_mem_nil

theorem find?_insertInto [DecidableEq κ] (k k' : κ) (v : ν) (l : List (κ × ν)) :
    (insertInto k v l).find? (fun e => e.1 = k') =
      if k = k' then some (k, v) else l.find? fun e => e.1 = k' := by
  fun_induction insertInto k v l with
  | case1 => by_cases hk : k = k' <;> simp [hk]
  | case2 e es _ => by_cases hk : k = k' <;> simp [hk]
  | case3 e es heq =>
    have he : e.1 = k := (Ordered.order_eq_iff.mp heq).symm
    by_cases hk : k = k' <;> simp [he, hk]
  | case4 e es hgt ih =>
    have hne : e.1 ≠ k := Ordered.ne_of_order_lt (Ordered.order_gt_iff.mp hgt)
    rw [List.find?_cons, List.find?_cons, ih]
    by_cases hk : k = k'
    · simp [← hk, hne]
    · simp [hk]

theorem find?_insert [DecidableEq κ] (m : SortedMap κ ν) (k k' : κ) (v : ν) :
    (m.insert k v).find? k' = if k = k' then some v else m.find? k' := by
  rw [find?, insert, find?_insertInto]
  split <;> rfl

theorem find?_foldl_insert [DecidableEq κ] (m : SortedMap κ ν) (l : List (κ × ν)) (k : κ) :
    (l.foldl (fun m e => m.insert e.1 e.2) m).find? k =
      ((l.reverse.find? fun e => e.1 = k).map (·.2)).or (m.find? k) := by
  induction l generalizing m with
  | nil => rfl
  | cons e l ih =>
    rw [List.foldl_cons, ih, find?_insert, List.reverse_cons, List.find?_append]
    by_cases hk : e.1 = k <;> cases l.reverse.find? (fun e => e.1 = k) <;> simp [hk]

theorem find?_ofList [DecidableEq κ] (l : List (κ × ν)) (k : κ) :
    (ofList l).find? k = (l.reverse.find? fun e => e.1 = k).map (·.2) := by
  rw [ofList, find?_foldl_insert]
  exact Option.or_none

theorem mem_keys_iff_find? [DecidableEq κ] {m : SortedMap κ ν} {k : κ} :
    k ∈ m.keys ↔ (m.find? k).isSome = true := by
  rw [mem_keys, find?, Option.isSome_map, List.find?_isSome]
  simp

theorem keys_ofList [DecidableEq κ] (l : List (κ × ν)) :
    (ofList l).keys = .ofList (l.map (·.1)) := by
  ext k
  rw [mem_keys_iff_find?, find?_ofList, Option.isSome_map, List.find?_isSome]
  simp

theorem insertInto_of_greater (k : κ) (v : ν) {l : List (κ × ν)}
    (h : ∀ e ∈ l, order e.1 k = .lt) : insertInto k v l = l ++ [(k, v)] := by
  induction l with
  | nil => rfl
  | cons e l ih =>
    have hgt : order k e.1 = .gt := Ordered.order_gt_iff.mpr (h e List.mem_cons_self)
    rw [insertInto, hgt, ih fun e he => h e (List.mem_cons_of_mem _ he), List.cons_append]

theorem entries_foldl_insert (m : SortedMap κ ν) (l : List (κ × ν))
    (h : (m.entries ++ l).Pairwise fun a b => order a.1 b.1 = .lt) :
    (l.foldl (fun m e => m.insert e.1 e.2) m).entries = m.entries ++ l := by
  induction l generalizing m with
  | nil => rw [List.append_nil, List.foldl_nil]
  | cons e l ih =>
    have hinsert : (m.insert e.1 e.2).entries = m.entries ++ [e] := by
      refine insertInto_of_greater e.1 e.2 fun a ha => ?_
      exact (List.pairwise_append.mp h).2.2 a ha e List.mem_cons_self
    rw [List.foldl_cons, ih, hinsert, List.append_assoc, List.singleton_append]
    rwa [hinsert, List.append_assoc, List.singleton_append]

theorem ofList_entries (m : SortedMap κ ν) : ofList m.entries = m := by
  have h : (ofList m.entries).entries = m.entries := entries_foldl_insert ∅ m.entries m.ascending
  exact eq_of_entries h

theorem perm_insertInto {k : κ} {v : ν} {l : List (κ × ν)} (h : ∀ e ∈ l, e.1 ≠ k) :
    (insertInto k v l).Perm ((k, v) :: l) := by
  fun_induction insertInto k v l with
  | case1 => exact .refl _
  | case2 e es _ => exact .refl _
  | case3 e es heq => exact absurd (Ordered.order_eq_iff.mp heq).symm (h e List.mem_cons_self)
  | case4 e es _ ih =>
    have hes := ih fun e he => h e (List.mem_cons_of_mem _ he)
    exact (hes.cons e).trans (.swap (k, v) e es)

theorem perm_foldl_insert (m : SortedMap κ ν) {l : List (κ × ν)}
    (distinct : (l.map (·.1)).Nodup) (h : ∀ e ∈ m.entries, ∀ e' ∈ l, e.1 ≠ e'.1) :
    (l.foldl (fun m e => m.insert e.1 e.2) m).entries.Perm (l ++ m.entries) := by
  induction l generalizing m with
  | nil => exact .refl _
  | cons e l ih =>
    rw [List.map_cons, List.nodup_cons] at distinct
    have hinsert : (m.insert e.1 e.2).entries.Perm (e :: m.entries) :=
      perm_insertInto fun e' he' => h e' he' e List.mem_cons_self
    have hlater : ∀ e' ∈ (m.insert e.1 e.2).entries, ∀ e'' ∈ l, e'.1 ≠ e''.1 := by
      intro e' he' e'' he''
      rcases List.mem_cons.mp (hinsert.mem_iff.mp he') with rfl | he'
      · exact fun heq => distinct.1 (heq ▸ List.mem_map_of_mem he'')
      · exact h e' he' e'' (List.mem_cons_of_mem _ he'')
    exact (ih _ distinct.2 hlater).trans ((hinsert.append_left l).trans List.perm_middle)

/-- The order of entries with different keys does not matter. -/
theorem ofList_eq_of_perm {l l' : List (κ × ν)} (h : l.Perm l') (distinct : (l.map (·.1)).Nodup) :
    ofList l = ofList l' := by
  have hentries (l : List (κ × ν)) (hl : (l.map (·.1)).Nodup) : (ofList l).entries.Perm l := by
    have hperm := perm_foldl_insert ∅ hl fun e he => absurd he List.not_mem_nil
    exact hperm.trans (.of_eq (List.append_nil l))
  have hperm : (ofList l).entries.Perm (ofList l').entries :=
    (hentries l distinct).trans (h.trans (hentries l' ((h.map _).nodup_iff.mp distinct)).symm)
  refine eq_of_entries (List.Perm.eq_of_pairwise ?_ (ofList l).ascending (ofList l').ascending hperm)
  intro a b _ _ hab hba
  exact absurd (Ordered.order_lt_trans hab hba) (by simp)

end SortedMap

end SpiderDiagrams
