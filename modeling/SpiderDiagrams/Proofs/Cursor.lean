import SpiderDiagrams.Proofs.Addresses
import SpiderDiagrams.Rewrite

/-!
# A cursor over the pre-order table

The cursor asks a rewriter about one index after another, without any recursion on the tree. It goes on
by one where the rewriter descends, and behind the whole sub-diagram where it skips or replaces; a halt
or an error stops it. Its inquiries are told in order by `pairwise_scan`.
-/
namespace SpiderDiagrams

/-- A question that a rewriter was asked, with its answer. -/
structure Inquiry where
  context : Context
  node : Diagram
  answer : Except DiagramError Visit

namespace Inquiry

def replacement? (q : Inquiry) : Option Diagram :=
  match q.answer with
  | .ok (.replace r) => some r
  | _ => none

def error? (q : Inquiry) : Option DiagramError :=
  match q.answer with
  | .error e => some e
  | _ => none

/-- After an error or a halt nothing more is asked. -/
def isLast (q : Inquiry) : Bool :=
  match q.answer with
  | .error _ | .ok .halt => true
  | _ => false

/-- How many indices the cursor goes on. -/
def stride (q : Inquiry) : Nat :=
  match q.answer with
  | .ok .skip | .ok (.replace _) => q.context.size
  | _ => 1

/-- The answer neither fails nor replaces anything. -/
structure Keeps (q : Inquiry) : Prop where
  error : q.error? = none
  replacement : q.replacement? = none

variable {q : Inquiry} {r : Diagram} {e : DiagramError}

theorem replacement?_eq_some_iff : q.replacement? = some r ↔ q.answer = .ok (.replace r) := by
  unfold replacement?
  split <;> simp_all

theorem error?_eq_some_iff : q.error? = some e ↔ q.answer = .error e := by
  unfold error?
  split <;> simp_all

theorem isLast_of_error (h : q.answer = .error e) : q.isLast = true := by
  simp [isLast, h]

theorem isLast_of_halt (h : q.answer = .ok .halt) : q.isLast = true := by
  simp [isLast, h]

theorem stride_of_replace (h : q.answer = .ok (.replace r)) : q.stride = q.context.size := by
  simp [stride, h]

/-- The node has the address and the size that the context tells. -/
structure FitsIn (tree : Diagram) (q : Inquiry) : Prop where
  stands : tree.Stands q.context.index q.context.path q.node
  size : q.context.size = q.node.count

end Inquiry

/-- Where a cursor ends: what it asked, the next index, whether it was stopped, and the state. -/
structure Scan (σ : Type) where
  inquiries : List Inquiry
  next : Nat
  stopped : Bool
  state : σ

/-- Goes on from where the scan ends unless it was stopped. -/
def Scan.andThen {σ : Type} (a : Scan σ) (go : Nat → σ → Scan σ) : Scan σ :=
  if a.stopped then a
  else
    let rest := go a.next a.state
    { rest with inquiries := a.inquiries ++ rest.inquiries }

namespace Diagram

variable {σ : Type} (rewriter : Rewriter σ) (tree : Diagram)

def inquire? (i : Nat) (s : σ) : Option (Inquiry × σ) :=
  match tree.subdiagram? i, tree.sizes[i]? with
  | some node, some size =>
    let context : Context := ⟨i, tree.pathOf i, size⟩
    let (answer, s) := rewriter context node s
    some (⟨context, node, answer⟩, s)
  | _, _ => none

variable {rewriter tree} {stop m i : Nat} {s s' : σ} {q : Inquiry} {p : List Nat} {d : Diagram}

theorem inquire?_of_stands (rewriter : Rewriter σ) (s : σ) (h : tree.Stands i p d) :
    tree.inquire? rewriter i s =
      some (⟨⟨i, p, d.count⟩, d, (rewriter ⟨i, p, d.count⟩ d s).1⟩,
        (rewriter ⟨i, p, d.count⟩ d s).2) := by
  simp [inquire?, h.subdiagram?, h.pathOf, h.sizes_getElem?]

theorem fitsIn_of_inquire? (h : tree.inquire? rewriter i s = some (q, s')) :
    q.FitsIn tree ∧ q.context.index = i ∧ q.answer = (rewriter q.context q.node s).1 := by
  cases hd : tree.subdiagram? i with
  | none => simp [inquire?, hd] at h
  | some d =>
    obtain ⟨p, hp⟩ := exists_stands_of_subdiagram? hd
    rw [inquire?_of_stands rewriter s hp] at h
    cases h
    exact ⟨⟨hp, rfl⟩, rfl, rfl⟩

theorem stride_pos (h : q.FitsIn tree) : 0 < q.stride := by
  unfold Inquiry.stride
  split
  · rw [h.size]
    exact count_pos _
  · rw [h.size]
    exact count_pos _
  · exact Nat.one_pos

variable (rewriter tree) in
/-- The loop from an index up to a bound. -/
def scan (stop i : Nat) (s : σ) : Scan σ :=
  if i < stop then
    match _h : tree.inquire? rewriter i s with
    | none => ⟨[], i, false, s⟩
    | some (q, s) =>
      if q.isLast then ⟨[q], i, true, s⟩
      else
        let rest := scan stop (i + q.stride) s
        { rest with inquiries := q :: rest.inquiries }
  else ⟨[], i, false, s⟩
termination_by stop - i
decreasing_by
  have := stride_pos (fitsIn_of_inquire? _h).1
  omega

theorem scan_of_le (h : stop ≤ i) : tree.scan rewriter stop i s = ⟨[], i, false, s⟩ := by
  rw [scan, if_neg (Nat.not_lt_of_le h)]

theorem scan_of_none (h : tree.inquire? rewriter i s = none) :
    tree.scan rewriter stop i s = ⟨[], i, false, s⟩ := by
  rw [scan]
  split
  · split
    · rfl
    · simp_all
  · rfl

theorem scan_of_isLast (hi : i < stop) (h : tree.inquire? rewriter i s = some (q, s'))
    (hq : q.isLast = true) : tree.scan rewriter stop i s = ⟨[q], i, true, s'⟩ := by
  rw [scan, if_pos hi]
  split
  · simp_all
  · simp_all

theorem scan_of_not_isLast (hi : i < stop) (h : tree.inquire? rewriter i s = some (q, s'))
    (hq : q.isLast = false) :
    tree.scan rewriter stop i s =
      { tree.scan rewriter stop (i + q.stride) s' with
        inquiries := q :: (tree.scan rewriter stop (i + q.stride) s').inquiries } := by
  rw [scan, if_pos hi]
  split
  · simp_all
  · simp_all

theorem scan_andThen (h : m ≤ stop) :
    (tree.scan rewriter m i s).andThen (tree.scan rewriter stop) = tree.scan rewriter stop i s := by
  fun_induction scan rewriter tree m i s with
  | case1 i s hi hn => simp [Scan.andThen]
  | case2 i s hi q s' hq hlast =>
    rw [scan_of_isLast (Nat.lt_of_lt_of_le hi h) hq hlast]
    rfl
  | case3 i s hi q s' hq hlast rest ih =>
    rw [scan_of_not_isLast (Nat.lt_of_lt_of_le hi h) hq (by simpa using hlast), ← ih]
    unfold Scan.andThen
    split
    · rfl
    · rfl
  | case4 i s hi => simp [Scan.andThen]

/-- What a scan holds was asked at its own index, which is in the range of the loop. -/
theorem exists_inquire?_of_mem_scan (h : q ∈ (tree.scan rewriter stop i s).inquiries) :
    ∃ s₁ s₂, tree.inquire? rewriter q.context.index s₁ = some (q, s₂) ∧
      i ≤ q.context.index ∧ q.context.index < stop := by
  fun_induction scan rewriter tree stop i s with
  | case1 i s hi hn => simp at h
  | case2 i s hi q' s' hq hlast =>
    cases List.mem_singleton.mp h
    obtain ⟨-, rfl, -⟩ := fitsIn_of_inquire? hq
    exact ⟨s, s', hq, Nat.le_refl _, hi⟩
  | case3 i s hi q' s' hq hlast rest ih =>
    obtain ⟨-, rfl, -⟩ := fitsIn_of_inquire? hq
    rcases List.mem_cons.mp h with rfl | h
    · exact ⟨s, s', hq, Nat.le_refl _, hi⟩
    · obtain ⟨s₁, s₂, hq', hle, hlt⟩ := ih h
      exact ⟨s₁, s₂, hq', by omega, hlt⟩
  | case4 i s hi => simp at h

theorem fitsIn_of_mem_scan (h : q ∈ (tree.scan rewriter stop i s).inquiries) :
    q.FitsIn tree ∧ i ≤ q.context.index ∧ q.context.index < stop := by
  obtain ⟨s₁, s₂, hq, hrange⟩ := exists_inquire?_of_mem_scan h
  exact ⟨(fitsIn_of_inquire? hq).1, hrange⟩

/-- Only the last inquiry may be an error or a halt, and each is behind all that those before it cover. -/
theorem pairwise_scan :
    (tree.scan rewriter stop i s).inquiries.Pairwise fun a b =>
      a.isLast = false ∧ a.context.index + a.stride ≤ b.context.index := by
  fun_induction scan rewriter tree stop i s with
  | case1 i s hi hn => exact .nil
  | case2 i s hi q' s' hq hlast => exact List.pairwise_singleton _ _
  | case3 i s hi q' s' hq hlast rest ih =>
    refine List.pairwise_cons.mpr ⟨?_, ih⟩
    intro b hb
    obtain ⟨-, rfl, -⟩ := fitsIn_of_inquire? hq
    exact ⟨by simpa using hlast, (fitsIn_of_mem_scan hb).2.1⟩
  | case4 i s hi => exact .nil

end Diagram

end SpiderDiagrams
