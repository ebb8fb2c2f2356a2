import SpiderDiagrams.Proofs.Walk

/-!
# What a walk asks

A recording rewriter answers as another one does and keeps every question in its state. What it holds
after a walk is what the cursor over the pre-order table asks, question by question. The interval of
indices that comes with a question is filled by the node and all that is below it (`contains_iff_path`).
-/
namespace SpiderDiagrams

variable {σ : Type}

/-- Answers as before, and keeps what was asked and answered. -/
def Rewriter.recording (rewriter : Rewriter σ) : Rewriter (σ × List Inquiry) := fun context node s =>
  let (answer, state) := rewriter context node s.1
  (answer, state, s.2 ++ [⟨context, node, answer⟩])

namespace Diagram

variable {rewriter : Rewriter σ} {tree : Diagram} {stop i : Nat} {s : σ} {log : List Inquiry}

theorem inquire?_recording :
    tree.inquire? rewriter.recording i (s, log) =
      (tree.inquire? rewriter i s).map fun a => (a.1, a.2, log ++ [a.1]) := by
  unfold inquire?
  cases tree.subdiagram? i with
  | none => rfl
  | some node =>
    cases tree.sizes[i]? with
    | none => rfl
    | some size => rfl

/-- The record grows by what is asked, and nothing else changes. -/
theorem scan_recording (log : List Inquiry) :
    tree.scan rewriter.recording stop i (s, log) =
      { tree.scan rewriter stop i s with
        state := ((tree.scan rewriter stop i s).state,
          log ++ (tree.scan rewriter stop i s).inquiries) } := by
  revert log
  fun_induction scan rewriter tree stop i s with
  | case1 i s hi hn =>
    intro log
    have hr : tree.inquire? rewriter.recording i (s, log) = none := by
      simp [inquire?_recording, hn]
    simp [scan_of_none hr]
  | case2 i s hi q s' hq hlast =>
    intro log
    have hr : tree.inquire? rewriter.recording i (s, log) = some (q, s', log ++ [q]) := by
      simp [inquire?_recording, hq]
    rw [scan_of_isLast hi hr hlast]
  | case3 i s hi q s' hq hlast rest ih =>
    intro log
    have hr : tree.inquire? rewriter.recording i (s, log) = some (q, s', log ++ [q]) := by
      simp [inquire?_recording, hq]
    rw [scan_of_not_isLast hi hr (by simpa using hlast), ih]
    simp [rest]
  | case4 i s hi =>
    intro log
    simp [scan_of_le (Nat.le_of_not_lt hi)]

variable (rewriter tree s) in
/-- What a walk asks, in order. -/
def inquiries : List Inquiry := (tree.rewrite rewriter.recording (s, [])).2.2

theorem rewrite_recording :
    tree.rewrite rewriter.recording (s, []) =
      (tree.rebuilt [] (tree.scan rewriter tree.count 0 s).inquiries,
        (tree.scan rewriter tree.count 0 s).state, (tree.scan rewriter tree.count 0 s).inquiries) := by
  rw [rewrite_eq, scan_recording]
  rfl

theorem inquiries_eq : tree.inquiries rewriter s = (tree.scan rewriter tree.count 0 s).inquiries := by
  rw [inquiries, rewrite_recording]

/-- Recording is not noticed, and the recursive walk asks exactly what the flat cursor asks, in the same
order and with the same states. Every node is handed over with its own index, path and size in the tree
that the walk began with, whatever was skipped or replaced before. -/
theorem rewrite_refines_scan (rewriter : Rewriter σ) (tree : Diagram) (s : σ) :
    let walk := tree.rewrite rewriter.recording (s, [])
    let cursor := tree.scan rewriter tree.count 0 s
    (walk.1, walk.2.1) = tree.rewrite rewriter s ∧
      walk.2 = (cursor.state, cursor.inquiries) ∧
      ∀ q ∈ walk.2.2, tree.subdiagram? q.context.index = some q.node ∧
        tree.Stands q.context.index q.context.path q.node ∧
        q.context.depth = q.context.path.length ∧ q.context.size = q.node.count := by
  intro walk cursor
  have hw : walk = (tree.rebuilt [] cursor.inquiries, cursor.state, cursor.inquiries) :=
    rewrite_recording
  refine ⟨?_, by rw [hw], ?_⟩
  · rw [hw, rewrite_eq]
  · rw [hw]
    intro q hq
    obtain ⟨hf, -⟩ := fitsIn_of_mem_scan hq
    exact ⟨hf.stands.subdiagram?, hf.stands, rfl, hf.size⟩

/-- A replacement of another size does not move the indices behind it. -/
theorem rewrite_refines_scan_replaced :
    let tree := binary .conjunction (negation null) (negation null)
    let rewriter : Rewriter Unit := fun context _ s =>
      (.ok (if context.index = 1 then .replace null else .descend), s)
    ∃ q ∈ (tree.rewrite rewriter.recording ((), [])).2.2,
      q.context = ⟨3, [1], 2⟩ ∧ tree.subdiagram? 3 = some q.node := by
  intro tree rewriter
  have hq : ⟨⟨3, [1], 2⟩, negation null, .ok .descend⟩ ∈
      (tree.rewrite rewriter.recording ((), [])).2.2 := List.mem_of_getElem? (i := 2) rfl
  exact ⟨_, hq, rfl, ((rewrite_refines_scan rewriter tree ()).2.2 _ hq).1⟩

/-! ## What a context contains -/

variable {q : Inquiry} {j : Nat}

theorem fitsIn_of_mem_inquiries (h : q ∈ tree.inquiries rewriter s) : q.FitsIn tree := by
  rw [inquiries_eq] at h
  exact (fitsIn_of_mem_scan h).1

/-- The interval of a visit is filled by the node itself and all that stands in it. -/
theorem contains_iff_stands_in_node (h : q.FitsIn tree) :
    q.context.contains j = true ↔ ∃ k t e, j = q.context.index + k ∧ q.node.Stands k t e := by
  rw [Context.contains, Bool.and_eq_true, decide_eq_true_eq, decide_eq_true_eq, h.size]
  constructor
  · intro hj
    obtain ⟨hle, hlt⟩ := hj
    obtain ⟨e, he⟩ := exists_stands (d := q.node) (i := j - q.context.index) (by omega)
    exact ⟨_, _, e, (Nat.add_sub_cancel' hle).symm, he⟩
  · intro hj
    obtain ⟨k, t, e, rfl, he⟩ := hj
    have := he.lt_count
    omega

/-- An index is contained exactly where the path that belongs to it goes on from the path of the visit. -/
theorem contains_iff_path (h : q.FitsIn tree) :
    q.context.contains j = true ↔ ∃ e path, tree.Stands j path e ∧ q.context.path <+: path := by
  constructor
  · intro hj
    obtain ⟨k, t, e, rfl, he⟩ := (contains_iff_stands_in_node h).mp hj
    exact ⟨e, _, h.stands.trans he, List.prefix_append _ _⟩
  · intro hj
    obtain ⟨e, _, he, t, rfl⟩ := hj
    obtain ⟨k, rfl, hk⟩ := h.stands.of_append he
    exact (contains_iff_stands_in_node h).mpr ⟨k, t, e, rfl, hk⟩

/-- Wherever a walk is, the context contains the indices of the visited node and of all that stands below it, and no
others: those of the nodes whose paths go on from the path of the visit. No index behind the last node is contained. -/
theorem visited_contains_iff_below (rewriter : Rewriter σ) (tree : Diagram) (s : σ) :
    ∀ q ∈ tree.inquiries rewriter s, ∀ j,
      (q.context.contains j = true ↔
        ∃ e path, tree.subdiagram? j = some e ∧ tree.Stands j path e ∧ q.context.path <+: path) ∧
      (q.context.contains j = true ↔
        ∃ k t e, j = q.context.index + k ∧ q.node.Stands k t e ∧
          tree.Stands j (q.context.path ++ t) e) ∧
      (tree.count ≤ j → q.context.contains j = false) := by
  intro q hq j
  have hfits : q.FitsIn tree := fitsIn_of_mem_inquiries hq
  refine ⟨?_, ?_, ?_⟩
  · rw [contains_iff_path hfits]
    constructor
    · intro h
      obtain ⟨e, path, he, hpath⟩ := h
      exact ⟨e, path, he.subdiagram?, he, hpath⟩
    · intro h
      obtain ⟨e, path, -, he, hpath⟩ := h
      exact ⟨e, path, he, hpath⟩
  · rw [contains_iff_stands_in_node hfits]
    constructor
    · intro h
      obtain ⟨k, t, e, rfl, he⟩ := h
      exact ⟨k, t, e, rfl, he, hfits.stands.trans he⟩
    · intro h
      obtain ⟨k, t, e, hj, he, -⟩ := h
      exact ⟨k, t, e, hj, he⟩
  · intro hj
    rw [← Bool.not_eq_true, contains_iff_path hfits]
    rintro ⟨e, path, he, -⟩
    exact absurd he.lt_count (Nat.not_lt_of_le hj)

/-- Behind a replaced operand, the other one is told from what comes before and after it. -/
theorem visited_contains_iff_below_replaced :
    let tree := binary .conjunction (negation null) (binary .implication (negation null) null)
    let rewriter : Rewriter Unit := fun context _ s =>
      (.ok (if context.index = 1 then .replace null else .descend), s)
    ∃ q ∈ tree.inquiries rewriter (), q.context = ⟨4, [1, 0], 2⟩ ∧ q.context.contains 5 = true ∧
      q.context.contains 3 = false ∧ q.context.contains 6 = false ∧ q.context.contains 7 = false := by
  intro tree rewriter
  have hq : ⟨⟨4, [1, 0], 2⟩, negation null, .ok .descend⟩ ∈ tree.inquiries rewriter () :=
    List.mem_of_getElem? (i := 3) rfl
  have h := visited_contains_iff_below rewriter tree () _ hq
  have hnot (j : Nat) (e : Diagram) (path : List Nat) (he : tree.Stands j path e)
      (hpath : ¬ [1, 0] <+: path) : Context.contains ⟨4, [1, 0], 2⟩ j = false := by
    rw [← Bool.not_eq_true, (h j).1]
    rintro ⟨e', path', -, he', hprefix⟩
    exact hpath (he.pathOf ▸ he'.pathOf ▸ hprefix)
  refine ⟨_, hq, rfl, ?_, ?_, ?_, ?_⟩
  · exact (h 5).1.mpr ⟨null, [1, 0, 0], rfl, stands_iff.mpr ⟨rfl, rfl⟩, by decide⟩
  · exact hnot 3 _ [1] (stands_iff.mpr ⟨rfl, rfl⟩) (by decide)
  · exact hnot 6 _ [1, 1] (stands_iff.mpr ⟨rfl, rfl⟩) (by decide)
  · exact (h 7).2.2 (by decide)

end Diagram

end SpiderDiagrams
