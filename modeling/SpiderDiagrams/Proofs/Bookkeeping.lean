import SpiderDiagrams.Proofs.Numbering
import SpiderDiagrams.Proofs.Recording

/-!
# The bookkeeping of a walk

A walk finds the size of a sub-diagram at the index that it has come to. That index is in the table, and the
entry belongs to the very sub-diagram that is visited, as long as the walk is not halted: a visit that neither
fails nor ends the walk moves the index by the size of its sub-diagram, and every visit leaves the path as it
found it. Both are carried through the loop over the operands of a compound, which stands in front of one
operand after the other (`InFrontOf`).
-/
namespace SpiderDiagrams.Walk

open Diagram

variable {σ : Type} {rewriter : Rewriter σ} {tree d e : Diagram} {s : σ} {sizes : Array Nat} {i k : Nat}
  {p : List Nat} {ds rebuilt : List Diagram} {w w₁ w₂ : Walk σ} {op : Operator}

/-! ## The loop over the operands -/

/-- Visits diagrams as the operands from a position on, and puts what they become in their places. The first
error ends the loop. -/
def visitOperands (rewriter : Rewriter σ) (sizes : Array Nat) (position : Nat) :
    List Diagram → List Diagram → Walk σ → Except DiagramError (List Diagram) × Walk σ
  | [], rebuilt, w => (.ok rebuilt, w)
  | d :: ds, rebuilt, w =>
    match visit rewriter sizes d (w.enter position) with
    | (.error e, w) => (.error e, w.leave)
    | (.ok d, w) => visitOperands rewriter sizes (position + 1) ds (rebuilt.set position d) w.leave

/-- Below a compound the walk goes through its operands and makes a compound of what they have become. -/
theorem visit_of_descend (hop : d.operator? = some op) (running : w.halted = false)
    (descended : w.ask rewriter sizes d = (.ok .descend, w₁)) :
    visit rewriter sizes d w =
      match visitOperands rewriter sizes 0 d.operands d.operands (w₁.advance 1) with
      | (.error e, w₂) => (.error e, w₂)
      | (.ok rebuilt, w₂) => (compound op rebuilt, w₂) := by
  cases d with
  | null => cases hop
  | primary => cases hop
  | negation d =>
    cases hop
    rw [visit]
    simp only [running, Bool.false_eq_true, if_false, descended, operands, visitOperands]
    rcases visit rewriter sizes d ((w₁.advance 1).enter 0) with ⟨_ | d', w₂⟩ <;> rfl
  | binary c l r =>
    cases hop
    rw [visit]
    simp only [running, Bool.false_eq_true, if_false, descended, operands, visitOperands]
    rcases visit rewriter sizes l ((w₁.advance 1).enter 0) with ⟨_ | l', w₂⟩
    · rfl
    · simp only [Nat.zero_add]
      rcases visit rewriter sizes r (w₂.leave.enter 1) with ⟨_ | r', w₃⟩ <;> rfl

/-- What is put in place of an operand takes its place only. -/
theorem length_of_visitOperands {out : List Diagram}
    (h : visitOperands rewriter sizes k ds rebuilt w = (.ok out, w₂)) : out.length = rebuilt.length := by
  induction ds generalizing k rebuilt w with
  | nil =>
    cases h
    rfl
  | cons d ds ih =>
    rw [visitOperands] at h
    split at h
    · cases h
    · rw [ih h, List.length_set]

/-- A compound is made of as many operands as its operator takes. -/
theorem exists_compound_of_length (hop : d.operator? = some op) (h : rebuilt.length = d.operands.length) :
    ∃ d', compound op rebuilt = .ok d' := by
  rw [length_operands hop] at h
  match op, rebuilt, h with
  | .negation, [a], _ => exact ⟨_, rfl⟩
  | .binary c, [a, b], _ => exact ⟨_, rfl⟩

/-! ## Places -/

/-- Unless the walk is halted, it has come to the place of this sub-diagram. -/
def IsAt (tree d : Diagram) (w : Walk σ) : Prop := w.halted = false → tree.Stands w.next w.path d

/-- The place of a visit is left only forwards, and only by the size of what is visited. -/
theorem IsAt.visit (h : IsAt tree d w) (rewriter : Rewriter σ) :
    let out := visit rewriter tree.sizes.toArray d w
    out.2.path = w.path ∧
      ∀ d', out.1 = .ok d' → out.2.halted = false → w.halted = false ∧ out.2.next = w.next + d.count := by
  intro out
  obtain ⟨i, p, halted, s⟩ := w
  cases halted with
  | true =>
    have hout : out = (.ok d, ⟨i, p, true, s⟩) := visit_of_halted rfl
    rw [hout]
    exact ⟨rfl, fun _ _ hrunning => nomatch hrunning⟩
  | false =>
    have hends := visit_endsAs rewriter s (h rfl)
    refine ⟨hends.path, fun d' hok hrunning => ⟨rfl, ?_⟩⟩
    cases hstopped : (tree.scan rewriter (i + d.count) i s).stopped with
    | false =>
      obtain ⟨⟨e, he⟩, -⟩ := hends.running hstopped
      exact congrArg (fun out => out.2.next) he
    | true =>
      rcases hends.stopped hstopped with ⟨e, herror⟩ | hhalted
      · cases hok.symm.trans herror
      · cases hrunning.symm.trans hhalted

/-- The loop over the operands of the compound at this place has come to the operand with this position. -/
structure InFrontOf (d : Diagram) (i : Nat) (p : List Nat) (k : Nat) (w : Walk σ) : Prop where
  path : w.path = p
  next : w.halted = false → w.next = i + d.operandOffset k

theorem operandOffset_succ (h : d.operands[k]? = some e) :
    d.operandOffset (k + 1) = d.operandOffset k + e.count := by
  rw [operandOffset_eq_sum, operandOffset_eq_sum, List.take_add_one, h, List.map_append, List.sum_append,
    Nat.add_assoc]
  simp

namespace InFrontOf

theorem first (descended : w.ask rewriter sizes d = (.ok .descend, w₁)) :
    InFrontOf d w.next w.path 0 (w₁.advance 1) := by
  have hw : w₁ = { w with state := w₁.state } := by
    have hsnd : (w.ask rewriter sizes d).2 = w₁ := congrArg Prod.snd descended
    rw [← hsnd]
    rfl
  rw [hw]
  exact ⟨rfl, fun _ => rfl⟩

theorem isAt (h : InFrontOf d i p k w) (hd : tree.Stands i p d) (he : d.operands[k]? = some e) :
    IsAt tree e (w.enter k) := by
  intro running
  have hs := hd.trans (.operand k he (.root e))
  rwa [Nat.add_zero, ← h.path, ← h.next running] at hs

/-- A visit leads back to the compound, and to its next operand unless the visit fails. -/
theorem visit (h : InFrontOf d i p k w) (hd : tree.Stands i p d) (he : d.operands[k]? = some e)
    (rewriter : Rewriter σ) :
    let out := Walk.visit rewriter tree.sizes.toArray e (w.enter k)
    out.2.leave.path = p ∧ ∀ e', out.1 = .ok e' → InFrontOf d i p (k + 1) out.2.leave := by
  intro out
  obtain ⟨hpath, hnext⟩ := (h.isAt hd he).visit rewriter
  have hleave : out.2.leave.path = p := by
    rw [leave, hpath, enter, List.dropLast_concat, h.path]
  refine ⟨hleave, fun e' hok => ⟨hleave, fun running => ?_⟩⟩
  obtain ⟨hrunning, hout⟩ := hnext e' hok running
  rw [operandOffset_succ he, ← Nat.add_assoc, ← h.next hrunning]
  exact hout

/-- The loop goes through some operands, or ends at the first of them that fails. -/
theorem visitOperands (h : InFrontOf d i p k w) (hd : tree.Stands i p d)
    (hds : ∀ j e, ds[j]? = some e → d.operands[k + j]? = some e) (rewriter : Rewriter σ)
    (rebuilt : List Diagram) :
    let out := Walk.visitOperands rewriter tree.sizes.toArray k ds rebuilt w
    out.2.path = p ∧ ∀ es, out.1 = .ok es → InFrontOf d i p (k + ds.length) out.2 := by
  induction ds generalizing k rebuilt w with
  | nil => exact ⟨h.path, fun _ _ => h⟩
  | cons e ds ih =>
    obtain ⟨hpath, hnext⟩ := h.visit hd (hds 0 e rfl) rewriter
    rw [Walk.visitOperands]
    split
    · rename_i heq
      rw [heq] at hpath
      exact ⟨hpath, fun _ hok => nomatch hok⟩
    · rename_i e' w' heq
      rw [heq] at hnext
      have hlater : ∀ j e, ds[j]? = some e → d.operands[k + 1 + j]? = some e := by
        intro j e hj
        rw [Nat.add_right_comm]
        exact hds (j + 1) e hj
      rw [List.length_cons, ← Nat.add_assoc, Nat.add_right_comm]
      exact ih (hnext e' rfl) hlater _

end InFrontOf

/-! ## The visits of a walk -/

/-- A visit that a walk through the tree makes, with the walk as the visit finds it. The whole tree is visited
first. An operand is visited when the loop comes to it, after those before it and if none of them failed. -/
inductive Visits (rewriter : Rewriter σ) (tree : Diagram) (s : σ) : Diagram → Walk σ → Prop
  | root : Visits rewriter tree s tree (.start s)
  | operand {d e : Diagram} {before after rebuilt : List Diagram} {w w₁ w₂ : Walk σ}
      (visited : Visits rewriter tree s d w) (running : w.halted = false)
      (descended : w.ask rewriter tree.sizes.toArray d = (.ok .descend, w₁))
      (split : d.operands = before ++ e :: after)
      (passed : visitOperands rewriter tree.sizes.toArray 0 before d.operands (w₁.advance 1) =
        (.ok rebuilt, w₂)) :
      Visits rewriter tree s e (w₂.enter before.length)

theorem Visits.isAt (h : Visits rewriter tree s d w) : IsAt tree d w := by
  induction h with
  | root => exact fun _ => .root tree
  | @operand d e before after rebuilt w w₁ w₂ _ running descended split passed ih =>
    have hbefore : ∀ j x, before[j]? = some x → d.operands[0 + j]? = some x := by
      intro j x hj
      obtain ⟨hlt, -⟩ := List.getElem?_eq_some_iff.mp hj
      rw [Nat.zero_add, split, List.getElem?_append_left hlt, hj]
    have he : d.operands[before.length]? = some e := by simp [split]
    obtain ⟨-, hfront⟩ := (InFrontOf.first descended).visitOperands (ih running) hbefore rewriter d.operands
    rw [passed, Nat.zero_add] at hfront
    exact (hfront rebuilt rfl).isAt (ih running) he

/-- Whatever the rewriter answers, the walk never looks behind the end of the table of sizes. When the
rewriter is asked about a sub-diagram, the entry at the index of the walk is the size of that sub-diagram. A
visit that neither fails nor leaves the walk halted moves the index by the size of what is visited, every
visit leaves the path as it was, and the operands that a compound is made of again are as many as they were
before. -/
theorem visits_keep_books (rewriter : Rewriter σ) (tree : Diagram) (s : σ) :
    (∀ q ∈ tree.inquiries rewriter s, q.context.index < tree.sizes.length ∧
      tree.sizes[q.context.index]? = some q.node.count ∧ q.context.size = q.node.count) ∧
    ∀ d w, Visits rewriter tree s d w →
      let out := visit rewriter tree.sizes.toArray d w
      (w.halted = false → w.next < tree.sizes.length ∧ tree.sizes[w.next]? = some d.count ∧
        w.context tree.sizes.toArray = ⟨w.next, w.path, d.count⟩) ∧
      (∀ d', out.1 = .ok d' → out.2.halted = false → out.2.next = w.next + d.count) ∧
      out.2.path = w.path ∧
      ∀ op w₁, d.operator? = some op → w.halted = false →
        w.ask rewriter tree.sizes.toArray d = (.ok .descend, w₁) →
        ∀ rebuilt w₂,
          visitOperands rewriter tree.sizes.toArray 0 d.operands d.operands (w₁.advance 1) = (.ok rebuilt, w₂) →
          rebuilt.length = d.operands.length ∧ ∃ d', compound op rebuilt = .ok d' ∧ out = (.ok d', w₂) := by
  constructor
  · intro q hq
    obtain ⟨hstands, hsize⟩ := fitsIn_of_mem_inquiries hq
    exact ⟨by rw [length_sizes]; exact hstands.lt_count, hstands.sizes_getElem?, hsize⟩
  · intro d w hvisit out
    obtain ⟨hpath, hnext⟩ := hvisit.isAt.visit rewriter
    refine ⟨fun running => ?_, fun d' hok hrunning => (hnext d' hok hrunning).2, hpath, ?_⟩
    · have hstands := hvisit.isAt running
      refine ⟨by rw [length_sizes]; exact hstands.lt_count, hstands.sizes_getElem?, ?_⟩
      simp [context, Array.getD_eq_getD_getElem?, hstands.sizes_getElem?]
    · intro op w₁ hop running descended rebuilt w₂ hloop
      have hlength := length_of_visitOperands hloop
      obtain ⟨d', hd'⟩ := exists_compound_of_length hop hlength
      have hout := visit_of_descend hop running descended
      rw [hloop] at hout
      exact ⟨hlength, d', hd', hd' ▸ hout⟩

/-- The rewriter passes the left operand over, leaves the right one and counts its questions. When it is asked
about the operand of the right operand, the walk has come to the last entry. -/
theorem visits_keep_books_skipped :
    let tree := binary .conjunction (negation null) (negation null)
    let rewriter : Rewriter Nat := fun context _ s =>
      (.ok (if context.index = 1 then .skip else .descend), s + 1)
    let w : Walk Nat := ⟨4, [1, 0], false, 3⟩
    let out := visit rewriter tree.sizes.toArray null w
    Visits rewriter tree 0 null w ∧ tree.sizes[w.next]? = some 1 ∧ out.2.next = 5 ∧ out.2.path = [1, 0] := by
  intro tree rewriter w out
  have hright : Visits rewriter tree 0 (negation null) ⟨3, [1], false, 2⟩ :=
    @Visits.operand _ rewriter tree 0 tree (negation null) [negation null] [] _ (.start 0) _ _ .root
      rfl rfl rfl rfl
  have hvisit : Visits rewriter tree 0 null w :=
    @Visits.operand _ rewriter tree 0 _ null [] [] _ _ _ _ hright rfl rfl rfl rfl
  obtain ⟨hsize, hnext, hpath, -⟩ := (visits_keep_books rewriter tree 0).2 null w hvisit
  exact ⟨hvisit, (hsize rfl).2.1, hnext null rfl rfl, hpath⟩

end SpiderDiagrams.Walk
