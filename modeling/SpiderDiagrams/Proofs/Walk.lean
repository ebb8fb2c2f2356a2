import SpiderDiagrams.Proofs.Cursor
import SpiderDiagrams.Proofs.Substitution

/-!
# A walk follows the cursor

A walk asks what the cursor over the pre-order table asks, and ends in the state in which the cursor
ends. Its result is made of the answers alone: the first error, or else the tree with all replacements
put at their paths (`rewrite_eq`).
-/
namespace SpiderDiagrams

/-- The replacement that was answered at a path. -/
def replacementAt (qs : List Inquiry) (path : List Nat) : Option Diagram :=
  qs.findSome? fun q => if q.context.path = path then q.replacement? else none

/-- What the answers make of a sub-diagram at a path. -/
def Diagram.rebuilt (d : Diagram) (path : List Nat) (qs : List Inquiry) :
    Except DiagramError Diagram :=
  match qs.findSome? Inquiry.error? with
  | some e => .error e
  | none => .ok (d.substitute fun p => replacementAt qs (path ++ p))

section Inquiries

variable {qs ls rs : List Inquiry} {q : Inquiry} {p t : List Nat} {k m : Nat} {c : Connective}
  {d l r : Diagram} {i : Nat}

theorem replacementAt_eq_none (h : ∀ q ∈ qs, q.context.path ≠ p) : replacementAt qs p = none := by
  apply List.findSome?_eq_none_iff.mpr
  intro q hq
  rw [if_neg (h q hq)]

theorem replacementAt_of_kept (h : ∀ q ∈ qs, q.Keeps) : replacementAt qs p = none := by
  apply List.findSome?_eq_none_iff.mpr
  intro q hq
  rw [(h q hq).replacement, ite_self]

theorem replacementAt_cons_of_none (h : q.replacement? = none) :
    replacementAt (q :: qs) p = replacementAt qs p := by
  simp [replacementAt, h]

theorem replacementAt_append (p : List Nat) :
    replacementAt (ls ++ rs) p = (replacementAt ls p).or (replacementAt rs p) :=
  List.findSome?_append

/-- All inquiries are about what stands at an operand or below it. -/
def Under (p : List Nat) (k : Nat) (qs : List Inquiry) : Prop :=
  ∀ q ∈ qs, p ++ [k] <+: q.context.path

theorem Under.replacementAt_self (h : Under p k qs) : replacementAt qs p = none := by
  apply replacementAt_eq_none
  rintro q hq rfl
  have hle := (h q hq).length_le
  rw [List.length_append, List.length_singleton] at hle
  omega

theorem Under.replacementAt_other (h : Under p k qs) (hm : m ≠ k) :
    replacementAt qs (p ++ m :: t) = none := by
  apply replacementAt_eq_none
  intro q hq he
  have hp := h q hq
  rw [he, List.prefix_append_right_inj, List.cons_prefix_cons] at hp
  exact hm hp.1.symm

theorem rebuilt_negation (hq : q.answer = .ok .descend) (hd : Under p 0 qs) :
    (Diagram.negation d).rebuilt p (q :: qs) = (d.rebuilt (p ++ [0]) qs).map .negation := by
  have he : q.error? = none := by simp [Inquiry.error?, hq]
  have hr : q.replacement? = none := by simp [Inquiry.replacement?, hq]
  unfold Diagram.rebuilt
  rw [List.findSome?_cons_of_isNone (by simp [he])]
  cases qs.findSome? Inquiry.error? with
  | some e => rfl
  | none =>
    simp only [replacementAt_cons_of_none hr, Diagram.substitute, List.append_nil,
      hd.replacementAt_self, Option.getD_none, List.append_assoc, List.singleton_append]
    rfl

theorem rebuilt_binary (hq : q.answer = .ok .descend) (hl : Under p 0 ls) (hr : Under p 1 rs) :
    (Diagram.binary c l r).rebuilt p (q :: (ls ++ rs)) =
      (l.rebuilt (p ++ [0]) ls).bind fun l => (r.rebuilt (p ++ [1]) rs).map (.binary c l) := by
  have he : q.error? = none := by simp [Inquiry.error?, hq]
  have hn : q.replacement? = none := by simp [Inquiry.replacement?, hq]
  unfold Diagram.rebuilt
  rw [List.findSome?_cons_of_isNone (by simp [he]), List.findSome?_append]
  cases ls.findSome? Inquiry.error? with
  | some e => rfl
  | none =>
    cases rs.findSome? Inquiry.error? with
    | some e => rfl
    | none =>
      simp only [replacementAt_cons_of_none hn, Diagram.substitute, replacementAt_append,
        List.append_nil, hl.replacementAt_self, hr.replacementAt_self, Option.or_none,
        hl.replacementAt_other (by decide : 1 ≠ 0), hr.replacementAt_other (by decide : 0 ≠ 1),
        Option.none_or, Option.getD_none, List.append_assoc, List.singleton_append]
      rfl

theorem rebuilt_of_kept (h : ∀ q ∈ qs, q.Keeps) : d.rebuilt p qs = .ok d := by
  unfold Diagram.rebuilt
  rw [List.findSome?_eq_none_iff.mpr fun q hq => (h q hq).error,
    Diagram.substitute_of_none fun t => replacementAt_of_kept h]

/-- Where only the left operand was asked about, the right one stays. -/
theorem rebuilt_binary_left (hq : q.answer = .ok .descend) (hl : Under p 0 ls) :
    (Diagram.binary c l r).rebuilt p (q :: ls) =
      (l.rebuilt (p ++ [0]) ls).map fun l => .binary c l r := by
  have hnil : Under p 1 [] := by simp [Under]
  have hr : r.rebuilt (p ++ [1]) [] = .ok r := rebuilt_of_kept (by simp)
  rw [← List.append_nil ls, rebuilt_binary hq hl hnil, List.append_nil, hr]
  cases l.rebuilt (p ++ [0]) ls <;> rfl

theorem replacementAt_of_single (hl : ∀ q ∈ ls, q.Keeps) (hr : ∀ q ∈ rs, q.Keeps)
    (h : q.answer = .ok (.replace r)) :
    replacementAt (ls ++ q :: rs) = Diagram.only q.context.path r := by
  funext t
  have hq := Inquiry.replacement?_eq_some_iff.mpr h
  have hrs : replacementAt rs t = none := replacementAt_of_kept hr
  rw [replacementAt_append, replacementAt_of_kept hl, Option.none_or, Diagram.only]
  unfold replacementAt at hrs ⊢
  by_cases ht : t = q.context.path
  · simp [ht, hq]
  · simp [hrs, ht, Ne.symm ht]

theorem rebuilt_of_single (hl : ∀ q ∈ ls, q.Keeps) (hr : ∀ q ∈ rs, q.Keeps)
    (h : q.answer = .ok (.replace r)) :
    d.rebuilt [] (ls ++ q :: rs) = .ok (d.substitute (Diagram.only q.context.path r)) := by
  have he : (ls ++ q :: rs).findSome? Inquiry.error? = none := by
    rw [List.findSome?_append, List.findSome?_eq_none_iff.mpr fun q hq => (hl q hq).error,
      Option.none_or, List.findSome?_cons_of_isNone (by simp [Inquiry.error?, h])]
    exact List.findSome?_eq_none_iff.mpr fun q hq => (hr q hq).error
  unfold Diagram.rebuilt
  rw [he, replacementAt_of_single hl hr h]
  rfl

theorem rebuilt_of_replaced (hp : q.context.path = p) (h : q.answer = .ok (.replace r)) :
    d.rebuilt p [q] = .ok r := by
  have htable : replacementAt [q] (p ++ []) = some r := by
    simp [replacementAt, Inquiry.replacement?, hp, h]
  unfold Diagram.rebuilt
  rw [List.findSome?_cons_of_isNone (by simp [Inquiry.error?, h]), List.findSome?_nil,
    Diagram.substitute_of_some htable]

end Inquiries

namespace Walk

open Diagram

variable {σ : Type} {rewriter : Rewriter σ} {tree d l r : Diagram} {s s' : σ} {i k : Nat}
  {p : List Nat} {c : Connective}

/-- A visit that began at a path ends as a scan up to a bound does. -/
structure EndsAs (d : Diagram) (p : List Nat) (stop : Nat)
    (out : Except DiagramError Diagram × Walk σ) (a : Scan σ) : Prop where
  result : out.1 = d.rebuilt p a.inquiries
  path : out.2.path = p
  state : out.2.state = a.state
  running : a.stopped = false → (∃ e, out = (.ok e, ⟨stop, p, false, a.state⟩)) ∧ a.next = stop
  stopped : a.stopped = true → (∃ e, out.1 = .error e) ∨ out.2.halted = true

theorem context_of_stands (h : tree.Stands i p d) :
    (⟨i, p, false, s⟩ : Walk σ).context tree.sizes.toArray = ⟨i, p, d.count⟩ := by
  simp [context, Array.getD_eq_getD_getElem?, h.sizes_getElem?]

theorem visit_of_halted {sizes : Array Nat} {w : Walk σ} (h : w.halted = true) :
    visit rewriter sizes d w = (.ok d, w) := by
  unfold visit
  rw [if_pos h]

theorem under_scan (rewriter : Rewriter σ) (s : σ) (h : tree.Stands i (p ++ [k]) d) :
    Under p k (tree.scan rewriter (i + d.count) i s).inquiries := by
  intro q hq
  obtain ⟨hf, hi⟩ := fitsIn_of_mem_scan hq
  exact (h.prefix_iff hf.stands).mpr hi

theorem endsAs_of_passed {q : Inquiry} (ha : tree.inquire? rewriter i s = some (q, s'))
    (hq : q.isLast = false) (hn : q.stride = d.count) (hr : d.rebuilt p [q] = .ok r) :
    EndsAs d p (i + d.count) (.ok r, ⟨i + d.count, p, false, s'⟩)
      (tree.scan rewriter (i + d.count) i s) := by
  have hi : i < i + d.count := Nat.lt_add_of_pos_right d.count_pos
  rw [scan_of_not_isLast hi ha hq, hn, scan_of_le (Nat.le_refl _)]
  exact ⟨hr.symm, rfl, rfl, fun _ => ⟨⟨r, rfl⟩, rfl⟩, by simp⟩

/-- Only where the rewriter descends does a visit depend on the kind of diagram. -/
theorem visit_endsAs_of_descend (h : tree.Stands i p d)
    (hd : ∀ s', rewriter ⟨i, p, d.count⟩ d s = (.ok .descend, s') →
      EndsAs d p (i + d.count) (visit rewriter tree.sizes.toArray d ⟨i, p, false, s⟩)
        (tree.scan rewriter (i + d.count) i s)) :
    EndsAs d p (i + d.count) (visit rewriter tree.sizes.toArray d ⟨i, p, false, s⟩)
      (tree.scan rewriter (i + d.count) i s) := by
  have hi : i < i + d.count := Nat.lt_add_of_pos_right d.count_pos
  have ha := inquire?_of_stands rewriter s h
  rcases hr : rewriter ⟨i, p, d.count⟩ d s with ⟨answer, s'⟩
  simp only [hr] at ha
  match answer with
  | .ok .descend => exact hd s' hr
  | .error e =>
    unfold visit
    simp only [Bool.false_eq_true, if_false, ask, context_of_stands h, hr]
    rw [scan_of_isLast hi ha rfl]
    exact ⟨rfl, rfl, rfl, by simp, by simp⟩
  | .ok .halt =>
    unfold visit
    simp only [Bool.false_eq_true, if_false, ask, context_of_stands h, hr]
    rw [scan_of_isLast hi ha rfl]
    refine ⟨(rebuilt_of_kept ?_).symm, rfl, rfl, by simp, by simp⟩
    exact List.forall_mem_singleton.mpr ⟨rfl, rfl⟩
  | .ok .skip =>
    unfold visit
    simp only [Bool.false_eq_true, if_false, ask, context_of_stands h, hr]
    exact endsAs_of_passed ha rfl rfl (rebuilt_of_kept (List.forall_mem_singleton.mpr ⟨rfl, rfl⟩))
  | .ok (.replace r) =>
    unfold visit
    simp only [Bool.false_eq_true, if_false, ask, context_of_stands h, hr]
    exact endsAs_of_passed ha rfl rfl (rebuilt_of_replaced rfl rfl)

theorem visit_leaf (h : tree.Stands i p d) (hd : d.operands = [])
    (hr : rewriter ⟨i, p, d.count⟩ d s = (.ok .descend, s')) :
    visit rewriter tree.sizes.toArray d ⟨i, p, false, s⟩ =
      (.ok d, ⟨i + 1, p, false, s'⟩) := by
  unfold visit
  simp only [Bool.false_eq_true, if_false, ask, context_of_stands h, hr]
  cases d <;> first | rfl | simp [operands] at hd

theorem visit_negation (h : tree.Stands i p (negation d))
    (hr : rewriter ⟨i, p, (negation d).count⟩ (negation d) s = (.ok .descend, s')) :
    visit rewriter tree.sizes.toArray (negation d) ⟨i, p, false, s⟩ =
      ((visit rewriter tree.sizes.toArray d ⟨i + 1, p ++ [0], false, s'⟩).1.map .negation,
        (visit rewriter tree.sizes.toArray d ⟨i + 1, p ++ [0], false, s'⟩).2.leave) := by
  rw [visit]
  simp only [Bool.false_eq_true, if_false, ask, context_of_stands h, hr]
  rfl

theorem visit_binary_of_error {e : DiagramError} {w : Walk σ} (h : tree.Stands i p (binary c l r))
    (hr : rewriter ⟨i, p, (binary c l r).count⟩ (binary c l r) s = (.ok .descend, s'))
    (hl : visit rewriter tree.sizes.toArray l ⟨i + 1, p ++ [0], false, s'⟩ = (.error e, w)) :
    visit rewriter tree.sizes.toArray (binary c l r) ⟨i, p, false, s⟩ = (.error e, w.leave) := by
  have hw : enter 0 (advance 1 ⟨i, p, false, s'⟩) = ⟨i + 1, p ++ [0], false, s'⟩ := rfl
  rw [visit]
  simp only [Bool.false_eq_true, if_false, ask, context_of_stands h, hr, hw, hl]

theorem visit_binary_of_ok {e : Diagram} {w : Walk σ} (h : tree.Stands i p (binary c l r))
    (hr : rewriter ⟨i, p, (binary c l r).count⟩ (binary c l r) s = (.ok .descend, s'))
    (hl : visit rewriter tree.sizes.toArray l ⟨i + 1, p ++ [0], false, s'⟩ = (.ok e, w)) :
    visit rewriter tree.sizes.toArray (binary c l r) ⟨i, p, false, s⟩ =
      ((visit rewriter tree.sizes.toArray r (w.leave.enter 1)).1.map (.binary c e),
        (visit rewriter tree.sizes.toArray r (w.leave.enter 1)).2.leave) := by
  have hw : enter 0 (advance 1 ⟨i, p, false, s'⟩) = ⟨i + 1, p ++ [0], false, s'⟩ := rfl
  rw [visit]
  simp only [Bool.false_eq_true, if_false, ask, context_of_stands h, hr, hw, hl]

theorem scan_of_descend (h : tree.Stands i p d)
    (hr : rewriter ⟨i, p, d.count⟩ d s = (.ok .descend, s')) :
    tree.scan rewriter (i + d.count) i s =
      { tree.scan rewriter (i + d.count) (i + 1) s' with
        inquiries := ⟨⟨i, p, d.count⟩, d, .ok .descend⟩ ::
          (tree.scan rewriter (i + d.count) (i + 1) s').inquiries } := by
  have hi : i < i + d.count := Nat.lt_add_of_pos_right d.count_pos
  have ha := inquire?_of_stands rewriter s h
  simp only [hr] at ha
  exact scan_of_not_isLast hi ha rfl

theorem endsAs_leaf (h : tree.Stands i p d) (hd : d.operands = []) (hc : d.count = 1)
    (hr : rewriter ⟨i, p, d.count⟩ d s = (.ok .descend, s')) :
    EndsAs d p (i + d.count) (visit rewriter tree.sizes.toArray d ⟨i, p, false, s⟩)
      (tree.scan rewriter (i + d.count) i s) := by
  have ha := inquire?_of_stands rewriter s h
  simp only [hr] at ha
  rw [visit_leaf h hd hr, ← hc]
  exact endsAs_of_passed ha rfl hc.symm (rebuilt_of_kept (List.forall_mem_singleton.mpr ⟨rfl, rfl⟩))

/-- After the last operand only the path is left, and the operand is put into its compound. -/
theorem EndsAs.of_last_operand {whole : Diagram} {f : Diagram → Diagram} {stop : Nat}
    {out : Except DiagramError Diagram × Walk σ} {a : Scan σ} {qs : List Inquiry}
    (hd : EndsAs d (p ++ [k]) stop out a) (hf : whole.rebuilt p qs = out.1.map f) :
    EndsAs whole p stop (out.1.map f, out.2.leave) { a with inquiries := qs } := by
  constructor
  · exact hf.symm
  · simp [leave, hd.path]
  · exact hd.state
  · intro hs
    obtain ⟨⟨e, he⟩, hn⟩ := hd.running hs
    rw [he]
    exact ⟨⟨f e, by simp [leave, Except.map]⟩, hn⟩
  · intro hs
    rcases hd.stopped hs with ⟨e, he⟩ | hh
    · exact .inl ⟨e, by rw [he]; rfl⟩
    · exact .inr hh

theorem endsAs_negation (h : tree.Stands i p (negation d))
    (hr : rewriter ⟨i, p, (negation d).count⟩ (negation d) s = (.ok .descend, s'))
    (hd : EndsAs d (p ++ [0]) (i + 1 + d.count)
      (visit rewriter tree.sizes.toArray d ⟨i + 1, p ++ [0], false, s'⟩)
      (tree.scan rewriter (i + 1 + d.count) (i + 1) s')) :
    EndsAs (negation d) p (i + (negation d).count)
      (visit rewriter tree.sizes.toArray (negation d) ⟨i, p, false, s⟩)
      (tree.scan rewriter (i + (negation d).count) i s) := by
  have hc : i + (negation d).count = i + 1 + d.count := by
    rw [count]
    omega
  have hu := under_scan rewriter s' (h.trans (stands_negation d))
  rw [visit_negation h hr, scan_of_descend h hr, hc]
  apply hd.of_last_operand
  rw [rebuilt_negation rfl hu, ← hd.result]

theorem endsAs_binary (h : tree.Stands i p (binary c l r))
    (hr : rewriter ⟨i, p, (binary c l r).count⟩ (binary c l r) s = (.ok .descend, s'))
    (hleft : EndsAs l (p ++ [0]) (i + 1 + l.count)
      (visit rewriter tree.sizes.toArray l ⟨i + 1, p ++ [0], false, s'⟩)
      (tree.scan rewriter (i + 1 + l.count) (i + 1) s'))
    (hright : ∀ t, EndsAs r (p ++ [1]) (i + 1 + l.count + r.count)
      (visit rewriter tree.sizes.toArray r ⟨i + 1 + l.count, p ++ [1], false, t⟩)
      (tree.scan rewriter (i + 1 + l.count + r.count) (i + 1 + l.count) t)) :
    EndsAs (binary c l r) p (i + (binary c l r).count)
      (visit rewriter tree.sizes.toArray (binary c l r) ⟨i, p, false, s⟩)
      (tree.scan rewriter (i + (binary c l r).count) i s) := by
  have hc : i + (binary c l r).count = i + 1 + l.count + r.count := by
    rw [count]
    omega
  have hul := under_scan rewriter s' (h.trans (stands_left c l r))
  rw [scan_of_descend h hr, hc, ← scan_andThen (Nat.le_add_right (i + 1 + l.count) r.count)]
  rcases ha : tree.scan rewriter (i + 1 + l.count) (i + 1) s' with ⟨ls, next, stopped, t⟩
  rcases hv : visit rewriter tree.sizes.toArray l ⟨i + 1, p ++ [0], false, s'⟩ with ⟨out, w⟩
  rw [ha, hv] at hleft
  rw [ha] at hul
  obtain ⟨hres, hpath, hstate, hrun, hstop⟩ := hleft
  have hp : w.leave.path = p := by simp_all [leave]
  cases stopped with
  | true =>
    -- The right operand is not asked about: its visit is left out, or finds the walk halted.
    have hb := rebuilt_binary_left (c := c) (l := l) (r := r)
      (q := ⟨⟨i, p, (binary c l r).count⟩, binary c l r, .ok .descend⟩) rfl hul
    rw [← hres] at hb
    cases out with
    | error e =>
      rw [visit_binary_of_error h hr hv]
      exact ⟨hb.symm, hp, hstate, by simp [Scan.andThen], fun _ => .inl ⟨e, rfl⟩⟩
    | ok e =>
      have hh : w.halted = true := by simpa using hstop rfl
      have hw : (w.leave.enter 1).leave = w.leave := by simp [leave, enter]
      rw [visit_binary_of_ok h hr hv, visit_of_halted (by simpa [leave, enter] using hh), hw]
      exact ⟨hb.symm, hp, hstate, by simp [Scan.andThen], fun _ => .inr hh⟩
  | false =>
    obtain ⟨⟨e, he⟩, rfl⟩ := hrun rfl
    cases he
    have hw : enter 1 (leave ⟨i + 1 + l.count, p ++ [0], false, t⟩) =
        ⟨i + 1 + l.count, p ++ [1], false, t⟩ := by simp [leave, enter]
    rw [visit_binary_of_ok h hr hv, hw]
    have hur := under_scan rewriter t (h.trans (stands_right c l r))
    rw [← Nat.add_assoc i] at hur
    simp only [Scan.andThen, Bool.false_eq_true, if_false]
    apply (hright t).of_last_operand
    rw [rebuilt_binary rfl hul hur, ← hres, ← (hright t).result]
    rfl

/-- The walk through a sub-diagram and the scan over its indices end alike. -/
theorem visit_endsAs (rewriter : Rewriter σ) (s : σ) (h : tree.Stands i p d) :
    EndsAs d p (i + d.count) (visit rewriter tree.sizes.toArray d ⟨i, p, false, s⟩)
      (tree.scan rewriter (i + d.count) i s) := by
  -- The state is general, since the right operand is visited in the state that the left one leaves.
  induction d generalizing i p s with
  | null => exact visit_endsAs_of_descend h fun s' hr => endsAs_leaf h rfl rfl hr
  | primary content => exact visit_endsAs_of_descend h fun s' hr => endsAs_leaf h rfl rfl hr
  | negation d ih =>
    refine visit_endsAs_of_descend h fun s' hr => endsAs_negation h hr ?_
    exact ih s' (h.trans (stands_negation d))
  | binary c l r ihl ihr =>
    refine visit_endsAs_of_descend h fun s' hr => endsAs_binary h hr ?_ ?_
    · exact ihl s' (h.trans (stands_left c l r))
    · intro t
      rw [Nat.add_assoc i]
      exact ihr t (h.trans (stands_right c l r))

end Walk

/-- The result and the last state of a walk are those of the cursor over the whole table. -/
theorem Diagram.rewrite_eq {σ : Type} (rewriter : Rewriter σ) (tree : Diagram) (s : σ) :
    tree.rewrite rewriter s =
      (tree.rebuilt [] (tree.scan rewriter tree.count 0 s).inquiries,
        (tree.scan rewriter tree.count 0 s).state) := by
  have h := Walk.visit_endsAs rewriter s (Stands.root tree)
  rw [Nat.zero_add] at h
  exact Prod.ext h.result h.state

end SpiderDiagrams
