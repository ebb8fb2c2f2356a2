import SpiderDiagrams.Proofs.Recording

/-!
# What a walk makes of a tree

A walk that meets an error gives that error. Otherwise its result is the tree with every answered
replacement at the path of the node it was answered for. Replaced nodes never lie inside one another,
because the walk goes on behind what it replaces; so the replacements are read off the paths alone, and
all that is not replaced keeps its place and its head.
-/
namespace SpiderDiagrams.Diagram

variable {σ : Type} {rewriter : Rewriter σ} {tree : Diagram} {s : σ} {q q' : Inquiry}
  {before after : List Inquiry} {e : DiagramError} {d r : Diagram} {p : List Nat} {i : Nat}

variable (rewriter tree s) in
/-- What is asked later has an index behind all that was asked about or passed over before. -/
theorem pairwise_inquiries : (tree.inquiries rewriter s).Pairwise fun a b =>
    a.isLast = false ∧ a.context.index + a.stride ≤ b.context.index := by
  rw [inquiries_eq]
  exact pairwise_scan

theorem eq_nil_of_isLast (h : tree.inquiries rewriter s = before ++ q :: after)
    (hq : q.isLast = true) : after = [] := by
  have hp := pairwise_inquiries rewriter tree s
  rw [h, List.pairwise_append, List.pairwise_cons] at hp
  cases after with
  | nil => rfl
  | cons b after =>
    have hb := (hp.2.1.1 b List.mem_cons_self).1
    rw [hq] at hb
    cases hb

theorem not_isLast_of_mem_before (h : tree.inquiries rewriter s = before ++ q :: after)
    (hb : q' ∈ before) : q'.isLast = false := by
  have hp := pairwise_inquiries rewriter tree s
  rw [h, List.pairwise_append] at hp
  exact (hp.2.2 q' hb q List.mem_cons_self).1

theorem eq_or_behind (hq : q ∈ tree.inquiries rewriter s) (hq' : q' ∈ tree.inquiries rewriter s) :
    q = q' ∨ q.context.index + q.stride ≤ q'.context.index ∨
      q'.context.index + q'.stride ≤ q.context.index := by
  have hp := pairwise_inquiries rewriter tree s
  refine List.Pairwise.forall_of_forall_of_flip (R := fun a b : Inquiry => a = b ∨
    a.context.index + a.stride ≤ b.context.index ∨ b.context.index + b.stride ≤ a.context.index)
    ?_ ?_ ?_ hq hq'
  · exact fun a _ => .inl rfl
  · exact hp.imp fun hab => .inr (.inl hab.2)
  · exact hp.imp fun hab => .inr (.inr hab.2)

/-- Nothing else is asked about inside of what is replaced. -/
theorem eq_of_replaced_prefix (hq : q ∈ tree.inquiries rewriter s)
    (hq' : q' ∈ tree.inquiries rewriter s) (hr : q.answer = .ok (.replace r))
    (hp : q.context.path <+: q'.context.path) : q = q' := by
  have hf := fitsIn_of_mem_inquiries hq
  have hi := (hf.stands.prefix_iff (fitsIn_of_mem_inquiries hq').stands).mp hp
  have hs := Inquiry.stride_of_replace hr
  have hsize := hf.size
  have := stride_pos (fitsIn_of_mem_inquiries hq')
  rcases eq_or_behind hq hq' with h | h | h
  · exact h
  · omega
  · omega

/-! ## The table of replacements -/

theorem exists_of_replacementAt (h : replacementAt (tree.inquiries rewriter s) p = some r) :
    ∃ q ∈ tree.inquiries rewriter s, q.context.path = p ∧ q.answer = .ok (.replace r) := by
  obtain ⟨q, hq, hr⟩ := List.exists_of_findSome?_eq_some h
  split at hr
  · rename_i hp
    exact ⟨q, hq, hp, Inquiry.replacement?_eq_some_iff.mp hr⟩
  · cases hr

theorem replacementAt_of_mem (hq : q ∈ tree.inquiries rewriter s)
    (hr : q.answer = .ok (.replace r)) :
    replacementAt (tree.inquiries rewriter s) q.context.path = some r := by
  cases h : replacementAt (tree.inquiries rewriter s) q.context.path with
  | none =>
    have hn := List.findSome?_eq_none_iff.mp h q hq
    rw [if_pos rfl, Inquiry.replacement?_eq_some_iff.mpr hr] at hn
    cases hn
  | some r' =>
    obtain ⟨q', hq', hp, hr'⟩ := exists_of_replacementAt h
    cases eq_of_replaced_prefix hq hq' hr (hp ▸ List.prefix_refl _)
    rw [hr] at hr'
    cases hr'
    rfl

theorem freeAbove_of_mem (hq : q ∈ tree.inquiries rewriter s) :
    FreeAbove (replacementAt (tree.inquiries rewriter s)) q.context.path := by
  intro p hp hne
  cases h : replacementAt (tree.inquiries rewriter s) p with
  | none => rfl
  | some r =>
    obtain ⟨q', hq', rfl, hr⟩ := exists_of_replacementAt h
    cases eq_of_replaced_prefix hq' hq hr hp
    exact (hne rfl).elim

/-- Nothing is replaced at, above or below what stands behind a halt. -/
theorem replacementAt_eq_none_of_halt (h : tree.inquiries rewriter s = before ++ q :: after)
    (hq : q.answer = .ok .halt) (hi : q.context.index ≤ i) (hd : tree.Stands i p d)
    {t : List Nat} (ht : t <+: p ∨ p <+: t) :
    replacementAt (tree.inquiries rewriter s) t = none := by
  cases hr : replacementAt (tree.inquiries rewriter s) t with
  | none => rfl
  | some r =>
    obtain ⟨q', hq', rfl, ha⟩ := exists_of_replacementAt hr
    have hf := fitsIn_of_mem_inquiries hq'
    have hs := Inquiry.stride_of_replace ha
    have hsize := hf.size
    have hpair := pairwise_inquiries rewriter tree s
    have hafter := eq_nil_of_isLast h (Inquiry.isLast_of_halt hq)
    rw [h, List.pairwise_append] at hpair
    rw [h, hafter, List.mem_append, List.mem_singleton] at hq'
    -- A replacement was asked for before the halt, so that its interval ends where the halt stands.
    rcases hq' with hb | rfl
    · have hlt := (hpair.2.2 q' hb q List.mem_cons_self).2
      have := count_pos q'.node
      rcases ht with ht | ht
      · have := (hf.stands.prefix_iff hd).mp ht
        omega
      · have := (hd.prefix_iff hf.stands).mp ht
        omega
    · rw [hq] at ha
      cases ha

/-! ## The result -/

theorem rewrite_of_error (h : tree.inquiries rewriter s = before ++ q :: after)
    (hq : q.answer = .error e) : (tree.rewrite rewriter s).1 = .error e := by
  have hfirst : (tree.inquiries rewriter s).findSome? Inquiry.error? = some e := by
    refine List.findSome?_eq_some_iff.mpr
      ⟨before, q, after, h, Inquiry.error?_eq_some_iff.mpr hq, ?_⟩
    intro q' hq'
    cases he : q'.error? with
    | none => rfl
    | some e' =>
      have hl := Inquiry.isLast_of_error (Inquiry.error?_eq_some_iff.mp he)
      rw [not_isLast_of_mem_before h hq'] at hl
      cases hl
  rw [rewrite_eq, ← inquiries_eq, rebuilt, hfirst]

theorem rewrite_of_no_error (h : ∀ q ∈ tree.inquiries rewriter s, ∀ e, q.answer ≠ .error e) :
    (tree.rewrite rewriter s).1 =
      .ok (tree.substitute (replacementAt (tree.inquiries rewriter s))) := by
  have hnone : (tree.inquiries rewriter s).findSome? Inquiry.error? = none := by
    apply List.findSome?_eq_none_iff.mpr
    intro q hq
    cases he : q.error? with
    | none => rfl
    | some e => exact (h q hq e (Inquiry.error?_eq_some_iff.mp he)).elim
  rw [rewrite_eq, ← inquiries_eq, rebuilt, hnone]
  rfl

/-- A walk is a simultaneous substitution. An error is the last answer and the result; a halt is the last
answer too, and what stands at its index or behind stays. -/
theorem rewrite_substitutes (rewriter : Rewriter σ) (tree : Diagram) (s : σ) :
    let asked := tree.inquiries rewriter s
    let result := (tree.rewrite rewriter s).1
    (∀ before q after e, asked = before ++ q :: after → q.answer = .error e →
      after = [] ∧ result = .error e) ∧
    ((∀ q ∈ asked, ∀ e, q.answer ≠ .error e) → ∃ out, result = .ok out ∧
      (∀ q ∈ asked, ∀ r, q.answer = .ok (.replace r) → out.follow? q.context.path = some r) ∧
      (∀ p, (∀ q ∈ asked, ∀ r, q.answer = .ok (.replace r) → ¬ q.context.path <+: p) →
        (out.follow? p).map head = (tree.follow? p).map head) ∧
      (∀ before q after, asked = before ++ q :: after → q.answer = .ok .halt →
        after = [] ∧ ∀ i p d, tree.Stands i p d → q.context.index ≤ i → out.follow? p = some d) ∧
      ((∀ q ∈ asked, ∀ r, q.answer ≠ .ok (.replace r)) → out = tree)) := by
  intro asked result
  refine ⟨?_, ?_⟩
  · intro before q after e h hq
    exact ⟨eq_nil_of_isLast h (Inquiry.isLast_of_error hq), rewrite_of_error h hq⟩
  intro hok
  refine ⟨tree.substitute (replacementAt asked), rewrite_of_no_error hok, ?_, ?_, ?_, ?_⟩
  · intro q hq r hr
    have hat : replacementAt asked (q.context.path ++ []) = some r := by
      rw [List.append_nil]
      exact replacementAt_of_mem hq hr
    rw [follow?_substitute (freeAbove_of_mem hq), (fitsIn_of_mem_inquiries hq).stands.follow?]
    exact congrArg some (substitute_of_some hat)
  · intro p hp
    apply head_follow?_substitute
    intro t ht
    cases hr : replacementAt asked t with
    | none => rfl
    | some r =>
      obtain ⟨q, hq, rfl, ha⟩ := exists_of_replacementAt hr
      exact (hp q hq r ha ht).elim
  · intro before q after h hq
    refine ⟨eq_nil_of_isLast h (Inquiry.isLast_of_halt hq), ?_⟩
    intro i p d hd hi
    have habove : FreeAbove (replacementAt asked) p :=
      fun t ht _ => replacementAt_eq_none_of_halt h hq hi hd (.inl ht)
    rw [follow?_substitute habove, hd.follow?]
    refine congrArg some (substitute_of_none fun t => ?_)
    exact replacementAt_eq_none_of_halt h hq hi hd (.inr (List.prefix_append p t))
  · intro hnone
    apply substitute_of_none
    intro t
    cases hr : replacementAt asked t with
    | none => rfl
    | some r =>
      obtain ⟨q, hq, -, ha⟩ := exists_of_replacementAt hr
      exact (hnone q hq r ha).elim

/-- The replacement made before a halt is kept, what stands beside it and behind the halt is as it was. -/
theorem rewrite_substitutes_halted :
    let tree := binary .conjunction (binary .implication null null) null
    let rewriter : Rewriter Unit := fun context _ s =>
      (.ok (if context.index = 2 then .replace (negation null)
        else if context.index = 3 then .halt else .descend), s)
    ∃ out, (tree.rewrite rewriter ()).1 = .ok out ∧ out.follow? [0, 0] = some (negation null) ∧
      out.follow? [0, 1] = some null ∧ out.follow? [1] = some null := by
  intro tree rewriter
  have hasked : tree.inquiries rewriter () =
      [⟨⟨0, [], 5⟩, tree, .ok .descend⟩,
        ⟨⟨1, [0], 3⟩, binary .implication null null, .ok .descend⟩,
        ⟨⟨2, [0, 0], 1⟩, null, .ok (.replace (negation null))⟩,
        ⟨⟨3, [0, 1], 1⟩, null, .ok .halt⟩] := rfl
  have hok : ∀ q ∈ tree.inquiries rewriter (), ∀ e, q.answer ≠ .error e := by
    rw [hasked]
    simp
  obtain ⟨out, hout, hreplaced, -, hhalt, -⟩ := (rewrite_substitutes rewriter tree ()).2 hok
  obtain ⟨-, hbehind⟩ := hhalt [_, _, _] _ [] hasked rfl
  refine ⟨out, hout, ?_, ?_, ?_⟩
  · exact hreplaced ⟨⟨2, [0, 0], 1⟩, null, .ok (.replace (negation null))⟩ (by simp [hasked]) _ rfl
  · exact hbehind 3 [0, 1] null (stands_iff.mpr ⟨rfl, rfl⟩) (Nat.le_refl 3)
  · exact hbehind 4 [1] null (stands_iff.mpr ⟨rfl, rfl⟩) (by decide)

end SpiderDiagrams.Diagram
