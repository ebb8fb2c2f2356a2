/-!
# Computations that may fail

A chain of computations gives a result exactly when each of them does, and its error is the first one.
Errors may be renamed before or after the chain.
-/
namespace SpiderDiagrams

variable {ε ε' α β γ δ : Type}

theorem bind_eq_ok_iff {x : Except ε α} {f : α → Except ε β} {b : β} :
    (x >>= f) = .ok b ↔ ∃ a, x = .ok a ∧ f a = .ok b := by
  cases x with
  | error e => simp [bind, Except.bind]
  | ok a => simp [bind, Except.bind]

theorem toOption_eq_some_iff {x : Except ε α} {a : α} : x.toOption = some a ↔ x = .ok a := by
  cases x with
  | error e => simp [Except.toOption]
  | ok b => simp [Except.toOption]

theorem mapError_eq_ok_iff {x : Except ε α} {g : ε → ε'} {a : α} : x.mapError g = .ok a ↔ x = .ok a := by
  cases x with
  | error e => constructor <;> intro h <;> cases h
  | ok b => constructor <;> intro h <;> cases h <;> rfl

theorem mapError_eq_error_iff {x : Except ε α} {g : ε → ε'} {e : ε'} :
    x.mapError g = .error e ↔ ∃ cause, x = .error cause ∧ e = g cause := by
  cases x with
  | error cause =>
    constructor
    · intro h
      cases h
      exact ⟨cause, rfl, rfl⟩
    · rintro ⟨_, h, rfl⟩
      cases h
      rfl
  | ok b =>
    constructor
    · intro h
      cases h
    · rintro ⟨_, h, -⟩
      cases h

theorem mapError_bind (x : Except ε α) (f : α → Except ε β) (g : ε → ε') :
    (x >>= f).mapError g = x.mapError g >>= fun a => (f a).mapError g := by
  cases x <;> rfl

/-- What every item shares with its result, the list shares with the list of results. -/
theorem map_eq_of_mapM {xs : List γ} {ys : List α} {f : γ → Except ε α} {g : γ → δ} {g' : α → δ}
    (hf : ∀ c a, f c = .ok a → g' a = g c) (h : xs.mapM f = .ok ys) : ys.map g' = xs.map g := by
  induction xs generalizing ys with
  | nil =>
    cases h
    rfl
  | cons c cs ih =>
    rw [List.mapM_cons] at h
    obtain ⟨a, ha, h⟩ := bind_eq_ok_iff.mp h
    obtain ⟨as, has, h⟩ := bind_eq_ok_iff.mp h
    cases h
    rw [List.map_cons, List.map_cons, hf c a ha, ih has]

theorem length_eq_of_mapM {xs : List γ} {ys : List α} {f : γ → Except ε α} (h : xs.mapM f = .ok ys) :
    ys.length = xs.length := by
  have hmap : ys.map (fun _ => ()) = xs.map fun _ => () := map_eq_of_mapM (fun _ _ _ => rfl) h
  simpa using congrArg List.length hmap

/-- A list of computations succeeds where each of them does, with the list of their results. -/
theorem mapM_eq_ok_iff {xs : List γ} {ys : List α} {f : γ → Except ε α} :
    xs.mapM f = .ok ys ↔ (∀ c ∈ xs, ∃ a, f c = .ok a) ∧ ys = xs.filterMap fun c => (f c).toOption := by
  induction xs generalizing ys with
  | nil => simp [pure, Except.pure, eq_comm]
  | cons c cs ih =>
    rw [List.mapM_cons, List.forall_mem_cons, bind_eq_ok_iff]
    constructor
    · rintro ⟨a, ha, h⟩
      obtain ⟨as, has, h⟩ := bind_eq_ok_iff.mp h
      cases h
      obtain ⟨hcs, rfl⟩ := ih.mp has
      exact ⟨⟨⟨a, ha⟩, hcs⟩, by simp [ha, Except.toOption]⟩
    · rintro ⟨⟨⟨a, ha⟩, hcs⟩, rfl⟩
      refine ⟨a, ha, bind_eq_ok_iff.mpr ⟨_, ih.mpr ⟨hcs, rfl⟩, ?_⟩⟩
      simp [ha, Except.toOption, pure, Except.pure]

/-- Every result comes from an item. -/
theorem exists_of_mem_mapM {xs : List γ} {ys : List α} {f : γ → Except ε α} (h : xs.mapM f = .ok ys)
    {a : α} (ha : a ∈ ys) : ∃ c ∈ xs, f c = .ok a := by
  obtain ⟨-, rfl⟩ := mapM_eq_ok_iff.mp h
  simpa [toOption_eq_some_iff] using ha

/-- Lists of the same items have the same results, up to order and repetitions. -/
theorem exists_mapM_of_mem_iff {xs xs' : List γ} {ys : List α} {f : γ → Except ε α}
    (hmem : ∀ c, c ∈ xs ↔ c ∈ xs') (h : xs.mapM f = .ok ys) :
    ∃ ys', xs'.mapM f = .ok ys' ∧ ∀ a, a ∈ ys ↔ a ∈ ys' := by
  obtain ⟨hok, rfl⟩ := mapM_eq_ok_iff.mp h
  exact ⟨_, mapM_eq_ok_iff.mpr ⟨fun c hc => hok c ((hmem c).mpr hc), rfl⟩, by simp [hmem]⟩

theorem exists_mapM_of_perm {xs xs' : List γ} {ys : List α} {f : γ → Except ε α} (hperm : xs.Perm xs')
    (h : xs.mapM f = .ok ys) : ∃ ys', xs'.mapM f = .ok ys' ∧ ys.Perm ys' := by
  obtain ⟨hok, rfl⟩ := mapM_eq_ok_iff.mp h
  exact ⟨_, mapM_eq_ok_iff.mpr ⟨fun c hc => hok c (hperm.mem_iff.mpr hc), rfl⟩, hperm.filterMap _⟩

theorem mapM_replace {before after : List γ} {c c' : γ} {ys : List α} {f : γ → Except ε α}
    (hc : ∀ a, f c = .ok a → f c' = .ok a) (h : (before ++ c :: after).mapM f = .ok ys) :
    (before ++ c' :: after).mapM f = .ok ys := by
  rw [List.mapM_append, List.mapM_cons] at h ⊢
  obtain ⟨as, hbefore, h⟩ := bind_eq_ok_iff.mp h
  obtain ⟨bs, hrest, h⟩ := bind_eq_ok_iff.mp h
  obtain ⟨a, ha, hrest⟩ := bind_eq_ok_iff.mp hrest
  exact bind_eq_ok_iff.mpr ⟨as, hbefore, bind_eq_ok_iff.mpr ⟨bs, bind_eq_ok_iff.mpr ⟨a, hc a ha, hrest⟩, h⟩⟩

theorem mapM_map_of_ok {xs : List γ} {f : γ → δ} {item : δ → Except ε α} {g : γ → α}
    (h : ∀ c ∈ xs, item (f c) = .ok (g c)) : (xs.map f).mapM item = .ok (xs.map g) := by
  induction xs with
  | nil => rfl
  | cons c cs ih =>
    rw [List.map_cons, List.mapM_cons, h c List.mem_cons_self,
      ih fun c hc => h c (List.mem_cons_of_mem _ hc)]
    rfl

/-- Where every item is treated as it is by another function, up to the names of errors, so is the list. -/
theorem mapM_map_mapError {xs : List γ} {f : γ → δ} {item : δ → Except ε' α}
    {build : γ → Except ε α} {g : ε → ε'} (h : ∀ c ∈ xs, item (f c) = (build c).mapError g) :
    (xs.map f).mapM item = (xs.mapM build).mapError g := by
  induction xs with
  | nil => rfl
  | cons c cs ih =>
    rw [List.map_cons, List.mapM_cons, List.mapM_cons, h c List.mem_cons_self,
      ih fun c hc => h c (List.mem_cons_of_mem _ hc), mapError_bind]
    cases build c with
    | error e => rfl
    | ok a => cases cs.mapM build <;> rfl

/-- Steps that may be exchanged may be taken in any order. -/
theorem foldlM_eq_ok_of_perm {step : δ → γ → Except ε δ} {xs ys : List γ} {s s' : δ} (hperm : xs.Perm ys)
    (h : xs.foldlM step s = .ok s')
    (exchange : ∀ {s s₁ s₂ x y}, step s x = .ok s₁ → step s₁ y = .ok s₂ →
      ∃ s₁', step s y = .ok s₁' ∧ step s₁' x = .ok s₂) :
    ys.foldlM step s = .ok s' := by
  induction hperm generalizing s with
  | nil => exact h
  | cons x _ ih =>
    rw [List.foldlM_cons, bind_eq_ok_iff] at h ⊢
    obtain ⟨s₁, hx, h⟩ := h
    exact ⟨s₁, hx, ih h⟩
  | swap x y zs =>
    simp only [List.foldlM_cons, bind_eq_ok_iff] at h ⊢
    obtain ⟨s₁, hy, s₂, hx, h⟩ := h
    obtain ⟨s₁', hx, hy⟩ := exchange hy hx
    exact ⟨s₁', hx, s₂, hy, h⟩
  | trans _ _ ih₁ ih₂ => exact ih₂ (ih₁ h)

end SpiderDiagrams
