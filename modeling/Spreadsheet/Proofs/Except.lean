/-! Computations that may fail, one after the other. -/
namespace Spreadsheet

variable {ε ε' α β γ : Type}

theorem bind_eq_ok {x : Except ε α} {f : α → Except ε β} {b : β} :
    (x >>= f) = .ok b ↔ ∃ a, x = .ok a ∧ f a = .ok b := by
  cases x with
  | ok a => exact ⟨fun h => ⟨a, rfl, h⟩, fun ⟨_, ha, h⟩ => by cases ha; exact h⟩
  | error e => exact ⟨fun h => by contradiction, fun ⟨_, ha, _⟩ => by contradiction⟩

theorem bind_eq_error {x : Except ε α} {f : α → Except ε β} {e : ε} :
    (x >>= f) = .error e ↔ x = .error e ∨ ∃ a, x = .ok a ∧ f a = .error e := by
  cases x <;> simp [bind, Except.bind]

theorem map_eq_ok {x : Except ε α} {f : α → β} {b : β} :
    x.map f = .ok b ↔ ∃ a, x = .ok a ∧ f a = b := by
  cases x <;> simp [Except.map]

theorem map_eq_error {x : Except ε α} {f : α → β} {e : ε} : x.map f = .error e ↔ x = .error e := by
  cases x <;> simp [Except.map]

theorem eq_ok_of_toOption {x : Except ε α} {a : α} (h : x.toOption = some a) : x = .ok a := by
  cases x with
  | ok b => exact congrArg _ (Option.some.inj h)
  | error e => contradiction

/-- A computation fails in a certain way, if a test of its outcome says so. -/
theorem exists_error_of_test {x : Except ε α} {p : ε → Bool}
    (h : (match x with
      | .ok _ => false
      | .error e => p e) = true) : ∃ e, x = .error e ∧ p e := by
  cases x with
  | ok a => contradiction
  | error e => exact ⟨e, rfl, h⟩

/-- A computation behind a check. -/
theorem ite_error_eq_ok {p : Prop} [Decidable p] {e : ε} {x : Except ε α} {a : α} :
    (if p then .error e else x) = .ok a ↔ ¬p ∧ x = .ok a := by
  split <;> simp_all

theorem mapM_congr {f g : α → Except ε β} {items : List α} (h : ∀ a ∈ items, f a = g a) :
    items.mapM f = items.mapM g := by
  induction items with
  | nil => rfl
  | cons a items ih =>
    rw [List.mapM_cons, List.mapM_cons, h a List.mem_cons_self,
      ih fun b hb => h b (List.mem_cons_of_mem a hb)]

theorem mapM_map_result (f : α → Except ε β) (g : β → γ) (items : List α) :
    (items.mapM fun a => (f a).map g) = (items.mapM f).map (List.map g) := by
  induction items with
  | nil => rfl
  | cons a items ih =>
    rw [List.mapM_cons, List.mapM_cons, ih]
    cases f a with
    | error e => rfl
    | ok b => cases items.mapM f <;> rfl

theorem mapM_flatMap (f : β → Except ε γ) (g : α → List β) (items : List α) :
    (items.flatMap g).mapM f = (items.mapM fun a => (g a).mapM f).map List.flatten := by
  induction items with
  | nil => rfl
  | cons a items ih =>
    rw [List.flatMap_cons, List.mapM_append, ih, List.mapM_cons]
    cases (g a).mapM f with
    | error e => rfl
    | ok bs => cases items.mapM fun a => (g a).mapM f <;> rfl

/-- Items fail where those before one have results and it fails. -/
theorem mapM_eq_error {f : α → Except ε β} {items : List α} {e : ε} :
    items.mapM f = .error e ↔ ∃ before a after,
      items = before ++ a :: after ∧ (∀ b ∈ before, ∃ c, f b = .ok c) ∧ f a = .error e := by
  induction items with
  | nil => simp [pure, Except.pure]
  | cons a items ih =>
    rw [List.mapM_cons, bind_eq_error]
    constructor
    · rintro (h | ⟨c, hc, h⟩)
      · exact ⟨[], a, items, rfl, by simp, h⟩
      · rw [bind_eq_error] at h
        obtain h | ⟨cs, -, h⟩ := h
        · obtain ⟨before, b, after, rfl, hbefore, hb⟩ := ih.mp h
          exact ⟨a :: before, b, after, rfl, by simpa using ⟨⟨c, hc⟩, hbefore⟩, hb⟩
        · contradiction
    · rintro ⟨before, b, after, heq, hbefore, hb⟩
      cases before with
      | nil =>
        cases heq
        exact .inl hb
      | cons _ before =>
        cases heq
        obtain ⟨⟨c, hc⟩, hbefore⟩ := List.forall_mem_cons.mp hbefore
        refine .inr ⟨c, hc, bind_eq_error.mpr (.inl ?_)⟩
        exact ih.mpr ⟨before, b, after, rfl, hbefore, hb⟩

theorem filterAuxM_map_eq_ok {f : β → Except ε Bool} {g : α → β} {p : α → Bool} {items : List α}
    {kept : List β} (h : ∀ a ∈ items, f (g a) = .ok (p a)) :
    (items.map g).filterAuxM f kept = .ok (((items.filter p).map g).reverse ++ kept) := by
  induction items generalizing kept with
  | nil => rfl
  | cons a items ih =>
    obtain ⟨ha, hitems⟩ := List.forall_mem_cons.mp h
    rw [List.map_cons, List.filterAuxM, ha]
    refine (ih hitems).trans ?_
    cases hp : p a <;> simp [hp]

/-- A filter that never fails. -/
theorem filterM_map_eq_ok {f : β → Except ε Bool} {g : α → β} {p : α → Bool} {items : List α}
    (h : ∀ a ∈ items, f (g a) = .ok (p a)) : (items.map g).filterM f = .ok ((items.filter p).map g) := by
  rw [List.filterM, filterAuxM_map_eq_ok h]
  simp [bind, Except.bind, pure, Except.pure]

/-- What every step keeps holds at the end. -/
theorem foldlM_invariant {p : β → Prop} {step : β → α → Except ε β} {items : List α}
    (hstep : ∀ b a b', a ∈ items → p b → step b a = .ok b' → p b') {b b' : β} (hb : p b)
    (h : items.foldlM step b = .ok b') : p b' := by
  induction items generalizing b with
  | nil =>
    cases h
    exact hb
  | cons a items ih =>
    rw [List.foldlM_cons] at h
    obtain ⟨next, hnext, hrest⟩ := bind_eq_ok.mp h
    have hmem := fun x (hx : x ∈ items) => List.mem_cons_of_mem a hx
    exact ih (fun c x d hx => hstep c x d (hmem x hx))
      (hstep b a next List.mem_cons_self hb hnext) hrest

/-- Steps fail where the steps before one end and it fails. -/
theorem foldlM_eq_error {step : β → α → Except ε β} {items : List α} {b : β} {e : ε} :
    items.foldlM step b = .error e ↔ ∃ before a after c,
      items = before ++ a :: after ∧ before.foldlM step b = .ok c ∧ step c a = .error e := by
  constructor
  · intro h
    induction items generalizing b with
    | nil => contradiction
    | cons a items ih =>
      rw [List.foldlM_cons] at h
      cases hnext : step b a with
      | error e' =>
        rw [hnext] at h
        cases h
        exact ⟨[], a, items, b, rfl, rfl, hnext⟩
      | ok next =>
        rw [hnext] at h
        obtain ⟨before, a', after, c, rfl, hbefore, hfail⟩ := ih h
        refine ⟨a :: before, a', after, c, rfl, ?_, hfail⟩
        rw [List.foldlM_cons, hnext]
        exact hbefore
  · rintro ⟨before, a, after, c, rfl, hbefore, hfail⟩
    rw [List.foldlM_append, hbefore]
    change List.foldlM step c (a :: after) = .error e
    rw [List.foldlM_cons, hfail]
    rfl

end Spreadsheet
