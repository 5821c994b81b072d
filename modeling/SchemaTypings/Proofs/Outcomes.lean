namespace SchemaTypings

/-- The first of some values for which a function fails, and how. -/
def FirstFailure {ε α β : Type} (f : α → Except ε β) (l : List α) (e : ε) : Prop :=
  ∃ before x after, l = before ++ x :: after ∧ (∀ y ∈ before, ∃ b, f y = .ok b) ∧ f x = .error e

variable {ε ε' α β : Type} {e : ε}

section Single

variable {x : Except ε α}

theorem exists_of_isOk (h : x.isOk = true) : ∃ a, x = .ok a := by
  cases x with
  | ok a => exact ⟨a, rfl⟩
  | error e => cases h

theorem eq_ok_of_toOption {a : α} (h : x.toOption = some a) : x = .ok a := by
  cases x with
  | ok b => exact congrArg Except.ok (Option.some.inj h)
  | error e => cases h

theorem toOption_map (g : α → β) (x : Except ε α) : (x.map g).toOption = x.toOption.map g := by
  cases x <;> rfl

theorem map_eq_ok_iff {g : α → β} {b : β} :
    x.map g = .ok b ↔ ∃ a, x = .ok a ∧ g a = b := by
  cases x <;> simp [Except.map]

theorem map_eq_error_iff {g : α → β} : x.map g = .error e ↔ x = .error e := by
  cases x <;> simp [Except.map]

theorem mapError_bind_eq_ok_iff {g : ε → ε'} {k : α → Except ε' β} {b : β} :
    (x.mapError g >>= k) = .ok b ↔ ∃ a, x = .ok a ∧ k a = .ok b := by
  cases x with
  | error e => exact iff_of_false nofun nofun
  | ok a => exact ⟨fun h => ⟨a, rfl, h⟩, fun ⟨_, ha, h⟩ => Except.ok.inj ha ▸ h⟩

theorem mapError_bind_eq_error_iff {g : ε → ε'} {k : α → Except ε' β} {e' : ε'} :
    (x.mapError g >>= k) = .error e' ↔
      (∃ e, x = .error e ∧ g e = e') ∨ ∃ a, x = .ok a ∧ k a = .error e' := by
  cases x with
  | error e =>
    refine ⟨fun h => .inl ⟨e, rfl, Except.error.inj h⟩, ?_⟩
    rintro (⟨_, ⟨⟩, rfl⟩ | ⟨_, ⟨⟩, _⟩)
    rfl
  | ok a =>
    refine ⟨fun h => .inr ⟨a, rfl, h⟩, ?_⟩
    rintro (⟨_, ⟨⟩, _⟩ | ⟨_, ⟨⟩, h⟩)
    exact h

end Single

section Lists

variable {f : α → Except ε β} {l : List α}

theorem mapM_cons_ok {x : α} {b : β} (h : f x = .ok b) (l : List α) :
    (x :: l).mapM f = (l.mapM f).map fun bs => b :: bs := by
  rw [List.mapM_cons, h]
  cases l.mapM f <;> rfl

theorem mapM_cons_error {x : α} (h : f x = .error e) (l : List α) :
    (x :: l).mapM f = .error e := by
  rw [List.mapM_cons, h]
  rfl

theorem not_firstFailure_nil : ¬ FirstFailure f [] e := by
  rintro ⟨before, x, after, h, -⟩
  exact List.append_ne_nil_of_right_ne_nil before (List.cons_ne_nil x after) h.symm

theorem firstFailure_cons_ok {x : α} {b : β} (h : f x = .ok b) :
    FirstFailure f (x :: l) e ↔ FirstFailure f l e := by
  constructor
  · rintro ⟨_ | ⟨y, before⟩, z, after, hl, hbefore, he⟩
    · rw [← (List.cons.inj hl).1, h] at he
      cases he
    · exact ⟨before, z, after, (List.cons.inj hl).2, (List.forall_mem_cons.1 hbefore).2, he⟩
  · rintro ⟨before, z, after, rfl, hbefore, he⟩
    exact ⟨x :: before, z, after, rfl, List.forall_mem_cons.2 ⟨⟨b, h⟩, hbefore⟩, he⟩

theorem firstFailure_cons_error {x : α} {e' : ε} (h : f x = .error e') :
    FirstFailure f (x :: l) e ↔ e' = e := by
  constructor
  · rintro ⟨_ | ⟨y, before⟩, z, after, hl, hbefore, he⟩
    · rw [← (List.cons.inj hl).1, h] at he
      exact Except.error.inj he
    · obtain ⟨⟨b, hb⟩, -⟩ := List.forall_mem_cons.1 hbefore
      rw [← (List.cons.inj hl).1, h] at hb
      cases hb
  · rintro rfl
    exact ⟨[], x, l, rfl, List.forall_mem_nil _, h⟩

theorem mapM_eq_error_iff : l.mapM f = .error e ↔ FirstFailure f l e := by
  induction l with
  | nil => exact iff_of_false nofun not_firstFailure_nil
  | cons x l ih =>
    cases hx : f x with
    | error e' => rw [mapM_cons_error hx, firstFailure_cons_error hx, Except.error.injEq]
    | ok b => rw [mapM_cons_ok hx, map_eq_error_iff, ih, firstFailure_cons_ok hx]

theorem mapM_eq_ok_iff {bs : List β} : l.mapM f = .ok bs ↔ l.map f = bs.map .ok := by
  induction l generalizing bs with
  | nil =>
    rw [List.mapM_nil, List.map_nil, eq_comm (a := []), List.map_eq_nil_iff]
    exact ⟨fun h => (Except.ok.inj h).symm, fun h => congrArg _ h.symm⟩
  | cons x l ih =>
    cases hx : f x with
    | error e =>
      rw [mapM_cons_error hx]
      refine iff_of_false nofun ?_
      cases bs <;> simp [hx]
    | ok b =>
      rw [mapM_cons_ok hx, map_eq_ok_iff]
      cases bs with
      | nil => simp
      | cons c bs =>
        simp only [ih, hx, List.map_cons, List.cons.injEq, Except.ok.injEq]
        constructor
        · rintro ⟨_, h, rfl, rfl⟩
          exact ⟨rfl, h⟩
        · rintro ⟨rfl, h⟩
          exact ⟨bs, h, rfl, rfl⟩

theorem mem_of_mapM {bs : List β} (h : l.mapM f = .ok bs) {b : β} :
    b ∈ bs ↔ ∃ x ∈ l, f x = .ok b := by
  have hmem : Except.ok b ∈ bs.map (Except.ok (ε := ε)) ↔ b ∈ bs := by simp
  rw [← hmem, ← mapM_eq_ok_iff.1 h, List.mem_map]

end Lists

end SchemaTypings
