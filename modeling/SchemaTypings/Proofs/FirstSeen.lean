import SchemaTypings.Schema.Merge

namespace SchemaTypings

variable {α β : Type} [Named α] [Named β]

/-- The entries whose names are neither in `seen` nor further ahead in the list. -/
def unseen (seen : List String) : List α → List α
  | [] => []
  | a :: r => if name a ∈ seen then unseen seen r else a :: unseen (name a :: seen) r

/-- The entries that are the first of their names. -/
def firstSeen (l : List α) : List α :=
  unseen [] l

theorem names_strings (l : List String) : l.map name = l :=
  List.map_id l

theorem unseen_congr {s t : List String} (h : ∀ n, n ∈ s ↔ n ∈ t) (l : List α) :
    unseen s l = unseen t l := by
  induction l generalizing s t with
  | nil => rfl
  | cons a r ih =>
    have hc : ∀ n, n ∈ name a :: s ↔ n ∈ name a :: t := fun n => by simp [h n]
    simp only [unseen, h (name a), ih h, ih hc]

theorem unseen_append (s : List String) (l r : List α) :
    unseen s (l ++ r) = unseen s l ++ unseen (l.map name ++ s) r := by
  induction l generalizing s with
  | nil => rfl
  | cons a l ih =>
    by_cases h : name a ∈ s
    · have hc : ∀ n, n ∈ l.map name ++ s ↔ n ∈ (a :: l).map name ++ s := fun n => by
        constructor
        · intro hn
          exact List.mem_cons_of_mem _ hn
        · intro hn
          obtain rfl | hn := List.mem_cons.1 hn
          · exact List.mem_append_right _ h
          · exact hn
      simp only [List.cons_append, unseen, h, ↓reduceIte, ih, unseen_congr hc]
    · have hc : ∀ n, n ∈ l.map name ++ name a :: s ↔ n ∈ (a :: l).map name ++ s := fun n => by
        simp only [List.mem_append, List.mem_cons, List.map_cons, or_assoc, or_left_comm]
      simp only [List.cons_append, unseen, h, ↓reduceIte, ih, unseen_congr hc]

theorem mem_names_unseen {s : List String} {l : List α} {n : String} :
    n ∈ (unseen s l).map name ↔ n ∈ l.map name ∧ n ∉ s := by
  induction l generalizing s with
  | nil => simp [unseen]
  | cons a r ih =>
    by_cases h : name a ∈ s
    · simp only [unseen, h, ↓reduceIte, ih, List.map_cons, List.mem_cons]
      constructor
      · exact fun hn => ⟨.inr hn.1, hn.2⟩
      · rintro ⟨rfl | hn, hs⟩
        · exact absurd h hs
        · exact ⟨hn, hs⟩
    · simp only [unseen, h, ↓reduceIte, List.map_cons, List.mem_cons, ih]
      constructor
      · rintro (rfl | hn)
        · exact ⟨.inl rfl, h⟩
        · exact ⟨.inr hn.1, fun hs => hn.2 (.inr hs)⟩
      · rintro ⟨hn, hs⟩
        by_cases he : n = name a
        · exact .inl he
        · exact .inr ⟨hn.resolve_left he, fun ho => ho.elim he hs⟩

theorem mem_of_mem_unseen {s : List String} {l : List α} {a : α} (h : a ∈ unseen s l) : a ∈ l := by
  induction l generalizing s with
  | nil => exact h
  | cons b r ih =>
    by_cases hb : name b ∈ s
    · rw [unseen, if_pos hb] at h
      exact List.mem_cons_of_mem _ (ih h)
    · rw [unseen, if_neg hb] at h
      exact List.mem_cons.2 ((List.mem_cons.1 h).imp_right ih)

theorem nodup_names_unseen (s : List String) (l : List α) : ((unseen s l).map name).Nodup := by
  induction l generalizing s with
  | nil => exact List.nodup_nil
  | cons a r ih =>
    by_cases h : name a ∈ s
    · simpa only [unseen, h, ↓reduceIte] using ih s
    · have hn : name a ∉ (unseen (name a :: s) r).map name := fun hm =>
        (mem_names_unseen.1 hm).2 (List.mem_cons_self ..)
      simpa only [unseen, h, ↓reduceIte, List.map_cons] using
        List.nodup_cons.2 ⟨hn, ih (name a :: s)⟩

theorem map_unseen (f : α → β) (hf : ∀ a, name (f a) = name a) (s : List String) (l : List α) :
    (unseen s l).map f = unseen s (l.map f) := by
  induction l generalizing s with
  | nil => rfl
  | cons a r ih => by_cases h : name a ∈ s <;> simp [unseen, hf, h, ih]

theorem unseen_eq_self {s : List String} {l : List α} (hl : (l.map name).Nodup)
    (hs : ∀ a ∈ l, name a ∉ s) : unseen s l = l := by
  induction l generalizing s with
  | nil => rfl
  | cons a r ih =>
    obtain ⟨ha, hr⟩ := List.nodup_cons.1 hl
    have h : ∀ b ∈ r, name b ∉ name a :: s := fun b hb hm => by
      obtain he | hm := List.mem_cons.1 hm
      · exact ha (he ▸ List.mem_map_of_mem hb)
      · exact hs b (List.mem_cons_of_mem _ hb) hm
    simp only [unseen, hs a (List.mem_cons_self ..), ↓reduceIte, ih hr h]

theorem addNew_eq (l r : List α) : addNew l r = l ++ unseen (l.map name) r := by
  induction r generalizing l with
  | nil => simp [addNew, unseen]
  | cons a r ih =>
    have hm : (l.any fun b => name b == name a) = true ↔ name a ∈ l.map name := by simp
    by_cases h : name a ∈ l.map name
    · simp only [addNew, hm.2 h, unseen, h, ↓reduceIte, ih]
    · have hc : ∀ n, n ∈ (l ++ [a]).map name ↔ n ∈ name a :: l.map name := fun n => by
        simp [or_comm]
      have hf : ¬(l.any fun b => name b == name a) = true := fun ht => h (hm.1 ht)
      simp only [addNew, hf, unseen, h, ↓reduceIte, ih, unseen_congr hc, List.append_assoc,
        List.singleton_append, Bool.false_eq_true]

theorem addNew_eq_self {l r : List α} (h : ∀ a ∈ r, name a ∈ l.map name) : addNew l r = l := by
  have hu : (unseen (l.map name) r).map name = [] := by
    refine List.eq_nil_iff_forall_not_mem.2 fun n hn => ?_
    obtain ⟨hr, hl⟩ := mem_names_unseen.1 hn
    obtain ⟨a, ha, rfl⟩ := List.mem_map.1 hr
    exact hl (h a ha)
  rw [addNew_eq, List.map_eq_nil_iff.1 hu, List.append_nil]

theorem mem_names_addNew {l r : List α} {n : String} :
    n ∈ (addNew l r).map name ↔ n ∈ l.map name ∨ n ∈ r.map name := by
  rw [addNew_eq, List.map_append, List.mem_append, mem_names_unseen]
  constructor
  · exact fun h => h.imp_right And.left
  · rintro (h | h)
    · exact .inl h
    · by_cases hl : n ∈ l.map name
      · exact .inl hl
      · exact .inr ⟨h, hl⟩

theorem addNew_append (l r w : List α) : addNew l (r ++ w) = addNew (addNew l r) w := by
  induction r generalizing l with
  | nil => rfl
  | cons a r ih => by_cases h : l.any fun b => name b == name a <;> simp [addNew, h, ih]

theorem firstSeen_append (l r : List α) :
    firstSeen (l ++ r) = firstSeen l ++ unseen (l.map name) r := by
  simp only [firstSeen, unseen_append, List.append_nil]

theorem mem_names_firstSeen {l : List α} {n : String} :
    n ∈ (firstSeen l).map name ↔ n ∈ l.map name := by
  simp [firstSeen, mem_names_unseen]

theorem names_unseen_of_nodup {s : List String} {l : List α} (hl : (l.map name).Nodup) :
    (unseen s l).map name = (l.map name).filter (· ∉ s) := by
  induction l generalizing s with
  | nil => rfl
  | cons a r ih =>
    obtain ⟨ha, hr⟩ := List.nodup_cons.1 hl
    by_cases h : name a ∈ s
    · simp [unseen, h, ih hr]
    · have hkeep : (r.map name).filter (· ∉ name a :: s) = (r.map name).filter (· ∉ s) := by
        refine List.filter_congr fun n hn => ?_
        have hne : n ≠ name a := fun he => ha (he ▸ hn)
        simp [hne]
      rw [unseen, if_neg h, List.map_cons, ih hr, hkeep, List.map_cons,
        List.filter_cons_of_pos (by simpa using h)]

/-- Names that are new to a table come behind the others, in the order in which they come first. -/
theorem Table.names_insertAll (t : Table α) (l : List α) :
    (t.insertAll l).names = t.names ++ (unseen t.names l).map name := by
  induction l generalizing t with
  | nil => exact (List.append_nil _).symm
  | cons a r ih =>
    have hstep : (t.insertAll (a :: r)).names =
        (t.insert a).names ++ (unseen (t.insert a).names r).map name := ih (t.insert a)
    rw [hstep, names_insert]
    by_cases h : name a ∈ t.names
    · rw [if_pos h, unseen, if_pos h]
    · have hseen : ∀ n, n ∈ t.names ++ [name a] ↔ n ∈ name a :: t.names := fun n => by
        simp [or_comm]
      rw [if_neg h, unseen, if_neg h, unseen_congr hseen, List.map_cons, List.append_assoc,
        List.singleton_append]

theorem Table.names_ofList (l : List α) : (ofList l).names = (firstSeen l).map name :=
  empty.names_insertAll l

end SchemaTypings
