import SchemaTypings.Table

namespace SchemaTypings

variable {α β : Type} [Named α] [Named β]

theorem map_put_eq (f : α → β) (hf : ∀ a, name (f a) = name a) (a : α) (l : List α) :
    (put a l).map f = put (f a) (l.map f) := by
  induction l with
  | nil => rfl
  | cons b r ih =>
    by_cases h : name b = name a
    · simp [put, hf, h]
    · simp [put, hf, h, ih]

theorem put_eq_self {a : α} {l : List α} (h : l.find? (fun b => name b == name a) = some a) :
    put a l = l := by
  induction l with
  | nil => cases h
  | cons b r ih =>
    by_cases hb : name b = name a
    · have he : b = a := by simpa [hb] using h
      rw [put, if_pos hb, he]
    · have hr : r.find? (fun c => name c == name a) = some a := by simpa [hb] using h
      rw [put, if_neg hb, ih hr]

theorem put_eq_map {a : α} {l : List α} (hl : (l.map name).Nodup)
    (ha : name a ∈ l.map name) : put a l = l.map fun b => if name b = name a then a else b := by
  induction l with
  | nil => cases ha
  | cons b r ih =>
    obtain ⟨hb, hr⟩ := List.nodup_cons.1 hl
    by_cases h : name b = name a
    · have hrest : ∀ c ∈ r, name c ≠ name a := fun c hc he =>
        hb (List.mem_map.2 ⟨c, hc, he.trans h.symm⟩)
      have hid : r.map (fun c => if name c = name a then a else c) = r :=
        (List.map_congr_left fun c hc => if_neg (hrest c hc)).trans (List.map_id r)
      rw [put, if_pos h, List.map_cons, if_pos h, hid]
    · have hm : name a ∈ r.map name := (List.mem_cons.1 ha).resolve_left (Ne.symm h)
      rw [put, if_neg h, List.map_cons, if_neg h, ih hr hm]

namespace Table

def map (t : Table α) (f : α → β) (hf : ∀ a, name (f a) = name a) : Table β where
  toList := t.toList.map f
  nodup := by
    rw [List.map_map, show name ∘ f = name from funext hf]
    exact t.nodup

variable (t : Table α) (f : α → β) (hf : ∀ a, name (f a) = name a)

theorem names_map : (t.map f hf).names = t.names := by
  rw [names, map, List.map_map, show name ∘ f = name from funext hf]
  rfl

theorem get?_map (n : String) : (t.map f hf).get? n = (t.get? n).map f := by
  have hp : ((fun b => name b == n) ∘ f) = fun a => name a == n := funext fun a =>
    congrArg (· == n) (hf a)
  rw [get?, map, List.find?_map, hp]
  rfl

theorem contains_map (n : String) : (t.map f hf).contains n = t.contains n := by
  have h : (t.map f hf).contains n = true ↔ t.contains n = true := by
    rw [contains_iff, contains_iff, names_map]
  exact Bool.eq_iff_iff.2 h

theorem map_insert (a : α) : (t.insert a).map f hf = (t.map f hf).insert (f a) :=
  ext (map_put_eq f hf a t.toList)

theorem insert_eq_self {t : Table α} {a : α} (h : t.get? (name a) = some a) : t.insert a = t :=
  ext (put_eq_self h)

end Table

def lastNamed (n : String) (l : List α) : Option α :=
  (l.filter fun a => name a == n).getLast?

theorem lastNamed_cons (n : String) (a : α) (l : List α) :
    lastNamed n (a :: l) = (lastNamed n l).or (if name a = n then some a else none) := by
  unfold lastNamed
  by_cases h : name a = n
  · rw [List.filter_cons_of_pos (by simpa using h), if_pos h, List.getLast?_cons]
    cases (l.filter fun b => name b == n).getLast? <;> rfl
  · rw [List.filter_cons_of_neg (by simpa using h), if_neg h, Option.or_none]

theorem exists_lastNamed {a : α} {l : List α} (h : a ∈ l) :
    ∃ b ∈ l, lastNamed (name a) l = some b ∧ name b = name a := by
  have hne : l.filter (fun b => name b == name a) ≠ [] :=
    List.ne_nil_of_mem (List.mem_filter.2 ⟨h, beq_self_eq_true _⟩)
  obtain ⟨hmem, hname⟩ := List.mem_filter.1 (List.getLast_mem hne)
  exact ⟨_, hmem, List.getLast?_eq_some_getLast hne, eq_of_beq hname⟩

namespace Table

theorem get?_insertAll (t : Table α) (l : List α) (n : String) :
    (t.insertAll l).get? n = (lastNamed n l).or (t.get? n) := by
  induction l generalizing t with
  | nil => rfl
  | cons a l ih =>
    have hstep : (t.insertAll (a :: l)).get? n = (lastNamed n l).or ((t.insert a).get? n) :=
      ih (t.insert a)
    rw [hstep, get?_insert, lastNamed_cons, Option.or_assoc]
    by_cases h : name a = n <;> simp [h]

theorem get?_ofList (l : List α) (n : String) : (ofList l).get? n = lastNamed n l :=
  (empty.get?_insertAll l n).trans (Option.or_none ..)

theorem insertAll_append (t : Table α) (l r : List α) :
    t.insertAll (l ++ r) = (t.insertAll l).insertAll r :=
  List.foldl_append ..

theorem toList_insertAll_of_new (t : Table α) {l : List α} (hl : (l.map name).Nodup)
    (hn : ∀ a ∈ l, name a ∉ t.names) : (t.insertAll l).toList = t.toList ++ l := by
  induction l generalizing t with
  | nil => exact (List.append_nil _).symm
  | cons a l ih =>
    obtain ⟨ha, hl⟩ := List.nodup_cons.1 hl
    obtain ⟨hnew, hn⟩ := List.forall_mem_cons.1 hn
    have hput : (t.insert a).toList = t.toList ++ [a] := toList_insert_of_new (get?_eq_none.2 hnew)
    have hrest : ∀ b ∈ l, name b ∉ (t.insert a).names := by
      intro b hb hm
      rw [names, hput, List.map_append, List.mem_append, List.map_singleton,
        List.mem_singleton] at hm
      obtain hm | he := hm
      · exact hn b hb hm
      · exact ha (he ▸ List.mem_map_of_mem hb)
    have hstep : (t.insertAll (a :: l)).toList = (t.insert a).toList ++ l := ih (t.insert a) hl hrest
    rw [hstep, hput, List.append_assoc, List.singleton_append]

/-- A table is what its own entries make. -/
theorem ofList_toList (t : Table α) : ofList t.toList = t :=
  ext (empty.toList_insertAll_of_new t.nodup fun _ _ => List.not_mem_nil)

theorem get?_overlay (t u : Table α) (n : String) :
    (t.insertAll u.toList).get? n = (u.get? n).or (t.get? n) := by
  rw [get?_insertAll, ← get?_ofList, ofList_toList]

end Table

end SchemaTypings
