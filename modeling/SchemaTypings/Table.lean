namespace SchemaTypings

class Named (α : Type) where
  name : α → String

export Named (name)

variable {α : Type} [Named α]

def put (a : α) : List α → List α
  | [] => [a]
  | b :: r => if name b = name a then a :: r else b :: put a r

theorem names_put (a : α) (l : List α) :
    (put a l).map name = if name a ∈ l.map name then l.map name else l.map name ++ [name a] := by
  induction l with
  | nil => simp [put]
  | cons b r ih =>
    by_cases h : name b = name a
    · simp [put, h]
    · have hne : name a ≠ name b := fun he => h he.symm
      by_cases hm : name a ∈ r.map name
      · simp only [put, h, ↓reduceIte, List.map_cons, ih, hm, List.mem_cons, or_true]
      · simp only [put, h, ↓reduceIte, List.map_cons, ih, hm, List.mem_cons, hne, or_self,
          List.cons_append]

theorem find?_put (a : α) (l : List α) (n : String) :
    (put a l).find? (fun b => name b == n) =
      if name a = n then some a else l.find? fun b => name b == n := by
  induction l with
  | nil => by_cases h : name a = n <;> simp [put, h]
  | cons b r ih =>
    by_cases hb : name b = name a
    · by_cases h : name a = n <;> simp [put, hb, h]
    · by_cases h : name a = n
      · have hn : name b ≠ n := fun he => hb (he.trans h.symm)
        rw [put, if_neg hb, List.find?_cons_of_neg (by simpa using hn), ih, if_pos h, if_pos h]
      · simp only [put, hb, ↓reduceIte, List.find?_cons, ih, h]

theorem mem_put {a b : α} {l : List α} (h : b ∈ put a l) : b = a ∨ b ∈ l := by
  induction l with
  | nil => exact .inl (List.mem_singleton.1 h)
  | cons c r ih =>
    by_cases hc : name c = name a
    · rw [put, if_pos hc] at h
      exact (List.mem_cons.1 h).imp_right (List.mem_cons_of_mem _)
    · rw [put, if_neg hc] at h
      obtain rfl | h := List.mem_cons.1 h
      · exact .inr (List.mem_cons_self ..)
      · exact (ih h).imp_right (List.mem_cons_of_mem _)

theorem put_eq_append {a : α} {l : List α} (h : name a ∉ l.map name) : put a l = l ++ [a] := by
  induction l with
  | nil => rfl
  | cons b r ih =>
    obtain ⟨hb, hr⟩ := not_or.1 (mt List.mem_cons.2 h)
    simp only [put, Ne.symm hb, ↓reduceIte, ih hr, List.cons_append]

structure Table (α : Type) [Named α] where
  toList : List α
  nodup : (toList.map name).Nodup

namespace Table

theorem ext {s t : Table α} (h : s.toList = t.toList) : s = t := by
  cases s; cases t; cases h; rfl

instance [DecidableEq α] : DecidableEq (Table α) := fun s t =>
  decidable_of_iff (s.toList = t.toList) ⟨ext, fun h => h ▸ rfl⟩

def empty : Table α := ⟨[], List.nodup_nil⟩

instance : Inhabited (Table α) := ⟨empty⟩

def names (t : Table α) : List String :=
  t.toList.map name

def size (t : Table α) : Nat :=
  t.toList.length

def get? (t : Table α) (n : String) : Option α :=
  t.toList.find? fun a => name a == n

def contains (t : Table α) (n : String) : Bool :=
  t.toList.any fun a => name a == n

/-- The entry takes the place of the one that has its name, or comes last. -/
def insert (t : Table α) (a : α) : Table α where
  toList := put a t.toList
  nodup := by
    rw [names_put]
    split
    · exact t.nodup
    · next h =>
      refine List.nodup_append.2 ⟨t.nodup, by simp, ?_⟩
      rintro x hx y hy rfl
      exact h (List.mem_singleton.1 hy ▸ hx)

def insertAll (t : Table α) (l : List α) : Table α :=
  l.foldl insert t

def ofList (l : List α) : Table α :=
  empty.insertAll l

theorem names_insert (t : Table α) (a : α) :
    (t.insert a).names = if name a ∈ t.names then t.names else t.names ++ [name a] :=
  names_put a t.toList

theorem mem_of_get? {t : Table α} {n : String} {a : α} (h : t.get? n = some a) :
    a ∈ t.toList ∧ name a = n :=
  ⟨List.mem_of_find?_eq_some h, by simpa using List.find?_some h⟩

theorem get?_eq_none {t : Table α} {n : String} : t.get? n = none ↔ n ∉ t.names := by
  simp [get?, names]

theorem get?_of_mem {t : Table α} {a : α} (h : a ∈ t.toList) : t.get? (name a) = some a := by
  obtain ⟨l, hn⟩ := t
  simp only [get?] at h ⊢
  induction l with
  | nil => simp at h
  | cons b r ih =>
    obtain ⟨hb, hr⟩ := List.nodup_cons.1 hn
    obtain rfl | h := List.mem_cons.1 h
    · simp
    · have hne : name b ≠ name a := fun he => hb (he ▸ List.mem_map_of_mem h)
      simpa [hne] using ih hr h

theorem get?_insert (t : Table α) (a : α) (n : String) :
    (t.insert a).get? n = if name a = n then some a else t.get? n :=
  find?_put a t.toList n

theorem toList_insert_of_new {t : Table α} {a : α} (h : t.get? (name a) = none) :
    (t.insert a).toList = t.toList ++ [a] :=
  put_eq_append (get?_eq_none.1 h)

theorem mem_insertAll {t : Table α} {l : List α} {a : α} (h : a ∈ (t.insertAll l).toList) :
    a ∈ t.toList ∨ a ∈ l := by
  induction l generalizing t with
  | nil => exact .inl h
  | cons b r ih =>
    obtain h | h := ih (t := t.insert b) h
    · exact (mem_put h).elim (fun he => .inr (he ▸ List.mem_cons_self ..)) .inl
    · exact .inr (List.mem_cons_of_mem _ h)

theorem mem_ofList {l : List α} {a : α} (h : a ∈ (ofList l).toList) : a ∈ l :=
  (mem_insertAll h).resolve_left List.not_mem_nil

theorem contains_iff {t : Table α} {n : String} : t.contains n = true ↔ n ∈ t.names := by
  simp [contains, names]

end Table

end SchemaTypings
