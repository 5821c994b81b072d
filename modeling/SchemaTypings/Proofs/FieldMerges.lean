import Mathlib.Data.List.Nodup
import SchemaTypings.Proofs.FirstSeen
import SchemaTypings.Proofs.Tables

namespace SchemaTypings

namespace Table

variable {t : Table Field} {k : Field}

/-- The table has no field of this name, or one of the same type. -/
def Takes (t : Table Field) (k : Field) : Prop :=
  ∀ g, t.get? k.name = some g → g.type = k.type

def joined (t : Table Field) (k : Field) : Field :=
  (t.get? k.name).elim k fun g => g.merge k

def join (t : Table Field) (k : Field) : Table Field :=
  t.insert (t.joined k)

theorem name_joined (t : Table Field) (k : Field) : name (t.joined k) = k.name := by
  unfold joined
  cases hg : t.get? k.name with
  | none => rfl
  | some g => exact (mem_of_get? hg).2

theorem get?_join (t : Table Field) (k : Field) (n : String) :
    (t.join k).get? n = if k.name = n then some (t.joined k) else t.get? n := by
  rw [join, get?_insert, name_joined]

theorem get?_join_of_ne {n : String} (h : k.name ≠ n) : (t.join k).get? n = t.get? n := by
  rw [get?_join, if_neg h]

theorem takes_join_iff {f : Field} (h : k.name ≠ f.name) : (t.join k).Takes f ↔ t.Takes f := by
  rw [Takes, get?_join_of_ne h]
  rfl

theorem exists_of_not_takes (h : ¬ t.Takes k) : ∃ g, t.get? k.name = some g ∧ g.type ≠ k.type := by
  simpa only [Takes, not_forall, exists_prop] using h

end Table

/-- A field with the description of the incoming field of its name, if it has none itself. -/
def Field.takeFrom (g : Field) (incoming : List Field) : Field :=
  (incoming.find? fun f => f.name == g.name).elim g g.merge

/-- Fields with incoming ones merged in. Those of new names come behind. -/
def joinFields (current incoming : List Field) : List Field :=
  current.map (fun g => g.takeFrom incoming) ++ unseen (current.map name) incoming

section Joins

variable {l fs : List Field} {g k : Field}

theorem name_takeFrom (g : Field) (fs : List Field) : name (g.takeFrom fs) = name g := by
  unfold Field.takeFrom
  cases fs.find? fun f => f.name == g.name <;> rfl

theorem takeFrom_of_not_mem (h : name g ∉ fs.map name) : g.takeFrom fs = g := by
  have hn : fs.find? (fun f => f.name == g.name) = none :=
    List.find?_eq_none.2 fun f hf he => h (List.mem_map.2 ⟨f, hf, eq_of_beq he⟩)
  rw [Field.takeFrom, hn]
  rfl

theorem takeFrom_cons (g k : Field) (fs : List Field) :
    g.takeFrom (k :: fs) = if name k = name g then g.merge k else g.takeFrom fs := by
  by_cases h : k.name = g.name
  · rw [if_pos (show name k = name g from h)]
    simp [Field.takeFrom, h]
  · rw [if_neg (show ¬ name k = name g from h)]
    simp [Field.takeFrom, h]

theorem takeFrom_singleton (g k : Field) :
    g.takeFrom [k] = if name k = name g then g.merge k else g :=
  takeFrom_cons g k []

theorem takeFrom_nil (g : Field) : g.takeFrom [] = g := rfl

theorem names_takeFrom (l fs : List Field) :
    (l.map fun g => g.takeFrom fs).map name = l.map name := by
  rw [List.map_map]
  exact List.map_congr_left fun g _ => name_takeFrom g fs

theorem joinFields_nil (l : List Field) : joinFields l [] = l := by
  simp [joinFields, takeFrom_nil, unseen]

theorem joinFields_cons (hk : name k ∉ fs.map name) :
    joinFields (joinFields l [k]) fs = joinFields l (k :: fs) := by
  have hold : (l.map fun g => g.takeFrom [k]).map (fun g => g.takeFrom fs) =
      l.map fun g => g.takeFrom (k :: fs) := by
    rw [List.map_map]
    refine List.map_congr_left fun g _ => ?_
    rw [Function.comp, takeFrom_singleton, takeFrom_cons]
    split
    · next h => exact takeFrom_of_not_mem (show name g ∉ _ from h ▸ hk)
    · rfl
  by_cases h : name k ∈ l.map name
  · have hone : joinFields l [k] = l.map fun g => g.takeFrom [k] := by simp [joinFields, unseen, h]
    rw [hone, joinFields, hold, names_takeFrom, joinFields, unseen, if_pos h]
  · have hone : joinFields l [k] = (l.map fun g => g.takeFrom [k]) ++ [k] := by
      simp [joinFields, unseen, h]
    have hseen : ∀ n, n ∈ ((l.map fun g => g.takeFrom [k]) ++ [k]).map name ↔
        n ∈ name k :: l.map name := fun n => by
      rw [List.map_append, names_takeFrom, List.mem_append, List.mem_cons, or_comm]
      exact or_congr_left List.mem_singleton
    rw [hone, joinFields, unseen_congr hseen, List.map_append, hold, joinFields, unseen, if_neg h,
      List.append_assoc, List.map_singleton, takeFrom_of_not_mem hk, List.singleton_append]

end Joins

namespace Table

variable {t u : Table Field} {k : Field}

theorem toList_join (t : Table Field) (k : Field) :
    (t.join k).toList = joinFields t.toList [k] := by
  cases hg : t.get? k.name with
  | none =>
    have hk : name k ∉ t.toList.map name := get?_eq_none.1 hg
    have hold : t.toList.map (fun g => g.takeFrom [k]) = t.toList := by
      refine (List.map_congr_left fun g hm => ?_).trans (List.map_id _)
      have hne : name k ≠ name g := fun he => hk (he ▸ List.mem_map_of_mem hm)
      rw [takeFrom_singleton, if_neg hne]
      rfl
    have hl : (t.join k).toList = t.toList ++ [k] := by
      rw [join, joined, hg]
      exact toList_insert_of_new hg
    rw [hl, joinFields, hold, unseen, if_neg hk]
    rfl
  | some g =>
    obtain ⟨hmem, hn⟩ := mem_of_get? hg
    have hk : name k ∈ t.toList.map name := List.mem_map.2 ⟨g, hmem, hn⟩
    have hgk : name (g.merge k) = name k := hn
    have hl : (t.join k).toList = put (g.merge k) t.toList := by
      rw [join, joined, hg]
      rfl
    rw [hl, put_eq_map t.nodup (hgk ▸ hk), joinFields, unseen, if_pos hk]
    refine (List.map_congr_left fun c hc => ?_).trans (List.append_nil _).symm
    rw [takeFrom_singleton, hgk]
    by_cases he : name c = name k
    · have hc : c = g := List.inj_on_of_nodup_map t.nodup hc hmem (he.trans hn.symm)
      rw [if_pos he, if_pos he.symm, hc]
    · rw [if_neg he, if_neg (Ne.symm he)]

end Table

section Runs

variable {type : String} {t u : Table Field} {fs pre : List Field} {g k : Field}
  {error : Option MergeError}

theorem mergeFields_cons (h : t.Takes k) (fs : List Field) :
    mergeFields type t (k :: fs) = mergeFields type (t.join k) fs := by
  cases hg : t.get? k.name with
  | none => simp only [mergeFields, hg, Table.join, Table.joined, Option.elim_none]
  | some g =>
    simp only [mergeFields, hg, h g hg, ↓reduceIte, Table.join, Table.joined, Option.elim_some]

theorem mergeFields_conflict (hg : t.get? k.name = some g) (ht : g.type ≠ k.type)
    (fs : List Field) :
    mergeFields type t (k :: fs) = (t, some (.conflictingField type k.name g.type k.type)) := by
  simp only [mergeFields, hg, ht, ↓reduceIte]

theorem mergeFields_cons_eq_ok_iff :
    mergeFields type t (k :: fs) = (u, none) ↔
      t.Takes k ∧ mergeFields type (t.join k) fs = (u, none) := by
  by_cases h : t.Takes k
  · rw [mergeFields_cons h, and_iff_right h]
  · obtain ⟨g, hg, ht⟩ := Table.exists_of_not_takes h
    simp [mergeFields_conflict hg ht, h]

theorem mergeFields_fits_iff (hfs : (fs.map name).Nodup) :
    (mergeFields type t fs).2 = none ↔ ∀ f ∈ fs, t.Takes f := by
  induction fs generalizing t with
  | nil => simp [mergeFields]
  | cons k fs ih =>
    obtain ⟨hk, hnodup⟩ := List.nodup_cons.1 hfs
    by_cases h : t.Takes k
    · have hrest : ∀ f ∈ fs, (t.join k).Takes f ↔ t.Takes f := fun f hf =>
        Table.takes_join_iff fun he => hk (List.mem_map.2 ⟨f, hf, he.symm⟩)
      rw [mergeFields_cons h, ih hnodup, List.forall_mem_cons, and_iff_right h,
        forall₂_congr hrest]
    · obtain ⟨g, hg, ht⟩ := Table.exists_of_not_takes h
      simp [mergeFields_conflict hg ht, h]

theorem toList_mergeFields (hfs : (fs.map name).Nodup)
    (h : mergeFields type t fs = (u, none)) : u.toList = joinFields t.toList fs := by
  induction fs generalizing t with
  | nil =>
    obtain ⟨rfl, -⟩ := Prod.mk.inj h
    exact (joinFields_nil _).symm
  | cons k fs ih =>
    obtain ⟨hk, hnodup⟩ := List.nodup_cons.1 hfs
    obtain ⟨-, hrest⟩ := mergeFields_cons_eq_ok_iff.1 h
    rw [ih hnodup hrest, Table.toList_join, joinFields_cons hk]

theorem mergeFields_eq_ok_iff (hfs : (fs.map name).Nodup) :
    mergeFields type t fs = (u, none) ↔
      (∀ f ∈ fs, t.Takes f) ∧ u.toList = joinFields t.toList fs := by
  constructor
  · intro h
    exact ⟨(mergeFields_fits_iff hfs).1 (congrArg Prod.snd h), toList_mergeFields hfs h⟩
  · rintro ⟨hfits, hu⟩
    have hok : mergeFields type t fs = ((mergeFields type t fs).1, none) :=
      Prod.ext rfl ((mergeFields_fits_iff hfs).2 hfits)
    rw [hok, Table.ext ((toList_mergeFields hfs hok).trans hu.symm)]

theorem get?_mergeFields (type : String) (t : Table Field) {n : String} (hn : n ∉ fs.map name) :
    (mergeFields type t fs).1.get? n = t.get? n := by
  induction fs generalizing t with
  | nil => rfl
  | cons k fs ih =>
    obtain ⟨hk, hfs⟩ := not_or.1 (mt List.mem_cons.2 hn)
    by_cases h : t.Takes k
    · rw [mergeFields_cons h, ih (t.join k) hfs]
      exact Table.get?_join_of_ne (Ne.symm hk)
    · obtain ⟨g, hg, ht⟩ := Table.exists_of_not_takes h
      rw [mergeFields_conflict hg ht]

theorem mergeFields_append (h : mergeFields type t pre = (u, none)) (fs : List Field) :
    mergeFields type t (pre ++ fs) = mergeFields type u fs := by
  induction pre generalizing t with
  | nil =>
    obtain ⟨rfl, -⟩ := Prod.mk.inj h
    rfl
  | cons k pre ih =>
    obtain ⟨hk, hpre⟩ := mergeFields_cons_eq_ok_iff.1 h
    rw [List.cons_append, mergeFields_cons hk, ih hpre]

/-- Merging stops at the first field that does not fit, with the fields before it merged in. -/
theorem mergeFields_eq_error_iff (hfs : (fs.map name).Nodup) {e : MergeError} :
    mergeFields type t fs = (u, some e) ↔
      ∃ pre k post g, fs = pre ++ k :: post ∧ mergeFields type t pre = (u, none) ∧
        t.get? k.name = some g ∧ g.type ≠ k.type ∧
        e = .conflictingField type k.name g.type k.type := by
  constructor
  · intro h
    induction fs generalizing t with
    | nil => cases h
    | cons k fs ih =>
      obtain ⟨hk, hnodup⟩ := List.nodup_cons.1 hfs
      by_cases hfits : t.Takes k
      · rw [mergeFields_cons hfits] at h
        obtain ⟨pre, c, post, g, rfl, hpre, hg, ht, he⟩ := ih hnodup h
        have hne : k.name ≠ c.name := fun hn => hk (List.mem_map.2
          ⟨c, List.mem_append_right _ (List.mem_cons_self ..), hn.symm⟩)
        rw [Table.get?_join_of_ne hne] at hg
        exact ⟨k :: pre, c, post, g, rfl, (mergeFields_cons hfits pre).trans hpre, hg, ht, he⟩
      · obtain ⟨g, hg, ht⟩ := Table.exists_of_not_takes hfits
        rw [mergeFields_conflict hg ht] at h
        obtain ⟨rfl, he⟩ := Prod.mk.inj h
        exact ⟨[], k, fs, g, rfl, rfl, hg, ht, (Option.some.inj he).symm⟩
  · rintro ⟨pre, k, post, g, rfl, hpre, hg, ht, rfl⟩
    have hk : k.name ∉ pre.map name := by
      rw [List.map_append, List.nodup_append] at hfs
      exact fun hm => hfs.2.2 _ hm _ (List.mem_cons_self ..) rfl
    have hsame : u.get? k.name = t.get? k.name := by
      have hget := get?_mergeFields type t hk
      rwa [hpre] at hget
    rw [mergeFields_append hpre, mergeFields_conflict (hsame.trans hg) ht]

end Runs

end SchemaTypings
