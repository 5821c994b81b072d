import Mathlib.Data.List.Nodup
import SchemaTypings.Proofs.Absorption
import SchemaTypings.Proofs.Compatibility
import SchemaTypings.Proofs.Concatenation
import SchemaTypings.Proofs.SchemaRules

namespace SchemaTypings

open TypeScript

theorem Table.mem_iff_get? {α : Type} [Named α] {t : Table α} {a : α} :
    a ∈ t.toList ↔ t.get? (name a) = some a :=
  ⟨Table.get?_of_mem, fun h => (Table.mem_of_get? h).1⟩

theorem Table.perm_of_get? {α : Type} [Named α] {t u : Table α} (h : ∀ n, t.get? n = u.get? n) :
    t.toList.Perm u.toList := by
  have ht : t.toList.Nodup := List.Nodup.of_map _ t.nodup
  have hu : u.toList.Nodup := List.Nodup.of_map _ u.nodup
  refine (List.perm_ext_iff_of_nodup ht hu).2 fun a => ?_
  rw [Table.mem_iff_get?, Table.mem_iff_get?, h]

theorem addNew_name (l : List String) (n : String) :
    addNew l [n] = if n ∈ l then l else l ++ [n] := by
  have hany : (l.any fun m => name m == name n) = true ↔ n ∈ l := by
    simp [name]
  simp only [addNew, hany]

theorem definitionsOf_append (n : String) (ds es : List Definition) :
    definitionsOf n (ds ++ es) = definitionsOf n ds ++ definitionsOf n es :=
  List.filter_append ..

theorem definitionsOf_cons (n : String) (d : Definition) (ds : List Definition) :
    definitionsOf n (d :: ds) =
      if name d = n then d :: definitionsOf n ds else definitionsOf n ds := by
  by_cases h : name d = n <;> simp [definitionsOf, h]

namespace Schema

variable {s t u v : Schema} {d : Definition} {ds es : List Definition} {n : String}

theorem mergeDefinition_congr (h : s.getType? (name d) = t.getType? (name d)) :
    (s.mergeDefinition d).2 = (t.mergeDefinition d).2 ∧
      (s.mergeDefinition d).1.getType? (name d) = (t.mergeDefinition d).1.getType? (name d) := by
  have hmerged : s.merged d = t.merged d := by rw [merged, merged, h]
  refine ⟨?_, ?_⟩
  · rw [mergeDefinition_eq, mergeDefinition_eq, hmerged]
  · rw [getType?_mergeDefinition, getType?_mergeDefinition, if_pos rfl, if_pos rfl, hmerged]

/-- A run over all definitions does to a type what the run over those of its name does. -/
theorem mergeDefinitions_of_name (h : s.getType? n = t.getType? n)
    (hs : s.mergeDefinitions ds = (u, none)) :
    ∃ v, t.mergeDefinitions (definitionsOf n ds) = (v, none) ∧ u.getType? n = v.getType? n := by
  induction ds generalizing s t with
  | nil =>
    obtain ⟨rfl, -⟩ := Prod.mk.inj hs
    exact ⟨t, rfl, h⟩
  | cons d ds ih =>
    obtain ⟨s', hd, hds⟩ := mergeDefinitions_cons_eq_ok_iff.1 hs
    rw [definitionsOf_cons]
    by_cases hn : name d = n
    · subst hn
      obtain ⟨herror, hget⟩ := mergeDefinition_congr h
      rw [hd] at herror hget
      have hd' : t.mergeDefinition d = ((t.mergeDefinition d).1, none) := Prod.ext rfl herror.symm
      obtain ⟨v, hv, huv⟩ := ih hget hds
      exact ⟨v, by rw [if_pos rfl, mergeDefinitions_cons hd', hv], huv⟩
    · have hs' : s'.getType? n = s.getType? n := by
        have hget := s.getType?_mergeDefinition d n
        rwa [if_neg hn, hd] at hget
      rw [if_neg hn]
      exact ih (hs'.trans h) hds

/-- All definitions fit if and only if those of each name do. -/
theorem mergeDefinitions_fits_iff : (s.mergeDefinitions ds).2 = none ↔
    ∀ n, (s.mergeDefinitions (definitionsOf n ds)).2 = none := by
  constructor
  · intro h n
    obtain ⟨v, hv, -⟩ := mergeDefinitions_of_name (n := n) (t := s) rfl (Prod.ext rfl h)
    rw [hv]
  · intro h
    cases hm : s.mergeDefinitions ds with
    | mk u error =>
      cases error with
      | none => rfl
      | some e =>
        -- What stops the run over all definitions stops the one over those of its name, as both have
        -- made the same of that type before.
        obtain ⟨before, d, after, m, rfl, hbefore, hd⟩ := exists_of_mergeDefinitions_error hm
        obtain ⟨v, hv, hget⟩ := mergeDefinitions_of_name (n := name d) (t := s) rfl hbefore
        obtain ⟨herror, -⟩ := mergeDefinition_congr hget
        rw [hd] at herror
        have hstop : v.mergeDefinition d = ((v.mergeDefinition d).1, some e) :=
          Prod.ext rfl herror.symm
        have hfit := h (name d)
        rw [definitionsOf_append, mergeDefinitions_append hv, definitionsOf_cons, if_pos rfl,
          mergeDefinitions_cons_of_error hstop] at hfit
        exact hfit

theorem names_mergeDefinitions (h : s.mergeDefinitions ds = (u, none)) :
    u.types.names = addNew s.types.names (ds.map name) := by
  induction ds generalizing s with
  | nil =>
    obtain ⟨rfl, -⟩ := Prod.mk.inj h
    rfl
  | cons d ds ih =>
    obtain ⟨s', hd, hds⟩ := mergeDefinitions_cons_eq_ok_iff.1 h
    have hnames := s.names_mergeDefinition d
    rw [hd] at hnames
    have hall : (d :: ds).map name = [name d] ++ ds.map name := rfl
    rw [ih hds, hnames, hall, addNew_append, addNew_name]

theorem build_eq_ok_iff :
    s.build = .ok u ↔ u = s.withBuiltins ∧ s.withBuiltins.violation? = none := by
  unfold build validate
  cases s.withBuiltins.violation? with
  | none => exact ⟨fun h => ⟨(Except.ok.inj h).symm, rfl⟩, fun h => congrArg Except.ok h.1.symm⟩
  | some v => exact ⟨fun h => (by cases h), fun h => (by cases h.2)⟩

structure Reorders (s t : Schema) : Prop where
  roots : s.roots = t.roots
  types : s.types.toList.Perm t.types.toList

namespace Reorders

theorem symm (h : s.Reorders t) : t.Reorders s :=
  ⟨h.roots.symm, h.types.symm⟩

theorem mem_names (h : s.Reorders t) {n : String} : n ∈ s.types.names ↔ n ∈ t.types.names :=
  (h.types.map name).mem_iff

theorem withBuiltins (h : s.Reorders t) : s.withBuiltins.Reorders t.withBuiltins where
  roots := (roots_foldl_addBuiltin s builtinScalars).trans
    (h.roots.trans (roots_foldl_addBuiltin t builtinScalars).symm)
  types := by
    have hs : s.withBuiltins.types.toList = _ := toList_foldl_addBuiltin s builtinScalars
    have ht : t.withBuiltins.types.toList = _ := toList_foldl_addBuiltin t builtinScalars
    rw [hs, ht, unseen_congr fun n => h.mem_names]
    exact h.types.append_right _

theorem violation?_eq_none_iff (h : s.Reorders t) :
    s.violation? = none ↔ t.violation? = none := by
  have hknown : (· ∈ s.types.names) = (· ∈ t.types.names) := funext fun n => propext h.mem_names
  simp only [violation?, List.findSome?_eq_none_iff, violationOf_eq_none_iff, hknown,
    h.types.mem_iff]

theorem build (h : s.Reorders t) {s' : Schema} (hs : s.build = .ok s') :
    ∃ t', t.build = .ok t' ∧ s'.Reorders t' := by
  obtain ⟨rfl, hv⟩ := build_eq_ok_iff.1 hs
  exact ⟨_, build_eq_ok_iff.2 ⟨rfl, h.withBuiltins.violation?_eq_none_iff.1 hv⟩, h.withBuiltins⟩

theorem declared (h : s.Reorders t) :
    (s.types.toList.filter s.isDeclared).Perm (t.types.toList.filter t.isDeclared) := by
  have hd : s.isDeclared = t.isDeclared := funext fun d => by
    rw [isDeclared, isRoot, h.roots]
    rfl
  rw [hd]
  exact h.types.filter _

end Reorders

end Schema

/-- The same definitions of each name, in the same order. Those of different names may be mixed in
any way. -/
def SameByName (ds es : List Definition) : Prop :=
  ∀ n, definitionsOf n ds = definitionsOf n es

namespace SameByName

variable {ds es : List Definition} {s t u : Schema}

theorem fits_iff (h : SameByName ds es) :
    (s.mergeDefinitions ds).2 = none ↔ (s.mergeDefinitions es).2 = none := by
  rw [Schema.mergeDefinitions_fits_iff, Schema.mergeDefinitions_fits_iff]
  exact forall_congr' fun n => by rw [h n]

theorem getType?_eq (h : SameByName ds es) (ht : s.mergeDefinitions ds = (t, none))
    (hu : s.mergeDefinitions es = (u, none)) (n : String) : t.getType? n = u.getType? n := by
  obtain ⟨v, hv, htv⟩ := Schema.mergeDefinitions_of_name (n := n) (t := s) rfl ht
  obtain ⟨w, hw, huw⟩ := Schema.mergeDefinitions_of_name (n := n) (t := s) rfl hu
  rw [h n, hw] at hv
  obtain ⟨rfl, -⟩ := Prod.mk.inj hv
  exact htv.trans huw.symm

theorem reorders (h : SameByName ds es) (ht : s.mergeDefinitions ds = (t, none))
    (hu : s.mergeDefinitions es = (u, none)) : t.Reorders u where
  roots := by
    have hds := s.roots_mergeDefinitions ds
    have hes := s.roots_mergeDefinitions es
    rw [ht] at hds
    rw [hu] at hes
    exact hds.trans hes.symm
  types := Table.perm_of_get? (h.getType?_eq ht hu)

theorem grouped (m : String) (ds : List Definition) :
    SameByName ds (definitionsOf m ds ++ ds.filter fun d => name d != m) := by
  intro n
  rw [definitionsOf_append]
  by_cases h : m = n
  · have hrest : definitionsOf n (ds.filter fun d => name d != m) = [] := by
      rw [definitionsOf, List.filter_filter]
      refine List.filter_eq_nil_iff.2 fun d _ => ?_
      simp [h]
    have hself : definitionsOf n (definitionsOf m ds) = definitionsOf n ds := by
      rw [definitionsOf, definitionsOf, List.filter_filter, h, definitionsOf]
      simp only [Bool.and_self]
    rw [hrest, hself, List.append_nil]
  · have hfront : definitionsOf n (definitionsOf m ds) = [] := by
      refine List.filter_eq_nil_iff.2 fun d hd => ?_
      have hm : name d = m := (mem_definitionsOf.1 hd).2
      simpa [hm] using h
    have hrest : definitionsOf n (ds.filter fun d => name d != m) = definitionsOf n ds := by
      rw [definitionsOf, List.filter_filter]
      refine List.filter_congr fun d _ => ?_
      by_cases hn : name d = n
      · simpa [hn] using Ne.symm h
      · simp [hn]
    rw [hfront, hrest, List.nil_append]

end SameByName

namespace Schema

/-- However the definitions of different types are mixed, they fit or do not fit, each type becomes
the same, the schema is complete or is not, and each type has the same declarations, which stand
together. Only the order of the types differs: they come as their names come first. -/
theorem mergeDefinitions_of_sameByName {ds es : List Definition} (h : SameByName ds es)
    (r : RootTypes) :
    (((empty.withRoots r).mergeDefinitions ds).2 = none ↔
      ((empty.withRoots r).mergeDefinitions es).2 = none) ∧
    ∀ s t, (empty.withRoots r).mergeDefinitions ds = (s, none) →
      (empty.withRoots r).mergeDefinitions es = (t, none) →
      (∀ n, s.getType? n = t.getType? n) ∧ s.types.toList.Perm t.types.toList ∧
      s.types.names = firstSeen (ds.map name) ∧ t.types.names = firstSeen (es.map name) ∧
      ((∃ s', s.build = .ok s') ↔ ∃ t', t.build = .ok t') ∧
      ∀ s' t', s.build = .ok s' → t.build = .ok t' →
        (s'.types.toList.filter s'.isDeclared).Perm (t'.types.toList.filter t'.isDeclared) ∧
        ∀ o, s'.generate o = o.namespaceText ((o.preamble ++
            (s'.types.toList.filter s'.isDeclared).flatMap o.declare).map Declaration.text) ∧
          t'.generate o = o.namespaceText ((o.preamble ++
            (t'.types.toList.filter t'.isDeclared).flatMap o.declare).map Declaration.text) := by
  refine ⟨h.fits_iff, fun s t hs ht => ?_⟩
  have hr : s.Reorders t := h.reorders hs ht
  have hnames : ∀ {ds : List Definition} {s : Schema},
      (empty.withRoots r).mergeDefinitions ds = (s, none) →
        s.types.names = firstSeen (ds.map name) := fun hs =>
    (names_mergeDefinitions hs).trans (addNew_strings _ _)
  refine ⟨h.getType?_eq hs ht, hr.types, hnames hs, hnames ht, ⟨?_, ?_⟩, fun s' t' hs' ht' => ?_⟩
  · rintro ⟨s', hs'⟩
    obtain ⟨t', ht', -⟩ := hr.build hs'
    exact ⟨t', ht'⟩
  · rintro ⟨t', ht'⟩
    obtain ⟨s', hs', -⟩ := hr.symm.build ht'
    exact ⟨s', hs'⟩
  · obtain ⟨u, hu, hru⟩ := hr.build hs'
    obtain rfl := Except.ok.inj (ht'.symm.trans hu)
    exact ⟨hru.declared, fun o => ⟨rfl, rfl⟩⟩

def mixedTypes : List Definition :=
  SourceText.definitions
    ("union U = A | B type A { x(u: U): B } type B { z: A } extend type A { y: B }", none)

theorem mergeDefinitions_mixedTypes :
    ∃ es s t s' t', SameByName mixedTypes es ∧
      (empty.withRoots .undeclared).mergeDefinitions mixedTypes = (s, none) ∧
      (empty.withRoots .undeclared).mergeDefinitions es = (t, none) ∧
      s.types.names = ["U", "A", "B"] ∧ t.types.names = ["A", "U", "B"] ∧
      s.getType? "A" = t.getType? "A" ∧ s.build = .ok s' ∧ t.build = .ok t' ∧
      (s'.types.toList.filter s'.isDeclared).Perm (t'.types.toList.filter t'.isDeclared) := by
  have hsame := SameByName.grouped "A" mixedTypes
  have hdecided :
      ((empty.withRoots .undeclared).mergeDefinitions mixedTypes).2 = none ∧
      ((empty.withRoots .undeclared).mergeDefinitions mixedTypes).1.build.isOk = true ∧
      firstSeen (mixedTypes.map name) = ["U", "A", "B"] ∧
      firstSeen ((definitionsOf "A" mixedTypes ++
        mixedTypes.filter fun d => name d != "A").map name) = ["A", "U", "B"] := by
    decide +kernel
  obtain ⟨hnone, hok, hnames, hnames'⟩ := hdecided
  obtain ⟨hfits, hall⟩ := mergeDefinitions_of_sameByName hsame .undeclared
  have hs := Prod.ext (rfl : _ = ((empty.withRoots .undeclared).mergeDefinitions mixedTypes).1) hnone
  obtain ⟨hget, -, hns, hnt, hbuild, hdeclared⟩ := hall _ _ hs (Prod.ext rfl (hfits.1 hnone))
  obtain ⟨s', hs'⟩ := exists_of_isOk hok
  obtain ⟨t', ht'⟩ := hbuild.1 ⟨s', hs'⟩
  exact ⟨_, _, _, s', t', hsame, hs, Prod.ext rfl (hfits.1 hnone), hns.trans hnames,
    hnt.trans hnames', hget "A", hs', ht', (hdeclared s' t' hs' ht').1⟩

end Schema

end SchemaTypings
