import SchemaTypings.Proofs.AcceptedText
import SchemaTypings.Proofs.ExportedLines

namespace SchemaTypings

open Text TypeScript
open Sdl (Operation)

def operations : List Operation := [.query, .mutation, .subscription]

theorem RootTypes.contains_eq (r : RootTypes) (n : String) :
    r.contains n = operations.any fun o => r.get o == some n := by
  have hc : r.contains n = r.toList.any (· == some n) := by
    rw [contains, Bool.eq_iff_iff, List.contains_iff_mem, List.any_eq_true]
    constructor
    · exact fun h => ⟨_, h, beq_self_eq_true _⟩
    · rintro ⟨x, hx, he⟩
      exact eq_of_beq he ▸ hx
  exact hc

namespace SourceText

/-- The names of the types in the schema of a text: those that it defines or extends, and then the
other built-in scalars. -/
def typeNames (d : SourceText) : List String :=
  firstSeen (d.definitions.map name ++ builtinScalars)

/-- A text declares the types that it does not only extend, and the root types: the reserved ones,
and for each operation the one that is named last. -/
def declaresType (d : SourceText) (n : String) : Bool :=
  (d.definitions.any fun e => e.declares && name e == n) || reservedRoots.contains n ||
    operations.any fun o => lastRoot o d.namedRoots == some n

def declaredTypes (d : SourceText) : List String :=
  d.typeNames.filter d.declaresType

theorem declaresType_iff_exists {d : SourceText} {n : String} : d.declaresType n = true ↔
    (∃ e ∈ d.definitions, e.declares = true ∧ name e = n) ∨ n ∈ reservedRoots ∨
      ∃ o, lastRoot o d.namedRoots = some n := by
  have hroots : (operations.any fun o => lastRoot o d.namedRoots == some n) = true ↔
      ∃ o, lastRoot o d.namedRoots = some n := by
    simp only [List.any_eq_true, beq_iff_eq]
    exact ⟨fun ⟨o, _, h⟩ => ⟨o, h⟩, fun ⟨o, h⟩ => ⟨o, by cases o <;> decide, h⟩⟩
  simp only [declaresType, Bool.or_eq_true, hroots, or_assoc, List.contains_iff_mem,
    List.any_eq_true, Bool.and_eq_true, beq_iff_eq]

theorem origin_definitions (d : SourceText) : ∀ e ∈ d.definitions, e.type.origin.isSome := by
  unfold definitions
  cases hp : parseDocument d.1 d.2 with
  | error e => exact List.forall_mem_nil _
  | ok doc => exact fun e he => origin_of_document hp he

theorem origin_flatMap_definitions (docs : List SourceText) :
    ∀ e ∈ docs.flatMap definitions, e.type.origin.isSome := fun e he => by
  obtain ⟨d, -, he⟩ := List.mem_flatMap.1 he
  exact d.origin_definitions e he

theorem nodup_declaredTypes (d : SourceText) : d.declaredTypes.Nodup := by
  have hn := nodup_names_unseen [] (d.definitions.map name ++ builtinScalars)
  rw [names_strings] at hn
  exact hn.filter _

end SourceText

theorem Tracks.hasOrigin {ds : List Definition} {types : Table TypeDef} (h : Tracks ds types)
    (ho : ∀ e ∈ ds, e.type.origin.isSome) {t : TypeDef} (ht : t ∈ types.toList) :
    t.hasOrigin = ds.any fun e => e.declares && name e == t.name := by
  obtain ⟨first, rest, hd, hm⟩ := h.entry t ht
  have hany : (ds.any fun e => e.declares && name e == t.name) =
      (first :: rest).any Definition.declares := by
    rw [← hd, definitionsOf, List.any_filter]
    exact congrArg ds.any (funext fun e => Bool.and_comm _ _)
  rw [hany, TypeDef.hasOrigin, hm.origin]
  cases hf : (first :: rest).find? Definition.declares with
  | none =>
    have hn := List.find?_eq_none.1 hf
    symm
    simpa using hn
  | some e =>
    have he : e ∈ ds := by
      have hmem : e ∈ definitionsOf t.name ds := hd ▸ List.mem_of_find?_eq_some hf
      exact List.mem_of_mem_filter hmem
    have ht : (first :: rest).any Definition.declares = true :=
      List.any_eq_true.2 ⟨e, List.mem_of_find?_eq_some hf, List.find?_some hf⟩
    rw [ht, Option.bind_some]
    exact ho e he

namespace Schema

theorem names_withBuiltins {m : Schema} {ds : List Definition} (h : Tracks ds m.types) :
    m.withBuiltins.types.names = firstSeen (ds.map name ++ builtinScalars) := by
  have hl : m.withBuiltins.types.toList = _ := toList_foldl_addBuiltin m builtinScalars
  have hb : (unseen m.types.names builtinScalars).map (name ∘ builtin) =
      unseen m.types.names builtinScalars := List.map_id _
  have hf : (firstSeen ds).map name = firstSeen (ds.map name) :=
    map_unseen (fun d : Definition => name d) (fun _ => rfl) [] ds
  have hc : ∀ n, n ∈ m.types.names ↔ n ∈ (ds.map name).map name := fun n => by
    rw [h.mem_names, names_strings]
  rw [Table.names, hl, List.map_append, List.map_map, hb, ← Table.names, firstSeen_append, ← hf,
    ← h.names, unseen_congr hc]

variable {m s : Schema} {d : SourceText}

theorem contains_roots (hr : ∀ o, s.roots.get o = lastRoot o d.namedRoots) (n : String) :
    s.roots.contains n = operations.any fun o => lastRoot o d.namedRoots == some n := by
  rw [RootTypes.contains_eq]
  simp only [hr]

theorem isDeclared_merged (ht : Tracks d.definitions m.types)
    (hr : ∀ o, s.roots.get o = lastRoot o d.namedRoots) {t : TypeDef} (hmem : t ∈ m.types.toList) :
    s.isDeclared t = d.declaresType t.name := by
  rw [isDeclared, isRoot, contains_roots hr, ht.hasOrigin d.origin_definitions hmem,
    ← Bool.or_assoc]
  rfl

theorem isDeclared_builtin (hr : ∀ o, s.roots.get o = lastRoot o d.namedRoots) {n : String}
    (hn : n ∉ d.definitions.map name) : s.isDeclared (builtin n) = d.declaresType n := by
  have hd : (d.definitions.any fun e => e.declares && name e == n) = false := by
    rw [List.any_eq_false]
    intro e he heq
    obtain ⟨-, heq⟩ := (Bool.and_eq_true _ _).mp heq
    exact hn (List.mem_map.2 ⟨e, he, by simpa using heq⟩)
  rw [SourceText.declaresType, hd, Bool.false_or, ← contains_roots hr]
  rfl

theorem names_declared {text : String} {s : Schema} (h : ofText text = .ok s) :
    (s.types.toList.filter s.isDeclared).map name = SourceText.declaredTypes (text, none) := by
  obtain ⟨m, hm, rfl, -⟩ := ofText_ok h
  obtain ⟨ht, hr⟩ := ofTexts_tracks hm
  rw [List.flatMap_singleton] at ht
  have hs : m.withBuiltins.roots = m.roots := roots_foldl_addBuiltin m builtinScalars
  have hr : ∀ o, m.withBuiltins.roots.get o = lastRoot o (SourceText.namedRoots (text, none)) :=
    fun o => by rw [hs, hr o, List.flatMap_singleton]
  have hl : m.withBuiltins.types.toList = _ := toList_foldl_addBuiltin m builtinScalars
  have hd : ∀ t ∈ m.withBuiltins.types.toList,
      m.withBuiltins.isDeclared t = SourceText.declaresType (text, none) (name t) := by
    rw [hl]
    refine List.forall_mem_append.2 ⟨fun t hmem => isDeclared_merged ht hr hmem, ?_⟩
    refine List.forall_mem_map.2 fun n hn => isDeclared_builtin hr fun hmem => ?_
    have hnot : n ∉ m.types.names :=
      (mem_names_unseen.1 (List.mem_map.2 ⟨n, hn, rfl⟩ : n ∈ (unseen _ _).map name)).2
    exact hnot (ht.mem_names.2 hmem)
  have hf : m.withBuiltins.types.toList.filter m.withBuiltins.isDeclared =
      m.withBuiltins.types.toList.filter
        (SourceText.declaresType (text, none) ∘ name) := List.filter_congr hd
  rw [hf, ← List.filter_map, ← Table.names, names_withBuiltins ht]
  rfl

end Schema

theorem Options.exportedName?_declare (o : Options) (t : TypeDef) :
    (o.declare t).filterMap Declaration.exportedName? = [t.name] := by
  unfold declare
  cases t.body with
  | enum vs | scalar | union ms => rfl
  | fields c is fs =>
    have hg : (o.groups c t.name fs.toList).filterMap Declaration.exportedName? = [] := by
      unfold groups
      split
      · rw [List.filterMap_map]
        exact List.filterMap_eq_nil_iff.2 fun _ _ => rfl
      · rfl
    simp only [declareFields, List.filterMap_append, hg]
    rfl

theorem Options.exportedName?_declareAll (o : Options) (ts : List TypeDef) :
    (ts.flatMap o.declare).filterMap Declaration.exportedName? = ts.map name := by
  rw [List.filterMap_flatMap]
  simp only [o.exportedName?_declare]
  exact List.map_eq_flatMap.symm

theorem Schema.exportedName?_declarations (s : Schema) (o : Options) :
    (s.declarations o).filterMap Declaration.exportedName? =
      builtinScalars ++ (s.types.toList.filter s.isDeclared).map name := by
  have hp : o.preamble.filterMap Declaration.exportedName? = builtinScalars := rfl
  rw [declarations, List.filterMap_append, hp, o.exportedName?_declareAll]

theorem declaredNames_of_generated {text out : String} {o : Options} (ho : o.IsPlain)
    (h : generateFromText text o = .ok out) :
    (exportLines out.toList).map declaredName? =
      (builtinScalars ++ SourceText.declaredTypes (text, none)).map some := by
  obtain ⟨s, hs, rfl⟩ := generateFromText_ok h
  have hnames := s.exportedName?_declarations o
  have hspace : ∀ x ∈ s.declarations o, ∀ n ∈ x.exportedName?, ' ' ∉ n.toList := by
    intro x hx n hn
    have hm : n ∈ builtinScalars ++ (s.types.toList.filter s.isDeclared).map name :=
      hnames ▸ List.mem_filterMap.2 ⟨x, hx, hn⟩
    obtain hm | hm := List.mem_append.1 hm
    · have hb : ∀ n ∈ builtinScalars, ' ' ∉ n.toList := by decide
      exact hb n hm
    · obtain ⟨t, ht, rfl⟩ := List.mem_map.1 hm
      have hname := Schema.ofText_allNames hs t (List.mem_of_mem_filter ht) (name t)
        (List.mem_cons_self ..)
      exact Sdl.not_mem_of_isName hname (by decide)
  have hlines := Schema.splitLines_generate (Schema.ofText_isPlain hs) ho
  rw [exportLines, hlines, filter_namespace, map_declaredName? hspace, hnames,
    Schema.names_declared hs]

/-- Whatever its descriptions are, an accepted text makes its declared types into exported lines
behind those of the preamble, each type into one. -/
theorem exportLines_of_declaredTypes {text out : String} {o : Options} (ho : o.IsPlain)
    (h : generateFromText text o = .ok out) :
    (exportLines out.toList).map declaredName? =
        (builtinScalars ++ SourceText.declaredTypes (text, none)).map some ∧
      (SourceText.declaredTypes (text, none)).Nodup :=
  ⟨declaredNames_of_generated ho h, SourceText.nodup_declaredTypes _⟩

/-- A root type that only an extension defines, and that a later root type takes the place of. -/
def overriddenRoot : String :=
  "schema { query: A } extend schema { query: B } extend type A { x: Int } type B { y: Int }"

theorem declaredTypes_overriddenRoot :
    (generateFromText overriddenRoot .default).isOk = true ∧
      SourceText.declaredTypes (overriddenRoot, none) = ["B"] ∧
      "A" ∈ SourceText.typeNames (overriddenRoot, none) ∧
      (Sdl.Operation.query, "A") ∈ SourceText.namedRoots (overriddenRoot, none) := by
  decide +kernel

theorem exportLines_of_overriddenRoot :
    ∃ out, generateFromText overriddenRoot .default = .ok out ∧
      (exportLines out.toList).map declaredName? = (builtinScalars ++ ["B"]).map some := by
  obtain ⟨hok, hd, -⟩ := declaredTypes_overriddenRoot
  obtain ⟨out, h⟩ := exists_of_isOk hok
  obtain ⟨hl, -⟩ := exportLines_of_declaredTypes Options.isPlain_default h
  exact ⟨out, h, hd ▸ hl⟩

theorem overriddenRoot_not_declared :
    ∃ out, generateFromText overriddenRoot .default = .ok out ∧
      "A" ∈ SourceText.typeNames (overriddenRoot, none) ∧
      (Sdl.Operation.query, "A") ∈ SourceText.namedRoots (overriddenRoot, none) ∧
      some "A" ∉ (exportLines out.toList).map declaredName? := by
  obtain ⟨hok, hd, htype, hroot⟩ := declaredTypes_overriddenRoot
  obtain ⟨out, h⟩ := exists_of_isOk hok
  have hl := declaredNames_of_generated Options.isPlain_default h
  rw [hd] at hl
  refine ⟨out, h, htype, hroot, ?_⟩
  rw [hl]
  decide

end SchemaTypings
