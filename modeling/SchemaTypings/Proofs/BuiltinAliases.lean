import SchemaTypings.Proofs.DeclaredTypes

namespace SchemaTypings

open TypeScript

namespace TypeScript.Declaration

def exports (n : String) (x : Declaration) : Bool :=
  x.exportedName? == some n

theorem length_exports (ds : List Declaration) (n : String) :
    (ds.filter (exports n)).length = (ds.filterMap exportedName?).count n := by
  rw [← List.countP_eq_length_filter, List.count, List.countP_filterMap]
  refine List.countP_congr fun x _ => ?_
  cases hx : x.exportedName? <;> simp [exports, hx]

end TypeScript.Declaration

namespace SourceText

variable {d : SourceText} {n : String}

/-- A definition of another kind than scalar has the name, or an operation has it as its root
type. -/
def Redeclares (d : SourceText) (n : String) : Prop :=
  (∃ e ∈ d.definitions, e.extend = false ∧ e.type.kind ≠ .scalar ∧ name e = n) ∨
    ∃ o, lastRoot o d.namedRoots = some n

theorem mem_declaredTypes_builtin (hn : n ∈ builtinScalars) :
    n ∈ d.declaredTypes ↔ d.Redeclares n := by
  have htype : n ∈ d.typeNames := by
    have h : n ∈ (firstSeen (d.definitions.map name ++ builtinScalars)).map name :=
      mem_names_firstSeen.2 (List.mem_map.2 ⟨n, List.mem_append_right _ hn, rfl⟩)
    rwa [names_strings] at h
  have hroot : n ∉ reservedRoots := by
    have h : ∀ n ∈ builtinScalars, n ∉ reservedRoots := by decide
    exact h n hn
  rw [declaredTypes, List.mem_filter, and_iff_right htype, declaresType_iff_exists,
    or_iff_right hroot]
  refine or_congr (exists_congr fun e => and_congr_right fun _ => ?_) Iff.rfl
  rw [← and_assoc]
  refine and_congr_left fun he => ?_
  have hb : e.type.name ∈ builtinScalars := (show e.type.name = n from he) ▸ hn
  simp [Definition.declares, TypeDef.isScalar, hb]

end SourceText

namespace Options

variable {o : Options} {ts : List TypeDef} {n : String}

theorem exports_preamble (hn : n ∈ builtinScalars) :
    o.preamble.filter (Declaration.exports n) = [o.scalarAlias none n] := by
  have h : ∀ n ∈ builtinScalars, o.preamble.filter (Declaration.exports n) =
      [o.scalarAlias none n] := by
    simp [builtinScalars, preamble, Declaration.exports, scalarAlias, Declaration.exportedName?]
  exact h n hn

theorem exists_type_of_exports {x : Declaration} (hx : x ∈ ts.flatMap o.declare)
    (he : x.exports n = true) : ∃ t ∈ ts, t.name = n ∧ x ∈ o.declare t := by
  obtain ⟨t, ht, hx⟩ := List.mem_flatMap.1 hx
  have hmem : n ∈ (o.declare t).filterMap Declaration.exportedName? :=
    List.mem_filterMap.2 ⟨x, hx, eq_of_beq he⟩
  rw [o.exportedName?_declare] at hmem
  exact ⟨t, ht, (List.mem_singleton.1 hmem).symm, hx⟩

theorem exports_declareAll (hts : (ts.map name).Nodup) :
    (n ∉ ts.map name → (ts.flatMap o.declare).filter (Declaration.exports n) = []) ∧
      (n ∈ ts.map name → ∃ t ∈ ts, t.name = n ∧ ∃ x ∈ o.declare t,
        (ts.flatMap o.declare).filter (Declaration.exports n) = [x]) := by
  have hlength := Declaration.length_exports (ts.flatMap o.declare) n
  rw [o.exportedName?_declareAll, hts.count] at hlength
  constructor
  · intro hn
    rw [if_neg hn] at hlength
    exact List.length_eq_zero_iff.1 hlength
  · intro hn
    rw [if_pos hn] at hlength
    obtain ⟨x, hx⟩ := List.length_eq_one_iff.1 hlength
    obtain ⟨hmem, he⟩ := List.mem_filter.1 (hx ▸ List.mem_singleton_self x)
    obtain ⟨t, ht, hname, hxt⟩ := exists_type_of_exports hmem he
    exact ⟨t, ht, hname, x, hxt, hx⟩

end Options

/-- The alias of the preamble is the only declaration of a built-in scalar in the output, unless the
text redeclares its name. Then the declaration of that type is the only other one. -/
theorem builtinDeclarations_of_generated {text out : String} {o : Options}
    (h : generateFromText text o = .ok out) :
    ∃ s, Schema.ofText text = .ok s ∧
      out = o.namespaceText ((s.declarations o).map Declaration.text) ∧
      ∀ n ∈ builtinScalars,
        (¬ SourceText.Redeclares (text, none) n →
          (s.declarations o).filter (Declaration.exports n) = [o.scalarAlias none n]) ∧
        (SourceText.Redeclares (text, none) n →
          ∃ t ∈ s.types.toList, t.name = n ∧ ∃ x ∈ o.declare t,
            (s.declarations o).filter (Declaration.exports n) = [o.scalarAlias none n, x]) := by
  obtain ⟨s, hs, rfl⟩ := generateFromText_ok h
  refine ⟨s, hs, rfl, fun n hn => ?_⟩
  have hnames := Schema.names_declared hs
  have hts : ((s.types.toList.filter s.isDeclared).map name).Nodup :=
    hnames ▸ SourceText.nodup_declaredTypes _
  obtain ⟨hnone, hone⟩ := Options.exports_declareAll (o := o) (n := n) hts
  rw [hnames, SourceText.mem_declaredTypes_builtin hn] at hnone hone
  rw [Schema.declarations, List.filter_append, Options.exports_preamble hn]
  refine ⟨fun hr => by rw [hnone hr]; rfl, fun hr => ?_⟩
  obtain ⟨t, ht, hname, x, hx, hfound⟩ := hone hr
  exact ⟨t, List.mem_of_mem_filter ht, hname, x, hx, by rw [hfound]; rfl⟩

def scalarRoot : String := "scalar String scalar Int schema { query: String }"

theorem redeclares_scalarRoot :
    (generateFromText scalarRoot .default).isOk = true ∧
      SourceText.Redeclares (scalarRoot, none) "String" ∧
      ¬ SourceText.Redeclares (scalarRoot, none) "Int" := by
  have hc : (generateFromText scalarRoot .default).isOk = true ∧
      SourceText.namedRoots (scalarRoot, none) = [(.query, "String")] ∧
      ¬ ∃ e ∈ SourceText.definitions (scalarRoot, none),
        e.extend = false ∧ e.type.kind ≠ .scalar ∧ name e = "Int" := by
    decide +kernel
  obtain ⟨hok, hroots, hdefines⟩ := hc
  refine ⟨hok, .inr ⟨.query, by rw [hroots]; rfl⟩, ?_⟩
  rintro (hd | ⟨o, ho⟩)
  · exact hdefines hd
  · rw [hroots] at ho
    cases o <;> simp [lastRoot] at ho

theorem builtinDeclarations_scalarRoot :
    ∃ (out : String) (s : Schema), generateFromText scalarRoot .default = .ok out ∧
      out = Options.default.namespaceText ((s.declarations .default).map Declaration.text) ∧
      (s.declarations .default).filter (Declaration.exports "Int") =
        [Options.default.scalarAlias none "Int"] ∧
      ∃ x, (s.declarations .default).filter (Declaration.exports "String") =
        [Options.default.scalarAlias none "String", x] := by
  obtain ⟨hok, hstring, hint⟩ := redeclares_scalarRoot
  obtain ⟨out, h⟩ := exists_of_isOk hok
  obtain ⟨s, -, hout, hfound⟩ := builtinDeclarations_of_generated h
  obtain ⟨-, hsecond⟩ := hfound "String" (by decide)
  obtain ⟨t, -, -, x, -, hx⟩ := hsecond hstring
  obtain ⟨honly, -⟩ := hfound "Int" (by decide)
  exact ⟨out, s, h, hout, honly hint, x, hx⟩

theorem exportLines_of_scalarRoot :
    ∃ out, generateFromText scalarRoot .default = .ok out ∧
      (exportLines out.toList).countP (fun l => declaredName? l = some "String") = 2 := by
  obtain ⟨out, h⟩ := exists_of_isOk redeclares_scalarRoot.1
  have hd : SourceText.declaredTypes (scalarRoot, none) = ["String"] := by decide +kernel
  have hlines := declaredNames_of_generated Options.isPlain_default h
  have hcount : ((exportLines out.toList).map declaredName?).countP (· = some "String") = 2 := by
    rw [hlines, hd]
    decide
  rw [List.countP_map] at hcount
  exact ⟨out, h, hcount⟩

end SchemaTypings
