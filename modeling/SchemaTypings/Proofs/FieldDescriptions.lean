import SchemaTypings.Proofs.RedeclaredFields
import SchemaTypings.Proofs.TypeIndependence

namespace SchemaTypings

namespace Table

def description? (t : Table Field) (n : String) : Option String :=
  (t.get? n).bind Field.description

theorem description?_join (t : Table Field) (k : Field) (n : String) :
    (t.join k).description? n =
      (t.description? n).or (if k.name = n then k.description else none) := by
  by_cases h : k.name = n
  · subst h
    rw [description?, get?_join, if_pos rfl, if_pos rfl, joined, description?]
    cases t.get? k.name <;> rfl
  · rw [description?, get?_join_of_ne h, if_neg h, Option.or_none, description?]

end Table

theorem description?_mergeFields {type : String} {t u : Table Field} {fs : List Field}
    (hfs : (fs.map name).Nodup) (h : mergeFields type t fs = (u, none)) (n : String) :
    u.description? n =
      (t.description? n).or ((fs.find? fun f => f.name == n).bind Field.description) := by
  induction fs generalizing t with
  | nil =>
    obtain ⟨rfl, -⟩ := Prod.mk.inj h
    exact (Option.or_none ..).symm
  | cons k fs ih =>
    obtain ⟨hk, hfs⟩ := List.nodup_cons.1 hfs
    obtain ⟨-, hrest⟩ := mergeFields_cons_eq_ok_iff.1 h
    rw [ih hfs hrest, Table.description?_join, Option.or_assoc]
    by_cases hn : k.name = n
    · have hnone : fs.find? (fun f => f.name == n) = none :=
        List.find?_eq_none.2 fun f hf he =>
          hk (List.mem_map.2 ⟨f, hf, (eq_of_beq he).trans hn.symm⟩)
      have hfirst : (k :: fs).find? (fun f => f.name == n) = some k := by simp [hn]
      rw [if_pos hn, hnone, hfirst, Option.bind_none, Option.or_none, Option.bind_some]
    · have hskip : (k :: fs).find? (fun f => f.name == n) = fs.find? fun f => f.name == n := by
        simp [hn]
      rw [if_neg hn, hskip, Option.none_or]

namespace TypeDef

def fieldDescription? (d : TypeDef) (n : String) : Option String :=
  (d.getField? n).bind Field.description

theorem fieldDescription?_merge {current incoming t : TypeDef}
    (h : current.merge incoming = (t, none)) (n : String) :
    t.fieldDescription? n = (current.fieldDescription? n).or (incoming.fieldDescription? n) := by
  obtain ⟨m, description, origin, body⟩ := current
  obtain ⟨m', description', origin', body'⟩ := incoming
  cases hb : mergeBody m body body' with
  | none => simp [merge, hb] at h
  | some merged =>
    simp only [merge, hb, Prod.mk.injEq] at h
    obtain ⟨rfl, he⟩ := h
    cases BodyMerge.of_mergeBody hb with
    | enum vs ws | union ms ns | scalar => rfl
    | fields c is js fs gs => exact description?_mergeFields gs.nodup (Prod.ext rfl he) n

end TypeDef

theorem Definition.incoming_fieldDescription? (d : Definition) (n : String) :
    d.incoming.fieldDescription? n = d.type.fieldDescription? n := by
  rw [incoming_eq]
  rfl

namespace Schema

variable {s u : Schema} {d : Definition} {ds : List Definition}

def fieldDescription? (s : Schema) (type field : String) : Option String :=
  (s.getType? type).bind fun t => t.fieldDescription? field

theorem fieldDescription?_of_mem {t : TypeDef} (ht : t ∈ s.types.toList) {f : Field}
    (hf : f ∈ t.fields) : s.fieldDescription? t.name f.name = f.description := by
  have hget : s.getType? t.name = some t := Table.get?_of_mem ht
  rw [fieldDescription?, hget, Option.bind_some, TypeDef.fieldDescription?,
    TypeDef.getField?_of_mem hf, Option.bind_some]

theorem fieldDescription?_mergeDefinition (h : s.mergeDefinition d = (u, none))
    (type field : String) :
    u.fieldDescription? type field = (s.fieldDescription? type field).or
      (if name d = type then d.type.fieldDescription? field else none) := by
  have hget := s.getType?_mergeDefinition d type
  rw [h] at hget
  rw [fieldDescription?, hget, fieldDescription?]
  by_cases hn : name d = type
  · subst hn
    rw [if_pos rfl, if_pos rfl, Option.bind_some, ← d.incoming_fieldDescription?]
    cases hg : s.getType? (name d) with
    | none =>
      rw [merged_of_new hg]
      rfl
    | some c =>
      have hfits : (s.merged d).2 = none := by
        have herror := congrArg Prod.snd h
        rwa [mergeDefinition_eq] at herror
      rw [merged_of_found hg] at hfits ⊢
      exact TypeDef.fieldDescription?_merge (Prod.ext rfl hfits) field
  · rw [if_neg hn, if_neg hn, Option.or_none]

theorem fieldDescription?_mergeDefinitions (h : s.mergeDefinitions ds = (u, none))
    (type field : String) :
    u.fieldDescription? type field = (s.fieldDescription? type field).or
      ((definitionsOf type ds).findSome? fun d => d.type.fieldDescription? field) := by
  induction ds generalizing s with
  | nil =>
    obtain ⟨rfl, -⟩ := Prod.mk.inj h
    exact (Option.or_none ..).symm
  | cons d ds ih =>
    obtain ⟨t, hd, hds⟩ := mergeDefinitions_cons_eq_ok_iff.1 h
    rw [ih hds, fieldDescription?_mergeDefinition hd, Option.or_assoc, definitionsOf_cons]
    by_cases hn : name d = type
    · rw [if_pos hn, if_pos hn, List.findSome?_cons]
      cases d.type.fieldDescription? field <;> rfl
    · rw [if_neg hn, if_neg hn, Option.none_or]

end Schema

/-- The first description that is there is the first one that is not empty, unless an empty one stands
before that. -/
theorem firstPresent_eq_firstTold_iff {l : List (Option String)} (h : ∃ d ∈ l, told d = true) :
    l.findSome? id = (l.find? told).join ↔ some "" ∉ l.takeWhile fun d => !told d := by
  induction l with
  | nil =>
    obtain ⟨d, hd, -⟩ := h
    exact absurd hd List.not_mem_nil
  | cons d l ih =>
    cases ht : told d with
    | true =>
      obtain ⟨t, rfl⟩ : ∃ t, d = some t := Option.isSome_iff_exists.1 (by
        cases d with
        | none => cases ht
        | some t => rfl)
      simp [ht]
    | false =>
      have hl : ∃ e ∈ l, told e = true := by
        obtain ⟨e, he, hte⟩ := h
        obtain rfl | he := List.mem_cons.1 he
        · exact absurd (ht.symm.trans hte) Bool.false_ne_true
        · exact ⟨e, he, hte⟩
      cases d with
      | none => simpa [ht] using ih hl
      | some t =>
        have hempty : t = "" := by simpa [told] using ht
        subst hempty
        obtain ⟨e, he, hte⟩ := hl
        obtain ⟨x, hx⟩ : ∃ x, l.find? told = some x :=
          Option.isSome_iff_exists.1 (List.find?_isSome.2 ⟨e, he, hte⟩)
        have htold : told x = true := List.find?_some hx
        have hne : some "" ≠ x := fun heq => by simp [← heq, told] at htold
        simp [ht, hx, hne]

def declaredDescriptions (ds : List Definition) (type field : String) : List (Option String) :=
  (definitionsOf type ds).filterMap fun d => (d.type.getField? field).map Field.description

theorem findSome?_declaredDescriptions (ds : List Definition) (type field : String) :
    (declaredDescriptions ds type field).findSome? id =
      (definitionsOf type ds).findSome? fun d => d.type.fieldDescription? field := by
  rw [← List.head?_filterMap, ← List.head?_filterMap, declaredDescriptions,
    List.filterMap_filterMap]
  congr 2
  funext d
  rw [TypeDef.fieldDescription?]
  cases d.type.getField? field <;> rfl

namespace Schema

variable {docs : List SourceText} {s : Schema}

/-- In a schema of documents that fit, each type has the first of its descriptions that is not empty,
and each field the first of its descriptions. That is the first one that is not empty if and only if
no empty one stands before it. -/
theorem fieldDescriptions_of_ofTexts (h : ofTexts docs = .ok s) :
    ∀ t ∈ s.types.toList,
      t.description = firstDescription ((definitionsOf t.name
        (docs.flatMap SourceText.definitions)).map fun d => d.type.description) ∧
      ∀ f ∈ t.fields, ∃ l,
        l = declaredDescriptions (docs.flatMap SourceText.definitions) t.name f.name ∧
        f.description = l.findSome? id ∧
        ((∃ d ∈ l, told d = true) →
          (f.description = (l.find? told).join ↔ some "" ∉ l.takeWhile fun d => !told d)) := by
  intro t ht
  obtain ⟨htracks, -⟩ := ofTexts_tracks h
  obtain ⟨u, hrun, rfl⟩ := exists_of_ofTexts h
  refine ⟨?_, fun f hf => ⟨_, rfl, ?_⟩⟩
  · obtain ⟨first, rest, hds, hm⟩ := htracks.entry t ht
    rw [hds, hm.description]
  · have hpresent : f.description = (declaredDescriptions
        (docs.flatMap SourceText.definitions) t.name f.name).findSome? id := by
      rw [findSome?_declaredDescriptions, ← fieldDescription?_of_mem ht hf]
      exact fieldDescription?_mergeDefinitions hrun t.name f.name
    refine ⟨hpresent, fun htold => ?_⟩
    rw [hpresent]
    exact firstPresent_eq_firstTold_iff htold

/-- A type and two fields that are described late; the field `a` has an empty description before. -/
def describedLate : List SourceText := [
  ("\"\" type T \x7b \"\" a: Int b: Int \x7d", none),
  ("extend type T \x7b \"an a\" a: Int \"a b\" b: Int \x7d " ++
    "\"a T\" type T \x7b \"\" b: Int \x7d", none)]

theorem fieldDescriptions_describedLate :
    ∃ s t f g, ofTexts describedLate = .ok s ∧ t ∈ s.types.toList ∧ t.description = some "a T" ∧
      f ∈ t.fields ∧ f.name = "a" ∧ f.description = some "" ∧
      g ∈ t.fields ∧ g.name = "b" ∧ g.description = some "a b" := by
  have hdecided :
      (∃ s ∈ (ofTexts describedLate).toOption, ∃ t ∈ s.types.toList, t.name = "T" ∧
        (∃ f ∈ t.fields, f.name = "a") ∧ ∃ g ∈ t.fields, g.name = "b") ∧
      ∃ ds ∈ [describedLate.flatMap SourceText.definitions],
        firstDescription ((definitionsOf "T" ds).map fun d => d.type.description) = some "a T" ∧
        declaredDescriptions ds "T" "a" = [some "", some "an a"] ∧
        declaredDescriptions ds "T" "b" = [none, some "a b", some ""] := by
    decide +kernel
  obtain ⟨⟨s, hs, t, ht, hT, ⟨f, hf, ha⟩, g, hg, hb⟩, ds, hds, htype, hdeclared⟩ := hdecided
  obtain rfl := List.mem_singleton.1 hds
  have hok : ofTexts describedLate = .ok s := eq_ok_of_toOption hs
  obtain ⟨hd, hfields⟩ := fieldDescriptions_of_ofTexts hok t ht
  obtain ⟨l, hl, hfirst, -⟩ := hfields f hf
  obtain ⟨m, hm, -, hiff⟩ := hfields g hg
  rw [hT] at hd hl hm
  rw [ha, hdeclared.1] at hl
  rw [hb, hdeclared.2] at hm
  subst hl hm
  exact ⟨s, t, f, g, hok, ht, hd.trans htype, hf, ha, hfirst, hg, hb,
    (hiff (by decide)).2 (by decide)⟩

theorem firstTold_not_taken :
    ∃ s t f, ofTexts describedLate = .ok s ∧ t ∈ s.types.toList ∧ f ∈ t.fields ∧
      ∃ l, l = declaredDescriptions (describedLate.flatMap SourceText.definitions) t.name f.name ∧
        (∃ d ∈ l, told d = true) ∧ f.description ≠ (l.find? told).join := by
  have hdecided :
      ∃ s ∈ (ofTexts describedLate).toOption, ∃ t ∈ s.types.toList, ∃ f ∈ t.fields,
        ∃ l ∈ [declaredDescriptions (describedLate.flatMap SourceText.definitions) t.name f.name],
          (∃ d ∈ l, told d = true) ∧ f.description ≠ (l.find? told).join := by
    decide +kernel
  obtain ⟨s, hs, t, ht, f, hf, l, hl, hlost⟩ := hdecided
  exact ⟨s, t, f, eq_ok_of_toOption hs, ht, hf, l, List.mem_singleton.1 hl,
    hlost⟩

end Schema

end SchemaTypings
