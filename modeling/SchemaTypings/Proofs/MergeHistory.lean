import SchemaTypings.Proofs.MergeRuns

namespace SchemaTypings

def told (d : Option String) : Bool :=
  d.any fun t => !t.isEmpty

/-- The first description that is not empty, or else the first one. -/
def firstDescription (ds : List (Option String)) : Option String :=
  ((ds.find? told).or (ds.find? Option.isSome)).join

theorem firstDescription_singleton (d : Option String) : firstDescription [d] = d := by
  cases d with
  | none => rfl
  | some t => cases h : told (some t) <;> simp [firstDescription, h]

theorem firstDescription_append (ds : List (Option String)) (d : Option String) :
    firstDescription (ds ++ [d]) = mergeDescription (firstDescription ds) d := by
  cases ht : ds.find? told with
  | some x =>
    have hx : told x = true := List.find?_some ht
    cases x with
    | none => simp [told] at hx
    | some t =>
      have he : t.isEmpty = false := by simpa [told] using hx
      simp [firstDescription, List.find?_append, ht, mergeDescription, he]
  | none =>
    cases hs : ds.find? Option.isSome with
    | none =>
      cases d with
      | none => simp [firstDescription, List.find?_append, ht, hs, mergeDescription, told]
      | some t => cases h : told (some t) <;>
          simp [firstDescription, List.find?_append, ht, hs, mergeDescription, h]
    | some x =>
      have hx : told x = false := by
        simpa using List.find?_eq_none.1 ht x (List.mem_of_find?_eq_some hs)
      cases x with
      | none => simpa using List.find?_some hs
      | some t =>
        have he : t.isEmpty = true := by simpa [told] using hx
        cases d with
        | none => simp [firstDescription, List.find?_append, ht, hs, mergeDescription, he, told]
        | some u =>
          cases h : told (some u) with
          | true => simp [firstDescription, List.find?_append, ht, hs, mergeDescription, he, h]
          | false =>
            have hu : u.isEmpty = true := by simpa [told] using h
            have heq : t = u := by
              rw [String.isEmpty_iff.1 he, String.isEmpty_iff.1 hu]
            simp [firstDescription, List.find?_append, ht, hs, mergeDescription, h, heq]

/-- `t` is what the definitions of one name make together. -/
structure MergedFrom (first : Definition) (rest : List Definition) (t : TypeDef) : Prop where
  kind : ∀ d ∈ first :: rest, d.type.kind = t.kind
  origin : t.origin = ((first :: rest).find? Definition.declares).bind fun d => d.type.origin
  description : t.description = firstDescription ((first :: rest).map fun d => d.type.description)
  fields : t.fields.map Field.signature =
    (firstSeen ((first :: rest).flatMap fun d => d.type.fields)).map Field.signature
  implements : t.implements = first.type.implements ++
    unseen first.type.implements (rest.flatMap fun d => d.type.implements)
  values : t.values = first.type.values ++
    unseen (first.type.values.map name) (rest.flatMap fun d => d.type.values)
  members : t.members = first.type.members ++
    unseen first.type.members (rest.flatMap fun d => d.type.members)

theorem addNew_strings (l r : List String) : addNew l r = l ++ unseen l r := by
  rw [addNew_eq, names_strings]

namespace MergedFrom

theorem single (d : Definition) : MergedFrom d [] d.incoming where
  kind := by simp [d.incoming_kind]
  origin := by cases h : d.declares <;> simp [d.incoming_origin, h]
  description := by
    rw [d.incoming_description]
    exact (firstDescription_singleton _).symm
  fields := by
    have h : firstSeen d.type.fields = d.type.fields :=
      unseen_eq_self d.type.nodup_fields (by simp)
    simp [d.incoming_fields, h]
  implements := by simp [d.incoming_implements, unseen]
  values := by simp [d.incoming_values, unseen]
  members := by simp [d.incoming_members, unseen]

variable {first d : Definition} {rest : List Definition} {c t : TypeDef}

theorem names_fields (h : MergedFrom first rest c) {n : String} :
    n ∈ c.fields.map name ↔ n ∈ ((first :: rest).flatMap fun e => e.type.fields).map name := by
  have hs := congrArg (List.map Prod.fst) h.fields
  simp only [List.map_map] at hs
  exact (iff_of_eq (congrArg (n ∈ ·) hs)).trans mem_names_firstSeen

theorem origin_append (h : MergedFrom first rest c)
    (ho : ∀ e ∈ first :: rest, e.type.origin.isSome) :
    c.origin.or d.incoming.origin =
      ((first :: (rest ++ [d])).find? Definition.declares).bind fun e => e.type.origin := by
  rw [h.origin, d.incoming_origin, ← List.cons_append, List.find?_append]
  cases hf : (first :: rest).find? Definition.declares with
  | some e =>
    obtain ⟨o, he⟩ := Option.isSome_iff_exists.1 (ho e (List.mem_of_find?_eq_some hf))
    simp [he]
  | none => cases hd : d.declares <;> simp [hd]

theorem append (h : MergedFrom first rest c) (ho : ∀ e ∈ first :: rest, e.type.origin.isSome)
    (hm : Merges c d.incoming t) : MergedFrom first (rest ++ [d]) t where
  kind e he := by
    rw [hm.kind]
    obtain he | he := List.mem_append.1 (List.cons_append .. ▸ he)
    · exact h.kind e he
    · rw [List.mem_singleton.1 he, ← d.incoming_kind, hm.incomingKind]
  origin := hm.origin.trans (h.origin_append ho)
  description := by
    rw [hm.description, h.description, d.incoming_description, ← firstDescription_append]
    simp
  fields := by
    have hf := firstSeen_append ((first :: rest).flatMap fun e => e.type.fields) d.type.fields
    have hs := unseen_congr (fun n => h.names_fields (n := n)) d.type.fields
    rw [hm.signatures, d.incoming_fields, List.map_append, h.fields, hs, ← List.map_append, ← hf]
    simp
  implements := by
    rw [hm.implements, d.incoming_implements, h.implements, ← addNew_strings, ← addNew_append,
      addNew_strings]
    simp
  values := by
    rw [hm.values, d.incoming_values, h.values, ← addNew_eq, ← addNew_append, addNew_eq]
    simp
  members := by
    rw [hm.members, d.incoming_members, h.members, ← addNew_strings, ← addNew_append,
      addNew_strings]
    simp

end MergedFrom

def definitionsOf (n : String) (ds : List Definition) : List Definition :=
  ds.filter fun d => name d == n

/-- The types come in the order in which their definitions came first, each made of all definitions
of its name. -/
structure Tracks (ds : List Definition) (types : Table TypeDef) : Prop where
  names : types.names = (firstSeen ds).map name
  entry : ∀ t ∈ types.toList, ∃ first rest,
    definitionsOf t.name ds = first :: rest ∧ MergedFrom first rest t

namespace Tracks

theorem empty : Tracks [] Table.empty :=
  ⟨rfl, fun _ ht => absurd ht (List.not_mem_nil)⟩

variable {ds : List Definition} {d : Definition} {s s' : Schema}

theorem mem_names (h : Tracks ds s.types) {n : String} :
    n ∈ s.types.names ↔ n ∈ ds.map name := by
  rw [h.names, mem_names_firstSeen]

theorem addType (h : Tracks ds s.types) (hn : s.getType? d.type.name = none) :
    Tracks (ds ++ [d]) (s.addType d.incoming).types := by
  have hd : name d ∉ s.types.names := Table.get?_eq_none.1 hn
  have hi : s.types.get? (name d.incoming) = none :=
    (congrArg s.types.get? d.incoming_name).trans hn
  have hl : (s.addType d.incoming).types.toList = s.types.toList ++ [d.incoming] :=
    Table.toList_insert_of_new hi
  constructor
  · have hu : unseen (ds.map name) [d] = [d] := by
      simp [unseen, mt h.mem_names.2 hd]
    rw [firstSeen_append, hu, List.map_append, ← h.names, Table.names, hl, List.map_append]
    exact congrArg (s.types.names ++ [·]) d.incoming_name
  · intro t ht
    rw [hl] at ht
    obtain ht | ht := List.mem_append.1 ht
    · obtain ⟨first, rest, hf, hm⟩ := h.entry t ht
      have hne : name d ≠ t.name := fun he => hd (he ▸ List.mem_map_of_mem ht)
      exact ⟨first, rest, by simpa [definitionsOf, hne] using hf, hm⟩
    · obtain rfl := List.mem_singleton.1 ht
      have hnone : definitionsOf (name d) ds = [] := by
        refine List.filter_eq_nil_iff.2 fun e he heq => mt h.mem_names.2 hd ?_
        exact List.mem_map.2 ⟨e, he, by simpa using heq⟩
      refine ⟨d, [], ?_, MergedFrom.single d⟩
      have hself : definitionsOf (name d) [d] = [d] := by simp [definitionsOf]
      rw [d.incoming_name, definitionsOf, List.filter_append]
      change definitionsOf (name d) ds ++ definitionsOf (name d) [d] = [d]
      rw [hnone, hself, List.nil_append]

theorem merge (h : Tracks ds s.types) (ho : ∀ e ∈ ds, e.type.origin.isSome) {c t : TypeDef}
    (hc : s.getType? d.type.name = some c) (hm : Merges c d.incoming t) :
    Tracks (ds ++ [d]) (s.addType t).types := by
  obtain ⟨hmem, hcn⟩ := Table.mem_of_get? hc
  have hn : name d ∈ s.types.names := List.mem_map.2 ⟨c, hmem, hcn⟩
  have htn : t.name = name d := hm.name.trans hcn
  constructor
  · have hu : unseen (ds.map name) [d] = [] := by
      simp [unseen, h.mem_names.1 hn]
    have hin : t.name ∈ s.types.names := htn ▸ hn
    rw [firstSeen_append, hu, List.append_nil, ← h.names]
    exact (Table.names_insert s.types t).trans (if_pos hin)
  · intro u hu
    have hg := Table.get?_of_mem hu
    rw [show (s.addType t).types.get? (name u) = _ from Table.get?_insert ..] at hg
    by_cases he : name t = name u
    · obtain rfl : t = u := by simpa [he] using hg
      obtain ⟨first, rest, hf, hmf⟩ := h.entry c hmem
      have hsub : ∀ e ∈ first :: rest, e.type.origin.isSome := fun e hin =>
        ho e ((List.mem_filter.1 (hf ▸ hin)).1)
      refine ⟨first, rest ++ [d], ?_, hmf.append hsub hm⟩
      rw [hm.name, definitionsOf, List.filter_append, ← definitionsOf, hf]
      simp [show name d = c.name from hcn.symm]
    · obtain ⟨hm', -⟩ := Table.mem_of_get? (by simpa [he] using hg : s.types.get? (name u) = some u)
      obtain ⟨first, rest, hf, hmf⟩ := h.entry u hm'
      have hne : name d ≠ u.name := htn ▸ he
      exact ⟨first, rest, by simpa [definitionsOf, hne] using hf, hmf⟩

theorem mergeDefinition (h : Tracks ds s.types) (ho : ∀ e ∈ ds, e.type.origin.isSome)
    (hs : s.mergeDefinition d = (s', none)) : Tracks (ds ++ [d]) s'.types := by
  obtain ⟨hn, rfl⟩ | ⟨c, t, hc, hm, rfl⟩ := Schema.mergeDefinition_ok hs
  · exact h.addType hn
  · exact h.merge ho hc hm

theorem mergeDefinitions (h : Tracks ds s.types) {es : List Definition}
    (ho : ∀ e ∈ ds ++ es, e.type.origin.isSome) (hs : s.mergeDefinitions es = (s', none)) :
    Tracks (ds ++ es) s'.types := by
  induction es generalizing ds s with
  | nil =>
    obtain ⟨rfl, -⟩ := Prod.mk.inj hs
    simpa using h
  | cons e es ih =>
    obtain ⟨u, hm, hes⟩ := Schema.mergeDefinitions_cons_eq_ok_iff.1 hs
    have hu := h.mergeDefinition (fun a ha => ho a (List.mem_append_left _ ha)) hm
    have happend : ds ++ e :: es = (ds ++ [e]) ++ es := by simp
    rw [happend] at ho ⊢
    exact ih hu ho hes

end Tracks

end SchemaTypings
