import SchemaTypings.Generate
import SchemaTypings.Proofs.PlainDeclarations
import SchemaTypings.Proofs.WrittenDocuments

namespace SchemaTypings

open Sdl (AllNames Operation)

theorem TypeDef.mem_names {d : TypeDef} {n : String} :
    n ∈ d.names ↔ n = d.name ∨ n ∈ d.values.map EnumValue.name ∨ n ∈ d.fields.flatMap Field.names ∨
      n ∈ d.members := by
  obtain ⟨m, description, origin, body⟩ := d
  cases body <;> simp [names, Body.names, values, fields, members]

theorem Field.names_of_signature {f g : Field} (h : f.signature = g.signature) :
    f.names = g.names := by
  obtain ⟨hn, ht⟩ := Prod.mk.inj h
  obtain ⟨ht, ha⟩ := Prod.mk.inj ht
  rw [names, hn, ht, ha]
  rfl

theorem exists_of_mem_append_unseen {α : Type} [Named α] (f : Definition → List α)
    {first : Definition} {rest : List Definition} {seen : List String} {a : α}
    (h : a ∈ f first ++ unseen seen (rest.flatMap f)) : ∃ e ∈ first :: rest, a ∈ f e := by
  obtain h | h := List.mem_append.1 h
  · exact ⟨first, List.mem_cons_self .., h⟩
  · obtain ⟨e, he, ha⟩ := List.mem_flatMap.1 (mem_of_mem_unseen h)
    exact ⟨e, List.mem_cons_of_mem _ he, ha⟩

/-- Every name in a merged type comes from one of its definitions. -/
theorem MergedFrom.mem_names {first : Definition} {rest : List Definition} {t : TypeDef}
    (h : MergedFrom first rest t) {n : String} (hn : n ∈ t.names) :
    n = t.name ∨ ∃ e ∈ first :: rest, n ∈ e.type.names := by
  obtain hn | hn | hn | hn := TypeDef.mem_names.1 hn
  · exact .inl hn
  · obtain ⟨v, hv, rfl⟩ := List.mem_map.1 hn
    rw [h.values] at hv
    obtain ⟨e, he, hv⟩ := exists_of_mem_append_unseen (fun d => d.type.values) hv
    exact .inr ⟨e, he, TypeDef.mem_names.2 (.inr (.inl (List.mem_map_of_mem hv)))⟩
  · obtain ⟨f, hf, hn⟩ := List.mem_flatMap.1 hn
    have hs : f.signature ∈ t.fields.map Field.signature := List.mem_map_of_mem hf
    rw [h.fields] at hs
    obtain ⟨g, hg, hs⟩ := List.mem_map.1 hs
    obtain ⟨e, he, hg⟩ := List.mem_flatMap.1 (mem_of_mem_unseen hg)
    have hn : n ∈ g.names := Field.names_of_signature hs ▸ hn
    have hm : n ∈ e.type.fields.flatMap Field.names := List.mem_flatMap.2 ⟨g, hg, hn⟩
    exact .inr ⟨e, he, TypeDef.mem_names.2 (.inr (.inr (.inl hm)))⟩
  · rw [h.members] at hn
    obtain ⟨e, he, hn⟩ := exists_of_mem_append_unseen (fun d => d.type.members) hn
    exact .inr ⟨e, he, TypeDef.mem_names.2 (.inr (.inr (.inr hn)))⟩

theorem Tracks.allNames {ds : List Definition} {types : Table TypeDef} (h : Tracks ds types)
    (hds : ∀ d ∈ ds, AllNames d.type.names) : ∀ t ∈ types.toList, AllNames t.names := by
  intro t ht n hn
  obtain ⟨first, rest, hd, hm⟩ := h.entry t ht
  have hmem : ∀ e ∈ first :: rest, e ∈ ds ∧ name e = t.name := fun e he => by
    simpa using List.mem_filter.1 (hd ▸ he : e ∈ definitionsOf t.name ds)
  obtain rfl | ⟨e, he, hn⟩ := hm.mem_names hn
  · obtain ⟨hf, hname⟩ := hmem first (List.mem_cons_self ..)
    exact hds first hf _ (hname ▸ List.mem_cons_self ..)
  · exact hds e (hmem e he).1 n hn

theorem SourceText.allNames_definitions (d : SourceText) :
    ∀ e ∈ d.definitions, AllNames e.type.names := by
  unfold definitions
  cases hp : parseDocument d.1 d.2 with
  | error e => exact List.forall_mem_nil _
  | ok doc =>
    exact (Sdl.isWritten_of_parse (parseDocument_ok hp)).allNames

namespace Schema

theorem roots_foldl_addBuiltin (s : Schema) (ns : List String) :
    (ns.foldl addBuiltin s).roots = s.roots := by
  induction ns generalizing s with
  | nil => rfl
  | cons n ns ih =>
    rw [List.foldl_cons, ih]
    unfold addBuiltin
    split <;> rfl

theorem toList_foldl_addBuiltin (s : Schema) (ns : List String) :
    (ns.foldl addBuiltin s).types.toList =
      s.types.toList ++ (unseen s.types.names ns).map builtin := by
  induction ns generalizing s with
  | nil => simp [unseen]
  | cons n ns ih =>
    by_cases h : n ∈ s.types.names
    · have hs : s.addBuiltin n = s := if_pos (Table.contains_iff.2 h)
      have hu : unseen s.types.names (n :: ns) = unseen s.types.names ns := if_pos h
      rw [List.foldl_cons, hs, ih, hu]
    · have hs : s.addBuiltin n = s.addType (builtin n) := if_neg (mt Table.contains_iff.1 h)
      have hl : (s.addType (builtin n)).types.toList = s.types.toList ++ [builtin n] :=
        Table.toList_insert_of_new (Table.get?_eq_none.2 h)
      have hc : ∀ m, m ∈ (s.addType (builtin n)).types.names ↔ m ∈ n :: s.types.names := fun m => by
        rw [Table.names, hl, List.map_append, List.mem_append, List.mem_cons, or_comm]
        exact or_congr_left List.mem_singleton
      have hu : unseen s.types.names (n :: ns) = n :: unseen (n :: s.types.names) ns := if_neg h
      rw [List.foldl_cons, hs, ih, hl, unseen_congr hc, hu]
      simp

theorem buildChecked_ok {m s : Schema} (h : m.buildChecked = .ok s) :
    s = m.withBuiltins ∧ s.violation? = none := by
  unfold buildChecked build validate at h
  cases hv : m.withBuiltins.violation? with
  | some v =>
    rw [hv] at h
    cases h
  | none =>
    rw [hv] at h
    obtain rfl := Except.ok.inj h
    exact ⟨rfl, hv⟩

theorem allNames_builtin : ∀ n ∈ builtinScalars, AllNames (builtin n).names := by
  intro n hn
  have hc : ∃ c r, n.toList = c :: r ∧ Sdl.isNameStart c = true ∧ r.all Sdl.isNameChar = true := by
    simp only [builtinScalars, List.mem_cons, List.not_mem_nil, or_false] at hn
    obtain rfl | rfl | rfl | rfl | rfl := hn <;> exact ⟨_, _, rfl, by decide, by decide⟩
  exact List.forall_mem_singleton.2 hc

theorem allNames_withBuiltins {m : Schema} (h : ∀ t ∈ m.types.toList, AllNames t.names) :
    ∀ t ∈ m.withBuiltins.types.toList, AllNames t.names := by
  have hl : m.withBuiltins.types.toList = _ := toList_foldl_addBuiltin m builtinScalars
  rw [hl]
  refine List.forall_mem_append.2 ⟨h, List.forall_mem_map.2 fun n hn => ?_⟩
  exact allNames_builtin n (mem_of_mem_unseen hn)

theorem ofText_ok {text : String} {s : Schema} (h : ofText text = .ok s) :
    ∃ m, ofTexts [(text, none)] = .ok m ∧ s = m.withBuiltins ∧ s.violation? = none := by
  unfold ofText at h
  cases ha : empty.addText? text none with
  | error e =>
    rw [ha] at h
    cases h
  | ok m =>
    rw [ha] at h
    refine ⟨m, ?_, buildChecked_ok h⟩
    rw [ofTexts, List.foldlM_cons, ha]
    rfl

/-- The names in an accepted text are names of the grammar, so they are in its schema. -/
theorem ofText_allNames {text : String} {s : Schema} (h : ofText text = .ok s) :
    ∀ t ∈ s.types.toList, AllNames t.names := by
  obtain ⟨m, hm, rfl, -⟩ := ofText_ok h
  obtain ⟨ht, -⟩ := ofTexts_tracks hm
  refine allNames_withBuiltins (ht.allNames fun e he => ?_)
  obtain ⟨d, -, he⟩ := List.mem_flatMap.1 he
  exact d.allNames_definitions e he

theorem ofText_isPlain {text : String} {s : Schema} (h : ofText text = .ok s) : s.IsPlain := by
  intro n hn
  obtain ⟨t, ht, hn⟩ := List.mem_flatMap.1 hn
  have hname := ofText_allNames h t ht n hn
  exact ⟨Sdl.not_mem_of_isName hname (by decide), Sdl.not_mem_of_isName hname (by decide)⟩

end Schema

theorem generateFromText_ok {text : String} {o : Options} {out : String}
    (h : generateFromText text o = .ok out) :
    ∃ s, Schema.ofText text = .ok s ∧ out = s.generate o := by
  unfold generateFromText at h
  cases hs : Schema.ofText text with
  | error e =>
    rw [hs] at h
    cases h
  | ok s =>
    rw [hs] at h
    exact ⟨s, rfl, (Except.ok.inj h).symm⟩

end SchemaTypings
