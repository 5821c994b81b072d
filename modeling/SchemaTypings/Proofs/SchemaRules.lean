import SchemaTypings.Proofs.DeclaredTypes

namespace SchemaTypings

theorem firstRepeated_eq_none_iff {α : Type} [Named α] {seen : List String} {l : List α} :
    firstRepeated seen l = none ↔ (l.map name).Nodup ∧ ∀ a ∈ l, name a ∉ seen := by
  induction l generalizing seen with
  | nil => simp [firstRepeated]
  | cons a r ih =>
    by_cases h : name a ∈ seen
    · simp [firstRepeated, h]
    · have hc : seen.contains (name a) = false := by simpa using h
      have hn : firstRepeated seen (a :: r) = firstRepeated (name a :: seen) r := by
        simp only [firstRepeated, hc, Bool.false_eq_true, ↓reduceIte]
      rw [hn, ih, List.map_cons, List.nodup_cons, List.forall_mem_cons]
      constructor
      · rintro ⟨hr, hs⟩
        have ha : name a ∉ r.map name := fun hm => by
          obtain ⟨b, hb, he⟩ := List.mem_map.1 hm
          exact hs b hb (he ▸ List.mem_cons_self ..)
        exact ⟨⟨ha, hr⟩, h, fun b hb hm => hs b hb (List.mem_cons_of_mem _ hm)⟩
      · rintro ⟨⟨ha, hr⟩, -, hs⟩
        refine ⟨hr, fun b hb hm => ?_⟩
        obtain he | hm := List.mem_cons.1 hm
        · exact ha (he ▸ List.mem_map_of_mem hb)
        · exact hs b hb hm

namespace TypeDef

/-- The rules for a type, where `known` tells the names of types. -/
structure Keeps (known : String → Prop) (d : TypeDef) : Prop where
  hasValues : d.kind = .enum → d.values ≠ []
  distinct : (d.values.map EnumValue.name).Nodup
  hasMembers : d.kind = .union → d.members ≠ []
  references : ∀ r ∈ d.references, known r.target

theorem forall_references_iff {known : String → Prop} {d : TypeDef} :
    (∀ r ∈ d.references, known r.target) ↔
      (∀ n ∈ d.members, known n) ∧ (∀ n ∈ d.implements, known n) ∧
      ∀ f ∈ d.fields, known f.type.baseName ∧ ∀ a ∈ f.arguments, known a.type.baseName := by
  obtain ⟨n, description, origin, body⟩ := d
  cases body with
  | enum vs | scalar => simp [references, members, implements, fields]
  | union ms => simp [references, members, implements, fields]
  | fields c is fs =>
    simp only [references, members, implements, fields, List.forall_mem_append,
      List.forall_mem_map, List.forall_mem_flatMap, Field.references, List.forall_mem_cons,
      List.not_mem_nil, false_implies, implies_true, true_and]

end TypeDef

def Known (ds : List Definition) (n : String) : Prop :=
  n ∈ ds.map name ∨ n ∈ builtinScalars

instance (ds : List Definition) (n : String) : Decidable (Known ds n) :=
  inferInstanceAs (Decidable (_ ∨ _))

namespace Schema

theorem mem_names_withBuiltins {m : Schema} {ds : List Definition} (h : Tracks ds m.types)
    {n : String} : n ∈ m.withBuiltins.types.names ↔ Known ds n := by
  have hmem := mem_names_firstSeen (l := ds.map name ++ builtinScalars) (n := n)
  rw [names_strings, names_strings] at hmem
  rw [names_withBuiltins h, hmem, List.mem_append, Known]

variable {s : Schema} {d : TypeDef}

theorem missingReference_eq_none_iff :
    s.missingReference d = none ↔ ∀ r ∈ d.references, r.target ∈ s.types.names := by
  simp only [missingReference, Option.map_eq_none_iff, List.find?_eq_none, Bool.not_eq_true',
    Bool.not_eq_false, hasType, Table.contains_iff]

theorem violationOf_eq_none_iff : s.violationOf d = none ↔ d.Keeps (· ∈ s.types.names) := by
  obtain ⟨n, description, origin, body⟩ := d
  cases body with
  | enum vs =>
    cases vs with
    | nil => exact ⟨fun h => (by cases h), fun h => absurd rfl (h.hasValues rfl)⟩
    | cons v vs =>
      have hr : s.violationOf ⟨n, description, origin, .enum (v :: vs)⟩ = none ↔
          ((v :: vs).map EnumValue.name).Nodup := by
        simp only [violationOf, Option.map_eq_none_iff, firstRepeated_eq_none_iff,
          List.not_mem_nil, not_false_eq_true, implies_true, and_true]
        rfl
      refine hr.trans ⟨fun h => ⟨fun _ => List.cons_ne_nil _ _, h, ?_, ?_⟩, fun h => h.distinct⟩
      · exact fun hk => by cases hk
      · exact List.forall_mem_nil _
  | scalar =>
    refine ⟨fun _ => ⟨?_, List.nodup_nil, ?_, List.forall_mem_nil _⟩, fun _ => rfl⟩
    · exact fun hk => by cases hk
    · exact fun hk => by cases hk
  | union ms =>
    cases ms with
    | nil => exact ⟨fun h => (by cases h), fun h => absurd rfl (h.hasMembers rfl)⟩
    | cons m ms =>
      refine missingReference_eq_none_iff.trans ⟨fun h => ⟨?_, List.nodup_nil, ?_, h⟩,
        fun h => h.references⟩
      · exact fun hk => by cases hk
      · exact fun _ => List.cons_ne_nil _ _
  | fields c is fs =>
    refine missingReference_eq_none_iff.trans ⟨fun h => ⟨?_, List.nodup_nil, ?_, h⟩,
      fun h => h.references⟩
    · exact fun hk => by cases c <;> cases hk
    · exact fun hk => by cases c <;> cases hk

/-- Types that keep the rules can be built into a complete schema. -/
theorem build_isOk_iff :
    (∃ t, s.build = .ok t) ↔ ∀ d ∈ s.types.toList, d.Keeps (· ∈ s.withBuiltins.types.names) := by
  have hl : s.withBuiltins.types.toList = _ := toList_foldl_addBuiltin s builtinScalars
  have hb : ∀ d ∈ (unseen s.types.names builtinScalars).map builtin,
      s.withBuiltins.violationOf d = none := List.forall_mem_map.2 fun _ _ => rfl
  have hv : s.withBuiltins.violation? = none ↔
      ∀ d ∈ s.types.toList, d.Keeps (· ∈ s.withBuiltins.types.names) := by
    simp only [violation?, List.findSome?_eq_none_iff, ← violationOf_eq_none_iff]
    rw [hl, List.forall_mem_append]
    exact and_iff_left hb
  rw [← hv, build, validate]
  cases s.withBuiltins.violation? with
  | none => exact ⟨fun _ => rfl, fun _ => ⟨_, rfl⟩⟩
  | some v => exact ⟨fun ⟨t, h⟩ => (by cases h), fun h => (by cases h)⟩

end Schema

end SchemaTypings
