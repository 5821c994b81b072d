import SchemaTypings.Proofs.SchemaRules

namespace SchemaTypings

def Field.IsSound (known : String → Prop) (f : Field) : Prop :=
  known f.type.baseName ∧ ∀ a ∈ f.arguments, known a.type.baseName

/-- The rules for a type by its kind, where `known` tells the names of types. -/
def TypeDef.IsSound (known : String → Prop) (d : TypeDef) : Prop :=
  match d.body with
  | .enum vs => vs ≠ [] ∧ (vs.map EnumValue.name).Nodup
  | .fields _ is fs => (∀ n ∈ is, known n) ∧ ∀ f ∈ fs.toList, f.IsSound known
  | .scalar => True
  | .union ms => ms ≠ [] ∧ ∀ n ∈ ms, known n

/-- The first rule that a type breaks, and the message that tells of it. -/
inductive TypeDef.FirstFault (known : String → Prop) (d : TypeDef) : Violation → String → Prop
  | implemented {c : Category} {fs : Table Field} {pre post : List String} {n : String}
    (body : d.body = .fields c (pre ++ n :: post) fs) (before : ∀ m ∈ pre, known m)
    (missing : ¬known n) :
    FirstFault known d (.typeNotFound ⟨n, .type d.name⟩)
      ("type '" ++ n ++ "' referenced by '" ++ d.name ++ "' not found")
  | field {c : Category} {is : List String} {fs : Table Field} {pre post : List Field} {f : Field}
    (body : d.body = .fields c is fs) (split : fs.toList = pre ++ f :: post)
    (implements : ∀ m ∈ is, known m) (before : ∀ g ∈ pre, g.IsSound known)
    (missing : ¬known f.type.baseName) :
    FirstFault known d (.typeNotFound ⟨f.type.baseName, .field d.name f.name⟩)
      ("type '" ++ f.type.baseName ++ "' referenced by '" ++ (d.name ++ "." ++ f.name) ++
        "' not found")
  | argument {c : Category} {is : List String} {fs : Table Field} {pre post : List Field} {f : Field}
    {as bs : List Argument} {a : Argument} (body : d.body = .fields c is fs)
    (split : fs.toList = pre ++ f :: post) (arguments : f.arguments = as ++ a :: bs)
    (implements : ∀ m ∈ is, known m) (before : ∀ g ∈ pre, g.IsSound known)
    (result : known f.type.baseName) (beforeArgument : ∀ b ∈ as, known b.type.baseName)
    (missing : ¬known a.type.baseName) :
    FirstFault known d (.typeNotFound ⟨a.type.baseName, .argument d.name f.name a.name⟩)
      ("type '" ++ a.type.baseName ++ "' referenced by '" ++
        (d.name ++ "." ++ f.name ++ "(" ++ a.name ++ ")") ++ "' not found")
  | emptyEnum (body : d.body = .enum []) :
    FirstFault known d (.emptyEnum d.name)
      ("validation error: Enum '" ++ d.name ++ "' must define at least one value")
  | repeatedValue {pre post : List EnumValue} {v : EnumValue}
    (body : d.body = .enum (pre ++ v :: post)) (before : (pre.map EnumValue.name).Nodup)
    (repeated : v.name ∈ pre.map EnumValue.name) :
    FirstFault known d (.repeatedValue d.name v.name)
      ("invalid enum value '" ++ v.name ++ "' for enum '" ++ d.name ++ "'")
  | emptyUnion (body : d.body = .union []) :
    FirstFault known d (.emptyUnion d.name)
      ("validation error: Union '" ++ d.name ++ "' must have at least one member")
  | member {pre post : List String} {n : String} (body : d.body = .union (pre ++ n :: post))
    (before : ∀ m ∈ pre, known m) (missing : ¬known n) :
    FirstFault known d (.typeNotFound ⟨n, .type d.name⟩)
      ("type '" ++ n ++ "' referenced by '" ++ d.name ++ "' not found")

/-- The first type that breaks a rule, and the first rule that it breaks. -/
def Schema.FirstFault (s : Schema) (v : Violation) (message : String) : Prop :=
  ∃ pre d post, s.types.toList = pre ++ d :: post ∧
    (∀ c ∈ pre, c.IsSound (· ∈ s.types.names)) ∧ d.FirstFault (· ∈ s.types.names) v message

theorem TypeDef.isSound_iff_keeps {known : String → Prop} {d : TypeDef} :
    d.IsSound known ↔ d.Keeps known := by
  have hreferences : (∀ r ∈ d.references, known r.target) ↔ _ := forall_references_iff
  obtain ⟨n, description, origin, body⟩ := d
  cases body with
  | enum vs =>
    constructor
    · rintro ⟨hne, hnodup⟩
      exact ⟨fun _ => hne, hnodup, fun hk => (by cases hk), List.forall_mem_nil _⟩
    · exact fun h => ⟨h.hasValues rfl, h.distinct⟩
  | fields c is fs =>
    constructor
    · rintro ⟨his, hfs⟩
      refine ⟨fun hk => ?_, List.nodup_nil, fun hk => ?_, hreferences.2 ⟨?_, his, hfs⟩⟩
      · cases c <;> cases hk
      · cases c <;> cases hk
      · exact List.forall_mem_nil _
    · exact fun h => (hreferences.1 h.references).2
  | scalar =>
    refine ⟨fun _ => ⟨?_, List.nodup_nil, ?_, List.forall_mem_nil _⟩, fun _ => trivial⟩
    · exact fun hk => by cases hk
    · exact fun hk => by cases hk
  | union ms =>
    constructor
    · rintro ⟨hne, hms⟩
      refine ⟨fun hk => (by cases hk), List.nodup_nil, fun _ => hne, hreferences.2 ⟨hms, ?_, ?_⟩⟩
      · exact List.forall_mem_nil _
      · exact List.forall_mem_nil _
    · exact fun h => ⟨h.hasMembers rfl, (hreferences.1 h.references).1⟩

/-- An entry is the first repeated one if those before it have different new names and its own is
among them or has been seen. -/
theorem firstRepeated_eq_some_iff {α : Type} [Named α] {seen : List String} {l : List α} {a : α} :
    firstRepeated seen l = some a ↔ ∃ pre post, l = pre ++ a :: post ∧ (pre.map name).Nodup ∧
      (∀ b ∈ pre, name b ∉ seen) ∧ (name a ∈ seen ∨ name a ∈ pre.map name) := by
  constructor
  · intro h
    induction l generalizing seen with
    | nil => cases h
    | cons b r ih =>
      by_cases hb : name b ∈ seen
      · simp only [firstRepeated, List.contains_iff_mem, hb, ↓reduceIte, Option.some.injEq] at h
        subst h
        exact ⟨[], r, rfl, List.nodup_nil, List.forall_mem_nil _, .inl hb⟩
      · simp only [firstRepeated, List.contains_iff_mem, hb, ↓reduceIte] at h
        obtain ⟨pre, post, rfl, hnodup, hnew, ha⟩ := ih h
        have hbpre : name b ∉ pre.map name := fun hm => by
          obtain ⟨c, hc, he⟩ := List.mem_map.1 hm
          exact hnew c hc (he ▸ List.mem_cons_self ..)
        refine ⟨b :: pre, post, rfl, List.nodup_cons.2 ⟨hbpre, hnodup⟩, ?_, ?_⟩
        · exact List.forall_mem_cons.2 ⟨hb, fun c hc hs => hnew c hc (List.mem_cons_of_mem _ hs)⟩
        · rw [List.map_cons, List.mem_cons]
          rw [List.mem_cons] at ha
          tauto
  · rintro ⟨pre, post, rfl, hnodup, hnew, ha⟩
    induction pre generalizing seen with
    | nil =>
      have ha : name a ∈ seen := ha.resolve_right List.not_mem_nil
      simp [firstRepeated, ha]
    | cons b pre ih =>
      obtain ⟨hb, hs⟩ := List.forall_mem_cons.1 hnew
      obtain ⟨hbpre, hnodup⟩ := List.nodup_cons.1 hnodup
      have hstep : ∀ c ∈ pre, name c ∉ name b :: seen := fun c hc hm => by
        obtain he | hm := List.mem_cons.1 hm
        · exact hbpre (he ▸ List.mem_map_of_mem hc)
        · exact hs c hc hm
      have hrepeated : name a ∈ name b :: seen ∨ name a ∈ pre.map name := by
        rw [List.map_cons, List.mem_cons] at ha
        rw [List.mem_cons]
        tauto
      simpa [firstRepeated, hb] using ih hnodup hstep hrepeated

namespace Schema

variable {s : Schema} {d : TypeDef} {v : Violation} {r : Reference}

def isMissing (s : Schema) (r : Reference) : Bool :=
  !s.hasType r.target

theorem isMissing_iff : s.isMissing r = true ↔ r.target ∉ s.types.names := by
  rw [isMissing, Bool.not_eq_true', Bool.eq_false_iff, hasType, ne_eq, Table.contains_iff]

theorem not_isMissing_iff : s.isMissing r = false ↔ r.target ∈ s.types.names := by
  rw [← Bool.not_eq_true, isMissing_iff, not_not]

theorem find?_isMissing_eq_some_iff {α : Type} {f : α → Reference} {l : List α} :
    (l.map f).find? s.isMissing = some r ↔ ∃ pre a post, l = pre ++ a :: post ∧
      (∀ b ∈ pre, (f b).target ∈ s.types.names) ∧ (f a).target ∉ s.types.names ∧ r = f a := by
  rw [List.find?_map, Option.map_eq_some_iff]
  constructor
  · rintro ⟨a, ha, rfl⟩
    obtain ⟨hmissing, pre, post, rfl, hpre⟩ := List.find?_eq_some_iff_append.1 ha
    refine ⟨pre, a, post, rfl, fun b hb => ?_, isMissing_iff.1 hmissing, rfl⟩
    exact not_isMissing_iff.1 (by simpa using hpre b hb)
  · rintro ⟨pre, a, post, rfl, hpre, ha, rfl⟩
    refine ⟨a, List.find?_eq_some_iff_append.2 ⟨isMissing_iff.2 ha, pre, post, rfl, ?_⟩, rfl⟩
    exact fun b hb => by simpa using not_isMissing_iff.2 (hpre b hb)

theorem find?_isMissing_eq_none_iff {α : Type} {f : α → Reference} {l : List α} :
    (l.map f).find? s.isMissing = none ↔ ∀ a ∈ l, (f a).target ∈ s.types.names := by
  rw [List.find?_eq_none, List.forall_mem_map]
  simp only [isMissing_iff, not_not]

theorem find?_references_eq_none_iff {t : String} {f : Field} :
    (f.references t).find? s.isMissing = none ↔ f.IsSound (· ∈ s.types.names) := by
  rw [Field.references, List.find?_cons]
  split
  · next h =>
    have hf := isMissing_iff.1 h
    exact ⟨fun h => (by cases h), fun h => absurd h.1 hf⟩
  · next h =>
    have hf := not_isMissing_iff.1 h
    rw [find?_isMissing_eq_none_iff]
    exact ⟨fun ha => ⟨hf, ha⟩, fun h => h.2⟩

theorem find?_references_eq_some_iff {t : String} {f : Field} :
    (f.references t).find? s.isMissing = some r ↔
      (f.type.baseName ∉ s.types.names ∧ r = ⟨f.type.baseName, .field t f.name⟩) ∨
      (f.type.baseName ∈ s.types.names ∧ ∃ as a bs, f.arguments = as ++ a :: bs ∧
        (∀ b ∈ as, b.type.baseName ∈ s.types.names) ∧ a.type.baseName ∉ s.types.names ∧
        r = ⟨a.type.baseName, .argument t f.name a.name⟩) := by
  rw [Field.references, List.find?_cons]
  split
  · next h =>
    have hf := isMissing_iff.1 h
    simp only [Option.some.injEq, hf, not_false_eq_true, true_and, false_and, or_false]
    exact eq_comm
  · next h =>
    have hf := not_isMissing_iff.1 h
    rw [find?_isMissing_eq_some_iff]
    simp only [hf, not_true_eq_false, false_and, true_and, false_or]

theorem find?_fields_eq_some_iff {t : String} {fs : List Field} :
    (fs.flatMap (Field.references t)).find? s.isMissing = some r ↔ ∃ pre f post,
      fs = pre ++ f :: post ∧ (∀ g ∈ pre, g.IsSound (· ∈ s.types.names)) ∧
      (f.references t).find? s.isMissing = some r := by
  rw [List.find?_flatMap, List.findSome?_eq_some_iff]
  simp only [find?_references_eq_none_iff]
  exact ⟨fun ⟨pre, f, post, hs, hf, hp⟩ => ⟨pre, f, post, hs, hp, hf⟩,
    fun ⟨pre, f, post, hs, hp, hf⟩ => ⟨pre, f, post, hs, hf, hp⟩⟩

theorem missingReference_eq_some_iff :
    s.missingReference d = some v ↔
      ∃ r, d.references.find? s.isMissing = some r ∧ v = .typeNotFound r := by
  rw [missingReference, Option.map_eq_some_iff]
  exact exists_congr fun r => and_congr_right fun _ => eq_comm

theorem find?_references_of_fields {c : Category} {is : List String} {fs : Table Field}
    (h : d.body = .fields c is fs) : d.references.find? s.isMissing =
      ((is.map (⟨·, .type d.name⟩)).find? s.isMissing).or
        ((fs.toList.flatMap (Field.references d.name)).find? s.isMissing) := by
  rw [TypeDef.references, h, List.find?_append]

theorem references_of_union {ms : List String} (h : d.body = .union ms) :
    d.references = ms.map (⟨·, .type d.name⟩) := by
  rw [TypeDef.references, h]

theorem violationOf_fields {c : Category} {is : List String} {fs : Table Field}
    (h : d.body = .fields c is fs) : s.violationOf d = s.missingReference d := by
  rw [violationOf, h]

theorem violationOf_union {ms : List String} (h : d.body = .union ms) (hne : ms ≠ []) :
    s.violationOf d = s.missingReference d := by
  obtain ⟨m, r, rfl⟩ := List.exists_cons_of_ne_nil hne
  rw [violationOf, h]

theorem violationOf_enum {vs : List EnumValue} (h : d.body = .enum vs) (hne : vs ≠ []) :
    s.violationOf d = (firstRepeated [] vs).map fun v => .repeatedValue d.name v.name := by
  obtain ⟨v, r, rfl⟩ := List.exists_cons_of_ne_nil hne
  rw [violationOf, h]

theorem firstRepeated_nil_eq_some_iff {vs : List EnumValue} {v : EnumValue} :
    firstRepeated [] vs = some v ↔ ∃ pre post, vs = pre ++ v :: post ∧
      (pre.map EnumValue.name).Nodup ∧ v.name ∈ pre.map EnumValue.name := by
  rw [firstRepeated_eq_some_iff]
  simp only [List.not_mem_nil, not_false_eq_true, implies_true, true_and, false_or]
  rfl

theorem isSound_iff : d.IsSound (· ∈ s.types.names) ↔ s.violationOf d = none := by
  rw [violationOf_eq_none_iff, TypeDef.isSound_iff_keeps]

theorem violationOf_of_firstFault {m : String} (h : d.FirstFault (· ∈ s.types.names) v m) :
    s.violationOf d = some v := by
  have hfields : ∀ {c is fs r}, d.body = .fields c is fs → d.references.find? s.isMissing = some r →
      s.violationOf d = some (.typeNotFound r) := fun hb hr => by
    rw [violationOf_fields hb]
    exact missingReference_eq_some_iff.2 ⟨_, hr, rfl⟩
  cases h with
  | @implemented c fs pre post n body before missing =>
    apply hfields body
    rw [find?_references_of_fields body, Option.or_eq_some_iff]
    exact .inl (find?_isMissing_eq_some_iff.2 ⟨pre, n, post, rfl, before, missing, rfl⟩)
  | @field c is fs pre post f body split implements before missing =>
    apply hfields body
    rw [find?_references_of_fields body, Option.or_eq_some_iff]
    refine .inr ⟨find?_isMissing_eq_none_iff.2 implements, ?_⟩
    apply find?_fields_eq_some_iff.2
    exact ⟨pre, f, post, split, before, find?_references_eq_some_iff.2 (.inl ⟨missing, rfl⟩)⟩
  | @argument c is fs pre post f as bs a body split arguments implements before result beforeArgument
      missing =>
    apply hfields body
    rw [find?_references_of_fields body, Option.or_eq_some_iff]
    refine .inr ⟨find?_isMissing_eq_none_iff.2 implements, ?_⟩
    apply find?_fields_eq_some_iff.2
    refine ⟨pre, f, post, split, before, find?_references_eq_some_iff.2 (.inr ⟨result, ?_⟩)⟩
    exact ⟨as, a, bs, arguments, beforeArgument, missing, rfl⟩
  | emptyEnum body => rw [violationOf, body]
  | @repeatedValue pre post w body before repeated =>
    have hw := firstRepeated_nil_eq_some_iff.2 ⟨pre, post, rfl, before, repeated⟩
    rw [violationOf_enum body (by simp), hw]
    rfl
  | emptyUnion body => rw [violationOf, body]
  | @member pre post n body before missing =>
    rw [violationOf_union body (by simp)]
    refine missingReference_eq_some_iff.2 ⟨_, ?_, rfl⟩
    rw [references_of_union body]
    exact find?_isMissing_eq_some_iff.2 ⟨pre, n, post, rfl, before, missing, rfl⟩

theorem exists_firstFault (h : s.violationOf d = some v) :
    ∃ m, d.FirstFault (· ∈ s.types.names) v m := by
  cases hb : d.body with
  | enum vs =>
    by_cases hne : vs = []
    · subst hne
      rw [violationOf, hb] at h
      obtain rfl := Option.some.inj h
      exact ⟨_, .emptyEnum hb⟩
    · rw [violationOf_enum hb hne] at h
      obtain ⟨w, hw, rfl⟩ := Option.map_eq_some_iff.1 h
      obtain ⟨pre, post, rfl, hnodup, hmem⟩ := firstRepeated_nil_eq_some_iff.1 hw
      exact ⟨_, .repeatedValue hb hnodup hmem⟩
  | fields c is fs =>
    rw [violationOf_fields hb] at h
    obtain ⟨r, hr, rfl⟩ := missingReference_eq_some_iff.1 h
    rw [find?_references_of_fields hb, Option.or_eq_some_iff] at hr
    obtain hr | ⟨his, hr⟩ := hr
    · obtain ⟨pre, n, post, rfl, hpre, hn, rfl⟩ := find?_isMissing_eq_some_iff.1 hr
      exact ⟨_, .implemented hb hpre hn⟩
    · have his := find?_isMissing_eq_none_iff.1 his
      obtain ⟨pre, f, post, hs, hpre, hr⟩ := find?_fields_eq_some_iff.1 hr
      obtain ⟨hf, rfl⟩ | ⟨hf, as, a, bs, hargs, has, ha, rfl⟩ := find?_references_eq_some_iff.1 hr
      · exact ⟨_, .field hb hs his hpre hf⟩
      · exact ⟨_, .argument hb hs hargs his hpre hf has ha⟩
  | scalar =>
    have hsound : d.IsSound (· ∈ s.types.names) := by rw [TypeDef.IsSound, hb]; trivial
    rw [isSound_iff.1 hsound] at h
    cases h
  | union ms =>
    by_cases hne : ms = []
    · subst hne
      rw [violationOf, hb] at h
      obtain rfl := Option.some.inj h
      exact ⟨_, .emptyUnion hb⟩
    · rw [violationOf_union hb hne] at h
      obtain ⟨r, hr, rfl⟩ := missingReference_eq_some_iff.1 h
      rw [references_of_union hb] at hr
      obtain ⟨pre, n, post, rfl, hpre, hn, rfl⟩ := find?_isMissing_eq_some_iff.1 hr
      exact ⟨_, .member hb hpre hn⟩

end Schema

theorem TypeDef.FirstFault.message_eq {known : String → Prop} {d : TypeDef} {v : Violation}
    {m : String} (h : d.FirstFault known v m) : v.message = m := by
  cases h <;> rfl

/-- A schema is accepted if all its types are sound. Otherwise the violation, with its message, is the
first one of the first type that is not. -/
theorem Schema.validate_reports_first (s : Schema) :
    (s.validate = .ok () ↔ ∀ d ∈ s.types.toList, d.IsSound (· ∈ s.types.names)) ∧
      ∀ v m, s.validate = .error v ∧ v.message = m ↔ s.FirstFault v m := by
  have hok : s.validate = .ok () ↔ s.violation? = none := by
    unfold validate
    cases s.violation? <;> simp
  have herror : ∀ v, s.validate = .error v ↔ s.violation? = some v := fun v => by
    unfold validate
    cases s.violation? <;> simp
  constructor
  · simp only [hok, violation?, List.findSome?_eq_none_iff, isSound_iff]
  · intro v m
    rw [herror, violation?, List.findSome?_eq_some_iff]
    constructor
    · rintro ⟨⟨pre, d, post, hs, hv, hpre⟩, rfl⟩
      obtain ⟨m, hm⟩ := exists_firstFault hv
      exact ⟨pre, d, post, hs, fun c hc => isSound_iff.2 (hpre c hc), hm.message_eq ▸ hm⟩
    · rintro ⟨pre, d, post, hs, hpre, hm⟩
      have hv := violationOf_of_firstFault hm
      exact ⟨⟨pre, d, post, hs, hv, fun c hc => isSound_iff.1 (hpre c hc)⟩, hm.message_eq⟩

end SchemaTypings
