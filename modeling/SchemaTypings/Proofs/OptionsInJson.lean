import SchemaTypings.Proofs.RecordChoices
import SchemaTypings.Proofs.ScalarTable

namespace SchemaTypings

open Json

def Category.key : Category → String
  | input => "input"
  | interface => "interface"
  | object => "object"

namespace NullableRenderers

def field (c : Category) : RecordField NullableRenderers :=
  ⟨c.key, [], fun r => do return r.set c (← NullableRenderer.decoder)⟩

def readings : FieldReadings NullableRenderers Category where
  options := [.input, .interface, .object]
  complete c := by cases c <;> decide
  field := field
  eq_of_key {c d k} hc hd := by
    have hkeys : c.key = d.key := (List.mem_singleton.1 hc).symm.trans (List.mem_singleton.1 hd)
    cases c <;> cases d <;> first | rfl | exact absurd hkeys (by decide)
  reading c r v := v.text?.map fun t => r.set c (.template t)
  decodes c r := by
    have h := (decodes_string.map NullableRenderer.template).map (r.set c)
    simpa only [Option.map_map] using! h

theorem fields_readings : readings.fields = fields :=
  rfl

theorem decodes_fields (r : NullableRenderers) :
    Decodes (record "struct NullableRenderers" fields r) (readings.read r) :=
  fields_readings ▸ readings.decodes_record "struct NullableRenderers" r

end NullableRenderers

inductive OptionName where
  | enumType | objectType | namespaceName | outputType | argumentGrouping | customScalarTypes
  | nullableType
deriving DecidableEq

namespace OptionName

def all : List OptionName :=
  [enumType, objectType, namespaceName, outputType, argumentGrouping, customScalarTypes,
    nullableType]

def field : OptionName → RecordField Options
  | enumType =>
    ⟨"enumType", [], fun o => do return o.withEnumStyle (← variant EnumStyle.variants)⟩
  | objectType =>
    ⟨"objectType", [], fun o => do return o.withObjectStyle (← variant ObjectStyle.variants)⟩
  | namespaceName => ⟨"namespaceName", [], fun o => do return o.withNamespace (← string)⟩
  | outputType =>
    ⟨"outputType", [], fun o => do return o.withVisibility (← variant Visibility.variants)⟩
  | argumentGrouping =>
    ⟨"argumentGrouping", ["argument2interface"],
      fun o => do return o.withArgumentGrouping (← boolean)⟩
  | customScalarTypes =>
    ⟨"customScalarTypes", ["customscalarTypes"],
      fun o => do return { o with scalars := ← dictionary scalarEntry .empty }⟩
  | nullableType =>
    ⟨"nullableType", [],
      fun o => do return { o with
        nullable := ← record "struct NullableRenderers" NullableRenderers.fields .standard }⟩

def keys (n : OptionName) : List String :=
  n.field.keys

theorem fields_all : all.map field = Options.fields :=
  rfl

theorem eq_of_key {n m : OptionName} {k : String} (hn : k ∈ n.keys) (hm : k ∈ m.keys) : n = m := by
  have hdisjoint : ∀ n ∈ all, ∀ m ∈ all, ∀ k ∈ n.keys, k ∈ m.keys → n = m := by decide
  have hall : ∀ n, n ∈ all := by
    intro n
    cases n <;> decide
  exact hdisjoint n (hall n) m (hall m) k hn hm

def readScalar (t : Table ScalarMapping) (scalar : String) (v : Value) :
    Option (Table ScalarMapping) :=
  v.text?.map fun type => t.insert ⟨scalar, type⟩

def reading : OptionName → Options → Value → Option Options
  | enumType, o, v => (readVariant EnumStyle.variants v).map o.withEnumStyle
  | objectType, o, v => (readVariant ObjectStyle.variants v).map o.withObjectStyle
  | namespaceName, o, v => v.text?.map o.withNamespace
  | outputType, o, v => (readVariant Visibility.variants v).map o.withVisibility
  | argumentGrouping, o, v => v.truth?.map o.withArgumentGrouping
  | customScalarTypes, o, v =>
    (readDictionary readScalar .empty v).map fun t => { o with scalars := t }
  | nullableType, o, v =>
    (NullableRenderers.readings.read .standard v).map fun r => { o with nullable := r }

theorem decodes_field (n : OptionName) (o : Options) : Decodes (n.field.read o) (n.reading o) := by
  cases n with
  | enumType => exact (decodes_variant EnumStyle.variants).map o.withEnumStyle
  | objectType => exact (decodes_variant ObjectStyle.variants).map o.withObjectStyle
  | namespaceName => exact decodes_string.map o.withNamespace
  | outputType => exact (decodes_variant Visibility.variants).map o.withVisibility
  | argumentGrouping => exact decodes_boolean.map o.withArgumentGrouping
  | customScalarTypes =>
    have hentry : ∀ (t : Table ScalarMapping) (n : String),
        Decodes (scalarEntry t n) (readScalar t n) :=
      fun t n => decodes_string.map fun type => t.insert ⟨n, type⟩
    exact (decodes_dictionary hentry .empty).map fun t => { o with scalars := t }
  | nullableType =>
    exact (NullableRenderers.decodes_fields .standard).map fun r => { o with nullable := r }

end OptionName

def Options.readings : FieldReadings Options OptionName where
  options := OptionName.all
  complete n := by cases n <;> decide
  field := OptionName.field
  eq_of_key := OptionName.eq_of_key
  reading := OptionName.reading
  decodes := OptionName.decodes_field

theorem Options.toOption_fromJson {v : Value} {text : String} (h : v.IsTextOf text) :
    (fromJson text).toOption = readings.read default v := by
  rw [fromJson, ← OptionName.fields_all]
  exact toOption_decode (readings.decodes_record "struct GenerateOptions" default) h

namespace Options

def withTemplates (o : Options) (ts : List (Category × String)) : Options :=
  ts.foldl (fun o t => o.withNullable t.1 (.template t.2)) o

theorem withScalars_eq (o : Options) (ms : List ScalarMapping) :
    o.withScalars ms = { o with scalars := o.scalars.insertAll ms } := by
  induction ms generalizing o with
  | nil => rfl
  | cons m ms ih => exact ih (o.withScalar m.scalar m.type)

end Options

def NullableRenderers.setAll (r : NullableRenderers) (ts : List (Category × String)) :
    NullableRenderers :=
  ts.foldl (fun r t => r.set t.1 (.template t.2)) r

theorem Options.withTemplates_eq (o : Options) (ts : List (Category × String)) :
    o.withTemplates ts = { o with nullable := o.nullable.setAll ts } := by
  induction ts generalizing o with
  | nil => rfl
  | cons t ts ih => exact ih (o.withNullable t.1 (.template t.2))

section Values

/-- A value that names one of several variants, alone or as the key of a null. -/
def IsVariant {α : Type} (variants : List (String × α)) (a : α) (v : Value) : Prop :=
  ∃ w, (w, a) ∈ variants ∧ (v = .string (some w) ∨ v = .object [(some w, .null)])

theorem readVariant_of_isVariant {α : Type} {variants : List (String × α)} {a : α} {v : Value}
    (hvariants : ∀ p ∈ variants, variants.lookup p.1 = some p.2) (h : IsVariant variants a v) :
    readVariant variants v = some a := by
  obtain ⟨w, hw, rfl | rfl⟩ := h
  · exact hvariants (w, a) hw
  · rw [readVariant, Option.bind_some, readNamed, hvariants (w, a) hw]
    rfl

def IsScalars (ms : List ScalarMapping) (v : Value) : Prop :=
  v = .object (ms.map fun m => (some m.scalar, .string (some m.type)))

theorem readEntries_scalars (ms : List ScalarMapping) (t : Table ScalarMapping) :
    readEntries OptionName.readScalar t
      (ms.map fun m => (some m.scalar, .string (some m.type))) = some (t.insertAll ms) := by
  induction ms generalizing t with
  | nil => rfl
  | cons m ms ih => exact ih (t.insert m)

def IsOtherKey (k : String) : Prop :=
  ∀ c : Category, k ≠ c.key

def GivesTemplate (t : Category × String) (k : String) (v : Value) : Prop :=
  k = t.1.key ∧ v = .string (some t.2)

/-- Templates of different categories, in an object with any other keys or as the first elements of
an array. -/
def IsTemplates (ts : List (Category × String)) (v : Value) : Prop :=
  (∃ es, v = .object es ∧ (ts.map Prod.fst).Nodup ∧ Spells IsOtherKey GivesTemplate ts es) ∨
  ts.map Prod.fst <+: [.input, .interface, .object] ∧
    v = .array (ts.map fun t => .string (some t.2))

theorem readElements_templates {ts : List (Category × String)} {cs : List Category}
    (h : ts.map Prod.fst <+: cs) (r : NullableRenderers) :
    readElements (cs.map NullableRenderers.readings.reading) r
      (ts.map fun t => .string (some t.2)) = some (r.setAll ts) := by
  induction ts generalizing cs r with
  | nil => rw [List.map_nil, readElements]; rfl
  | cons t ts ih =>
    obtain ⟨rest, rfl⟩ := h
    exact ih (List.prefix_append ..) (r.set t.1 (.template t.2))

def templateChoices : Choices NullableRenderers.readings (Category × String) where
  nameOf := Prod.fst
  apply r t := r.set t.1 (.template t.2)
  Fresh _ _ := True
  Unknown := IsOtherKey
  Gives := GivesTemplate
  named?_unknown hk :=
    FieldReadings.named?_eq_none_iff.2 fun c hc => hk c (List.mem_singleton.1 hc)
  named?_gives h := FieldReadings.named?_eq_some_iff.2 (List.mem_singleton.2 h.1)
  reading_gives h _ := by
    obtain ⟨-, rfl⟩ := h
    rfl
  fresh_apply _ _ := trivial

theorem read_of_isTemplates {ts : List (Category × String)} {v : Value} (h : IsTemplates ts v)
    (r : NullableRenderers) : NullableRenderers.readings.read r v = some (r.setAll ts) := by
  obtain ⟨es, rfl, hnodup, hs⟩ | ⟨hstart, rfl⟩ := h
  · exact templateChoices.read_object hs hnodup fun _ _ => trivial
  · exact readElements_templates hstart r

end Values

inductive Choice where
  | enumStyle (s : EnumStyle)
  | objectStyle (s : ObjectStyle)
  | namespaceName (n : String)
  | visibility (v : Visibility)
  | argumentGrouping (enabled : Bool)
  | scalars (ms : List ScalarMapping)
  | templates (ts : List (Category × String))

namespace Choice

def option : Choice → OptionName
  | enumStyle _ => .enumType
  | objectStyle _ => .objectType
  | namespaceName _ => .namespaceName
  | visibility _ => .outputType
  | argumentGrouping _ => .argumentGrouping
  | scalars _ => .customScalarTypes
  | templates _ => .nullableType

def apply (o : Options) : Choice → Options
  | enumStyle s => o.withEnumStyle s
  | objectStyle s => o.withObjectStyle s
  | namespaceName n => o.withNamespace n
  | visibility v => o.withVisibility v
  | argumentGrouping enabled => o.withArgumentGrouping enabled
  | scalars ms => o.withScalars ms
  | templates ts => o.withTemplates ts

def IsWrittenAs (v : Value) : Choice → Prop
  | enumStyle s => IsVariant EnumStyle.variants s v
  | objectStyle s => IsVariant ObjectStyle.variants s v
  | namespaceName n => v = .string (some n)
  | visibility x => IsVariant Visibility.variants x v
  | argumentGrouping enabled => v = .boolean enabled
  | scalars ms => IsScalars ms v
  | templates ts => IsTemplates ts v

/-- An entry of a text may have any key of the option. -/
def IsGiven (c : Choice) (k : String) (v : Value) : Prop :=
  k ∈ c.option.keys ∧ c.IsWrittenAs v

/-- A choice sets one field, and no other field has a say in it. -/
def set (o : Options) : Choice → Options
  | enumStyle s => { o with enumStyle := s }
  | objectStyle s => { o with objectStyle := s }
  | namespaceName n => { o with namespaceName := n }
  | visibility v => { o with visibility := v }
  | argumentGrouping enabled => { o with groupArguments := enabled }
  | scalars ms => { o with scalars := o.scalars.insertAll ms }
  | templates ts => { o with nullable := o.nullable.setAll ts }

theorem apply_eq_set (o : Options) (c : Choice) : c.apply o = c.set o := by
  cases c with
  | scalars ms => exact o.withScalars_eq ms
  | templates ts => exact o.withTemplates_eq ts
  | _ => rfl

theorem apply_comm {c d : Choice} (h : c.option ≠ d.option) (o : Options) :
    d.apply (c.apply o) = c.apply (d.apply o) := by
  simp only [apply_eq_set]
  cases c <;> cases d <;> first | rfl | exact absurd rfl h

theorem foldl_apply_perm {cs ds : List Choice} (hp : cs.Perm ds)
    (hnodup : (cs.map Choice.option).Nodup) (o : Options) :
    cs.foldl apply o = ds.foldl apply o := by
  refine hp.foldl_eq' (fun c hc d hd o => ?_) o
  by_cases h : c.option = d.option
  · rw [List.inj_on_of_nodup_map hnodup hc hd h]
  · exact apply_comm h o

theorem scalars_foldl_apply {cs : List Choice} (h : ∀ c ∈ cs, c.option ≠ .customScalarTypes)
    (o : Options) : (cs.foldl apply o).scalars = o.scalars := by
  induction cs generalizing o with
  | nil => rfl
  | cons c cs ih =>
    obtain ⟨hc, hcs⟩ := List.forall_mem_cons.1 h
    have hset : (c.apply o).scalars = o.scalars := by
      rw [apply_eq_set]
      cases c <;> first | rfl | exact absurd rfl hc
    exact (ih hcs (c.apply o)).trans hset

theorem foldl_apply_scalars {cs : List Choice} {ms : List ScalarMapping}
    (hnodup : ((scalars ms :: cs).map Choice.option).Nodup) :
    (scalars ms :: cs).foldl apply .default =
      { cs.foldl apply .default with scalars := .ofList ms } := by
  have hother : ∀ c ∈ cs, c.option ≠ .customScalarTypes := by
    obtain ⟨hnew, -⟩ := List.nodup_cons.1 hnodup
    exact fun c hc he => hnew (List.mem_map.2 ⟨c, hc, he⟩)
  -- The scalars may as well be given last.
  have hlast := (List.perm_append_singleton (scalars ms) cs).symm
  rw [foldl_apply_perm hlast hnodup, List.foldl_append, List.foldl_cons, List.foldl_nil,
    apply_eq_set, set, scalars_foldl_apply hother]
  rfl

theorem scalars_of_mem {cs : List Choice} {ms : List ScalarMapping}
    (hnodup : (cs.map Choice.option).Nodup) (hm : scalars ms ∈ cs) :
    (cs.foldl apply .default).scalars = .ofList ms := by
  obtain ⟨l, r, rfl⟩ := List.append_of_mem hm
  have hcons := (List.perm_middle.map Choice.option).nodup_iff.1 hnodup
  rw [foldl_apply_perm List.perm_middle hnodup, foldl_apply_scalars hcons]

end Choice

namespace OptionName

/-- The option is as it is in the default options, as far as that matters for what it is given. -/
def IsFresh (o : Options) : OptionName → Prop
  | customScalarTypes => o.scalars = .empty
  | nullableType => o.nullable = .standard
  | _ => True

theorem IsFresh.apply {n : OptionName} {c : Choice} {o : Options} (hne : c.option ≠ n)
    (h : n.IsFresh o) : n.IsFresh (c.apply o) := by
  rw [Choice.apply_eq_set]
  cases n with
  | customScalarTypes => cases c <;> first | exact h | exact absurd rfl hne
  | nullableType => cases c <;> first | exact h | exact absurd rfl hne
  | _ => trivial

theorem isFresh_default (n : OptionName) : n.IsFresh .default := by
  cases n <;> trivial

theorem reading_of_isWrittenAs {c : Choice} {v : Value} {o : Options} (h : c.IsWrittenAs v)
    (ho : c.option.IsFresh o) : c.option.reading o v = some (c.apply o) := by
  cases c with
  | enumStyle s =>
    exact congrArg (Option.map o.withEnumStyle) (readVariant_of_isVariant (by decide) h)
  | objectStyle s =>
    exact congrArg (Option.map o.withObjectStyle) (readVariant_of_isVariant (by decide) h)
  | namespaceName n =>
    obtain rfl := h
    rfl
  | visibility x =>
    exact congrArg (Option.map o.withVisibility) (readVariant_of_isVariant (by decide) h)
  | argumentGrouping enabled =>
    obtain rfl := h
    rfl
  | scalars ms =>
    obtain rfl := h
    -- A text replaces the table, while choices add to it: the same where the table is empty.
    have hscalars : o.scalars = .empty := ho
    rw [Choice.apply, Options.withScalars_eq, hscalars]
    exact congrArg (Option.map fun t => { o with scalars := t }) (readEntries_scalars ms .empty)
  | templates ts =>
    have hnullable : o.nullable = .standard := ho
    rw [Choice.apply, Options.withTemplates_eq, hnullable]
    exact congrArg (Option.map fun r => { o with nullable := r }) (read_of_isTemplates h .standard)

def IsUnknown (k : String) : Prop :=
  ∀ n : OptionName, k ∉ n.keys

end OptionName

def Options.choices : Choices Options.readings Choice where
  nameOf := Choice.option
  apply := Choice.apply
  Fresh := fun n o => n.IsFresh o
  Unknown := OptionName.IsUnknown
  Gives := Choice.IsGiven
  named?_unknown hk := FieldReadings.named?_eq_none_iff.2 hk
  named?_gives h := FieldReadings.named?_eq_some_iff.2 h.1
  reading_gives h ho := OptionName.reading_of_isWrittenAs h.2 ho
  fresh_apply hne h := h.apply hne

/-- The text gives these choices, at most one for each option. -/
def GivesChoices (cs : List Choice) (text : String) : Prop :=
  (cs.map Choice.option).Nodup ∧
    ∃ es, (Value.object es).IsTextOf text ∧ Spells OptionName.IsUnknown Choice.IsGiven cs es

/-- The text has an option twice, by any of its keys. -/
def GivesTwice (n : OptionName) (text : String) : Prop :=
  ∃ es, (Value.object es).IsTextOf text ∧ ∃ k ∈ n.keys, ∃ k' ∈ n.keys, ∃ v v',
    [(some k, v), (some k', v')].Sublist es

/-- Options in a text are the defaults after its choices, made one by one. The order of the choices and
the keys that are written for them do not matter, nor do unknown keys. Scalars have the places at which
they come first and the expressions that come last, and only the table of scalars depends on them. A
text with an option twice is refused. -/
theorem Options.fromJson_of_choices :
    (∀ cs text, GivesChoices cs text →
      fromJson text = .ok (cs.foldl Choice.apply default) ∧
      ∀ ms, .scalars ms ∈ cs →
        (cs.foldl Choice.apply default).scalars.names = (firstSeen ms).map name ∧
        ∀ n, (cs.foldl Choice.apply default).scalars.get? n = lastNamed n ms) ∧
    (∀ cs cs' text text', GivesChoices cs text → GivesChoices cs' text' → cs.Perm cs' →
      fromJson text = fromJson text') ∧
    (∀ cs ms ms' text text', GivesChoices (.scalars ms :: cs) text →
      GivesChoices (.scalars ms' :: cs) text' →
      ∃ o : Options, fromJson text = .ok { o with scalars := .ofList ms } ∧
        fromJson text' = .ok { o with scalars := .ofList ms' }) ∧
    ∀ n text, GivesTwice n text → ∃ f, fromJson text = .error f := by
  have hread : ∀ cs text, GivesChoices cs text →
      fromJson text = .ok (cs.foldl Choice.apply default) := by
    rintro cs text ⟨hnodup, es, htext, hs⟩
    apply eq_ok_of_toOption
    rw [toOption_fromJson htext]
    exact choices.read_object hs hnodup fun c _ => OptionName.isFresh_default c.option
  refine ⟨fun cs text h => ⟨hread cs text h, fun ms hms => ?_⟩, ?_, ?_, ?_⟩
  · rw [Choice.scalars_of_mem h.1 hms]
    exact ⟨Table.names_ofList ms, Table.get?_ofList ms⟩
  · intro cs cs' text text' h h' hp
    rw [hread cs text h, hread cs' text' h', Choice.foldl_apply_perm hp h.1]
  · intro cs ms ms' text text' h h'
    refine ⟨cs.foldl Choice.apply default, ?_, ?_⟩
    · rw [hread _ text h, Choice.foldl_apply_scalars h.1]
    · rw [hread _ text' h', Choice.foldl_apply_scalars h'.1]
  · rintro n text ⟨es, htext, k, hk, k', hk', v, v', hsub⟩
    have hnone : (fromJson text).toOption = none := by
      rw [toOption_fromJson htext, FieldReadings.read,
        FieldReadings.readEntries_repeated (FieldReadings.named?_eq_some_iff.2 hk)
          (FieldReadings.named?_eq_some_iff.2 hk') hsub]
      rfl
    cases hf : fromJson text with
    | error f => exact ⟨f, rfl⟩
    | ok o =>
      rw [hf] at hnone
      cases hnone

/-- Older keys, an escape, a repeated scalar, and keys that are no options. -/
def olderText : String :=
  "\x7b\"customscalarTypes\":\x7b\"Date\":\"D\",\"ID\":\"id\",\"Date\":\"\\u0044ay\"\x7d," ++
  "\"note\":[0,null],\"argument2interface\":false," ++
  "\"nullableType\":\x7b\"other\":0,\"input\":\"\x7b\x7d?\"\x7d\x7d"

def newerText : String :=
  "\x7b\"nullableType\":[\"\x7b\x7d?\"],\"argumentGrouping\":false," ++
  "\"customScalarTypes\":\x7b\"Date\":\"D\",\"ID\":\"id\",\"Date\":\"Day\"\x7d\x7d"

def swappedText : String :=
  "\x7b\"customScalarTypes\":\x7b\"ID\":\"id\",\"Date\":\"Day\"\x7d," ++
  "\"argumentGrouping\":false,\"nullableType\":[\"\x7b\x7d?\"]\x7d"

def repeatingText : String :=
  "\x7b\"argumentGrouping\":true,\"argument2interface\":0\x7d"

section Written

open WrittenValue

def zero : WrittenValue :=
  ⟨.number, ['0'], .number ⟨[], by decide, ['0'], [], [], .inl rfl, .inl rfl, .inl rfl, rfl⟩⟩

def escapedDay : WrittenValue where
  value := .string (some "Day")
  text := "\"\\u0044ay\"".toList
  written := .string ⟨[.code 0x44, .char 'a', .char 'y'],
    [['\\', 'u', '0', '0', '4', '4'], ['a'], ['y']],
    .cons (.code (by decide)) (.cons (.plain (by decide) (by decide) (by decide))
      (.cons (.plain (by decide) (by decide) (by decide)) .nil)), by decide, by decide⟩

def dateAndId (day : WrittenValue) : WrittenValue :=
  object [(⟨"Date", by decide⟩, string "D" (by decide)),
    (⟨"ID", by decide⟩, string "id" (by decide)), (⟨"Date", by decide⟩, day)]

def template : WrittenValue :=
  string "\x7b\x7d?" (by decide)

def olderWritten : WrittenValue :=
  object [(⟨"customscalarTypes", by decide⟩, dateAndId escapedDay),
    (⟨"note", by decide⟩, array [zero, ⟨.null, _, .null⟩]),
    (⟨"argument2interface", by decide⟩, ⟨.boolean false, _, .no⟩),
    (⟨"nullableType", by decide⟩,
      object [(⟨"other", by decide⟩, zero), (⟨"input", by decide⟩, template)])]

def newerWritten : WrittenValue :=
  object [(⟨"nullableType", by decide⟩, array [template]),
    (⟨"argumentGrouping", by decide⟩, ⟨.boolean false, _, .no⟩),
    (⟨"customScalarTypes", by decide⟩, dateAndId (string "Day" (by decide)))]

def swappedWritten : WrittenValue :=
  object [(⟨"customScalarTypes", by decide⟩, object [(⟨"ID", by decide⟩, string "id" (by decide)),
      (⟨"Date", by decide⟩, string "Day" (by decide))]),
    (⟨"argumentGrouping", by decide⟩, ⟨.boolean false, _, .no⟩),
    (⟨"nullableType", by decide⟩, array [template])]

def repeatingWritten : WrittenValue :=
  object [(⟨"argumentGrouping", by decide⟩, ⟨.boolean true, _, .yes⟩),
    (⟨"argument2interface", by decide⟩, zero)]

end Written

def dateMappings : List ScalarMapping :=
  [⟨"Date", "D"⟩, ⟨"ID", "id"⟩, ⟨"Date", "Day"⟩]

def swappedMappings : List ScalarMapping :=
  [⟨"ID", "id"⟩, ⟨"Date", "Day"⟩]

def otherChoices : List Choice :=
  [.argumentGrouping false, .templates [(.input, "\x7b\x7d?")]]

theorem givesChoices_olderText : GivesChoices (.scalars dateMappings :: otherChoices) olderText := by
  have hnote : OptionName.IsUnknown "note" := by
    intro n
    cases n <;> decide
  have hother : IsOtherKey "other" := by
    intro c
    cases c <;> decide
  refine ⟨by decide, _, olderWritten.isTextOf (by decide +kernel), ?_⟩
  have htemplates : IsTemplates [(.input, "\x7b\x7d?")]
      (.object [(some "other", .number), (some "input", .string (some "\x7b\x7d?"))]) :=
    .inl ⟨_, rfl, by decide, .unknown hother _ (.choice ⟨rfl, rfl⟩ .nil)⟩
  exact .choice ⟨by decide, rfl⟩
    (.unknown hnote _ (.choice ⟨by decide, rfl⟩ (.choice ⟨by decide, htemplates⟩ .nil)))

theorem givesChoices_newerText :
    GivesChoices (.scalars dateMappings :: otherChoices).reverse newerText := by
  refine ⟨by decide, _, newerWritten.isTextOf (by decide +kernel), ?_⟩
  exact .choice ⟨by decide, .inr ⟨by decide, rfl⟩⟩
    (.choice ⟨by decide, rfl⟩ (.choice ⟨by decide, rfl⟩ .nil))

theorem givesChoices_swappedText :
    GivesChoices (.scalars swappedMappings :: otherChoices) swappedText := by
  refine ⟨by decide, _, swappedWritten.isTextOf (by decide +kernel), ?_⟩
  exact .choice ⟨by decide, rfl⟩
    (.choice ⟨by decide, rfl⟩ (.choice ⟨by decide, .inr ⟨by decide, rfl⟩⟩ .nil))

theorem givesTwice_repeatingText : GivesTwice .argumentGrouping repeatingText :=
  ⟨_, repeatingWritten.isTextOf (by decide +kernel), "argumentGrouping", by decide,
    "argument2interface", by decide, _, _, .refl _⟩

theorem Options.fromJson_olderText :
    (∃ o, fromJson olderText = .ok o ∧
      o = ((default.withScalars dateMappings).withArgumentGrouping false).withNullable .input
        (.template "\x7b\x7d?") ∧
      o.scalars.names = ["Date", "ID"] ∧ o.scalars.get? "Date" = some ⟨"Date", "Day"⟩) ∧
    fromJson olderText = fromJson newerText ∧
    (∃ o : Options, fromJson olderText = .ok { o with scalars := .ofList dateMappings } ∧
      fromJson swappedText = .ok { o with scalars := .ofList swappedMappings }) ∧
    ∃ f, fromJson repeatingText = .error f := by
  obtain ⟨hchoices, horder, hscalars, htwice⟩ := fromJson_of_choices
  obtain ⟨hread, htable⟩ := hchoices _ _ givesChoices_olderText
  obtain ⟨hnames, hget⟩ := htable dateMappings (List.mem_cons_self ..)
  refine ⟨⟨_, hread, rfl, hnames.trans (by decide), (hget "Date").trans (by decide)⟩, ?_, ?_, ?_⟩
  · exact horder _ _ _ _ givesChoices_olderText givesChoices_newerText (List.reverse_perm _).symm
  · exact hscalars _ _ _ _ _ givesChoices_olderText givesChoices_swappedText
  · exact htwice _ _ givesTwice_repeatingText

end SchemaTypings
