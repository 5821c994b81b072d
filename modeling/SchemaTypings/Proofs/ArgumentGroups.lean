import Mathlib.Data.List.Nodup
import SchemaTypings.Proofs.References

namespace SchemaTypings

open Text TypeScript

structure Call where
  field : String
  owner : String
deriving DecidableEq

namespace Call

variable {c d : Call}

def group (c : Call) : String :=
  argumentGroupName c.field c.owner

/-- The field of `d` is the field of `c`, then "On" and a rest. The owner of `c` is this rest, then
"On" and the owner of `d`. -/
def Overlaps (c d : Call) : Prop :=
  ∃ r, upperFirst d.field = upperFirst c.field ++ "On" ++ r ∧
    upperFirst c.owner = r ++ "On" ++ upperFirst d.owner

/-- The names differ at most in the case of their first letters, or they overlap. -/
def Clashes (c d : Call) : Prop :=
  (upperFirst c.field = upperFirst d.field ∧ upperFirst c.owner = upperFirst d.owner) ∨
    c.Overlaps d ∨ d.Overlaps c

instance (c d : Call) : Decidable (c.Overlaps d) :=
  decidable_of_iff
    (∃ r ∈ (upperFirst c.field ++ "On").toList.isPrefixOf? (upperFirst d.field).toList,
      upperFirst c.owner = String.ofList r ++ "On" ++ upperFirst d.owner) <| by
    constructor
    · rintro ⟨r, hr, howner⟩
      refine ⟨String.ofList r, String.toList_inj.1 ?_, howner⟩
      rw [String.toList_append, String.toList_ofList]
      exact (List.isPrefixOf?_eq_some_iff_append_eq.1 hr).symm
    · rintro ⟨r, hfield, howner⟩
      refine ⟨r.toList, List.isPrefixOf?_eq_some_iff_append_eq.2 ?_, ?_⟩
      · simp only [hfield, String.toList_append]
      · rwa [String.ofList_toList]

instance (c d : Call) : Decidable (c.Clashes d) :=
  inferInstanceAs (Decidable (_ ∨ _))

theorem Overlaps.group_eq (h : c.Overlaps d) : c.group = d.group := by
  obtain ⟨r, hfield, howner⟩ := h
  simp only [group, argumentGroupName, hfield, howner, String.append_assoc]

/-- Where an "On" ends a word that begins with "On", the two are the same or one is behind the
other. -/
theorem eq_or_exists_of_on_eq {r b d : List Char} (h : 'O' :: 'n' :: b = r ++ 'O' :: 'n' :: d) :
    (r = [] ∧ b = d) ∨ ∃ q, r = 'O' :: 'n' :: q ∧ b = q ++ 'O' :: 'n' :: d := by
  match r with
  | [] => exact .inl ⟨rfl, by simpa using h⟩
  | [x] => simp at h
  | x :: y :: q =>
    simp only [List.cons_append, List.cons.injEq] at h
    obtain ⟨rfl, rfl, hb⟩ := h
    exact .inr ⟨q, rfl, hb⟩

theorem eq_or_overlaps {r : List Char}
    (hfield : (upperFirst d.field).toList = (upperFirst c.field).toList ++ r)
    (h : 'O' :: 'n' :: (upperFirst c.owner).toList =
      r ++ 'O' :: 'n' :: (upperFirst d.owner).toList) :
    (upperFirst c.field = upperFirst d.field ∧ upperFirst c.owner = upperFirst d.owner) ∨
      c.Overlaps d := by
  obtain ⟨rfl, howner⟩ | ⟨q, rfl, howner⟩ := eq_or_exists_of_on_eq h
  · rw [List.append_nil] at hfield
    exact .inl ⟨String.toList_inj.1 hfield.symm, String.toList_inj.1 howner⟩
  · refine .inr ⟨String.ofList q, String.toList_inj.1 ?_, String.toList_inj.1 ?_⟩
    · simp [hfield]
    · simp [howner]

theorem group_eq_iff : c.group = d.group ↔ c.Clashes d := by
  constructor
  · intro h
    simp only [group, argumentGroupName, String.append_left_inj] at h
    simp only [String.append_assoc, String.append_right_inj] at h
    have hl : (upperFirst c.field).toList ++ 'O' :: 'n' :: (upperFirst c.owner).toList =
        (upperFirst d.field).toList ++ 'O' :: 'n' :: (upperFirst d.owner).toList := by
      simpa using congrArg String.toList h
    obtain ⟨r, hd, hr⟩ | ⟨r, hc, hr⟩ := List.append_eq_append_iff.1 hl
    · exact (eq_or_overlaps hd hr).imp_right .inl
    · obtain ⟨hfield, howner⟩ | ho := eq_or_overlaps hc hr
      · exact .inl ⟨hfield.symm, howner.symm⟩
      · exact .inr (.inr ho)
  · rintro (⟨hfield, howner⟩ | ho | ho)
    · rw [group, argumentGroupName, hfield, howner, group, argumentGroupName]
    · exact ho.group_eq
    · exact ho.group_eq.symm

theorem nodup_groups_iff {cs : List Call} :
    (cs.map group).Nodup ↔ cs.Pairwise fun c d => ¬ c.Clashes d := by
  rw [List.Nodup, List.pairwise_map]
  simp only [ne_eq, group_eq_iff]

theorem group_not_builtin (c : Call) : c.group ∉ builtinScalars := by
  have hshort : ∀ n ∈ builtinScalars, n.length ≤ 7 := by decide
  have hlong : 12 ≤ c.group.length := by
    have hwords : "I".length + "On".length + "Arguments".length = 12 := by decide
    simp only [group, argumentGroupName, String.length_append]
    omega
  intro h
  have := hshort _ h
  omega

end Call

def TypeScript.Declaration.groupName? : Declaration → Option String
  | group n _ => some n
  | _ => none

def TypeDef.calls (t : TypeDef) : List Call :=
  (t.fields.filter Field.isCallable).map fun f => ⟨f.name, t.name⟩

theorem TypeDef.nodup_calls (t : TypeDef) : t.calls.Nodup := by
  have hfields : (t.fields.filter Field.isCallable).Pairwise fun f g => f.name ≠ g.name :=
    (List.pairwise_map.1 t.nodup_fields).filter _
  refine List.pairwise_map.2 (hfields.imp fun hne he => hne ?_)
  exact congrArg Call.field he

theorem Options.groupName?_declare {o : Options} (ho : o.groupArguments = true) (t : TypeDef) :
    (o.declare t).filterMap Declaration.groupName? = t.calls.map Call.group := by
  unfold declare TypeDef.calls TypeDef.fields
  cases t.body with
  | enum vs | scalar | union ms => rfl
  | fields c is fs =>
    have hg : (o.groups c t.name fs.toList).filterMap Declaration.groupName? =
        ((fs.toList.filter Field.isCallable).map fun f => Call.mk f.name t.name).map Call.group := by
      rw [groups, if_pos ho, List.filterMap_map, List.map_map, ← List.filterMap_eq_map]
      rfl
    simp only [declareFields, List.filterMap_append, hg]
    exact List.append_nil _

namespace Schema

def calls (s : Schema) : List Call :=
  (s.types.toList.filter s.isDeclared).flatMap TypeDef.calls

theorem nodup_calls (s : Schema) : s.calls.Nodup := by
  have htypes : (s.types.toList.filter s.isDeclared).Pairwise fun t u => name t ≠ name u :=
    (List.pairwise_map.1 s.types.nodup).filter _
  refine List.nodup_flatMap.2 ⟨fun t _ => t.nodup_calls, htypes.imp fun hne c hc hd => ?_⟩
  obtain ⟨f, -, rfl⟩ := List.mem_map.1 hc
  obtain ⟨g, -, he⟩ := List.mem_map.1 hd
  exact hne (congrArg Call.owner he).symm

theorem groupName?_declarations {o : Options} (ho : o.groupArguments = true) (s : Schema) :
    (s.declarations o).filterMap Declaration.groupName? = s.calls.map Call.group := by
  have hp : o.preamble.filterMap Declaration.groupName? = [] := rfl
  rw [declarations, List.filterMap_append, hp, List.filterMap_flatMap, calls, List.map_flatMap]
  simp only [Options.groupName?_declare ho, List.nil_append]

theorem exports_group_iff {text : String} {s : Schema} {o : Options} (h : ofText text = .ok s)
    (c : Call) : s.Exports o c.group ↔ c.group ∈ SourceText.declaredTypes (text, none) := by
  rw [exports_iff_mem h, List.mem_append, or_iff_right c.group_not_builtin]

end Schema

/-- Each called field of a declared type has one argument group. The groups have different names if
no two of the fields clash, and one has the name of an exported declaration only if a declared type
is called so. -/
theorem argumentGroups_of_generated {text out : String} {o : Options}
    (ho : o.groupArguments = true) (h : generateFromText text o = .ok out) :
    ∃ s, Schema.ofText text = .ok s ∧
      out = o.namespaceText ((s.declarations o).map Declaration.text) ∧
      (s.declarations o).filterMap Declaration.groupName? = s.calls.map Call.group ∧
      s.calls.Nodup ∧
      ((s.calls.map Call.group).Nodup ↔ s.calls.Pairwise fun c d => ¬ c.Clashes d) ∧
      ∀ c ∈ s.calls,
        (s.Exports o c.group ↔ c.group ∈ SourceText.declaredTypes (text, none)) := by
  obtain ⟨s, hs, rfl⟩ := generateFromText_ok h
  exact ⟨s, hs, rfl, Schema.groupName?_declarations ho s, s.nodup_calls, Call.nodup_groups_iff,
    fun c _ => Schema.exports_group_iff hs c⟩

def friends : String :=
  "type Query { user(id: ID!): User users(only: ID): [User] } type User { onOn(only: ID): User }"

def friendsCalls : List Call := [⟨"user", "Query"⟩, ⟨"users", "Query"⟩, ⟨"onOn", "User"⟩]

theorem argumentGroups_friends :
    ∃ (out : String) (s : Schema), generateFromText friends .default = .ok out ∧
      out = Options.default.namespaceText ((s.declarations .default).map Declaration.text) ∧
      (s.declarations .default).filterMap Declaration.groupName? = friendsCalls.map Call.group ∧
      (friendsCalls.map Call.group).Nodup := by
  have hc : (generateFromText friends .default).isOk = true ∧
      ((Schema.ofText friends).toOption.any fun s => s.calls = friendsCalls) = true ∧
      friendsCalls.Pairwise fun c d => ¬ c.Clashes d := by
    decide +kernel
  obtain ⟨hok, hcalls, hpairwise⟩ := hc
  obtain ⟨out, h⟩ := exists_of_isOk hok
  obtain ⟨s, hs, hout, hgroups, -, hnodup, -⟩ := argumentGroups_of_generated rfl h
  rw [hs] at hcalls
  have hcalls : s.calls = friendsCalls := of_decide_eq_true hcalls
  rw [hcalls] at hgroups hnodup
  exact ⟨out, s, h, hout, hgroups, hnodup.2 hpairwise⟩

def clashing : String :=
  "type Query { find(id: ID): ID Find(id: ID): ID } type BOnC { a(id: ID): ID } " ++
    "type C { aOnB(id: ID): ID } type IFindOnQueryArguments { id: ID }"

theorem argumentGroups_clashing :
    ∃ (out : String) (s : Schema), generateFromText clashing .default = .ok out ∧
      out = Options.default.namespaceText ((s.declarations .default).map Declaration.text) ∧
      (s.declarations .default).filterMap Declaration.groupName? =
        ["IFindOnQueryArguments", "IFindOnQueryArguments", "IAOnBOnCArguments",
          "IAOnBOnCArguments"] ∧
      s.Exports .default "IFindOnQueryArguments" := by
  have hc : (generateFromText clashing .default).isOk = true ∧
      ((Schema.ofText clashing).toOption.any fun s => s.calls.map Call.group =
        ["IFindOnQueryArguments", "IFindOnQueryArguments", "IAOnBOnCArguments",
          "IAOnBOnCArguments"]) = true ∧
      "IFindOnQueryArguments" ∈ SourceText.declaredTypes (clashing, none) := by
    decide +kernel
  obtain ⟨hok, hgroups, htype⟩ := hc
  obtain ⟨out, h⟩ := exists_of_isOk hok
  obtain ⟨s, hs, rfl⟩ := generateFromText_ok h
  rw [hs] at hgroups
  have hgroups : s.calls.map Call.group = _ := of_decide_eq_true hgroups
  refine ⟨_, s, h, rfl, (Schema.groupName?_declarations rfl s).trans hgroups, ?_⟩
  exact (Schema.exports_iff_mem hs).2 (List.mem_append_right _ htype)

end SchemaTypings
