import SchemaTypings.Proofs.DecodedRecords

namespace SchemaTypings.Json

variable {σ ι κ : Type}

/-- The entries of an object give these choices, in this order and apart from unknown keys. -/
inductive Spells (Unknown : String → Prop) (Gives : κ → String → Value → Prop) :
    List κ → List (Option String × Value) → Prop
  | nil : Spells Unknown Gives [] []
  | unknown {cs : List κ} {es : List (Option String × Value)} {k : String} (hk : Unknown k)
    (v : Value) (h : Spells Unknown Gives cs es) : Spells Unknown Gives cs ((some k, v) :: es)
  | choice {c : κ} {cs : List κ} {es : List (Option String × Value)} {k : String} {v : Value}
    (hc : Gives c k v) (h : Spells Unknown Gives cs es) :
    Spells Unknown Gives (c :: cs) ((some k, v) :: es)

namespace FieldReadings

variable {R : FieldReadings σ ι} {seen seen' : List String} {a a' : σ} {i : ι} {k k' : String}
  {v v' : Value} {es : List (Option String × Value)}

theorem readEntry_unknown (h : R.named? k = none) (a : List String × σ) (v : Value) :
    R.readEntry a k v = some a := by
  rw [readEntry, h]

theorem readEntry_new (h : R.named? k = some i) (hseen : (R.field i).main ∉ seen) (a : σ)
    (v : Value) :
    R.readEntry (seen, a) k v = (R.reading i a v).map ((R.field i).main :: seen, ·) := by
  simp only [readEntry, h, hseen, ↓reduceIte]

theorem readEntry_again (h : R.named? k = some i) (hseen : (R.field i).main ∈ seen) (a : σ)
    (v : Value) : R.readEntry (seen, a) k v = none := by
  simp only [readEntry, h, hseen, ↓reduceIte]

theorem seen_of_readEntry (h : R.readEntry (seen, a) k v = some (seen', a')) :
    seen ⊆ seen' ∧ ∀ i, R.named? k = some i → (R.field i).main ∈ seen' := by
  cases hk : R.named? k with
  | none =>
    rw [readEntry_unknown hk] at h
    obtain ⟨rfl, rfl⟩ := Prod.mk.inj (Option.some.inj h)
    exact ⟨List.Subset.refl _, nofun⟩
  | some j =>
    by_cases hseen : (R.field j).main ∈ seen
    · rw [readEntry_again hk hseen] at h
      cases h
    · rw [readEntry_new hk hseen] at h
      obtain ⟨b, -, hb⟩ := Option.map_eq_some_iff.1 h
      obtain ⟨rfl, rfl⟩ := Prod.mk.inj hb
      refine ⟨List.subset_cons_self .., ?_⟩
      rintro _ ⟨⟩
      exact List.mem_cons_self ..

theorem readEntries_again (hk : R.named? k = some i) (hseen : (R.field i).main ∈ seen)
    (he : (some k, v) ∈ es) (a : σ) : readEntries R.readEntry (seen, a) es = none := by
  induction es generalizing seen a with
  | nil => cases he
  | cons e es ih =>
    obtain ⟨k', w⟩ := e
    rw [readEntries]
    obtain heq | he := List.mem_cons.1 he
    · obtain ⟨rfl, rfl⟩ := Prod.mk.inj heq
      rw [Option.bind_some, readEntry_again hk hseen, Option.bind_none]
    · cases hread : k'.bind fun k => R.readEntry (seen, a) k w with
      | none => rfl
      | some b =>
        obtain ⟨k', -, hk'⟩ := Option.bind_eq_some_iff.1 hread
        exact ih ((seen_of_readEntry hk').1 hseen) he b.2

theorem readEntries_repeated (hk : R.named? k = some i) (hk' : R.named? k' = some i)
    (h : [(some k, v), (some k', v')].Sublist es) (a : List String × σ) :
    readEntries R.readEntry a es = none := by
  induction es generalizing a with
  | nil => cases h
  | cons e es ih =>
    obtain ⟨k₁, w⟩ := e
    rw [readEntries]
    cases hread : k₁.bind fun k => R.readEntry a k w with
    | none => rfl
    | some b =>
      cases h with
      | cons _ h => exact ih h b
      | cons_cons _ h =>
        -- This is the first of the two, and the other one finds the option seen.
        have hseen := (seen_of_readEntry hread).2 i hk
        exact readEntries_again hk' hseen (List.singleton_sublist.1 h) b.2

end FieldReadings

/-- How the options of a record are chosen one by one: what a choice is for and does, and which entries
give it. What an entry gives may depend on its own option being fresh, which the other choices leave
so. -/
structure Choices (R : FieldReadings σ ι) (κ : Type) where
  nameOf : κ → ι
  apply : σ → κ → σ
  Fresh : ι → σ → Prop
  Unknown : String → Prop
  Gives : κ → String → Value → Prop
  named?_unknown : ∀ {k}, Unknown k → R.named? k = none
  named?_gives : ∀ {c k v}, Gives c k v → R.named? k = some (nameOf c)
  reading_gives : ∀ {c k v a}, Gives c k v → Fresh (nameOf c) a →
    R.reading (nameOf c) a v = some (apply a c)
  fresh_apply : ∀ {i c a}, nameOf c ≠ i → Fresh i a → Fresh i (apply a c)

namespace Choices

variable {R : FieldReadings σ ι} (C : Choices R κ) {seen : List String} {a : σ} {cs : List κ}
  {es : List (Option String × Value)}

theorem readEntries_of_spells (h : Spells C.Unknown C.Gives cs es)
    (hnodup : (cs.map C.nameOf).Nodup) (hseen : ∀ c ∈ cs, (R.field (C.nameOf c)).main ∉ seen)
    (ha : ∀ c ∈ cs, C.Fresh (C.nameOf c) a) :
    ∃ seen', readEntries R.readEntry (seen, a) es = some (seen', cs.foldl C.apply a) := by
  induction h generalizing seen a with
  | nil => exact ⟨seen, rfl⟩
  | unknown hk v h ih =>
    obtain ⟨seen', hread⟩ := ih hnodup hseen ha
    refine ⟨seen', ?_⟩
    rw [readEntries, Option.bind_some, FieldReadings.readEntry_unknown (C.named?_unknown hk),
      Option.bind_some, hread]
  | @choice c cs es k v hc h ih =>
    obtain ⟨hnew, hnodup⟩ := List.nodup_cons.1 hnodup
    obtain ⟨hcseen, hseen⟩ := List.forall_mem_cons.1 hseen
    obtain ⟨hcfresh, ha⟩ := List.forall_mem_cons.1 ha
    -- The choices that are left are for other options, so these are still new and fresh.
    have hne : ∀ d ∈ cs, C.nameOf c ≠ C.nameOf d :=
      fun d hd he => hnew (he ▸ List.mem_map_of_mem hd)
    have hseen' : ∀ d ∈ cs, (R.field (C.nameOf d)).main ∉ (R.field (C.nameOf c)).main :: seen := by
      intro d hd hm
      obtain he | hm := List.mem_cons.1 hm
      · exact hne d hd (R.eq_of_main he.symm)
      · exact hseen d hd hm
    obtain ⟨seen', hread⟩ :=
      ih hnodup hseen' fun d hd => C.fresh_apply (hne d hd) (ha d hd)
    refine ⟨seen', ?_⟩
    rw [readEntries, Option.bind_some, FieldReadings.readEntry_new (C.named?_gives hc) hcseen,
      C.reading_gives hc hcfresh, Option.map_some, Option.bind_some, hread, List.foldl_cons]

theorem read_object (h : Spells C.Unknown C.Gives cs es) (hnodup : (cs.map C.nameOf).Nodup)
    (ha : ∀ c ∈ cs, C.Fresh (C.nameOf c) a) :
    R.read a (.object es) = some (cs.foldl C.apply a) := by
  obtain ⟨seen, hread⟩ := C.readEntries_of_spells h hnodup (fun _ _ => List.not_mem_nil) ha
  rw [FieldReadings.read, hread]
  rfl

end Choices

end SchemaTypings.Json
