import SchemaTypings.Sdl.Document

namespace SchemaTypings

def Argument.names (a : Argument) : List String :=
  [a.name, a.type.baseName]

def Field.names (f : Field) : List String :=
  f.name :: f.type.baseName :: f.arguments.flatMap Argument.names

def Body.names : Body → List String
  | .enum vs => vs.map EnumValue.name
  | .fields _ _ fs => fs.toList.flatMap Field.names
  | .scalar => []
  | .union ms => ms

/-- The names that a declaration of the type is made of. -/
def TypeDef.names (d : TypeDef) : List String :=
  d.name :: d.body.names

namespace Sdl

/-- A letter or an underscore, and then letters, digits and underscores. -/
def IsName (n : String) : Prop :=
  ∃ c r, n.toList = c :: r ∧ isNameStart c = true ∧ r.all isNameChar = true

theorem isNameChar_of_isName {n : String} (h : IsName n) : ∀ c ∈ n.toList, isNameChar c = true := by
  obtain ⟨c, r, hn, hc, hr⟩ := h
  have hstart : isNameChar c = true := by
    have hor : c.isAlpha = true ∨ c = '_' := by simpa [isNameStart] using hc
    simp only [isNameChar, Char.isAlphanum, Bool.or_eq_true, beq_iff_eq]
    exact hor.imp_left .inl
  rw [hn]
  exact List.forall_mem_cons.2 ⟨hstart, List.all_eq_true.1 hr⟩

theorem ne_empty_of_isName {n : String} (h : IsName n) : n ≠ "" := by
  obtain ⟨c, r, hn, -, -⟩ := h
  rintro rfl
  cases hn

def IsWord (n : String) : Prop :=
  ∀ c ∈ n.toList, isNameChar c = true

instance (n : String) : Decidable (IsWord n) :=
  List.decidableBAll _ n.toList

theorem IsWord.not_mem {n : String} (h : IsWord n) {c : Char} (hc : isNameChar c = false) :
    c ∉ n.toList := fun hm => by
  rw [h c hm] at hc
  cases hc

theorem not_mem_of_isName {n : String} (h : IsName n) {c : Char} (hc : isNameChar c = false) :
    c ∉ n.toList :=
  IsWord.not_mem (isNameChar_of_isName h) hc

def AllNames (ns : List String) : Prop :=
  ∀ n ∈ ns, IsName n

theorem AllNames.flatMap {α : Type} {f : α → List String} {l : List α}
    (h : ∀ a ∈ l, AllNames (f a)) : AllNames (l.flatMap f) := by
  intro n hn
  obtain ⟨a, ha, hn⟩ := List.mem_flatMap.1 hn
  exact h a ha n hn

theorem AllNames.cons {n : String} {ns : List String} (h : IsName n) (hs : AllNames ns) :
    AllNames (n :: ns) :=
  List.forall_mem_cons.2 ⟨h, hs⟩

end Sdl

end SchemaTypings
