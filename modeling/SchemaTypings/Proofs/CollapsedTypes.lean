import Mathlib.Logic.Relation
import SchemaTypings.Proofs.TypeReading

namespace SchemaTypings

open NullableRenderer (standard)

/-- Nothing in a name looks like the beginning of a decoration or of a list. Names of letters, digits
and underscores are such names. -/
def IsUndecorated (n : String) : Prop :=
  ' ' ∉ n.toList ∧ '<' ∉ n.toList

instance (n : String) : Decidable (IsUndecorated n) :=
  inferInstanceAs (Decidable (_ ∧ _))

section Decorations

variable {b b' : Bool} {x y : List Char}

theorem append_decoration_inj (hx : ¬decoration false <:+ x) (hy : ¬decoration false <:+ y)
    (h : x ++ decoration b = y ++ decoration b') : b = b' ∧ x = y := by
  have hnone : decoration true = [] := rfl
  cases b with
  | false =>
    cases b' with
    | false => exact ⟨rfl, List.append_cancel_right h⟩
    | true =>
      rw [hnone, List.append_nil] at h
      exact absurd ⟨x, h⟩ hy
  | true =>
    rw [hnone, List.append_nil] at h
    cases b' with
    | false => exact absurd ⟨y, h.symm⟩ hx
    | true => exact ⟨rfl, by rwa [hnone, List.append_nil] at h⟩

theorem decoration_not_suffix_name {n : String} (hn : IsUndecorated n) :
    ¬decoration false <:+ n.toList := fun h =>
  hn.1 (h.subset (by decide))

theorem decoration_not_suffix_list (x : List Char) : ¬decoration false <:+ x ++ ['>'] := by
  intro h
  have hlast : (x ++ ['>']).getLast? = some 'd' := by
    obtain ⟨y, hy⟩ := h
    rw [← hy, List.getLast?_append]
    rfl
  rw [List.getLast?_concat] at hlast
  exact absurd hlast (by decide)

end Decorations

namespace TypeRef

/-- One of two marks directly around each other is taken off, anywhere in a reference. -/
inductive Unmarks : TypeRef → TypeRef → Prop
  | here (t : TypeRef) : Unmarks (nonNull (nonNull t)) (nonNull t)
  | list {t t' : TypeRef} : Unmarks t t' → Unmarks (list t) (list t')
  | nonNull {t t' : TypeRef} : Unmarks t t' → Unmarks (nonNull t) (nonNull t')

section Collapse

variable {t t' : TypeRef}

theorem expression_required (r : NullableRenderer) (b : Bool) (t : TypeRef) :
    t.required.expression r b = t.expression r true := by
  cases t <;> rfl

theorem expression_collapse (r : NullableRenderer) (b : Bool) (t : TypeRef) :
    t.collapse.expression r b = t.expression r b := by
  induction t generalizing b with
  | named n => rfl
  | list t ih => rw [collapse, expression, expression, ih]
  | nonNull t ih => rw [collapse, expression_required, ih, expression]

theorem Unmarks.collapse_eq (h : Unmarks t t') : t.collapse = t'.collapse := by
  induction h with
  | here t => exact required_required t.collapse
  | list _ ih => rw [collapse, collapse, ih]
  | nonNull _ ih => rw [collapse, collapse, ih]

theorem Unmarks.expression_eq (h : Unmarks t t') (r : NullableRenderer) (b : Bool) :
    t.expression r b = t'.expression r b := by
  rw [← expression_collapse r b t, h.collapse_eq, expression_collapse]

theorem unmarks_required (t : TypeRef) :
    Relation.ReflTransGen Unmarks (nonNull t) t.required := by
  cases t with
  | nonNull t => exact .single (.here t)
  | named n | list t => exact .refl

theorem unmarks_collapse (t : TypeRef) : Relation.ReflTransGen Unmarks t t.collapse := by
  induction t with
  | named n => exact .refl
  | list t ih => exact ih.lift list fun _ _ => .list
  | nonNull t ih => exact (ih.lift nonNull fun _ _ => .nonNull).trans (unmarks_required t.collapse)

theorem not_unmarks_required (h : ∀ u, ¬Unmarks t u) (u : TypeRef) : ¬Unmarks t.required u := by
  cases t with
  | nonNull t => exact h u
  | named n =>
    rintro (_ | _ | hu)
    exact nomatch hu
  | list t =>
    rintro (_ | _ | hu)
    exact h _ hu

theorem not_unmarks_collapse (t u : TypeRef) : ¬Unmarks t.collapse u := by
  induction t generalizing u with
  | named n => exact nofun
  | list t ih =>
    rintro (_ | hu)
    exact ih _ hu
  | nonNull t ih => exact not_unmarks_required ih u

end Collapse

section Standard

variable {t t' : TypeRef} {b b' : Bool}

theorem toList_expression_named (n : String) (b : Bool) :
    ((named n).expression standard b).toList = n.toList ++ decoration b :=
  toList_renderUnless b n

theorem toList_expression_list (t : TypeRef) (b : Bool) :
    ((list t).expression standard b).toList =
      "Array<".toList ++ (t.expression standard false).toList ++ ['>'] ++ decoration b := by
  rw [expression, toList_renderUnless, String.toList_append, String.toList_append]
  rfl

theorem named_ne_list {n : String} (hn : IsUndecorated n) (t : TypeRef) (b b' : Bool) :
    ((named n).expression standard b).toList ≠ ((list t).expression standard b').toList := by
  intro h
  rw [toList_expression_named, toList_expression_list] at h
  obtain ⟨-, hname⟩ := append_decoration_inj (decoration_not_suffix_name hn)
    (decoration_not_suffix_list _) h
  apply hn.2
  rw [hname]
  simp

theorem marked_eq_of_expression (ht : IsUndecorated t.baseName) (ht' : IsUndecorated t'.baseName)
    (h : (t.expression standard b).toList = (t'.expression standard b').toList) :
    t.marked b = t'.marked b' := by
  induction t generalizing t' b b' with
  | nonNull t ih =>
    rw [marked_nonNull]
    exact ih ht ht' h
  | named n =>
    induction t' generalizing b' with
    | nonNull t' ih' =>
      rw [marked_nonNull]
      exact ih' ht' h
    | named n' =>
      rw [toList_expression_named, toList_expression_named] at h
      obtain ⟨rfl, hname⟩ := append_decoration_inj (decoration_not_suffix_name ht)
        (decoration_not_suffix_name ht') h
      have hnames : n = n' := String.toList_inj.1 hname
      rw [hnames]
    | list t' => exact absurd h (named_ne_list ht t' b b')
  | list t ih =>
    induction t' generalizing b' with
    | nonNull t' ih' =>
      rw [marked_nonNull]
      exact ih' ht' h
    | named n' => exact absurd h.symm (named_ne_list ht' t b' b)
    | list t' =>
      have hname : IsUndecorated t'.baseName := ht'
      rw [toList_expression_list, toList_expression_list] at h
      obtain ⟨rfl, hlist⟩ := append_decoration_inj (decoration_not_suffix_list _)
        (decoration_not_suffix_list _) h
      have hinner := List.append_cancel_left (List.append_cancel_right hlist)
      have hcollapse : t.collapse = t'.collapse := ih ht hname hinner
      simp only [marked, collapse, hcollapse]

end Standard

/-- A mark around a reference counts like the flag, and a second mark around a first one counts for
nothing, wherever it is taken off. With the standard renderer, references of the same expression are
the same once no mark can be taken off. -/
theorem expression_tells_collapse :
    (∀ (r : NullableRenderer) (t : TypeRef),
      t.expression r true = (nonNull t).expression r false) ∧
    (∀ (r : NullableRenderer) (b : Bool) (t t' : TypeRef), Unmarks t t' →
      t.expression r b = t'.expression r b) ∧
    (∀ t : TypeRef, Relation.ReflTransGen Unmarks t t.collapse ∧ ∀ u, ¬Unmarks t.collapse u) ∧
    (∀ (r : NullableRenderer) (b : Bool) (t : TypeRef),
      t.collapse.expression r b = t.expression r b) ∧
    ∀ t t' : TypeRef, IsUndecorated t.baseName → IsUndecorated t'.baseName →
      (t.expression standard false = t'.expression standard false ↔ t.collapse = t'.collapse) := by
  refine ⟨fun r t => rfl, fun r b t t' h => h.expression_eq r b,
    fun t => ⟨unmarks_collapse t, not_unmarks_collapse t⟩, expression_collapse,
    fun t t' ht ht' => ⟨fun h => ?_, fun h => ?_⟩⟩
  · have hmarked : t.marked false = t'.marked false :=
      marked_eq_of_expression ht ht' (congrArg String.toList h)
    exact hmarked
  · rw [← expression_collapse standard false t, h, expression_collapse]

def doublyMarked : TypeRef :=
  nonNull (nonNull (list (nonNull (nonNull (named "Größe_2")))))

def singlyMarked : TypeRef :=
  nonNull (list (nonNull (named "Größe_2")))

def innerNullable : TypeRef :=
  nonNull (list (named "Größe_2"))

theorem expression_tells_doublyMarked :
    IsUndecorated doublyMarked.baseName ∧
    doublyMarked.expression standard false = singlyMarked.expression standard false ∧
    doublyMarked.expression standard false ≠ innerNullable.expression standard false := by
  obtain ⟨-, -, -, -, htells⟩ := expression_tells_collapse
  have hdoubly : IsUndecorated doublyMarked.baseName := by decide
  refine ⟨hdoubly, (htells _ singlyMarked hdoubly (by decide)).2 (by decide), fun h => ?_⟩
  have hcollapse := (htells _ innerNullable hdoubly (by decide)).1 h
  exact absurd hcollapse (by decide)

end TypeRef

end SchemaTypings
