import SchemaTypings.Proofs.TypeReading

namespace SchemaTypings

open Sdl (IsName isNameChar)

theorem endsWord_cons {c : Char} (hc : isNameChar c = false) (r : List Char) :
    EndsWord (c :: r) := by
  rintro d ⟨⟩
  exact hc

theorem endsWord_dropWhile (s : List Char) : EndsWord (s.dropWhile isNameChar) := by
  intro c hc
  have hstop := List.head?_dropWhile_not isNameChar s
  rwa [hc] at hstop

namespace TypeRef

/-- No non-null mark stands directly around another. -/
def hasSingleMarks : TypeRef → Bool
  | named _ => true
  | list t => t.hasSingleMarks
  | nonNull t => !t.isNonNull && t.hasSingleMarks

structure IsWritable (t : TypeRef) : Prop where
  marks : t.hasSingleMarks = true
  name : IsName t.baseName

/-- A type without a mark is not followed by one, and a name does not go on. -/
def EndsBefore : TypeRef → List Char → Prop
  | named _, r => EndsWord r ∧ '!' ∉ r.head?
  | list _, r => '!' ∉ r.head?
  | nonNull _, _ => True

variable {t u : TypeRef} {n : String} {s r q : List Char}

theorem toList_text_list (t : TypeRef) (r : List Char) :
    (list t).text.toList ++ r = '[' :: (t.text.toList ++ ']' :: r) := by
  simp [text]

theorem toList_text_nonNull (t : TypeRef) (r : List Char) :
    (nonNull t).text.toList ++ r = t.text.toList ++ '!' :: r := by
  simp [text]

theorem required_eq_nonNull (h : t.isNonNull = false) : t.required = nonNull t := by
  cases t with
  | nonNull t => cases h
  | named n | list t => rfl

theorem hasSingleMarks_nonNull :
    (nonNull t).hasSingleMarks = true ↔ t.isNonNull = false ∧ t.hasSingleMarks = true := by
  simp [hasSingleMarks]

theorem endsBefore_cons {c : Char} (hc : isNameChar c = false) (hm : c ≠ '!') (t : TypeRef)
    (r : List Char) : t.EndsBefore (c :: r) := by
  have hmark : '!' ∉ (c :: r).head? := by
    rintro ⟨⟩
    exact hm rfl
  cases t with
  | named n => exact ⟨endsWord_cons hc r, hmark⟩
  | list t => exact hmark
  | nonNull t => trivial

end TypeRef

namespace Sdl

open TypeRef (endsBefore_cons hasSingleMarks_nonNull required_eq_nonNull toList_text_list
  toList_text_nonNull)

variable {t u : TypeRef} {n : String} {s r q : List Char}

theorem bareName_cons (c : Char) (s : List Char) :
    bareName (c :: s) =
      if isNameStart c then
        some (String.ofList (c :: s.takeWhile isNameChar), s.dropWhile isNameChar)
      else none := rfl

theorem bareName_eq_some_iff :
    bareName s = some (n, r) ↔ IsName n ∧ s = n.toList ++ r ∧ EndsWord r := by
  constructor
  · intro h
    cases s with
    | nil => cases h
    | cons c s =>
      rw [bareName_cons] at h
      split at h
      · next hc =>
        obtain ⟨rfl, rfl⟩ := Prod.mk.inj (Option.some.inj h)
        refine ⟨⟨c, _, String.toList_ofList, hc, List.all_takeWhile⟩, ?_, endsWord_dropWhile s⟩
        rw [String.toList_ofList, List.cons_append, List.takeWhile_append_dropWhile]
      · cases h
  · rintro ⟨hn, rfl, hr⟩
    have hword := isNameChar_of_isName hn
    have htake := takeWhile_of_endsWord hword hr
    have hdrop : (n.toList ++ r).dropWhile isNameChar = r := by
      have hsplit := List.takeWhile_append_dropWhile (p := isNameChar) (l := n.toList ++ r)
      rw [htake] at hsplit
      exact List.append_cancel_left hsplit
    obtain ⟨c, w, hw, hc, -⟩ := hn
    have hchar : isNameChar c = true := hword c (hw ▸ List.mem_cons_self ..)
    rw [hw, List.cons_append, List.takeWhile_cons_of_pos hchar] at htake
    rw [hw, List.cons_append, List.dropWhile_cons_of_pos hchar] at hdrop
    rw [hw, List.cons_append, bareName_cons, if_pos hc, htake, hdrop, ← hw, String.ofList_toList]

theorem markRequired_of_unmarked (h : '!' ∉ r.head?) : markRequired t r = (t, r) := by
  unfold markRequired
  split
  · exact absurd rfl h
  · rfl

theorem bareType_of_name (h : bareName s = some (n, r)) :
    bareType s = some (markRequired (.named n) r) := by
  unfold bareType
  split
  · exact absurd h (by simp [bareName, isNameStart])
  · rw [h]
    rfl

theorem bareType_of_list (h : bareType s = some (t, ']' :: r)) :
    bareType ('[' :: s) = some (markRequired (.list t) r) := by
  simp only [bareType, h]

/-- The reader gives the type that is written, with or without a mark behind it. -/
theorem bareType_text (ht : t.hasSingleMarks = true) (hn : IsName t.baseName) :
    (∀ r, t.EndsBefore r → bareType (t.text.toList ++ r) = some (t, r)) ∧
      (t.isNonNull = false → ∀ r, bareType (t.text.toList ++ '!' :: r) = some (.nonNull t, r)) := by
  induction t with
  | named n =>
    have hread (r : List Char) (hr : EndsWord r) :
        bareType ((TypeRef.named n).text.toList ++ r) = some (markRequired (.named n) r) :=
      bareType_of_name (bareName_eq_some_iff.2 ⟨hn, rfl, hr⟩)
    refine ⟨fun r hr => ?_, fun _ r => hread _ (endsWord_cons (by decide) r)⟩
    rw [hread r hr.1, markRequired_of_unmarked hr.2]
  | list t ih =>
    have hread (r : List Char) :
        bareType ((TypeRef.list t).text.toList ++ r) = some (markRequired (.list t) r) := by
      have hinner := (ih ht hn).1 _ (endsBefore_cons (c := ']') (by decide) (by decide) t r)
      rw [toList_text_list]
      exact bareType_of_list hinner
    refine ⟨fun r hr => ?_, fun _ r => hread _⟩
    rw [hread, markRequired_of_unmarked hr]
  | nonNull t ih =>
    obtain ⟨hu, ht⟩ := hasSingleMarks_nonNull.1 ht
    refine ⟨fun r _ => ?_, nofun⟩
    rw [toList_text_nonNull]
    exact (ih ht hn).2 hu r

theorem text_markRequired (hu : u.isNonNull = false) (hw : u.IsWritable)
    (hq : '!' ∉ q.head? → u.EndsBefore q) (h : markRequired u q = (t, r)) :
    t.IsWritable ∧ u.text.toList ++ q = t.text.toList ++ r ∧ t.EndsBefore r := by
  by_cases hm : '!' ∈ q.head?
  · obtain ⟨q, rfl⟩ := List.head?_eq_some_iff.1 hm
    rw [markRequired, required_eq_nonNull hu] at h
    obtain ⟨rfl, rfl⟩ := Prod.mk.inj h
    have hmarks := hasSingleMarks_nonNull.2 ⟨hu, hw.marks⟩
    exact ⟨⟨hmarks, hw.name⟩, (toList_text_nonNull u q).symm, trivial⟩
  · rw [markRequired_of_unmarked hm] at h
    obtain ⟨rfl, rfl⟩ := Prod.mk.inj h
    exact ⟨hw, rfl, hq hm⟩

theorem text_bareType (h : bareType s = some (t, r)) :
    t.IsWritable ∧ s = t.text.toList ++ r ∧ t.EndsBefore r := by
  induction s using bareType.induct generalizing t r with
  | case1 s u v hu ih =>
    obtain ⟨hw, rfl, -⟩ := ih hu
    rw [bareType_of_list hu, Option.some_inj] at h
    rw [← toList_text_list]
    exact text_markRequired rfl ⟨hw.marks, hw.name⟩ id h
  | case2 s hs ih => simp [bareType] at h
  | case3 s hs =>
    cases hread : bareName s with
    | none => exact absurd h (by simp [bareType, hread])
    | some p =>
      obtain ⟨n, q⟩ := p
      obtain ⟨hn, rfl, hq⟩ := bareName_eq_some_iff.1 hread
      rw [bareType_of_name hread, Option.some_inj] at h
      exact text_markRequired (u := .named n) rfl ⟨rfl, hn⟩ (fun hm => ⟨hq, hm⟩) h

/-- What the reader of types takes off is the text of the type that it gives. -/
theorem bareType_eq_some_iff :
    bareType s = some (t, r) ↔ t.IsWritable ∧ s = t.text.toList ++ r ∧ t.EndsBefore r := by
  refine ⟨text_bareType, ?_⟩
  rintro ⟨ht, rfl, hend⟩
  exact (bareType_text ht.marks ht.name).1 r hend

end Sdl

theorem TypeRef.IsWritable.text_inj {t u : TypeRef} (ht : t.IsWritable) (hu : u.IsWritable)
    (h : t.text = u.text) : t = u := by
  have hend (v : TypeRef) : v.EndsBefore [' '] := endsBefore_cons (by decide) (by decide) v []
  have hread := Sdl.bareType_eq_some_iff.2 ⟨ht, rfl, hend t⟩
  rw [h, Sdl.bareType_eq_some_iff.2 ⟨hu, rfl, hend u⟩] at hread
  exact (Prod.mk.inj (Option.some.inj hread)).1.symm

end SchemaTypings
