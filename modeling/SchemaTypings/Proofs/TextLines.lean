import SchemaTypings.Text.Lines

namespace SchemaTypings.Text

abbrev Line := List Char

def joinLines (ls : List Line) : List Char :=
  ['\n'].intercalate ls

def splitLines (s : List Char) : List Line :=
  s.splitOn '\n'

/-- No line feed, and no carriage return that a line feed behind it would take away. -/
def IsLine (l : Line) : Prop :=
  '\n' ∉ l ∧ l.getLast? ≠ some '\r'

theorem IsLine.cons {c : Char} {l : Line} (h : IsLine l) (hn : c ≠ '\n') (hr : c ≠ '\r') :
    IsLine (c :: l) := by
  refine ⟨fun hm => (List.mem_cons.1 hm).elim (fun he => hn he.symm) h.1, fun hl => ?_⟩
  cases l with
  | nil => exact hr (Option.some.inj hl)
  | cons d l => exact h.2 (by rwa [List.getLast?_cons_cons] at hl)

/-- A text without line breaks. -/
def SingleLine (s : String) : Prop :=
  '\n' ∉ s.toList ∧ '\r' ∉ s.toList

instance (s : String) : Decidable (SingleLine s) :=
  inferInstanceAs (Decidable (_ ∧ _))

theorem singleLine_append {s t : String} : SingleLine (s ++ t) ↔ SingleLine s ∧ SingleLine t := by
  simp only [SingleLine, String.toList_append, List.mem_append, not_or]
  constructor
  · rintro ⟨⟨hs, ht⟩, hs', ht'⟩
    exact ⟨⟨hs, hs'⟩, ht, ht'⟩
  · rintro ⟨⟨hs, hs'⟩, ht, ht'⟩
    exact ⟨⟨hs, ht⟩, hs', ht'⟩

theorem SingleLine.append {s t : String} (hs : SingleLine s) (ht : SingleLine t) :
    SingleLine (s ++ t) :=
  singleLine_append.2 ⟨hs, ht⟩

theorem SingleLine.isLine {s : String} (h : SingleLine s) : IsLine s.toList :=
  ⟨h.1, fun hl => h.2 (List.mem_of_getLast? hl)⟩

theorem SingleLine.intercalate {s : String} {l : List String} (hs : SingleLine s)
    (hl : ∀ t ∈ l, SingleLine t) : SingleLine (s.intercalate l) := by
  induction l with
  | nil => simp [SingleLine]
  | cons t l ih =>
    obtain ⟨ht, hr⟩ := List.forall_mem_cons.1 hl
    cases l with
    | nil => simpa using ht
    | cons u l =>
      rw [String.intercalate_cons_cons]
      exact (ht.append hs).append (ih hr)

theorem joinLines_cons (l : Line) {ls : List Line} (h : ls ≠ []) :
    joinLines (l :: ls) = l ++ '\n' :: joinLines ls := by
  simp [joinLines, List.intercalate_cons_of_ne_nil h]

theorem intercalate_append {α : Type} (sep : List α) (ls : List (List α)) {rs : List (List α)}
    (h : rs ≠ []) : sep.intercalate (ls ++ rs) = ls.flatMap (· ++ sep) ++ sep.intercalate rs := by
  induction ls with
  | nil => rfl
  | cons l ls ih =>
    have hne : ls ++ rs ≠ [] := List.append_ne_nil_of_right_ne_nil _ h
    rw [List.cons_append, List.intercalate_cons_of_ne_nil hne, ih]
    simp

theorem flatMap_append_eq {α : Type} (sep : List α) {ls : List (List α)} (h : ls ≠ []) :
    ls.flatMap (· ++ sep) = sep.intercalate ls ++ sep := by
  induction ls with
  | nil => exact absurd rfl h
  | cons l ls ih =>
    by_cases hne : ls = []
    · subst hne
      simp
    · rw [List.flatMap_cons, ih hne, List.intercalate_cons_of_ne_nil hne]
      simp

theorem splitLines_joinLines {ls : List Line} (h : ∀ l ∈ ls, '\n' ∉ l) (hne : ls ≠ []) :
    splitLines (joinLines ls) = ls :=
  List.splitOn_intercalate '\n' h hne

theorem joinLines_splitLines (s : List Char) : joinLines (splitLines s) = s :=
  List.intercalate_splitOn '\n'

theorem lines_cons {c : Char} {r : List Char} (hc : c ≠ '\n')
    (hr : ∀ q, c = '\r' → r ≠ '\n' :: q) :
    lines (c :: r) = match lines r with
      | [] => [[c]]
      | l :: ls => (c :: l) :: ls :=
  lines.eq_4 c r hc hr

theorem lines_line {l : Line} (h : '\n' ∉ l) (hne : l ≠ []) : lines l = [l] := by
  induction l with
  | nil => exact absurd rfl hne
  | cons c r ih =>
    obtain ⟨hc, hr⟩ := not_or.1 (mt List.mem_cons.2 h)
    have hh : ∀ q, c = '\r' → r ≠ '\n' :: q := fun q _ he => hr (by simp [he])
    rw [lines_cons (Ne.symm hc) hh]
    cases r with
    | nil => rfl
    | cons d r => rw [ih hr (List.cons_ne_nil _ _)]

theorem lines_line_append {l : Line} (h : IsLine l) (r : List Char) :
    lines (l ++ '\n' :: r) = l :: lines r := by
  induction l with
  | nil => rfl
  | cons c l ih =>
    obtain ⟨hn, hl⟩ := h
    obtain ⟨hc, hn⟩ := not_or.1 (mt List.mem_cons.2 hn)
    have hh : ∀ q, c = '\r' → l ++ '\n' :: r ≠ '\n' :: q := by
      rintro q rfl he
      cases l with
      | nil => exact absurd rfl hl
      | cons d l => exact hn (by simp [(List.cons.inj he).1])
    have hl' : l.getLast? ≠ some '\r' := by
      cases l with
      | nil => simp
      | cons d l => rwa [List.getLast?_cons_cons] at hl
    rw [List.cons_append, lines_cons (Ne.symm hc) hh, ih ⟨hn, hl'⟩]

theorem lines_joinLines {ls : List Line} (h : ∀ l ∈ ls, IsLine l)
    (hlast : ls.getLast? ≠ some []) : lines (joinLines ls) = ls := by
  induction ls with
  | nil => rfl
  | cons l ls ih =>
    obtain ⟨hl, hls⟩ := List.forall_mem_cons.1 h
    cases ls with
    | nil =>
      have hne : l ≠ [] := fun he => hlast (by simp [he])
      exact (congrArg lines List.intercalate_singleton).trans (lines_line hl.1 hne)
    | cons m ls =>
      rw [List.getLast?_cons_cons] at hlast
      rw [joinLines_cons l (List.cons_ne_nil _ _), lines_line_append hl, ih hls hlast]

end SchemaTypings.Text
