import SchemaTypings.Proofs.NamespaceLines

namespace SchemaTypings.TypeScript

open Text

/-- A line opens a comment with its first characters that are no tabs. -/
def opensComment (l : Line) : Bool :=
  opening.isPrefixOf (l.dropWhile (· == '\t'))

def endsComment (l : Line) : Bool :=
  terminator.isSuffixOf l

def openAfter (isOpen : Bool) (l : Line) : Bool :=
  (isOpen || opensComment l) && !endsComment l

/-- The lines that are in no comment; `isOpen` says whether a comment is open before them. -/
def dropComments (isOpen : Bool) : List Line → List Line
  | [] => []
  | l :: r =>
    if isOpen || opensComment l then dropComments (openAfter isOpen l) r
    else l :: dropComments false r

def withoutComments (s : String) : String :=
  String.ofList (joinLines (dropComments false (splitLines s.toList)))

theorem dropComments_append (isOpen : Bool) (ls rs : List Line) :
    dropComments isOpen (ls ++ rs) =
      dropComments isOpen ls ++ dropComments (ls.foldl openAfter isOpen) rs := by
  induction ls generalizing isOpen with
  | nil => rfl
  | cons l ls ih =>
    by_cases h : (isOpen || opensComment l) = true
    · rw [List.cons_append, dropComments, if_pos h, ih, dropComments, if_pos h]
      rfl
    · have hf : openAfter isOpen l = false := by simp [openAfter, h]
      rw [List.cons_append, dropComments, if_neg h, ih, dropComments, if_neg h, List.foldl_cons, hf]
      rfl

/-- Without its comments, `ls` is `ks`, and it leaves no comment open. -/
structure Cleans (ls ks : List Line) : Prop where
  kept : dropComments false ls = ks
  closed : ls.foldl openAfter false = false

/-- A change of lines that neither opens nor ends comments, such as indentation. -/
structure KeepsComments (f : Line → Line) : Prop where
  opens : ∀ l, opensComment (f l) = opensComment l
  ends : ∀ l, endsComment (f l) = endsComment l

namespace Cleans

variable {ls ks rs qs : List Line}

theorem nil : Cleans [] [] :=
  ⟨rfl, rfl⟩

theorem append (hl : Cleans ls ks) (hr : Cleans rs qs) : Cleans (ls ++ rs) (ks ++ qs) where
  kept := by rw [dropComments_append, hl.closed, hl.kept, hr.kept]
  closed := by rw [List.foldl_append, hl.closed, hr.closed]

theorem line {l : Line} (h : opensComment l = false) : Cleans [l] [l] where
  kept := by simp [dropComments, h]
  closed := by simp [openAfter, h]

theorem cons {l : Line} (h : opensComment l = false) (hl : Cleans ls ks) :
    Cleans (l :: ls) (l :: ks) :=
  (line h).append hl

theorem map {f : Line → Line} (hf : KeepsComments f) (h : Cleans ls ks) :
    Cleans (ls.map f) (ks.map f) := by
  have ha : ∀ isOpen l, openAfter isOpen (f l) = openAfter isOpen l := fun isOpen l => by
    rw [openAfter, hf.opens, hf.ends]
    rfl
  have hd : ∀ isOpen, dropComments isOpen (ls.map f) = (dropComments isOpen ls).map f := by
    clear h
    induction ls with
    | nil => exact fun _ => rfl
    | cons l ls ih =>
      intro isOpen
      by_cases h : (isOpen || opensComment l) = true
      · rw [List.map_cons, dropComments, hf.opens, if_pos h, ha, ih, dropComments, if_pos h]
      · rw [List.map_cons, dropComments, hf.opens, if_neg h, ih, dropComments, if_neg h,
          List.map_cons]
  constructor
  · rw [hd, h.kept]
  · rw [List.foldl_map]
    simp only [ha]
    exact h.closed

theorem blocks {α : Type} {f g : α → List Line} {l : List α} (h : ∀ a ∈ l, Cleans (f a) (g a)) :
    Cleans ([([] : Line)].intercalate (l.map f)) ([([] : Line)].intercalate (l.map g)) := by
  induction l with
  | nil => exact nil
  | cons a l ih =>
    obtain ⟨ha, hl⟩ := List.forall_mem_cons.1 h
    by_cases hne : l = []
    · subst hne
      simpa using ha
    · have hf : l.map f ≠ [] := by simpa using hne
      have hg : l.map g ≠ [] := by simpa using hne
      rw [List.map_cons, List.map_cons, List.intercalate_cons_of_ne_nil hf,
        List.intercalate_cons_of_ne_nil hg]
      exact (ha.append (line rfl)).append (ih hl)

theorem of_open {l : Line} (hl : endsComment l = true) (h : ∀ m ∈ ls, endsComment m = false) :
    dropComments true (ls ++ [l]) = [] ∧ (ls ++ [l]).foldl openAfter true = false := by
  induction ls with
  | nil => simp [dropComments, openAfter, hl]
  | cons m ls ih =>
    obtain ⟨hm, hs⟩ := List.forall_mem_cons.1 h
    have ha : openAfter true m = true := by simp [openAfter, hm]
    obtain ⟨hd, hf⟩ := ih hs
    constructor
    · rw [List.cons_append, dropComments, Bool.true_or, if_pos rfl, ha, hd]
    · rw [List.cons_append, List.foldl_cons, ha, hf]

theorem comment (h : IsComment ls) : Cleans ls [] := by
  obtain ⟨r, l, rfl, hl, hr⟩ := h.closes
  have hend : endsComment l = true := List.isSuffixOf_iff_suffix.2 hl
  have hnot : ∀ m ∈ r, endsComment m = false := fun m hm => by
    rw [Bool.eq_false_iff]
    exact fun he => hr m hm (List.isSuffixOf_iff_suffix.1 he)
  have hopens : ∀ m, opening <+: m → opensComment m = true := by
    rintro m ⟨t, rfl⟩
    simp [opensComment, opening]
  cases r with
  | nil =>
    have ho : opensComment l = true := hopens l (h.opens l rfl)
    exact ⟨by simp [dropComments, ho], by simp [openAfter, hend]⟩
  | cons m r =>
    have ho : opensComment m = true := hopens m (h.opens m rfl)
    obtain ⟨hm, hs⟩ := List.forall_mem_cons.1 hnot
    have ha : openAfter false m = true := by simp [openAfter, ho, hm]
    obtain ⟨hd, hf⟩ := of_open hend hs
    constructor
    · rw [List.cons_append, dropComments, ho, Bool.or_true, if_pos rfl, ha, hd]
    · rw [List.cons_append, List.foldl_cons, ha, hf]

theorem commentLines (d : Option String) : Cleans (commentLines d) [] := by
  obtain h | h := isComment_commentLines d
  · rw [h]
    exact nil
  · exact comment h

end Cleans

namespace KeepsComments

theorem tab : KeepsComments ('\t' :: ·) where
  opens _ := rfl
  ends l := by
    rw [Bool.eq_iff_iff, endsComment, endsComment, List.isSuffixOf_iff_suffix,
      List.isSuffixOf_iff_suffix, List.suffix_cons_iff]
    have hne : terminator ≠ '\t' :: l := by simp [terminator]
    exact or_iff_right hne

theorem indentLine : KeepsComments indentLine where
  opens l := by
    cases l with
    | nil => rfl
    | cons c l => exact tab.opens (c :: l)
  ends l := by
    cases l with
    | nil => rfl
    | cons c l => exact tab.ends (c :: l)

end KeepsComments

theorem opensComment_of_name {n : Line} (h : '/' ∉ n) {c : Char} (ht : c ≠ '\t') (hs : c ≠ '/')
    (r : Line) : opensComment (n ++ c :: r) = false := by
  have hhead : ∀ {d : Char} {q : Line}, d ≠ '/' → opening.isPrefixOf (d :: q) = false := by
    intro d q hd
    have hne : '/' ≠ d := hd.symm
    rw [opening, List.isPrefixOf, beq_eq_false_iff_ne.2 hne, Bool.false_and]
  induction n with
  | nil => simp [opensComment, ht, hhead hs]
  | cons d n ih =>
    obtain ⟨hd, hn⟩ := not_or.1 (mt List.mem_cons.2 h)
    by_cases htab : d = '\t'
    · subst htab
      exact ih hn
    · simp [opensComment, htab, hhead (Ne.symm hd)]

end SchemaTypings.TypeScript
