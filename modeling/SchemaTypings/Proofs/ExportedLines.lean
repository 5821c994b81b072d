import SchemaTypings.Proofs.NamespaceLines

namespace SchemaTypings

open Text TypeScript

section Read

def exportWord : Line := "export ".toList

def startsExport (l : Line) : Bool :=
  exportWord.isPrefixOf l

/-- The lines of a text that begin with one tab and an export. -/
def exportLines (s : List Char) : List Line :=
  (splitLines s).filter ('\t' :: exportWord).isPrefixOf

def declarationWords : List Line := ["type ".toList, "interface ".toList, "const enum ".toList]

/-- The name that a line declares: it stands behind what is declared, up to the next space. -/
def declaredName? (l : Line) : Option String := do
  let r ← ('\t' :: exportWord).isPrefixOf? l
  let r ← declarationWords.findSome? fun w => w.isPrefixOf? r
  return String.ofList (r.takeWhile (· != ' '))

theorem isPrefixOf?_append (w r : Line) : w.isPrefixOf? (w ++ r) = some r := by
  induction w with
  | nil => rfl
  | cons c w ih => simp [List.isPrefixOf?, ih]

theorem declaredName?_of_words {w : Line} (hw : w ∈ declarationWords) {n : String}
    (hn : ' ' ∉ n.toList) (r : Line) :
    declaredName? ('\t' :: (exportWord ++ w ++ n.toList ++ ' ' :: r)) = some n := by
  have ht : (n.toList ++ ' ' :: r).takeWhile (· != ' ') = n.toList := by
    have hall : ∀ c ∈ n.toList, (c != ' ') = true := fun c hc => by
      have hne : c ≠ ' ' := fun he => hn (he ▸ hc)
      simpa using hne
    rw [List.takeWhile_append_of_pos hall]
    simp
  have he : ('\t' :: exportWord).isPrefixOf? ('\t' :: (exportWord ++ w ++ n.toList ++ ' ' :: r)) =
      some (w ++ (n.toList ++ ' ' :: r)) := by
    rw [List.append_assoc, List.append_assoc]
    exact isPrefixOf?_append ('\t' :: exportWord) _
  have hf : declarationWords.findSome? (fun v => v.isPrefixOf? (w ++ (n.toList ++ ' ' :: r))) =
      some (n.toList ++ ' ' :: r) := by
    simp only [declarationWords, List.mem_cons, List.not_mem_nil, or_false] at hw
    obtain rfl | rfl | rfl := hw <;> rfl
  rw [declaredName?, he]
  simp only [Option.bind_eq_bind, Option.bind_some, hf, ht, String.ofList_toList]
  rfl

theorem isPrefixOf_of_head {c : Char} {w l : Line} (h : l.head? ≠ some c) :
    (c :: w).isPrefixOf l = false := by
  cases l with
  | nil => rfl
  | cons d l =>
    have hne : c ≠ d := fun he => h (he ▸ rfl)
    rw [List.isPrefixOf, beq_eq_false_iff_ne.2 hne, Bool.false_and]

theorem startsExport_of_head {l : Line} (h : l.head? ≠ some 'e') : startsExport l = false :=
  isPrefixOf_of_head h

theorem startsExport_indentLine (l : Line) :
    ('\t' :: exportWord).isPrefixOf (indentLine l) = startsExport l := by
  cases l with
  | nil => rfl
  | cons c l => exact Bool.true_and _

end Read

namespace TypeScript

def Layout.first : Layout → Line
  | line t => t.toList
  | block head _ _ => (head ++ " \x7b").toList

theorem Layout.filter_lines (l : Layout) :
    l.lines.filter startsExport = [l.first].filter startsExport := by
  cases l with
  | line t => rfl
  | block head separator items =>
    have hi : ((itemLines separator items).map ('\t' :: ·)).filter startsExport = [] := by
      refine List.filter_eq_nil_iff.2 (List.forall_mem_map.2 fun l _ => ?_)
      rw [startsExport_of_head (by simp)]
      exact Bool.false_ne_true
    have hc : [['\x7d']].filter startsExport = [] := by decide
    rw [lines, List.filter_append, List.filter_cons, hi, hc, List.append_nil, first,
      List.filter_cons, List.filter_nil]

namespace Declaration

theorem filter_commentLines (d : Option String) :
    (commentLines d).filter startsExport = [] := by
  refine List.filter_eq_nil_iff.2 fun l hl => ?_
  have hc := (isComment_commentLines d).resolve_left (List.ne_nil_of_mem hl)
  have hh : l.head? ≠ some 'e' := by
    obtain h | h := hc.start l hl <;> rw [h] <;> decide
  rw [startsExport_of_head hh]
  exact Bool.false_ne_true

theorem filter_lines (x : Declaration) :
    x.lines.filter startsExport = [x.layout.first].filter startsExport := by
  rw [lines, List.filter_append, filter_commentLines, Layout.filter_lines, List.nil_append]

def exportedName? : Declaration → Option String
  | typeAlias _ name _ => some name
  | callable => none
  | enum _ _ name _ => some name
  | union _ name _ => some name
  | group _ _ => none
  | container _ _ name _ => some name

theorem first_membersLayout (head separator : String) (members : List Member) :
    ∃ r, (membersLayout head separator members).first = head.toList ++ ' ' :: r := by
  unfold membersLayout
  split
  · exact ⟨['\x7b', '\x7d'], String.toList_append⟩
  · exact ⟨['\x7b'], String.toList_append⟩

theorem toList_export {a : String} {w : Line} (h : a.toList = exportWord ++ w) (n : String) :
    (a ++ n).toList = exportWord ++ w ++ n.toList := by
  rw [String.toList_append, h]

theorem first_of_exported {x : Declaration} {n : String} (h : x.exportedName? = some n) :
    ∃ w ∈ declarationWords, ∃ r, x.layout.first = exportWord ++ w ++ n.toList ++ ' ' :: r := by
  have htype := toList_export (a := "export type ") (w := "type ".toList) rfl n
  have hassign : ∀ t : String, ("export type " ++ n ++ " = " ++ t).toList =
      exportWord ++ "type ".toList ++ n.toList ++ ' ' :: '=' :: ' ' :: t.toList := fun t => by
    rw [String.append_assoc, String.toList_append, htype, String.toList_append]
    rfl
  cases x with
  | typeAlias description name type =>
    obtain rfl := Option.some.inj h
    exact ⟨"type ".toList, by decide, _, hassign type⟩
  | callable => cases h
  | enum style description name values =>
    obtain rfl := Option.some.inj h
    cases style with
    | type => exact ⟨"type ".toList, by decide, _, hassign _⟩
    | enum =>
      have he := toList_export (a := "export const enum ") (w := "const enum ".toList) rfl name
      refine ⟨"const enum ".toList, by decide, ['\x7b'], ?_⟩
      rw [layout, Layout.first, String.toList_append, he]
      rfl
  | union description name members =>
    obtain rfl := Option.some.inj h
    exact ⟨"type ".toList, by decide, _, hassign _⟩
  | group name properties => cases h
  | container style description name members =>
    obtain rfl := Option.some.inj h
    cases style with
    | interface =>
      have hi := toList_export (a := "export interface ") (w := "interface ".toList) rfl name
      obtain ⟨r, hr⟩ := first_membersLayout ("export interface " ++ name) "" members
      exact ⟨"interface ".toList, by decide, r, hi ▸ hr⟩
    | type =>
      obtain ⟨r, hr⟩ := first_membersLayout ("export type " ++ name ++ " =") "," members
      rw [String.toList_append, htype, List.append_assoc] at hr
      exact ⟨"type ".toList, by decide, '=' :: ' ' :: r, hr⟩

theorem first_of_not_exported {x : Declaration} (h : x.exportedName? = none) :
    startsExport x.layout.first = false := by
  cases x with
  | callable => decide
  | group name properties =>
    apply startsExport_of_head
    simp [layout, Layout.first]
  | typeAlias | enum | union | container => cases h

end Declaration

end TypeScript

section Namespace

variable {ds : List Declaration}

theorem filter_blocks {p : Line → Bool} (hnil : p [] = false) (lss : List (List Line)) :
    ([([] : Line)].intercalate lss).filter p = lss.flatMap (List.filter p) := by
  induction lss with
  | nil => rfl
  | cons ls lss ih =>
    by_cases hne : lss = []
    · subst hne
      simp
    · rw [List.intercalate_cons_of_ne_nil hne, List.filter_append, List.filter_append, ih]
      simp [hnil]

theorem filter_bodyLines (ds : List Declaration) :
    (bodyLines ds).filter startsExport = (ds.map fun x => x.layout.first).filter startsExport := by
  rw [bodyLines, filter_blocks rfl, List.flatMap_map]
  induction ds with
  | nil => rfl
  | cons x ds ih =>
    rw [List.flatMap_cons, ih, Declaration.filter_lines, List.map_cons, ← List.filter_append]
    rfl

theorem map_declaredName? (h : ∀ x ∈ ds, ∀ n ∈ x.exportedName?, ' ' ∉ n.toList) :
    (((ds.map fun x => x.layout.first).filter startsExport).map indentLine).map declaredName? =
      (ds.filterMap Declaration.exportedName?).map some := by
  induction ds with
  | nil => rfl
  | cons x ds ih =>
    obtain ⟨hx, hs⟩ := List.forall_mem_cons.1 h
    cases he : x.exportedName? with
    | none =>
      rw [List.map_cons, List.filter_cons, Declaration.first_of_not_exported he,
        List.filterMap_cons_none he]
      exact ih hs
    | some n =>
      obtain ⟨w, hw, r, hf⟩ := Declaration.first_of_exported he
      have hstart : startsExport x.layout.first = true := by
        rw [hf]
        simp [startsExport]
      have hd := declaredName?_of_words hw (hx n he) r
      have hi : indentLine x.layout.first = '\t' :: (exportWord ++ w ++ n.toList ++ ' ' :: r) := by
        rw [hf]
        rfl
      rw [List.map_cons, List.filter_cons, if_pos hstart, List.map_cons, List.map_cons, hi, hd,
        ih hs, List.filterMap_cons_some he, List.map_cons]

/-- Only the declarations of a namespace have exported lines, and one each. -/
theorem filter_namespace (o : Options) (ds : List Declaration) :
    (o.header :: [] :: (bodyLines ds).map indentLine ++ [[], ['\x7d']]).filter
        ('\t' :: exportWord).isPrefixOf =
      ((ds.map fun x => x.layout.first).filter startsExport).map indentLine := by
  have hh : ('\t' :: exportWord).isPrefixOf o.header = false := by
    apply isPrefixOf_of_head
    cases hv : o.visibility <;> simp [Options.header, hv, Visibility.modifier]
  have hc : [[], ['\x7d']].filter ('\t' :: exportWord).isPrefixOf = [] := by decide
  have hb : ((bodyLines ds).map indentLine).filter ('\t' :: exportWord).isPrefixOf =
      ((bodyLines ds).filter startsExport).map indentLine := by
    rw [List.filter_map]
    exact congrArg (List.map indentLine) (List.filter_congr fun l _ => startsExport_indentLine l)
  rw [List.cons_append, List.cons_append, List.filter_cons, hh, List.filter_cons,
    List.filter_append, hc, hb, filter_bodyLines, List.append_nil]
  rfl

end Namespace

end SchemaTypings
