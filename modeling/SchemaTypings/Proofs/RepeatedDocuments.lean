import SchemaTypings.Proofs.Absorption
import SchemaTypings.Proofs.CutDocuments

namespace SchemaTypings

theorem RootTypes.override_again (r later : RootTypes) :
    (r.override later).override later = r.override later := by
  simp only [override, ← Option.or_assoc, Option.or_self]

namespace SourceText

variable {d : SourceText}

theorem IsDocument.rename (h : d.IsDocument) (source : Option String) :
    IsDocument (d.1, source) := by
  obtain ⟨doc, hp⟩ := h
  obtain ⟨ss, r, hs, hf, -⟩ := Sdl.parse_ok (parseDocument_ok hp)
  have hnone : ss.findSome? Sdl.Statement.fault? = none := List.findSome?_eq_none_iff.2 hf
  refine ⟨Sdl.documentOf (Sdl.originAt (Sdl.positions d.1.toList) source) ss, ?_⟩
  unfold parseDocument Sdl.parse
  simp only [hs, hnone]

theorem isCutOf_rename (h : d.IsDocument) (source : Option String) :
    IsCutOf [d] (d.1, source) where
  documents := List.forall_mem_singleton.2 h
  isDocument := h.rename source
  statements := List.flatMap_singleton ..

theorem roots_rename (h : d.IsDocument) (source : Option String) :
    roots (d.1, source) = d.roots := by
  refine RootTypes.ext_get fun o => ?_
  have hd := roots_of_document (parse_eq h) o
  have hr := roots_of_document (parse_eq (h.rename source)) o
  exact hr.trans hd.symm

end SourceText

namespace Schema

variable {s : Schema} {t : TypeDef}

/-- The schema after texts have been added one after another, of which some may have failed. -/
def addTexts (s : Schema) (docs : List SourceText) : Schema :=
  docs.foldl (fun s d => (s.addText d.1 d.2).1) s

theorem absorbs_addText (h : s.Absorbs t) (d : SourceText) : (s.addText d.1 d.2).1.Absorbs t := by
  unfold addText
  cases parseDocument d.1 d.2 with
  | error e => exact h
  | ok doc =>
    simp only [addDocument_eq]
    exact absorbs_mergeDefinitions h doc.definitions

theorem absorbs_addTexts (h : s.Absorbs t) (docs : List SourceText) :
    (s.addTexts docs).Absorbs t := by
  induction docs generalizing s with
  | nil => exact h
  | cons d docs ih => exact ih (absorbs_addText h d)

theorem absorbs_of_addText {d : SourceText} (h : (s.addText d.1 d.2).2 = none) :
    ∀ e ∈ d.definitions, (s.addText d.1 d.2).1.Absorbs e.incoming := by
  have hd := isDocument_of_addText h
  rw [addText_eq hd] at h ⊢
  cases hm : s.mergeDefinitions d.definitions with
  | mk u error =>
    rw [hm] at h
    obtain rfl : error = none := Option.map_eq_none_iff.1 h
    have habs : ∀ e ∈ d.definitions, u.Absorbs e.incoming := absorbs_of_mergeDefinitions hm
    exact habs

theorem addText_of_absorbs {d : SourceText} (hd : d.IsDocument)
    (h : ∀ e ∈ d.definitions, s.Absorbs e.incoming) (source : Option String) :
    s.addText d.1 source = ({ s with roots := s.roots.override d.roots }, none) := by
  have hrename := hd.rename source
  have hdefs := (SourceText.isCutOf_rename hd source).definitions
  rw [List.flatMap_singleton] at hdefs
  have hall : ∀ e ∈ SourceText.definitions (d.1, source), s.Absorbs e.incoming := by
    intro e he
    have hmem : e.unplaced ∈ d.definitions.map Definition.unplaced :=
      hdefs ▸ List.mem_map_of_mem he
    obtain ⟨e', he', heq⟩ := List.mem_map.1 hmem
    have hin : e'.incoming.unplaced = e.incoming.unplaced := by
      rw [← e'.incoming_unplaced, heq, e.incoming_unplaced]
    have hname : e'.incoming.name = e.incoming.name := by
      simpa only [TypeDef.unplaced] using congrArg TypeDef.name hin
    obtain ⟨t, ht, ha⟩ := h e' he'
    exact ⟨t, hname ▸ ht, ha.congr hin⟩
  have ha := addText_eq hrename s
  rwa [mergeDefinitions_eq_self hall, SourceText.roots_rename hd] at ha

/-- Adding a document again, under any name and whatever has been added since, leaves all types as
they are and sets its root types again; right after the first time it changes nothing. -/
theorem addText_again {d : SourceText} {u : Schema} (h : s.addText d.1 d.2 = (u, none))
    (later : List SourceText) (source : Option String) :
    (u.addTexts later).addText d.1 source =
        ({ u.addTexts later with roots := (u.addTexts later).roots.override d.roots }, none) ∧
      u.addText d.1 source = (u, none) := by
  have hnone : (s.addText d.1 d.2).2 = none := congrArg Prod.snd h
  have hd := isDocument_of_addText hnone
  have habs := absorbs_of_addText hnone
  have hroots : (s.addText d.1 d.2).1.roots.override d.roots = (s.addText d.1 d.2).1.roots := by
    rw [addText_eq hd]
    exact s.roots.override_again d.roots
  rw [h] at habs hroots
  refine ⟨addText_of_absorbs hd (fun e he => absorbs_addTexts (habs e he) later) source, ?_⟩
  have hagain := addText_of_absorbs hd habs source
  rwa [hroots] at hagain

def repetitive : SourceText :=
  ("extend type A { x: Int x: ID } \"\" type A { x: ID } enum E { V V } schema { query: A }",
    some "first")

/-- A document that stops in the middle of a type, one that is malformed, and one with another root
type. -/
def meanwhile : List SourceText := [
  ("\"text\" type A \x7b y: Int \"an x\" x: ID z: E \x7d type A { w: Int x: Int }", none),
  ("type \x7b", some "second"),
  ("type B { a: A } schema { query: B }", none)]

theorem addText_repetitive :
    ∃ u, empty.addText repetitive.1 repetitive.2 = (u, none) ∧
      (u.addTexts meanwhile).types ≠ u.types ∧
      (u.addTexts meanwhile).addText repetitive.1 (some "again") =
        ({ u.addTexts meanwhile with
            roots := (u.addTexts meanwhile).roots.override repetitive.roots }, none) ∧
      u.addText repetitive.1 (some "again") = (u, none) := by
  have hdecided : (empty.addText repetitive.1 repetitive.2).2 = none ∧
      ((empty.addText repetitive.1 repetitive.2).1.addTexts meanwhile).types ≠
        (empty.addText repetitive.1 repetitive.2).1.types := by
    decide +kernel
  obtain ⟨hnone, hne⟩ := hdecided
  cases hu : empty.addText repetitive.1 repetitive.2 with
  | mk u error =>
    rw [hu] at hnone hne
    obtain rfl : error = none := hnone
    obtain ⟨hlater, hagain⟩ := addText_again hu meanwhile (some "again")
    exact ⟨u, rfl, hne, hlater, hagain⟩

end Schema

end SchemaTypings
