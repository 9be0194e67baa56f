import ShaderIncludes.Proofs.Collected
import ShaderIncludes.Proofs.SideBySide

/-!
# A slash in front of a folder

A base or a root with one slash in front is the same folder as without it, although the texts that a
walk goes through differ for as long as the walk has not come to the top. Main statement: so a crawl
does not depend on such slashes, except that its faults name the folders as they are written
(`endsAlike_of_slashApart`).
-/
namespace ShaderIncludes

namespace Path

/-- The same folder twice, or a folder without and with a slash in front. -/
inductive SameButSlash : List Char → List Char → Prop where
  | same (folder) : SameButSlash folder folder
  | slash {c cs} (hc : c ≠ '/') : SameButSlash (c :: cs) ('/' :: c :: cs)

namespace SameButSlash

variable {folder folder' : List Char}

/-- Above its first piece a folder is empty, with a slash in front or without. -/
theorem parent (h : SameButSlash folder folder') :
    SameButSlash (parent folder) (parent folder') := by
  cases h with
  | same => exact .same _
  | @slash c cs hc =>
    by_cases hslash : '/' ∈ c :: cs
    · obtain ⟨front, last, hfront, hlast⟩ := exists_last_slash hslash
      rw [hfront, parent_append hlast, ← List.cons_append, parent_append hlast]
      cases front with
      | nil => exact absurd (List.cons.inj hfront).1 hc
      | cons d front =>
        rw [← (List.cons.inj hfront).1]
        exact .slash hc
    · have htop := parent_append hslash []
      rw [List.nil_append] at htop
      rw [parent_of_not_mem hslash, htop]
      exact .same []

theorem append (h : SameButSlash folder folder') (more : List Char) :
    SameButSlash (folder ++ more) (folder' ++ more) := by
  cases h with
  | same => exact .same _
  | slash hc => exact .slash hc

theorem enter (h : SameButSlash folder folder') (piece : List Char) :
    SameButSlash (enter folder piece) (enter folder' piece) := by
  unfold Path.enter
  split
  · exact h.parent
  · exact h.append _

theorem foldl_enter (h : SameButSlash folder folder') (pieces : List (List Char)) :
    SameButSlash (pieces.foldl Path.enter folder) (pieces.foldl Path.enter folder') := by
  induction pieces generalizing folder folder' with
  | nil => exact h
  | cons piece rest ih => exact ih (h.enter piece)

theorem dropSlash_eq (h : SameButSlash folder folder') : dropSlash folder = dropSlash folder' := by
  cases h with
  | same => rfl
  | slash hc => exact dropSlash_cons hc _

theorem place_eq (h : SameButSlash folder folder') (path : List Char) :
    place folder path = place folder' path := by
  unfold place
  split
  · rfl
  · exact ((h.foldl_enter _).append _).dropSlash_eq
  · exact (h.append _).dropSlash_eq

end SameButSlash

/-- There is a text, not empty and without a slash in front, that both folders are, or are with one
slash in front of it. -/
def SlashApart (folder folder' : String) : Prop :=
  ∃ bare : String, bare ≠ "" ∧ bare.toList.head? ≠ some '/' ∧
    (folder = bare ∨ folder = "/" ++ bare) ∧ (folder' = bare ∨ folder' = "/" ++ bare)

theorem locate_slash {bare : String} (hne : bare ≠ "") (hbare : bare.toList.head? ≠ some '/')
    (path : String) : locate ("/" ++ bare) path = locate bare path := by
  have hfolders : SameButSlash bare.toList ("/" ++ bare).toList := by
    rw [String.toList_append]
    cases hcs : bare.toList with
    | nil => exact absurd (String.toList_eq_nil_iff.1 hcs) hne
    | cons c cs =>
      refine .slash ?_
      rintro rfl
      exact hbare (by rw [hcs]; rfl)
  unfold locate
  rw [hfolders.place_eq]

theorem SlashApart.locate_eq {folder folder' : String} (h : SlashApart folder folder')
    (path : String) : locate folder path = locate folder' path := by
  obtain ⟨bare, hne, hbare, hfolder, hfolder'⟩ := h
  have hslash := locate_slash hne hbare path
  rcases hfolder with rfl | rfl <;> rcases hfolder' with rfl | rfl <;> simp only [hslash]

end Path

/-- The fault without the folders that a missing file was searched for in. -/
def Fault.unsearched : Fault → Fault
  | .missing reference _ => .missing reference []
  | fault => fault

namespace Crawl

open IncludeGraph (crossed crossedFiles)

/-- The folders of the two setups are the same, each written with a slash in front or without. -/
structure Setup.SlashApart (s s' : Setup) : Prop where
  policy : s.policy = s'.policy
  base : Path.SlashApart s.base s'.base
  primary : Path.SlashApart s.roots.primary s'.roots.primary
  secondary : Path.SlashApart s.roots.secondary s'.roots.secondary

variable {s s' : Setup}

theorem Setup.SlashApart.samePlaces (h : s.SlashApart s') (ref : Reference) :
    Lookup.SamePlaces Fault.unsearched s s' ref := by
  refine ⟨?_, rfl⟩
  cases ref with
  | bundled path => simp [Reference.folders, h.primary.locate_eq, h.secondary.locate_eq]
  | absolute path => simp [Reference.folders, h.base.locate_eq]
  | relative path => simp [Reference.folders, h.base.locate_eq]

theorem Setup.SlashApart.parallel (h : s.SlashApart s') (c : Catalog) :
    Parallel s s' c Fault.unsearched (fun _ => True) (Progress.Alike Fault.unsearched) := by
  refine parallel_of_samePlaces h.policy (fun source _ => h.samePlaces _) ?_
  intro source q entries _ _ entry _ _
  trivial

/-- Whether the base and the roots are written with a slash in front makes no difference: a crawl makes
the same calls and comes to the same dependencies, to the same outcome and to the same warnings but
for the folders searched, and every reference is found at the same place. -/
theorem endsAlike_of_slashApart (h : s.SlashApart s') (c : Catalog) (sources : List String)
    (p : Progress) :
    EndsAlike Fault.unsearched s s' c sources p ∧
      ∀ ref t, (Lookup.find c s.roots s.base ref t).1.toOption =
        (Lookup.find c s'.roots s'.base ref t).1.toOption := by
  constructor
  · exact (h.parallel c).endsAlike (fun _ _ => trivial) p
  · intro ref t
    obtain ⟨hfound, -⟩ := Lookup.find_alike (c := c) (t := t) (h.samePlaces ref) rfl
    rw [← toOption_mapError Fault.unsearched, hfound, toOption_mapError]

/-- The setup of `crossed` with a slash in front of those folders that have none there, and without
one in front of the other folder. -/
def slashed : Setup :=
  ⟨⟨"/Packages/gen/Runtime/Sources", "Packages/shaders/Runtime"⟩, "/Assets", .omit⟩

theorem slashApart_slashed : crossed.setup.SlashApart slashed where
  policy := rfl
  base := ⟨"Assets", by decide, by decide, .inl rfl, .inr rfl⟩
  primary := ⟨"Packages/gen/Runtime/Sources", by decide, by decide, .inl rfl, .inr rfl⟩
  secondary := ⟨"Packages/shaders/Runtime", by decide, by decide, .inr rfl, .inl rfl⟩

theorem endsAlike_of_slashApart_crossed :
    crossed.setup.SlashApart slashed ∧
      (gather slashed crossedFiles ["A", "B"] {}).2.warnings =
        [.recursive "A" "B", .missing "Gone" ["/Assets"], .missing "Gone" ["/Assets"]] ∧
      EndsAlike Fault.unsearched crossed.setup slashed crossed.catalog ["A", "B"] {} ∧
      ∀ ref t, (Lookup.find crossed.catalog crossed.setup.roots crossed.setup.base ref t).1.toOption =
        (Lookup.find crossed.catalog slashed.roots slashed.base ref t).1.toOption :=
  ⟨slashApart_slashed, by decide,
    endsAlike_of_slashApart slashApart_slashed crossed.catalog ["A", "B"] {}⟩

end Crawl

end ShaderIncludes
