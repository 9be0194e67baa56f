import ShaderIncludes.Proofs.CallOrder
import ShaderIncludes.Proofs.Failure

/-!
# One reference, by every way in

A reference is looked up as it is, by its path with a word on whether that is bundled, to be read, or as
the source of a crawl. Main statement: all of them tell what it is alike, make the same calls for it, and
report the same fault when it is missing, by the text that was given (`entries_concordant`). A crawl that
has found its source can still report another reference, one that the source leads to
(`crawl_reports_another`).
-/
namespace ShaderIncludes

namespace Reference

/-- The reference is held in the form that its own text is read in. -/
def IsAsRead : Reference → Prop
  | .bundled _ => True
  | .absolute path => ['/'] <+: path.toList
  | .relative path => ¬ ['/'] <+: path.toList ∧ ¬ ['@', '/'] <+: path.toList

/-- To a caller who knows of the mark, a path is the reference that it is as a text. -/
theorem ofPath_eq_ofString (text : String) :
    ofPath text (decide (['@', '/'] <+: text.toList)) = ofString text := by
  by_cases hmark : ['@', '/'] <+: text.toList
  · rw [decide_eq_true hmark]
    obtain ⟨rest, hrest⟩ := hmark
    simp [ofPath, ofString, afterMark?, ← hrest]
  · rw [decide_eq_false hmark]
    simp [ofPath, ofString, afterMark?_eq_none hmark]

theorem ofString_cases (text : String) :
    (['@', '/'] <+: text.toList ∧ ∃ path, ofString text = .bundled path) ∨
      (['/'] <+: text.toList ∧ ofString text = .absolute text) ∨
      (¬ ['/'] <+: text.toList ∧ ¬ ['@', '/'] <+: text.toList) ∧ ofString text = .relative text := by
  by_cases hmark : ['@', '/'] <+: text.toList
  · obtain ⟨rest, hrest⟩ := id hmark
    exact .inl ⟨hmark, _, ofString_of_mark hrest.symm⟩
  by_cases hslash : ['/'] <+: text.toList
  · obtain ⟨rest, hrest⟩ := id hslash
    exact .inr (.inl ⟨hslash, ofString_of_slash hrest.symm⟩)
  · exact .inr (.inr ⟨⟨hslash, hmark⟩, ofString_eq_relative hmark hslash⟩)

theorem ofString_toString_iff (ref : Reference) : ofString ref.toString = ref ↔ ref.IsAsRead := by
  cases ref with
  | bundled path =>
    have hmark : (bundledMark ++ path).toList = '@' :: '/' :: path.toList := by simp [bundledMark]
    simp [Reference.toString, IsAsRead, ofString_of_mark hmark]
  | absolute path =>
    unfold Reference.toString IsAsRead
    rcases ofString_cases path with ⟨⟨rest, hrest⟩, other, h⟩ | ⟨hslash, h⟩ | ⟨⟨hslash, -⟩, h⟩ <;>
      rw [h]
    · simp [← hrest]
    · simp [hslash]
    · simp [hslash]
  | relative path =>
    unfold Reference.toString IsAsRead
    rcases ofString_cases path with ⟨hmark, other, h⟩ | ⟨hslash, h⟩ | ⟨hneither, h⟩ <;> rw [h]
    · simp [hmark]
    · simp [hslash]
    · simp [hneither]

end Reference

open Crawl

variable {c : Catalog} {roots : Roots} {base text : String} {ref : Reference} {t u : Trace}
  {fault : Fault}

namespace Lookup

theorem fault_of_find (h : find c roots base ref t = (.error fault, u)) :
    fault = .missing ref.toString (ref.folders roots base) := by
  unfold find at h
  dsimp only at h
  split at h <;> cases h
  rfl

theorem reference_of_find {reference : String} {searched : List String}
    (h : (find c roots base (.ofString text) t).1 = .error (.missing reference searched)) :
    reference = text := by
  rcases hfind : find c roots base (.ofString text) t with ⟨fault | place, u⟩ <;> rw [hfind] at h <;>
    cases h
  rw [(Fault.missing.inj (fault_of_find hfind)).1, Reference.toString_ofString]

theorem reference_of_readLines {reference : String} {searched : List String}
    (h : (readLines c roots base text t).1 = .error (.missing reference searched)) :
    reference = text := by
  rcases hfind : find c roots base (.ofString text) t with ⟨fault | place, u⟩
  · rw [readLines_of_missing hfind] at h
    have hfault : fault = .missing reference searched := Except.error.inj h
    rw [(Fault.missing.inj (hfault.symm.trans (fault_of_find hfind))).1, Reference.toString_ofString]
  · rw [readLines_of_found hfind] at h
    obtain ⟨cause, -, hcause⟩ := mapError_eq_error.1 h
    cases hcause

end Lookup

namespace Crawl

open Lookup (readLines)

/-- A crawl that is to stop at a missing file looks at a reference as a read does. -/
theorem fetch_abort (c : Catalog) (roots : Roots) (base source : String) (p : Progress) :
    fetch ⟨roots, base, .abort⟩ c source p =
      ((readLines c roots base source p.trace).1.map some,
        { p with trace := (readLines c roots base source p.trace).2 }) := by
  unfold fetch
  dsimp only
  rcases hfind : Lookup.find c roots base (.ofString source) p.trace with ⟨fault | place, u⟩
  · rw [Lookup.readLines_of_missing hfind]
    rfl
  · rw [Lookup.readLines_of_found hfind]
    rfl

theorem gatherWithin_singleton (depth : Nat) (s : Setup) (c : Catalog) (source : String)
    (p : Progress) : gatherWithin depth s c [source] p = expand s c depth [] source p := by
  unfold gatherWithin visitAll visitAll
  rcases expand s c depth [] source p with ⟨_ | _ | _, q⟩ <;> rfl

theorem gatherWithin_begins (c : Catalog) (roots : Roots) (base text : String) (depth : Nat)
    (p : Progress) : ∃ calls notes,
      (gatherWithin (depth + 1) ⟨roots, base, .abort⟩ c [text] p).2.trace =
        (readLines c roots base text p.trace).2.append ⟨calls, notes⟩ := by
  rw [gatherWithin_singleton]
  obtain ⟨calls, notes, htrace, -⟩ :=
    expand_succ_inOrder (s := ⟨roots, base, .abort⟩) (c := c) (expand_inOrder depth) [] text p
  rw [fetch_abort] at htrace
  exact ⟨calls, notes, htrace⟩

theorem gatherWithin_of_readLines {p : Progress}
    (h : readLines c roots base text p.trace = (.error fault, u)) (depth : Nat) :
    gatherWithin (depth + 1) ⟨roots, base, .abort⟩ c [text] p =
      (.failed fault, { p with trace := u }) := by
  rw [gatherWithin_singleton]
  unfold expand
  rw [fetch_abort, h]
  rfl

end Crawl

namespace IncludeGraph

variable {g : IncludeGraph} {reference : String} {searched : List String} {p q : Progress}

theorem eq_of_reaches (htext : g.place? text = none) (h : g.Reaches text reference) :
    reference = text := by
  rcases Relation.ReflTransGen.cases_head h with rfl | ⟨b, ⟨entries, hlist, -⟩, -⟩
  · rfl
  · obtain ⟨place, -, hplace, -⟩ := exists_text_of_node hlist
    rw [htext] at hplace
    cases hplace

/-- The missing file that a crawl of one source reports is one that the source leads to. -/
theorem reported_missing
    (h : Ends g.setup g.catalog [text] p (.error (.missing reference searched)) q) :
    g.Reaches text reference ∧ g.place? reference = none ∧
      (reference = text ↔ g.place? text = none) := by
  obtain ⟨source, hsource, a, hreach, hfails⟩ := exists_fails_of_ends h
  rw [List.mem_singleton] at hsource
  subst hsource
  cases hfails with
  | missing hplace hpolicy =>
    exact ⟨hreach, hplace, fun hsame => hsame ▸ hplace, fun htext => eq_of_reaches htext hreach⟩

end IncludeGraph

namespace Lookup

/-- What the ways of asking for one text have in common. A crawl stops at a missing file here, and may be
allowed any depth, so this goes for one without an end too. -/
structure Concordant (roots : Roots) (base text : String) : Prop where
  /-- The path, with a word on whether it has the mark of a bundled one, is looked up like the text. -/
  find_ofPath : ∀ (c : Catalog) (t : Trace),
    find c roots base (.ofPath text (decide (['@', '/'] <+: text.toList))) t =
      find c roots base (.ofString text) t
  /-- To read is to look up, and no more if there is no file. -/
  read_missing : ∀ (c : Catalog) (t u : Trace) (fault : Fault),
    find c roots base (.ofString text) t = (.error fault, u) →
      readLines c roots base text t = (.error fault, u)
  /-- Where there is a file it is read, once. -/
  read_found : ∀ (c : Catalog) (t u : Trace) (place : String),
    find c roots base (.ofString text) t = (.ok place, u) →
      readLines c roots base text t =
        ((c.lines u.calls place).mapError (.unreadable place), u.addCall (.read place))
  /-- A crawl begins with what is called and noted when the text is read. -/
  crawl_begins : ∀ (c : Catalog) (depth : Nat) (p : Progress), ∃ calls notes,
    (gatherWithin (depth + 1) ⟨roots, base, .abort⟩ c [text] p).2.trace =
      (readLines c roots base text p.trace).2.append ⟨calls, notes⟩
  /-- A crawl fails where reading the text does, with its fault and nothing else done. -/
  crawl_fails : ∀ (c : Catalog) (depth : Nat) (p : Progress) (fault : Fault) (u : Trace),
    readLines c roots base text p.trace = (.error fault, u) →
      gatherWithin (depth + 1) ⟨roots, base, .abort⟩ c [text] p =
        (.failed fault, { p with trace := u })
  /-- The file that is missing when the text is looked up is that of the text. -/
  find_reports : ∀ (c : Catalog) (t : Trace) (reference : String) (searched : List String),
    (find c roots base (.ofString text) t).1 = .error (.missing reference searched) →
      reference = text
  /-- So it is when the text is read. -/
  read_reports : ∀ (c : Catalog) (t : Trace) (reference : String) (searched : List String),
    (readLines c roots base text t).1 = .error (.missing reference searched) → reference = text
  /-- When files never change, the one that is missing in a crawl is one that the text leads to; it is
  that of the text itself if and only if there is no file for the text. -/
  crawl_reports : ∀ (present : String → Bool) (lines : String → Except String (List String))
    (p q : Progress) (reference : String) (searched : List String),
    let g : IncludeGraph := ⟨⟨roots, base, .abort⟩, present, lines⟩
    Ends g.setup g.catalog [text] p (.error (.missing reference searched)) q →
      g.Reaches text reference ∧ g.place? reference = none ∧
        (reference = text ↔ g.place? text = none)

/-- The ways of asking for a text agree. A reference that is not read from a text is told from its own
text again if and only if it is held in the form that this is read in. -/
theorem entries_concordant :
    (∀ (roots : Roots) (base text : String), Concordant roots base text) ∧
      ∀ ref : Reference, Reference.ofString ref.toString = ref ↔ ref.IsAsRead := by
  refine ⟨fun roots base text => ?_, Reference.ofString_toString_iff⟩
  exact {
    find_ofPath := fun c t => by rw [Reference.ofPath_eq_ofString]
    read_missing := fun _ _ _ _ => readLines_of_missing
    read_found := fun _ _ _ _ => readLines_of_found
    crawl_begins := fun c => gatherWithin_begins c roots base text
    crawl_fails := fun _ depth _ _ _ h => gatherWithin_of_readLines h depth
    find_reports := fun _ _ _ _ => reference_of_find
    read_reports := fun _ _ _ _ => reference_of_readLines
    crawl_reports := fun _ _ _ _ _ _ => IncludeGraph.reported_missing }

/-- A crawl whose source is found can report the file of another reference. -/
theorem crawl_reports_another :
    ¬ ∀ (roots : Roots) (base text : String) (files : Snapshot) (p : Progress) (reference : String)
      (searched : List String),
      (gather ⟨roots, base, .abort⟩ files [text] p).1 = .error (.missing reference searched) →
        reference = text := by
  intro h
  let files : Snapshot := Store.Memory.snapshot { files := [("B/A", listing ["Gone"])] }
  have hfault : (gather ⟨⟨"P", "S"⟩, "B", .abort⟩ files ["A"] {}).1 =
      .error (.missing "Gone" ["B"]) := by decide
  exact absurd (h ⟨"P", "S"⟩ "B" "A" files {} "Gone" ["B"] hfault) (by decide)

end Lookup

end ShaderIncludes
