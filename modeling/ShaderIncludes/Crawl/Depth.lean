import ShaderIncludes.Crawl.Expand

/-!
# How deep a crawl can go

A reference under expansion is not expanded again below itself, and all references below a source
are entries of include lists. So no more references are under expansion at once than there are
entries in all lists, and a source on top. Main statement: a crawl of finitely many files that is
allowed to go so deep does not end for want of depth (`gatherWithin_ne_tooDeep`).
-/
namespace ShaderIncludes.Crawl

/-- The entries, `self` aside, of the include list of a text. -/
def entriesOf (text : List String) : List String :=
  match Includes.ofLines "" text with
  | .ok (some entries) => entries.filter (· ≠ Includes.selfEntry)
  | _ => []

/-- The entries, `self` aside, of all include lists, each once. -/
def allEntries (texts : List (List String)) : Dependencies := .ofList (texts.flatMap entriesOf)

/-- How many references can be under expansion at once. -/
def depthBound (texts : List (List String)) : Nat := (allEntries texts).length + 1

theorem mem_allEntries {texts : List (List String)} {a : String} :
    a ∈ allEntries texts ↔ ∃ text ∈ texts, a ∈ entriesOf text := by
  simp [allEntries, Dependencies.ofList]

theorem mem_entriesOf {file : String} {text entries : List String} {a : String}
    (h : Includes.ofLines file text = .ok (some entries)) (ha : a ∈ entries)
    (hself : a ≠ Includes.selfEntry) : a ∈ entriesOf text := by
  unfold entriesOf
  simp [Includes.ofLines_congr "" h, ha, hself]

/-- The text of a reference is that of some file, or empty. -/
theorem mem_texts_of_fetch {s : Setup} {files : Snapshot} {source : String} {p q : Progress}
    {text : List String} (h : fetch s files.catalog source p = (.ok (some text), q)) :
    text ∈ files.texts ∨ text = [] := by
  unfold fetch at h
  split at h
  · obtain ⟨hread, -⟩ := Prod.ext_iff.1 h
    obtain ⟨t, ht, hsome⟩ := map_eq_ok.1 hread
    cases hsome
    exact .inl (files.mem_texts (mapError_eq_ok.1 ht))
  · split at h <;> simp_all

theorem mem_allEntries_of_fetch {s : Setup} {files : Snapshot} {source : String}
    {p q : Progress} {text entries : List String} {a : String}
    (hf : fetch s files.catalog source p = (.ok (some text), q))
    (hi : Includes.ofLines source text = .ok (some entries)) (ha : a ∈ entries)
    (hself : a ≠ Includes.selfEntry) : a ∈ allEntries files.texts := by
  rcases mem_texts_of_fetch hf with ht | rfl
  · exact mem_allEntries.2 ⟨text, ht, mem_entriesOf hi ha hself⟩
  · cases hi

/-- How many of the references are not on the stack. -/
def unvisited (all stack : List String) : Nat := (all.filter (· ∉ stack)).length

theorem unvisited_cons_lt {all stack : List String} {a : String} (ha : a ∈ all) (hs : a ∉ stack) :
    unvisited all (a :: stack) < unvisited all stack := by
  have h : all.filter (· ∉ a :: stack) = (all.filter (· ∉ stack)).filter (· ≠ a) := by
    rw [List.filter_filter]
    congr 1; funext b
    by_cases hb : b = a <;> simp [hb]
  unfold unvisited
  rw [h, List.length_filter_lt_length_iff_exists]
  exact ⟨a, List.mem_filter.2 ⟨ha, by simpa using hs⟩, by simp⟩

theorem follow_ne_tooDeep {visit : String → Progress → Ending × Progress} {source : String}
    {stack entries : List String}
    (h : ∀ a ∈ entries, a ≠ Includes.selfEntry → a ∉ stack → ∀ p, (visit a p).1 ≠ .tooDeep)
    (p : Progress) : (follow visit source stack entries p).1 ≠ .tooDeep := by
  induction entries generalizing p with
  | nil => simp [follow]
  | cons a rest ih =>
    have hrest := fun p => ih (fun b hb => h b (List.mem_cons_of_mem _ hb)) p
    unfold follow
    split; · exact hrest _
    split; · exact hrest _
    split; · exact hrest _
    rename_i hself _ hstack
    have ha := h a List.mem_cons_self hself hstack { p with deps := [] }
    split
    · exact hrest _
    · rename_i ending q _ hv
      simpa [hv] using ha

/-- With `all` holding every entry, depth for the entries not on the stack suffices below a
reference that is one of them. -/
theorem expand_ne_tooDeep {s : Setup} {files : Snapshot} {depth : Nat} {stack : List String}
    {source : String} (hs : source ∉ stack)
    (hd : unvisited (allEntries files.texts) (source :: stack) < depth) (p : Progress) :
    (expand s files.catalog depth stack source p).1 ≠ .tooDeep := by
  induction depth generalizing stack source p with
  | zero => omega
  | succ depth ih =>
    unfold expand
    split
    · simp
    · simp
    · rename_i text q hf
      split
      · simp
      · simp
      · rename_i entries hi
        refine follow_ne_tooDeep (fun a ha hself hstack r => ih hstack ?_ r) q
        have := unvisited_cons_lt (mem_allEntries_of_fetch hf hi ha hself) hstack
        omega

theorem visitAll_ne_tooDeep {visit : String → Progress → Ending × Progress}
    {sources : List String} (h : ∀ a ∈ sources, ∀ p, (visit a p).1 ≠ .tooDeep) (p : Progress) :
    (visitAll visit sources p).1 ≠ .tooDeep := by
  induction sources generalizing p with
  | nil => simp [visitAll]
  | cons a rest ih =>
    unfold visitAll
    split
    · exact ih (fun b hb => h b (List.mem_cons_of_mem _ hb)) _
    · rename_i ending q _ hv
      simpa [hv] using h a List.mem_cons_self p

/-- The depth allowed for is never too small. -/
theorem gatherWithin_ne_tooDeep (s : Setup) (files : Snapshot) (sources : List String)
    (p : Progress) :
    (gatherWithin (depthBound files.texts) s files.catalog sources p).1 ≠ .tooDeep := by
  refine visitAll_ne_tooDeep (fun a _ p => expand_ne_tooDeep (by simp) ?_ p) p
  have h : unvisited (allEntries files.texts) [a] ≤ (allEntries files.texts).length :=
    List.length_filter_le _ _
  exact Nat.lt_succ_of_le h

end ShaderIncludes.Crawl
