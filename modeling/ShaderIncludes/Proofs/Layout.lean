import ShaderIncludes.Includes
import ShaderIncludes.Proofs.Composition

/-!
# Layouts of include lists

The same list can be written in many ways: with quotes and commas anywhere, blanks around the entries,
blank lines and comments between them, and the braces on lines of their own or not. Main statement:
whatever the layout, what is read is the list that was written; and a list that has been read, taken
for a body, is read as itself (`layout_irrelevant`).
-/
namespace ShaderIncludes.Includes

open Body (Balanced Encloses chars keep)
open Directive (Belongs Opens Reading isBlankLine)
open Header (Arguments Form Opening isName)
open Text (Tight allBlank isBlank trim trimEnd)

/-- The text, with quotes and commas put in wherever one likes. -/
inductive Strewn : (text written : List Char) → Prop where
  | nil : Strewn [] []
  | keep {c text written} (h : Strewn text written) : Strewn (c :: text) (c :: written)
  | mark {c text written} (hmark : c = '"' ∨ c = ',') (h : Strewn text written) :
      Strewn text (c :: written)

/-- The text can be an entry: it is not empty and no comment, there are no blanks at its ends, and
nothing in it would be left out of a list. -/
structure IsListable (text : List Char) : Prop where
  ne_nil : text ≠ []
  tight : Tight text
  no_quote : '"' ∉ text
  no_comma : ',' ∉ text
  no_comment : ¬ ['/', '/'] <+: text

/-- The text of a line means nothing, or it means one entry. -/
inductive Means : (written : List Char) → (list : List String) → Prop where
  | blank {written} (hblank : allBlank written = true) : Means written []
  | comment {lead text} (hlead : allBlank lead = true) : Means (lead ++ '/' :: '/' :: text) []
  | entry {entry : String} {lead trail written} (hentry : IsListable entry.toList)
      (hlead : allBlank lead = true) (htrail : allBlank trail = true)
      (hwritten : Strewn (lead ++ entry.toList ++ trail) written) : Means written [entry]

/-- What of a line belongs to a list: the whole line, or the part behind the opening or before the
closing brace. -/
structure Row where
  written : List Char
  list : List String
  meaning : Means written list
  no_feed : '\n' ∉ written
  no_opening : '{' ∉ written
  no_closing : '}' ∉ written

/-- A list from behind its opening brace on: all on one line or on several ones, each time with some
text behind the closing brace. -/
inductive Block where
  | line (row : Row) (after : List Char) (no_feed : '\n' ∉ after)
  | lines (first : Row) (between : List Row) (last : Row) (after : List Char)

/-- Where the opening brace stands: on the line of the header, or at the beginning of a line that comes
behind blank ones. -/
inductive Brace where
  | here
  | below (blanks : List String) (lead : List Char) (hblanks : ∀ b ∈ blanks, isBlankLine b = true)
      (hlead : allBlank lead = true)

/-- A list with all that is arbitrary in the way it is written. -/
structure Layout where
  lead : List Char
  arguments : List Char
  params : Option String
  brace : Brace
  block : Block
  allBlank_lead : allBlank lead = true
  hasArguments : Arguments arguments params

namespace Block

/-- The text behind the opening brace on its line. -/
def behind : Block → List Char
  | .line row after _ => row.written ++ '}' :: after
  | .lines first .. => first.written

/-- The lines after that with the opening brace. -/
def more : Block → List String
  | .line .. => []
  | .lines _ between last after =>
    between.map (fun row => String.ofList row.written) ++ [String.ofList (last.written ++ '}' :: after)]

def list : Block → List String
  | .line row .. => row.list
  | .lines first between last _ => first.list ++ between.flatMap Row.list ++ last.list

end Block

namespace Layout

def head (l : Layout) : List Char := l.lead ++ directiveName.toList ++ l.arguments

def lines (l : Layout) : List String :=
  match l.brace with
  | .here => String.ofList (l.head ++ '{' :: l.block.behind) :: l.block.more
  | .below blanks lead _ _ =>
    String.ofList l.head ::
      (blanks ++ [String.ofList (lead ++ '{' :: l.block.behind)] ++ l.block.more)

end Layout

variable {text written lead blanks rest : List Char} {list : List String} {c : Char}

/-! ## Lines -/

theorem isSignificant_of_isBlank (h : isBlank c = true) : isSignificant c = true := by
  have hquote : c ≠ '"' := by
    rintro rfl
    revert h
    decide
  have hcomma : c ≠ ',' := by
    rintro rfl
    revert h
    decide
  simp [isSignificant, hquote, hcomma]

theorem filter_of_allBlank (h : allBlank blanks = true) :
    blanks.filter isSignificant = blanks :=
  List.filter_eq_self.2 fun c hc => isSignificant_of_isBlank (List.all_eq_true.1 h c hc)

theorem IsListable.filter_eq (h : IsListable text) : text.filter isSignificant = text := by
  apply List.filter_eq_self.2
  intro c hc
  have hquote : c ≠ '"' := fun he => h.no_quote (he ▸ hc)
  have hcomma : c ≠ ',' := fun he => h.no_comma (he ▸ hc)
  simp [isSignificant, hquote, hcomma]

theorem Strewn.filter_eq (h : Strewn text written) :
    written.filter isSignificant = text.filter isSignificant := by
  induction h with
  | nil => rfl
  | keep _ ih => rw [List.filter_cons, List.filter_cons, ih]
  | mark hmark _ ih =>
    rw [← ih]
    apply List.filter_cons_of_neg
    rcases hmark with rfl | rfl <;> decide

theorem clean_of_allBlank (h : allBlank written = true) : clean written = [] := by
  rw [clean, filter_of_allBlank h, Text.trim_of_allBlank h]

theorem clean_of_comment (hlead : allBlank lead = true) (text : List Char) :
    ['/', '/'] <+: clean (lead ++ '/' :: '/' :: text) := by
  have hslash : isBlank '/' = false := by decide
  have hfilter : (lead ++ '/' :: '/' :: text).filter isSignificant =
      lead ++ '/' :: '/' :: text.filter isSignificant := by
    rw [List.filter_append, filter_of_allBlank hlead, List.filter_cons_of_pos (by decide),
      List.filter_cons_of_pos (by decide)]
  have hend := Text.trimEnd_append_cons hslash ['/'] (text.filter isSignificant)
  rw [clean, hfilter, trim, Text.trimStart_append hlead, Text.trimStart_cons hslash]
  exact ⟨_, hend.symm⟩

theorem IsListable.clean_eq (h : IsListable text) {trail : List Char} (hlead : allBlank lead = true)
    (htrail : allBlank trail = true) (hwritten : Strewn (lead ++ text ++ trail) written) :
    clean written = text := by
  rw [clean, hwritten.filter_eq, List.filter_append, List.filter_append, filter_of_allBlank hlead,
    filter_of_allBlank htrail, h.filter_eq]
  exact Text.trim_padded hlead htrail h.tight

theorem IsListable.isEntry (h : IsListable text) : isEntry text = true := by
  have hcomment : ['/', '/'].isPrefixOf text = false :=
    Bool.eq_false_iff.2 fun hslashes => h.no_comment (List.isPrefixOf_iff_prefix.1 hslashes)
  simp [Includes.isEntry, h.ne_nil, hcomment]

/-- A list is not changed by blanks at the end of a line. -/
theorem clean_trimEnd (written : List Char) : clean (trimEnd written) = clean written := by
  obtain ⟨after, hafter, hwritten⟩ := Text.exists_trimEnd written
  have hfilter := congrArg (List.filter isSignificant) hwritten
  rw [List.filter_append, filter_of_allBlank hafter] at hfilter
  rw [clean, clean, hfilter, Text.trim_append hafter]

theorem entries_append (body more : List String) :
    entries (body ++ more) = entries body ++ entries more := by
  simp [entries]

theorem entries_of_not_isEntry (h : isEntry (clean written) = false) :
    entries [String.ofList written] = [] := by
  simp [entries, h]

theorem Means.entries_eq (h : Means written list) : entries [String.ofList written] = list := by
  cases h with
  | blank hblank => exact entries_of_not_isEntry (by rw [clean_of_allBlank hblank]; rfl)
  | @comment lead text hlead =>
    have hcomment := clean_of_comment hlead text
    exact entries_of_not_isEntry (by simp [isEntry, hcomment])
  | @entry entry lead trail _ hentry hlead htrail hwritten =>
    have hclean := hentry.clean_eq hlead htrail hwritten
    simp [entries, hclean, hentry.isEntry]

/-- The outer pieces of a body that are not kept have no entries. -/
theorem entries_keep (piece : List Char) : entries (keep piece) = entries [String.ofList piece] := by
  unfold keep
  split
  · rename_i hblank
    exact (Means.blank hblank).entries_eq.symm
  · rfl

theorem Row.entries_keep (row : Row) : entries (keep row.written) = row.list := by
  rw [Includes.entries_keep, row.meaning.entries_eq]

theorem Row.entries_keep_trimEnd (row : Row) : entries (keep (trimEnd row.written)) = row.list := by
  rw [Includes.entries_keep, ← row.meaning.entries_eq]
  simp [entries, clean_trimEnd]

theorem entries_rows (rows : List Row) :
    entries (rows.map fun row => String.ofList row.written) = rows.flatMap Row.list := by
  induction rows with
  | nil => rfl
  | cons row rest ih =>
    rw [List.map_cons, List.flatMap_cons, ← ih, ← row.meaning.entries_eq]
    exact entries_append [_] _

/-! ## Blocks -/

theorem Row.balanced_of_prefix (row : Row) (h : text <+: row.written) : Balanced text :=
  Body.balanced_of_not_mem (fun hmem => row.no_opening (h.subset hmem))
    fun hmem => row.no_closing (h.subset hmem)

theorem Row.balanced (row : Row) : Balanced row.written :=
  row.balanced_of_prefix (List.prefix_refl _)

theorem balanced_rows (rows : List Row) :
    Balanced (chars (rows.map fun row => String.ofList row.written)) := by
  induction rows with
  | nil => exact Body.balanced_of_not_mem List.not_mem_nil List.not_mem_nil
  | cons row rest ih =>
    rw [List.map_cons, Body.chars_cons, String.toList_ofList]
    exact row.balanced.append ih

theorem Block.no_feed_behind (block : Block) : '\n' ∉ block.behind := by
  cases block with
  | line row after hafter =>
    have hbrace : '\n' ≠ '}' := by decide
    simp [behind, row.no_feed, hafter, hbrace]
  | lines first => exact first.no_feed

/-- The block behind the opening brace has a body with its list, also when the end of the line with
that brace has been trimmed. -/
theorem Block.exists_encloses (block : Block)
    (h : rest = block.behind ∨ rest = trimEnd block.behind) :
    ∃ body, Encloses rest block.more body ∧ entries body = block.list := by
  cases block with
  | line row after _ =>
    obtain ⟨after', hrest⟩ : ∃ after', rest = row.written ++ '}' :: after' := by
      rcases h with rfl | rfl
      · exact ⟨after, rfl⟩
      · exact ⟨trimEnd after, Text.trimEnd_append_cons (by decide) _ _⟩
    exact ⟨keep row.written, .atOnce hrest row.balanced, row.entries_keep⟩
  | lines first between last after =>
    have hlast : (String.ofList (last.written ++ '}' :: after)).toList = last.written ++ '}' :: after :=
      String.toList_ofList
    obtain ⟨hstart, hfirst⟩ : rest <+: first.written ∧ entries (keep rest) = first.list := by
      rcases h with rfl | rfl
      · exact ⟨List.prefix_refl _, first.entries_keep⟩
      · exact ⟨Text.trimEnd_prefix _, first.entries_keep_trimEnd⟩
    have hbalanced :=
      ((first.balanced_of_prefix hstart).append (balanced_rows between)).append last.balanced
    refine ⟨_, .later hlast hbalanced, ?_⟩
    rw [entries_append, entries_append, hfirst, entries_rows, last.entries_keep]
    rfl

/-! ## Headers -/

theorem isName_directiveName : isName directiveName.toList = true := by decide

/-- What is left of the header's line, with the blanks in front and at its end taken off. -/
theorem Layout.trim_head (l : Layout) (text : List Char) :
    trim (l.lead ++ directiveName.toList ++ text) = directiveName.toList ++ trimEnd text := by
  have hfirst : directiveName.toList = '%' :: "Includes".toList := by decide
  have hlast : directiveName.toList = "%Include".toList ++ ['s'] := by decide
  have hstart : Text.trimStart (directiveName.toList ++ text) = directiveName.toList ++ text := by
    rw [hfirst]
    exact Text.trimStart_cons (by decide) _
  rw [List.append_assoc, trim, Text.trimStart_append l.allBlank_lead, hstart, hlast,
    List.append_assoc, List.append_assoc]
  exact Text.trimEnd_append_cons (by decide) _ text

theorem not_mem_head {arguments : List Char} {params : Option String}
    (h : Arguments arguments params) : '{' ∉ directiveName.toList ++ arguments := by
  simp [Header.not_mem_of_isName isName_directiveName, h.not_mem]

theorem form_head {arguments opening : List Char} {params rest : Option String}
    (h : Arguments arguments params) (hopening : Opening opening rest) :
    Form (directiveName.toList ++ arguments ++ opening) ⟨directiveName, params, rest⟩ := by
  have hform := Form.intro isName_directiveName h hopening
  rwa [String.ofList_toList] at hform

/-- A header and what belongs to it make a file of one directive. -/
theorem parse_of_belongs {file line : String} {taken body : List String} {header : Header}
    (hheader : Form (trim line.toList) header) (hbelongs : Belongs (trim line.toList) taken body []) :
    Directive.parse file (line :: taken) =
      .ok [⟨header.name, header.params, body, 1⟩] := by
  have hreading : Reading 1 (line :: (taken ++ []))
      (.ok [⟨header.name, header.params, body, 1⟩]) :=
    .directive hheader.isMarked hheader hbelongs .finish
  rw [List.append_nil] at hreading
  exact Directive.parse_eq_ok_iff.2 hreading

theorem Layout.exists_parse (file : String) (l : Layout) :
    ∃ body, Directive.parse file l.lines = .ok [⟨directiveName, l.params, body, 1⟩] ∧
      entries body = l.block.list := by
  unfold lines
  cases l.brace with
  | here =>
    obtain ⟨body, hencloses, hentries⟩ := l.block.exists_encloses (.inr rfl)
    have hfeed : '\n' ∉ trimEnd l.block.behind := fun hmem =>
      l.block.no_feed_behind ((Text.trimEnd_prefix _).subset hmem)
    have htrim : trim (String.ofList (l.head ++ '{' :: l.block.behind)).toList =
        directiveName.toList ++ l.arguments ++ '{' :: trimEnd l.block.behind := by
      rw [String.toList_ofList, head, List.append_assoc _ l.arguments, l.trim_head,
        Text.trimEnd_append_cons (by decide), List.append_assoc]
    have hheader := form_head l.hasArguments (.present hfeed)
    have hopens := Opens.here (not_mem_head l.hasArguments) htrim
    rw [← htrim] at hheader
    exact ⟨body, parse_of_belongs hheader (.body hopens hencloses), hentries⟩
  | below blanks lead hblanks hlead =>
    obtain ⟨body, hencloses, hentries⟩ := l.block.exists_encloses (.inl rfl)
    have htrim : trim (String.ofList l.head).toList =
        directiveName.toList ++ trimEnd l.arguments := by
      rw [String.toList_ofList]
      exact l.trim_head l.arguments
    have hheader := form_head l.hasArguments.trimEnd .absent
    have hopens := Opens.below (not_mem_head l.hasArguments.trimEnd) hblanks hlead
      (String.toList_ofList (l := lead ++ '{' :: l.block.behind))
    rw [List.append_nil, ← htrim] at hheader
    rw [← htrim] at hopens
    exact ⟨body, parse_of_belongs hheader (.body hopens hencloses), hentries⟩

/-! ## Lists that have been read -/

theorem clean_clean (line : List Char) : clean (clean line) = clean line := by
  obtain ⟨before, after, -, -, hline⟩ := Text.exists_trim (line.filter isSignificant)
  have hsignificant : ∀ c ∈ clean line, isSignificant c = true := by
    intro c hc
    have hmem : c ∈ line.filter isSignificant := by
      rw [hline]
      exact List.mem_append_left _ (List.mem_append_right _ hc)
    exact (List.mem_filter.1 hmem).2
  rw [clean, List.filter_eq_self.2 hsignificant]
  exact Text.trim_of_tight (Text.tight_trim _)

theorem entries_entries (body : List String) : entries (entries body) = entries body := by
  induction body with
  | nil => rfl
  | cons line rest ih =>
    have hline : entries (entries [line]) = entries [line] := by
      cases hentry : isEntry (clean line.toList) with
      | false => simp [entries, hentry]
      | true => simp [entries, hentry, clean_clean]
    have hsplit : entries (line :: rest) = entries [line] ++ entries rest := entries_append [line] rest
    rw [hsplit, entries_append, hline, ih]

/-- Whatever the layout of a list, a file of that list alone is read as one directive, and its entries
are those of the list in order. The entries of any body, taken for a body in turn, are the entries
of that. -/
theorem layout_irrelevant :
    (∀ (file : String) (l : Layout), ∃ body,
      Directive.parse file l.lines = .ok [⟨directiveName, l.params, body, 1⟩] ∧
        entries body = l.block.list) ∧
    ∀ body, entries (entries body) = entries body :=
  ⟨fun file l => l.exists_parse file, entries_entries⟩

/-- The first entry stands on the line of the opening brace, the last one before the closing one. -/
example :
    let first : Row := ⟨" \"B\",".toList, ["B"],
      @Means.entry "B" [' '] [] _ ⟨by decide, by decide, by decide, by decide, by decide⟩ rfl rfl
        (.keep (.mark (.inl rfl) (.keep (.mark (.inl rfl) (.mark (.inr rfl) .nil))))),
      by decide, by decide, by decide⟩
    let remark : Row := ⟨"  // \"none\"".toList, [], @Means.comment [' ', ' '] _ rfl,
      by decide, by decide, by decide⟩
    let last : Row := ⟨"self ".toList, ["self"],
      @Means.entry "self" [] [' '] _ ⟨by decide, by decide, by decide, by decide, by decide⟩ rfl rfl
        (.keep (.keep (.keep (.keep (.keep .nil))))),
      by decide, by decide, by decide⟩
    let l : Layout := ⟨[], "()".toList, some "", .below [""] [' ', ' '] (by decide) rfl,
      .lines first [remark] last [], rfl, @Arguments.present [] [] [] rfl List.not_mem_nil rfl⟩
    l.lines = ["%Includes()", "", "  \x7b \"B\",", "  // \"none\"", "self \x7d"] ∧
      l.block.list = ["B", "self"] := by
  decide

end ShaderIncludes.Includes
