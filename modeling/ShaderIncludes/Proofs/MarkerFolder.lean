import ShaderIncludes.Proofs.PieceStack
import ShaderIncludes.Roots

/-!
# Renaming the pieces of a path

The primary folder comes from the marker's by a replacement in its text, which knows nothing of
pieces. But a text with a slash in front and none behind it occurs exactly where a later piece
begins with what follows the slash, and it occurs there once. Main statement: the replacement
renames the beginning of each piece but the first and does nothing else, so that no occurrence is
left (`primary_by_pieces`).
-/
namespace ShaderIncludes

namespace Path

variable {old new piece path : List Char} {stack : List (List Char)}

/-- The pieces, each below a slash. -/
def below (stack : List (List Char)) : List Char := stack.flatMap ('/' :: ·)

/-- The piece with `new` for the `old` that it begins with, if it does. -/
def renameStart (old new piece : List Char) : List Char :=
  if old.isPrefixOf piece then new ++ piece.drop old.length else piece

/-- `renameStart` on the pieces of a path but the first. -/
def renameBelow (old new : List Char) : List (List Char) → List (List Char)
  | [] => []
  | first :: later => first :: later.map (renameStart old new)

/-! ## One piece -/

theorem renameStart_append (old new rest : List Char) :
    renameStart old new (old ++ rest) = new ++ rest := by
  rw [renameStart, if_pos (List.isPrefixOf_iff_prefix.2 (List.prefix_append old rest)),
    List.drop_left]

theorem renameStart_eq_self (new : List Char) (h : ¬ old <+: piece) :
    renameStart old new piece = piece :=
  if_neg fun hprefix => h (List.isPrefixOf_iff_prefix.1 hprefix)

/-- What a piece does not begin with it does not begin with in a path either. -/
theorem prefix_of_prefix_append_below (hold : '/' ∉ old) (h : old <+: piece ++ below stack) :
    old <+: piece := by
  rcases List.prefix_or_prefix_of_prefix h (List.prefix_append piece _) with hpiece | ⟨more, rfl⟩
  · exact hpiece
  · have hmore : more <+: below stack := (List.prefix_append_right_inj piece).1 h
    cases more with
    | nil => exact ⟨[], by rw [List.append_nil, List.append_nil]⟩
    | cons c more =>
      cases stack with
      | nil => exact absurd hmore.length_le (by simp [below])
      | cons next stack =>
        obtain rfl : c = '/' := (List.cons_prefix_cons.1 hmore).1
        exact absurd (List.mem_append_right piece List.mem_cons_self) hold

theorem not_mem_renameStart (hnew : '/' ∉ new) (hpiece : '/' ∉ piece) :
    '/' ∉ renameStart old new piece := by
  by_cases hprefix : old <+: piece
  · obtain ⟨rest, rfl⟩ := hprefix
    rw [renameStart_append, List.mem_append, not_or]
    exact ⟨hnew, fun hmem => hpiece (List.mem_append_right old hmem)⟩
  · rwa [renameStart_eq_self new hprefix]

theorem not_prefix_renameStart (hnew : ∀ rest, ¬ old <+: new ++ rest) :
    ¬ old <+: renameStart old new piece := by
  by_cases hprefix : old <+: piece
  · obtain ⟨rest, rfl⟩ := hprefix
    rw [renameStart_append]
    exact hnew rest
  · rwa [renameStart_eq_self new hprefix]

/-! ## All pieces -/

theorem join_cons (first : List Char) (later : List (List Char)) :
    join (first :: later) = first ++ below later := by
  induction later generalizing first with
  | nil => simp [join, below]
  | cons next later ih =>
    have hjoin : join (first :: next :: later) = first ++ ['/'] ++ join (next :: later) :=
      List.intercalate_cons_cons
    rw [hjoin, ih, List.append_assoc]
    rfl

theorem pieces_append_below (hpiece : '/' ∉ piece) (h : ∀ piece ∈ stack, '/' ∉ piece) :
    pieces (piece ++ below stack) = piece :: stack := by
  rw [← join_cons]
  exact pieces_join (List.cons_ne_nil _ _) (List.forall_mem_cons.2 ⟨hpiece, h⟩)

theorem exists_pieces (path : List Char) : ∃ first later, path = first ++ below later ∧
    '/' ∉ first ∧ (∀ piece ∈ later, '/' ∉ piece) ∧ pieces path = first :: later := by
  obtain ⟨first, later, hpieces⟩ := List.exists_cons_of_ne_nil (pieces_ne_nil path)
  have hslash : ∀ piece ∈ first :: later, '/' ∉ piece := by
    rw [← hpieces]
    exact fun _ => not_mem_of_mem_pieces
  obtain ⟨hfirst, hlater⟩ := List.forall_mem_cons.1 hslash
  refine ⟨first, later, ?_, hfirst, hlater, hpieces⟩
  rw [← join_cons, ← hpieces, join_pieces]

theorem replace_below (hold : '/' ∉ old) (h : ∀ piece ∈ stack, '/' ∉ piece) :
    Text.replace ('/' :: old) ('/' :: new) (below stack) =
      below (stack.map (renameStart old new)) := by
  induction stack with
  | nil => rfl
  | cons piece stack ih =>
    obtain ⟨hpiece, hstack⟩ := List.forall_mem_cons.1 h
    have hbelow : below (piece :: stack) = '/' :: (piece ++ below stack) := rfl
    have hrenamed : below ((piece :: stack).map (renameStart old new)) =
        '/' :: (renameStart old new piece ++ below (stack.map (renameStart old new))) := rfl
    rw [hbelow, hrenamed, ← ih hstack]
    by_cases hprefix : old <+: piece
    · obtain ⟨rest, rfl⟩ := hprefix
      have hrest : '/' ∉ rest := fun hmem => hpiece (List.mem_append_right old hmem)
      rw [renameStart_append, List.append_assoc, ← List.cons_append, Text.replace_append_self,
        Text.replace_append_of_not_mem hrest, List.append_assoc]
      rfl
    · -- no occurrence reaches over the next slash
      have hmiss : ¬ '/' :: old <+: '/' :: (piece ++ below stack) := fun hoccurs =>
        hprefix (prefix_of_prefix_append_below hold (List.cons_prefix_cons.1 hoccurs).2)
      rw [renameStart_eq_self new hprefix, Text.replace_cons _ hmiss,
        Text.replace_append_of_not_mem hpiece]

/-- To replace in the text what begins with a slash is to rename the later pieces. -/
theorem pieces_replace (hold : '/' ∉ old) (hnew : '/' ∉ new) (path : List Char) :
    pieces (Text.replace ('/' :: old) ('/' :: new) path) = renameBelow old new (pieces path) := by
  obtain ⟨first, later, rfl, hfirst, hlater, hpieces⟩ := exists_pieces path
  have hrenamed : ∀ piece ∈ later.map (renameStart old new), '/' ∉ piece := by
    intro piece hmem
    obtain ⟨before, hbefore, rfl⟩ := List.mem_map.1 hmem
    exact not_mem_renameStart hnew (hlater before hbefore)
  rw [Text.replace_append_of_not_mem hfirst, replace_below hold hlater,
    pieces_append_below hfirst hrenamed, hpieces]
  rfl

theorem exists_piece_of_infix (hold : '/' ∉ old) (h : '/' :: old <:+: path) :
    ∃ piece ∈ (pieces path).tail, old <+: piece := by
  obtain ⟨before, behind, rfl⟩ := h
  obtain ⟨first, later, rfl, hfirst, hlater, -⟩ := exists_pieces behind
  have hslash : '/' ∉ old ++ first := by
    rw [List.mem_append, not_or]
    exact ⟨hold, hfirst⟩
  have hbehind : pieces (old ++ (first ++ below later)) = (old ++ first) :: later := by
    rw [← List.append_assoc]
    exact pieces_append_below hslash hlater
  have hpieces : pieces (before ++ '/' :: old ++ (first ++ below later)) =
      pieces before ++ (old ++ first) :: later := by
    rw [List.append_assoc, List.cons_append, ← hbehind]
    exact List.splitOn_append_cons_self before _
  rw [hpieces, List.tail_append_of_ne_nil (pieces_ne_nil before)]
  exact ⟨old ++ first, List.mem_append_right _ List.mem_cons_self, List.prefix_append old first⟩

end Path

namespace Roots

open ShaderIncludes.Path (parent pieces renameStart renameBelow)

theorem pieces_primaryOf (marker : List Char) :
    pieces (primaryOf marker) =
      renameBelow "Resources".toList "Sources".toList (pieces (parent marker)) :=
  Path.pieces_replace (by decide) (by decide) (parent marker)

theorem not_infix_primaryOf (marker : List Char) :
    ¬ "/Resources".toList <:+: primaryOf marker := by
  intro hinfix
  have hapart : ∀ rest, ¬ "Resources".toList <+: "Sources".toList ++ rest := fun rest hprefix =>
    absurd (List.cons_prefix_cons.1 hprefix).1 (by decide)
  obtain ⟨piece, hmem, hprefix⟩ := Path.exists_piece_of_infix (by decide) hinfix
  rw [pieces_primaryOf] at hmem
  obtain ⟨first, later, hpieces⟩ := List.exists_cons_of_ne_nil (Path.pieces_ne_nil (parent marker))
  rw [hpieces] at hmem
  obtain ⟨before, -, rfl⟩ := List.mem_map.1 hmem
  exact Path.not_prefix_renameStart hapart hprefix

/-- The primary folder has as many pieces as the folder of the marker, and the first one is the
same. Each other one is the same too, but for a `Resources` that it begins with, which is `Sources`
then. So `/Resources` does not stand in the primary folder. -/
theorem primary_by_pieces (marker : String) :
    (('/' ∉ marker.toList ∧ parent marker.toList = []) ∨
      ∃ name, '/' ∉ name ∧ marker.toList = parent marker.toList ++ '/' :: name) ∧
    let folder := pieces (parent marker.toList)
    let primary := pieces (ofMarker marker).primary.toList
    primary.length = folder.length ∧ primary[0]? = folder[0]? ∧
    (∀ i rest, folder[i + 1]? = some ("Resources".toList ++ rest) →
      primary[i + 1]? = some ("Sources".toList ++ rest)) ∧
    (∀ i piece, folder[i + 1]? = some piece → ¬ "Resources".toList <+: piece →
      primary[i + 1]? = some piece) ∧
    ¬ "/Resources".toList <:+: (ofMarker marker).primary.toList := by
  refine ⟨Path.parent_cases marker.toList, ?_⟩
  intro folder primary
  have hprimary : (ofMarker marker).primary.toList = primaryOf marker.toList :=
    toList_primary_ofMarker marker
  obtain ⟨first, later, hfolder⟩ : ∃ first later, folder = first :: later :=
    List.exists_cons_of_ne_nil (Path.pieces_ne_nil _)
  have hrenamed : primary =
      first :: later.map (renameStart "Resources".toList "Sources".toList) := by
    unfold primary
    rw [hprimary, pieces_primaryOf]
    exact congrArg (renameBelow _ _) hfolder
  have hnone : ¬ "/Resources".toList <:+: (ofMarker marker).primary.toList := by
    rw [hprimary]
    exact not_infix_primaryOf marker.toList
  rw [hrenamed, hfolder]
  refine ⟨?_, rfl, ?_, ?_, hnone⟩
  · rw [List.length_cons, List.length_cons, List.length_map]
  · intro i rest hpiece
    rw [List.getElem?_cons_succ] at hpiece ⊢
    rw [List.getElem?_map, hpiece, Option.map_some, Path.renameStart_append]
  · intro i piece hpiece hprefix
    rw [List.getElem?_cons_succ] at hpiece ⊢
    rw [List.getElem?_map, hpiece, Option.map_some, Path.renameStart_eq_self _ hprefix]

/-- Of the pieces with `Resources` in them the first one stays, and so does one that ends in it. -/
theorem primary_by_pieces_repeated :
    let marker := "Resources/Resources/ResourcesResources/MyResources/Marker.txt"
    let folder := pieces (parent marker.toList)
    let primary := pieces (ofMarker marker).primary.toList
    folder[0]? = some "Resources".toList ∧ primary[0]? = folder[0]? ∧
      folder[2]? = some ("Resources".toList ++ "Resources".toList) ∧
      primary[2]? = some ("Sources".toList ++ "Resources".toList) ∧
      folder[3]? = some "MyResources".toList ∧ ¬ "Resources".toList <+: "MyResources".toList ∧
      primary[3]? = some "MyResources".toList ∧
      (ofMarker marker).primary = "Resources/Sources/SourcesResources/MyResources" := by
  intro marker folder primary
  obtain ⟨-, -, hfirst, hrenamed, hkept, -⟩ := primary_by_pieces marker
  have hsecond : folder[2]? = some ("Resources".toList ++ "Resources".toList) := by decide
  have hthird : folder[3]? = some "MyResources".toList := by decide
  have hbegins : ¬ "Resources".toList <+: "MyResources".toList := by decide
  exact ⟨by decide, hfirst, hsecond, hrenamed 1 _ hsecond, hthird, hbegins,
    hkept 2 _ hthird hbegins, by decide⟩

end Roots

end ShaderIncludes
