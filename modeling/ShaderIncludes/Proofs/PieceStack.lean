import ShaderIncludes.Proofs.CallOrder

/-!
# Walks on a stack of pieces

A walk edits text: `..` cuts the folder at its last slash, whatever stands before it, and any other
piece is put behind one more slash. Cut into pieces, the folder is a stack, of which `..` takes the
last piece off. Main statement: the walk is that of the stack, also where it goes above the first
piece; so from a folder of named pieces those are left that the path does not go up from
(`walk_on_stack`).
-/
namespace ShaderIncludes

namespace Path

/-- The pieces that the slashes part a path into. There is always one. -/
def pieces (path : List Char) : List (List Char) := path.splitOn '/'

/-- The path with these pieces. -/
def join (stack : List (List Char)) : List Char := List.intercalate ['/'] stack

/-- `enter` on the pieces of a folder: `..` takes the last one off, and leaves the empty piece where
there is only one; any other piece is put on. -/
def enterStack (stack : List (List Char)) (piece : List Char) : List (List Char) :=
  if piece = ['.', '.'] then
    match stack with
    | [_] => [[]]
    | _ => stack.dropLast
  else stack ++ [piece]

/-- `walk` on the pieces of the base. -/
def walkStack (base path : List Char) : List (List Char) :=
  (pieces path).dropLast.foldl enterStack (pieces base) ++ [(pieces path).getLastD []]

/-- A piece that can be the name of a folder or a file. -/
def IsName (piece : List Char) : Prop := piece ≠ [] ∧ '/' ∉ piece

instance (piece : List Char) : Decidable (IsName piece) := inferInstanceAs (Decidable (_ ∧ _))

variable {base path folder piece : List Char} {stack folders tail : List (List Char)} {ups : Nat}

/-! ## Paths and their pieces -/

theorem join_pieces (path : List Char) : join (pieces path) = path := List.intercalate_splitOn '/'

theorem pieces_join (hne : stack ≠ []) (h : ∀ piece ∈ stack, '/' ∉ piece) :
    pieces (join stack) = stack :=
  List.splitOn_intercalate '/' h hne

theorem pieces_ne_nil (path : List Char) : pieces path ≠ [] := List.splitOn_ne_nil '/' path

theorem pieces_of_not_mem (h : '/' ∉ path) : pieces path = [path] := List.splitOn_eq_singleton h

theorem pieces_cons_slash (path : List Char) : pieces ('/' :: path) = [] :: pieces path :=
  List.splitOn_append_cons_self_of_not_mem List.not_mem_nil path

theorem pieces_append (folder : List Char) (h : '/' ∉ piece) :
    pieces (folder ++ '/' :: piece) = pieces folder ++ [piece] := by
  unfold pieces
  rw [List.splitOn_append_cons_self, List.splitOn_eq_singleton h]

/-- A path is one piece, or a path with one piece more. -/
@[elab_as_elim]
theorem pieceInduction {motive : List Char → Prop} (single : ∀ piece, '/' ∉ piece → motive piece)
    (more : ∀ front last, '/' ∉ last → motive front → motive (front ++ '/' :: last))
    (path : List Char) : motive path := by
  induction hlength : path.length using Nat.strongRecOn generalizing path with
  | ind length ih =>
    by_cases hslash : '/' ∈ path
    · obtain ⟨front, last, rfl, hlast⟩ := exists_last_slash hslash
      refine more front last hlast (ih front.length ?_ front rfl)
      rw [← hlength, List.length_append, List.length_cons]
      omega
    · exact single path hslash

theorem not_mem_of_mem_pieces (h : piece ∈ pieces path) : '/' ∉ piece := by
  induction path using pieceInduction with
  | single path hslash =>
    rw [pieces_of_not_mem hslash, List.mem_singleton] at h
    rw [h]
    exact hslash
  | more front last hlast ih =>
    rw [pieces_append front hlast] at h
    rcases List.mem_append.1 h with hfront | hpiece
    · exact ih hfront
    · rw [List.mem_singleton.1 hpiece]
      exact hlast

/-! ## Text and stack side by side -/

theorem enterStack_only (piece : List Char) : enterStack [piece] ['.', '.'] = [[]] := rfl

theorem enterStack_up (first second : List Char) (rest : List (List Char)) :
    enterStack (first :: second :: rest) ['.', '.'] = (first :: second :: rest).dropLast := rfl

theorem enterStack_of_ne (stack : List (List Char)) (h : piece ≠ ['.', '.']) :
    enterStack stack piece = stack ++ [piece] :=
  if_neg h

theorem pieces_parent (folder : List Char) :
    pieces (parent folder) = enterStack (pieces folder) ['.', '.'] := by
  by_cases hslash : '/' ∈ folder
  · obtain ⟨front, last, rfl, hlast⟩ := exists_last_slash hslash
    rw [parent_append hlast, pieces_append front hlast]
    match pieces front, pieces_ne_nil front with
    | [first], _ => rfl
    | first :: second :: rest, _ => exact List.dropLast_concat.symm
  · rw [parent_of_not_mem hslash, pieces_of_not_mem hslash]
    rfl

theorem pieces_enter (folder : List Char) (h : '/' ∉ piece) :
    pieces (enter folder piece) = enterStack (pieces folder) piece := by
  by_cases hup : piece = ['.', '.']
  · rw [hup, enter, if_pos rfl, pieces_parent]
  · rw [enter, if_neg hup, enterStack_of_ne _ hup, pieces_append folder h]

theorem pieces_foldl_enter (folder : List Char) (h : ∀ piece ∈ stack, '/' ∉ piece) :
    pieces (stack.foldl enter folder) = stack.foldl enterStack (pieces folder) := by
  induction stack generalizing folder with
  | nil => rfl
  | cons piece rest ih =>
    obtain ⟨hpiece, hrest⟩ := List.forall_mem_cons.1 h
    rw [List.foldl_cons, List.foldl_cons, ih _ hrest, pieces_enter folder hpiece]

theorem not_mem_getLastD_pieces (path : List Char) : '/' ∉ (pieces path).getLastD [] := by
  rw [List.getLastD_eq_getLast?, List.getLast?_eq_some_getLast (pieces_ne_nil path)]
  exact not_mem_of_mem_pieces (List.getLast_mem (pieces_ne_nil path))

theorem not_mem_of_mem_dropLast_pieces (h : piece ∈ (pieces path).dropLast) : '/' ∉ piece :=
  not_mem_of_mem_pieces ((List.dropLast_sublist _).mem h)

theorem pieces_walk (base path : List Char) : pieces (walk base path) = walkStack base path := by
  unfold walkStack
  rw [← pieces_foldl_enter base fun _ => not_mem_of_mem_dropLast_pieces]
  exact pieces_append _ (not_mem_getLastD_pieces path)

theorem walk_eq_join (base path : List Char) : walk base path = join (walkStack base path) := by
  rw [← pieces_walk, join_pieces]

/-! ## Up from a folder of named pieces -/

theorem foldl_enterStack_replicate (hne : stack ≠ []) (ups : Nat) :
    (List.replicate ups ['.', '.']).foldl enterStack stack =
      if ups < stack.length then stack.take (stack.length - ups) else [[]] := by
  induction ups generalizing stack with
  | zero =>
    rw [if_pos (List.length_pos_iff.2 hne)]
    exact List.take_length.symm
  | succ ups ih =>
    rw [List.replicate_succ, List.foldl_cons]
    match stack, hne with
    | [piece], _ =>
      rw [enterStack_only, ih (List.cons_ne_nil _ _)]
      cases ups <;> rfl
    | first :: second :: rest, _ =>
      have hleft : (first :: second :: rest).dropLast ≠ [] := List.cons_ne_nil _ _
      rw [enterStack_up, ih hleft, List.length_dropLast, List.dropLast_eq_take, List.take_take]
      split
      · rw [if_pos (by omega)]
        congr 1
        omega
      · rw [if_neg (by omega)]

theorem foldl_enterStack_of_ne (stack : List (List Char)) (h : ∀ piece ∈ tail, piece ≠ ['.', '.']) :
    tail.foldl enterStack stack = stack ++ tail := by
  induction tail generalizing stack with
  | nil => exact (List.append_nil stack).symm
  | cons piece rest ih =>
    obtain ⟨hpiece, hrest⟩ := List.forall_mem_cons.1 h
    rw [List.foldl_cons, ih _ hrest, enterStack_of_ne stack hpiece, List.append_assoc]
    rfl

/-- What is left of the folders after going up, perhaps below an empty piece, which stands for the
slash in front or for the top that the walk has come to. -/
theorem climb_cases (hbase : base = join folders ∨ base = '/' :: join folders)
    (hfolders : ∀ piece ∈ folders, IsName piece) (hups : 0 < ups) :
    let left := folders.take (folders.length - ups)
    let stack := (List.replicate ups ['.', '.']).foldl enterStack (pieces base)
    stack = left ∨ stack = [] :: left := by
  dsimp only
  rw [foldl_enterStack_replicate (pieces_ne_nil base)]
  by_cases hnil : folders = []
  · -- no folder is one empty piece, and the slash alone two
    subst hnil
    right
    rw [List.take_nil]
    rcases hbase with rfl | rfl
    · exact if_neg (Nat.not_lt.2 hups)
    · obtain ⟨n, rfl⟩ := Nat.exists_eq_add_of_le' hups
      cases n <;> rfl
  · have hpieces := pieces_join hnil (fun piece hpiece => (hfolders piece hpiece).2)
    rcases hbase with rfl | rfl
    · rw [hpieces]
      split
      · exact .inl rfl
      · exact .inr (by rw [Nat.sub_eq_zero_of_le (by omega), List.take_zero])
    · rw [pieces_cons_slash, hpieces, List.length_cons]
      right
      split
      · rw [Nat.sub_add_comm (by omega), List.take_succ_cons]
      · rw [Nat.sub_eq_zero_of_le (by omega), List.take_zero]

theorem dropSlash_join (hne : stack ≠ []) (h : ∀ piece ∈ stack, IsName piece) :
    dropSlash (join stack) = join stack := by
  obtain ⟨piece, rest, rfl⟩ := List.exists_cons_of_ne_nil hne
  obtain ⟨⟨hpiece, hslash⟩, -⟩ := List.forall_mem_cons.1 h
  obtain ⟨c, cs, rfl⟩ := List.exists_cons_of_ne_nil hpiece
  have hc : c ≠ '/' := fun hc => hslash (hc ▸ List.mem_cons_self)
  have hjoin : ∃ more, join ((c :: cs) :: rest) = c :: more := by
    cases rest with
    | nil => exact ⟨cs, List.intercalate_singleton⟩
    | cons next rest => exact ⟨_, List.intercalate_cons_cons⟩
  obtain ⟨more, hmore⟩ := hjoin
  rw [hmore, dropSlash_cons hc]

theorem dropSlash_join_cons (hne : stack ≠ []) : dropSlash (join ([] :: stack)) = join stack := by
  have hjoin : join ([] :: stack) = '/' :: join stack := List.intercalate_cons_of_ne_nil hne
  rw [hjoin]
  rfl

theorem walkStack_of_pieces (base : List Char)
    (hpath : pieces path = List.replicate ups ['.', '.'] ++ tail) (htail : tail ≠ [])
    (hnames : ∀ piece ∈ tail, piece ≠ ['.', '.']) :
    walkStack base path =
      (List.replicate ups ['.', '.']).foldl enterStack (pieces base) ++ tail := by
  have hothers : ∀ piece ∈ tail.dropLast, piece ≠ ['.', '.'] :=
    fun piece hpiece => hnames piece ((List.dropLast_sublist tail).mem hpiece)
  have hlast : (List.replicate ups ['.', '.'] ++ tail).getLastD [] = tail.getLast htail := by
    rw [List.getLastD_eq_getLast?, List.getLast?_append, List.getLast?_eq_some_getLast htail]
    rfl
  unfold walkStack
  rw [hpath, hlast, List.dropLast_append_of_ne_nil htail, List.foldl_append,
    foldl_enterStack_of_ne _ hothers, List.append_assoc, List.dropLast_concat_getLast]

/-- From folders of which none is nameless, a path that goes up and then only down leads to as many of
the first folders as it does not go up past, and on from there. -/
theorem dropSlash_walk (hbase : base = join folders ∨ base = '/' :: join folders)
    (hfolders : ∀ piece ∈ folders, IsName piece) (hups : 0 < ups) (htail : tail ≠ [])
    (hnames : ∀ piece ∈ tail, IsName piece ∧ piece ≠ ['.', '.'])
    (hpath : path = join (List.replicate ups ['.', '.'] ++ tail)) :
    dropSlash (walk base path) = join (folders.take (folders.length - ups) ++ tail) := by
  have hslashless : ∀ piece ∈ List.replicate ups ['.', '.'] ++ tail, '/' ∉ piece := by
    intro piece hpiece
    rcases List.mem_append.1 hpiece with hdots | hname
    · rw [List.eq_of_mem_replicate hdots]
      decide
    · exact (hnames piece hname).1.2
  have hpieces : pieces path = List.replicate ups ['.', '.'] ++ tail := by
    rw [hpath, pieces_join (List.append_ne_nil_of_right_ne_nil _ htail) hslashless]
  have hne := List.append_ne_nil_of_right_ne_nil (folders.take (folders.length - ups)) htail
  rw [walk_eq_join, walkStack_of_pieces base hpieces htail (fun piece h => (hnames piece h).2)]
  rcases climb_cases hbase hfolders hups with hleft | hleft <;> rw [hleft]
  · refine dropSlash_join hne fun piece hpiece => ?_
    rcases List.mem_append.1 hpiece with hfolder | hname
    · exact hfolders piece (List.mem_of_mem_take hfolder)
    · exact (hnames piece hname).1
  · exact dropSlash_join_cons hne

theorem dots_prefix_join (hups : 0 < ups) (htail : tail ≠ []) :
    ['.', '.'] <+: join (List.replicate ups ['.', '.'] ++ tail) := by
  obtain ⟨more, rfl⟩ := Nat.exists_eq_add_of_le' hups
  have hbehind : List.replicate more ['.', '.'] ++ tail ≠ [] :=
    List.append_ne_nil_of_right_ne_nil _ htail
  unfold join
  rw [List.replicate_succ, List.cons_append, List.intercalate_cons_of_ne_nil hbehind,
    List.append_assoc]
  exact List.prefix_append _ _

theorem locate_of_dots {base path : String} (h : ['.', '.'] <+: path.toList) :
    locate base path = String.ofList (dropSlash (walk base.toList path.toList)) := by
  obtain ⟨rest, hrest⟩ := h
  unfold locate
  rw [← hrest]
  rfl

end Path

namespace Lookup

theorem Probes.exists_first {c : Catalog} {before calls : List Call} {path : String}
    {rest : List String} {found : Option String} (h : Probes c before (path :: rest) calls found) :
    ∃ more, calls = .probe path :: more := by
  cases h with
  | hit => exact ⟨[], rfl⟩
  | miss => exact ⟨_, rfl⟩

theorem first_probe (c : Catalog) (base path : String) (t : Trace) :
    ∃ more, (inFolder? c base path t).2.calls =
      t.calls ++ .probe (Path.locate base path) :: more := by
  obtain ⟨calls, htrace, hprobes⟩ := inFolder?_probes c t base path
  obtain ⟨more, rfl⟩ := hprobes.exists_first
  exact ⟨more, congrArg Trace.calls htrace⟩

open ShaderIncludes.Path (walk walkStack join dropSlash IsName)

/-- A walk is one on the stack of the pieces of its base: the pieces of the path but the last are
entered one by one, and the last one is put on top. What is probed first for a path with two dots in
front is where the walk leads, without one slash in front. So from folders of which none is nameless,
with a slash in front or without, a path that goes up and then only down leads to the first folders,
but for as many as it goes up, and on from there; above the first one there is nothing more to leave. -/
theorem walk_on_stack (base path : String) :
    walk base.toList path.toList = join (walkStack base.toList path.toList) ∧
      (['.', '.'] <+: path.toList → ∀ (c : Catalog) (t : Trace), ∃ more,
        (inFolder? c base path t).2.calls = t.calls ++
          .probe (String.ofList (dropSlash (join (walkStack base.toList path.toList)))) :: more) ∧
      ∀ (folders tail : List (List Char)) (ups : Nat),
        (base.toList = join folders ∨ base.toList = '/' :: join folders) →
        (∀ piece ∈ folders, IsName piece) → 0 < ups → tail ≠ [] →
        (∀ piece ∈ tail, IsName piece ∧ piece ≠ ['.', '.']) →
        path.toList = join (List.replicate ups ['.', '.'] ++ tail) →
        ∀ (c : Catalog) (t : Trace), ∃ more, (inFolder? c base path t).2.calls = t.calls ++
          .probe (String.ofList (join (folders.take (folders.length - ups) ++ tail))) :: more := by
  have hwalk := Path.walk_eq_join base.toList path.toList
  refine ⟨hwalk, fun hdots c t => ?_, ?_⟩
  · obtain ⟨more, hcalls⟩ := first_probe c base path t
    rw [Path.locate_of_dots hdots, hwalk] at hcalls
    exact ⟨more, hcalls⟩
  · intro folders tail ups hbase hfolders hups htail hnames hpath c t
    obtain ⟨more, hcalls⟩ := first_probe c base path t
    have hdots : ['.', '.'] <+: path.toList := hpath ▸ Path.dots_prefix_join hups htail
    rw [Path.locate_of_dots hdots,
      Path.dropSlash_walk hbase hfolders hups htail hnames hpath] at hcalls
    exact ⟨more, hcalls⟩

/-- Above the first folder and down again, by pieces that are not all names; and two folders up from
the third one. -/
theorem walk_on_stack_up_and_down :
    let c : Catalog := .fixed (fun _ => false) fun _ => .error ""
    walk "A".toList ".././x/../../..y/Noise".toList = "/..y/Noise".toList ∧
      (∃ more, (inFolder? c "A" ".././x/../../..y/Noise" {}).2.calls =
        .probe "..y/Noise" :: more) ∧
      ∃ more, (inFolder? c "/Assets/Shaders/Common" "../../Lib/Noise" {}).2.calls =
        .probe "Assets/Lib/Noise" :: more := by
  obtain ⟨hwalk, hprobe, -⟩ := walk_on_stack "A" ".././x/../../..y/Noise"
  refine ⟨hwalk.trans (by decide), ?_, ?_⟩
  · have hplace : String.ofList (dropSlash (join
        (walkStack "A".toList ".././x/../../..y/Noise".toList))) = "..y/Noise" := by decide
    exact hplace ▸ hprobe (by decide) _ {}
  · exact (walk_on_stack "/Assets/Shaders/Common" "../../Lib/Noise").2.2
      ["Assets".toList, "Shaders".toList, "Common".toList] ["Lib".toList, "Noise".toList] 2
      (.inr (by decide)) (by decide) (by decide) (by decide) (by decide) (by decide) _ _

end Lookup

end ShaderIncludes
