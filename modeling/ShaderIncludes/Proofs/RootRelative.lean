import ShaderIncludes.Proofs.FirstMatch
import ShaderIncludes.Proofs.PieceStack

/-!
# Paths without a slash in front

A path that is handed to a catalog is meant to begin below the project folder, so with no slash. One
slash is left out of every path that has been put together, and where more of them stand in front that
is not enough. Main statement: when it is (`calls_below_iff`). It is wherever the folder has a name in
front and the path has no two slashes side by side; the slash alone for a folder is where it fails first
(`calls_not_below`).
-/
namespace ShaderIncludes

namespace Path

/-- No slash stands in front of the path. -/
def IsBelow (path : List Char) : Prop := ¬ ['/'] <+: path

/-- The folder is one slash, or begins with two: whatever is put into it has two slashes in front. -/
def IsNameless (folder : List Char) : Prop := folder = ['/'] ∨ ['/', '/'] <+: folder

/-- Read from the folder `base` the path has more than one slash in front: those of its own if it is
absolute, and otherwise those of the folder that it comes to. -/
def KeepsSlash (base path : List Char) : Prop :=
  match path with
  | '/' :: rest => ['/', '/'] <+: rest
  | '.' :: '.' :: _ => IsNameless ((pieces path).dropLast.foldl enter base)
  | _ => IsNameless base

instance (folder : List Char) : Decidable (IsNameless folder) :=
  inferInstanceAs (Decidable (_ ∨ _))

variable {base path folder piece name : List Char} {stack : List (List Char)}

/-! ## The slashes in front -/

theorem slash_prefix_dropSlash : ['/'] <+: dropSlash path ↔ ['/', '/'] <+: path := by
  match path with
  | [] => simp [dropSlash]
  | c :: rest =>
    by_cases hc : c = '/'
    · subst hc
      exact (List.prefix_cons_inj '/').symm
    · rw [dropSlash_cons hc]
      simp [List.cons_prefix_cons, Ne.symm hc]

/-- Below a folder there are two slashes in front only if the folder has no name in front. -/
theorem slashes_prefix_append (hname : ¬ ['/'] <+: name) :
    ['/', '/'] <+: folder ++ '/' :: name ↔ IsNameless folder := by
  match folder with
  | [] => simp [IsNameless, hname]
  | [c] => simp [IsNameless, List.cons_prefix_cons, eq_comm]
  | c :: d :: rest => simp [IsNameless, List.cons_prefix_cons]

theorem not_prefix_of_not_mem (h : '/' ∉ piece) : ¬ ['/'] <+: piece :=
  fun hslash => h (hslash.subset List.mem_cons_self)

theorem slash_prefix_place : ['/'] <+: place base path ↔ KeepsSlash base path := by
  fun_cases KeepsSlash base path with
  | case1 rest => exact slash_prefix_dropSlash
  | case2 rest =>
    exact slash_prefix_dropSlash.trans
      (slashes_prefix_append (not_prefix_of_not_mem (not_mem_getLastD_pieces _)))
  | case3 path hslash hdots =>
    have hpath : ¬ ['/'] <+: path := by
      rintro ⟨rest, rfl⟩
      exact hslash rest rfl
    have hnodots : ¬ ['.', '.'] <+: path := by
      rintro ⟨rest, rfl⟩
      exact hdots rest rfl
    rw [place_eq_dropSlash base hpath fun h => absurd h hnodots, slash_prefix_dropSlash]
    exact slashes_prefix_append hpath

instance (base path : List Char) : Decidable (KeepsSlash base path) :=
  decidable_of_iff _ slash_prefix_place

/-! ## Walks -/

theorem isNameless_parent (h : IsNameless (parent folder)) : IsNameless folder := by
  by_cases hslash : '/' ∈ folder
  · obtain ⟨front, last, rfl, hlast⟩ := exists_last_slash hslash
    rw [parent_append hlast] at h
    rcases h with rfl | hfront
    · exact .inr ⟨last, rfl⟩
    · exact .inr (hfront.trans (List.prefix_append _ _))
  · rw [parent_of_not_mem hslash] at h
    exact absurd h (by decide)

/-- A step comes to a folder without a name in front from no other one, but by an empty piece. -/
theorem isNameless_enter (hpiece : '/' ∉ piece) (h : IsNameless (enter folder piece)) :
    IsNameless folder ∨ piece = [] := by
  unfold enter at h
  split at h
  · exact .inl (isNameless_parent h)
  · rcases h with htop | hslashes
    · obtain ⟨-, hempty⟩ | ⟨-, hempty⟩ := List.append_eq_singleton_iff.1 htop
      · exact .inr (List.cons.inj hempty).2
      · cases hempty
    · exact .inl ((slashes_prefix_append (not_prefix_of_not_mem hpiece)).1 hslashes)

theorem isNameless_foldl_enter (hstack : ∀ piece ∈ stack, '/' ∉ piece)
    (h : IsNameless (stack.foldl enter folder)) : IsNameless folder ∨ [] ∈ stack := by
  induction stack generalizing folder with
  | nil => exact .inl h
  | cons piece rest ih =>
    obtain ⟨hpiece, hrest⟩ := List.forall_mem_cons.1 hstack
    rcases ih hrest h with hfolder | hempty
    · rcases isNameless_enter hpiece hfolder with hbefore | rfl
      · exact .inl hbefore
      · exact .inr List.mem_cons_self
    · exact .inr (List.mem_cons_of_mem piece hempty)

/-- Between slashes, an empty piece is two of them side by side. -/
theorem slashes_infix_of_mem_pieces (h : [] ∈ pieces path) :
    ['/', '/'] <:+: '/' :: path ++ ['/'] := by
  induction path using pieceInduction with
  | single path hslash =>
    rw [pieces_of_not_mem hslash, List.mem_singleton] at h
    subst h
    exact List.infix_rfl
  | more front last hlast ih =>
    rw [pieces_append front hlast] at h
    rcases List.mem_append.1 h with hfront | hempty
    · refine (ih hfront).trans ⟨[], last ++ ['/'], ?_⟩
      simp
    · rw [← List.mem_singleton.1 hempty]
      exact ⟨'/' :: front, [], by simp⟩

theorem slashes_infix_of_mem_dropLast (hpath : ¬ ['/'] <+: path)
    (h : [] ∈ (pieces path).dropLast) : ['/', '/'] <:+: path := by
  induction path using pieceInduction with
  | single path hslash =>
    rw [pieces_of_not_mem hslash] at h
    exact absurd h List.not_mem_nil
  | more front last hlast _ =>
    rw [pieces_append front hlast, List.dropLast_concat] at h
    have hinfix : ['/', '/'] <:+: '/' :: (front ++ '/' :: last) :=
      (slashes_infix_of_mem_pieces h).trans ⟨[], last, by simp⟩
    rcases List.infix_cons_iff.1 hinfix with hfirst | hlater
    · exact absurd ((List.prefix_cons_inj '/').1 hfirst) hpath
    · exact hlater

/-- One slash is enough to leave out where the folder has a name in front and no two slashes stand
side by side in the path. -/
theorem not_keepsSlash (hbase : ¬ IsNameless base) (hpath : ¬ ['/', '/'] <:+: path) :
    ¬ KeepsSlash base path := by
  unfold KeepsSlash
  split
  · rename_i rest
    exact fun hrest => hpath (hrest.isInfix.trans ⟨['/'], [], by simp⟩)
  · intro hfolder
    rcases isNameless_foldl_enter (fun _ => not_mem_of_mem_dropLast_pieces) hfolder with h | h
    · exact hbase h
    · exact hpath (slashes_infix_of_mem_dropLast (by simp) h)
  · exact hbase

end Path

/-- The path of the call, if it has one, has no slash in front. -/
def Call.IsBelow : Call → Prop
  | .probe path | .read path => Path.IsBelow path.toList
  | .refresh => True

/-- In none of its folders the reference keeps a slash in front. -/
def Reference.StaysBelow (roots : Roots) (base : String) (ref : Reference) : Prop :=
  ∀ folder ∈ ref.folders roots base, ¬ Path.KeepsSlash folder.toList ref.path.toList

namespace Lookup

variable {roots : Roots} {base text : String} {ref : Reference}

theorem isBelow_extend (kind : Kind) {path : String} (h : Path.IsBelow path.toList) :
    Path.IsBelow (kind.extend path).toList := by
  unfold Path.IsBelow at h ⊢
  unfold Kind.extend
  rw [String.toList_append, String.toList_append]
  cases hpath : path.toList with
  | nil => simp
  | cons c rest =>
    rw [hpath] at h
    simpa [List.cons_prefix_cons] using h

theorem candidates_below_iff (folder path : String) :
    (∀ place ∈ candidates folder path, Path.IsBelow place.toList) ↔
      ¬ Path.KeepsSlash folder.toList path.toList := by
  have hplace : Path.IsBelow (Path.locate folder path).toList ↔
      ¬ Path.KeepsSlash folder.toList path.toList := by
    rw [Path.toList_locate]
    exact not_congr Path.slash_prefix_place
  unfold candidates
  constructor
  · intro h
    exact hplace.1 (h _ List.mem_cons_self)
  · intro h place hmem
    rcases List.mem_cons.1 hmem with rfl | hmem
    · exact hplace.2 h
    · obtain ⟨kind, -, rfl⟩ := List.mem_map.1 hmem
      exact isBelow_extend kind (hplace.2 h)

theorem tried_below_iff :
    (∀ place ∈ tried roots base ref, Path.IsBelow place.toList) ↔ ref.StaysBelow roots base := by
  rw [tried_eq]
  simp only [List.forall_mem_flatMap, candidates_below_iff]
  rfl

theorem find_below (h : ref.StaysBelow roots base) (c : Catalog) (t : Trace) :
    ∃ calls, (find c roots base ref t).2.calls = t.calls ++ calls ∧ (∀ call ∈ calls, call.IsBelow) ∧
      ∀ place, (find c roots base ref t).1 = .ok place → Path.IsBelow place.toList := by
  have htried := tried_below_iff.2 h
  have hprobes : ∀ paths ⊆ tried roots base ref, ∀ call ∈ paths.map Call.probe, call.IsBelow := by
    intro paths hpaths call hcall
    obtain ⟨path, hpath, rfl⟩ := List.mem_map.1 hcall
    exact htried path (hpaths hpath)
  rcases find_cases c roots base ref t with ⟨i, place, hfirst, hfind⟩ | ⟨-, hfind⟩ <;> rw [hfind]
  · refine ⟨_, rfl, hprobes _ (List.take_subset _ _), ?_⟩
    rintro _ ⟨⟩
    exact htried place (List.mem_of_getElem? hfirst.position)
  · exact ⟨_, rfl, hprobes _ fun _ => id, nofun⟩

theorem readLines_below (h : (Reference.ofString text).StaysBelow roots base) (c : Catalog)
    (t : Trace) :
    ∃ calls, (readLines c roots base text t).2.calls = t.calls ++ calls ∧
      ∀ call ∈ calls, call.IsBelow := by
  obtain ⟨calls, hcalls, hbelow, hplace⟩ := find_below h c t
  rcases hfind : find c roots base (.ofString text) t with ⟨fault | place, u⟩ <;>
    rw [hfind] at hcalls hplace
  · rw [readLines_of_missing hfind]
    exact ⟨calls, hcalls, hbelow⟩
  · rw [readLines_of_found hfind, Trace.calls_addCall]
    refine ⟨calls ++ [.read place], ?_, ?_⟩
    · rw [hcalls, List.append_assoc]
    · exact List.forall_mem_append.2 ⟨hbelow, List.forall_mem_singleton.2 (hplace place rfl)⟩

/-- Where there are no files, all paths of the reference are probed. -/
theorem find_nowhere (roots : Roots) (base : String) (ref : Reference) :
    ∃ fault notes, find (.fixed (fun _ => false) fun _ => .error "") roots base ref {} =
      (.error fault, ⟨(tried roots base ref).map .probe, notes⟩) := by
  rcases find_cases (.fixed (fun _ => false) fun _ => .error "") roots base ref {} with
    ⟨i, place, hfirst, -⟩ | ⟨-, hfind⟩
  · have hpresent := hfirst.present
    rw [answer, hfirst.position] at hpresent
    cases hpresent
  · exact ⟨_, _, hfind⟩

theorem staysBelow_of_probes {calls : List Call} (hcalls : (tried roots base ref).map .probe = calls)
    (h : ∀ call ∈ calls, call.IsBelow) : ref.StaysBelow roots base := by
  subst hcalls
  exact tried_below_iff.1 fun _ hplace => h _ (List.mem_map_of_mem hplace)

/-- A reference is looked for, found and read at paths without a slash in front, whatever the catalog
answers, if and only if leaving one slash out is enough in each of its folders. It is enough in a
folder that has a name in front, for a path without two slashes side by side. -/
theorem calls_below_iff (roots : Roots) (base : String) :
    (∀ ref : Reference,
      (∀ (c : Catalog) (t : Trace), ∃ calls,
        (find c roots base ref t).2.calls = t.calls ++ calls ∧ (∀ call ∈ calls, call.IsBelow) ∧
          ∀ place, (find c roots base ref t).1 = .ok place → Path.IsBelow place.toList) ↔
      ref.StaysBelow roots base) ∧
    (∀ text : String,
      (∀ (c : Catalog) (t : Trace), ∃ calls,
        (readLines c roots base text t).2.calls = t.calls ++ calls ∧
          ∀ call ∈ calls, call.IsBelow) ↔
      (Reference.ofString text).StaysBelow roots base) ∧
    ∀ ref : Reference, (∀ folder ∈ ref.folders roots base, ¬ Path.IsNameless folder.toList) →
      ¬ ['/', '/'] <:+: ref.path.toList → ref.StaysBelow roots base := by
  refine ⟨fun ref => ⟨?_, find_below⟩, fun text => ⟨?_, readLines_below⟩, ?_⟩
  · intro h
    obtain ⟨fault, notes, hfind⟩ := find_nowhere roots base ref
    obtain ⟨calls, hcalls, hbelow, -⟩ := h _ {}
    rw [hfind] at hcalls
    exact staysBelow_of_probes hcalls hbelow
  · intro h
    obtain ⟨fault, notes, hfind⟩ := find_nowhere roots base (.ofString text)
    obtain ⟨calls, hcalls, hbelow⟩ := h _ {}
    rw [readLines_of_missing hfind] at hcalls
    exact staysBelow_of_probes hcalls hbelow
  · intro ref hfolders hpath folder hfolder
    exact Path.not_keepsSlash (hfolders folder hfolder) hpath

/-- Slashes are kept of an absolute path, above the top of a walk, and of a folder; not of one that has a
name behind its slash. -/
example :
    Path.KeepsSlash "A".toList "///X".toList ∧ Path.KeepsSlash "A".toList "..//X".toList ∧
      Path.KeepsSlash "//A".toList "X".toList ∧ ¬ Path.KeepsSlash "/A/B".toList "../../X".toList := by
  decide

/-- From the slash alone, which is a folder without a name, a path of one piece keeps a slash. -/
theorem calls_not_below :
    ¬ ∀ (c : Catalog) (roots : Roots) (base text : String) (t : Trace), ∃ calls,
      (readLines c roots base text t).2.calls = t.calls ++ calls ∧ ∀ call ∈ calls, call.IsBelow := by
  intro h
  let c : Catalog := .fixed (· = "X") fun _ => .ok ["float x;"]
  obtain ⟨calls, hcalls, hbelow⟩ := h c ⟨"P", "S"⟩ "/" "X" {}
  have hprobes : (readLines c ⟨"P", "S"⟩ "/" "X" {}).2.calls =
      [.probe "/X", .probe "/X.orlsource", .probe "/X.orlshader", .probe "/X.orltemplate"] := by
    decide
  rw [hprobes, List.nil_append] at hcalls
  exact hbelow (.probe "/X") (hcalls ▸ List.mem_cons_self) ⟨['X'], rfl⟩

end Lookup

end ShaderIncludes
