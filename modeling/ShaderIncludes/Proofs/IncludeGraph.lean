import Mathlib.Logic.Relation
import ShaderIncludes.Crawl

/-!
# The include graph

Where a catalog never changes, its files form a graph. The nodes are the references, as texts, and
the edges lead to the entries of the first include list of the file that a reference means. Nothing
here depends on the order in which files are looked at, and the files need not be finitely many.
-/
namespace ShaderIncludes
open Relation (ReflTransGen TransGen)

/-- A setup, and the answers of a catalog that never changes. -/
structure IncludeGraph where
  setup : Crawl.Setup
  present : String → Bool
  lines : String → Except String (List String)

/-- What a crawl finds at a reference. -/
inductive Node where
  /-- The file cannot be found, read or parsed, and that is fatal. -/
  | broken (fault : Fault)
  /-- There is no file, and the reference is to be left out. -/
  | absent
  /-- A file without an include list; a reference without a file, if it is to be kept. -/
  | leaf
  /-- A file with an include list. -/
  | list (entries : List String)
  deriving DecidableEq, Repr

/-- The lines of a file whose include list has these entries. -/
def listing (entries : List String) : List String := "%Includes()" :: "\x7b" :: entries ++ ["\x7d"]

namespace IncludeGraph

def ofSnapshot (s : Crawl.Setup) (files : Snapshot) : IncludeGraph :=
  ⟨s, files.present, files.lines⟩

def catalog (g : IncludeGraph) : Catalog := .fixed g.present g.lines

/-- The paths at which the file of a reference may lie, in the order of their preference. -/
def candidates (g : IncludeGraph) (reference : Reference) : List String :=
  (reference.folders g.setup.roots g.setup.base).flatMap (Lookup.candidates · reference.path)

/-- Where the file of a reference lies. -/
def place? (g : IncludeGraph) (source : String) : Option String :=
  (g.candidates (.ofString source)).find? g.present

def missing (g : IncludeGraph) (source : String) : Fault :=
  let reference := Reference.ofString source
  .missing reference.toString (reference.folders g.setup.roots g.setup.base)

def node (g : IncludeGraph) (source : String) : Node :=
  match g.place? source with
  | none =>
    match g.setup.policy with
    | .abort => .broken (g.missing source)
    | .omit => .absent
    | .leaf => .leaf
  | some place =>
    match g.lines place with
    | .error cause => .broken (.unreadable place cause)
    | .ok text =>
      match Includes.ofLines source text with
      | .error fault => .broken fault
      | .ok none => .leaf
      | .ok (some entries) => .list entries

def Edge (g : IncludeGraph) (a b : String) : Prop :=
  ∃ entries, g.node a = .list entries ∧ b ∈ entries ∧ b ≠ Includes.selfEntry

def Reaches (g : IncludeGraph) : String → String → Prop := ReflTransGen g.Edge

/-- The reference is a dependency of whatever reaches it. -/
def Emits (g : IncludeGraph) (a : String) : Prop :=
  g.node a = .leaf ∨ ∃ entries, g.node a = .list entries ∧ Includes.selfEntry ∈ entries

def Acyclic (g : IncludeGraph) : Prop := ∀ a, ¬ TransGen g.Edge a a

/-- All that some sources lead to. -/
def Reached (g : IncludeGraph) (sources : List String) : Set String :=
  {a | ∃ source ∈ sources, g.Reaches source a}

/-- The sources lead into no cycle. -/
def AcyclicFrom (g : IncludeGraph) (sources : List String) : Prop :=
  ∀ a ∈ g.Reached sources, ¬ TransGen g.Edge a a

/-- Some path from `a` to `b` has none of the references of `stack` on it, ends included. -/
def Avoids (g : IncludeGraph) (stack : List String) (a b : String) : Prop :=
  a ∉ stack ∧ ReflTransGen (fun x y => g.Edge x y ∧ y ∉ stack) a b

variable {g : IncludeGraph} {stack entries : List String} {a b c source : String}

theorem exists_text_of_node (h : g.node a = .list entries) :
    ∃ place text, g.place? a = some place ∧ g.lines place = .ok text ∧
      Includes.ofLines a text = .ok (some entries) := by
  unfold node at h
  split at h
  · split at h <;> cases h
  · rename_i place hp
    split at h
    · cases h
    · rename_i text hl
      split at h
      · cases h
      · cases h
      · rename_i hi
        cases h
        exact ⟨place, text, hp, hl, hi⟩

theorem edge_iff_mem (h : g.node a = .list entries) :
    g.Edge a b ↔ b ∈ entries ∧ b ≠ Includes.selfEntry := by
  simp [Edge, h]

theorem emits_iff_mem (h : g.node a = .list entries) :
    g.Emits a ↔ Includes.selfEntry ∈ entries := by
  simp [Emits, h]

theorem exists_mem_texts {s : Crawl.Setup} {files : Snapshot}
    (h : (ofSnapshot s files).node a = .list entries) (file : String) :
    ∃ text ∈ files.texts, Includes.ofLines file text = .ok (some entries) := by
  obtain ⟨place, text, -, hl, hi⟩ := exists_text_of_node h
  exact ⟨text, files.mem_texts hl, Includes.ofLines_congr file hi⟩

theorem mem_allEntries_of_edge {s : Crawl.Setup} {files : Snapshot}
    (h : (ofSnapshot s files).Edge a b) : b ∈ Crawl.allEntries files.texts := by
  obtain ⟨entries, hn, hb, hself⟩ := h
  obtain ⟨text, ht, hi⟩ := exists_mem_texts hn a
  exact Crawl.mem_allEntries.2 ⟨text, ht, Crawl.mem_entriesOf hi hb hself⟩

theorem acyclic_of_rank (rank : String → Nat) (h : ∀ a b, g.Edge a b → rank b < rank a) :
    g.Acyclic := by
  have hlt : ∀ a b, TransGen g.Edge a b → rank b < rank a := by
    intro a b hab
    induction hab with
    | single e => exact h _ _ e
    | tail _ e ih => exact Nat.lt_trans (h _ _ e) ih
  intro a haa
  exact Nat.lt_irrefl _ (hlt a a haa)

/-- Whatever leads to a reference leads to what it includes. -/
theorem transGen_of_edge (hstack : ∀ x ∈ stack, TransGen g.Edge x a) (hab : g.Edge a b) :
    ∀ x ∈ a :: stack, TransGen g.Edge x b := by
  intro x hx
  rcases List.mem_cons.1 hx with rfl | hx
  · exact .single hab
  · exact (hstack x hx).tail hab

/-- What a reference includes is not among what leads to it, unless it leads in a circle. -/
theorem not_mem_of_acyclic (hstack : ∀ x ∈ stack, TransGen g.Edge x a) (hab : g.Edge a b)
    (hacyclic : ¬ TransGen g.Edge b b) : b ∉ a :: stack :=
  fun hb => hacyclic (transGen_of_edge hstack hab b hb)

theorem Avoids.refl (h : a ∉ stack) : g.Avoids stack a a := ⟨h, .refl⟩

theorem Avoids.trans (hab : g.Avoids stack a b) (hbc : g.Avoids stack b c) :
    g.Avoids stack a c :=
  ⟨hab.1, hab.2.trans hbc.2⟩

theorem Avoids.mono {smaller : List String} (hs : smaller ⊆ stack) (h : g.Avoids stack a b) :
    g.Avoids smaller a b :=
  ⟨fun ha => h.1 (hs ha), ReflTransGen.mono (fun _ _ e => ⟨e.1, fun hy => e.2 (hs hy)⟩) _ _ h.2⟩

theorem Avoids.reaches (h : g.Avoids stack a b) : g.Reaches a b :=
  ReflTransGen.mono (fun _ _ e => e.1) _ _ h.2

theorem Avoids.not_mem (h : g.Avoids stack a b) : b ∉ stack := by
  rcases ReflTransGen.cases_tail h.2 with rfl | ⟨x, -, hx⟩
  · exact h.1
  · exact hx.2

theorem Avoids.head (ha : a ∉ stack) (e : g.Edge a b) (h : g.Avoids (a :: stack) b c) :
    g.Avoids stack a c := by
  have hb := h.mono (List.subset_cons_self a stack)
  exact ⟨ha, .head ⟨e, hb.1⟩ hb.2⟩

/-- A path can be cut short so that it does not come back to where it starts. -/
theorem Avoids.cases_head (h : g.Avoids stack a b) :
    b = a ∨ ∃ x, g.Edge a x ∧ g.Avoids (a :: stack) x b := by
  obtain ⟨ha, path⟩ := h
  induction path with
  | refl => exact .inl rfl
  | @tail c d _ hcd ih =>
    by_cases hda : d = a
    · exact .inl hda
    have hd : d ∉ a :: stack := List.not_mem_cons_of_ne_of_not_mem hda hcd.2
    rcases ih with rfl | ⟨x, hx, hxc⟩
    · exact .inr ⟨d, hcd.1, .refl hd⟩
    · exact .inr ⟨x, hx, hxc.1, hxc.2.tail ⟨hcd.1, hd⟩⟩

theorem avoids_nil : g.Avoids [] a b ↔ g.Reaches a b := by
  simp [Avoids, Reaches]

/-- What leads to no reference of the stack is not hindered by it. -/
theorem avoids_of_reaches (hs : ∀ x ∈ stack, ¬ g.Reaches a x) (h : g.Reaches a b) :
    g.Avoids stack a b := by
  induction h with
  | refl => exact .refl fun ha => hs a ha .refl
  | @tail c d hac hcd ih => exact ⟨ih.1, ih.2.tail ⟨hcd, fun hd => hs d hd (hac.tail hcd)⟩⟩

end IncludeGraph

end ShaderIncludes
