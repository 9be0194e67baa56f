import ShaderIncludes.Proofs.FirstMatch

/-!
# Bundled files, read directly and by reference

A bundled file can be read by its name and kind, straight from the primary folder, or be looked up as
a reference that has the extension. Main statement: for a name that is neither absolute nor walks up
these two probe the same path first and read the same, if and only if the name has no `@` in it
(`readBundled_agrees_iff`). The direct read leaves out every `@`, and not the one of the mark alone, so
it looks for `a@b` where `ab` would lie (`readBundled_disagrees`).
-/
namespace ShaderIncludes

namespace Path

variable {folder a b : List Char}

theorem dropSlash_append_inj :
    dropSlash (folder ++ '/' :: a) = dropSlash (folder ++ '/' :: b) ↔ a = b := by
  match folder with
  | [] => rfl
  | c :: rest =>
    by_cases hc : c = '/'
    · subst hc
      simp [dropSlash]
    · rw [List.cons_append, List.cons_append, dropSlash_cons hc, dropSlash_cons hc]
      simp

end Path

namespace Lookup

open Reference (bundledMark)

variable {c : Catalog} {roots : Roots} {base name path : String} {kind : Kind} {t : Trace}

/-- The reference of the bundled file of this kind. -/
def bundledText (name : String) (kind : Kind) : String := bundledMark ++ kind.extend name

theorem toList_extend (kind : Kind) (name : String) :
    (kind.extend name).toList = name.toList ++ '.' :: kind.extension.toList := by
  simp [Kind.extend]

theorem ofString_bundledText (name : String) (kind : Kind) :
    Reference.ofString (bundledText name kind) = .bundled (kind.extend name) := by
  simp [bundledText, bundledMark, Reference.ofString, Reference.afterMark?]

/-! ## The two places -/

theorem toList_bundledPlace (roots : Roots) (name : String) (kind : Kind) :
    (bundledPlace roots (bundledMark ++ name) kind).toList =
      Path.dropSlash (roots.primary.toList ++
        '/' :: (name.toList.filter (· ≠ '@') ++ '.' :: kind.extension.toList)) := by
  simp [bundledPlace, bareName, bundledMark, toList_extend]

theorem slash_not_mem_extension (kind : Kind) : '/' ∉ kind.extension.toList := by
  cases kind <;> decide

theorem toList_locate_extend (hslash : ¬ ['/'] <+: name.toList) (hdots : ¬ ['.', '.'] <+: name.toList)
    (folder : String) (kind : Kind) :
    (Path.locate folder (kind.extend name)).toList =
      Path.dropSlash (folder.toList ++ '/' :: (name.toList ++ '.' :: kind.extension.toList)) := by
  have hextension := slash_not_mem_extension kind
  rw [Path.toList_locate, toList_extend]
  apply Path.place_eq_dropSlash
  · cases hname : name.toList with
    | nil => simp
    | cons first rest =>
      rw [hname] at hslash
      simpa [List.cons_prefix_cons] using hslash
  · intro hextended
    -- the dot of the extension is the second one only behind a name of one dot
    match hname : name.toList with
    | [] => simpa using hextension
    | [first] =>
      rw [hname] at hextended hslash
      have hfirst : '/' ≠ first := by simpa [List.cons_prefix_cons] using hslash
      simpa [hfirst] using hextension
    | first :: second :: rest =>
      rw [hname] at hextended hdots
      exact absurd (by simpa [List.cons_prefix_cons] using hextended) hdots

theorem bundledPlace_eq_iff (hslash : ¬ ['/'] <+: name.toList)
    (hdots : ¬ ['.', '.'] <+: name.toList) (roots : Roots) (kind : Kind) :
    bundledPlace roots (bundledMark ++ name) kind =
      Path.locate roots.primary (kind.extend name) ↔ '@' ∉ name.toList := by
  rw [← String.toList_inj, toList_bundledPlace, toList_locate_extend hslash hdots,
    Path.dropSlash_append_inj, List.append_left_inj, List.filter_eq_self]
  simp only [decide_eq_true_eq]
  exact ⟨fun h hat => h '@' hat rfl, fun h c hc hat => h (hat ▸ hc)⟩

/-! ## The two reads -/

theorem calls_readBundled (c : Catalog) (roots : Roots) (name : String) (kind : Kind) (t : Trace) :
    (readBundled c roots name kind t).2.calls =
      t.calls ++ .probe (bundledPlace roots name kind) ::
        if c.present t.calls (bundledPlace roots name kind) then
          [.read (bundledPlace roots name kind)] else [] := by
  unfold readBundled Catalog.probe Catalog.read
  cases hpresent : c.present t.calls (bundledPlace roots name kind) <;> simp [hpresent]

theorem probes_readBundled (c : Catalog) (roots : Roots) (name : String) (kind : Kind) (t : Trace) :
    ∃ reads, (readBundled c roots name kind t).2.calls =
        t.calls ++ .probe (bundledPlace roots name kind) :: reads ∧
      ∀ path, .probe path ∉ reads := by
  refine ⟨_, calls_readBundled c roots name kind t, fun path => ?_⟩
  split <;> simp

theorem readBundled_of_present (h : c.present t.calls (bundledPlace roots name kind) = true) :
    (readBundled c roots name kind t).1 =
      (c.lines (t.calls ++ [.probe (bundledPlace roots name kind)])
        (bundledPlace roots name kind)).mapError (.unreadable (bundledPlace roots name kind)) := by
  simp [readBundled, Catalog.probe, Catalog.read, h]

theorem tried_bundled (roots : Roots) (base path : String) :
    ∃ others, tried roots base (.bundled path) = Path.locate roots.primary path :: others := by
  rw [tried_eq]
  exact ⟨_, rfl⟩

theorem calls_find_bundled (c : Catalog) (roots : Roots) (base path : String) (t : Trace) :
    ∃ more, (find c roots base (.bundled path) t).2.calls =
      t.calls ++ .probe (Path.locate roots.primary path) :: more := by
  obtain ⟨others, htried⟩ := tried_bundled roots base path
  rcases find_cases c roots base (.bundled path) t with ⟨i, place, -, hfind⟩ | ⟨-, hfind⟩ <;>
    rw [hfind, htried]
  · exact ⟨_, rfl⟩
  · exact ⟨_, rfl⟩

theorem find_bundled_of_present (base : String)
    (h : c.present t.calls (Path.locate roots.primary path) = true) :
    find c roots base (.bundled path) t =
      (.ok (Path.locate roots.primary path),
        t.append ⟨[.probe (Path.locate roots.primary path)],
          [.located path (Path.locate roots.primary path)]⟩) := by
  obtain ⟨others, htried⟩ := tried_bundled roots base path
  have hfirst : FirstAt c t.calls (tried roots base (.bundled path)) 0
      (Path.locate roots.primary path) := by
    rw [htried]
    exact ⟨rfl, answer_zero.trans h, fun j hj => absurd hj (Nat.not_lt_zero j)⟩
  rcases find_cases c roots base (.bundled path) t with ⟨i, place, hother, hfind⟩ | ⟨hnone, -⟩
  · obtain ⟨rfl, rfl⟩ := hfirst.eq hother
    rw [htried] at hfind
    exact hfind
  · exact absurd hfirst.present (Bool.eq_false_iff.1 (hnone 0))

/-- The direct read of the bundled file probes one path, the one that is probed first for its
reference, and if there is a file at it the two reads come to the same lines or to the same fault. -/
def ReadsAlike (c : Catalog) (roots : Roots) (base name : String) (kind : Kind) (t : Trace) : Prop :=
  ∃ place reads more,
    (readBundled c roots (bundledMark ++ name) kind t).2.calls = t.calls ++ .probe place :: reads ∧
    (∀ path, .probe path ∉ reads) ∧
    (find c roots base (.ofString (bundledText name kind)) t).2.calls =
      t.calls ++ .probe place :: more ∧
    (candidates roots.primary (kind.extend name)).head? = some place ∧
    (c.present t.calls place = true →
      (readBundled c roots (bundledMark ++ name) kind t).1 =
        (readLines c roots base (bundledText name kind) t).1)

theorem place_of_readsAlike (h : ReadsAlike c roots base name kind t) :
    bundledPlace roots (bundledMark ++ name) kind =
      Path.locate roots.primary (kind.extend name) := by
  obtain ⟨place, reads, more, hdirect, -, -, hfirst, -⟩ := h
  obtain ⟨reads', hdirect', -⟩ := probes_readBundled c roots (bundledMark ++ name) kind t
  have hcalls := hdirect'.symm.trans hdirect
  rw [List.append_cancel_left_eq] at hcalls
  have hplace : bundledPlace roots (bundledMark ++ name) kind = place :=
    Call.probe.inj (List.cons.inj hcalls).1
  rw [hplace]
  exact (Option.some.inj hfirst).symm

theorem readsAlike_of_place
    (hplace : bundledPlace roots (bundledMark ++ name) kind =
      Path.locate roots.primary (kind.extend name)) (c : Catalog) (base : String) (t : Trace) :
    ReadsAlike c roots base name kind t := by
  obtain ⟨reads, hdirect, hreads⟩ := probes_readBundled c roots (bundledMark ++ name) kind t
  obtain ⟨more, hfind⟩ := calls_find_bundled c roots base (kind.extend name) t
  rw [← ofString_bundledText] at hfind
  refine ⟨_, reads, more, hdirect, hreads, hplace ▸ hfind, congrArg some hplace.symm, ?_⟩
  intro hpresent
  rw [readBundled_of_present hpresent]
  rw [hplace] at hpresent ⊢
  have hfound := find_bundled_of_present base hpresent
  rw [← ofString_bundledText] at hfound
  rw [readLines_of_found hfound]
  rfl

/-- A direct read probes one path and no other. For all catalogs it is the first that is probed for the
reference, with the same to be read there, if and only if there is no `@` in the name. -/
theorem readBundled_agrees_iff (roots : Roots) (kind : Kind) (name : String)
    (hslash : ¬ ['/'] <+: name.toList) (hdots : ¬ ['.', '.'] <+: name.toList) :
    (∀ (c : Catalog) (t : Trace), ∃ place reads,
      (readBundled c roots (bundledMark ++ name) kind t).2.calls =
        t.calls ++ .probe place :: reads ∧ ∀ path, .probe path ∉ reads) ∧
    ((∀ (c : Catalog) (base : String) (t : Trace), ReadsAlike c roots base name kind t) ↔
      '@' ∉ name.toList) := by
  rw [← bundledPlace_eq_iff hslash hdots roots kind]
  refine ⟨fun c t => ⟨_, probes_readBundled c roots _ kind t⟩, ?_, readsAlike_of_place⟩
  intro halike
  exact place_of_readsAlike (halike (.fixed (fun _ => false) fun _ => .error "") "" {})

/-- A template and a source file by a name of two pieces, below a folder with an `@` of its own. -/
theorem readBundled_agrees_iff_basic :
    let c : Catalog := .fixed (· = "P@1/Templates/Basic.orltemplate") fun _ => .ok ["line one"]
    ¬ ['/'] <+: "Templates/Basic".toList ∧ ¬ ['.', '.'] <+: "Templates/Basic".toList ∧
      ReadsAlike c ⟨"/P@1", "S"⟩ "Assets" "Templates/Basic" .template {} ∧
      ReadsAlike c ⟨"/P@1", "S"⟩ "Assets" "Templates/Basic" .source {} := by
  intro c
  have hslash : ¬ ['/'] <+: "Templates/Basic".toList := by decide
  have hdots : ¬ ['.', '.'] <+: "Templates/Basic".toList := by decide
  have hat : '@' ∉ "Templates/Basic".toList := by decide
  exact ⟨hslash, hdots,
    (readBundled_agrees_iff ⟨"/P@1", "S"⟩ .template "Templates/Basic" hslash hdots).2.2 hat c _ _,
    (readBundled_agrees_iff ⟨"/P@1", "S"⟩ .source "Templates/Basic" hslash hdots).2.2 hat c _ _⟩

/-- The direct read of a file with an `@` in its name looks for another file. -/
theorem readBundled_disagrees :
    ¬ ∀ (c : Catalog) (roots : Roots) (base name : String) (kind : Kind) (t : Trace),
      ¬ ['/'] <+: name.toList → ¬ ['.', '.'] <+: name.toList →
        ReadsAlike c roots base name kind t := by
  intro h
  let c : Catalog := .fixed (· = "P/a@b.orlsource") fun _ => .ok ["float x;"]
  obtain ⟨place, reads, more, hdirect, -, hfind, -⟩ :=
    h c ⟨"P", "S"⟩ "B" "a@b" .source {} (by decide) (by decide)
  have hdirect' : (readBundled c ⟨"P", "S"⟩ "@/a@b" .source {}).2.calls =
      [.probe "P/ab.orlsource"] := by decide
  have hfind' : (find c ⟨"P", "S"⟩ "B" (.ofString "@/a@b.orlsource") {}).2.calls =
      [.probe "P/a@b.orlsource"] := by decide
  have hone := hdirect'.symm.trans hdirect
  have htwo := hfind'.symm.trans hfind
  have hplaces := (List.cons.inj hone).1.trans (List.cons.inj htwo).1.symm
  exact absurd hplaces (by decide)

end Lookup

end ShaderIncludes
