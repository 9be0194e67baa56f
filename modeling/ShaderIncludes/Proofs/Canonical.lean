import ShaderIncludes.Proofs.Composition

/-!
# Directives in canonical form

A directive can be written with its header on one line, its braces on lines of their own and its body
between them as it is. Main statement: what is written so is read back, wherever in the file it comes
(`parse_flatMap_lines`).
-/
namespace ShaderIncludes.Directive

open Body (Balanced Encloses chars)
open Header (Arguments Form isMarked isName)
open Text (Tight trim)

/-- A directive that can be written in canonical form. -/
structure Canonical where
  name : String
  params : Option String
  body : List String
  /-- The braces are written. An empty body can do without them. -/
  braced : Bool
  isName_name : isName name.toList = true
  tight_params : ∀ text ∈ params, '{' ∉ text.toList ∧ Tight text.toList
  balanced_body : Balanced (chars body)
  braced_of_ne_nil : body ≠ [] → braced = true

namespace Canonical

def header (c : Canonical) : String :=
  match c.params with
  | none => c.name
  | some text => c.name ++ "(" ++ text ++ ")"

def bodyLines (c : Canonical) : List String :=
  if c.braced then "\x7b" :: (c.body ++ ["\x7d"]) else []

def lines (c : Canonical) : List String := c.header :: c.bodyLines

/-- What is read where the header stands on this line. -/
def directive (c : Canonical) (line : Nat) : Directive := ⟨c.name, c.params, c.body, line⟩

/-! ## The header -/

theorem tight_of_isName {name : List Char} (h : isName name = true) : Tight name := by
  obtain ⟨inner, last, rfl, hall⟩ := Header.exists_of_isName h
  have hlast : Header.isNameRest last = true :=
    hall last (List.mem_append_right inner List.mem_cons_self)
  exact Text.tight_cons_append (by decide) (Header.isBlank_of_isNameRest hlast) inner

theorem head?_of_isName {name : List Char} (h : isName name = true) (more : List Char) :
    (name ++ more).head? = some '%' := by
  obtain ⟨inner, last, rfl, -⟩ := Header.exists_of_isName h
  rfl

theorem toList_header_some {c : Canonical} {text : String} (h : c.params = some text) :
    c.header.toList = c.name.toList ++ ([] ++ '(' :: text.toList ++ ')' :: []) := by
  simp [header, h]

theorem head?_header (c : Canonical) : c.header.toList.head? = some '%' := by
  cases hparams : c.params with
  | none =>
    rw [← List.append_nil c.header.toList, header, hparams]
    exact head?_of_isName c.isName_name []
  | some text =>
    rw [toList_header_some hparams]
    exact head?_of_isName c.isName_name _

theorem trim_header (c : Canonical) : trim c.header.toList = c.header.toList := by
  apply Text.trim_of_tight
  cases hparams : c.params with
  | none =>
    rw [header, hparams]
    exact tight_of_isName c.isName_name
  | some text =>
    constructor
    · intro first hfirst
      obtain rfl : '%' = first := by simpa [head?_header] using hfirst
      decide
    · intro last hlast
      obtain rfl : ')' = last := by
        simpa [toList_header_some hparams, List.getLast?_append, List.getLast?_cons] using hlast
      decide

theorem form_header (c : Canonical) : Form c.header.toList ⟨c.name, c.params, none⟩ := by
  have hform : ∀ arguments, Arguments arguments c.params →
      Form (c.name.toList ++ arguments ++ []) ⟨c.name, c.params, none⟩ := by
    intro arguments harguments
    have hform := Form.intro c.isName_name harguments .absent
    rwa [String.ofList_toList] at hform
  cases hparams : c.params with
  | none =>
    have harguments : Arguments [] c.params := hparams ▸ .absent rfl
    simpa [header, hparams] using hform [] harguments
  | some text =>
    obtain ⟨hbrace, htight⟩ := c.tight_params text hparams
    have harguments : Arguments ([] ++ '(' :: text.toList ++ ')' :: []) c.params := by
      have hpresent : Arguments ([] ++ '(' :: text.toList ++ ')' :: [])
          (some (String.ofList (trim text.toList))) := .present rfl hbrace rfl
      rwa [Text.trim_of_tight htight, String.ofList_toList, ← hparams] at hpresent
    have hheader := hform _ harguments
    rwa [List.append_nil, ← toList_header_some hparams, hparams] at hheader

theorem isMarked_header (c : Canonical) : isMarked (trim c.header.toList) = true := by
  rw [trim_header, isMarked, head?_header]
  rfl

/-! ## The body -/

theorem encloses_body (c : Canonical) : Encloses [] (c.body ++ ["\x7d"]) c.body := by
  have hclosing : "\x7d".toList = [] ++ '}' :: [] := by simp
  have hbalanced : Balanced ([] ++ chars c.body ++ []) := by
    rw [List.nil_append, List.append_nil]
    exact c.balanced_body
  have hencloses := Encloses.later hclosing hbalanced
  simpa [Body.keep] using hencloses

theorem not_mem_header (c : Canonical) : '{' ∉ c.header.toList := by
  rcases (form_header c).rest_cases with ⟨-, hbrace⟩ | ⟨_, _, hsome, -⟩
  · exact hbrace
  · cases hsome

theorem belongs_bodyLines (c : Canonical) {more : List String} (hmore : opening? more = none) :
    Belongs c.header.toList c.bodyLines c.body more := by
  unfold bodyLines
  cases hbraced : c.braced with
  | true =>
    have hopens : Opens c.header.toList ([] ++ ["\x7b"]) [] :=
      .below (not_mem_header c) (List.forall_mem_nil _) Text.allBlank_nil (by simp)
    exact .body hopens (encloses_body c)
  | false =>
    cases hbody : c.body with
    | nil => exact .bare (not_mem_header c) hmore
    | cons line more =>
      rw [c.braced_of_ne_nil (by simp [hbody])] at hbraced
      cases hbraced

/-! ## A file -/

theorem opening?_flatMap_lines (written : List Canonical) :
    opening? (written.flatMap lines) = none := by
  cases written with
  | nil => rfl
  | cons c rest =>
    rw [List.flatMap_cons, lines, List.cons_append]
    exact opening?_of_marked (isMarked_header c) _

/-- The lines of the directives in front, that of the first one among them, come before a header. -/
theorem mapIdx_directive_cons (number : Nat) (c : Canonical) (rest : List Canonical) :
    ((c :: rest).mapIdx fun i d =>
      d.directive (number + (((c :: rest).take i).flatMap lines).length)) =
    c.directive number :: rest.mapIdx fun i d =>
      d.directive (number + 1 + c.bodyLines.length + ((rest.take i).flatMap lines).length) := by
  rw [List.mapIdx_cons]
  congr 1
  congr 1
  funext i d
  congr 1
  simp only [List.take_succ_cons, List.flatMap_cons, List.length_append, lines, List.length_cons]
  omega

theorem reading_flatMap_lines (number : Nat) (written : List Canonical) :
    Reading number (written.flatMap lines) (.ok (written.mapIdx fun i c =>
      c.directive (number + ((written.take i).flatMap lines).length))) := by
  induction written generalizing number with
  | nil => exact .finish
  | cons c rest ih =>
    have hbelongs := belongs_bodyLines c (opening?_flatMap_lines rest)
    have hheader := form_header c
    rw [← trim_header c] at hbelongs hheader
    rw [mapIdx_directive_cons]
    exact .directive (isMarked_header c) hheader hbelongs (ih (number + 1 + c.bodyLines.length))

/-- Directives in canonical form, one behind the other, are read back as they are, each with the line
that its header stands on. -/
theorem parse_flatMap_lines (file : String) (written : List Canonical) :
    parse file (written.flatMap lines) = .ok (written.mapIdx fun i c =>
      c.directive (((written.take i).flatMap lines).length + 1)) := by
  have hread := reading_flatMap_lines 1 written
  simp only [Nat.add_comm 1] at hread
  exact parse_eq_ok_iff.2 hread

example : (⟨"%A", some "a (b", ["%x \x7b", "", "\x7d"], true, by decide, by decide, by decide,
    by decide⟩ : Canonical).lines = ["%A(a (b)", "\x7b", "%x \x7b", "", "\x7d", "\x7d"] := rfl

end Canonical

end ShaderIncludes.Directive
