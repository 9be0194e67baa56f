import ShaderIncludes.Directive.Header

/-!
# The form of headers

What the text of a header consists of, from its name to the text behind its brace, as a grammar.
Main statement: the grammar has one derivation at most, and reading a header finds it
(`parse?_eq_some_iff`).
-/
namespace ShaderIncludes.Header

open Text (allBlank isBlank trim)

/-- A percent sign and an identifier. -/
def isName : List Char → Bool
  | '%' :: first :: rest => isNameStart first && rest.all isNameRest
  | _ => false

/-- The text between a name and a brace, and the parameters it stands for. -/
inductive Arguments : List Char → Option String → Prop where
  | absent {blanks} (hblanks : allBlank blanks = true) : Arguments blanks none
  | present {before inner after} (hbefore : allBlank before = true) (hinner : '{' ∉ inner)
      (hafter : allBlank after = true) :
      Arguments (before ++ '(' :: inner ++ ')' :: after) (some (String.ofList (trim inner)))

/-- The text from the opening brace on, and the text behind that brace. -/
inductive Opening : List Char → Option String → Prop where
  | absent : Opening [] none
  | present {rest} (hrest : '\n' ∉ rest) : Opening ('{' :: rest) (some (String.ofList rest))

/-- The text of a header, blanks at its ends aside, and the header that it is. -/
inductive Form : List Char → Header → Prop where
  | intro {name arguments opening params rest} (hname : isName name = true)
      (harguments : Arguments arguments params) (hopening : Opening opening rest) :
      Form (name ++ arguments ++ opening) ⟨String.ofList name, params, rest⟩

/-- Some header has this text. -/
def IsHeader (text : List Char) : Prop := ∃ header, Form text header

variable {text name behind arguments opening : List Char} {params rest : Option String}
  {header : Header}

/-! ## Names -/

theorem toNat_of_isNameRest {c : Char} (h : isNameRest c = true) :
    48 ≤ c.toNat ∧ c.toNat ≤ 122 := by
  -- letters of either case, digits and the underscore
  have hranges : ((decide (65 ≤ c.val ∧ c.val ≤ 90) || (97 ≤ c.val && c.val ≤ 122)) ||
      (48 ≤ c.val && c.val ≤ 57) || c = '_') = true := h
  simp only [Bool.or_eq_true, Bool.and_eq_true, decide_eq_true_eq, UInt32.le_iff_toNat_le,
    UInt32.reduceToNat] at hranges
  have htoNat : c.val.toNat = c.toNat := rfl
  rcases hranges with hrange | rfl
  · omega
  · decide

theorem isBlank_of_isNameRest {c : Char} (h : isNameRest c = true) : isBlank c = false := by
  have hbounds := toNat_of_isNameRest h
  cases hblank : isBlank c with
  | false => rfl
  | true =>
    simp [isBlank, Text.blankRanges] at hblank
    omega

theorem isNameRest_of_isBlank {c : Char} (h : isBlank c = true) : isNameRest c = false := by
  cases hname : isNameRest c with
  | false => rfl
  | true =>
    rw [isBlank_of_isNameRest hname] at h
    cases h

theorem isNameRest_of_isNameStart {c : Char} (h : isNameStart c = true) : isNameRest c = true := by
  simp only [isNameStart, isNameRest, Char.isAlphanum, Bool.or_eq_true] at h ⊢
  exact h.imp_left .inl

/-- A name begins with its percent sign and ends with a character that can be in a name. -/
theorem exists_of_isName (h : isName name = true) : ∃ inner last,
    name = '%' :: (inner ++ [last]) ∧ ∀ c ∈ inner ++ [last], isNameRest c = true := by
  unfold isName at h
  split at h
  · rename_i first rest
    obtain ⟨hfirst, hrest⟩ := Bool.and_eq_true_iff.1 h
    have hall : ∀ c ∈ first :: rest, isNameRest c = true :=
      List.forall_mem_cons.2 ⟨isNameRest_of_isNameStart hfirst, List.all_eq_true.1 hrest⟩
    have hconcat := List.dropLast_concat_getLast (List.cons_ne_nil first rest)
    refine ⟨(first :: rest).dropLast, (first :: rest).getLast (List.cons_ne_nil first rest), ?_, ?_⟩
    · rw [hconcat]
    · rwa [hconcat]
  · cases h

theorem name?_append (hname : isName name = true)
    (hbehind : ∀ c ∈ behind.head?, isNameRest c = false) :
    name? (name ++ behind) = some (name, behind) := by
  unfold isName at hname
  split at hname
  · rename_i first rest
    obtain ⟨hfirst, hrest⟩ := Bool.and_eq_true_iff.1 hname
    rw [List.all_eq_true] at hrest
    have htake : (rest ++ behind).takeWhile isNameRest = rest := by
      rw [List.takeWhile_append_of_pos hrest]
      cases behind <;> simp_all
    have hdrop : (rest ++ behind).dropWhile isNameRest = behind := by
      rw [List.dropWhile_append_of_pos hrest]
      cases behind <;> simp_all
    simp [name?, hfirst, htake, hdrop]
  · cases hname

theorem of_name?_eq_some (h : name? text = some (name, behind)) :
    text = name ++ behind ∧ isName name = true := by
  unfold name? at h
  split at h
  · rename_i first rest
    split at h
    · rename_i hfirst
      obtain ⟨rfl, rfl⟩ := Prod.mk.inj (Option.some.inj h)
      simp [isName, hfirst]
    · cases h
  · cases h

/-! ## What stands behind a name -/

theorem opening_not_mem_of_allBlank (h : allBlank text = true) : '{' ∉ text :=
  Text.not_mem_of_allBlank (by decide) h

theorem Arguments.not_mem (h : Arguments arguments params) : '{' ∉ arguments := by
  cases h with
  | absent hblanks => exact opening_not_mem_of_allBlank hblanks
  | present hbefore hinner hafter =>
    simp [opening_not_mem_of_allBlank hbefore, hinner, opening_not_mem_of_allBlank hafter]

/-- Blanks at the end belong to no parameters. -/
theorem Arguments.trimEnd (h : Arguments arguments params) :
    Arguments (Text.trimEnd arguments) params := by
  cases h with
  | absent hblanks => exact .absent (Text.allBlank_trimEnd hblanks)
  | present hbefore hinner hafter =>
    rw [Text.trimEnd_append_cons (by decide)]
    exact .present hbefore hinner (Text.allBlank_trimEnd hafter)

theorem Arguments.append {after : List Char} (h : Arguments arguments params)
    (hafter : allBlank after = true) : Arguments (arguments ++ after) params := by
  cases h with
  | absent hblanks => exact .absent (Text.allBlank_append.2 ⟨hblanks, hafter⟩)
  | present hbefore hinner hlast =>
    rw [List.append_assoc, List.cons_append]
    exact .present hbefore hinner (Text.allBlank_append.2 ⟨hlast, hafter⟩)

theorem Arguments.isNameRest_head (h : Arguments arguments params) :
    ∀ c ∈ arguments.head?, isNameRest c = false := by
  have hblank : ∀ (blanks more : List Char), allBlank blanks = true →
      (∀ c ∈ more.head?, isNameRest c = false) →
      ∀ c ∈ (blanks ++ more).head?, isNameRest c = false := by
    intro blanks more hblanks hmore c hc
    cases blanks with
    | nil => exact hmore c hc
    | cons b blanks =>
      obtain rfl : b = c := by simpa using hc
      exact isNameRest_of_isBlank (List.all_eq_true.1 hblanks b List.mem_cons_self)
  cases h with
  | absent hblanks => simpa using hblank _ [] hblanks (by simp)
  | present hbefore =>
    rw [List.append_assoc]
    exact hblank _ _ hbefore (by simp; decide)

theorem params?_of_arguments (h : Arguments arguments params) :
    ∃ params', params? arguments = some params' ∧ params'.map String.ofList = params := by
  cases h with
  | absent hblanks =>
    exact ⟨none, by simp [params?, Text.trim_of_allBlank hblanks], rfl⟩
  | @present before inner after hbefore hinner hafter =>
    have htrim : trim (before ++ '(' :: inner ++ ')' :: after) = '(' :: (inner ++ [')']) := by
      have htight : Text.Tight ('(' :: (inner ++ [')'])) :=
        Text.tight_cons_append (by decide) (by decide) inner
      simpa using Text.trim_padded hbefore hafter htight
    refine ⟨some (trim inner), ?_, rfl⟩
    unfold params?
    rw [htrim]
    simp

theorem arguments_of_params? {params : Option (List Char)} (h : params? arguments = some params)
    (hbrace : '{' ∉ arguments) : Arguments arguments (params.map String.ofList) := by
  obtain ⟨before, after, hbefore, hafter, htrim⟩ := Text.exists_trim arguments
  unfold params? at h
  split at h
  · rename_i hnil
    cases h
    rw [hnil, List.append_nil] at htrim
    rw [htrim]
    exact .absent (Text.allBlank_append.2 ⟨hbefore, hafter⟩)
  · rename_i inner hinner
    split at h
    · rename_i hlast
      cases h
      obtain ⟨inner, rfl⟩ := List.getLast?_eq_some_iff.1 hlast
      have harguments : arguments = before ++ '(' :: inner ++ ')' :: after := by
        rw [htrim, hinner]
        simp
      rw [harguments, List.dropLast_concat]
      refine .present hbefore ?_ hafter
      intro hmem
      rw [harguments] at hbrace
      simp [hmem] at hbrace
    · cases h
  · cases h

/-! ## What stands from the brace on -/

theorem not_mem_of_isName (h : isName name = true) : '{' ∉ name := by
  obtain ⟨inner, last, rfl, hall⟩ := exists_of_isName h
  intro hmem
  rcases List.mem_cons.1 hmem with hpercent | hrest
  · cases hpercent
  · have hbrace : isNameRest '{' = true := hall '{' hrest
    revert hbrace
    decide

theorem forall_ne_of_not_mem {c : Char} (h : c ∉ text) : ∀ d ∈ text, decide (d ≠ c) = true := by
  intro d hd
  rw [decide_eq_true_eq]
  rintro rfl
  exact h hd

/-- The first brace is where a text is cut. -/
theorem cut_append {before after : List Char} (hbefore : '{' ∉ before)
    (hafter : ∀ c ∈ after.head?, c = '{') :
    (before ++ after).takeWhile (· ≠ '{') = before ∧
      (before ++ after).dropWhile (· ≠ '{') = after := by
  have hall := forall_ne_of_not_mem hbefore
  rw [List.takeWhile_append_of_pos hall, List.dropWhile_append_of_pos hall]
  cases after with
  | nil => simp
  | cons c after =>
    obtain rfl : c = '{' := hafter c rfl
    simp

theorem Opening.head_eq (h : Opening opening rest) : ∀ c ∈ opening.head?, c = '{' := by
  cases h <;> simp

theorem opening_of_rest? {rest : Option (List Char)} (h : rest? text = some rest) :
    Opening (text.dropWhile (· ≠ '{')) (rest.map String.ofList) := by
  have hhead := List.head?_dropWhile_not (· ≠ '{') text
  unfold rest? at h
  split at h
  · rename_i hnil
    cases h
    rw [hnil]
    exact .absent
  · rename_i c cs hcs
    split at h
    · cases h
    · rename_i hfeed
      cases h
      rw [hcs] at hhead
      obtain rfl : c = '{' := by simpa using hhead
      rw [hcs]
      exact .present hfeed

/-! ## Headers -/

theorem Form.parse? (h : Form text header) : parse? text = some header := by
  cases h with
  | @intro name arguments opening params rest hname harguments hopening =>
    have hbrace : '{' ∉ name ++ arguments := by
      simp [not_mem_of_isName hname, harguments.not_mem]
    obtain ⟨htake, hdrop⟩ := cut_append hbrace hopening.head_eq
    obtain ⟨params', hparams, hmap⟩ := params?_of_arguments harguments
    have hname' := name?_append hname harguments.isNameRest_head
    unfold Header.parse? rest?
    rw [htake, hdrop, hname']
    cases hopening with
    | absent => simp [hparams, hmap]
    | present hrest => simp [hparams, hmap, hrest]

/-- Reading a header finds the parts of its text as the grammar has them. -/
theorem parse?_eq_some_iff : parse? text = some header ↔ Form text header := by
  refine ⟨fun h => ?_, Form.parse?⟩
  unfold parse? at h
  simp only [Option.bind_eq_bind, Option.bind_eq_some_iff, Option.pure_def, Option.some.injEq,
    Prod.exists] at h
  obtain ⟨name, behind, hname, params, hparams, rest, hrest, rfl⟩ := h
  obtain ⟨htake, hisName⟩ := of_name?_eq_some hname
  have hbrace : '{' ∉ behind := by
    intro hmem
    have : '{' ∈ text.takeWhile (· ≠ '{') := htake ▸ List.mem_append_right name hmem
    simpa using List.all_eq_true.1 List.all_takeWhile _ this
  have htext : text = name ++ behind ++ text.dropWhile (· ≠ '{') := by
    rw [← htake, List.takeWhile_append_dropWhile]
  rw [htext]
  exact .intro hisName (arguments_of_params? hparams hbrace) (opening_of_rest? hrest)

theorem isHeader_iff : IsHeader text ↔ ∃ header, parse? text = some header := by
  simp only [IsHeader, parse?_eq_some_iff]

theorem Form.isMarked (h : Form text header) : isMarked text = true := by
  cases h with
  | intro hname =>
    obtain ⟨inner, last, rfl, -⟩ := exists_of_isName hname
    rfl

/-- A header has text for a body where its own text has a brace. -/
theorem Form.rest_cases (h : Form text header) :
    (header.rest = none ∧ '{' ∉ text) ∨
      ∃ before rest, header.rest = some (String.ofList rest) ∧ '{' ∉ before ∧
        text = before ++ '{' :: rest := by
  cases h with
  | @intro name arguments _ _ _ hname harguments hopening =>
    have hbrace : '{' ∉ name ++ arguments := by
      simp [not_mem_of_isName hname, harguments.not_mem]
    cases hopening with
    | absent => exact .inl ⟨rfl, by rwa [List.append_nil]⟩
    | present => exact .inr ⟨name ++ arguments, _, rfl, hbrace, rfl⟩

/-- A header without a brace can be given one, and any text of one line behind it. -/
theorem Form.append_brace {after opened : List Char} (h : Form text header) (hbrace : '{' ∉ text)
    (hafter : allBlank after = true) (hopened : '\n' ∉ opened) :
    Form (text ++ after ++ '{' :: opened)
      ⟨header.name, header.params, some (String.ofList opened)⟩ := by
  cases h with
  | @intro name arguments _ _ _ hname harguments hopening =>
    cases hopening with
    | absent =>
      rw [List.append_nil, List.append_assoc name]
      exact .intro hname (harguments.append hafter) (.present hopened)
    | present => exact absurd (List.mem_append_right _ List.mem_cons_self) hbrace

end ShaderIncludes.Header
