import ShaderIncludes.Directive.Body

/-!
# Braces

Reading a body is matching braces in the text behind the opening one, no matter how that text is cut
into lines. Main statements: a body goes up to the first brace that closes more than was opened behind
the opening brace (`read?_eq_some_iff`), and has no end where there is no such brace
(`read?_eq_none_iff`).
-/
namespace ShaderIncludes.Body

/-- No beginning of the text closes more braces than it opens and `depth` more. -/
def StaysOpen (depth : Nat) (text : List Char) : Prop :=
  ∀ beginning, beginning <+: text → beginning.count '}' ≤ depth + beginning.count '{'

/-- The text closes the braces that it opens and `depth` more, and none of those too early. -/
structure Settles (depth : Nat) (text : List Char) : Prop where
  staysOpen : StaysOpen depth text
  count_eq : text.count '}' = depth + text.count '{'

/-- The text closes the braces that it opens, and no other ones. -/
abbrev Balanced (text : List Char) : Prop := Settles 0 text

/-- The characters of the lines, one line after the other. -/
def chars (lines : List String) : List Char := lines.flatMap String.toList

/-- What a body takes of the text `rest` behind its opening brace and of the lines `taken` after that
text, up to the line with its closing brace. -/
inductive Encloses (rest : List Char) : (taken body : List String) → Prop where
  | atOnce {before after} (hrest : rest = before ++ '}' :: after) (hbalanced : Balanced before) :
      Encloses rest [] (keep before)
  | later {between last before after} (hlast : last.toList = before ++ '}' :: after)
      (hbalanced : Balanced (rest ++ chars between ++ before)) :
      Encloses rest (between ++ [last]) (keep rest ++ between ++ keep before)

variable {depth inner used : Nat} {text before after more : List Char} {c : Char} {line last : String}
  {lines between kept body taken : List String}

@[simp] theorem chars_nil : chars [] = [] := rfl

@[simp] theorem chars_cons (line : String) (lines : List String) :
    chars (line :: lines) = line.toList ++ chars lines := rfl

/-! ## Text that closes nothing but what it opens -/

theorem opening_ne_closing : '{' ≠ '}' := by decide

theorem staysOpen_nil (depth : Nat) : StaysOpen depth [] := by
  intro beginning h
  rw [List.prefix_nil.1 h]
  simp

theorem StaysOpen.of_prefix (h : StaysOpen depth text) (hbefore : before <+: text) :
    StaysOpen depth before :=
  fun beginning hb => h beginning (hb.trans hbefore)

theorem staysOpen_cons :
    StaysOpen depth (c :: text) ↔
      ∀ beginning, beginning <+: text →
        (c :: beginning).count '}' ≤ depth + (c :: beginning).count '{' := by
  constructor
  · intro h beginning hb
    exact h (c :: beginning) (List.cons_prefix_cons.2 ⟨rfl, hb⟩)
  · intro h beginning hb
    rcases List.prefix_cons_iff.1 hb with rfl | ⟨rest, rfl, hrest⟩
    · simp
    · exact h rest hrest

theorem staysOpen_cons_opening : StaysOpen depth ('{' :: text) ↔ StaysOpen (depth + 1) text := by
  rw [staysOpen_cons]
  apply forall₂_congr
  intro beginning _
  rw [List.count_cons_self, List.count_cons_of_ne opening_ne_closing]
  omega

theorem staysOpen_cons_closing : StaysOpen (depth + 1) ('}' :: text) ↔ StaysOpen depth text := by
  rw [staysOpen_cons]
  apply forall₂_congr
  intro beginning _
  rw [List.count_cons_self, List.count_cons_of_ne opening_ne_closing.symm]
  omega

theorem not_staysOpen_cons_closing : ¬ StaysOpen 0 ('}' :: text) := by
  intro h
  have := h ['}'] (by simp)
  simp at this

theorem staysOpen_cons_other (hopening : c ≠ '{') (hclosing : c ≠ '}') :
    StaysOpen depth (c :: text) ↔ StaysOpen depth text := by
  rw [staysOpen_cons]
  simp only [List.count_cons_of_ne hopening, List.count_cons_of_ne hclosing, StaysOpen]

/-- What comes behind a text starts with as many braces open as the text leaves. -/
theorem staysOpen_append (hcount : inner + before.count '}' = depth + before.count '{') :
    StaysOpen depth (before ++ more) ↔ StaysOpen depth before ∧ StaysOpen inner more := by
  constructor
  · intro h
    refine ⟨h.of_prefix (List.prefix_append before more), fun beginning hb => ?_⟩
    have := h (before ++ beginning) ((List.prefix_append_right_inj before).2 hb)
    simp only [List.count_append] at this
    omega
  · rintro ⟨hbefore, hmore⟩ beginning hb
    rcases List.prefix_or_prefix_of_prefix hb (List.prefix_append before more) with h | ⟨rest, rfl⟩
    · exact hbefore beginning h
    · have := hmore rest ((List.prefix_append_right_inj before).1 hb)
      simp only [List.count_append]
      omega

theorem settles_append (hcount : inner + before.count '}' = depth + before.count '{') :
    Settles depth (before ++ more) ↔ StaysOpen depth before ∧ Settles inner more := by
  constructor
  · rintro ⟨hopen, htotal⟩
    obtain ⟨hbefore, hmore⟩ := (staysOpen_append hcount).1 hopen
    simp only [List.count_append] at htotal
    exact ⟨hbefore, hmore, by omega⟩
  · rintro ⟨hbefore, hmore, htotal⟩
    refine ⟨(staysOpen_append hcount).2 ⟨hbefore, hmore⟩, ?_⟩
    simp only [List.count_append]
    omega

theorem Settles.append (h : Balanced before) (hmore : Balanced more) : Balanced (before ++ more) := by
  have hcount : 0 + before.count '}' = 0 + before.count '{' := by rw [h.count_eq, Nat.zero_add]
  exact (settles_append hcount).2 ⟨h.staysOpen, hmore⟩

theorem balanced_of_not_mem (hopening : '{' ∉ text) (hclosing : '}' ∉ text) : Balanced text := by
  constructor
  · intro beginning hb
    have hcount : beginning.count '}' = 0 :=
      List.count_eq_zero.2 fun hmem => hclosing (hb.subset hmem)
    rw [hcount]
    exact Nat.zero_le _
  · rw [List.count_eq_zero.2 hclosing, List.count_eq_zero.2 hopening]

/-- With one closing brace more, the text closes a brace too many. -/
theorem Settles.not_staysOpen (h : Settles depth before) (after : List Char) :
    ¬ StaysOpen depth (before ++ '}' :: after) := by
  intro hopen
  have hcount : 0 + before.count '}' = depth + before.count '{' := by
    rw [h.count_eq, Nat.zero_add]
  exact not_staysOpen_cons_closing ((staysOpen_append hcount).1 hopen).2

/-! ## Scans -/

@[simp] theorem Scan.cons_eq_leaves {scan : Scan} :
    scan.cons c = .leaves inner ↔ scan = .leaves inner := by
  cases scan <;> simp [Scan.cons]

theorem Scan.cons_eq_closes {scan : Scan} :
    scan.cons c = .closes before ↔ ∃ rest, scan = .closes rest ∧ c :: rest = before := by
  cases scan <;> simp [Scan.cons]

/-- The last case of a scan is that of no brace. -/
theorem ne_closing (hzero : depth = 0 → c = '}' → False)
    (hsucc : ∀ inner, depth = inner + 1 → c = '}' → False) : c ≠ '}' := by
  intro hc
  cases depth with
  | zero => exact hzero rfl hc
  | succ inner => exact hsucc inner rfl hc

theorem scan_eq_leaves_iff : scan depth text = .leaves inner ↔
    StaysOpen depth text ∧ inner + text.count '}' = depth + text.count '{' := by
  fun_induction scan depth text generalizing inner with
  | case1 depth => simp [staysOpen_nil, eq_comm]
  | case2 depth cs ih =>
    rw [Scan.cons_eq_leaves, ih, staysOpen_cons_opening]
    simp only [List.count_cons_self, List.count_cons_of_ne opening_ne_closing, and_congr_right_iff]
    omega
  | case3 => simp [not_staysOpen_cons_closing]
  | case4 depth cs ih =>
    rw [Scan.cons_eq_leaves, ih, staysOpen_cons_closing]
    simp only [List.count_cons_self, List.count_cons_of_ne opening_ne_closing.symm,
      and_congr_right_iff]
    omega
  | case5 depth c cs hopening hzero hsucc ih =>
    have hclosing := ne_closing hzero hsucc
    rw [Scan.cons_eq_leaves, ih, staysOpen_cons_other hopening hclosing]
    rw [List.count_cons_of_ne hopening, List.count_cons_of_ne hclosing]

theorem settles_iff_scan : Settles depth text ↔ scan depth text = .leaves 0 := by
  rw [scan_eq_leaves_iff, Nat.zero_add]
  exact ⟨fun h => ⟨h.1, h.2⟩, fun h => ⟨h.1, h.2⟩⟩

theorem staysOpen_iff_scan : StaysOpen depth text ↔ ∃ inner, scan depth text = .leaves inner := by
  simp only [scan_eq_leaves_iff]
  constructor
  · intro h
    have := h text (List.prefix_refl text)
    exact ⟨depth + text.count '{' - text.count '}', h, by omega⟩
  · rintro ⟨inner, h, -⟩
    exact h

instance (depth : Nat) (text : List Char) : Decidable (Settles depth text) :=
  decidable_of_iff _ settles_iff_scan.symm

theorem scan_append_closing (h : Settles depth before) (after : List Char) :
    scan depth (before ++ '}' :: after) = .closes before := by
  replace h := settles_iff_scan.1 h
  fun_induction scan depth before with
  | case1 depth =>
    obtain rfl : depth = 0 := by simpa using h
    rfl
  | case2 depth cs ih =>
    have hscan := ih (Scan.cons_eq_leaves.1 h)
    simp only [List.cons_append, scan, hscan, Scan.cons]
  | case3 => cases h
  | case4 depth cs ih =>
    have hscan := ih (Scan.cons_eq_leaves.1 h)
    simp only [List.cons_append, scan, hscan, Scan.cons]
  | case5 depth c cs hopening hzero hsucc ih =>
    have hscan := ih (Scan.cons_eq_leaves.1 h)
    rw [List.cons_append, scan.eq_5 depth c _ hopening hzero hsucc, hscan]
    rfl

theorem exists_of_scan_eq_closes (h : scan depth text = .closes before) :
    ∃ after, text = before ++ '}' :: after ∧ Settles depth before := by
  fun_induction scan depth text generalizing before with
  | case1 depth => cases h
  | case2 depth cs ih =>
    obtain ⟨rest, hscan, rfl⟩ := Scan.cons_eq_closes.1 h
    obtain ⟨after, rfl, hopen, hcount⟩ := ih hscan
    refine ⟨after, rfl, staysOpen_cons_opening.2 hopen, ?_⟩
    simp only [List.count_cons_self, List.count_cons_of_ne opening_ne_closing]
    omega
  | case3 text =>
    cases h
    exact ⟨text, rfl, staysOpen_nil 0, rfl⟩
  | case4 depth cs ih =>
    obtain ⟨rest, hscan, rfl⟩ := Scan.cons_eq_closes.1 h
    obtain ⟨after, rfl, hopen, hcount⟩ := ih hscan
    refine ⟨after, rfl, staysOpen_cons_closing.2 hopen, ?_⟩
    simp only [List.count_cons_self, List.count_cons_of_ne opening_ne_closing.symm]
    omega
  | case5 depth c cs hopening hzero hsucc ih =>
    have hclosing := ne_closing hzero hsucc
    obtain ⟨rest, hscan, rfl⟩ := Scan.cons_eq_closes.1 h
    obtain ⟨after, rfl, hopen, hcount⟩ := ih hscan
    refine ⟨after, rfl, (staysOpen_cons_other hopening hclosing).2 hopen, ?_⟩
    rw [List.count_cons_of_ne hopening, List.count_cons_of_ne hclosing, hcount]

/-- Scanning a text tells all about it: it is closed at some place, or it leaves some braces open. -/
theorem scan_cases (depth : Nat) (text : List Char) :
    (∃ before after, text = before ++ '}' :: after ∧ Settles depth before ∧
      scan depth text = .closes before) ∨
    ∃ inner, StaysOpen depth text ∧ inner + text.count '}' = depth + text.count '{' ∧
      scan depth text = .leaves inner := by
  cases hscan : scan depth text with
  | closes before =>
    obtain ⟨after, htext, hsettles⟩ := exists_of_scan_eq_closes hscan
    exact .inl ⟨before, after, htext, hsettles, rfl⟩
  | leaves inner =>
    obtain ⟨hopen, hcount⟩ := scan_eq_leaves_iff.1 hscan
    exact .inr ⟨inner, hopen, hcount, rfl⟩

/-! ## Lines of a body -/

theorem readFrom?_eq_none_iff : readFrom? depth lines = none ↔ StaysOpen depth (chars lines) := by
  induction lines generalizing depth with
  | nil => simp [readFrom?, staysOpen_nil]
  | cons line rest ih =>
    unfold readFrom?
    rw [chars_cons]
    rcases scan_cases depth line.toList with
      ⟨before, after, hline, hsettles, hscan⟩ | ⟨inner, hopen, hcount, hscan⟩
    · rw [hscan, hline, List.append_assoc, List.cons_append]
      simp [hsettles.not_staysOpen]
    · rw [hscan, staysOpen_append hcount]
      simp [ih, hopen]

theorem readFrom?_append (hlast : last.toList = before ++ '}' :: after)
    (hsettles : Settles depth (chars between ++ before)) (more : List String) :
    readFrom? depth (between ++ last :: more) =
      some (between ++ keep before, between.length + 1) := by
  induction between generalizing depth with
  | nil =>
    rw [chars_nil, List.nil_append] at hsettles
    simp [readFrom?, hlast, scan_append_closing hsettles]
  | cons line between ih =>
    rw [chars_cons, List.append_assoc] at hsettles
    have hopen := hsettles.staysOpen.of_prefix (List.prefix_append line.toList _)
    obtain ⟨inner, hscan⟩ := staysOpen_iff_scan.1 hopen
    have hcount := (scan_eq_leaves_iff.1 hscan).2
    simp [readFrom?, hscan, ih ((settles_append hcount).1 hsettles).2]

theorem exists_of_readFrom? (h : readFrom? depth lines = some (kept, used)) :
    ∃ between last before after more, lines = between ++ last :: more ∧
      last.toList = before ++ '}' :: after ∧ Settles depth (chars between ++ before) ∧
      kept = between ++ keep before ∧ used = between.length + 1 := by
  induction lines generalizing depth kept used with
  | nil => cases h
  | cons line rest ih =>
    unfold readFrom? at h
    rcases scan_cases depth line.toList with
      ⟨before, after, hline, hsettles, hscan⟩ | ⟨inner, hopen, hcount, hscan⟩
    · rw [hscan] at h
      obtain ⟨rfl, rfl⟩ := Prod.mk.inj (Option.some.inj h)
      exact ⟨[], line, before, after, rest, rfl, hline, hsettles, rfl, rfl⟩
    · rw [hscan] at h
      obtain ⟨⟨kept', used'⟩, hread, hmap⟩ := Option.map_eq_some_iff.1 h
      obtain ⟨rfl, rfl⟩ := Prod.mk.inj hmap
      obtain ⟨between, last, before, after, more, rfl, hlast, hsettles, rfl, rfl⟩ := ih hread
      refine ⟨line :: between, last, before, after, more, rfl, hlast, ?_, rfl, rfl⟩
      rw [chars_cons, List.append_assoc]
      exact (settles_append hcount).2 ⟨hopen, hsettles⟩

/-! ## Bodies -/

/-- A body has no end where the text behind its opening brace never closes more than it opens. -/
theorem read?_eq_none_iff {rest : String} :
    read? rest lines = none ↔ StaysOpen 0 (rest.toList ++ chars lines) := by
  unfold read?
  rcases scan_cases 0 rest.toList with
    ⟨before, after, hrest, hsettles, hscan⟩ | ⟨inner, hopen, hcount, hscan⟩
  · rw [hscan, hrest, List.append_assoc, List.cons_append]
    simp [hsettles.not_staysOpen]
  · rw [hscan, staysOpen_append hcount]
    simp [readFrom?_eq_none_iff, hopen]

theorem Encloses.read? {rest : String} (h : Encloses rest.toList taken body) (more : List String) :
    read? rest (taken ++ more) = some (body, taken.length) := by
  unfold Body.read?
  cases h with
  | atOnce hrest hbalanced =>
    rw [hrest, scan_append_closing hbalanced]
    rfl
  | @later between last before after hlast hbalanced =>
    rw [List.append_assoc] at hbalanced
    have hopen := hbalanced.staysOpen.of_prefix (List.prefix_append rest.toList _)
    obtain ⟨inner, hscan⟩ := staysOpen_iff_scan.1 hopen
    have hcount := (scan_eq_leaves_iff.1 hscan).2
    have hread := readFrom?_append hlast ((settles_append hcount).1 hbalanced).2 more
    simp [hscan, hread]

/-- A body takes the text and the lines up to its closing brace, and what follows does not matter. -/
theorem read?_eq_some_iff {rest : String} : read? rest lines = some (body, used) ↔
    ∃ taken more, lines = taken ++ more ∧ used = taken.length ∧
      Encloses rest.toList taken body := by
  constructor
  · intro h
    unfold read? at h
    rcases scan_cases 0 rest.toList with
      ⟨before, after, hrest, hsettles, hscan⟩ | ⟨inner, hopen, hcount, hscan⟩
    · rw [hscan] at h
      obtain ⟨rfl, rfl⟩ := Prod.mk.inj (Option.some.inj h)
      exact ⟨[], lines, rfl, rfl, .atOnce hrest hsettles⟩
    · rw [hscan] at h
      obtain ⟨⟨kept, used'⟩, hread, hmap⟩ := Option.map_eq_some_iff.1 h
      obtain ⟨rfl, rfl⟩ := Prod.mk.inj hmap
      obtain ⟨between, last, before, after, more, rfl, hlast, hsettles, rfl, rfl⟩ :=
        exists_of_readFrom? hread
      refine ⟨between ++ [last], more, by simp, by simp, ?_⟩
      rw [← List.append_assoc]
      refine .later hlast ?_
      rw [List.append_assoc]
      exact (settles_append hcount).2 ⟨hopen, hsettles⟩
  · rintro ⟨taken, more, rfl, rfl, henc⟩
    exact henc.read? more

end ShaderIncludes.Body
