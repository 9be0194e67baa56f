/-!
# Blank characters

Blank means the Unicode property White_Space: 25 characters, more than core's `Char.isWhitespace`
knows. Trimming takes the blanks off the ends of a text and touches nothing between them.
-/
namespace ShaderIncludes.Text

/-- The code points of the property White_Space, as closed ranges in increasing order. -/
def blankRanges : List (Nat × Nat) :=
  [(0x9, 0xD), (0x20, 0x20), (0x85, 0x85), (0xA0, 0xA0), (0x1680, 0x1680), (0x2000, 0x200A),
   (0x2028, 0x2029), (0x202F, 0x202F), (0x205F, 0x205F), (0x3000, 0x3000)]

/-- The character has the property White_Space. -/
def isBlank (c : Char) : Bool :=
  blankRanges.any fun (low, high) => low ≤ c.toNat && c.toNat ≤ high

/-- Nothing but blanks, or nothing at all. -/
def allBlank (cs : List Char) : Bool := cs.all isBlank

def trimStart (cs : List Char) : List Char := cs.dropWhile isBlank

def trimEnd (cs : List Char) : List Char := (cs.reverse.dropWhile isBlank).reverse

def trim (cs : List Char) : List Char := trimEnd (trimStart cs)

theorem not_mem_of_allBlank {cs : List Char} {c : Char} (hc : isBlank c = false)
    (h : allBlank cs = true) : c ∉ cs := by
  intro hmem
  have hblank : isBlank c = true := List.all_eq_true.1 h c hmem
  rw [hc] at hblank
  cases hblank

@[simp] theorem allBlank_nil : allBlank [] = true := rfl

@[simp] theorem trimStart_nil : trimStart [] = [] := rfl

@[simp] theorem trimEnd_nil : trimEnd [] = [] := rfl

/-- Neither end of the text is a blank. -/
def Tight (cs : List Char) : Prop :=
  (∀ c ∈ cs.head?, isBlank c = false) ∧ ∀ c ∈ cs.getLast?, isBlank c = false

theorem tight_iff {cs : List Char} : Tight cs ↔
    cs.head?.all (!isBlank ·) = true ∧ cs.getLast?.all (!isBlank ·) = true := by
  simp [Tight, Option.all_eq_true]

instance (cs : List Char) : Decidable (Tight cs) := decidable_of_iff' _ tight_iff

theorem tight_nil : Tight [] := ⟨nofun, nofun⟩

theorem tight_cons_append {first last : Char} (hfirst : isBlank first = false)
    (hlast : isBlank last = false) (inner : List Char) : Tight (first :: (inner ++ [last])) := by
  constructor
  · intro c hc
    obtain rfl : first = c := by simpa using hc
    exact hfirst
  · intro c hc
    obtain rfl : last = c := by simpa [List.getLast?_cons] using hc
    exact hlast

theorem allBlank_append {before after : List Char} :
    allBlank (before ++ after) = true ↔ allBlank before = true ∧ allBlank after = true := by
  simp [allBlank]

theorem allBlank_reverse (cs : List Char) : allBlank cs.reverse = allBlank cs := List.all_reverse

theorem allBlank_takeWhile (cs : List Char) : allBlank (cs.takeWhile isBlank) = true :=
  List.all_takeWhile

theorem trimStart_append {before : List Char} (h : allBlank before = true) (cs : List Char) :
    trimStart (before ++ cs) = trimStart cs :=
  List.dropWhile_append_of_pos (List.all_eq_true.1 h)

theorem trimStart_cons {c : Char} (h : isBlank c = false) (cs : List Char) :
    trimStart (c :: cs) = c :: cs :=
  List.dropWhile_cons_of_neg (by simp [h])

theorem trimEnd_append {after : List Char} (h : allBlank after = true) (cs : List Char) :
    trimEnd (cs ++ after) = trimEnd cs := by
  unfold trimEnd
  rw [List.reverse_append]
  congr 1
  exact trimStart_append ((allBlank_reverse after).trans h) cs.reverse

theorem trimEnd_of_getLast {cs : List Char} (h : ∀ c ∈ cs.getLast?, isBlank c = false) :
    trimEnd cs = cs := by
  unfold trimEnd
  cases hr : cs.reverse with
  | nil => simp_all
  | cons c rest =>
    have hc : isBlank c = false := h c (by simp [List.getLast?_eq_head?_reverse, hr])
    rw [List.dropWhile_cons_of_neg (by simp [hc]), ← hr, List.reverse_reverse]

/-- Blanks around a text that has none at its ends go, and nothing else. -/
theorem trim_padded {before cs after : List Char} (hbefore : allBlank before = true)
    (hafter : allBlank after = true) (h : Tight cs) : trim (before ++ cs ++ after) = cs := by
  unfold trim
  rw [List.append_assoc, trimStart_append hbefore]
  cases cs with
  | nil =>
    have hnil : trimStart after = [] := by
      rw [← List.append_nil after, trimStart_append hafter, trimStart_nil]
    rw [List.nil_append, hnil, trimEnd_nil]
  | cons c cs =>
    rw [List.cons_append, trimStart_cons (h.1 c rfl), ← List.cons_append, trimEnd_append hafter]
    exact trimEnd_of_getLast h.2

theorem trim_of_allBlank {cs : List Char} (h : allBlank cs = true) : trim cs = [] := by
  have hpadded : trim (cs ++ [] ++ []) = [] := trim_padded h allBlank_nil tight_nil
  simpa using hpadded

theorem trim_of_tight {cs : List Char} (h : Tight cs) : trim cs = cs := by
  have hpadded : trim ([] ++ cs ++ []) = cs := trim_padded rfl rfl h
  simpa using hpadded

theorem exists_trimStart (cs : List Char) :
    ∃ before, allBlank before = true ∧ cs = before ++ trimStart cs :=
  ⟨cs.takeWhile isBlank, allBlank_takeWhile cs, List.takeWhile_append_dropWhile.symm⟩

theorem exists_trimEnd (cs : List Char) :
    ∃ after, allBlank after = true ∧ cs = trimEnd cs ++ after := by
  obtain ⟨before, hbefore, hcs⟩ := exists_trimStart cs.reverse
  refine ⟨before.reverse, (allBlank_reverse before).trans hbefore, ?_⟩
  have := congrArg List.reverse hcs
  simpa [trimEnd, trimStart] using this

/-- A text is what trimming leaves of it, with blanks around it. -/
theorem exists_trim (cs : List Char) : ∃ before after, allBlank before = true ∧
    allBlank after = true ∧ cs = before ++ trim cs ++ after := by
  obtain ⟨before, hbefore, hcs⟩ := exists_trimStart cs
  obtain ⟨after, hafter, htrim⟩ := exists_trimEnd (trimStart cs)
  refine ⟨before, after, hbefore, hafter, ?_⟩
  rw [List.append_assoc, trim, ← htrim]
  exact hcs

theorem mem_of_mem_trim {c : Char} {cs : List Char} (h : c ∈ trim cs) : c ∈ cs := by
  obtain ⟨before, after, -, -, hcs⟩ := exists_trim cs
  rw [hcs]
  exact List.mem_append_left after (List.mem_append_right before h)

theorem trimEnd_prefix (cs : List Char) : trimEnd cs <+: cs := by
  obtain ⟨after, -, hcs⟩ := exists_trimEnd cs
  exact ⟨after, hcs.symm⟩

theorem allBlank_trimEnd {cs : List Char} (h : allBlank cs = true) :
    allBlank (trimEnd cs) = true := by
  obtain ⟨after, hcs⟩ := trimEnd_prefix cs
  rw [← hcs] at h
  exact (allBlank_append.1 h).1

theorem getLast?_trimEnd (cs : List Char) : ∀ c ∈ (trimEnd cs).getLast?, isBlank c = false := by
  intro c hc
  have hhead := List.head?_dropWhile_not isBlank cs.reverse
  rw [trimEnd, List.getLast?_reverse, Option.mem_def] at hc
  rw [hc] at hhead
  exact hhead

/-- What stands in front of a character that is no blank is none of the end. -/
theorem trimEnd_append_cons {c : Char} (h : isBlank c = false) (cs rest : List Char) :
    trimEnd (cs ++ c :: rest) = cs ++ c :: trimEnd rest := by
  have hdrop : (rest.reverse ++ c :: cs.reverse).dropWhile isBlank =
      rest.reverse.dropWhile isBlank ++ c :: cs.reverse := by
    rw [List.dropWhile_append, List.dropWhile_cons_of_neg (by simp [h])]
    split
    · rename_i hempty
      rw [List.isEmpty_iff.1 hempty, List.nil_append]
    · rfl
  unfold trimEnd
  rw [List.reverse_append, List.reverse_cons, List.append_assoc, List.singleton_append, hdrop]
  simp

theorem tight_trim (cs : List Char) : Tight (trim cs) := by
  refine ⟨?_, getLast?_trimEnd _⟩
  have hhead := List.head?_dropWhile_not isBlank cs
  unfold trim
  cases hcs : trimStart cs with
  | nil => exact nofun
  | cons c rest =>
    rw [← trimStart, hcs] at hhead
    have hfirst : trimEnd (c :: rest) = c :: trimEnd rest := trimEnd_append_cons hhead [] rest
    rw [hfirst]
    rintro d ⟨⟩
    exact hhead

theorem trim_append {after : List Char} (h : allBlank after = true) (cs : List Char) :
    trim (cs ++ after) = trim cs := by
  obtain ⟨before, last, hbefore, hlast, hcs⟩ := exists_trim cs
  have hpadded : trim (before ++ trim cs ++ (last ++ after)) = trim cs :=
    trim_padded hbefore (allBlank_append.2 ⟨hlast, h⟩) (tight_trim cs)
  rwa [← List.append_assoc, ← hcs] at hpadded

/-- In front of a character that is no blank, blanks at the end of a text stay. -/
theorem exists_trim_append_cons {c : Char} (hc : isBlank c = false) {cs : List Char}
    (hne : trim cs ≠ []) (rest : List Char) :
    ∃ after, allBlank after = true ∧
      trim (cs ++ c :: rest) = trim cs ++ after ++ c :: trimEnd rest := by
  obtain ⟨before, after, hbefore, hafter, hcs⟩ := exists_trim cs
  obtain ⟨first, more, htrim⟩ := List.exists_cons_of_ne_nil hne
  have hfirst : isBlank first = false := (tight_trim cs).1 first (by rw [htrim]; rfl)
  have hsplit : cs ++ c :: rest = before ++ (trim cs ++ after ++ c :: rest) := by
    rw [← List.append_assoc, ← List.append_assoc, ← hcs]
  have hstart : trimStart (cs ++ c :: rest) = trim cs ++ after ++ c :: rest := by
    rw [hsplit, trimStart_append hbefore, htrim, List.cons_append, List.cons_append,
      trimStart_cons hfirst]
  refine ⟨after, hafter, ?_⟩
  rw [trim, hstart, trimEnd_append_cons hc]

end ShaderIncludes.Text
