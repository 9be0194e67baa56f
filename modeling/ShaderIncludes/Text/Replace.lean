/-!
# Replacing a text within a text

Occurrences are found from the left and do not overlap: after one is replaced, the search goes on
behind it, never within the replacement.
-/
namespace ShaderIncludes.Text

/-- Replaces in the text behind its first `skip` characters, which belong to an occurrence that has
already been replaced. -/
def replaceAfter (old new : List Char) : (skip : Nat) → List Char → List Char
  | _, [] => []
  | skip + 1, _ :: cs => replaceAfter old new skip cs
  | 0, c :: cs =>
    if old.isPrefixOf (c :: cs) then new ++ replaceAfter old new (old.length - 1) cs
    else c :: replaceAfter old new 0 cs

/-- The text with `new` for every occurrence of `old`, which is not empty. -/
def replace (old new text : List Char) : List Char := replaceAfter old new 0 text

@[simp] theorem replace_nil (old new : List Char) : replace old new [] = [] := rfl

theorem replace_cons {c : Char} {old rest : List Char} (new : List Char) (h : ¬ old <+: c :: rest) :
    replace old new (c :: rest) = c :: replace old new rest :=
  if_neg fun hprefix => h (List.isPrefixOf_iff_prefix.1 hprefix)

theorem replaceAfter_append (old new passed rest : List Char) :
    replaceAfter old new passed.length (passed ++ rest) = replace old new rest := by
  induction passed with
  | nil => rfl
  | cons c passed ih => exact ih

/-- An occurrence in front is replaced as a whole, and the search goes on behind it. -/
theorem replace_append_self (c : Char) (old new rest : List Char) :
    replace (c :: old) new (c :: old ++ rest) = new ++ replace (c :: old) new rest := by
  have hprefix : (c :: old).isPrefixOf (c :: old ++ rest) = true :=
    List.isPrefixOf_iff_prefix.2 (List.prefix_append _ _)
  have hmatch : replace (c :: old) new (c :: old ++ rest) =
      new ++ replaceAfter (c :: old) new old.length (old ++ rest) := if_pos hprefix
  rw [hmatch, replaceAfter_append]

/-- What does not have the first character of an occurrence in it stays as it is. -/
theorem replace_append_of_not_mem {c : Char} {passed : List Char} (h : c ∉ passed)
    (old new rest : List Char) :
    replace (c :: old) new (passed ++ rest) = passed ++ replace (c :: old) new rest := by
  induction passed with
  | nil => rfl
  | cons d passed ih =>
    obtain ⟨hne, hpassed⟩ := List.ne_and_not_mem_of_not_mem_cons h
    have hprefix : ¬ c :: old <+: d :: (passed ++ rest) := fun hprefix =>
      hne (List.cons_prefix_cons.1 hprefix).1
    rw [List.cons_append, replace_cons new hprefix, ih hpassed]
    rfl

end ShaderIncludes.Text
