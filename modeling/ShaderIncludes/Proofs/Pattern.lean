/-!
# Patterns

A pattern is matched from the beginning of a text, in the order in which it is written. Where there
are several ways of matching, a part that may be repeated takes as much as it can, one that may be left
out is taken if it can be, and earlier parts choose before later ones. Main statement: the ways that are
tried are the derivations of a few rules, one for each kind of pattern (`mem_ways_iff`).
-/
namespace ShaderIncludes

/-- What a text may begin with. -/
inductive Pattern where
  /-- One character of a class. -/
  | one (allowed : Char → Bool)
  /-- Any number of characters of a class, rather more than fewer. -/
  | many (allowed : Char → Bool)
  /-- The part or nothing, rather the part. -/
  | maybe (part : Pattern)
  /-- The part, and what it takes is kept under the number. -/
  | group (number : Nat) (part : Pattern)
  /-- The one part and behind it the other. -/
  | seq (first second : Pattern)
  /-- The end of the text. -/
  | finish

namespace Pattern

/-- A way of matching a pattern: the text it takes, what its groups take of that, and the text that is
left. -/
structure Way where
  taken : List Char
  groups : List (Nat × List Char)
  rest : List Char
  deriving DecidableEq, Repr

/-- What the group of this number takes, if it is part of the way. -/
def Way.group? (way : Way) (number : Nat) : Option (List Char) := way.groups.lookup number

/-- The beginnings of a text within a class, the longest one first. -/
def runs (allowed : Char → Bool) : List Char → List Way
  | [] => [⟨[], [], []⟩]
  | c :: cs =>
    (if allowed c then (runs allowed cs).map fun way => { way with taken := c :: way.taken } else []) ++
      [⟨[], [], c :: cs⟩]

/-- All ways of matching a pattern at the beginning of a text, the preferred one first. -/
def ways : Pattern → List Char → List Way
  | one _, [] => []
  | one allowed, c :: cs => if allowed c then [⟨[c], [], cs⟩] else []
  | many allowed, text => runs allowed text
  | maybe part, text => part.ways text ++ [⟨[], [], text⟩]
  | group number part, text =>
    (part.ways text).map fun way => { way with groups := (number, way.taken) :: way.groups }
  | seq first second, text =>
    (first.ways text).flatMap fun way =>
      (second.ways way.rest).map fun more =>
        ⟨way.taken ++ more.taken, way.groups ++ more.groups, more.rest⟩
  | finish, text => if text.isEmpty then [⟨[], [], []⟩] else []

/-- The way of matching that is taken in the end. -/
def first? (pattern : Pattern) (text : List Char) : Option Way := (pattern.ways text).head?

/-- In front of `rest` the pattern takes this text, with these groups. -/
inductive Takes : Pattern → (taken : List Char) → (groups : List (Nat × List Char)) →
    (rest : List Char) → Prop where
  | one {allowed c rest} (hc : allowed c = true) : Takes (.one allowed) [c] [] rest
  | many {allowed taken rest} (htaken : ∀ c ∈ taken, allowed c = true) :
      Takes (.many allowed) taken [] rest
  | part {part taken groups rest} (hpart : Takes part taken groups rest) :
      Takes (.maybe part) taken groups rest
  | nothing {part rest} : Takes (.maybe part) [] [] rest
  | group {number part taken groups rest} (hpart : Takes part taken groups rest) :
      Takes (.group number part) taken ((number, taken) :: groups) rest
  | seq {first second taken groups more others rest}
      (hfirst : Takes first taken groups (more ++ rest)) (hsecond : Takes second more others rest) :
      Takes (.seq first second) (taken ++ more) (groups ++ others) rest
  | finish : Takes .finish [] [] []

variable {pattern part first second : Pattern} {text taken rest : List Char} {way : Way}
  {groups : List (Nat × List Char)} {allowed : Char → Bool} {number : Nat}

theorem mem_runs_iff : way ∈ runs allowed text ↔
    text = way.taken ++ way.rest ∧ way.groups = [] ∧ ∀ c ∈ way.taken, allowed c = true := by
  obtain ⟨taken, groups, rest⟩ := way
  induction text generalizing taken with
  | nil =>
    simp only [runs, List.mem_singleton, Way.mk.injEq, List.nil_eq_append_iff]
    constructor
    · rintro ⟨rfl, rfl, rfl⟩
      exact ⟨⟨rfl, rfl⟩, rfl, List.forall_mem_nil _⟩
    · rintro ⟨⟨rfl, rfl⟩, rfl, -⟩
      exact ⟨rfl, rfl, rfl⟩
  | cons c cs ih =>
    unfold runs
    rw [List.mem_append, List.mem_singleton]
    constructor
    · rintro (hlonger | hnone)
      · split at hlonger
        · rename_i hc
          obtain ⟨⟨taken', groups', rest'⟩, hmem, heq⟩ := List.mem_map.1 hlonger
          cases heq
          obtain ⟨rfl, hgroups, hall⟩ := (ih taken').1 hmem
          exact ⟨rfl, hgroups, List.forall_mem_cons.2 ⟨hc, hall⟩⟩
        · cases hlonger
      · cases hnone
        exact ⟨rfl, rfl, List.forall_mem_nil _⟩
    · rintro ⟨htext, hgroups, hall⟩
      cases hgroups
      cases taken with
      | nil => exact .inr (by rw [htext]; rfl)
      | cons d taken =>
        obtain ⟨rfl, hcs⟩ := List.cons.inj htext
        obtain ⟨hc, hall⟩ := List.forall_mem_cons.1 hall
        rw [if_pos hc]
        exact .inl (List.mem_map.2 ⟨_, (ih taken).2 ⟨hcs, rfl, hall⟩, rfl⟩)

theorem Takes.mem_ways (h : Takes pattern taken groups rest) :
    ⟨taken, groups, rest⟩ ∈ pattern.ways (taken ++ rest) := by
  induction h with
  | one hc => simp [ways, hc]
  | many htaken => exact mem_runs_iff.2 ⟨rfl, rfl, htaken⟩
  | part _ ih => exact List.mem_append_left _ ih
  | nothing => exact List.mem_append_right _ (List.mem_singleton.2 rfl)
  | group _ ih => exact List.mem_map.2 ⟨_, ih, rfl⟩
  | seq _ _ hfirst hsecond =>
    rw [← List.append_assoc] at hfirst
    exact List.mem_flatMap.2 ⟨_, hfirst, List.mem_map.2 ⟨_, hsecond, rfl⟩⟩
  | finish => exact List.mem_singleton.2 rfl

theorem takes_of_mem (h : way ∈ pattern.ways text) :
    text = way.taken ++ way.rest ∧ Takes pattern way.taken way.groups way.rest := by
  induction pattern generalizing text way with
  | one allowed =>
    cases text with
    | nil => cases h
    | cons c cs =>
      unfold ways at h
      split at h
      · rename_i hc
        cases List.mem_singleton.1 h
        exact ⟨rfl, .one hc⟩
      · cases h
  | many allowed =>
    obtain ⟨taken, groups, rest⟩ := way
    obtain ⟨htext, rfl, hall⟩ := mem_runs_iff.1 h
    exact ⟨htext, .many hall⟩
  | maybe part ih =>
    rcases List.mem_append.1 h with hpart | hnone
    · obtain ⟨htext, htakes⟩ := ih hpart
      exact ⟨htext, .part htakes⟩
    · cases List.mem_singleton.1 hnone
      exact ⟨rfl, .nothing⟩
  | group number part ih =>
    obtain ⟨inner, hinner, rfl⟩ := List.mem_map.1 h
    obtain ⟨htext, htakes⟩ := ih hinner
    exact ⟨htext, .group htakes⟩
  | seq first second hfirst hsecond =>
    obtain ⟨front, hfront, hmore⟩ := List.mem_flatMap.1 h
    obtain ⟨back, hback, rfl⟩ := List.mem_map.1 hmore
    obtain ⟨htext, htakes⟩ := hfirst hfront
    obtain ⟨hrest, htakes'⟩ := hsecond hback
    rw [hrest] at htext htakes
    exact ⟨by rw [htext, List.append_assoc], .seq htakes htakes'⟩
  | finish =>
    unfold ways at h
    split at h
    · rename_i hempty
      cases List.mem_singleton.1 h
      exact ⟨List.isEmpty_iff.1 hempty, .finish⟩
    · cases h

/-- The ways of matching are those that the rules derive. -/
theorem mem_ways_iff : way ∈ pattern.ways text ↔
    text = way.taken ++ way.rest ∧ Takes pattern way.taken way.groups way.rest := by
  constructor
  · exact takes_of_mem
  · rintro ⟨rfl, htakes⟩
    exact htakes.mem_ways

/-- All of a text that can be taken is taken, although the rest would suffice for what follows. -/
example : (seq (group 1 (many (· = 'a'))) (maybe (one (· = 'a')))).first? ['a', 'a', 'b'] =
    some ⟨['a', 'a'], [(1, ['a', 'a'])], ['b']⟩ := by
  decide

/-! ## What each kind of pattern takes -/

theorem takes_one_iff : Takes (one allowed) taken groups rest ↔
    ∃ c, allowed c = true ∧ taken = [c] ∧ groups = [] := by
  constructor
  · intro h
    cases h with
    | one hc => exact ⟨_, hc, rfl, rfl⟩
  · rintro ⟨c, hc, rfl, rfl⟩
    exact .one hc

theorem takes_many_iff : Takes (many allowed) taken groups rest ↔
    (∀ c ∈ taken, allowed c = true) ∧ groups = [] := by
  constructor
  · intro h
    cases h with
    | many hall => exact ⟨hall, rfl⟩
  · rintro ⟨hall, rfl⟩
    exact .many hall

theorem takes_maybe_iff : Takes (maybe part) taken groups rest ↔
    Takes part taken groups rest ∨ taken = [] ∧ groups = [] := by
  constructor
  · intro h
    cases h with
    | part hpart => exact .inl hpart
    | nothing => exact .inr ⟨rfl, rfl⟩
  · rintro (hpart | ⟨rfl, rfl⟩)
    · exact .part hpart
    · exact .nothing

theorem takes_group_iff : Takes (group number part) taken groups rest ↔
    ∃ inner, Takes part taken inner rest ∧ groups = (number, taken) :: inner := by
  constructor
  · intro h
    cases h with
    | group hpart => exact ⟨_, hpart, rfl⟩
  · rintro ⟨inner, hpart, rfl⟩
    exact .group hpart

theorem takes_seq_iff : Takes (seq first second) taken groups rest ↔
    ∃ front inFront back inBack, Takes first front inFront (back ++ rest) ∧
      Takes second back inBack rest ∧ taken = front ++ back ∧ groups = inFront ++ inBack := by
  constructor
  · intro h
    cases h with
    | seq hfirst hsecond => exact ⟨_, _, _, _, hfirst, hsecond, rfl, rfl⟩
  · rintro ⟨front, inFront, back, inBack, hfirst, hsecond, rfl, rfl⟩
    exact .seq hfirst hsecond

theorem takes_finish_iff : Takes finish taken groups rest ↔
    taken = [] ∧ groups = [] ∧ rest = [] := by
  constructor
  · intro h
    cases h with
    | finish => exact ⟨rfl, rfl, rfl⟩
  · rintro ⟨rfl, rfl, rfl⟩
    exact .finish

end Pattern

end ShaderIncludes
