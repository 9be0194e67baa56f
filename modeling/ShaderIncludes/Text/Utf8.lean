/-!
# Reading bytes as UTF-8

Every sequence of bytes is read as some text: where it is not well formed, each longest beginning of
a character that cannot be completed (or a byte that can begin none) becomes one replacement
character. A reader stands between two characters or within one, and then knows which bytes may
come next. The bytes that a text is written as are read as that text (`decode_encode`).
-/
namespace ShaderIncludes.Text

/-- What stands for bytes that are no character, U+FFFD. -/
def replacement : Char := Char.ofNat 0xFFFD

/-- A character begun: its bits so far, how many bytes it still needs (at least one), and the least
and the greatest byte that may come next. -/
structure Begun where
  bits : Nat
  owed : Nat
  low : Nat
  high : Nat
  deriving DecidableEq, Repr

/-- The characters that are complete, and the one begun. -/
abbrev Decoded := List Char × Option Begun

/-- A byte that follows no unfinished character. -/
def decodeFirst (b : Nat) : Decoded :=
  if b < 0x80 then ([Char.ofNat b], none)
  else if b < 0xC2 then ([replacement], none)
  else if b < 0xE0 then ([], some ⟨b - 0xC0, 1, 0x80, 0xBF⟩)
  else if b < 0xF0 then
    let low := if b = 0xE0 then 0xA0 else 0x80
    let high := if b = 0xED then 0x9F else 0xBF
    ([], some ⟨b - 0xE0, 2, low, high⟩)
  else if b < 0xF5 then
    let low := if b = 0xF0 then 0x90 else 0x80
    let high := if b = 0xF4 then 0x8F else 0xBF
    ([], some ⟨b - 0xF0, 3, low, high⟩)
  else ([replacement], none)

/-- A byte that completes or continues the character begun, or breaks it off and starts anew. -/
def decodeNext (p : Begun) (b : Nat) : Decoded :=
  if p.low ≤ b ∧ b ≤ p.high then
    let bits := p.bits * 64 + (b - 0x80)
    if p.owed ≤ 1 then ([Char.ofNat bits], none) else ([], some ⟨bits, p.owed - 1, 0x80, 0xBF⟩)
  else
    let (cs, begun) := decodeFirst b
    (replacement :: cs, begun)

def decodeStep : Option Begun → Nat → Decoded
  | none, b => decodeFirst b
  | some p, b => decodeNext p b

/-- Reads the bytes after what has been begun; a character that the end cuts off is replaced. -/
def decodeFrom : Option Begun → List UInt8 → List Char
  | none, [] => []
  | some _, [] => [replacement]
  | begun, b :: bs =>
    let (cs, next) := decodeStep begun b.toNat
    cs ++ decodeFrom next bs

def decode (bytes : List UInt8) : List Char := decodeFrom none bytes

/-- The bytes that a text is written as. -/
def encode (text : List Char) : List UInt8 := text.flatMap String.utf8EncodeChar

section
variable {bits owed low high n : Nat} {rest : List UInt8}

/-- The last byte of a character. -/
theorem decodeFrom_last (hlow : low ≤ n) (hhigh : n ≤ high) (hbyte : n < 256) :
    decodeFrom (some ⟨bits, 1, low, high⟩) (UInt8.ofNat n :: rest) =
      Char.ofNat (bits * 64 + (n - 0x80)) :: decodeFrom none rest := by
  simp [decodeFrom, decodeStep, decodeNext, UInt8.toNat_ofNat_of_lt' hbyte, hlow, hhigh]

/-- A byte of a character that is neither its first nor its last one. -/
theorem decodeFrom_next (hlow : low ≤ n) (hhigh : n ≤ high) (hbyte : n < 256) :
    decodeFrom (some ⟨bits, owed + 2, low, high⟩) (UInt8.ofNat n :: rest) =
      decodeFrom (some ⟨bits * 64 + (n - 0x80), owed + 1, 0x80, 0xBF⟩) rest := by
  simp [decodeFrom, decodeStep, decodeNext, UInt8.toNat_ofNat_of_lt' hbyte, hlow, hhigh]

theorem decodeFrom_ascii (h : n < 0x80) :
    decodeFrom none (UInt8.ofNat n :: rest) = Char.ofNat n :: decodeFrom none rest := by
  have hbyte : n < 256 := by omega
  simp [decodeFrom, decodeStep, decodeFirst, UInt8.toNat_ofNat_of_lt' hbyte, h]

/-- The first byte of a character that takes more than one. -/
theorem decodeFrom_first {begun : Begun} (hfirst : decodeFirst n = ([], some begun))
    (hbyte : n < 256) :
    decodeFrom none (UInt8.ofNat n :: rest) = decodeFrom (some begun) rest := by
  simp [decodeFrom, decodeStep, UInt8.toNat_ofNat_of_lt' hbyte, hfirst]

theorem decodeFirst_two (hlow : 0xC2 ≤ n) (hhigh : n < 0xE0) :
    decodeFirst n = ([], some ⟨n - 0xC0, 1, 0x80, 0xBF⟩) := by
  rw [decodeFirst, if_neg (by omega), if_neg (by omega), if_pos hhigh]

theorem decodeFirst_three (hlow : 0xE0 ≤ n) (hhigh : n < 0xF0) :
    decodeFirst n = ([], some ⟨n - 0xE0, 2, if n = 0xE0 then 0xA0 else 0x80,
      if n = 0xED then 0x9F else 0xBF⟩) := by
  rw [decodeFirst, if_neg (by omega), if_neg (by omega), if_neg (by omega), if_pos hhigh]

theorem decodeFirst_four (hlow : 0xF0 ≤ n) (hhigh : n < 0xF5) :
    decodeFirst n = ([], some ⟨n - 0xF0, 3, if n = 0xF0 then 0x90 else 0x80,
      if n = 0xF4 then 0x8F else 0xBF⟩) := by
  rw [decodeFirst, if_neg (by omega), if_neg (by omega), if_neg (by omega), if_neg (by omega),
    if_pos hhigh]

end

theorem decodeFrom_encodeChar (c : Char) (rest : List UInt8) :
    decodeFrom none (String.utf8EncodeChar c ++ rest) = c :: decodeFrom none rest := by
  have hvalid : c.val.toNat < 0xD800 ∨ 0xDFFF < c.val.toNat ∧ c.val.toNat < 0x110000 := c.valid
  have hself : Char.ofNat c.val.toNat = c := Char.ofNat_toNat c
  unfold String.utf8EncodeChar
  generalize c.val.toNat = v at hvalid hself
  have hchar : ∀ bits, bits = v →
      Char.ofNat bits :: decodeFrom none rest = c :: decodeFrom none rest :=
    fun bits hbits => by rw [hbits, hself]
  dsimp only
  -- the narrower ranges of a second byte leave out what fewer bytes say and what is no character
  split
  · rw [List.singleton_append, decodeFrom_ascii (by omega)]
    exact hchar _ rfl
  split
  · rw [List.cons_append, decodeFrom_first (decodeFirst_two (by omega) (by omega)) (by omega),
      List.singleton_append, decodeFrom_last (by omega) (by omega) (by omega)]
    exact hchar _ (by omega)
  split
  · rw [List.cons_append, decodeFrom_first (decodeFirst_three (by omega) (by omega)) (by omega),
      List.cons_append, decodeFrom_next (by split <;> omega) (by split <;> omega) (by omega),
      List.singleton_append, decodeFrom_last (by omega) (by omega) (by omega)]
    exact hchar _ (by omega)
  · rw [List.cons_append, decodeFrom_first (decodeFirst_four (by omega) (by omega)) (by omega),
      List.cons_append, decodeFrom_next (by split <;> omega) (by split <;> omega) (by omega),
      List.cons_append, decodeFrom_next (by omega) (by omega) (by omega),
      List.singleton_append, decodeFrom_last (by omega) (by omega) (by omega)]
    exact hchar _ (by omega)

/-- What a text is written as is read back as that text. -/
theorem decode_encode (text : List Char) : decode (encode text) = text := by
  unfold decode encode
  induction text with
  | nil => rfl
  | cons c text ih => rw [List.flatMap_cons, decodeFrom_encodeChar, ih]

end ShaderIncludes.Text
