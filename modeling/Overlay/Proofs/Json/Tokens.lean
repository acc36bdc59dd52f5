/-
Strings and numbers of JSON text, read back.

A string in quotes is read character by character: what is written for one character is read as one
piece, and the piece stands for that character again, whatever comes behind it.  The digits of a
number are read up to the first character that does not go on with it:

* `Quoted.read_escape` — the piece that is read where a character was written;
* `Quoted.draft_quoted` — a string in quotes is read as that string;
* `Literal.draft_toDigits` — the digits of a number of 64 bits are read as that number.
-/
import Overlay.Json.Basic
import Overlay.Json.Literal
import Overlay.Json.Quoted
import Mathlib.Data.List.TakeDrop

namespace Overlay

/-! ### Strings -/

namespace Quoted

theorem hexDigit?_digitChar : ∀ n < 16, hexDigit? (Nat.digitChar n) = some n := by
  decide

/-- The four digits that are written for a control character. -/
theorem hexNumber?_digitChar {n : Nat} (h : n < 32) :
    hexNumber? '0' '0' (Nat.digitChar (n / 16)) (Nat.digitChar (n % 16)) = some n := by
  have hzero : hexDigit? '0' = some 0 := rfl
  have hhigh := hexDigit?_digitChar (n / 16) (by omega)
  have hlow := hexDigit?_digitChar (n % 16) (by omega)
  simp only [hexNumber?, hzero, hhigh, hlow, Option.bind_eq_bind, Option.bind_some,
    Option.some.injEq]
  omega

/-- A unit that is no half of a pair is a character of its own. -/
theorem join_unit (cut : Bool) {code : Nat} (h : code < 0xD800) (pieces : List Piece) :
    join cut (.unit code :: pieces) = (join cut pieces).map (Char.ofNat code :: ·) := by
  have hhigh : isHigh code = false := by simp [isHigh]; omega
  have hlow : isLow code = false := by simp [isLow]; omega
  cases pieces with
  | nil => simp [join, hhigh, hlow]
  | cons piece pieces =>
    cases piece with
    | char c => simp [join, hhigh, hlow]
    | unit code' => simp [join, hhigh, hlow]

/-- A character is written by a short escape, by its code, or as it is. -/
theorem escape_cases (c : Char) :
    (∃ e, Json.escape c = ['\\', e] ∧ shortEscape? e = some c ∧ e ≠ 'u') ∨
    (Json.escape c = ['\\', 'u', '0', '0', Nat.digitChar (c.toNat / 16),
      Nat.digitChar (c.toNat % 16)] ∧ c.toNat < 32) ∨
    (Json.escape c = [c] ∧ c ≠ '"' ∧ c ≠ '\\' ∧ ¬ c.toNat < 32) := by
  unfold Json.escape
  split
  next h => exact .inl ⟨'"', rfl, by rw [h]; rfl, by decide⟩
  next hquote =>
    split
    next h => exact .inl ⟨'\\', rfl, by rw [h]; rfl, by decide⟩
    next hback =>
      split
      next h => exact .inl ⟨'b', rfl, by rw [h]; rfl, by decide⟩
      split
      next h => exact .inl ⟨'f', rfl, by rw [h]; rfl, by decide⟩
      split
      next h => exact .inl ⟨'n', rfl, by rw [h]; rfl, by decide⟩
      split
      next h => exact .inl ⟨'r', rfl, by rw [h]; rfl, by decide⟩
      split
      next h => exact .inl ⟨'t', rfl, by rw [h]; rfl, by decide⟩
      split
      -- no short escape is left: the code decides
      next hcontrol => exact .inr (.inl ⟨rfl, hcontrol⟩)
      next hplain => exact .inr (.inr ⟨rfl, hquote, hback, hplain⟩)

/-- What is written for a character is read as one piece, which stands for that character. -/
theorem read_escape (c : Char) (rest : List Char) :
    ∃ piece, read (Json.escape c ++ rest) = (piece :: (read rest).1, (read rest).2) ∧
      ∀ cut pieces, join cut (piece :: pieces) = (join cut pieces).map (c :: ·) := by
  rcases escape_cases c with ⟨e, hescape, he, hu⟩ | ⟨hescape, hcontrol⟩ |
    ⟨hescape, hquote, hback, hplain⟩
  · refine ⟨.char c, ?_, fun cut pieces => rfl⟩
    rw [hescape]
    show read ('\\' :: e :: rest) = _
    -- a short escape is known, and it is not the one that goes on with a code
    rw [read]
    · simp [he]
    · simp [hu]
    · simp [hu]
  · refine ⟨.unit c.toNat, ?_, fun cut pieces => ?_⟩
    · rw [hescape]
      show read ('\\' :: 'u' :: '0' :: '0' :: _ :: _ :: rest) = _
      rw [read, hexNumber?_digitChar hcontrol]
    · rw [join_unit cut (by omega), Char.ofNat_toNat]
  · refine ⟨.char c, ?_, fun cut pieces => rfl⟩
    rw [hescape]
    show read (c :: rest) = _
    -- neither the closing quotation mark nor an escape stands here
    rw [read]
    · simp [hplain]
    · exact hquote
    · simp [hback]
    · simp [hback]
    · simp [hback]
    · simp [hback]

/-- Character by character, a string is read as pieces that stand for it. -/
theorem exists_read_escapes (cs rest : List Char) :
    ∃ pieces, read (cs.flatMap Json.escape ++ '"' :: rest) = (pieces, .ok rest) ∧
      join false pieces = some cs := by
  induction cs with
  | nil => exact ⟨[], rfl, rfl⟩
  | cons c cs ih =>
    obtain ⟨pieces, hread, hjoin⟩ := ih
    obtain ⟨piece, hpiece, hstands⟩ := read_escape c (cs.flatMap Json.escape ++ '"' :: rest)
    refine ⟨piece :: pieces, ?_, ?_⟩
    · rw [List.flatMap_cons, List.append_assoc, hpiece, hread]
    · rw [hstands, hjoin]
      rfl

/-- A string in quotes is read as that string. -/
theorem draft_quoted (s : String) (rest : List Char) :
    draft (s.toList.flatMap Json.escape ++ '"' :: rest) = (.string s, rest) := by
  obtain ⟨pieces, hread, hjoin⟩ := exists_read_escapes s.toList rest
  rw [draft, hread]
  simp only [hjoin, String.ofList_toList]

end Quoted

/-! ### Numbers -/

namespace Literal

/-- A text that does not go on with a number. -/
def Ends (rest : List Char) : Prop :=
  ∀ c ∈ rest.head?, c.isDigit = false ∧ c ≠ '.' ∧ c ≠ 'e' ∧ c ≠ 'E'

theorem ends_nil : Ends [] := nofun

theorem ends_cons {c : Char} (rest : List Char)
    (h : c.isDigit = false ∧ c ≠ '.' ∧ c ≠ 'e' ∧ c ≠ 'E') : Ends (c :: rest) := by
  intro c' hc'
  obtain rfl : c = c' := by simpa using hc'
  exact h

theorem readDigits_append {digits rest : List Char} (hdigits : ∀ c ∈ digits, c.isDigit = true)
    (hne : digits ≠ []) (hrest : Ends rest) : readDigits (digits ++ rest) = .ok (digits, rest) := by
  -- behind the digits nothing is taken, and nothing left out
  have htake : rest.takeWhile Char.isDigit = [] := by
    cases rest with
    | nil => rfl
    | cons c rest =>
      rw [List.takeWhile_cons_of_neg]
      simp [(hrest c rfl).1]
  have hdrop : rest.dropWhile Char.isDigit = rest := by
    cases rest with
    | nil => rfl
    | cons c rest =>
      rw [List.dropWhile_cons_of_neg]
      simp [(hrest c rfl).1]
  rw [readDigits, List.span_eq_takeWhile_dropWhile, List.takeWhile_append_of_pos hdigits,
    List.dropWhile_append_of_pos hdigits, htake, hdrop, List.append_nil]
  cases digits with
  | nil => exact absurd rfl hne
  | cons d digits => rfl

/-- A number is written with a digit in front. -/
theorem exists_toDigits (n : Nat) :
    ∃ d digits, Nat.toDigits 10 n = d :: digits ∧ d.isDigit = true := by
  cases hdigits : Nat.toDigits 10 n with
  | nil => exact absurd hdigits Nat.toDigits_ne_nil
  | cons d digits =>
    have hmem : d ∈ Nat.toDigits 10 n := by simp [hdigits]
    exact ⟨d, digits, rfl, Nat.isDigit_of_mem_toDigits (by decide) (by decide) hmem⟩

/-- No number but zero starts with a zero. -/
theorem head?_toDigits_ne_zero (n : Nat) (h : 0 < n) : (Nat.toDigits 10 n).head? ≠ some '0' := by
  induction n using Nat.strongRecOn with
  | ind n ih =>
    rw [Nat.toDigits_eq_if (by decide)]
    split
    next hlt =>
      have hdigit : ∀ d < 10, 0 < d → Nat.digitChar d ≠ '0' := by decide
      simpa using hdigit n hlt h
    next hge =>
      have hhead := ih (n / 10) (by omega) (by omega)
      obtain ⟨d, digits, hdigits, -⟩ := exists_toDigits (n / 10)
      rwa [hdigits] at hhead ⊢

theorem readWhole_toDigits (n : Nat) {rest : List Char} (hrest : Ends rest) :
    readWhole (Nat.toDigits 10 n ++ rest) = .ok (Nat.toDigits 10 n, rest) := by
  have hdigits : ∀ c ∈ Nat.toDigits 10 n, c.isDigit = true :=
    fun c hc => Nat.isDigit_of_mem_toDigits (by decide) (by decide) hc
  rw [readWhole, readDigits_append hdigits Nat.toDigits_ne_nil hrest]
  simp only [bind, Except.bind]
  split
  next d digits hzero =>
    -- only zero starts with a zero, and nothing comes behind it
    exfalso
    rcases Nat.eq_zero_or_pos n with rfl | hn
    · simp at hzero
    · exact head?_toDigits_ne_zero n hn (by rw [hzero]; rfl)
  next => rfl

theorem read_toDigits (n : Nat) {rest : List Char} (hrest : Ends rest) :
    read (Nat.toDigits 10 n ++ rest) = .ok (⟨false, Nat.toDigits 10 n, [], none⟩, rest) := by
  -- there is no sign, no fraction and no exponent
  have hsign : ∀ text, Nat.toDigits 10 n ++ rest ≠ '-' :: text := by
    intro text h
    obtain ⟨d, digits, hdigits, hd⟩ := exists_toDigits n
    rw [hdigits] at h
    obtain rfl : d = '-' := by simpa using congrArg List.head? h
    exact absurd hd (by decide)
  have hfraction : readFraction rest = .ok ([], rest) := by
    cases rest with
    | nil => rfl
    | cons c rest =>
      rw [readFraction]
      intro text h
      exact (hrest c rfl).2.1 (List.cons.inj h).1
  have hexponent : readExponent rest = .ok (none, rest) := by
    cases rest with
    | nil => rfl
    | cons c rest =>
      rw [readExponent]
      · intro text h
        exact (hrest c rfl).2.2.1 (List.cons.inj h).1
      · intro text h
        exact (hrest c rfl).2.2.2 (List.cons.inj h).1
  rw [read]
  · simp only [readWhole_toDigits n hrest, hfraction, hexponent, bind, Except.bind]
  · exact hsign

/-- The digits of a number of 64 bits are read as that number. -/
theorem draft_toDigits {n : Nat} (hn : n ≤ maxWord) {rest : List Char} (hrest : Ends rest) :
    draft (Nat.toDigits 10 n ++ rest) = (.number (.whole n), rest) := by
  rw [draft, read_toDigits n hrest]
  simp [numeral?, Nat.ofDigitChars_toDigits, hn]

end Literal

end Overlay
