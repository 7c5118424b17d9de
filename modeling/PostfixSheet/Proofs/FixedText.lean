/-
Numbers in fixed-point notation, read again.

What is written for a number is a literal.  For a finite number it has the number's sign,
and its coefficient is the number rounded to as many units as the decimal places say.
-/
import Mathlib.Tactic.Ring
import PostfixSheet.Decimal.FixedPoint
import PostfixSheet.Text.Blank
import PostfixSheet.Token

namespace PostfixSheet

open Text

namespace Decimal

variable {places width n : Nat} {x : Float} {text : String} {c : Char}

theorem tenPow_succ (n : Nat) : tenPow (n + 1) = 10 * tenPow n :=
  Nat.mul_comm (tenPow n) 10

theorem tenPow_add (m n : Nat) : tenPow (m + n) = tenPow m * tenPow n :=
  Nat.pow_add 10 m n

/-- Digits go on where others have ended. -/
theorem ofDigitChars_eq (digits : List Char) (start : Nat) :
    Nat.ofDigitChars 10 digits start = start * tenPow digits.length + digitsValue digits := by
  induction digits generalizing start with
  | nil => simp [Nat.ofDigitChars, digitsValue, tenPow]
  | cons c rest ih =>
      have hrest : digitsValue (c :: rest) =
          (c.toNat - '0'.toNat) * tenPow rest.length + digitsValue rest := by
        rw [digitsValue, Nat.ofDigitChars_cons, ih]
        simp
      rw [Nat.ofDigitChars_cons, ih, hrest, List.length_cons, tenPow_succ]
      ring

theorem digitsValue_append (left right : List Char) :
    digitsValue (left ++ right) = digitsValue left * tenPow right.length + digitsValue right := by
  rw [digitsValue, Nat.ofDigitChars_append, ofDigitChars_eq]
  rfl

theorem digitsValue_replicate_zero (n : Nat) : digitsValue (List.replicate n '0') = 0 := by
  induction n with
  | zero => rfl
  | succ n ih => rwa [List.replicate_succ, digitsValue, Nat.ofDigitChars_cons]

theorem digitsValue_leftpad (width n : Nat) :
    digitsValue ((Nat.toDigits 10 n).leftpad width '0') = n := by
  rw [List.leftpad, digitsValue_append, digitsValue_replicate_zero, digitsValue_toDigits]
  simp

theorem isDigit_toDigits (hc : c ∈ Nat.toDigits 10 n) : c.isDigit = true :=
  Nat.isDigit_of_mem_toDigits (by decide) (by decide) hc

theorem isDigit_paddedDigits (width n : Nat) : ∀ c ∈ paddedDigits width n, c.isDigit = true := by
  fun_induction paddedDigits width n with
  | case1 width n _ =>
      intro c hc
      rcases List.mem_append.1 hc with hzero | hdigit
      · obtain rfl := List.eq_of_mem_replicate hzero
        decide
      · exact isDigit_toDigits hdigit
  | case2 width n _ ihHigh ihLow =>
      intro c hc
      rcases List.mem_append.1 hc with hhigh | hlow
      · exact ihHigh c hhigh
      · exact ihLow c hlow

/-- Padded digits fill their width and denote the number, if it fits. -/
theorem paddedDigits_of_lt (hwidth : 0 < width) (hn : n < tenPow width) :
    (paddedDigits width n).length = width ∧ digitsValue (paddedDigits width n) = n := by
  fun_induction paddedDigits width n with
  | case1 width n _ =>
      refine ⟨?_, digitsValue_leftpad width n⟩
      have hlength : (Nat.toDigits 10 n).length ≤ width :=
        (Nat.length_toDigits_le_iff (by decide) hwidth).2 hn
      rw [List.leftpad, List.length_append, List.length_replicate]
      omega
  | case2 width n hlarge ihHigh ihLow =>
      have hsplit : tenPow width = tenPow (width - width / 2) * tenPow (width / 2) := by
        rw [← tenPow_add]
        congr 1
        omega
      have hhigh : n / tenPow (width / 2) < tenPow (width - width / 2) := by
        rw [Nat.div_lt_iff_lt_mul (tenPow_pos _), ← hsplit]
        exact hn
      have hlow : n % tenPow (width / 2) < tenPow (width / 2) := Nat.mod_lt _ (tenPow_pos _)
      obtain ⟨hlength, hvalue⟩ := ihHigh (by omega) hhigh
      obtain ⟨hlength', hvalue'⟩ := ihLow (by omega) hlow
      constructor
      · rw [List.length_append, hlength, hlength']
        omega
      · rw [digitsValue_append, hlength', hvalue, hvalue']
        exact Nat.div_add_mod' n _

/-- The characters of a number with decimal places: digits, and a point and digits if
there are places. -/
theorem toList_placesText (coefficient places : Nat) :
    (placesText coefficient places).toList =
      Nat.toDigits 10 (coefficient / tenPow places) ++
        if places = 0 then []
        else '.' :: paddedDigits places (coefficient % tenPow places) := by
  unfold placesText
  by_cases hzero : places = 0 <;> simp [hzero]

theorem takeWhile_isDigit {digits rest : List Char} (h : ∀ c ∈ digits, c.isDigit = true)
    (hrest : ∀ c, rest.head? = some c → c.isDigit = false) :
    (digits ++ rest).takeWhile Char.isDigit = digits ∧
      (digits ++ rest).dropWhile Char.isDigit = rest := by
  rw [List.takeWhile_append_of_pos h, List.dropWhile_append_of_pos h]
  cases rest with
  | nil => simp
  | cons c rest =>
      have hfirst := hrest c rfl
      simp [hfirst]

theorem unsigned?_whole {whole : List Char} (hne : whole ≠ [])
    (h : ∀ c ∈ whole, c.isDigit = true) :
    Literal.unsigned? whole = some (digitsValue whole, 0) := by
  have hnone : ∀ c, ([] : List Char).head? = some c → c.isDigit = false := by simp
  have hparts := takeWhile_isDigit h hnone
  rw [List.append_nil] at hparts
  simp [Literal.unsigned?, hparts, Literal.splitFraction, Literal.exponent?, hne]

theorem unsigned?_point {whole fraction : List Char} (hne : whole ≠ [])
    (h : ∀ c ∈ whole, c.isDigit = true) (h' : ∀ c ∈ fraction, c.isDigit = true) :
    Literal.unsigned? (whole ++ '.' :: fraction) =
      some (digitsValue (whole ++ fraction), -(fraction.length : Int)) := by
  have hpoint : ∀ c, ('.' :: fraction).head? = some c → c.isDigit = false := by simp
  have hnone : ∀ c, ([] : List Char).head? = some c → c.isDigit = false := by simp
  have hparts := takeWhile_isDigit h hpoint
  have hparts' := takeWhile_isDigit h' hnone
  rw [List.append_nil] at hparts'
  simp [Literal.unsigned?, hparts, hparts', Literal.splitFraction, Literal.exponent?, hne]

/-- A number with decimal places reads as its digits over that power of ten. -/
theorem unsigned?_placesText (coefficient places : Nat) :
    Literal.unsigned? (placesText coefficient places).toList =
      some (coefficient, -(places : Int)) := by
  have hne : Nat.toDigits 10 (coefficient / tenPow places) ≠ [] := Nat.toDigits_ne_nil
  have hwhole : ∀ c ∈ Nat.toDigits 10 (coefficient / tenPow places), c.isDigit = true :=
    fun c hc => isDigit_toDigits hc
  rw [toList_placesText]
  by_cases hzero : places = 0
  · subst hzero
    rw [if_pos rfl, List.append_nil, unsigned?_whole hne hwhole, digitsValue_toDigits]
    simp [tenPow]
  · obtain ⟨hlength, hvalue⟩ := paddedDigits_of_lt (Nat.pos_of_ne_zero hzero)
      (Nat.mod_lt coefficient (tenPow_pos places))
    rw [if_neg hzero, unsigned?_point hne hwhole (isDigit_paddedDigits _ _),
      digitsValue_append, hlength, hvalue, digitsValue_toDigits, Nat.div_add_mod']

theorem head?_placesText (coefficient places : Nat) :
    ∃ c, (placesText coefficient places).toList.head? = some c ∧ c.isDigit = true := by
  obtain ⟨first, rest, hdigits⟩ :=
    List.exists_cons_of_ne_nil (Nat.toDigits_ne_nil (b := 10) (n := coefficient / tenPow places))
  refine ⟨first, ?_, isDigit_toDigits (hdigits ▸ List.mem_cons_self)⟩
  rw [toList_placesText, hdigits]
  rfl

theorem toList_signText (negative : Bool) :
    (signText negative).toList = if negative then ['-'] else [] := by
  cases negative <;> rfl

theorem splitSign_signText (negative : Bool) {digits : List Char}
    (h : ∃ c, digits.head? = some c ∧ c.isDigit = true) :
    Literal.splitSign ((signText negative).toList ++ digits) = (negative, digits) := by
  obtain ⟨c, hc, hdigit⟩ := h
  obtain ⟨rest, rfl⟩ := List.head?_eq_some_iff.1 hc
  rw [toList_signText]
  cases negative with
  | true => rfl
  | false =>
      have hminus : c ≠ '-' := by
        rintro rfl
        cases hdigit
      have hplus : c ≠ '+' := by
        rintro rfl
        cases hdigit
      simp [Literal.splitSign, hminus, hplus]

/-- The literal that is written for a number. -/
def Literal.written (places : Nat) (x : Float) : Literal :=
  match exact x with
  | .nan => .nan
  | .infinite negative => .infinity negative
  | .finite negative ticks =>
    .decimal negative (divNearest (ticks * tenPow places) tickScale) (-(places : Int))

theorem ofText?_placesText (negative : Bool) (coefficient places : Nat) :
    Literal.ofText? (signText negative ++ placesText coefficient places) =
      some (.decimal negative coefficient (-(places : Int))) := by
  have hhead := head?_placesText coefficient places
  have hword : ∀ word : String, word.toList.head?.any Char.isDigit = false →
      (placesText coefficient places).toList ≠ word.toList := by
    intro word hletter hsame
    obtain ⟨c, hc, hdigit⟩ := hhead
    rw [← hsame, hc, Option.any_some, hdigit] at hletter
    cases hletter
  have hinfinity := hword "Infinity" (by decide)
  have hnan := hword "NaN" (by decide)
  rw [Literal.ofText?, String.toList_append, splitSign_signText negative hhead]
  simp only [if_neg hinfinity, if_neg hnan, unsigned?_placesText]
  rfl

theorem ofText?_nan : Literal.ofText? "NaN" = some .nan := by decide

theorem ofText?_infinity (negative : Bool) :
    Literal.ofText? (signText negative ++ "Infinity") = some (.infinity negative) := by
  cases negative <;> decide

theorem ofText?_fixed? (h : fixed? places x = some text) :
    Literal.ofText? text = some (Literal.written places x) := by
  unfold fixed? at h
  unfold Literal.written
  cases hexact : exact x with
  | nan =>
      rw [hexact] at h
      cases h
      exact ofText?_nan
  | infinite negative =>
      rw [hexact] at h
      cases h
      exact ofText?_infinity negative
  | finite negative ticks =>
      rw [hexact] at h
      dsimp only at h
      split at h
      · cases h
        exact ofText?_placesText negative _ places
      · cases h

/-- Every number has a text with at most `maxPlaces` decimal places. -/
theorem exists_fixed?_eq_some (h : places ≤ maxPlaces) (x : Float) :
    ∃ text, fixed? places x = some text := by
  unfold fixed?
  cases exact x with
  | nan => exact ⟨_, rfl⟩
  | infinite negative => exact ⟨_, rfl⟩
  | finite negative ticks => exact ⟨_, if_pos h⟩

/-- A character that shows: ASCII, and neither a space nor a control character. -/
def Shows (c : Char) : Prop :=
  33 ≤ c.toNat ∧ c.toNat ≤ 126

instance (c : Char) : Decidable (Shows c) :=
  inferInstanceAs (Decidable (_ ∧ _))

theorem shows_of_isDigit (h : c.isDigit = true) : Shows c := by
  simp only [Char.isDigit, Bool.and_eq_true, decide_eq_true_eq, ge_iff_le] at h
  have hlow : 48 ≤ c.toNat := h.1
  have hhigh : c.toNat ≤ 57 := h.2
  exact ⟨by omega, by omega⟩

theorem shows_of_all {cs : List Char} (h : cs.all (fun c => Shows c) = true) :
    ∀ c ∈ cs, Shows c := by
  simpa using h

theorem shows_signText (negative : Bool) : ∀ c ∈ (signText negative).toList, Shows c := by
  cases negative <;> exact shows_of_all (by decide)

theorem shows_placesText (coefficient places : Nat) :
    ∀ c ∈ (placesText coefficient places).toList, Shows c := by
  intro c hc
  rw [toList_placesText] at hc
  rcases List.mem_append.1 hc with hwhole | hfraction
  · exact shows_of_isDigit (isDigit_toDigits hwhole)
  · split at hfraction
    · cases hfraction
    · rcases List.mem_cons.1 hfraction with rfl | hdigit
      · decide
      · exact shows_of_isDigit (isDigit_paddedDigits _ _ c hdigit)

/-- All characters in the text of a number show. -/
theorem shows_fixed? (h : fixed? places x = some text) : ∀ c ∈ text.toList, Shows c := by
  unfold fixed? at h
  cases hexact : exact x with
  | nan =>
      rw [hexact] at h
      cases h
      exact shows_of_all (by decide)
  | infinite negative =>
      rw [hexact] at h
      cases h
      cases negative <;> exact shows_of_all (by decide)
  | finite negative ticks =>
      rw [hexact] at h
      dsimp only at h
      split at h
      · cases h
        intro c hc
        rw [String.toList_append, List.mem_append] at hc
        exact hc.elim (shows_signText negative c) (shows_placesText _ places c)
      · cases h

theorem Literal.toList_ne_nil {literal : Literal} (h : ofText? text = some literal) :
    text.toList ≠ [] := by
  intro hnil
  rw [String.toList_eq_nil_iff] at hnil
  subst hnil
  have hnone : ofText? "" = none := by decide
  rw [hnone] at h
  cases h

theorem isBlank_of_shows (h : Shows c) : isBlank c = false := by
  obtain ⟨hlow, hhigh⟩ := h
  simp [isBlank, blankRanges]
  omega

end Decimal

/-- A word that is no operator is a number if it is a literal, and else a reference. -/
theorem Token.ofText_of_not_operator {text : String}
    (h : ∀ symbol ∈ ["+", "-", "*", "/", "++", "--"], text ≠ symbol) :
    Token.ofText text =
      match Decimal.Literal.ofText? text with
      | some literal => .number literal.value
      | none => .reference text := by
  unfold Token.ofText
  split
  case h_7 => rfl
  all_goals exact absurd rfl (h _ (by decide))

theorem Token.ofText_of_literal {text : String} {literal : Decimal.Literal}
    (h : Decimal.Literal.ofText? text = some literal) :
    Token.ofText text = .number literal.value := by
  have hoperators : ∀ symbol ∈ ["+", "-", "*", "/", "++", "--"],
      Decimal.Literal.ofText? symbol = none := by decide
  rw [Token.ofText_of_not_operator, h]
  rintro symbol hsymbol rfl
  rw [hoperators _ hsymbol] at h
  cases h

end PostfixSheet
