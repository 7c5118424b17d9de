/-
The grammar of tokens.

A literal is at most one sign and then a decimal, perhaps with an exponent, or one of two
words.  Reading finds a literal exactly in the texts of this grammar, so that a token is a
number exactly for these, an operator for the six symbols, and a reference for all other
texts, however close they come to a literal.
-/
import PostfixSheet.Proofs.Reading
import PostfixSheet.Proofs.Respelling

namespace PostfixSheet

open Text

namespace Decimal.Literal

variable {cs body rest sign digits mantissa exponent : List Char} {c : Char}

def Digits (cs : List Char) : Prop :=
  cs ≠ [] ∧ ∀ c ∈ cs, c.isDigit = true

inductive Sign : List Char → Prop
  | none : Sign []
  | plus : Sign ['+']
  | minus : Sign ['-']

/-- Digits, perhaps with a point and digits after it, or a point and digits. -/
inductive Mantissa : List Char → Prop
  | whole {digits : List Char} : Digits digits → Mantissa digits
  | point {digits fraction : List Char} : Digits digits → (∀ c ∈ fraction, c.isDigit = true) →
      Mantissa (digits ++ '.' :: fraction)
  | fraction {digits : List Char} : Digits digits → Mantissa ('.' :: digits)

/-- Nothing, or `e` in either case, perhaps a sign, and digits. -/
inductive Exponent : List Char → Prop
  | none : Exponent []
  | marked {mark : Char} {sign digits : List Char} : mark = 'e' ∨ mark = 'E' → Sign sign →
      Digits digits → Exponent (mark :: (sign ++ digits))

inductive Unsigned : List Char → Prop
  | decimal {mantissa exponent : List Char} : Mantissa mantissa → Exponent exponent →
      Unsigned (mantissa ++ exponent)
  | infinity : Unsigned "Infinity".toList
  | nan : Unsigned "NaN".toList

/-- A literal: at most one sign and what may stand behind it. -/
inductive Grammar : List Char → Prop
  | intro {sign body : List Char} : Sign sign → Unsigned body → Grammar (sign ++ body)

def Plain (cs : List Char) : Prop :=
  ∀ c, cs.head? = some c → c ≠ '+' ∧ c ≠ '-'

/-- Something holds of the first character that holds of no sign. -/
theorem plain_cons {first : Char} (p : Char → Prop) (hfirst : p first) (hplus : ¬p '+')
    (hminus : ¬p '-') : Plain (first :: rest) := by
  rintro c ⟨⟩
  constructor
  · rintro rfl
    exact hplus hfirst
  · rintro rfl
    exact hminus hfirst

theorem splitSign_append (hsign : Sign sign) (hbody : Plain body) :
    (splitSign (sign ++ body)).2 = body := by
  cases hsign with
  | none =>
      unfold splitSign
      split
      · rename_i hfirst
        exact absurd rfl (hbody '-' (by rw [← List.nil_append body, hfirst]; rfl)).2
      · rename_i hfirst
        exact absurd rfl (hbody '+' (by rw [← List.nil_append body, hfirst]; rfl)).1
      · rfl
  | plus => rfl
  | minus => rfl

theorem exists_sign (cs : List Char) : ∃ sign, Sign sign ∧ cs = sign ++ (splitSign cs).2 := by
  unfold splitSign
  split
  · exact ⟨_, .minus, rfl⟩
  · exact ⟨_, .plus, rfl⟩
  · exact ⟨_, .none, rfl⟩

theorem takeWhile_of_head? (h : ∀ c, cs.head? = some c → c.isDigit = false) :
    cs.takeWhile Char.isDigit = [] ∧ cs.dropWhile Char.isDigit = cs := by
  have hnone : ∀ c ∈ ([] : List Char), c.isDigit = true := by simp
  exact takeWhile_isDigit hnone h

/-- What does not go on with a digit or a point. -/
def Stops (cs : List Char) : Prop :=
  ∀ c, cs.head? = some c → c.isDigit = false ∧ c ≠ '.'

theorem splitFraction_of_stops (h : Stops rest) : splitFraction rest = ([], rest) := by
  unfold splitFraction
  split
  · exact absurd rfl (h '.' rfl).2
  · rfl

/-- Behind a mantissa everything hangs on the exponent. -/
theorem isSome_unsigned?_append (hmantissa : Mantissa mantissa) (hrest : Stops rest) :
    (unsigned? (mantissa ++ rest)).isSome = (exponent? rest).isSome := by
  have hend : ∀ c, rest.head? = some c → c.isDigit = false := fun c hc => (hrest c hc).1
  have hpoint : ∀ cs : List Char, ∀ c, ('.' :: cs).head? = some c → c.isDigit = false := by
    rintro cs c ⟨⟩
    decide
  cases hmantissa with
  | whole hdigits =>
      obtain ⟨htake, hdrop⟩ := takeWhile_isDigit hdigits.2 hend
      simp [unsigned?, htake, hdrop, splitFraction_of_stops hrest, hdigits.1]
  | @point digits fraction hdigits hfraction =>
      obtain ⟨htake, hdrop⟩ := takeWhile_isDigit hdigits.2 (hpoint (fraction ++ rest))
      obtain ⟨htake', hdrop'⟩ := takeWhile_isDigit hfraction hend
      rw [List.append_assoc, List.cons_append]
      simp [unsigned?, htake, hdrop, splitFraction, htake', hdrop', hdigits.1]
  | @fraction digits hdigits =>
      obtain ⟨htake, hdrop⟩ := takeWhile_of_head? (hpoint (digits ++ rest))
      obtain ⟨htake', hdrop'⟩ := takeWhile_isDigit hdigits.2 hend
      simp [unsigned?, htake, hdrop, splitFraction, htake', hdrop', hdigits.1]

theorem Digits.plain (h : Digits digits) : Plain digits := by
  obtain ⟨first, rest, rfl⟩ := List.exists_cons_of_ne_nil h.1
  exact plain_cons (·.isDigit = true) (h.2 first List.mem_cons_self) (by decide) (by decide)

theorem isSome_exponent?_iff : (exponent? cs).isSome ↔ Exponent cs := by
  constructor
  · intro h
    unfold exponent? at h
    split at h
    · exact .none
    · rename_i mark tail
      obtain ⟨sign, hsign, htail⟩ := exists_sign tail
      dsimp only at h
      split at h
      · rename_i hmark
        rw [htail]
        exact .marked hmark.1 hsign (isDigits_iff.1 hmark.2)
      · cases h
  · intro h
    cases h with
    | none => rfl
    | marked hmark hsign hdigits =>
        have hbody := splitSign_append hsign hdigits.plain
        simp [exponent?, hbody, hmark, isDigits_iff.2 hdigits]

theorem Exponent.stops (h : Exponent exponent) : Stops exponent := by
  cases h with
  | none => simp [Stops]
  | marked hmark hsign hdigits =>
      rintro c ⟨⟩
      rcases hmark with rfl | rfl <;> decide

/-- Behind digits comes a point, or what ends the mantissa. -/
theorem stops_or_point (cs : List Char) :
    Stops (cs.dropWhile Char.isDigit) ∨ ∃ rest, cs.dropWhile Char.isDigit = '.' :: rest := by
  have hfirst := List.head?_dropWhile_not Char.isDigit cs
  cases htail : cs.dropWhile Char.isDigit with
  | nil => simp [Stops]
  | cons first rest =>
      rw [htail] at hfirst
      by_cases hpoint : first = '.'
      · exact Or.inr ⟨rest, by rw [hpoint]⟩
      · left
        rintro c ⟨⟩
        exact ⟨by simpa using hfirst, hpoint⟩

/-- Where a decimal is read, a mantissa has come first. -/
theorem exists_mantissa (h : (unsigned? cs).isSome) :
    ∃ mantissa rest, cs = mantissa ++ rest ∧ Mantissa mantissa ∧ (exponent? rest).isSome := by
  have hdigits : ∀ cs : List Char, ∀ c ∈ cs.takeWhile Char.isDigit, c.isDigit = true :=
    fun cs c hc => List.mem_takeWhile_imp hc
  have hwhole := hdigits cs
  have hsplit : cs.takeWhile Char.isDigit ++ cs.dropWhile Char.isDigit = cs :=
    List.takeWhile_append_dropWhile
  have htail := stops_or_point cs
  unfold unsigned? at h
  generalize cs.takeWhile Char.isDigit = whole at *
  generalize cs.dropWhile Char.isDigit = tail at *
  rcases htail with hstops | ⟨rest, rfl⟩
  · have hne : whole ≠ [] := by
      rintro rfl
      simp [splitFraction_of_stops hstops] at h
    refine ⟨whole, tail, hsplit.symm, .whole ⟨hne, hwhole⟩, ?_⟩
    simpa [splitFraction_of_stops hstops, hne] using h
  · have hfraction := hdigits rest
    have hrest : rest.takeWhile Char.isDigit ++ rest.dropWhile Char.isDigit = rest :=
      List.takeWhile_append_dropWhile
    simp only [splitFraction] at h
    generalize rest.takeWhile Char.isDigit = fraction at *
    generalize rest.dropWhile Char.isDigit = behind at *
    have hne : ¬(whole = [] ∧ fraction = []) := by
      rintro ⟨rfl, rfl⟩
      simp at h
    have hexponent : (exponent? behind).isSome := by
      simpa [hne] using h
    rw [← hsplit, ← hrest]
    by_cases hnone : whole = []
    · refine ⟨'.' :: fraction, behind, by simp [hnone], .fraction ⟨?_, hfraction⟩, hexponent⟩
      exact fun hempty => hne ⟨hnone, hempty⟩
    · exact ⟨whole ++ '.' :: fraction, behind, by simp, .point ⟨hnone, hwhole⟩ hfraction,
        hexponent⟩

theorem isSome_unsigned?_iff :
    (unsigned? cs).isSome ↔
      ∃ mantissa exponent, cs = mantissa ++ exponent ∧ Mantissa mantissa ∧ Exponent exponent := by
  constructor
  · intro h
    obtain ⟨mantissa, rest, hcs, hmantissa, hrest⟩ := exists_mantissa h
    exact ⟨mantissa, rest, hcs, hmantissa, isSome_exponent?_iff.1 hrest⟩
  · rintro ⟨mantissa, exponent, rfl, hmantissa, hexponent⟩
    rw [isSome_unsigned?_append hmantissa hexponent.stops]
    exact isSome_exponent?_iff.2 hexponent

theorem unsigned_iff :
    Unsigned cs ↔ cs = "Infinity".toList ∨ cs = "NaN".toList ∨ (unsigned? cs).isSome := by
  constructor
  · intro h
    cases h with
    | decimal hmantissa hexponent =>
        exact Or.inr (Or.inr (isSome_unsigned?_iff.2 ⟨_, _, rfl, hmantissa, hexponent⟩))
    | infinity => exact Or.inl rfl
    | nan => exact Or.inr (Or.inl rfl)
  · rintro (rfl | rfl | h)
    · exact .infinity
    · exact .nan
    · obtain ⟨mantissa, exponent, rfl, hmantissa, hexponent⟩ := isSome_unsigned?_iff.1 h
      exact .decimal hmantissa hexponent

theorem Mantissa.first (h : Mantissa mantissa) :
    ∃ c rest, mantissa = c :: rest ∧ (c.isDigit = true ∨ c = '.') := by
  cases h with
  | whole hdigits =>
      obtain ⟨c, rest, rfl⟩ := List.exists_cons_of_ne_nil hdigits.1
      exact ⟨c, rest, rfl, Or.inl (hdigits.2 c List.mem_cons_self)⟩
  | point hdigits _ =>
      obtain ⟨c, rest, rfl⟩ := List.exists_cons_of_ne_nil hdigits.1
      exact ⟨c, _, rfl, Or.inl (hdigits.2 c List.mem_cons_self)⟩
  | fraction _ => exact ⟨_, _, rfl, Or.inr rfl⟩

theorem Mantissa.plain_append (h : Mantissa mantissa) (rest : List Char) :
    Plain (mantissa ++ rest) := by
  obtain ⟨first, behind, rfl, hfirst⟩ := h.first
  exact plain_cons (fun c => c.isDigit = true ∨ c = '.') hfirst (by decide) (by decide)

theorem Unsigned.first (h : Unsigned body) :
    ∃ c rest, body = c :: rest ∧ (c.isDigit = true ∨ c ∈ ['.', 'I', 'N']) := by
  cases h with
  | decimal hmantissa _ =>
      obtain ⟨c, rest, rfl, hdigit | rfl⟩ := hmantissa.first
      · exact ⟨c, _, rfl, Or.inl hdigit⟩
      · exact ⟨_, _, rfl, Or.inr (by decide)⟩
  | infinity => exact ⟨_, _, rfl, Or.inr (by decide)⟩
  | nan => exact ⟨_, _, rfl, Or.inr (by decide)⟩

/-- What stands behind the sign does not begin with a sign again. -/
theorem Unsigned.plain (h : Unsigned body) : Plain body := by
  obtain ⟨first, rest, rfl, hfirst⟩ := h.first
  exact plain_cons (fun c => c.isDigit = true ∨ c ∈ ['.', 'I', 'N']) hfirst (by decide) (by decide)

theorem grammar_iff : Grammar cs ↔ Unsigned (splitSign cs).2 := by
  constructor
  · rintro ⟨hsign, hbody⟩
    rwa [splitSign_append hsign hbody.plain]
  · intro h
    obtain ⟨sign, hsign, hcs⟩ := exists_sign cs
    rw [hcs]
    exact .intro hsign h

theorem isSome_ofText?_iff {text : String} : (ofText? text).isSome ↔ Grammar text.toList := by
  rw [grammar_iff, unsigned_iff]
  unfold ofText?
  dsimp only
  by_cases hinfinity : (splitSign text.toList).2 = "Infinity".toList
  · rw [if_pos hinfinity]
    exact iff_of_true rfl (Or.inl hinfinity)
  · rw [if_neg hinfinity]
    by_cases hnan : (splitSign text.toList).2 = "NaN".toList
    · rw [if_pos hnan]
      exact iff_of_true rfl (Or.inr (Or.inl hnan))
    · rw [if_neg hnan, Option.isSome_map]
      simp only [hinfinity, hnan, false_or]

/-- A character that decimals are made of. -/
def Figure (c : Char) : Prop :=
  c.isDigit = true ∨ c ∈ ['.', 'e', 'E', '+', '-']

theorem Sign.figure (h : Sign sign) : ∀ c ∈ sign, Figure c := by
  cases h with
  | none => simp
  | plus =>
      simp only [List.mem_singleton, forall_eq]
      exact Or.inr (by decide)
  | minus =>
      simp only [List.mem_singleton, forall_eq]
      exact Or.inr (by decide)

theorem Mantissa.figure (h : Mantissa mantissa) : ∀ c ∈ mantissa, Figure c := by
  have hpoint : Figure '.' := Or.inr (by decide)
  cases h with
  | whole hdigits => exact fun c hc => Or.inl (hdigits.2 c hc)
  | point hdigits hfraction =>
      intro c hc
      rcases List.mem_append.1 hc with hwhole | htail
      · exact Or.inl (hdigits.2 c hwhole)
      · rcases List.mem_cons.1 htail with rfl | hdigit
        · exact hpoint
        · exact Or.inl (hfraction c hdigit)
  | fraction hdigits =>
      intro c hc
      rcases List.mem_cons.1 hc with rfl | hdigit
      · exact hpoint
      · exact Or.inl (hdigits.2 c hdigit)

theorem Exponent.figure (h : Exponent exponent) : ∀ c ∈ exponent, Figure c := by
  cases h with
  | none => simp
  | marked hmark hsign hdigits =>
      intro c hc
      rcases List.mem_cons.1 hc with rfl | htail
      · rcases hmark with rfl | rfl <;> exact Or.inr (by decide)
      · rcases List.mem_append.1 htail with hfirst | hdigit
        · exact hsign.figure c hfirst
        · exact Or.inl (hdigits.2 c hdigit)

/-- Only the two words hold other characters than decimals do. -/
theorem Unsigned.figure_or (h : Unsigned body) :
    (∀ c ∈ body, Figure c) ∨ body = "Infinity".toList ∨ body = "NaN".toList := by
  cases h with
  | decimal hmantissa hexponent =>
      left
      intro c hc
      exact (List.mem_append.1 hc).elim (hmantissa.figure c) (hexponent.figure c)
  | infinity => exact Or.inr (Or.inl rfl)
  | nan => exact Or.inr (Or.inr rfl)

/-- The words that a reader of numbers may know for what is not finite, in any case. -/
def Word (cs : List Char) : Prop :=
  cs.map Char.toLower ∈ ["inf".toList, "infinity".toList, "nan".toList]

/-- What a reader of numbers takes that knows these words in any case: at most one sign, and
a word or a decimal. -/
def Numeric (cs : List Char) : Prop :=
  ∃ sign body, cs = sign ++ body ∧ Sign sign ∧
    (Word body ∨
      ∃ mantissa exponent, body = mantissa ++ exponent ∧ Mantissa mantissa ∧ Exponent exponent)

/-- What is let through to such a reader: behind one sign, the characters of decimals in any
order, or one of the two words exactly. -/
def Admitted (cs : List Char) : Prop :=
  (∀ c ∈ (splitSign cs).2, Figure c) ∨
    (splitSign cs).2 = "Infinity".toList ∨ (splitSign cs).2 = "NaN".toList

theorem not_figure_of_toLower (h : c.toLower = 'i' ∨ c.toLower = 'n') : ¬Figure c := by
  rintro (hdigit | hother)
  · have hsmall : c.val ≤ '9'.val := of_decide_eq_true (Bool.and_eq_true_iff.1 hdigit).2
    have hsame : c.toLower = c := dif_neg fun hupper =>
      absurd (UInt32.le_trans hupper.1 hsmall) (by decide)
    rw [hsame] at h
    rcases h with rfl | rfl <;> cases hdigit
  · simp only [List.mem_cons, List.not_mem_nil, or_false] at hother
    rcases hother with rfl | rfl | rfl | rfl | rfl <;> revert h <;> decide

theorem Word.first (h : Word body) :
    ∃ c rest, body = c :: rest ∧ (c.toLower = 'i' ∨ c.toLower = 'n') := by
  cases body with
  | nil => exact absurd h (by unfold Word; decide)
  | cons c rest =>
      refine ⟨c, rest, rfl, ?_⟩
      simp only [Word, List.map_cons, List.mem_cons, List.not_mem_nil, or_false] at h
      rcases h with h | h | h
      · exact Or.inl (List.cons.inj h).1
      · exact Or.inl (List.cons.inj h).1
      · exact Or.inr (List.cons.inj h).1

theorem Word.not_figures (h : Word body) : ¬∀ c ∈ body, Figure c := by
  obtain ⟨c, rest, rfl, hfirst⟩ := h.first
  exact fun hall => not_figure_of_toLower hfirst (hall c List.mem_cons_self)

theorem Word.plain (h : Word body) : Plain body := by
  obtain ⟨first, rest, rfl, hfirst⟩ := h.first
  exact plain_cons (fun c => c.toLower = 'i' ∨ c.toLower = 'n') hfirst (by decide) (by decide)

/-- The literals are what such a reader takes of that which is let through to it. -/
theorem grammar_iff_numeric : Grammar cs ↔ Numeric cs ∧ Admitted cs := by
  constructor
  · rintro ⟨hsign, hbody⟩
    refine ⟨⟨_, _, rfl, hsign, ?_⟩, ?_⟩
    · cases hbody with
      | decimal hmantissa hexponent => exact Or.inr ⟨_, _, rfl, hmantissa, hexponent⟩
      | infinity => exact Or.inl (by unfold Word; decide)
      | nan => exact Or.inl (by unfold Word; decide)
    · rw [Admitted, splitSign_append hsign hbody.plain]
      exact hbody.figure_or
  · rintro ⟨⟨sign, body, rfl, hsign, hword | ⟨_, _, rfl, hmantissa, hexponent⟩⟩, hadmitted⟩
    · rw [Admitted, splitSign_append hsign hword.plain] at hadmitted
      rcases hadmitted with hfigures | rfl | rfl
      · exact absurd hfigures hword.not_figures
      · exact .intro hsign .infinity
      · exact .intro hsign .nan
    · exact .intro hsign (.decimal hmantissa hexponent)

/-- Texts that come close to a literal. -/
inductive NearMiss : List Char → Prop
  | empty : NearMiss []
  /-- One of the words in another case. -/
  | word {sign body : List Char} : Sign sign → Word body → body ≠ "Infinity".toList →
      body ≠ "NaN".toList → NearMiss (sign ++ body)
  /-- Two signs; two equal ones with nothing behind them are an operator. -/
  | signs {first second : Char} {rest : List Char} : first ∈ ['+', '-'] → second ∈ ['+', '-'] →
      first ≠ second ∨ rest ≠ [] → NearMiss (first :: second :: rest)
  /-- Some character is not in ASCII. -/
  | foreign {cs : List Char} {c : Char} : c ∈ cs → 128 ≤ c.toNat → NearMiss cs
  /-- A point without a digit. -/
  | point {sign exponent : List Char} : Sign sign → Exponent exponent →
      NearMiss (sign ++ '.' :: exponent)
  /-- An exponent with nothing before it. -/
  | exponent {sign exponent : List Char} : Sign sign → Exponent exponent → exponent ≠ [] →
      NearMiss (sign ++ exponent)
  /-- An exponent without digits. -/
  | unfinished {sign mantissa sign' : List Char} {mark : Char} : Sign sign → Mantissa mantissa →
      mark = 'e' ∨ mark = 'E' → Sign sign' → NearMiss (sign ++ (mantissa ++ mark :: sign'))
  /-- The name of a cell. -/
  | name {letter : Char} {digits : List Char} : letter.isAlpha = true → Digits digits →
      NearMiss (letter :: digits)

theorem Figure.toNat_lt (h : Figure c) : c.toNat < 128 := by
  rcases h with hdigit | hother
  · have hsmall : c.val ≤ '9'.val := of_decide_eq_true (Bool.and_eq_true_iff.1 hdigit).2
    exact Nat.lt_of_le_of_lt (UInt32.le_iff_toNat_le.1 hsmall) (by decide)
  · simp only [List.mem_cons, List.not_mem_nil, or_false] at hother
    rcases hother with rfl | rfl | rfl | rfl | rfl <;> decide

theorem Grammar.toNat_lt (h : Grammar cs) : ∀ c ∈ cs, c.toNat < 128 := by
  obtain ⟨hsign, hbody⟩ := h
  have hwords : ∀ word ∈ ["Infinity".toList, "NaN".toList],
      word.all (fun c => decide (c.toNat < 128)) = true := by decide
  have hword : ∀ word ∈ ["Infinity".toList, "NaN".toList], ∀ c ∈ word, c.toNat < 128 :=
    fun word hmem c hc => of_decide_eq_true (List.all_eq_true.1 (hwords word hmem) c hc)
  intro c hc
  rcases List.mem_append.1 hc with hc | hc
  · exact (hsign.figure c hc).toNat_lt
  · rcases hbody.figure_or with hfigures | rfl | rfl
    · exact (hfigures c hc).toNat_lt
    · exact hword _ (by decide) c hc
    · exact hword _ (by decide) c hc

theorem Exponent.first (h : Exponent exponent) (hne : exponent ≠ []) :
    ∃ mark rest, exponent = mark :: rest ∧ (mark = 'e' ∨ mark = 'E') := by
  cases h with
  | none => exact absurd rfl hne
  | marked hmark _ _ => exact ⟨_, _, rfl, hmark⟩

theorem Exponent.not_unsigned (h : Exponent exponent) (hne : exponent ≠ []) :
    ¬Unsigned exponent := by
  intro hunsigned
  obtain ⟨mark, rest, rfl, hmark⟩ := h.first hne
  obtain ⟨c, rest', hsame, hfirst⟩ := hunsigned.first
  obtain ⟨rfl, rfl⟩ := List.cons.inj hsame
  rcases hmark with rfl | rfl <;> revert hfirst <;> decide

/-- A point needs a digit at one side. -/
theorem Exponent.not_unsigned_point (h : Exponent exponent) : ¬Unsigned ('.' :: exponent) := by
  obtain ⟨htake, -⟩ := takeWhile_of_head? fun c hc => (h.stops c hc).1
  rw [unsigned_iff]
  rintro (hword | hword | hsome)
  · exact absurd (List.cons.inj hword).1 (by decide)
  · exact absurd (List.cons.inj hword).1 (by decide)
  · simp [unsigned?, splitFraction, htake] at hsome

theorem Mantissa.ne_word (h : Mantissa mantissa) (rest : List Char) :
    mantissa ++ rest ≠ "Infinity".toList ∧ mantissa ++ rest ≠ "NaN".toList := by
  obtain ⟨first, behind, rfl, hfirst⟩ := h.first
  constructor
  · intro hword
    obtain ⟨rfl, -⟩ := List.cons.inj hword
    revert hfirst
    decide
  · intro hword
    obtain ⟨rfl, -⟩ := List.cons.inj hword
    revert hfirst
    decide

/-- A mark of an exponent needs digits behind it. -/
theorem Mantissa.not_unsigned (h : Mantissa mantissa) {mark : Char}
    (hmark : mark = 'e' ∨ mark = 'E') (hsign : Sign sign) :
    ¬Unsigned (mantissa ++ mark :: sign) := by
  have hstops : Stops (mark :: sign) := by
    rintro c ⟨⟩
    rcases hmark with rfl | rfl <;> decide
  have hexponent : (exponent? (mark :: sign)).isSome = false := by
    cases hsign <;> simp [exponent?, splitSign, isDigits]
  rw [unsigned_iff, isSome_unsigned?_append h hstops, hexponent]
  rintro (hword | hword | hsome)
  · exact (h.ne_word _).1 hword
  · exact (h.ne_word _).2 hword
  · cases hsome

theorem not_grammar_append (hsign : Sign sign) (hbody : Plain body) (h : ¬Unsigned body) :
    ¬Grammar (sign ++ body) := by
  rwa [grammar_iff, splitSign_append hsign hbody]

/-- However close they come, they are no literals. -/
theorem NearMiss.not_grammar (h : NearMiss cs) : ¬Grammar cs := by
  cases h with
  | empty =>
      rw [grammar_iff, unsigned_iff]
      decide
  | word hsign hword hinfinity hnan =>
      refine not_grammar_append hsign hword.plain fun hbody => ?_
      rcases hbody.figure_or with hfigures | hsame | hsame
      · exact hword.not_figures hfigures
      · exact hinfinity hsame
      · exact hnan hsame
  | @signs first second rest hfirst hsecond _ =>
      have hsplit : (splitSign (first :: second :: rest)).2 = second :: rest := by
        simp only [List.mem_cons, List.not_mem_nil, or_false] at hfirst
        rcases hfirst with rfl | rfl <;> rfl
      rw [grammar_iff, hsplit]
      intro hbody
      obtain ⟨hplus, hminus⟩ := hbody.plain second rfl
      simp [hplus, hminus] at hsecond
  | foreign hmem hlarge => exact fun hgrammar => absurd (hgrammar.toNat_lt _ hmem) (by omega)
  | point hsign hexponent =>
      refine not_grammar_append hsign ?_ hexponent.not_unsigned_point
      rintro c ⟨⟩
      decide
  | exponent hsign hexponent hne =>
      refine not_grammar_append hsign ?_ (hexponent.not_unsigned hne)
      obtain ⟨mark, rest, rfl, hmark⟩ := hexponent.first hne
      exact plain_cons (fun c => c = 'e' ∨ c = 'E') hmark (by decide) (by decide)
  | unfinished hsign hmantissa hmark hsign' =>
      exact not_grammar_append hsign (hmantissa.plain_append _)
        (hmantissa.not_unsigned hmark hsign')
  | @name letter digits hletter hdigits =>
      have hnone := ofText?_of_name hletter hdigits.1 hdigits.2
      intro hgrammar
      rw [← @String.toList_ofList (letter :: digits), ← isSome_ofText?_iff, hnone] at hgrammar
      cases hgrammar

/-- Nor are they operators: they have a character that no operator has, or are two signs. -/
theorem NearMiss.not_symbol (h : NearMiss cs) :
    ∀ symbol ∈ ["+", "-", "*", "/", "++", "--"], cs ≠ symbol.toList := by
  have hother : ∀ p : Char → Bool, (∃ c ∈ cs, p c = true) →
      (∀ symbol ∈ ["+", "-", "*", "/", "++", "--"], symbol.toList.any p = false) →
      ∀ symbol ∈ ["+", "-", "*", "/", "++", "--"], cs ≠ symbol.toList := by
    rintro p ⟨c, hc, hp⟩ hnone symbol hsymbol rfl
    exact List.any_eq_false.1 (hnone symbol hsymbol) c hc hp
  cases h with
  | empty => decide
  | word hsign hword _ _ =>
      obtain ⟨c, rest, rfl, hfirst⟩ := hword.first
      exact hother (fun c => decide (c.toLower = 'i' ∨ c.toLower = 'n'))
        ⟨c, by simp, decide_eq_true hfirst⟩ (by decide)
  | signs hfirst hsecond hmore =>
      simp only [List.mem_cons, List.not_mem_nil, or_false] at hfirst hsecond
      rcases hfirst with rfl | rfl <;> rcases hsecond with rfl | rfl <;> simp_all
  | @foreign _ c hmem hlarge =>
      exact hother (fun c => decide (128 ≤ c.toNat)) ⟨c, hmem, decide_eq_true hlarge⟩ (by decide)
  | point hsign hexponent => exact hother (· == '.') ⟨'.', by simp, rfl⟩ (by decide)
  | exponent hsign hexponent hne =>
      obtain ⟨mark, rest, rfl, hmark⟩ := hexponent.first hne
      exact hother (fun c => decide (c = 'e' ∨ c = 'E')) ⟨mark, by simp, decide_eq_true hmark⟩
        (by decide)
  | @unfinished sign mantissa sign' mark hsign hmantissa hmark hsign' =>
      exact hother (fun c => decide (c = 'e' ∨ c = 'E')) ⟨mark, by simp, decide_eq_true hmark⟩
        (by decide)
  | @name letter digits hletter hdigits =>
      exact hother Char.isAlpha ⟨letter, by simp, hletter⟩ (by decide)

end Decimal.Literal

namespace Token

open Decimal.Literal

variable {text : String}

/-- Where a token comes from. -/
theorem ofText_cases (text : String) :
    (∃ op : BinaryOperator, text = op.symbol ∧ ofText text = .binary op) ∨
      (∃ op : UnaryOperator, text = op.symbol ∧ ofText text = .unary op) ∨
      (∃ literal, ofText? text = some literal ∧ ofText text = .number literal.value) ∨
      ofText? text = none ∧ ofText text = .reference text := by
  unfold ofText
  split
  · exact Or.inl ⟨.add, rfl, rfl⟩
  · exact Or.inl ⟨.subtract, rfl, rfl⟩
  · exact Or.inl ⟨.multiply, rfl, rfl⟩
  · exact Or.inl ⟨.divide, rfl, rfl⟩
  · exact Or.inr (Or.inl ⟨.increment, rfl, rfl⟩)
  · exact Or.inr (Or.inl ⟨.decrement, rfl, rfl⟩)
  · split
    · rename_i literal hliteral
      exact Or.inr (Or.inr (Or.inl ⟨literal, hliteral, rfl⟩))
    · rename_i hnone
      exact Or.inr (Or.inr (Or.inr ⟨hnone, rfl⟩))

theorem ofText_eq_binary_iff {op : BinaryOperator} :
    ofText text = .binary op ↔ text = op.symbol := by
  constructor
  · intro h
    rcases ofText_cases text with
      ⟨_, hsymbol, hfound⟩ | ⟨_, _, hfound⟩ | ⟨_, _, hfound⟩ | ⟨_, hfound⟩
    all_goals cases h.symm.trans hfound
    exact hsymbol
  · rintro rfl
    cases op <;> rfl

theorem ofText_eq_unary_iff {op : UnaryOperator} :
    ofText text = .unary op ↔ text = op.symbol := by
  constructor
  · intro h
    rcases ofText_cases text with
      ⟨_, _, hfound⟩ | ⟨_, hsymbol, hfound⟩ | ⟨_, _, hfound⟩ | ⟨_, hfound⟩
    all_goals cases h.symm.trans hfound
    exact hsymbol
  · rintro rfl
    cases op <;> rfl

theorem ofText_eq_number_iff : (∃ value, ofText text = .number value) ↔ Grammar text.toList := by
  rw [← isSome_ofText?_iff]
  constructor
  · rintro ⟨value, h⟩
    rcases ofText_cases text with
      ⟨_, _, hfound⟩ | ⟨_, _, hfound⟩ | ⟨literal, hliteral, hfound⟩ | ⟨_, hfound⟩
    all_goals cases h.symm.trans hfound
    rw [hliteral]
    rfl
  · intro h
    obtain ⟨literal, hliteral⟩ := Option.isSome_iff_exists.1 h
    exact ⟨_, ofText_of_literal hliteral⟩

theorem eq_of_ofText_eq_reference {kept : String} (h : ofText text = .reference kept) :
    kept = text := by
  rcases ofText_cases text with
    ⟨_, _, hfound⟩ | ⟨_, _, hfound⟩ | ⟨_, _, hfound⟩ | ⟨_, hfound⟩
  all_goals cases h.symm.trans hfound
  rfl

/-- What is neither a literal nor an operator is a reference, which keeps the text. -/
theorem ofText_eq_reference_iff {kept : String} :
    ofText text = .reference kept ↔
      kept = text ∧ ¬Grammar text.toList ∧ (∀ op : BinaryOperator, text ≠ op.symbol) ∧
        ∀ op : UnaryOperator, text ≠ op.symbol := by
  constructor
  · intro h
    refine ⟨eq_of_ofText_eq_reference h, ?_, ?_, ?_⟩
    · intro hgrammar
      obtain ⟨value, hnumber⟩ := ofText_eq_number_iff.2 hgrammar
      cases h.symm.trans hnumber
    · intro op hop
      cases h.symm.trans (ofText_eq_binary_iff.2 hop)
    · intro op hop
      cases h.symm.trans (ofText_eq_unary_iff.2 hop)
  · rintro ⟨rfl, hgrammar, hbinary, hunary⟩
    cases h : ofText kept with
    | number value => exact absurd (ofText_eq_number_iff.1 ⟨value, h⟩) hgrammar
    | binary op => exact absurd (ofText_eq_binary_iff.1 h) (hbinary op)
    | unary op => exact absurd (ofText_eq_unary_iff.1 h) (hunary op)
    | reference other => rw [eq_of_ofText_eq_reference h]

/-- A text is a number exactly if it is a literal, which is what a reader of numbers that
knows its words in any case takes of the texts that are let through to it.  It is an operator
exactly if it is the operator's symbol.  Every other text is a reference and is kept as it
is; among them are the texts that come close to a literal, and the names of cells. -/
theorem ofText_grammar (text : String) :
    ((∃ value, ofText text = .number value) ↔ Grammar text.toList) ∧
      (Grammar text.toList ↔ Numeric text.toList ∧ Admitted text.toList) ∧
      (∀ op, ofText text = .binary op ↔ text = op.symbol) ∧
      (∀ op, ofText text = .unary op ↔ text = op.symbol) ∧
      (∀ kept, ofText text = .reference kept ↔
        kept = text ∧ ¬Grammar text.toList ∧ (∀ op : BinaryOperator, text ≠ op.symbol) ∧
          ∀ op : UnaryOperator, text ≠ op.symbol) ∧
      (NearMiss text.toList → ofText text = .reference text) := by
  refine ⟨ofText_eq_number_iff, grammar_iff_numeric, fun _ => ofText_eq_binary_iff,
    fun _ => ofText_eq_unary_iff, fun _ => ofText_eq_reference_iff, fun hnear => ?_⟩
  have hsymbol : ∀ symbol ∈ ["+", "-", "*", "/", "++", "--"], text ≠ symbol := by
    rintro symbol hsymbol rfl
    exact hnear.not_symbol _ hsymbol rfl
  refine ofText_eq_reference_iff.2 ⟨rfl, hnear.not_grammar, ?_, ?_⟩
  · intro op
    exact hsymbol _ (by cases op <;> decide)
  · intro op
    exact hsymbol _ (by cases op <;> decide)

namespace GrammarWitness

/-- With a digit after the point this would be a number. -/
theorem ofText_grammar_point :
    NearMiss "-.e5".toList ∧ ofText "-.e5" = .reference "-.e5" ∧
      Grammar "-.0e5".toList ∧ ∃ value, ofText "-.0e5" = .number value := by
  have hdigits : Digits ['5'] := ⟨by simp, by simp⟩
  have hexponent : Exponent ['e', '5'] := .marked (Or.inl rfl) .none hdigits
  have hnear : NearMiss "-.e5".toList := .point .minus hexponent
  have hgrammar : Grammar "-.0e5".toList :=
    .intro .minus (.decimal (.fraction ⟨List.cons_ne_nil '0' [], by simp⟩) hexponent)
  obtain ⟨-, -, -, -, -, hreference⟩ := ofText_grammar "-.e5"
  exact ⟨hnear, hreference hnear, hgrammar, (ofText_grammar "-.0e5").1.2 hgrammar⟩

end GrammarWitness

end Token

end PostfixSheet
