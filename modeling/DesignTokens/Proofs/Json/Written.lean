import DesignTokens.Proofs.Decimal.Reader
import DesignTokens.Proofs.Json.Number
import Mathlib.Data.List.DropRight

set_option autoImplicit false

/-! # Written numbers

The text of a number is a literal again. `Literal.text` writes the parts of a literal,
`splitLiteral?_text` reads them back, and `exists_text` says that every number of a document
is written so, with few enough digits for a decimal: at most 23 with those of the places,
and an exponent of at most four digits.

`Literal.toRat` is the number that a literal denotes.
-/

namespace DesignTokens

namespace JsonNumber

/-! ## The text of a literal -/

/-- The digits after a point, with the point. -/
def pointText : Option (List Char) → List Char
  | none => []
  | some places => '.' :: places

/-- An exponent with its sign. -/
def exponentText : Option Int → List Char
  | none => []
  | some k => 'e' :: (if k < 0 then '-' else '+') :: Nat.toDigits 10 k.natAbs

namespace Literal

/-- The digits after the point. -/
def decimals (l : Literal) : List Char := l.places.getD []

/-- A literal without its sign, as text. -/
def unsignedText (l : Literal) : List Char :=
  l.whole ++ (pointText l.places ++ exponentText l.exponent)

/-- A literal as text. -/
def text (l : Literal) : List Char := (if l.negative then ['-'] else []) ++ l.unsignedText

/-- The number in front of the exponent. -/
def mantissa (l : Literal) : Rat :=
  let magnitude := (digitsValue (l.whole ++ l.decimals) : Rat) / 10 ^ l.decimals.length
  if l.negative then -magnitude else magnitude

/-- The number that a literal denotes. -/
def toRat (l : Literal) : Rat := l.mantissa * (10 : Rat) ^ l.exponent.getD 0

/-- The grammar of literals: digits without a leading zero, and a point only in front of
digits. -/
structure IsWellFormed (l : Literal) : Prop where
  whole_digits : ∀ c ∈ l.whole, isDecimalDigit c = true
  whole_ne_nil : l.whole ≠ []
  no_leading_zero : l.whole.head? = some '0' → l.whole.length ≤ 1
  places_digits : ∀ c ∈ l.decimals, isDecimalDigit c = true
  places_ne_nil : l.places ≠ some []

/-- A literal as numbers are written. -/
structure IsWritten (l : Literal) : Prop extends IsWellFormed l where
  length_le : (l.whole ++ l.decimals).length ≤ 23
  exponent_le : ∀ k, l.exponent = some k → k.natAbs ≤ 9999

end Literal

/-! ## Reading the text of a literal -/

theorem readDigits?_toDigits (n : Nat) : readDigits? (Nat.toDigits 10 n) = some n := by
  have hall : (Nat.toDigits 10 n).all isDecimalDigit = true :=
    List.all_eq_true.mpr fun c hc => isDecimalDigit_of_mem_toDigits hc
  have hne : (Nat.toDigits 10 n).isEmpty = false := by
    simp
  rw [readDigits?, hall, hne]
  exact congrArg some (digitsValue_toDigits n)

theorem readExponent?_exponentText (exponent : Option Int) :
    readExponent? (exponentText exponent) = some exponent := by
  cases exponent with
  | none => rfl
  | some k =>
      have hdigits := readDigits?_toDigits k.natAbs
      rw [exponentText]
      split_ifs with hneg
      · simp [readExponent?, hdigits, abs_of_neg hneg]
      · simp [readExponent?, hdigits, abs_of_nonneg (not_lt.mp hneg)]

/-- The parts of a literal after its sign. -/
def splitUnsigned? (negative : Bool) (text : List Char) : Option Literal := do
  let whole := text.takeWhile isDecimalDigit
  if whole.isEmpty || (whole.head? == some '0' && 1 < whole.length) then none
  else
    match text.dropWhile isDecimalDigit with
    | '.' :: rest =>
      let places := rest.takeWhile isDecimalDigit
      if places.isEmpty then none
      else
        let exponent ← readExponent? (rest.dropWhile isDecimalDigit)
        return ⟨negative, whole, some places, exponent⟩
    | rest =>
      let exponent ← readExponent? rest
      return ⟨negative, whole, none, exponent⟩

theorem splitLiteral?_minus (text : List Char) :
    splitLiteral? ('-' :: text) = splitUnsigned? true text := rfl

theorem splitLiteral?_of_head {text : List Char} (h : text.head? ≠ some '-') :
    splitLiteral? text = splitUnsigned? false text := by
  unfold splitLiteral?
  split
  rename_i negative rest hsign
  split at hsign
  · exact absurd rfl h
  · cases hsign
    rfl

/-- A number ends where no digit follows. -/
theorem head?_exponentText (exponent : Option Int) :
    ∀ c ∈ (exponentText exponent).head?, isDecimalDigit c = false := by
  cases exponent with
  | none => intro c hc; cases hc
  | some k => intro c hc; cases hc; decide

theorem head?_pointText (places : Option (List Char)) (exponent : Option Int) :
    ∀ c ∈ (pointText places ++ exponentText exponent).head?, isDecimalDigit c = false := by
  cases places with
  | none => exact head?_exponentText exponent
  | some places => intro c hc; cases hc; decide

theorem splitUnsigned?_unsignedText {l : Literal} (h : l.IsWellFormed) :
    splitUnsigned? l.negative l.unsignedText = some l := by
  obtain ⟨negative, whole, places, exponent⟩ := l
  have hwhole : (whole.isEmpty || (whole.head? == some '0' && 1 < whole.length)) = false := by
    have hne : whole ≠ [] := h.whole_ne_nil
    have hzero : whole.head? = some '0' → whole.length ≤ 1 := h.no_leading_zero
    simpa [hne] using hzero
  have hhead := head?_pointText places exponent
  unfold splitUnsigned? Literal.unsignedText
  simp only [takeWhile_append_of_head h.whole_digits hhead,
    dropWhile_append_of_head h.whole_digits hhead, hwhole]
  cases places with
  | none =>
      simp only [pointText, List.nil_append]
      have hexponent := readExponent?_exponentText exponent
      -- no exponent starts with a point
      cases exponent with
      | none => rfl
      | some k =>
          rw [exponentText] at hexponent ⊢
          simp [hexponent]
  | some places =>
      have hne : places ≠ [] := fun hnil => h.places_ne_nil (congrArg some hnil)
      have hdigits : ∀ c ∈ places, isDecimalDigit c = true := h.places_digits
      have hend := head?_exponentText exponent
      simp only [pointText, List.cons_append, takeWhile_append_of_head hdigits hend,
        dropWhile_append_of_head hdigits hend, readExponent?_exponentText]
      simp [hne]

/-- The text of a literal is read as its parts. -/
theorem splitLiteral?_text {l : Literal} (h : l.IsWellFormed) : splitLiteral? l.text = some l := by
  have hparts := splitUnsigned?_unsignedText h
  unfold Literal.text
  cases hsign : l.negative with
  | true =>
      rw [hsign] at hparts
      exact (splitLiteral?_minus l.unsignedText).trans hparts
  | false =>
      rw [hsign] at hparts
      have hhead : l.unsignedText.head? ≠ some '-' := by
        obtain ⟨c, rest, hcons⟩ := List.exists_cons_of_ne_nil h.whole_ne_nil
        have hdigit := h.whole_digits c (by rw [hcons]; exact List.mem_cons_self)
        rw [Literal.unsignedText, hcons]
        rintro ⟨⟩
        exact absurd hdigit (by decide)
      exact (splitLiteral?_of_head hhead).trans hparts

/-! ## Numbers are written as literals -/

namespace Literal

theorem IsWritten.withSign {l : Literal} (h : l.IsWritten) (negative : Bool) :
    IsWritten { l with negative := negative } where
  whole_digits := h.whole_digits
  whole_ne_nil := h.whole_ne_nil
  no_leading_zero := h.no_leading_zero
  places_digits := h.places_digits
  places_ne_nil := h.places_ne_nil
  length_le := h.length_le
  exponent_le := h.exponent_le

end Literal

/-- Digits that a magnitude is written with. -/
structure IsSignificant (digits : List Char) : Prop where
  isDecimalDigit : ∀ c ∈ digits, isDecimalDigit c = true
  head_ne : digits.head? ≠ some '0'
  length_le : digits.length ≤ 18

theorem isSignificant_nil : IsSignificant [] where
  isDecimalDigit := by simp
  head_ne := by simp
  length_le := Nat.zero_le _

section

variable {digits : List Char}

/-- A magnitude from one on without an exponent. -/
theorem exists_text_whole (h : IsSignificant digits) {n : Nat} (hn : n ≤ 15)
    (hnil : digits = [] → n = 0) :
    ∃ l : Literal, l.negative = false ∧ l.IsWritten ∧
      l.text = writeDigits digits (Int.ofNat n) := by
  have hpositional : positional.lowest ≤ Int.ofNat n ∧ Int.ofNat n ≤ positional.highest := by
    simp only [positional, Int.ofNat_eq_natCast]
    omega
  have hlength := h.length_le
  obtain ⟨whole, hwhole⟩ : ∃ whole, whole = (digits.take (n + 1)).rightpad (n + 1) '0' := ⟨_, rfl⟩
  obtain ⟨places, hplaces⟩ : ∃ places, places =
      if (digits.drop (n + 1)).isEmpty then ['0'] else digits.drop (n + 1) := ⟨_, rfl⟩
  have hsize : whole.length = n + 1 := by
    rw [hwhole, List.rightpad, List.length_append, List.length_take, List.length_replicate]
    omega
  have hdigits : ∀ c ∈ whole, isDecimalDigit c = true := by
    intro c hc
    rw [hwhole, List.rightpad, List.mem_append] at hc
    rcases hc with hc | hc
    · exact h.isDecimalDigit c (List.mem_of_mem_take hc)
    · rw [List.eq_of_mem_replicate hc]
      decide
  have hzero : whole.head? = some '0' → whole.length ≤ 1 := by
    intro hhead
    cases digits with
    | nil =>
        have hn0 := hnil rfl
        omega
    | cons c rest =>
        rw [hwhole] at hhead
        exact absurd hhead h.head_ne
  refine ⟨⟨false, whole, some places, none⟩, rfl, ?_, ?_⟩
  · refine ⟨⟨hdigits, ?_, hzero, ?_, ?_⟩, ?_, ?_⟩
    · show whole ≠ []
      rw [← List.length_pos_iff]
      omega
    · show ∀ c ∈ places, isDecimalDigit c = true
      rw [hplaces]
      intro c hc
      split_ifs at hc
      · rw [List.mem_singleton.mp hc]
        decide
      · exact h.isDecimalDigit c (List.mem_of_mem_drop hc)
    · show some places ≠ some []
      rw [hplaces]
      split_ifs with hempty
      · exact fun hnone => List.cons_ne_nil _ _ (Option.some.inj hnone)
      · exact fun hnone => hempty (by rw [Option.some.inj hnone]; rfl)
    · show (whole ++ places).length ≤ 23
      rw [List.length_append, hsize, hplaces]
      split_ifs
      · rw [List.length_singleton]
        omega
      · rw [List.length_drop]
        omega
    · rintro k ⟨⟩
  · unfold writeDigits
    rw [if_pos hpositional, hplaces, hwhole]
    simp [Literal.text, Literal.unsignedText, pointText, exponentText]

/-- A magnitude below one without an exponent. -/
theorem exists_text_fraction (h : IsSignificant digits) (hne : digits ≠ []) {n : Nat}
    (hn : n ≤ 4) :
    ∃ l : Literal, l.negative = false ∧ l.IsWritten ∧
      l.text = writeDigits digits (Int.negSucc n) := by
  have hpositional : positional.lowest ≤ Int.negSucc n ∧ Int.negSucc n ≤ positional.highest := by
    simp only [positional]
    omega
  have hlength := h.length_le
  refine ⟨⟨false, ['0'], some (List.replicate n '0' ++ digits), none⟩, rfl, ?_, ?_⟩
  · refine ⟨⟨?_, List.cons_ne_nil _ _, fun _ => Nat.le_refl _, ?_, ?_⟩, ?_, ?_⟩
    · intro c hc
      rw [List.mem_singleton.mp hc]
      decide
    · show ∀ c ∈ List.replicate n '0' ++ digits, isDecimalDigit c = true
      intro c hc
      rcases List.mem_append.mp hc with hc | hc
      · rw [List.eq_of_mem_replicate hc]
        decide
      · exact h.isDecimalDigit c hc
    · show some (List.replicate n '0' ++ digits) ≠ some []
      exact fun hnone => hne (List.append_eq_nil_iff.mp (Option.some.inj hnone)).2
    · show (['0'] ++ (List.replicate n '0' ++ digits)).length ≤ 23
      rw [List.length_append, List.length_append, List.length_replicate, List.length_singleton]
      omega
    · rintro k ⟨⟩
  · unfold writeDigits
    rw [if_pos hpositional]
    simp [Literal.text, Literal.unsignedText, pointText, exponentText]

/-- A magnitude with an exponent. -/
theorem exists_text_scientific (h : IsSignificant digits) (hne : digits ≠ []) {exponent : Int}
    (hexponent : exponent.natAbs ≤ 9999)
    (hrange : ¬(positional.lowest ≤ exponent ∧ exponent ≤ positional.highest)) :
    ∃ l : Literal, l.negative = false ∧ l.IsWritten ∧ l.text = writeDigits digits exponent := by
  have hbound : ∀ k, some exponent = some k → k.natAbs ≤ 9999 := by
    rintro k ⟨⟩
    exact hexponent
  have hlength := h.length_le
  unfold writeDigits
  rw [if_neg hrange]
  match digits, hne with
  | [first], _ =>
      refine ⟨⟨false, [first], none, some exponent⟩, rfl, ?_, ?_⟩
      · refine ⟨⟨h.isDecimalDigit, List.cons_ne_nil _ _, fun _ => Nat.le_refl _, ?_, ?_⟩, ?_, hbound⟩
        · rintro c ⟨⟩
        · rintro ⟨⟩
        · show ([first] ++ []).length ≤ 23
          simp
      · simp [Literal.text, Literal.unsignedText, pointText, exponentText]
  | first :: second :: rest, _ =>
      refine ⟨⟨false, [first], some (second :: rest), some exponent⟩, rfl, ?_, ?_⟩
      · refine ⟨⟨?_, List.cons_ne_nil _ _, fun _ => Nat.le_refl _, ?_, ?_⟩, ?_, hbound⟩
        · intro c hc
          rw [List.mem_singleton.mp hc]
          exact h.isDecimalDigit first List.mem_cons_self
        · intro c hc
          exact h.isDecimalDigit c (List.mem_cons_of_mem first hc)
        · rintro ⟨⟩
        · show ([first] ++ second :: rest).length ≤ 23
          rw [List.singleton_append]
          omega
      · simp [Literal.text, Literal.unsignedText, pointText, exponentText]

/-- Digits of a magnitude are written as a literal, whatever their power of ten; no digits
are zero. -/
theorem exists_text_writeDigits (h : IsSignificant digits) {exponent : Int}
    (hexponent : exponent.natAbs ≤ 9999) (hnil : digits = [] → exponent = 0) :
    ∃ l : Literal, l.negative = false ∧ l.IsWritten ∧ l.text = writeDigits digits exponent := by
  by_cases hrange : positional.lowest ≤ exponent ∧ exponent ≤ positional.highest
  · have hlow : -5 ≤ exponent := hrange.1
    have hhigh : exponent ≤ 15 := hrange.2
    cases exponent with
    | ofNat n =>
        have hn : n ≤ 15 := Int.ofNat_le.mp hhigh
        exact exists_text_whole h hn fun hdigits => Int.ofNat.inj (hnil hdigits)
    | negSucc n =>
        have hne : digits ≠ [] := by
          intro hdigits
          cases hnil hdigits
        exact exists_text_fraction h hne (by omega)
  · refine exists_text_scientific h (fun hdigits => hrange ?_) hexponent hrange
    rw [hnil hdigits]
    decide

end

/-! ## The numbers of documents -/

/-- The digits of a positive number without the zeros at its end. -/
theorem isSignificant_trimZeros {n : Nat} (hn : 0 < n) (hbound : n < 10 ^ 18) :
    IsSignificant (trimZeros (Nat.toDigits 10 n)) ∧ trimZeros (Nat.toDigits 10 n) ≠ [] := by
  have hlength : (Nat.toDigits 10 n).length ≤ 18 :=
    (Nat.length_toDigits_le_iff (by decide) (by decide)).mpr hbound
  have hhead := head?_toDigits_ne_zero hn
  have hstart : trimZeros (Nat.toDigits 10 n) <+: Nat.toDigits 10 n :=
    List.rdropWhile_prefix _ _
  have hne : trimZeros (Nat.toDigits 10 n) ≠ [] := by
    intro hnil
    have hzeros := List.rdropWhile_eq_nil_iff.mp hnil
    obtain ⟨c, rest, hdigits⟩ :=
      List.exists_cons_of_ne_nil (List.length_pos_iff.mp (Nat.length_toDigits_pos (b := 10) (n := n)))
    have hc : c = '0' := by simpa using hzeros c (by rw [hdigits]; exact List.mem_cons_self)
    rw [hdigits, hc] at hhead
    exact hhead rfl
  refine ⟨⟨?_, ?_, hstart.length_le.trans hlength⟩, hne⟩
  · intro c hc
    exact isDecimalDigit_of_mem_toDigits (hstart.subset hc)
  · obtain ⟨rest, hrest⟩ := hstart
    rw [← hrest, List.head?_append_of_ne_nil _ hne] at hhead
    exact hhead

/-- A double precision magnitude is written as a literal. -/
theorem exists_text_magnitudeText {x : Binary64} (hx : x.InRange) :
    ∃ l : Literal, l.negative = false ∧ l.IsWritten ∧ l.text = magnitudeText x := by
  by_cases hsignificand : x.significand = 0
  · rw [magnitudeText, if_pos hsignificand]
    exact exists_text_writeDigits isSignificant_nil (by decide) fun _ => rfl
  · rw [magnitudeText, if_neg hsignificand]
    have hbounds := hx.shortest_bounds (Nat.pos_of_ne_zero hsignificand)
    generalize x.shortest = hit at hbounds
    obtain ⟨n, exponent⟩ := hit
    rcases hbounds with hnone | hdigits
    · cases hnone
      exact exists_text_writeDigits isSignificant_nil (by decide) fun _ => rfl
    · obtain ⟨hpos, hbound, hlow, hhigh⟩ := hdigits
      obtain ⟨hsignificant, hne⟩ := isSignificant_trimZeros hpos hbound
      have hlength : (Nat.toDigits 10 n).length ≤ 18 :=
        (Nat.length_toDigits_le_iff (by decide) (by decide)).mpr hbound
      refine exists_text_writeDigits hsignificant ?_ fun hnil => absurd hnil hne
      dsimp only at hlow hhigh hlength ⊢
      omega

/-- The literal of an integer. -/
def integerLiteral (value : Int) : Literal :=
  ⟨decide (value < 0), Nat.toDigits 10 value.natAbs, none, none⟩

theorem text_integer (value : Int) :
    (integer value).text = String.ofList (integerLiteral value).text := by
  apply String.toList_inj.mp
  rw [text, Int.toString_eq_repr, Int.repr_eq_if, String.toList_ofList]
  by_cases hneg : value < 0
  · rw [if_neg (not_le.mpr hneg)]
    have hvalue : (-value).toNat = value.natAbs := by omega
    simp [integerLiteral, Literal.text, Literal.unsignedText, pointText, exponentText, hneg, hvalue]
  · rw [if_pos (not_lt.mp hneg)]
    have hvalue : value.toNat = value.natAbs := by omega
    simp [integerLiteral, Literal.text, Literal.unsignedText, pointText, exponentText, hneg, hvalue]

theorem isWritten_integerLiteral {value : Int} (h : value.natAbs < wordBound) :
    (integerLiteral value).IsWritten := by
  have hbound : value.natAbs < 10 ^ 20 := h.trans (by decide)
  have hlength : (Nat.toDigits 10 value.natAbs).length ≤ 20 :=
    (Nat.length_toDigits_le_iff (by decide) (by decide)).mpr hbound
  refine ⟨⟨?_, ?_, ?_, ?_, ?_⟩, ?_, ?_⟩
  · exact fun c hc => isDecimalDigit_of_mem_toDigits hc
  · exact List.length_pos_iff.mp Nat.length_toDigits_pos
  · intro hhead
    rcases Nat.eq_zero_or_pos value.natAbs with hzero | hpos
    · show (Nat.toDigits 10 value.natAbs).length ≤ 1
      rw [hzero]
      decide
    · exact absurd hhead (head?_toDigits_ne_zero hpos)
  · rintro c ⟨⟩
  · rintro ⟨⟩
  · show (Nat.toDigits 10 value.natAbs ++ []).length ≤ 23
    rw [List.append_nil]
    omega
  · rintro k ⟨⟩

/-- **Every number of a document is written as a literal of few digits.** -/
theorem exists_text {number : JsonNumber} (h : number.InRange) :
    ∃ l : Literal, l.IsWritten ∧ number.text = String.ofList l.text := by
  cases number with
  | integer value => exact ⟨_, isWritten_integerLiteral h, text_integer value⟩
  | float negative magnitude =>
      obtain ⟨l, hsign, hwritten, htext⟩ := exists_text_magnitudeText h
      refine ⟨_, hwritten.withSign negative, ?_⟩
      rw [text, ← htext]
      simp [Literal.text, Literal.unsignedText, hsign]

end JsonNumber

end DesignTokens
