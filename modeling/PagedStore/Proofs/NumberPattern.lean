import Mathlib.Computability.RegularExpressions
import Mathlib.Data.List.TakeWhile
import PagedStore.Decimal.Numeral

/-!
# The pattern of numbers

A written number is what the pattern `[+-]?(D+(.D*)?|.D+)([eE][+-]?D+)?` matches, where `D` stands
for a decimal digit and `.` for the point itself. The pattern is told as a regular expression
(`Pattern.number`), with no regard to how numbers are read.

Reading takes from the front of a byte string the longest text that the pattern matches
(`read?_eq_none_iff`, `LongestMatch.of_read?`). The two meet in the numerals whose parts are as
they should be (`Numeral.Proper`): their texts are just what the pattern matches, and they are just
what is read. A reader that does not look back could still stop too early or run into a mark that
no digits follow. It does neither, since of a string that begins with the text of a proper numeral
it never leaves any of that text (`Numeral.Proper.read?_append`).
-/

set_option autoImplicit false

namespace PagedStore.Decimal

/-! ## The pattern -/

namespace Pattern

/-- One of some bytes. -/
def oneOf (bs : Bytes) : RegularExpression UInt8 := bs.foldr (fun b p => .char b + p) 0

/-- What a pattern matches, or nothing. -/
def optional (p : RegularExpression UInt8) : RegularExpression UInt8 := 1 + p

/-- The digit `D`. -/
def digit : RegularExpression UInt8 := oneOf [48, 49, 50, 51, 52, 53, 54, 55, 56, 57]

/-- Digits, at least one: `D+`. -/
def digits : RegularExpression UInt8 := digit * digit.star

/-- The point. -/
def point : RegularExpression UInt8 := oneOf [46]

/-- The sign, if there is one: `[+-]?`. -/
def sign : RegularExpression UInt8 := optional (oneOf [43, 45])

/-- Digits with or without a point: `D+(.D*)?|.D+`. -/
def mantissa : RegularExpression UInt8 :=
  digits * optional (point * digit.star) + point * digits

/-- The exponent, if there is one: `([eE][+-]?D+)?`. -/
def exponent : RegularExpression UInt8 := optional (oneOf [101, 69] * (sign * digits))

/-- A number: `[+-]?(D+(.D*)?|.D+)([eE][+-]?D+)?`. -/
def number : RegularExpression UInt8 := sign * (mantissa * exponent)

end Pattern

/-- The longest front of a byte string that a pattern matches. -/
structure LongestMatch (p : RegularExpression UInt8) (bs text : Bytes) : Prop where
  front : text <+: bs
  matched : text ∈ p.matches'
  longest : ∀ front, front <+: bs → front ∈ p.matches' → front.length ≤ text.length

/-! ## Parts of numerals -/

/-- Decimal digits and nothing else. -/
def AllDigits (ds : Bytes) : Prop := ∀ d ∈ ds, isDigit d = true

/-- A sign, or none. -/
def IsSign (sign : Bytes) : Prop := sign = [] ∨ sign = [43] ∨ sign = [45]

/-- An exponent with a mark and digits, and perhaps a sign. -/
structure Exponent.Proper (e : Exponent) : Prop where
  mark : e.mark = 101 ∨ e.mark = 69
  sign : IsSign e.sign
  digits : AllDigits e.digits
  digits_ne : e.digits ≠ []

/-- A numeral with digits before its point or behind it. -/
structure Numeral.Proper (x : Numeral) : Prop where
  sign : IsSign x.sign
  whole : AllDigits x.whole
  fraction : ∀ ds ∈ x.fraction, AllDigits ds
  exponent : ∀ e ∈ x.exponent, e.Proper
  digits_ne : x.whole ≠ [] ∨ ∃ ds ∈ x.fraction, ds ≠ []

/-- The text of a fraction, if there is one. -/
def fractionText (f : Option Bytes) : Bytes := (f.map (46 :: ·)).getD []

/-- The text of an exponent, if there is one. -/
def exponentText (e : Option Exponent) : Bytes := (e.map (·.text)).getD []

theorem Numeral.text_eq (x : Numeral) :
    x.text = x.sign ++ x.whole ++ fractionText x.fraction ++ exponentText x.exponent := rfl

theorem isDigit_iff {b : UInt8} :
    isDigit b = true ↔ b ∈ ([48, 49, 50, 51, 52, 53, 54, 55, 56, 57] : Bytes) := by
  simp only [isDigit, Bool.and_eq_true, decide_eq_true_eq, UInt8.le_iff_toNat_le, List.mem_cons,
    List.not_mem_nil, or_false, ← UInt8.toNat_inj, UInt8.reduceToNat]
  omega

/-! ## What the pattern matches -/

namespace Pattern

variable {p q : RegularExpression UInt8} {bs x : Bytes}

theorem mem_oneOf : x ∈ (oneOf bs).matches' ↔ ∃ b ∈ bs, x = [b] := by
  induction bs with
  | nil => simp [oneOf, Language.notMem_zero]
  | cons b bs ih =>
      show x ∈ (RegularExpression.char b + oneOf bs).matches' ↔ _
      rw [RegularExpression.matches'_add, Language.mem_add, ih, List.exists_mem_cons_iff]
      rfl

theorem mem_optional : x ∈ (optional p).matches' ↔ x = [] ∨ x ∈ p.matches' := Iff.rfl

theorem mem_mul :
    x ∈ (p * q).matches' ↔ ∃ a ∈ p.matches', ∃ b ∈ q.matches', a ++ b = x := Iff.rfl

theorem mem_add : x ∈ (p + q).matches' ↔ x ∈ p.matches' ∨ x ∈ q.matches' := Iff.rfl

theorem mem_digit : x ∈ digit.matches' ↔ ∃ d, isDigit d = true ∧ x = [d] := by
  rw [digit, mem_oneOf]
  exact exists_congr fun d => and_congr_left fun _ => isDigit_iff.symm

theorem mem_star_digit : x ∈ digit.star.matches' ↔ AllDigits x := by
  rw [RegularExpression.matches'_star, Language.mem_kstar]
  constructor
  · rintro ⟨words, rfl, hwords⟩ d hd
    obtain ⟨word, hword, hd⟩ := List.mem_flatten.1 hd
    obtain ⟨c, hc, rfl⟩ := mem_digit.1 (hwords word hword)
    rwa [List.mem_singleton.1 hd]
  · intro hx
    refine ⟨x.map ([·]), (List.flatMap_singleton' x).symm, fun word hword => ?_⟩
    obtain ⟨d, hd, rfl⟩ := List.mem_map.1 hword
    exact mem_digit.2 ⟨d, hx d hd, rfl⟩

theorem mem_digits : x ∈ digits.matches' ↔ AllDigits x ∧ x ≠ [] := by
  rw [digits, mem_mul]
  constructor
  · rintro ⟨a, ha, b, hb, rfl⟩
    obtain ⟨d, hd, rfl⟩ := mem_digit.1 ha
    exact ⟨List.forall_mem_cons.2 ⟨hd, mem_star_digit.1 hb⟩, List.cons_ne_nil d b⟩
  · rintro ⟨hx, hne⟩
    obtain ⟨d, ds, rfl⟩ := List.exists_cons_of_ne_nil hne
    obtain ⟨hd, hds⟩ := List.forall_mem_cons.1 hx
    exact ⟨[d], mem_digit.2 ⟨d, hd, rfl⟩, ds, mem_star_digit.2 hds, rfl⟩

theorem mem_point : x ∈ point.matches' ↔ x = [46] := by
  rw [point, mem_oneOf]
  simp

theorem mem_sign : x ∈ sign.matches' ↔ IsSign x := by
  rw [sign, mem_optional, mem_oneOf, IsSign]
  simp

theorem mem_mantissa : x ∈ mantissa.matches' ↔
    ∃ whole fraction, AllDigits whole ∧ (∀ ds ∈ fraction, AllDigits ds) ∧
      (whole ≠ [] ∨ ∃ ds ∈ fraction, ds ≠ []) ∧ whole ++ fractionText fraction = x := by
  rw [mantissa, mem_add, mem_mul, mem_mul]
  constructor
  · rintro (⟨whole, hwhole, tail, htail, rfl⟩ | ⟨a, ha, ds, hds, rfl⟩)
    · obtain ⟨hwhole, hne⟩ := mem_digits.1 hwhole
      rcases mem_optional.1 htail with rfl | htail
      · exact ⟨whole, none, hwhole, by simp, .inl hne, rfl⟩
      · obtain ⟨a, ha, ds, hds, rfl⟩ := mem_mul.1 htail
        obtain rfl := mem_point.1 ha
        exact ⟨whole, some ds, hwhole, by simpa using mem_star_digit.1 hds, .inl hne, rfl⟩
    · obtain rfl := mem_point.1 ha
      obtain ⟨hds, hne⟩ := mem_digits.1 hds
      exact ⟨[], some ds, by simp [AllDigits], by simpa using hds, .inr ⟨ds, rfl, hne⟩, rfl⟩
  · rintro ⟨whole, fraction, hwhole, hfraction, hne, rfl⟩
    by_cases hw : whole = []
    · -- Without whole digits there is a fraction with digits.
      obtain ⟨ds, rfl, hds⟩ := hne.resolve_left (not_not.2 hw)
      subst hw
      exact .inr ⟨[46], mem_point.2 rfl, ds, mem_digits.2 ⟨hfraction ds rfl, hds⟩, rfl⟩
    · refine .inl ⟨whole, mem_digits.2 ⟨hwhole, hw⟩, fractionText fraction, ?_, rfl⟩
      cases fraction with
      | none => exact mem_optional.2 (.inl rfl)
      | some ds =>
          exact mem_optional.2 (.inr (mem_mul.2
            ⟨[46], mem_point.2 rfl, ds, mem_star_digit.2 (hfraction ds rfl), rfl⟩))

theorem mem_exponent : x ∈ exponent.matches' ↔
    ∃ e : Option Exponent, (∀ e' ∈ e, e'.Proper) ∧ exponentText e = x := by
  rw [exponent, mem_optional]
  constructor
  · rintro (rfl | hx)
    · exact ⟨none, by simp, rfl⟩
    · obtain ⟨a, ha, tail, htail, rfl⟩ := mem_mul.1 hx
      obtain ⟨s, hs, ds, hds, rfl⟩ := mem_mul.1 htail
      obtain ⟨mark, hmark, rfl⟩ := mem_oneOf.1 ha
      obtain ⟨hds, hne⟩ := mem_digits.1 hds
      refine ⟨some ⟨mark, s, ds⟩, fun e he => ?_, rfl⟩
      obtain rfl := Option.some.inj he
      exact ⟨by simpa using hmark, mem_sign.1 hs, hds, hne⟩
  · rintro ⟨e, he, rfl⟩
    cases e with
    | none => exact .inl rfl
    | some e =>
        have he := he e rfl
        exact .inr ⟨[e.mark], mem_oneOf.2 ⟨e.mark, by simpa using he.mark, rfl⟩, e.sign ++ e.digits,
          ⟨e.sign, mem_sign.2 he.sign, e.digits, mem_digits.2 ⟨he.digits, he.digits_ne⟩, rfl⟩, rfl⟩

/-- **The pattern matches the texts of proper numerals** and nothing else. -/
theorem mem_number : bs ∈ number.matches' ↔ ∃ x : Numeral, x.Proper ∧ x.text = bs := by
  rw [number, mem_mul]
  constructor
  · rintro ⟨s, hs, tail, htail, rfl⟩
    obtain ⟨m, hm, e, he, rfl⟩ := mem_mul.1 htail
    obtain ⟨whole, fraction, hwhole, hfraction, hne, rfl⟩ := mem_mantissa.1 hm
    obtain ⟨exponent, hexponent, rfl⟩ := mem_exponent.1 he
    refine ⟨⟨s, whole, fraction, exponent⟩,
      ⟨mem_sign.1 hs, hwhole, hfraction, hexponent, hne⟩, ?_⟩
    simp only [Numeral.text_eq, List.append_assoc]
  · rintro ⟨x, hx, rfl⟩
    refine ⟨x.sign, mem_sign.2 hx.sign, _, mem_mul.2 ⟨x.whole ++ fractionText x.fraction,
      mem_mantissa.2 ⟨_, _, hx.whole, hx.fraction, hx.digits_ne, rfl⟩, exponentText x.exponent,
      mem_exponent.2 ⟨_, hx.exponent, rfl⟩, rfl⟩, ?_⟩
    simp only [Numeral.text_eq, List.append_assoc]

/-- With `7.` and `.5` as numbers, and with neither a point alone nor `1e+`. -/
example : [55, 46] ∈ number.matches' ∧ [46, 53] ∈ number.matches' ∧ [46] ∉ number.matches' ∧
    [49, 101, 43] ∉ number.matches' := by decide

end Pattern

/-! ## What is read is proper -/

theorem allDigits_takeWhile (bs : Bytes) : AllDigits (bs.takeWhile isDigit) :=
  List.all_eq_true.1 List.all_takeWhile

theorem isSign_readSign (bs : Bytes) : IsSign (readSign bs).1 := by
  rw [readSign.eq_def]
  split
  · exact .inl rfl
  · split
    · rename_i h
      rcases h with rfl | rfl
      · exact .inr (.inl rfl)
      · exact .inr (.inr rfl)
    · exact .inl rfl

theorem readSign_append_rest (bs : Bytes) : (readSign bs).1 ++ (readSign bs).2 = bs := by
  rw [readSign.eq_def]
  split
  · rfl
  · split <;> rfl

theorem Numeral.readFraction_append_rest (whole bs : Bytes) :
    fractionText (readFraction whole bs).1 ++ (readFraction whole bs).2 = bs := by
  rw [readFraction.eq_def]
  split
  · rfl
  · rename_i b bs
    dsimp only
    split
    · rename_i h
      rw [h.1]
      exact congrArg (46 :: ·) List.takeWhile_append_dropWhile
    · rfl

theorem Numeral.readFraction_rest_suffix (whole bs : Bytes) : (readFraction whole bs).2 <:+ bs :=
  ⟨_, readFraction_append_rest whole bs⟩

/-- A fraction that is read holds digits, and there are digits before it or in it. -/
theorem Numeral.of_mem_readFraction {whole bs ds : Bytes} (h : ds ∈ (readFraction whole bs).1) :
    AllDigits ds ∧ (whole ≠ [] ∨ ds ≠ []) := by
  rw [readFraction.eq_def] at h
  split at h
  · cases h
  · dsimp only at h
    split at h
    · rename_i hpoint
      obtain rfl := Option.some.inj h
      exact ⟨allDigits_takeWhile _, hpoint.2⟩
    · cases h

theorem Exponent.read_append_rest (bs : Bytes) :
    exponentText (Exponent.read bs).1 ++ (Exponent.read bs).2 = bs := by
  rw [Exponent.read.eq_def]
  split
  · rfl
  · rename_i b bs
    split
    · dsimp only
      split
      · rfl
      · show b :: (_ ++ _) ++ _ = _
        rw [List.cons_append, List.append_assoc, List.takeWhile_append_dropWhile,
          readSign_append_rest]
    · rfl

theorem Exponent.read_rest_suffix (bs : Bytes) : (Exponent.read bs).2 <:+ bs :=
  ⟨_, Exponent.read_append_rest bs⟩

theorem Exponent.proper_of_mem_read {bs : Bytes} {e : Exponent} (h : e ∈ (Exponent.read bs).1) :
    e.Proper := by
  rw [Exponent.read.eq_def] at h
  split at h
  · cases h
  · split at h
    · rename_i hmark
      dsimp only at h
      split at h
      · cases h
      · rename_i hne
        obtain rfl := Option.some.inj h
        exact ⟨hmark, isSign_readSign _, allDigits_takeWhile _, hne⟩
    · cases h

namespace Numeral

/-- The parts in front of a byte string, one behind the other, and the rest; whether they make a
number is not asked. -/
def parts (bs : Bytes) : Numeral × Bytes :=
  let signed := readSign bs
  let whole := signed.2.takeWhile isDigit
  let fraction := readFraction whole (signed.2.dropWhile isDigit)
  let exponent := Exponent.read fraction.2
  (⟨signed.1, whole, fraction.1, exponent.1⟩, exponent.2)

theorem read?_eq (bs : Bytes) : read? bs =
    if (parts bs).1.whole = [] ∧ (parts bs).1.fraction = none then none else some (parts bs) := rfl

variable {bs rest : Bytes} {x : Numeral}

theorem read?_of_parts (h : parts bs = (x, rest)) (hne : ¬ (x.whole = [] ∧ x.fraction = none)) :
    read? bs = some (x, rest) := by
  rw [read?_eq, h, if_neg hne]

/-- Sign, whole digits and fraction, and what is left behind them, are the byte string. -/
theorem mantissa_append_rest (bs : Bytes) :
    (readSign bs).1 ++ (readSign bs).2.takeWhile isDigit ++
        fractionText (readFraction ((readSign bs).2.takeWhile isDigit)
          ((readSign bs).2.dropWhile isDigit)).1 ++
        (readFraction ((readSign bs).2.takeWhile isDigit) ((readSign bs).2.dropWhile isDigit)).2 =
      bs := by
  rw [List.append_assoc, List.append_assoc, readFraction_append_rest,
    List.takeWhile_append_dropWhile, readSign_append_rest]

theorem parts_append_rest (bs : Bytes) : (parts bs).1.text ++ (parts bs).2 = bs := by
  rw [text_eq, List.append_assoc]
  exact (congrArg _ (Exponent.read_append_rest _)).trans (mantissa_append_rest bs)

/-- **What is read is proper**, and with the rest it is the whole byte string. -/
theorem of_read? (h : read? bs = some (x, rest)) : x.Proper ∧ x.text ++ rest = bs := by
  rw [read?_eq] at h
  split at h
  · cases h
  rename_i hne
  have hparts := Option.some.inj h
  obtain rfl : (parts bs).1 = x := congrArg Prod.fst hparts
  obtain rfl : (parts bs).2 = rest := congrArg Prod.snd hparts
  refine ⟨⟨isSign_readSign bs, allDigits_takeWhile _, fun ds hds => (of_mem_readFraction hds).1,
    fun e he => Exponent.proper_of_mem_read he, ?_⟩, parts_append_rest bs⟩
  by_cases hw : (parts bs).1.whole = []
  · obtain ⟨ds, hds⟩ := Option.ne_none_iff_exists'.1 fun hf => hne ⟨hw, hf⟩
    exact .inr ⟨ds, hds, (of_mem_readFraction hds).2.resolve_left (not_not.2 hw)⟩
  · exact .inl hw

end Numeral

/-! ## Nothing of a numeral is left -/

theorem readSign_append {sign bs : Bytes} (hs : IsSign sign)
    (hbs : ∀ b ∈ bs.head?, b ≠ 43 ∧ b ≠ 45) : readSign (sign ++ bs) = (sign, bs) := by
  rcases hs with rfl | rfl | rfl
  · cases bs with
    | nil => rfl
    | cons b bs =>
        obtain ⟨hplus, hminus⟩ := hbs b rfl
        exact if_neg (not_or.2 ⟨hplus, hminus⟩)
  · rfl
  · rfl

/-- Digits do not begin with a sign. -/
theorem AllDigits.head_unsigned {ds : Bytes} (hds : AllDigits ds) (hne : ds ≠ []) (bs : Bytes) :
    ∀ b ∈ (ds ++ bs).head?, b ≠ 43 ∧ b ≠ 45 := by
  obtain ⟨d, ds, rfl⟩ := List.exists_cons_of_ne_nil hne
  have hd : isDigit d = true := hds d List.mem_cons_self
  rintro _ ⟨⟩
  constructor <;> rintro rfl <;> cases hd

theorem takeWhile_isDigit_of_head {bs : Bytes} (h : ∀ b ∈ bs.head?, isDigit b = false) :
    bs.takeWhile isDigit = [] ∧ bs.dropWhile isDigit = bs := by
  cases bs with
  | nil => exact ⟨rfl, rfl⟩
  | cons b bs =>
      have hb := h b rfl
      exact ⟨List.takeWhile_cons_of_neg (by simp [hb]), List.dropWhile_cons_of_neg (by simp [hb])⟩

theorem Exponent.Proper.not_digit_mark {e : Exponent} (he : e.Proper) :
    isDigit e.mark = false ∧ e.mark ≠ 46 := by
  rcases he.mark with h | h <;> rw [h] <;> decide

/-- An exponent is read with all digits that follow it. -/
theorem Exponent.Proper.read_append {e : Exponent} (he : e.Proper) (bs : Bytes) :
    Exponent.read (e.text ++ bs) =
      (some ⟨e.mark, e.sign, e.digits ++ bs.takeWhile isDigit⟩, bs.dropWhile isDigit) := by
  have hsign := readSign_append he.sign (he.digits.head_unsigned he.digits_ne bs)
  have htake : (e.digits ++ bs).takeWhile isDigit = e.digits ++ bs.takeWhile isDigit :=
    List.takeWhile_append_of_pos he.digits
  have hdrop : (e.digits ++ bs).dropWhile isDigit = bs.dropWhile isDigit :=
    List.dropWhile_append_of_pos he.digits
  have hne : e.digits ++ bs.takeWhile isDigit ≠ [] :=
    List.append_ne_nil_of_left_ne_nil he.digits_ne _
  show Exponent.read (e.mark :: (e.sign ++ e.digits ++ bs)) = _
  rw [Exponent.read, if_pos he.mark, List.append_assoc, hsign]
  dsimp only
  rw [htake, hdrop, if_neg hne]

namespace Numeral

variable {x : Numeral} {bs : Bytes}

/-- A fraction is read with all digits that follow it. -/
theorem readFraction_point {whole ds : Bytes} (hds : AllDigits ds) (hne : whole ≠ [] ∨ ds ≠ [])
    (bs : Bytes) : readFraction whole (46 :: (ds ++ bs)) =
      (some (ds ++ bs.takeWhile isDigit), bs.dropWhile isDigit) := by
  have htake : (ds ++ bs).takeWhile isDigit = ds ++ bs.takeWhile isDigit :=
    List.takeWhile_append_of_pos hds
  have hdrop : (ds ++ bs).dropWhile isDigit = bs.dropWhile isDigit :=
    List.dropWhile_append_of_pos hds
  have hdigits : whole ≠ [] ∨ ds ++ bs.takeWhile isDigit ≠ [] :=
    hne.imp_right fun h => List.append_ne_nil_of_left_ne_nil h _
  rw [readFraction, htake, hdrop, if_pos ⟨rfl, hdigits⟩]

theorem readFraction_of_head {whole : Bytes} (h : ∀ b ∈ bs.head?, b ≠ 46) :
    readFraction whole bs = (none, bs) := by
  cases bs with
  | nil => rfl
  | cons b bs => exact if_neg fun hb => h b rfl hb.1

namespace Proper

/-- Behind its sign a proper numeral goes on with a digit or a point, and not with a sign. -/
theorem head_unsigned (hx : x.Proper) (bs : Bytes) :
    ∀ b ∈ (x.whole ++ (fractionText x.fraction ++ bs)).head?, b ≠ 43 ∧ b ≠ 45 := by
  by_cases hw : x.whole = []
  · obtain ⟨ds, hds, -⟩ := hx.digits_ne.resolve_left (not_not.2 hw)
    rw [hw, Option.mem_def.1 hds]
    rintro _ ⟨⟩
    decide
  · exact hx.whole.head_unsigned hw _

/-- A fraction holds digits, and there are digits before it or in it. -/
theorem of_fraction (hx : x.Proper) {ds : Bytes} (hf : x.fraction = some ds) :
    AllDigits ds ∧ (x.whole ≠ [] ∨ ds ≠ []) := by
  refine ⟨hx.fraction ds hf, hx.digits_ne.imp_right ?_⟩
  rintro ⟨ds', hds', hne⟩
  rwa [Option.some.inj (hf.symm.trans hds')]

/-- Sign, whole digits and fraction are read as they are where no digit and no point follows. -/
theorem parts_append (hx : x.Proper) (hbs : ∀ b ∈ bs.head?, isDigit b = false ∧ b ≠ 46) :
    parts (x.sign ++ (x.whole ++ (fractionText x.fraction ++ bs))) =
      (⟨x.sign, x.whole, x.fraction, (Exponent.read bs).1⟩, (Exponent.read bs).2) := by
  have hsign := readSign_append hx.sign (hx.head_unsigned bs)
  obtain ⟨htakeBs, hdropBs⟩ := takeWhile_isDigit_of_head fun b hb => (hbs b hb).1
  have hhead : ∀ b ∈ (fractionText x.fraction ++ bs).head?, isDigit b = false := by
    cases hf : x.fraction with
    | none => exact fun b hb => (hbs b hb).1
    | some ds =>
        rintro _ ⟨⟩
        rfl
  obtain ⟨htake, hdrop⟩ := takeWhile_isDigit_of_head hhead
  have hfraction : readFraction x.whole (fractionText x.fraction ++ bs) = (x.fraction, bs) := by
    cases hf : x.fraction with
    | none => exact readFraction_of_head fun b hb => (hbs b hb).2
    | some ds =>
        obtain ⟨hds, hne⟩ := hx.of_fraction hf
        have hread := readFraction_point hds hne bs
        rwa [htakeBs, hdropBs, List.append_nil] at hread
  simp only [parts, hsign, List.takeWhile_append_of_pos hx.whole,
    List.dropWhile_append_of_pos hx.whole, htake, hdrop, List.append_nil, hfraction]

theorem not_blank (hx : x.Proper) : ¬ (x.whole = [] ∧ x.fraction = none) := by
  rintro ⟨hw, hf⟩
  obtain ⟨ds, hds, -⟩ := hx.digits_ne.resolve_left (not_not.2 hw)
  cases hf ▸ hds

/-- **The text of a proper numeral reads back.** -/
theorem read?_text (hx : x.Proper) : read? x.text = some (x, []) := by
  have hhead : ∀ b ∈ (exponentText x.exponent).head?, isDigit b = false ∧ b ≠ 46 := by
    have hproper := hx.exponent
    cases he : x.exponent with
    | none => rintro _ ⟨⟩
    | some e =>
        rintro _ ⟨⟩
        exact (hproper e he).not_digit_mark
  have hexponent : Exponent.read (exponentText x.exponent) = (x.exponent, []) := by
    have hproper := hx.exponent
    cases he : x.exponent with
    | none => rfl
    | some e => simpa [exponentText] using (hproper e he).read_append []
  have hparts : parts x.text = (x, []) := by
    rw [text_eq, List.append_assoc, List.append_assoc, hx.parts_append hhead, hexponent]
  exact read?_of_parts hparts hx.not_blank

/-- Without an exponent, sign, whole digits and fraction are read with all that goes on with them,
and there are digits. -/
theorem parts_append_of_no_exponent (hx : x.Proper) (bs : Bytes) :
    ¬ ((parts (x.sign ++ (x.whole ++ (fractionText x.fraction ++ bs)))).1.whole = [] ∧
      (parts (x.sign ++ (x.whole ++ (fractionText x.fraction ++ bs)))).1.fraction = none) ∧
    (parts (x.sign ++ (x.whole ++ (fractionText x.fraction ++ bs)))).2 <:+ bs := by
  have hsign := readSign_append hx.sign (hx.head_unsigned bs)
  simp only [parts, hsign, List.takeWhile_append_of_pos hx.whole,
    List.dropWhile_append_of_pos hx.whole]
  cases hf : x.fraction with
  | none =>
      -- What stands behind whole digits may be more of them, and then a point with digits.
      have hw : x.whole ≠ [] := fun hw => hx.not_blank ⟨hw, hf⟩
      refine ⟨fun h => hw (List.append_eq_nil_iff.1 h.1).1, ?_⟩
      exact (Exponent.read_rest_suffix _).trans
        ((readFraction_rest_suffix _ _).trans (List.dropWhile_suffix _))
  | some ds =>
      obtain ⟨hds, hne⟩ := hx.of_fraction hf
      have htake : (fractionText (some ds) ++ bs).takeWhile isDigit = [] := rfl
      have hdrop : (fractionText (some ds) ++ bs).dropWhile isDigit = 46 :: (ds ++ bs) := rfl
      rw [htake, hdrop, List.append_nil, readFraction_point hds hne]
      refine ⟨fun h => Option.some_ne_none _ h.2, ?_⟩
      exact (Exponent.read_rest_suffix _).trans (List.dropWhile_suffix _)

/-- **Nothing of a numeral is left.** Of a byte string that begins with the text of a proper numeral
a number is read, and what is left is an end of what stands behind that text. -/
theorem read?_append (hx : x.Proper) (bs : Bytes) :
    ∃ y rest, read? (x.text ++ bs) = some (y, rest) ∧ rest <:+ bs := by
  have hproper := hx.exponent
  rw [text_eq, List.append_assoc, List.append_assoc, List.append_assoc]
  cases he : x.exponent with
  | none =>
      obtain ⟨hne, hrest⟩ := hx.parts_append_of_no_exponent bs
      exact ⟨_, _, read?_of_parts rfl hne, hrest⟩
  | some e =>
      have hhead : ∀ b ∈ (e.text ++ bs).head?, isDigit b = false ∧ b ≠ 46 := by
        rintro _ ⟨⟩
        exact (hproper e he).not_digit_mark
      have hparts := hx.parts_append hhead
      rw [(hproper e he).read_append] at hparts
      exact ⟨_, _, read?_of_parts hparts hx.not_blank, List.dropWhile_suffix _⟩

end Proper

end Numeral

/-! ## The longest match -/

namespace LongestMatch

variable {bs : Bytes}

/-- **The number that is read has the longest text that the pattern matches.** -/
theorem of_read? {x : Numeral} {rest : Bytes} (h : Numeral.read? bs = some (x, rest)) :
    LongestMatch Pattern.number bs x.text := by
  obtain ⟨hx, rfl⟩ := Numeral.of_read? h
  refine ⟨List.prefix_append _ _, Pattern.mem_number.2 ⟨x, hx, rfl⟩, fun front hfront hmatch => ?_⟩
  -- A front that matches is the text of a numeral, and of that nothing is left.
  obtain ⟨y, hy, rfl⟩ := Pattern.mem_number.1 hmatch
  obtain ⟨more, hmore⟩ := hfront
  obtain ⟨x', rest', hread, hrest⟩ := hy.read?_append more
  rw [hmore, h] at hread
  cases hread
  have hlen := congrArg List.length hmore
  have hle := hrest.length_le
  rw [List.length_append, List.length_append] at hlen
  omega

end LongestMatch

/-- Nothing is read if and only if the pattern matches no front. -/
theorem read?_eq_none_iff {bs : Bytes} : Numeral.read? bs = none ↔
    ∀ front, front <+: bs → front ∉ Pattern.number.matches' := by
  constructor
  · rintro h front ⟨more, rfl⟩ hmatch
    obtain ⟨y, hy, rfl⟩ := Pattern.mem_number.1 hmatch
    obtain ⟨x, rest, hread, -⟩ := hy.read?_append more
    rw [h] at hread
    cases hread
  · intro h
    cases hread : Numeral.read? bs with
    | none => rfl
    | some found =>
        have hlongest := LongestMatch.of_read? hread
        exact absurd hlongest.matched (h _ hlongest.front)

end PagedStore.Decimal
