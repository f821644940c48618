import Mathlib.Data.List.DropRight
import Mathlib.Data.Nat.Digits.Defs
import PagedStore.Proofs.NumberPattern
import PagedStore.Script.Datum

/-!
# Numbers in front of strings

The number that a string begins with is found here once more, by positions in the string, with all
the checks that positions call for: a place where bytes are cut off has to lie within the string,
and there is no place before the first (`scan`). First the end of the text of the number is looked
for (`scanText`), and then this text is converted (`convert?`).

The scan never leaves the string, and it finds just what reading from the front finds
(`scan_eq_ok`). So the text that it converts is the longest that the pattern of numbers matches, and
what it makes of a text of a sign and digits is the integer that they spell, if that has 64 bits.

That a position goes along with what is left to be read is what carries the proofs (`At`).
-/

set_option autoImplicit false

namespace PagedStore.Decimal

/-! ## Positions -/

/-- A position that does not lie within the byte string it was used on. -/
structure Outside where
  position : Nat
  deriving DecidableEq, Repr

/-- The bytes from a position on. -/
def bytesFrom (s : Bytes) (i : Nat) : Except Outside Bytes :=
  if i ≤ s.length then .ok (s.drop i) else .error ⟨i⟩

/-- The bytes before a position. -/
def bytesBefore (s : Bytes) (i : Nat) : Except Outside Bytes :=
  if i ≤ s.length then .ok (s.take i) else .error ⟨i⟩

/-- The position before a position. -/
def previous (i : Nat) : Except Outside Nat := if i = 0 then .error ⟨i⟩ else .ok (i - 1)

/-- How many digits there are from a position on. -/
def digitCount (s : Bytes) (i : Nat) : Except Outside Nat := do
  return ((← bytesFrom s i).takeWhile isDigit).length

/-- How long the sign at a position is. -/
def signLength (s : Bytes) (i : Nat) : Nat := if s[i]? = some 43 ∨ s[i]? = some 45 then 1 else 0

/-- How many digits the fraction at a position has, and the position behind it. A point alone is
passed over only if there are whole digits before it. -/
def scanFraction (s : Bytes) (i whole : Nat) : Except Outside (Nat × Nat) := do
  if s[i]? = some 46 then
    let count ← digitCount s (i + 1)
    return (count, if 0 < whole ∨ 0 < count then i + 1 + count else i)
  else return (0, i)

/-- The position behind the exponent at a position, if there is one with digits. -/
def scanExponent (s : Bytes) (i : Nat) : Except Outside (Option Nat) := do
  if s[i]? = some 101 ∨ s[i]? = some 69 then
    let sign := signLength s (i + 1)
    let count ← digitCount s (i + 1 + sign)
    return if 0 < count then some (i + 1 + sign + count) else none
  else return none

/-- The text of the number whose mantissa ends before a position, and whether it has a point or an
exponent. -/
def scanEnd (s : Bytes) (count stop : Nat) : Except Outside (Bytes × Bool) := do
  let last ← previous stop
  let exponent ← scanExponent s stop
  let text ← bytesBefore s (exponent.getD stop)
  return (text, decide (0 < count ∨ s[last]? = some 46) || exponent.isSome)

/-- The text of the number in front, if there is one, and whether it has a point or an exponent. -/
def scanText (s : Bytes) : Except Outside (Option (Bytes × Bool)) := do
  let start := signLength s 0
  let whole ← digitCount s start
  let (count, stop) ← scanFraction s (start + whole) whole
  if whole = 0 ∧ count = 0 then return none
  else return some (← scanEnd s count stop)

/-! ## What stands at a position -/

/-- From the position `i` on, `s` is `bs`. -/
def At (s : Bytes) (i : Nat) (bs : Bytes) : Prop := ∃ front, s = front ++ bs ∧ i = front.length

namespace At

variable {s a bs : Bytes} {i : Nat} {b : UInt8}

theorem zero (s : Bytes) : At s 0 s := ⟨[], rfl, rfl⟩

theorem append (h : At s i (a ++ bs)) : At s (i + a.length) bs := by
  obtain ⟨front, rfl, rfl⟩ := h
  exact ⟨front ++ a, (List.append_assoc ..).symm, List.length_append.symm⟩

theorem cons (h : At s i (b :: bs)) : At s (i + 1) bs := append (a := [b]) h

theorem getElem? (h : At s i bs) : s[i]? = bs.head? := by
  obtain ⟨front, rfl, rfl⟩ := h
  rw [List.getElem?_append_right (Nat.le_refl _), Nat.sub_self, List.head?_eq_getElem?]

theorem bytesFrom (h : At s i bs) : bytesFrom s i = .ok bs := by
  obtain ⟨front, rfl, rfl⟩ := h
  rw [Decimal.bytesFrom, if_pos (by simp), List.drop_left]

theorem bytesBefore (h : At s i bs) (hs : a ++ bs = s) : bytesBefore s i = .ok a := by
  obtain ⟨front, hfront, rfl⟩ := h
  obtain rfl := List.append_cancel_right (hs.trans hfront)
  rw [Decimal.bytesBefore, hfront, if_pos (by simp), List.take_left]

theorem previous (h : At s i bs) (hs : a ++ b :: bs = s) : previous i = .ok (i - 1) := by
  obtain ⟨front, hfront, rfl⟩ := h
  refine if_neg fun hi => ?_
  rw [List.length_eq_zero_iff.1 hi, List.nil_append, ← hs] at hfront
  have hlen := congrArg List.length hfront
  rw [List.length_append, List.length_cons] at hlen
  omega

/-- Before a position stands the last of the bytes in front of it. -/
theorem getElem?_previous (h : At s i bs) (hs : a ++ b :: bs = s) : s[i - 1]? = some b := by
  obtain ⟨front, hfront, rfl⟩ := h
  have hconcat : (a ++ [b]) ++ bs = front ++ bs := by rw [List.append_assoc]; exact hs.trans hfront
  obtain rfl := List.append_cancel_right hconcat
  rw [← hs, List.length_append, List.length_singleton, Nat.add_sub_cancel,
    List.getElem?_append_right (Nat.le_refl _), Nat.sub_self]
  rfl

theorem digitCount (h : At s i bs) : digitCount s i = .ok (bs.takeWhile isDigit).length := by
  rw [Decimal.digitCount, h.bytesFrom]
  rfl

theorem dropWhile (h : At s i bs) :
    At s (i + (bs.takeWhile isDigit).length) (bs.dropWhile isDigit) :=
  append (by rwa [List.takeWhile_append_dropWhile])

theorem signLength (h : At s i bs) : signLength s i = (Decimal.readSign bs).1.length := by
  rw [Decimal.signLength, h.getElem?]
  cases bs with
  | nil => rfl
  | cons b bs =>
      simp only [Decimal.readSign, List.head?_cons, Option.some.injEq]
      split <;> rfl

theorem readSign (h : At s i bs) :
    At s (i + (Decimal.readSign bs).1.length) (Decimal.readSign bs).2 :=
  append (by rwa [readSign_append_rest])

theorem readFraction (h : At s i bs) (whole : Bytes) :
    At s (i + (fractionText (Numeral.readFraction whole bs).1).length)
      (Numeral.readFraction whole bs).2 :=
  append (by rwa [Numeral.readFraction_append_rest])

theorem readExponent (h : At s i bs) :
    At s (i + (exponentText (Exponent.read bs).1).length) (Exponent.read bs).2 :=
  append (by rwa [Exponent.read_append_rest])

/-- A fraction is found by positions as it is read from the front. -/
theorem scanFraction (h : At s i bs) (whole : Bytes) : scanFraction s i whole.length =
    .ok (((Numeral.readFraction whole bs).1.getD []).length,
      i + (fractionText (Numeral.readFraction whole bs).1).length) := by
  rw [Decimal.scanFraction, h.getElem?]
  cases bs with
  | nil => rfl
  | cons b bs =>
      simp only [List.head?_cons, Option.some.injEq, Numeral.readFraction]
      by_cases hb : b = 46
      · rw [if_pos hb, h.cons.digitCount]
        show Except.ok (_, _) = _
        by_cases hdigits : whole ≠ [] ∨ bs.takeWhile isDigit ≠ []
        · rw [if_pos (hdigits.imp List.length_pos_iff.2 List.length_pos_iff.2),
            if_pos ⟨hb, hdigits⟩, Nat.add_assoc, Nat.add_comm 1]
          rfl
        · have hcount : ¬ (0 < whole.length ∨ 0 < (bs.takeWhile isDigit).length) := by
            rwa [List.length_pos_iff, List.length_pos_iff]
          rw [if_neg hcount, if_neg fun h => hdigits h.2, not_not.1 (not_or.1 hdigits).2]
          rfl
      · rw [if_neg hb, if_neg fun h => hb h.1]
        rfl

/-- An exponent is found by positions as it is read from the front. -/
theorem scanExponent (h : At s i bs) : scanExponent s i =
    .ok ((Exponent.read bs).1.map fun e => i + e.text.length) := by
  rw [Decimal.scanExponent, h.getElem?]
  cases bs with
  | nil => rfl
  | cons b bs =>
      simp only [List.head?_cons, Option.some.injEq, Exponent.read]
      by_cases hb : b = 101 ∨ b = 69
      · rw [if_pos hb, if_pos hb, h.cons.signLength, h.cons.readSign.digitCount]
        show Except.ok _ = _
        by_cases hdigits : (Decimal.readSign bs).2.takeWhile isDigit = []
        · rw [if_pos hdigits, hdigits]
          rfl
        · rw [if_neg hdigits, if_pos (List.length_pos_iff.2 hdigits)]
          simp only [Option.map_some, Exponent.text, List.length_cons, List.length_append]
          congr 2
          omega
      · rw [if_neg hb, if_neg hb]
        rfl

end At

/-! ## The text of the number in front -/

section

variable {s : Bytes}

/-- There are neither whole digits nor digits of a fraction only if no fraction is read either. -/
theorem counts_eq_zero_iff (whole bs : Bytes) :
    (whole.length = 0 ∧ ((Numeral.readFraction whole bs).1.getD []).length = 0) ↔
      whole = [] ∧ (Numeral.readFraction whole bs).1 = none := by
  rw [List.length_eq_zero_iff, List.length_eq_zero_iff]
  refine and_congr_right fun hw => ⟨fun hcount => ?_, fun hf => by rw [hf]; rfl⟩
  cases hf : (Numeral.readFraction whole bs).1 with
  | none => rfl
  | some ds =>
      rw [hf] at hcount
      exact absurd hcount ((Numeral.of_mem_readFraction hf).2.resolve_left (not_not.2 hw))

/-- The last byte of a mantissa is its point if there is one and no digit follows it. -/
theorem exists_last (sign : Bytes) {whole : Bytes} {f : Option Bytes} (hwhole : AllDigits whole)
    (hne : ¬ (whole = [] ∧ f = none)) :
    ∃ front b, sign ++ whole ++ fractionText f = front ++ [b] ∧
      ((0 < (f.getD []).length ∨ b = 46) ↔ f.isSome = true) := by
  cases f with
  | none =>
      obtain rfl | ⟨front, d, rfl⟩ := List.eq_nil_or_concat' whole
      · exact absurd ⟨rfl, rfl⟩ hne
      · refine ⟨sign ++ front, d, by simp [fractionText], ?_⟩
        have hd : isDigit d = true := hwhole d (by simp)
        have hpoint : d ≠ 46 := by
          rintro rfl
          cases hd
        simp [hpoint]
  | some ds =>
      obtain rfl | ⟨front, d, rfl⟩ := List.eq_nil_or_concat' ds
      · exact ⟨sign ++ whole, 46, rfl, by simp⟩
      · exact ⟨sign ++ whole ++ 46 :: front, d, by simp [fractionText], by simp⟩

/-- Behind a mantissa the scan finds the end of the number. -/
theorem At.scanEnd {sign whole bs : Bytes} {f : Option Bytes} {stop : Nat} (h : At s stop bs)
    (hs : sign ++ whole ++ fractionText f ++ bs = s) (hwhole : AllDigits whole)
    (hne : ¬ (whole = [] ∧ f = none)) :
    scanEnd s (f.getD []).length stop =
      .ok ((Numeral.mk sign whole f (Exponent.read bs).1).text,
        !(Numeral.mk sign whole f (Exponent.read bs).1).isWhole) := by
  obtain ⟨front, b, hlast, hpointed⟩ := exists_last sign hwhole hne
  have hs' : front ++ b :: bs = s := by rw [← hs, hlast, List.append_assoc]; rfl
  have hend : stop + (exponentText (Exponent.read bs).1).length =
      ((Exponent.read bs).1.map fun e => stop + e.text.length).getD stop := by
    cases (Exponent.read bs).1 <;> rfl
  have htext : (Numeral.mk sign whole f (Exponent.read bs).1).text ++ (Exponent.read bs).2 = s := by
    rw [Numeral.text_eq, List.append_assoc, Exponent.read_append_rest]
    exact hs
  have hbefore := h.readExponent.bytesBefore htext
  rw [hend] at hbefore
  rw [Decimal.scanEnd, h.previous hs', h.scanExponent]
  show (do
    let text ← Decimal.bytesBefore s _
    _) = _
  rw [hbefore]
  show Except.ok (_, _) = _
  simp only [h.getElem?_previous hs', Option.some.injEq, hpointed]
  cases f <;> cases (Exponent.read bs).1 <;> rfl

/-- **The scan never leaves the byte string**, and the text that it finds is that of the number that
is read from the front. -/
theorem scanText_eq_ok (s : Bytes) :
    scanText s = .ok ((Numeral.read? s).map fun (x, _) => (x.text, !x.isWhole)) := by
  -- Each part begins where the one before it ends.
  have hstart := At.zero s
  have hwhole := hstart.readSign
  have hpoint := hwhole.dropWhile
  have hmark := hpoint.readFraction ((readSign s).2.takeWhile isDigit)
  rw [scanText, hstart.signLength]
  rw [Nat.zero_add] at hwhole hpoint hmark
  dsimp only
  rw [hwhole.digitCount]
  show (do
    let x ← scanFraction s _ _
    _) = _
  rw [hpoint.scanFraction]
  show (if (_ : Nat) = 0 ∧ (_ : Nat) = 0 then Except.ok none else _) = _
  by_cases hblank : (readSign s).2.takeWhile isDigit = [] ∧ (Numeral.readFraction
      ((readSign s).2.takeWhile isDigit) ((readSign s).2.dropWhile isDigit)).1 = none
  · rw [(Numeral.read?_eq s).trans (if_pos hblank)]
    exact if_pos ((counts_eq_zero_iff _ _).2 hblank)
  · rw [(Numeral.read?_eq s).trans (if_neg hblank)]
    refine (if_neg (mt (counts_eq_zero_iff _ _).1 hblank)).trans ?_
    dsimp only
    rw [hmark.scanEnd (Numeral.mantissa_append_rest s) (allDigits_takeWhile _) hblank]
    rfl

end

/-! ## Texts of signs and digits -/

/-- The integer that a sign and digits spell. -/
def spelledInt (text : Bytes) : Int :=
  let n : Nat := Nat.ofDigits 10 ((text.filter isDigit).reverse.map fun d => d.toNat - 48)
  if text.head? = some 45 then -n else n

/-- Neither a point nor the mark of an exponent stands in a text. -/
def IsPlain (text : Bytes) : Prop := 46 ∉ text ∧ 101 ∉ text ∧ 69 ∉ text

instance (text : Bytes) : Decidable (IsPlain text) :=
  inferInstanceAs (Decidable (46 ∉ text ∧ 101 ∉ text ∧ 69 ∉ text))

theorem ofDigits_eq (ds : Bytes) :
    ofDigits ds = Nat.ofDigits 10 (ds.reverse.map fun d => d.toNat - 48) := by
  induction ds using List.reverseRecOn with
  | nil => rfl
  | append_singleton ds d ih =>
      rw [List.reverse_concat, List.map_cons, Nat.ofDigits_cons, ← ih, ofDigits, ofDigits,
        List.foldl_append, Nat.add_comm]
      rfl

theorem IsSign.eq_of_mem {sign : Bytes} {b : UInt8} (hs : IsSign sign) (hb : b ∈ sign) :
    b = 43 ∨ b = 45 := by
  rcases hs with rfl | rfl | rfl
  · cases hb
  · exact .inl (List.mem_singleton.1 hb)
  · exact .inr (List.mem_singleton.1 hb)

namespace Numeral.Proper

variable {x : Numeral}

/-- A text is plain if it is one of a sign and digits alone. -/
theorem isPlain_text_iff (hx : x.Proper) : IsPlain x.text ↔ x.isWhole = true := by
  rw [isWhole, Bool.and_eq_true, Option.isNone_iff_eq_none, Option.isNone_iff_eq_none]
  constructor
  · rintro ⟨hpoint, hsmall, hlarge⟩
    refine ⟨Option.eq_none_iff_forall_ne_some.2 fun ds hds => hpoint ?_,
      Option.eq_none_iff_forall_ne_some.2 fun e he => ?_⟩
    · simp [text_eq, hds, fractionText]
    · have hmark : e.mark ∈ x.text := by simp [text_eq, he, exponentText, Exponent.text]
      rcases (hx.exponent e he).mark with h | h
      · exact hsmall (h ▸ hmark)
      · exact hlarge (h ▸ hmark)
  · rintro ⟨hf, he⟩
    have hplain : ∀ b ∈ x.text, (b = 43 ∨ b = 45) ∨ isDigit b = true := by
      intro b hb
      have hb : b ∈ x.sign ∨ b ∈ x.whole := by
        simpa [text_eq, hf, he, fractionText, exponentText] using hb
      exact hb.imp hx.sign.eq_of_mem (hx.whole b)
    refine ⟨fun h => ?_, fun h => ?_, fun h => ?_⟩ <;> exact absurd (hplain _ h) (by decide)

/-- The sign of a plain text is read off, and its digits are left. -/
theorem readSign_text (hx : x.Proper) (hw : x.isWhole = true) :
    x.text = x.sign ++ x.whole ∧ x.whole ≠ [] ∧ readSign x.text = (x.sign, x.whole) := by
  rw [isWhole, Bool.and_eq_true, Option.isNone_iff_eq_none, Option.isNone_iff_eq_none] at hw
  obtain ⟨hf, he⟩ := hw
  have htext : x.text = x.sign ++ x.whole := by
    simp [text_eq, hf, he, fractionText, exponentText]
  have hunsigned := hx.head_unsigned []
  rw [hf, List.append_nil, fractionText, Option.map_none, Option.getD_none, List.append_nil]
    at hunsigned
  exact ⟨htext, fun h => hx.not_blank ⟨h, hf⟩, htext ▸ readSign_append hx.sign hunsigned⟩

/-- The number of a plain text is the integer that it spells. -/
theorem toInt_eq (hx : x.Proper) (hw : x.isWhole = true) : x.toInt = spelledInt x.text := by
  obtain ⟨htext, hne, -⟩ := hx.readSign_text hw
  obtain ⟨d, ds, hd⟩ := List.exists_cons_of_ne_nil hne
  have hdigit : isDigit d = true := hx.whole d (by simp [hd])
  have hhead : x.text.head? = some 45 ↔ isMinus x.sign = true := by
    rw [htext]
    rcases hx.sign with h | h | h <;> rw [h]
    · -- Without a sign the text begins with a digit.
      refine iff_of_false (fun hminus => ?_) Bool.false_ne_true
      rw [hd] at hminus
      cases hminus
      cases hdigit
    · exact iff_of_false (by simp) Bool.false_ne_true
    · exact iff_of_true rfl rfl
  have hdigits : x.text.filter isDigit = x.whole := by
    rw [htext, List.filter_append, List.filter_eq_self.2 hx.whole]
    rcases hx.sign with h | h | h <;> rw [h] <;> rfl
  rw [toInt, spelledInt, hdigits, ← ofDigits_eq]
  simp only [hhead]

/-- The last byte of a text that ends with digits is no point. -/
theorem rdropWhile_append_digits (front : Bytes) {ds : Bytes} (hds : AllDigits ds) (hne : ds ≠ []) :
    (front ++ ds).rdropWhile (· == 46) = front ++ ds := by
  obtain rfl | ⟨ds, d, rfl⟩ := List.eq_nil_or_concat' ds
  · exact absurd rfl hne
  · have hd : isDigit d = true := hds d (by simp)
    rw [← List.append_assoc]
    refine List.rdropWhile_concat_neg _ _ _ fun hpoint => ?_
    rw [eq_of_beq hpoint] at hd
    cases hd

/-- Without a point at its end, the text is that of a proper numeral with the same value. -/
theorem exists_text_eq_rdropWhile (hx : x.Proper) :
    ∃ y : Numeral, y.Proper ∧ x.text.rdropWhile (· == 46) = y.text ∧ y.toFloat = x.toFloat := by
  obtain ⟨sign, whole, fraction, exponent⟩ := x
  cases exponent with
  | some e =>
      have he := hx.exponent e rfl
      refine ⟨_, hx, ?_, rfl⟩
      have htext : (Numeral.mk sign whole fraction (some e)).text =
          (sign ++ whole ++ fractionText fraction ++ e.mark :: e.sign) ++ e.digits := by
        simp [text_eq, exponentText, Exponent.text]
      rw [htext, rdropWhile_append_digits _ he.digits he.digits_ne]
  | none =>
      cases fraction with
      | none =>
          have hw : whole ≠ [] := fun hw => hx.not_blank ⟨hw, rfl⟩
          refine ⟨_, hx, ?_, rfl⟩
          have htext : (Numeral.mk sign whole none none).text = sign ++ whole := by
            simp [text_eq, fractionText, exponentText]
          rw [htext, rdropWhile_append_digits _ hx.whole hw]
      | some ds =>
          have htext : (Numeral.mk sign whole (some ds) none).text =
              sign ++ whole ++ [46] ++ ds := by
            simp [text_eq, fractionText, exponentText]
          by_cases hds : ds = []
          · -- Only here there is a point at the end, and then there are whole digits.
            subst hds
            have hw : whole ≠ [] := by simpa using hx.digits_ne
            have hy : (Numeral.mk sign whole none none).Proper :=
              ⟨hx.sign, hx.whole, by simp, by simp, .inl hw⟩
            refine ⟨_, hy, ?_, rfl⟩
            rw [htext, List.append_nil, List.rdropWhile_concat_pos _ _ _ rfl,
              rdropWhile_append_digits _ hx.whole hw]
            simp [text_eq, fractionText, exponentText]
          · refine ⟨_, hx, ?_, rfl⟩
            rw [htext, rdropWhile_append_digits _ (hx.fraction ds rfl) hds]

end Numeral.Proper

end PagedStore.Decimal

namespace PagedStore.Script

open Decimal

/-! ## Conversion -/

/-- The integer of 64 bits that a sign and digits spell. -/
def int64Of? (text : Bytes) : Option Int64 :=
  let (sign, digits) := readSign text
  let n : Int := if isMinus sign then -(ofDigits digits : Int) else ofDigits digits
  if digits ≠ [] ∧ digits.all isDigit ∧ fitsInt64 n then some (Int64.ofInt n) else none

/-- The double nearest to the number that a text spells. -/
def doubleOf? (text : Bytes) : Option Float :=
  match Numeral.read? text with
  | some (x, []) => some x.toFloat
  | _ => none

/-- What the text of a number is converted to. A double is not asked to be read with a point at the
end. -/
def convert? (text : Bytes) (asDouble : Bool) : Option Number :=
  match if asDouble then none else int64Of? text with
  | some i => some (.int i)
  | none => (doubleOf? (text.rdropWhile (· == 46))).map .float

/-- The number that a string begins with after blanks, by positions. -/
def scan (bs : Bytes) : Except Outside (Option Number) := do
  let start := (bs.findIdx? fun b => !isBlank b).getD bs.length
  match ← scanText (← bytesFrom bs start) with
  | none => return none
  | some (text, asDouble) => return convert? text asDouble

/-- What is made of a numeral: an integer if it is written as one and fits, else a double. -/
def numberOf (x : Numeral) : Number :=
  if x.isWhole && fitsInt64 x.toInt then .int (Int64.ofInt x.toInt) else .float x.toFloat

theorem leadingNumber?_eq (bs : Bytes) : leadingNumber? bs =
    (Numeral.read? (bs.dropWhile isBlank)).map fun (x, _) => numberOf x := rfl

section

variable {x : Numeral} {bs : Bytes}

theorem int64Of?_text (hx : x.Proper) (hw : x.isWhole = true) :
    int64Of? x.text = if fitsInt64 x.toInt then some (Int64.ofInt x.toInt) else none := by
  obtain ⟨-, hne, hsign⟩ := hx.readSign_text hw
  have hall : x.whole.all isDigit = true := List.all_eq_true.2 hx.whole
  rw [int64Of?, hsign]
  simp only [ne_eq, hne, not_false_eq_true, hall, true_and]
  rfl

theorem doubleOf?_text (hx : x.Proper) :
    doubleOf? (x.text.rdropWhile (· == 46)) = some x.toFloat := by
  obtain ⟨y, hy, htext, hvalue⟩ := hx.exists_text_eq_rdropWhile
  rw [doubleOf?, htext, hy.read?_text, ← hvalue]

/-- **The text of a numeral is converted to its number.** -/
theorem convert?_text (hx : x.Proper) : convert? x.text (!x.isWhole) = some (numberOf x) := by
  rw [convert?, doubleOf?_text hx, numberOf]
  cases hw : x.isWhole with
  | false => rfl
  | true =>
      simp only [Bool.not_true, Bool.false_eq_true, if_false, int64Of?_text hx hw, Bool.true_and]
      cases fitsInt64 x.toInt <;> rfl

/-- **The scan by positions never leaves the string**, and finds the number that is read from the
front. -/
theorem scan_eq_ok (bs : Bytes) : scan bs = .ok (leadingNumber? bs) := by
  have hstart : bs.drop ((bs.findIdx? fun b => !isBlank b).getD bs.length) =
      bs.dropWhile isBlank := by
    rw [← List.findIdx_eq_getD_findIdx?, List.dropWhile_eq_drop_findIdx_not]
  have hle : (bs.findIdx? fun b => !isBlank b).getD bs.length ≤ bs.length := by
    rw [← List.findIdx_eq_getD_findIdx?]
    exact List.findIdx_le_length
  rw [scan, bytesFrom, if_pos hle, hstart]
  show (do
    match ← scanText (bs.dropWhile isBlank) with
    | none => return none
    | some (text, asDouble) => return convert? text asDouble) = _
  rw [scanText_eq_ok, leadingNumber?_eq]
  cases hread : Numeral.read? (bs.dropWhile isBlank) with
  | none => rfl
  | some found => exact congrArg Except.ok (convert?_text (Numeral.of_read? hread).1)

end

/-! ## The main result -/

/-- A text of a sign and digits that spells an integer of 64 bits. -/
structure SpellsInt64 (text : Bytes) : Prop where
  plain : IsPlain text
  lower : -2 ^ 63 ≤ spelledInt text
  upper : spelledInt text < 2 ^ 63

theorem fitsInt64_iff {n : Int} : fitsInt64 n = true ↔ -2 ^ 63 ≤ n ∧ n < 2 ^ 63 := by
  rw [fitsInt64, Bool.and_eq_true, decide_eq_true_eq, decide_eq_true_eq, Int64.toInt_minValue,
    Int64.toInt_maxValue, Int.le_sub_one_iff]

/-- A numeral is converted to an integer if its text spells one of 64 bits. -/
theorem numberOf_of_spellsInt64 {x : Numeral} (hx : x.Proper) (h : SpellsInt64 x.text) :
    numberOf x = .int (Int64.ofInt (spelledInt x.text)) := by
  have hw := hx.isPlain_text_iff.1 h.plain
  have hint := hx.toInt_eq hw
  rw [numberOf, hw, hint, fitsInt64_iff.2 ⟨h.lower, h.upper⟩]
  rfl

/-- Everything else is converted to a double. -/
theorem numberOf_of_not_spellsInt64 {x : Numeral} (hx : x.Proper) (h : ¬ SpellsInt64 x.text) :
    numberOf x = .float x.toFloat := by
  refine if_neg fun hinteger => h ?_
  obtain ⟨hw, hfits⟩ := Bool.and_eq_true_iff.1 hinteger
  rw [hx.toInt_eq hw] at hfits
  obtain ⟨hlower, hupper⟩ := fitsInt64_iff.1 hfits
  exact ⟨hx.isPlain_text_iff.2 hw, hlower, hupper⟩

/-- **A string is converted to the number with the longest text.** Looking for a number by
positions, with all checks, never leaves the string, whatever its bytes are, and gives the number
that it begins with after blanks. There is none just where the pattern matches no front of what
follows the blanks. Otherwise the text that is converted is the longest front that the pattern
matches. Where it has neither point nor exponent and spells an integer of 64 bits, the number is
this integer: so it is as an integer of 64 bits, and held within the bounds of 32 bits as one of
those. Everywhere else it is the double nearest to what the text says. -/
theorem leading_number_is_longest_match (bs : Bytes) :
    scan bs = .ok (leadingNumber? bs) ∧
    (leadingNumber? bs = none ↔
      ∀ front, front <+: bs.dropWhile isBlank → front ∉ Pattern.number.matches') ∧
    ∀ number, leadingNumber? bs = some number →
      ∃ text asDouble, LongestMatch Pattern.number (bs.dropWhile isBlank) text ∧
        scanText (bs.dropWhile isBlank) = .ok (some (text, asDouble)) ∧
        convert? text asDouble = some number ∧
        (SpellsInt64 text → ∃ i : Int64, number = .int i ∧ i.toInt = spelledInt text ∧
          (Datum.string bs).toInt64.toInt = spelledInt text ∧
          (Datum.string bs).toInt32 = max (-2 ^ 31) (min (2 ^ 31 - 1) (spelledInt text))) ∧
        (¬ SpellsInt64 text →
          ∃ x : Numeral, x.Proper ∧ x.text = text ∧ number = .float x.toFloat) := by
  refine ⟨scan_eq_ok bs, ?_, fun number hnumber => ?_⟩
  · rw [leadingNumber?_eq, Option.map_eq_none_iff, read?_eq_none_iff]
  · rw [leadingNumber?_eq] at hnumber
    obtain ⟨⟨x, rest⟩, hread, rfl⟩ := Option.map_eq_some_iff.1 hnumber
    have hx := (Numeral.of_read? hread).1
    refine ⟨x.text, !x.isWhole, .of_read? hread, ?_, convert?_text hx, fun hspells => ?_,
      fun hspells => ⟨x, hx, rfl, numberOf_of_not_spellsInt64 hx hspells⟩⟩
    · rw [scanText_eq_ok, hread]
      rfl
    · have hint := numberOf_of_spellsInt64 hx hspells
      have hvalue := Int64.toInt_ofInt_of_le hspells.lower hspells.upper
      have hint64 : (Datum.string bs).toInt64 = Int64.ofInt (spelledInt x.text) := by
        rw [Datum.toInt64, leadingNumber?_eq, hread, Option.map_some]
        dsimp only
        rw [hint]
      refine ⟨_, hint, hvalue, by rw [hint64, hvalue], ?_⟩
      rw [Datum.toInt32, hint64, hvalue]
      rfl

/-- The text of a number that has too many digits for 32 bits. -/
def minusElevenNines : Bytes := 45 :: List.replicate 11 57

/-- The number after a blank, and behind it what looks like an exponent and has no digits. -/
def unfinishedExponent : Bytes := 32 :: (minusElevenNines ++ [101, 43, 120])

/-- What looks like an exponent is given back. The integer before it is kept in 64 bits, and in 32
bits it is the least one. -/
theorem leading_number_is_longest_match_unfinished_exponent :
    scan unfinishedExponent = .ok (some (.int (-99999999999))) ∧
      LongestMatch Pattern.number (unfinishedExponent.drop 1) minusElevenNines ∧
      (Datum.string unfinishedExponent).toInt64.toInt = -99999999999 ∧
      (Datum.string unfinishedExponent).toInt32 = -2 ^ 31 := by
  obtain ⟨hscan, -, hsome⟩ := leading_number_is_longest_match unfinishedExponent
  have hnumber : leadingNumber? unfinishedExponent = some (.int (-99999999999)) := rfl
  obtain ⟨text, asDouble, hlongest, htext, -, hint, -⟩ := hsome _ hnumber
  have hfound : scanText (unfinishedExponent.dropWhile isBlank) =
      .ok (some (minusElevenNines, false)) := rfl
  obtain ⟨rfl, rfl⟩ : text = minusElevenNines ∧ asDouble = false := by
    simpa using htext.symm.trans hfound
  have hvalue : spelledInt minusElevenNines = -99999999999 := by decide +kernel
  obtain ⟨i, -, -, h64, h32⟩ :=
    hint ⟨by decide, by rw [hvalue]; decide, by rw [hvalue]; decide⟩
  refine ⟨hscan.trans (congrArg Except.ok hnumber), hlongest, h64.trans hvalue, ?_⟩
  rw [h32, hvalue]
  decide

end PagedStore.Script
