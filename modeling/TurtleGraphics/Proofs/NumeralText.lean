import TurtleGraphics.Number.Numeral
import TurtleGraphics.Number.Printed
import TurtleGraphics.Proofs.FloatBits
import TurtleGraphics.Proofs.Nearest

/-!
# TurtleGraphics.Proofs.NumeralText

The text of a finite double is a numeral that reads back to it, the sign of zero included.

* `digitRun_append` : the digits of a numeral are read up to whatever follows.
* `decimal?_point`, `decimal?_plain` : decimals with a point and without one.
* `decimal?_chars`  : the text of a decimal reads back to a decimal with the same magnitude.
* `read_text`       : the text of a double.
* `isNumeralChar`   : the characters that such a text is made of.

A decimal is printed without the zeros at its end and read with those that the layout adds, so it
does not come back as it was; `Decimal.bits_shift` says that this does not matter.
-/

namespace TurtleGraphics.Number

open TurtleGraphics.Text (digitValue?)

/-! ## Rows of digits -/

/-- Every character is one of the ten digits. -/
def AllDigits (cs : List Char) : Prop := ∀ c ∈ cs, c.isDigit = true

theorem AllDigits.append {cs ds : List Char} (hc : AllDigits cs) (hd : AllDigits ds) :
    AllDigits (cs ++ ds) :=
  fun c h => (List.mem_append.mp h).elim (hc c) (hd c)

theorem AllDigits.replicate_zero (n : Nat) : AllDigits (List.replicate n '0') := by
  intro c h
  rw [List.eq_of_mem_replicate h]
  rfl

theorem AllDigits.toDigits (n : Nat) : AllDigits (Nat.toDigits 10 n) :=
  fun _ h => Nat.isDigit_of_mem_toDigits (by omega) (by omega) h

theorem digitValue?_of_isDigit {c : Char} (h : c.isDigit = true) :
    digitValue? c = some (c.toNat - 48) := by
  have hc : 48 ≤ c.toNat ∧ c.toNat ≤ 57 := by
    simp only [Char.isDigit, Bool.and_eq_true, decide_eq_true_eq] at h
    exact h
  simp [digitValue?, Text.digitZeros, hc.1, show c.toNat < 58 by omega]

/-- A text that no row of digits goes on with. -/
def Stops (rest : List Char) : Prop := ∀ inside, digitRun inside rest = ([], rest)

theorem Stops.nil : Stops [] := fun _ => rfl

theorem Stops.point (rest : List Char) : Stops ('.' :: rest) := by
  intro inside; cases inside <;> rfl

theorem Stops.exponent (rest : List Char) : Stops ('e' :: rest) := by
  intro inside; cases inside <;> rfl

/-- The value of a digit among the ten. -/
def digitOf (c : Char) : Nat := c.toNat - 48

theorem digitRun_append {ds rest : List Char} (hds : AllDigits ds) (hrest : Stops rest) :
    ∀ inside, digitRun inside (ds ++ rest) = (ds.map digitOf, rest) := by
  induction ds with
  | nil => exact hrest
  | cons d ds ih =>
    intro inside
    have hd := digitValue?_of_isDigit (hds d List.mem_cons_self)
    have hrun := ih (fun c hc => hds c (List.mem_cons_of_mem _ hc)) true
    rw [List.cons_append, digitRun]
    simp only [hd, hrun, List.map_cons, digitOf]

theorem digitRun_all {ds : List Char} (hds : AllDigits ds) (inside : Bool) :
    digitRun inside ds = (ds.map digitOf, []) := by
  simpa using digitRun_append hds .nil inside

/-- The number that a row of digits spells. -/
def numberOf (ds : List Char) : Nat := Nat.ofDigitChars 10 ds 0

theorem ofDigits_map (ds : List Char) : ofDigits (ds.map digitOf) = numberOf ds := by
  rw [ofDigits, List.foldl_map, numberOf, Nat.ofDigitChars_eq_foldl]
  rfl

theorem numberOf_append_zeros (ds : List Char) (n : Nat) :
    numberOf (ds ++ List.replicate n '0') = numberOf ds * 10 ^ n := by
  rw [numberOf, Nat.ofDigitChars_append, Nat.ofDigitChars_replicate_zero, Nat.mul_comm]
  rfl

theorem numberOf_zeros_append (ds : List Char) (n : Nat) :
    numberOf (List.replicate n '0' ++ ds) = numberOf ds := by
  rw [numberOf, Nat.ofDigitChars_append, Nat.ofDigitChars_replicate_zero, Nat.mul_zero]
  rfl

theorem numberOf_toDigits (n : Nat) : numberOf (Nat.toDigits 10 n) = n :=
  Nat.ofDigitChars_ten_toDigits

/-! ## Decimals -/

theorem exponentDigits_ne_nil (n : Nat) : exponentDigits n ≠ [] := by
  rw [exponentDigits]
  split
  · simp
  · exact Nat.toDigits_ne_nil

theorem allDigits_exponentDigits (n : Nat) : AllDigits (exponentDigits n) := by
  rw [exponentDigits]
  split
  · exact AllDigits.append (AllDigits.replicate_zero 1) (AllDigits.toDigits n)
  · exact AllDigits.toDigits n

theorem numberOf_exponentDigits (n : Nat) : numberOf (exponentDigits n) = n := by
  rw [exponentDigits]
  split
  · exact (numberOf_zeros_append (Nat.toDigits 10 n) 1).trans (numberOf_toDigits n)
  · exact numberOf_toDigits n

theorem exponent?_exponentText (e : Int) : exponent? ('e' :: exponentText e) = some e := by
  have hrun := fun n => digitRun_all (allDigits_exponentDigits n) false
  have hvalue := fun n => (ofDigits_map (exponentDigits n)).trans (numberOf_exponentDigits n)
  have hne := fun n => List.exists_cons_of_ne_nil (exponentDigits_ne_nil n)
  cases e with
  | ofNat n =>
    obtain ⟨c, cs, hcs⟩ := hne n
    have hr := hrun n
    have hv := hvalue n
    rw [hcs, List.map_cons] at hr hv
    simp [exponent?, exponentText, signOf, hcs, hr, hv]
  | negSucc n =>
    obtain ⟨c, cs, hcs⟩ := hne (n + 1)
    have hr := hrun (n + 1)
    have hv := hvalue (n + 1)
    rw [hcs, List.map_cons] at hr hv
    simp [exponent?, exponentText, signOf, hcs, hr, hv]
    omega

theorem decimal?_point {ds fs tail : List Char} {e : Int} (hds : AllDigits ds)
    (hfs : AllDigits fs) (hne : ds ≠ []) (htail : Stops tail) (he : exponent? tail = some e) :
    decimal? (ds ++ '.' :: (fs ++ tail)) = some ⟨numberOf (ds ++ fs), e - fs.length⟩ := by
  obtain ⟨d, ds, rfl⟩ := List.exists_cons_of_ne_nil hne
  have hbefore := digitRun_append hds (.point (fs ++ tail)) false
  have hafter := digitRun_append hfs htail false
  have hvalue := ofDigits_map (d :: ds ++ fs)
  simp only [List.map_append, List.map_cons, List.cons_append] at hbefore hvalue
  simp [decimal?, hbefore, hafter, he, hvalue]

theorem decimal?_plain {ds tail : List Char} {e : Int} (hds : AllDigits ds) (hne : ds ≠ [])
    (he : exponent? ('e' :: tail) = some e) :
    decimal? (ds ++ 'e' :: tail) = some ⟨numberOf ds, e⟩ := by
  obtain ⟨d, ds, rfl⟩ := List.exists_cons_of_ne_nil hne
  have hbefore := digitRun_append hds (.exponent tail) false
  have hvalue := ofDigits_map (d :: ds)
  simp only [List.map_cons, List.cons_append] at hbefore hvalue
  simp [decimal?, hbefore, he, hvalue]

/-- Digits around a point denote the decimal that they were laid out from. -/
theorem decimal?_positional {ds : List Char} (hds : AllDigits ds) (hne : ds ≠ []) (point : Int) :
    ∃ d, decimal? (positional ds point) = some d ∧
      d.bits = Decimal.bits ⟨numberOf ds, point - ds.length⟩ := by
  have hzero : AllDigits ['0'] := AllDigits.replicate_zero 1
  cases point with
  | ofNat p =>
    cases p with
    | zero =>
      refine ⟨⟨numberOf (['0'] ++ ds), 0 - ds.length⟩, ?_, ?_⟩
      · simpa [positional] using decimal?_point hzero hds (by simp) .nil rfl
      · rw [show ['0'] = List.replicate 1 '0' from rfl, numberOf_zeros_append]
        rfl
    | succ p =>
      rw [positional]
      split
      · rename_i hle
        have hall := hds.append (AllDigits.replicate_zero (p + 1 - ds.length))
        refine ⟨⟨numberOf (ds ++ List.replicate (p + 1 - ds.length) '0' ++ ['0']), 0 - 1⟩, ?_, ?_⟩
        · simpa using decimal?_point hall hzero (by simp [hne]) .nil rfl
        · rw [List.append_assoc, show ['0'] = List.replicate 1 '0' from rfl,
            List.replicate_append_replicate, numberOf_append_zeros, Decimal.bits_shift]
          congr 2
          simp only [Int.ofNat_eq_natCast]
          omega
      · rename_i hgt
        have htake : AllDigits (ds.take (p + 1)) := fun c h => hds c (List.mem_of_mem_take h)
        have hdrop : AllDigits (ds.drop (p + 1)) := fun c h => hds c (List.mem_of_mem_drop h)
        refine ⟨⟨numberOf (ds.take (p + 1) ++ ds.drop (p + 1)), 0 - (ds.drop (p + 1)).length⟩,
          ?_, ?_⟩
        · simpa using decimal?_point htake hdrop (by simp [hne]) .nil rfl
        · rw [List.take_append_drop, List.length_drop]
          congr 2
          simp only [Int.ofNat_eq_natCast]
          omega
  | negSucc zeros =>
    have hall := (AllDigits.replicate_zero (zeros + 1)).append hds
    refine ⟨⟨numberOf (['0'] ++ (List.replicate (zeros + 1) '0' ++ ds)),
      0 - (List.replicate (zeros + 1) '0' ++ ds).length⟩, ?_, ?_⟩
    · simpa [positional] using decimal?_point hzero hall (by simp) .nil rfl
    · rw [show ['0'] = List.replicate 1 '0' from rfl, numberOf_zeros_append,
        numberOf_zeros_append]
      congr 2
      simp only [List.length_append, List.length_replicate, Int.negSucc_eq]
      omega

/-- Digits with a power of ten denote the decimal that they were laid out from. -/
theorem decimal?_scientific {ds : List Char} (hds : AllDigits ds) (hne : ds ≠ []) (e : Int) :
    decimal? (scientific ds e) = some ⟨numberOf ds, e + 1 - ds.length⟩ := by
  cases ds with
  | nil => exact absurd rfl hne
  | cons d rest =>
    have hd : AllDigits [d] := fun c h => hds c (by simp_all)
    have hrest : AllDigits rest := fun c h => hds c (List.mem_cons_of_mem _ h)
    cases rest with
    | nil =>
      have h := decimal?_plain hd (by simp) (exponent?_exponentText e)
      simpa [scientific] using h
    | cons c rest =>
      have h := decimal?_point hd hrest (by simp) (.exponent (exponentText e))
        (exponent?_exponentText e)
      simp only [scientific, List.cons_append, List.nil_append] at h ⊢
      rw [h]
      congr 2
      simp only [List.length_cons]
      omega

/-! ## Decimals printed -/

theorem significant_append (n : Nat) :
    ∃ zeros, Nat.toDigits 10 n = significant n ++ List.replicate zeros '0' := by
  have hsplit := List.takeWhile_append_dropWhile (p := (· == '0'))
    (l := (Nat.toDigits 10 n).reverse)
  have hzeros : ∀ c ∈ (Nat.toDigits 10 n).reverse.takeWhile (· == '0'), c = '0' :=
    fun c h => beq_iff_eq.mp (List.all_eq_true.mp List.all_takeWhile c h)
  refine ⟨((Nat.toDigits 10 n).reverse.takeWhile (· == '0')).length, ?_⟩
  rw [significant, ← List.reverse_replicate, ← List.eq_replicate_of_mem hzeros,
    ← List.reverse_append, hsplit, List.reverse_reverse]

theorem allDigits_significant (n : Nat) : AllDigits (significant n) := by
  obtain ⟨zeros, h⟩ := significant_append n
  exact fun c hc => AllDigits.toDigits n c (h ▸ List.mem_append_left _ hc)

theorem significant_ne_nil {n : Nat} (hn : n ≠ 0) : significant n ≠ [] := by
  intro hnil
  obtain ⟨zeros, h⟩ := significant_append n
  have hvalue := numberOf_toDigits n
  rw [h, hnil, numberOf_append_zeros] at hvalue
  exact hn (by simpa [numberOf] using hvalue.symm)

/-- A printed decimal reads back to a decimal of the same magnitude. -/
theorem decimal?_chars {d : Decimal} (hd : d.digits ≠ 0) :
    ∃ d', decimal? d.chars = some d' ∧ d'.bits = d.bits := by
  obtain ⟨zeros, hzeros⟩ := significant_append d.digits
  have hds := allDigits_significant d.digits
  have hne := significant_ne_nil hd
  have hlen : (Nat.toDigits 10 d.digits).length = (significant d.digits).length + zeros := by
    rw [hzeros, List.length_append, List.length_replicate]
  have hbits : d.bits =
      Decimal.bits ⟨numberOf (significant d.digits), d.exponent + zeros⟩ := by
    rw [← Decimal.bits_shift, ← numberOf_append_zeros, ← hzeros, numberOf_toDigits]
  rw [Decimal.chars, if_neg hd, hbits, hlen]
  simp only [Int.ofNat_eq_natCast]
  split
  · obtain ⟨d', hread, hd'⟩ := decimal?_positional hds hne
      (((significant d.digits).length + zeros : Nat) + d.exponent)
    refine ⟨d', hread, hd'.trans ?_⟩
    congr 2
    omega
  · refine ⟨_, decimal?_scientific hds hne _, ?_⟩
    congr 2
    omega

/-! ## The characters of a numeral -/

/-- The characters that the text of a finite double is made of. -/
def isNumeralChar (c : Char) : Bool :=
  c.isDigit || c == '.' || c == 'e' || c == '+' || c == '-'

/-- Every character may stand in the text of a finite double. -/
def AllNumeral (cs : List Char) : Prop := ∀ c ∈ cs, isNumeralChar c = true

theorem AllDigits.allNumeral {cs : List Char} (h : AllDigits cs) : AllNumeral cs := by
  intro c hc
  simp [isNumeralChar, h c hc]

theorem AllNumeral.cons {c : Char} {cs : List Char} (hc : isNumeralChar c = true)
    (h : AllNumeral cs) : AllNumeral (c :: cs) := by
  intro b hb
  rcases List.mem_cons.mp hb with rfl | hb
  · exact hc
  · exact h b hb

theorem AllNumeral.append {cs ds : List Char} (hc : AllNumeral cs) (hd : AllNumeral ds) :
    AllNumeral (cs ++ ds) :=
  fun c h => (List.mem_append.mp h).elim (hc c) (hd c)

theorem allNumeral_positional {ds : List Char} (hds : AllDigits ds) (point : Int) :
    AllNumeral (positional ds point) := by
  have hzeros := fun n => (AllDigits.replicate_zero n).allNumeral
  cases point with
  | ofNat p =>
    cases p with
    | zero => exact .cons rfl (.cons rfl hds.allNumeral)
    | succ p =>
      rw [positional]
      split
      · exact (hds.allNumeral.append (hzeros _)).append (.cons rfl (hzeros 1))
      · refine AllNumeral.append (fun c h => hds.allNumeral c (List.mem_of_mem_take h)) ?_
        exact .cons rfl fun c h => hds.allNumeral c (List.mem_of_mem_drop h)
  | negSucc zeros => exact .cons rfl (.cons rfl ((hzeros (zeros + 1)).append hds.allNumeral))

theorem allNumeral_exponentText (e : Int) : AllNumeral ('e' :: exponentText e) := by
  cases e with
  | ofNat n => exact .cons rfl (.cons rfl (allDigits_exponentDigits n).allNumeral)
  | negSucc n => exact .cons rfl (.cons rfl (allDigits_exponentDigits (n + 1)).allNumeral)

theorem allNumeral_scientific {ds : List Char} (hds : AllDigits ds) (e : Int) :
    AllNumeral (scientific ds e) := by
  match ds with
  | [] => exact allNumeral_exponentText e
  | [d] => exact .cons (hds.allNumeral d (by simp)) (allNumeral_exponentText e)
  | d :: c :: rest =>
    refine .cons (hds.allNumeral d (by simp)) (.cons rfl ?_)
    exact AllNumeral.append (fun b hb => hds.allNumeral b (List.mem_cons_of_mem _ hb))
      (allNumeral_exponentText e)

theorem allNumeral_zero : AllNumeral ['0', '.', '0'] :=
  .cons rfl (.cons rfl (AllDigits.replicate_zero 1).allNumeral)

theorem allNumeral_chars (d : Decimal) : AllNumeral d.chars := by
  have hds := allDigits_significant d.digits
  rw [Decimal.chars]
  split
  · exact allNumeral_zero
  · simp only []
    split
    · exact allNumeral_positional hds _
    · exact allNumeral_scientific hds _

/-- A printed decimal starts with a digit. -/
theorem chars_eq_cons (d : Decimal) :
    ∃ c cs, d.chars = c :: cs ∧ c.isDigit = true := by
  have hds := allDigits_significant d.digits
  rw [Decimal.chars]
  split
  · exact ⟨'0', _, rfl, rfl⟩
  · rename_i hd
    obtain ⟨c, cs, hcs⟩ := List.exists_cons_of_ne_nil (significant_ne_nil hd)
    rw [hcs] at hds ⊢
    have hc := hds c List.mem_cons_self
    simp only []
    split
    · generalize Int.ofNat (Nat.toDigits 10 d.digits).length + d.exponent = point
      cases point with
      | ofNat p =>
        cases p with
        | zero => exact ⟨'0', _, rfl, rfl⟩
        | succ p =>
          rw [positional]
          split
          · exact ⟨c, _, rfl, hc⟩
          · exact ⟨c, _, rfl, hc⟩
      | negSucc zeros => exact ⟨'0', _, rfl, rfl⟩
    · cases cs with
      | nil => exact ⟨c, _, rfl, hc⟩
      | cons b rest => exact ⟨c, _, rfl, hc⟩

/-! ## The text of a double -/

theorem not_isPadding_of_isNumeralChar {c : Char} (h : isNumeralChar c = true) :
    isPadding c = false := by
  simp only [isNumeralChar, Char.isDigit, Bool.or_eq_true, beq_iff_eq, Bool.and_eq_true,
    decide_eq_true_eq] at h
  rcases h with (((h | rfl) | rfl) | rfl) | rfl
  · have hlow : 48 ≤ c.toNat := h.1
    have hhigh : c.toNat ≤ 57 := h.2
    simp only [isPadding, Bool.or_eq_false_iff, Bool.and_eq_false_iff, decide_eq_false_iff_not,
      beq_eq_false_iff_ne]
    omega
  · decide
  · decide
  · decide
  · decide

theorem unpadded_eq {cs : List Char} (h : AllNumeral cs) : unpadded cs = cs := by
  have hdrop : ∀ ds : List Char, AllNumeral ds → ds.dropWhile isPadding = ds := by
    intro ds hds
    cases ds with
    | nil => rfl
    | cons d ds =>
      rw [List.dropWhile_cons_of_neg]
      simp [not_isPadding_of_isNumeralChar (hds d List.mem_cons_self)]
  have hrev : AllNumeral cs.reverse := fun c hc => h c (List.mem_reverse.mp hc)
  rw [unpadded, hdrop cs h, hdrop _ hrev, List.reverse_reverse]

theorem special?_of_isDigit (negative : Bool) {c : Char} (hc : c.isDigit = true)
    (cs : List Char) : special? negative (c :: cs) = none := by
  simp only [Char.isDigit, Bool.and_eq_true, decide_eq_true_eq] at hc
  have hhigh : c.toNat ≤ 57 := hc.2
  have hlow : lowered c = c := by
    have hA : ¬ 'A' ≤ c := by
      intro h
      have : 65 ≤ c.toNat := h
      omega
    simp [lowered, hA]
  have hi : c ≠ 'i' := by rintro rfl; exact absurd hhigh (by decide)
  have hn : c ≠ 'n' := by rintro rfl; exact absurd hhigh (by decide)
  simp [special?, hlow, hi, hn]

theorem signOf_signed (negative : Bool) {c : Char} (hc : c.isDigit = true) (cs : List Char) :
    signOf (if negative then '-' :: c :: cs else c :: cs) = (negative, c :: cs) := by
  cases negative with
  | true => rfl
  | false =>
    have hminus : c ≠ '-' := by rintro rfl; exact absurd hc (by decide)
    have hplus : c ≠ '+' := by rintro rfl; exact absurd hc (by decide)
    simp [signOf]
    split <;> simp_all

/-- The characters behind the sign in the text of a finite magnitude. -/
theorem read_signed (negative : Bool) {cs : List Char} {d : Decimal} (hall : AllNumeral cs)
    (hhead : ∃ c rest, cs = c :: rest ∧ c.isDigit = true) (hd : decimal? cs = some d) :
    read (signed negative cs) = some (d.toFloat negative) := by
  obtain ⟨c, rest, rfl, hc⟩ := hhead
  have hsigned : AllNumeral (if negative then '-' :: c :: rest else c :: rest) := by
    cases negative with
    | true => exact .cons rfl hall
    | false => exact hall
  simp only [read, signed, String.toList_ofList, unpadded_eq hsigned, signOf_signed negative hc,
    special?_of_isDigit negative hc, hd]

theorem isFinite_iff {x : Float} :
    isFinite x = true ↔ ∃ negative bits, Parts.of x = .finite negative bits := by
  simp only [isFinite]
  split <;> simp_all

/-- The text of a finite double reads back to it. -/
theorem read_text {x : Float} (h : isFinite x = true) : read (text x) = some x := by
  obtain ⟨negative, bits, hparts⟩ := isFinite_iff.mp h
  obtain ⟨hx, hfin⟩ := ofMagnitude_of_parts hparts
  simp only [text, hparts]
  split
  · rename_i hzero
    subst hzero
    have hdecimal : decimal? ['0', '.', '0'] = some ⟨0, -1⟩ := by decide
    rw [read_signed negative allNumeral_zero ⟨'0', _, rfl, rfl⟩ hdecimal, ← hx]
    rfl
  · rename_i hne
    have hbits := bits_shortest hfin
    have hdigits : (shortest bits).digits ≠ 0 := by
      intro hzero
      rw [Decimal.bits_eq, Decimal.num, hzero, Nat.zero_mul, Nat.zero_mul,
        nearestBits_zero_left (Decimal.den_pos _)] at hbits
      exact hne hbits.symm
    obtain ⟨d, hread, hd⟩ := decimal?_chars hdigits
    rw [read_signed negative (allNumeral_chars _) (chars_eq_cons _) hread, Decimal.toFloat, hd,
      hbits, hx]

theorem allNumeral_text {x : Float} (h : isFinite x = true) : AllNumeral (text x).toList := by
  obtain ⟨negative, bits, hparts⟩ := isFinite_iff.mp h
  have hsigned : ∀ cs, AllNumeral cs → AllNumeral (signed negative cs).toList := by
    intro cs hcs
    cases negative with
    | true => simpa [signed] using AllNumeral.cons rfl hcs
    | false => simpa [signed] using hcs
  simp only [text, hparts]
  split
  · exact hsigned _ allNumeral_zero
  · exact hsigned _ (allNumeral_chars _)

theorem text_ne_empty {x : Float} (h : isFinite x = true) : (text x).toList ≠ [] := by
  intro hnil
  have hnone : read (text x) = none := by rw [read, hnil]; rfl
  rw [read_text h] at hnone
  cases hnone

end TurtleGraphics.Number
