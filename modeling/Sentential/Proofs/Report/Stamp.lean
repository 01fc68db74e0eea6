import Mathlib.Algebra.Group.Nat.Defs
import Sentential.Report.Elapsed

/-!
# Elapsed times that can be read back

A stamp is a time to the millisecond in its parts, and is written `H:MM:SS.mmm`, after `D days, ` or
`1 day, ` if there are days.  The column of a log line is the stamp of the elapsed time where the
time has a fraction of a second.  Where it has none, the seconds are cut off in place of the last
digits of the fraction, and nothing can be read.

* `Stamp.total t`        the milliseconds of a stamp; `Stamp.ofTotal` is the way back;
* `Stamp.text t`         its text, `Stamp.cutText t` the same without seconds and fraction;
* `Stamp.ofText? cs`     the reader, which asks for all digits and for the right word for the days;
* `Stamp.ofText?_text`   it reads what is written, and `Stamp.ofText?_cutText` refuses the cut text;
* `Elapsed.column_read`  the column of every time that is not negative.
-/

namespace Sentential

structure Stamp where
  days : Nat
  hours : Fin 24
  minutes : Fin 60
  seconds : Fin 60
  thousandths : Fin 1000
deriving DecidableEq

namespace Stamp

/-! ## milliseconds -/

def total (t : Stamp) : Nat :=
  (((t.days * 24 + t.hours) * 60 + t.minutes) * 60 + t.seconds) * 1000 + t.thousandths

def ofTotal (n : Nat) : Stamp where
  days := n / 86400000
  hours := Fin.ofNat 24 (n / 3600000)
  minutes := Fin.ofNat 60 (n / 60000)
  seconds := Fin.ofNat 60 (n / 1000)
  thousandths := Fin.ofNat 1000 n

theorem total_ofTotal (n : Nat) : (ofTotal n).total = n := by
  simp only [total, ofTotal, Fin.val_ofNat]
  omega

/-! ## text -/

/-- at least `w` decimal digits -/
def padded (w n : Nat) : List Char := (Nat.toDigits 10 n).leftpad w '0'

def dayWord (d : Nat) : List Char :=
  if d = 1 then ['d', 'a', 'y', ','] else ['d', 'a', 'y', 's', ',']

/-- a text after the days, if there are any -/
def afterDays (d : Nat) (cs : List Char) : List Char :=
  if d = 0 then cs else padded 0 d ++ ' ' :: (dayWord d ++ ' ' :: cs)

def clockText (t : Stamp) : List Char :=
  padded 0 t.hours ++ ':' :: (padded 2 t.minutes ++ ':' ::
    (padded 2 t.seconds ++ '.' :: padded 3 t.thousandths))

def text (t : Stamp) : List Char := afterDays t.days t.clockText

/-- the text without the seconds and the fraction -/
def cutText (t : Stamp) : List Char :=
  afterDays t.days (padded 0 t.hours ++ ':' :: padded 2 t.minutes)

theorem padded_zero (n : Nat) : padded 0 n = Nat.toDigits 10 n := by
  rw [padded, List.leftpad, Nat.zero_sub]
  rfl

theorem padded_succ (w n : Nat) :
    padded (w + 2) n = padded (w + 1) (n / 10) ++ [Nat.digitChar (n % 10)] := by
  rw [padded, padded, List.leftpad, List.leftpad]
  by_cases h : n < 10
  · rw [Nat.toDigits_of_lt_base h, Nat.div_eq_of_lt h, Nat.mod_eq_of_lt h, Nat.toDigits_zero]
    exact congrArg (· ++ [Nat.digitChar n]) List.replicate_succ'
  · rw [Nat.toDigits_of_base_le (by decide) (Nat.le_of_not_lt h), List.length_append,
      List.append_assoc, List.length_singleton, Nat.succ_sub_succ]

theorem length_padded (w n : Nat) (hw : 0 < w) (h : n < 10 ^ w) : (padded w n).length = w := by
  rw [padded, List.length_leftpad]
  exact Nat.max_eq_left ((Nat.length_toDigits_le_iff (by decide) hw).mpr h)

theorem isDigit_of_mem_padded (w n : Nat) (c : Char) (h : c ∈ padded w n) : c.isDigit = true := by
  rcases List.mem_append.mp h with h | h
  · rw [List.eq_of_mem_replicate h]
    rfl
  · exact Nat.isDigit_of_mem_toDigits (by decide) (by decide) h

theorem not_mem_padded (w n : Nat) (c : Char) (hc : c.isDigit = false) : c ∉ padded w n := by
  intro h
  rw [isDigit_of_mem_padded w n c h] at hc
  exact nomatch hc

theorem afterDays_append (d : Nat) (cs ds : List Char) :
    afterDays d (cs ++ ds) = afterDays d cs ++ ds := by
  unfold afterDays
  split
  · rfl
  · simp only [List.append_assoc, List.cons_append]

/-! ## reading -/

/-- the value of decimal digits, of which there is one at least -/
def number? (cs : List Char) : Option Nat :=
  if cs ≠ [] ∧ cs.all Char.isDigit then some (Nat.ofDigitChars 10 cs 0) else none

/-- a number below a bound -/
def part? (b : Nat) (cs : List Char) : Option (Fin b) := do
  let n ← number? cs
  if h : n < b then some ⟨n, h⟩ else none

def ofClock? (d : Nat) (cs : List Char) : Option Stamp :=
  match cs.splitOn ':' with
  | [h, m, rest] =>
    match rest.splitOn '.' with
    | [s, x] =>
      if m.length = 2 ∧ s.length = 2 ∧ x.length = 3 then
        return ⟨d, ← part? 24 h, ← part? 60 m, ← part? 60 s, ← part? 1000 x⟩
      else none
    | _ => none
  | _ => none

def ofText? (cs : List Char) : Option Stamp :=
  match cs.splitOn ' ' with
  | [clock] => ofClock? 0 clock
  | [days, word, clock] => do
    let d ← number? days
    if word = dayWord d then ofClock? d clock else none
  | _ => none

/-! ## what is written is read -/

theorem number?_padded (w n : Nat) : number? (padded w n) = some n := by
  have hne : padded w n ≠ [] := List.append_ne_nil_of_right_ne_nil _ Nat.toDigits_ne_nil
  have hall : (padded w n).all Char.isDigit = true :=
    List.all_eq_true.mpr (isDigit_of_mem_padded w n)
  rw [number?, if_pos ⟨hne, hall⟩, padded, List.leftpad, Nat.ofDigitChars_append,
    Nat.ofDigitChars_replicate_zero, Nat.mul_zero, Nat.ofDigitChars_ten_toDigits]

theorem part?_padded (w : Nat) {b : Nat} (i : Fin b) : part? b (padded w i) = some i := by
  rw [part?, number?_padded]
  exact dif_pos i.isLt

theorem ofClock?_clockText (t : Stamp) : ofClock? t.days t.clockText = some t := by
  have hlast : ':' ∉ padded 2 t.seconds ++ '.' :: padded 3 t.thousandths := by
    simp [not_mem_padded]
  have hcolon : t.clockText.splitOn ':' = [padded 0 t.hours, padded 2 t.minutes,
      padded 2 t.seconds ++ '.' :: padded 3 t.thousandths] := by
    rw [clockText, List.splitOn_append_cons_self_of_not_mem (not_mem_padded _ _ _ rfl),
      List.splitOn_append_cons_self_of_not_mem (not_mem_padded _ _ _ rfl),
      List.splitOn_eq_singleton hlast]
  have hpoint : (padded 2 t.seconds ++ '.' :: padded 3 t.thousandths).splitOn '.'
      = [padded 2 t.seconds, padded 3 t.thousandths] := by
    rw [List.splitOn_append_cons_self_of_not_mem (not_mem_padded _ _ _ rfl),
      List.splitOn_eq_singleton (not_mem_padded _ _ _ rfl)]
  have hwidths : (padded 2 t.minutes).length = 2 ∧ (padded 2 t.seconds).length = 2
      ∧ (padded 3 t.thousandths).length = 3 :=
    ⟨length_padded 2 _ (by decide) (by omega), length_padded 2 _ (by decide) (by omega),
      length_padded 3 _ (by decide) (by omega)⟩
  simp only [ofClock?, hcolon, hpoint, if_pos hwidths, part?_padded]
  rfl

theorem ofText?_afterDays (d : Nat) (cs : List Char) (h : ' ' ∉ cs) :
    ofText? (afterDays d cs) = ofClock? d cs := by
  unfold afterDays
  split
  · rename_i hd
    rw [ofText?, List.splitOn_eq_singleton h, hd]
  · have hword : ' ' ∉ dayWord d := by
      unfold dayWord
      split <;> decide
    rw [ofText?, List.splitOn_append_cons_self_of_not_mem (not_mem_padded _ _ _ rfl),
      List.splitOn_append_cons_self_of_not_mem hword, List.splitOn_eq_singleton h]
    show (do
      let d' ← number? (padded 0 d)
      if dayWord d = dayWord d' then ofClock? d' cs else none) = _
    rw [number?_padded]
    exact if_pos rfl

theorem ofText?_text (t : Stamp) : ofText? t.text = some t := by
  have hblank : ' ' ∉ t.clockText := by simp [clockText, not_mem_padded]
  rw [text, ofText?_afterDays _ _ hblank, ofClock?_clockText]

theorem ofText?_cutText (t : Stamp) : ofText? t.cutText = none := by
  have hblank : ' ' ∉ padded 0 t.hours ++ ':' :: padded 2 t.minutes := by simp [not_mem_padded]
  rw [cutText, ofText?_afterDays _ _ hblank, ofClock?,
    List.splitOn_append_cons_self_of_not_mem (not_mem_padded _ _ _ rfl),
    List.splitOn_eq_singleton (not_mem_padded _ _ _ rfl)]

end Stamp

namespace Elapsed

/-! ## digits -/

theorem length_digits (w n : Nat) : (digits w n).length = w := by
  induction w generalizing n with
  | zero => rfl
  | succ w ih => rw [digits, List.length_append, ih, List.length_singleton]

theorem digits_add (v w n : Nat) : digits (v + w) n = digits v (n / 10 ^ w) ++ digits w n := by
  induction w generalizing n with
  | zero => rw [digits, List.append_nil, Nat.pow_zero, Nat.div_one, Nat.add_zero]
  | succ w ih =>
    rw [← Nat.add_assoc, digits, ih, digits, List.append_assoc, Nat.div_div_eq_div_mul,
      Nat.pow_succ']

theorem digit_eq (n : Nat) : Char.ofNat (48 + n % 10) = Nat.digitChar (n % 10) :=
  (by decide : ∀ k < 10, Char.ofNat (48 + k) = Nat.digitChar k) _ (Nat.mod_lt n (by decide))

theorem digits_eq_padded (w n : Nat) (h : n < 10 ^ (w + 1)) :
    digits (w + 1) n = Stamp.padded (w + 1) n := by
  induction w generalizing n with
  | zero =>
    have hn : n < 10 := h
    rw [digits, digits, digit_eq, Nat.mod_eq_of_lt hn, Stamp.padded, Nat.toDigits_of_lt_base hn]
    rfl
  | succ w ih =>
    have hn : n / 10 < 10 ^ (w + 1) := by
      rw [Nat.pow_succ] at h
      exact Nat.div_lt_of_lt_mul (Nat.mul_comm _ 10 ▸ h)
    rw [digits, ih _ hn, digit_eq, Stamp.padded_succ]

/-! ## the text of a time -/

theorem dayText_append (d : Nat) (cs : List Char) : dayText d ++ cs = Stamp.afterDays d cs := by
  unfold dayText Stamp.afterDays
  by_cases h : d = 0
  · rw [h]
    rfl
  · have hd : (d : Int) ≠ 0 := by omega
    have hdigits : (toString (d : Int)).toList = Stamp.padded 0 d :=
      Nat.toList_repr.trans (Stamp.padded_zero d).symm
    rw [if_neg hd, if_neg h, hdigits]
    by_cases hone : d = 1
    · rw [hone]
      rfl
    · have hnot : ¬ ((decide ((d : Int) = 1) || decide ((d : Int) = -1)) = true) := by
        simp only [Bool.or_eq_true, decide_eq_true_eq]
        omega
      rw [if_neg hnot, Stamp.dayWord, if_neg hone]
      simp only [List.append_assoc, List.cons_append, List.nil_append]

theorem days_natCast (u : Nat) : days u = (Stamp.ofTotal (u / 1000)).days := by
  show (u : Int).fdiv (86400000000 : Nat) = ((u / 1000 / 86400000 : Nat) : Int)
  rw [Int.fdiv_eq_ediv_of_nonneg _ (Int.natCast_nonneg _), Nat.div_div_eq_div_mul]
  rfl

theorem rest_natCast (u : Nat) : rest u = u % 86400000000 := by
  show ((u : Int).fmod (86400000000 : Nat)).toNat = _
  rw [Int.fmod_eq_emod_of_nonneg _ (Int.natCast_nonneg _), ← Int.natCast_emod, Int.toNat_natCast]

/-- a time in the parts of its milliseconds, with the digits of the fraction that it has -/
theorem shown_natCast (u : Nat) :
    let t := Stamp.ofTotal (u / 1000)
    shown u = Stamp.afterDays t.days (Stamp.padded 0 t.hours ++ ':' :: (Stamp.padded 2 t.minutes
      ++ ':' :: (Stamp.padded 2 t.seconds
        ++ if u % 1000000 = 0 then [] else '.' :: digits 6 (u % 1000000)))) := by
  intro t
  have hours : u % 86400000000 / 1000000 / 3600 = t.hours := by
    show _ = u / 1000 / 3600000 % 24
    omega
  have minutes : u % 86400000000 / 1000000 / 60 % 60 = t.minutes := by
    show _ = u / 1000 / 60000 % 60
    omega
  have seconds : u % 86400000000 / 1000000 % 60 = t.seconds := by
    show _ = u / 1000 / 1000 % 60
    omega
  have fraction : u % 86400000000 % 1000000 = u % 1000000 := by omega
  have hdigits : (toString (t.hours : Nat)).toList = Stamp.padded 0 t.hours :=
    Nat.toList_repr.trans (Stamp.padded_zero t.hours).symm
  rw [shown, days_natCast, rest_natCast, dayText_append]
  unfold clockText
  simp only [hours, minutes, seconds, fraction, hdigits]
  rw [digits_eq_padded 1 _ (by omega), digits_eq_padded 1 _ (by omega)]
  simp only [List.append_assoc, List.cons_append]
  rfl

/-! ## the column -/

theorem column_of_append (u : Int) (front last : List Char) (h : shown u = front ++ last)
    (hl : last.length = 3) : (column u).toList = front := by
  simp only [column, String.toList_ofList, h, List.length_append, hl, Nat.add_sub_cancel,
    List.take_left]

/-- without a fraction the last three characters are the seconds -/
theorem column_of_whole (u : Nat) (h : u % 1000000 = 0) :
    (column u).toList = (Stamp.ofTotal (u / 1000)).cutText := by
  refine column_of_append u _ (':' :: Stamp.padded 2 (Stamp.ofTotal (u / 1000)).seconds) ?_ ?_
  · rw [shown_natCast, if_pos h, Stamp.cutText, ← Stamp.afterDays_append]
    simp only [List.append_assoc, List.cons_append, List.append_nil]
  · rw [List.length_cons, Stamp.length_padded 2 _ (by decide) (by omega)]

/-- with a fraction they are the last three of its six digits -/
theorem column_of_fraction (u : Nat) (h : u % 1000000 ≠ 0) :
    (column u).toList = (Stamp.ofTotal (u / 1000)).text := by
  refine column_of_append u _ (digits 3 (u % 1000000)) ?_ (length_digits 3 _)
  have hthousandths : u % 1000000 / 10 ^ 3 = (Stamp.ofTotal (u / 1000)).thousandths := by
    show _ = u / 1000 % 1000
    omega
  rw [shown_natCast, if_neg h, Stamp.text, Stamp.clockText, ← Stamp.afterDays_append,
    digits_add 3 3, hthousandths, digits_eq_padded 2 _ (by omega)]
  simp only [List.append_assoc, List.cons_append]

/-- **What can be read of an elapsed time.**  The column of a time with a fraction of a second is
the stamp of its whole milliseconds, and the reader gives these back.  The column of any other time
is cut off behind the minutes: it is no stamp, and the reader refuses it. -/
theorem column_read (u : Nat) :
    (column u).toList = (if u % 1000000 = 0 then (Stamp.ofTotal (u / 1000)).cutText
        else (Stamp.ofTotal (u / 1000)).text)
      ∧ (Stamp.ofText? (column u).toList).map Stamp.total
        = (if u % 1000000 = 0 then none else some (u / 1000))
      ∧ ((∃ t : Stamp, (column u).toList = t.text) ↔ u % 1000000 ≠ 0) := by
  by_cases h : u % 1000000 = 0
  · rw [if_pos h, if_pos h, column_of_whole u h]
    have hread := (Stamp.ofTotal (u / 1000)).ofText?_cutText
    refine ⟨rfl, by rw [hread]; rfl, iff_of_false ?_ (not_not_intro h)⟩
    rintro ⟨t, ht⟩
    rw [ht, t.ofText?_text] at hread
    exact nomatch hread
  · rw [if_neg h, if_neg h, column_of_fraction u h, Stamp.ofText?_text, Option.map_some,
      Stamp.total_ofTotal]
    exact ⟨rfl, rfl, iff_of_true ⟨_, rfl⟩ h⟩

example : column 90061001999 = "1 day, 1:01:01.001" := by decide

/-- five seconds are shown as no minutes -/
theorem column_of_five_seconds :
    column 5000000 = "0:00" ∧ Stamp.ofText? (column 5000000).toList = none
      ∧ (Stamp.ofTotal (5000000 / 1000)).text = "0:00:05.000".toList := by
  decide

end Elapsed

end Sentential
