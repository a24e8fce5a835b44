import StellarGate.Base.Decimal
import StellarGate.Db.Timestamp
import Mathlib.Data.String.Basic

/-! Stored timestamps order as time does: the text `strftime` writes grows with the clock,
as long as the year has four digits. -/
namespace StellarGate
open Base

/-- The days of the era before a day that count as whole years, leap days taken out. -/
def leapFree (doe : ℤ) : ℤ := doe - doe / 1460 + doe / 36524 - doe / 146096

/-- The day of the era on which its year `y` begins, in March. -/
def eraYear (y : ℤ) : ℤ := 365 * y + y / 4 - y / 100

/-- The day on which the year `y` begins, in March, from the start of the era 0. -/
def yearStart (y : ℤ) : ℤ := 365 * y + y / 4 - y / 100 + y / 400

theorem leapFree_mono {a b : ℤ} (h : a ≤ b) : leapFree a ≤ leapFree b := by
  unfold leapFree
  have h4 : b / 146096 - a / 146096 ≤ b / 36524 - a / 36524 := by omega
  have h1 : b / 1460 - a / 1460 ≤ b - a := by omega
  omega

/-- Where the years of an era begin, the formula for the year steps up. -/
theorem leapFree_eraYear {y : ℤ} (h0 : 1 ≤ y) (h1 : y ≤ 399) :
    leapFree (eraYear y - 1) < 365 * y ∧ 365 * y ≤ leapFree (eraYear y) := by
  have hall : ∀ n : Fin 399, leapFree (eraYear (n.val + 1) - 1) < 365 * ((n.val : ℤ) + 1) ∧
      365 * ((n.val : ℤ) + 1) ≤ leapFree (eraYear (n.val + 1)) := by
    decide +kernel
  have hn := hall ⟨(y - 1).toNat, by omega⟩
  have hy : (((y - 1).toNat : ℕ) : ℤ) + 1 = y := by omega
  simpa only [hy] using hn

theorem yearStart_mono {a b : ℤ} (h : a ≤ b) : yearStart a ≤ yearStart b := by
  unfold yearStart
  omega

theorem yearStart_length (y : ℤ) : yearStart (y + 1) - yearStart y ≤ 366 := by
  unfold yearStart
  omega

theorem yearStart_era (y era : ℤ) : yearStart (y + era * 400) = yearStart y + era * 146097 := by
  unfold yearStart
  have h4 : (y + era * 400) / 4 = y / 4 + era * 100 := by omega
  have h100 : (y + era * 400) / 100 = y / 100 + era * 4 := by omega
  have h400 : (y + era * 400) / 400 = y / 400 + era := by omega
  rw [h4, h100, h400]
  omega

theorem yearStart_eraYear {y : ℤ} (h0 : 0 ≤ y) (h1 : y ≤ 399) : yearStart y = eraYear y := by
  unfold yearStart eraYear
  omega

theorem leapFree_year {doe yoe : ℤ} (h0 : 0 ≤ doe) (h1 : doe < 146097)
    (hyoe : yoe = leapFree doe / 365) :
    0 ≤ yoe ∧ yoe ≤ 399 ∧ eraYear yoe ≤ doe ∧ (yoe = 399 ∨ doe < eraYear (yoe + 1)) := by
  have hlow : leapFree 0 ≤ leapFree doe := leapFree_mono h0
  have hhigh : leapFree doe ≤ leapFree 146096 := leapFree_mono (by omega)
  have hmin : leapFree 0 = 0 := by decide
  have hmax : leapFree 146096 = 145999 := by decide
  have hpos : 0 ≤ yoe := by omega
  have hle : yoe ≤ 399 := by omega
  refine ⟨hpos, hle, ?_, ?_⟩
  · by_contra hlt
    by_cases hzero : yoe = 0
    · simp [hzero, eraYear] at hlt
      omega
    · have := leapFree_mono (show doe ≤ eraYear yoe - 1 by omega)
      have := (leapFree_eraYear (show 1 ≤ yoe by omega) hle).1
      omega
  · by_contra hge
    push Not at hge
    have := leapFree_mono hge.2
    have := (leapFree_eraYear (show 1 ≤ yoe + 1 by omega) (show yoe + 1 ≤ 399 by omega)).2
    omega

/-- A day lies in the year that `civilFromDays` counts from March. -/
theorem civil_year (z : ℤ) :
    ∃ y, yearStart y ≤ z ∧ z < yearStart (y + 1) ∧
      y = leapFree (z % 146097) / 365 + z / 146097 * 400 ∧
      z - yearStart y = z % 146097 - eraYear (leapFree (z % 146097) / 365) := by
  have h0 : 0 ≤ z % 146097 := by omega
  have h1 : z % 146097 < 146097 := by omega
  have hz : z = z / 146097 * 146097 + z % 146097 := by omega
  generalize z % 146097 = doe at *
  generalize z / 146097 = era at *
  obtain ⟨yoe, hyoe⟩ : ∃ yoe, yoe = leapFree doe / 365 := ⟨_, rfl⟩
  obtain ⟨hpos, hle, hfrom, hto⟩ := leapFree_year h0 h1 hyoe
  have hstart := yearStart_eraYear hpos hle
  refine ⟨yoe + era * 400, ?_⟩
  rw [← hyoe, show yoe + era * 400 + 1 = yoe + 1 + era * 400 by omega, yearStart_era, yearStart_era]
  refine ⟨by omega, ?_, rfl, by omega⟩
  rcases hto with hto | hto
  · have hend : yearStart (399 + 1) = 146097 := by decide
    rw [hto]
    omega
  · have hnext : eraYear (yoe + 1) ≤ yearStart (yoe + 1) := by
      unfold yearStart eraYear
      omega
    omega

/-- Year, month and day of a day, counted from the March its year begins with. -/
theorem civilFromDays_eq (days : ℤ) :
    ∃ y doy mp, days + 719468 = yearStart y + doy ∧ 0 ≤ doy ∧
      doy < yearStart (y + 1) - yearStart y ∧
      mp = (5 * doy + 2) / 153 ∧
      civilFromDays days = (y + (if mp < 10 then 0 else 1), if mp < 10 then mp + 3 else mp - 9,
        doy - (153 * mp + 2) / 5 + 1) := by
  obtain ⟨y, hfrom, hto, hy, hday⟩ := civil_year (days + 719468)
  refine ⟨y, days + 719468 - yearStart y, _, by omega, by omega, by omega, rfl, ?_⟩
  have hdef (doy : ℤ) (h : doy = (days + 719468) % 146097 -
      eraYear (leapFree ((days + 719468) % 146097) / 365)) :
      civilFromDays days =
        (leapFree ((days + 719468) % 146097) / 365 + (days + 719468) / 146097 * 400 +
          (if (if (5 * doy + 2) / 153 < 10 then (5 * doy + 2) / 153 + 3
            else (5 * doy + 2) / 153 - 9) ≤ 2 then 1 else 0),
        if (5 * doy + 2) / 153 < 10 then (5 * doy + 2) / 153 + 3 else (5 * doy + 2) / 153 - 9,
        doy - (153 * ((5 * doy + 2) / 153) + 2) / 5 + 1) := by
    rw [h]
    rfl
  rw [hdef _ hday, ← hy]
  refine Prod.ext ?_ rfl
  have hlen := yearStart_length y
  have hdoy : 0 ≤ days + 719468 - yearStart y ∧ days + 719468 - yearStart y < 366 := by omega
  generalize days + 719468 - yearStart y = doy at hdoy ⊢
  simp only
  split_ifs <;> omega

def DateLt (a b : ℤ × ℤ × ℤ) : Prop :=
  a.1 < b.1 ∨ a.1 = b.1 ∧ (a.2.1 < b.2.1 ∨ a.2.1 = b.2.1 ∧ a.2.2 < b.2.2)

theorem civilFromDays_lt {a b : ℤ} (h : a < b) : DateLt (civilFromDays a) (civilFromDays b) := by
  obtain ⟨y, doy, mp, hday, h0, h1, hmp, heq⟩ := civilFromDays_eq a
  obtain ⟨y', doy', mp', hday', h0', h1', hmp', heq'⟩ := civilFromDays_eq b
  have hyear : y ≤ y' := by
    by_contra hlt
    have := yearStart_mono (show y' + 1 ≤ y by omega)
    omega
  have hlen := yearStart_length y
  have hmp11 : mp ≤ 11 := by omega
  rw [heq, heq']
  unfold DateLt
  rcases hyear.lt_or_eq with hyear | rfl
  · simp only
    split_ifs <;> omega
  · have hdoy : doy < doy' := by omega
    have hmonth : mp ≤ mp' := by omega
    simp only
    split_ifs <;> omega

theorem civilFromDays_month (days : ℤ) :
    1 ≤ (civilFromDays days).2.1 ∧ (civilFromDays days).2.1 ≤ 12 ∧
      1 ≤ (civilFromDays days).2.2 ∧ (civilFromDays days).2.2 ≤ 31 := by
  obtain ⟨y, doy, mp, -, h0, h1, hmp, heq⟩ := civilFromDays_eq days
  have hlen := yearStart_length y
  rw [heq]
  simp only
  split_ifs <;> omega

def InRange (t : ℤ) : Prop := -62167219200 ≤ t ∧ t ≤ 253402300799

instance (t : ℤ) : Decidable (InRange t) := inferInstanceAs (Decidable (_ ∧ _))

theorem InRange.year {t : ℤ} (h : InRange t) :
    0 ≤ (civilFromDays (t / 86400)).1 ∧ (civilFromDays (t / 86400)).1 ≤ 9999 := by
  unfold InRange at h
  have hfirst : civilFromDays (-719528) = (0, 1, 1) := by decide
  have hlast : civilFromDays 2932896 = (9999, 12, 31) := by decide
  constructor
  · rcases (show (-719528 : ℤ) ≤ t / 86400 by omega).lt_or_eq with hlt | heq
    · have := civilFromDays_lt hlt
      rw [hfirst, DateLt] at this
      omega
    · rw [← heq, hfirst]
  · rcases (show t / 86400 ≤ (2932896 : ℤ) by omega).lt_or_eq with hlt | heq
    · have := civilFromDays_lt hlt
      rw [hlast, DateLt] at this
      omega
    · rw [heq, hlast]

theorem pad_append_lt {width : ℕ} {m n : ℤ} (hw : 0 < width) (h0 : 0 ≤ m) (h : m < n)
    (hn : n < 10 ^ width) (x y : List Char) : pad width m ++ x < pad width n ++ y := by
  apply numeral_append_lt hw
  · have : ((n.toNat : ℕ) : ℤ) < ((10 ^ width : ℕ) : ℤ) := by
      push_cast
      omega
    exact_mod_cast this
  · omega

theorem strftime_toList (t : ℤ) :
    (strftime t).toList = pad 4 (civilFromDays (t / 86400)).1 ++ ('-' ::
      (pad 2 (civilFromDays (t / 86400)).2.1 ++
        ('-' :: (pad 2 (civilFromDays (t / 86400)).2.2 ++ ('T' ::
      (pad 2 (t % 86400 / 3600) ++ (':' :: (pad 2 (t % 86400 / 60 % 60) ++ (':' ::
      (pad 2 (t % 86400 % 60) ++ ['Z'])))))))))) := by
  simp [strftime]

theorem strftime_lt {s t : ℤ} (hs : InRange s) (ht : InRange t) (h : s < t) :
    strftime s < strftime t := by
  rw [String.lt_iff, strftime_toList, strftime_toList]
  have hyear := hs.year
  have hyear' := ht.year
  have hmonth := civilFromDays_month (s / 86400)
  have hmonth' := civilFromDays_month (t / 86400)
  have hskip {a : List Char} {c : Char} {x y : List Char} (hxy : x < y) : a ++ c :: x <
    a ++ c :: y :=
    List.append_left_lt (List.cons_lt_cons_iff.mpr (.inr ⟨rfl, hxy⟩))
  rcases (show s / 86400 ≤ t / 86400 by omega).lt_or_eq with hday | hday
  · rcases civilFromDays_lt hday with hy | ⟨hy, hm | ⟨hm, hd⟩⟩
    · exact pad_append_lt (by omega) hyear.1 hy (by omega) _ _
    · rw [hy]
      apply hskip
      exact pad_append_lt (by omega) (by omega) hm (by omega) _ _
    · rw [hy, hm]
      apply hskip
      apply hskip
      exact pad_append_lt (by omega) (by omega) hd (by omega) _ _
  · rw [hday]
    apply hskip
    apply hskip
    apply hskip
    rcases (show s % 86400 / 3600 ≤ t % 86400 / 3600 by omega).lt_or_eq with hh | hh
    · exact pad_append_lt (by omega) (by omega) hh (by omega) _ _
    rw [hh]
    apply hskip
    rcases (show s % 86400 / 60 % 60 ≤ t % 86400 / 60 % 60 by omega).lt_or_eq with hm | hm
    · exact pad_append_lt (by omega) (by omega) hm (by omega) _ _
    rw [hm]
    apply hskip
    exact pad_append_lt (by omega) (by omega) (by omega) (by omega) _ _

theorem strftime_mono {s t : ℤ} (hs : InRange s) (ht : InRange t) (h : s ≤ t) :
    strftime s ≤ strftime t := by
  rcases h.lt_or_eq with h | rfl
  · exact (strftime_lt hs ht h).le
  · exact le_rfl

/-- The texts of two times are ordered as the times. -/
theorem strftime_lt_iff {s t : ℤ} (hs : InRange s) (ht : InRange t) :
    strftime s < strftime t ↔ s < t := by
  constructor
  · intro h
    by_contra hle
    exact absurd h (not_lt.mpr (strftime_mono ht hs (not_lt.mp hle)))
  · exact strftime_lt hs ht

end StellarGate
