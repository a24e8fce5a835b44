import StellarGate.Db.Clock
import StellarGate.Db.Deliveries

/-! Reading a stored timestamp back: the time that `strftime` wrote. -/
namespace StellarGate
open Base

theorem daysFromCivil_civilFromDays (days : ℤ) :
    daysFromCivil (civilFromDays days).1 (civilFromDays days).2.1 (civilFromDays days).2.2 =
      days := by
  obtain ⟨y, doy, mp, hday, h0, h1, hmp, heq⟩ := civilFromDays_eq days
  have hlen := yearStart_length y
  have hstart : yearStart y = y / 400 * 146097 + (y % 400 * 365 + y % 400 / 4 - y % 400 / 100) := by
    unfold yearStart
    omega
  rw [heq]
  unfold daysFromCivil
  simp only
  by_cases hm : mp < 10
  · simp only [hm, if_true, Int.add_zero]
    rw [if_neg (show ¬ mp + 3 ≤ 2 by omega), if_pos (show 2 < mp + 3 by omega)]
    have hmonth : mp + 3 - 3 = mp := by omega
    rw [hmonth]
    omega
  · simp only [hm, if_false]
    rw [if_pos (show mp - 9 ≤ 2 by omega), if_neg (show ¬ 2 < mp - 9 by omega)]
    have hyear : y + 1 - 1 = y := by omega
    have hmonth : mp - 9 + 9 = mp := by omega
    rw [hyear, hmonth]
    omega

theorem pad_two {n : ℤ} (h0 : 0 ≤ n) (h : n < 100) :
    pad 2 n = [(n.toNat / 10).digitChar, (n.toNat % 10).digitChar] := by
  have hone : numeral 1 (n.toNat / 10) = [(n.toNat / 10).digitChar] := by
    rw [numeral, Nat.toDigits_of_lt_base (by omega)]
    rfl
  have hpad : pad 2 n = numeral (1 + 1) n.toNat := rfl
  rw [hpad, numeral_succ (by omega), hone, List.singleton_append]

theorem pad_four {n : ℤ} (h0 : 0 ≤ n) (h : n < 10000) :
    pad 4 n = [(n.toNat / 1000).digitChar, (n.toNat / 100 % 10).digitChar,
      (n.toNat / 10 % 10).digitChar, (n.toNat % 10).digitChar] := by
  have htwo : numeral 2 (n.toNat / 100) =
      [(n.toNat / 1000).digitChar, (n.toNat / 100 % 10).digitChar] := by
    have hpad := pad_two (n := ((n.toNat / 100 : ℕ) : ℤ)) (by omega) (by omega)
    have hdiv : n.toNat / 100 / 10 = n.toNat / 1000 := by omega
    rw [Int.toNat_natCast, hdiv] at hpad
    exact hpad
  have hdiv : n.toNat / 10 / 10 = n.toNat / 100 := by omega
  have hpad : pad 4 n = numeral (2 + 1 + 1) n.toNat := rfl
  rw [hpad, numeral_succ (by omega), numeral_succ (by omega), hdiv, htwo]
  rfl

theorem number_step : ∀ d < 10, d.digitChar.isDigit = true ∧ d.digitChar.toNat - 48 = d := by decide

theorem number_two {a b : ℕ} (ha : a < 10) (hb : b < 10) :
    number [a.digitChar, b.digitChar] = some (10 * a + b : ℤ) := by
  obtain ⟨ha₁, ha₂⟩ := number_step a ha
  obtain ⟨hb₁, hb₂⟩ := number_step b hb
  simp [number, ha₁, ha₂, hb₁, hb₂]

theorem number_four {a b c d : ℕ} (ha : a < 10) (hb : b < 10) (hc : c < 10) (hd : d < 10) :
    number [a.digitChar, b.digitChar, c.digitChar, d.digitChar] =
      some (1000 * a + 100 * b + 10 * c + d : ℤ) := by
  obtain ⟨ha₁, ha₂⟩ := number_step a ha
  obtain ⟨hb₁, hb₂⟩ := number_step b hb
  obtain ⟨hc₁, hc₂⟩ := number_step c hc
  obtain ⟨hd₁, hd₂⟩ := number_step d hd
  simp only [number, List.foldl_cons, List.foldl_nil, Option.bind_some, ha₁, ha₂, hb₁, hb₂,
    hc₁, hc₂, hd₁, hd₂, if_true]
  congr 1
  omega

theorem number_pad_two {n : ℤ} (h0 : 0 ≤ n) (h : n < 100) :
    number [(n.toNat / 10).digitChar, (n.toNat % 10).digitChar] = some n := by
  rw [number_two (by omega) (by omega)]
  congr 1
  omega

theorem number_pad_four {n : ℤ} (h0 : 0 ≤ n) (h : n < 10000) :
    number [(n.toNat / 1000).digitChar, (n.toNat / 100 % 10).digitChar,
      (n.toNat / 10 % 10).digitChar, (n.toNat % 10).digitChar] = some n := by
  rw [number_four (by omega) (by omega) (by omega) (by omega)]
  congr 1
  omega

theorem unixTime_strftime {t : ℤ} (h : InRange t) : unixTime (strftime t) = some t := by
  obtain ⟨hy0, hy1⟩ := h.year
  obtain ⟨hm0, hm1, hd0, hd1⟩ := civilFromDays_month (t / 86400)
  have hdays := daysFromCivil_civilFromDays (t / 86400)
  have hlist := strftime_toList t
  generalize civilFromDays (t / 86400) = date at *
  obtain ⟨year, month, day⟩ := date
  simp only at hy0 hy1 hm0 hm1 hd0 hd1 hdays hlist
  have hh : 0 ≤ t % 86400 / 3600 ∧ t % 86400 / 3600 < 24 := by omega
  have hn : 0 ≤ t % 86400 / 60 % 60 ∧ t % 86400 / 60 % 60 < 60 := by omega
  have hs : 0 ≤ t % 86400 % 60 ∧ t % 86400 % 60 < 60 := by omega
  have hsum : t / 86400 * 86400 + t % 86400 / 3600 * 3600 + t % 86400 / 60 % 60 * 60 +
      t % 86400 % 60 = t := by
    omega
  rw [pad_four hy0 (by omega), pad_two (by omega) (by omega), pad_two (by omega) (by omega),
    pad_two hh.1 (by omega), pad_two hn.1 (by omega), pad_two hs.1 (by omega)] at hlist
  unfold unixTime
  rw [hlist]
  simp only [List.cons_append, List.nil_append, number_pad_four hy0 (by omega),
    number_pad_two (show 0 ≤ month by omega) (by omega), number_pad_two (show 0 ≤ day by omega)
      (by omega),
    number_pad_two hh.1 (by omega), number_pad_two hn.1 (by omega), number_pad_two hs.1 (by omega),
    Option.bind_some]
  rw [if_pos ⟨hm0, hm1, hd0, hd1, by omega, by omega, by omega⟩, hdays, hsum]

end StellarGate
