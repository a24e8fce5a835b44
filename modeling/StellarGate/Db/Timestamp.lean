import StellarGate.Money

/-! Stored timestamps (`src/db.rs`): the text SQLite's `strftime` writes for a Unix
time, and the repair of the older forms when a row is read. -/
namespace StellarGate

/-- Year, month and day of a day counted from 1970-01-01, in the Gregorian calendar. -/
def civilFromDays (days : ℤ) : ℤ × ℤ × ℤ :=
  let z := days + 719468
  let era := z / 146097
  let doe := z % 146097
  let yoe := (doe - doe / 1460 + doe / 36524 - doe / 146096) / 365
  let doy := doe - (365 * yoe + yoe / 4 - yoe / 100)
  let mp := (5 * doy + 2) / 153
  let month := if mp < 10 then mp + 3 else mp - 9
  (yoe + era * 400 + (if month ≤ 2 then 1 else 0), month, doy - (153 * mp + 2) / 5 + 1)

/-- A number in at least `width` columns, filled with zeros. -/
def pad (width : ℕ) (n : ℤ) : List Char := (Nat.toDigits 10 n.toNat).leftpad width '0'

/-- `strftime('%Y-%m-%dT%H:%M:%SZ', t, 'unixepoch')`. -/
def strftime (t : ℤ) : String :=
  let (year, month, day) := civilFromDays (t / 86400)
  let secs := t % 86400
  String.ofList (pad 4 year ++ '-' :: pad 2 month ++ '-' :: pad 2 day ++ 'T' ::
    pad 2 (secs / 3600) ++ ':' :: pad 2 (secs / 60 % 60) ++ ':' :: pad 2 (secs % 60) ++ ['Z'])

/-- SQLite's date functions give NULL after the year 9999. Before the year 0000 they give texts
with a minus sign, down to the year -4713, where this gives NULL as well: the tables hold no such
text, and a cutoff there is before all that they hold either way. -/
def strftimeChecked (t : ℤ) : Option String :=
  if -62167219200 ≤ t ∧ t ≤ 253402300799 then some (strftime t) else none

example : strftime 1777474800 = "2026-04-29T15:00:00Z" := by decide
example : strftime (1777474800 - 1) < strftime 1777474800 := by decide

/-- `str::replacen(from, to, 1)` for single characters. -/
def replaceFirst (src dst : Char) : List Char → List Char
  | [] => []
  | c :: cs => if c = src then dst :: cs else c :: replaceFirst src dst cs

/-- Normalize a raw timestamp to RFC 3339 UTC with a `Z` suffix. -/
def normalizeTs (raw : String) : String :=
  let s := trim raw.toList
  if s.getLast? = some 'Z' || s.contains '+' then String.ofList s
  else if (String.ofList s).utf8ByteSize = 19 then String.ofList (replaceFirst ' ' 'T' s ++ ['Z'])
  else String.ofList s

example : normalizeTs "2026-04-29 15:00:00" = "2026-04-29T15:00:00Z" := by decide

end StellarGate
