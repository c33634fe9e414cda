import EasyWaf.Core.Calendar
import EasyWaf.Core.Needs
import EasyWaf.Text.Decimal
import EasyWaf.Text.Utf8

/-!
# Scheduled snapshots

A snapshot is named for when it was taken, and everything else about the ones that
are kept is read off the names in their directory: whether one is due, which ones are
listed, and which ones are older than those to be kept.
-/

namespace EasyWaf.Backup.Snapshots

open EasyWaf.Core EasyWaf.Core.Calendar EasyWaf.Core.Program EasyWaf.Text

section Names

def dateDigits (date : Date) : Text :=
  padded 4 date.year ++ padded 2 date.month ++ padded 2 date.day

def clockDigits (clock : Clock) : Text :=
  padded 2 clock.hour ++ padded 2 clock.minute ++ padded 2 clock.second

def nameStart : Text := ['e', 'a', 's', 'y', 'w', 'a', 'f', '-']

def nameEnd : Text := ['.', 'd', 'b']

/-- The name of a snapshot, by the digits of its date and of its time. -/
def nameOf (date clock : Text) : Text := nameStart ++ (date ++ '-' :: (clock ++ nameEnd))

/-- `file_name`. -/
def fileName (now : Moment) : Text := nameOf (dateDigits now.date) (clockDigits now.clock)

def isAsciiDigit (byte : UInt8) : Bool := 48 ≤ byte && byte ≤ 57

/-- `is_snapshot_name`. -/
def isSnapshotName (name : Text) : Bool :=
  let bytes := name.bytes
  bytes.length == "easywaf-20260927-080509.db".toList.length
    && nameStart.isPrefixOf name
    && nameEnd.isSuffixOf name
    && bytes[16]? == some 45
    && ((bytes.drop 8).take 8).all isAsciiDigit
    && ((bytes.drop 17).take 6).all isAsciiDigit

/-- `taken_from_name`, of the name of a snapshot: its digits, read as
`%Y%m%d-%H%M%S`. -/
def takenFromName (name : Text) : Option Moment := do
  let year ← parseDigits ((name.drop 8).take 4)
  let month ← parseDigits ((name.drop 12).take 2)
  let day ← parseDigits ((name.drop 14).take 2)
  let hour ← parseDigits ((name.drop 17).take 2)
  let minute ← parseDigits ((name.drop 19).take 2)
  let second ← parseDigits ((name.drop 21).take 2)
  let date ← Date.ofFields? year month day
  let clock ← Clock.ofFields? hour minute second
  return ⟨date, clock⟩

/-- `%Y-%m-%d %H:%M:%S`. -/
def takenText (taken : Moment) : Text :=
  padded 4 taken.date.year ++ '-' :: padded 2 taken.date.month ++ '-' :: padded 2 taken.date.day ++
    ' ' :: padded 2 taken.clock.hour ++ ':' :: padded 2 taken.clock.minute ++
    ':' :: padded 2 taken.clock.second

variable {now other taken : Moment} {date date' : Date} {clock clock' : Clock} {name : Text}

theorem length_dateDigits (date : Date) : (dateDigits date).length = 8 := by
  rw [dateDigits, List.length_append, List.length_append,
    length_padded (by norm_num) date.year_lt, length_padded (by norm_num) date.month_lt,
    length_padded (by norm_num) date.day_lt]

theorem length_clockDigits (clock : Clock) : (clockDigits clock).length = 6 := by
  have hhour := clock.hour_lt
  have hminute := clock.minute_lt
  have hsecond := clock.second_le
  rw [clockDigits, List.length_append, List.length_append, length_padded (by norm_num) (by omega),
    length_padded (by norm_num) (by omega), length_padded (by norm_num) (by omega)]

theorem dateDigits_lt_iff : dateDigits date < dateDigits date' ↔ date.Before date' := by
  have hyear (date : Date) : (padded 4 date.year).length = 4 :=
    length_padded (by norm_num) date.year_lt
  have hmonth (date : Date) : (padded 2 date.month).length = 2 :=
    length_padded (by norm_num) date.month_lt
  rw [dateDigits, dateDigits, List.append_assoc, List.append_assoc,
    append_lt_append_iff ((hyear date).trans (hyear date').symm),
    append_lt_append_iff ((hmonth date).trans (hmonth date').symm),
    padded_lt_padded_iff (by norm_num) date.year_lt date'.year_lt,
    padded_lt_padded_iff (by norm_num) date.month_lt date'.month_lt,
    padded_lt_padded_iff (by norm_num) date.day_lt date'.day_lt, padded_inj, padded_inj,
    Date.Before]

theorem clockDigits_lt_iff : clockDigits clock < clockDigits clock' ↔ clock.Before clock' := by
  have hhour (clock : Clock) : clock.hour < 10 ^ 2 := clock.hour_lt.trans (by norm_num)
  have hminute (clock : Clock) : clock.minute < 10 ^ 2 := clock.minute_lt.trans (by norm_num)
  have hsecond (clock : Clock) : clock.second < 10 ^ 2 :=
    clock.second_le.trans_lt (by norm_num)
  have hdigits {n : ℕ} (hn : n < 10 ^ 2) : (padded 2 n).length = 2 :=
    length_padded (by norm_num) hn
  rw [clockDigits, clockDigits, List.append_assoc, List.append_assoc,
    append_lt_append_iff ((hdigits (hhour clock)).trans (hdigits (hhour clock')).symm),
    append_lt_append_iff ((hdigits (hminute clock)).trans (hdigits (hminute clock')).symm),
    padded_lt_padded_iff (by norm_num) (hhour clock) (hhour clock'),
    padded_lt_padded_iff (by norm_num) (hminute clock) (hminute clock'),
    padded_lt_padded_iff (by norm_num) (hsecond clock) (hsecond clock'), padded_inj, padded_inj,
    Clock.Before]

/-- The names of snapshots are in the order of their moments. -/
theorem fileName_lt_iff : fileName now < fileName other ↔ now.Before other := by
  have hdates := (length_dateDigits now.date).trans (length_dateDigits other.date).symm
  have hclocks := (length_clockDigits now.clock).trans (length_clockDigits other.clock).symm
  have heq : dateDigits now.date = dateDigits other.date ↔ now.date = other.date := by
    refine ⟨fun heq => ?_, congrArg dateDigits⟩
    obtain hbefore | hsame | hafter := Date.trichotomy now.date other.date
    · exact absurd heq (dateDigits_lt_iff.mpr hbefore).ne
    · exact hsame
    · exact absurd heq (dateDigits_lt_iff.mpr hafter).ne'
  rw [fileName, fileName, nameOf, nameOf]
  rw [append_lt_append_left_iff, append_lt_append_iff hdates, List.cons_lt_cons_iff,
    append_lt_append_iff hclocks, dateDigits_lt_iff, clockDigits_lt_iff, heq,
    Moment.Before]
  simp only [lt_irrefl, true_and, false_or, and_false, or_false]

theorem fileName_injective : Function.Injective fileName := by
  intro now other heq
  obtain hbefore | hsame | hafter := Moment.trichotomy now other
  · exact absurd heq (fileName_lt_iff.mpr hbefore).ne
  · exact hsame
  · exact absurd heq (fileName_lt_iff.mpr hafter).ne'

theorem length_nameOf {date clock : Text} (hdate : date.length = 8) (hclock : clock.length = 6) :
    (nameOf date clock).length = 26 := by
  have hstart : nameStart.length = 8 := rfl
  have hend : nameEnd.length = 3 := rfl
  simp only [nameOf, List.length_append, List.length_cons, hstart, hend, hdate, hclock]

/-- Some of the digits of a date, in the name. -/
theorem drop_take_date {date clock : Text} (hdate : date.length = 8) {start length : ℕ}
    (hle : start + length ≤ 8) :
    ((nameOf date clock).drop (8 + start)).take length = (date.drop start).take length := by
  have hstart : nameStart.length = 8 := rfl
  have hrest : length ≤ (date.drop start).length := by
    rw [List.length_drop]
    omega
  rw [nameOf, ← List.drop_drop, List.drop_left' hstart, List.drop_append_of_le_length (by omega),
    List.take_append_of_le_length hrest]

/-- Some of the digits of a time, in the name. -/
theorem drop_take_clock {date clock : Text} (hdate : date.length = 8) (hclock : clock.length = 6)
    {start length : ℕ} (hle : start + length ≤ 6) :
    ((nameOf date clock).drop (17 + start)).take length = (clock.drop start).take length := by
  have hstart : nameStart.length = 8 := rfl
  have hrest : length ≤ (clock.drop start).length := by
    rw [List.length_drop]
    omega
  rw [nameOf, show 17 + start = 8 + (8 + (1 + start)) by omega, ← List.drop_drop, ← List.drop_drop,
    ← List.drop_drop, List.drop_left' hstart, List.drop_left' hdate, List.drop_succ_cons,
    List.drop_zero, List.drop_append_of_le_length (by omega), List.take_append_of_le_length hrest]

/-- What the digits of a name are read as. -/
theorem takenFromName_nameOf {date clock : Text} (hdate : date.length = 8)
    (hclock : clock.length = 6) :
    takenFromName (nameOf date clock) = (do
      let year ← parseDigits (date.take 4)
      let month ← parseDigits ((date.drop 4).take 2)
      let day ← parseDigits ((date.drop 6).take 2)
      let hour ← parseDigits (clock.take 2)
      let minute ← parseDigits ((clock.drop 2).take 2)
      let second ← parseDigits ((clock.drop 4).take 2)
      let date ← Date.ofFields? year month day
      let clock ← Clock.ofFields? hour minute second
      return ⟨date, clock⟩) := by
  rw [takenFromName, @drop_take_date date clock hdate 0 4 (by norm_num),
    @drop_take_date date clock hdate 4 2 (by norm_num),
    @drop_take_date date clock hdate 6 2 (by norm_num),
    @drop_take_clock date clock hdate hclock 0 2 (by norm_num),
    @drop_take_clock date clock hdate hclock 2 2 (by norm_num),
    @drop_take_clock date clock hdate hclock 4 2 (by norm_num), List.drop_zero, List.drop_zero]

/-- Three fields of digits, one behind the other. -/
theorem fields_append {first second third : Text} {width : ℕ} (hfirst : first.length = width)
    (hsecond : second.length = 2) (hthird : third.length = 2) :
    (first ++ second ++ third).take width = first ∧
      ((first ++ second ++ third).drop width).take 2 = second ∧
      ((first ++ second ++ third).drop (width + 2)).take 2 = third := by
  refine ⟨?_, ?_, ?_⟩
  · rw [List.append_assoc, List.take_left' hfirst]
  · rw [List.append_assoc, List.drop_left' hfirst, List.take_left' hsecond]
  · rw [List.drop_left' (by rw [List.length_append, hfirst, hsecond]), ← hthird, List.take_length]

theorem takenFromName_fileName (now : Moment) : takenFromName (fileName now) = some now := by
  obtain ⟨hyear, hmonth, hday⟩ := @fields_append (padded 4 now.date.year)
    (padded 2 now.date.month) (padded 2 now.date.day) 4
    (length_padded (by norm_num) now.date.year_lt)
    (length_padded (by norm_num) now.date.month_lt) (length_padded (by norm_num) now.date.day_lt)
  obtain ⟨hhour, hminute, hsecond⟩ := @fields_append (padded 2 now.clock.hour)
    (padded 2 now.clock.minute) (padded 2 now.clock.second) 2
    (length_padded (by norm_num) (now.clock.hour_lt.trans (by norm_num)))
    (length_padded (by norm_num) (now.clock.minute_lt.trans (by norm_num)))
    (length_padded (by norm_num) (now.clock.second_le.trans_lt (by norm_num)))
  rw [fileName, takenFromName_nameOf (length_dateDigits _) (length_clockDigits _), dateDigits,
    clockDigits, hyear, hmonth, hday, hhour, hminute, hsecond]
  simp only [parseDigits_padded, Option.bind_eq_bind, Option.bind_some, Date.ofFields?_fields,
    Clock.ofFields?_fields]
  rfl

/-- Three fields of digits are the numbers read of them, with zeros before them. -/
theorem padded_fields {digits : Text} {width : ℕ} (hwidth : 0 < width)
    (hlength : digits.length = width + 4) (hdigits : ∀ c ∈ digits, c.isDigit)
    {first second third : ℕ} (hfirst : parseDigits (digits.take width) = some first)
    (hsecond : parseDigits ((digits.drop width).take 2) = some second)
    (hthird : parseDigits ((digits.drop (width + 2)).take 2) = some third) :
    padded width first ++ padded 2 second ++ padded 2 third = digits := by
  have hfield {width : ℕ} {field : Text} {n : ℕ} (hwidth : 0 < width)
      (hfield : field.length = width)
      (hmem : ∀ c ∈ field, c ∈ digits) (hn : parseDigits field = some n) :
      padded width n = field := by
    have hne : field ≠ [] := List.length_pos_iff.mp (hfield ▸ hwidth)
    have hall : ∀ c ∈ field, c.isDigit := fun c hc => hdigits c (hmem c hc)
    rw [parseDigits_of_digits hne hall] at hn
    rw [← Option.some.inj hn, ← hfield]
    exact padded_ofDigitChars hne hall
  have hlength : (digits.drop (width + 2)).length ≤ 2 := by
    rw [List.length_drop]
    omega
  have hlast : (digits.drop (width + 2)).take 2 = (digits.drop width).drop 2 := by
    rw [List.drop_drop, List.take_of_length_le hlength]
  rw [hfield hwidth (by rw [List.length_take]; omega) (fun c => List.mem_of_mem_take) hfirst,
    hfield (by norm_num) (by rw [List.length_take, List.length_drop]; omega)
      (fun c hc => List.mem_of_mem_drop (List.mem_of_mem_take hc)) hsecond,
    hfield (by norm_num) (by rw [List.length_take, List.length_drop]; omega)
      (fun c hc => List.mem_of_mem_drop (List.mem_of_mem_take hc)) hthird]
  rw [hlast, List.append_assoc, List.take_append_drop, List.take_append_drop]

/-- A name whose digits are those of a moment is that moment's name. -/
theorem fileName_of_taken {date clock : Text} (hdate : date.length = 8) (hclock : clock.length = 6)
    (hdates : ∀ c ∈ date, c.isDigit) (hclocks : ∀ c ∈ clock, c.isDigit)
    (htaken : takenFromName (nameOf date clock) = some taken) :
    fileName taken = nameOf date clock := by
  simp only [takenFromName_nameOf hdate hclock, Option.bind_eq_bind, Option.bind_eq_some_iff]
    at htaken
  obtain ⟨year, hyear, month, hmonth, day, hday, hour, hhour, minute, hminute, second, hsecond,
    date', hdate', clock', hclock', htaken⟩ := htaken
  obtain rfl := Option.some.inj htaken
  obtain ⟨rfl, rfl, rfl⟩ := Date.eq_of_ofFields? hdate'
  obtain ⟨rfl, rfl, rfl⟩ := Clock.eq_of_ofFields? hclock'
  rw [fileName, dateDigits, clockDigits,
    padded_fields (by norm_num) hdate hdates hyear hmonth hday,
    padded_fields (by norm_num) hclock hclocks hhour hminute hsecond]

theorem isDigit_of_mem_dateDigits {c : Char} (hc : c ∈ dateDigits date) : c.isDigit := by
  rw [dateDigits, List.mem_append, List.mem_append] at hc
  obtain (hc | hc) | hc := hc <;> exact isDigit_of_mem_padded hc

theorem isDigit_of_mem_clockDigits {c : Char} (hc : c ∈ clockDigits clock) : c.isDigit := by
  rw [clockDigits, List.mem_append, List.mem_append] at hc
  obtain (hc | hc) | hc := hc <;> exact isDigit_of_mem_padded hc

theorem isAsciiDigit_ofNat {c : Char} (hc : c.isDigit) :
    isAsciiDigit (UInt8.ofNat c.toNat) = true := by
  have hbounds := toNat_of_isDigit hc
  have hnat : (UInt8.ofNat c.toNat).toNat = c.toNat := by
    rw [UInt8.toNat_ofNat']
    omega
  simp only [isAsciiDigit, Bool.and_eq_true, decide_eq_true_eq, UInt8.le_iff_toNat_le, hnat]
  exact hbounds

theorem isDigit_of_isAsciiDigit {byte : UInt8} (hbyte : isAsciiDigit byte = true) :
    (Char.ofNat byte.toNat).isDigit = true := by
  simp only [isAsciiDigit, Bool.and_eq_true, decide_eq_true_eq, UInt8.le_iff_toNat_le] at hbyte
  change 48 ≤ byte.toNat ∧ byte.toNat ≤ 57 at hbyte
  obtain ⟨hlow, hhigh⟩ := hbyte
  interval_cases byte.toNat <;> rfl

/-- The bytes of a name of digits. -/
theorem bytes_nameOf {date clock : Text} (hdates : ∀ c ∈ date, c.isDigit)
    (hclocks : ∀ c ∈ clock, c.isDigit) :
    (nameOf date clock).bytes = (nameOf date clock).map fun c => UInt8.ofNat c.toNat := by
  have hsmall {c : Char} (hc : c.isDigit) : c.toNat < 0x80 := by
    have hbounds := toNat_of_isDigit hc
    omega
  have hstart : ∀ c ∈ nameStart, c.toNat < 0x80 := by simp [nameStart]
  have hend : ∀ c ∈ nameEnd, c.toNat < 0x80 := by simp [nameEnd]
  apply bytes_of_ascii
  intro c hc
  rw [nameOf, List.mem_append, List.mem_append, List.mem_cons, List.mem_append] at hc
  obtain hc | hc | rfl | hc | hc := hc
  · exact hstart c hc
  · exact hsmall (hdates c hc)
  · decide
  · exact hsmall (hclocks c hc)
  · exact hend c hc

theorem isSnapshotName_nameOf {date clock : Text} (hdate : date.length = 8)
    (hclock : clock.length = 6) (hdates : ∀ c ∈ date, c.isDigit)
    (hclocks : ∀ c ∈ clock, c.isDigit) :
    isSnapshotName (nameOf date clock) = true := by
  have hall {digits : Text} (hdigits : ∀ c ∈ digits, c.isDigit) :
      (digits.map fun c => UInt8.ofNat c.toNat).all isAsciiDigit = true := by
    rw [List.all_eq_true]
    intro byte hbyte
    obtain ⟨c, hc, rfl⟩ := List.mem_map.mp hbyte
    exact isAsciiDigit_ofNat (hdigits c hc)
  have hdash : (nameOf date clock)[16]? = some '-' := by
    have hstart : nameStart.length = 8 := rfl
    rw [nameOf, List.getElem?_append_right (by omega), List.getElem?_append_right (by omega),
      hstart,
      hdate]
    rfl
  simp only [isSnapshotName, Bool.and_eq_true, bytes_nameOf hdates hclocks, List.length_map,
    length_nameOf hdate hclock, List.getElem?_map, hdash, ← List.map_drop, ← List.map_take]
  refine ⟨⟨⟨⟨⟨rfl, ?_⟩, ?_⟩, rfl⟩, ?_⟩, ?_⟩
  · exact List.isPrefixOf_iff_prefix.mpr (List.prefix_append _ _)
  · rw [List.isSuffixOf_iff_suffix, nameOf]
    exact ((List.suffix_append clock nameEnd).trans (List.suffix_cons '-' _)).trans
      ((List.suffix_append date _).trans (List.suffix_append nameStart _))
  · rw [@drop_take_date date clock hdate 0 8 (by norm_num), List.drop_zero]
    exact hall fun c hc => hdates c (List.mem_of_mem_take hc)
  · rw [@drop_take_clock date clock hdate hclock 0 6 (by norm_num), List.drop_zero]
    exact hall fun c hc => hclocks c (List.mem_of_mem_take hc)

theorem bytes_ascii_of_digits {digits : List UInt8} (hdigits : digits.all isAsciiDigit = true) :
    (ascii digits).bytes = digits := by
  have hbyte {byte : UInt8} (hmem : byte ∈ digits) :
      (Char.ofNat byte.toNat).toNat < 0x80 ∧
        UInt8.ofNat (Char.ofNat byte.toNat).toNat = byte := by
    have hdigit := List.all_eq_true.mp hdigits byte hmem
    simp only [isAsciiDigit, Bool.and_eq_true, decide_eq_true_eq, UInt8.le_iff_toNat_le] at hdigit
    change 48 ≤ byte.toNat ∧ byte.toNat ≤ 57 at hdigit
    have hchar : (Char.ofNat byte.toNat).toNat = byte.toNat := by
      rw [Char.toNat_ofNat, if_pos (Or.inl (by omega))]
    rw [hchar]
    exact ⟨by omega, UInt8.ofNat_toNat⟩
  rw [bytes_of_ascii, ascii, List.map_map]
  · conv_rhs => rw [← List.map_id digits]
    exact List.map_congr_left fun byte hmem => (hbyte hmem).2
  · intro c hc
    obtain ⟨byte, hmem, rfl⟩ := List.mem_map.mp hc
    exact (hbyte hmem).1

theorem exists_of_isSnapshotName (hname : isSnapshotName name = true) :
    ∃ date clock : Text, name = nameOf date clock ∧ date.length = 8 ∧ clock.length = 6 ∧
      (∀ c ∈ date, c.isDigit) ∧ ∀ c ∈ clock, c.isDigit := by
  simp only [isSnapshotName, Bool.and_eq_true, beq_iff_eq] at hname
  obtain ⟨⟨⟨⟨⟨hlength, hstart⟩, hend⟩, hdash⟩, hdate⟩, hclock⟩ := hname
  have hlength : name.bytes.length = 26 := hlength
  have hdigits {digits : List UInt8} (hall : digits.all isAsciiDigit = true) :
      ∀ c ∈ ascii digits, c.isDigit := by
    intro c hc
    obtain ⟨byte, hbyte, rfl⟩ := List.mem_map.mp hc
    exact isDigit_of_isAsciiDigit (List.all_eq_true.mp hall byte hbyte)
  have hfront : name.bytes.take 8 = nameStart.bytes := by
    obtain ⟨rest, hrest⟩ := List.isPrefixOf_iff_prefix.mp hstart
    rw [← hrest, bytes_append]
    exact List.take_left' rfl
  have hback : name.bytes.drop 23 = nameEnd.bytes := by
    obtain ⟨rest, hrest⟩ := List.isSuffixOf_iff_suffix.mp hend
    have hrestLength : (bytes rest).length = 23 := by
      have hend : nameEnd.bytes.length = 3 := rfl
      rw [← hrest, bytes_append, List.length_append, hend] at hlength
      exact Nat.add_right_cancel hlength
    rw [← hrest, bytes_append, List.drop_left' hrestLength]
  refine ⟨ascii ((name.bytes.drop 8).take 8), ascii ((name.bytes.drop 17).take 6), ?_, ?_, ?_,
    hdigits hdate, hdigits hclock⟩
  · apply bytes_injective
    have hmiddle : name.bytes.drop 16 = 45 :: name.bytes.drop 17 := by
      obtain ⟨hlt, hget⟩ := List.getElem?_eq_some_iff.mp hdash
      rw [List.drop_eq_getElem_cons hlt, hget]
    rw [nameOf, bytes_append, bytes_append, bytes_cons, bytes_append, bytes_ascii_of_digits hdate,
      bytes_ascii_of_digits hclock, ← hfront, ← hback]
    change name.bytes = name.bytes.take 8 ++ ((name.bytes.drop 8).take 8 ++
      45 :: ((name.bytes.drop 17).take 6 ++ name.bytes.drop 23))
    rw [show name.bytes.drop 23 = (name.bytes.drop 17).drop 6 by rw [List.drop_drop],
      List.take_append_drop, ← hmiddle,
      show name.bytes.drop 16 = (name.bytes.drop 8).drop 8 by rw [List.drop_drop],
      List.take_append_drop, List.take_append_drop]
  · rw [ascii, List.length_map, List.length_take, List.length_drop, hlength]
    rfl
  · rw [ascii, List.length_map, List.length_take, List.length_drop, hlength]
    rfl

/-- The names that are listed are those of moments. -/
theorem isDated_iff : isSnapshotName name = true ∧ takenFromName name = some taken ↔
    name = fileName taken := by
  constructor
  · rintro ⟨hname, htaken⟩
    obtain ⟨date, clock, rfl, hdate, hclock, hdates, hclocks⟩ := exists_of_isSnapshotName hname
    exact (fileName_of_taken hdate hclock hdates hclocks htaken).symm
  · rintro rfl
    exact ⟨isSnapshotName_nameOf (length_dateDigits _) (length_clockDigits _)
      (fun _ => isDigit_of_mem_dateDigits) (fun _ => isDigit_of_mem_clockDigits),
      takenFromName_fileName taken⟩

/-- A snapshot's name says when it was taken, the names are in the order of those
moments, and no other name is read as one of them. -/
theorem fileName_order (now other : Moment) :
    isSnapshotName (fileName now) = true ∧ takenFromName (fileName now) = some now ∧
      (∀ name, isSnapshotName name = true → takenFromName name = some now → name = fileName now) ∧
      (fileName now < fileName other ↔ now.Before other) ∧
      (now.clock.isLeap = false → other.clock.isLeap = false →
        (fileName now < fileName other ↔ 0 < other.since now)) := by
  obtain ⟨hname, htaken⟩ := isDated_iff.mpr (Eq.refl (fileName now))
  refine ⟨hname, htaken, fun name hname htaken => isDated_iff.mp ⟨hname, htaken⟩,
    fileName_lt_iff, ?_⟩
  intro hnow hother
  rw [fileName_lt_iff, Moment.since_pos_iff hnow hother]

end Names

section Listing

structure Entry where
  name : Text
  bytes : ℕ
deriving DecidableEq

/-- What is in the directory of backups, in the order it is read in. -/
structure Directory where
  entries : List Entry
  nodup : (entries.map (·.name)).Nodup

namespace Directory

def empty : Directory := ⟨[], List.nodup_nil⟩

/-- The entries that pass, in their order. -/
def filter (dir : Directory) (passes : Entry → Bool) : Directory where
  entries := dir.entries.filter passes
  nodup := dir.nodup.sublist (List.filter_sublist.map _)

def get (dir : Directory) (name : Text) : Option Entry := dir.entries.find? (·.name = name)

def remove (dir : Directory) (name : Text) : Directory := dir.filter (·.name ≠ name)

/-- The file of a name, written anew. -/
def write (dir : Directory) (name : Text) (bytes : ℕ) : Directory where
  entries := (dir.remove name).entries ++ [⟨name, bytes⟩]
  nodup := by
    rw [List.map_append, List.nodup_append]
    refine ⟨(dir.remove name).nodup, List.nodup_singleton _, ?_⟩
    intro held hheld new hnew
    obtain ⟨entry, hentry, rfl⟩ := List.mem_map.mp hheld
    rw [List.mem_singleton.mp hnew]
    simpa using (List.mem_filter.mp hentry).2

end Directory

/-- `Stored`. -/
structure Stored where
  name : Text
  bytes : ℕ
  taken : Text
deriving DecidableEq

/-- What the listing makes of an entry. -/
def stored? (entry : Entry) : Option Stored :=
  if isSnapshotName entry.name then
    (takenFromName entry.name).map fun taken =>
      { name := entry.name, bytes := entry.bytes, taken := takenText taken }
  else none

/-- `list_in`. -/
def listIn (dir : Directory) : List Stored :=
  (dir.entries.filterMap stored?).mergeSort fun first second => !decide (first.name < second.name)

end Listing

/-- The directory and the settings. -/
structure State where
  dir : Directory
  settings : Text → Option Text

inductive Op
  | getSetting (key : Text)
  | setSetting (key value : Text)
  | now
  | createDirAll
  | vacuumInto (name : Text)
  /-- The length of a file. -/
  | metadata (name : Text)
  | readDir
  | removeFile (name : Text)
  | openFile (name : Text)
  /-- A file that is put there by hand. -/
  | put (name : Text) (bytes : ℕ)

abbrev Answer : Op → Type
  | .getSetting _ => Option Text
  | .setSetting _ _ => Except Text Unit
  | .now => Moment
  | .createDirAll => Except Text Unit
  | .vacuumInto _ => Except Text Unit
  | .metadata _ => Except Text ℕ
  | .readDir => Directory
  | .removeFile _ => Bool
  | .openFile _ => Except Text Unit
  | .put _ _ => Unit

/-- What the world makes of an operation: when it is, the error it ends with, how long
a file it writes is, if it leaves one, and which entries of the directory can be read.
The clock never shows a leap second. -/
structure Choice where
  time : Moment
  unleaped : time.clock.isLeap = false
  error : Option Text
  written : Option ℕ
  readable : Entry → Bool

/-- What an operation answers, where it may fail. -/
def Choice.outcome {α : Type} (choice : Choice) (value : α) : Except Text α :=
  match choice.error with
  | some error => .error error
  | none => .ok value

/-- `VACUUM INTO`: the file must not be there, or be empty. -/
def vacuumInto (choice : Choice) (dir : Directory) (name : Text) : Except Text Unit × Directory :=
  if (dir.get name).any (·.bytes ≠ 0) then (.error "output file already exists".toList, dir)
  else
    match choice.error with
    | some error =>
        (.error error, (choice.written.map fun bytes => dir.write name bytes).getD dir)
    | none => (.ok (), dir.write name (choice.written.getD 0))

def effect : (op : Op) → Choice → State → Option (Answer op × State)
  | .getSetting key, choice, state =>
      some (if choice.error.isSome then none else state.settings key, state)
  | .setSetting key value, choice, state =>
      some (choice.outcome (),
        if choice.error.isSome then state
        else { state with settings := Function.update state.settings key (some value) })
  | .now, choice, state => some (choice.time, state)
  | .createDirAll, choice, state => some (choice.outcome (), state)
  | .vacuumInto name, choice, state =>
      let written := vacuumInto choice state.dir name
      some (written.1, { state with dir := written.2 })
  | .metadata name, choice, state =>
      some (choice.outcome (((state.dir.get name).map (·.bytes)).getD 0), state)
  | .readDir, choice, state =>
      some (if choice.error.isSome then .empty else state.dir.filter choice.readable, state)
  | .removeFile name, choice, state =>
      if choice.error.isSome || (state.dir.get name).isNone then some (false, state)
      else some (true, { state with dir := state.dir.remove name })
  | .openFile name, choice, state =>
      some (if (state.dir.get name).isNone then .error "No such file or directory".toList
        else choice.outcome (), state)
  | .put name bytes, _, state => some ((), { state with dir := state.dir.write name bytes })

section Programs

-- the path of the directory, as errors show it
variable (dir : Text)

abbrev Task (Result : Type) : Type := Program Op Answer Result

def getSetting (key : Text) : Task (Option Text) := perform (Op.getSetting key)

def setSetting (key value : Text) : Task (Except Text Unit) := perform (Op.setSetting key value)

def utcNow : Task Moment := perform Op.now

def createDirAll : Task (Except Text Unit) := perform Op.createDirAll

def vacuum (name : Text) : Task (Except Text Unit) := perform (Op.vacuumInto name)

def metadata (name : Text) : Task (Except Text ℕ) := perform (Op.metadata name)

def readDir : Task Directory := perform Op.readDir

def removeFile (name : Text) : Task Bool := perform (Op.removeFile name)

def openFile (name : Text) : Task (Except Text Unit) := perform (Op.openFile name)

def put (name : Text) (bytes : ℕ) : Task Unit := perform (Op.put name bytes)

/-- `KEY_SCHEDULED`. -/
def keyScheduled : Text := "backup_scheduled".toList

/-- `KEY_KEEP`. -/
def keyKeep : Text := "backup_keep".toList

/-- `DEFAULT_KEEP`. -/
def defaultKeep : ℕ := 7

/-- `KEY_LAST`. -/
def keyLast : Text := "backup_last".toList

/-- `KEY_ERROR`. -/
def keyError : Text := "backup_error".toList

/-- `EVERY`, in seconds. -/
def every : ℤ := 86400

/-- `settings::record`. -/
def record (key value : Text) : Task Unit := do
  let _ ← setSetting key value
  return ()

/-- `take`. -/
def take (name : Text) : Task (Except Text ℕ) := do
  match ← createDirAll with
  | .error error => return .error (dir ++ ": ".toList ++ error)
  | .ok () =>
      match ← vacuum name with
      | .error error => return .error ("the snapshot could not be taken: ".toList ++ error)
      | .ok () =>
          match ← metadata name with
          | .error error => return .error (dir ++ '/' :: name ++ ": ".toList ++ error)
          | .ok bytes => return .ok bytes

/-- The files are removed one by one, and those that went are counted. -/
def removeAll : List Stored → Task ℕ
  | [] => return 0
  | old :: rest => do
      let gone ← removeFile old.name
      let removed ← removeAll rest
      return if gone then removed + 1 else removed

/-- `prune_in`. -/
def prune (keep : ℕ) : Task ℕ := do
  let entries ← readDir
  removeAll ((listIn entries).drop (max keep 1))

/-- Whether one is due, by the newest of those listed. -/
def dueBy (now : Moment) (stored : List Stored) : Bool :=
  match stored.head?.bind fun newest => takenFromName newest.name with
  | some newest => every ≤ now.since newest
  | none => true

/-- `due_in`. -/
def due (now : Moment) : Task Bool := do
  let entries ← readDir
  return dueBy now (listIn entries)

/-- The number of snapshots to keep that a setting says. -/
def keepOf (setting : Option Text) : ℕ :=
  ((setting.bind fun value => parseUnsigned (2 ^ 64) value.trim).filter
    fun keep => 1 ≤ keep && keep ≤ 365).getD defaultKeep

/-- `keep`. -/
def keep : Task ℕ := do
  return keepOf (← getSetting keyKeep)

/-- `scheduled`. -/
def scheduled : Task Bool := do
  return (← getSetting keyScheduled) == some ['1']

/-- `take_scheduled`. -/
def takeScheduled : Task (Except Text Stored) := do
  match ← createDirAll with
  | .error error => return .error (dir ++ ": ".toList ++ error)
  | .ok () =>
      let name := fileName (← utcNow)
      match ← take dir name with
      | .error error => return .error error
      | .ok bytes =>
          let _ ← prune (← keep)
          return .ok { name, bytes, taken := ((takenFromName name).map takenText).getD [] }

/-- What a request or a look of the schedule ends with. -/
inductive Reply
  | off
  /-- Nothing was due at that time. -/
  | notDue (now : Moment)
  | took (stored : Stored)
  | failed (error : Text)
  | flash (result message : Text)
  | queryFailed
  | file (name : Text) (bytes : ℕ)

/-- One look of `spawn_schedule`. -/
def look : Task Reply := do
  if ← scheduled then
    let now ← utcNow
    if ← due now then
      match ← takeScheduled dir with
      | .ok stored =>
          record keyLast stored.taken
          record keyError []
          return .took stored
      | .error error =>
          record keyError error
          return .failed error
    else return .notDue now
  else return .off

/-- The message of a schedule that was saved. -/
def scheduleSaved (on : Bool) (keep removed : ℕ) : Text :=
  if on then
    "Saved. A snapshot is taken daily and the newest ".toList ++ formatNat keep ++
      " are kept".toList ++
      if 0 < removed then " — ".toList ++ formatNat removed ++ " older one(s) removed".toList
      else []
  else "Saved. No snapshots are taken on a schedule; the ones already here are kept".toList

/-- The number of snapshots to keep that a form asks for. -/
def formKeep (field : Option Text) : Option ℕ :=
  (field.bind fun value => parseUnsigned (2 ^ 64) value.trim).filter
    fun keep => 1 ≤ keep && keep ≤ 365

/-- `post_schedule`. -/
def postSchedule (field : Option Text) (on : Bool) : Task Reply := do
  match formKeep field with
  | none => return .flash "failed".toList "Keep between 1 and 365 snapshots".toList
  | some keep =>
      match ← setSetting keyScheduled [if on then '1' else '0'] with
      | .error _ => return .queryFailed
      | .ok () =>
          match ← setSetting keyKeep (formatNat keep) with
          | .error _ => return .queryFailed
          | .ok () =>
              let removed ← prune keep
              return .flash "success".toList (scheduleSaved on keep removed)

/-- `post_take`; `humanSize` is how a length is shown. -/
def postTake (humanSize : ℕ → Text) : Task Reply := do
  match ← takeScheduled dir with
  | .ok stored =>
      return .flash "success".toList ("Snapshot ".toList ++ stored.name ++ " taken — ".toList ++
        humanSize stored.bytes ++
        ". It is kept with the scheduled ones and pruned with them".toList)
  | .error error => return .flash "failed".toList error

/-- `post_snapshot`. -/
def postSnapshot : Task Reply := do
  let name := fileName (← utcNow)
  let tmp := ".download-".toList ++ name
  let _ ← removeFile tmp
  match ← take dir tmp with
  | .error error => return .flash "failed".toList error
  | .ok size =>
      match ← openFile tmp with
      | .error error =>
          return .flash "failed".toList
            ("The snapshot was taken but could not be read: ".toList ++ error)
      | .ok () =>
          let _ ← removeFile tmp
          return .file name size

/-- `post_stored`. -/
def postStored (name : Text) : Task Reply := do
  if !isSnapshotName name then
    return .flash "failed".toList "There is no such snapshot".toList
  else
    match ← openFile name with
    | .error _ =>
        return .flash "failed".toList
          (name ++ " is no longer there — it may have been pruned".toList)
    | .ok () =>
        match ← metadata name with
        | .error _ => return .file name 0
        | .ok bytes => return .file name bytes

inductive Request
  | look
  | schedule (keep : Option Text) (on : Bool)
  | take (humanSize : ℕ → Text)
  | snapshot
  | stored (name : Text)
  /-- A file put into the directory by hand. -/
  | put (name : Text) (bytes : ℕ)

def Request.task : Request → Task Reply
  | .look => Snapshots.look dir
  | .schedule keep on => postSchedule keep on
  | .take humanSize => postTake dir humanSize
  | .snapshot => postSnapshot dir
  | .stored name => postStored name
  | .put name bytes => do
      Snapshots.put name bytes
      return .off

end Programs

end EasyWaf.Backup.Snapshots
