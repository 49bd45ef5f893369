import BeanRaft.Lib.Decimal
import BeanRaft.Lib.Snprintf
import BeanRaft.Logger.LogWritter

/-!
# BeanRaft.Logger.Format — the text of a record in its buffer

The formatting half of `writeLog` (lines 393-419), over the calls of `Snprintf`.

* `maxlen` is never assigned in the source; here it is the size of the buffer.
* `Tm` is what `localtime_r` stores, and `message` is the whole text that `vsnprintf` makes of `fmt` and its arguments.
* `InBuffer`: all calls stay in the buffer, and so does the length handed to `write`.  `inBuffer_iff`: this is so exactly
  when the level is one of the five and the lengths that are returned add up to the buffer's size at most.
-/

namespace BeanRaft.Logger

open CInt Lib

def ascii (s : String) : List UInt8 := s.toList.map fun c => UInt8.ofNat c.toNat

def loglevels : List (List UInt8) := [ascii "DEBUG", ascii "INFO ", ascii "WARN ", ascii "ERROR", ascii "FATAL"]

/-- Gray, green, yellow, red and red. -/
def logcolors : List Nat := [37, 32, 33, 31, 31]

/-- The element `i` of a table; an index outside is undefined behaviour. -/
def tableAt {α : Type} (table : List α) (i : Int) : Option α := if 0 ≤ i then table[i.toNat]? else none

/-- The part of a path after the last `/`. -/
def constBasename (filepath : List UInt8) : List UInt8 := (filepath.reverse.takeWhile (· ≠ 47)).reverse

/-- `struct tm`, in the ranges that `localtime_r` keeps. -/
structure Tm where
  tm_year : Int
  tm_mon : Nat
  tm_mday : Nat
  tm_hour : Nat
  tm_min : Nat
  tm_sec : Nat
  year_range : INT_MIN ≤ tm_year ∧ tm_year ≤ INT_MAX
  mon_le : tm_mon ≤ 11
  mday_le : tm_mday ≤ 31
  hour_le : tm_hour ≤ 23
  min_le : tm_min ≤ 59
  sec_le : tm_sec ≤ 60
  deriving DecidableEq, Repr

/-- `%Y-%m-%d %H:%M:%S.` -/
def Tm.text (t : Tm) : List UInt8 :=
  decimal (t.tm_year + 1900) ++ ascii "-" ++ zeroPad 2 (t.tm_mon + 1) ++ ascii "-" ++ zeroPad 2 t.tm_mday ++ ascii " " ++
    zeroPad 2 t.tm_hour ++ ascii ":" ++ zeroPad 2 t.tm_min ++ ascii ":" ++ zeroPad 2 t.tm_sec ++ ascii "."

/-- What `writeLog` formats. -/
structure Record where
  loglevel : Int
  file : List UInt8
  line : Int32
  thread_identifier : UInt8
  tm_info : Tm
  tv_usec : Nat
  message : List UInt8
  usec_lt : tv_usec < 1000000
  deriving DecidableEq, Repr

namespace Record

variable (r : Record)

/-- ` [%s]` -/
def levelText (level : List UInt8) : List UInt8 := ascii " [" ++ level ++ ascii "]"

/-- `\033[%dm` -/
def colorText (color : Nat) : List UInt8 := 27 :: ascii "[" ++ numeral color ++ ascii "m"

/-- `\33[0m` -/
def plainText : List UInt8 := 27 :: ascii "[0m"

/-- ` %s:%d ` -/
def place : List UInt8 := ascii " " ++ constBasename r.file ++ ascii ":" ++ decimal r.line.toInt ++ ascii " "

/-- `%c ` -/
def thread : List UInt8 := r.thread_identifier :: ascii " "

def maxlen : Int := MAX_LOG_BUFFER_SIZE

/-- The time, which a coloured record overwrites: its first call is `offset = sprintf(buf, ..)`. -/
def header (use_color : Bool) : Option Print :=
  let p := (Print.start.strftime maxlen r.tm_info.text).snprintf maxlen (zeroPad 6 r.tv_usec)
  if use_color then
    (tableAt logcolors r.loglevel).bind fun color => (tableAt loglevels r.loglevel).map fun level =>
      ((p.sprintf (colorText color)).snprintf maxlen (levelText level)).snprintf maxlen plainText
  else (tableAt loglevels r.loglevel).map fun level => p.snprintf maxlen (levelText level)

/-- The formatting of `writeLog`; the offset at its end is the length handed to `write`. -/
def format (use_color : Bool) : Option Print :=
  (r.header use_color).map fun p =>
    (((p.snprintf maxlen r.place).snprintf maxlen r.thread).snprintf maxlen r.message).snprintf maxlen (ascii "\n")

/-! ## The property and its condition -/

/-- Nothing is undefined, all calls stay in the buffer, and the length is at most its size. -/
def InBuffer (use_color : Bool) : Prop :=
  match r.format use_color with
  | none => False
  | some p => p.Within MAX_LOG_BUFFER_SIZE

/-- The length of the record before the file name. -/
def headerLen (use_color : Bool) : Nat := if use_color then 17 else (decimal (r.tm_info.tm_year + 1900)).length + 30

/-- The level is one of the five, and what the calls return up to the message, and with it, leaves room for the rest. -/
structure Fits (use_color : Bool) : Prop where
  level : 0 ≤ r.loglevel ∧ r.loglevel ≤ LOG_FATAL
  place : r.headerLen use_color + returned r.place + 2 ≤ MAX_LOG_BUFFER_SIZE
  message : r.headerLen use_color + returned r.place + 2 + returned r.message + 1 ≤ MAX_LOG_BUFFER_SIZE

/-! ## The header -/

variable {r} {use_color : Bool} {p : Print} {H : Nat}

theorem maxlen_le : ((MAX_LOG_BUFFER_SIZE : Nat) : Int) ≤ INT_MAX := by decide

theorem year_length (t : Tm) : (decimal (t.tm_year + 1900)).length ≤ 11 := by
  obtain ⟨h1, h2⟩ := t.year_range
  unfold INT_MIN at h1
  unfold INT_MAX at h2
  exact decimal_length_le (k := 10) (by decide) (by omega)

theorem time_length (t : Tm) : t.text.length = (decimal (t.tm_year + 1900)).length + 16 := by
  have hmon : (zeroPad 2 (t.tm_mon + 1)).length = 2 := zeroPad_length (by decide) (by have := t.mon_le; omega)
  have hmday : (zeroPad 2 t.tm_mday).length = 2 := zeroPad_length (by decide) (by have := t.mday_le; omega)
  have hhour : (zeroPad 2 t.tm_hour).length = 2 := zeroPad_length (by decide) (by have := t.hour_le; omega)
  have hmin : (zeroPad 2 t.tm_min).length = 2 := zeroPad_length (by decide) (by have := t.min_le; omega)
  have hsec : (zeroPad 2 t.tm_sec).length = 2 := zeroPad_length (by decide) (by have := t.sec_le; omega)
  unfold Tm.text
  simp only [List.length_append, hmon, hmday, hhour, hmin, hsec]
  rfl

/-- An index into a table of five elements. -/
theorem tableAt_isSome {α : Type} {table : List α} (hlen : table.length = 5) (i : Int) :
    (∃ a, tableAt table i = some a) ↔ 0 ≤ i ∧ i ≤ LOG_FATAL := by
  unfold tableAt LOG_FATAL
  constructor
  · rintro ⟨a, ha⟩
    split_ifs at ha with h0
    have := (List.getElem?_eq_some_iff.mp ha).1
    omega
  · rintro ⟨h0, h4⟩
    rw [if_pos h0]
    exact ⟨_, List.getElem?_eq_getElem (by omega)⟩

theorem mem_of_tableAt {α : Type} {table : List α} {i : Int} {a : α} (h : tableAt table i = some a) : a ∈ table := by
  unfold tableAt at h
  split_ifs at h
  exact List.mem_of_getElem? h

/-- All levels are printed at one length. -/
theorem levelText_length {level : List UInt8} (h : level ∈ loglevels) : (levelText level).length = 8 := by
  have hall : ∀ l ∈ loglevels, l.length = 5 := by decide
  unfold levelText
  simp only [List.length_append, hall level h]
  rfl

theorem colorText_length {color : Nat} (h : color ∈ logcolors) : (colorText color).length = 5 := by
  have hall : ∀ c ∈ logcolors, 10 ≤ c ∧ c < 100 := by decide
  obtain ⟨h1, h2⟩ := hall color h
  unfold colorText
  rw [numeral_of_lt_hundred h1 h2]
  rfl

theorem within_more {text : List UInt8} : (p.snprintf maxlen text).Within MAX_LOG_BUFFER_SIZE ↔
    p.Within MAX_LOG_BUFFER_SIZE ∧ 0 ≤ p.offset + returned text ∧ p.offset + returned text ≤ MAX_LOG_BUFFER_SIZE :=
  Print.within_snprintf maxlen_le

theorem offset_more {text : List UInt8} (h : (p.snprintf maxlen text).Within MAX_LOG_BUFFER_SIZE) :
    (p.snprintf maxlen text).offset = p.offset + returned text := Print.offset_snprintf maxlen_le h

/-- One more piece of a known length. -/
theorem within_piece {text : List UInt8} {n : Nat} (hp : p.Within MAX_LOG_BUFFER_SIZE) (hoff : p.offset = n)
    (hlen : n + text.length ≤ MAX_LOG_BUFFER_SIZE) :
    (p.snprintf maxlen text).Within MAX_LOG_BUFFER_SIZE ∧ (p.snprintf maxlen text).offset = (n + text.length : Nat) := by
  have hmax := maxlen_le
  have hret : returned text = text.length := Print.returned_of_le (by omega)
  have hwithin : (p.snprintf maxlen text).Within MAX_LOG_BUFFER_SIZE := within_more.mpr ⟨hp, by omega, by omega⟩
  refine ⟨hwithin, ?_⟩
  rw [offset_more hwithin, hoff, hret]
  exact (Int.natCast_add _ _).symm

theorem headerLen_pos (r : Record) (use_color : Bool) : 1 ≤ r.headerLen use_color := by
  unfold headerLen
  split <;> omega

/-- The header stays in the buffer. -/
theorem header_within (hp : r.header use_color = some p) :
    p.Within MAX_LOG_BUFFER_SIZE ∧ p.offset = r.headerLen use_color := by
  have hyear := year_length r.tm_info
  have htime := time_length r.tm_info
  have husec : (zeroPad 6 r.tv_usec).length = 6 := zeroPad_length (by decide) r.usec_lt
  have htext : (0 : Int) + r.tm_info.text.length < (MAX_LOG_BUFFER_SIZE : Nat) := by
    unfold MAX_LOG_BUFFER_SIZE
    omega
  obtain ⟨hw1, ho1⟩ : (Print.start.strftime maxlen r.tm_info.text).Within MAX_LOG_BUFFER_SIZE ∧
      (Print.start.strftime maxlen r.tm_info.text).offset = 0 + r.tm_info.text.length :=
    Print.within_strftime maxlen_le Print.start_within htext
  obtain ⟨hw2, ho2⟩ := within_piece hw1 (ho1.trans (Int.zero_add _))
    (show _ + (zeroPad 6 r.tv_usec).length ≤ MAX_LOG_BUFFER_SIZE by unfold MAX_LOG_BUFFER_SIZE; omega)
  unfold header at hp
  dsimp only at hp
  unfold headerLen
  cases use_color with
  | true =>
    rw [if_pos rfl] at hp ⊢
    obtain ⟨color, hcolor, hp⟩ := Option.bind_eq_some_iff.mp hp
    obtain ⟨level, hlevel, rfl⟩ := Option.map_eq_some_iff.mp hp
    have h5 := colorText_length (mem_of_tableAt hcolor)
    have h8 := levelText_length (mem_of_tableAt hlevel)
    obtain ⟨hw3, ho3⟩ := Print.within_sprintf maxlen_le hw2
      (show (colorText color).length < MAX_LOG_BUFFER_SIZE by rw [h5]; decide)
    rw [h5] at ho3
    obtain ⟨hw4, ho4⟩ := within_piece hw3 ho3
      (show 5 + (levelText level).length ≤ MAX_LOG_BUFFER_SIZE by rw [h8]; decide)
    rw [h8] at ho4
    exact within_piece hw4 ho4 (show 5 + 8 + plainText.length ≤ MAX_LOG_BUFFER_SIZE by decide)
  | false =>
    rw [if_neg (by decide)] at hp ⊢
    obtain ⟨level, hlevel, rfl⟩ := Option.map_eq_some_iff.mp hp
    have h8 := levelText_length (mem_of_tableAt hlevel)
    obtain ⟨hw3, ho3⟩ := within_piece hw2 ho2
      (show _ + (levelText level).length ≤ MAX_LOG_BUFFER_SIZE by unfold MAX_LOG_BUFFER_SIZE; omega)
    refine ⟨hw3, ho3.trans ?_⟩
    rw [h8, husec, htime]

/-- The header is printed for the five levels. -/
theorem header_isSome : (∃ p, r.header use_color = some p) ↔ 0 ≤ r.loglevel ∧ r.loglevel ≤ LOG_FATAL := by
  have hlevels := tableAt_isSome (show loglevels.length = 5 from rfl) r.loglevel
  have hcolors := tableAt_isSome (show logcolors.length = 5 from rfl) r.loglevel
  rw [← hlevels]
  unfold header
  dsimp only
  cases use_color with
  | true =>
    rw [if_pos rfl]
    constructor
    · rintro ⟨p, hp⟩
      obtain ⟨color, -, hp⟩ := Option.bind_eq_some_iff.mp hp
      obtain ⟨level, hlevel, -⟩ := Option.map_eq_some_iff.mp hp
      exact ⟨level, hlevel⟩
    · rintro ⟨level, hlevel⟩
      obtain ⟨color, hcolor⟩ := hcolors.mpr (hlevels.mp ⟨level, hlevel⟩)
      rw [hcolor, Option.bind_some, hlevel]
      exact ⟨_, rfl⟩
  | false =>
    rw [if_neg (by decide)]
    constructor
    · rintro ⟨p, hp⟩
      obtain ⟨level, hlevel, -⟩ := Option.map_eq_some_iff.mp hp
      exact ⟨level, hlevel⟩
    · rintro ⟨level, hlevel⟩
      rw [hlevel]
      exact ⟨_, rfl⟩

/-! ## The rest of the record -/

/-- After the header the record stays in the buffer exactly when its two longest parts do. -/
theorem rest_within {place message thread : List UInt8} (hp : p.Within MAX_LOG_BUFFER_SIZE) (hoff : p.offset = H)
    (hH : 1 ≤ H) (hthread : thread.length = 2) :
    ((((p.snprintf maxlen place).snprintf maxlen thread).snprintf maxlen message).snprintf maxlen (ascii "\n")).Within
      MAX_LOG_BUFFER_SIZE ↔ H + returned place + 2 ≤ MAX_LOG_BUFFER_SIZE ∧
        H + returned place + 2 + returned message + 1 ≤ MAX_LOG_BUFFER_SIZE := by
  have hmax := maxlen_le
  have hplace := Print.returned_range place
  have hmessage := Print.returned_range message
  have htwo : returned thread = 2 := by
    rw [Print.returned_of_le (by rw [hthread]; decide), hthread]
    rfl
  have hone : returned (ascii "\n") = 1 := by decide
  constructor
  · intro h4
    obtain ⟨h3, -, hle4⟩ := within_more.mp h4
    obtain ⟨h2, -, -⟩ := within_more.mp h3
    obtain ⟨h1, -, hle2⟩ := within_more.mp h2
    rw [offset_more h3, offset_more h2, offset_more h1] at hle4
    rw [offset_more h1] at hle2
    omega
  · rintro ⟨hfirst, hall⟩
    have h1 : (p.snprintf maxlen place).Within MAX_LOG_BUFFER_SIZE := within_more.mpr ⟨hp, by omega, by omega⟩
    have e1 := offset_more h1
    have h2 := within_more.mpr (⟨h1, by omega, by omega⟩ : _ ∧ 0 ≤ _ + returned thread ∧ _ + returned thread ≤ _)
    have e2 := offset_more h2
    have h3 := within_more.mpr (⟨h2, by omega, by omega⟩ : _ ∧ 0 ≤ _ + returned message ∧ _ + returned message ≤ _)
    have e3 := offset_more h3
    exact within_more.mpr ⟨h3, by omega, by omega⟩

theorem fits_of_inBuffer (h : r.InBuffer use_color) : r.Fits use_color := by
  unfold InBuffer format at h
  cases hp : r.header use_color with
  | none =>
    rw [hp] at h
    exact h.elim
  | some p =>
    rw [hp] at h
    obtain ⟨hw, hoff⟩ := header_within hp
    obtain ⟨h1, h2⟩ := (rest_within hw hoff (headerLen_pos r use_color) rfl).mp h
    exact ⟨header_isSome.mp ⟨p, hp⟩, h1, h2⟩

theorem inBuffer_of_fits (h : r.Fits use_color) : r.InBuffer use_color := by
  obtain ⟨p, hp⟩ := header_isSome.mpr h.level
  obtain ⟨hw, hoff⟩ := header_within hp
  unfold InBuffer format
  rw [hp]
  exact (rest_within hw hoff (headerLen_pos r use_color) rfl).mpr ⟨h.place, h.message⟩

/-- **A record stays in its buffer** if and only if its level is one of the five and its parts leave room for each other. -/
theorem inBuffer_iff (r : Record) (use_color : Bool) : r.InBuffer use_color ↔ r.Fits use_color :=
  ⟨fits_of_inBuffer, inBuffer_of_fits⟩

/-- A message of 4096 bytes. -/
def longRecord : Record where
  loglevel := 1
  file := ascii "a.cpp"
  line := 1
  thread_identifier := 32
  tm_info := ⟨126, 0, 1, 0, 0, 0, by decide, by decide, by decide, by decide, by decide, by decide⟩
  tv_usec := 0
  message := List.replicate 4096 120
  usec_lt := by decide

theorem longRecord_outside : ¬ ∀ r use_color, InBuffer r use_color := by
  intro h
  have hall := (fits_of_inBuffer (h longRecord false)).message
  have hplace := Print.returned_range longRecord.place
  have hpos := headerLen_pos longRecord false
  have hlen : longRecord.message.length = 4096 := List.length_replicate
  have hmessage : returned longRecord.message = 4096 := by
    rw [Print.returned_of_le (by rw [hlen]; decide), hlen]
    rfl
  unfold MAX_LOG_BUFFER_SIZE at hall
  omega

end Record

end BeanRaft.Logger
