import BeanRaft.Logger.Format

/-!
# BeanRaft.Logger.Layout — the bytes of a record, with and without color

What `writeLog` hands to `write` (lines 393-421), over the contents of the buffer in `Snprintf`.

* `Record.plain`: the layout of a record; `Record.Coloured`: the same with the two escape sequences inserted.
* `Record.written`: what the calls print.  `hands_written`: this is what `write` is handed when its null term fits too.
* With color the first call is `offset = sprintf(buf, ..)`, so the time is lost; `laidOut_iff` is the exact condition.
-/

namespace BeanRaft.Logger

open CInt Lib

namespace Record

variable (r : Record) (use_color : Bool)

/-! ## The layout -/

/-- `loglevels[loglevel]`, and nothing for another level. -/
def levelName : List UInt8 := (tableAt loglevels r.loglevel).getD []

/-- The escape sequence of `logcolors[loglevel]`, and nothing for another level. -/
def color : List UInt8 := ((tableAt logcolors r.loglevel).map colorText).getD []

/-- `YYYY-mm-dd HH:MM:SS.uuuuuu [LEVEL] basename:line id message\n` -/
def plain : List UInt8 :=
  r.tm_info.text ++ zeroPad 6 r.tv_usec ++ levelText r.levelName ++ r.place ++ r.thread ++ r.message ++ ascii "\n"

/-- The two escape sequences are inserted somewhere in the plain record; without them it is left. -/
def Coloured (record : List UInt8) : Prop :=
  ∃ a b c, r.plain = a ++ b ++ c ∧ record = a ++ r.color ++ b ++ plainText ++ c

/-- The length of the whole record. -/
def wholeLen : Nat := r.plain.length + if use_color then (r.color ++ plainText).length else 0

/-- The buffer and the length that `write` is handed. -/
def handed : Option (List (Option UInt8) × Int) :=
  (r.format use_color).bind fun p => (p.contents MAX_LOG_BUFFER_SIZE).map fun buf => (buf, p.offset)

/-- The buffer begins with `record`, and its length is handed over. -/
def Hands (record : List UInt8) : Prop :=
  ∃ buf, r.handed use_color = some (buf, (record.length : Int)) ∧ buf.take record.length = record.map some

def LaidOut : Prop := ∃ record, r.Hands use_color record ∧ if use_color then r.Coloured record else record = r.plain

/-! ## What is printed -/

/-- What `header` leaves in the buffer. -/
def head : List UInt8 :=
  if use_color then r.color ++ levelText r.levelName ++ plainText
  else r.tm_info.text ++ zeroPad 6 r.tv_usec ++ levelText r.levelName

/-- All but the last call. -/
def body : List UInt8 := r.head use_color ++ r.place ++ r.thread ++ r.message

def written : List UInt8 := r.body use_color ++ ascii "\n"

variable {r use_color} {p : Print} {pre : List UInt8}

theorem written_false : r.written false = r.plain := rfl

/-- One more piece, which leaves room for its null term. -/
theorem filled_more (text : List UInt8) (h : p.Filled MAX_LOG_BUFFER_SIZE pre)
    (hroom : (pre ++ text).length < MAX_LOG_BUFFER_SIZE) :
    (p.snprintf maxlen text).Filled MAX_LOG_BUFFER_SIZE (pre ++ text) :=
  Print.filled_snprintf maxlen_le h (by rw [← List.length_append]; exact hroom)

theorem levelName_mem (hlevel : 0 ≤ r.loglevel ∧ r.loglevel ≤ LOG_FATAL) :
    tableAt loglevels r.loglevel = some r.levelName ∧ r.levelName ∈ loglevels := by
  obtain ⟨level, h⟩ := (tableAt_isSome (show loglevels.length = 5 from rfl) r.loglevel).mpr hlevel
  have hname : r.levelName = level := by
    unfold levelName
    rw [h, Option.getD_some]
  rw [hname]
  exact ⟨h, mem_of_tableAt h⟩

theorem color_of_level (hlevel : 0 ≤ r.loglevel ∧ r.loglevel ≤ LOG_FATAL) :
    ∃ color ∈ logcolors, tableAt logcolors r.loglevel = some color ∧ r.color = colorText color := by
  obtain ⟨color, h⟩ := (tableAt_isSome (show logcolors.length = 5 from rfl) r.loglevel).mpr hlevel
  refine ⟨color, mem_of_tableAt h, h, ?_⟩
  unfold Record.color
  rw [h, Option.map_some, Option.getD_some]

theorem color_length (hlevel : 0 ≤ r.loglevel ∧ r.loglevel ≤ LOG_FATAL) : r.color.length = 5 := by
  obtain ⟨color, hmem, -, hcolor⟩ := color_of_level hlevel
  rw [hcolor, colorText_length hmem]

/-- The time stamp with its level. -/
theorem stamp_length (hlevel : 0 ≤ r.loglevel ∧ r.loglevel ≤ LOG_FATAL) :
    (r.head false).length = (decimal (r.tm_info.tm_year + 1900)).length + 30 := by
  have hyear := time_length r.tm_info
  have husec : (zeroPad 6 r.tv_usec).length = 6 := zeroPad_length (by decide) r.usec_lt
  have hname := levelText_length (levelName_mem hlevel).2
  show (r.tm_info.text ++ zeroPad 6 r.tv_usec ++ levelText r.levelName).length = _
  rw [List.length_append, List.length_append]
  omega

/-- A colored record begins with its level. -/
theorem colored_length (hlevel : 0 ≤ r.loglevel ∧ r.loglevel ≤ LOG_FATAL) : (r.head true).length = 17 := by
  have hname := levelText_length (levelName_mem hlevel).2
  show (r.color ++ levelText r.levelName ++ plainText).length = _
  rw [List.length_append, List.length_append, color_length hlevel, hname]
  rfl

/-- After the header the buffer begins with what was printed last: the colored one has lost its time. -/
theorem header_filled (use_color : Bool) (hlevel : 0 ≤ r.loglevel ∧ r.loglevel ≤ LOG_FATAL) :
    ∃ p, r.header use_color = some p ∧ p.Filled MAX_LOG_BUFFER_SIZE (r.head use_color) := by
  obtain ⟨hname, -⟩ := levelName_mem hlevel
  have hyear := year_length r.tm_info
  have hstamp := stamp_length hlevel
  have hroom : (r.head false).length < MAX_LOG_BUFFER_SIZE := by
    unfold MAX_LOG_BUFFER_SIZE
    omega
  have hsum : (r.head false).length =
      r.tm_info.text.length + (zeroPad 6 r.tv_usec).length + (levelText r.levelName).length := by
    show (r.tm_info.text ++ zeroPad 6 r.tv_usec ++ levelText r.levelName).length = _
    rw [List.length_append, List.length_append]
  have htime : ([] : List UInt8).length + r.tm_info.text.length < MAX_LOG_BUFFER_SIZE := by
    rw [List.length_nil]
    omega
  have h1 := Print.filled_strftime maxlen_le Print.start_filled htime
  rw [List.nil_append] at h1
  have h2 := filled_more (zeroPad 6 r.tv_usec) h1 (by rw [List.length_append]; omega)
  unfold header
  dsimp only
  cases use_color with
  | false =>
    rw [if_neg (by decide), hname]
    exact ⟨_, rfl, filled_more _ h2 hroom⟩
  | true =>
    obtain ⟨color, hmem, hcolor, htext⟩ := color_of_level hlevel
    have hlen := colored_length hlevel
    have hparts : (r.head true).length = (colorText color ++ levelText r.levelName).length + plainText.length := by
      show (r.color ++ levelText r.levelName ++ plainText).length = _
      rw [List.length_append, htext]
    rw [hlen] at hparts
    have hmax : 17 < MAX_LOG_BUFFER_SIZE := by decide
    have h3 := Print.filled_sprintf maxlen_le h2
      (show (colorText color).length < MAX_LOG_BUFFER_SIZE by rw [colorText_length hmem]; decide)
    have h4 := filled_more (levelText r.levelName) h3 (by omega)
    have h5 := filled_more plainText h4 (by rw [List.length_append]; omega)
    rw [if_pos rfl, hcolor, Option.bind_some, hname]
    refine ⟨_, rfl, ?_⟩
    show Print.Filled _ _ (r.color ++ levelText r.levelName ++ plainText)
    rw [htext]
    exact h5

/-- All but the newline. -/
theorem body_filled (h : p.Filled MAX_LOG_BUFFER_SIZE (r.head use_color))
    (hroom : (r.body use_color).length < MAX_LOG_BUFFER_SIZE) :
    (((p.snprintf maxlen r.place).snprintf maxlen r.thread).snprintf maxlen r.message).Filled MAX_LOG_BUFFER_SIZE
      (r.body use_color) := by
  have hsum : (r.body use_color).length = (r.head use_color ++ r.place ++ r.thread).length + r.message.length :=
    List.length_append
  have hsum' : (r.head use_color ++ r.place ++ r.thread).length =
      (r.head use_color ++ r.place).length + r.thread.length := List.length_append
  have h1 := filled_more r.place h (by omega)
  have h2 := filled_more r.thread h1 (by omega)
  exact filled_more r.message h2 hroom

theorem hands_of_format {record : List UInt8} {buf : List (Option UInt8)} (hp : r.format use_color = some p)
    (hbuf : p.contents MAX_LOG_BUFFER_SIZE = some buf) (hoff : p.offset = record.length)
    (htake : buf.take record.length = record.map some) : r.Hands use_color record := by
  refine ⟨buf, ?_, htake⟩
  unfold handed
  rw [hp, Option.bind_some, hbuf, Option.map_some, hoff]

theorem format_of_header (hp : r.header use_color = some p) : r.format use_color =
    some ((((p.snprintf maxlen r.place).snprintf maxlen r.thread).snprintf maxlen r.message).snprintf maxlen
      (ascii "\n")) := by
  unfold format
  rw [hp, Option.map_some]

/-- **What is handed over** is what the calls print, as long as its null term fits too. -/
theorem hands_written (hlevel : 0 ≤ r.loglevel ∧ r.loglevel ≤ LOG_FATAL)
    (hroom : (r.written use_color).length < MAX_LOG_BUFFER_SIZE) : r.Hands use_color (r.written use_color) := by
  obtain ⟨p, hp, hfilled⟩ := header_filled use_color hlevel
  have hlen : (r.written use_color).length = (r.body use_color).length + 1 := List.length_append
  have hlast := filled_more (ascii "\n") (body_filled hfilled (by omega)) hroom
  obtain ⟨buf, hbuf, -, htake⟩ := hlast.contents
  exact hands_of_format (format_of_header hp) hbuf hlast.offset htake

/-- At exactly the size of the buffer the null term stands in the place of the newline. -/
theorem hands_full (hlevel : 0 ≤ r.loglevel ∧ r.loglevel ≤ LOG_FATAL)
    (hfull : (r.written use_color).length = MAX_LOG_BUFFER_SIZE) : r.Hands use_color (r.body use_color ++ [0]) := by
  obtain ⟨p, hp, hfilled⟩ := header_filled use_color hlevel
  have hlen : (r.written use_color).length = (r.body use_color).length + 1 := List.length_append
  have hmax := maxlen_le
  have hbody := body_filled hfilled (by omega)
  have hone : returned (ascii "\n") = 1 := by decide
  have hoff : int32 ((r.body use_color).length + returned (ascii "\n")) = (r.body use_color ++ [0]).length := by
    rw [hone, List.length_append, List.length_singleton]
    unfold INT_MAX at hmax
    rw [int32_of_range (by omega) (by omega)]
    rfl
  rw [← hbody.offset] at hoff
  obtain ⟨buf, hbuf, -, htake⟩ := Print.contents_cut (ascii "\n") maxlen_le hbody (by omega)
  have hcut : (ascii "\n").take (MAX_LOG_BUFFER_SIZE - (r.body use_color).length - 1) = [] := by
    rw [show MAX_LOG_BUFFER_SIZE - (r.body use_color).length - 1 = 0 by omega]
    rfl
  rw [hcut, List.append_nil, List.length_nil, Nat.add_zero] at htake
  refine hands_of_format (format_of_header hp) hbuf hoff ?_
  rw [List.length_append, List.length_singleton]
  exact htake

/-! ## The condition -/

/-- Only one record is handed over. -/
theorem hands_unique {record record' : List UInt8} (h : r.Hands use_color record) (h' : r.Hands use_color record') :
    record = record' := by
  obtain ⟨buf, hbuf, htake⟩ := h
  obtain ⟨buf', hbuf', htake'⟩ := h'
  rw [hbuf] at hbuf'
  obtain ⟨rfl, hlen⟩ := Prod.mk.inj (Option.some.inj hbuf')
  rw [← Int.natCast_inj.mp hlen, htake] at htake'
  exact List.map_injective_iff.mpr (Option.some_injective _) htake'

/-- The length of the whole record, of which the escape sequences are nine bytes. -/
theorem whole_length (use_color : Bool) (hlevel : 0 ≤ r.loglevel ∧ r.loglevel ≤ LOG_FATAL) : r.wholeLen use_color =
    (decimal (r.tm_info.tm_year + 1900)).length + r.place.length + r.message.length + 33 + if use_color then 9 else 0 := by
  have hstamp := stamp_length hlevel
  have hthread : r.thread.length = 2 := rfl
  have hnewline : (ascii "\n").length = 1 := rfl
  have hescape : (r.color ++ plainText).length = 9 := by
    rw [List.length_append, color_length hlevel]
    rfl
  unfold wholeLen
  rw [← written_false, hescape]
  unfold written body
  simp only [List.length_append]
  omega

theorem coloured_length {record : List UInt8} (h : r.Coloured record) : record.length = r.wholeLen true := by
  obtain ⟨a, b, c, hplain, rfl⟩ := h
  unfold wholeLen
  rw [hplain, if_pos rfl]
  simp only [List.length_append]
  omega

/-- With color the record that is handed over is shorter than the layout. -/
theorem written_true_lt (hlevel : 0 ≤ r.loglevel ∧ r.loglevel ≤ LOG_FATAL) :
    (r.written true).length < r.wholeLen true := by
  have hwhole := whole_length true hlevel
  have hcolored := colored_length hlevel
  have hthread : r.thread.length = 2 := rfl
  have hnewline : (ascii "\n").length = 1 := rfl
  rw [if_pos rfl] at hwhole
  unfold written body
  simp only [List.length_append]
  omega

/-- **The layout of a record** that fits is kept exactly without color, and with a byte left for the null term. -/
theorem laidOut_iff (r : Record) (use_color : Bool) (hlevel : 0 ≤ r.loglevel ∧ r.loglevel ≤ LOG_FATAL)
    (hfits : r.wholeLen use_color ≤ MAX_LOG_BUFFER_SIZE) :
    r.LaidOut use_color ↔ use_color = false ∧ r.wholeLen use_color < MAX_LOG_BUFFER_SIZE := by
  cases use_color with
  | true =>
    have hshort := written_true_lt hlevel
    have hands := hands_written hlevel (Nat.lt_of_lt_of_le hshort hfits)
    constructor
    · rintro ⟨record, hrecord, hcoloured⟩
      rw [if_pos rfl] at hcoloured
      have hlen := coloured_length hcoloured
      rw [hands_unique hrecord hands] at hlen
      omega
    · intro h
      exact absurd h.1 (by decide)
  | false =>
    have hwhole : r.wholeLen false = (r.written false).length := by
      unfold wholeLen
      rw [if_neg (by decide), Nat.add_zero, written_false]
    rw [hwhole] at hfits ⊢
    constructor
    · rintro ⟨record, hrecord, hplain⟩
      rw [if_neg (by decide)] at hplain
      refine ⟨rfl, Nat.lt_of_le_of_ne hfits fun hfull => ?_⟩
      -- the last byte is the null term
      have hlast := (hands_unique (hands_full hlevel hfull) hrecord).trans (hplain.trans written_false.symm)
      exact absurd (List.append_cancel_left hlast) (by decide)
    · rintro ⟨-, hroom⟩
      refine ⟨r.written false, hands_written hlevel hroom, ?_⟩
      rw [if_neg (by decide)]
      exact written_false

/-- `logInfo("x")` in line 1 of `a.cpp`. -/
def infoRecord : Record := { longRecord with message := ascii "x" }

theorem infoRecord_level : 0 ≤ infoRecord.loglevel ∧ infoRecord.loglevel ≤ LOG_FATAL := ⟨by decide, by decide⟩

theorem infoRecord_whole (use_color : Bool) : infoRecord.wholeLen use_color < MAX_LOG_BUFFER_SIZE := by
  have hyear := year_length infoRecord.tm_info
  have hline : (decimal infoRecord.line.toInt).length ≤ 2 := decimal_length_le (k := 1) (by decide) (by decide)
  have hplace : infoRecord.place.length = (decimal infoRecord.line.toInt).length + 8 := by
    unfold place
    simp only [List.length_append]
    rw [show (constBasename infoRecord.file).length = 5 by decide]
    exact Nat.add_comm _ _
  have hmessage : infoRecord.message.length = 1 := rfl
  rw [whole_length use_color infoRecord_level, hmessage, hplace]
  unfold MAX_LOG_BUFFER_SIZE
  split <;> omega

theorem laidOut_infoRecord : infoRecord.LaidOut false :=
  (laidOut_iff infoRecord false infoRecord_level (Nat.le_of_lt (infoRecord_whole false))).mpr
    ⟨rfl, infoRecord_whole false⟩

theorem infoRecord_not_laidOut : ¬ ∀ r use_color, 0 ≤ loglevel r ∧ r.loglevel ≤ LOG_FATAL →
    r.wholeLen use_color ≤ MAX_LOG_BUFFER_SIZE → r.LaidOut use_color := by
  intro h
  have hwhole := infoRecord_whole true
  obtain ⟨record, hrecord, hcoloured⟩ := h infoRecord true infoRecord_level (Nat.le_of_lt hwhole)
  rw [if_pos rfl] at hcoloured
  have hshort := written_true_lt infoRecord_level
  have hlen := coloured_length hcoloured
  rw [hands_unique hrecord (hands_written infoRecord_level (Nat.lt_trans hshort hwhole))] at hlen
  omega

end Record

end BeanRaft.Logger
