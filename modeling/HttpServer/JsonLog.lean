/-
The JSON log.  A record holds the entry's texts as string members; it is one
line for every entry, and an object that gives the entry back exactly when its
printed texts have no control character that JSON has no letter for and its
duration is a number.
-/
import HttpServer.LogEntry

namespace HttpServer

open ByteText JsonString JsonObject

namespace LogEntry

def stamp (entry : LogEntry) : Bytes :=
  putTime (gmtime (entry.timestamp / 1000)) ++ ascii "." ++
    padded 3 (entry.timestamp % 1000) ++ ascii "Z"

/-- What a reader of the record is told. -/
def members (entry : LogEntry) : List Member :=
  let fd : List Member := if 0 ≤ entry.fd then [(ascii "fd", .number entry.fd 0)] else []
  let request : List Member :=
    [(ascii "method", .text entry.method), (ascii "path", .text entry.path),
      (ascii "status", .number entry.statusCode 0),
      (ascii "duration_ms", .number entry.duration.hundredths 2)]
  (ascii "timestamp", .text entry.stamp) :: (ascii "level", .text entry.level.text) ::
    (ascii "tid", .text (numeral 10 entry.threadId)) ::
      (fd ++ ((if entry.method ≠ [] then request else []) ++
        [(ascii "message", .text entry.message)]))

/-- The texts that come from requests and callers can be escaped, as far as they are
printed, and a printed duration is finite. -/
structure Readable (entry : LogEntry) : Prop where
  method : ∀ b ∈ entry.method, Logger.Escapable b
  path : entry.method ≠ [] → ∀ b ∈ entry.path, Logger.Escapable b
  duration : entry.method ≠ [] → entry.duration.isFinite = true
  message : ∀ b ∈ entry.message, Logger.Escapable b

end LogEntry

section Texts

theorem spells_plain {text : Bytes} (hplain : ∀ b ∈ text, isUnescaped b = true) :
    JsonString.Spells text (text.map .byte) := by
  induction text with
  | nil => exact Spells.nil
  | cons b text ih =>
      obtain ⟨hb, htext⟩ := List.forall_mem_cons.mp hplain
      exact Spells.unescaped hb (ih htext)

theorem isUnescaped_digit : ∀ b : UInt8, (digitValue 10 b).isSome → isUnescaped b = true := by
  decide +kernel

theorem isUnescaped_numeral {n : Nat} : ∀ b ∈ numeral 10 n, isUnescaped b = true :=
  fun b hb => isUnescaped_digit b (numeral_byte hb)

theorem isUnescaped_padded {width n : Nat} : ∀ b ∈ padded width n, isUnescaped b = true :=
  fun b hb => isUnescaped_digit b (padded_byte hb)

theorem isUnescaped_stamp (entry : LogEntry) : ∀ b ∈ entry.stamp, isUnescaped b = true := by
  have hmarks : ∀ b ∈ ascii "-" ++ ascii " " ++ ascii ":" ++ ascii "." ++ ascii "Z",
      isUnescaped b = true :=
    List.all_eq_true.mp (by decide)
  simp only [List.forall_mem_append] at hmarks
  obtain ⟨⟨⟨⟨hdash, hblank⟩, hcolon⟩, hpoint⟩, hz⟩ := hmarks
  simp only [LogEntry.stamp, putTime, List.forall_mem_append]
  simp only [and_assoc]
  refine ⟨isUnescaped_numeral, hdash, isUnescaped_padded, hdash, isUnescaped_padded, hblank,
    isUnescaped_padded, hcolon, isUnescaped_padded, hcolon, isUnescaped_padded, hpoint,
    isUnescaped_padded, hz⟩

theorem isUnescaped_levelText (level : Level) : ∀ b ∈ level.text, isUnescaped b = true := by
  apply List.all_eq_true.mp
  cases level <;> decide

/-- A byte that cannot be escaped stops the reader. -/
theorem scan_escapeByte (b : UInt8) (rest : Bytes) :
    scan (Logger.escapeByte b ++ rest) =
      if Logger.Escapable b then (scan rest).map fun read => (.byte b :: read.1, read.2)
      else none := by
  unfold Logger.escapeByte
  split
  case h_9 c hquote hbackslash hb hf hn _ hr ht =>
    have hraw : isUnescaped b = true ↔ Logger.Escapable b := by
      rw [isUnescaped_iff, Logger.Escapable]
      simp [quote, backslash]
      tauto
    rw [List.singleton_append, scan.eq_def]
    simp only [hraw]
    rw [if_neg (fun h : b = quote => hquote h), if_neg (fun h : b = backslash => hbackslash h)]
  all_goals
    rw [scan.eq_def]
    rfl

theorem scan_escapeJson_none {input : Bytes} (hinput : ¬∀ b ∈ input, Logger.Escapable b)
    (rest : Bytes) : scan (Logger.escapeJson input ++ rest) = none := by
  induction input with
  | nil => exact absurd (by simp) hinput
  | cons b input ih =>
      have hsplit : Logger.escapeJson (b :: input) ++ rest =
          Logger.escapeByte b ++ (Logger.escapeJson input ++ rest) := by
        simp [Logger.escapeJson]
      rw [hsplit, scan_escapeByte]
      split
      · next hb =>
          rw [ih fun hlater => hinput (List.forall_mem_cons.mpr ⟨hb, hlater⟩)]
          rfl
      · rfl

end Texts

section Record

variable (entry : LogEntry)

/-- A string member and its text. -/
def textMember (name value : Bytes) : Bytes × Member :=
  (label name ++ (quote :: Logger.escapeJson value ++ [quote]), (name, .text value))

def plainMember (name value : Bytes) : Bytes × Member :=
  (label name ++ (quote :: value ++ [quote]), (name, .text value))

def intMember (name : Bytes) (value : Int) : Bytes × Member :=
  (label name ++ decimal value, (name, .number value 0))

def durationMember (duration : Double) : Bytes × Member :=
  (label (ascii "duration_ms") ++ fixed duration,
    (ascii "duration_ms", .number duration.hundredths 2))

/-- The members that every entry has. -/
def LogEntry.preamble : List (Bytes × Member) :=
  [plainMember (ascii "timestamp") entry.stamp, plainMember (ascii "level") entry.level.text,
    plainMember (ascii "tid") (numeral 10 entry.threadId)] ++
  if 0 ≤ entry.fd then [intMember (ascii "fd") entry.fd] else []

/-- The members of an entry about a request. -/
def LogEntry.requestPart : List (Bytes × Member) :=
  [textMember (ascii "method") entry.method, textMember (ascii "path") entry.path,
    intMember (ascii "status") entry.statusCode, durationMember entry.duration]

/-- The members in front of the message, each with its text. -/
def LogEntry.leading : List (Bytes × Member) :=
  entry.preamble ++ if entry.method ≠ [] then entry.requestPart else []

theorem formatJson_eq :
    Logger.formatJson entry =
      123 :: (entry.leading.flatMap (fun member => member.1 ++ [44]) ++
        ((textMember (ascii "message") entry.message).1 ++ [125])) := by
  have hmarks : ascii "\x7b" = [123] ∧ ascii "\x7d" = [125] ∧ ascii "\"" = [quote] ∧
      ascii "," = [44] ∧ ascii "\"," = [quote, 44] ∧ ascii "Z\"," = ascii "Z" ++ [quote, 44] ∧
      ascii "\"timestamp\":\"" = label (ascii "timestamp") ++ [quote] ∧
      ascii "\"level\":\"" = label (ascii "level") ++ [quote] ∧
      ascii "\"tid\":\"" = label (ascii "tid") ++ [quote] ∧
      ascii "\"fd\":" = label (ascii "fd") ∧
      ascii "\"method\":\"" = label (ascii "method") ++ [quote] ∧
      ascii "\"path\":\"" = label (ascii "path") ++ [quote] ∧
      ascii "\"status\":" = label (ascii "status") ∧
      ascii "\"duration_ms\":" = label (ascii "duration_ms") ∧
      ascii "\"message\":\"" = label (ascii "message") ++ [quote] := by
    refine ⟨?_, ?_, ?_, ?_, ?_, ?_, ?_, ?_, ?_, ?_, ?_, ?_, ?_, ?_, ?_⟩ <;> decide
  obtain ⟨hopen, hclose, hquote, hcomma, hend, hz, hstamp, hlevel, htid, hfd, hmethod, hpath,
    hstatus, hduration, hmessage⟩ := hmarks
  simp only [Logger.formatJson, hopen, hclose, hquote, hcomma, hend, hz, hstamp, hlevel, htid,
    hfd, hmethod, hpath, hstatus, hduration, hmessage, LogEntry.leading, LogEntry.preamble,
    LogEntry.requestPart, plainMember, textMember, intMember, durationMember, LogEntry.stamp]
  by_cases hfd : 0 ≤ entry.fd <;> by_cases hmethod : entry.method = [] <;>
    simp -implicitDefEqProofs [hfd, hmethod]

variable {entry}

theorem names_plain : ∀ name ∈ [ascii "timestamp", ascii "level", ascii "tid", ascii "fd",
    ascii "method", ascii "path", ascii "status", ascii "duration_ms", ascii "message"],
    ∀ b ∈ name, isUnescaped b = true := by
  simp only [← List.all_eq_true]
  decide

theorem readsAs_textMember {name value : Bytes} (hname : ∀ b ∈ name, isUnescaped b = true)
    (hvalue : ∀ b ∈ value, Logger.Escapable b) :
    ReadsAs (textMember name value).1 (textMember name value).2 := by
  have hread := readsAs_text (spells_plain hname) (Logger.spells_escapeJson hvalue)
  rwa [render_bytes] at hread

theorem readsAs_plainMember {name value : Bytes} (hname : ∀ b ∈ name, isUnescaped b = true)
    (hvalue : ∀ b ∈ value, isUnescaped b = true) :
    ReadsAs (plainMember name value).1 (plainMember name value).2 := by
  have hread := readsAs_text (spells_plain hname) (spells_plain hvalue)
  rwa [render_bytes] at hread

theorem readsAs_intMember {name : Bytes} (hname : ∀ b ∈ name, isUnescaped b = true)
    (value : Int) : ReadsAs (intMember name value).1 (intMember name value).2 := by
  have hdigits : ∀ rest, EndsNumber rest →
      readUnsigned (numeral 10 value.natAbs ++ rest) = some ((value.natAbs, 0), rest) :=
    fun _ hrest => readUnsigned_numeral _ hrest
  simp only [intMember, decimal]
  split
  · next hnegative =>
      have hread := readsAs_negative (spells_plain hname) hdigits
      rwa [show -(value.natAbs : Int) = value by omega] at hread
  · next hnatural =>
      obtain ⟨first, hhead, hdigit⟩ := head?_numeral value.natAbs []
      rw [List.append_nil] at hhead
      have hread := readsAs_unsigned (spells_plain hname) hhead hdigit hdigits
      rwa [show (value.natAbs : Int) = value by omega] at hread

theorem head?_fixedPoint (hundredths : Nat) :
    ∃ b, (fixedPoint hundredths).head? = some b ∧ (digitValue 10 b).isSome := by
  obtain ⟨first, hhead, hdigit⟩ := head?_numeral (hundredths / 100)
    (ascii "." ++ padded 2 (hundredths % 100))
  rw [← List.append_assoc] at hhead
  exact ⟨first, hhead, hdigit⟩

theorem readsAs_duration {duration : Double} (hfinite : duration.isFinite = true) :
    ReadsAs (durationMember duration).1 (durationMember duration).2 := by
  have hname := spells_plain (names_plain (ascii "duration_ms") (by simp))
  cases duration with
  | infinite => contradiction
  | nan => contradiction
  | finite negative mantissa exponent =>
      have hread : ∀ rest, EndsNumber rest →
          readUnsigned (fixedPoint (Double.magnitude mantissa exponent) ++ rest) =
            some ((Double.magnitude mantissa exponent, 2), rest) :=
        fun _ hrest => readUnsigned_fixedPoint _ hrest
      cases negative with
      | true =>
          have hnegative := readsAs_negative hname hread
          rw [← neg_one_mul] at hnegative
          exact hnegative
      | false =>
          obtain ⟨first, hhead, hdigit⟩ := head?_fixedPoint (Double.magnitude mantissa exponent)
          have hunsigned := readsAs_unsigned hname hhead hdigit hread
          rw [← one_mul (Double.magnitude mantissa exponent : Int)] at hunsigned
          exact hunsigned

/-- `inf` and `nan` are no numbers of the grammar, with a sign or without. -/
theorem readMember_nonFinite {duration : Double} (hduration : ¬duration.isFinite = true)
    (rest : Bytes) : readMember ((durationMember duration).1 ++ rest) = none := by
  rw [durationMember, List.append_assoc,
    readMember_label (spells_plain (names_plain (ascii "duration_ms") (by simp)))]
  cases duration with
  | finite => exact absurd rfl hduration
  | infinite negative => cases negative <;> rfl
  | nan negative => cases negative <;> rfl

theorem readsAs_preamble : ∀ m ∈ entry.preamble, ReadsAs m.1 m.2 := by
  have hstamp : ReadsAs _ _ :=
    readsAs_plainMember (names_plain (ascii "timestamp") (by simp)) (isUnescaped_stamp entry)
  have hlevel : ReadsAs _ _ := readsAs_plainMember (names_plain (ascii "level") (by simp))
    (isUnescaped_levelText entry.level)
  have htid : ReadsAs _ _ := readsAs_plainMember (names_plain (ascii "tid") (by simp))
    (@isUnescaped_numeral entry.threadId)
  have hfd : ReadsAs _ _ := readsAs_intMember (names_plain (ascii "fd") (by simp)) entry.fd
  intro m hm
  simp only [LogEntry.preamble, List.cons_append, List.nil_append, List.mem_cons] at hm
  rcases hm with rfl | rfl | rfl | hm
  · exact hstamp
  · exact hlevel
  · exact htid
  · split at hm
    · obtain rfl := List.mem_singleton.mp hm
      exact hfd
    · contradiction

theorem members_eq : entry.members = entry.leading.map Prod.snd ++
    [(textMember (ascii "message") entry.message).2] := by
  simp only [LogEntry.members, LogEntry.leading, LogEntry.preamble, LogEntry.requestPart]
  split <;> split <;> rfl

theorem readMember_stuck {name value : Bytes} (hname : ∀ b ∈ name, isUnescaped b = true)
    (hvalue : ¬∀ b ∈ value, Logger.Escapable b) (rest : Bytes) :
    readMember ((textMember name value).1 ++ rest) = none := by
  have hsplit : quote :: Logger.escapeJson value ++ [quote] ++ rest =
      quote :: (Logger.escapeJson value ++ quote :: rest) := by
    simp
  rw [textMember, List.append_assoc, readMember_label (spells_plain hname), hsplit, readValue,
    List.head?_cons, if_pos rfl, readString, if_pos rfl, scan_escapeJson_none hvalue]
  rfl

theorem readsAs_leading (hmethod : ∀ b ∈ entry.method, Logger.Escapable b)
    (hpath : entry.method ≠ [] → ∀ b ∈ entry.path, Logger.Escapable b)
    (hduration : entry.method ≠ [] → entry.duration.isFinite = true) :
    ∀ m ∈ entry.leading, ReadsAs m.1 m.2 := by
  intro m hm
  rcases List.mem_append.mp hm with hpreamble | hrequest
  · exact readsAs_preamble m hpreamble
  · split at hrequest
    · next hrequested =>
        simp only [LogEntry.requestPart, List.mem_cons, List.not_mem_nil, or_false] at hrequest
        rcases hrequest with rfl | rfl | rfl | rfl
        · exact readsAs_textMember (names_plain _ (by simp)) hmethod
        · exact readsAs_textMember (names_plain _ (by simp)) (hpath hrequested)
        · exact readsAs_intMember (names_plain _ (by simp)) _
        · exact readsAs_duration (hduration hrequested)
    · contradiction

theorem formatJson_append (rest : Bytes) :
    Logger.formatJson entry ++ rest =
      123 :: (entry.leading.flatMap (fun member => member.1 ++ [44]) ++
        ((textMember (ascii "message") entry.message).1 ++ 125 :: rest)) := by
  rw [formatJson_eq]
  simp

theorem preamble_ne_nil : entry.preamble ≠ [] := by
  simp [LogEntry.preamble]

theorem record_stuck {before after : List (Bytes × Member)} {member : Bytes × Member}
    (hne : before ≠ []) (hbefore : ∀ m ∈ before, ReadsAs m.1 m.2)
    (hstuck : ∀ rest, readMember (member.1 ++ rest) = none)
    (hleading : entry.leading = before ++ member :: after) (rest : Bytes) :
    readObject (Logger.formatJson entry ++ rest) = none := by
  have hread := fun rest => readObject_stuck hne hbefore (hstuck rest)
  rw [formatJson_append, hleading, List.flatMap_append, List.flatMap_cons]
  simp only [List.append_assoc]
  exact hread _

/-- The first text that cannot be escaped, or a duration that is no number, ends the
reading. -/
theorem jsonRecord_stuck (hunreadable : ¬entry.Readable) (rest : Bytes) :
    readObject (Logger.formatJson entry ++ rest) = none := by
  have hne := @preamble_ne_nil entry
  have hrequest : entry.method ≠ [] → entry.leading = entry.preamble ++ entry.requestPart :=
    fun hrequested => by rw [LogEntry.leading, if_pos hrequested]
  by_cases hmethod : ∀ b ∈ entry.method, Logger.Escapable b
  · have hreadMethod := readsAs_textMember (names_plain (ascii "method") (by simp)) hmethod
    by_cases hpath : entry.method ≠ [] → ∀ b ∈ entry.path, Logger.Escapable b
    · by_cases hduration : entry.method ≠ [] → entry.duration.isFinite = true
      · have hmessage : ¬∀ b ∈ entry.message, Logger.Escapable b :=
          fun hmessage => hunreadable ⟨hmethod, hpath, hduration, hmessage⟩
        rw [formatJson_append]
        exact readObject_stuck (List.append_ne_nil_of_left_ne_nil hne _)
          (readsAs_leading hmethod hpath hduration)
          (readMember_stuck (names_plain (ascii "message") (by simp)) hmessage _)
      · obtain ⟨hrequested, hduration⟩ := Classical.not_imp.mp hduration
        have hbefore : ∀ m ∈ entry.preamble ++ [textMember (ascii "method") entry.method,
            textMember (ascii "path") entry.path, intMember (ascii "status") entry.statusCode],
            ReadsAs m.1 m.2 := by
          apply List.forall_mem_append.mpr ⟨readsAs_preamble, ?_⟩
          simp only [List.forall_mem_cons]
          exact ⟨hreadMethod,
            readsAs_textMember (names_plain (ascii "path") (by simp)) (hpath hrequested),
            readsAs_intMember (names_plain (ascii "status") (by simp)) _, by simp⟩
        exact record_stuck (List.append_ne_nil_of_left_ne_nil hne _) hbefore
          (readMember_nonFinite hduration)
          (by rw [hrequest hrequested, LogEntry.requestPart, List.append_assoc]; rfl) rest
    · obtain ⟨hrequested, hpath⟩ := Classical.not_imp.mp hpath
      have hbefore : ∀ m ∈ entry.preamble ++ [textMember (ascii "method") entry.method],
          ReadsAs m.1 m.2 :=
        List.forall_mem_append.mpr ⟨readsAs_preamble, List.forall_mem_singleton.mpr hreadMethod⟩
      exact record_stuck (List.append_ne_nil_of_left_ne_nil hne _) hbefore
        (readMember_stuck (names_plain (ascii "path") (by simp)) hpath)
        (by rw [hrequest hrequested, LogEntry.requestPart, List.append_assoc]; rfl) rest
  · have hrequested : entry.method ≠ [] := by
      intro hempty
      simp [hempty] at hmethod
    exact record_stuck hne readsAs_preamble
      (readMember_stuck (names_plain (ascii "method") (by simp)) hmethod)
      (hrequest hrequested) rest

/-- A record is read as an object with the entry's own texts and numbers exactly
when its printed texts can be escaped and its printed duration is finite, whatever
follows it; the duration is told to the nearest hundredth. -/
theorem jsonRecord_read_iff (entry : LogEntry) (rest : Bytes) :
    (readObject (Logger.formatJson entry ++ rest) = some (entry.members, rest) ↔
      entry.Readable) ∧
    ∀ value, entry.duration.value? = some value →
      |(entry.duration.hundredths : ℚ) - 100 * value| ≤ 1 / 2 := by
  refine ⟨⟨fun hread => ?_, fun hreadable => ?_⟩, fun _ => Double.hundredths_near⟩
  · by_contra hunreadable
    rw [jsonRecord_stuck hunreadable] at hread
    contradiction
  · have hmessage := readsAs_textMember (names_plain (ascii "message") (by simp))
      hreadable.message
    rw [formatJson_append, members_eq]
    exact readObject_members
      (readsAs_leading hreadable.method hreadable.path hreadable.duration) hmessage rest

end Record

section Lines

theorem lf_not_mem_escapeJson (input : Bytes) : lf ∉ Logger.escapeJson input := by
  intro hmem
  obtain ⟨b, _, hb⟩ := List.mem_flatMap.mp hmem
  unfold Logger.escapeByte at hb
  split at hb
  case h_9 hn _ _ _ => exact hn (List.mem_singleton.mp hb).symm
  all_goals exact absurd hb (by decide)

theorem lf_not_mem_of_unescaped {text : Bytes} (htext : ∀ b ∈ text, isUnescaped b = true) :
    lf ∉ text := by
  intro hmem
  have hlf : isUnescaped lf = false := by decide
  rw [htext lf hmem] at hlf
  contradiction

theorem lf_not_mem_label {name : Bytes} (hname : ∀ b ∈ name, isUnescaped b = true) :
    lf ∉ label name := by
  have hmarks : lf ≠ quote ∧ lf ≠ 58 := by decide
  simp [label, lf_not_mem_of_unescaped hname, hmarks]

theorem lf_not_mem_textMember {name : Bytes} (hname : ∀ b ∈ name, isUnescaped b = true)
    (value : Bytes) : lf ∉ (textMember name value).1 := by
  have hquote : lf ≠ quote := by decide
  simp [textMember, lf_not_mem_label hname, lf_not_mem_escapeJson, hquote]

theorem lf_not_mem_plainMember {name value : Bytes} (hname : ∀ b ∈ name, isUnescaped b = true)
    (hvalue : ∀ b ∈ value, isUnescaped b = true) : lf ∉ (plainMember name value).1 := by
  have hquote : lf ≠ quote := by decide
  simp [plainMember, lf_not_mem_label hname, lf_not_mem_of_unescaped hvalue, hquote]

theorem lf_not_mem_intMember {name : Bytes} (hname : ∀ b ∈ name, isUnescaped b = true)
    (value : Int) : lf ∉ (intMember name value).1 := by
  have hsign : lf ≠ 45 := by decide
  have hdigits := lf_not_mem_of_unescaped (@isUnescaped_numeral value.natAbs)
  simp only [intMember, decimal, List.mem_append, not_or]
  refine ⟨lf_not_mem_label hname, ?_⟩
  split
  · simp [hdigits, hsign]
  · exact hdigits

theorem lf_not_mem_fixed (duration : Double) : lf ∉ fixed duration := by
  have hmarks : lf ∉ ascii "." ∧ lf ∉ ascii "inf" ∧ lf ∉ ascii "nan" := by
    decide
  obtain ⟨hpoint, hinf, hnan⟩ := hmarks
  have hsign : ∀ negative, lf ∉ sign negative := by decide
  have hdigits : ∀ hundredths, lf ∉ fixedPoint hundredths := by
    intro hundredths
    simp [fixedPoint, lf_not_mem_of_unescaped isUnescaped_numeral,
      lf_not_mem_of_unescaped isUnescaped_padded, hpoint]
  cases duration <;> simp [fixed, hsign, hdigits, hinf, hnan]

/-- No text of an entry breaks its record into two lines. -/
theorem lf_not_mem_formatJson (entry : LogEntry) : lf ∉ Logger.formatJson entry := by
  have hmembers : ∀ m ∈ entry.leading, lf ∉ m.1 := by
    intro m hm
    simp only [LogEntry.leading, LogEntry.preamble, LogEntry.requestPart, List.mem_append] at hm
    rcases hm with (hfixed | hfd) | hrequest
    · simp only [List.mem_cons, List.not_mem_nil, or_false] at hfixed
      rcases hfixed with rfl | rfl | rfl
      · exact lf_not_mem_plainMember (names_plain _ (by simp)) (isUnescaped_stamp entry)
      · exact lf_not_mem_plainMember (names_plain _ (by simp)) (isUnescaped_levelText _)
      · exact lf_not_mem_plainMember (names_plain _ (by simp)) isUnescaped_numeral
    · split at hfd
      · obtain rfl := List.mem_singleton.mp hfd
        exact lf_not_mem_intMember (names_plain _ (by simp)) _
      · contradiction
    · split at hrequest
      · simp only [List.mem_cons, List.not_mem_nil, or_false] at hrequest
        rcases hrequest with rfl | rfl | rfl | rfl
        · exact lf_not_mem_textMember (names_plain _ (by simp)) _
        · exact lf_not_mem_textMember (names_plain _ (by simp)) _
        · exact lf_not_mem_intMember (names_plain _ (by simp)) _
        · have hlabel := lf_not_mem_label (names_plain (ascii "duration_ms") (by simp))
          simp [durationMember, hlabel, lf_not_mem_fixed]
      · contradiction
  have hmessage := lf_not_mem_textMember (names_plain (ascii "message") (by simp)) entry.message
  have hmarks : lf ≠ 123 ∧ lf ≠ 125 ∧ lf ≠ 44 := by decide
  obtain ⟨hopen, hclose, hcomma⟩ := hmarks
  rw [formatJson_eq]
  simp only [List.mem_cons, List.mem_append, List.mem_flatMap, List.not_mem_nil, hopen, hclose,
    hcomma, hmessage, or_false, false_or, not_exists, not_and]
  exact fun m hm => hmembers m hm

/-- Lines that are each closed by a line feed are found again by splitting. -/
theorem splitOn_lines {lines : List Bytes} (hlines : ∀ line ∈ lines, lf ∉ line) :
    (lines.flatMap (· ++ [lf])).splitOn lf = lines ++ [[]] := by
  induction lines with
  | nil => rfl
  | cons line lines ih =>
      obtain ⟨hline, hlater⟩ := List.forall_mem_cons.mp hlines
      rw [List.flatMap_cons, List.append_assoc, List.singleton_append,
        List.splitOn_append_cons_self_of_not_mem hline, ih hlater, List.cons_append]

/-- Behind a text that ends in a line feed they are found as well. -/
theorem splitOn_appended {earlier : Bytes} (hearlier : earlier = [] ∨ earlier.getLast? = some lf)
    {lines : List Bytes} (hlines : ∀ line ∈ lines, lf ∉ line) :
    (earlier ++ lines.flatMap (· ++ [lf])).splitOn lf =
      (earlier.splitOn lf).dropLast ++ (lines ++ [[]]) := by
  rcases hearlier with rfl | hlast
  · exact splitOn_lines hlines
  · obtain ⟨before, rfl⟩ := List.getLast?_eq_some_iff.mp hlast
    rw [List.append_assoc, List.singleton_append, List.splitOn_append_cons_self,
      List.splitOn_append_cons_self, splitOn_lines hlines, List.splitOn_nil,
      List.dropLast_concat]

end Lines

end HttpServer
