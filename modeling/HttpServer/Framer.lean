/-
The two primitives every parser state consumes input through: a CRLF line
scan and an all-or-nothing byte slice.  Both leave the read buffer untouched
unless they succeed.
-/
import HttpServer.ByteText

namespace HttpServer

open ByteText

def maxHttpHeaderSize : Nat := 8 * 1024
def maxHttpBodySize : Nat := 10 * 1024 * 1024
def maxChunkBodySize : Nat := 64 * 1024

inductive FrameStatus where
  | success
  | incomplete
  | headerTooLarge
  | payloadTooLarge
deriving Repr, DecidableEq

/-- How the scan for CRLF ends: at an index, past the chunk limit, or at the
end of the buffer. -/
inductive LineScan where
  | found (i : Nat)
  | tooLarge
  | notFound
deriving Repr, DecidableEq

/-- The `for` loop of `extractLine` from index `i` on; the list is what
remains of the buffer at that index. -/
def scanLine (i : Nat) : Bytes → LineScan
  | [] => .notFound
  | b :: rest =>
      if maxChunkBodySize < i then .tooLarge
      else if b = cr ∧ rest.head? = some lf then .found i
      else scanLine (i + 1) rest

/-- Status, extracted line and remaining read buffer. -/
def extractLine (readBuffer : Bytes) : FrameStatus × Bytes × Bytes :=
  if readBuffer.isEmpty then (.incomplete, [], readBuffer)
  else
    match scanLine 0 readBuffer with
    | .tooLarge => (.headerTooLarge, [], readBuffer)
    | .found i => (.success, readBuffer.take i, readBuffer.drop (i + 2))
    | .notFound =>
        if maxHttpHeaderSize < readBuffer.length then
          (.headerTooLarge, [], readBuffer)
        else (.incomplete, [], readBuffer)

/-- Status, `outBytes` after the call and remaining read buffer. -/
def extractBytes (readBuffer : Bytes) (requiredBytes : Nat) (outBytes : Bytes) :
    FrameStatus × Bytes × Bytes :=
  if maxHttpBodySize < requiredBytes then (.payloadTooLarge, outBytes, readBuffer)
  else if readBuffer.length < requiredBytes then
    (.incomplete, outBytes, readBuffer)
  else (.success, readBuffer.take requiredBytes, readBuffer.drop requiredBytes)

theorem scanLine_of_crlfIndex? {buffer : Bytes} {i start : Nat}
    (hindex : crlfIndex? buffer = some i) (hbound : start + i ≤ maxChunkBodySize) :
    scanLine start buffer = .found (start + i) := by
  induction buffer generalizing i start with
  | nil => simp [crlfIndex?] at hindex
  | cons b rest ih =>
      unfold crlfIndex? at hindex
      unfold scanLine
      rw [if_neg (by omega)]
      by_cases hhere : b = cr ∧ rest.head? = some lf
      · rw [if_pos hhere] at hindex ⊢
        obtain rfl := Option.some.inj hindex
        rfl
      · rw [if_neg hhere] at hindex ⊢
        obtain ⟨j, hj, rfl⟩ := Option.map_eq_some_iff.mp hindex
        rw [ih hj (by omega)]
        congr 1
        omega

theorem scanLine_of_none {buffer : Bytes} {start : Nat}
    (hnone : crlfIndex? buffer = none)
    (hbound : start + buffer.length ≤ maxChunkBodySize + 1) :
    scanLine start buffer = .notFound := by
  induction buffer generalizing start with
  | nil => rfl
  | cons b rest ih =>
      unfold crlfIndex? at hnone
      rw [List.length_cons] at hbound
      unfold scanLine
      rw [if_neg (by omega)]
      by_cases hhere : b = cr ∧ rest.head? = some lf
      · rw [if_pos hhere] at hnone
        contradiction
      · rw [if_neg hhere] at hnone ⊢
        exact ih (by simpa using hnone) (by omega)

/-- Whatever the scan finds is a CRLF of the buffer, and the first one. -/
theorem crlfIndex?_of_scanLine {buffer : Bytes} {i start : Nat}
    (hscan : scanLine start buffer = .found i) :
    start ≤ i ∧ i ≤ maxChunkBodySize ∧ crlfIndex? buffer = some (i - start) := by
  induction buffer generalizing start with
  | nil => simp [scanLine] at hscan
  | cons b rest ih =>
      unfold scanLine at hscan
      unfold crlfIndex?
      split at hscan
      · contradiction
      · next hlimit =>
          by_cases hhere : b = cr ∧ rest.head? = some lf
          · rw [if_pos hhere] at hscan ⊢
            obtain rfl := LineScan.found.inj hscan
            exact ⟨Nat.le_refl _, by omega, by simp⟩
          · rw [if_neg hhere] at hscan ⊢
            obtain ⟨hle, hmax, hrest⟩ := ih hscan
            refine ⟨by omega, hmax, ?_⟩
            rw [hrest, Option.map_some]
            congr 1
            omega

theorem extractLine_of_crlfIndex? {buffer : Bytes} {i : Nat}
    (hindex : crlfIndex? buffer = some i) (hbound : i ≤ maxChunkBodySize) :
    extractLine buffer = (.success, buffer.take i, buffer.drop (i + 2)) := by
  have hlong := lt_length_of_crlfIndex? hindex
  have hempty : buffer.isEmpty = false := by
    cases buffer with
    | nil => simp at hlong
    | cons _ _ => rfl
  have hscan : scanLine 0 buffer = .found (0 + i) :=
    scanLine_of_crlfIndex? hindex (by omega)
  simp [extractLine, hempty, hscan]

/-- A line without CRLF that is followed by one is extracted exactly. -/
theorem extractLine_line {line : Bytes} (hfree : CrlfFree line)
    (hbound : line.length ≤ maxChunkBodySize) (rest : Bytes) :
    extractLine (line ++ (crlf ++ rest)) = (.success, line, rest) := by
  rw [extractLine_of_crlfIndex? (crlfIndex?_line hfree rest) hbound]
  simp [crlf, List.drop_append]

theorem extractLine_of_none {buffer : Bytes} (hnone : crlfIndex? buffer = none)
    (hbound : buffer.length ≤ maxHttpHeaderSize) :
    extractLine buffer = (.incomplete, [], buffer) := by
  have hscan : scanLine 0 buffer = .notFound := by
    apply scanLine_of_none hnone
    simp only [maxHttpHeaderSize, maxChunkBodySize] at hbound ⊢
    omega
  simp only [extractLine, hscan, if_neg (Nat.not_lt.mpr hbound), ite_self]

/-- A CRLF past the chunk limit is not found. -/
theorem scanLine_tooLarge {buffer : Bytes} {i start : Nat}
    (hindex : crlfIndex? buffer = some i) (hbound : maxChunkBodySize < start + i) :
    scanLine start buffer = .tooLarge := by
  induction buffer generalizing i start with
  | nil => simp [crlfIndex?] at hindex
  | cons b rest ih =>
      rw [crlfIndex?] at hindex
      rw [scanLine]
      by_cases hlimit : maxChunkBodySize < start
      · rw [if_pos hlimit]
      · rw [if_neg hlimit]
        by_cases hhere : b = cr ∧ rest.head? = some lf
        · rw [if_pos hhere] at hindex
          obtain rfl := Option.some.inj hindex
          exact absurd hbound hlimit
        · rw [if_neg hhere] at hindex ⊢
          obtain ⟨j, hj, rfl⟩ := Option.map_eq_some_iff.mp hindex
          exact ih hj (by omega)

theorem extractLine_long_line {line : Bytes} (hfree : CrlfFree line)
    (hlength : maxChunkBodySize < line.length) (rest : Bytes) :
    extractLine (line ++ (crlf ++ rest)) =
      (.headerTooLarge, [], line ++ (crlf ++ rest)) := by
  have hscan : scanLine 0 (line ++ (crlf ++ rest)) = .tooLarge :=
    scanLine_tooLarge (crlfIndex?_line hfree rest) (by omega)
  have hempty : (line ++ (crlf ++ rest)).isEmpty = false := by simp [crlf]
  simp only [extractLine, hempty, hscan, Bool.false_eq_true, ↓reduceIte]

/-- Without a CRLF, only the header limit decides. -/
theorem extractLine_long_of_none {buffer : Bytes} (hnone : crlfIndex? buffer = none)
    (hlong : maxHttpHeaderSize < buffer.length) :
    extractLine buffer = (.headerTooLarge, [], buffer) := by
  have hempty : buffer.isEmpty = false := by
    cases buffer with
    | nil => simp at hlong
    | cons _ _ => rfl
  simp only [extractLine, hempty, Bool.false_eq_true, ↓reduceIte]
  cases hscan : scanLine 0 buffer with
  | tooLarge => rfl
  | found i =>
      have hindex := (crlfIndex?_of_scanLine hscan).2.2
      rw [hnone] at hindex
      contradiction
  | notFound => rw [if_pos hlong]

/-- What a successful line extraction tells about the buffer. -/
theorem extractLine_success {buffer line rest : Bytes}
    (hline : extractLine buffer = (.success, line, rest)) :
    ∃ i, crlfIndex? buffer = some i ∧ i ≤ maxChunkBodySize ∧
      line = buffer.take i ∧ rest = buffer.drop (i + 2) := by
  unfold extractLine at hline
  split at hline
  · simp at hline
  · split at hline
    · simp at hline
    · next i hscan =>
        obtain ⟨_, hmax, hindex⟩ := crlfIndex?_of_scanLine hscan
        simp only [Prod.mk.injEq, true_and] at hline
        exact ⟨i, by simpa using hindex, hmax, hline.1.symm, hline.2.symm⟩
    · split at hline <;> simp at hline

theorem length_extractLine {buffer line rest : Bytes}
    (hline : extractLine buffer = (.success, line, rest)) :
    rest.length + 2 ≤ buffer.length := by
  obtain ⟨i, hindex, _, _, rfl⟩ := extractLine_success hline
  have hlong := lt_length_of_crlfIndex? hindex
  simp only [List.length_drop]
  omega

/-- While the front line of the whole stream is within the header limit, the
scan of any prefix of the stream either waits or already gives the answer of
the whole stream. -/
theorem extractLine_append {buffer more : Bytes}
    (hfront : (frontLine (buffer ++ more)).length ≤ maxHttpHeaderSize - 1) :
    extractLine buffer = (.incomplete, [], buffer) ∨
      ∃ line rest, extractLine buffer = (.success, line, rest) ∧
        extractLine (buffer ++ more) = (.success, line, rest ++ more) := by
  cases hindex : crlfIndex? buffer with
  | none =>
      left
      apply extractLine_of_none hindex
      cases hwhole : crlfIndex? (buffer ++ more) with
      | none =>
          have hlong := length_le_frontLine_of_none hwhole
          simp only [List.length_append, maxHttpHeaderSize] at *
          omega
      | some i =>
          have hlong := length_le_of_crlfIndex?_append hindex hwhole
          rw [length_frontLine_of_some hwhole] at hfront
          simp only [maxHttpHeaderSize] at *
          omega
  | some i =>
      right
      have hwhole := crlfIndex?_append hindex more
      rw [length_frontLine_of_some hwhole] at hfront
      have hbound : i ≤ maxChunkBodySize := by
        simp only [maxHttpHeaderSize, maxChunkBodySize] at *
        omega
      have hlong := lt_length_of_crlfIndex? hindex
      refine ⟨buffer.take i, buffer.drop (i + 2),
        extractLine_of_crlfIndex? hindex hbound, ?_⟩
      rw [extractLine_of_crlfIndex? hwhole hbound,
        List.take_append_of_le_length (by omega),
        List.drop_append_of_le_length (by omega)]

theorem extractBytes_success {buffer out bytes rest : Bytes} {required : Nat}
    (hbytes : extractBytes buffer required out = (.success, bytes, rest)) :
    required ≤ maxHttpBodySize ∧ required ≤ buffer.length ∧
      bytes = buffer.take required ∧ rest = buffer.drop required := by
  unfold extractBytes at hbytes
  split at hbytes
  · simp at hbytes
  · next hlarge =>
      split at hbytes
      · simp at hbytes
      · next hshort =>
          simp only [Prod.mk.injEq, true_and] at hbytes
          exact ⟨by omega, by omega, hbytes.1.symm, hbytes.2.symm⟩

theorem length_extractBytes {buffer out bytes rest : Bytes} {required : Nat}
    (hbytes : extractBytes buffer required out = (.success, bytes, rest)) :
    rest.length + required = buffer.length := by
  obtain ⟨_, hlong, _, rfl⟩ := extractBytes_success hbytes
  simp only [List.length_drop]
  omega

theorem extractBytes_append {buffer out : Bytes} {required : Nat}
    {status : FrameStatus} {out' rest : Bytes}
    (hbytes : extractBytes buffer required out = (status, out', rest))
    (hstatus : status ≠ .incomplete) (more : Bytes) :
    extractBytes (buffer ++ more) required out = (status, out', rest ++ more) := by
  unfold extractBytes at hbytes ⊢
  split at hbytes
  · next hlarge =>
      rw [if_pos hlarge]
      simp only [Prod.mk.injEq] at hbytes ⊢
      exact ⟨hbytes.1, hbytes.2.1, by rw [hbytes.2.2]⟩
  · next hlarge =>
      rw [if_neg hlarge]
      split at hbytes
      · simp only [Prod.mk.injEq] at hbytes
        exact absurd hbytes.1.symm hstatus
      · next hshort =>
          rw [if_neg (by rw [List.length_append]; omega)]
          simp only [Prod.mk.injEq] at hbytes ⊢
          refine ⟨hbytes.1, ?_, ?_⟩
          · rw [List.take_append_of_le_length (by omega), hbytes.2.1]
          · rw [List.drop_append_of_le_length (by omega), hbytes.2.2]

theorem extractBytes_exact {payload : Bytes} (hbound : payload.length ≤ maxHttpBodySize)
    (out rest : Bytes) :
    extractBytes (payload ++ rest) payload.length out = (.success, payload, rest) := by
  unfold extractBytes
  rw [if_neg (by omega), if_neg (by rw [List.length_append]; omega)]
  simp

/-- Neither primitive ever puts bytes back: what is left is a tail of what was
there. -/
theorem extractLine_suffix (readBuffer : Bytes) :
    (extractLine readBuffer).2.2 <:+ readBuffer := by
  simp only [extractLine]
  split
  · exact List.suffix_rfl
  · split
    · exact List.suffix_rfl
    · exact List.drop_suffix _ _
    · split <;> exact List.suffix_rfl

theorem extractBytes_suffix (readBuffer : Bytes) (required : Nat) (out : Bytes) :
    (extractBytes readBuffer required out).2.2 <:+ readBuffer := by
  simp only [extractBytes]
  split
  · exact List.suffix_rfl
  · split
    · exact List.suffix_rfl
    · exact List.drop_suffix _ _

end HttpServer
