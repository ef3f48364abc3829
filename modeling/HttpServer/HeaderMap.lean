/-
The header map as a case-insensitive finite map: what a run of `set` and `del`
leaves behind, compared with what it should leave behind.  `del` looks the key
up folded and erases it unfolded, so the two agree on exactly the runs whose
misspelled deletions are made good later.
-/
import HttpServer.HttpHeaders
import HttpServer.LastWrite

namespace HttpServer

open ByteText LastWrite

/-- The two operations that write to a header map. -/
inductive HeaderOp where
  | set (key value : Bytes)
  | del (key : Bytes)
deriving Repr, DecidableEq

namespace HeaderOp

def key : HeaderOp → Bytes
  | .set key _ => key
  | .del key => key

/-- What an operation should do to the entry of `key`: spelling is ignored. -/
def folded (key : Bytes) : HeaderOp → Effect Bytes
  | .set spelled value => if lowerBytes spelled = lowerBytes key then .fill value else .keep
  | .del spelled => if lowerBytes spelled = lowerBytes key then .clear else .keep

/-- What an operation does to the entry of `key`: `del` must spell it as it is
stored. -/
def stored (key : Bytes) : HeaderOp → Effect Bytes
  | .set spelled value => if lowerBytes spelled = lowerBytes key then .fill value else .keep
  | .del spelled => if spelled = lowerBytes key then .clear else .keep

/-- An operation that writes the entry of `key`, whatever was there. -/
def Settles (key : Bytes) : HeaderOp → Prop
  | .set spelled _ => lowerBytes spelled = lowerBytes key
  | .del spelled => spelled = lowerBytes key

/-- A deletion of `key` with an upper-case letter in its spelling. -/
def Misspells (key : Bytes) : HeaderOp → Prop
  | .set _ _ => False
  | .del spelled => lowerBytes spelled = lowerBytes key ∧ lowerBytes spelled ≠ spelled

instance (key : Bytes) : DecidablePred (Settles key)
  | .set _ _ => inferInstanceAs (Decidable (_ = _))
  | .del _ => inferInstanceAs (Decidable (_ = _))

instance (key : Bytes) : DecidablePred (Misspells key)
  | .set _ _ => inferInstanceAs (Decidable False)
  | .del _ => inferInstanceAs (Decidable (_ ∧ _))

theorem Settles.respell {key other : Bytes} {op : HeaderOp} (hsettles : op.Settles key)
    (hsame : lowerBytes key = lowerBytes other) : op.Settles other := by
  cases op with
  | set spelled value => exact Eq.trans hsettles hsame
  | del spelled => exact Eq.trans hsettles hsame

theorem folded_eq_keep_iff (key : Bytes) (op : HeaderOp) :
    op.folded key = .keep ↔ lowerBytes op.key ≠ lowerBytes key := by
  cases op <;> simp [folded, HeaderOp.key]

theorem stored_eq_keep_iff (key : Bytes) (op : HeaderOp) :
    op.stored key = .keep ↔ ¬op.Settles key := by
  cases op <;> simp [stored, Settles]

theorem folded_eq_fill_iff (key value : Bytes) (op : HeaderOp) :
    op.folded key = .fill value ↔
      ∃ spelled, op = .set spelled value ∧ lowerBytes spelled = lowerBytes key := by
  cases op with
  | set spelled written =>
      simp only [folded, HeaderOp.set.injEq]
      split
      · next heq => simp [heq]
      · next hne => simp [hne]
  | del spelled =>
      simp only [folded]
      split <;> simp

theorem stored_eq_fill_iff (key value : Bytes) (op : HeaderOp) :
    op.stored key = .fill value ↔ op.folded key = .fill value := by
  cases op with
  | set spelled written => rfl
  | del spelled =>
      simp only [stored, folded]
      split <;> split <;> simp

/-- An operation that should keep an entry does. -/
theorem stored_of_folded_keep {key : Bytes} {op : HeaderOp}
    (hkeep : op.folded key = .keep) : op.stored key = .keep := by
  rw [folded_eq_keep_iff] at hkeep
  rw [stored_eq_keep_iff]
  cases op with
  | set spelled value => exact hkeep
  | del spelled =>
      intro hspelled
      apply hkeep
      rw [HeaderOp.key, hspelled, lowerBytes_lowerBytes]

theorem Misspells.respell {key other : Bytes} {op : HeaderOp} (hmisspells : op.Misspells key)
    (hsame : lowerBytes key = lowerBytes other) : op.Misspells other := by
  cases op with
  | set spelled value => contradiction
  | del spelled => exact ⟨hmisspells.1.trans hsame, hmisspells.2⟩

theorem Misspells.folded_eq_clear {key : Bytes} {op : HeaderOp} (hmisspells : op.Misspells key) :
    op.folded key = .clear := by
  cases op with
  | set spelled value => contradiction
  | del spelled => exact if_pos hmisspells.1

/-- An operation that keeps an entry it should not keep is a misspelled deletion. -/
theorem misspells_of_stored_keep {key : Bytes} {op : HeaderOp}
    (hstored : op.stored key = .keep) (hfolded : op.folded key ≠ .keep) : op.Misspells key := by
  rw [stored_eq_keep_iff] at hstored
  rw [Ne, folded_eq_keep_iff, not_not] at hfolded
  cases op with
  | set spelled value => exact absurd hfolded hstored
  | del spelled =>
      refine ⟨hfolded, ?_⟩
      intro hspelled
      apply hstored
      rw [Settles, ← hspelled]
      exact hfolded

end HeaderOp

namespace HttpHeaders

def getAll (headers : HttpHeaders) : Finmap (fun _ : Bytes => Bytes) := headers.mHeaders

def apply (headers : HttpHeaders) : HeaderOp → HttpHeaders
  | .set key value => headers.set key value
  | .del key => headers.del key

/-- The map after `ops`, from an empty one. -/
def build (ops : List HeaderOp) : HttpHeaders := ops.foldl apply .empty

theorem build_concat (ops : List HeaderOp) (op : HeaderOp) :
    build (ops ++ [op]) = (build ops).apply op := by
  rw [build, List.foldl_append]
  rfl

theorem get_apply (headers : HttpHeaders) (op : HeaderOp) (key : Bytes) :
    (headers.apply op).get key = (op.stored key).on (headers.get key) := by
  cases op with
  | set spelled value =>
      rw [apply, get_set, HeaderOp.stored]
      by_cases hsame : lowerBytes spelled = lowerBytes key
      · rw [if_pos hsame, if_pos hsame.symm]
        rfl
      · rw [if_neg hsame, if_neg (Ne.symm hsame)]
        rfl
  | del spelled =>
      rw [apply, get_del, HeaderOp.stored]
      by_cases hsame : spelled = lowerBytes key
      · rw [if_pos hsame, if_pos hsame.symm]
        rfl
      · rw [if_neg hsame, if_neg (Ne.symm hsame)]
        rfl

theorem get_build (ops : List HeaderOp) (key : Bytes) :
    (build ops).get key = cell (HeaderOp.stored key) none ops := by
  induction ops using List.reverseRecOn with
  | nil => exact get_empty key
  | append_singleton ops op ih => rw [build_concat, get_apply, ih, cell_concat]

/-- Entries have distinct keys, all folded: a present key has one entry in any
spelling, an absent one has none. -/
theorem countP_getAll (headers : HttpHeaders) (key : Bytes) :
    headers.getAll.entries.countP (fun entry => lowerBytes entry.1 = lowerBytes key) =
      if headers.has key then 1 else 0 := by
  have hspelling : ∀ entry ∈ headers.mHeaders.entries,
      (lowerBytes entry.1 = lowerBytes key ↔ lowerBytes key = entry.1) := by
    intro entry hentry
    rw [headers.lowerKeys entry.1 (Multiset.mem_map_of_mem _ hentry), eq_comm]
  have hcount : headers.mHeaders.entries.keys.count (lowerBytes key) =
      if lowerBytes key ∈ headers.mHeaders then 1 else 0 := by
    rw [Multiset.count_eq_of_nodup (Multiset.nodup_keys.mpr headers.mHeaders.nodupKeys)]
    exact if_congr Iff.rfl rfl rfl
  rw [Multiset.keys, Multiset.count_map, ← Multiset.countP_eq_card_filter] at hcount
  rw [getAll, Multiset.countP_congr rfl fun entry hentry => propext (hspelling entry hentry),
    hcount, has]
  simp only [Finmap.lookup_isSome]

end HttpHeaders

/-- The last `set` of `key`, in any spelling, wrote `value`, and no `set` or
`del` of it came later. -/
def LastSet (ops : List HeaderOp) (key value : Bytes) : Prop :=
  ∃ before spelled after, ops = before ++ .set spelled value :: after ∧
    lowerBytes spelled = lowerBytes key ∧
    ∀ op ∈ after, lowerBytes op.key ≠ lowerBytes key

/-- `headers` answers as the case-insensitive map that `ops` describe. -/
structure IsFoldedMap (headers : HttpHeaders) (ops : List HeaderOp) : Prop where
  get : ∀ key value, headers.get key = some value ↔ LastSet ops key value
  has : ∀ key, headers.has key = (headers.get key).isSome
  getAll : ∀ key,
    headers.getAll.entries.countP (fun entry => lowerBytes entry.1 = lowerBytes key) =
      if headers.has key then 1 else 0

/-- A `set` with a misspelled deletion of its key behind it also has an operation
behind it that writes the entry: another `set` of the key, or a `del` spelled in
lower case. -/
def DeletesReach : List HeaderOp → Prop
  | [] => True
  | .set spelled _ :: after =>
      ((∃ op ∈ after, op.Misspells spelled) → ∃ op ∈ after, op.Settles spelled) ∧
        DeletesReach after
  | .del _ :: after => DeletesReach after

instance decidableDeletesReach : DecidablePred DeletesReach
  | [] => isTrue trivial
  | .set _ _ :: after =>
      have := decidableDeletesReach after
      inferInstanceAs (Decidable (_ ∧ _))
  | .del _ :: after => decidableDeletesReach after

/-- Wherever the list is split behind a `set`. -/
theorem deletesReach_iff (ops : List HeaderOp) :
    DeletesReach ops ↔ ∀ before spelled value after, ops = before ++ .set spelled value :: after →
      (∃ op ∈ after, op.Misspells spelled) → ∃ op ∈ after, op.Settles spelled := by
  induction ops with
  | nil => simp [DeletesReach]
  | cons op ops ih =>
      constructor
      · intro hreach before spelled value after hops
        cases before with
        | nil =>
            obtain ⟨rfl, rfl⟩ := List.cons.inj hops
            exact hreach.1
        | cons first before =>
            obtain ⟨rfl, hrest⟩ := List.cons.inj hops
            apply ih.mp _ before spelled value after hrest
            cases op with
            | set other written => exact hreach.2
            | del other => exact hreach
      · intro hsplit
        have hrest : DeletesReach ops := ih.mpr fun before spelled value after hops =>
          hsplit (op :: before) spelled value after (congrArg (op :: ·) hops)
        cases op with
        | set spelled value => exact ⟨hsplit [] spelled value ops rfl, hrest⟩
        | del spelled => exact hrest

theorem lastSet_iff (ops : List HeaderOp) (key value : Bytes) :
    LastSet ops key value ↔ LastFill (HeaderOp.folded key) ops value := by
  constructor
  · rintro ⟨before, spelled, after, hops, hspelled, hafter⟩
    refine ⟨before, .set spelled value, after, hops, ?_, ?_⟩
    · exact (HeaderOp.folded_eq_fill_iff ..).mpr ⟨spelled, rfl, hspelled⟩
    · exact fun op hop => (HeaderOp.folded_eq_keep_iff key op).mpr (hafter op hop)
  · rintro ⟨before, op, after, hops, hfill, hafter⟩
    obtain ⟨spelled, rfl, hspelled⟩ := (HeaderOp.folded_eq_fill_iff ..).mp hfill
    refine ⟨before, spelled, after, hops, hspelled, ?_⟩
    exact fun op hop => (HeaderOp.folded_eq_keep_iff key op).mp (hafter op hop)

section Missed

variable {ops before after : List HeaderOp} {spelled value : Bytes}

/-- Without a later write of the entry, the value set is still answered. -/
theorem get_of_unsettled (hops : ops = before ++ .set spelled value :: after)
    (hunsettled : ∀ op ∈ after, ¬op.Settles spelled) :
    (HttpHeaders.build ops).get spelled = some value := by
  rw [HttpHeaders.get_build, cell_eq_some_iff]
  refine ⟨before, .set spelled value, after, hops, by simp [HeaderOp.stored], ?_⟩
  exact fun op hop => (HeaderOp.stored_eq_keep_iff spelled op).mpr (hunsettled op hop)

/-- With a deletion and no other `set` behind it, it should not be. -/
theorem not_lastSet_of_misspells (hops : ops = before ++ .set spelled value :: after)
    (hmissed : ∃ op ∈ after, op.Misspells spelled)
    (hunsettled : ∀ op ∈ after, ¬op.Settles spelled) (other : Bytes) :
    ¬LastSet ops spelled other := by
  rw [lastSet_iff, ← cell_eq_some_iff, hops, List.append_cons, cell_append, cell_of_clear]
  · simp
  · obtain ⟨op, hop, hmisspells⟩ := hmissed
    exact ⟨op, hop, hmisspells.folded_eq_clear⟩
  · intro op hop written hfill
    obtain ⟨key, rfl, hkey⟩ := (HeaderOp.folded_eq_fill_iff ..).mp hfill
    exact hunsettled _ hop hkey

end Missed

/-- Where misspelled deletions are made good, the last value stored was the
last value set. -/
theorem DeletesReach.lastFill {ops : List HeaderOp} (hreach : DeletesReach ops)
    {key value : Bytes} (hstored : LastFill (HeaderOp.stored key) ops value) :
    LastFill (HeaderOp.folded key) ops value := by
  obtain ⟨before, op, after, hops, hfill, hafter⟩ := hstored
  rw [HeaderOp.stored_eq_fill_iff] at hfill
  refine ⟨before, op, after, hops, hfill, ?_⟩
  intro later hlater
  by_contra hfolded
  have hmisspells := HeaderOp.misspells_of_stored_keep (hafter later hlater) hfolded
  obtain ⟨spelled, rfl, hspelled⟩ := (HeaderOp.folded_eq_fill_iff ..).mp hfill
  obtain ⟨settling, hmem, hsettles⟩ := (deletesReach_iff ops).mp hreach before spelled value
    after hops ⟨later, hlater, hmisspells.respell hspelled.symm⟩
  have hkept := (HeaderOp.stored_eq_keep_iff key settling).mp (hafter settling hmem)
  exact hkept (hsettles.respell hspelled)

theorem DeletesReach.get_build {ops : List HeaderOp} (hreach : DeletesReach ops)
    (key value : Bytes) :
    (HttpHeaders.build ops).get key = some value ↔ LastSet ops key value := by
  rw [HttpHeaders.get_build, cell_eq_some_iff, lastSet_iff]
  constructor
  · exact hreach.lastFill
  · rintro ⟨before, op, after, hops, hfill, hafter⟩
    refine ⟨before, op, after, hops, (HeaderOp.stored_eq_fill_iff ..).mpr hfill, ?_⟩
    exact fun later hlater => HeaderOp.stored_of_folded_keep (hafter later hlater)

/-- Run for run, the map is the case-insensitive one exactly when every
misspelled deletion of a present key is made good. -/
theorem isFoldedMap_iff (ops : List HeaderOp) :
    IsFoldedMap (HttpHeaders.build ops) ops ↔ DeletesReach ops := by
  constructor
  · intro hmap
    rw [deletesReach_iff]
    intro before spelled value after hops hmissed
    by_contra hnone
    have hunsettled : ∀ op ∈ after, ¬op.Settles spelled :=
      fun op hop hsettles => hnone ⟨op, hop, hsettles⟩
    have hheld := get_of_unsettled hops hunsettled
    have hlast := (hmap.get spelled value).mp hheld
    exact not_lastSet_of_misspells hops hmissed hunsettled value hlast
  · intro hreach
    constructor
    · exact hreach.get_build
    · exact fun key => rfl
    · exact HttpHeaders.countP_getAll _

example : DeletesReach [.set (ascii "Connection") (ascii "close"), .del (ascii "CONNECTION"),
    .del (ascii "connection")] := by
  decide +kernel

/-- The deletion `set_response_header` makes leaves the length it was meant to
remove. -/
theorem contentLength_survives_del :
    ¬IsFoldedMap
      (HttpHeaders.build [.set (ascii "Content-Length") (ascii "5"),
        .del (ascii "Content-Length")])
      [.set (ascii "Content-Length") (ascii "5"), .del (ascii "Content-Length")] := by
  intro hmap
  have hlast := (hmap.get (ascii "Content-Length") (ascii "5")).mp (by decide +kernel)
  rw [lastSet_iff, ← cell_eq_some_iff] at hlast
  revert hlast
  decide +kernel

end HttpServer
