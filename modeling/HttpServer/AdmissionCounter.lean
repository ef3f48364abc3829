/-
The global counter against the connection map.  A client is tested against the
limit, inserted and counted in three separate steps, and erased and subtracted
in two; the ledger says what is under way between them.
-/
import HttpServer.DescriptorOwnership

namespace HttpServer

open GuardedRun

namespace Pc

/-- Past the capacity check, with a slot that is neither counted nor given up. -/
def pending : Pc → Bool
  | accepting | acquiring _ | inserting _ | adding _ | counting _ | undoRelease _
  | undoErase _ => true
  | _ => false

/-- In the map, but not counted. -/
def uncounted? : Pc → Option ConnRef
  | adding conn | counting conn | undoRelease conn | undoErase conn => some conn
  | _ => none

end Pc

/-- Erased from the map, but not subtracted. -/
def Exec.unsubtracted? (e : Exec) : Option ConnRef :=
  match e.pc with
  | .releasing | .subtracting => e.removed
  | _ => none

def pendingCount (execs : List Exec) : Nat := execs.countP fun e => e.pc.pending

def uncountedIds (execs : List Exec) : List Nat :=
  execs.filterMap fun e => e.pc.uncounted?.map ConnRef.id

def unsubtractedIds (execs : List Exec) : List Nat :=
  execs.filterMap fun e => e.unsubtracted?.map ConnRef.id

section Cons

variable (e : Exec) (rest : List Exec)

theorem pendingCount_cons :
    pendingCount (e :: rest) = pendingCount rest + e.pc.pending.toNat := by
  cases hpending : e.pc.pending <;> simp [pendingCount, hpending]

theorem uncountedIds_cons :
    uncountedIds (e :: rest) = (e.pc.uncounted?.map ConnRef.id).toList ++ uncountedIds rest := by
  cases huncounted : e.pc.uncounted? <;> simp [uncountedIds, huncounted]

theorem unsubtractedIds_cons :
    unsubtractedIds (e :: rest) =
      (e.unsubtracted?.map ConnRef.id).toList ++ unsubtractedIds rest := by
  cases hunsubtracted : e.unsubtracted? <;> simp [unsubtractedIds, hunsubtracted]

end Cons

/-- The counter against the map, what is under way and the limit. -/
structure Ledger (active : Nat) (connections : List ConnRef) (uncounted unsubtracted : List Nat)
    (pending : Nat) : Prop where
  keys : (connections.map ConnRef.fd).Nodup
  balance : active + uncounted.length = connections.length + unsubtracted.length
  room : active + pending ≤ maxTotalConnections
  distinct : uncounted.Nodup
  covered : ∀ id ∈ uncounted, id ∈ connections.map ConnRef.id ∨ id ∈ unsubtracted

namespace Ledger

variable {active : Nat} {connections : List ConnRef} {uncounted unsubtracted : List Nat}
  {pending : Nat} {conn : ConnRef} {fd id : Nat}

theorem perm {uncounted' unsubtracted' : List Nat}
    (hledger : Ledger active connections uncounted unsubtracted pending)
    (huncounted : uncounted.Perm uncounted') (hunsubtracted : unsubtracted.Perm unsubtracted') :
    Ledger active connections uncounted' unsubtracted' pending where
  keys := hledger.keys
  balance := by
    rw [← huncounted.length_eq, ← hunsubtracted.length_eq]
    exact hledger.balance
  room := hledger.room
  distinct := huncounted.nodup_iff.mp hledger.distinct
  covered id hid := by
    rw [← hunsubtracted.mem_iff]
    exact hledger.covered id (huncounted.mem_iff.mpr hid)

theorem withPending {pending' : Nat}
    (hledger : Ledger active connections uncounted unsubtracted pending)
    (hroom : active + pending' ≤ maxTotalConnections) :
    Ledger active connections uncounted unsubtracted pending' :=
  { hledger with room := hroom }

/-- A client joins the map before it is counted. -/
theorem insert (hledger : Ledger active connections uncounted unsubtracted pending)
    (hkey : conn.fd ∉ connections.map ConnRef.fd) (hnew : conn.id ∉ uncounted) :
    Ledger active (conn :: connections) (conn.id :: uncounted) unsubtracted pending where
  keys := List.nodup_cons.mpr ⟨hkey, hledger.keys⟩
  balance := by
    have hbalance := hledger.balance
    simp only [List.length_cons]
    omega
  room := hledger.room
  distinct := List.nodup_cons.mpr ⟨hnew, hledger.distinct⟩
  covered id hid := by
    rcases List.mem_cons.mp hid with rfl | hold
    · exact .inl List.mem_cons_self
    · exact (hledger.covered id hold).imp (List.mem_cons_of_mem _) fun hgone => hgone

/-- `fetch_add` stays below the limit. -/
theorem count (hledger : Ledger active connections (id :: uncounted) unsubtracted (pending + 1)) :
    Ledger (fetchAdd active) connections uncounted unsubtracted pending := by
  have hroom := hledger.room
  have hadd : fetchAdd active = active + 1 := by
    have hlimit : maxTotalConnections < sizeBound := by
      simp [maxTotalConnections, sizeBound]
    rw [fetchAdd, Nat.mod_eq_of_lt (by omega)]
  refine ⟨hledger.keys, ?_, by omega, (List.nodup_cons.mp hledger.distinct).2, ?_⟩
  · have hbalance := hledger.balance
    simp only [List.length_cons] at hbalance
    omega
  · exact fun other hother => hledger.covered other (List.mem_cons_of_mem _ hother)

/-- The number of entries under way is at most that of all entries. -/
theorem uncounted_le (hledger : Ledger active connections uncounted unsubtracted pending)
    {known : List Nat} (hknown : ∀ id ∈ uncounted, id ∈ known) :
    uncounted.length ≤ known.length :=
  (hledger.distinct.subperm hknown).length_le

/-- `fetch_sub` of a counted client does not wrap. -/
theorem subtract (hledger : Ledger active connections uncounted (id :: unsubtracted) pending)
    (hcounted : id ∉ uncounted) :
    Ledger (fetchSub active) connections uncounted unsubtracted pending := by
  have hcovered : ∀ other ∈ uncounted,
      other ∈ connections.map ConnRef.id ++ unsubtracted := by
    intro other hother
    rcases hledger.covered other hother with hmapped | hgone
    · exact List.mem_append_left _ hmapped
    · rcases List.mem_cons.mp hgone with rfl | hgone
      · exact absurd hother hcounted
      · exact List.mem_append_right _ hgone
  have hless := hledger.uncounted_le hcovered
  have hbalance := hledger.balance
  have hroom := hledger.room
  simp only [List.length_append, List.length_map, List.length_cons] at hless hbalance
  have hsub : fetchSub active = active - 1 := by
    rw [fetchSub, if_neg (by omega)]
  refine ⟨hledger.keys, by omega, by omega, hledger.distinct, ?_⟩
  exact fun other hother => List.mem_append.mp (hcovered other hother)

variable {left : List ConnRef}

/-- A client leaves the map before it is subtracted. -/
theorem erase (hledger : Ledger active connections uncounted unsubtracted pending)
    (hmap : connections.Perm (conn :: left)) :
    Ledger active left uncounted (conn.id :: unsubtracted) pending := by
  have hkeys := (hmap.map ConnRef.fd).nodup_iff.mp hledger.keys
  have hbalance := hledger.balance
  have hlength := hmap.length_eq
  simp only [List.length_cons] at hlength
  refine ⟨(List.nodup_cons.mp hkeys).2, ?_, hledger.room, hledger.distinct, ?_⟩
  · simp only [List.length_cons]
    omega
  · intro id hid
    rcases hledger.covered id hid with hmapped | hgone
    · rw [(hmap.map ConnRef.id).mem_iff] at hmapped
      rcases List.mem_cons.mp hmapped with rfl | hleft
      · exact .inr List.mem_cons_self
      · exact .inl hleft
    · exact .inr (List.mem_cons_of_mem _ hgone)

/-- A client that was never counted leaves the map. -/
theorem undo (hledger : Ledger active connections (conn.id :: uncounted) unsubtracted pending)
    (hmap : connections.Perm (conn :: left)) :
    Ledger active left uncounted unsubtracted pending := by
  obtain ⟨hother, hdistinct⟩ := List.nodup_cons.mp hledger.distinct
  have hkeys := (hmap.map ConnRef.fd).nodup_iff.mp hledger.keys
  have hbalance := hledger.balance
  have hlength := hmap.length_eq
  simp only [List.length_cons] at hlength hbalance
  refine ⟨(List.nodup_cons.mp hkeys).2, by omega, hledger.room, hdistinct, ?_⟩
  intro id hid
  rcases hledger.covered id (List.mem_cons_of_mem _ hid) with hmapped | hgone
  · rw [(hmap.map ConnRef.id).mem_iff] at hmapped
    rcases List.mem_cons.mp hmapped with rfl | hleft
    · exact absurd hid hother
    · exact .inl hleft
  · exact .inr hgone

/-- The map is no larger than the limit. -/
theorem length_le (hledger : Ledger active connections uncounted unsubtracted pending)
    (hpending : uncounted.length ≤ pending) : connections.length ≤ maxTotalConnections := by
  have hbalance := hledger.balance
  have hroom := hledger.room
  omega

end Ledger

theorem perm_cons_filter_ne {α β : Type} [DecidableEq β] {key : α → β} {items : List α}
    {item : α} (hkeys : (items.map key).Nodup) (hmem : item ∈ items) :
    items.Perm (item :: items.filter fun other => key other ≠ key item) := by
  induction items with
  | nil => simp at hmem
  | cons first rest ih =>
      obtain ⟨hfirst, hrest⟩ := List.nodup_cons.mp hkeys
      rcases List.mem_cons.mp hmem with rfl | hlater
      · have hkept : rest.filter (fun other => key other ≠ key item) = rest := by
          rw [List.filter_eq_self]
          intro other hother
          simp only [ne_eq, decide_eq_true_eq]
          exact fun heq => hfirst (heq ▸ List.mem_map_of_mem hother)
        rw [List.filter_cons_of_neg (by simp), hkept]
      · have hne : key first ≠ key item :=
          fun heq => hfirst (heq ▸ List.mem_map_of_mem hlater)
        rw [List.filter_cons_of_pos (by simpa using hne)]
        exact ((ih hrest hlater).cons first).trans (List.Perm.swap _ _ _)

namespace ServerState

variable {s s' : ServerState} {e : Exec}

/-- The accounts of a state. -/
def Balanced (s : ServerState) : Prop :=
  Ledger s.activeConnections s.connections (uncountedIds s.execs) (unsubtractedIds s.execs)
    (pendingCount s.execs)

theorem Balanced.perm_others {conn : ConnRef} {fd : Nat} (hbalanced : Balanced s)
    (hfind : s.find fd = some conn) : s.connections.Perm (conn :: s.others fd) := by
  obtain ⟨hmem, rfl⟩ := mem_of_find hfind
  exact perm_cons_filter_ne hbalanced.keys hmem

theorem pendingCount_erase (hmem : e ∈ s.execs) :
    pendingCount s.execs = pendingCount (s.execs.erase e) + e.pc.pending.toNat := by
  rw [← pendingCount_cons]
  exact (List.perm_cons_erase hmem).countP_eq _

/-- The part of one execution in the accounts. -/
theorem Balanced.split (hbalanced : Balanced s) (hmem : e ∈ s.execs) :
    Ledger s.activeConnections s.connections
      ((e.pc.uncounted?.map ConnRef.id).toList ++ uncountedIds (s.execs.erase e))
      ((e.unsubtracted?.map ConnRef.id).toList ++ unsubtractedIds (s.execs.erase e))
      (pendingCount (s.execs.erase e) + e.pc.pending.toNat) := by
  have hpending := pendingCount_erase hmem
  have hroom := hbalanced.room
  exact (hbalanced.perm (filterMap_perm_erase _ hmem) (filterMap_perm_erase _ hmem)).withPending
    (by omega)

/-- The accounts with one execution in front. -/
theorem ledger_cons {active : Nat} {connections : List ConnRef} {rest : List Exec}
    (hledger : Ledger active connections
      ((e.pc.uncounted?.map ConnRef.id).toList ++ uncountedIds rest)
      ((e.unsubtracted?.map ConnRef.id).toList ++ unsubtractedIds rest)
      (pendingCount rest + e.pc.pending.toNat)) :
    Ledger active connections (uncountedIds (e :: rest)) (unsubtractedIds (e :: rest))
      (pendingCount (e :: rest)) := by
  rw [uncountedIds_cons, unsubtractedIds_cons, pendingCount_cons]
  exact hledger

/-- An execution moves without touching the accounts. -/
theorem Balanced.move {e' : Exec} (hbalanced : Balanced s) (hmem : e ∈ s.execs)
    (huncounted : e'.pc.uncounted? = e.pc.uncounted?)
    (hunsubtracted : e'.unsubtracted? = e.unsubtracted?)
    (hpending : e'.pc.pending = true → e.pc.pending = true) :
    Balanced { s with execs := e' :: s.execs.erase e } := by
  have hsplit := hbalanced.split hmem
  have hroom := hsplit.room
  have hless : e'.pc.pending.toNat ≤ e.pc.pending.toNat := by
    cases hmine : e'.pc.pending with
    | false => simp
    | true => simp [hpending hmine]
  apply ledger_cons
  rw [huncounted, hunsubtracted]
  exact hsplit.withPending (by omega)

/-- An execution that stands for nothing starts. -/
theorem Balanced.start (hbalanced : Balanced s) (huncounted : e.pc.uncounted? = none)
    (hunsubtracted : e.unsubtracted? = none) (hpending : e.pc.pending = false) :
    Balanced { s with execs := e :: s.execs } := by
  apply ledger_cons
  rw [huncounted, hunsubtracted, hpending]
  exact hbalanced

/-- The slots are respected: the capacity check counts everybody who has passed
it, a connection is subtracted only after it has been counted, a roll back finds
its connection in the map, a new connection takes nobody's key, and the final
cleanup waits for the end of the loop. -/
def slotsRespected (s : ServerState) : ServerAction → Prop
  | .advance e .proceed =>
      match e.pc with
      | .loading => s.activeConnections < maxTotalConnections →
          s.activeConnections + pendingCount s.execs < maxTotalConnections
      | .subtracting => ∀ conn ∈ e.removed.toList, conn.id ∉ uncountedIds s.execs
      | .inserting conn => s.find conn.fd = none
      | .undoErase conn => conn ∈ s.connections
      | _ => True
  | .cleanup => s.loop = .stopped
  | _ => True

instance : ∀ s action, Decidable (slotsRespected s action) := by
  intro s action
  unfold slotsRespected
  split
  · split <;> infer_instance
  · infer_instance
  · infer_instance

theorem find_eq_none {fd : Nat} (hfind : s.find fd = none) :
    fd ∉ s.connections.map ConnRef.fd := by
  intro hmem
  obtain ⟨conn, hconn, hfd⟩ := List.mem_map.mp hmem
  have hnot := List.find?_eq_none.mp hfind conn hconn
  simp [hfd] at hnot

theorem others_eq_self {fd : Nat} (hfind : s.find fd = none) : s.others fd = s.connections := by
  rw [others, List.filter_eq_self]
  intro conn hconn
  have hnot := List.find?_eq_none.mp hfind conn hconn
  simpa using hnot

/-- A connection that is being inserted is not among the uncounted ones. -/
theorem Separate.not_uncounted (hseparate : Separate s) (hmem : e ∈ s.execs) {conn : ConnRef}
    (hpc : e.pc = .inserting conn) : conn.id ∉ uncountedIds (s.execs.erase e) := by
  intro hid
  obtain ⟨other, hother, huncounted⟩ := List.mem_filterMap.mp hid
  rw [Option.map_eq_some_iff] at huncounted
  obtain ⟨c, hc, hsame⟩ := huncounted
  have hshared : c ∈ other.shares := by
    refine List.mem_append_right _ (Option.mem_toList.mpr ?_)
    cases hpc' : other.pc <;> simp_all [Pc.uncounted?]
  have hapart := (hseparate.apart.inExecs other (List.mem_of_mem_erase hother) c hshared).1
  apply hapart
  show c.id ∈ privateIds s.execs
  rw [hsame]
  exact List.mem_filterMap.mpr ⟨e, hmem, by simp [hpc]⟩

theorem uncountedIds_erase {id : Nat} (hid : id ∈ uncountedIds (s.execs.erase e)) :
    id ∈ uncountedIds s.execs := by
  obtain ⟨other, hother, hpc⟩ := List.mem_filterMap.mp hid
  exact List.mem_filterMap.mpr ⟨other, List.mem_of_mem_erase hother, hpc⟩

/-- One entry of the accounts for each place of the code. -/
theorem balanced_advance {outcome : Outcome} (hbalanced : Balanced s) (hmem : e ∈ s.execs)
    (hnew : ∀ conn, e.pc = .inserting conn → conn.id ∉ uncountedIds (s.execs.erase e))
    (hrespected : slotsRespected s (.advance e outcome))
    (hadvances : Advances s e outcome s') : Balanced s' := by
  have hsplit := hbalanced.split hmem
  have hroom := hsplit.room
  cases hadvances with
  | erased target conn hpc hfind =>
      simp only [hpc, Exec.unsubtracted?, Pc.uncounted?, Pc.pending, Option.map_none,
        Option.toList_none, List.nil_append] at hsplit
      exact ledger_cons (hsplit.erase (hbalanced.perm_others hfind))
  | subtracted conn hpc hremoved =>
      have hcounted : conn.id ∉ uncountedIds (s.execs.erase e) := by
        simp only [slotsRespected, hpc, hremoved] at hrespected
        exact fun hid => hrespected conn (by simp) (uncountedIds_erase hid)
      simp only [hpc, hremoved, Exec.unsubtracted?, Pc.uncounted?, Pc.pending, Option.map_none,
        Option.map_some, Option.toList_none, Option.toList_some, List.nil_append,
        List.singleton_append] at hsplit
      exact ledger_cons (hsplit.subtract hcounted)
  | unregistered conn hpc hremoved =>
      simp only [unregister]
      split <;> exact hbalanced.move hmem (by simp [hpc, Pc.uncounted?])
        (by simp [Exec.unsubtracted?, hpc]) (by simp [Pc.pending])
  | passed hpc hloop hfree =>
      simp only [slotsRespected, hpc] at hrespected
      have hpending := pendingCount_erase hmem
      have hmore := hrespected hfree
      simp only [hpc, Exec.unsubtracted?, Pc.uncounted?, Pc.pending, Option.map_none,
        Option.toList_none, List.nil_append, Bool.toNat_false] at hsplit hpending
      apply ledger_cons
      exact hsplit.withPending (by simp only [Pc.pending, Bool.toNat_true]; omega)
  | acquired conn hpc =>
      have hgo : Balanced (s.goTo e
          (if (PerIpConnectionLimiter.tryAcquire s.counts conn.ip).2 then .inserting conn
            else .rejecting conn)) := by
        split <;> exact hbalanced.move hmem (by simp [hpc, Pc.uncounted?])
          (by simp [Exec.unsubtracted?, hpc]) (by simp [hpc, Pc.pending])
      exact hgo
  | inserted conn hpc =>
      simp only [slotsRespected, hpc] at hrespected
      simp only [hpc, Exec.unsubtracted?, Pc.uncounted?, Pc.pending, Option.map_none,
        Option.toList_none, List.nil_append] at hsplit
      have hinserted := hsplit.insert (find_eq_none hrespected) (hnew conn hpc)
      rw [← others_eq_self hrespected] at hinserted
      exact ledger_cons hinserted
  | counted conn hpc =>
      simp only [hpc, Exec.unsubtracted?, Pc.uncounted?, Pc.pending, Option.map_none,
        Option.map_some, Option.toList_none, Option.toList_some, List.nil_append,
        List.singleton_append, Bool.toNat_true] at hsplit
      exact ledger_cons hsplit.count
  | undoErased conn hpc =>
      simp only [slotsRespected, hpc] at hrespected
      simp only [hpc, Exec.unsubtracted?, Pc.uncounted?, Pc.pending, Option.map_none,
        Option.map_some, Option.toList_none, Option.toList_some, List.nil_append,
        List.singleton_append, Bool.toNat_true] at hsplit hroom
      have hundone := hsplit.undo (perm_cons_filter_ne hbalanced.keys hrespected)
      exact ledger_cons (hundone.withPending (by simp only [Pc.pending, Bool.toNat_false]; omega))
  | returned hpc =>
      simp only [hpc, Exec.unsubtracted?, Pc.uncounted?, Pc.pending, Option.map_none,
        Option.toList_none, List.nil_append, Bool.toNat_false, Nat.add_zero] at hsplit
      exact hsplit
  | _ =>
      -- the other places leave the accounts as they are
      exact hbalanced.move hmem (by simp [Pc.uncounted?, *]) (by simp [Exec.unsubtracted?, *])
        (by simp [Pc.pending, *])

theorem balanced_step {action : ServerAction} (hbalanced : Balanced s) (hseparate : Separate s)
    (hrespected : slotsRespected s action) (hopen : action ≠ .cleanup)
    (hsteps : Steps s action s') : Balanced s' := by
  cases hsteps with
  | advance e outcome _ hmem hadvances =>
      exact balanced_advance hbalanced hmem (fun conn hpc => hseparate.not_uncounted hmem hpc)
        hrespected hadvances
  | dispatchAccept rest hfetched hfree hloop => exact hbalanced.start rfl rfl rfl
  | dispatchHangUp target rest hfetched hfree => exact hbalanced.start rfl rfl rfl
  | removeIdle first rest hidle hfree => exact hbalanced.start rfl rfl rfl
  | remove task hmem => exact hbalanced.start rfl rfl rfl
  | cleanup hwaiting => exact absurd rfl hopen
  | _ => exact hbalanced

/-- Whoever is in the map without being counted has passed the capacity check. -/
theorem uncountedIds_length_le (execs : List Exec) :
    (uncountedIds execs).length ≤ pendingCount execs := by
  rw [uncountedIds, List.length_filterMap_eq_countP]
  apply List.countP_mono_left
  intro e _ huncounted
  cases hpc : e.pc <;> simp_all [Pc.uncounted?, Pc.pending]

/-- The accounts are kept until the loop has stopped. -/
def InRange (s : ServerState) : Prop := Separate s ∧ (s.loop ≠ .stopped → Balanced s)

theorem loop_of_steps {action : ServerAction} (hsteps : Steps s action s') :
    s'.loop ≠ .stopped → s.loop ≠ .stopped := by
  cases hsteps with
  | advance e outcome _ hmem hadvances =>
      cases hadvances with
      | unregistered conn hpc hremoved =>
          simp only [unregister]
          split <;> exact id
      | _ => exact id
  | stop hloop => simp [hloop]
  | finishStopping => simp
  | _ => exact id

theorem inRange_step (s : ServerState) (action : ServerAction) (s' : ServerState)
    (hinRange : InRange s) (hrespected : slotsRespected s action)
    (hstep : s.step action = some s') : InRange s' := by
  have hsteps := steps_of_step hstep
  refine ⟨separate_step hinRange.1 hsteps, fun hopen => ?_⟩
  have hbefore := loop_of_steps hsteps hopen
  refine balanced_step (hinRange.2 hbefore) hinRange.1 hrespected ?_ hsteps
  rintro rfl
  exact hbefore hrespected

/-- While the loop runs, the counter and the map stay within the limit, in every
run where the slots are respected. -/
theorem activeConnections_inRange {actions : List ServerAction}
    (hguarded : Guarded step slotsRespected {} actions) (hrun : run step {} actions = some s)
    (hloop : s.loop = .running) :
    s.activeConnections ≤ maxTotalConnections ∧
      s.connections.length ≤ maxTotalConnections ∧
      (s.connections.filter fun conn => conn ∈ s.registered).length ≤ maxTotalConnections := by
  have hstart : InRange {} := by
    refine ⟨⟨?_, List.nodup_nil⟩, fun _ => ?_⟩
    · constructor <;> simp
    · constructor <;> simp [uncountedIds, unsubtractedIds, pendingCount]
  have hbalanced := (GuardedRun.invariant inRange_step hstart hguarded hrun).2 (by simp [hloop])
  have hroom := hbalanced.room
  have hlength := hbalanced.length_le (uncountedIds_length_le s.execs)
  exact ⟨by omega, hlength, (List.length_filter_le _ _).trans hlength⟩

/-- A worker removes one client and accepts another, which hangs up. -/
def acceptedByWorker (counted : Bool) : List ServerAction :=
  let first : ConnRef := { id := 0, fd := 5, ip := [1] }
  let second : ConnRef := { id := 1, fd := 6, ip := [2] }
  let worker : Exec := { task := some first, removed := some first, pc := .unregistering }
  acceptsClient first ++
    [.fetch [.readable first.target], .dispatch, .remove { conn := first, reading := true }] ++
    subtractsClient { worker with removed := none } first ++
    [.arrive, .advance worker .proceed] ++ registersClient worker second ++
    (if counted then [.advance { worker with pc := .counting second } .proceed] else []) ++
    [.fetch [.hangUp second.target], .dispatch] ++ subtractsClient { pc := .loading } second

theorem activeConnections_inRange_counted :
    ∃ s, run step {} (acceptedByWorker true) = some s ∧ s.loop = .running ∧
      s.activeConnections ≤ maxTotalConnections := by
  obtain ⟨s, hrun, hloop⟩ := @exists_reached _ _ step {} (acceptedByWorker true)
    (fun s => s.loop = .running) _ (by decide +kernel)
  have hguarded : Guarded step slotsRespected {} (acceptedByWorker true) := by decide +kernel
  exact ⟨s, hrun, hloop, (activeConnections_inRange hguarded hrun hloop).1⟩

/-- The hang-up is handled before the worker has counted its client. -/
theorem activeConnections_wraps :
    ∃ s, run step {} (acceptedByWorker false) = some s ∧ s.loop = .running ∧
      s.activeConnections = sizeBound - 1 ∧ ¬ s.activeConnections ≤ maxTotalConnections :=
  exists_reached (by decide +kernel)

end ServerState

end HttpServer
