/-
Handlers run one after another: the counter, the map and the per-address counts
agree after each of them.
-/
import HttpServer.AdmissionCounter

namespace HttpServer

open GuardedRun PerIpConnectionLimiter

/-- One for an address. -/
def one (ip other : Bytes) : ℤ := if other = ip then 1 else 0

@[simp] theorem one_self (ip : Bytes) : one ip ip = 1 := by simp [one]

/-- The entries of the map with an address. -/
def mapCount (connections : List ConnRef) (ip : Bytes) : ℤ :=
  connections.countP fun conn => conn.ip = ip

theorem mapCount_cons (conn : ConnRef) (connections : List ConnRef) (ip : Bytes) :
    mapCount (conn :: connections) ip = mapCount connections ip + one conn.ip ip := by
  by_cases hip : conn.ip = ip
  · simp [mapCount, one, hip]
  · simp [mapCount, one, hip, Ne.symm hip]

theorem mapCount_nonneg (connections : List ConnRef) (ip : Bytes) :
    0 ≤ mapCount connections ip :=
  Int.natCast_nonneg _

/-- The per-address counts against the map and what is under way. -/
structure IpAccounts (counts : Bytes → Option ℤ) (connections : List ConnRef)
    (owed : Bytes → ℤ) : Prop where
  entry : ∀ ip, (counts ip).getD 0 = mapCount connections ip + owed ip
  range : ∀ ip count, counts ip = some count → 0 < count ∧ count ≤ maxPerIp

namespace IpAccounts

variable {counts : Bytes → Option ℤ} {connections left : List ConnRef} {owed owed' : Bytes → ℤ}
  {conn : ConnRef} {ip : Bytes}

theorem congr (haccounts : IpAccounts counts connections owed)
    (howed : ∀ ip, owed' ip = owed ip) : IpAccounts counts connections owed' where
  entry ip := by rw [howed, haccounts.entry]
  range := haccounts.range

/-- One entry of the counts changes. -/
theorem update {value : Option ℤ} {change : ℤ}
    (haccounts : IpAccounts counts connections owed)
    (hvalue : value.getD 0 = (counts ip).getD 0 + change)
    (hrange : ∀ count, value = some count → 0 < count ∧ count ≤ maxPerIp) :
    IpAccounts (Function.update counts ip value) connections
      (fun other => owed other + change * one ip other) where
  entry other := by
    by_cases hip : other = ip
    · subst hip
      rw [Function.update_self, hvalue, haccounts.entry, one_self]
      omega
    · rw [Function.update_of_ne hip, haccounts.entry, one, if_neg hip]
      omega
  range other count hcount := by
    by_cases hip : other = ip
    · subst hip
      rw [Function.update_self] at hcount
      exact hrange count hcount
    · rw [Function.update_of_ne hip] at hcount
      exact haccounts.range other count hcount

theorem acquire (haccounts : IpAccounts counts connections owed)
    (hacquired : (tryAcquire counts ip).2 = true) :
    IpAccounts (tryAcquire counts ip).1 connections
      (fun other => owed other + 1 * one ip other) := by
  have hbefore : 0 ≤ (counts ip).getD 0 := by
    cases hvalue : counts ip with
    | none => simp
    | some value => simpa using (haccounts.range ip value hvalue).1.le
  simp only [tryAcquire] at hacquired ⊢
  split at hacquired
  · contradiction
  · next hroom =>
      rw [if_neg hroom]
      refine haccounts.update rfl ?_
      intro count hcount
      obtain rfl := Option.some.inj hcount
      omega

/-- A refusal leaves no entry behind. -/
theorem refuse (haccounts : IpAccounts counts connections owed)
    (hrefused : (tryAcquire counts ip).2 = false) :
    IpAccounts (tryAcquire counts ip).1 connections owed := by
  have hsame : (tryAcquire counts ip).1 = counts := by
    simp only [tryAcquire] at hrefused ⊢
    split at hrefused
    · next hfull =>
        rw [if_pos hfull]
        cases hcount : counts ip with
        | none => simp [hcount, maxPerIp] at hfull
        | some count => rw [Option.getD_some, ← hcount, Function.update_eq_self]
    · contradiction
  rw [hsame]
  exact haccounts

theorem release (haccounts : IpAccounts counts connections owed)
    (hheld : 0 < mapCount connections ip + owed ip) :
    IpAccounts (release counts ip) connections
      (fun other => owed other + -1 * one ip other) := by
  have hentry := haccounts.entry ip
  cases hcount : counts ip with
  | none =>
      rw [hcount, Option.getD_none] at hentry
      omega
  | some count =>
      rw [hcount, Option.getD_some] at hentry
      have hrange := haccounts.range ip count hcount
      simp only [PerIpConnectionLimiter.release, hcount]
      split
      · refine haccounts.update ?_ (by simp)
        rw [hcount, Option.getD_some, Option.getD_none]
        omega
      · refine haccounts.update ?_ ?_
        · rw [hcount, Option.getD_some, Option.getD_some]
          omega
        · intro value hvalue
          obtain rfl := Option.some.inj hvalue
          omega

theorem insert (haccounts : IpAccounts counts connections owed) :
    IpAccounts counts (conn :: connections) (fun other => owed other - one conn.ip other) where
  entry other := by
    rw [haccounts.entry, mapCount_cons]
    omega
  range := haccounts.range

theorem erase (haccounts : IpAccounts counts connections owed)
    (hmap : connections.Perm (conn :: left)) :
    IpAccounts counts left (fun other => owed other + one conn.ip other) where
  entry other := by
    have hcount : mapCount connections other = mapCount (conn :: left) other := by
      rw [mapCount, mapCount, hmap.countP_eq]
    rw [haccounts.entry, hcount, mapCount_cons]
    omega
  range := haccounts.range

/-- Releasing every entry of the map leaves nothing. -/
theorem releaseAll : ∀ {connections : List ConnRef} {counts : Bytes → Option ℤ},
    IpAccounts counts connections (fun _ => 0) →
      IpAccounts (connections.foldl
        (fun counts conn => PerIpConnectionLimiter.release counts conn.ip) counts) []
        (fun _ => 0) := by
  intro connections
  induction connections with
  | nil => exact fun haccounts => haccounts
  | cons conn connections ih =>
      intro counts haccounts
      have hheld : 0 < mapCount (conn :: connections) conn.ip + 0 := by
        have hnonneg := mapCount_nonneg connections conn.ip
        rw [mapCount_cons, one_self]
        omega
      have hreleased := (haccounts.release hheld).erase (List.Perm.refl _)
      exact ih (hreleased.congr fun ip => by omega)

end IpAccounts

/-- What an execution has acquired or released ahead of the map. -/
def Exec.owed (e : Exec) (ip : Bytes) : ℤ :=
  match e.pc, e.removed with
  | .inserting conn, _ => one conn.ip ip
  | .releasing, some conn => one conn.ip ip
  | .undoErase conn, _ => -one conn.ip ip
  | _, _ => 0

def owedBy (execs : List Exec) (ip : Bytes) : ℤ := (execs.map fun e => e.owed ip).sum

namespace ServerState

variable {s s' : ServerState} {e : Exec}

/-- Where `handle_accept` expects its client. -/
def Placed (s : ServerState) (e : Exec) : Prop :=
  match e.pc with
  | .acquiring conn | .rejecting conn | .inserting conn => s.find conn.fd = none
  | .adding conn | .counting conn | .undoRelease conn | .undoErase conn =>
      conn ∈ s.connections
  | _ => True

/-- At most one handler is under way, and the three stores agree up to what it has
done so far. -/
structure Accounted (s : ServerState) : Prop where
  balanced : Balanced s
  single : s.execs.length ≤ 1
  placed : ∀ e ∈ s.execs, Placed s e
  accounts : IpAccounts s.counts s.connections (owedBy s.execs)

namespace Accounted

theorem execs_eq (haccounted : Accounted s) (hmem : e ∈ s.execs) : s.execs = [e] := by
  have hsingle := haccounted.single
  cases hexecs : s.execs with
  | nil => simp [hexecs] at hmem
  | cons first rest =>
      rw [hexecs] at hsingle hmem
      have hrest : rest = [] := by simpa using hsingle
      subst hrest
      rw [List.mem_singleton.mp hmem]

theorem erase_eq (haccounted : Accounted s) (hmem : e ∈ s.execs) : s.execs.erase e = [] := by
  simp [haccounted.execs_eq hmem]

/-- A handler on its own respects the slots. -/
theorem slotsRespected (haccounted : Accounted s) (hmem : e ∈ s.execs) (outcome : Outcome) :
    s.slotsRespected (.advance e outcome) := by
  have hexecs := haccounted.execs_eq hmem
  have hplaced := haccounted.placed e hmem
  cases outcome with
  | proceed =>
      cases hpc : e.pc with
      | loading =>
          simp only [ServerState.slotsRespected, hpc]
          intro hroom
          simpa [hexecs, pendingCount, hpc, Pc.pending] using hroom
      | subtracting =>
          simp [ServerState.slotsRespected, hexecs, uncountedIds, hpc, Pc.uncounted?]
      | inserting conn =>
          simp only [ServerState.slotsRespected, Placed, hpc] at hplaced ⊢
          exact hplaced
      | undoErase conn =>
          simp only [ServerState.slotsRespected, Placed, hpc] at hplaced ⊢
          exact hplaced
      | _ => simp [ServerState.slotsRespected, hpc]
  | _ => exact trivial

/-- Only the stores and the handler matter. -/
theorem congr (haccounted : Accounted s) (hactive : s'.activeConnections = s.activeConnections)
    (hconnections : s'.connections = s.connections) (hcounts : s'.counts = s.counts)
    (hexecs : s'.execs = s.execs) : Accounted s' where
  balanced := by
    rw [Balanced, hactive, hconnections, hexecs]
    exact haccounted.balanced
  single := by
    rw [hexecs]
    exact haccounted.single
  placed e hmem := by
    have hplaced := haccounted.placed e (hexecs ▸ hmem)
    simpa only [Placed, find, hconnections] using hplaced
  accounts := by
    rw [hcounts, hconnections, hexecs]
    exact haccounted.accounts

/-- The handler moves on without touching the stores. -/
theorem move {e' : Exec} (haccounted : Accounted s) (hmem : e ∈ s.execs)
    (huncounted : e'.pc.uncounted? = e.pc.uncounted?)
    (hunsubtracted : e'.unsubtracted? = e.unsubtracted?)
    (hpending : e'.pc.pending = true → e.pc.pending = true)
    (hplaced : Placed s e') (howed : ∀ ip, e'.owed ip = e.owed ip) :
    Accounted { s with execs := e' :: s.execs.erase e } where
  balanced := haccounted.balanced.move hmem huncounted hunsubtracted hpending
  single := by simp [haccounted.erase_eq hmem]
  placed other hother := by
    rw [haccounted.erase_eq hmem] at hother
    rw [List.mem_singleton.mp hother]
    exact hplaced
  accounts := haccounted.accounts.congr fun ip => by
    simp [owedBy, haccounted.execs_eq hmem, howed]

/-- `remove_connection` or `handle_accept` starts. -/
theorem start (haccounted : Accounted s) (hidle : s.execs = []) (e : Exec)
    (hfirst : e.pc = .loading ∨ ∃ target, e.pc = .removing target) :
    Accounted { s with execs := e :: s.execs } := by
  have hquiet : e.pc.uncounted? = none ∧ e.unsubtracted? = none ∧ e.pc.pending = false ∧
      Placed s e ∧ ∀ ip, e.owed ip = 0 := by
    obtain hpc | ⟨target, hpc⟩ := hfirst
    all_goals simp [Exec.unsubtracted?, Placed, Exec.owed, hpc, Pc.uncounted?, Pc.pending]
  obtain ⟨huncounted, hunsubtracted, hpending, hplaced, howed⟩ := hquiet
  refine ⟨haccounted.balanced.start huncounted hunsubtracted hpending, by simp [hidle], ?_, ?_⟩
  · intro other hother
    rw [hidle] at hother
    rw [List.mem_singleton.mp hother]
    exact hplaced
  · exact haccounted.accounts.congr fun ip => by simp [owedBy, hidle, howed]

end Accounted

/-- A handler on its own stays on its own. -/
theorem single_advance {outcome : Outcome} (haccounted : Accounted s) (hmem : e ∈ s.execs)
    (hadvances : Advances s e outcome s') : s'.execs.length ≤ 1 := by
  have herase := haccounted.erase_eq hmem
  have hone : ∀ e' : Exec, (e' :: s.execs.erase e).length ≤ 1 := by simp [herase]
  cases hadvances with
  | unregistered conn hpc hremoved =>
      simp only [unregister]
      split <;> exact hone _
  | returned hpc =>
      show (s.execs.erase e).length ≤ 1
      simp [herase]
  | _ => exact hone _

theorem placed_advance {outcome : Outcome} (haccounted : Accounted s) (hmem : e ∈ s.execs)
    (hkey : ∀ fd ip, outcome = .client fd ip → s.find fd = none)
    (hadvances : Advances s e outcome s') : ∀ e' ∈ s'.execs, Placed s' e' := by
  have herase := haccounted.erase_eq hmem
  have hone : ∀ {e' : Exec}, Placed s' e' → ∀ other ∈ e' :: s.execs.erase e, Placed s' other := by
    intro e' hplaced
    simpa [herase] using hplaced
  have hplaced := haccounted.placed e hmem
  cases hadvances with
  | accepted fd ip hpc hbacklog howner => exact hone (hkey fd ip rfl)
  | acquired conn hpc =>
      simp only [Placed, hpc] at hplaced
      refine hone ?_
      cases (tryAcquire s.counts conn.ip).2 <;> exact hplaced
  | inserted conn hpc => exact hone List.mem_cons_self
  | added conn hpc hopen =>
      simp only [Placed, hpc] at hplaced
      exact hone hplaced
  | addFailed conn hpc =>
      simp only [Placed, hpc] at hplaced
      exact hone hplaced
  | undoReleased conn hpc =>
      simp only [Placed, hpc] at hplaced
      exact hone hplaced
  | unregistered conn hpc hremoved =>
      intro other hother
      simp only [unregister] at hother
      split at hother
      · have heq : other = { e with pc := .loading } := by simpa [goTo, herase] using hother
        simp [Placed, heq]
      · have heq : other = { e with removed := none, pc := .done } := by
          simpa [leaveAccept, drop, closeFd, herase] using hother
        simp [Placed, heq]
  | returned hpc =>
      intro other hother
      have hnone : other ∈ s.execs.erase e := hother
      simp [herase] at hnone
  | _ => exact hone trivial

/-- One entry of the per-address accounts for each place of the code. -/
theorem accounts_advance {outcome : Outcome} (haccounted : Accounted s) (hmem : e ∈ s.execs)
    (hadvances : Advances s e outcome s') :
    IpAccounts s'.counts s'.connections (owedBy s'.execs) := by
  have herase := haccounted.erase_eq hmem
  have hplaced := haccounted.placed e hmem
  have hbefore : IpAccounts s.counts s.connections e.owed :=
    haccounted.accounts.congr fun ip => by simp [owedBy, haccounted.execs_eq hmem]
  have hafter : ∀ {counts connections} {e' : Exec}, IpAccounts counts connections e'.owed →
      IpAccounts counts connections (owedBy (e' :: s.execs.erase e)) := by
    intro counts connections e' haccounts
    exact haccounts.congr fun ip => by simp [owedBy, herase]
  have hquiet : ∀ {e' : Exec}, (∀ ip, e.owed ip = 0) → (∀ ip, e'.owed ip = 0) →
      IpAccounts s.counts s.connections (owedBy (e' :: s.execs.erase e)) :=
    fun hnone hnone' => hafter (hbefore.congr fun ip => (hnone' ip).trans (hnone ip).symm)
  cases hadvances with
  | erased target conn hpc hfind =>
      have herased := hbefore.erase (haccounted.balanced.perm_others hfind)
      exact hafter (herased.congr fun ip => by simp [Exec.owed, hpc])
  | released conn hpc hremoved =>
      have hheld : 0 < mapCount s.connections conn.ip + e.owed conn.ip := by
        have hnonneg := mapCount_nonneg s.connections conn.ip
        simp only [Exec.owed, hpc, hremoved, one_self]
        omega
      exact hafter ((hbefore.release hheld).congr fun ip => by simp [Exec.owed, hpc, hremoved])
  | unregistered conn hpc hremoved =>
      simp only [unregister]
      split <;> exact hquiet (by simp [Exec.owed, hpc]) (by simp [Exec.owed])
  | acquired conn hpc =>
      cases hacquired : (tryAcquire s.counts conn.ip).2 with
      | true =>
          simp only [ServerState.acquire, goTo, hacquired, if_true]
          exact hafter ((hbefore.acquire hacquired).congr fun ip => by simp [Exec.owed, hpc])
      | false =>
          simp only [ServerState.acquire, goTo, hacquired]
          exact hafter ((hbefore.refuse hacquired).congr fun ip => by simp [Exec.owed, hpc])
  | inserted conn hpc =>
      simp only [Placed, hpc] at hplaced
      have hinserted : IpAccounts s.counts (conn :: s.others conn.fd)
          (fun ip => e.owed ip - one conn.ip ip) := by
        rw [others_eq_self hplaced]
        exact hbefore.insert
      exact hafter (hinserted.congr fun ip => by simp [Exec.owed, hpc])
  | undoReleased conn hpc =>
      simp only [Placed, hpc] at hplaced
      have hheld : 0 < mapCount s.connections conn.ip + e.owed conn.ip := by
        simp only [Exec.owed, hpc, add_zero, mapCount, Nat.cast_pos, List.countP_pos_iff]
        exact ⟨conn, hplaced, by simp⟩
      exact hafter ((hbefore.release hheld).congr fun ip => by simp [Exec.owed, hpc])
  | undoErased conn hpc =>
      simp only [Placed, hpc] at hplaced
      have herased := hbefore.erase (perm_cons_filter_ne haccounted.balanced.keys hplaced)
      exact hafter (herased.congr fun ip => by simp [Exec.owed, hpc])
  | returned hpc =>
      show IpAccounts s.counts s.connections (owedBy (s.execs.erase e))
      rw [herase]
      exact hbefore.congr fun ip => by simp [Exec.owed, hpc, owedBy]
  | _ => exact hquiet (by simp [Exec.owed, *]) (by simp [Exec.owed])

theorem accounted_advance {outcome : Outcome} (haccounted : Accounted s) (hmem : e ∈ s.execs)
    (hkey : ∀ fd ip, outcome = .client fd ip → s.find fd = none)
    (hadvances : Advances s e outcome s') : Accounted s' where
  balanced := by
    refine balanced_advance haccounted.balanced hmem ?_ (haccounted.slotsRespected hmem outcome)
      hadvances
    simp [haccounted.erase_eq hmem, uncountedIds]
  single := single_advance haccounted hmem hadvances
  placed := placed_advance haccounted hmem hkey hadvances
  accounts := accounts_advance haccounted hmem hadvances

theorem foldl_fetchSub : ∀ connections : List ConnRef,
    connections.foldl (fun count _ => fetchSub count) connections.length = 0 := by
  intro connections
  induction connections with
  | nil => rfl
  | cons conn connections ih => simpa [fetchSub] using ih

/-- `cleanup_all_connections` between two handlers clears all three stores. -/
theorem accounted_cleanup (haccounted : Accounted s) (hidle : s.execs = []) :
    Accounted s.cleanupAllConnections := by
  have hbalance := haccounted.balanced.balance
  simp only [hidle, uncountedIds, unsubtractedIds, List.filterMap_nil, List.length_nil,
    Nat.add_zero] at hbalance
  have hcleared : s.cleanupAllConnections.activeConnections = 0 := by
    simp only [cleanupAllConnections, hbalance]
    exact foldl_fetchSub s.connections
  have haccounts : IpAccounts s.counts s.connections (fun _ => 0) :=
    haccounted.accounts.congr fun ip => by simp [owedBy, hidle]
  refine ⟨?_, haccounted.single, ?_, ?_⟩
  · rw [Balanced, hcleared]
    constructor <;>
      simp [cleanupAllConnections, hidle, uncountedIds, unsubtractedIds, pendingCount]
  · simp [cleanupAllConnections, hidle]
  · exact haccounts.releaseAll.congr fun ip => by
      simp [owedBy, cleanupAllConnections, hidle]

/-- What the other parts of the server do while no handler, or one handler, is
under way. -/
def betweenHandlers (s : ServerState) : ServerAction → Prop
  | .dispatch | .removeIdle | .remove _ | .cleanup => s.execs = []
  | .advance _ _ => False
  | _ => True

instance : ∀ s action, Decidable (betweenHandlers s action) := by
  intro s action
  unfold betweenHandlers
  split <;> infer_instance

theorem accounted_between {action : ServerAction} (haccounted : Accounted s)
    (hbetween : betweenHandlers s action) (hsteps : Steps s action s') : Accounted s' := by
  cases hsteps with
  | advance e outcome _ hmem hadvances => exact absurd hbetween id
  | dispatchAccept rest hfetched hfree hloop =>
      exact (haccounted.start hbetween _ (.inl rfl)).congr rfl rfl rfl rfl
  | dispatchHangUp target rest hfetched hfree =>
      exact (haccounted.start hbetween _ (.inr ⟨_, rfl⟩)).congr rfl rfl rfl rfl
  | removeIdle first rest hidle hfree =>
      exact (haccounted.start hbetween _ (.inr ⟨_, rfl⟩)).congr rfl rfl rfl rfl
  | remove task hmem =>
      exact (haccounted.start hbetween _ (.inr ⟨_, rfl⟩)).congr rfl rfl rfl rfl
  | cleanup hwaiting => exact accounted_cleanup haccounted hbetween
  | _ => exact haccounted.congr rfl rfl rfl rfl

section Handlers

/-- `advance` with a kernel that may answer anything. -/
def answer (s : ServerState) (e : Exec) : Outcome → Option ServerState
  | .client fd ip => if e.pc = .accepting then some (s.acceptClient e fd ip) else none
  | .wouldBlock => if e.pc = .accepting then some (s.leaveAccept e) else none
  | .added =>
      match e.pc with
      | .adding conn => some (s.registerClient e conn)
      | _ => none
  | outcome => s.advance e outcome

/-- Calls of the handlers one after another, each taken step by step. -/
inductive HandlerAction
  | handleAccept
  | removeConnection (target : Target)
  | cleanupAllConnections
  | answer (outcome : Outcome)
  | between (action : ServerAction)
deriving DecidableEq

def handlerStep (s : ServerState) : HandlerAction → Option ServerState
  | .handleAccept =>
      if s.execs = [] then some { s with execs := { pc := .loading } :: s.execs } else none
  | .removeConnection target =>
      if s.execs = [] then some { s with execs := { pc := .removing target } :: s.execs }
      else none
  | .cleanupAllConnections => if s.execs = [] then some s.cleanupAllConnections else none
  | .answer outcome =>
      match s.execs with
      | [e] => s.answer e outcome
      | _ => none
  | .between action => if betweenHandlers s action then s.step action else none

/-- `accept` returns no descriptor that is a key of the map. -/
def acceptsNoKey (s : ServerState) : HandlerAction → Prop
  | .answer (.client fd _) => s.find fd = none
  | _ => True

instance : ∀ s action, Decidable (acceptsNoKey s action) := by
  intro s action
  unfold acceptsNoKey
  split <;> infer_instance

theorem accounted_answer {outcome : Outcome} (haccounted : Accounted s) (hmem : e ∈ s.execs)
    (hkey : acceptsNoKey s (.answer outcome)) (hanswer : s.answer e outcome = some s') :
    Accounted s' := by
  have hplaced := haccounted.placed e hmem
  have hadvance : (∀ fd ip, outcome ≠ .client fd ip) → s.advance e outcome = some s' →
      Accounted s' := by
    intro hother hstep
    exact accounted_advance haccounted hmem (fun fd ip heq => absurd heq (hother fd ip))
      (advances_of_advance hstep)
  cases outcome with
  | client fd ip =>
      simp only [answer, Option.ite_none_right_eq_some] at hanswer
      obtain ⟨hpc, heq⟩ := hanswer
      obtain rfl := Option.some.inj heq
      have hmoved : Accounted (s.goTo e (.acquiring { id := s.nextId, fd := fd, ip := ip })) :=
        haccounted.move hmem (by rw [hpc]; rfl) (by simp [Exec.unsubtracted?, hpc])
          (by simp [hpc, Pc.pending]) hkey (by simp [Exec.owed, hpc])
      exact hmoved.congr rfl rfl rfl rfl
  | wouldBlock =>
      simp only [answer, Option.ite_none_right_eq_some] at hanswer
      obtain ⟨hpc, heq⟩ := hanswer
      obtain rfl := Option.some.inj heq
      exact accounted_advance haccounted hmem (by simp) (.failed hpc)
  | added =>
      simp only [answer] at hanswer
      split at hanswer
      · next conn hpc =>
          obtain rfl := Option.some.inj hanswer
          simp only [Placed, hpc] at hplaced
          have hmoved : Accounted (s.goTo e (.counting conn)) :=
            haccounted.move hmem (by rw [hpc]; rfl) (by simp [Exec.unsubtracted?, hpc])
              (by simp [hpc, Pc.pending]) hplaced (by simp [Exec.owed, hpc])
          exact hmoved.congr rfl rfl rfl rfl
      · contradiction
  | proceed => exact hadvance (by simp) hanswer
  | transient aborted => exact hadvance (by simp) hanswer
  | fatal => exact hadvance (by simp) hanswer
  | addFailed => exact hadvance (by simp) hanswer

theorem accounted_handlerStep (s : ServerState) (action : HandlerAction) (s' : ServerState)
    (haccounted : Accounted s) (hkey : acceptsNoKey s action)
    (hstep : s.handlerStep action = some s') : Accounted s' := by
  cases action with
  | handleAccept =>
      simp only [handlerStep, Option.ite_none_right_eq_some] at hstep
      obtain ⟨hidle, heq⟩ := hstep
      obtain rfl := Option.some.inj heq
      exact haccounted.start hidle _ (.inl rfl)
  | removeConnection target =>
      simp only [handlerStep, Option.ite_none_right_eq_some] at hstep
      obtain ⟨hidle, heq⟩ := hstep
      obtain rfl := Option.some.inj heq
      exact haccounted.start hidle _ (.inr ⟨target, rfl⟩)
  | cleanupAllConnections =>
      simp only [handlerStep, Option.ite_none_right_eq_some] at hstep
      obtain ⟨hidle, heq⟩ := hstep
      obtain rfl := Option.some.inj heq
      exact accounted_cleanup haccounted hidle
  | answer outcome =>
      simp only [handlerStep] at hstep
      split at hstep
      · next e hexecs => exact accounted_answer haccounted (by simp [hexecs]) hkey hstep
      · contradiction
  | between action =>
      simp only [handlerStep, Option.ite_none_right_eq_some] at hstep
      exact accounted_between haccounted hstep.1 (steps_of_step hstep.2)

/-- After each handler the counter is the size of the map, the count of an address
is the number of its entries, and both are within their limits. -/
theorem accounting_exact {actions : List HandlerAction}
    (hguarded : Guarded handlerStep acceptsNoKey {} actions)
    (hrun : run handlerStep {} actions = some s) (hreturned : s.execs = []) :
    s.activeConnections = s.connections.length ∧
      (∀ ip, s.counts ip = if mapCount s.connections ip = 0 then none
        else some (mapCount s.connections ip)) ∧
      (∀ ip, mapCount s.connections ip ≤ maxPerIp) ∧
      s.connections.length ≤ maxTotalConnections := by
  have hstart : Accounted {} := by
    refine ⟨?_, by simp, by simp, ?_⟩
    · constructor <;> simp [uncountedIds, unsubtractedIds, pendingCount]
    · constructor <;> simp [mapCount, owedBy]
  have haccounted := GuardedRun.invariant accounted_handlerStep hstart hguarded hrun
  have hbalance := haccounted.balanced.balance
  have hroom := haccounted.balanced.room
  simp only [hreturned, uncountedIds, unsubtractedIds, List.filterMap_nil, List.length_nil,
    Nat.add_zero] at hbalance
  have hentry : ∀ ip, (s.counts ip).getD 0 = mapCount s.connections ip := by
    intro ip
    rw [haccounted.accounts.entry ip, hreturned]
    simp [owedBy]
  refine ⟨hbalance, fun ip => ?_, fun ip => ?_, by omega⟩
  · rw [← hentry ip]
    cases hcount : s.counts ip with
    | none => simp
    | some count =>
        have hrange := haccounted.accounts.range ip count hcount
        rw [Option.getD_some, if_neg (by omega)]
  · rw [← hentry ip]
    cases hcount : s.counts ip with
    | none => simp [maxPerIp]
    | some count => exact (haccounted.accounts.range ip count hcount).2

/-- `handle_accept` keeps one client and rolls back a second one, and an absent
descriptor is removed. -/
def acceptedAndRolledBack : List HandlerAction :=
  [.handleAccept, .answer .proceed, .answer (.client 5 [1]), .answer .proceed,
    .answer .proceed, .answer .added, .answer .proceed, .answer .proceed, .answer .proceed,
    .answer (.client 6 [1]), .answer .proceed, .answer .proceed, .answer .addFailed,
    .answer .proceed, .answer .proceed, .answer .proceed, .answer .proceed, .answer .proceed,
    .answer .wouldBlock, .answer .proceed, .removeConnection { fd := 9, meant := 0 },
    .answer .proceed, .answer .proceed]

theorem accounting_exact_rolledBack :
    ∃ s, run handlerStep {} acceptedAndRolledBack = some s ∧ s.connections.length = 1 ∧
      s.activeConnections = s.connections.length := by
  obtain ⟨s, hrun, hreturned, hone⟩ := @exists_reached _ _ handlerStep {} acceptedAndRolledBack
    (fun s => s.execs = [] ∧ s.connections.length = 1) _ (by decide +kernel)
  have hguarded : Guarded handlerStep acceptsNoKey {} acceptedAndRolledBack := by
    decide +kernel
  exact ⟨s, hrun, hone, (accounting_exact hguarded hrun hreturned).1⟩

end Handlers

end ServerState

end HttpServer
