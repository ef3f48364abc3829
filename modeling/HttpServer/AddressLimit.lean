/-
The connections of one address, under every interleaving of acceptances and
removals.  The count of an address runs ahead of the map while a client is being
accepted or removed, and behind it while a failed registration is rolled back;
between the two it is exact.
-/
import HttpServer.ConnectionAccounting

namespace HttpServer

open GuardedRun PerIpConnectionLimiter

namespace Pc

/-- In the roll back of a failed registration, and still in the map. -/
def undoing? : Pc → Option ConnRef
  | undoRelease conn | undoErase conn => some conn
  | _ => none

/-- In the map, its slot given back. -/
def released? : Pc → Option ConnRef
  | undoErase conn => some conn
  | _ => none

end Pc

def undoing (execs : List Exec) : List ConnRef := execs.filterMap fun e => e.pc.undoing?

def releasedEarly (execs : List Exec) : List ConnRef :=
  execs.filterMap fun e => e.pc.released?

section Sublists

theorem filterMap_sublist {α β : Type} {f g : α → Option β}
    (himp : ∀ item value, f item = some value → g item = some value) (items : List α) :
    (items.filterMap f).Sublist (items.filterMap g) := by
  induction items with
  | nil => exact List.Sublist.slnil
  | cons item items ih =>
      cases hf : f item with
      | none =>
          rw [List.filterMap_cons_none hf]
          cases hg : g item with
          | none => rwa [List.filterMap_cons_none hg]
          | some value =>
              rw [List.filterMap_cons_some hg]
              exact ih.cons value
      | some value =>
          rw [List.filterMap_cons_some hf, List.filterMap_cons_some (himp item value hf)]
          exact ih.cons_cons value

theorem undoing_sublist (execs : List Exec) :
    ((undoing execs).map ConnRef.id).Sublist (uncountedIds execs) := by
  rw [undoing, List.map_filterMap, uncountedIds]
  apply filterMap_sublist
  intro e id hid
  cases hpc : e.pc <;> simp_all [Pc.undoing?, Pc.uncounted?]

theorem releasedEarly_sublist (execs : List Exec) :
    (releasedEarly execs).Sublist (undoing execs) := by
  apply filterMap_sublist
  intro e conn hconn
  cases hpc : e.pc <;> simp_all [Pc.undoing?, Pc.released?]

end Sublists

theorem owedBy_cons (e : Exec) (rest : List Exec) (ip : Bytes) :
    owedBy (e :: rest) ip = e.owed ip + owedBy rest ip := by
  simp [owedBy]

theorem owedBy_erase {execs : List Exec} {e : Exec} (hmem : e ∈ execs) (ip : Bytes) :
    owedBy execs ip = e.owed ip + owedBy (execs.erase e) ip := by
  rw [← owedBy_cons, owedBy, owedBy]
  exact ((List.perm_cons_erase hmem).map _).sum_eq

/-- Only a roll back makes the count fall behind. -/
theorem neg_released_le_owedBy (execs : List Exec) (ip : Bytes) :
    -((releasedEarly execs).countP fun conn => conn.ip = ip : ℕ) ≤ owedBy execs ip := by
  induction execs with
  | nil => simp [releasedEarly, owedBy]
  | cons e rest ih =>
      have hone : ∀ conn : ConnRef, 0 ≤ one conn.ip ip := by
        intro conn
        unfold one
        split <;> decide
      rw [owedBy_cons]
      cases hpc : e.pc with
      | undoErase conn =>
          have hreleased : releasedEarly (e :: rest) = conn :: releasedEarly rest := by
            simp [releasedEarly, hpc, Pc.released?]
          have howed : e.owed ip = -one conn.ip ip := by simp [Exec.owed, hpc]
          rw [hreleased, howed, List.countP_cons]
          by_cases hip : conn.ip = ip
          · simp only [hip, decide_true, if_true, one_self]
            omega
          · simp only [hip, decide_false, one, if_neg (Ne.symm hip)]
            simpa using ih
      | _ =>
          have hreleased : releasedEarly (e :: rest) = releasedEarly rest := by
            simp [releasedEarly, hpc, Pc.released?]
          have howed : 0 ≤ e.owed ip := by
            cases hremoved : e.removed <;> simp [Exec.owed, hpc, hremoved, hone]
          rw [hreleased]
          omega

namespace ServerState

variable {s s' : ServerState} {e : Exec}

/-- A removal leaves a client alone whose registration has failed and is being rolled
back, a failed registration finds its client in the map, a new client takes nobody's
key, and the final cleanup waits for roll backs. -/
def sparesUndoing (s : ServerState) : ServerAction → Prop
  | .advance e .proceed =>
      match e.pc with
      | .removing target => ∀ conn ∈ (s.find target.fd).toList, conn ∉ undoing s.execs
      | .inserting conn => s.find conn.fd = none
      | _ => True
  | .advance e .addFailed =>
      match e.pc with
      | .adding conn => conn ∈ s.connections
      | _ => True
  | .cleanup => undoing s.execs = []
  | _ => True

instance decidableSparesUndoing (s : ServerState) :
    ∀ action, Decidable (sparesUndoing s action)
  | .advance ⟨_, _, pc⟩ .proceed =>
      match pc with
      | .removing target =>
          inferInstanceAs (Decidable (∀ conn ∈ (s.find target.fd).toList, _))
      | .inserting conn => inferInstanceAs (Decidable (s.find conn.fd = none))
      | .releasing | .subtracting | .unregistering | .loading | .accepting | .acquiring _
      | .rejecting _ | .adding _ | .counting _ | .undoRelease _ | .undoErase _
      | .undoClose _ | .dropping _ | .done => isTrue trivial
  | .advance ⟨_, _, pc⟩ .addFailed =>
      match pc with
      | .adding conn => inferInstanceAs (Decidable (conn ∈ s.connections))
      | .removing _ | .releasing | .subtracting | .unregistering | .loading | .accepting
      | .acquiring _ | .rejecting _ | .inserting _ | .counting _ | .undoRelease _
      | .undoErase _ | .undoClose _ | .dropping _ | .done => isTrue trivial
  | .cleanup => inferInstanceAs (Decidable (undoing s.execs = []))
  | .advance _ (.client _ _) | .advance _ (.transient _) | .advance _ .wouldBlock
  | .advance _ .fatal | .advance _ .added | .arrive | .fetch _ | .dispatch | .collectIdle _
  | .removeIdle | .use _ | .finish _ | .remove _ | .resubmit _ | .runResubmitted _ | .stop
  | .closeListener | .finishStopping => isTrue trivial

/-- The counts agree with the map and with what is under way. -/
structure AddressesCounted (s : ServerState) : Prop where
  separate : Separate s
  keys : (s.connections.map ConnRef.fd).Nodup
  distinct : (uncountedIds s.execs).Nodup
  mapped : ∀ conn ∈ undoing s.execs, conn ∈ s.connections
  accounts : IpAccounts s.counts s.connections (owedBy s.execs)

namespace AddressesCounted

theorem start : AddressesCounted {} where
  separate := ⟨by constructor <;> simp, List.nodup_nil⟩
  keys := List.nodup_nil
  distinct := List.nodup_nil
  mapped := nofun
  accounts := ⟨fun ip => by simp [mapCount, owedBy], nofun⟩

theorem undoing_nodup (hcounted : AddressesCounted s) : (undoing s.execs).Nodup :=
  List.Nodup.of_map _ ((undoing_sublist s.execs).nodup hcounted.distinct)

theorem undoing_erase (hmem : e ∈ s.execs) :
    (undoing s.execs).Perm (e.pc.undoing?.toList ++ undoing (s.execs.erase e)) :=
  filterMap_perm_erase _ hmem

theorem mem_undoing_of_erase {conn : ConnRef} (hmem : e ∈ s.execs)
    (hconn : conn ∈ undoing (s.execs.erase e)) : conn ∈ undoing s.execs :=
  (undoing_erase hmem).mem_iff.mpr (List.mem_append_right _ hconn)

theorem same_of_fd (hcounted : AddressesCounted s) {conn other : ConnRef}
    (hconn : conn ∈ s.connections) (hother : other ∈ s.connections)
    (hfd : conn.fd = other.fd) : conn = other :=
  List.inj_on_of_nodup_map hcounted.keys hconn hother hfd

/-- Clients whose slots were given back early are among those in the map. -/
theorem covered (hcounted : AddressesCounted s) {execs : List Exec} {ahead : List ConnRef}
    (hclients : (ahead ++ releasedEarly execs).Subperm (undoing s.execs)) (ip : Bytes) :
    (ahead.countP fun conn => conn.ip = ip : ℕ) ≤
      mapCount s.connections ip + owedBy execs ip := by
  have howed := neg_released_le_owedBy execs ip
  have hinMap : (undoing s.execs).Subperm s.connections :=
    hcounted.undoing_nodup.subperm hcounted.mapped
  have hless := (hclients.trans hinMap).countP_le (fun conn => conn.ip = ip)
  rw [List.countP_append] at hless
  rw [mapCount]
  omega

theorem perm_of_find (hcounted : AddressesCounted s) {fd : Nat} {conn : ConnRef}
    (hfind : s.find fd = some conn) : s.connections.Perm (conn :: s.others fd) := by
  obtain ⟨hmem, rfl⟩ := mem_of_find hfind
  exact perm_cons_filter_ne hcounted.keys hmem

section Advance

variable {outcome : Outcome} (hcounted : AddressesCounted s)

include hcounted

theorem keys_advance (hspares : s.sparesUndoing (.advance e outcome))
    (hadvances : Advances s e outcome s') : (s'.connections.map ConnRef.fd).Nodup := by
  have hothers : ∀ fd, ((s.others fd).map ConnRef.fd).Nodup := by
    intro fd
    exact (List.filter_sublist.map _).nodup hcounted.keys
  cases hadvances with
  | erased target conn hpc hfind => exact hothers target.fd
  | inserted conn hpc =>
      simp only [sparesUndoing, hpc] at hspares
      have hfresh := find_eq_none hspares
      change ((conn :: s.others conn.fd).map ConnRef.fd).Nodup
      rw [others_eq_self hspares]
      exact List.nodup_cons.mpr ⟨hfresh, hcounted.keys⟩
  | undoErased conn hpc => exact hothers conn.fd
  | unregistered conn hpc hremoved =>
      simp only [unregister]
      split <;> exact hcounted.keys
  | _ => exact hcounted.keys

variable (hmem : e ∈ s.execs)

include hmem

theorem distinct_advance (hadvances : Advances s e outcome s') :
    (uncountedIds s'.execs).Nodup := by
  have hsplit := (filterMap_perm_erase (fun e : Exec => e.pc.uncounted?.map ConnRef.id)
    hmem).nodup_iff.mp hcounted.distinct
  have hrest : (uncountedIds (s.execs.erase e)).Nodup := hsplit.of_append_right
  have hsame : ∀ {e' : Exec}, e'.pc.uncounted? = e.pc.uncounted? ∨ e'.pc.uncounted? = none →
      (uncountedIds (e' :: s.execs.erase e)).Nodup := by
    rintro e' (hpc | hpc)
    · rw [uncountedIds_cons, hpc]
      exact hsplit
    · rw [uncountedIds_cons, hpc]
      exact hrest
  cases hadvances with
  | inserted conn hpc =>
      exact List.nodup_cons.mpr ⟨hcounted.separate.not_uncounted hmem hpc, hrest⟩
  | acquired conn hpc =>
      refine hsame (Or.inr ?_)
      dsimp only
      split <;> rfl
  | unregistered conn hpc hremoved =>
      simp only [unregister]
      split <;> exact hsame (Or.inr rfl)
  | returned hpc => exact hrest
  | _ => exact hsame (by simp [Pc.uncounted?, *])

theorem mapped_advance (hspares : s.sparesUndoing (.advance e outcome))
    (hadvances : Advances s e outcome s') : ∀ conn ∈ undoing s'.execs, conn ∈ s'.connections := by
  have hrest : ∀ conn ∈ undoing (s.execs.erase e), conn ∈ s.connections :=
    fun conn hconn => hcounted.mapped conn (mem_undoing_of_erase hmem hconn)
  have hsame : ∀ {e' : Exec}, e'.pc.undoing? = e.pc.undoing? ∨ e'.pc.undoing? = none →
      ∀ conn ∈ undoing (e' :: s.execs.erase e), conn ∈ s.connections := by
    intro e' hpc conn hconn
    have hsplit : undoing (e' :: s.execs.erase e) =
        e'.pc.undoing?.toList ++ undoing (s.execs.erase e) := by
      cases hpc' : e'.pc.undoing? <;> simp [undoing, hpc']
    rw [hsplit] at hconn
    rcases List.mem_append.mp hconn with hown | hother
    · rcases hpc with hpc | hpc
      · rw [hpc] at hown
        exact hcounted.mapped conn ((undoing_erase hmem).mem_iff.mpr
          (List.mem_append_left _ hown))
      · simp [hpc] at hown
    · exact hrest conn hother
  cases hadvances with
  | erased target conn hpc hfind =>
      obtain ⟨hconn, hfd⟩ := mem_of_find hfind
      simp only [sparesUndoing, hpc] at hspares
      intro other hother
      have hundoing : other ∈ undoing s.execs := mem_undoing_of_erase hmem hother
      refine List.mem_filter.mpr ⟨hrest other hother, ?_⟩
      simp only [ne_eq, decide_eq_true_eq]
      intro hkey
      have heq := hcounted.same_of_fd (hrest other hother) hconn (hkey.trans hfd.symm)
      exact hspares conn (by simp [hfind]) (heq ▸ hundoing)
  | inserted conn hpc =>
      simp only [sparesUndoing, hpc] at hspares
      intro other hother
      change other ∈ conn :: s.others conn.fd
      rw [others_eq_self hspares]
      exact List.mem_cons_of_mem _ (hrest other hother)
  | addFailed conn hpc =>
      simp only [sparesUndoing, hpc] at hspares
      intro other hother
      rcases List.mem_cons.mp hother with rfl | hold
      · exact hspares
      · exact hrest other hold
  | undoErased conn hpc =>
      have hconn : conn ∈ undoing s.execs :=
        (undoing_erase hmem).mem_iff.mpr (List.mem_append_left _ (by simp [hpc, Pc.undoing?]))
      have hnodup := (undoing_erase hmem).nodup_iff.mp hcounted.undoing_nodup
      simp only [hpc, Pc.undoing?, Option.toList_some, List.singleton_append,
        List.nodup_cons] at hnodup
      intro other hother
      refine List.mem_filter.mpr ⟨hrest other hother, ?_⟩
      simp only [ne_eq, decide_eq_true_eq]
      intro hkey
      have heq := hcounted.same_of_fd (hrest other hother) (hcounted.mapped conn hconn) hkey
      exact hnodup.1 (heq ▸ hother)
  | acquired conn hpc =>
      refine hsame (Or.inr ?_)
      dsimp only
      split <;> rfl
  | unregistered conn hpc hremoved =>
      simp only [unregister]
      split <;> exact hsame (Or.inr rfl)
  | returned hpc => exact hrest
  | _ => exact hsame (by simp [Pc.undoing?, *])

/-- One entry of the accounts for each place of the code. -/
theorem accounts_advance (hspares : s.sparesUndoing (.advance e outcome))
    (hadvances : Advances s e outcome s') :
    IpAccounts s'.counts s'.connections (owedBy s'.execs) := by
  have hbefore : IpAccounts s.counts s.connections
      (fun ip => e.owed ip + owedBy (s.execs.erase e) ip) :=
    hcounted.accounts.congr fun ip => (owedBy_erase hmem ip).symm
  have hafter : ∀ {counts connections owed} {e' : Exec},
      IpAccounts counts connections owed →
        (∀ ip, e'.owed ip + owedBy (s.execs.erase e) ip = owed ip) →
          IpAccounts counts connections (owedBy (e' :: s.execs.erase e)) :=
    fun haccounts howed => haccounts.congr fun ip => (owedBy_cons _ _ ip).trans (howed ip)
  have hquiet : ∀ {e' : Exec}, (∀ ip, e.owed ip = 0) → (∀ ip, e'.owed ip = 0) →
      IpAccounts s.counts s.connections (owedBy (e' :: s.execs.erase e)) :=
    fun hnone hnone' => hafter hbefore fun ip => by rw [hnone, hnone']
  have hrest : (releasedEarly (s.execs.erase e)).Sublist (undoing (s.execs.erase e)) :=
    releasedEarly_sublist _
  cases hadvances with
  | erased target conn hpc hfind =>
      have herased := hbefore.erase (perm_of_find hcounted hfind)
      exact hafter herased fun ip => by simp only [Exec.owed, hpc]; omega
  | released conn hpc hremoved =>
      have hclients : ([] ++ releasedEarly (s.execs.erase e)).Subperm (undoing s.execs) :=
        hrest.subperm.trans ((List.sublist_append_right _ _).subperm.trans
          (undoing_erase hmem).symm.subperm)
      have hcovered := hcounted.covered hclients conn.ip
      have hheld : 0 < mapCount s.connections conn.ip +
          (e.owed conn.ip + owedBy (s.execs.erase e) conn.ip) := by
        simp only [Exec.owed, hpc, hremoved, one_self]
        simp only [List.countP_nil, Nat.cast_zero] at hcovered
        omega
      exact hafter (hbefore.release hheld) fun ip => by
        simp only [Exec.owed, hpc, hremoved]
        omega
  | unregistered conn hpc hremoved =>
      simp only [unregister]
      split <;> exact hquiet (by simp [Exec.owed, hpc]) (by simp [Exec.owed])
  | acquired conn hpc =>
      cases hacquired : (tryAcquire s.counts conn.ip).2 with
      | true =>
          simp only [ServerState.acquire, goTo, hacquired, if_true]
          exact hafter (hbefore.acquire hacquired) fun ip => by
            simp only [Exec.owed, hpc]
            omega
      | false =>
          simp only [ServerState.acquire, goTo, hacquired]
          exact hafter (hbefore.refuse hacquired) fun ip => by simp [Exec.owed, hpc]
  | inserted conn hpc =>
      simp only [sparesUndoing, hpc] at hspares
      have hinserted : IpAccounts s.counts (conn :: s.others conn.fd) (fun ip =>
          e.owed ip + owedBy (s.execs.erase e) ip - one conn.ip ip) := by
        rw [others_eq_self hspares]
        exact hbefore.insert
      exact hafter hinserted fun ip => by simp only [Exec.owed, hpc]; omega
  | undoReleased conn hpc =>
      have hclients : ([conn] ++ releasedEarly (s.execs.erase e)).Subperm (undoing s.execs) := by
        have hperm := undoing_erase hmem
        simp only [hpc, Pc.undoing?, Option.toList_some] at hperm
        exact ((hrest.append_left [conn]).subperm).trans hperm.symm.subperm
      have hcovered := hcounted.covered hclients conn.ip
      have hheld : 0 < mapCount s.connections conn.ip +
          (e.owed conn.ip + owedBy (s.execs.erase e) conn.ip) := by
        simp only [Exec.owed, hpc]
        simp only [List.countP_cons, List.countP_nil, decide_true, if_true] at hcovered
        omega
      exact hafter (hbefore.release hheld) fun ip => by
        simp only [Exec.owed, hpc]
        omega
  | undoErased conn hpc =>
      have hconn : conn ∈ undoing s.execs :=
        (undoing_erase hmem).mem_iff.mpr (List.mem_append_left _ (by simp [hpc, Pc.undoing?]))
      have herased := hbefore.erase
        (perm_cons_filter_ne hcounted.keys (hcounted.mapped conn hconn))
      exact hafter herased fun ip => by simp only [Exec.owed, hpc]; omega
  | returned hpc =>
      show IpAccounts s.counts s.connections (owedBy (s.execs.erase e))
      exact hbefore.congr fun ip => by simp [Exec.owed, hpc]
  | _ => exact hquiet (by simp [Exec.owed, *]) (by simp [Exec.owed])

end Advance

/-- An execution that stands for nothing starts. -/
theorem start_exec (hcounted : AddressesCounted s) (hseparate : Separate s')
    (hexecs : s'.execs = e :: s.execs) (hconnections : s'.connections = s.connections)
    (hcounts : s'.counts = s.counts)
    (hfirst : e.pc = .loading ∨ ∃ target, e.pc = .removing target) : AddressesCounted s' := by
  have hquiet : e.pc.uncounted? = none ∧ e.pc.undoing? = none ∧ ∀ ip, e.owed ip = 0 := by
    obtain hpc | ⟨target, hpc⟩ := hfirst
    all_goals simp [Exec.owed, hpc, Pc.uncounted?, Pc.undoing?]
  obtain ⟨huncounted, hundoing, howed⟩ := hquiet
  have hsame : undoing s'.execs = undoing s.execs := by
    simp [hexecs, undoing, hundoing]
  refine ⟨hseparate, hconnections ▸ hcounted.keys, ?_, ?_, ?_⟩
  · rw [hexecs, uncountedIds_cons, huncounted]
    exact hcounted.distinct
  · rw [hsame, hconnections]
    exact hcounted.mapped
  · rw [hcounts, hconnections, hexecs]
    exact hcounted.accounts.congr fun ip => by rw [owedBy_cons, howed, zero_add]

/-- Only the stores and the executions matter. -/
theorem congr (hcounted : AddressesCounted s) (hseparate : Separate s')
    (hexecs : s'.execs = s.execs) (hconnections : s'.connections = s.connections)
    (hcounts : s'.counts = s.counts) : AddressesCounted s' where
  separate := hseparate
  keys := hconnections ▸ hcounted.keys
  distinct := hexecs ▸ hcounted.distinct
  mapped := by
    rw [hexecs, hconnections]
    exact hcounted.mapped
  accounts := by
    rw [hcounts, hconnections, hexecs]
    exact hcounted.accounts

/-- Releasing every entry of the map, with removals still under way. -/
theorem releaseAll {owed : Bytes → ℤ} (howed : ∀ ip, 0 ≤ owed ip) :
    ∀ {connections : List ConnRef} {counts : Bytes → Option ℤ},
      IpAccounts counts connections owed →
        IpAccounts (connections.foldl
          (fun counts conn => PerIpConnectionLimiter.release counts conn.ip) counts) [] owed := by
  intro connections
  induction connections with
  | nil => exact fun haccounts => haccounts
  | cons conn connections ih =>
      intro counts haccounts
      have hheld : 0 < mapCount (conn :: connections) conn.ip + owed conn.ip := by
        have hnonneg := mapCount_nonneg connections conn.ip
        have hahead := howed conn.ip
        rw [mapCount_cons, one_self]
        omega
      have hreleased := (haccounts.release hheld).erase (List.Perm.refl _)
      exact ih (hreleased.congr fun ip => by omega)

theorem cleanup (hcounted : AddressesCounted s) (hseparate : Separate s.cleanupAllConnections)
    (hnone : undoing s.execs = []) : AddressesCounted s.cleanupAllConnections where
  separate := hseparate
  keys := List.nodup_nil
  distinct := hcounted.distinct
  mapped := by
    intro conn hconn
    change conn ∈ undoing s.execs at hconn
    simp [hnone] at hconn
  accounts := by
    have howed : ∀ ip, 0 ≤ owedBy s.execs ip := by
      intro ip
      have hleast := neg_released_le_owedBy s.execs ip
      have hreleased : releasedEarly s.execs = [] :=
        List.sublist_nil.mp (hnone ▸ releasedEarly_sublist s.execs)
      simpa [hreleased] using hleast
    exact releaseAll howed hcounted.accounts

theorem step {action : ServerAction} (hcounted : AddressesCounted s)
    (hspares : s.sparesUndoing action) (hsteps : Steps s action s') : AddressesCounted s' := by
  have hseparate := separate_step hcounted.separate hsteps
  cases hsteps with
  | advance e outcome _ hmem hadvances =>
      exact ⟨hseparate, hcounted.keys_advance hspares hadvances,
        hcounted.distinct_advance hmem hadvances,
        hcounted.mapped_advance hmem hspares hadvances,
        hcounted.accounts_advance hmem hspares hadvances⟩
  | dispatchAccept rest hfetched hfree hloop =>
      exact hcounted.start_exec hseparate rfl rfl rfl (Or.inl rfl)
  | dispatchHangUp target rest hfetched hfree =>
      exact hcounted.start_exec hseparate rfl rfl rfl (Or.inr ⟨target, rfl⟩)
  | removeIdle first rest hidle hfree =>
      exact hcounted.start_exec hseparate rfl rfl rfl (Or.inr ⟨first, rfl⟩)
  | remove task hmem =>
      exact hcounted.start_exec hseparate rfl rfl rfl (Or.inr ⟨task.conn.target, rfl⟩)
  | cleanup hwaiting => exact hcounted.cleanup hseparate hspares
  | _ => exact hcounted.congr hseparate rfl rfl rfl

theorem map_le (hcounted : AddressesCounted s) (ip : Bytes) :
    mapCount s.connections ip ≤
      maxPerIp + (releasedEarly s.execs).countP (fun conn => conn.ip = ip) := by
  have hentry := hcounted.accounts.entry ip
  have howed := neg_released_le_owedBy s.execs ip
  have hlimit : (0 : ℤ) ≤ maxPerIp := by decide
  cases hcount : s.counts ip with
  | none =>
      rw [hcount, Option.getD_none] at hentry
      omega
  | some count =>
      have hmost := (hcounted.accounts.range ip count hcount).2
      rw [hcount, Option.getD_some] at hentry
      omega

end AddressesCounted

/-- Under every interleaving the count of an address is the number of its connections
in the map, with the clients that are being accepted or removed and without those
that are being rolled back; it is positive or absent and within the limit, the map
exceeds the limit by roll backs only, and when nothing is under way both agree. -/
theorem addresses_counted {actions : List ServerAction}
    (hguarded : Guarded step sparesUndoing {} actions) (hrun : run step {} actions = some s)
    (ip : Bytes) :
    (s.counts ip).getD 0 = mapCount s.connections ip + owedBy s.execs ip ∧
    (∀ count, s.counts ip = some count → 0 < count ∧ count ≤ maxPerIp) ∧
    mapCount s.connections ip ≤
      maxPerIp + (releasedEarly s.execs).countP (fun conn => conn.ip = ip) ∧
    (s.execs = [] → s.counts ip =
      if mapCount s.connections ip = 0 then none else some (mapCount s.connections ip)) := by
  have hcounted : AddressesCounted s := GuardedRun.invariant
    (fun _ _ _ hstate hspares hstep => hstate.step hspares (steps_of_step hstep))
    AddressesCounted.start hguarded hrun
  have hentry := hcounted.accounts.entry ip
  have hrange := hcounted.accounts.range ip
  refine ⟨hentry, hrange, hcounted.map_le ip, fun hidle => ?_⟩
  rw [hidle, owedBy, List.map_nil, List.sum_nil, add_zero] at hentry
  cases hcount : s.counts ip with
  | none =>
      rw [hcount, Option.getD_none] at hentry
      rw [if_pos hentry.symm]
  | some count =>
      have hleast := (hrange count hcount).1
      rw [hcount, Option.getD_some] at hentry
      rw [← hentry, if_neg (by omega)]

/-- While a worker removes the first client of an address, the epoll thread rolls back
the second one. -/
def removedDuringRollBack : List ServerAction :=
  let first : ConnRef := { id := 0, fd := 5, ip := [1] }
  let second : ConnRef := { id := 1, fd := 6, ip := [1] }
  let worker : Exec := { task := some first, pc := .removing first.target }
  acceptsClient first ++
    [.fetch [.readable first.target], .dispatch, .arrive, .fetch [.listener], .dispatch,
      .advance { pc := .loading } .proceed,
      .advance { pc := .accepting } (.client second.fd second.ip),
      .advance { pc := .acquiring second } .proceed,
      .advance { pc := .inserting second } .proceed,
      .remove { conn := first, reading := true }, .advance worker .proceed,
      .advance { pc := .adding second } .addFailed,
      .advance { pc := .undoRelease second } .proceed,
      .advance { worker with removed := some first, pc := .releasing } .proceed]

theorem addresses_counted_removedDuringRollBack :
    ∃ s, run step {} removedDuringRollBack = some s ∧ s.connections.length = 1 ∧
      s.counts [1] = none ∧ (releasedEarly s.execs).length = 1 ∧
      (s.counts [1]).getD 0 = mapCount s.connections [1] + owedBy s.execs [1] := by
  obtain ⟨s, hrun, hconnections, hcounts, hreleased⟩ :=
    @exists_reached _ _ step {} removedDuringRollBack
      (fun s => s.connections.length = 1 ∧ s.counts [1] = none ∧
        (releasedEarly s.execs).length = 1) _ (by decide +kernel)
  have hguarded : Guarded step sparesUndoing {} removedDuringRollBack := by decide +kernel
  exact ⟨s, hrun, hconnections, hcounts, hreleased, (addresses_counted hguarded hrun [1]).1⟩

end ServerState

end HttpServer
