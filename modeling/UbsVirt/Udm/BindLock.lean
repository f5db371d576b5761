import Mathlib.Data.Set.Basic
import UbsVirt.Udm.World

/-!
# Exclusive allocation under the bind lock

Any number of chains that create VMs run in one process and change places wherever one of them
waits (`vm_app.py:46-56`). Between reading the inventory and allocating the devices chosen from it
a chain has the bind lock, so no other chain allocates in between, and what was free in the
inventory still is. That a lock has one owner rests on the names each chain keeps of the locks it
has taken (`async_task_framework.py:50-108`): they are those it owns.
-/

namespace UbsVirt.Udm

open Await Interleaving Run World Function List Routine
open Keeps (bind modify raise get ite tryExcept)

/-! ### The log -/

section

variable {ι : Type}

/-- A device that has been allocated is passed to another allocation only after it has been
freed. -/
def Exclusive (log : List (Event ι)) : Prop :=
  ∀ (p q : Nat) i j devices devices' ok key, p < q → log[p]? = some (.alloc i devices true) →
    log[q]? = some (.alloc j devices' ok) → key ∈ devices → key ∈ devices' →
    ∃ (r : Nat) (freed : List DeviceKey), p < r ∧ r < q ∧ log[r]? = some (.free freed) ∧ key ∈ freed

def Live (key : DeviceKey) (log : List (Event ι)) : Prop :=
  ∃ (p : Nat) (i : ι) (devices : List DeviceKey), log[p]? = some (.alloc i devices true) ∧
    key ∈ devices ∧ ∀ (r : Nat) freed, p < r → log[r]? = some (.free freed) → key ∉ freed

variable {log : List (Event ι)} {e : Event ι} {key : DeviceKey}

/-- An entry of a log with one more event is an old one or the new one. -/
theorem getElem?_concat {n : Nat} {d : Event ι} (h : (log ++ [e])[n]? = some d) :
    log[n]? = some d ∨ n = log.length ∧ e = d := by
  rw [getElem?_append] at h
  split at h
  · exact .inl h
  · next hn =>
    obtain ⟨hlt, heq⟩ := List.getElem?_eq_some_iff.mp h
    rw [length_singleton] at hlt
    have hzero : n - log.length = 0 := by omega
    simp only [hzero] at heq
    exact .inr ⟨by omega, heq⟩

theorem getElem?_concat_of_some {n : Nat} {d : Event ι} (h : log[n]? = some d) :
    (log ++ [e])[n]? = some d := by
  rwa [getElem?_append_left (List.getElem?_eq_some_iff.mp h).1]

theorem Exclusive.concat (h : Exclusive log)
    (he : ∀ i devices ok, e = .alloc i devices ok → ∀ key ∈ devices, ¬ Live key log) :
    Exclusive (log ++ [e]) := by
  intro p q i j devices devices' ok key hpq hp hq hkey hkey'
  have hlt := (List.getElem?_eq_some_iff.mp hq).1
  rw [length_append, length_singleton] at hlt
  rcases getElem?_concat hp with hold | ⟨rfl, -⟩
  swap
  · omega
  rcases getElem?_concat hq with hold' | ⟨rfl, rfl⟩
  · obtain ⟨r, freed, hpr, hrq, hr, hmem⟩ :=
      h p q i j devices devices' ok key hpq hold hold' hkey hkey'
    exact ⟨r, freed, hpr, hrq, getElem?_concat_of_some hr, hmem⟩
  · have hdead := he j devices' ok rfl key hkey'
    unfold Live at hdead
    push Not at hdead
    obtain ⟨r, freed, hpr, hr, hmem⟩ := hdead p i devices hold hkey
    exact ⟨r, freed, hpr, (List.getElem?_eq_some_iff.mp hr).1, getElem?_concat_of_some hr, hmem⟩

theorem Live.of_concat (h : Live key (log ++ [e])) :
    (∃ i devices, e = .alloc i devices true ∧ key ∈ devices) ∨
      Live key log ∧ ∀ freed, e = .free freed → key ∉ freed := by
  obtain ⟨p, i, devices, hp, hkey, hlive⟩ := h
  rcases getElem?_concat hp with hold | ⟨rfl, rfl⟩
  · refine .inr ⟨⟨p, i, devices, hold, hkey, ?_⟩, ?_⟩
    · intro r freed hpr hr
      exact hlive r freed hpr (getElem?_concat_of_some hr)
    · rintro freed rfl
      refine hlive log.length freed (List.getElem?_eq_some_iff.mp hold).1 ?_
      rw [getElem?_append_right (Nat.le_refl _), Nat.sub_self]
      rfl
  · exact .inl ⟨i, devices, rfl, hkey⟩

end

/-! ### What a chain knows -/

/-- The locks a chain has, and devices it knows to be free as long as it has the bind lock. -/
structure ChainView where
  locks : List String
  free : Set DeviceKey

/-- What a chain knows after a call. -/
def ChainView.next (v : ChainView) : (call : Call) → Except Exn call.Result → ChainView
  | .getHostUbDevices, .ok hostDevices =>
    ⟨v.locks, { key | vmBindLockName ∈ v.locks ∧ ∃ device ∈ hostDevices,
      (device.deviceType, device.deviceId) = key ∧ truthy device.busInstance = false }⟩
  | .allocDevices .., _ => ⟨v.locks, ∅⟩
  | .lockAcquire lockName _, .ok true => ⟨lockName :: v.locks, v.free⟩
  | .lockRelease lockName, _ => ⟨v.locks.erase lockName, ∅⟩
  | _, _ => v

/-- A chain allocates devices that it knows to be free while it has the bind lock, and it takes
no lock twice and releases only its own. -/
def ChainView.Allows (v : ChainView) : Call → Prop
  | .allocDevices _ _ deviceList =>
    vmBindLockName ∈ v.locks ∧ ∀ key ∈ keysOf deviceList, key ∈ v.free
  | .lockAcquire lockName _ => lockName ∉ v.locks
  | .lockRelease lockName => lockName ∈ v.locks
  | _ => True

/-- Taking or releasing a lock raises no exception. -/
def Call.Admits : (call : Call) → Except Exn call.Result → Prop
  | .lockAcquire .., r => ∃ acquired, r = .ok acquired
  | .lockRelease _, r => r = .ok ()
  | _, _ => True

def bindProtocol : Protocol Call (fun call => Except Exn call.Result) ChainView where
  pre := ChainView.Allows
  post v call r v' := call.Admits r ∧ v' = v.next call r

variable {v : ChainView} {s : Context}

theorem ask_wp {call : Call}
    {Q : ChainView → Context → Except Exn call.Result → Prop} (hpre : v.Allows call)
    (hQ : ∀ r, call.Admits r → Q (v.next call r) s r) : (ask call).wp bindProtocol Q v s :=
  ⟨hpre, fun r _ hpost => hpost.2 ▸ hQ r hpost.1⟩

/-! ### The invariant of the process -/

/-- The locks a chain knows to have are those it owns; what it knows to be free is free; and so
is everything that is not allocated according to the log. -/
structure BindInv {ι : Type} [DecidableEq ι] (w : World ι) (v : ι → ChainView) : Prop where
  owner : ∀ i lockName, lockName ∈ (v i).locks ↔ (w.locks lockName).owner = some i
  nodup : ∀ i, (v i).locks.Nodup
  lock : ∀ lockName, (w.locks lockName).WF
  free : ∀ i, ∀ key ∈ (v i).free, vmBindLockName ∈ (v i).locks ∧ w.binding key = none
  bound : ∀ key, Live key w.log → w.binding key ≠ none
  exclusive : Exclusive w.log

variable {lockName : String}

namespace BindInv

variable {ι : Type} [DecidableEq ι] {w : World ι} {v : ι → ChainView} {i : ι}

theorem start (devices : List DeviceDesc) (binding : DeviceKey → Option BusGuid) :
    BindInv (World.start devices binding : World ι) (fun _ => ⟨[], ∅⟩) where
  owner i lockName := ⟨fun h => absurd h not_mem_nil, fun h => nomatch h⟩
  nodup i := nodup_nil
  lock lockName := .free
  free i key h := absurd h (Set.notMem_empty key)
  bound key h := by
    obtain ⟨p, i, devices, hp, -⟩ := h
    cases hp
  exclusive p q i j devices devices' ok key hpq hp := by cases hp

theorem forall_free {w : World ι} {view : ChainView} : (∀ j, ∀ key ∈ (update v i view j).free,
        vmBindLockName ∈ (update v i view j).locks ∧ w.binding key = none) ↔
      (∀ key ∈ view.free, vmBindLockName ∈ view.locks ∧ w.binding key = none) ∧
        ∀ j, j ≠ i → ∀ key ∈ (v j).free, vmBindLockName ∈ (v j).locks ∧ w.binding key = none :=
  forall_update_iff v fun _ view => ∀ key ∈ view.free, vmBindLockName ∈ view.locks ∧
    w.binding key = none

section

variable (h : BindInv w v)
include h

/-- A chain learns or forgets which devices are free. -/
theorem know (free : Set DeviceKey)
    (hfree : ∀ key ∈ free, vmBindLockName ∈ (v i).locks ∧ w.binding key = none) :
    BindInv w (update v i ⟨(v i).locks, free⟩) := by
  refine ⟨?_, ?_, h.lock, ?_, h.bound, h.exclusive⟩
  · exact (forall_update_iff v fun j view => ∀ lockName, lockName ∈ view.locks ↔
      (w.locks lockName).owner = some j).mpr ⟨h.owner i, fun j _ => h.owner j⟩
  · exact (forall_update_iff v fun _ view => view.locks.Nodup).mpr ⟨h.nodup i, fun j _ => h.nodup j⟩
  · exact forall_free.mpr ⟨hfree, fun j _ => h.free j⟩

/-- Only the owner of the bind lock knows devices to be free. -/
theorem free_of_ne (hi : vmBindLockName ∈ (v i).locks) {j : ι} (hj : j ≠ i)
    (key : DeviceKey) : key ∉ (v j).free := by
  intro hkey
  have hown := (h.owner i vmBindLockName).mp hi
  rw [(h.owner j vmBindLockName).mp (h.free j key hkey).1] at hown
  exact hj (Option.some.inj hown)

theorem allocate (busGuid : BusGuid) {deviceList : List DeviceRef}
    (hlock : vmBindLockName ∈ (v i).locks) (hkeys : ∀ key ∈ keysOf deviceList, key ∈ (v i).free) :
    BindInv (w.allocate i busGuid deviceList) (update v i ⟨(v i).locks, ∅⟩) := by
  have hforget := h.know (i := i) ∅ fun key hkey => absurd hkey (Set.notMem_empty key)
  refine ⟨hforget.owner, hforget.nodup, h.lock, ?_, ?_, ?_⟩
  · -- no one else is between reading the inventory and allocating
    exact forall_free.mpr ⟨fun key hkey => absurd hkey (Set.notMem_empty key),
      fun j hj key hkey => absurd hkey (h.free_of_ne hlock hj key)⟩
  · intro key hlive
    show (if key ∈ keysOf deviceList then some busGuid else w.binding key) ≠ none
    split
    · exact Option.some_ne_none busGuid
    · next hkey =>
      rcases hlive.of_concat with ⟨j, devices, heq, hmem⟩ | ⟨hlive, -⟩
      · cases heq
        exact absurd hmem hkey
      · exact h.bound key hlive
  · apply h.exclusive.concat
    intro j devices ok heq key hkey hlive
    cases heq
    exact h.bound key hlive (h.free i key (hkeys key hkey)).2

theorem refuse {deviceList : List DeviceRef} (hkeys : ∀ key ∈ keysOf deviceList, key ∈ (v i).free) :
    BindInv (w.refuse i deviceList) (update v i ⟨(v i).locks, ∅⟩) := by
  have hforget := h.know (i := i) ∅ fun key hkey => absurd hkey (Set.notMem_empty key)
  refine ⟨hforget.owner, hforget.nodup, h.lock, hforget.free, ?_, ?_⟩
  · intro key hlive
    rcases hlive.of_concat with ⟨j, devices, heq, -⟩ | ⟨hlive, -⟩
    · cases heq
    · exact h.bound key hlive
  · apply h.exclusive.concat
    intro j devices ok heq key hkey hlive
    cases heq
    exact h.bound key hlive (h.free i key (hkeys key hkey)).2

theorem release (deviceList : List DeviceRef) : BindInv (w.release deviceList) v := by
  refine ⟨h.owner, h.nodup, h.lock, ?_, ?_, ?_⟩
  · intro j key hkey
    refine ⟨(h.free j key hkey).1, ?_⟩
    show (if key ∈ keysOf deviceList then none else w.binding key) = none
    split
    · rfl
    · exact (h.free j key hkey).2
  · intro key hlive
    rcases hlive.of_concat with ⟨j, devices, heq, -⟩ | ⟨hlive, hfreed⟩
    · cases heq
    · show (if key ∈ keysOf deviceList then none else w.binding key) ≠ none
      rw [if_neg (hfreed _ rfl)]
      exact h.bound key hlive
  · apply h.exclusive.concat
    intro j devices ok heq
    cases heq

/-- A lock changes, but not its owner. -/
theorem setLock {lock : AsyncLock ι}
    (howner : lock.owner = (w.locks lockName).owner) (hwf : lock.WF) :
    BindInv (w.setLock lockName lock) v := by
  refine ⟨?_, h.nodup, ?_, h.free, h.bound, h.exclusive⟩
  · intro j name
    show name ∈ (v j).locks ↔ (update w.locks lockName lock name).owner = some j
    rw [update_apply]
    split
    · next heq =>
      rw [heq, howner]
      exact h.owner j lockName
    · exact h.owner j name
  · exact (forall_update_iff w.locks fun _ l => l.WF).mpr ⟨hwf, fun name _ => h.lock name⟩

/-- Taking a free lock. -/
theorem lockAcquire {lock : AsyncLock ι}
    (hnew : lockName ∉ (v i).locks) (hfree : (w.locks lockName).owner = none)
    (howner : lock.owner = some i) (hwf : lock.WF) :
    BindInv (w.setLock lockName lock) (update v i ⟨lockName :: (v i).locks, (v i).free⟩) := by
  refine ⟨?_, ?_, ?_, ?_, h.bound, h.exclusive⟩
  · intro j name
    show _ ↔ (update w.locks lockName lock name).owner = some j
    rw [update_apply w.locks]
    by_cases hj : j = i
    · rw [hj, update_self]
      split
      · next heq =>
        rw [heq, howner]
        exact ⟨fun _ => rfl, fun _ => mem_cons_self⟩
      · next hne =>
        rw [mem_cons, or_iff_right hne]
        exact h.owner i name
    · rw [update_of_ne hj]
      split
      · next heq =>
        rw [heq, howner, h.owner j lockName, hfree]
        exact ⟨fun hcon => (nomatch hcon), fun hcon => absurd (Option.some.inj hcon).symm hj⟩
      · exact h.owner j name
  · exact (forall_update_iff v fun _ view => view.locks.Nodup).mpr
      ⟨nodup_cons.mpr ⟨hnew, h.nodup i⟩, fun j _ => h.nodup j⟩
  · exact (forall_update_iff w.locks fun _ l => l.WF).mpr ⟨hwf, fun name _ => h.lock name⟩
  · exact forall_free.mpr ⟨fun key hkey => ⟨mem_cons_of_mem _ (h.free i key hkey).1,
      (h.free i key hkey).2⟩, fun j _ => h.free j⟩

/-- Giving a lock back. -/
theorem lockRelease (hown : lockName ∈ (v i).locks) :
    BindInv (w.setLock lockName (w.locks lockName).release)
      (update v i ⟨(v i).locks.erase lockName, ∅⟩) := by
  have howner := (h.owner i lockName).mp hown
  refine ⟨?_, ?_, ?_, ?_, h.bound, h.exclusive⟩
  · intro j name
    show _ ↔ (update w.locks lockName _ name).owner = some j
    rw [update_apply w.locks]
    by_cases hj : j = i
    · rw [hj, update_self, (h.nodup i).mem_erase_iff]
      split
      · next heq =>
        rw [AsyncLock.release_owner]
        exact ⟨fun hcon => absurd heq hcon.1, fun hcon => nomatch hcon⟩
      · next hne =>
        rw [and_iff_right hne]
        exact h.owner i name
    · rw [update_of_ne hj]
      split
      · next heq =>
        rw [AsyncLock.release_owner, heq, h.owner j lockName, howner]
        exact ⟨fun hcon => absurd (Option.some.inj hcon).symm hj, fun hcon => nomatch hcon⟩
      · exact h.owner j name
  · exact (forall_update_iff v fun _ view => view.locks.Nodup).mpr
      ⟨(h.nodup i).erase lockName, fun j _ => h.nodup j⟩
  · exact (forall_update_iff w.locks fun _ l => l.WF).mpr
      ⟨(h.lock lockName).release, fun name _ => h.lock name⟩
  · exact forall_free.mpr ⟨fun key hkey => absurd hkey (Set.notMem_empty key), fun j _ => h.free j⟩

end

end BindInv

/-- Every answer the bind protocol allows keeps the invariant. -/
theorem bindSound {ι : Type} [DecidableEq ι] :
    Sound World.answer bindProtocol (BindInv : World ι → (ι → ChainView) → Prop) where
  answered := by
    intro w v i env call w' r h hpre hanswer
    suffices call.Admits r ∧ BindInv w' (update v i ((v i).next call r)) from
      ⟨_, ⟨this.1, rfl⟩, this.2⟩
    cases call with
    | getHostUbDevices =>
      unfold World.answer at hanswer
      cases henv : env.getHostUbDevices with
      | error e =>
        rw [henv] at hanswer
        cases hanswer
        exact ⟨trivial, (update_eq_self i v).symm ▸ h⟩
      | ok _ =>
        rw [henv] at hanswer
        cases hanswer
        refine ⟨trivial, h.know _ ?_⟩
        rintro key ⟨hlock, device, hdevice, rfl, hfree⟩
        exact ⟨hlock, binding_of_reported hdevice hfree⟩
    | allocDevices upi busGuid deviceList =>
      change w.answerAlloc i env deviceList = _ at hanswer
      unfold answerAlloc at hanswer
      split at hanswer
      · cases hanswer
        exact ⟨trivial, h.allocate _ hpre.1 hpre.2⟩
      · cases hanswer
        exact ⟨trivial, h.refuse hpre.2⟩
    | freeDevices busGuid deviceList =>
      change w.answerFree env deviceList = _ at hanswer
      unfold answerFree at hanswer
      split at hanswer
      · cases hanswer
        exact ⟨trivial, (update_eq_self i v).symm ▸ h.release deviceList⟩
      · cases hanswer
        exact ⟨trivial, (update_eq_self i v).symm ▸ h⟩
    | lockAcquire lockName timeout =>
      change w.answerAcquire i env lockName timeout = _ at hanswer
      unfold answerAcquire at hanswer
      split at hanswer
      · cases hanswer
        exact ⟨⟨false, rfl⟩, (update_eq_self i v).symm ▸ h.setLock rfl ((h.lock lockName).giveUp i)⟩
      · split at hanswer
        · next lock hacquire =>
          cases hanswer
          obtain ⟨hfree, howner, hwf⟩ := (h.lock lockName).acquire hacquire
          exact ⟨⟨true, rfl⟩, h.lockAcquire hpre hfree howner hwf⟩
        · cases hanswer
    | lockRelease lockName =>
      cases hanswer
      exact ⟨rfl, h.lockRelease hpre⟩
    | _ =>
      cases hanswer
      exact ⟨trivial, (update_eq_self i v).symm ▸ h⟩
  waits := by
    intro w v i env call w' h hpre hanswer
    cases call with
    | allocDevices upi busGuid deviceList =>
      change w.answerAlloc i env deviceList = _ at hanswer
      unfold answerAlloc at hanswer
      split at hanswer <;> cases hanswer
    | freeDevices busGuid deviceList =>
      change w.answerFree env deviceList = _ at hanswer
      unfold answerFree at hanswer
      split at hanswer <;> cases hanswer
    | lockAcquire lockName timeout =>
      change w.answerAcquire i env lockName timeout = _ at hanswer
      unfold answerAcquire at hanswer
      split at hanswer
      · cases hanswer
      · split at hanswer
        · cases hanswer
        · next lock hwait =>
          cases hanswer
          obtain ⟨howner, hwf⟩ := (h.lock lockName).wait hwait
          exact h.setLock howner hwf
    | _ => cases hanswer

/-! ### The chain keeps to the protocol -/

/-- A routine that changes nothing a chain knows, and not the names of its locks. -/
abbrev Neutral {α : Type} (t : AsyncIo α) : Prop :=
  t.Keeps bindProtocol fun v s => (v, s.acquiredLockNames)

section

variable {α : Type}

theorem Neutral.wp {t : AsyncIo α} {Q : ChainView → Context → Except Exn α → Prop} (h : Neutral t)
    (hQ : ∀ s' r, s'.acquiredLockNames = s.acquiredLockNames → Q v s' r) :
    t.wp bindProtocol Q v s := by
  refine Keeps.wp h fun v' s' r hobs => ?_
  obtain ⟨rfl, hs'⟩ := Prod.mk.inj hobs
  exact hQ s' r hs'

/-- Calls that neither read the inventory nor allocate nor concern a lock. -/
def Call.isNeutral : Call → Bool
  | .getHostUbDevices | .allocDevices .. | .lockAcquire .. | .lockRelease _ => false
  | _ => true

theorem Neutral.ask {call : Call} (hcall : call.isNeutral = true) : Neutral (ask call) := by
  have hpre : ∀ v : ChainView, v.Allows call := by
    intro v
    cases call with
    | getHostUbDevices | allocDevices | lockAcquire | lockRelease => cases hcall
    | _ => trivial
  have hnext : ∀ (v : ChainView) r, v.next call r = v := by
    intro v r
    cases call with
    | getHostUbDevices | allocDevices | lockAcquire | lockRelease => cases hcall
    | _ => rfl
  intro v s
  apply ask_wp (hpre v)
  intro r _
  rw [hnext]

theorem Neutral.runSingleTask {task : AsyncTask} (hrun : Neutral task.shouldRun)
    (hexecute : Neutral task.execute) : Neutral (runSingleTask task) := by
  unfold Udm.runSingleTask
  exact hrun.bind fun _ => hexecute.when _

theorem neutral_loadMemoryAffinity (xml : String) : Neutral (loadMemoryAffinity xml) := by
  unfold loadMemoryAffinity
  refine bind ?_ fun _ => modify fun _ _ => rfl
  refine (Neutral.ask rfl).tryExcept fun exc => ?_
  split <;> exact raise _

theorem neutral_prepareVmXmlTask : Neutral (runSingleTask prepareVmXmlTask) := by
  apply Neutral.runSingleTask
  · refine get.bind fun context => ?_
    split
    · exact raise _
    · exact (Keeps.ofExcept _).bind fun _ => Keeps.pure true
  · refine get.bind fun context => ?_
    split
    · exact raise _
    · refine (Neutral.ask rfl).bind fun xml => ?_
      refine ((neutral_loadMemoryAffinity xml).when _).bind fun _ => ?_
      refine bind ?_ fun _ => ?_
      · exact modify fun _ _ => rfl
      · exact modify fun _ _ => rfl

theorem neutral_prepareVmSmbiosTask : Neutral (runSingleTask prepareVmSmbiosTask) := by
  apply Neutral.runSingleTask
  · exact get.bind fun _ => Keeps.pure _
  · refine (Neutral.ask rfl).bind fun smbiosType131 => ?_
    split
    · exact raise _
    · exact modify fun _ _ => rfl

theorem neutral_affinityArgs (policy : Option NpuAffinityPolicy) (inventory : List UbDeviceInfo) :
    Neutral (affinityArgs policy inventory) := by
  unfold affinityArgs
  split
  · exact Keeps.pure _
  · refine get.bind fun context => ?_
    split
    · exact raise _
    · exact (Neutral.ask rfl).bind fun _ => Keeps.pure _

theorem neutral_defineAndStart (xml : String) : Neutral (defineAndStart xml) := by
  apply defineAndStart_keeps
  intro call hcall
  apply Neutral.ask
  cases call with
  | getHostUbDevices | allocDevices | lockAcquire | lockRelease => cases hcall
  | _ => rfl

theorem neutral_buildAndStartVmTask : Neutral (runSingleTask buildAndStartVmTask) := by
  apply Neutral.runSingleTask (Keeps.pure true)
  refine get.bind fun context => ite ?_ (raise _)
  dsimp only
  split
  · exact neutral_defineAndStart _
  · refine tryExcept ?_ fun exc => ?_
    · split
      · exact raise _
      · exact (Neutral.ask rfl).bind fun _ => neutral_defineAndStart _
    · refine ((Neutral.ask rfl).tryExcept fun _ => ?_).bind fun _ => raise exc
      exact Keeps.pure ()

end

/-! ### Taking and releasing locks -/

section

variable {v : ChainView} {s : Context} {Q : ChainView → Context → Except Exn Unit → Prop}

/-- Who takes a lock has it, unless it is given up. -/
theorem acquireLockTask_wp {timeout : Option Nat} (hsync : v.locks = s.acquiredLockNames)
    (hQ : ∀ v' s' r, v'.locks = s'.acquiredLockNames → (r = .ok () → lockName ∈ v'.locks) →
      Q v' s' r) :
    (runSingleTask (acquireLockTask lockName timeout)).wp bindProtocol Q v s := by
  refine wp_bind.mpr (wp_bind.mpr (wp_bind.mpr (wp_get.mpr ?_)))
  refine wp_ite.mpr ?_
  split
  · next hmem =>
    rw [← hsync] at hmem
    exact hQ v s _ hsync fun _ => hmem
  · next hnew =>
    rw [← hsync] at hnew
    refine wp_bind.mpr (ask_wp (show v.Allows (.lockAcquire lockName timeout) from hnew) ?_)
    rintro _ ⟨acquired, rfl⟩
    cases acquired with
    | true =>
      apply hQ
      · exact congrArg (lockName :: ·) hsync
      · exact fun _ => mem_cons_self
    | false => exact hQ v s _ hsync fun hcon => nomatch hcon

theorem releaseLockTask_wp (hsync : v.locks = s.acquiredLockNames)
    (hQ : ∀ v' s' r, v'.locks = s'.acquiredLockNames → Q v' s' r) :
    (runSingleTask (releaseLockTask lockName)).wp bindProtocol Q v s := by
  refine wp_bind.mpr (wp_bind.mpr (wp_get.mpr ?_))
  refine wp_ite.mpr ?_
  split
  · next hmem =>
    rw [← hsync] at hmem
    refine wp_bind.mpr (ask_wp (show v.Allows (.lockRelease lockName) from hmem) ?_)
    rintro _ rfl
    exact hQ _ _ _ (congrArg (·.erase lockName) hsync)
  · exact hQ v s _ hsync

/-- At its end a chain releases the locks it has. -/
theorem releaseAll_wp (hQ : ∀ v' : ChainView, v'.locks = [] → Q v' s (.ok ())) :
    (releaseAll v.locks).wp bindProtocol Q v s := by
  obtain ⟨locks, free⟩ := v
  dsimp only
  induction locks generalizing free with
  | nil => exact hQ _ rfl
  | cons lockName rest ih =>
    have hmem : ChainView.Allows ⟨lockName :: rest, free⟩ (.lockRelease lockName) :=
      mem_cons_self
    refine wp_bind.mpr (ask_wp hmem ?_)
    rintro _ rfl
    show wp bindProtocol Q (releaseAll rest) ⟨(lockName :: rest).erase lockName, ∅⟩ s
    rw [erase_cons_head]
    exact ih ∅

theorem releaseChainLocks_wp (hsync : v.locks = s.acquiredLockNames)
    (hQ : ∀ (v' : ChainView) s', v'.locks = [] → Q v' s' (.ok ())) :
    releaseChainLocks.wp bindProtocol Q v s := by
  refine wp_bind.mpr (wp_get.mpr (wp_bind.mpr ?_))
  rw [← hsync]
  apply releaseAll_wp
  exact fun v' hv' => hQ v' _ hv'

end

/-! ### Binding the devices -/

section

variable {v : ChainView} {s : Context}

/-- What is free in the inventory is known to be free. -/
theorem getHostUbDevices_wp {Q : ChainView → Context → Except Exn (List UbDeviceInfo) → Prop}
    (hlock : vmBindLockName ∈ v.locks)
    (hQ : ∀ v' r, v'.locks = v.locks → (∀ inventory, r = .ok inventory → ∀ info ∈ inventory,
      info.isBound = false → info.key ∈ v'.free) → Q v' s r) :
    getHostUbDevices.wp bindProtocol Q v s := by
  refine wp_bind.mpr (ask_wp (show v.Allows .getHostUbDevices from trivial) ?_)
  intro r _
  cases r with
  | error e => exact hQ v _ rfl fun _ hcon => nomatch hcon
  | ok hostDevices =>
    refine (wp_ofExcept _).mpr (hQ _ _ rfl ?_)
    intro inventory hinventory info hinfo hfree
    obtain ⟨device, hdevice, hok⟩ := ubDeviceInfos_reported hinventory hinfo
    obtain ⟨rfl, -⟩ := ubDeviceInfo_ok hok
    exact ⟨hlock, device, hdevice, rfl, hfree⟩

theorem resolveDevices_wp {request : BindNpuDeviceRequest} {inventory : List UbDeviceInfo}
    {Q : ChainView → Context → Except Exn (List UbDevice) → Prop}
    (hQ : ∀ s' r, s'.acquiredLockNames = s.acquiredLockNames → (∀ devices, r = .ok devices →
      ∃ affinity, resolveRequest inventory request affinity = .ok devices) → Q v s' r) :
    (resolveDevices request inventory).wp bindProtocol Q v s := by
  refine wp_tryExcept.mpr (wp_bind.mpr (wp_get.mpr (wp_bind.mpr ?_)))
  refine Neutral.wp (neutral_affinityArgs _ _) ?_
  intro s' r hs'
  -- the handler only replaces an exception by another one
  have hraise (e : Exn) : wp bindProtocol Q (raise e) v s' := hQ s' _ hs' (by rintro _ ⟨⟩)
  cases r with
  | error e =>
    dsimp only
    split <;> exact hraise _
  | ok affinity =>
    refine (wp_ofExcept _).mpr ?_
    cases hresolve : resolveRequest inventory request affinity with
    | error e =>
      dsimp only
      split <;> exact hraise _
    | ok devices =>
      refine hQ s' _ hs' ?_
      rintro _ ⟨⟩
      exact ⟨affinity, hresolve⟩

theorem bindDevices_wp {params : AllocDevicesParams}
    {Q : ChainView → Context → Except Exn (String × PyValue × PyValue × PyValue) → Prop}
    (hlock : vmBindLockName ∈ v.locks) (hkeys : ∀ key ∈ keysOf params.deviceList, key ∈ v.free)
    (hQ : ∀ v' s' r, v'.locks = v.locks → s'.acquiredLockNames = s.acquiredLockNames → Q v' s' r) :
    (bindDevices params).wp bindProtocol Q v s := by
  have hpre : v.Allows (.allocDevices (ubseUpi params.upi) params.busGuid params.deviceList) :=
    ⟨hlock, hkeys⟩
  refine wp_bind.mpr (ask_wp hpre ?_)
  intro r _
  cases r with
  | error e => exact hQ _ s _ rfl rfl
  | ok busGuid =>
    refine Neutral.wp (tryExcept ?_ fun exc => ?_) fun s' r hs' => hQ _ s' r rfl hs'
    · exact (Neutral.ask rfl).bind fun _ => Keeps.pure _
    · exact (Neutral.ask rfl).bind fun _ => raise exc

/-- The devices that are allocated have just been found free. -/
theorem bindNpuDeviceTask_wp {Q : ChainView → Context → Except Exn Unit → Prop}
    (hlock : vmBindLockName ∈ v.locks)
    (hQ : ∀ v' s' r, v'.locks = v.locks → s'.acquiredLockNames = s.acquiredLockNames → Q v' s' r) :
    (runSingleTask bindNpuDeviceTask).wp bindProtocol Q v s := by
  refine wp_bind.mpr (wp_bind.mpr (wp_get.mpr ?_))
  refine wp_ite.mpr ?_
  split
  swap
  · exact hQ v s _ rfl rfl
  refine wp_bind.mpr (wp_get.mpr ?_)
  dsimp only
  split
  · exact hQ v s _ rfl rfl
  next request _ =>
  refine wp_bind.mpr ((wp_ofExcept _).mpr ?_)
  cases hvalid : validateRequest request with
  | error e => exact hQ v s _ rfl rfl
  | ok _ =>
  refine wp_bind.mpr (getHostUbDevices_wp hlock ?_)
  intro v' r hv' hfree
  cases r with
  | error e => exact hQ v' s _ hv' rfl
  | ok inventory =>
  refine wp_bind.mpr (resolveDevices_wp ?_)
  intro s' r hs' hresolved
  cases r with
  | error e => exact hQ v' s' _ hv' hs'
  | ok devices =>
  refine wp_bind.mpr ((wp_ofExcept _).mpr ?_)
  cases hparams : allocDevicesParams request.upi (deviceRefs devices) with
  | error e => exact hQ v' s' _ hv' hs'
  | ok params =>
  have hkeys : ∀ key ∈ keysOf params.deviceList, key ∈ v'.free := by
    intro key hkey
    obtain ⟨affinity, hresolve⟩ := hresolved devices rfl
    rw [(allocDevicesParams_ok hparams).1] at hkey
    unfold keysOf deviceRefs at hkey
    rw [map_map] at hkey
    obtain ⟨device, hdevice, rfl⟩ := mem_map.mp hkey
    obtain ⟨info, hinfo, rfl, hunbound⟩ := resolveRequest_unbound hvalid hresolve hdevice
    exact hfree inventory rfl info hinfo hunbound
  refine wp_bind.mpr (bindDevices_wp (hv' ▸ hlock) hkeys ?_)
  intro v'' s'' r hv'' hs''
  cases r with
  | error e => exact hQ v'' s'' _ (hv''.trans hv') (hs''.trans hs')
  | ok mapping =>
    refine Neutral.wp (bind ?_ fun _ => bind ?_ fun _ => ?_) fun t r ht =>
      hQ v'' t r (hv''.trans hv') (ht.trans (hs''.trans hs'))
    · exact modify fun _ _ => rfl
    · exact Keeps.ofExcept _
    · exact modify fun _ _ => rfl

end

/-! ### The chain -/

/-- The tasks of the chain keep to the protocol, whichever of them fails. -/
theorem runTasks_createVmChain_wp (hsync : v.locks = s.acquiredLockNames) :
    (runTasks createVmChain).wp bindProtocol (fun v s _ => v.locks = s.acquiredLockNames) v s := by
  refine wp_bind.mpr (neutral_prepareVmXmlTask.wp fun s₁ r hs₁ => ?_)
  cases r with
  | error e => exact hsync.trans hs₁.symm
  | ok _ =>
  refine wp_bind.mpr (neutral_prepareVmSmbiosTask.wp fun s₂ r hs₂ => ?_)
  have hsync₂ : v.locks = s₂.acquiredLockNames := hsync.trans (hs₂.trans hs₁).symm
  cases r with
  | error e => exact hsync₂
  | ok _ =>
  refine wp_bind.mpr (acquireLockTask_wp hsync₂ fun v₃ s₃ r hsync₃ hlock => ?_)
  cases r with
  | error e => exact hsync₃
  | ok _ =>
  refine wp_bind.mpr (bindNpuDeviceTask_wp (hlock rfl) fun v₄ s₄ r hv₄ hs₄ => ?_)
  have hsync₄ : v₄.locks = s₄.acquiredLockNames := hv₄.trans (hsync₃.trans hs₄.symm)
  cases r with
  | error e => exact hsync₄
  | ok _ =>
  refine wp_bind.mpr (releaseLockTask_wp hsync₄ fun v₅ s₅ r hsync₅ => ?_)
  cases r with
  | error e => exact hsync₅
  | ok _ =>
  refine wp_bind.mpr (neutral_buildAndStartVmTask.wp fun s₆ r hs₆ => ?_)
  cases r with
  | error e => exact hsync₅.trans hs₆.symm
  | ok _ => exact hsync₅.trans hs₆.symm

theorem createVm_wp (request : CreateVmRequest) :
    (createVm request).wp bindProtocol (fun v _ => v.locks = []) ⟨[], ∅⟩ := by
  show wp bindProtocol (fun v _ _ => v.locks = []) (runChain createVmChain) _ _
  rw [runChain_createVmChain]
  refine wp_tryFinally.mpr (wp_mono ?_ (runTasks_createVmChain_wp rfl))
  intro v s r hsync
  exact releaseChainLocks_wp hsync fun v' s' hv' => hv'

section

variable {ι : Type} [DecidableEq ι]

/-- A process with a chain for every request; a chain that no step is taken of has not started
yet. -/
def vmProcess (devices : List DeviceDesc) (binding : DeviceKey → Option BusGuid)
    (requests : ι → CreateVmRequest) :
    Config ι (World ι) (Prog Call (fun call => Except Exn call.Result)
      (Except Exn Unit × Context)) :=
  ⟨.start devices binding, fun i => createVm (requests i)⟩

/-- In every interleaving of any number of chains, a device that has been allocated is passed to
another allocation only after it has been freed, and a chain that has ended owns no lock. -/
theorem createVm_exclusive (devices : List DeviceDesc) (binding : DeviceKey → Option BusGuid)
    (requests : ι → CreateVmRequest) (run : List (ι × Env)) :
    Throughout (step World.answer)
      (fun cfg => Exclusive cfg.shared.log ∧ ∀ i r, cfg.control i = .ret r →
        ∀ lockName, (cfg.shared.locks lockName).owner ≠ some i)
      (vmProcess devices binding requests) run := by
  have hstart : Covered bindProtocol BindInv (fun v _ => v.locks = [])
      (vmProcess devices binding requests) :=
    ⟨fun _ => ⟨[], ∅⟩, .start devices binding, fun i => createVm_wp (requests i)⟩
  refine (bindSound.covered hstart run).mono fun cfg hcfg => ⟨?_, ?_⟩
  · obtain ⟨v, hinv, -⟩ := hcfg
    exact hinv.exclusive
  · intro i r hend lockName howner
    obtain ⟨v, hinv, hlocks⟩ := hcfg.ended hend
    have hmem := (hinv.owner i lockName).mpr howner
    rw [hlocks] at hmem
    cases hmem

end

/-! ### A refused allocation -/

/-- No device is passed to two allocations of different chains unless it has been freed in
between. -/
def PassedOnce {ι : Type} (log : List (Event ι)) : Prop :=
  ∀ (p q : Nat) i j devices devices' ok ok' key, p < q → i ≠ j →
    log[p]? = some (.alloc i devices ok) → log[q]? = some (.alloc j devices' ok') →
    key ∈ devices → key ∈ devices' →
    ∃ (r : Nat) (freed : List DeviceKey), p < r ∧ r < q ∧ log[r]? = some (.free freed) ∧ key ∈ freed

def refusingEnv : Env := { calmEnv with allocDevices := .error (.other "alloc_devices failed") }

/-- The allocation of the first chain is refused, and the second one tries the same NPU, which
was never bound and therefore never freed. -/
theorem refused_npu_passed_twice :
    ¬ ∀ (n : Nat) (devices : List DeviceDesc) (binding : DeviceKey → Option BusGuid)
      (requests : Fin n → CreateVmRequest) (run : List (Fin n × Env)),
      Throughout (step World.answer) (fun cfg => PassedOnce cfg.shared.log)
        (vmProcess devices binding requests) run := by
  intro hall
  have honce := (hall 2 oneNpuHost (fun _ => none) (fun _ => oneNpuRequest)
    (replicate 6 (0, refusingEnv) ++ replicate 5 (1, refusingEnv))).last
  have hlog : (exec (step World.answer) (vmProcess oneNpuHost (fun _ => none)
      (fun _ : Fin 2 => oneNpuRequest))
      (replicate 6 (0, refusingEnv) ++ replicate 5 (1, refusingEnv))).shared.log =
        [.alloc 0 [("NPU", "0-1")] false, .alloc 1 [("NPU", "0-1")] false] := by
    decide +kernel
  rw [hlog] at honce
  obtain ⟨r, freed, hlow, hhigh, -⟩ := honce 0 1 0 1 _ _ _ _ ("NPU", "0-1") (by decide) (by decide)
    rfl rfl mem_cons_self mem_cons_self
  omega

end UbsVirt.Udm
