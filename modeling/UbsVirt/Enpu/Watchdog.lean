import UbsVirt.Enpu.SwapCommand

/-!
# The pod watchdog

The watchdog looks at every die from time to time: a vNPU whose runtime has not reported
for five seconds is reset, a process whose heartbeat is as old is reaped, and a swap-out
command that no slot owes an acknowledgement any more is completed. Source:
`enpu-manager/core/src/pod_watchdog.c:56-278`.
-/

namespace UbsVirt.Enpu

open ShmState List Function

/-- What the watchdog reads and writes of a die: the swap pool, the shared state and
`last_alive_time_ns` of the scheduler struct, which may be missing. -/
structure Watched where
  pool : Tlsf.Pool
  shm : ShmState
  lastAlive : Option (Nat → Nat)

/-- `POD_ALIVE_TIMEOUT_NS`, `pod_watchdog.h:13`. -/
def podAliveTimeoutNs : Nat := 5 * 1000 * 1000 * 1000

/-- `PROCESS_ALIVE_TIMEOUT_NS`, `shm_manager.h:41`. -/
def processAliveTimeoutNs : Nat := 5 * 1000000000

/-- The slot has been given up: no process has it, or its process has a heartbeat, not of the
future, that is older than the timeout. -/
def ProcessEntry.GivenUp (now timeout : Nat) (pe : ProcessEntry) : Prop :=
  pe.active = false ∨
    (pe.lastHeartbeatNs ≠ 0 ∧ pe.lastHeartbeatNs ≤ now ∧ timeout < now - pe.lastHeartbeatNs)

namespace Watched

def onShm (w : Watched) (f : ShmState → ShmState) : Watched :=
  { w with shm := f w.shm }

@[simp]
theorem shm_onShm (w : Watched) (f : ShmState → ShmState) : (w.onShm f).shm = f w.shm := rfl

def freeSlot (w : Watched) (v : Nat) (i : Slot) : Watched :=
  let (pool, shm) := shmFreePerProcess (w.pool, w.shm) v i
  { w with pool := pool, shm := shm }

/-- `pod_watchdog_cleanup_swap_data`, lines 56-89: the buffers go when no active process is
left unswapped. -/
def cleanupSwapData (w : Watched) (v : Nat) : Watched :=
  if w.shm.bitmapTest v && !w.shm.anySlot v (fun pe => pe.active && !pe.swapped) then
    let (pool, shm) := shmFree (w.pool, w.shm) v
    { w with pool := pool, shm := shm }
  else w

/-- `reset_runtime_state`, lines 91-111. The buffers the slots record are forgotten. -/
def resetRuntimeState (w : Watched) (v : Nat) : Watched :=
  { w with
    shm := w.shm.modifyEntry v fun e => { e with hbmUsed := 0, processes := fun _ => .empty }
    lastAlive := w.lastAlive.map fun alive => update alive v 0 }

def proxyAckMarked (w : Watched) (v : Nat) (i : Slot) : Watched :=
  if w.shm.marker v i ≠ 0 then w.onShm (·.proxyAckProcess v i) else w

/-- The loop body of `reap_dead_processes`, lines 125-186, for one slot. -/
def reapSlot (now timeout : Nat) (w : Watched) (v : Nat) (i : Slot) : Watched :=
  let pe := w.shm.slot v i
  if !pe.active then
    let w₁ := w.proxyAckMarked v i
    if 0 < pe.swapSize then w₁.freeSlot v i else w₁
  else if pe.lastHeartbeatNs = 0 then w
  else if now < pe.lastHeartbeatNs then
    w.onShm (·.modifySlot v i fun pe => { pe with lastHeartbeatNs := 0 })
  else if now - pe.lastHeartbeatNs ≤ timeout then w
  else
    let w₁ := w.proxyAckMarked v i
    let w₂ := w₁.onShm fun st =>
      (st.modifyEntry v fun e => { e with hbmUsed := subU64 e.hbmUsed pe.hbmUsed }).modifySlot v i
        fun pe => { pe with hbmUsed := 0 }
    let w₃ := if 0 < pe.swapSize then w₂.freeSlot v i else w₂
    w₃.onShm (·.modifySlot v i fun pe => { pe with swapped := false, active := false })

/-- `reap_dead_processes`, lines 117-187: all slots of all vNPUs, in the bitmap or not. -/
def reapDeadProcesses (now timeout : Nat) (w : Watched) : Watched :=
  (range maxVnpuPerDie).foldl
    (fun w v => allSlots.foldl (fun w i => reapSlot now timeout w v i) w) w

/-- The vNPU part of the poll, lines 206-267, for one vNPU; `alive` is its last sign of life. -/
def pollVnpu (now : Nat) (w : Watched) (v : Nat) : Watched :=
  match w.lastAlive with
  | none => w
  | some alive =>
    if !w.shm.bitmapTest v then w
    else if alive v = 0 then w
    else if now < alive v then { w with lastAlive := some (update alive v 0) }
    else if now - alive v ≤ podAliveTimeoutNs then w
    else
      let w₁ := if w.shm.vnpuAllSwapped v then w.cleanupSwapData v else w
      let w₂ := allSlots.foldl (fun w i => w.proxyAckMarked v i) w₁
      w₂.resetRuntimeState v

/-- `pod_watchdog_poll_and_cleanup`, lines 189-278, for one die: a die without a scheduler
struct is skipped. -/
def poll (w : Watched) (now : Nat) : Watched :=
  match w.lastAlive with
  | none => w
  | some _ =>
    let w₁ := (range maxVnpuPerDie).foldl (pollVnpu now) w
    let w₂ := w₁.reapDeadProcesses now processAliveTimeoutNs
    w₂.onShm (·.tryCompleteSwapCmd)

/-! ### What a poll is made of -/

def ClearsMarks (f : VnpuShmEntry → VnpuShmEntry) : Prop :=
  ∀ e i, ((f e).processes i).ackPendingSeq = (e.processes i).ackPendingSeq ∨
    ((f e).processes i).ackPendingSeq = 0

theorem clearsMarks_modifySlot {f : ProcessEntry → ProcessEntry} (i : Slot)
    (hf : ∀ pe, (f pe).ackPendingSeq = pe.ackPendingSeq) :
    ClearsMarks fun e => { e with processes := update e.processes i (f (e.processes i)) } := by
  intro e j
  by_cases hj : j = i
  · subst hj
    simp [hf]
  · simp [hj]

variable {now : Nat}

section

variable {P : Watched → Prop} (hack : ∀ w v i, P w → P (w.onShm (·.proxyAckProcess v i)))
  (hfree : ∀ w v i, P w → P (w.freeSlot v i))
  (hentry : ∀ w v f, ClearsMarks f → P w → P (w.onShm (·.modifyEntry v f)))
  (halive : ∀ w alive, P w → P { w with lastAlive := alive })

include hack in
theorem proxyAckMarked_induction {w : Watched} (hw : P w) (v : Nat) (i : Slot) :
    P (w.proxyAckMarked v i) := by
  unfold proxyAckMarked
  split
  · exact hack w v i hw
  · exact hw

include hentry in
theorem modifySlot_induction {w : Watched} (hw : P w) (v : Nat) (i : Slot)
    {f : ProcessEntry → ProcessEntry} (hf : ∀ pe, (f pe).ackPendingSeq = pe.ackPendingSeq) :
    P (w.onShm (·.modifySlot v i f)) :=
  hentry w v _ (clearsMarks_modifySlot i hf) hw

include hfree hentry in
/-- The reaper acknowledges for a slot that has been given up before it does anything else. -/
theorem reapSlot_of_givenUp {w : Watched} {timeout v : Nat} {i : Slot}
    (hup : (w.shm.slot v i).GivenUp now timeout) (hacked : P (w.proxyAckMarked v i)) :
    P (reapSlot now timeout w v i) := by
  simp only [reapSlot]
  split
  · split
    · exact hfree _ v i hacked
    · exact hacked
  next hactive =>
  rcases hup with hoff | ⟨hset, hpast, hlate⟩
  · simp [hoff] at hactive
  rw [if_neg hset, if_neg (by omega), if_neg (by omega)]
  have huncount := modifySlot_induction hentry
    (hentry _ v (fun e => { e with hbmUsed := subU64 e.hbmUsed (w.shm.slot v i).hbmUsed })
      (fun _ _ => .inl rfl) hacked) v i
    (f := fun pe => { pe with hbmUsed := 0 }) (fun _ => rfl)
  refine modifySlot_induction hentry ?_ v i (fun _ => rfl)
  split
  · exact hfree _ v i huncount
  · exact huncount

include hack hfree hentry in
theorem reapSlot_induction {w : Watched} (hw : P w) (now timeout v : Nat) (i : Slot) :
    P (reapSlot now timeout w v i) := by
  by_cases hup : (w.shm.slot v i).GivenUp now timeout
  · exact reapSlot_of_givenUp hfree hentry hup (proxyAckMarked_induction hack hw v i)
  simp only [ProcessEntry.GivenUp, not_or, not_and, not_lt, Bool.not_eq_false] at hup
  simp only [reapSlot, hup.1]
  split
  · next hoff => cases hoff
  split
  · exact hw
  next hset =>
  split
  · exact modifySlot_induction hentry hw v i (fun _ => rfl)
  next hpast =>
  rwa [if_pos (hup.2 hset (not_lt.mp hpast))]

include hack hfree hentry halive in
theorem pollVnpu_induction {w : Watched} (hw : P w) (now v : Nat) : P (pollVnpu now w v) := by
  unfold pollVnpu
  split
  · exact hw
  split
  · exact hw
  split
  · exact hw
  split
  · exact halive w _ hw
  split
  · exact hw
  have hclean : P (if w.shm.vnpuAllSwapped v then w.cleanupSwapData v else w) := by
    unfold cleanupSwapData
    split
    · split
      · exact shmFree_induction (P := fun ps => P ⟨ps.1, ps.2, w.lastAlive⟩) v hw
          fun ps i hps => hfree ⟨ps.1, ps.2, w.lastAlive⟩ v i hps
      · exact hw
    · exact hw
  have hacks := foldlRecOn allSlots (fun (w : Watched) j => w.proxyAckMarked v j)
    (motive := P) hclean fun w hw i _ => proxyAckMarked_induction hack hw v i
  dsimp only
  generalize allSlots.foldl (fun (w : Watched) j => w.proxyAckMarked v j) _ = w₂ at hacks ⊢
  exact halive _ _ (hentry _ v (fun e => { e with hbmUsed := 0, processes := fun _ => .empty })
    (fun _ _ => .inr rfl) hacks)

include hack hfree hentry halive in
/-- What the parts of a poll keep, a poll keeps. -/
theorem poll_induction {w : Watched}
    (hdone : ∀ w, P w → P (w.onShm (·.tryCompleteSwapCmd))) (hw : P w) (now : Nat) :
    P (w.poll now) := by
  unfold poll reapDeadProcesses
  split
  · exact hw
  apply hdone
  have hpolled := foldlRecOn (range maxVnpuPerDie) (pollVnpu now) (motive := P) hw
    fun w hw v _ => pollVnpu_induction hack hfree hentry halive hw now v
  apply foldlRecOn _ _ (motive := P) hpolled
  intro w hw v _
  apply foldlRecOn _ _ (motive := P) hw
  intro w hw i _
  exact reapSlot_induction hack hfree hentry hw now processAliveTimeoutNs v i

end

/-! ### Processes that report in time -/

/-- The runtime of the vNPU has reported in time, as far as the watchdog looks at it. -/
def VnpuFresh (w : Watched) (now v : Nat) : Prop :=
  ∀ alive, w.lastAlive = some alive → w.shm.bitmapTest v = true → alive v ≠ 0 → alive v ≤ now →
    now - alive v ≤ podAliveTimeoutNs

/-- The process has reported in time, as far as the watchdog looks at it. -/
def HeartbeatFresh (now heartbeat : Nat) : Prop :=
  heartbeat ≠ 0 → heartbeat ≤ now → now - heartbeat ≤ processAliveTimeoutNs

section

variable {w : Watched} {u v : Nat} {i j : Slot}

theorem slot_freeSlot_of_ne (hne : v ≠ u ∨ i ≠ j) :
    (w.freeSlot u j).shm.slot v i = w.shm.slot v i :=
  slot_shmFreePerProcess_of_ne (w.pool, w.shm) hne

@[simp]
theorem vnpuBitmap_freeSlot : (w.freeSlot u j).shm.vnpuBitmap = w.shm.vnpuBitmap :=
  vnpuBitmap_shmFreePerProcess (w.pool, w.shm) u j

theorem acked_proxyAckMarked : ShmState.Acked w.shm (w.proxyAckMarked u j).shm u j := by
  unfold proxyAckMarked
  split
  · exact acked_proxyAckProcess
  · exact ⟨.inl rfl, rfl⟩

theorem slot_proxyAckMarked_of_ne (hne : v ≠ u ∨ i ≠ j) :
    (w.proxyAckMarked u j).shm.slot v i = w.shm.slot v i :=
  acked_proxyAckMarked.slot_of_ne hne

@[simp]
theorem vnpuBitmap_proxyAckMarked : (w.proxyAckMarked u j).shm.vnpuBitmap = w.shm.vnpuBitmap :=
  acked_proxyAckMarked.bitmap

@[simp]
theorem lastAlive_proxyAckMarked : (w.proxyAckMarked u j).lastAlive = w.lastAlive := by
  unfold proxyAckMarked
  split <;> rfl

/-- What the watchdog preserves of a slot that is not looked at: the slot, the bitmap and the
last sign of life. -/
structure SameSlot (w w' : Watched) (v : Nat) (i : Slot) : Prop where
  slot : w'.shm.slot v i = w.shm.slot v i
  bitmap : w'.shm.vnpuBitmap = w.shm.vnpuBitmap
  alive : w'.lastAlive = w.lastAlive

theorem SameSlot.refl (w : Watched) (v : Nat) (i : Slot) : SameSlot w w v i :=
  ⟨rfl, rfl, rfl⟩

theorem SameSlot.trans {w₁ w₂ : Watched} (h : SameSlot w w₁ v i) (h' : SameSlot w₁ w₂ v i) :
    SameSlot w w₂ v i :=
  ⟨h'.slot.trans h.slot, h'.bitmap.trans h.bitmap, h'.alive.trans h.alive⟩

theorem sameSlot_proxyAckMarked (hne : v ≠ u ∨ i ≠ j) : SameSlot w (w.proxyAckMarked u j) v i :=
  ⟨slot_proxyAckMarked_of_ne hne, vnpuBitmap_proxyAckMarked, lastAlive_proxyAckMarked⟩

theorem sameSlot_cleanupSwapData (hne : v ≠ u) : SameSlot w (w.cleanupSwapData u) v i := by
  unfold cleanupSwapData
  split
  · exact ⟨slot_shmFree_of_ne (w.pool, w.shm) i hne, vnpuBitmap_shmFree (w.pool, w.shm) u, rfl⟩
  · exact .refl w v i

/-- What the poll of a vNPU leaves alone: the slots, the bitmap and the sign of life of any
other vNPU. -/
structure OtherVnpu (w w' : Watched) (v : Nat) : Prop where
  slot : ∀ i, w'.shm.slot v i = w.shm.slot v i
  bitmap : w'.shm.vnpuBitmap = w.shm.vnpuBitmap
  alive : ∀ alive', w'.lastAlive = some alive' → ∃ alive, w.lastAlive = some alive ∧ alive v = alive' v

theorem OtherVnpu.refl (w : Watched) (v : Nat) : OtherVnpu w w v :=
  ⟨fun _ => rfl, rfl, fun alive h => ⟨alive, h, rfl⟩⟩

theorem OtherVnpu.fresh {w' : Watched} (ho : OtherVnpu w w' v)
    (h : VnpuFresh w now v) : VnpuFresh w' now v := by
  intro alive' hw' hb hne hle
  obtain ⟨alive, hw, heq⟩ := ho.alive alive' hw'
  rw [← heq] at hne hle ⊢
  refine h alive hw ?_ hne hle
  simpa only [bitmapTest, ho.bitmap] using hb

/-- Polling one virtual NPU leaves the others alone. -/
theorem pollVnpu_otherVnpu (now : Nat) (hvu : v ≠ u) : OtherVnpu w (pollVnpu now w u) v := by
  unfold pollVnpu
  split
  · exact .refl w v
  next alive halive =>
  have hupdate : ∀ alive', some (update alive u 0) = some alive' →
      ∃ alive, w.lastAlive = some alive ∧ alive v = alive' v := by
    intro alive' heq
    cases heq
    exact ⟨alive, halive, by simp [hvu]⟩
  split
  · exact .refl w v
  split
  · exact .refl w v
  split
  · exact ⟨fun _ => rfl, rfl, hupdate⟩
  split
  · exact .refl w v
  have hclean : ∀ i, SameSlot w (if w.shm.vnpuAllSwapped u then w.cleanupSwapData u else w) v i := by
    intro i
    split
    · exact sameSlot_cleanupSwapData hvu
    · exact .refl w v i
  have hacks := fun i => foldlRecOn allSlots (fun (w : Watched) j => w.proxyAckMarked u j)
    (motive := fun w' => SameSlot w w' v i) (hclean i)
    fun w' hw' j _ => hw'.trans (sameSlot_proxyAckMarked (.inl hvu))
  dsimp only
  generalize allSlots.foldl (fun (w : Watched) j => w.proxyAckMarked u j) _ = w₂ at hacks ⊢
  have hreset : (w₂.resetRuntimeState u).lastAlive = some (update alive u 0) := by
    simp [resetRuntimeState, (hacks .first).alive, halive]
  refine ⟨fun i => ?_, (hacks .first).bitmap, hreset ▸ hupdate⟩
  rw [← (hacks i).slot]
  simp [resetRuntimeState, ShmState.slot, ShmState.modifyEntry, hvu]

theorem pollVnpu_of_fresh (h : VnpuFresh w now v) (u : Nat) (i : Slot) :
    (pollVnpu now w u).shm.slot v i = w.shm.slot v i ∧ VnpuFresh (pollVnpu now w u) now v := by
  by_cases hvu : v = u
  swap
  · have ho := pollVnpu_otherVnpu (w := w) now hvu
    exact ⟨ho.slot i, ho.fresh h⟩
  subst hvu
  unfold pollVnpu
  split
  · exact ⟨rfl, h⟩
  next alive halive =>
  split
  · exact ⟨rfl, h⟩
  next hbit =>
  split
  · exact ⟨rfl, h⟩
  next hne =>
  split
  · refine ⟨rfl, fun alive' hw' _ hne' => ?_⟩
    cases hw'
    simp at hne'
  next hle =>
  split
  · exact ⟨rfl, h⟩
  next hlate =>
  exact absurd (h alive halive (by simpa using hbit) hne (by omega)) hlate

/-- The reaper leaves the slots alone that it is not looking at. -/
theorem slot_reapSlot_of_ne (now timeout : Nat) (hne : v ≠ u ∨ i ≠ j) :
    (reapSlot now timeout w u j).shm.slot v i = w.shm.slot v i := by
  have hack : (w.proxyAckMarked u j).shm.slot v i = w.shm.slot v i :=
    slot_proxyAckMarked_of_ne hne
  unfold reapSlot
  dsimp only
  split
  · split
    · rw [slot_freeSlot_of_ne hne, hack]
    · exact hack
  split
  · rfl
  split
  · rw [shm_onShm, slot_modifySlot_of_ne hne]
  split
  · rfl
  · rw [← hack, shm_onShm, slot_modifySlot_of_ne hne]
    split
    · rw [slot_freeSlot_of_ne hne, shm_onShm, slot_modifySlot_of_ne hne, slot_modifyEntry]
      exact fun _ => rfl
    · rw [shm_onShm, slot_modifySlot_of_ne hne, slot_modifyEntry]
      exact fun _ => rfl

/-- The slot as it was, up to a heartbeat that is still in time. -/
def KeptAlive (now : Nat) (pe : ProcessEntry) (w : Watched) (v : Nat) (i : Slot) : Prop :=
  ∃ heartbeat, HeartbeatFresh now heartbeat ∧
    w.shm.slot v i = { pe with lastHeartbeatNs := heartbeat }

variable {pe : ProcessEntry}

theorem KeptAlive.of_slot {w' : Watched}
    (h : KeptAlive now pe w v i) (hslot : w'.shm.slot v i = w.shm.slot v i) :
    KeptAlive now pe w' v i := by
  obtain ⟨heartbeat, hfresh, heq⟩ := h
  exact ⟨heartbeat, hfresh, hslot.trans heq⟩

theorem KeptAlive.reapSlot (hactive : pe.active = true)
    (h : KeptAlive now pe w v i) (u : Nat) (j : Slot) :
    KeptAlive now pe (reapSlot now processAliveTimeoutNs w u j) v i := by
  by_cases hne : v ≠ u ∨ i ≠ j
  · exact h.of_slot (slot_reapSlot_of_ne now processAliveTimeoutNs hne)
  -- the slot itself: an active process that is in time is left alone
  rw [not_or, not_not, not_not] at hne
  obtain ⟨rfl, rfl⟩ := hne
  obtain ⟨heartbeat, hfresh, hslot⟩ := h
  unfold Watched.reapSlot
  dsimp only
  split
  · next hdead => rw [hslot, hactive] at hdead; cases hdead
  split
  · exact ⟨heartbeat, hfresh, hslot⟩
  next hzero =>
  split
  · refine ⟨0, fun h => absurd rfl h, ?_⟩
    simp only [onShm, slot_modifySlot_self]
    rw [hslot]
  next hfuture =>
  split
  · exact ⟨heartbeat, hfresh, hslot⟩
  next hlate =>
  rw [hslot] at hzero hfuture hlate
  exact absurd (hfresh hzero (Nat.not_lt.mp hfuture)) hlate

theorem pollVnpus_of_fresh (h : VnpuFresh w now v) (us : List Nat) (i : Slot) :
    (us.foldl (pollVnpu now) w).shm.slot v i = w.shm.slot v i :=
  (foldlRecOn us (pollVnpu now)
    (motive := fun w' => w'.shm.slot v i = w.shm.slot v i ∧ VnpuFresh w' now v) ⟨rfl, h⟩
    fun _ hw u _ => ⟨(pollVnpu_of_fresh hw.2 u i).1.trans hw.1, (pollVnpu_of_fresh hw.2 u i).2⟩).1

theorem KeptAlive.reapSlots (hactive : pe.active = true)
    (h : KeptAlive now pe w v i) (us : List Nat) (js : List Slot) :
    KeptAlive now pe (us.foldl (fun w u =>
      js.foldl (fun w j => Watched.reapSlot now processAliveTimeoutNs w u j) w) w) v i := by
  refine foldlRecOn us _ (motive := fun w => KeptAlive now pe w v i) h ?_
  intro w hw u _
  refine foldlRecOn js _ (motive := fun w => KeptAlive now pe w v i) hw ?_
  intro w hw j _
  exact hw.reapSlot hactive u j

theorem slot_tryCompleteSwapCmd (w : Watched) :
    (w.onShm (·.tryCompleteSwapCmd)).shm.slot v i = w.shm.slot v i := by
  simp only [onShm, ShmState.tryCompleteSwapCmd]
  repeat' split
  all_goals rfl

/-- A process that has reported in time keeps its slot through a poll. -/
theorem slot_poll_of_fresh (hactive : (w.shm.slot v i).active = true)
    (hv : VnpuFresh w now v) (hp : HeartbeatFresh now (w.shm.slot v i).lastHeartbeatNs) :
    KeptAlive now (w.shm.slot v i) (w.poll now) v i := by
  unfold poll reapDeadProcesses
  split
  · exact ⟨_, hp, rfl⟩
  have hkept : KeptAlive now (w.shm.slot v i) ((range maxVnpuPerDie).foldl (pollVnpu now) w)
      v i := ⟨_, hp, pollVnpus_of_fresh hv _ i⟩
  have hreap := hkept.reapSlots hactive (range maxVnpuPerDie) allSlots
  exact hreap.of_slot (slot_tryCompleteSwapCmd _)

end

end Watched

end UbsVirt.Enpu
