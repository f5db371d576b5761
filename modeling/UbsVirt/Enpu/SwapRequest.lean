import UbsVirt.Enpu.SwapBuffers

/-!
# Requests to swap out

A process that finds too little free memory asks the manager to swap something out: it
writes a request into the shared state and spins until the request is completed. The
resolver thread takes the request, picks a vNPU and writes a command for it; whoever
completes that command completes the request. The loop of the resolver and the call of the
process are modelled access by access. Source:
`enpu-manager/core/src/swap_resolver_thread.c:24-88`, `swap_resolver.c:270-457`,
`vcann-rt/src/npu_manager.c:465-501`.
-/

namespace UbsVirt.Enpu

open Run Watched

/-! ### The asking process -/

/-- `SWAP_OUT_MAX_RETRY`, `npu_manager.c:463`. -/
def swapOutMaxRetry : Nat := 10

/-- Where a process is in `check_and_swap_out`. -/
inductive AskPc where
  | measure
  | waitIdle
  | readAction
  | storeTarget
  | storeAction
  | storeCompleted
  | waitDone
  deriving DecidableEq

/-- A process inside `check_and_swap_out`; its callers ask for borrowed memory or for all. -/
structure Asking where
  vnpu : Nat
  flag : SwapOutFlag
  asks : flag ≠ .none
  retry : Nat
  pc : AskPc

namespace ShmState

def modifySwapOut (st : ShmState) (f : SwapOutCmd → SwapOutCmd) : ShmState :=
  { st with swapOutCmd := f st.swapOutCmd }

end ShmState

/-- The next access of `check_and_swap_out`, `npu_manager.c:465-501`; `none` when the call
returns. `leaves` tells that `rtMemGetInfoEx` failed or reported enough memory. -/
def Asking.step (leaves : Bool) (st : ShmState) (a : Asking) : ShmState × Option Asking :=
  match a.pc with
  | .measure =>
    if swapOutMaxRetry ≤ a.retry then (st, none)
    else if leaves then (st, none)
    else (st, some { a with pc := .waitIdle })
  | .waitIdle => (st, some (if st.swapOutCmd.completed then { a with pc := .readAction } else a))
  | .readAction =>
    let existing := st.swapOutCmd.action
    if existing = .none ∨ a.flag = .fromAll ∧ existing = .fromBorrowed then
      (st, some { a with pc := .storeTarget })
    else (st, some { a with pc := .waitDone })
  | .storeTarget =>
    (st.modifySwapOut ({ · with targetVnpuId := a.vnpu }), some { a with pc := .storeAction })
  | .storeAction =>
    (st.modifySwapOut ({ · with action := a.flag }), some { a with pc := .storeCompleted })
  | .storeCompleted =>
    (st.modifySwapOut ({ · with completed := false }), some { a with pc := .waitDone })
  | .waitDone =>
    (st, some (if st.swapOutCmd.completed then { a with retry := a.retry + 1, pc := .measure }
      else a))

/-! ### The resolver thread -/

/-- Where the resolver thread is in its loop. -/
inductive ResolverPc where
  | top
  | swapIn
  | watermark
  | load (preSwap : Bool)
  | store (preSwap : Bool) (toSwapOut : SwapOutFlag)
  | choose (preSwap : Bool) (toSwapOut : SwapOutFlag)
  | prepare (v : Nat) (toSwapOut : SwapOutFlag)
  | commit (v : Nat) (toSwapOut : SwapOutFlag)
  deriving DecidableEq

open ResolverPc (noConfusion)

/-- The request the resolver has taken and not yet turned into a command. -/
def ResolverPc.holds : ResolverPc → SwapOutFlag
  | .choose _ toSwapOut | .prepare _ toSwapOut | .commit _ toSwapOut => toSwapOut
  | _ => .none

/-- The next access of the loop, `swap_resolver_thread.c:30-84`. A choice or a command that
fails ends the iteration. -/
def ResolverPc.step (reached : Nat → Nat → Bool) (lastKernelTimeNs : Nat → Nat)
    (header : Slot → Bool) (w : Watched) : ResolverPc → Watched × ResolverPc
  | .top => (w, if w.shm.isSwapPending then .top else .swapIn)
  | .swapIn => (w.checkAndSwapIn, .watermark)
  | .watermark => (w, .load (w.shm.checkWatermark reached))
  | .load preSwap =>
    if w.shm.swapOutCmd.action ≠ .none then (w, .store preSwap w.shm.swapOutCmd.action)
    else (w, .choose preSwap .none)
  | .store preSwap toSwapOut =>
    (w.onShm (·.modifySwapOut ({ · with action := .none })), .choose preSwap toSwapOut)
  | .choose preSwap toSwapOut =>
    if preSwap || toSwapOut ≠ .none then
      match selectCandidate (w.shm.getIdleModels lastKernelTimeNs toSwapOut) with
      | none => (w, .top)
      | some c => (w, .prepare c.vnpuId toSwapOut)
    else (w, .top)
  -- `swap_resolver_write_swap_command` up to the call of `npu_allocator_write_swap_cmd`
  | .prepare v toSwapOut =>
    if !w.shm.swapCmd.completed || !w.shm.bitmapTest v || !w.shm.anySlot v (·.active) then (w, .top)
    else match allocBuffers header v allSlots [] w with
      | (.success, w') => (w', .commit v toSwapOut)
      | (_, w') => (w', .top)
  | .commit v toSwapOut => (w.onShm fun st => (st.writeSwapCmd v .out toSwapOut).2, .top)

/-! ### The die -/

def BufferOp.writesNoCommand : BufferOp → Bool
  | .resolve .. => false
  | .die (.writeSwapCmd ..) _ => false
  | _ => true

/-- A die with its resolver thread and the processes that ask for memory. -/
structure RequestState where
  die : Watched
  lastKernelTimeNs : Nat → Nat
  resolver : ResolverPc
  asking : Nat → Option Asking

/-- The steps: what allocations, processes and the watchdog do to the die, a kernel that
runs, a process that enters or goes on in `check_and_swap_out` or is killed there, and the
resolver. -/
inductive RequestStep where
  | die (op : BufferOp) (h : op.writesNoCommand = true)
  | kernel (v time : Nat)
  | enter (p v : Nat) (flag : SwapOutFlag) (h : flag ≠ .none)
  | ask (p : Nat) (leaves : Bool)
  | kill (p : Nat)
  | resolve (header : Slot → Bool)

namespace RequestState

def step (reached : Nat → Nat → Bool) (s : RequestState) : RequestStep → RequestState
  | .die op _ => { s with die := s.die.bufferStep op }
  | .kernel v time => { s with lastKernelTimeNs := Function.update s.lastKernelTimeNs v time }
  | .enter p v flag h =>
    match s.asking p with
    | some _ => s
    | none =>
      let a : Asking := { vnpu := v, flag := flag, asks := h, retry := 0, pc := .measure }
      { s with asking := Function.update s.asking p (some a) }
  | .ask p leaves =>
    match s.asking p with
    | none => s
    | some a =>
      let r := a.step leaves s.die.shm
      { s with die := s.die.onShm fun _ => r.1, asking := Function.update s.asking p r.2 }
  | .kill p => { s with asking := Function.update s.asking p none }
  | .resolve header =>
    let r := s.resolver.step reached s.lastKernelTimeNs header s.die
    { s with die := r.1, resolver := r.2 }

/-- A die whose shared state was created and initialised. -/
def init (dieId : String) (hbmTotal : UInt64) (pool : Tlsf.Pool)
    (lastAlive : Option (Nat → Nat)) : RequestState :=
  { die := ⟨pool, (ShmState.create dieId).initState hbmTotal, lastAlive⟩
    lastKernelTimeNs := fun _ => 0
    resolver := .top
    asking := fun _ => none }

end RequestState

variable {v : Nat}

namespace ShmState

def Serving (st : ShmState) : Prop :=
  st.isSwapPending = true ∧ st.swapCmd.targetVnpuId = st.swapOutCmd.targetVnpuId

/-- A request that is not completed still stands, or a command for it is pending. -/
def RequestKept (st : ShmState) : Prop :=
  st.swapOutCmd.completed = false → st.swapOutCmd.action ≠ .none ∨ st.Serving

instance (st : ShmState) : Decidable st.Serving :=
  inferInstanceAs (Decidable (_ ∧ _))

instance (st : ShmState) : Decidable st.RequestKept :=
  inferInstanceAs (Decidable (_ → _))

/-! ### What completes a request -/

/-- Everything but the resolver and the asking processes: the request stays as it is, and a
pending command is at most completed, with the request it serves. -/
structure Advance (st st' : ShmState) : Prop where
  action : st'.swapOutCmd.action = st.swapOutCmd.action
  target : st'.swapOutCmd.targetVnpuId = st.swapOutCmd.targetVnpuId
  cmdTarget : st'.swapCmd.targetVnpuId = st.swapCmd.targetVnpuId
  completed : st.swapCmd.completed = true → st'.swapCmd.completed = true
  requested : st.swapOutCmd.completed = true → st'.swapOutCmd.completed = true
  served : st.Serving → st'.swapCmd.completed = true → st'.swapOutCmd.completed = true

namespace Advance

variable {st st' st'' : ShmState}

theorem of_same (hcmd : st'.swapCmd = st.swapCmd) (hout : st'.swapOutCmd = st.swapOutCmd) :
    Advance st st' := by
  refine ⟨by rw [hout], by rw [hout], by rw [hcmd], by rw [hcmd]; exact id,
    by rw [hout]; exact id, fun hserving hdone => ?_⟩
  have hpending := hserving.1
  rw [isSwapPending, ← hcmd, hdone] at hpending
  cases hpending

theorem refl (st : ShmState) : Advance st st :=
  of_same rfl rfl

theorem serving (h : Advance st st') (hs : st.Serving) :
    st'.Serving ∨ st'.swapOutCmd.completed = true := by
  cases hdone : st'.swapCmd.completed with
  | false =>
    left
    refine ⟨by rw [isSwapPending, hdone]; rfl, ?_⟩
    rw [h.cmdTarget, h.target, hs.2]
  | true => exact .inr (h.served hs hdone)

theorem trans (h : Advance st st') (h' : Advance st' st'') : Advance st st'' where
  action := h'.action.trans h.action
  target := h'.target.trans h.target
  cmdTarget := h'.cmdTarget.trans h.cmdTarget
  completed hc := h'.completed (h.completed hc)
  requested hr := h'.requested (h.requested hr)
  served hs hdone := by
    rcases h.serving hs with hs' | hr
    · exact h'.served hs' hdone
    · exact h'.requested hr

theorem markCompleted : Advance st st.markCompleted := by
  refine ⟨?_, ?_, rfl, fun _ => rfl, ?_, ?_⟩
  · unfold ShmState.markCompleted
    dsimp only
    split <;> rfl
  · unfold ShmState.markCompleted
    dsimp only
    split <;> rfl
  · intro hr
    unfold ShmState.markCompleted
    dsimp only
    split
    · rfl
    · exact hr
  · intro hs _
    unfold ShmState.markCompleted
    dsimp only
    rw [if_pos hs.2]

theorem clearMarker (v : Nat) (i : Slot) : Advance st (st.clearMarker v i) :=
  of_same rfl rfl

theorem decRefcount : Advance st st.decRefcount := by
  refine ⟨rfl, rfl, rfl, id, id, fun hs hdone => ?_⟩
  have hpending := hs.1
  have hdone' : st.swapCmd.completed = true := hdone
  rw [isSwapPending, hdone'] at hpending
  cases hpending

theorem proxyAckProcess (v : Nat) (i : Slot) : Advance st (st.proxyAckProcess v i) := by
  have hclear : Advance st (st.clearMarker v i).decRefcount := (clearMarker v i).trans decRefcount
  simp only [ShmState.proxyAckProcess]
  split
  · exact refl st
  split
  · exact refl st
  split
  · exact refl st
  split
  · exact clearMarker v i
  split
  · exact hclear
  · exact hclear.trans markCompleted

theorem tryCompleteSwapCmd : Advance st st.tryCompleteSwapCmd := by
  unfold ShmState.tryCompleteSwapCmd
  split
  · exact refl st
  split
  · exact refl st
  split
  · exact refl st
  · exact markCompleted

theorem tryAckSwapCmd (v : Nat) (i : Slot) (seq : Nat) :
    Advance st (st.tryAckSwapCmd v i seq).2 := by
  have hclear : Advance st (st.clearMarker v i).decRefcount := (clearMarker v i).trans decRefcount
  simp only [ShmState.tryAckSwapCmd]
  split
  · exact refl st
  split
  · exact clearMarker v i
  · unfold finishIfEpoch
    dsimp only
    split
    · exact hclear
    split
    · exact hclear
    split
    · exact hclear
    · exact hclear.trans markCompleted

theorem initState (hbmTotal : UInt64) : Advance st (st.initState hbmTotal) :=
  ⟨rfl, rfl, rfl, fun _ => rfl, fun _ => rfl, fun _ _ => rfl⟩

theorem registerProcess (v now : Nat) : Advance st (st.registerProcess v now).2 := by
  unfold ShmState.registerProcess
  split
  · exact refl st
  split
  · exact refl st
  · exact of_same rfl rfl

theorem counted {i : Slot} (h : Counted st st' v i) : Advance st st' :=
  of_same h.cmd h.outCmd

theorem addEntry (v : Nat) (e : VnpuShmEntry) : Advance st (st.addEntry v e).2 := by
  unfold ShmState.addEntry
  split
  · exact refl st
  split
  · exact refl st
  · exact of_same rfl rfl

theorem removeEntry (v : Nat) : Advance st (st.removeEntry v).2 := by
  unfold ShmState.removeEntry
  split
  · exact refl st
  split
  · exact refl st
  · exact of_same rfl rfl

end Advance

end ShmState

namespace Watched

open ShmState

variable {w : Watched}

theorem advance_freeSlot (v : Nat) (i : Slot) : Advance w.shm (w.freeSlot v i).shm :=
  .of_same (swapCmd_shmFreePerProcess (w.pool, w.shm) v i)
    (swapOutCmd_shmFreePerProcess (w.pool, w.shm) v i)

theorem advance_shmFree (v : Nat) : Advance w.shm (shmFree (w.pool, w.shm) v).2 :=
  shmFree_induction (P := fun ps => Advance w.shm ps.2) v (.refl w.shm) fun ps i hps =>
    hps.trans (.of_same (swapCmd_shmFreePerProcess ps v i) (swapOutCmd_shmFreePerProcess ps v i))

theorem advance_poll (now : Nat) : Advance w.shm (w.poll now).shm := by
  apply poll_induction (P := fun w' => Advance w.shm w'.shm)
  · intro w' v i h
    exact h.trans (.proxyAckProcess v i)
  · intro w' v i h
    exact h.trans (advance_freeSlot v i)
  · intro w' v f _ h
    exact h.trans (.of_same rfl rfl)
  · intro w' alive h
    exact h
  · intro w' h
    exact h.trans .tryCompleteSwapCmd
  · exact .refl w.shm

theorem advance_checkAndSwapIn : Advance w.shm w.checkAndSwapIn.shm := by
  unfold checkAndSwapIn
  split
  · exact .refl w.shm
  apply List.foldlRecOn _ _ (motive := fun w' : Watched => Advance w.shm w'.shm) (.refl w.shm)
  intro w' hw v _
  apply List.foldlRecOn _ _ (motive := fun w' : Watched => Advance w.shm w'.shm) hw
  intro w' hw i _
  unfold reclaimSlot
  dsimp only
  split
  · exact hw.trans (advance_freeSlot v i)
  · exact hw

theorem advance_allocSlot {w' : Watched} {header : Bool} {i : Slot} {size : Nat}
    (h : w.allocSlot header v i size = some w') : Advance w.shm w'.shm := by
  obtain ⟨off, pool, -, rfl⟩ := allocSlot_some h
  exact .of_same rfl rfl

theorem advance_allocBuffers (header : Slot → Bool) (is done : List Slot) :
    Advance w.shm (allocBuffers header v is done w).2.shm := by
  induction is generalizing done w with
  | nil => exact .refl w.shm
  | cons i is ih =>
    simp only [allocBuffers]
    split
    · exact ih done
    split
    · exact List.foldlRecOn done _ (motive := fun w' : Watched => Advance w.shm w'.shm)
        (.refl w.shm) fun w' hw j _ => hw.trans (advance_freeSlot v j)
    · next w' halloc => exact (advance_allocSlot halloc).trans (ih _)

theorem advance_step (op : DieOp) (hop : ∀ v action flag, op ≠ .writeSwapCmd v action flag) :
    Advance w.shm (w.step op).shm := by
  cases op with
  | writeSwapCmd v action flag => exact absurd rfl (hop v action flag)
  | initState total => exact .initState total
  | proxyAck v i => exact .proxyAckProcess v i
  | tryComplete => exact .tryCompleteSwapCmd
  | poll now => exact advance_poll now
  | tryAck v i seq => exact .tryAckSwapCmd v i seq
  | register v now => exact .registerProcess v now
  | unregister v i => exact .counted counted_unregisterProcess
  | heartbeat v i now => exact .of_same rfl rfl
  | alive v now => exact .refl w.shm
  | addEntry v e => exact .addEntry v _
  | freeBuffers v => exact advance_shmFree v
  | removeEntry v => exact .removeEntry v
  | recoverEntry v e => exact .of_same rfl rfl

theorem advance_bufferStep {op : BufferOp} (hop : op.writesNoCommand = true) :
    Advance w.shm (w.bufferStep op).shm := by
  cases op with
  | resolve header v action flag => cases hop
  | reclaim => exact advance_checkAndSwapIn
  | swapOut v i act =>
    simp only [bufferStep]
    split
    · exact .refl w.shm
    · exact .of_same rfl rfl
  | swapIn v i =>
    simp only [bufferStep]
    split
    · exact .counted (counted_finishSwapIn _)
    · exact .refl w.shm
  | malloc v i size => exact .counted (counted_addUsed size)
  | free v i size => exact .counted (counted_subUsed size)
  | release v =>
    simp only [bufferStep]
    split
    · exact (advance_step (.freeBuffers v) (by rintro _ _ _ ⟨⟩)).trans (.removeEntry v)
    · exact .refl w.shm
  | die op hkeeps =>
    apply advance_step
    rintro v action flag rfl
    cases hop

end Watched

/-! ### Runs -/

namespace RequestState

open ShmState

/-- The request is still to be taken, was taken by the resolver, or a command serves it. -/
def Held (s : RequestState) : Prop :=
  s.die.shm.swapOutCmd.action ≠ .none ∨ s.die.shm.Serving ∨ s.resolver.holds ≠ .none

/-- A flag the resolver is about to take is a request, and a vNPU it is about to command
exists. -/
def Placed : ResolverPc → Prop
  | .store _ flag => flag ≠ .none
  | .commit v _ => v < maxVnpuPerDie
  | _ => True

/-- An open request is held, and no command is pending while the resolver is in its loop. -/
structure RequestInv (s : RequestState) : Prop where
  held : s.die.shm.swapOutCmd.completed = false → s.Held
  idle : s.resolver ≠ .top → s.die.shm.swapCmd.completed = true
  placed : Placed s.resolver

instance (s : RequestState) : Decidable s.Held :=
  inferInstanceAs (Decidable (_ ∨ _ ∨ _))

/-- When the resolver may go on: a request it has taken leads to a command, that is, there is
a vNPU to choose, it has an entry and an active process, and there is room for its buffers. -/
def MayResolve (s : RequestState) (header : Slot → Bool) : ResolverPc → Prop
  | .choose _ flag => flag ≠ .none → s.die.shm.getIdleModels s.lastKernelTimeNs flag ≠ []
  | .prepare v flag => flag ≠ .none → s.die.shm.bitmapTest v = true ∧
      s.die.shm.anySlot v (·.active) = true ∧
      (allocBuffers header v allSlots [] s.die).1 = .success
  | .commit v flag => flag ≠ .none → s.die.shm.anySlot v (·.active) = true
  | _ => True

instance (s : RequestState) (header : Slot → Bool) : DecidablePred (s.MayResolve header)
  | .choose _ flag => inferInstanceAs
      (Decidable (flag ≠ .none → s.die.shm.getIdleModels s.lastKernelTimeNs flag ≠ []))
  | .prepare _ _ => inferInstanceAs (Decidable (_ → _ ∧ _ ∧ _))
  | .commit _ _ => inferInstanceAs (Decidable (_ → _))
  | .top | .swapIn | .watermark | .load _ | .store _ _ => isTrue trivial

/-- When a process of the vNPU may go on: it names the vNPU only while no other request is
served for another one, and marks its request as open only while a request is held. -/
def MayAsk (s : RequestState) (v : Nat) : AskPc → Prop
  | .storeTarget => s.die.shm.swapOutCmd.completed = true ∨
      s.die.shm.swapOutCmd.action ≠ .none ∨ s.resolver.holds ≠ .none ∨
      v = s.die.shm.swapOutCmd.targetVnpuId
  | .storeCompleted => s.Held
  | _ => True

instance (s : RequestState) (v : Nat) : DecidablePred (s.MayAsk v)
  | .storeTarget => inferInstanceAs (Decidable (_ ∨ _ ∨ _ ∨ _))
  | .storeCompleted => inferInstanceAs (Decidable s.Held)
  | .measure | .waitIdle | .readAction | .storeAction | .waitDone => isTrue trivial

def MayAct (s : RequestState) : RequestStep → Prop
  | .resolve header => s.MayResolve header s.resolver
  | .ask p _ => ∀ a ∈ s.asking p, s.MayAsk a.vnpu a.pc
  | _ => True

instance (s : RequestState) : DecidablePred s.MayAct
  | .resolve header => inferInstanceAs (Decidable (s.MayResolve header s.resolver))
  | .ask p _ => inferInstanceAs (Decidable (∀ a ∈ s.asking p, s.MayAsk a.vnpu a.pc))
  | .die _ _ | .kernel _ _ | .enter _ _ _ _ | .kill _ => isTrue trivial

theorem requestInv_init (dieId : String) (hbmTotal : UInt64) (pool : Tlsf.Pool)
    (lastAlive : Option (Nat → Nat)) : RequestInv (init dieId hbmTotal pool lastAlive) where
  held := by intro h; cases h
  idle h := absurd rfl h
  placed := trivial

variable {s : RequestState} {w : Watched}

/-- The resolver and the asking processes apart, a step keeps the invariant. -/
theorem RequestInv.advance (h : RequestInv s) (hw : Advance s.die.shm w.shm)
    (lastKernelTimeNs : Nat → Nat) (asking : Nat → Option Asking) :
    RequestInv { s with die := w, lastKernelTimeNs, asking } where
  held hopen := by
    have hopen' : s.die.shm.swapOutCmd.completed = false := by
      rw [← Bool.not_eq_true]
      intro hr
      rw [hw.requested hr] at hopen
      cases hopen
    rcases h.held hopen' with haction | hserving | hholds
    · exact .inl (hw.action ▸ haction)
    · refine .inr (.inl ((hw.serving hserving).resolve_right ?_))
      rw [hopen]
      exact Bool.false_ne_true
    · exact .inr (.inr hholds)
  idle hne := hw.completed (h.idle hne)
  placed := h.placed

/-- An access of a process that asks for memory. -/
theorem RequestInv.ask (h : RequestInv s) {p : Nat} {leaves : Bool} {a : Asking}
    (hp : s.asking p = some a) (hmay : MayAct s (.ask p leaves)) (asking : Nat → Option Asking) :
    RequestInv { s with die := s.die.onShm fun _ => (a.step leaves s.die.shm).1, asking } := by
  have hsame : RequestInv { s with asking } := h.advance (.refl s.die.shm) _ _
  have hask : s.MayAsk a.vnpu a.pc := hmay a hp
  unfold Asking.step
  split
  · repeat' split
    all_goals exact hsame
  · exact hsame
  · dsimp only
    split
    all_goals exact hsame
  · next hpc =>
    rw [hpc] at hask
    refine ⟨fun hopen => ?_, h.idle, h.placed⟩
    -- the request is served for another vNPU, unless the process names the same
    rcases hask with hdone | haction | hholds | htarget
    · have hopen' : s.die.shm.swapOutCmd.completed = false := hopen
      rw [hdone] at hopen'
      cases hopen'
    · exact .inl haction
    · exact .inr (.inr hholds)
    · rcases h.held hopen with haction | hserving | hholds
      · exact .inl haction
      · exact .inr (.inl ⟨hserving.1, hserving.2.trans htarget.symm⟩)
      · exact .inr (.inr hholds)
  · exact ⟨fun _ => .inl a.asks, h.idle, h.placed⟩
  · next hpc =>
    rw [hpc] at hask
    exact ⟨fun _ => hask, h.idle, h.placed⟩
  · exact hsame

/-- The resolver moves on without touching the commands. -/
theorem RequestInv.move (h : RequestInv s) (hw : Advance s.die.shm w.shm)
    {pc : ResolverPc} (hholds : pc.holds = s.resolver.holds)
    (hidle : pc ≠ .top → s.die.shm.swapCmd.completed = true) (hplaced : Placed pc) :
    RequestInv { s with die := w, resolver := pc } where
  held hopen := by
    rcases (h.advance hw s.lastKernelTimeNs s.asking).held hopen with haction | hserving | hheld
    · exact .inl haction
    · exact .inr (.inl hserving)
    · exact .inr (.inr (hholds ▸ hheld))
  idle hne := hw.completed (hidle hne)
  placed := hplaced

/-- The resolver gives up, holding no request. -/
theorem RequestInv.giveUp (h : RequestInv s) (hw : Advance s.die.shm w.shm)
    (hholds : s.resolver.holds = .none) : RequestInv { s with die := w, resolver := .top } := by
  apply h.move hw
  · exact hholds.symm
  · exact fun hne => absurd rfl hne
  · trivial

variable {flag : SwapOutFlag}

/-- A command that is written for a request is pending for the vNPU the request then names. -/
theorem serving_writeSwapCmd {st : ShmState}
    (hv : v < maxVnpuPerDie) (hflag : flag ≠ .none) (hactive : st.anySlot v (·.active) = true) :
    (st.writeSwapCmd v .out flag).2.Serving := by
  have hcount : (allSlots.filter fun i => (st.slot v i).active).length ≠ 0 := by
    unfold anySlot at hactive
    rw [List.any_eq_true] at hactive
    obtain ⟨i, hi, hi'⟩ := hactive
    apply Nat.ne_of_gt
    exact List.length_pos_of_mem (List.mem_filter.mpr ⟨hi, hi'⟩)
  simp [writeSwapCmd, Nat.not_le.mpr hv, Serving, isSwapPending, hflag, hcount]

theorem RequestInv.commit (h : RequestInv s) (hpc : s.resolver = .commit v flag)
    (hmay : flag ≠ .none → s.die.shm.anySlot v (·.active) = true) :
    RequestInv { s with
      die := s.die.onShm fun st => (st.writeSwapCmd v .out flag).2
      resolver := .top } where
  held hopen := by
    have hv : v < maxVnpuPerDie := by
      have hplaced := h.placed
      rwa [hpc] at hplaced
    by_cases hflag : flag = .none
    · -- the request was not this one's: nothing was pending, so it still stands
      subst hflag
      have hout : (s.die.shm.writeSwapCmd v .out .none).2.swapOutCmd = s.die.shm.swapOutCmd := by
        simp [writeSwapCmd, Nat.not_le.mpr hv]
      have hopen' : s.die.shm.swapOutCmd.completed = false := by
        rwa [← hout]
      rcases h.held hopen' with haction | hserving | hholds
      · left
        rwa [shm_onShm, hout]
      · have hpending := hserving.1
        rw [isSwapPending, h.idle (by rw [hpc]; exact noConfusion)] at hpending
        cases hpending
      · rw [hpc] at hholds
        exact absurd rfl hholds
    · exact .inr (.inl (serving_writeSwapCmd hv hflag (hmay hflag)))
  idle hne := absurd rfl hne
  placed := trivial

/-- The resolver allocates the buffers of the victim. -/
theorem RequestInv.prepare (h : RequestInv s) {header : Slot → Bool}
    (hpc : s.resolver = .prepare v flag) (hmay : flag ≠ .none → s.die.shm.bitmapTest v = true ∧
      s.die.shm.anySlot v (·.active) = true ∧
      (allocBuffers header v allSlots [] s.die).1 = .success) (reached : Nat → Nat → Bool) :
    RequestInv (s.step reached (.resolve header)) := by
  have hidle := h.idle (by rw [hpc]; exact noConfusion)
  have halloc := advance_allocBuffers (w := s.die) (v := v) header allSlots []
  have hnone : flag = .none → s.resolver.holds = .none := by
    rintro rfl
    rw [hpc]
    rfl
  simp only [step, hpc, ResolverPc.step]
  split
  · next hskip =>
    apply h.giveUp (.refl s.die.shm)
    apply hnone
    by_contra hflag
    obtain ⟨hbit, hactive, -⟩ := hmay hflag
    simp [hidle, hbit, hactive] at hskip
  · next hgo =>
    simp only [Bool.or_eq_true, Bool.not_eq_true', not_or, Bool.not_eq_false] at hgo
    split
    · next w' heq =>
      rw [heq] at halloc
      apply h.move halloc
      · rw [hpc]
        rfl
      · exact fun _ => hidle
      · have hbit := hgo.1.2
        simp only [bitmapTest, Bool.and_eq_true, decide_eq_true_eq] at hbit
        exact hbit.1
    · next status w' hfail heq =>
      rw [heq] at halloc
      apply h.giveUp halloc
      apply hnone
      by_contra hflag
      have hsuccess := (hmay hflag).2.2
      rw [heq] at hsuccess
      exact hfail hsuccess

theorem RequestInv.choose (h : RequestInv s) {preSwap : Bool}
    (hpc : s.resolver = .choose preSwap flag)
    (hmay : flag ≠ .none → s.die.shm.getIdleModels s.lastKernelTimeNs flag ≠ [])
    (reached : Nat → Nat → Bool) (header : Slot → Bool) :
    RequestInv (s.step reached (.resolve header)) := by
  have hidle := h.idle (by rw [hpc]; exact noConfusion)
  have hnone : flag = .none → s.resolver.holds = .none := by
    rintro rfl
    rw [hpc]
    rfl
  simp only [step, hpc, ResolverPc.step]
  split
  swap
  · next hskip =>
    apply h.giveUp (.refl s.die.shm)
    apply hnone
    by_contra hflag
    simp [hflag] at hskip
  split
  · next hselect =>
    apply h.giveUp (.refl s.die.shm)
    apply hnone
    by_contra hflag
    have hsome := selectCandidate_isSome (hmay hflag)
    rw [hselect] at hsome
    cases hsome
  · apply h.move (.refl s.die.shm)
    · rw [hpc]
      rfl
    · exact fun _ => hidle
    · trivial

/-- Every step of the resolver keeps the invariant. -/
theorem RequestInv.resolve (h : RequestInv s) {header : Slot → Bool}
    (hmay : MayAct s (.resolve header)) (reached : Nat → Nat → Bool) :
    RequestInv (s.step reached (.resolve header)) := by
  cases hpc : s.resolver with
  | top =>
    simp only [step, hpc, ResolverPc.step]
    split
    · exact h.giveUp (.refl s.die.shm) (by rw [hpc]; rfl)
    · next hpending =>
      rw [isSwapPending, Bool.not_eq_true', Bool.not_eq_false] at hpending
      exact h.move (.refl s.die.shm) (by rw [hpc]; rfl) (fun _ => hpending) trivial
  | swapIn =>
    have hidle := h.idle (by rw [hpc]; exact noConfusion)
    simp only [step, hpc, ResolverPc.step]
    exact h.move advance_checkAndSwapIn (by rw [hpc]; rfl) (fun _ => hidle) trivial
  | watermark =>
    have hidle := h.idle (by rw [hpc]; exact noConfusion)
    simp only [step, hpc, ResolverPc.step]
    exact h.move (.refl s.die.shm) (by rw [hpc]; rfl) (fun _ => hidle) trivial
  | load preSwap =>
    have hidle := h.idle (by rw [hpc]; exact noConfusion)
    simp only [step, hpc, ResolverPc.step]
    split
    · next haction =>
      exact h.move (.refl s.die.shm) (by rw [hpc]; rfl) (fun _ => hidle) haction
    · exact h.move (.refl s.die.shm) (by rw [hpc]; rfl) (fun _ => hidle) trivial
  | store preSwap flag =>
    have hidle := h.idle (by rw [hpc]; exact noConfusion)
    have hflag := h.placed
    rw [hpc] at hflag
    simp only [step, hpc, ResolverPc.step]
    exact ⟨fun _ => .inr (.inr hflag), fun _ => hidle, trivial⟩
  | choose preSwap flag =>
    simp only [MayAct, hpc] at hmay
    exact h.choose hpc hmay reached header
  | prepare v flag =>
    simp only [MayAct, hpc] at hmay
    exact h.prepare hpc hmay reached
  | commit v flag =>
    simp only [MayAct, hpc] at hmay
    simp only [step, hpc, ResolverPc.step]
    exact h.commit hpc hmay

theorem RequestInv.step (h : RequestInv s) {l : RequestStep} (hmay : MayAct s l)
    (reached : Nat → Nat → Bool) : RequestInv (s.step reached l) := by
  cases l with
  | die op hop => exact h.advance (advance_bufferStep hop) _ _
  | kernel v time | kill p => exact h.advance (.refl s.die.shm) _ _
  | enter p v flag hflag =>
    simp only [RequestState.step]
    split
    · exact h
    · exact h.advance (.refl s.die.shm) _ _
  | ask p leaves =>
    cases hp : s.asking p with
    | none => simpa only [RequestState.step, hp] using h
    | some a =>
      simp only [RequestState.step, hp]
      exact h.ask hp hmay _
  | resolve header => exact h.resolve hmay reached

/-- In every run whose steps may be taken, whenever the resolver is between two iterations,
an open request still stands or a command for the vNPU it names is pending. -/
theorem requests_kept (reached : Nat → Nat → Bool) (dieId : String) (hbmTotal : UInt64)
    (pool : Tlsf.Pool) (lastAlive : Option (Nat → Nat)) (run : List RequestStep)
    (hrun : EachStep (step reached) MayAct (init dieId hbmTotal pool lastAlive) run) :
    Throughout (step reached) (fun s => s.resolver = .top → s.die.shm.RequestKept)
      (init dieId hbmTotal pool lastAlive) run := by
  have hinv := throughout_of_step (requestInv_init dieId hbmTotal pool lastAlive)
    (fun s l hs hmay => hs.step hmay reached) hrun
  apply hinv.mono
  intro s hs htop hopen
  rcases hs.held hopen with haction | hserving | hholds
  · exact .inl haction
  · exact .inr hserving
  · rw [htop] at hholds
    exact absurd rfl hholds

def oversubscribed : VnpuShmEntry :=
  { VnpuShmEntry.zero with hbmLimit := 1 }

def askOnce : List RequestStep :=
  [.enter 7 0 .fromBorrowed (by decide), .ask 7 false, .ask 7 false, .ask 7 false, .ask 7 false,
    .ask 7 false, .ask 7 false]

/-- vNPU 1 holds 100 bytes and runs less recently than vNPU 0; the resolver takes the request
and commands vNPU 1, whose process acknowledges. -/
def servedRequest : List RequestStep :=
  [.die (.die (.addEntry 0 oversubscribed) rfl) rfl, .die (.die (.addEntry 1 oversubscribed) rfl) rfl,
    .die (.die (.register 1 1) rfl) rfl, .die (.malloc 1 .first 100) rfl, .kernel 0 5] ++ askOnce ++
  List.replicate 8 (.resolve fun _ => true) ++
  [.die (.die (.tryAck 1 .first 1) rfl) rfl, .ask 7 false]

theorem servedRequest_kept :
    Throughout (step fun _ _ => false) (fun s => s.resolver = .top → s.die.shm.RequestKept)
      (init "die0" 64 (Tlsf.init 8192) none) servedRequest := by
  apply requests_kept
  decide +kernel

/-- The same request on a die without another vNPU: the resolver takes it and finds nothing to
swap out. -/
def droppedRequest : List RequestStep :=
  [.die (.die (.addEntry 0 oversubscribed) rfl) rfl] ++ askOnce ++
  List.replicate 6 (.resolve fun _ => true)

theorem droppedRequest_lost :
    ¬ Throughout (step fun _ _ => false) (fun s => s.resolver = .top → s.die.shm.RequestKept)
      (init "die0" 64 (Tlsf.init 8192) none) droppedRequest := by
  intro h
  exact absurd (h.last (by decide +kernel)) (by decide +kernel)

end RequestState

end UbsVirt.Enpu
