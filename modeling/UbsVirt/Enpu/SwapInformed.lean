import UbsVirt.Enpu.SwapMonitor

/-!
# What monitor threads know of a command

The invariant behind the start of a swap-out. While a command is out, every monitor thread of
its target has seen its epoch or owes it; while one is being written, no thread handles one, and
the threads the loop of the write has passed are informed. A step that neither announces a
command nor touches the slot of a process leaves all of it alone. Source:
`vcann-rt/src/swap_monitor_thread.c:59-166`, `enpu-manager/core/src/shm_manager.c:594-659`.
-/

namespace UbsVirt.Enpu

open Interleaving ShmState CmdPc ProcessEntry

/-! ### What an access leaves alone -/

variable {pc : CmdPc} {i : Slot}

namespace CmdPc

/-- The thread has stored the target of a new command and not yet published it. -/
def inWrite : CmdPc → Bool
  | .storeOutTarget _ _ | .addSeq _ => true
  | pc => pc.writing

def scanned (i : Slot) : CmdPc → Prop
  | .loadActive _ _ rest _ => i ∉ rest
  | .storeMarker _ _ j rest _ => i ∉ j :: rest
  | .storeRefcount _ | .resetCompleted _ | .publish => True
  | _ => False

def acking : CmdPc → Bool
  | .idle | .ackExchange _ _ _ | .ackSub _ _ | .ackSeq _ _ | .ackAction _ _ | .ackScan _ _ _
  | .ackSeqAgain _ => true
  | .storeCompleted _ locked | .storeAction _ locked | .storeOut locked => !locked
  | _ => false

def announces : CmdPc → Bool
  | .storeTarget _ _ | .addSeq _ | .storeMarker _ _ _ _ _ | .publish => true
  | _ => false

def exchanged : CmdPc → Nat × Slot → Prop
  | .ackExchange v i _, x | .proxyExchange v i _, x => x = (v, i)
  | _, _ => False

theorem locked_of_inWrite (h : pc.inWrite = true) : pc.locked = true := by
  cases pc <;> simp_all [inWrite, writing, locked]

theorem inWrite_of_scanned (h : pc.scanned i) : pc.inWrite = true := by
  cases pc <;> simp_all [scanned, inWrite, writing]

theorem locked_of_announces (h : pc.announces = true) : pc.locked = true := by
  cases pc <;> simp_all [announces, locked]

theorem acking_spec (h : pc.acking = true) : pc.announces = false ∧ pc.locked = false := by
  cases pc <;> simp_all [acking, announces, locked]

end CmdPc

section

variable {ι : Type} {p : ι} {c c' : CmdShared ι} {pc : CmdPc} {touched : Nat × Slot → Prop}

/-- The command is not announced anew, and the slots are as before, as far as they say who takes
part in it; `touched` slots excepted. -/
structure Undisturbed (touched : Nat × Slot → Prop) (c c' : CmdShared ι) : Prop where
  target : c'.shm.swapCmd.targetVnpuId = c.shm.swapCmd.targetVnpuId
  cmdSeq : c'.shm.swapCmd.cmdSeq = c.shm.swapCmd.cmdSeq
  action : c'.shm.swapCmd.action = .out → c.shm.swapCmd.action = .out
  active : ∀ v i, ¬ touched (v, i) → (c'.shm.slot v i).active = (c.shm.slot v i).active
  marker : ∀ v i, ¬ touched (v, i) → c'.shm.marker v i = c.shm.marker v i

theorem Undisturbed.refl (touched : Nat × Slot → Prop) (c : CmdShared ι) :
    Undisturbed touched c c :=
  ⟨rfl, rfl, id, fun _ _ _ => rfl, fun _ _ _ => rfl⟩

section

variable (c : CmdShared ι) (v : Nat)

/-- A store to a slot touches that slot. -/
theorem Undisturbed.modifySlot (i : Slot) (f : ProcessEntry → ProcessEntry) :
    Undisturbed (· = (v, i)) c (c.modifySlot v i f) := by
  have hslot : ∀ w j, (w, j) ≠ (v, i) →
      (c.shm.modifySlot v i f).slot w j = c.shm.slot w j := by
    intro w j hne
    apply slot_modifySlot_of_ne
    by_contra hcon
    push Not at hcon
    exact hne (Prod.ext hcon.1 hcon.2)
  refine ⟨rfl, rfl, id, ?_, ?_⟩
  · intro w j hne
    exact congrArg ProcessEntry.active (hslot w j hne)
  · intro w j hne
    exact congrArg ackPendingSeq (hslot w j hne)

/-- A store to the other fields of a slot touches no slot. -/
theorem Undisturbed.modifySlot_same (i : Slot)
    {f : ProcessEntry → ProcessEntry} (hactive : ∀ pe, (f pe).active = pe.active)
    (hmarker : ∀ pe, (f pe).ackPendingSeq = pe.ackPendingSeq) (touched : Nat × Slot → Prop) :
    Undisturbed touched c (c.modifySlot v i f) := by
  have hother := Undisturbed.modifySlot c v i f
  have hown : (c.shm.modifySlot v i f).slot v i = f (c.shm.slot v i) :=
    slot_modifySlot_self ..
  refine ⟨rfl, rfl, id, ?_, ?_⟩
  · intro w j _
    by_cases hx : (w, j) = (v, i)
    · cases hx
      exact (congrArg ProcessEntry.active hown).trans (hactive _)
    · exact hother.active w j hx
  · intro w j _
    by_cases hx : (w, j) = (v, i)
    · cases hx
      exact (congrArg ackPendingSeq hown).trans (hmarker _)
    · exact hother.marker w j hx

/-- A store to the counter of a vNPU touches no slot. -/
theorem Undisturbed.modifyEntry {f : VnpuShmEntry → VnpuShmEntry}
    (hf : ∀ e, (f e).processes = e.processes) (touched : Nat × Slot → Prop) :
    Undisturbed touched c { c with shm := c.shm.modifyEntry v f } := by
  refine ⟨rfl, rfl, id, ?_, ?_⟩
  · intro w j _
    exact congrArg ProcessEntry.active (slot_modifyEntry c.shm v w j hf)
  · intro w j _
    exact congrArg ackPendingSeq (slot_modifyEntry c.shm v w j hf)

theorem Undisturbed.addEntry (e : VnpuShmEntry) :
    Undisturbed (·.1 = v) c { c with shm := (c.shm.addEntry v e).2 } := by
  unfold ShmState.addEntry
  split
  · exact .refl _ c
  split
  · exact .refl _ c
  have hslot : ∀ w j, w ≠ v → (Function.update c.shm.entries v e w).processes j =
      c.shm.slot w j := by
    intro w j hne
    rw [Function.update_of_ne hne]
    rfl
  refine ⟨rfl, rfl, id, ?_, ?_⟩
  · intro w j hne
    exact congrArg ProcessEntry.active (hslot w j hne)
  · intro w j hne
    exact congrArg ackPendingSeq (hslot w j hne)

theorem Undisturbed.removeEntry (touched : Nat × Slot → Prop) :
    Undisturbed touched c { c with shm := (c.shm.removeEntry v).2 } := by
  unfold ShmState.removeEntry
  split
  · exact .refl _ c
  split
  · exact .refl _ c
  have hquiet := Undisturbed.modifyEntry c v (f := fun e => { e with vnpuId := -1 })
    (fun _ => rfl) touched
  exact ⟨rfl, rfl, id, hquiet.active, hquiet.marker⟩

end

variable (p c pc) in
theorem perform_active (v : Nat) (i : Slot) :
    ((perform p c pc).1.shm.slot v i).active = (c.shm.slot v i).active := by
  have hmark : ∀ (w : Nat) (j : Slot) (seq : Nat),
      ((c.shm.setMarker w j seq).slot v i).active = (c.shm.slot v i).active := by
    intro w j seq
    unfold setMarker
    rw [slot_modifySlot]
    split
    · next heq =>
      rw [heq.1, heq.2]
    · rfl
  have hclear : ∀ (w : Nat) (j : Slot),
      ((c.shm.clearMarker w j).slot v i).active = (c.shm.slot v i).active :=
    fun w j => hmark w j 0
  fun_cases perform p c pc <;> first
    | exact hmark ..
    | exact hclear ..
    | rfl
    | simp

/-- An access that does not announce a command changes at most the mark it exchanges. -/
theorem perform_undisturbed (h : pc.announces = false) :
    Undisturbed pc.exchanged c (perform p c pc).1 := by
  refine ⟨?_, ?_, ?_, fun v i _ => perform_active p c pc v i, ?_⟩
  · rcases (performed p c pc).target with htarget | ⟨v, toSwapOut, rfl⟩
    · exact htarget
    · cases h
  · rcases (performed p c pc).cmdSeq with hseq | ⟨v, rfl⟩
    · exact hseq
    · cases h
  · fun_cases perform p c pc <;> simp_all [announces]
  · intro v i hne
    have hclear : ∀ (w : Nat) (j : Slot), (v, i) ≠ (w, j) →
        (c.shm.clearMarker w j).marker v i = c.shm.marker v i :=
      fun w j hne =>
        (Undisturbed.modifySlot c w j fun pe => { pe with ackPendingSeq := 0 }).marker v i hne
    revert h hne
    fun_cases perform p c pc <;> intro h hne <;> first
      | exact hclear _ _ hne
      | rfl
      | (simp only [CmdShared.acquire_shm]; done)
      | cases h

theorem acking_perform (h : pc.acking = true) : (perform p c pc).2.acking = true := by
  revert h
  fun_cases perform p c pc <;> (try split_ifs) <;> simp_all [acking]

variable (p c pc) in
theorem perform_ne_ackExchange (v : Nat) (i : Slot) (seq : Nat) :
    (perform p c pc).2 ≠ .ackExchange v i seq := by
  fun_cases perform p c pc <;> (try unfold CmdShared.acquire) <;> (try split) <;> simp

theorem perform_lock_of_acking (h : pc.acking = true) : (perform p c pc).1.lock = c.lock := by
  revert h
  fun_cases perform p c pc <;> simp [acking]

theorem inWrite_perform : (perform p c pc).2.inWrite = true →
    pc.inWrite = true ∨ ∃ v toSwapOut, pc = .storeTarget v toSwapOut := by
  fun_cases perform p c pc <;> (try unfold CmdShared.acquire) <;> (try split) <;>
    simp [inWrite, writing]

end

/-! ### The invariant -/

section

variable {ι : Type}

/-- The epoch of the command has been seen, or the slot owes it. -/
def Informed (c : CmdShared ι) (v : Nat) (i : Slot) (lastSeen : Nat) : Prop :=
  lastSeen = c.shm.swapCmd.cmdSeq ∨ c.shm.marker v i = c.shm.swapCmd.cmdSeq

/-- What a thread that writes a command knows of it. Acknowledgements are not called by the
manager. -/
def CmdPc.WriteOk (c : CmdShared ι) : CmdPc → Prop
  | .storeOutTarget v _ | .addSeq v =>
    c.shm.swapCmd.action ≠ .out ∧ c.shm.swapCmd.targetVnpuId = v
  | .loadActive v seq _ _ | .storeMarker v seq _ _ _ =>
    c.shm.swapCmd.action ≠ .out ∧ c.shm.swapCmd.targetVnpuId = v ∧ c.shm.swapCmd.cmdSeq = seq
  | .storeRefcount _ | .resetCompleted _ | .publish => c.shm.swapCmd.action ≠ .out
  | .ackExchange _ _ _ => False
  | _ => True

/-- What a monitor thread knows of the command it handles. -/
def MonPc.Ok (c : CmdShared ι) (v : Nat) (i : Slot) (lastSeen : Nat) : MonPc → Prop
  | .resetSwapped | .checkTarget => True
  | .checkAction target => target = v → c.shm.swapCmd.targetVnpuId = v
  | .loadSeq => c.shm.swapCmd.targetVnpuId = v ∧ Informed c v i lastSeen
  | .loadSwapped | .getEntry | .collect =>
    lastSeen = c.shm.swapCmd.cmdSeq ∧ c.shm.marker v i = lastSeen
  | .ack pc => pc.acking = true ∧
    ∀ w j seq, pc = .ackExchange w j seq → (w, j) = (v, i) ∧ lastSeen = c.shm.swapCmd.cmdSeq
  | _ => lastSeen = c.shm.swapCmd.cmdSeq

namespace Thread

def Ok (c : CmdShared ι) : Thread → Prop
  | .manager pc => pc.WriteOk c
  | .absent | .claiming _ _ => True
  | .resetting v i fields => (c.shm.slot v i).active = true ∧ .active ∉ fields
  | .recording v i | .leaving v i _ => (c.shm.slot v i).active = true
  | .monitor v i lastSeen pc => (c.shm.slot v i).active = true ∧ pc.Ok c v i lastSeen ∧
    (c.shm.swapCmd.action = .out → c.shm.swapCmd.targetVnpuId = v → Informed c v i lastSeen)

/-- The monitor thread has read that a command is out for it, and has not acknowledged yet. -/
def busy : Thread → Bool
  | .monitor _ _ _ (.checkAction _) => false
  | t => t.handling

def cmd : Thread → CmdPc
  | .manager pc => pc
  | _ => .idle

end Thread

/-- What holds between two threads: while one writes a command the other one handles none, the
monitor threads that the loop has passed are informed, and slots have one process each. -/
structure Pair (t u : Thread) (c : CmdShared ι) : Prop where
  busy : t.cmd.inWrite = true → u.busy = false
  told : ∀ i lastSeen pc, u = .monitor c.shm.swapCmd.targetVnpuId i lastSeen pc →
    t.cmd.scanned i → Informed c c.shm.swapCmd.targetVnpuId i lastSeen
  apart : ∀ x, t.slot? = some x → u.slot? ≠ some x

structure MonitorInv (s : DieSystem ι) : Prop where
  lock : ∀ p, (s.control p).cmd.locked = true → s.shared.lock = some p
  ok : ∀ p, (s.control p).Ok s.shared
  pair : ∀ p q, p ≠ q → Pair (s.control p) (s.control q) s.shared

end

/-! ### Threads that a step leaves alone -/

section

variable {ι : Type} {c c' : CmdShared ι} {touched : Nat × Slot → Prop} {v : Nat}

theorem Informed.frame {lastSeen : Nat} (h : Informed c v i lastSeen)
    (hc : Undisturbed touched c c') (hx : ¬ touched (v, i)) : Informed c' v i lastSeen := by
  unfold Informed
  rwa [hc.cmdSeq, hc.marker v i hx]

theorem CmdPc.WriteOk.frame (h : pc.WriteOk c) (hc : Undisturbed touched c c') : pc.WriteOk c' := by
  have haction : c.shm.swapCmd.action ≠ .out → c'.shm.swapCmd.action ≠ .out := mt hc.action
  cases pc <;> simp only [WriteOk, hc.target, hc.cmdSeq] at h ⊢ <;> tauto

/-- Only under the lock does a thread rely on the command. -/
theorem CmdPc.WriteOk.of_unlocked (h : pc.WriteOk c) (hfree : pc.locked = false) :
    pc.WriteOk c' := by
  cases pc <;> simp_all [WriteOk, locked]

theorem MonPc.Ok.frame {pc : MonPc} {lastSeen : Nat}
    (h : pc.Ok c v i lastSeen) (hc : Undisturbed touched c c') (hx : ¬ touched (v, i)) :
    pc.Ok c' v i lastSeen := by
  cases pc with
  | loadSeq =>
    refine ⟨?_, h.2.frame hc hx⟩
    rw [hc.target]
    exact h.1
  | resetSwapped => trivial
  | checkTarget => trivial
  | _ => simpa only [MonPc.Ok, hc.target, hc.cmdSeq, hc.marker v i hx] using h

variable {u : Thread}

namespace Thread

theorem Ok.active (h : u.Ok c) (hu : u.slot? = some (v, i)) : (c.shm.slot v i).active = true := by
  cases u <;> simp only [slot?, Option.some.injEq, Prod.mk.injEq, reduceCtorEq] at hu <;>
    obtain ⟨rfl, rfl⟩ := hu
  · exact h.1
  · exact h
  · exact h.1
  · exact h

theorem Ok.frame (h : u.Ok c) (hc : Undisturbed touched c c')
    (hx : ∀ x, u.slot? = some x → ¬ touched x) : u.Ok c' := by
  have hactive : ∀ v i, u.slot? = some (v, i) → (c'.shm.slot v i).active = true := by
    intro v i hu
    rw [hc.active v i (hx _ hu)]
    exact h.active hu
  cases u with
  | manager pc => exact WriteOk.frame h hc
  | absent => trivial
  | claiming v rest => trivial
  | resetting v i fields => exact ⟨hactive v i rfl, h.2⟩
  | recording v i => exact hactive v i rfl
  | leaving v i pc => exact hactive v i rfl
  | monitor v i lastSeen pc =>
    refine ⟨hactive v i rfl, h.2.1.frame hc (hx _ rfl), ?_⟩
    intro hout htarget
    rw [hc.target] at htarget
    exact (h.2.2 (hc.action hout) htarget).frame hc (hx _ rfl)

/-- While a command is being written, a thread that is not busy relies on little. -/
theorem Ok.calm (h : u.Ok c) (hbusy : u.busy = false)
    (hfree : u.cmd.locked = false) (hout : c'.shm.swapCmd.action ≠ .out)
    (hactive : ∀ v i, (c'.shm.slot v i).active = (c.shm.slot v i).active)
    (htarget : u.handling = false ∨
      c'.shm.swapCmd.targetVnpuId = c.shm.swapCmd.targetVnpuId) : u.Ok c' := by
  cases u with
  | manager pc => exact WriteOk.of_unlocked h hfree
  | absent => trivial
  | claiming v rest => trivial
  | resetting v i fields => exact ⟨(hactive v i).trans h.1, h.2⟩
  | recording v i => exact (hactive v i).trans h
  | leaving v i pc => exact (hactive v i).trans h
  | monitor v i lastSeen pc =>
    refine ⟨(hactive v i).trans h.1, ?_, fun hcon => absurd hcon hout⟩
    cases pc with
    | checkAction target =>
      rintro rfl
      rcases htarget with hne | htarget
      · simp [handling] at hne
      · rw [htarget]
        exact h.2.1 rfl
    | ack pc =>
      refine ⟨h.2.1.1, ?_⟩
      rintro w j seq rfl
      cases hbusy
    | resetSwapped => trivial
    | checkTarget => trivial
    | _ => cases hbusy

theorem Ok.action (h : u.Ok c) (hwrite : u.cmd.inWrite = true) : c.shm.swapCmd.action ≠ .out := by
  cases u with
  | manager pc =>
    cases pc <;> simp_all [cmd, inWrite, writing, Ok, WriteOk]
  | _ => cases hwrite

/-- A command is published when the monitor threads of its target are informed. -/
theorem Ok.publish (h : u.Ok c) (hfree : u.cmd.locked = false)
    (htold : ∀ i lastSeen pc, u = .monitor c.shm.swapCmd.targetVnpuId i lastSeen pc →
      Informed c c.shm.swapCmd.targetVnpuId i lastSeen) :
    u.Ok { c with shm := c.shm.setAction .out } := by
  cases u with
  | manager pc => exact WriteOk.of_unlocked h hfree
  | monitor v i lastSeen pc =>
    refine ⟨h.1, ?_, ?_⟩
    · cases pc <;> exact h.2.1
    · rintro - rfl
      exact htold i lastSeen pc rfl
  | _ => exact h

theorem busy_of_handling (h : u.handling = false) : u.busy = false := by
  fun_cases busy u
  · rfl
  · exact h

end Thread

theorem Pair.frame {t : Thread} (h : Pair t u c) (hc : Undisturbed touched c c')
    (hx : ∀ x, u.slot? = some x → ¬ touched x) : Pair t u c' := by
  refine ⟨h.busy, ?_, h.apart⟩
  rw [hc.target]
  intro i lastSeen pc hu hscan
  refine (h.told i lastSeen pc hu hscan).frame hc (hx _ ?_)
  rw [hu]
  rfl

end

end UbsVirt.Enpu
