import UbsVirt.Enpu.SwapInformed

/-!
# Who starts a swap-out

A monitor thread never looks at the mark of its own slot before it copies: it goes by the
target, the action and the epoch it has read one after the other. When the manager writes the
next command in between, or the watchdog acknowledges for a process that still runs, the thread
copies for an epoch its slot does not owe. Under the condition `MayPoll` it does not. Source:
`vcann-rt/src/swap_monitor_thread.c:59-166`, `enpu-manager/core/src/shm_manager.c:594-659`.
-/

namespace UbsVirt.Enpu

open Interleaving Run ShmState Config CmdPc MonPc Undisturbed

/-! ### Accesses of a process -/

section

variable {ι : Type} {p : ι} {n : Nat} {c : CmdShared ι} {v : Nat} {i : Slot} {lastSeen : Nat}

def MonPc.exchanged : MonPc → Nat × Slot → Prop
  | .ack pc => pc.exchanged
  | _ => fun _ => False

variable {pc : MonPc}

theorem MonPc.Ok.exchanged (h : pc.Ok c v i lastSeen) {x : Nat × Slot}
    (hx : pc.exchanged x) : x = (v, i) ∧ lastSeen = c.shm.swapCmd.cmdSeq := by
  cases pc with
  | ack pc =>
    cases pc with
    | ackExchange w j seq =>
      obtain ⟨hown, hseen⟩ := h.2 w j seq rfl
      exact ⟨hx.trans hown, hseen⟩
    | proxyExchange w j seq => cases h.1
    | _ => exact hx.elim
  | _ => exact hx.elim

theorem MonPc.next_undisturbed (h : pc.Ok c v i lastSeen) :
    Undisturbed pc.exchanged c (pc.next p n c v i lastSeen).1 := by
  cases pc with
  | resetSwapped | storeSize bytes | subUsed bytes dec | storeSwapped =>
    apply modifySlot_same <;> exact fun _ => rfl
  | loadSeq =>
    unfold next
    dsimp only
    split <;> exact .refl _ c
  | subVnpuUsed dec => apply Undisturbed.modifyEntry; exact fun _ => rfl
  | ack pc =>
    have hquiet := perform_undisturbed (p := p) (c := c) (acking_spec h.1).1
    cases pc with
    | idle => exact .refl _ c
    | _ => exact hquiet
  | _ => exact .refl _ c

theorem MonPc.next_active (h : pc.Ok c v i lastSeen) :
    ((pc.next p n c v i lastSeen).1.shm.slot v i).active = (c.shm.slot v i).active := by
  have hquiet := next_undisturbed (p := p) (n := n) h
  cases pc with
  | ack pc =>
    have hactive := perform_active p c pc v i
    cases pc with
    | idle => rfl
    | _ => exact hactive
  | _ => exact hquiet.active v i id

theorem MonPc.next_lock (h : pc.Ok c v i lastSeen) :
    (pc.next p n c v i lastSeen).1.lock = c.lock := by
  cases pc with
  | loadSeq =>
    unfold next
    dsimp only
    split <;> rfl
  | ack pc =>
    have hlock := perform_lock_of_acking (p := p) (c := c) h.1
    cases pc with
    | idle => rfl
    | _ => exact hlock
  | _ => rfl

/-- An acknowledgement is for the slot of the thread and the epoch it has seen. -/
theorem MonPc.Ok.startAck (h : lastSeen = c.shm.swapCmd.cmdSeq) :
    (MonPc.startAck v i lastSeen).Ok c v i lastSeen := by
  unfold MonPc.startAck CmdOp.entry
  dsimp only
  split
  · exact ⟨rfl, fun _ _ _ hcon => nomatch hcon⟩
  · refine ⟨rfl, ?_⟩
    intro w j seq hpc
    cases hpc
    exact ⟨rfl, h⟩

/-- An informed thread stays informed: its mark is exchanged only after it has seen the
epoch. -/
theorem MonPc.informed_next (hok : pc.Ok c v i lastSeen) (h : Informed c v i lastSeen) :
    Informed (pc.next p n c v i lastSeen).1 v i (pc.next p n c v i lastSeen).2.1 := by
  have hquiet := next_undisturbed (p := p) (n := n) hok
  by_cases hseq : pc = .loadSeq
  · subst hseq
    unfold next
    dsimp only
    split
    · exact h
    · exact .inl rfl
  have hsame : (pc.next p n c v i lastSeen).2.1 = lastSeen := by
    fun_cases next p n c v i lastSeen pc <;> first
      | rfl
      | exact absurd rfl hseq
  rw [hsame]
  by_cases hx : pc.exchanged (v, i)
  · left
    rw [hquiet.cmdSeq]
    exact (hok.exchanged hx).2
  · exact h.frame hquiet hx

/-- What a monitor thread knows after its access. -/
theorem MonPc.Ok.next (h : pc.Ok c v i lastSeen)
    (hinf : c.shm.swapCmd.action = .out → c.shm.swapCmd.targetVnpuId = v →
      Informed c v i lastSeen) :
    (pc.next p n c v i lastSeen).2.2.Ok (pc.next p n c v i lastSeen).1 v i
      (pc.next p n c v i lastSeen).2.1 := by
  cases pc with
  | resetSwapped => trivial
  | checkTarget => exact id
  | checkAction target =>
    unfold next
    dsimp only
    split
    · trivial
    · trivial
    next hout =>
    split
    · trivial
    next hv =>
    have htarget := h (not_not.mp hv)
    exact ⟨htarget, hinf hout htarget⟩
  | loadSeq =>
    unfold next
    dsimp only
    split
    · trivial
    next hne =>
    refine ⟨rfl, ?_⟩
    exact h.2.resolve_left fun heq => hne heq.symm
  | loadSwapped =>
    unfold next
    dsimp only
    split
    · exact .startAck h.1
    · exact h
  | getEntry =>
    unfold next
    dsimp only
    split
    · exact h
    · exact .startAck h.1
  | collect =>
    unfold next
    dsimp only
    split
    · exact .startAck h.1
    · exact h.1
  | copy =>
    unfold next
    dsimp only
    split
    · exact .startAck h
    · exact h
  | storeSize bytes => exact h
  | loadUsed bytes | loadVnpuUsed bytes =>
    unfold next
    dsimp only
    split <;> exact h
  | subUsed bytes dec => exact h
  | subVnpuUsed dec => exact h
  | storeSwapped => exact Ok.startAck (c := c.modifySlot v i _) h
  | ack pc =>
    have hack := acking_perform (p := p) (c := c) h.1
    have hne := perform_ne_ackExchange p c pc
    cases pc with
    | idle => trivial
    | _ => exact ⟨hack, fun w j seq hcon => absurd hcon (hne w j seq)⟩

/-- A thread becomes busy only when it reads that a command is out. -/
theorem MonPc.busy_next (h : (Thread.monitor v i (pc.next p n c v i lastSeen).2.1
      (pc.next p n c v i lastSeen).2.2).busy = true) :
    (Thread.monitor v i lastSeen pc).busy = true ∨ c.shm.swapCmd.action = .out := by
  cases pc with
  | resetSwapped => cases h
  | checkTarget => cases h
  | checkAction target =>
    unfold next at h
    dsimp only at h
    split at h
    · cases h
    · cases h
    next hout => exact .inr hout
  | ack pc =>
    have hne := perform_ne_ackExchange p c pc
    left
    cases pc with
    | idle => cases h
    | ackExchange w j seq => rfl
    | _ =>
      exfalso
      unfold next at h
      dsimp only at h
      generalize (perform p c _).2 = pc' at h hne
      cases pc' with
      | ackExchange w j seq => exact hne w j seq rfl
      | _ => cases h
  | _ => exact .inl rfl

/-- What the step of a process may do. -/
structure ProcessStep (c : CmdShared ι) (t : Thread) (r : CmdShared ι × Thread) : Prop where
  quiet : ∃ touched, Undisturbed touched c r.1 ∧
    ∀ v i, touched (v, i) → t.slot? = some (v, i) ∨ (c.shm.slot v i).active = false
  lock : r.1.lock = c.lock
  cmd : r.2.cmd = .idle
  slot : ∀ v i, r.2.slot? = some (v, i) → t.slot? = some (v, i) ∨ (c.shm.slot v i).active = false
  ok : r.2.Ok r.1
  busy : r.2.busy = true → t.busy = true ∨ c.shm.swapCmd.action = .out
  informed : ∀ v i lastSeen pc, r.2 = .monitor v i lastSeen pc →
    (∀ lastSeen pc, t = .monitor v i lastSeen pc → Informed c v i lastSeen) →
    Informed r.1 v i lastSeen

variable {t : Thread}

/-- A step that leaves the shared state alone and does not become a monitor thread. -/
theorem ProcessStep.of_same {t' : Thread} (hcmd : t'.cmd = .idle)
    (hslot : ∀ x, t'.slot? = some x → t.slot? = some x) (hok : t'.Ok c)
    (hmon : ∀ v i lastSeen pc, t' ≠ .monitor v i lastSeen pc) : ProcessStep c t (c, t') := by
  refine ⟨⟨fun _ => False, .refl _ c, nofun⟩, rfl, hcmd, fun v i h => .inl (hslot _ h), hok, ?_,
    fun v i lastSeen pc h => absurd h (hmon v i lastSeen pc)⟩
  intro hbusy
  cases t' with
  | monitor v i lastSeen pc => exact absurd rfl (hmon v i lastSeen pc)
  | _ => cases hbusy

/-- A store to the own slot by a process without a monitor thread. -/
theorem ProcessStep.of_store {t' : Thread} {f : ProcessEntry → ProcessEntry}
    (ht : t.slot? = some (v, i) ∨ (c.shm.slot v i).active = false)
    (hcmd : t'.cmd = .idle) (hslot : ∀ x, t'.slot? = some x → x = (v, i))
    (hok : t'.Ok (c.modifySlot v i f)) (hmon : ∀ w j lastSeen pc, t' ≠ .monitor w j lastSeen pc) :
    ProcessStep c t (c.modifySlot v i f, t') := by
  refine ⟨⟨(· = (v, i)), .modifySlot c v i f, ?_⟩, rfl, hcmd, ?_, hok, ?_,
    fun v i lastSeen pc h => absurd h (hmon v i lastSeen pc)⟩
  · intro w j hx
    cases hx
    exact ht
  · intro w j hw
    cases hslot _ hw
    exact ht
  · intro hbusy
    cases t' with
    | monitor v i lastSeen pc => exact absurd rfl (hmon v i lastSeen pc)
    | _ => cases hbusy

theorem active_clear {field : SlotField} (hne : field ≠ .active)
    (h : (c.shm.slot v i).active = true) :
    ((c.modifySlot v i (·.clear field)).shm.slot v i).active = true := by
  have hslot : ((c.modifySlot v i (·.clear field)).shm.slot v i) =
      (c.shm.slot v i).clear field := slot_modifySlot_self c.shm v i (·.clear field)
  rw [hslot]
  cases field with
  | active => exact absurd rfl hne
  | _ => exact h

theorem LeavePc.next_process {pc : LeavePc} (hok : (c.shm.slot v i).active = true) :
    ProcessStep c (.leaving v i pc) (pc.next c v i) := by
  cases pc with
  | loadUsed => exact .of_same rfl (fun _ => id) hok nofun
  | subUsed remaining =>
    have hquiet := Undisturbed.modifyEntry c v
      (f := fun e => { e with hbmUsed := subU64 e.hbmUsed remaining }) (fun _ => rfl)
      fun _ => False
    exact ⟨⟨_, hquiet, nofun⟩, rfl, rfl, fun _ _ => .inl, (hquiet.active v i id).trans hok, nofun,
      nofun⟩
  | clearUsed | clearSwapped =>
    refine .of_store (.inl rfl) rfl ?_ (active_clear nofun hok) nofun
    exact fun x hx => (Option.some.inj hx).symm
  | clearActive => exact .of_store (.inl rfl) rfl nofun trivial nofun

/-- One access of a process thread. -/
theorem Thread.next_process (hok : t.Ok c) (ht : ∀ pc, t ≠ .manager pc) :
    ProcessStep c t (t.next p n c) := by
  cases t with
  | manager pc => exact absurd rfl (ht pc)
  | absent => exact .of_same rfl nofun trivial nofun
  | claiming v rest =>
    cases rest with
    | nil => exact .of_same rfl nofun trivial nofun
    | cons i rest =>
      unfold Thread.next
      dsimp only
      split
      · exact .of_same rfl nofun trivial nofun
      next hfree =>
      have hslot := slot_modifySlot_self c.shm v i ({ · with active := true })
      refine .of_store (.inr (by simpa using hfree)) rfl ?_ ⟨?_, by decide⟩ nofun
      · exact fun x hx => (Option.some.inj hx).symm
      · exact congrArg ProcessEntry.active hslot
  | resetting v i fields =>
    cases fields with
    | nil => exact .of_same rfl (fun _ => id) hok.1 nofun
    | cons field fields =>
      have hfield : field ≠ .active := by
        rintro rfl
        exact hok.2 List.mem_cons_self
      refine .of_store (.inl rfl) rfl ?_ ⟨active_clear hfield hok.1, ?_⟩ nofun
      · exact fun x hx => (Option.some.inj hx).symm
      · exact fun hmem => hok.2 (List.mem_cons_of_mem _ hmem)
  | recording v i =>
    refine ⟨⟨fun _ => False, .refl _ c, nofun⟩, rfl, rfl, fun _ _ => .inl,
      ⟨hok, trivial, fun _ _ => .inl rfl⟩, nofun, ?_⟩
    intro w j lastSeen pc heq _
    cases heq
    exact .inl rfl
  | leaving v i pc => exact LeavePc.next_process hok
  | monitor v i lastSeen pc =>
    obtain ⟨hactive, hpc, hinf⟩ := hok
    have hquiet := next_undisturbed (p := p) (n := n) hpc
    have hactive' : ((pc.next p n c v i lastSeen).1.shm.slot v i).active = true := by
      rwa [next_active hpc]
    refine ⟨⟨pc.exchanged, hquiet, ?_⟩, next_lock hpc, rfl, fun _ _ => .inl,
      ⟨hactive', hpc.next hinf, ?_⟩, busy_next, ?_⟩
    · intro w j hx
      rw [(hpc.exchanged hx).1]
      exact .inl rfl
    · intro hout htarget
      exact informed_next hpc (hinf (hquiet.action hout) (hquiet.target.symm.trans htarget))
    · intro w j seen pc' heq hold
      cases heq
      exact informed_next hpc (hold lastSeen pc rfl)

end

/-! ### Accesses of the manager -/

section

variable {ι : Type} {p : ι} {c : CmdShared ι} {pc : CmdPc}

/-- What a thread that writes a command knows after its access. -/
theorem CmdPc.WriteOk.perform (h : pc.WriteOk c)
    (hstore : ∀ v toSwapOut, pc = .storeTarget v toSwapOut → c.shm.swapCmd.action ≠ .out) :
    (perform p c pc).2.WriteOk (perform p c pc).1 := by
  revert h hstore
  fun_cases UbsVirt.Enpu.perform p c pc <;> (try unfold CmdShared.acquire) <;> (try split) <;>
    simp_all [WriteOk]

/-- The loop of the write informs the monitor threads of its target. -/
theorem informed_perform {i : Slot} {lastSeen : Nat} (hok : pc.WriteOk c)
    (hactive : (c.shm.slot c.shm.swapCmd.targetVnpuId i).active = true)
    (hold : pc.scanned i → Informed c c.shm.swapCmd.targetVnpuId i lastSeen)
    (hscan : (perform p c pc).2.scanned i) :
    Informed (perform p c pc).1 c.shm.swapCmd.targetVnpuId i lastSeen := by
  cases pc with
  | addSeq v => exact absurd (mem_allSlots i) hscan
  | loadActive v seq rest count =>
    cases rest with
    | nil => exact hold List.not_mem_nil
    | cons j rest =>
      obtain ⟨-, rfl, -⟩ := hok
      unfold perform at hscan
      dsimp only at hscan
      split at hscan
      · exact hold hscan
      next hfree =>
      have hne : i ≠ j := by
        rintro rfl
        exact hfree hactive
      exact hold fun hmem => hscan ((List.mem_cons.mp hmem).resolve_left hne)
  | storeMarker v seq j rest count =>
    obtain ⟨-, rfl, hseq⟩ := hok
    by_cases hij : i = j
    · subst hij
      right
      have hslot := slot_modifySlot_self c.shm c.shm.swapCmd.targetVnpuId i
        fun pe => { pe with ackPendingSeq := seq }
      exact (congrArg ProcessEntry.ackPendingSeq hslot).trans hseq.symm
    · have hmem : i ∉ j :: rest := fun hmem => hscan ((List.mem_cons.mp hmem).resolve_left hij)
      refine (hold hmem).frame (modifySlot c _ j _) ?_
      exact fun hx => hij (Prod.mk.inj hx).2
  | storeRefcount count => exact hold trivial
  | resetCompleted count => exact hold trivial
  | storeTarget v toSwapOut => exact hscan.elim
  | storeOutTarget v toSwapOut => exact hscan.elim
  | publish => exact hscan.elim
  | _ =>
    exfalso
    have hwrite := inWrite_perform (inWrite_of_scanned hscan)
    simp [inWrite, writing] at hwrite

/-- A thread that is not the one acting is not under the lock with it. -/
theorem MonitorInv.unlocked {s : DieSystem ι} (h : MonitorInv s) {q : ι} (hne : q ≠ p)
    (hp : (s.control p).cmd.locked = true) : (s.control q).cmd.locked = false := by
  by_contra hq
  have hlock := h.lock q (by simpa using hq)
  rw [h.lock p hp] at hlock
  exact hne (Option.some.inj hlock).symm

variable {s : DieSystem ι}

/-- What the other threads know after an access of the manager. -/
theorem MonitorInv.ok_of_manager (h : MonitorInv s) (hp : s.control p = .manager pc)
    (hmay : MayGoAhead s (.manager pc)) {q : ι} (hne : q ≠ p) :
    (s.control q).Ok (perform p s.shared pc).1 := by
  have hok : pc.WriteOk s.shared := by
    have := h.ok p
    rwa [hp] at this
  have hpair := h.pair p q hne.symm
  rw [hp] at hpair
  have hfree : pc.locked = true → (s.control q).cmd.locked = false := by
    intro hlocked
    apply h.unlocked hne
    rwa [hp]
  cases hann : pc.announces with
  | false =>
    refine (h.ok q).frame (perform_undisturbed hann) ?_
    intro x hx hex
    cases pc with
    | ackExchange v i seq => exact hok
    | proxyExchange v i seq =>
      rw [hex] at hx
      exact hmay q hx
    | _ => exact hex
  | true =>
    have hcmd := hfree (locked_of_announces hann)
    have hactive := perform_active p s.shared pc
    cases pc with
    | storeTarget v toSwapOut =>
      have hidle := hmay.2 q
      refine (h.ok q).calm (Thread.busy_of_handling hidle) hcmd ?_ hactive (.inl hidle)
      exact hmay.1
    | addSeq v | storeMarker v seq i rest count =>
      exact (h.ok q).calm (hpair.busy rfl) hcmd hok.1 hactive (.inr rfl)
    | publish =>
      refine (h.ok q).publish hcmd ?_
      exact fun i lastSeen pc hq => hpair.told i lastSeen pc hq trivial
    | _ => cases hann

/-- An access of the manager keeps the invariant. -/
theorem MonitorInv.manager [DecidableEq ι] (h : MonitorInv s) (hp : s.control p = .manager pc)
    (hmay : MayGoAhead s (.manager pc)) :
    MonitorInv (s.act p ((perform p s.shared pc).1, .manager (perform p s.shared pc).2)) := by
  have hok : pc.WriteOk s.shared := by
    have := h.ok p
    rwa [hp] at this
  have hpair : ∀ q, q ≠ p → Pair (.manager pc) (s.control q) s.shared := by
    intro q hne
    have := h.pair p q hne.symm
    rwa [hp] at this
  have hlock : pc.locked = true → s.shared.lock = some p := by
    have := h.lock p
    rwa [hp] at this
  constructor
  case lock =>
    apply forall_act
      (I := fun q (t : Thread) (c : CmdShared ι) => t.cmd.locked = true → c.lock = some q) h.lock
    · exact (goesOn ..).locked hlock
    intro q hne hold hlocked
    rcases (performed p s.shared pc).lock with heq | ⟨hpc, -⟩ | ⟨hfree, -⟩
    · exact heq.trans (hold hlocked)
    · have hq := h.unlocked (p := p) hne (by rw [hp]; exact hpc)
      rw [hq] at hlocked
      cases hlocked
    · rw [hold hlocked] at hfree
      cases hfree
  case ok =>
    apply forall_act (I := fun _ (t : Thread) (c : CmdShared ι) => t.Ok c) h.ok
    · apply hok.perform
      rintro v toSwapOut rfl
      exact hmay.1
    · exact fun q hne _ => h.ok_of_manager hp hmay hne
  case pair =>
    apply forall_act_pair h.pair
    · intro q hne
      refine ⟨?_, ?_, nofun⟩
      · intro hwrite
        rcases inWrite_perform hwrite with hold | ⟨v, toSwapOut, rfl⟩
        · exact (hpair q hne).busy hold
        · exact Thread.busy_of_handling (hmay.2 q)
      · rcases (performed p s.shared pc).target with htarget | ⟨v, toSwapOut, rfl⟩
        swap
        · exact fun _ _ _ _ => False.elim
        change ∀ i lastSeen pcq, s.control q =
          .monitor (perform p s.shared pc).1.shm.swapCmd.targetVnpuId i lastSeen pcq → _
        rw [htarget]
        intro i lastSeen pcq hq hscan
        have hactive := (h.ok q).active (by rw [hq]; rfl)
        exact informed_perform hok hactive ((hpair q hne).told i lastSeen pcq hq) hscan
    · intro q hne
      exact ⟨fun _ => rfl, nofun, fun _ _ => nofun⟩
    · intro q q' hq hq' hqq hold
      cases hlocked : pc.locked with
      | true =>
        have hfree := h.unlocked (p := p) hq (by rw [hp]; exact hlocked)
        refine ⟨hold.busy, ?_, hold.apart⟩
        intro i lastSeen pcq _ hscan
        rw [locked_of_inWrite (inWrite_of_scanned hscan)] at hfree
        cases hfree
      | false =>
        have hann : pc.announces = false := by
          by_contra hann
          rw [locked_of_announces (by simpa using hann)] at hlocked
          cases hlocked
        refine hold.frame (perform_undisturbed hann) ?_
        intro x _ hex
        cases pc with
        | ackExchange v i seq => exact hok
        | proxyExchange v i seq => cases hlocked
        | _ => exact hex

end

/-! ### Runs -/

section

variable {ι : Type} [DecidableEq ι] {s : DieSystem ι} {p : ι}

/-- A step of a process keeps the invariant. -/
theorem MonitorInv.process (h : MonitorInv s) {r : CmdShared ι × Thread}
    (hr : ProcessStep s.shared (s.control p) r) : MonitorInv (s.act p r) := by
  obtain ⟨touched, hquiet, htouched⟩ := hr.quiet
  -- another process is not touched: its slot is its own, and active
  have hothers : ∀ q, q ≠ p → ∀ x, (s.control q).slot? = some x → ¬ touched x := by
    intro q hne x hq hx
    rcases htouched x.1 x.2 hx with hp | hfree
    · exact (h.pair p q hne.symm).apart x hp hq
    · rw [(h.ok q).active hq] at hfree
      cases hfree
  have hapart : ∀ q, q ≠ p → ∀ x, r.2.slot? = some x → (s.control q).slot? ≠ some x := by
    intro q hne x hx hq
    rcases hr.slot x.1 x.2 hx with hp | hfree
    · exact (h.pair p q hne.symm).apart x hp hq
    · rw [(h.ok q).active hq] at hfree
      cases hfree
  constructor
  case lock =>
    apply forall_act
      (I := fun q (t : Thread) (c : CmdShared ι) => t.cmd.locked = true → c.lock = some q) h.lock
    · rw [hr.cmd]
      exact nofun
    · intro q _ hold hlocked
      rw [hr.lock]
      exact hold hlocked
  case ok =>
    apply forall_act (I := fun _ (t : Thread) (c : CmdShared ι) => t.Ok c) h.ok hr.ok
    exact fun q hne hold => hold.frame hquiet (hothers q hne)
  case pair =>
    apply forall_act_pair h.pair
    · intro q hne
      refine ⟨?_, ?_, hapart q hne⟩
      · rw [hr.cmd]
        exact nofun
      · rw [hr.cmd]
        exact fun _ _ _ _ => False.elim
    · intro q hne
      have hold := h.pair q p hne
      refine ⟨?_, ?_, fun x hq hx => hapart q hne x hx hq⟩
      · intro hwrite
        by_contra hbusy
        rcases hr.busy (by simpa using hbusy) with hp | hout
        · rw [hold.busy hwrite] at hp
          cases hp
        · exact (h.ok q).action hwrite hout
      · rw [hquiet.target]
        intro i lastSeen pc hr2 hscan
        apply hr.informed _ i lastSeen pc hr2
        exact fun lastSeen pc hp => hold.told i lastSeen pc hp hscan
    · intro q q' hq hq' _ hold
      exact hold.frame hquiet (hothers q' hq')

omit [DecidableEq ι] in
/-- So does a step that touches no slot of a process. -/
theorem MonitorInv.environment (h : MonitorInv s) {c' : CmdShared ι}
    {touched : Nat × Slot → Prop} (hquiet : Undisturbed touched s.shared c')
    (hlock : c'.lock = s.shared.lock)
    (hfree : ∀ q x, touched x → (s.control q).slot? ≠ some x) :
    MonitorInv { s with shared := c' } := by
  have hothers : ∀ q x, (s.control q).slot? = some x → ¬ touched x :=
    fun q x hq hx => hfree q x hx hq
  refine ⟨?_, fun q => (h.ok q).frame hquiet (hothers q),
    fun q q' hne => (h.pair q q' hne).frame hquiet (hothers q')⟩
  intro q hlocked
  exact hlock.trans (h.lock q hlocked)

omit [DecidableEq ι] in
/-- The operations of the allocator, if they touch no slot of a process. -/
theorem MonitorInv.underLock (h : MonitorInv s) (f : ShmState → ShmState)
    {touched : Nat × Slot → Prop}
    (hquiet : Undisturbed touched s.shared { s.shared with shm := f s.shared.shm })
    (hfree : ∀ q x, touched x → (s.control q).slot? ≠ some x) : MonitorInv (s.underLock f) := by
  unfold DieSystem.underLock
  split
  · exact h.environment hquiet rfl hfree
  · exact h

/-- The manager may begin any of its operations. -/
theorem MonitorInv.call (h : MonitorInv s) {op : CmdOp}
    (hop : op.byManager = true) : MonitorInv (s.act p (s.shared, .manager op.entry)) := by
  have hlocked : op.entry.locked = false :=
    op.entry_eq (fun _ _ _ => rfl) (fun _ _ => rfl) (fun _ _ => rfl) rfl
  have hwrite : op.entry.inWrite = false :=
    op.entry_eq (fun _ _ _ => rfl) (fun _ _ => rfl) (fun _ _ => rfl) rfl
  have hok : op.entry.WriteOk s.shared := by
    cases op with
    | tryAck v i seq => cases hop
    | tryComplete => trivial
    | _ =>
      simp only [CmdOp.entry]
      split <;> trivial
  constructor
  case lock =>
    apply forall_act
      (I := fun q (t : Thread) (c : CmdShared ι) => t.cmd.locked = true → c.lock = some q) h.lock
    · intro hcon
      change op.entry.locked = true at hcon
      rw [hlocked] at hcon
      cases hcon
    · exact fun _ _ hold => hold
  case ok =>
    exact forall_act (I := fun _ (t : Thread) (c : CmdShared ι) => t.Ok c) h.ok hok
      fun _ _ hold => hold
  case pair =>
    apply forall_act_pair h.pair
    · intro q _
      refine ⟨?_, ?_, by rintro _ ⟨⟩⟩
      · intro hcon
        change op.entry.inWrite = true at hcon
        rw [hwrite] at hcon
        cases hcon
      · intro i lastSeen pc _ hscan
        have hcon := inWrite_of_scanned hscan
        change op.entry.inWrite = true at hcon
        rw [hwrite] at hcon
        cases hcon
    · exact fun _ _ => ⟨fun _ => rfl, by rintro _ _ _ ⟨⟩, by rintro _ _ ⟨⟩⟩
    · exact fun _ _ _ _ _ hold => hold

/-- Every step of the monitor threads keeps the invariant. -/
theorem MonitorInv.step (h : MonitorInv s) {i : DieStep ι} (hmay : MayPoll s i) :
    MonitorInv (s.step i) := by
  cases i with
  | call p op =>
    unfold DieSystem.step
    dsimp only
    split
    · next hcall => exact h.call hcall.2
    · exact h
  | register p v =>
    unfold DieSystem.step
    dsimp only
    split
    · exact h.process (.of_same rfl nofun trivial nofun)
    · exact h
  | access p n =>
    by_cases hmanager : ∃ pc, s.control p = .manager pc
    · obtain ⟨pc, hp⟩ := hmanager
      have hstep : s.step (.access p n) =
          s.act p ((perform p s.shared pc).1, .manager (perform p s.shared pc).2) := by
        show s.act p ((s.control p).next p n s.shared) = _
        rw [hp]
        rfl
      change MayGoAhead s (s.control p) at hmay
      rw [hp] at hmay
      rw [hstep]
      exact h.manager hp hmay
    · refine h.process (Thread.next_process (h.ok p) ?_)
      exact fun pc hp => hmanager ⟨pc, hp⟩
  | leave p =>
    unfold DieSystem.step
    dsimp only
    split
    · next v i lastSeen hp =>
      have hactive := (h.ok p).active (v := v) (i := i) (by rw [hp]; rfl)
      refine h.process (.of_same rfl ?_ hactive nofun)
      rw [hp]
      exact fun x => id
    · exact h
  | crash p =>
    unfold DieSystem.step
    dsimp only
    split
    · exact h
    · exact h.process (.of_same rfl nofun trivial nofun)
  | swapIn p =>
    unfold DieSystem.step
    dsimp only
    split
    · next v i lastSeen pc hp =>
      have hquiet := modifySlot_same s.shared v i (f := (·.clear .swapped))
        (fun _ => rfl) (fun _ => rfl) fun _ => False
      have hok := (h.ok p).frame hquiet fun _ _ => id
      rw [← hp]
      refine h.process ⟨⟨_, hquiet, nofun⟩, rfl, ?_, fun _ _ => .inl, hok, .inl, ?_⟩
      · rw [hp]
        rfl
      · exact fun w j lastSeen pc heq hold => (hold lastSeen pc heq).frame hquiet id
    · exact h
  | watchdog v i field =>
    refine h.environment (.modifySlot s.shared v i (·.clear field)) rfl ?_
    rintro q x rfl
    exact hmay q
  | addEntry v e =>
    refine h.underLock (fun st => (st.addEntry v e).2) (.addEntry s.shared v e) ?_
    intro q x hx hq
    apply hmay q
    rw [hq]
    exact congrArg some hx
  | removeEntry v =>
    exact h.underLock (fun st => (st.removeEntry v).2)
      (removeEntry s.shared v fun _ => False) fun _ _ => False.elim
  | initState hbmTotal =>
    have hquiet : Undisturbed (fun _ => False) s.shared
        { s.shared with shm := s.shared.shm.initState hbmTotal } :=
      ⟨rfl, rfl, id, fun _ _ _ => rfl, fun _ _ _ => rfl⟩
    exact h.underLock (·.initState hbmTotal) hquiet fun _ _ => False.elim

omit [DecidableEq ι] in
theorem MonitorInv.init (isManager : ι → Bool) (st : ShmState) :
    MonitorInv (DieSystem.init isManager st) := by
  have hcontrol : ∀ p, (DieSystem.init isManager st).control p = .manager .idle ∨
      (DieSystem.init isManager st).control p = .absent := by
    intro p
    unfold DieSystem.init
    dsimp only
    split
    · exact .inl rfl
    · exact .inr rfl
  constructor
  case lock =>
    intro p
    rcases hcontrol p with hp | hp <;> rw [hp] <;> exact nofun
  case ok =>
    intro p
    rcases hcontrol p with hp | hp <;> rw [hp] <;> trivial
  case pair =>
    intro p q _
    rcases hcontrol p with hp | hp <;> rw [hp] <;> exact ⟨nofun, fun _ _ _ _ => False.elim, nofun⟩

omit [DecidableEq ι] in
theorem MonitorInv.startsOwn (h : MonitorInv s) (i : DieStep ι) : StartsOwn s i := by
  cases i with
  | access p n =>
    intro v i lastSeen hp _
    have hok := h.ok p
    rw [hp] at hok
    exact hok.2.1.2
  | _ => trivial

end

/-- For any number of processes and threads of the manager, from any state of the die: in every
run whose steps all meet the condition, a process starts a swap-out only when its slot owes the
epoch it has recorded as seen. -/
theorem swap_out_started_by_owner {ι : Type} [DecidableEq ι] (isManager : ι → Bool)
    (st : ShmState) (run : List (DieStep ι))
    (hmay : EachStep DieSystem.step MayPoll (DieSystem.init isManager st) run) :
    EachStep DieSystem.step StartsOwn (DieSystem.init isManager st) run :=
  eachStep_of_invariant (MonitorInv.init isManager st) (fun _ _ h hi => h.step hi)
    (fun _ i h _ => h.startsOwn i) hmay

section

variable {n : Nat}

instance (s : DieSystem (Fin n)) (t : Thread) : Decidable (MayGoAhead s t) := by
  unfold MayGoAhead
  split <;> infer_instance

instance (s : DieSystem (Fin n)) (i : DieStep (Fin n)) : Decidable (MayPoll s i) := by
  cases i <;> unfold MayPoll <;> infer_instance

local instance threads_ne_zero : NeZero 3 :=
  ⟨by decide⟩

def firstIsManager (p : Fin 3) : Bool :=
  p == 0

/-- Thread `p` makes `k` accesses; its process has one record, and one byte is copied. -/
def accesses (p : Fin 3) (k : Nat) : List (DieStep (Fin 3)) :=
  List.replicate k (.access p 1)

def twoProcesses : List (DieStep (Fin 3)) :=
  [.addEntry 0 .zero, .addEntry 1 .zero, .initState 0, .register 1 0] ++ accesses 1 9 ++
    .register 2 1 :: accesses 2 9

/-- A swap-out of vNPU 0 is written, and its process carries it out. -/
def carriedOutRun : List (DieStep (Fin 3)) :=
  twoProcesses ++ .call 0 (.write 0 .none) :: accesses 0 75 ++ accesses 1 90

/-- The process of vNPU 0 has read vNPU 0 as the target, which is what zeroed memory holds, when
the manager writes a swap-out of vNPU 1. -/
def overtakenReadRun : List (DieStep (Fin 3)) :=
  twoProcesses ++ accesses 1 1 ++ .call 0 (.write 1 .none) :: accesses 0 75 ++ accesses 1 4

def overtakenReadEnd : DieSystem (Fin 3) :=
  exec DieSystem.step (DieSystem.init firstIsManager (ShmState.create "die")) overtakenReadRun

theorem carriedOutRun_started_by_owner :
    EachStep DieSystem.step MayPoll (DieSystem.init firstIsManager (ShmState.create "die"))
        carriedOutRun ∧
      (exec DieSystem.step (DieSystem.init firstIsManager (ShmState.create "die"))
        (carriedOutRun.take 104)).control 1 = .monitor 0 .first 1 .collect ∧
      EachStep DieSystem.step StartsOwn (DieSystem.init firstIsManager (ShmState.create "die"))
        carriedOutRun := by
  have hmay : EachStep DieSystem.step MayPoll
      (DieSystem.init firstIsManager (create "die")) carriedOutRun := by
    decide +kernel
  refine ⟨hmay, by decide +kernel, ?_⟩
  exact swap_out_started_by_owner firstIsManager (create "die") carriedOutRun hmay

/-- The process of vNPU 0 is about to copy for epoch 1, which is a command for vNPU 1. -/
theorem overtakenReadEnd_collects : overtakenReadEnd.control 1 = .monitor 0 .first 1 .collect ∧
      overtakenReadEnd.shared.shm.marker 0 .first = 0 ∧
      overtakenReadEnd.shared.shm.swapCmd.targetVnpuId = 1 := by
  decide +kernel

/-- A process starts a swap-out for a command that is aimed at another vNPU. -/
theorem swap_out_started_for_another :
    ¬ ∀ (isManager : Fin 3 → Bool) (st : ShmState) (run : List (DieStep (Fin 3))),
      EachStep DieSystem.step StartsOwn (DieSystem.init isManager st) run := by
  intro h
  have hall := h firstIsManager (create "die") (overtakenReadRun ++ [.access 1 1])
  rw [eachStep_append] at hall
  have hstart : StartsOwn overtakenReadEnd (.access 1 1) := hall.2.1
  obtain ⟨hpc, hmarker, -⟩ := overtakenReadEnd_collects
  have howes := hstart 0 .first 1 hpc Nat.one_ne_zero
  rw [hmarker] at howes
  cases howes

end

end UbsVirt.Enpu
