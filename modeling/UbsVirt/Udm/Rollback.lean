import UbsVirt.Udm.World

/-!
# A failed request gives its devices back

One request is carried out and nothing else happens to the devices (`vm_app.py:39-57`). Once they
have been allocated, a failure is made good in two places: `bind_devices` frees them if their
mapping cannot be read (`npu_client.py:118-135`), and the last task frees them if the domain cannot
be built or started (`vm_tasks.py:190-208`). In between, the result of the binding is put together
(`npu_tasks.py:134-142`); if the check of its fields raises, no one frees the devices.
-/

namespace UbsVirt.Udm

open Await World List
open Routine (wp_bind wp_get wp_ofExcept wp_ite wp_tryExcept wp raise modify Keeps wp_mono)

/-! ### When devices stay behind -/

def PyValue.isInt : PyValue → Bool
  | .int _ => true
  | .notInt => false

/-- What an affinity policy goes by, as the surroundings have it. -/
def PolicyArgs (env : Env) (policy : Option NpuAffinityPolicy) (affinity : AffinityArgs) : Prop :=
  match policy with
  | none => affinity = .none
  | some policy => ∃ hostNodes topology, env.parseMemoryAffinity = .ok hostNodes ∧
      env.getTopology = .ok topology ∧ affinity = ⟨some policy, some hostNodes, some topology⟩

theorem PolicyArgs.unique {env : Env} {policy : Option NpuAffinityPolicy}
    {affinity affinity' : AffinityArgs} (h : PolicyArgs env policy affinity)
    (h' : PolicyArgs env policy affinity') : affinity = affinity' := by
  cases policy with
  | none => exact Eq.trans h (Eq.symm h')
  | some policy =>
    obtain ⟨hostNodes, topology, hparse, htopology, rfl⟩ := h
    obtain ⟨hostNodes', topology', hparse', htopology', rfl⟩ := h'
    cases hparse.symm.trans hparse'
    cases htopology.symm.trans htopology'
    rfl

/-- Nothing fails before the allocation, and these are the devices to allocate. -/
structure Plans (env : Env) (reported : List HostDevice) (request : CreateVmRequest)
    (devices : List UbDevice) : Prop where
  valid : validateCreateRequest request = .ok ()
  xml : ∃ xml, env.loadAndValidateXml = .ok xml
  smbios : ∃ info, env.getType131 = .ok (some info)
  inventory : env.getHostUbDevices = .ok ()
  resolved : ∃ bindRequest inventory affinity params, bindRequestOf request = some bindRequest ∧
    validateRequest bindRequest = .ok () ∧ ubDeviceInfos reported = .ok inventory ∧
    PolicyArgs env request.affinityPolicy affinity ∧
    resolveRequest inventory bindRequest affinity = .ok devices ∧
    allocDevicesParams bindRequest.upi (deviceRefs devices) = .ok params

/-- If the devices are allocated and their mapping is read, then the bus instance and the mapping
pass the check of `BindNpuDeviceResult`: the name is no longer than 128 characters, and the other
fields are integers (`app/models.py:297-306`). -/
def Accepts (env : Env) (reported : List HostDevice) (request : CreateVmRequest) : Prop :=
  ∀ devices busGuid tid uba size, Plans env reported request devices →
    env.allocDevices = .ok busGuid → env.queryUbaTidSize = .ok (tid, uba, size) →
    busGuid.val.length ≤ 128 ∧ tid.isInt ∧ uba.isInt ∧ size.isInt

/-! ### The devices of a binding -/

variable {inventory : List UbDeviceInfo}

/-- A device that was chosen from the inventory is free, and its fields are short enough. -/
theorem resolveRequest_reported {ι : Type} {w : World ι}
    {request : BindNpuDeviceRequest} {affinity : AffinityArgs} {devices : List UbDevice}
    (hinventory : ubDeviceInfos w.hostDevices = .ok inventory)
    (hvalid : validateRequest request = .ok ())
    (hresolve : resolveRequest inventory request affinity = .ok devices) {device : UbDevice}
    (hdevice : device ∈ devices) :
    w.binding device.key = none ∧ ∃ bound, boundUbDevice device = .ok bound := by
  obtain ⟨info, hinfo, rfl, hunbound⟩ := resolveRequest_unbound hvalid hresolve hdevice
  obtain ⟨reported, hreported, hok⟩ := ubDeviceInfos_reported hinventory hinfo
  obtain ⟨rfl, hid, htype, hguid⟩ := ubDeviceInfo_ok hok
  refine ⟨binding_of_reported hreported hunbound, _, if_pos ⟨hid, hguid, ?_⟩⟩
  exact Nat.le_trans htype (by decide)

theorem boundUbDevice_ok {device : UbDevice} {bound : BoundUbDevice}
    (h : boundUbDevice device = .ok bound) : bound.id = device.id ∧ bound.type = device.type := by
  unfold boundUbDevice at h
  split at h
  · split at h
    · cases h
      exact ⟨rfl, rfl⟩
    · cases h
  · cases h

section

variable {busGuid : String} {tid uba size : PyValue} {devices : List UbDevice}

theorem bindNpuDeviceResult_isOk
    (hbound : ∀ device ∈ devices, ∃ bound, boundUbDevice device = .ok bound) :
    (∃ result, bindNpuDeviceResult busGuid tid uba size devices = .ok result) ↔
      busGuid.length ≤ 128 ∧ tid.isInt ∧ uba.isInt ∧ size.isInt := by
  obtain ⟨bound, hmapM⟩ := mapM_ok hbound
  unfold bindNpuDeviceResult
  rw [hmapM]
  cases tid with
  | notInt => simp [bind, Except.bind, PyValue.isInt]
  | int tid =>
  cases uba with
  | notInt => simp [bind, Except.bind, PyValue.isInt]
  | int uba =>
  cases size with
  | notInt => simp [bind, Except.bind, PyValue.isInt]
  | int size =>
    by_cases hlength : busGuid.length ≤ 128
    · simp [bind, Except.bind, pure, Except.pure, PyValue.isInt, hlength]
    · simp [bind, Except.bind, hlength]

/-- What is freed after a failure are the devices that were allocated. -/
theorem bindNpuDeviceResult_keys {result : BindNpuDeviceResult}
    (h : bindNpuDeviceResult busGuid tid uba size devices = .ok result) :
    keysOf (boundDeviceRefs result) = keysOf (deviceRefs devices) := by
  unfold bindNpuDeviceResult at h
  cases hmapM : devices.mapM boundUbDevice with
  | error e =>
    rw [hmapM] at h
    cases h
  | ok bound =>
    rw [hmapM] at h
    have hresult : result.devices = bound := by
      dsimp only [bind, Except.bind] at h
      split at h
      · split at h
        · cases h
          rfl
        · cases h
      · cases h
    unfold keysOf boundDeviceRefs deviceRefs
    rw [hresult, map_map, map_map, ← forall₂_eq_eq_eq, forall₂_map_left_iff, forall₂_map_right_iff]
    refine (forall₂_of_mapM_ok hmapM).flip.imp fun bound device hok => ?_
    obtain ⟨hid, htype⟩ := boundUbDevice_ok hok
    exact Prod.ext htype hid

end

variable {deviceList : List DeviceRef}

theorem release_allocate_binding {ι : Type} {w : World ι} {i : ι} {busGuid : BusGuid}
    {freed : List DeviceRef} (hkeys : keysOf freed = keysOf deviceList)
    (hfree : ∀ key ∈ keysOf deviceList, w.binding key = none) :
    ((w.allocate i busGuid deviceList).release freed).binding = w.binding := by
  funext key
  show (if key ∈ keysOf freed then none
    else if key ∈ keysOf deviceList then some busGuid else w.binding key) = w.binding key
  rw [hkeys]
  split
  · next hmem => exact (hfree key hmem).symm
  · rfl

/-! ### A request alone -/

section

variable {env : Env} {w : World Unit} {s : Context} {request : CreateVmRequest}

/-- No other request is carried out; every call is answered as the surroundings have it. -/
abbrev soloProtocol (env : Env) : Protocol Call (fun call => Except Exn call.Result) (World Unit) :=
  .alone fun w call => w.answer () env call

theorem ask_solo {call : Call} {w' : World Unit} {r : Except Exn call.Result}
    {Q : World Unit → Context → Except Exn call.Result → Prop}
    (hanswer : w.answer () env call = (w', some r)) (hQ : Q w' s r) :
    (ask call).wp (soloProtocol env) Q w s := by
  refine Routine.wp_call.mpr ⟨?_, ?_⟩
  · show (w.answer () env call).2.isSome
    rw [hanswer]
    rfl
  · intro r' w'' hpost
    change w.answer () env call = (w'', some r') at hpost
    rw [hanswer] at hpost
    cases hpost
    exact hQ

/-- Libvirt knows nothing of the devices. -/
theorem defineAndStart_solo (xml : String) :
    (defineAndStart xml).Keeps (soloProtocol env) fun w s => (w, s) := by
  apply defineAndStart_keeps
  intro call hcall w s
  cases call with
  | libvirtOpen | defineXml | domainName | domainCreate | domainUndefine | connClose =>
    exact ask_solo rfl rfl
  | _ => cases hcall

/-! ### Preparing -/

/-- What the first two tasks leave for the others. -/
structure Prepared (env : Env) (request : CreateVmRequest) (s : Context) : Prop where
  valid : validateCreateRequest request = .ok ()
  createVmRequest : s.createVmRequest = some request
  xml : ∃ xml, env.loadAndValidateXml = .ok xml ∧ s.vmXml = some xml.val
  memory : ∀ policy, request.affinityPolicy = some policy →
    ∃ hostNodes, env.parseMemoryAffinity = .ok hostNodes ∧ s.vmMemoryAffinity = some hostNodes
  bindRequest : s.bindRequest = bindRequestOf request
  bindResult : s.bindResult = none

theorem Prepared.withNames (h : Prepared env request s) (names : List String) :
    Prepared env request { s with acquiredLockNames := names } :=
  ⟨h.valid, h.createVmRequest, h.xml, h.memory, h.bindRequest, h.bindResult⟩

variable {reported : List HostDevice} {Q : World Unit → Context → Except Exn Unit → Prop}

/-- Alone, the first task prepares the XML or no plan exists. -/
theorem prepareVmXmlTask_solo
    (hfail : ∀ s e, (∀ devices, ¬ Plans env reported request devices) → Q w s (.error e))
    (hok : ∀ s, Prepared env request s → s.acquiredLockNames = [] → Q w s (.ok ())) :
    (runSingleTask prepareVmXmlTask).wp (soloProtocol env) Q w (.ofRequest request) := by
  refine wp_bind.mpr (wp_bind.mpr (wp_get.mpr ?_))
  refine wp_bind.mpr ((wp_ofExcept _).mpr ?_)
  cases hvalid : validateCreateRequest request with
  | error e =>
    apply hfail
    intro devices hplans
    rw [hplans.valid] at hvalid
    cases hvalid
  | ok _ =>
  refine wp_bind.mpr (wp_get.mpr (wp_bind.mpr (ask_solo rfl ?_)))
  cases hxml : env.loadAndValidateXml with
  | error e =>
    apply hfail
    intro devices hplans
    obtain ⟨xml, hxml'⟩ := hplans.xml
    rw [hxml'] at hxml
    cases hxml
  | ok xml =>
  refine wp_bind.mpr (wp_ite.mpr ?_)
  split
  · next hpolicy =>
    obtain ⟨policy, hpolicy⟩ := Option.isSome_iff_exists.mp hpolicy
    refine wp_bind.mpr (wp_tryExcept.mpr (ask_solo rfl ?_))
    cases hparse : env.parseMemoryAffinity with
    | error e =>
      have hnone : ∀ devices, ¬ Plans env reported request devices := by
        rintro devices hplans
        obtain ⟨-, -, affinity, -, -, -, -, haffinity, -⟩ := hplans.resolved
        unfold PolicyArgs at haffinity
        rw [hpolicy] at haffinity
        obtain ⟨hostNodes, -, hparse', -⟩ := haffinity
        rw [hparse'] at hparse
        cases hparse
      dsimp only
      split <;> exact hfail _ _ hnone
    | ok hostNodes =>
      refine hok _ ⟨hvalid, rfl, ⟨xml, hxml, rfl⟩, ?_, rfl, rfl⟩ rfl
      exact fun _ _ => ⟨hostNodes, hparse, rfl⟩
  · next hpolicy =>
    refine hok _ ⟨hvalid, rfl, ⟨xml, hxml, rfl⟩, ?_, rfl, rfl⟩ rfl
    intro policy hsome
    exact absurd (Option.isSome_of_eq_some hsome) hpolicy

theorem prepareVmSmbiosTask_solo (h : Prepared env request s)
    (hfail : ∀ s e, (∀ devices, ¬ Plans env reported request devices) → Q w s (.error e))
    (hok : ∀ s', Prepared env request s' → s'.acquiredLockNames = s.acquiredLockNames →
      (s'.bindRequest.isSome → ∃ info, env.getType131 = .ok (some info)) → Q w s' (.ok ())) :
    (runSingleTask prepareVmSmbiosTask).wp (soloProtocol env) Q w s := by
  refine wp_bind.mpr (wp_bind.mpr (wp_get.mpr ?_))
  refine wp_ite.mpr ?_
  split
  swap
  · next hnone => exact hok s h rfl fun hsome => absurd hsome hnone
  have hmissing : (∀ info, env.getType131 ≠ .ok (some info)) →
      ∀ devices, ¬ Plans env reported request devices := by
    intro hmissing devices hplans
    obtain ⟨info, hinfo⟩ := hplans.smbios
    exact hmissing info hinfo
  refine wp_bind.mpr (ask_solo rfl ?_)
  cases hsmbios : env.getType131 with
  | error e =>
    apply hfail
    apply hmissing
    rw [hsmbios]
    exact fun info hcon => nomatch hcon
  | ok smbiosType131 =>
    cases smbiosType131 with
    | none =>
      apply hfail
      apply hmissing
      rw [hsmbios]
      exact fun info hcon => nomatch hcon
    | some info =>
      refine hok _ ⟨h.valid, h.createVmRequest, h.xml, h.memory, h.bindRequest, h.bindResult⟩ rfl ?_
      exact fun _ => ⟨info, hsmbios⟩

/-! ### Locks -/

theorem acquireLockTask_solo {lockName : String} (hfree : w.locks lockName = .free)
    (hnames : s.acquiredLockNames = [])
    (hok : ∀ locks names, Q { w with locks := locks } { s with acquiredLockNames := names } (.ok ())) :
    (runSingleTask (acquireLockTask lockName none)).wp (soloProtocol env) Q w s := by
  have hanswer : w.answer () env (.lockAcquire lockName none) =
      (w.setLock lockName ((w.locks lockName).acquire ()).1, some (.ok true)) := by
    show w.answerAcquire () env lockName none = _
    unfold answerAcquire
    rw [hfree]
    rfl
  refine wp_bind.mpr (wp_bind.mpr (wp_bind.mpr (wp_get.mpr ?_)))
  refine wp_ite.mpr ?_
  rw [hnames, if_neg not_mem_nil]
  refine wp_bind.mpr (ask_solo hanswer ?_)
  exact hok _ _

theorem releaseLockTask_solo {lockName : String}
    (hok : ∀ locks names, Q { w with locks := locks } { s with acquiredLockNames := names } (.ok ())) :
    (runSingleTask (releaseLockTask lockName)).wp (soloProtocol env) Q w s := by
  have hanswer : w.answer () env (.lockRelease lockName) =
      (w.setLock lockName (w.locks lockName).release, some (.ok ())) := rfl
  refine wp_bind.mpr (wp_bind.mpr (wp_get.mpr (wp_ite.mpr ?_)))
  split
  · refine wp_bind.mpr (ask_solo hanswer ?_)
    exact hok _ _
  · exact hok w.locks s.acquiredLockNames

theorem releaseAll_solo {names : List String}
    (hok : ∀ locks, Q { w with locks := locks } s (.ok ())) :
    (releaseAll names).wp (soloProtocol env) Q w s := by
  induction names generalizing w with
  | nil => exact hok w.locks
  | cons lockName rest ih =>
    have hanswer : w.answer () env (.lockRelease lockName) =
        (w.setLock lockName (w.locks lockName).release, some (.ok ())) := rfl
    refine wp_bind.mpr (ask_solo hanswer ?_)
    exact ih hok

theorem releaseChainLocks_solo
    (hok : ∀ locks names, Q { w with locks := locks } { s with acquiredLockNames := names } (.ok ())) :
    releaseChainLocks.wp (soloProtocol env) Q w s := by
  refine wp_bind.mpr (wp_get.mpr (wp_bind.mpr (releaseAll_solo ?_)))
  exact fun locks => hok locks []

/-! ### Binding -/

/-- The inventory was read. -/
theorem getHostUbDevices_solo {Q : World Unit → Context → Except Exn (List UbDeviceInfo) → Prop}
    (hfail : ∀ e, (env.getHostUbDevices = .ok () →
      ∀ inventory, ubDeviceInfos w.hostDevices ≠ .ok inventory) → Q w s (.error e))
    (hok : ∀ inventory, env.getHostUbDevices = .ok () →
      ubDeviceInfos w.hostDevices = .ok inventory → Q w s (.ok inventory)) :
    getHostUbDevices.wp (soloProtocol env) Q w s := by
  refine wp_bind.mpr (ask_solo rfl ?_)
  cases hquery : env.getHostUbDevices with
  | error e =>
    apply hfail
    intro hcon
    rw [hquery] at hcon
    cases hcon
  | ok _ =>
    refine (wp_ofExcept _).mpr ?_
    cases hinventory : ubDeviceInfos w.hostDevices with
    | error e =>
      apply hfail
      intro _ inventory hcon
      rw [hinventory] at hcon
      cases hcon
    | ok inventory => exact hok inventory hquery hinventory

theorem affinityArgs_solo
    {Q : World Unit → Context → Except Exn AffinityArgs → Prop} (h : Prepared env request s)
    (hfail : ∀ e, (∀ affinity, ¬ PolicyArgs env request.affinityPolicy affinity) → Q w s (.error e))
    (hok : ∀ affinity, PolicyArgs env request.affinityPolicy affinity → Q w s (.ok affinity)) :
    (affinityArgs request.affinityPolicy inventory).wp (soloProtocol env) Q w s := by
  unfold affinityArgs
  split
  · next hpolicy => exact hok _ (by rw [hpolicy]; rfl)
  · next policy hpolicy =>
    obtain ⟨hostNodes, hparse, hmemory⟩ := h.memory policy hpolicy
    refine wp_bind.mpr (wp_get.mpr ?_)
    dsimp only
    rw [hmemory]
    refine wp_bind.mpr (ask_solo rfl ?_)
    cases htopology : env.getTopology with
    | error e =>
      apply hfail
      rw [hpolicy]
      rintro affinity ⟨-, topology, -, htopology', -⟩
      rw [htopology'] at htopology
      cases htopology
    | ok topology =>
      apply hok
      rw [hpolicy]
      exact ⟨hostNodes, topology, hparse, htopology, rfl⟩

theorem resolveDevices_solo {bindRequest : BindNpuDeviceRequest}
    {Q : World Unit → Context → Except Exn (List UbDevice) → Prop} (h : Prepared env request s)
    (hfail : ∀ e, (∀ affinity devices, PolicyArgs env request.affinityPolicy affinity →
      resolveRequest inventory bindRequest affinity ≠ .ok devices) → Q w s (.error e))
    (hok : ∀ affinity devices, PolicyArgs env request.affinityPolicy affinity →
      resolveRequest inventory bindRequest affinity = .ok devices → Q w s (.ok devices)) :
    (resolveDevices bindRequest inventory).wp (soloProtocol env) Q w s := by
  refine wp_tryExcept.mpr (wp_bind.mpr (wp_get.mpr (wp_bind.mpr ?_)))
  dsimp only
  rw [h.createVmRequest]
  apply affinityArgs_solo h
  · intro e hnone
    -- the handler only replaces an exception by another one
    dsimp only
    split <;> exact hfail _ fun affinity _ haffinity => absurd haffinity (hnone affinity)
  · intro affinity haffinity
    refine (wp_ofExcept _).mpr ?_
    cases hresolve : resolveRequest inventory bindRequest affinity with
    | error e =>
      have hnone : ∀ affinity' devices, PolicyArgs env request.affinityPolicy affinity' →
          resolveRequest inventory bindRequest affinity' ≠ .ok devices := by
        intro affinity' devices haffinity' hresolve'
        rw [haffinity'.unique haffinity, hresolve] at hresolve'
        cases hresolve'
      dsimp only
      split <;> exact hfail _ hnone
    | ok devices => exact hok affinity devices haffinity hresolve

theorem free_solo {busInstanceGuid : String} (hfree : env.freeDevices = .ok ())
    (hQ : Q (w.release deviceList) s (.ok ())) :
    (ask (.freeDevices busInstanceGuid deviceList)).wp (soloProtocol env) Q w s := by
  have hanswer : w.answer () env (.freeDevices busInstanceGuid deviceList) =
      (w.release deviceList, some (.ok ())) := by
    show w.answerFree env deviceList = _
    unfold answerFree
    rw [hfree]
  exact ask_solo hanswer hQ

/-- If the mapping cannot be read, the devices are free again. -/
theorem bindDevices_solo {params : AllocDevicesParams}
    {Q : World Unit → Context → Except Exn (String × PyValue × PyValue × PyValue) → Prop}
    (hfree : env.freeDevices = .ok ())
    (hkeys : ∀ key ∈ keysOf params.deviceList, w.binding key = none)
    (hfail : ∀ w' e, w'.binding = w.binding → (∀ busGuid, env.allocDevices = .ok busGuid →
      ∀ mapping, env.queryUbaTidSize ≠ .ok mapping) → Q w' s (.error e))
    (hok : ∀ busGuid mapping, env.allocDevices = .ok busGuid → env.queryUbaTidSize = .ok mapping →
      Q (w.allocate () busGuid params.deviceList) s (.ok (busGuid.val, mapping))) :
    (bindDevices params).wp (soloProtocol env) Q w s := by
  unfold bindDevices
  cases halloc : env.allocDevices with
  | error e =>
    have hanswer : w.answer () env
        (.allocDevices (ubseUpi params.upi) params.busGuid params.deviceList) =
        (w.refuse () params.deviceList, some (.error e)) := by
      show w.answerAlloc () env params.deviceList = _
      unfold answerAlloc
      rw [halloc]
    refine wp_bind.mpr (ask_solo hanswer ?_)
    refine hfail _ e rfl ?_
    intro busGuid hcon
    rw [halloc] at hcon
    cases hcon
  | ok busGuid =>
    have hanswer : w.answer () env
        (.allocDevices (ubseUpi params.upi) params.busGuid params.deviceList) =
        (w.allocate () busGuid params.deviceList, some (.ok busGuid.val)) := by
      show w.answerAlloc () env params.deviceList = _
      unfold answerAlloc
      rw [halloc]
    refine wp_bind.mpr (ask_solo hanswer ?_)
    refine wp_tryExcept.mpr (wp_bind.mpr (ask_solo rfl ?_))
    cases hquery : env.queryUbaTidSize with
    | ok mapping => exact hok busGuid mapping halloc hquery
    | error e =>
      refine wp_bind.mpr (free_solo hfree ?_)
      refine hfail _ e (release_allocate_binding rfl hkeys) ?_
      intro _ _ mapping hcon
      rw [hquery] at hcon
      cases hcon

/-- After a failure: the devices are bound as they were, exactly if what the engine returned is
accepted. -/
def Settled (env : Env) (before : World Unit) (request : CreateVmRequest) (w : World Unit) : Prop :=
  w.binding = before.binding ↔ Accepts env before.hostDevices request

/-- The binding, if there is one, can be undone by what the context has kept of it. -/
structure Secured (env : Env) (before : World Unit) (request : CreateVmRequest) (w : World Unit)
    (s : Context) : Prop where
  accepts : Accepts env before.hostDevices request
  xml : truthy s.vmXml
  restores : match s.bindResult with
    | none => w.binding = before.binding
    | some result => (w.release (boundDeviceRefs result)).binding = before.binding

theorem accepts_of_not_plans
    (h : ∀ devices, ¬ Plans env reported request devices) : Accepts env reported request :=
  fun devices _ _ _ _ hplans => absurd hplans (h devices)

theorem Prepared.truthy_vmXml (h : Prepared env request s) : truthy s.vmXml := by
  obtain ⟨xml, -, hxml⟩ := h.xml
  rw [hxml]
  exact decide_eq_true xml.property

/-- An allocation that has gone through stays if the result is not accepted, and can be undone if
it is. -/
theorem bindResult_solo {devices : List UbDevice} {busGuid : BusGuid} {tid uba size : PyValue}
    (hxml : truthy s.vmXml) (hplans : Plans env w.hostDevices request devices)
    (halloc : env.allocDevices = .ok busGuid) (hquery : env.queryUbaTidSize = .ok (tid, uba, size))
    (hbound : ∀ device ∈ devices, ∃ bound, boundUbDevice device = .ok bound)
    (hlist : deviceList = deviceRefs devices) (hne : deviceList ≠ [])
    (hunbound : ∀ key ∈ keysOf deviceList, w.binding key = none)
    (hfail : ∀ w' s' e, Settled env w request w' → Q w' s' (.error e))
    (hok : ∀ w' s', Secured env w request w' s' → Q w' s' (.ok ())) :
    wp (soloProtocol env) Q (do
      modify fun context => { context with boundDevices := some devices }
      let result ← Routine.ofExcept (bindNpuDeviceResult busGuid.val tid uba size devices)
      modify fun context => { context with bindResult := some result })
      (w.allocate () busGuid deviceList) s := by
  have haccepted : (∃ result, bindNpuDeviceResult busGuid.val tid uba size devices = .ok result) ↔ _ :=
    bindNpuDeviceResult_isOk hbound
  refine wp_bind.mpr ((Routine.wp_modify _).mpr (wp_bind.mpr ?_))
  refine (wp_ofExcept _).mpr ?_
  cases hresult : bindNpuDeviceResult busGuid.val tid uba size devices with
  | error e =>
    refine hfail _ _ e (iff_of_false ?_ ?_)
    · intro hsame
      obtain ⟨device, hdevice⟩ := exists_mem_of_ne_nil _ hne
      have hkey : device.key ∈ keysOf deviceList := mem_map_of_mem hdevice
      have hbinding := congrFun hsame device.key
      rw [hunbound _ hkey] at hbinding
      cases (if_pos hkey).symm.trans hbinding
    · intro haccepts
      obtain ⟨result, hcon⟩ := haccepted.mpr (haccepts devices busGuid tid uba size hplans halloc hquery)
      rw [hresult] at hcon
      cases hcon
  | ok result =>
    refine hok _ _ ⟨?_, hxml, ?_⟩
    · intro devices' busGuid' tid' uba' size' _ halloc' hquery'
      cases halloc.symm.trans halloc'
      cases hquery.symm.trans hquery'
      exact haccepted.mp ⟨result, hresult⟩
    · apply release_allocate_binding _ hunbound
      rw [hlist]
      exact bindNpuDeviceResult_keys hresult

/-- Alone, the bind task secures the devices or leaves nothing behind. -/
theorem bindNpuDeviceTask_solo (hfree : env.freeDevices = .ok ()) (h : Prepared env request s)
    (hsmbios : s.bindRequest.isSome → ∃ info, env.getType131 = .ok (some info))
    (hfail : ∀ w' s' e, Settled env w request w' → Q w' s' (.error e))
    (hok : ∀ w' s', Secured env w request w' s' → Q w' s' (.ok ())) :
    (runSingleTask bindNpuDeviceTask).wp (soloProtocol env) Q w s := by
  refine wp_bind.mpr (wp_bind.mpr (wp_get.mpr ?_))
  refine wp_ite.mpr ?_
  split
  swap
  · next hnone =>
    refine hok w s ⟨accepts_of_not_plans ?_, h.truthy_vmXml, ?_⟩
    · intro devices hplans
      obtain ⟨bindRequest, -, -, -, hrequest, -⟩ := hplans.resolved
      rw [h.bindRequest, hrequest] at hnone
      exact hnone rfl
    · rw [h.bindResult]
  next hsome =>
  refine wp_bind.mpr (wp_get.mpr ?_)
  dsimp only
  split
  · next hnone =>
    rw [hnone] at hsome
    cases hsome
  next bindRequest hbindRequest =>
  have hrequest : bindRequestOf request = some bindRequest := h.bindRequest.symm.trans hbindRequest
  -- as long as nothing is allocated, a failure means that nothing is to be allocated
  have hnotPlanned : (∀ inventory affinity devices params, validateRequest bindRequest = .ok () →
      env.getHostUbDevices = .ok () → ubDeviceInfos w.hostDevices = .ok inventory →
      PolicyArgs env request.affinityPolicy affinity →
      resolveRequest inventory bindRequest affinity = .ok devices →
      allocDevicesParams bindRequest.upi (deviceRefs devices) ≠ .ok params) →
      Settled env w request w := by
    intro hnone
    refine iff_of_true rfl (accepts_of_not_plans ?_)
    intro devices hplans
    obtain ⟨_, inventory, affinity, params, hrequest', hvalid, hinventory, haffinity, hresolve,
      hparams⟩ := hplans.resolved
    cases hrequest.symm.trans hrequest'
    exact hnone inventory affinity devices params hvalid hplans.inventory hinventory haffinity
      hresolve hparams
  refine wp_bind.mpr ((wp_ofExcept _).mpr ?_)
  cases hvalid : validateRequest bindRequest with
  | error e =>
    refine hfail w s e (hnotPlanned ?_)
    intro _ _ _ _ hcon
    rw [hvalid] at hcon
    cases hcon
  | ok _ =>
  refine wp_bind.mpr (getHostUbDevices_solo ?_ ?_)
  · intro e hnone
    exact hfail w s e (hnotPlanned fun inventory _ _ _ _ hquery hinventory =>
      absurd hinventory (hnone hquery inventory))
  intro inventory hquery hinventory
  refine wp_bind.mpr (resolveDevices_solo h ?_ ?_)
  · intro e hnone
    refine hfail w s e (hnotPlanned ?_)
    intro inventory' affinity devices _ _ _ hinventory' haffinity hresolve
    cases hinventory.symm.trans hinventory'
    exact absurd hresolve (hnone affinity devices haffinity)
  intro affinity devices haffinity hresolve
  refine wp_bind.mpr ((wp_ofExcept _).mpr ?_)
  cases hparams : allocDevicesParams bindRequest.upi (deviceRefs devices) with
  | error e =>
    refine hfail w s e (hnotPlanned ?_)
    intro inventory' affinity' devices' params _ _ hinventory' haffinity' hresolve' hparams'
    cases hinventory.symm.trans hinventory'
    cases haffinity.unique haffinity'
    cases hresolve.symm.trans hresolve'
    rw [hparams] at hparams'
    cases hparams'
  | ok params =>
  have hdevices := fun device (hdevice : device ∈ devices) =>
    resolveRequest_reported hinventory hvalid hresolve hdevice
  obtain ⟨hlist, hne⟩ := allocDevicesParams_ok hparams
  have hunbound : ∀ key ∈ keysOf params.deviceList, w.binding key = none := by
    intro key hkey
    rw [hlist] at hkey
    unfold keysOf deviceRefs at hkey
    rw [map_map] at hkey
    obtain ⟨device, hdevice, rfl⟩ := mem_map.mp hkey
    exact (hdevices device hdevice).1
  refine wp_bind.mpr (bindDevices_solo hfree hunbound ?_ ?_)
  · intro w' e hsame hnone
    refine hfail w' s e (iff_of_true hsame ?_)
    intro _ busGuid tid uba size _ halloc hquery
    exact absurd hquery (hnone busGuid halloc _)
  · rintro busGuid ⟨tid, uba, size⟩ halloc hmapping
    have hplans : Plans env w.hostDevices request devices := by
      obtain ⟨xml, hxml, -⟩ := h.xml
      exact ⟨h.valid, ⟨xml, hxml⟩, hsmbios hsome, hquery, bindRequest, inventory, affinity, params,
        hrequest, hvalid, hinventory, haffinity, hresolve, hparams⟩
    exact bindResult_solo h.truthy_vmXml hplans halloc hmapping
      (fun device hdevice => (hdevices device hdevice).2) hlist hne hunbound hfail hok

/-! ### Starting -/

/-- A failure of the last task is made good. -/
theorem buildAndStartVmTask_solo {before : World Unit} (hfree : env.freeDevices = .ok ())
    (h : Secured env before request w s) :
    (runSingleTask buildAndStartVmTask).wp (soloProtocol env)
      (fun w' _ r => ∀ e, r = .error e → w'.binding = before.binding) w s := by
  have hrestores := h.restores
  show wp _ _ buildAndStartVmTask.execute w s
  refine wp_bind.mpr (wp_get.mpr (wp_ite.mpr ?_))
  rw [if_pos h.xml]
  split
  · next hnone =>
    rw [hnone] at hrestores
    refine (defineAndStart_solo _).wp ?_
    intro w' s' r hobs e _
    cases hobs
    exact hrestores
  · next result hsome =>
    rw [hsome] at hrestores
    refine wp_tryExcept.mpr (Keeps.wp
      (show Keeps (soloProtocol env) (fun w s => (w, s)) _ from ?_) ?_)
    · split
      · exact Keeps.raise _
      · exact Keeps.bind (fun _ _ => ask_solo rfl rfl) defineAndStart_solo
    · -- nothing has touched the devices, so the handler finds them as the task did
      intro w' s' r hobs
      cases hobs
      cases r with
      | ok _ => exact fun e hcon => nomatch hcon
      | error e =>
        refine wp_bind.mpr (wp_tryExcept.mpr (free_solo hfree ?_))
        exact fun _ _ => hrestores

/-- A request that fails leaves the devices as they were, exactly if what the engine returns is
accepted. -/
theorem createVm_solo (request : CreateVmRequest) (hfree : env.freeDevices = .ok ())
    (hlocks : ∀ lockName, w.locks lockName = .free) :
    (createVm request).wp (soloProtocol env) (fun w' r =>
      (∀ e, r.1 = .error e → w'.binding = w.binding) ↔ Accepts env w.hostDevices request) w := by
  show wp (soloProtocol env) (fun w' _ r =>
    (∀ e, r = .error e → w'.binding = w.binding) ↔ Accepts env w.hostDevices request)
    (runChain createVmChain) _ _
  rw [runChain_createVmChain]
  -- the locks that are released at the end do not matter for the devices
  refine Routine.wp_tryFinally.mpr (wp_mono (Q := fun w' _ r =>
    (∀ e, r = .error e → w'.binding = w.binding) ↔ Accepts env w.hostDevices request) ?_ ?_)
  · intro w' s r h
    exact releaseChainLocks_solo fun _ _ => h
  have hfailed : ∀ (w' : World Unit) (s : Context) (e : Exn), Settled env w request w' →
      ((∀ e', (Except.error e : Except Exn Unit) = .error e' → w'.binding = w.binding) ↔
        Accepts env w.hostDevices request) :=
    fun _ _ e h => ⟨fun hsame => h.mp (hsame e rfl), fun haccepts _ _ => h.mpr haccepts⟩
  have hnotPlanned := fun (s : Context) (e : Exn)
      (hnone : ∀ devices, ¬ Plans env w.hostDevices request devices) =>
    hfailed w s e (iff_of_true rfl (accepts_of_not_plans hnone))
  refine wp_bind.mpr (prepareVmXmlTask_solo hnotPlanned ?_)
  intro s₁ hprepared hnames
  refine wp_bind.mpr (prepareVmSmbiosTask_solo hprepared hnotPlanned ?_)
  intro s₂ hprepared hnames₂ hsmbios
  refine wp_bind.mpr (acquireLockTask_solo (hlocks _) (hnames₂.trans hnames) ?_)
  intro locks names
  refine wp_bind.mpr ?_
  refine bindNpuDeviceTask_solo hfree (hprepared.withNames names) hsmbios hfailed ?_
  intro w₄ s₄ hsecured
  refine wp_bind.mpr (releaseLockTask_solo ?_)
  intro locks names
  have hsecured' : Secured env w request { w₄ with locks := locks }
      { s₄ with acquiredLockNames := names } := ⟨hsecured.accepts, hsecured.xml, hsecured.restores⟩
  refine wp_bind.mpr (wp_mono ?_ (buildAndStartVmTask_solo hfree hsecured'))
  intro w' s' r hrestored
  cases r with
  | ok _ => exact iff_of_true (fun _ hcon => nomatch hcon) hsecured.accepts
  | error e => exact hfailed w' s' e (iff_of_true (hrestored e rfl) hsecured.accepts)

end

/-- Every request comes to an end. Whatever step fails, every device is bound as before, if and
only if the bus instance and the mapping that the engine returns for the devices of the request
pass the check of the result. -/
theorem createVm_restores_iff (env : Env) (devices : List DeviceDesc)
    (binding : DeviceKey → Option BusGuid) (request : CreateVmRequest)
    (hfree : env.freeDevices = .ok ()) :
    ∃ r s w', (createVm request).run (fun w call => w.answer () env call)
        (start devices binding) = some ((r, s), w') ∧
      ((∀ e, r = .error e → w'.binding = binding) ↔
        Accepts env (start devices binding : World Unit).hostDevices request) := by
  obtain ⟨⟨r, s⟩, w', hrun, hiff⟩ := Prog.run_of_wp
    (createVm_solo (w := start devices binding) request hfree fun _ => rfl)
  exact ⟨r, s, w', hrun, hiff⟩

def failedStartEnv : Env := { calmEnv with domainCreate := .error (.other "libvirtError") }

theorem failedStart_restores :
    ∃ e s w', (createVm oneNpuRequest).run (fun w call => w.answer () failedStartEnv call)
        (start oneNpuHost fun _ => none) = some ((.error e, s), w') ∧
      w'.binding = fun _ => none := by
  obtain ⟨r, s, w', hrun, hiff⟩ := createVm_restores_iff failedStartEnv oneNpuHost (fun _ => none)
    oneNpuRequest rfl
  have hfails : (((createVm oneNpuRequest).run (fun w call => w.answer () failedStartEnv call)
      (start oneNpuHost fun _ => none)).map fun p => p.1.1.toOption) = some none := by
    decide +kernel
  rw [hrun] at hfails
  cases r with
  | ok _ => cases hfails
  | error e =>
    refine ⟨e, s, w', hrun, hiff.mpr ?_ e rfl⟩
    rintro _ busGuid tid uba size - halloc hquery
    cases halloc
    cases hquery
    decide

def oddMappingEnv : Env := { calmEnv with queryUbaTidSize := .ok (.notInt, .int 0, .int 0) }

/-- The request fails, and the NPU stays bound. -/
theorem oddMapping_keeps_npu :
    ¬ ∀ (env : Env) (devices : List DeviceDesc) (binding : DeviceKey → Option BusGuid)
      (request : CreateVmRequest) e s w', env.freeDevices = .ok () →
      (createVm request).run (fun w call => w.answer () env call) (start devices binding) =
        some ((.error e, s), w') → w'.binding = binding := by
  intro hall
  have hstays : (((createVm oneNpuRequest).run (fun w call => w.answer () oddMappingEnv call)
      (start oneNpuHost fun _ => none)).map fun p =>
        (p.1.1.toOption, (p.2.binding ("NPU", "0-1")).isSome)) = some (none, true) := by
    decide +kernel
  cases hrun : (createVm oneNpuRequest).run (fun w call => w.answer () oddMappingEnv call)
      (start oneNpuHost fun _ => none) with
  | none =>
    rw [hrun] at hstays
    cases hstays
  | some p =>
    obtain ⟨⟨r, s⟩, w'⟩ := p
    rw [hrun] at hstays
    cases r with
    | ok _ => cases hstays
    | error e =>
      have hrestored := hall oddMappingEnv oneNpuHost (fun _ => none) oneNpuRequest e s w' rfl hrun
      rw [Option.map_some, hrestored] at hstays
      cases hstays

end UbsVirt.Udm
