/-
# PCI devices of a host (`src/host/HostSharePCI.cc`)

The devices of a host are a map by address.  A device has the identifier of the virtual machine that
holds it twice: in the field `vmid` and in the attribute `VMID` of its template.  `add` gives devices
to a machine, by short address or by vendor, device and class; `del` takes them back; `revert` restores
the attributes of a machine after a failed migration; `setMonitorization` takes over the devices that
the monitor reports.

Conventions of the embedding:

* Attributes are a function to texts; `none` is an attribute that is not there.  The attribute `VMID`
  of a device is kept apart: a text of the monitor, or a number that the program has written.
* The map is the list of its entries in the order of the keys.  An entry without a device is a null
  pointer; a step that would follow it has no result.
* The filters of the configuration are given as the parts of their texts.
-/
import OpenNebula.TextNumber
import OpenNebula.Transition

open TextNumber

/-! ## Attributes -/

/-- The names of the attributes of a device and of a request for a device. -/
inductive PciName where
  | domain | bus | slot | function | address | shortAddress | vendor | device | classId | numaNode
  | uuid | mdevMode | prevAddress | profile | profiles | sriov | sriovNum | pciId | root | vmDomain
  | vmFunction | vmBus | vmSlot | vmAddress | vmBusIndex
  deriving DecidableEq, Repr

/-- The attributes of a device or of a request. -/
abbrev PciAttribute := PciName → Option Text

namespace PciAttribute

/-- `VectorAttribute::vector_value`: a missing attribute has an empty text. -/
def value (a : PciAttribute) (name : PciName) : Text := (a name).getD []

/-- `VectorAttribute::replace`. -/
def replace (a : PciAttribute) (name : PciName) (text : Text) : PciAttribute :=
  Function.update a name (some text)

/-- `VectorAttribute::remove`. -/
def remove (a : PciAttribute) (name : PciName) : PciAttribute := Function.update a name none

/-- `VectorAttribute::vector_value` for an unsigned number. -/
def unsignedValue (a : PciAttribute) (name : PciName) : Option ℕ :=
  let text := a.value name
  if text = [] then none
  else if (skipWs text).head? = some '-' then none
  else
    let e := getUnsigned 10 32 text
    if e.ok && e.rest.isEmpty then some e.value else none

/-- `VectorAttribute::vector_value` for an `int`. -/
def intValue (a : PciAttribute) (name : PciName) : Option ℤ :=
  let text := a.value name
  if text = [] then none
  else
    let e := getSigned 10 32 text
    if e.ok && e.rest.isEmpty then some e.value else none

/-- `HostSharePCI::get_pci_value`: 0 without a value, -1 for a wrong one, 1 otherwise; and what is
read. -/
def getPciValue (a : PciAttribute) (name : PciName) : ℤ × ℕ :=
  let text := a.value name
  if text = [] then (0, 0)
  else
    let e := getUnsigned 16 32 text
    (if e.ok && e.rest.isEmpty then 1 else -1, e.value)

end PciAttribute

/-- The attribute `VMID` of a device. -/
inductive VmidAttr where
  | text (t : Text)
  | number (v : ℤ)
  deriving DecidableEq

/-- The number in the attribute `VMID`. -/
def VmidAttr.value : VmidAttr → Option ℤ
  | .number v => some v
  | .text t =>
    if t = [] then none
    else
      let e := getSigned 10 32 t
      if e.ok && e.rest.isEmpty then some e.value else none

/-! ## Devices -/

/-- `HostSharePCI::PCIDevice`. -/
structure PCIDevice where
  vendorId : ℕ
  deviceId : ℕ
  classId : ℕ
  vmid : ℤ
  address : Text
  attrs : PciAttribute
  vmidAttr : VmidAttr

/-- A device as the monitor reports it: its attributes and the text of its `VMID`. -/
structure PciReport where
  attrs : PciAttribute
  vmid : Text

/-- What `vector_value` leaves in `vmid`, which is -1 before. -/
def PciReport.readVmid (r : PciReport) : ℤ := if r.vmid = [] then -1 else (getSigned 10 32 r.vmid).value

/-- `PCIDevice::PCIDevice`. -/
def PciReport.toDevice (r : PciReport) : PCIDevice where
  vendorId := (r.attrs.getPciValue .vendor).2
  deviceId := (r.attrs.getPciValue .device).2
  classId := (r.attrs.getPciValue .classId).2
  vmid := r.readVmid
  address := r.attrs.value .address
  attrs := r.attrs
  vmidAttr := if (VmidAttr.text r.vmid).value = none then .number (-1) else .text r.vmid

/-- The device is given back. -/
def PCIDevice.release (d : PCIDevice) : PCIDevice := { d with vmid := -1, vmidAttr := .number (-1) }

/-- The entries of `pci_devices`. -/
abbrev PciMap := List (Text × Option PCIDevice)

namespace PciMap

/-- The keys of the map. -/
def keys (m : PciMap) : List Text := m.map Prod.fst

/-- Insertion of a new key, in the order of the keys. -/
def insert (m : PciMap) (key : Text) (d : Option PCIDevice) : PciMap :=
  m.takeWhile (fun e => e.1 < key) ++ (key, d) :: m.dropWhile fun e => e.1 < key

/-- `std::map::find`. -/
def find (m : PciMap) (key : Text) : Option (Option PCIDevice) :=
  (m.find? fun e => e.1 = key).map Prod.snd

/-- A change of the device of a key. -/
def set (m : PciMap) (key : Text) (d : PCIDevice) : PciMap :=
  m.map fun e => if e.1 = key then (key, some d) else e

/-- `std::map::erase`. -/
def erase (m : PciMap) (key : Text) : PciMap := m.filter fun e => e.1 ≠ key

end PciMap

/-- The request of a virtual machine (`HostShareCapacity`).  A node of its topology has its processors
and its memory. -/
structure PciCapacity where
  vmid : ℤ
  isQ35 : Bool
  vgpuProfile : Text
  pci : List PciAttribute
  nodes : List (ℤ × ℤ)

namespace HostSharePCI

/-! ## The address in the machine -/

/-- The ports that are taken, for each node. -/
abbrev PortAlloc := ℕ → Finset ℕ

/-- A number in base 16 with at least `width` digits. -/
def hexText (width n : ℕ) : Text :=
  let ds := Nat.toDigits 16 n
  List.replicate (width - ds.length) '0' ++ ds

/-- A number in base 16 with its prefix, four characters wide.  Zero has no prefix. -/
def hexPrefixed (n : ℕ) : Text := if n = 0 then hexText 4 0 else "0x".toList ++ hexText 2 n

/-- The loop over the root ports: the first free one, and its bus. -/
def freePort (ports : Finset ℕ) (endPort portInc busInc : ℕ) : ℕ → ℕ → ℕ → Option (ℕ × ℕ)
  | 0, _, _ => none
  | fuel + 1, p, bus =>
    if p < endPort then
      if p ∉ ports then some (p, bus)
      else freePort ports endPort portInc busInc fuel ((p + portInc) % 2 ^ 32) ((bus + busInc) % 2 ^ 32)
    else none

/-- An `int` as an unsigned number. -/
def toUnsigned (n : ℤ) : ℕ := (n % 2 ^ 32).toNat

/-- The address on the root ports of a node. -/
def setNumaAddress (device : PciAttribute) (palloc : PortAlloc) (numaNode : ℤ) (totalNodes : ℕ) :
    ℤ × PciAttribute × PortAlloc :=
  let dedicated : Bool := device.value .root = "dedicated".toList
  let index := if dedicated then 2 ^ 32 - 1 else toUnsigned numaNode
  let ports := palloc index
  let first :=
    if dedicated then (3 + totalNodes * 9 + 1) % 2 ^ 32 else toUnsigned (3 + numaNode * 9 + 1)
  let found :=
    if dedicated then freePort ports ((first + 24) % 2 ^ 32) 2 0x08 12 first (0xA0 + 1)
    else freePort ports ((first + 8) % 2 ^ 32) 1 1 8 first (toUnsigned (0x20 + 0x10 * numaNode + 1))
  match found with
  | none => (-1, device, palloc)
  | some (p, bus) =>
    -- The port 0 stands for no port.
    if p = 0 then (-1, device, palloc)
    else
      (0, (device.replace .vmBusIndex (Nat.toDigits 10 p)).replace .vmAddress
          (hexText 2 bus ++ ":00.0".toList),
        Function.update palloc index (Insert.insert p ports))

/-- The address on the bus of a machine without nodes. -/
def setFlatAddress (device : PciAttribute) (palloc : PortAlloc) (slot : ℕ) (busIndex : Bool) :
    ℤ × PciAttribute × PortAlloc :=
  let device := ((device.remove .vmBusIndex).replace .vmDomain "0x0000".toList).replace .vmFunction
    "0".toList
  let e := getUnsigned 16 32 (device.value .vmBus)
  if e.ok && e.rest.isEmpty then
    let slot := (slot + 1) % 2 ^ 32
    let (ibus, slot) := if busIndex then (slot, 0) else (e.value, slot)
    (0, ((device.replace .vmSlot (hexPrefixed slot)).replace .vmBus (hexPrefixed ibus)).replace
        .vmAddress (hexText 2 ibus ++ ":".toList ++ hexText 2 slot ++ ".0".toList), palloc)
  else (-1, device, palloc)

/-- `HostSharePCI::set_pci_address`: -1 for a wrong bus or without a free port. -/
def setPciAddress (device : PciAttribute) (palloc : PortAlloc) (busIndex : Bool)
    (nodes : List (ℤ × ℤ)) : ℤ × PciAttribute × PortAlloc :=
  match device.unsignedValue .pciId with
  | none => (0, device, palloc)
  | some slot =>
    let numaNode := if nodes = [] then -1 else (device.intValue .numaNode).getD (-1)
    let totalNodes := (nodes.filter fun n => n.1 > 0 && n.2 > 0).length
    if numaNode ≠ -1 then setNumaAddress device palloc numaNode totalNodes
    else setFlatAddress device palloc slot busIndex

/-! ## Assignment -/

/-- `HostSharePCI::pci_attribute`. -/
def pciAttribute (device : PciAttribute) (pci : PCIDevice) (setPrev : Bool) (vprofile : Text) :
    PciAttribute :=
  let device :=
    if setPrev then
      let address := device.value .address
      if address ≠ [] then device.replace .prevAddress address else device
    else device.remove .prevAddress
  let device := [PciName.domain, .bus, .slot, .function, .address, .shortAddress, .vendor, .device,
    .classId].foldl (fun device name => device.replace name (pci.attrs.value name)) device
  let device := [PciName.numaNode, .uuid, .mdevMode].foldl
    (fun device name =>
      if pci.attrs.value name ≠ [] then device.replace name (pci.attrs.value name) else device) device
  if vprofile ≠ [] ∧ (pci.attrs.getPciValue .vendor).2 = 0x10de ∧
      (pci.attrs.getPciValue .classId).2 = 0x0302 ∧ device.value .profile = [] then
    device.replace .profile vprofile
  else device

/-- What a search does with a device. -/
inductive Choice where
  | skip | refuse | take

/-- The end of a search. -/
inductive Pick where
  | noDevice
  | null
  | found (key : Text) (d : PCIDevice)

/-- The loop of a search over the devices. -/
def pick (choose : PCIDevice → Choice) : PciMap → Pick
  | [] => .noDevice
  | (_, none) :: _ => .null
  | (key, some d) :: rest =>
    match choose d with
    | .skip => pick choose rest
    | .refuse => .noDevice
    | .take => .found key d

/-- The choice of `add_by_addr`. -/
def byAddr (shortAddr : Text) (d : PCIDevice) : Choice :=
  if d.attrs.value .shortAddress ≠ shortAddr then .skip
  else if d.vmid ≠ -1 then .refuse
  else .take

/-- The choice of `add_by_name`. -/
def byName (device : PciAttribute) (d : PCIDevice) : Choice :=
  let (classRc, classId) := device.getPciValue .classId
  let (vendorRc, vendorId) := device.getPciValue .vendor
  let (deviceRc, deviceId) := device.getPciValue .device
  if (classRc = 0 ∨ d.classId = classId) ∧ (vendorRc = 0 ∨ d.vendorId = vendorId) ∧
      (deviceRc = 0 ∨ d.deviceId = deviceId) ∧ d.vmid = -1 then .take
  else .skip

/-- One of vendor, device and class is given. -/
def isNamed (device : PciAttribute) : Bool :=
  (device.getPciValue .vendor).1 > 0 || (device.getPciValue .device).1 > 0 ||
    (device.getPciValue .classId).1 > 0

/-- How an assignment ends. -/
inductive Outcome where
  | assigned | noDevice | noAddress
  deriving DecidableEq, Repr

/-- The state of an assignment: the devices of the host and the ports of the machine. -/
structure Assign where
  map : PciMap
  palloc : PortAlloc

/-- The body of `add_by_addr` and `add_by_name`.  When the device gets no address in the machine, the
attribute `VMID` is reset and the field is not. -/
def addDevice (choose : PCIDevice → Choice) (device : PciAttribute) (sr : PciCapacity) (a : Assign) :
    Option (Outcome × PciAttribute × Assign) :=
  match pick choose a.map with
  | .null => none
  | .noDevice => some (.noDevice, device, a)
  | .found key d =>
    let d := { d with vmid := sr.vmid, vmidAttr := .number sr.vmid }
    let device := pciAttribute device d true sr.vgpuProfile
    match setPciAddress device a.palloc sr.isQ35 sr.nodes with
    | (0, device, palloc) => some (.assigned, device, ⟨a.map.set key d, palloc⟩)
    | (_, device, palloc) =>
      some (.noAddress, device, ⟨a.map.set key { d with vmidAttr := .number (-1) }, palloc⟩)

/-- The device is asked for by its short address. -/
def isByAddr (device : PciAttribute) : Bool :=
  device.value .shortAddress ≠ [] && !isNamed device

/-- The first loop of `add`: the devices with a short address.  It marks the devices it has added. -/
def addAddrs (sr : PciCapacity) : List PciAttribute → Assign →
    Option (Outcome × List (PciAttribute × Bool) × Assign)
  | [], a => some (.assigned, [], a)
  | device :: devs, a =>
    if isByAddr device then
      match addDevice (byAddr (device.value .shortAddress)) device sr a with
      | none => none
      | some (.assigned, device', a') =>
        (addAddrs sr devs a').map fun r => (r.1, (device', true) :: r.2.1, r.2.2)
      | some (outcome, device', a') =>
        some (outcome, (device', false) :: devs.map (fun d => (d, false)), a')
    else (addAddrs sr devs a).map fun r => (r.1, (device, false) :: r.2.1, r.2.2)

/-- `HostSharePCI::add_by_name`. -/
def addByName (device : PciAttribute) (sr : PciCapacity) (a : Assign) :
    Option (Outcome × PciAttribute × Assign) :=
  if isNamed device then addDevice (byName device) device sr a else some (.noDevice, device, a)

/-- The second loop of `add`: the other devices. -/
def addNames (sr : PciCapacity) : List (PciAttribute × Bool) → Assign →
    Option (Outcome × List PciAttribute × Assign)
  | [], a => some (.assigned, [], a)
  | (device, true) :: devs, a =>
    (addNames sr devs a).map fun r => (r.1, device :: r.2.1, r.2.2)
  | (device, false) :: devs, a =>
    match addByName device sr a with
    | none => none
    | some (.assigned, device', a') =>
      (addNames sr devs a').map fun r => (r.1, device' :: r.2.1, r.2.2)
    | some (outcome, device', a') => some (outcome, device' :: devs.map Prod.fst, a')

/-- `HostSharePCI::add`. -/
def add (m : PciMap) (sr : PciCapacity) : Option (Outcome × List PciAttribute × PciMap) :=
  match addAddrs sr sr.pci ⟨m, fun _ => ∅⟩ with
  | none => none
  | some (.assigned, devs, a) => (addNames sr devs a).map fun r => (r.1, r.2.1, r.2.2.map)
  | some (outcome, devs, a) => some (outcome, devs.map Prod.fst, a.map)

/-! ## Release, failed migrations, monitoring -/

/-- The device with the address of the machine is given back. -/
def delByAddress (vmid : ℤ) (device : PciAttribute) (m : PciMap) : Option (PciAttribute × PciMap) :=
  match m.find (device.value .address) with
  | none => some (device, m)
  | some none => none
  | some (some d) =>
    if d.vmid = vmid then some (device.remove .address, m.set (device.value .address) d.release)
    else some (device, m)

/-- The turn of `del` for one device: its previous address is tried first. -/
def delDevice (vmid : ℤ) (device : PciAttribute) (m : PciMap) : Option (PciAttribute × PciMap) :=
  match m.find (device.value .prevAddress) with
  | none => delByAddress vmid device m
  | some none => none
  | some (some d) =>
    if d.vmid = vmid then
      some (device.remove .prevAddress, m.set (device.value .prevAddress) d.release)
    else delByAddress vmid device m

/-- The loop of `del`. -/
def delDevices (vmid : ℤ) : List PciAttribute → PciMap → Option (List PciAttribute × PciMap)
  | [], m => some ([], m)
  | device :: devs, m =>
    match delDevice vmid device m with
    | none => none
    | some (device', m') => (delDevices vmid devs m').map fun r => (device' :: r.1, r.2)

/-- `HostSharePCI::del`. -/
def del (m : PciMap) (sr : PciCapacity) : Option (List PciAttribute × PciMap) :=
  delDevices sr.vmid sr.pci m

/-- The loop of `revert`.  The variable `address` keeps its value when a device has no previous
address, and the access with `[]` makes a null entry for an address that is not there. -/
def revertDevices : Text → List PciAttribute → PciMap → List PciAttribute × PciMap
  | _, [], m => ([], m)
  | address, device :: devs, m =>
    let address' := (device .prevAddress).getD address
    if address' = [] then
      let r := revertDevices address' devs m
      (device :: r.1, r.2)
    else
      match m.find address' with
      | some (some pci) =>
        let r := revertDevices address' devs m
        (pciAttribute device pci false [] :: r.1, r.2)
      | some none =>
        let r := revertDevices address' devs m
        (device :: r.1, r.2)
      | none =>
        let r := revertDevices address' devs (m.insert address' none)
        (device :: r.1, r.2)

/-- `HostSharePCI::revert`. -/
def revert (m : PciMap) (devs : List PciAttribute) : List PciAttribute × PciMap :=
  revertDevices [] devs m

/-- The filters of the configuration: vendor, device and class, and short addresses. -/
structure PciConf where
  filters : List (Text × Text × Text)
  shortAddress : List Text

/-- `is_filter_match`. -/
def isFilterMatch (filters : List (Text × Text × Text)) (pci : PciAttribute) : Bool :=
  filters.isEmpty || filters.any fun f =>
    (f.1 = "*".toList || f.1 = pci.value .vendor) &&
      (f.2.1 = "*".toList || f.2.1 = pci.value .device) &&
      (f.2.2 = "*".toList || f.2.2 = pci.value .classId)

/-- `is_address_match`. -/
def isAddressMatch (saddr : List Text) (pci : PciAttribute) : Bool :=
  saddr.isEmpty || saddr.contains (pci.value .shortAddress)

/-- The report is taken into account. -/
def isAccepted (conf : PciConf) (r : PciReport) : Bool :=
  r.attrs.value .address ≠ [] && isFilterMatch conf.filters r.attrs &&
    isAddressMatch conf.shortAddress r.attrs

/-- `update_monitor_attr`. -/
def updateMonitorAttr (stored monitored : PciAttribute) (name : PciName) (removeEmpty : Bool) :
    PciAttribute :=
  if monitored.value name = [] ∧ removeEmpty = true then stored.remove name
  else if monitored.value name ≠ stored.value name then stored.replace name (monitored.value name)
  else stored

/-- The monitored attributes of a device that is there. -/
def monitored (d : PCIDevice) (r : PciReport) : PCIDevice :=
  let attrs := updateMonitorAttr d.attrs r.attrs .profiles false
  let attrs := updateMonitorAttr attrs r.attrs .sriov false
  { d with attrs := updateMonitorAttr attrs r.attrs .sriovNum true }

/-- The loop over the reports. -/
def takeReports (conf : PciConf) : List PciReport → List Text → PciMap →
    Option (List Text × PciMap)
  | [], missing, m => some (missing, m)
  | r :: reports, missing, m =>
    if isAccepted conf r then
      let address := r.attrs.value .address
      match m.find address with
      | some none => none
      | some (some d) =>
        takeReports conf reports (missing.filter fun k => k ≠ address) (m.set address (monitored d r))
      | none => takeReports conf reports missing (m.insert address (some r.toDevice))
    else takeReports conf reports missing m

/-- The loop over the devices that are missing in the report: the ones that no machine uses are
removed. -/
def dropMissing : List Text → PciMap → Option PciMap
  | [], m => some m
  | key :: missing, m =>
    match m.find key with
    | none => dropMissing missing m
    | some none => none
    | some (some d) => dropMissing missing (if d.vmid ≠ -1 then m else m.erase key)

/-- `HostSharePCI::set_monitorization`. -/
def setMonitorization (m : PciMap) (reports : List PciReport) (conf : PciConf) : Option PciMap :=
  match takeReports conf reports m.keys m with
  | none => none
  | some (missing, m') => dropMissing missing m'

/-! ## Runs -/

/-- Operations on the devices of a host. -/
inductive Op where
  | add (sr : PciCapacity)
  | del (sr : PciCapacity)
  | revert (devs : List PciAttribute)
  | setMonitorization (reports : List PciReport) (conf : PciConf)

/-- The devices after an operation; `none` when it follows a null pointer. -/
def step (m : PciMap) : Op → Option PciMap
  | .add sr => (add m sr).map fun r => r.2.2
  | .del sr => (del m sr).map Prod.snd
  | .revert devs => some (revert m devs).2
  | .setMonitorization reports conf => setMonitorization m reports conf

end HostSharePCI
