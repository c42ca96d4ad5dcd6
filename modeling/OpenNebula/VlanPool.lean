/-
# Automatic VLAN ids (`src/vnm/VirtualNetworkPool.cc`)

Networks of the drivers 802.1Q, Open vSwitch and Open vSwitch on VXLAN get their automatic VLAN ids from one
bitmap in the database.  A creation inserts the network, reads the bitmap, takes a bit, writes the bitmap back
and writes the network with its id; a deletion reads the bitmap, clears the bit, writes the bitmap back and
drops the network.  Each of these is a step of its own here, and the steps of different requests interleave.

`Exclusive` says that no two networks of these drivers have the same automatic id and that the set bits are the
ids that are held.  A network holds the id that its request has taken from the bitmap before the network itself
is written, and no longer holds the id that its deletion has given back.

It holds as long as no request reads the bitmap between the reading and the writing of another one (a creation
not before the other's network is dropped either), an automatic id does not move between the drivers of the
bitmap and the others, and the id is not 0, which is taken but not stored (`exclusive_of_reach`).

Conventions of the embedding:

* Ids are numbers, and the empty text is `none`; the text of an id that a user gives is not read.
* Statements of the database succeed.
* Of the parameters of a network only the driver and the VLAN ids are here; a creation that is refused changes
  nothing.
-/
import OpenNebula.Transition
import OpenNebula.BitMap

open Transition

namespace VlanPool

/-! ## Networks -/

/-- `VirtualNetworkDriver`. -/
inductive Driver
  | none
  | dummy
  | vlan
  | fw
  | ovswitch
  | vxlan
  | ovswitchVxlan
  | bridge
  deriving DecidableEq

/-- The drivers that are served by the bitmap. -/
def Driver.shared : Driver → Bool
  | .vlan | .ovswitch | .ovswitchVxlan => true
  | .none | .dummy | .fw | .vxlan | .bridge => false

/-- A network, and also the template of one. -/
structure Net where
  vnMad : Driver
  vlanId : Option ℕ
  vlanIdAutomatic : Bool
  outerVlanId : Option ℕ
  outerVlanIdAutomatic : Bool
  deriving DecidableEq

/-- The parameters `VLAN_IDS` and `VXLAN_IDS`. -/
structure Conf where
  vlan : BitMap.Conf
  vxlanStart : ℕ
  start_lt : vlan.startBit < 4095

namespace Net

/-- `parse_vlan_id`: an id is automatic only if there is none. -/
def parseVlanId (id : Option ℕ) (auto : Bool) : Option ℕ × Bool :=
  match id with
  | some v => (some v, false)
  | .none => (.none, auto)

/-- The network of a template, as it is inserted. -/
def parse (t : Net) : Net :=
  let (vlanId, auto) := parseVlanId t.vlanId t.vlanIdAutomatic
  let (outerVlanId, autoOuter) := parseVlanId t.outerVlanId t.outerVlanIdAutomatic
  ⟨t.vnMad, vlanId, auto, outerVlanId, autoOuter⟩

/-- The VLAN ids in `parse_phydev_vlans`. -/
def check (net : Net) : Bool :=
  match net.vnMad with
  | .vxlan | .vlan => net.vlanIdAutomatic || net.vlanId.isSome
  | .ovswitchVxlan => net.outerVlanIdAutomatic || net.outerVlanId.isSome
  | _ => true

/-- `clone_template`, for a reservation. -/
def cloneTemplate (net : Net) : Net := ⟨net.vnMad, net.vlanId, false, net.outerVlanId, false⟩

/-- `post_update_template`: the driver and the ids that are not automatic. -/
def update (net : Net) (vnMad : Driver) (vlanId outerVlanId : Option ℕ) : Net :=
  { net with
    vnMad := vnMad
    vlanId := if net.vlanIdAutomatic then net.vlanId else vlanId
    outerVlanId := if net.outerVlanIdAutomatic then net.outerVlanId else outerVlanId }

/-- `set_8021Q_id` has something to do. -/
def needsId (net : Net) : Bool := net.vnMad.shared && net.vlanIdAutomatic && net.vlanId.isNone

/-- `release_vlan_id` has something to do. -/
def releases (net : Net) : Option ℕ :=
  if net.vlanIdAutomatic ∧ net.vnMad.shared then net.vlanId else .none

end Net

/-- `set_vxlan_id`: the id, and what it returns. -/
def setVxlanId (conf : Conf) (vnid : ℕ) (vlanVar : Option ℕ) (autoVar : Bool) : Option ℕ × ℕ :=
  if vlanVar ≠ none ∨ autoVar = false then (vlanVar, 0)
  else (some (conf.vxlanStart + vnid), conf.vxlanStart + vnid)

/-- What `set_vlan_id` does for VXLAN ids; a return value of 0 is no update. -/
def Net.setVxlan (conf : Conf) (vnid : ℕ) (net : Net) : Net :=
  match net.vnMad with
  | .ovswitchVxlan =>
    let (outer, rcx) := setVxlanId conf vnid net.outerVlanId net.outerVlanIdAutomatic
    if rcx ≠ 0 then { net with outerVlanId := outer } else net
  | .vxlan =>
    let (id, rcx) := setVxlanId conf vnid net.vlanId net.vlanIdAutomatic
    if rcx ≠ 0 then { net with vlanId := id } else net
  | _ => net

/-- What `set_vlan_id` stores when an id has been taken from the bitmap. -/
def Net.setVlan (conf : Conf) (vnid vlanId : ℕ) (net : Net) : Net :=
  let (outer, rcx) :=
    if net.vnMad = .ovswitchVxlan then
      setVxlanId conf vnid net.outerVlanId net.outerVlanIdAutomatic
    else (net.outerVlanId, 0)
  if vlanId ≠ 0 ∨ rcx ≠ 0 then { net with vlanId := some vlanId, outerVlanId := outer } else net

/-- `hint_vlan`. -/
def hintVlan (conf : Conf) (vnid : ℕ) : ℕ := conf.vlan.startBit + vnid % (4095 - conf.vlan.startBit)

theorem hintVlan_lt (conf : Conf) (vnid : ℕ) : hintVlan conf vnid < 4096 := by
  have hstart := conf.start_lt
  have hmod := Nat.mod_lt vnid (show 0 < 4095 - conf.vlan.startBit by omega)
  unfold hintVlan
  omega

/-! ## The pool and its requests -/

/-- Where a request is that has a network locked; what it has read from the database is its own. -/
inductive Phase
  | assigning (bitmap : Finset ℕ)
  | assigned (vlanId : ℕ)
  | releasing (bitmap : Finset ℕ)
  | released

/-- `created` counts the networks, and `fresh` are those that no id has been looked for yet. -/
structure Pool where
  nets : ℕ → Option Net
  created : ℕ
  fresh : ℕ → Bool
  busy : ℕ → Option Phase
  bitmap : Finset ℕ

def Pool.init : Pool := ⟨fun _ => none, 0, fun _ => false, fun _ => none, ∅⟩

/-- `updateTemplate` is a template update that is accepted. -/
inductive Event
  | insert (t : Net)
  | reserve (parent : ℕ)
  | setVlanId (oid : ℕ)
  | getBit (oid : ℕ)
  | store (oid : ℕ)
  | delete (oid : ℕ)
  | resetBit (oid : ℕ)
  | drop (oid : ℕ)
  | updateTemplate (oid : ℕ) (vnMad : Driver) (vlanId outerVlanId : Option ℕ)

namespace Pool

/-- One network and the request that has it locked. -/
def put (s : Pool) (oid : ℕ) (net : Option Net) (phase : Option Phase) : Pool :=
  { s with nets := Function.update s.nets oid net, busy := Function.update s.busy oid phase }

/-- `VirtualNetwork::insert`. -/
def insert (s : Pool) (t : Net) : Pool :=
  if t.parse.check then
    { s.put s.created (some t.parse) none with
      created := s.created + 1, fresh := Function.update s.fresh s.created true }
  else s

/-- `set_vlan_id`, up to the reading of the bitmap. -/
def setVlanId (conf : Conf) (s : Pool) (oid : ℕ) : Pool :=
  let s' := { s with fresh := Function.update s.fresh oid false }
  match s.nets oid with
  | none => s'
  | some net =>
    if net.needsId then s'.put oid (some net) (some (.assigning s.bitmap))
    else s'.put oid (some (net.setVxlan conf oid)) none

/-- `set_8021Q_id`, after the reading of the bitmap; the network is dropped if there is no bit. -/
def getBit (conf : Conf) (s : Pool) (oid : ℕ) (bitmap : Finset ℕ) : Pool :=
  match BitMap.get 4096 conf.vlan bitmap (hintVlan conf oid) with
  | none => s.put oid none none
  | some (vlanId, bitmap') => { s.put oid (s.nets oid) (some (.assigned vlanId)) with bitmap := bitmap' }

/-- `drop`, up to the reading of the bitmap. -/
def delete (s : Pool) (oid : ℕ) (net : Net) : Pool :=
  match net.releases with
  | some _ => s.put oid (some net) (some (.releasing s.bitmap))
  | none => s.put oid none none

end Pool

/-- A step of a request. -/
def step (conf : Conf) (s : Pool) : Event → Option Pool
  | .insert t => some (s.insert t)
  | .reserve parent =>
    match s.nets parent with
    | none => some s
    | some net => some (s.insert net.cloneTemplate)
  | .setVlanId oid =>
    match s.fresh oid, s.busy oid with
    | true, none => some (s.setVlanId conf oid)
    | _, _ => none
  | .getBit oid =>
    match s.busy oid with
    | some (.assigning bitmap) => some (s.getBit conf oid bitmap)
    | _ => none
  | .store oid =>
    match s.busy oid, s.nets oid with
    | some (.assigned vlanId), some net => some (s.put oid (some (net.setVlan conf oid vlanId)) none)
    | _, _ => none
  | .delete oid =>
    match s.busy oid, s.nets oid with
    | none, some net => some (s.delete oid net)
    | _, _ => none
  | .resetBit oid =>
    match s.busy oid, s.nets oid with
    | some (.releasing bitmap), some net =>
      some { s.put oid (some net) (some .released) with
        bitmap := net.vlanId.elim bitmap (BitMap.reset bitmap) }
    | _, _ => none
  | .drop oid =>
    match s.busy oid with
    | some .released => some (s.put oid none none)
    | _ => none
  | .updateTemplate oid vnMad vlanId outerVlanId =>
    match s.busy oid, s.nets oid with
    | none, some net => some (s.put oid (some (net.update vnMad vlanId outerVlanId)) none)
    | _, _ => none

/-! ## Unique ids -/

/-- A network of the shared drivers has this automatic id. -/
def Net.HasId (net : Net) (vlanId : ℕ) : Prop :=
  net.vnMad.shared = true ∧ net.vlanIdAutomatic = true ∧ net.vlanId = some vlanId

/-- A network holds an id, the request that has it locked taken into account. -/
def Pool.Held (s : Pool) (vlanId : ℕ) : Prop :=
  ∃ oid net, s.nets oid = some net ∧ net.vnMad.shared = true ∧ net.vlanIdAutomatic = true ∧
    match s.busy oid with
    | some (.assigned v) => v = vlanId
    | some .released => False
    | _ => net.vlanId = some vlanId

structure Exclusive (s : Pool) : Prop where
  unique : ∀ oid oid' net net' vlanId, s.nets oid = some net → s.nets oid' = some net' →
    net.HasId vlanId → net'.HasId vlanId → oid = oid'
  exact : ∀ vlanId, vlanId ∈ s.bitmap ↔ s.Held vlanId

/-- A request has the bitmap in its memory. -/
def Phase.reads : Option Phase → Bool
  | some (.assigning _) | some (.releasing _) => true
  | _ => false

/-- The network is about to be dropped. -/
def Phase.gone : Option Phase → Bool
  | some .released => true
  | _ => false

/-- The bitmap is read by one request at a time, ids stay in their drivers, and 0 is not stored. -/
def Orderly (conf : Conf) (s : Pool) : Event → Prop
  | .setVlanId oid =>
    ∀ net ∈ s.nets oid, net.needsId = true →
      ∀ n < s.created, Phase.reads (s.busy n) = false ∧ Phase.gone (s.busy n) = false
  | .delete oid =>
    ∀ net ∈ s.nets oid, net.releases ≠ none → ∀ n < s.created, Phase.reads (s.busy n) = false
  | .store oid =>
    ∀ net ∈ s.nets oid,
      match s.busy oid with
      | some (.assigned vlanId) =>
        vlanId = 0 → net.vnMad = .ovswitchVxlan ∧ net.outerVlanIdAutomatic = true ∧
          net.outerVlanId = none ∧ conf.vxlanStart + oid ≠ 0
      | _ => True
  | .updateTemplate oid vnMad _ _ =>
    ∀ net ∈ s.nets oid, net.vlanIdAutomatic = true → net.vlanId ≠ none → net.vnMad.shared = vnMad.shared
  | _ => True

instance (conf : Conf) (s : Pool) (e : Event) : Decidable (Orderly conf s e) := by
  unfold Orderly
  split
  · infer_instance
  · infer_instance
  · split <;> infer_instance
  · infer_instance
  · infer_instance

/-! ## Ids and bits -/

section Bits

/-- The id that a network holds or is about to hold. -/
def idOf (net : Option Net) (phase : Option Phase) : Option ℕ :=
  match net with
  | none => none
  | some net =>
    if net.vnMad.shared ∧ net.vlanIdAutomatic then
      match phase with
      | some (.assigned vlanId) => some vlanId
      | _ => net.vlanId
    else none

/-- The ids, the requests and the bitmap in one state. -/
structure Bits (id : ℕ → Option ℕ) (busy : ℕ → Option Phase) (bitmap : Finset ℕ) : Prop where
  unique : ∀ a b v, id a = some v → id b = some v → a = b
  exact : ∀ v, v ∈ bitmap ↔ ∃ a, id a = some v ∧ Phase.gone (busy a) = false
  copy : ∀ a m, busy a = some (.assigning m) ∨ busy a = some (.releasing m) → m = bitmap
  single : ∀ a b, Phase.reads (busy a) = true → Phase.reads (busy b) = true → a = b
  apart : ∀ a b m, busy a = some (.assigning m) → Phase.gone (busy b) = false

variable {id : ℕ → Option ℕ} {busy : ℕ → Option Phase} {bitmap m : Finset ℕ} {a v : ℕ} {phase : Option Phase}

theorem gone_update (hgone : Phase.gone (busy a) = false) (hgone' : Phase.gone phase = false) (n : ℕ) :
    Phase.gone (Function.update busy a phase n) = Phase.gone (busy n) := by
  rcases eq_or_ne n a with rfl | hne
  · rw [Function.update_self, hgone, hgone']
  · rw [Function.update_of_ne hne]

/-- A request that does not touch the bitmap. -/
theorem Bits.quiet (h : Bits id busy bitmap) (hgone : Phase.gone (busy a) = false)
    (hreads : Phase.reads phase = false) (hgone' : Phase.gone phase = false) :
    Bits id (Function.update busy a phase) bitmap := by
  have hsame := gone_update hgone hgone'
  have hbefore : ∀ n, Phase.reads (Function.update busy a phase n) = true →
      Function.update busy a phase n = busy n := by
    intro n hn
    rcases eq_or_ne n a with rfl | hne
    · rw [Function.update_self, hreads] at hn
      exact absurd hn Bool.false_ne_true
    · exact Function.update_of_ne hne _ _
  refine ⟨h.unique, fun w => ?_, fun n m hn => ?_, fun n k hn hk => ?_, fun n k m hn => ?_⟩
  · rw [h.exact w]
    exact exists_congr fun n => by rw [hsame n]
  · have hread : Phase.reads (Function.update busy a phase n) = true := by
      rcases hn with hn | hn <;> rw [hn] <;> rfl
    rw [hbefore n hread] at hn
    exact h.copy n m hn
  · have hn' := hbefore n hn
    have hk' := hbefore k hk
    rw [hn'] at hn
    rw [hk'] at hk
    exact h.single n k hn hk
  · have hread : Phase.reads (Function.update busy a phase n) = true := by
      rw [hn]
      rfl
    rw [hbefore n hread] at hn
    rw [hsame k]
    exact h.apart n k m hn

/-- A request reads the bitmap when no other one has it in its memory. -/
theorem Bits.read (h : Bits id busy bitmap) (hnone : ∀ n, Phase.reads (busy n) = false)
    (hgone : Phase.gone (busy a) = false)
    (hphase : (phase = some (.assigning bitmap) ∧ ∀ n, Phase.gone (busy n) = false) ∨
      phase = some (.releasing bitmap)) : Bits id (Function.update busy a phase) bitmap := by
  have hreads : ∀ n, Phase.reads (Function.update busy a phase n) = true → n = a := by
    intro n hn
    by_contra hne
    rw [Function.update_of_ne hne, hnone n] at hn
    exact Bool.false_ne_true hn
  have hgone' : Phase.gone phase = false := by
    rcases hphase with ⟨rfl, -⟩ | rfl <;> rfl
  have hsame := gone_update hgone hgone'
  refine ⟨h.unique, fun w => ?_, fun n m hn => ?_, fun n k hn hk => (hreads n hn).trans (hreads k hk).symm,
    fun n k m hn => ?_⟩
  · rw [h.exact w]
    exact exists_congr fun n => by rw [hsame n]
  · have heq : n = a := hreads n (by rcases hn with hn | hn <;> rw [hn] <;> rfl)
    rw [heq, Function.update_self] at hn
    rcases hphase with ⟨rfl, -⟩ | rfl
    · rcases hn with hn | hn
      · injection hn with hn
        injection hn with hn
        exact hn.symm
      · exact absurd hn (by simp)
    · rcases hn with hn | hn
      · exact absurd hn (by simp)
      · injection hn with hn
        injection hn with hn
        exact hn.symm
  · have heq : n = a := hreads n (by rw [hn]; rfl)
    rw [hsame k]
    rcases hphase with ⟨-, hall⟩ | rfl
    · exact hall k
    · rw [heq, Function.update_self] at hn
      exact absurd hn (by simp)

/-- A free bit is given to the network whose request has read the bitmap. -/
theorem Bits.take (h : Bits id busy bitmap) (hbusy : busy a = some (.assigning m)) (hid : id a = none)
    (hv : v ∉ bitmap) :
    Bits (Function.update id a (some v)) (Function.update busy a (some (.assigned v))) (insert v bitmap) := by
  have hnobody : ∀ n, id n ≠ some v := by
    intro n hn
    exact hv ((h.exact v).mpr ⟨n, hn, h.apart a n m hbusy⟩)
  have hreads : ∀ n, Phase.reads (Function.update busy a (some (.assigned v)) n) = false := by
    intro n
    rcases eq_or_ne n a with rfl | hne
    · rw [Function.update_self]
      rfl
    · rw [Function.update_of_ne hne]
      refine eq_false_of_ne_true fun hn => hne (h.single n a hn ?_)
      rw [hbusy]
      rfl
  have hgone : ∀ n, Phase.gone (Function.update busy a (some (.assigned v)) n) = false := by
    intro n
    rcases eq_or_ne n a with rfl | hne
    · rw [Function.update_self]
      rfl
    · rw [Function.update_of_ne hne]
      exact h.apart a n m hbusy
  have hids : ∀ n w, Function.update id a (some v) n = some w ↔ (n = a ∧ v = w) ∨ id n = some w := by
    intro n w
    rcases eq_or_ne n a with rfl | hne
    · rw [Function.update_self, hid]
      simp
    · rw [Function.update_of_ne hne]
      simp [hne]
  refine ⟨fun n k w hn hk => ?_, fun w => ?_, fun n m hn => ?_, fun n _ hn => ?_, fun n _ m hn => ?_⟩
  · rcases (hids n w).mp hn with ⟨rfl, rfl⟩ | hn'
    · rcases (hids k v).mp hk with ⟨rfl, -⟩ | hk'
      · rfl
      · exact absurd hk' (hnobody k)
    · rcases (hids k w).mp hk with ⟨rfl, rfl⟩ | hk'
      · exact absurd hn' (hnobody n)
      · exact h.unique n k w hn' hk'
  · rw [Finset.mem_insert, h.exact w]
    constructor
    · rintro (rfl | ⟨n, hn, -⟩)
      · exact ⟨a, Function.update_self _ _ _, hgone a⟩
      · exact ⟨n, (hids n w).mpr (Or.inr hn), hgone n⟩
    · rintro ⟨n, hn, -⟩
      rcases (hids n w).mp hn with ⟨-, rfl⟩ | hn
      · exact Or.inl rfl
      · exact Or.inr ⟨n, hn, h.apart a n _ hbusy⟩
  · have hread : Phase.reads (Function.update busy a (some (.assigned v)) n) = true := by
      rcases hn with hn | hn <;> rw [hn] <;> rfl
    rw [hreads n] at hread
    exact absurd hread Bool.false_ne_true
  · rw [hreads n] at hn
    exact absurd hn Bool.false_ne_true
  · have hread : Phase.reads (Function.update busy a (some (.assigned v)) n) = true := by
      rw [hn]
      rfl
    rw [hreads n] at hread
    exact absurd hread Bool.false_ne_true

/-- The bit of a network is given back. -/
theorem Bits.give (h : Bits id busy bitmap) (hbusy : busy a = some (.releasing m)) (hid : id a = some v) :
    Bits id (Function.update busy a (some .released)) (bitmap.erase v) := by
  have hreads : ∀ n, Phase.reads (Function.update busy a (some .released) n) = false := by
    intro n
    rcases eq_or_ne n a with rfl | hne
    · rw [Function.update_self]
      rfl
    · rw [Function.update_of_ne hne]
      refine eq_false_of_ne_true fun hn => hne (h.single n a hn ?_)
      rw [hbusy]
      rfl
  refine ⟨h.unique, fun w => ?_, fun n m hn => ?_, fun n _ hn => ?_, fun n _ m hn => ?_⟩
  · rw [Finset.mem_erase, h.exact w]
    constructor
    · rintro ⟨hne, n, hn, hgone⟩
      have hna : n ≠ a := by
        rintro rfl
        rw [hid] at hn
        exact hne (Option.some.inj hn).symm
      refine ⟨n, hn, ?_⟩
      rw [Function.update_of_ne hna]
      exact hgone
    · rintro ⟨n, hn, hgone⟩
      have hna : n ≠ a := by
        rintro rfl
        rw [Function.update_self] at hgone
        exact Bool.false_ne_true hgone.symm
      rw [Function.update_of_ne hna] at hgone
      refine ⟨?_, n, hn, hgone⟩
      rintro rfl
      exact hna (h.unique n a w hn hid)
  · have hread : Phase.reads (Function.update busy a (some .released) n) = true := by
      rcases hn with hn | hn <;> rw [hn] <;> rfl
    rw [hreads n] at hread
    exact absurd hread Bool.false_ne_true
  · rw [hreads n] at hn
    exact absurd hn Bool.false_ne_true
  · have hread : Phase.reads (Function.update busy a (some .released) n) = true := by
      rw [hn]
      rfl
    rw [hreads n] at hread
    exact absurd hread Bool.false_ne_true

/-- A network whose bit has been given back is dropped. -/
theorem Bits.forget (h : Bits id busy bitmap) (hbusy : busy a = some .released) :
    Bits (Function.update id a none) (Function.update busy a none) bitmap := by
  have hids : ∀ n w, Function.update id a none n = some w ↔ n ≠ a ∧ id n = some w := by
    intro n w
    rcases eq_or_ne n a with rfl | hne
    · rw [Function.update_self]
      simp
    · rw [Function.update_of_ne hne]
      simp [hne]
  have hbefore : ∀ n p, Function.update busy a none n = some p → busy n = some p := by
    intro n p hn
    rcases eq_or_ne n a with rfl | hne
    · rw [Function.update_self] at hn
      exact absurd hn.symm (Option.some_ne_none p)
    · rw [Function.update_of_ne hne] at hn
      exact hn
  have hreads : ∀ n, Phase.reads (Function.update busy a none n) = true → Phase.reads (busy n) = true := by
    intro n hn
    rcases hp : Function.update busy a none n with _ | p
    · rw [hp] at hn
      exact absurd hn Bool.false_ne_true
    · rw [hp] at hn
      rw [hbefore n p hp]
      exact hn
  refine ⟨fun n k w hn hk => h.unique n k w ((hids n w).mp hn).2 ((hids k w).mp hk).2, fun w => ?_,
    fun n m hn => h.copy n m (hn.imp (hbefore n _) (hbefore n _)),
    fun n k hn hk => h.single n k (hreads n hn) (hreads k hk), fun n k m hn => ?_⟩
  · rw [h.exact w]
    constructor
    · rintro ⟨n, hn, hgone⟩
      have hna : n ≠ a := by
        rintro rfl
        rw [hbusy] at hgone
        exact Bool.false_ne_true hgone.symm
      refine ⟨n, (hids n w).mpr ⟨hna, hn⟩, ?_⟩
      rw [Function.update_of_ne hna]
      exact hgone
    · rintro ⟨n, hn, hgone⟩
      obtain ⟨hna, hn⟩ := (hids n w).mp hn
      rw [Function.update_of_ne hna] at hgone
      exact ⟨n, hn, hgone⟩
  · have hgone := h.apart n a m (hbefore n _ hn)
    rw [hbusy] at hgone
    exact absurd hgone.symm Bool.false_ne_true

end Bits

/-! ## Steps -/

section Steps

variable {conf : Conf} {s s' : Pool}

/-- What a request that has a network locked knows of it. -/
def Fits (net : Option Net) : Option Phase → Prop
  | some (.assigning _) | some (.assigned _) =>
    ∃ n, net = some n ∧ n.vnMad.shared = true ∧ n.vlanIdAutomatic = true ∧ n.vlanId = none
  | some (.releasing _) | some .released =>
    ∃ n v, net = some n ∧ n.vnMad.shared = true ∧ n.vlanIdAutomatic = true ∧ n.vlanId = some v
  | none => True

/-- The bitmap holds the identifiers in use, a request knows what it has locked, and a network that
has not been created is not there. -/
structure Inv (s : Pool) : Prop where
  bits : Bits (fun n => idOf (s.nets n) (s.busy n)) s.busy s.bitmap
  fits : ∀ n, Fits (s.nets n) (s.busy n)
  known : ∀ n, s.created ≤ n → s.nets n = none ∧ s.busy n = none

theorem Inv.exclusive (h : Inv s) : Exclusive s := by
  have hid : ∀ n net v, s.nets n = some net → net.HasId v → idOf (s.nets n) (s.busy n) = some v := by
    intro n net v hnet hv
    have hfits := h.fits n
    rw [hnet] at hfits ⊢
    unfold idOf
    dsimp only
    rw [if_pos ⟨hv.1, hv.2.1⟩]
    split
    · rename_i w hbusy
      rw [hbusy] at hfits
      obtain ⟨_, heq, -, -, hnone⟩ := hfits
      rw [← Option.some.inj heq, hv.2.2] at hnone
      exact absurd hnone (Option.some_ne_none v)
    · exact hv.2.2
  refine ⟨fun n n' net net' v hnet hnet' hv hv' => ?_, fun v => ?_⟩
  · exact h.bits.unique n n' v (hid n net v hnet hv) (hid n' net' v hnet' hv')
  · rw [h.bits.exact v]
    refine exists_congr fun n => ?_
    unfold idOf
    cases hnet : s.nets n with
    | none => simp
    | some net =>
      simp only [Option.some.injEq, exists_eq_left']
      split
      · rename_i hshared
        rcases hbusy : s.busy n with _ | _ | _ | _ | _ <;> simp [hshared.1, hshared.2, Phase.gone]
      · rename_i hshared
        constructor
        · rintro ⟨heq, -⟩
          exact absurd heq.symm (Option.some_ne_none v)
        · rintro ⟨hs, ha, -⟩
          exact absurd ⟨hs, ha⟩ hshared

/-- The ids after a change of one network. -/
theorem idOf_put (s : Pool) (oid : ℕ) (net : Option Net) (phase : Option Phase) :
    (fun n => idOf ((s.put oid net phase).nets n) ((s.put oid net phase).busy n)) =
      Function.update (fun n => idOf (s.nets n) (s.busy n)) oid (idOf net phase) := by
  funext n
  show idOf (Function.update s.nets oid net n) (Function.update s.busy oid phase n) = _
  rcases eq_or_ne n oid with rfl | hne
  · rw [Function.update_self, Function.update_self, Function.update_self]
  · rw [Function.update_of_ne hne, Function.update_of_ne hne, Function.update_of_ne hne]

/-- A change of one network and of the bitmap. -/
theorem Inv.put (h : Inv s) {oid : ℕ} {net : Option Net} {phase : Option Phase} {bitmap : Finset ℕ}
    {created : ℕ} {fresh : ℕ → Bool}
    (hbits : Bits (Function.update (fun n => idOf (s.nets n) (s.busy n)) oid (idOf net phase))
      (Function.update s.busy oid phase) bitmap)
    (hfits : Fits net phase) (hle : s.created ≤ created) (hknown : created ≤ oid → net = none ∧ phase = none) :
    Inv ⟨Function.update s.nets oid net, created, fresh, Function.update s.busy oid phase, bitmap⟩ := by
  refine ⟨?_, fun n => ?_, fun n hn => ?_⟩
  · have hids := idOf_put s oid net phase
    show Bits (fun n => idOf ((s.put oid net phase).nets n) ((s.put oid net phase).busy n)) _ bitmap
    rw [hids]
    exact hbits
  · show Fits (Function.update s.nets oid net n) (Function.update s.busy oid phase n)
    rcases eq_or_ne n oid with rfl | hne
    · rw [Function.update_self, Function.update_self]
      exact hfits
    · rw [Function.update_of_ne hne, Function.update_of_ne hne]
      exact h.fits n
  · show Function.update s.nets oid net n = none ∧ Function.update s.busy oid phase n = none
    rcases eq_or_ne n oid with rfl | hne
    · rw [Function.update_self, Function.update_self]
      exact hknown hn
    · rw [Function.update_of_ne hne, Function.update_of_ne hne]
      exact h.known n (hle.trans hn)

/-- A step that leaves the bitmap and the id of its network as they were. -/
theorem Inv.put_quiet (h : Inv s) {oid : ℕ} {net : Option Net} {phase : Option Phase} {created : ℕ}
    {fresh : ℕ → Bool} (hid : idOf net phase = idOf (s.nets oid) (s.busy oid))
    (hgone : Phase.gone (s.busy oid) = false) (hreads : Phase.reads phase = false)
    (hgone' : Phase.gone phase = false) (hfits : Fits net phase) (hle : s.created ≤ created)
    (hknown : created ≤ oid → net = none ∧ phase = none) :
    Inv ⟨Function.update s.nets oid net, created, fresh, Function.update s.busy oid phase, s.bitmap⟩ := by
  refine h.put ?_ hfits hle hknown
  rw [hid, Function.update_eq_self]
  exact h.bits.quiet hgone hreads hgone'

/-- A network that exists is among those that have been created. -/
theorem Inv.lt_created (h : Inv s) {oid : ℕ} {net : Net} (hnet : s.nets oid = some net) :
    ¬ s.created ≤ oid := by
  intro hle
  rw [(h.known oid hle).1] at hnet
  exact Option.some_ne_none net hnet.symm

theorem idOf_some {net : Net} {phase : Option Phase} (hphase : ∀ v, phase ≠ some (.assigned v)) :
    idOf (some net) phase = if net.vnMad.shared ∧ net.vlanIdAutomatic then net.vlanId else none := by
  unfold idOf
  dsimp only
  split
  · split
    · rename_i v
      exact absurd rfl (hphase v)
    · rfl
  · rfl

theorem idOf_idle (net : Net) :
    idOf (some net) none = if net.vnMad.shared ∧ net.vlanIdAutomatic then net.vlanId else none :=
  idOf_some fun v => (Option.some_ne_none (Phase.assigned v)).symm

/-- A network that is inserted has no automatic id yet. -/
theorem idOf_parse (t : Net) : idOf (some t.parse) none = none := by
  rw [idOf_idle]
  cases hid : t.vlanId with
  | none =>
    have hnone : t.parse.vlanId = none := by
      unfold Net.parse
      rw [hid]
      rfl
    rw [hnone]
    exact ite_self _
  | some v =>
    have hauto : t.parse.vlanIdAutomatic = false := by
      unfold Net.parse
      rw [hid]
      rfl
    rw [hauto]
    exact if_neg fun h => Bool.false_ne_true h.2

theorem idOf_setVxlan (vnid : ℕ) (net : Net) :
    idOf (some (net.setVxlan conf vnid)) none = idOf (some net) none := by
  rw [idOf_idle, idOf_idle]
  unfold Net.setVxlan
  split
  · dsimp only
    split <;> rfl
  · rename_i hmad
    have hnot : ∀ auto : Bool, ¬ (net.vnMad.shared = true ∧ auto = true) := by
      intro auto h
      rw [hmad] at h
      exact Bool.false_ne_true h.1
    dsimp only
    split
    · rw [if_neg (hnot _), if_neg (hnot _)]
    · rfl
  · rfl

theorem setVlan_spec {vnid v : ℕ} {net : Net}
    (hv : v = 0 → net.vnMad = .ovswitchVxlan ∧ net.outerVlanIdAutomatic = true ∧ net.outerVlanId = none ∧
      conf.vxlanStart + vnid ≠ 0) :
    (net.setVlan conf vnid v).vnMad = net.vnMad ∧
      (net.setVlan conf vnid v).vlanIdAutomatic = net.vlanIdAutomatic ∧
      (net.setVlan conf vnid v).vlanId = some v := by
  have hstored : v ≠ 0 ∨ (if net.vnMad = .ovswitchVxlan then
      setVxlanId conf vnid net.outerVlanId net.outerVlanIdAutomatic else (net.outerVlanId, 0)).2 ≠ 0 := by
    by_cases hzero : v = 0
    · obtain ⟨hmad, hauto, hnone, hne⟩ := hv hzero
      refine Or.inr ?_
      rw [if_pos hmad, hnone, hauto]
      exact hne
    · exact Or.inl hzero
  unfold Net.setVlan
  dsimp only
  rw [if_pos hstored]
  exact ⟨rfl, rfl, rfl⟩

theorem inv_insert (h : Inv s) (t : Net) : Inv (s.insert t) := by
  unfold Pool.insert
  split
  · obtain ⟨hnet, hbusy⟩ := h.known s.created (le_refl _)
    refine h.put_quiet ?_ ?_ rfl rfl trivial (Nat.le_succ _) fun hle => absurd hle (Nat.not_succ_le_self _)
    · rw [hnet, idOf_parse]
      rfl
    · rw [hbusy]
      rfl
  · exact h

theorem needsId_iff {net : Net} :
    net.needsId = true ↔ net.vnMad.shared = true ∧ net.vlanIdAutomatic = true ∧ net.vlanId = none := by
  unfold Net.needsId
  rw [Bool.and_eq_true, Bool.and_eq_true, Option.isNone_iff_eq_none, and_assoc]

/-- No request has the bitmap in its memory if none of the networks' requests has. -/
theorem Inv.reads_eq_false (h : Inv s) (hall : ∀ n < s.created, Phase.reads (s.busy n) = false) (n : ℕ) :
    Phase.reads (s.busy n) = false := by
  rcases Nat.lt_or_ge n s.created with hlt | hle
  · exact hall n hlt
  · rw [(h.known n hle).2]
    rfl

theorem Inv.gone_eq_false (h : Inv s) (hall : ∀ n < s.created, Phase.gone (s.busy n) = false) (n : ℕ) :
    Phase.gone (s.busy n) = false := by
  rcases Nat.lt_or_ge n s.created with hlt | hle
  · exact hall n hlt
  · rw [(h.known n hle).2]
    rfl

theorem inv_setVlanId (h : Inv s) {oid : ℕ} (hbusy : s.busy oid = none)
    (hok : Orderly conf s (.setVlanId oid)) : Inv (s.setVlanId conf oid) := by
  have hgone : Phase.gone (s.busy oid) = false := by
    rw [hbusy]
    rfl
  unfold Pool.setVlanId
  dsimp only
  split
  · exact ⟨h.bits, h.fits, h.known⟩
  · rename_i net hnet
    have hlt := h.lt_created hnet
    split
    · rename_i hneeds
      have hquiet := hok net hnet hneeds
      obtain ⟨hshared, hauto, hnone⟩ := needsId_iff.mp hneeds
      refine h.put ?_ ⟨net, rfl, hshared, hauto, hnone⟩ (le_refl _) fun hle => absurd hle hlt
      have hid : idOf (some net) (some (.assigning s.bitmap)) = idOf (s.nets oid) (s.busy oid) := by
        rw [hnet, hbusy]
        rfl
      rw [hid, Function.update_eq_self]
      exact h.bits.read (h.reads_eq_false fun n hn => (hquiet n hn).1) hgone
        (Or.inl ⟨rfl, h.gone_eq_false fun n hn => (hquiet n hn).2⟩)
    · refine h.put_quiet ?_ hgone rfl rfl trivial (le_refl _) fun hle => absurd hle hlt
      rw [hnet, hbusy]
      exact idOf_setVxlan oid net

theorem inv_getBit (h : Inv s) {oid : ℕ} {bitmap : Finset ℕ} (hbusy : s.busy oid = some (.assigning bitmap)) :
    Inv (s.getBit conf oid bitmap) := by
  have hfits := h.fits oid
  rw [hbusy] at hfits
  obtain ⟨net, hnet, hshared, hauto, hnone⟩ := hfits
  have hlt := h.lt_created hnet
  have hid : idOf (s.nets oid) (s.busy oid) = none := by
    rw [hnet, hbusy]
    show (if net.vnMad.shared = true ∧ net.vlanIdAutomatic = true then net.vlanId else none) = none
    rw [hnone]
    exact ite_self _
  have hcopy := h.bits.copy oid bitmap (Or.inl hbusy)
  unfold Pool.getBit
  split
  · refine h.put_quiet hid.symm ?_ rfl rfl trivial (le_refl _) fun hle => absurd hle hlt
    rw [hbusy]
    rfl
  · rename_i v bitmap' hget
    obtain ⟨hv, -, -, rfl⟩ := BitMap.get_spec (hintVlan_lt conf oid) hget
    rw [hcopy] at hv ⊢
    refine h.put ?_ ⟨net, hnet, hshared, hauto, hnone⟩ (le_refl _) fun hle => absurd hle hlt
    have hnew : idOf (s.nets oid) (some (.assigned v)) = some v := by
      rw [hnet]
      exact if_pos ⟨hshared, hauto⟩
    rw [hnew]
    exact h.bits.take hbusy hid hv

theorem inv_store (h : Inv s) {oid v : ℕ} {net : Net} (hbusy : s.busy oid = some (.assigned v))
    (hnet : s.nets oid = some net) (hok : Orderly conf s (.store oid)) :
    Inv (s.put oid (some (net.setVlan conf oid v)) none) := by
  have hfits := h.fits oid
  rw [hbusy] at hfits
  obtain ⟨net', hnet', hshared, hauto, -⟩ := hfits
  rw [hnet] at hnet'
  rw [← Option.some.inj hnet'] at hshared hauto
  have hzero := hok net hnet
  rw [hbusy] at hzero
  obtain ⟨hmad, hautomatic, hid⟩ := setVlan_spec hzero
  refine h.put_quiet ?_ ?_ rfl rfl trivial (le_refl _) fun hle => absurd hle (h.lt_created hnet)
  · rw [hnet, hbusy, idOf_idle, hmad, hautomatic, hid]
    rfl
  · rw [hbusy]
    rfl

theorem releases_spec {net : Net} {v : ℕ} (h : net.releases = some v) :
    net.vnMad.shared = true ∧ net.vlanIdAutomatic = true ∧ net.vlanId = some v := by
  unfold Net.releases at h
  split at h
  · rename_i hboth
    exact ⟨hboth.2, hboth.1, h⟩
  · exact absurd h.symm (Option.some_ne_none v)

theorem inv_delete (h : Inv s) {oid : ℕ} {net : Net} (hbusy : s.busy oid = none)
    (hnet : s.nets oid = some net) (hok : Orderly conf s (.delete oid)) : Inv (s.delete oid net) := by
  have hgone : Phase.gone (s.busy oid) = false := by
    rw [hbusy]
    rfl
  have hlt := h.lt_created hnet
  unfold Pool.delete
  split
  · rename_i v hreleases
    obtain ⟨hshared, hauto, hv⟩ := releases_spec hreleases
    have hquiet := hok net hnet (by rw [hreleases]; exact Option.some_ne_none v)
    refine h.put ?_ ⟨net, v, rfl, hshared, hauto, hv⟩ (le_refl _) fun hle => absurd hle hlt
    have hid : idOf (some net) (some (.releasing s.bitmap)) = idOf (s.nets oid) (s.busy oid) := by
      rw [hnet, hbusy]
      rfl
    rw [hid, Function.update_eq_self]
    exact h.bits.read (h.reads_eq_false hquiet) hgone (Or.inr rfl)
  · rename_i hreleases
    refine h.put_quiet ?_ hgone rfl rfl trivial (le_refl _) fun hle => absurd hle hlt
    rw [hnet, hbusy, idOf_idle]
    unfold Net.releases at hreleases
    split
    · rename_i hboth
      rw [if_pos ⟨hboth.2, hboth.1⟩] at hreleases
      exact hreleases.symm
    · rfl

theorem inv_resetBit (h : Inv s) {oid : ℕ} {bitmap : Finset ℕ} {net : Net}
    (hbusy : s.busy oid = some (.releasing bitmap)) (hnet : s.nets oid = some net) :
    Inv { s.put oid (some net) (some .released) with
      bitmap := net.vlanId.elim bitmap (BitMap.reset bitmap) } := by
  have hfits := h.fits oid
  rw [hbusy] at hfits
  obtain ⟨net', v, hnet', hshared, hauto, hv⟩ := hfits
  rw [hnet] at hnet'
  rw [← Option.some.inj hnet'] at hshared hauto hv
  have hid : idOf (s.nets oid) (s.busy oid) = some v := by
    rw [hnet, hbusy]
    show (if net.vnMad.shared = true ∧ net.vlanIdAutomatic = true then net.vlanId else none) = some v
    rw [if_pos ⟨hshared, hauto⟩, hv]
  have hsame : idOf (some net) (some .released) = idOf (s.nets oid) (s.busy oid) := by
    rw [hnet, hbusy]
    rfl
  rw [h.bits.copy oid bitmap (Or.inr hbusy), hv]
  refine h.put ?_ ⟨net, v, rfl, hshared, hauto, hv⟩ (le_refl _) fun hle => absurd hle (h.lt_created hnet)
  rw [hsame, Function.update_eq_self]
  rw [h.bits.copy oid bitmap (Or.inr hbusy)] at hbusy
  exact h.bits.give hbusy hid

theorem inv_drop (h : Inv s) {oid : ℕ} (hbusy : s.busy oid = some .released) : Inv (s.put oid none none) :=
  h.put (h.bits.forget hbusy) trivial (le_refl _) fun _ => ⟨rfl, rfl⟩

theorem inv_updateTemplate (h : Inv s) {oid : ℕ} {net : Net} {vnMad : Driver} {vlanId outerVlanId : Option ℕ}
    (hbusy : s.busy oid = none) (hnet : s.nets oid = some net)
    (hok : Orderly conf s (.updateTemplate oid vnMad vlanId outerVlanId)) :
    Inv (s.put oid (some (net.update vnMad vlanId outerVlanId)) none) := by
  refine h.put_quiet ?_ ?_ rfl rfl trivial (le_refl _) fun hle => absurd hle (h.lt_created hnet)
  · rw [hnet, hbusy, idOf_idle, idOf_idle]
    show (if vnMad.shared = true ∧ net.vlanIdAutomatic = true then
      (if net.vlanIdAutomatic = true then net.vlanId else vlanId) else none) = _
    by_cases hauto : net.vlanIdAutomatic = true
    · rw [if_pos hauto]
      by_cases hnone : net.vlanId = none
      · rw [hnone, ite_self, ite_self]
      · rw [hok net hnet hauto hnone]
    · rw [if_neg fun hboth => hauto hboth.2, if_neg fun hboth => hauto hboth.2]
  · rw [hbusy]
    rfl

/-- **What one step preserves.** -/
theorem Inv.step (h : Inv s) {e : Event} (hok : Orderly conf s e) (hstep : step conf s e = some s') :
    Inv s' := by
  unfold VlanPool.step at hstep
  cases e with
  | insert t =>
    rw [← Option.some.inj hstep]
    exact inv_insert h t
  | reserve parent =>
    dsimp only at hstep
    split at hstep
    · rw [← Option.some.inj hstep]
      exact h
    · rw [← Option.some.inj hstep]
      exact inv_insert h _
  | setVlanId oid =>
    dsimp only at hstep
    split at hstep
    · rename_i hbusy
      rw [← Option.some.inj hstep]
      exact inv_setVlanId h hbusy hok
    · exact absurd hstep.symm (Option.some_ne_none _)
  | getBit oid =>
    dsimp only at hstep
    split at hstep
    · rename_i hbusy
      rw [← Option.some.inj hstep]
      exact inv_getBit h hbusy
    · exact absurd hstep.symm (Option.some_ne_none _)
  | store oid =>
    dsimp only at hstep
    split at hstep
    · rename_i hbusy hnet
      rw [← Option.some.inj hstep]
      exact inv_store h hbusy hnet hok
    · exact absurd hstep.symm (Option.some_ne_none _)
  | delete oid =>
    dsimp only at hstep
    split at hstep
    · rename_i hbusy hnet
      rw [← Option.some.inj hstep]
      exact inv_delete h hbusy hnet hok
    · exact absurd hstep.symm (Option.some_ne_none _)
  | resetBit oid =>
    dsimp only at hstep
    split at hstep
    · rename_i hbusy hnet
      rw [← Option.some.inj hstep]
      exact inv_resetBit h hbusy hnet
    · exact absurd hstep.symm (Option.some_ne_none _)
  | drop oid =>
    dsimp only at hstep
    split at hstep
    · rename_i hbusy
      rw [← Option.some.inj hstep]
      exact inv_drop h hbusy
    · exact absurd hstep.symm (Option.some_ne_none _)
  | updateTemplate oid vnMad vlanId outerVlanId =>
    dsimp only at hstep
    split at hstep
    · rename_i hbusy hnet
      rw [← Option.some.inj hstep]
      exact inv_updateTemplate h hbusy hnet hok
    · exact absurd hstep.symm (Option.some_ne_none _)

end Steps

/-- **Automatic VLAN ids are unique.**  In every state reached from an empty pool by creations, reservations,
updates and deletions, whose database steps interleave, no two networks of the shared drivers have the same
automatic id and the set bits are the ids that are held, as long as the bitmap is read by one request at a
time, automatic ids stay in their drivers and the id 0 is not lost. -/
theorem exclusive_of_reach (conf : Conf) {s : Pool} (hrun : Reach (step conf) (Orderly conf) Pool.init s) :
    Exclusive s := by
  have hinit : Inv Pool.init :=
    ⟨⟨fun _ _ _ h => absurd h.symm (Option.some_ne_none _),
        fun v => ⟨fun h => absurd h (Finset.notMem_empty v),
          fun ⟨_, h, _⟩ => absurd h.symm (Option.some_ne_none v)⟩,
        fun _ _ h => h.elim (fun h => absurd h.symm (Option.some_ne_none _))
          fun h => absurd h.symm (Option.some_ne_none _),
        fun _ _ h => absurd h Bool.false_ne_true, fun _ _ _ h => absurd h.symm (Option.some_ne_none _)⟩,
      fun _ => trivial, fun _ _ => ⟨rfl, rfl⟩⟩
  exact (hrun.inv (P := Inv) hinit fun _ _ _ h hok hstep => h.step hok hstep).exclusive

/-! ## Runs of the pool -/

/-- The values of `oned.conf`, with one more reserved id. -/
def conf : Conf := ⟨⟨2, {0, 1, 3, 4095}⟩, 2, by decide⟩

/-- No id is reserved. -/
def conf₀ : Conf := ⟨⟨0, ∅⟩, 2, by decide⟩

/-- A network of 802.1Q with the automatic id `vlanId`. -/
def tagged (vlanId : Option ℕ) : Net := ⟨.vlan, vlanId, true, none, false⟩

/-- Two networks are created and one of them is deleted, one request after the other in the bitmap, with a
reservation and an update between them. -/
def orderlyRun : List Event :=
  [.insert (tagged none), .insert (tagged none), .setVlanId 0, .getBit 0, .setVlanId 1, .store 0, .getBit 1,
    .store 1, .reserve 0, .setVlanId 2, .updateTemplate 1 .ovswitch (some 7) none, .delete 0, .resetBit 0,
    .drop 0]

/-- Two creations read the bitmap before one of them has written it. -/
def racingRun : List Event :=
  [.insert (tagged none), .insert (tagged none), .setVlanId 0, .setVlanId 1, .getBit 0, .getBit 1, .store 0,
    .store 1]

/-- A network of VXLAN becomes one of 802.1Q. -/
def movedRun : List Event :=
  [.insert ⟨.vxlan, none, true, none, false⟩, .setVlanId 0, .updateTemplate 0 .vlan none none,
    .insert (tagged none), .setVlanId 1, .getBit 1, .store 1]

/-- A network gets the id 0. -/
def zeroRun : List Event := [.insert (tagged none), .setVlanId 0, .getBit 0, .store 0]

theorem values_orderlyRun : ((runChecked (step conf) (Orderly conf) Pool.init orderlyRun).map fun s =>
    (decide (s.bitmap = {4}), s.nets 0, (s.nets 1).map Net.vlanId, (s.nets 2).map Net.vlanId)) =
      some (true, none, some (some 4), some (some 2)) := by
  decide

theorem exclusive_orderlyRun : ∃ s : Pool, Reach (step conf) (Orderly conf) Pool.init s ∧
    s.bitmap = {4} ∧ (s.nets 1).map Net.vlanId = some (some 4) ∧ Exclusive s := by
  obtain ⟨s, hs, hvalues⟩ := Option.map_eq_some_iff.mp values_orderlyRun
  have hrun := reach_of_runChecked orderlyRun hs
  obtain ⟨hbitmap, -, hid, -⟩ : s.bitmap = {4} ∧ s.nets 0 = none ∧
      (s.nets 1).map Net.vlanId = some (some 4) ∧ (s.nets 2).map Net.vlanId = some (some 2) := by
    simpa using hvalues
  exact ⟨s, hrun, hbitmap, hid, exclusive_of_reach conf hrun⟩

theorem values_racingRun : ((runEvents (step conf) Pool.init racingRun).map fun s => (s.nets 0, s.nets 1)) =
    some (some (tagged (some 2)), some (tagged (some 2))) := by
  decide

theorem values_movedRun : ((runEvents (step conf) Pool.init movedRun).map fun s => (s.nets 0, s.nets 1)) =
    some (some (tagged (some 2)), some (tagged (some 2))) := by
  decide

theorem values_zeroRun : ((runEvents (step conf₀) Pool.init zeroRun).map fun s => decide (0 ∈ s.bitmap)) =
    some true := by
  decide

/-- The network is stored without its id. -/
theorem nets_zeroRun : (runEvents (step conf₀) Pool.init zeroRun).map Pool.nets =
    some (Function.update (Function.update (Function.update (Function.update (fun _ => none)
      0 (some (tagged none))) 0 (some (tagged none))) 0 (some (tagged none))) 0 (some (tagged none))) := by
  rfl

/-- **Three ways to lose an id.**  Two networks get the same id when the second request reads the bitmap before
the first has written it; two networks have the same id when one of them has brought it from VXLAN; and the id
0 is set in the bitmap and not stored in its network. -/
theorem not_exclusive :
    (∃ s : Pool, runEvents (step conf) Pool.init racingRun = some s ∧ Run (step conf) Pool.init s ∧
      s.nets 0 = some (tagged (some 2)) ∧ s.nets 1 = some (tagged (some 2)) ∧ ¬ Exclusive s) ∧
    (∃ s : Pool, runEvents (step conf) Pool.init movedRun = some s ∧ Run (step conf) Pool.init s ∧
      s.nets 0 = some (tagged (some 2)) ∧ s.nets 1 = some (tagged (some 2)) ∧ ¬ Exclusive s) ∧
    ∃ s : Pool, runEvents (step conf₀) Pool.init zeroRun = some s ∧ Run (step conf₀) Pool.init s ∧
      0 ∈ s.bitmap ∧ ¬ s.Held 0 ∧ ¬ Exclusive s := by
  have hrun : ∀ c es s, runEvents (step c) Pool.init es = some s → Run (step c) Pool.init s := fun c es s h =>
    reach_of_runEvents (P := fun _ => True) es (fun _ _ => trivial) h
  have htwice : ∀ es, ((runEvents (step conf) Pool.init es).map fun s => (s.nets 0, s.nets 1)) =
      some (some (tagged (some 2)), some (tagged (some 2))) → ∃ s : Pool,
        runEvents (step conf) Pool.init es = some s ∧ Run (step conf) Pool.init s ∧
        s.nets 0 = some (tagged (some 2)) ∧ s.nets 1 = some (tagged (some 2)) ∧ ¬ Exclusive s := by
    intro es hvalues
    obtain ⟨s, hs, hvalues⟩ := Option.map_eq_some_iff.mp hvalues
    have h₀ := congrArg Prod.fst hvalues
    have h₁ := congrArg Prod.snd hvalues
    have hid : (tagged (some 2)).HasId 2 := ⟨rfl, rfl, rfl⟩
    exact ⟨s, hs, hrun _ _ s hs, h₀, h₁, fun h => absurd (h.unique 0 1 _ _ 2 h₀ h₁ hid hid) Nat.zero_ne_one⟩
  refine ⟨htwice _ values_racingRun, htwice _ values_movedRun, ?_⟩
  · obtain ⟨s, hs, hzero⟩ := Option.map_eq_some_iff.mp values_zeroRun
    have hnets := nets_zeroRun
    rw [hs, Option.map_some] at hnets
    have hbusy : (runEvents (step conf₀) Pool.init zeroRun).map (fun s => s.busy 0) = some none := rfl
    rw [hs, Option.map_some] at hbusy
    have hbit := of_decide_eq_true hzero
    have hheld : ¬ s.Held 0 := by
      rintro ⟨n, net, hnet, -, -, hid⟩
      rw [Option.some.inj hnets] at hnet
      rcases eq_or_ne n 0 with rfl | hne
      · rw [Function.update_self] at hnet
        rw [Option.some.inj hbusy, ← Option.some.inj hnet] at hid
        exact Option.some_ne_none 0 hid.symm
      · repeat rw [Function.update_of_ne hne] at hnet
        exact Option.some_ne_none net hnet.symm
    exact ⟨s, hs, hrun _ _ s hs, hbit, hheld, fun h => hheld ((h.exact 0).mp hbit)⟩

end VlanPool
