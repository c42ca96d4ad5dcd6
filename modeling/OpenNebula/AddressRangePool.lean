/-
# The address ranges of a network (`src/vnm/AddressRangePool.cc`)

A virtual network has a pool of address ranges, in the order of their identifiers, and counts the
addresses in use in `used_addr`, a 32-bit number that the operations keep up to date by themselves.
The number of addresses in use of one range is the size of its map of leases.

Conventions of the embedding:

* `ars` has the ranges of the map `ar_pool` in the order of their identifiers.
* What the calls on the ranges get from outside is given for each range by its identifier.  The
  answers of the IPAM driver to the registration and the removal of a range are arguments.
* The functions with the suffix `In` are the overloads of the source that take the identifier of a
  range.
-/
import OpenNebula.AddressRuns

open TextNumber Transition

/-- `AddressRangePool`. -/
structure AddressRangePool where
  ars : List AddressRange
  nextAr : UInt32
  usedAddr : UInt32

namespace AddressRangePool

/-- The constructor. -/
def empty : AddressRangePool := ⟨[], 0, 0⟩

/-! ## Loops over the ranges -/

/-- `ar_pool.find`. -/
def find (p : AddressRangePool) (arId : ℕ) : Option AddressRange := p.ars.find? (·.id == arId)

/-- `ar_pool.insert`: a range whose identifier is taken is not inserted. -/
def insertAr (ar : AddressRange) : List AddressRange → List AddressRange
  | [] => [ar]
  | b :: bs =>
    if ar.id < b.id then ar :: b :: bs
    else if ar.id = b.id then b :: bs
    else b :: insertAr ar bs

/-- The ranges are tried one after the other, until a call succeeds. -/
def firstOf {α : Type*} (f : AddressRange → AddressRange × Option α) :
    List AddressRange → List AddressRange × Option α
  | [] => ([], none)
  | ar :: ars =>
    match f ar with
    | (ar', some x) => (ar' :: ars, some x)
    | (ar', none) => (ar' :: (firstOf f ars).1, (firstOf f ars).2)

/-- The call on the range with an identifier, if there is one. -/
def oneOf {α : Type*} (arId : ℕ) (f : AddressRange → AddressRange × α) :
    List AddressRange → List AddressRange × Option α
  | [] => ([], none)
  | ar :: ars =>
    if ar.id = arId then ((f ar).1 :: ars, some (f ar).2)
    else (ar :: (oneOf arId f ars).1, (oneOf arId f ars).2)

/-- The call on every range, with the sum of the results. -/
def allOf (f : AddressRange → AddressRange × ℕ) : List AddressRange → List AddressRange × ℕ
  | [] => ([], 0)
  | ar :: ars => ((f ar).1 :: (allOf f ars).1, (f ar).2 + (allOf f ars).2)

/-- A result that counts. -/
def counted (r : AddressRange × Bool) : AddressRange × ℕ := (r.1, if r.2 then 1 else 0)

/-! ## Ranges -/

/-- `from_vattr` of an internal range and of an IPAM range; `register` is the answer of the IPAM
driver: the attributes it has set, or its error. -/
def vattrRange (ar : AddressRange) (env : ArEnv) (register : Except String VectorAttribute)
    (va : VectorAttribute) : AddressRange × Option String :=
  if ar.ipam then
    match register with
    | .error e => (ar, some e)
    | .ok va => ar.fromAttr env va
  else ar.fromAttr env va

/-- `AddressRangePool::from_vattr`. -/
def fromVattr (p : AddressRangePool) (env : ArEnv) (register : Except String VectorAttribute)
    (va : VectorAttribute) : AddressRangePool × Option String :=
  let ipam := decide (va .ipamMad ≠ [] ∧ va .ipamMad ≠ "internal".toList)
  match vattrRange (AddressRange.new p.nextAr.toNat ipam) env register va with
  | (_, some e) => (p, some e)
  | (ar, none) => ({ p with ars := insertAr ar p.ars, nextAr := p.nextAr + 1 }, none)

/-- `AddressRangePool::rm_ar`; `unregister` is the error of the IPAM driver, if any. -/
def rmAr (p : AddressRangePool) (arId : ℕ) (force : Bool) (unregister : Option String) :
    AddressRangePool × Option String :=
  match p.find arId with
  | none => (p, some "Address Range does not exist")
  | some ar =>
    if force = false ∧ 0 < ar.usedAddr then (p, some "Address Range has leases in use")
    else if ar.ipam = true ∧ force = false ∧ unregister ≠ none then (p, unregister)
    else ({ p with ars := p.ars.eraseP (·.id == arId) }, none)

/-- The loop of `AddressRangePool::rm_ars`. -/
def rmLoop (unregister : ℕ → Option String) : List AddressRange → List AddressRange × Option String
  | [] => ([], none)
  | ar :: ars =>
    if ar.ipam = true ∧ unregister ar.id ≠ none then (ar :: ars, unregister ar.id)
    else rmLoop unregister ars

/-- `AddressRangePool::rm_ars`. -/
def rmArs (p : AddressRangePool) (unregister : ℕ → Option String) :
    AddressRangePool × Option String :=
  let r := rmLoop unregister p.ars
  ({ p with ars := r.1 }, r.2)

/-! ## Allocation -/

/-- The ranges after an operation that takes some addresses, if it has succeeded. -/
def take {α : Type*} (p : AddressRangePool) (n : UInt32) (r : List AddressRange × Option α) :
    AddressRangePool × Option α :=
  match r.2 with
  | some x => ({ p with ars := r.1, usedAddr := p.usedAddr + n }, some x)
  | none => ({ p with ars := r.1 }, none)

/-- The ranges after an operation that has freed some addresses. -/
def free (p : AddressRangePool) (r : List AddressRange × ℕ) : AddressRangePool × ℕ :=
  ({ p with ars := r.1, usedAddr := p.usedAddr - UInt32.ofNat r.2 }, r.2)

/-- `AddressRangePool::allocate_addr`. -/
def allocateAddr (p : AddressRangePool) (env : ℕ → ArEnv) (ot : ObjectType) (obid : ℤ)
    (inherit : List AttrName) (nic : VectorAttribute) :
    AddressRangePool × Option VectorAttribute :=
  p.take 1 (firstOf (fun ar => ar.allocateAddr (env ar.id) ot obid inherit nic) p.ars)

/-- `AddressRangePool::allocate_by_mac`, `allocate_by_ip` and `allocate_by_ip6`. -/
def allocateBy (p : AddressRangePool) (env : ℕ → ArEnv) (t : Target) (ot : ObjectType) (obid : ℤ)
    (inherit : List AttrName) (nic : VectorAttribute) :
    AddressRangePool × Option VectorAttribute :=
  p.take 1 (firstOf (fun ar => ar.allocateBy (env ar.id) t ot obid inherit nic) p.ars)

/-- The result of a call that takes one address, as an option. -/
def success (r : AddressRange × Bool) : AddressRange × Option Unit :=
  (r.1, if r.2 then some () else none)

/-- `AddressRangePool::hold_by_mac`, `hold_by_ip` and `hold_by_ip6` on one range. -/
def holdByIn (p : AddressRangePool) (env : ℕ → ArEnv) (arId : ℕ) (t : Target) :
    AddressRangePool × Option Unit :=
  let r := oneOf arId (fun ar => success (ar.holdBy (env ar.id) t)) p.ars
  p.take 1 (r.1, r.2.join)

/-- `AddressRangePool::hold_by_mac`, `hold_by_ip` and `hold_by_ip6` on every range. -/
def holdBy (p : AddressRangePool) (env : ℕ → ArEnv) (t : Target) : AddressRangePool × Bool :=
  let r := allOf (fun ar => counted (ar.holdBy (env ar.id) t)) p.ars
  ({ p with ars := r.1, usedAddr := p.usedAddr + UInt32.ofNat r.2 }, decide (0 < r.2))

/-! ## Release -/

/-- `AddressRangePool::free_addr`, `free_addr_by_ip` and `free_addr_by_ip6` on one range. -/
def freeByIn (p : AddressRangePool) (env : ℕ → ArEnv) (arId : ℕ) (t : Target) (ot : ObjectType)
    (obid : ℤ) : AddressRangePool :=
  let r := oneOf arId (fun ar => counted (ar.freeBy (env ar.id) t ot obid)) p.ars
  (p.free (r.1, r.2.getD 0)).1

/-- `AddressRangePool::free_addr`, `free_addr_by_ip` and `free_addr_by_ip6` on every range. -/
def freeBy (p : AddressRangePool) (env : ℕ → ArEnv) (t : Target) (ot : ObjectType) (obid : ℤ) :
    AddressRangePool :=
  (p.free (allOf (fun ar => counted (ar.freeBy (env ar.id) t ot obid)) p.ars)).1

/-- `AddressRangePool::free_addr_by_owner`. -/
def freeAddrByOwner (p : AddressRangePool) (env : ℕ → ArEnv) (ot : ObjectType) (obid : ℤ) :
    AddressRangePool × ℕ :=
  p.free (allOf (fun ar => ar.freeAddrByOwner (env ar.id) ot obid) p.ars)

/-- `AddressRangePool::free_addr_by_range`. -/
def freeAddrByRange (p : AddressRangePool) (env : ℕ → ArEnv) (arId : ℕ) (ot : ObjectType) (obid : ℤ)
    (mac : Text) (rsize : UInt32) : AddressRangePool × ℕ :=
  let r := oneOf arId (fun ar => ar.freeAddrByRange (env ar.id) ot obid mac rsize.toNat) p.ars
  p.free (r.1, r.2.getD 0)

/-! ## Reservations -/

/-- A reservation in one range, if it has enough free addresses. -/
def reserveIfFree (env : ℕ → ArEnv) (vid : ℤ) (rsize : UInt32) (rar ar : AddressRange) :
    AddressRange × Option AddressRange :=
  if rsize.toNat ≤ ar.freeAddrs then ar.reserveAddr (env ar.id) vid rsize.toNat rar else (ar, none)

/-- `AddressRangePool::reserve_addr`. -/
def reserveAddr (p : AddressRangePool) (env : ℕ → ArEnv) (vid : ℤ) (rsize : UInt32)
    (rar : AddressRange) : AddressRangePool × Option AddressRange :=
  p.take rsize (firstOf (reserveIfFree env vid rsize rar) p.ars)

/-- `AddressRangePool::reserve_addr` in one range. -/
def reserveAddrIn (p : AddressRangePool) (env : ℕ → ArEnv) (arId : ℕ) (vid : ℤ) (rsize : UInt32)
    (rar : AddressRange) : AddressRangePool × Option AddressRange :=
  let r := oneOf arId (reserveIfFree env vid rsize rar) p.ars
  p.take rsize (r.1, r.2.join)

/-- `AddressRangePool::reserve_addr_by_mac`, `reserve_addr_by_ip` and `reserve_addr_by_ip6`. -/
def reserveAddrByIn (p : AddressRangePool) (env : ℕ → ArEnv) (arId : ℕ) (t : Target) (vid : ℤ)
    (rsize : UInt32) (rar : AddressRange) : AddressRangePool × Option AddressRange :=
  let r := oneOf arId (fun ar => ar.reserveAddrBy (env ar.id) t vid rsize.toNat rar) p.ars
  p.take rsize (r.1, r.2.join)

/-! ## The step function -/

/-- An operation on the pool. -/
inductive PoolOp where
  | fromVattr (env : ArEnv) (register : Except String VectorAttribute) (va : VectorAttribute)
  | rmAr (arId : ℕ) (force : Bool) (unregister : Option String)
  | rmArs (unregister : ℕ → Option String)
  | allocateAddr (ot : ObjectType) (obid : ℤ) (inherit : List AttrName) (nic : VectorAttribute)
  | allocateBy (t : Target) (ot : ObjectType) (obid : ℤ) (inherit : List AttrName)
      (nic : VectorAttribute)
  | holdByIn (arId : ℕ) (t : Target)
  | holdBy (t : Target)
  | freeByIn (arId : ℕ) (t : Target) (ot : ObjectType) (obid : ℤ)
  | freeBy (t : Target) (ot : ObjectType) (obid : ℤ)
  | freeAddrByOwner (ot : ObjectType) (obid : ℤ)
  | freeAddrByRange (arId : ℕ) (ot : ObjectType) (obid : ℤ) (mac : Text) (rsize : UInt32)
  | reserveAddr (vid : ℤ) (rsize : UInt32) (rar : AddressRange)
  | reserveAddrIn (arId : ℕ) (vid : ℤ) (rsize : UInt32) (rar : AddressRange)
  | reserveAddrByIn (arId : ℕ) (t : Target) (vid : ℤ) (rsize : UInt32) (rar : AddressRange)

/-- An operation is executed. -/
def step (p : AddressRangePool) (e : (ℕ → ArEnv) × PoolOp) : Option AddressRangePool :=
  match e.2 with
  | .fromVattr env register va => some (p.fromVattr env register va).1
  | .rmAr arId force unregister => some (p.rmAr arId force unregister).1
  | .rmArs unregister => some (p.rmArs unregister).1
  | .allocateAddr ot obid inherit nic => some (p.allocateAddr e.1 ot obid inherit nic).1
  | .allocateBy t ot obid inherit nic => some (p.allocateBy e.1 t ot obid inherit nic).1
  | .holdByIn arId t => some (p.holdByIn e.1 arId t).1
  | .holdBy t => some (p.holdBy e.1 t).1
  | .freeByIn arId t ot obid => some (p.freeByIn e.1 arId t ot obid)
  | .freeBy t ot obid => some (p.freeBy e.1 t ot obid)
  | .freeAddrByOwner ot obid => some (p.freeAddrByOwner e.1 ot obid).1
  | .freeAddrByRange arId ot obid mac rsize =>
    some (p.freeAddrByRange e.1 arId ot obid mac rsize).1
  | .reserveAddr vid rsize rar => some (p.reserveAddr e.1 vid rsize rar).1
  | .reserveAddrIn arId vid rsize rar => some (p.reserveAddrIn e.1 arId vid rsize rar).1
  | .reserveAddrByIn arId t vid rsize rar => some (p.reserveAddrByIn e.1 arId t vid rsize rar).1

end AddressRangePool
