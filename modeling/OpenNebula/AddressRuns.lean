/-
# Runs of the operations on a range

The operations on an address range as one step function.  The variants of an operation that name an
address by its MAC, IPv4 or IPv6 text are one operation with a `Target`, and what each operation
does to the leases is said for all the targets at once.
-/
import OpenNebula.AddressLeases

open TextNumber

/-- The text of an address that an operation is about. -/
inductive Target where
  | mac (s : Text)
  | ip (s : Text)
  | ip6 (s : Text)
  deriving DecidableEq

namespace AddressRange

/-! ## Operations with a target -/

/-- `allocate_by_mac`, `allocate_by_ip` and `allocate_by_ip6`. -/
def allocateBy (ar : AddressRange) (env : ArEnv) (t : Target) (ot : ObjectType) (obid : ℤ)
    (inherit : List AttrName) (nic : VectorAttribute) : AddressRange × Option VectorAttribute :=
  match t with
  | .mac s => ar.allocateByMac env s ot obid inherit nic
  | .ip s => ar.allocateByIp env s ot obid inherit nic
  | .ip6 s => ar.allocateByIp6 env s ot obid inherit nic

/-- `hold_by_mac`, `hold_by_ip` and `hold_by_ip6`. -/
def holdBy (ar : AddressRange) (env : ArEnv) (t : Target) : AddressRange × Bool :=
  match t with
  | .mac s => ar.holdByMac env s
  | .ip s => ar.holdByIp env s
  | .ip6 s => ar.holdByIp6 env s

/-- `free_addr`, `free_addr_by_ip` and `free_addr_by_ip6`. -/
def freeBy (ar : AddressRange) (env : ArEnv) (t : Target) (ot : ObjectType) (obid : ℤ) :
    AddressRange × Bool :=
  match t with
  | .mac s => ar.freeAddr env ot obid s
  | .ip s => ar.freeAddrByIp env ot obid s
  | .ip6 s => ar.freeAddrByIp6 env ot obid s

/-- `reserve_addr_by_mac`, `reserve_addr_by_ip` and `reserve_addr_by_ip6`. -/
def reserveAddrBy (ar : AddressRange) (env : ArEnv) (t : Target) (vid : ℤ) (rsize : ℕ)
    (rar : AddressRange) : AddressRange × Option AddressRange :=
  match t with
  | .mac s => ar.reserveAddrByMac env vid rsize s rar
  | .ip s => ar.reserveAddrByIp env vid rsize s rar
  | .ip6 s => ar.reserveAddrByIp6 env vid rsize s rar

/-- The index at which a reservation of an address begins. -/
def startIndex (ar : AddressRange) (env : ArEnv) (t : Target) : Option ℕ :=
  if ar.shared then none
  else
    match t with
    | .mac s => ar.isValidMac env s false
    | .ip s => ar.isValidIp s false
    | .ip6 s => ar.isValidIp6 env s false

/-- The indexes that `reserve_addr_by_index` takes. -/
def blockFrom (sindex rsize : ℕ) : List ℕ := List.range' sindex ((sindex + rsize) % 2 ^ 32 - sindex)

/-- The indexes of a block that does not wrap around. -/
theorem blockFrom_of_lt {sindex rsize : ℕ} (h : sindex + rsize < 2 ^ 32) :
    blockFrom sindex rsize = List.range' sindex rsize := by
  rw [blockFrom, Nat.mod_eq_of_lt h, Nat.add_sub_cancel_left]

/-- A block that wraps around is empty. -/
theorem blockFrom_of_le {sindex rsize : ℕ} (hs : sindex < 2 ^ 32) (hr : rsize < 2 ^ 32)
    (h : 2 ^ 32 ≤ sindex + rsize) : blockFrom sindex rsize = [] := by
  have hmod : (sindex + rsize) % 2 ^ 32 = sindex + rsize - 2 ^ 32 := by
    rw [Nat.mod_eq_sub_mod h, Nat.mod_eq_of_lt (by omega)]
  rw [blockFrom, hmod, show sindex + rsize - 2 ^ 32 - sindex = 0 by omega]
  rfl

section Cases

variable {ar ar' : AddressRange} {env : ArEnv} {t : Target} {ot : ObjectType} {obid : ℤ}

/-- **`allocate_by_mac`, `allocate_by_ip`, `allocate_by_ip6`.** -/
theorem allocateBy_cases {inherit : List AttrName} {nic : VectorAttribute}
    {r : Option VectorAttribute} (h : ar.allocateBy env t ot obid inherit nic = (ar', r)) :
    (r = none ∧ ar' = ar) ∨
      ∃ i nic', Found ar (!ar.shared) i ∧ r = some nic' ∧
        Takes ar ar' (packOwner ot obid) [i] := by
  cases t with
  | mac s =>
    rcases allocateFound_cases h with hnone | ⟨i, nic', hfound, hr, htakes⟩
    · exact Or.inl hnone
    · split at hfound
      · exact absurd hfound (by simp)
      · rename_i hshared
        have hsh : ar.shared = false := by simpa using hshared
        refine Or.inr ⟨i, nic', ?_, hr, htakes⟩
        rw [hsh]
        exact isValidMac_some hfound
  | ip s =>
    rcases allocateFound_cases h with hnone | ⟨i, nic', hfound, hr, htakes⟩
    · exact Or.inl hnone
    · exact Or.inr ⟨i, nic', isValidIp_some hfound, hr, htakes⟩
  | ip6 s =>
    rcases allocateFound_cases h with hnone | ⟨i, nic', hfound, hr, htakes⟩
    · exact Or.inl hnone
    · exact Or.inr ⟨i, nic', isValidIp6_some hfound, hr, htakes⟩

/-- **`hold_by_mac`, `hold_by_ip`, `hold_by_ip6`.** -/
theorem holdBy_cases {r : Bool} (h : ar.holdBy env t = (ar', r)) :
    (r = false ∧ ar' = ar) ∨
      ∃ i, Found ar true i ∧ r = true ∧ Takes ar ar' (packOwner .vm (-1)) [i] := by
  cases t with
  | mac s =>
    rcases holdFound_cases h with hfalse | ⟨i, hfound, hr, htakes⟩
    · exact Or.inl hfalse
    · split at hfound
      · exact absurd hfound (by simp)
      · exact Or.inr ⟨i, isValidMac_some hfound, hr, htakes⟩
  | ip s =>
    rcases holdFound_cases h with hfalse | ⟨i, hfound, hr, htakes⟩
    · exact Or.inl hfalse
    · exact Or.inr ⟨i, isValidIp_some hfound, hr, htakes⟩
  | ip6 s =>
    rcases holdFound_cases h with hfalse | ⟨i, hfound, hr, htakes⟩
    · exact Or.inl hfalse
    · exact Or.inr ⟨i, isValidIp6_some hfound, hr, htakes⟩

/-- **`free_addr`, `free_addr_by_ip`, `free_addr_by_ip6`.** -/
theorem freeBy_cases {r : Bool} (h : ar.freeBy env t ot obid = (ar', r)) :
    (r = false ∧ ar' = ar) ∨ ∃ i, r = true ∧ Frees ar ar' (packOwner ot obid) [i] := by
  have hall : ∀ {found : Option ℕ}, ar.freeFound env found ot obid = (ar', r) →
      (r = false ∧ ar' = ar) ∨ ∃ i, r = true ∧ Frees ar ar' (packOwner ot obid) [i] := by
    intro found hfree
    rcases freeFound_cases hfree with hfalse | ⟨i, -, hr, hfrees⟩
    · exact Or.inl hfalse
    · exact Or.inr ⟨i, hr, hfrees⟩
  cases t with
  | mac s => exact hall h
  | ip s => exact hall h
  | ip6 s => exact hall h

theorem startIndex_some {i : ℕ} (h : ar.startIndex env t = some i) :
    ar.shared = false ∧ Found ar false i := by
  unfold startIndex at h
  split at h
  · exact absurd h (by simp)
  · rename_i hshared
    refine ⟨by simpa using hshared, ?_⟩
    cases t with
    | mac s => exact isValidMac_some h
    | ip s => exact isValidIp_some h
    | ip6 s => exact isValidIp6_some h

theorem reserveAddrBy_eq (ar : AddressRange) (env : ArEnv) (t : Target) (vid : ℤ) (rsize : ℕ)
    (rar : AddressRange) :
    ar.reserveAddrBy env t vid rsize rar =
      ar.reserveAddrByIndex env vid rsize (ar.startIndex env t) rar := by
  cases t <;> rfl

/-- **`reserve_addr_by_mac`, `reserve_addr_by_ip`, `reserve_addr_by_ip6`.** -/
theorem reserveAddrBy_cases {vid : ℤ} {rsize : ℕ} {rar : AddressRange} {r : Option AddressRange}
    (h : ar.reserveAddrBy env t vid rsize rar = (ar', r)) :
    (r = none ∧ ar' = ar) ∨
      ∃ sindex, ar.startIndex env t = some sindex ∧
        r = some (ar'.reservedRange env rar sindex rsize) ∧
        (∀ j ∈ blockFrom sindex rsize, j ∉ ar.usedIndexes) ∧
        Takes ar ar' (packOwner .net vid) (blockFrom sindex rsize) := by
  rw [reserveAddrBy_eq] at h
  exact reserveAddrByIndex_cases h

end Cases

/-! ## The step function -/

/-- An operation on a range. -/
inductive ArOp where
  | allocateAddr (ot : ObjectType) (obid : ℤ) (inherit : List AttrName) (nic : VectorAttribute)
  | allocateBy (t : Target) (ot : ObjectType) (obid : ℤ) (inherit : List AttrName)
      (nic : VectorAttribute)
  | holdBy (t : Target)
  | reserveAddr (vid : ℤ) (rsize : UInt32) (rar : AddressRange)
  | reserveAddrBy (t : Target) (vid : ℤ) (rsize : UInt32) (rar : AddressRange)
  | freeBy (t : Target) (ot : ObjectType) (obid : ℤ)
  | freeAddrByOwner (ot : ObjectType) (obid : ℤ)
  | freeAddrByRange (ot : ObjectType) (obid : ℤ) (mac : Text) (rsize : UInt32)
  | updateAttributes (vup : VectorAttribute)

/-- An operation is executed; what it gets from outside may differ from call to call. -/
def step (ar : AddressRange) (e : ArEnv × ArOp) : Option AddressRange :=
  match e.2 with
  | .allocateAddr ot obid inherit nic => some (ar.allocateAddr e.1 ot obid inherit nic).1
  | .allocateBy t ot obid inherit nic => some (ar.allocateBy e.1 t ot obid inherit nic).1
  | .holdBy t => some (ar.holdBy e.1 t).1
  | .reserveAddr vid rsize rar => some (ar.reserveAddr e.1 vid rsize.toNat rar).1
  | .reserveAddrBy t vid rsize rar => some (ar.reserveAddrBy e.1 t vid rsize.toNat rar).1
  | .freeBy t ot obid => some (ar.freeBy e.1 t ot obid).1
  | .freeAddrByOwner ot obid => some (ar.freeAddrByOwner e.1 ot obid).1
  | .freeAddrByRange ot obid mac rsize =>
    some (ar.freeAddrByRange e.1 ot obid mac rsize.toNat).1
  | .updateAttributes vup => some (ar.updateAttributes e.1 vup).1

/-- Every operation but an update only moves leases. -/
theorem moves_of_step {ar ar' : AddressRange} {env : ArEnv} {op : ArOp}
    (h : ar.step (env, op) = some ar') :
    Moves ar ar' ∨ ∃ vup e, op = .updateAttributes vup ∧ ar.updateAttributes env vup = (ar', e) := by
  cases op with
  | allocateAddr ot obid inherit nic =>
    obtain rfl := Option.some.inj h
    rcases allocateAddr_cases (Prod.mk.eta.symm) with ⟨-, hk⟩ | ⟨i, _, -, -, -, -, ht⟩
    · exact Or.inl hk.moves
    · exact Or.inl ht.moves
  | allocateBy t ot obid inherit nic =>
    obtain rfl := Option.some.inj h
    rcases allocateBy_cases (Prod.mk.eta.symm) with ⟨-, heq⟩ | ⟨i, _, -, -, ht⟩
    · rw [heq]
      exact Or.inl (Moves.refl ar)
    · exact Or.inl ht.moves
  | holdBy t =>
    obtain rfl := Option.some.inj h
    rcases holdBy_cases (Prod.mk.eta.symm) with ⟨-, heq⟩ | ⟨i, -, -, ht⟩
    · rw [heq]
      exact Or.inl (Moves.refl ar)
    · exact Or.inl ht.moves
  | reserveAddr vid rsize rar =>
    obtain rfl := Option.some.inj h
    rcases reserveAddr_cases (Prod.mk.eta.symm) with ⟨-, hk⟩ | ⟨first, -, -, -, -, -, ht⟩
    · exact Or.inl hk.moves
    · exact Or.inl ht.moves
  | reserveAddrBy t vid rsize rar =>
    obtain rfl := Option.some.inj h
    rcases reserveAddrBy_cases (Prod.mk.eta.symm) with ⟨-, heq⟩ | ⟨i, -, -, -, ht⟩
    · rw [heq]
      exact Or.inl (Moves.refl ar)
    · exact Or.inl ht.moves
  | freeBy t ot obid =>
    obtain rfl := Option.some.inj h
    rcases freeBy_cases (Prod.mk.eta.symm) with ⟨-, heq⟩ | ⟨i, -, hf⟩
    · rw [heq]
      exact Or.inl (Moves.refl ar)
    · exact Or.inl hf.moves
  | freeAddrByOwner ot obid =>
    obtain rfl := Option.some.inj h
    obtain ⟨is, -, hf⟩ := freeAddrByOwner_cases (Prod.mk.eta.symm)
    exact Or.inl hf.moves
  | freeAddrByRange ot obid mac rsize =>
    obtain rfl := Option.some.inj h
    rcases freeAddrByRange_cases (Prod.mk.eta.symm) with ⟨-, heq⟩ | ⟨is, -, hf, -⟩
    · rw [heq]
      exact Or.inl (Moves.refl ar)
    · exact Or.inl hf.moves
  | updateAttributes vup =>
    obtain rfl := Option.some.inj h
    exact Or.inr ⟨vup, _, rfl, (Prod.mk.eta (p := ar.updateAttributes env vup)).symm⟩

/-- A step with the conversions `inet`: these are the same in all the calls of a run. -/
def stepIn (inet : Inet6) (ar : AddressRange) (e : ArEnv × ArOp) : Option AddressRange :=
  ar.step ({ e.1 with inet := inet }, e.2)

end AddressRange
