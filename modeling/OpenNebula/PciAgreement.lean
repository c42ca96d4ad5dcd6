/-
# When the test and the assignment of PCI devices agree

`test` looks for a device for every request and keeps the short addresses of the devices it would
take; `add` takes the devices as it goes.  Both searches are first fits over the requests in one
order (`test_iff`, `add_assigned_iff`), with different notions of a free device: a request by short
address does not look at the devices that `test` has taken before, and a request by identifiers takes
all the devices with one short address for the same.

A request that finds its device changes the owner of the device, also when a later one fails.  So
the two agree, and a failure leaves the owners, exactly if the first request is refused or every
request is served in both (`agree_iff`).
-/
import OpenNebula.PciPorts

namespace HostSharePCI

open PciMap

/-! ## The test -/

/-- `HostSharePCI::test_by_addr`. -/
def testByAddr (m : PciMap) (shortAddr : Text) : Option Bool :=
  match pick (byAddr shortAddr) m with
  | .null => none
  | .noDevice => some false
  | .found _ _ => some true

/-- The choice of `test_by_name`. -/
def leftByName (device : PciAttribute) (assigned : List Text) (d : PCIDevice) : Choice :=
  let (classRc, classId) := device.getPciValue .classId
  let (vendorRc, vendorId) := device.getPciValue .vendor
  let (deviceRc, deviceId) := device.getPciValue .device
  if (classRc = 0 ∨ d.classId = classId) ∧ (vendorRc = 0 ∨ d.vendorId = vendorId) ∧
      (deviceRc = 0 ∨ d.deviceId = deviceId) ∧ d.vmid = -1 ∧
      d.attrs.value .shortAddress ∉ assigned then .take
  else .skip

/-- `HostSharePCI::test_by_name`. -/
def testByName (m : PciMap) (device : PciAttribute) (assigned : List Text) :
    Option (Bool × List Text) :=
  if isNamed device then
    match pick (leftByName device assigned) m with
    | .null => none
    | .noDevice => some (false, assigned)
    | .found _ d => some (true, d.attrs.value .shortAddress :: assigned)
  else some (false, assigned)

/-- The first loop of `test`: the devices with a short address. -/
def testAddrs (m : PciMap) : List PciAttribute → List Text → Option (Bool × List Text)
  | [], assigned => some (true, assigned)
  | device :: devs, assigned =>
    if isByAddr device then
      match testByAddr m (device.value .shortAddress) with
      | none => none
      | some false => some (false, assigned)
      | some true => testAddrs m devs (device.value .shortAddress :: assigned)
    else testAddrs m devs assigned

/-- The second loop of `test`: the devices that have not been tested. -/
def testNames (m : PciMap) : List PciAttribute → List Text → Option Bool
  | [], _ => some true
  | device :: devs, assigned =>
    if isByAddr device then testNames m devs assigned
    else
      match testByName m device assigned with
      | none => none
      | some (false, _) => some false
      | some (true, assigned') => testNames m devs assigned'

/-- `HostSharePCI::test`. -/
def test (m : PciMap) (devs : List PciAttribute) : Option Bool :=
  match testAddrs m devs [] with
  | none => none
  | some (false, _) => some false
  | some (true, assigned) => testNames m devs assigned

/-! ## One loop over the requests -/

/-- One request. -/
def testOne (m : PciMap) (device : PciAttribute) (assigned : List Text) : Option (Bool × List Text) :=
  if isByAddr device then
    (testByAddr m (device.value .shortAddress)).map fun b =>
      (b, device.value .shortAddress :: assigned)
  else testByName m device assigned

/-- The requests one after the other, up to the first that finds no device. -/
def testAll (m : PciMap) : List PciAttribute → List Text → Option Bool
  | [], _ => some true
  | device :: devs, assigned =>
    match testOne m device assigned with
    | none => none
    | some (false, _) => some false
    | some (true, assigned') => testAll m devs assigned'

theorem testAddrs_eq (m : PciMap) (devs rest : List PciAttribute) :
    ∀ assigned, testAll m (devs.filter isByAddr ++ rest) assigned =
      match testAddrs m devs assigned with
      | none => none
      | some (false, _) => some false
      | some (true, assigned') => testAll m rest assigned' := by
  induction devs with
  | nil => exact fun _ => rfl
  | cons device devs ih =>
    intro assigned
    by_cases haddr : isByAddr device = true
    · rw [List.filter_cons_of_pos haddr, List.cons_append, testAll, testOne, if_pos haddr, testAddrs,
        if_pos haddr]
      rcases testByAddr m (device.value .shortAddress) with _ | _ | _
      · rfl
      · rfl
      · exact ih _
    · rw [List.filter_cons_of_neg haddr, testAddrs, if_neg haddr]
      exact ih assigned

theorem testNames_eq (m : PciMap) (devs : List PciAttribute) :
    ∀ assigned, testNames m devs assigned =
      testAll m (devs.filter fun d => !isByAddr d) assigned := by
  induction devs with
  | nil => exact fun _ => rfl
  | cons device devs ih =>
    intro assigned
    by_cases haddr : isByAddr device = true
    · rw [List.filter_cons_of_neg (by simp [haddr]), testNames, if_pos haddr]
      exact ih assigned
    · rw [List.filter_cons_of_pos (by simp [haddr]), testAll, testOne, if_neg haddr, testNames,
        if_neg haddr]
      rcases testByName m device assigned with _ | ⟨_ | _, assigned'⟩
      · rfl
      · rfl
      · exact ih assigned'

/-- `test` looks at the requests in the order in which `add` serves them. -/
theorem test_eq (m : PciMap) (devs : List PciAttribute) : test m devs = testAll m (order devs) [] := by
  rw [order, testAddrs_eq, test]
  rcases testAddrs m devs [] with _ | ⟨_ | _, assigned⟩
  · rfl
  · rfl
  · exact testNames_eq m devs assigned

/-! ## What the test finds -/

/-- The short addresses of the entries. -/
abbrev shortsOf (picks : List Entry) : List Text := picks.map fun e => e.2.attrs.value .shortAddress

/-- A device is free for the test if nobody has it and, for a request by identifiers, no device with
its short address has been taken before. -/
def testFree (device : PciAttribute) (earlier : List Entry) (e : Entry) : Prop :=
  e.2.vmid = -1 ∧ (isByAddr device = true ∨ e.2.attrs.value .shortAddress ∉ shortsOf earlier)

/-- The choice of `test_by_addr` and `test_by_name`. -/
def testChoice (device : PciAttribute) (assigned : List Text) : PCIDevice → Choice :=
  if isByAddr device then byAddr (device.value .shortAddress)
  else if isNamed device then leftByName device assigned
  else fun _ => .skip

theorem leftByName_eq (device : PciAttribute) (assigned : List Text) (d : PCIDevice)
    [Decidable (Matches device d)] :
    leftByName device assigned d =
      if Matches device d ∧ d.vmid = -1 ∧ d.attrs.value .shortAddress ∉ assigned then .take
      else .skip := by
  unfold leftByName
  dsimp only
  refine if_congr ?_ rfl rfl
  rw [Matches, and_assoc, and_assoc]

theorem change_self (m : PciMap) : change (fun _ d => d) m = m := by
  rw [change]
  simp

/-- **The search of a request** that is tested finds its first choice. -/
theorem pick_testChoice_iff {assigned : List Text} {earlier : List Entry}
    (hsame : ∀ s, s ∈ assigned ↔ s ∈ shortsOf earlier) (m : PciMap) (device : PciAttribute)
    (key : Text) (d : PCIDevice) :
    pick (testChoice device assigned) m = .found key d ↔
      FirstChoice (testFree device earlier) m device (key, d) := by
  classical
  have hleft : ∀ d : PCIDevice, d.attrs.value .shortAddress ∉ assigned ↔
      d.attrs.value .shortAddress ∉ shortsOf earlier := fun d => not_congr (hsame _)
  rw [← change_self m]
  nth_rewrite 2 [change_self]
  refine pick_change_iff m ?_ ?_ (fun _ _ _ => rfl) key d
  · intro k d
    by_cases haddr : isByAddr device = true
    · have hchoice := choice_take_iff device d
      rw [choice, if_pos haddr] at hchoice
      rw [testChoice, if_pos haddr, hchoice, testFree]
      exact ⟨fun h => ⟨⟨h.1, Or.inl haddr⟩, h.2⟩, fun h => ⟨h.1.1, h.2⟩⟩
    · rw [testChoice, if_neg haddr, testFree, Asks, if_neg haddr]
      by_cases hnamed : isNamed device = true
      · rw [if_pos hnamed, leftByName_eq]
        split_ifs with h
        · exact iff_of_true rfl ⟨⟨h.2.1, Or.inr ((hleft d).mp h.2.2)⟩, hnamed, h.1⟩
        · refine iff_of_false (by simp) ?_
          rintro ⟨⟨hfree, hshort⟩, -, hmatch⟩
          exact h ⟨hmatch, hfree, (hleft d).mpr (hshort.resolve_left haddr)⟩
      · rw [if_neg hnamed]
        exact iff_of_false (by simp) (fun h => hnamed h.2.1)
  · intro k d
    by_cases haddr : isByAddr device = true
    · have hchoice := choice_skip_iff device d
      rw [choice, if_pos haddr] at hchoice
      rw [testChoice, if_pos haddr, hchoice, not_iff_not]
      exact ⟨fun h => ⟨h.1, Or.inl haddr⟩, fun h => ⟨h.1, Or.inl haddr⟩⟩
    · rw [testChoice, if_neg haddr, testFree, Asks, if_neg haddr]
      by_cases hnamed : isNamed device = true
      · rw [if_pos hnamed, leftByName_eq]
        split_ifs with h
        · exact iff_of_false (by simp)
            (not_not.mpr ⟨⟨hnamed, h.1⟩, Or.inr ⟨h.2.1, Or.inr ((hleft d).mp h.2.2)⟩⟩)
        · refine iff_of_true rfl ?_
          rintro ⟨⟨-, hmatch⟩, haddr' | ⟨hfree, hshort⟩⟩
          · exact haddr haddr'
          · exact h ⟨hmatch, hfree, (hleft d).mpr (hshort.resolve_left haddr)⟩
      · rw [if_neg hnamed]
        exact iff_of_true rfl (fun h => hnamed h.1.1)

/-- How a request that is tested ends. -/
theorem testOne_true_iff {m : PciMap} {device : PciAttribute} {assigned assigned' : List Text} :
    testOne m device assigned = some (true, assigned') ↔
      ∃ k d, pick (testChoice device assigned) m = .found k d ∧
        assigned' = d.attrs.value .shortAddress :: assigned := by
  unfold testOne testByAddr testByName
  by_cases haddr : isByAddr device = true
  · rw [if_pos haddr, testChoice, if_pos haddr]
    cases hpick : pick (byAddr (device.value .shortAddress)) m with
    | null => exact iff_of_false (by simp) (by simp)
    | noDevice => exact iff_of_false (by simp) (by simp)
    | found k d =>
      -- the device that is found has the short address of the request
      have hshort : d.attrs.value .shortAddress = device.value .shortAddress := by
        have hchoice : choice device d = .take := by
          rw [choice, if_pos haddr]
          exact ((pick_found_iff _ _ _ _).mp hpick).1
        have hasks := ((choice_take_iff device d).mp hchoice).2
        rwa [Asks, if_pos haddr] at hasks
      rw [Option.map_some, Option.some.injEq, Prod.mk.injEq]
      constructor
      · rintro ⟨-, rfl⟩
        exact ⟨k, d, rfl, by rw [hshort]⟩
      · rintro ⟨k', d', heq, rfl⟩
        obtain ⟨rfl, rfl⟩ := Pick.found.inj heq
        exact ⟨rfl, by rw [hshort]⟩
  · rw [if_neg haddr, testChoice, if_neg haddr]
    by_cases hnamed : isNamed device = true
    · rw [if_pos hnamed, if_pos hnamed]
      cases hpick : pick (leftByName device assigned) m with
      | null => exact iff_of_false (by simp) (by simp)
      | noDevice => exact iff_of_false (by simp) (by simp)
      | found k d =>
        rw [Option.some.injEq, Prod.mk.injEq]
        constructor
        · rintro ⟨-, rfl⟩
          exact ⟨k, d, rfl, rfl⟩
        · rintro ⟨k', d', heq, rfl⟩
          obtain ⟨rfl, rfl⟩ := Pick.found.inj heq
          exact ⟨rfl, rfl⟩
    · rw [if_neg hnamed, if_neg hnamed]
      refine iff_of_false (by simp) ?_
      rintro ⟨k, d, hpick, -⟩
      exact absurd ((pick_found_iff _ _ _ _).mp hpick).1 (by simp)

theorem testAll_iff (m : PciMap) (devs : List PciAttribute) :
    ∀ (earlier : List Entry) (assigned : List Text), (∀ s, s ∈ assigned ↔ s ∈ shortsOf earlier) →
      (testAll m devs assigned = some true ↔ ∃ picks, FirstFit testFree m devs earlier picks) := by
  induction devs with
  | nil =>
    intro earlier assigned _
    exact iff_of_true rfl ⟨[], rfl⟩
  | cons device devs ih =>
    intro earlier assigned hsame
    have hnext : ∀ k d s, s ∈ d.attrs.value .shortAddress :: assigned ↔
        s ∈ shortsOf (earlier ++ [(k, d)]) := by
      intro k d s
      rw [List.mem_cons, hsame, shortsOf, shortsOf, List.map_append, List.mem_append, or_comm,
        List.map_cons, List.map_nil, List.mem_singleton]
    rw [testAll]
    constructor
    · intro h
      rcases hone : testOne m device assigned with _ | ⟨_ | _, assigned'⟩
      · rw [hone] at h
        exact absurd h (by simp)
      · rw [hone] at h
        exact absurd h (by simp)
      · rw [hone] at h
        obtain ⟨k, d, hpick, rfl⟩ := testOne_true_iff.mp hone
        obtain ⟨picks, hfit⟩ := (ih _ _ (hnext k d)).mp h
        exact ⟨(k, d) :: picks, (pick_testChoice_iff hsame m device k d).mp hpick, hfit⟩
    · rintro ⟨picks, hfit⟩
      cases picks with
      | nil => exact absurd hfit id
      | cons e picks =>
        obtain ⟨hfirst, hfit⟩ := hfit
        have hpick := (pick_testChoice_iff hsame m device e.1 e.2).mpr hfirst
        rw [testOne_true_iff.mpr ⟨e.1, e.2, hpick, rfl⟩]
        exact (ih _ _ (hnext e.1 e.2)).mpr ⟨picks, hfit⟩

/-- **When the test succeeds.** -/
theorem test_iff (m : PciMap) (devs : List PciAttribute) :
    test m devs = some true ↔ ∃ picks, FirstFit testFree m (order devs) [] picks := by
  rw [test_eq]
  exact testAll_iff m (order devs) [] [] (fun _ => Iff.rfl)

/-! ## A request that is refused -/

/-- The request is refused: it has neither a short address nor identifiers, or no device is left for
it.  A request by short address ends at the first device with the address, held or not. -/
def Refused (m : PciMap) (device : PciAttribute) : Prop :=
  (isByAddr device = false ∧ isNamed device = false) ∨
    ∃ before after, m = before ++ after ∧
      (∀ x ∈ before, ∃ d, x.2 = some d ∧
        ¬(Asks device d ∧ (isByAddr device = true ∨ d.vmid = -1))) ∧
      (after = [] ∨ ∃ k d rest, after = (k, some d) :: rest ∧ Asks device d ∧
        isByAddr device = true ∧ d.vmid ≠ -1)

/-- The end of a search without a device. -/
theorem pick_noDevice_iff (choose : PCIDevice → Choice) (m : PciMap) :
    pick choose m = .noDevice ↔
      ∃ before after, m = before ++ after ∧ (∀ x ∈ before, ∃ d, x.2 = some d ∧ choose d = .skip) ∧
        (after = [] ∨ ∃ k d rest, after = (k, some d) :: rest ∧ choose d = .refuse) := by
  induction m with
  | nil => exact iff_of_true rfl ⟨[], [], rfl, by simp, Or.inl rfl⟩
  | cons e m ih =>
    obtain ⟨key, o⟩ := e
    -- where nothing is skipped, the first device is refused
    have hfirst : ∀ {after}, (key, o) :: m = [] ++ after →
        (after = [] ∨ ∃ k d rest, after = (k, some d) :: rest ∧ choose d = .refuse) →
        ∃ d, o = some d ∧ choose d = .refuse := by
      rintro after rfl (hnil | ⟨k, d, rest, heq, hrefuse⟩)
      · exact absurd hnil (by simp)
      · exact ⟨d, (Prod.mk.inj (List.cons.inj heq).1).2, hrefuse⟩
    cases o with
    | none =>
      refine iff_of_false (by simp [pick]) ?_
      rintro ⟨before, after, heq, hskip, hend⟩
      cases before with
      | nil =>
        obtain ⟨d, hd, -⟩ := hfirst heq hend
        exact absurd hd (by simp)
      | cons x before =>
        rw [List.cons_append, List.cons.injEq] at heq
        obtain ⟨d, hd, -⟩ := hskip x List.mem_cons_self
        rw [← heq.1] at hd
        exact absurd hd (by simp)
    | some d =>
      rw [pick]
      cases hchoice : choose d with
      | take =>
        refine iff_of_false (by simp) ?_
        rintro ⟨before, after, heq, hskip, hend⟩
        cases before with
        | nil =>
          obtain ⟨d', hd, hrefuse⟩ := hfirst heq hend
          rw [← Option.some.inj hd, hchoice] at hrefuse
          exact absurd hrefuse (by simp)
        | cons x before =>
          rw [List.cons_append, List.cons.injEq] at heq
          obtain ⟨d', hd', hs⟩ := hskip x List.mem_cons_self
          rw [← heq.1] at hd'
          rw [← Option.some.inj hd', hchoice] at hs
          exact absurd hs (by simp)
      | refuse =>
        exact iff_of_true rfl ⟨[], (key, some d) :: m, rfl, by simp,
          Or.inr ⟨key, d, m, rfl, hchoice⟩⟩
      | skip =>
        dsimp only
        rw [ih]
        constructor
        · rintro ⟨before, after, rfl, hskip, hend⟩
          refine ⟨(key, some d) :: before, after, rfl, ?_, hend⟩
          intro x hx
          rcases List.mem_cons.mp hx with rfl | hx
          · exact ⟨d, rfl, hchoice⟩
          · exact hskip x hx
        · rintro ⟨before, after, heq, hskip, hend⟩
          cases before with
          | nil =>
            obtain ⟨d', hd, hrefuse⟩ := hfirst heq hend
            rw [← Option.some.inj hd, hchoice] at hrefuse
            exact absurd hrefuse (by simp)
          | cons x before =>
            rw [List.cons_append, List.cons.injEq] at heq
            exact ⟨before, after, heq.2, fun y hy => hskip y (List.mem_cons_of_mem x hy), hend⟩

theorem choice_refuse_iff (device : PciAttribute) (d : PCIDevice) :
    choice device d = .refuse ↔ Asks device d ∧ isByAddr device = true ∧ d.vmid ≠ -1 := by
  have htake := choice_take_iff device d
  have hskip := choice_skip_iff device d
  cases hchoice : choice device d with
  | take =>
    rw [hchoice] at htake
    exact iff_of_false (by simp) (fun h => h.2.2 (htake.mp rfl).1)
  | skip =>
    rw [hchoice] at hskip
    exact iff_of_false (by simp) (fun h => hskip.mp rfl ⟨h.1, Or.inl h.2.1⟩)
  | refuse =>
    rw [hchoice] at htake hskip
    have hasks : Asks device d ∧ (isByAddr device = true ∨ d.vmid = -1) := by
      by_contra hnot
      exact absurd (hskip.mpr hnot) (by simp)
    have hheld : d.vmid ≠ -1 := fun hfree => absurd (htake.mpr ⟨hfree, hasks.1⟩) (by simp)
    exact iff_of_true rfl ⟨hasks.1, hasks.2.resolve_right hheld, hheld⟩

theorem refused_iff (m : PciMap) (device : PciAttribute) :
    Refused m device ↔ (isByAddr device = false ∧ isNamed device = false) ∨
      pick (choice device) m = .noDevice := by
  rw [Refused, pick_noDevice_iff]
  simp only [choice_skip_iff, choice_refuse_iff]

/-- `add` and `test` refuse the request at once, and leave the host. -/
theorem refused_serve {m : PciMap} {device : PciAttribute} (h : Refused m device) (sr : PciCapacity)
    (palloc : PortAlloc) :
    serve sr device ⟨m, palloc⟩ = some (.noDevice, device, ⟨m, palloc⟩) ∧
      ∃ assigned, testOne m device [] = some (false, assigned) := by
  unfold serve addByName testOne testByName
  rcases (refused_iff m device).mp h with ⟨haddr, hnamed⟩ | hpick
  · rw [if_neg (by simp [haddr]), if_neg (by simp [hnamed]), if_neg (by simp [haddr]),
      if_neg (by simp [hnamed])]
    exact ⟨rfl, [], rfl⟩
  · unfold choice at hpick
    by_cases haddr : isByAddr device = true
    · rw [if_pos haddr] at hpick
      rw [if_pos haddr, if_pos haddr, addDevice, testByAddr, hpick]
      exact ⟨rfl, _, rfl⟩
    · rw [if_neg haddr] at hpick
      rw [if_neg haddr, if_neg haddr]
      by_cases hnamed : isNamed device = true
      · have hleft : leftByName device [] = byName device := by
          classical
          funext d
          rw [leftByName_eq, byName_eq]
          simp
        rw [if_pos hnamed] at hpick
        rw [if_pos hnamed, if_pos hnamed, addDevice, hleft, hpick]
        exact ⟨rfl, [], rfl⟩
      · rw [if_neg hnamed, if_neg hnamed]
        exact ⟨rfl, [], rfl⟩

/-! ## A request that is served -/

/-- The devices that have an owner are left. -/
def Kept (m m' : PciMap) : Prop :=
  m'.keys = m.keys ∧ ∀ k d, (k, some d) ∈ m → d.vmid ≠ -1 → (k, some d) ∈ m'

theorem Kept.refl (m : PciMap) : Kept m m := ⟨rfl, fun _ _ h _ => h⟩

theorem Kept.trans {m m' m'' : PciMap} (h : Kept m m') (h' : Kept m' m'') : Kept m m'' :=
  ⟨h'.1.trans h.1, fun k d hmem hheld => h'.2 k d (h.2 k d hmem hheld) hheld⟩

theorem kept_set {m : PciMap} (hnodup : m.keys.Nodup) {key : Text} {d : PCIDevice}
    (hmem : (key, some d) ∈ m) (hfree : d.vmid = -1) (d' : PCIDevice) : Kept m (m.set key d') := by
  refine ⟨keys_set, fun k e he hheld => ?_⟩
  refine mem_set.mpr (Or.inr ⟨?_, he⟩)
  rintro rfl
  rw [Option.some.inj (eq_of_mem hnodup he hmem)] at hheld
  exact hheld hfree

/-- The device that a search finds is free and in the map. -/
theorem choice_found {m : PciMap} {device : PciAttribute} {k : Text} {d : PCIDevice}
    (h : pick (choice device) m = .found k d) : (k, some d) ∈ m ∧ d.vmid = -1 := by
  obtain ⟨htake, before, after, rfl, -⟩ := (pick_found_iff _ _ _ _).mp h
  exact ⟨List.mem_append_right _ List.mem_cons_self, ((choice_take_iff device d).mp htake).1⟩

theorem serve_kept {sr : PciCapacity} {device device' : PciAttribute} {a a' : Assign}
    {outcome : Outcome} (hnodup : a.map.keys.Nodup)
    (h : serve sr device a = some (outcome, device', a')) : Kept a.map a'.map := by
  by_cases hfound : ∃ k d, pick (choice device) a.map = .found k d
  · obtain ⟨k, d, hpick⟩ := hfound
    obtain ⟨hmem, hfree⟩ := choice_found hpick
    have hgiven : Given sr device a k d (serve sr device a) := serve_found hpick
    rcases hgiven with ⟨-, hserve⟩ | ⟨-, _, palloc', hserve⟩
    · rw [hserve, Option.some.injEq, Prod.mk.injEq, Prod.mk.injEq] at h
      rw [← h.2.2]
      exact kept_set hnodup hmem hfree _
    · rw [hserve, Option.some.injEq, Prod.mk.injEq, Prod.mk.injEq] at h
      rw [← h.2.2]
      exact kept_set hnodup hmem hfree _
  · have hend : serve sr device a = none ∨ _ :=
      serve_not_found fun k d hp => hfound ⟨k, d, hp⟩
    rcases hend with hserve | hserve
    · rw [hserve] at h
      exact absurd h (by simp)
    · rw [hserve, Option.some.injEq, Prod.mk.injEq, Prod.mk.injEq] at h
      rw [← h.2.2]
      exact Kept.refl _

theorem serveAll_kept (sr : PciCapacity) (devs : List PciAttribute) :
    ∀ {a a' : Assign} {outcome : Outcome} {ds : List PciAttribute}, a.map.keys.Nodup →
      serveAll sr devs a = some (outcome, ds, a') → Kept a.map a'.map := by
  induction devs with
  | nil =>
    intro a a' outcome ds _ h
    rw [serveAll, Option.some.injEq, Prod.mk.injEq, Prod.mk.injEq] at h
    rw [h.2.2]
    exact Kept.refl _
  | cons device devs ih =>
    intro a a' outcome ds hnodup h
    rw [serveAll] at h
    rcases hserve : serve sr device a with _ | ⟨o, device', a₁⟩
    · rw [hserve] at h
      exact absurd h (by simp)
    have hone := serve_kept hnodup hserve
    rw [hserve] at h
    cases o with
    | assigned =>
      obtain ⟨⟨o', ds', a₂⟩, htail, heq⟩ := Option.map_eq_some_iff.mp h
      rw [Prod.mk.injEq, Prod.mk.injEq] at heq
      obtain ⟨-, -, rfl⟩ := heq
      exact hone.trans (ih (by rw [hone.1]; exact hnodup) htail)
    | noDevice | noAddress =>
      rw [Option.some.injEq, Prod.mk.injEq, Prod.mk.injEq] at h
      rw [← h.2.2]
      exact hone

/-! ## Agreement -/

/-- The owners of the devices: the fields `vmid` and the numbers in the attributes `VMID`. -/
def owners (m : PciMap) : List (Text × Option (ℤ × Option ℤ)) :=
  m.map fun e => (e.1, e.2.map fun d => (d.vmid, d.vmidAttr.value))

/-- The test succeeds if and only if the assignment does, and an assignment that fails leaves the
owners. -/
def Agree (m : PciMap) (sr : PciCapacity) : Prop :=
  ∃ t outcome devs' m', test m sr.pci = some t ∧ add m sr = some (outcome, devs', m') ∧
    (t = true ↔ outcome = .assigned) ∧ (outcome ≠ .assigned → owners m' = owners m)

/-- A search that meets a null pointer, unless there is no search. -/
theorem serve_null {sr : PciCapacity} {device : PciAttribute} {a : Assign}
    (h : pick (choice device) a.map = .null) :
    serve sr device a = none ∨ (isByAddr device = false ∧ isNamed device = false) := by
  unfold choice at h
  by_cases haddr : isByAddr device = true
  · left
    rw [if_pos haddr] at h
    rw [serve, if_pos haddr, addDevice, h]
  · rw [if_neg haddr] at h
    by_cases hnamed : isNamed device = true
    · left
      rw [if_pos hnamed] at h
      rw [serve, if_neg haddr, addByName, if_pos hnamed, addDevice, h]
    · exact Or.inr ⟨by simpa using haddr, by simpa using hnamed⟩

/-- The device that the first request finds belongs to the machine at the end, whatever comes after
it. -/
theorem serveAll_holds {sr : PciCapacity} (hvmid : sr.vmid ≠ -1) {device : PciAttribute}
    {devs : List PciAttribute} {a a' : Assign} (hnodup : a.map.keys.Nodup) {k : Text} {d : PCIDevice}
    (hpick : pick (choice device) a.map = .found k d) {outcome : Outcome} {ds : List PciAttribute}
    (h : serveAll sr (device :: devs) a = some (outcome, ds, a')) :
    ∃ d', (k, some d') ∈ a'.map ∧ d'.vmid = sr.vmid := by
  have hkey : k ∈ a.map.keys := mem_keys_of_mem (choice_found hpick).1
  have hgiven : Given sr device a k d (serve sr device a) := serve_found hpick
  rw [serveAll] at h
  rcases hgiven with ⟨-, hserve⟩ | ⟨-, device', palloc', hserve⟩
  · rw [hserve] at h
    obtain ⟨⟨o, ds', a₂⟩, htail, heq⟩ := Option.map_eq_some_iff.mp h
    rw [Prod.mk.injEq, Prod.mk.injEq] at heq
    obtain ⟨-, -, rfl⟩ := heq
    have hkept := serveAll_kept sr devs (by rw [keys_set]; exact hnodup) htail
    exact ⟨own sr.vmid d, hkept.2 k _ (mem_set.mpr (Or.inl ⟨rfl, hkey, rfl⟩)) hvmid, rfl⟩
  · rw [hserve, Option.some.injEq, Prod.mk.injEq, Prod.mk.injEq] at h
    rw [← h.2.2]
    exact ⟨_, mem_set.mpr (Or.inl ⟨rfl, hkey, rfl⟩), rfl⟩

/-- A first request that is not refused changes an owner. -/
theorem owners_changed {sr : PciCapacity} (hvmid : sr.vmid ≠ -1) {m m' : PciMap}
    (hnodup : m.keys.Nodup) {device : PciAttribute} {devs : List PciAttribute}
    (horder : order sr.pci = device :: devs) (hrefused : ¬Refused m device) {outcome : Outcome}
    {devs' : List PciAttribute} (hadd : add m sr = some (outcome, devs', m')) :
    owners m' ≠ owners m := by
  obtain ⟨hnone, hsome⟩ := add_eq m sr
  rcases hserve : serveAll sr (order sr.pci) ⟨m, fun _ => ∅⟩ with _ | ⟨o, ds, a'⟩
  · rw [hnone hserve] at hadd
    exact absurd hadd (by simp)
  obtain ⟨_, hadd', -⟩ := hsome _ _ _ hserve
  obtain ⟨-, -, rfl⟩ : outcome = o ∧ _ ∧ m' = a'.map := by simpa [hadd] using hadd'
  rw [horder] at hserve
  obtain ⟨k, d, hpick⟩ : ∃ k d, pick (choice device) m = .found k d := by
    cases hpick : pick (choice device) m with
    | found k d => exact ⟨k, d, rfl⟩
    | noDevice => exact absurd ((refused_iff m device).mpr (Or.inr hpick)) hrefused
    | null =>
      have hend : serve sr device ⟨m, fun _ => ∅⟩ = none ∨ _ := serve_null hpick
      rcases hend with hone | hunnamed
      · rw [serveAll, hone] at hserve
        exact absurd hserve (by simp)
      · exact absurd ((refused_iff m device).mpr (Or.inl hunnamed)) hrefused
  obtain ⟨hmem, hfree⟩ := choice_found hpick
  have hstart : (Assign.mk m fun _ => ∅).map.keys.Nodup := hnodup
  obtain ⟨d', hmem', hheld⟩ := serveAll_holds hvmid hstart hpick hserve
  intro heq
  have howner : (k, some (d'.vmid, d'.vmidAttr.value)) ∈ owners m := by
    rw [← heq]
    exact List.mem_map_of_mem hmem'
  obtain ⟨⟨k', o'⟩, hmem'', hsame⟩ := List.mem_map.mp howner
  obtain ⟨rfl, ho'⟩ := Prod.mk.inj hsame
  obtain ⟨d'', rfl, hd''⟩ := Option.map_eq_some_iff.mp ho'
  -- the device of the key had no owner
  obtain rfl := Option.some.inj (eq_of_mem hnodup hmem'' hmem)
  rw [hfree, hheld] at hd''
  exact hvmid (Prod.mk.inj hd'').1.symm

/-- A first request that is refused ends both. -/
theorem agree_of_refused {m : PciMap} {sr : PciCapacity} {device : PciAttribute}
    {devs : List PciAttribute} (horder : order sr.pci = device :: devs)
    (hrefused : Refused m device) : Agree m sr := by
  obtain ⟨hserve, assigned, htest⟩ := refused_serve hrefused sr fun _ => ∅
  obtain ⟨devs', hadd, -⟩ := (add_eq m sr).2 .noDevice (device :: devs) ⟨m, fun _ => ∅⟩
    (by rw [horder, serveAll, hserve])
  refine ⟨false, .noDevice, devs', m, ?_, hadd, by simp, fun _ => rfl⟩
  rw [test_eq, horder, testAll, htest]

/-- **When the test and the assignment agree**, and a failed assignment leaves the owners. -/
theorem agree_iff {m : PciMap} {sr : PciCapacity} (hvmid : sr.vmid ≠ -1) (hnodup : m.keys.Nodup) :
    Agree m sr ↔
      (∃ device devs, order sr.pci = device :: devs ∧ Refused m device) ∨
        (∃ picks, FirstFit addFree m (order sr.pci) [] picks ∧
          AllReady sr.nodes [] (handed sr ((order sr.pci).zip (picks.map Prod.snd)))) ∧
        ∃ picks, FirstFit testFree m (order sr.pci) [] picks := by
  have haddress : ∀ pairs, (∃ r, addressAll sr pairs (fun _ => ∅) = some r) ↔
      AllReady sr.nodes [] (handed sr pairs) :=
    fun pairs => (addressAll_eq sr pairs [] _ (portsAre_nil sr.nodes)).1
  have hassigned := add_assigned_iff hvmid hnodup
  simp only [haddress] at hassigned
  rw [← hassigned, ← test_iff]
  constructor
  · rintro ⟨t, outcome, devs', m', htest, hadd, hiff, hleft⟩
    by_cases hdone : outcome = .assigned
    · right
      rw [hdone] at hadd
      exact ⟨⟨devs', m', hadd⟩, by rw [htest, hiff.mpr hdone]⟩
    · left
      cases horder : order sr.pci with
      | nil =>
        -- without requests the assignment succeeds
        obtain ⟨_, hadd', -⟩ := (add_eq m sr).2 .assigned [] ⟨m, fun _ => ∅⟩ (by rw [horder, serveAll])
        rw [hadd, Option.some.injEq, Prod.mk.injEq] at hadd'
        exact absurd hadd'.1 hdone
      | cons device devs =>
        refine ⟨device, devs, rfl, ?_⟩
        by_contra hrefused
        exact owners_changed hvmid hnodup horder hrefused hadd (hleft hdone)
  · rintro (⟨device, devs, horder, hrefused⟩ | ⟨⟨devs', m', hadd⟩, htest⟩)
    · exact agree_of_refused horder hrefused
    · exact ⟨true, .assigned, devs', m', htest, hadd, by simp, fun hne => absurd rfl hne⟩

/-! ## One device and its short address -/

/-- A free device. -/
def lonelyDevice : PCIDevice where
  vendorId := 0x10de
  deviceId := 0x1db6
  classId := 0x0302
  vmid := -1
  address := "0000:01:00.0".toList
  attrs := fun
    | .address => some "0000:01:00.0".toList
    | .shortAddress => some "01:00.0".toList
    | _ => none
  vmidAttr := .number (-1)

/-- A host with one device. -/
def lonelyHost : PciMap := [("0000:01:00.0".toList, some lonelyDevice)]

/-- A request by short address. -/
def shortRequest : PciAttribute
  | .shortAddress => some "01:00.0".toList
  | _ => none

/-- A machine with some requests. -/
def shortMachine (pci : List PciAttribute) : PciCapacity := ⟨7, false, [], pci, []⟩

/-- One request for the device. -/
theorem agree_shortMachine : Agree lonelyHost (shortMachine [shortRequest]) := by
  have horder : order (shortMachine [shortRequest]).pci = [shortRequest] := rfl
  have hfirst : ∀ free : Entry → Prop, free ("0000:01:00.0".toList, lonelyDevice) →
      FirstChoice free lonelyHost shortRequest ("0000:01:00.0".toList, lonelyDevice) :=
    fun free hfree => ⟨hfree, rfl, [], [], rfl, by simp⟩
  have hready : AllReady [] [] (handed (shortMachine [shortRequest])
      [(shortRequest, lonelyDevice)]) := by
    have hgroup : groupOf [] (pciAttribute shortRequest lonelyDevice true []) = none := by
      decide
    refine ⟨⟨fun g hg => ?_, fun _ hid => absurd rfl hid⟩, trivial⟩
    exact absurd (hgroup.symm.trans hg) (by simp)
  rw [agree_iff (by decide) (by decide), horder]
  right
  refine ⟨⟨[("0000:01:00.0".toList, lonelyDevice)], ⟨hfirst _ ⟨rfl, ?_⟩, rfl⟩, hready⟩,
    [("0000:01:00.0".toList, lonelyDevice)], hfirst _ ⟨rfl, Or.inl rfl⟩, rfl⟩
  exact List.not_mem_nil

/-- Two requests for the device pass the test.  The assignment fails at the second one, and the device
stays with the machine. -/
theorem not_agree :
    ¬ ∀ (m : PciMap) (sr : PciCapacity), sr.vmid ≠ -1 → m.keys.Nodup → Agree m sr := by
  intro h
  obtain ⟨t, outcome, devs', m', htest, hadd, hiff, -⟩ :=
    h lonelyHost (shortMachine [shortRequest, shortRequest]) (by decide) (by decide)
  have htrue : test lonelyHost [shortRequest, shortRequest] = some true := by decide
  have hfailed : (add lonelyHost (shortMachine [shortRequest, shortRequest])).map (fun r => r.1) =
      some .noDevice := by decide
  have ht : t = true := Option.some.inj (htest.symm.trans htrue)
  rw [hadd, Option.map_some, hiff.mp ht] at hfailed
  exact absurd (Option.some.inj hfailed) (by simp)

end HostSharePCI
