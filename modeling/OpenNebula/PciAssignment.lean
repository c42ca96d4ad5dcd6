/-
# The assignment of PCI devices, one request after the other

`add` serves the requests of a virtual machine in two loops: first the ones by short address, then
the others.  Here it is brought to one loop over the requests in that order (`serveAll`), and what
this loop does is said without the loop: every request gets the first device of the host that it asks
for and can have (`FirstFit`), and the devices get their addresses in the machine one after the other
(`addressAll`).  The host afterwards is the one before with the owner of these devices changed
(`mark`).
-/
import OpenNebula.PciOwnership

namespace HostSharePCI

open PciMap

/-! ## The attributes of a device -/

/-- Some attributes are copied. -/
theorem foldl_replace (f : PciName → Text) (name : PciName) (names : List PciName) :
    ∀ device : PciAttribute,
      names.foldl (fun device n => device.replace n (f n)) device name =
        if name ∈ names then some (f name) else device name := by
  induction names with
  | nil => exact fun _ => rfl
  | cons n names ih =>
    intro device
    rw [List.foldl_cons, ih]
    by_cases hmem : name ∈ names
    · rw [if_pos hmem, if_pos (List.mem_cons_of_mem n hmem)]
    · rw [if_neg hmem]
      by_cases heq : name = n
      · subst heq
        rw [if_pos List.mem_cons_self, PciAttribute.replace, Function.update_self]
      · rw [if_neg (by simp [heq, hmem]), PciAttribute.replace, Function.update_of_ne heq]

/-- Some attributes are copied if they are not empty. -/
theorem foldl_replaceGiven (f : PciName → Text) (name : PciName) (names : List PciName) :
    ∀ device : PciAttribute,
      names.foldl (fun device n => if f n ≠ [] then device.replace n (f n) else device) device name =
        if name ∈ names ∧ f name ≠ [] then some (f name) else device name := by
  induction names with
  | nil => exact fun _ => by simp
  | cons n names ih =>
    intro device
    rw [List.foldl_cons, ih]
    by_cases hmem : name ∈ names ∧ f name ≠ []
    · rw [if_pos hmem, if_pos ⟨List.mem_cons_of_mem n hmem.1, hmem.2⟩]
    · rw [if_neg hmem]
      by_cases heq : name = n
      · subst heq
        split_ifs with h1 h2 h2
        · rw [PciAttribute.replace, Function.update_self]
        · exact absurd ⟨List.mem_cons_self, h1⟩ h2
        · exact absurd h2.2 h1
        · rfl
      · have hother : ¬(name ∈ n :: names ∧ f name ≠ []) := by
          rintro ⟨hcons, hne⟩
          exact hmem ⟨(List.mem_cons.mp hcons).resolve_left heq, hne⟩
        rw [if_neg hother]
        split_ifs with h1
        · rw [PciAttribute.replace, Function.update_of_ne heq]
        · rfl

/-- **The attributes of a device that has been assigned**: those of the device of the host, and its
address before. -/
theorem pciAttribute_eq (device : PciAttribute) (pci : PCIDevice) (vprofile : Text) {name : PciName}
    (h : name ≠ .profile) :
    pciAttribute device pci true vprofile name =
      if name ∈ [PciName.numaNode, .uuid, .mdevMode] ∧ pci.attrs.value name ≠ [] then
        some (pci.attrs.value name)
      else if name ∈ [PciName.domain, .bus, .slot, .function, .address, .shortAddress, .vendor,
          .device, .classId] then some (pci.attrs.value name)
      else if name = .prevAddress ∧ device.value .address ≠ [] then some (device.value .address)
      else device name := by
  have hprev : (if device.value .address ≠ [] then
      device.replace .prevAddress (device.value .address) else device) name =
      if name = .prevAddress ∧ device.value .address ≠ [] then some (device.value .address)
      else device name := by
    by_cases haddr : device.value .address = []
    · rw [if_neg (not_not.mpr haddr), if_neg (fun h' => h'.2 haddr)]
    · rw [if_pos haddr, PciAttribute.replace]
      by_cases hname : name = .prevAddress
      · rw [if_pos ⟨hname, haddr⟩, hname, Function.update_self]
      · rw [if_neg (fun h' => hname h'.1), Function.update_of_ne hname]
  have hlast : ∀ (c : Prop) [Decidable c] (d : PciAttribute),
      (if c then d.replace .profile vprofile else d) name = d name := by
    intro c _ d
    split
    · exact Function.update_of_ne h _ _
    · rfl
  unfold pciAttribute
  dsimp only
  rw [hlast, foldl_replaceGiven, foldl_replace, if_pos rfl, hprev]

/-! ## The order of the requests -/

/-- The requests in the order in which they are served. -/
def order (devs : List PciAttribute) : List PciAttribute :=
  devs.filter isByAddr ++ devs.filter fun d => !isByAddr d

/-- One request. -/
def serve (sr : PciCapacity) (device : PciAttribute) (a : Assign) :
    Option (Outcome × PciAttribute × Assign) :=
  if isByAddr device then addDevice (byAddr (device.value .shortAddress)) device sr a
  else addByName device sr a

/-- The requests one after the other, up to the first that fails. -/
def serveAll (sr : PciCapacity) : List PciAttribute → Assign →
    Option (Outcome × List PciAttribute × Assign)
  | [], a => some (.assigned, [], a)
  | device :: devs, a =>
    match serve sr device a with
    | none => none
    | some (.assigned, device', a') => (serveAll sr devs a').map fun r => (r.1, device' :: r.2.1, r.2.2)
    | some (outcome, device', a') => some (outcome, device' :: devs, a')

/-- Two loops, one after the other. -/
theorem serveAll_append (sr : PciCapacity) (devs devs' : List PciAttribute) :
    ∀ a, serveAll sr (devs ++ devs') a =
      match serveAll sr devs a with
      | none => none
      | some (.assigned, ds, a') => (serveAll sr devs' a').map fun r => (r.1, ds ++ r.2.1, r.2.2)
      | some (outcome, ds, a') => some (outcome, ds ++ devs', a') := by
  induction devs with
  | nil =>
    intro a
    simp [serveAll]
  | cons device devs ih =>
    intro a
    rw [List.cons_append, serveAll, serveAll]
    rcases serve sr device a with _ | ⟨outcome, device', a'⟩
    · rfl
    cases outcome with
    | noDevice => rfl
    | noAddress => rfl
    | assigned =>
      dsimp only
      rw [ih]
      rcases serveAll sr devs a' with _ | ⟨outcome', ds, a''⟩
      · rfl
      cases outcome' with
      | noDevice => rfl
      | noAddress => rfl
      | assigned =>
        dsimp only [Option.map_some]
        rw [Option.map_map]
        rfl

/-- A loop ends as the requests do when they are served in their order, with a list of its own. -/
def Follows {β : Type} (P : List PciAttribute → List β → Prop)
    (x : Option (Outcome × List PciAttribute × Assign)) (y : Option (Outcome × List β × Assign)) : Prop :=
  (x = none → y = none) ∧ ∀ outcome ds a, x = some (outcome, ds, a) →
    ∃ devs, y = some (outcome, devs, a) ∧ (outcome = .assigned → P ds devs)

section Follows

variable {β : Type} {P Q : List PciAttribute → List β → Prop}

theorem Follows.unknown : Follows P none none := ⟨fun _ => rfl, fun _ _ _ h => absurd h (by simp)⟩

theorem Follows.found {outcome : Outcome} {ds : List PciAttribute} {devs : List β}
    (h : outcome = .assigned → P ds devs) (a : Assign) :
    Follows P (some (outcome, ds, a)) (some (outcome, devs, a)) := by
  refine ⟨fun hnone => absurd hnone (by simp), ?_⟩
  rintro outcome' ds' a' heq
  rw [Option.some.injEq, Prod.mk.injEq, Prod.mk.injEq] at heq
  obtain ⟨rfl, rfl, rfl⟩ := heq
  exact ⟨devs, rfl, h⟩

/-- The requests that follow. -/
theorem Follows.map {x : Option (Outcome × List PciAttribute × Assign)} {y : Option (Outcome × List β × Assign)}
    (h : Follows P x y) {g : List PciAttribute → List PciAttribute} {f : List β → List β}
    (hPQ : ∀ ds devs, P ds devs → Q (g ds) (f devs)) :
    Follows Q (x.map fun r => (r.1, g r.2.1, r.2.2)) (y.map fun r => (r.1, f r.2.1, r.2.2)) := by
  refine ⟨fun hnone => ?_, ?_⟩
  · rw [h.1 (Option.map_eq_none_iff.mp hnone)]
    rfl
  · rintro outcome ds a heq
    obtain ⟨⟨o, ds', a'⟩, hx, heq⟩ := Option.map_eq_some_iff.mp heq
    rw [Prod.mk.injEq, Prod.mk.injEq] at heq
    obtain ⟨rfl, rfl, rfl⟩ := heq
    obtain ⟨devs, hy, hP⟩ := h.2 _ _ _ hx
    rw [hy]
    exact ⟨_, rfl, fun hassigned => hPQ _ _ (hP hassigned)⟩

/-- A request that is not served by this loop. -/
theorem Follows.skip {x : Option (Outcome × List PciAttribute × Assign)} {y : Option (Outcome × List β × Assign)}
    (h : Follows P x y) {f : List β → List β} (hPQ : ∀ ds devs, P ds devs → Q ds (f devs)) :
    Follows Q x (y.map fun r => (r.1, f r.2.1, r.2.2)) := by
  have hmap : Follows Q (x.map fun r => (r.1, r.2.1, r.2.2)) _ := h.map hPQ
  rwa [Option.map_id'] at hmap

end Follows

/-- The loop over the requests by short address. -/
theorem addAddrs_eq (sr : PciCapacity) (devs : List PciAttribute) :
    ∀ a, Follows (fun ds marked => (marked.filter fun e => e.2).map Prod.fst = ds ∧
        (marked.filter fun e => !e.2).map Prod.fst = devs.filter fun d => !isByAddr d)
      (serveAll sr (devs.filter isByAddr) a) (addAddrs sr devs a) := by
  induction devs with
  | nil => exact fun a => Follows.found (fun _ => ⟨rfl, rfl⟩) a
  | cons device devs ih =>
    intro a
    by_cases haddr : isByAddr device = true
    · rw [List.filter_cons_of_pos haddr, serveAll, serve, if_pos haddr, addAddrs, if_pos haddr]
      rcases addDevice (byAddr (device.value .shortAddress)) device sr a with _ | ⟨o, device', a₁⟩
      · exact Follows.unknown
      cases o with
      | noDevice => exact Follows.found (fun hassigned => absurd hassigned (by decide)) a₁
      | noAddress => exact Follows.found (fun hassigned => absurd hassigned (by decide)) a₁
      | assigned =>
        refine (ih a₁).map fun ds marked h => ?_
        rw [List.filter_cons_of_pos rfl, List.map_cons, h.1, List.filter_cons_of_neg (by simp), h.2,
          List.filter_cons_of_neg (by simp [haddr])]
        exact ⟨rfl, rfl⟩
    · rw [List.filter_cons_of_neg haddr, addAddrs, if_neg haddr]
      refine (ih a).skip fun ds marked h => ?_
      rw [List.filter_cons_of_neg (by simp), h.1, List.filter_cons_of_pos rfl, List.map_cons, h.2,
        List.filter_cons_of_pos (by simp [haddr])]
      exact ⟨rfl, rfl⟩

/-- The loop over the other requests. -/
theorem addNames_eq (sr : PciCapacity) (marked : List (PciAttribute × Bool))
    (hmarked : ∀ e ∈ marked, e.2 = false → isByAddr e.1 = false) :
    ∀ a, Follows (fun ds devs => devs.Perm ((marked.filter fun e => e.2).map Prod.fst ++ ds))
      (serveAll sr ((marked.filter fun e => !e.2).map Prod.fst) a) (addNames sr marked a) := by
  induction marked with
  | nil =>
    intro a
    show Follows _ (some (.assigned, [], a)) (some (.assigned, [], a))
    refine Follows.found ?_ a
    exact fun _ => List.Perm.refl _
  | cons e marked ih =>
    obtain ⟨device, done⟩ := e
    have ih := ih (fun e he => hmarked e (List.mem_cons_of_mem _ he))
    intro a
    cases done with
    | true =>
      rw [List.filter_cons_of_pos rfl, List.filter_cons_of_neg (by simp), addNames]
      exact (ih a).skip fun ds devs h => h.cons device
    | false =>
      have haddr := hmarked (device, false) List.mem_cons_self rfl
      rw [List.filter_cons_of_neg (by simp), List.filter_cons_of_pos rfl, List.map_cons, serveAll,
        serve, if_neg (by simpa using haddr), addNames]
      rcases addByName device sr a with _ | ⟨o, device', a₁⟩
      · exact Follows.unknown
      cases o with
      | noDevice => exact Follows.found (fun hassigned => absurd hassigned (by decide)) a₁
      | noAddress => exact Follows.found (fun hassigned => absurd hassigned (by decide)) a₁
      | assigned => exact (ih a₁).map fun ds devs h => (h.cons device').trans List.perm_middle.symm

/-- **`add` serves the requests in their order.** -/
theorem add_eq (m : PciMap) (sr : PciCapacity) :
    (serveAll sr (order sr.pci) ⟨m, fun _ => ∅⟩ = none → add m sr = none) ∧
      ∀ outcome ds a', serveAll sr (order sr.pci) ⟨m, fun _ => ∅⟩ = some (outcome, ds, a') →
        ∃ devs', add m sr = some (outcome, devs', a'.map) ∧
          (outcome = .assigned → devs'.Perm ds) := by
  obtain ⟨hnone, hsome⟩ := addAddrs_eq sr sr.pci ⟨m, fun _ => ∅⟩
  rw [order, serveAll_append, add]
  rcases haddrs : serveAll sr (sr.pci.filter isByAddr) ⟨m, fun _ => ∅⟩ with _ | ⟨o, ds₁, a₁⟩
  · rw [hnone haddrs]
    exact ⟨fun _ => rfl, fun outcome ds a' h => absurd h (by simp)⟩
  obtain ⟨marked, hmarked, hfilter⟩ := hsome _ _ _ haddrs
  rw [hmarked]
  by_cases hassigned : o = .assigned
  · subst hassigned
    obtain ⟨hdone, hrest⟩ := hfilter rfl
    have hnames := addNames_eq sr marked (by
      intro e he hfalse
      have hmem : e.1 ∈ (marked.filter fun e => !e.2).map Prod.fst :=
        List.mem_map_of_mem (List.mem_filter.mpr ⟨he, by simp [hfalse]⟩)
      rw [hrest] at hmem
      simpa using (List.mem_filter.mp hmem).2) a₁
    rw [hdone, hrest] at hnames
    dsimp only
    refine ⟨fun h => ?_, ?_⟩
    · rw [hnames.1 (Option.map_eq_none_iff.mp h)]
      rfl
    · rintro outcome ds a' h
      obtain ⟨⟨o', ds', a₂⟩, htail, heq⟩ := Option.map_eq_some_iff.mp h
      rw [Prod.mk.injEq, Prod.mk.injEq] at heq
      obtain ⟨rfl, rfl, rfl⟩ := heq
      obtain ⟨devs', hdevs', hperm⟩ := hnames.2 _ _ _ htail
      rw [hdevs']
      exact ⟨devs', rfl, hperm⟩
  · refine ⟨fun h => ?_, ?_⟩
    · cases o <;> simp at h hassigned
    · rintro outcome ds a' h
      cases o with
      | assigned => exact absurd rfl hassigned
      | noDevice | noAddress =>
        rw [Option.some.injEq, Prod.mk.injEq, Prod.mk.injEq] at h
        obtain ⟨rfl, -, rfl⟩ := h
        exact ⟨_, rfl, fun hassigned => absurd hassigned (by decide)⟩

/-! ## The first device that a request can have -/

/-- An entry of the map with its device. -/
abbrev Entry := Text × PCIDevice

/-- The identifiers of the device are those of the request, as far as the request has them. -/
def Matches (device : PciAttribute) (d : PCIDevice) : Prop :=
  ((device.getPciValue .classId).1 = 0 ∨ d.classId = (device.getPciValue .classId).2) ∧
    ((device.getPciValue .vendor).1 = 0 ∨ d.vendorId = (device.getPciValue .vendor).2) ∧
    ((device.getPciValue .device).1 = 0 ∨ d.deviceId = (device.getPciValue .device).2)

/-- The request asks for the device: by its short address, or by its identifiers. -/
def Asks (device : PciAttribute) (d : PCIDevice) : Prop :=
  if isByAddr device then d.attrs.value .shortAddress = device.value .shortAddress
  else isNamed device = true ∧ Matches device d

/-- The entry is the first one that the request asks for and can have.  A request by short address
does not look beyond the first device with the address, free or not. -/
def FirstChoice (free : Entry → Prop) (m : PciMap) (device : PciAttribute) (e : Entry) : Prop :=
  free e ∧ Asks device e.2 ∧ ∃ before after, m = before ++ (e.1, some e.2) :: after ∧
    ∀ x ∈ before, ∃ d, x.2 = some d ∧ ¬(Asks device d ∧ (isByAddr device = true ∨ free (x.1, d)))

/-- Every request gets its first choice; what is free depends on the request and on the entries that
were given before. -/
def FirstFit (free : PciAttribute → List Entry → Entry → Prop) (m : PciMap) :
    List PciAttribute → List Entry → List Entry → Prop
  | [], _, picks => picks = []
  | _ :: _, _, [] => False
  | device :: devs, earlier, e :: picks =>
    FirstChoice (free device earlier) m device e ∧ FirstFit free m devs (earlier ++ [e]) picks

/-- **What a search finds.** -/
theorem pick_found_iff (choose : PCIDevice → Choice) (m : PciMap) (key : Text) (d : PCIDevice) :
    pick choose m = .found key d ↔
      choose d = .take ∧ ∃ before after, m = before ++ (key, some d) :: after ∧
        ∀ x ∈ before, ∃ d', x.2 = some d' ∧ choose d' = .skip := by
  induction m with
  | nil => exact iff_of_false (by simp [pick]) (by simp)
  | cons e m ih =>
    obtain ⟨key', o⟩ := e
    cases o with
    | none =>
      refine iff_of_false (by simp [pick]) ?_
      rintro ⟨-, before, after, heq, hskip⟩
      cases before with
      | nil => simp at heq
      | cons x before =>
        rw [List.cons_append, List.cons.injEq] at heq
        obtain ⟨d', hd', -⟩ := hskip x List.mem_cons_self
        rw [← heq.1] at hd'
        exact absurd hd' (by simp)
    | some d' =>
      have hstart : ∀ before after, ((key', some d') :: m = before ++ (key, some d) :: after ∧
          ∀ x ∈ before, ∃ d', x.2 = some d' ∧ choose d' = .skip) →
          (before = [] ∧ key' = key ∧ d' = d) ∨ (choose d' = .skip ∧
            ∃ before', m = before' ++ (key, some d) :: after ∧
              ∀ x ∈ before', ∃ d', x.2 = some d' ∧ choose d' = .skip) := by
        rintro before after ⟨heq, hskip⟩
        cases before with
        | nil =>
          rw [List.nil_append, List.cons.injEq, Prod.mk.injEq, Option.some.injEq] at heq
          exact Or.inl ⟨rfl, heq.1⟩
        | cons x before =>
          rw [List.cons_append, List.cons.injEq] at heq
          obtain ⟨rfl, rfl⟩ := heq
          obtain ⟨d'', hd'', hs⟩ := hskip _ List.mem_cons_self
          rw [← Option.some.inj hd''] at hs
          exact Or.inr ⟨hs, before, rfl, fun x hx => hskip x (List.mem_cons_of_mem _ hx)⟩
      rw [pick]
      cases hchoice : choose d' with
      | skip =>
        dsimp only
        rw [ih]
        constructor
        · rintro ⟨htake, before, after, rfl, hskip⟩
          refine ⟨htake, (key', some d') :: before, after, rfl, ?_⟩
          intro x hx
          rcases List.mem_cons.mp hx with rfl | hx
          · exact ⟨d', rfl, hchoice⟩
          · exact hskip x hx
        · rintro ⟨htake, before, after, h⟩
          rcases hstart before after h with ⟨-, -, rfl⟩ | ⟨-, before', h'⟩
          · rw [hchoice] at htake
            exact absurd htake (by simp)
          · exact ⟨htake, before', after, h'⟩
      | refuse =>
        refine iff_of_false (by simp) ?_
        rintro ⟨htake, before, after, h⟩
        rcases hstart before after h with ⟨-, -, rfl⟩ | ⟨hs, -⟩
        · rw [hchoice] at htake
          exact absurd htake (by simp)
        · rw [hchoice] at hs
          exact absurd hs (by simp)
      | take =>
        dsimp only
        constructor
        · intro h
          obtain ⟨rfl, rfl⟩ := Pick.found.inj h
          exact ⟨hchoice, [], m, rfl, by simp⟩
        · rintro ⟨-, before, after, h⟩
          rcases hstart before after h with ⟨-, rfl, rfl⟩ | ⟨hs, -⟩
          · rfl
          · rw [hchoice] at hs
            exact absurd hs (by simp)

/-- The map with some of its devices changed. -/
def change (g : Text → PCIDevice → PCIDevice) (m : PciMap) : PciMap :=
  m.map fun e => (e.1, e.2.map (g e.1))

/-- **A search finds the first choice**, when it takes what the request can have, skips what it does
not look at, and the devices it can have are not changed. -/
theorem pick_change_iff {choose : PCIDevice → Choice} {free : Entry → Prop} {device : PciAttribute}
    {g : Text → PCIDevice → PCIDevice} (m : PciMap)
    (htake : ∀ k d, choose (g k d) = .take ↔ free (k, d) ∧ Asks device d)
    (hskip : ∀ k d, choose (g k d) = .skip ↔
      ¬(Asks device d ∧ (isByAddr device = true ∨ free (k, d))))
    (hsame : ∀ k d, free (k, d) → g k d = d) (key : Text) (d : PCIDevice) :
    pick choose (change g m) = .found key d ↔ FirstChoice free m device (key, d) := by
  rw [pick_found_iff]
  constructor
  · rintro ⟨hchoice, before, after, heq, hbefore⟩
    obtain ⟨b, rest, rfl, rfl, hrest⟩ := List.map_eq_append_iff.mp heq
    obtain ⟨⟨k, o⟩, a, rfl, he, rfl⟩ := List.map_eq_cons_iff.mp hrest
    obtain ⟨rfl, ho⟩ := Prod.mk.inj he
    obtain ⟨d₀, rfl, rfl⟩ := Option.map_eq_some_iff.mp ho
    obtain ⟨hfree, hasks⟩ := (htake k d₀).mp hchoice
    rw [hsame k d₀ hfree]
    refine ⟨hfree, hasks, b, a, rfl, ?_⟩
    intro x hx
    obtain ⟨d', hd', hs⟩ := hbefore _ (List.mem_map_of_mem hx)
    obtain ⟨d₁, hd₁, rfl⟩ := Option.map_eq_some_iff.mp hd'
    exact ⟨d₁, hd₁, (hskip x.1 d₁).mp hs⟩
  · rintro ⟨hfree, hasks, before, after, rfl, hbefore⟩
    have hchoice := (htake key d).mpr ⟨hfree, hasks⟩
    rw [hsame key d hfree] at hchoice
    refine ⟨hchoice, change g before, change g after, ?_, ?_⟩
    · rw [change, List.map_append, List.map_cons, Option.map_some, hsame key d hfree]
      rfl
    intro x hx
    obtain ⟨y, hy, rfl⟩ := List.mem_map.mp hx
    obtain ⟨d₁, hd₁, hno⟩ := hbefore y hy
    exact ⟨g y.1 d₁, by rw [hd₁]; rfl, (hskip y.1 d₁).mpr hno⟩

/-! ## The devices that have been given -/

/-- The device with a new owner. -/
def own (vmid : ℤ) (d : PCIDevice) : PCIDevice := { d with vmid := vmid, vmidAttr := .number vmid }

/-- The map after the devices with some addresses have been given to a machine. -/
def mark (vmid : ℤ) (given : List Text) (m : PciMap) : PciMap :=
  change (fun k d => if k ∈ given then own vmid d else d) m

/-- A device is free for an assignment if nobody has it and it has not been given before. -/
def addFree (_ : PciAttribute) (earlier : List Entry) (e : Entry) : Prop :=
  e.2.vmid = -1 ∧ e.1 ∉ earlier.map Prod.fst

/-- The choice of `add_by_addr` and `add_by_name`. -/
def choice (device : PciAttribute) : PCIDevice → Choice :=
  if isByAddr device then byAddr (device.value .shortAddress)
  else if isNamed device then byName device
  else fun _ => .skip

theorem byName_eq (device : PciAttribute) (d : PCIDevice) [Decidable (Matches device d)] :
    byName device d = if Matches device d ∧ d.vmid = -1 then .take else .skip := by
  unfold byName
  dsimp only
  refine if_congr ?_ rfl rfl
  rw [Matches, and_assoc, and_assoc]

theorem choice_take_iff (device : PciAttribute) (d : PCIDevice) :
    choice device d = .take ↔ d.vmid = -1 ∧ Asks device d := by
  classical
  unfold choice Asks
  by_cases haddr : isByAddr device = true
  · rw [if_pos haddr, if_pos haddr, byAddr]
    split_ifs with h1 h2
    · exact iff_of_false (by simp) (fun h => h1 h.2)
    · exact iff_of_false (by simp) (fun h => h2 h.1)
    · exact iff_of_true rfl ⟨not_not.mp h2, not_not.mp h1⟩
  · rw [if_neg haddr, if_neg haddr]
    by_cases hnamed : isNamed device = true
    · rw [if_pos hnamed, byName_eq]
      split_ifs with h
      · exact iff_of_true rfl ⟨h.2, hnamed, h.1⟩
      · exact iff_of_false (by simp) (fun h' => h ⟨h'.2.2, h'.1⟩)
    · rw [if_neg hnamed]
      exact iff_of_false (by simp) (fun h => hnamed h.2.1)

theorem choice_skip_iff (device : PciAttribute) (d : PCIDevice) :
    choice device d = .skip ↔ ¬(Asks device d ∧ (isByAddr device = true ∨ d.vmid = -1)) := by
  classical
  unfold choice Asks
  by_cases haddr : isByAddr device = true
  · rw [if_pos haddr, if_pos haddr, byAddr]
    split_ifs with h1 h2
    · exact iff_of_true rfl (fun h => h1 h.1)
    · exact iff_of_false (by simp) (not_not.mpr ⟨not_not.mp h1, Or.inl haddr⟩)
    · exact iff_of_false (by simp) (not_not.mpr ⟨not_not.mp h1, Or.inl haddr⟩)
  · rw [if_neg haddr, if_neg haddr]
    by_cases hnamed : isNamed device = true
    · rw [if_pos hnamed, byName_eq]
      split_ifs with h
      · exact iff_of_false (by simp) (not_not.mpr ⟨⟨hnamed, h.1⟩, Or.inr h.2⟩)
      · refine iff_of_true rfl ?_
        rintro ⟨⟨-, hmatch⟩, haddr' | hfree⟩
        · exact haddr haddr'
        · exact h ⟨hmatch, hfree⟩
    · rw [if_neg hnamed]
      exact iff_of_true rfl (fun h => hnamed h.1.1)

theorem asks_own {device : PciAttribute} {vmid : ℤ} {d : PCIDevice} :
    Asks device (own vmid d) ↔ Asks device d := Iff.rfl

/-- **A search among the devices that are left finds the first choice.** -/
theorem pick_mark_iff {vmid : ℤ} (hvmid : vmid ≠ -1) (earlier : List Entry) (m : PciMap)
    (device : PciAttribute) (key : Text) (d : PCIDevice) :
    pick (choice device) (mark vmid (earlier.map Prod.fst) m) = .found key d ↔
      FirstChoice (addFree device earlier) m device (key, d) := by
  refine pick_change_iff m ?_ ?_ ?_ key d
  · intro k d
    rw [choice_take_iff, addFree]
    split_ifs with hk
    · exact iff_of_false (fun h => hvmid h.1) (fun h => h.1.2 hk)
    · exact ⟨fun h => ⟨⟨h.1, hk⟩, h.2⟩, fun h => ⟨h.1.1, h.2⟩⟩
  · intro k d
    rw [choice_skip_iff, addFree, not_iff_not]
    split_ifs with hk
    · rw [asks_own]
      refine and_congr_right fun _ => or_congr_right ?_
      exact iff_of_false hvmid (fun h => h.2 hk)
    · refine and_congr_right fun _ => or_congr_right ?_
      exact ⟨fun h => ⟨h, hk⟩, fun h => h.1⟩
  · rintro k d ⟨-, hk⟩
    exact if_neg hk

/-- One more device is given. -/
theorem mark_set {m : PciMap} (hnodup : m.keys.Nodup) (vmid : ℤ) (given : List Text) {k : Text}
    {d : PCIDevice} (hmem : (k, some d) ∈ m) :
    (mark vmid given m).set k (own vmid d) = mark vmid (given ++ [k]) m := by
  rw [mark, mark, change, change, PciMap.set, List.map_map]
  refine List.map_congr_left ?_
  rintro ⟨k', o⟩ he
  by_cases hk : k' = k
  · subst hk
    rw [eq_of_mem hnodup he hmem]
    simp
  · simp [hk]

theorem FirstChoice.mem {free : Entry → Prop} {m : PciMap} {device : PciAttribute} {e : Entry}
    (h : FirstChoice free m device e) : (e.1, some e.2) ∈ m := by
  obtain ⟨-, -, before, after, rfl, -⟩ := h
  exact List.mem_append_right _ List.mem_cons_self

theorem mark_nil (vmid : ℤ) (m : PciMap) : mark vmid [] m = m := by
  rw [mark, change]
  simp

/-! ## One request -/

/-- The address in the machine of a device that a request gets. -/
def addressOne (sr : PciCapacity) (device : PciAttribute) (d : PCIDevice) (palloc : PortAlloc) :
    ℤ × PciAttribute × PortAlloc :=
  setPciAddress (pciAttribute device d true sr.vgpuProfile) palloc sr.isQ35 sr.nodes

/-- The addresses of some devices, up to the first that gets none. -/
def addressAll (sr : PciCapacity) : List (PciAttribute × PCIDevice) → PortAlloc →
    Option (List PciAttribute × PortAlloc)
  | [], palloc => some ([], palloc)
  | (device, d) :: rest, palloc =>
    let r := addressOne sr device d palloc
    if r.1 = 0 then (addressAll sr rest r.2.2).map fun q => (r.2.1 :: q.1, q.2) else none

section Serve

variable {sr : PciCapacity} {device : PciAttribute} {a : Assign}

/-- A request that finds no device changes nothing. -/
theorem serve_not_found (h : ∀ k d, pick (choice device) a.map ≠ .found k d) :
    serve sr device a = none ∨ serve sr device a = some (.noDevice, device, a) := by
  have hpick : ∀ choose, choose = choice device →
      addDevice choose device sr a = none ∨
        addDevice choose device sr a = some (.noDevice, device, a) := by
    rintro choose rfl
    unfold addDevice
    cases hp : pick (choice device) a.map with
    | noDevice => exact Or.inr rfl
    | null => exact Or.inl rfl
    | found k d => exact absurd hp (h k d)
  unfold serve addByName
  split
  · rename_i haddr
    exact hpick _ (by rw [choice, if_pos haddr])
  · rename_i haddr
    split
    · rename_i hnamed
      exact hpick _ (by rw [choice, if_neg haddr, if_pos hnamed])
    · exact Or.inr rfl

/-- How a request that finds a device ends. -/
def Given (sr : PciCapacity) (device : PciAttribute) (a : Assign) (k : Text) (d : PCIDevice)
    (r : Option (Outcome × PciAttribute × Assign)) : Prop :=
  ((addressOne sr device d a.palloc).1 = 0 ∧
      r = some (.assigned, (addressOne sr device d a.palloc).2.1,
        ⟨a.map.set k (own sr.vmid d), (addressOne sr device d a.palloc).2.2⟩)) ∨
    ((addressOne sr device d a.palloc).1 ≠ 0 ∧
      ∃ device' palloc', r = some (.noAddress, device',
        ⟨a.map.set k { own sr.vmid d with vmidAttr := .number (-1) }, palloc'⟩))

/-- A device that is found is taken, and its field `vmid` is not reset when there is no address for
it. -/
theorem addDevice_found {choose : PCIDevice → Choice} {k : Text} {d : PCIDevice}
    (h : pick choose a.map = .found k d) :
    Given sr device a k d (addDevice choose device sr a) := by
  have haddress : setPciAddress (pciAttribute device (own sr.vmid d) true sr.vgpuProfile) a.palloc
      sr.isQ35 sr.nodes = addressOne sr device d a.palloc := rfl
  unfold addDevice
  rw [h]
  dsimp only
  split
  · rename_i device' palloc' heq
    left
    rw [← haddress]
    have heq' : setPciAddress (pciAttribute device (own sr.vmid d) true sr.vgpuProfile) a.palloc
        sr.isQ35 sr.nodes = (0, device', palloc') := heq
    rw [heq']
    exact ⟨rfl, rfl⟩
  · rename_i rc device' palloc' hne heq
    refine Or.inr ⟨?_, device', palloc', rfl⟩
    rw [← haddress]
    have heq' : setPciAddress (pciAttribute device (own sr.vmid d) true sr.vgpuProfile) a.palloc
        sr.isQ35 sr.nodes = (rc, device', palloc') := heq
    rw [heq']
    exact hne

theorem serve_found {k : Text} {d : PCIDevice} (h : pick (choice device) a.map = .found k d) :
    Given sr device a k d (serve sr device a) := by
  unfold serve addByName
  by_cases haddr : isByAddr device = true
  · rw [choice, if_pos haddr] at h
    rw [if_pos haddr]
    exact addDevice_found h
  · rw [choice, if_neg haddr] at h
    rw [if_neg haddr]
    by_cases hnamed : isNamed device = true
    · rw [if_pos hnamed] at h
      rw [if_pos hnamed]
      exact addDevice_found h
    · rw [if_neg hnamed] at h
      exact absurd ((pick_found_iff _ _ _ _).mp h).1 (by simp)

end Serve

/-! ## All the requests -/

/-- The addresses of the entries. -/
abbrev keysOf (picks : List Entry) : List Text := picks.map Prod.fst

theorem mark_given {m : PciMap} (hnodup : m.keys.Nodup) (vmid : ℤ) (earlier : List Entry) {e : Entry}
    (hmem : (e.1, some e.2) ∈ m) :
    (mark vmid (keysOf earlier) m).set e.1 (own vmid e.2) = mark vmid (keysOf (earlier ++ [e])) m := by
  rw [mark_set hnodup vmid _ hmem, keysOf, keysOf, List.map_append]
  rfl

/-- **When all the requests are served**: each gets its first choice and an address. -/
theorem serveAll_assigned_iff {sr : PciCapacity} (hvmid : sr.vmid ≠ -1) {m : PciMap}
    (hnodup : m.keys.Nodup) (devs : List PciAttribute) :
    ∀ (earlier : List Entry) (palloc : PortAlloc) (ds : List PciAttribute) (a' : Assign),
      serveAll sr devs ⟨mark sr.vmid (keysOf earlier) m, palloc⟩ = some (.assigned, ds, a') ↔
        ∃ picks, FirstFit addFree m devs earlier picks ∧
          addressAll sr (devs.zip (picks.map Prod.snd)) palloc = some (ds, a'.palloc) ∧
          a'.map = mark sr.vmid (keysOf (earlier ++ picks)) m := by
  induction devs with
  | nil =>
    intro earlier palloc ds a'
    rw [serveAll, Option.some.injEq, Prod.mk.injEq, Prod.mk.injEq]
    constructor
    · rintro ⟨-, rfl, rfl⟩
      exact ⟨[], rfl, rfl, by rw [List.append_nil]⟩
    · rintro ⟨picks, rfl, haddress, hmap⟩
      rw [List.zip_nil_left, addressAll, Option.some.injEq, Prod.mk.injEq] at haddress
      obtain ⟨rfl, hpalloc⟩ := haddress
      rw [List.append_nil] at hmap
      refine ⟨rfl, rfl, ?_⟩
      rw [← hmap, hpalloc]
  | cons device devs ih =>
    intro earlier palloc ds a'
    rw [serveAll]
    constructor
    · intro h
      by_cases hfound : ∃ k d, pick (choice device) (mark sr.vmid (keysOf earlier) m) = .found k d
      · obtain ⟨k, d, hpick⟩ := hfound
        have hfirst := (pick_mark_iff hvmid earlier m device k d).mp hpick
        have hgiven : Given sr device ⟨mark sr.vmid (keysOf earlier) m, palloc⟩ k d _ :=
          serve_found hpick
        rcases hgiven with ⟨haddress, hserve⟩ | ⟨-, device', palloc', hserve⟩
        · rw [hserve] at h
          obtain ⟨⟨o, ds', a''⟩, htail, heq⟩ := Option.map_eq_some_iff.mp h
          rw [Prod.mk.injEq, Prod.mk.injEq] at heq
          obtain ⟨rfl, rfl, rfl⟩ := heq
          rw [mark_given hnodup sr.vmid earlier (e := (k, d)) hfirst.mem, ih] at htail
          obtain ⟨picks, hfit, hrest, hmap⟩ := htail
          refine ⟨(k, d) :: picks, ⟨hfirst, hfit⟩, ?_, ?_⟩
          · rw [List.map_cons, List.zip_cons_cons, addressAll]
            dsimp only at haddress hrest ⊢
            rw [if_pos haddress, hrest]
            rfl
          · rw [hmap, List.append_assoc]
            rfl
        · rw [hserve] at h
          exact absurd h (by simp)
      · have hnot : serve sr device ⟨mark sr.vmid (keysOf earlier) m, palloc⟩ = none ∨ _ :=
          serve_not_found (fun k d hp => hfound ⟨k, d, hp⟩)
        rcases hnot with hserve | hserve
        · rw [hserve] at h
          exact absurd h (by simp)
        · rw [hserve] at h
          exact absurd h (by simp)
    · rintro ⟨picks, hfit, haddresses, hmap⟩
      cases picks with
      | nil => exact absurd hfit id
      | cons e picks =>
        obtain ⟨hfirst, hfit⟩ := hfit
        have hpick := (pick_mark_iff hvmid earlier m device e.1 e.2).mpr hfirst
        rw [List.map_cons, List.zip_cons_cons, addressAll] at haddresses
        have hgiven : Given sr device ⟨mark sr.vmid (keysOf earlier) m, palloc⟩ e.1 e.2 _ :=
          serve_found hpick
        rcases hgiven with ⟨haddress, hserve⟩ | ⟨hno, -⟩
        · dsimp only at haddress hserve
          rw [if_pos haddress] at haddresses
          obtain ⟨⟨ds', palloc''⟩, hrest, heq⟩ := Option.map_eq_some_iff.mp haddresses
          obtain ⟨rfl, rfl⟩ := Prod.mk.inj heq
          rw [hserve]
          dsimp only
          rw [mark_given hnodup sr.vmid earlier hfirst.mem,
            (ih (earlier ++ [e]) _ ds' a').mpr
              ⟨picks, hfit, hrest, by rw [hmap, List.append_assoc]; rfl⟩]
          rfl
        · dsimp only at hno
          rw [if_neg hno] at haddresses
          exact absurd haddresses (by simp)

/-- **`add` gives a device and an address for every request** exactly if each gets its first choice
and an address, in their order. -/
theorem add_assigned_iff {sr : PciCapacity} (hvmid : sr.vmid ≠ -1) {m : PciMap}
    (hnodup : m.keys.Nodup) :
    (∃ devs' m', add m sr = some (.assigned, devs', m')) ↔
      ∃ picks, FirstFit addFree m (order sr.pci) [] picks ∧
        ∃ r, addressAll sr ((order sr.pci).zip (picks.map Prod.snd)) (fun _ => ∅) = some r := by
  have hiff := serveAll_assigned_iff hvmid hnodup (order sr.pci) [] (fun _ => ∅)
  simp only [keysOf, List.map_nil, mark_nil] at hiff
  obtain ⟨hnone, hsome⟩ := add_eq m sr
  constructor
  · rintro ⟨devs', m', hadd⟩
    rcases hserve : serveAll sr (order sr.pci) ⟨m, fun _ => ∅⟩ with _ | ⟨outcome, ds, a'⟩
    · rw [hnone hserve] at hadd
      exact absurd hadd (by simp)
    · obtain ⟨devs'', hadd', -⟩ := hsome _ _ _ hserve
      rw [hadd, Option.some.injEq, Prod.mk.injEq] at hadd'
      rw [← hadd'.1] at hserve
      obtain ⟨picks, hfit, haddress, -⟩ := (hiff ds a').mp hserve
      exact ⟨picks, hfit, _, haddress⟩
  · rintro ⟨picks, hfit, ⟨ds, palloc'⟩, haddress⟩
    have hserve := (hiff ds ⟨_, palloc'⟩).mpr ⟨picks, hfit, haddress, rfl⟩
    obtain ⟨devs', hadd, -⟩ := hsome _ _ _ hserve
    exact ⟨devs', _, hadd⟩

/-- **When a request gets no address**: the requests up to it have got their first choice. -/
theorem serveAll_noAddress {sr : PciCapacity} (hvmid : sr.vmid ≠ -1) {m : PciMap}
    (hnodup : m.keys.Nodup) (devs : List PciAttribute) :
    ∀ (earlier : List Entry) (palloc : PortAlloc) (ds : List PciAttribute) (a' : Assign),
      serveAll sr devs ⟨mark sr.vmid (keysOf earlier) m, palloc⟩ = some (.noAddress, ds, a') →
        ∃ served picks, served <+: devs ∧ FirstFit addFree m served earlier picks ∧
          addressAll sr (served.zip (picks.map Prod.snd)) palloc = none := by
  induction devs with
  | nil => exact fun _ _ _ _ h => absurd h (by simp [serveAll])
  | cons device devs ih =>
    intro earlier palloc ds a' h
    rw [serveAll] at h
    by_cases hfound : ∃ k d, pick (choice device) (mark sr.vmid (keysOf earlier) m) = .found k d
    · obtain ⟨k, d, hpick⟩ := hfound
      have hfirst := (pick_mark_iff hvmid earlier m device k d).mp hpick
      have hgiven : Given sr device ⟨mark sr.vmid (keysOf earlier) m, palloc⟩ k d _ :=
        serve_found hpick
      rcases hgiven with ⟨haddress, hserve⟩ | ⟨hno, -⟩
      · rw [hserve] at h
        obtain ⟨⟨o, ds', a''⟩, htail, heq⟩ := Option.map_eq_some_iff.mp h
        rw [Prod.mk.injEq, Prod.mk.injEq] at heq
        obtain ⟨rfl, -, rfl⟩ := heq
        rw [mark_given hnodup sr.vmid earlier (e := (k, d)) hfirst.mem] at htail
        obtain ⟨served, picks, hprefix, hfit, hnone⟩ := ih _ _ _ _ htail
        refine ⟨device :: served, (k, d) :: picks, List.cons_prefix_cons.mpr ⟨rfl, hprefix⟩,
          ⟨hfirst, hfit⟩, ?_⟩
        rw [List.map_cons, List.zip_cons_cons, addressAll]
        dsimp only at haddress hnone ⊢
        rw [if_pos haddress, hnone]
        rfl
      · exact ⟨[device], [(k, d)], List.cons_prefix_cons.mpr ⟨rfl, List.nil_prefix⟩,
          ⟨hfirst, rfl⟩, if_neg hno⟩
    · have hnot : serve sr device ⟨mark sr.vmid (keysOf earlier) m, palloc⟩ = none ∨ _ :=
        serve_not_found (fun k d hp => hfound ⟨k, d, hp⟩)
      rcases hnot with hserve | hserve
      · rw [hserve] at h
        exact absurd h (by simp)
      · rw [hserve] at h
        exact absurd h (by simp)

theorem add_noAddress {sr : PciCapacity} (hvmid : sr.vmid ≠ -1) {m m' : PciMap}
    (hnodup : m.keys.Nodup) {devs' : List PciAttribute}
    (h : add m sr = some (.noAddress, devs', m')) :
    ∃ served picks, served <+: order sr.pci ∧ FirstFit addFree m served [] picks ∧
      addressAll sr (served.zip (picks.map Prod.snd)) (fun _ => ∅) = none := by
  have hserved := serveAll_noAddress hvmid hnodup (order sr.pci) [] (fun _ => ∅)
  rw [keysOf, List.map_nil, mark_nil] at hserved
  obtain ⟨hnone, hsome⟩ := add_eq m sr
  rcases hserve : serveAll sr (order sr.pci) ⟨m, fun _ => ∅⟩ with _ | ⟨outcome, ds, a'⟩
  · rw [hnone hserve] at h
    exact absurd h (by simp)
  · obtain ⟨devs'', hadd', -⟩ := hsome _ _ _ hserve
    rw [h, Option.some.injEq, Prod.mk.injEq] at hadd'
    rw [← hadd'.1] at hserve
    exact hserved ds a' hserve

/-- What `add` leaves when it succeeds. -/
theorem add_assigned {sr : PciCapacity} (hvmid : sr.vmid ≠ -1) {m m' : PciMap}
    (hnodup : m.keys.Nodup) {devs' : List PciAttribute}
    (h : add m sr = some (.assigned, devs', m')) :
    ∃ picks ds palloc', FirstFit addFree m (order sr.pci) [] picks ∧
      addressAll sr ((order sr.pci).zip (picks.map Prod.snd)) (fun _ => ∅) = some (ds, palloc') ∧
      devs'.Perm ds ∧ m' = mark sr.vmid (keysOf picks) m := by
  have hiff := serveAll_assigned_iff hvmid hnodup (order sr.pci) [] (fun _ => ∅)
  simp only [keysOf, List.map_nil, mark_nil] at hiff
  obtain ⟨hnone, hsome⟩ := add_eq m sr
  rcases hserve : serveAll sr (order sr.pci) ⟨m, fun _ => ∅⟩ with _ | ⟨outcome, ds, a'⟩
  · rw [hnone hserve] at h
    exact absurd h (by simp)
  · obtain ⟨devs'', hadd', hperm⟩ := hsome _ _ _ hserve
    rw [h, Option.some.injEq, Prod.mk.injEq, Prod.mk.injEq] at hadd'
    obtain ⟨rfl, rfl, rfl⟩ := hadd'
    obtain ⟨picks, hfit, haddress, hmap⟩ := (hiff ds a').mp hserve
    exact ⟨picks, ds, a'.palloc, hfit, haddress, hperm rfl, hmap⟩

end HostSharePCI
