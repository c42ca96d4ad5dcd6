/-
# The text of the CPUs of a core

The CPUs of a core are stored as one text (`Core::to_attribute`) that is read back by the constructor
of the core.  A part of the text is read back as it was written (`readThread_threadText`); a list of
parts is read in its order (`parts_intercalate`).  The core that is read back has the same CPUs and the
same reserved CPUs; the machines on a reserved CPU are not written and are lost (`new_toAttribute`).
-/
import OpenNebula.HostShareNUMA

open TextNumber TextList

namespace NumaText

/-! ## Parts with commas between them -/

/-- **The parts of a text are the ones that were put together.** -/
theorem parts_intercalate {parts : List Text} (hne : ∀ part ∈ parts, part ≠ [])
    (hcomma : ∀ part ∈ parts, ',' ∉ part) :
    (([','].intercalate parts).splitOn ',').filter (fun part => !part.isEmpty) = parts := by
  by_cases hnil : parts = []
  · subst hnil
    decide
  · rw [List.splitOn_intercalate ',' hcomma hnil, List.filter_eq_self]
    intro part hpart
    simpa using hne part hpart

theorem digit_ne {n : ℕ} {ch c : Char} (hch : ch ∈ Nat.toDigits 10 n) (hc : isDigitOf 10 c = false) :
    ch ≠ c := by
  rintro rfl
  rw [isDigitOf_toDigits (by norm_num) (by norm_num) n ch hch] at hc
  exact absurd hc (by decide)

theorem getUnsigned_toDigits {n : ℕ} (hn : n < 2 ^ 32) {rest : Text}
    (hrest : ∀ c ∈ rest.head?, isDigitOf 10 c = false ∧ c ≠ 'x' ∧ c ≠ 'X') :
    getUnsigned 10 32 (Nat.toDigits 10 n ++ rest) = ⟨true, n, rest⟩ := by
  have hval : valueOf 10 (Nat.toDigits 10 n) = n := valueOf_toDigits (by norm_num) (by norm_num) n
  rw [getUnsigned_digits Nat.toDigits_ne_nil (isDigitOf_toDigits (by norm_num) (by norm_num) n) hrest
    (by rwa [hval]), hval]

/-- **A list of 32-bit numbers is read back as it was written.** -/
theorem splitIds_idsText {ids : List ℕ} (hids : ∀ id ∈ ids, id < 2 ^ 32) :
    splitIds (idsText ids) = ids := by
  unfold splitIds idsText
  rw [parts_intercalate]
  · rw [List.filterMap_map]
    have hread : ∀ id ∈ ids, ((fun part : Text =>
        let e := getUnsigned 10 32 part
        if e.ok then some e.value else none) ∘ Nat.toDigits 10) id = some id := by
      intro id hid
      have h : getUnsigned 10 32 (Nat.toDigits 10 id ++ []) = ⟨true, id, []⟩ :=
        getUnsigned_toDigits (hids id hid) (by simp)
      rw [List.append_nil] at h
      dsimp only [Function.comp]
      rw [h]
      rfl
    rw [List.filterMap_congr hread, List.filterMap_some]
  · intro part hpart
    obtain ⟨id, -, rfl⟩ := List.mem_map.mp hpart
    exact Nat.toDigits_ne_nil
  · intro part hpart hcomma
    obtain ⟨id, -, rfl⟩ := List.mem_map.mp hpart
    exact digit_ne hcomma (by decide) rfl

end NumaText

namespace Core

open NumaText

/-! ## One CPU and one machine -/

theorem getSigned_space (t : Text) : getSigned 10 32 (' ' :: t) = getSigned 10 32 t := by
  unfold getSigned
  rw [show skipWs (' ' :: t) = skipWs t from List.dropWhile_cons_of_pos (by decide)]

theorem threadText_eq (cpuId : ℕ) (vmId : ℤ) :
    (threadText cpuId vmId).map (fun ch => if ch = ':' then ' ' else ch) =
      Nat.toDigits 10 cpuId ++ ' ' :: intText vmId := by
  have hsame : ∀ t : Text, (∀ ch ∈ t, ch ≠ ':') →
      t.map (fun ch => if ch = ':' then ' ' else ch) = t := by
    intro t ht
    calc t.map (fun ch => if ch = ':' then ' ' else ch) = t.map id :=
          List.map_congr_left fun ch hch => if_neg (ht ch hch)
      _ = t := List.map_id t
  rw [threadText, List.map_append, List.map_append,
    hsame _ fun ch hch => digit_ne hch (by decide), hsame (intText vmId), List.append_assoc]
  · rfl
  · intro ch hch
    rcases mem_intText hch with rfl | hdigit
    · decide
    · rintro rfl
      exact absurd hdigit (by decide)

/-- **A CPU and a machine are read back as they were written.** -/
theorem readThread_threadText {cpuId : ℕ} {vmId : ℤ} (hcpu : cpuId < 2 ^ 32) (hvm : IsInt vmId) :
    readThread (threadText cpuId vmId) = some (cpuId, vmId) := by
  have hrest : ∀ c ∈ (' ' :: intText vmId).head?, isDigitOf 10 c = false ∧ c ≠ 'x' ∧ c ≠ 'X' := by
    intro c hc
    obtain rfl : ' ' = c := by simpa using hc
    decide
  unfold readThread
  rw [threadText_eq, getUnsigned_toDigits hcpu hrest]
  dsimp only
  rw [getSigned_space, getSigned_intText hvm]
  rfl

theorem threadText_ne_nil (cpuId : ℕ) (vmId : ℤ) : threadText cpuId vmId ≠ [] := by
  intro hnil
  rw [threadText, List.append_assoc] at hnil
  exact Nat.toDigits_ne_nil (List.append_eq_nil_iff.mp hnil).1

theorem comma_notMem_threadText (cpuId : ℕ) (vmId : ℤ) : ',' ∉ threadText cpuId vmId := by
  intro hmem
  rcases List.mem_append.mp hmem with hmem | hmem
  · rcases List.mem_append.mp hmem with hmem | hmem
    · exact digit_ne hmem (by decide) rfl
    · exact absurd hmem (by decide)
  · exact comma_notMem_intText vmId hmem

/-! ## The parts of one CPU -/

section Parts

variable {c : Core} {id : ℕ}

/-- A machine is read for a CPU. -/
theorem addThread_vm (hid : id < 2 ^ 32) {vm : ℕ} (hvm : vm < 2 ^ 31) :
    c.addThread (threadText id vm) =
      { c with cpus := OrderedMap.alter id (fun o => vm ::ₘ o.getD 0) c.cpus } := by
  unfold addThread
  rw [readThread_threadText hid ⟨by omega, by omega⟩]
  dsimp only
  rw [if_pos (by omega), Int.toNat_natCast]

theorem foldl_addThread_vms (hid : id < 2 ^ 32) (hlast : ∀ e ∈ c.cpus, e.1 < id) {vms : List ℕ}
    (hvms : ∀ vm ∈ vms, vm < 2 ^ 31) : ∀ b : Multiset ℕ,
    (vms.map fun vm : ℕ => threadText id vm).foldl addThread
        { c with cpus := c.cpus ++ [(id, b)] } =
      { c with cpus := c.cpus ++ [(id, (vms : Multiset ℕ) + b)] } := by
  induction vms with
  | nil =>
    intro b
    rw [Multiset.coe_nil, zero_add]
    rfl
  | cons vm vms ih =>
    intro b
    have hvms' := List.forall_mem_cons.mp hvms
    rw [List.map_cons, List.foldl_cons, addThread_vm hid hvms'.1]
    dsimp only
    rw [OrderedMap.alter_concat_last hlast, ih hvms'.2, Option.getD_some, Multiset.add_cons,
      ← Multiset.cons_coe, Multiset.cons_add]

/-- A CPU that is read back: the machines of a reserved one are lost. -/
def stored (reserved : Finset ℕ) (cpu : ℕ × Multiset ℕ) : ℕ × Multiset ℕ :=
  (cpu.1, if cpu.1 ∈ reserved then 0 else cpu.2)

/-- The text of the next CPU is read. -/
theorem foldl_addThread_cpu {reserved : Finset ℕ} {cpu : ℕ × Multiset ℕ} (hid : cpu.1 < 2 ^ 32)
    (hvms : ∀ vm ∈ cpu.2, vm < 2 ^ 31) (hlast : ∀ e ∈ c.cpus, e.1 < cpu.1) :
    (cpuTexts reserved cpu).foldl addThread c =
      { c with
        cpus := c.cpus ++ [stored reserved cpu]
        reservedCpus :=
          if cpu.1 ∈ reserved then insert cpu.1 c.reservedCpus else c.reservedCpus } := by
  unfold cpuTexts stored
  split_ifs with hreserved hempty
  · rw [List.foldl_cons, List.foldl_nil]
    unfold addThread
    rw [readThread_threadText hid (by decide)]
    dsimp only
    rw [if_neg (by decide), if_pos rfl, OrderedMap.alter_concat_new hlast]
    rfl
  · rw [List.foldl_cons, List.foldl_nil]
    unfold addThread
    rw [readThread_threadText hid (by decide)]
    dsimp only
    rw [if_neg (by decide), if_neg (by decide), OrderedMap.alter_concat_new hlast, hempty]
    rfl
  · have hsort : (cpu.2.sort (· ≤ ·) : Multiset ℕ) = cpu.2 := Multiset.sort_eq cpu.2 _
    have hne : cpu.2.sort (· ≤ ·) ≠ [] := by
      intro hnil
      rw [← hsort, hnil, Multiset.coe_nil] at hempty
      exact hempty rfl
    obtain ⟨vm, vms, hcons⟩ := List.exists_cons_of_ne_nil hne
    have hvms' : ∀ x ∈ vm :: vms, x < 2 ^ 31 := by
      intro x hx
      rw [← hcons, Multiset.mem_sort] at hx
      exact hvms x hx
    have hvms'' := List.forall_mem_cons.mp hvms'
    rw [hcons, List.map_cons, List.foldl_cons, addThread_vm hid hvms''.1,
      OrderedMap.alter_concat_new hlast, foldl_addThread_vms hid hlast hvms''.2, Option.getD_none,
      ← hsort, hcons, Multiset.add_cons, add_zero, Multiset.cons_coe]

end Parts

/-! ## All the parts -/

/-- The CPUs of a core are in their order, reserved CPUs are among them, and the numbers fit their
types. -/
structure Formed (cpus : OrderedMap ℕ (Multiset ℕ)) (reserved : Finset ℕ) : Prop where
  sorted : cpus.Sorted
  ids : ∀ cpu ∈ cpus, cpu.1 < 2 ^ 32
  vms : ∀ cpu ∈ cpus, ∀ vm ∈ cpu.2, vm < 2 ^ 31
  reserved : ∀ id ∈ reserved, id ∈ cpus.keys

/-- The texts of all the CPUs are read one after the other. -/
theorem foldl_addThread_cpus (reserved : Finset ℕ) (cpus : OrderedMap ℕ (Multiset ℕ)) :
    ∀ c : Core, cpus.Sorted → (∀ cpu ∈ cpus, cpu.1 < 2 ^ 32) →
      (∀ cpu ∈ cpus, ∀ vm ∈ cpu.2, vm < 2 ^ 31) →
      (∀ e ∈ c.cpus, ∀ cpu ∈ cpus, e.1 < cpu.1) →
      (cpus.flatMap (cpuTexts reserved)).foldl addThread c =
        { c with
          cpus := c.cpus ++ cpus.map (stored reserved)
          reservedCpus := c.reservedCpus ∪ (cpus.keys.filter (· ∈ reserved)).toFinset } := by
  induction cpus with
  | nil =>
    intro c _ _ _ _
    rw [List.map_nil, List.append_nil]
    exact congrArg (fun r => { c with reservedCpus := r }) (Finset.union_empty _).symm
  | cons cpu cpus ih =>
    intro c hsorted hids hvms hlast
    obtain ⟨hhead, htail⟩ := List.pairwise_cons.mp hsorted
    have hids' := List.forall_mem_cons.mp hids
    have hvms' := List.forall_mem_cons.mp hvms
    rw [List.flatMap_cons, List.foldl_append,
      foldl_addThread_cpu hids'.1 hvms'.1 fun e he => hlast e he cpu List.mem_cons_self,
      ih _ htail hids'.2 hvms'.2]
    · have hkeys : (OrderedMap.keys (cpu :: cpus)).filter (· ∈ reserved) =
          if cpu.1 ∈ reserved then cpu.1 :: (OrderedMap.keys cpus).filter (· ∈ reserved)
          else (OrderedMap.keys cpus).filter (· ∈ reserved) := by
        rw [OrderedMap.keys, List.map_cons, List.filter_cons]
        simp only [decide_eq_true_eq]
        rfl
      rw [hkeys, List.append_assoc]
      split_ifs
      · rw [List.toFinset_cons, Finset.insert_union, Finset.union_insert]
        rfl
      · rfl
    · intro e he x hx
      rcases List.mem_append.mp he with he | he
      · exact hlast e he x (List.mem_cons_of_mem _ hx)
      · rw [List.mem_singleton.mp he]
        exact hhead x hx

/-- **The text of a core is read back with its CPUs and its reserved CPUs; the machines of reserved
CPUs are lost.** -/
theorem new_toAttribute {c : Core} (h : Formed c.cpus c.reservedCpus) (id vmsThread : ℕ)
    (dedicated : Bool) :
    new (c.toAttribute id).cpus vmsThread dedicated =
      (Core.mk 0 0 vmsThread dedicated (c.cpus.map (stored c.reservedCpus))
        c.reservedCpus).setCpuUsage := by
  have hall : ∀ part ∈ c.cpus.flatMap (cpuTexts c.reservedCpus),
      ∃ cpuId vmId, part = threadText cpuId vmId := by
    intro part hpart
    obtain ⟨cpu, -, hpart⟩ := List.mem_flatMap.mp hpart
    unfold cpuTexts at hpart
    split_ifs at hpart
    · exact ⟨_, _, List.mem_singleton.mp hpart⟩
    · exact ⟨_, _, List.mem_singleton.mp hpart⟩
    · obtain ⟨vm, -, rfl⟩ := List.mem_map.mp hpart
      exact ⟨_, _, rfl⟩
  have hreserved : (c.cpus.keys.filter (· ∈ c.reservedCpus)).toFinset = c.reservedCpus := by
    ext x
    rw [List.mem_toFinset, List.mem_filter, decide_eq_true_eq]
    exact ⟨fun hx => hx.2, fun hx => ⟨h.reserved x hx, hx⟩⟩
  unfold new toAttribute
  dsimp only
  rw [parts_intercalate, foldl_addThread_cpus c.reservedCpus c.cpus _ h.sorted h.ids h.vms]
  · dsimp only
    rw [List.nil_append, Finset.empty_union, hreserved]
  · exact fun e he => absurd he List.not_mem_nil
  · intro part hpart
    obtain ⟨cpuId, vmId, rfl⟩ := hall part hpart
    exact threadText_ne_nil cpuId vmId
  · intro part hpart
    obtain ⟨cpuId, vmId, rfl⟩ := hall part hpart
    exact comma_notMem_threadText cpuId vmId

/-! ## What the constructor reads -/

theorem formed_nil : Formed [] ∅ :=
  ⟨List.Pairwise.nil, fun _ h => absurd h List.not_mem_nil, fun _ h => absurd h List.not_mem_nil,
    fun _ h => absurd h (Finset.notMem_empty _)⟩

theorem readThread_bounds {thread : Text} {cpuId : ℕ} {vmId : ℤ}
    (h : readThread thread = some (cpuId, vmId)) : cpuId < 2 ^ 32 ∧ vmId < 2 ^ 31 := by
  unfold readThread at h
  dsimp only at h
  split_ifs at h
  · obtain ⟨rfl, rfl⟩ := Prod.mk.inj (Option.some.inj h)
    exact ⟨getUnsigned_lt 10 32 _, (getSigned_bounds 10 32 _).2⟩
  · obtain ⟨rfl, rfl⟩ := Prod.mk.inj (Option.some.inj h)
    exact ⟨getUnsigned_lt 10 32 _, by norm_num⟩

/-- A CPU is made or changed. -/
theorem Formed.alter {cpus : OrderedMap ℕ (Multiset ℕ)} {reserved : Finset ℕ} (h : Formed cpus reserved)
    {cpuId : ℕ} (hid : cpuId < 2 ^ 32) {f : Option (Multiset ℕ) → Multiset ℕ}
    (hf : ∀ o : Option (Multiset ℕ), ∀ vm ∈ f o, vm < 2 ^ 31 ∨ vm ∈ o.getD 0) :
    Formed (OrderedMap.alter cpuId f cpus) reserved where
  sorted := h.sorted.alter
  ids := by
    intro cpu hcpu
    rcases OrderedMap.mem_alter hcpu with hcpu | rfl | ⟨b, -, rfl⟩
    · exact h.ids cpu hcpu
    · exact hid
    · exact hid
  vms := by
    intro cpu hcpu vm hvm
    rcases OrderedMap.mem_alter hcpu with hcpu | rfl | ⟨b, hb, rfl⟩
    · exact h.vms cpu hcpu vm hvm
    · rcases hf none vm hvm with hlt | hmem
      · exact hlt
      · exact absurd hmem (Multiset.notMem_zero vm)
    · rcases hf (some b) vm hvm with hlt | hmem
      · exact hlt
      · exact h.vms _ hb vm hmem
  reserved := fun id hmem => OrderedMap.mem_keys_alter (Or.inr (h.reserved id hmem))

theorem formed_addThread {c : Core} (h : Formed c.cpus c.reservedCpus) (thread : Text) :
    Formed (c.addThread thread).cpus (c.addThread thread).reservedCpus := by
  unfold addThread
  split
  · exact h
  · rename_i cpuId vmId hread
    obtain ⟨hid, hvm⟩ := readThread_bounds hread
    split_ifs with hpos hres
    · refine h.alter hid fun o vm hmem => ?_
      rcases Multiset.mem_cons.mp hmem with rfl | hmem
      · exact Or.inl (by omega)
      · exact Or.inr hmem
    · have hcpus := h.alter hid (f := fun o => o.getD 0) fun o vm hmem => Or.inr hmem
      refine ⟨hcpus.sorted, hcpus.ids, hcpus.vms, fun x hx => ?_⟩
      rcases Finset.mem_insert.mp hx with rfl | hx
      · exact OrderedMap.mem_keys_alter (Or.inl rfl)
      · exact hcpus.reserved x hx
    · exact h.alter hid fun o vm hmem => Or.inr hmem

end Core
