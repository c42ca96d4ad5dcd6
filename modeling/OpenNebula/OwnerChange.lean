/-
# The change of owner (`src/rm/api/SharedAPI.cc`)

`chown` charges what an object uses to the new owner and group, releases it from the old ones and
writes the new ones in the object.  The object is not locked all the time: it is read once for its owner,
once for what it uses, then the quotas of the new owner and group are charged, one template after the
other, and only then it is locked again, the old owner and group are released, and it is written.  Two
requests for one object are two threads here, and each access to a quota, to the object or to its lock
is one step.

Conventions of the embedding:

* What the quota objects do is `Quota.lean`.  A check that fails leaves the quotas as they are, since
  they are written to the database only after a success.
* The object is given by its owner, its group and what the request reads to compute the templates.
* Authorization and the uniqueness of the name are the flag of an event: they read other data.
* Users and groups are neither created nor deleted; the object is not deleted.
-/
import OpenNebula.QuotaLedger

namespace OwnerChange

/-! ## Accounts and objects -/

/-- A user or a group. -/
inductive Account where
  | user (uid : ℤ)
  | group (gid : ℤ)
  deriving DecidableEq

namespace Account

def id : Account → ℤ
  | user uid => uid
  | group gid => gid

/-- The quotas of the account are used: it is not `oneadmin`, and `-1` stands for no change. -/
def counted (a : Account) : Bool := a.id ≠ QuotaStore.oneadminId && a.id ≠ -1

end Account

/-- A quota template with its type. -/
abbrev Request := QuotaType × QuotaTemplate

/-- A disk of a virtual machine, with its `DATASTORE_ID`. -/
structure VmDisk where
  disk : QuotaDisk
  datastoreId : Text

/-- What a request reads of a virtual machine (whether it is `DONE`, its quota template and its disks), of
an image (`get_ds_id`, `get_size`, the size of the snapshots) or of a network (`get_parent`, `get_size`). -/
inductive Kind where
  | vm (done : Bool) (template : QuotaTemplate) (disks : List VmDisk)
  | image (datastore size snapshots : ℤ)
  | net (parent : ℤ) (size : ℕ)

structure Obj where
  uid : ℤ
  gid : ℤ
  kind : Kind

/-- A template without attributes. -/
def emptyTemplate : QuotaTemplate where
  datastore := []
  images := none
  clusterId := none
  skipGlobalQuota := false
  value := fun _ => none
  nics := []
  disks := []
  snapshots := []

/-- A template with a datastore and a size. -/
def datastoreTemplate (datastore : Text) (size : ℤ) (images : Option ℤ) : QuotaTemplate :=
  { emptyTemplate with
    datastore := datastore
    images := images
    value := fun m => if m = "SIZE".toList then some size else none }

/-- `VirtualMachineDisks::image_ds_quotas`. -/
def imageDsQuotas (disks : List VmDisk) : List QuotaTemplate :=
  (disks.filter fun d => d.disk.imageDsSize ≠ 0).map fun d =>
    datastoreTemplate d.datastoreId d.disk.imageDsSize (some 0)

/-- The templates of an object, in the order in which they are put into `quota_map`: what it uses. -/
def uses : Kind → List Request
  | .vm _ template disks =>
    (.virtualMachine, { template with disks := disks.map VmDisk.disk }) ::
      (imageDsQuotas disks).map fun t => (.datastore, t)
  | .image datastore size snapshots =>
    [(.datastore, datastoreTemplate (intText datastore) (size + snapshots) none)]
  | .net parent size =>
    if parent = -1 then []
    else
      [(.network, { emptyTemplate with
        nics := List.replicate size ⟨intText parent, false, false⟩ })]

/-- The place of a quota type in its enumeration. -/
def rank : QuotaType → ℕ
  | .datastore => 0
  | .vm => 1
  | .network => 2
  | .image => 3
  | .virtualMachine => 4
  | .virtualRouter => 5

/-- `std::map::insert`: a key that is there keeps its value. -/
def insertQuota (m : List Request) (r : Request) : List Request :=
  if r.1 ∈ m.map Prod.fst then m
  else m.orderedInsert (fun r r' => rank r.1 ≤ rank r'.1) r

/-- `quota_map`. -/
def quotaMap (kind : Kind) : List Request := (uses kind).foldl insertQuota []

/-! ## Requests -/

/-- The identifiers of a request; `-1` where nothing changes. -/
structure Chown where
  newUid : ℤ
  newGid : ℤ
  oldUid : ℤ
  oldGid : ℤ

/-- The calls of `quota_rollback` for some templates. -/
def rollbacks (uid gid : ℤ) (rs : List Request) : List (Account × Request) :=
  rs.flatMap fun r => [(.user uid, r), (.group gid, r)]

/-- `set_user` and `set_group`. -/
def Chown.write (c : Chown) (o : Obj) : Obj :=
  { o with
    uid := if c.newUid ≠ -1 then c.newUid else o.uid
    gid := if c.newGid ≠ -1 then c.newGid else o.gid }

/-- Where a thread is. -/
inductive Phase where
  /-- The request with its parameters. -/
  | start (newUid newGid : ℤ)
  /-- `get_and_quota` is called: the object was read, and what stays the same is `-1`. -/
  | named (newUid newGid : ℤ)
  /-- `quota_authorization` for the first template of `todo`; `userDone`: the user is charged. -/
  | charging (c : Chown) (todo : List Request) (userDone : Bool) (done : List Request)
  /-- The group rejected the template `r`: `user_quota_rollback`. -/
  | undoing (c : Chown) (r : Request) (done : List Request)
  /-- The object is locked again; `failed`: a template was rejected. -/
  | retaking (c : Chown) (failed : Bool) (done : List Request)
  /-- The rollbacks, of the new owner after a failure and of the old one after a success, and the end. -/
  | releasing (c : Chown) (success : Bool) (ops : List (Account × Request))
  | ended (success : Bool)

/-- The quotas of the users and groups, the object, who has its lock, and the two requests. -/
structure State where
  quotas : Account → Option Quotas
  obj : Option Obj
  lock : Option Bool
  phase : Bool → Phase

section Step

variable (C : QuotasConf) (defaults : Account → Quotas)

/-- `user_quota_authorization` and `group_quota_authorization`; `none` for a rejection. -/
def quotaAuthorization (a : Account) (r : Request) (quotas : Account → Option Quotas) :
    Option (Account → Option Quotas) :=
  if a.counted then
    match quotas a with
    | none => none
    | some q =>
      match Quotas.quotaCheck C r.1 r.2 (defaults a) q with
      | (none, q') => some (Function.update quotas a (some q'))
      | (some _, _) => none
  else some quotas

/-- `user_quota_rollback` and `group_quota_rollback`. -/
def quotaRollback (a : Account) (r : Request) (quotas : Account → Option Quotas) :
    Account → Option Quotas :=
  if a.counted then
    match quotas a with
    | none => quotas
    | some q => Function.update quotas a (some (Quotas.quotaDel C r.1 r.2 q))
  else quotas

namespace State

def goto (s : State) (t : Bool) (p : Phase) : State := { s with phase := Function.update s.phase t p }

/-- The new user and the new group exist, where the parameter is an identifier. -/
def isKnown (s : State) (newUid newGid : ℤ) : Bool :=
  (newUid ≤ -1 || (s.quotas (.user newUid)).isSome) &&
    (newGid ≤ -1 || (s.quotas (.group newGid)).isSome)

/-- The object is read for its owner and group. -/
def readOwner (s : State) (t : Bool) (newUid newGid : ℤ) (authorized : Bool) : State :=
  match s.obj with
  | none => s.goto t (.ended false)
  | some o =>
    if s.isKnown newUid newGid && authorized then
      s.goto t (.named (if newUid = o.uid then -1 else newUid) (if newGid = o.gid then -1 else newGid))
    else s.goto t (.ended false)

/-- The object is read for what it uses.  A network that is not a reservation stays locked. -/
def readUsage (s : State) (t : Bool) (newUid newGid : ℤ) : State :=
  match s.obj with
  | none => s.goto t (.ended false)
  | some o =>
    let c : Chown := ⟨newUid, newGid, if newUid = -1 then -1 else o.uid,
      if newGid = -1 then -1 else o.gid⟩
    let charge := s.goto t (.charging c (quotaMap o.kind) false [])
    match o.kind with
    | .vm done _ _ => if done then s.goto t (.ended false) else charge
    | .image _ _ _ => charge
    | .net parent _ =>
      if parent = -1 then { s.goto t (.releasing c true []) with lock := some t } else charge

/-- The object is locked, for the rollbacks. -/
def retake (s : State) (t : Bool) (c : Chown) (failed : Bool) (done : List Request) : State :=
  if s.obj.isNone || failed then
    { s.goto t (.releasing c false (rollbacks c.newUid c.newGid done)) with lock := some t }
  else
    { s.goto t (.releasing c true (rollbacks c.oldUid c.oldGid done)) with lock := some t }

/-- The object is written and unlocked. -/
def finish (s : State) (t : Bool) (c : Chown) (success : Bool) : State :=
  { s.goto t (.ended success) with
    obj := if success then s.obj.map c.write else s.obj
    lock := none }

/-- One step of a thread; the lock of the object has to be free to get the object. -/
def advance (s : State) (t : Bool) (authorized : Bool) : Phase → Option State
  | .start newUid newGid => some (s.readOwner t newUid newGid authorized)
  | .named newUid newGid => if s.lock = none then some (s.readUsage t newUid newGid) else none
  | .charging c [] _ done => some (s.goto t (.retaking c false done))
  | .charging c (r :: todo) false done =>
    match quotaAuthorization C defaults (.user c.newUid) r s.quotas with
    | none => some (s.goto t (.retaking c true done))
    | some quotas => some { s.goto t (.charging c (r :: todo) true done) with quotas := quotas }
  | .charging c (r :: todo) true done =>
    match quotaAuthorization C defaults (.group c.newGid) r s.quotas with
    | none => some (s.goto t (.undoing c r done))
    | some quotas => some { s.goto t (.charging c todo false (done ++ [r])) with quotas := quotas }
  | .undoing c r done =>
    some { s.goto t (.retaking c true done) with
      quotas := quotaRollback C (.user c.newUid) r s.quotas }
  | .retaking c failed done => if s.lock = none then some (s.retake t c failed done) else none
  | .releasing c success ((a, r) :: ops) =>
    some { s.goto t (.releasing c success ops) with quotas := quotaRollback C a r s.quotas }
  | .releasing c success [] => some (s.finish t c success)
  | .ended _ => none

end State

/-- One step of one of the threads. -/
def step (s : State) (e : Bool × Bool) : Option State := s.advance C defaults e.1 e.2 (s.phase e.1)

end Step

/-! ## Conservation -/

/-- The account is the owner or the group of the object. -/
def owns : Option Obj → Account → Prop
  | none, _ => False
  | some o, a => a = .user o.uid ∨ a = .group o.gid

instance (o : Option Obj) (a : Account) : Decidable (owns o a) :=
  match o with
  | none => isFalse fun h => h
  | some o => inferInstanceAs (Decidable (a = .user o.uid ∨ a = .group o.gid))

/-- The templates of the object of a state. -/
def State.uses (s : State) : List Request := (s.obj.map fun o => OwnerChange.uses o.kind).getD []

/-- What the account has for the object if it owns it. -/
def portion (x : ℚ) (o : Option Obj) (a : Account) : ℚ := if owns o a then x else 0

/-- **Conservation.**  The usage of the account has changed by what the object uses, if its ownership of
the object has changed, and not at all otherwise: in all the quotas and in every cluster quota that is
there before and afterwards. -/
def Conserved (C : QuotasConf) (s s' : State) (a : Account) : Prop :=
  match s.quotas a, s'.quotas a with
  | none, none => True
  | some q, some q' =>
    (∀ n id m, m ∈ (C.kind n).metrics → (n = .vm → id = []) →
      let x := (s.uses.map fun r => QuotaAccount.charged C r n id m).sum
      Quotas.usage C q' n id m + portion x s.obj a = Quotas.usage C q n id m + portion x s'.obj a) ∧
    ∀ ids e e' m, ids ≠ [] → m ∈ (C.kind .vm).metrics →
      KeyedList.find (C.kind .vm).keyOf (q .vm) ids = some e →
      KeyedList.find (C.kind .vm).keyOf (q' .vm) ids = some e' →
      let x := (s.uses.map fun r => QuotaAccount.clusterCharged C r ids m).sum
      e'.used m + portion x s.obj a = e.used m + portion x s'.obj a
  | _, _ => False

/-- Both requests have ended. -/
def State.Ended (s : State) : Prop := ∀ t, ∃ success, s.phase t = .ended success

end OwnerChange
