import Esme.Driver.Ioctl

/-! `rpmsg_esme_probe` and `rpmsg_esme_remove`, and what the kernel has registered for them. -/

namespace Esme

/-- An error number of the kernel. -/
structure Errno where
  value : Nat
  pos : 0 < value := by decide
  deriving DecidableEq

/-- What a call that fails with an error returns. -/
def Errno.toInt (errno : Errno) : Int := -errno.value

/-- `rpmsg_driver_esme_id_table` -/
inductive Channel where
  /-- `rpmsg-openamp-esme-channel` -/
  | esmeChannel
  /-- `rpmsg-openamp-esme-channel-1` -/
  | esmeChannel1
  deriving DecidableEq

/-- A device of the rpmsg bus, by its channel and a number of its own. -/
structure RpmsgDevice where
  channel : Channel
  number : Nat
  deriving DecidableEq

/-- `rpmsg_class`: unset, an error pointer, or a class. -/
inductive ClassPointer where
  | null
  | error (errno : Errno)
  | created (number : Nat)
  deriving DecidableEq

/--
`rpmsg_cdev`: whether it has been initialised, and the number it was last added under.

Its reference count and its list of inodes, which `cdev_init` clears too, are left out.
-/
structure Cdev where
  initialised : Bool
  dev : Nat
  deriving DecidableEq

/-- What the kernel has registered for the driver; device numbers are natural numbers. -/
structure Registered where
  /-- the regions allocated under `DEVICE_NAME` -/
  regions : List Nat
  /-- the device numbers that lead to `rpmsg_cdev` -/
  cdevs : List Nat
  /-- the class of the name `CLASS_NAME`, of which there is at most one -/
  classes : Option Nat
  /-- the device nodes, each with its class and its device number -/
  nodes : List (Nat × Nat)
  deriving DecidableEq

/-- Nothing is registered. -/
def Registered.none : Registered := ⟨[], [], .none, []⟩

/-- The globals that describe what is registered, and those about devices and files. -/
structure Lifecycle where
  registered : Registered
  devNumber : Nat
  rpmsgCdev : Cdev
  rpmsgClass : ClassPointer
  globalRpdev : Option RpmsgDevice
  /-- the devices whose probe returned 0 and which have not been removed since -/
  bound : List RpmsgDevice
  /-- the open files of the character device -/
  files : List Nat
  deriving DecidableEq

/-- The module as it is loaded. -/
def Lifecycle.initial : Lifecycle where
  registered := .none
  devNumber := 0
  rpmsgCdev := ⟨false, 0⟩
  rpmsgClass := .null
  globalRpdev := .none
  bound := []
  files := []

/-- `unregister_chrdev_region(dev_number, 1)` -/
def unregisterChrdevRegion (s : Lifecycle) : Lifecycle :=
  -- The number is the one that `dev_number` holds at the time of the call.
  { s with registered := { s.registered with regions := s.registered.regions.erase s.devNumber } }

/-- `cdev_del(&rpmsg_cdev)`, which unmaps the number the structure holds by now. -/
def cdevDel (s : Lifecycle) : Lifecycle :=
  { s with registered := { s.registered with cdevs := s.registered.cdevs.erase s.rpmsgCdev.dev } }

/-- `class_destroy(rpmsg_class)`, which ignores what is no class. -/
def classDestroy (s : Lifecycle) : Lifecycle :=
  match s.rpmsgClass with
  | .created number =>
    if s.registered.classes = some number then
      { s with registered := { s.registered with classes := .none } }
    else s
  | .null => s
  | .error _ => s

/-- `device_destroy(rpmsg_class, dev_number)` -/
def deviceDestroy (s : Lifecycle) : Lifecycle :=
  -- A node is found by its class and its number, and without a class there is none to find.
  match s.rpmsgClass with
  | .created number =>
    { s with registered := {
      s.registered with nodes := s.registered.nodes.erase (number, s.devNumber) } }
  | .null => s
  | .error _ => s

/-- How the kernel calls of one probe end, each if it is reached. -/
structure ProbeCalls where
  /-- `alloc_chrdev_region`, with the device number it chooses -/
  alloc : Except Errno Nat
  /-- `cdev_add` -/
  cdevAdd : Option Errno
  /-- `class_create`, unless there is a class of the name already -/
  classCreate : Except Errno Nat
  /-- whether `device_create` succeeds, which is not checked -/
  deviceCreate : Bool
  /-- `rpmsg_send` of the initial message -/
  send : Option Errno

/-- `EEXIST` -/
def eexist : Errno := { value := 17 }

/-- `class_create`, which fails while a class of the name exists. -/
def classCreate (s : Lifecycle) (calls : ProbeCalls) : Except Errno Nat :=
  -- Otherwise it succeeds with a number that stands for the class, or fails for its own reasons.
  match s.registered.classes with
  | some _ => .error eexist
  | .none => calls.classCreate

/-- The end of a probe: the class exists, so the node is created and the first message is sent. -/
def finishProbe (s : Lifecycle) (rpdev : RpmsgDevice) (calls : ProbeCalls) (number : Nat) :
    Lifecycle × Int :=
  let nodes :=
    if calls.deviceCreate then (number, s.devNumber) :: s.registered.nodes
    else s.registered.nodes
  let s := { s with
    registered := { s.registered with classes := some number, nodes := nodes }
    rpmsgClass := .created number
    globalRpdev := some rpdev }
  match calls.send with
  -- Nothing that has been registered is given back here.
  | some errno => (s, errno.toInt)
  | .none => (s, 0)

/-- The middle of a probe: the region is allocated, and `dev_number` holds it. -/
def addCdev (s : Lifecycle) (rpdev : RpmsgDevice) (calls : ProbeCalls) : Lifecycle × Int :=
  -- `cdev_add` stores the number in the structure whether it succeeds or not.
  let s := { s with rpmsgCdev := ⟨true, s.devNumber⟩ }
  match calls.cdevAdd with
  | some errno => (unregisterChrdevRegion s, errno.toInt)
  | .none =>
    let s := { s with
      registered := { s.registered with cdevs := s.devNumber :: s.registered.cdevs } }
    match classCreate s calls with
    | .error errno =>
      (unregisterChrdevRegion (cdevDel { s with rpmsgClass := .error errno }), errno.toInt)
    | .ok number => finishProbe s rpdev calls number

/-- `rpmsg_esme_probe`, with the value it returns. -/
def rpmsgEsmeProbe (s : Lifecycle) (rpdev : RpmsgDevice) (calls : ProbeCalls) :
    Lifecycle × Int :=
  match calls.alloc with
  | .error errno => (s, errno.toInt)
  | .ok dev =>
    addCdev { s with
      registered := { s.registered with regions := dev :: s.registered.regions }
      devNumber := dev } rpdev calls

/-- `rpmsg_esme_remove` -/
def rpmsgEsmeRemove (s : Lifecycle) : Lifecycle :=
  -- In the order of the source, from the node to the region.
  unregisterChrdevRegion (cdevDel (classDestroy (deviceDestroy s)))

/-- What the rpmsg bus and the users of the character device do. -/
inductive LifecycleEvent where
  | probe (rpdev : RpmsgDevice) (calls : ProbeCalls)
  | remove (rpdev : RpmsgDevice)
  | openFile (file : Nat)
  | releaseFile (file : Nat)
  /-- a command, or none the driver knows, and whether `copy_from_user` succeeds -/
  | ioctl (file : Nat) (command : Option Command) (copied : Bool)

/-- The device a call of `rpmsg_ioctl` sends to, if it gets so far. -/
def rpmsgIoctlTarget (s : Lifecycle) (command : Option Command) (copied : Bool) :
    Option RpmsgDevice :=
  match s.globalRpdev, command with
  | .none, _ => .none
  | _, .none => .none
  -- Only the command that does not re-initialise the completion copies from the user first.
  | some rpdev, some command => if command.reinits ∨ copied then some rpdev else .none

/-- One event: the state it leaves and the devices it sends to. -/
def lifecycleStep (s : Lifecycle) : LifecycleEvent → Option (Lifecycle × List RpmsgDevice)
  | .probe rpdev calls =>
    -- The bus probes a device that is not bound, and binds it when its probe returns 0.
    if rpdev ∈ s.bound then none
    else
      let (next, err) := rpmsgEsmeProbe s rpdev calls
      some (if err = 0 then { next with bound := rpdev :: next.bound } else next, [])
  | .remove rpdev =>
    if rpdev ∈ s.bound then
      some ({ rpmsgEsmeRemove s with bound := s.bound.erase rpdev }, [])
    else none
  | .openFile file =>
    -- A file can be opened while some device number leads to the driver.
    if s.registered.cdevs ≠ [] then some ({ s with files := file :: s.files }, []) else none
  | .releaseFile file =>
    if file ∈ s.files then some ({ s with files := s.files.erase file }, []) else none
  | .ioctl file command copied =>
    if file ∈ s.files then some (s, (rpmsgIoctlTarget s command copied).toList) else none

/-- The life of the driver, from loading it on. -/
def lifecycle : Transducer Lifecycle LifecycleEvent RpmsgDevice := .guarded lifecycleStep

end Esme
