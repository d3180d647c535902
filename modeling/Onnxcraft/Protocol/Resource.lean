import Onnxcraft.Effect.Total
import Onnxcraft.Model.Ops
import Mathlib.Algebra.Order.Group.Multiset

/-!
# Native resources

What a native call acquires and what it releases. A trace acquires and releases what its calls do;
`OcRuntime.resources` and `OcSession.resources` are what the two C structures own.
-/

namespace Onnxcraft

open Effect

/-- A native object that someone must release, by the function that releases it. -/
inductive Resource where
  | mem (p : Handle)
  | library (h : Handle)
  | env (h : Handle)
  | memoryInfo (h : Handle)
  | status (h : Handle)
  | sessionOptions (h : Handle)
  | cudaOptions (h : Handle)
  | tensorRTOptions (h : Handle)
  | session (h : Handle)
  | name (h : Handle)
  | typeInfo (h : Handle)
  | runOptions (h : Handle)
  | value (h : Handle)
  deriving DecidableEq, Repr

/-- What an optional resource amounts to. -/
def owned {α : Type} (f : α → Resource) (o : Option α) : Multiset Resource :=
  o.elim 0 fun a => {f a}

@[simp] theorem owned_none {α : Type} (f : α → Resource) : owned f none = 0 := rfl
@[simp] theorem owned_some {α : Type} (f : α → Resource) (a : α) : owned f (some a) = {f a} := rfl

/-- What a fallible call acquires: the object, or the status. -/
def fallible {α : Type} (f : α → Resource) : Fallible α → Multiset Resource
  | .ok a => {f a}
  | .error st => {.status st.addr}

/-- What a call acquires whose only object is the status of its failure. -/
def failing {α : Type} : Fallible α → Multiset Resource
  | .ok _ => 0
  | .error st => {.status st.addr}

@[simp] theorem fallible_ok {α : Type} (f : α → Resource) (a : α) :
    fallible f (.ok a) = {f a} := rfl
@[simp] theorem fallible_error {α : Type} (f : α → Resource) (st : OrtStatus) :
    fallible f (.error st) = {.status st.addr} := rfl
@[simp] theorem failing_ok {α : Type} (a : α) : failing (.ok a) = 0 := rfl
@[simp] theorem failing_error {α : Type} (st : OrtStatus) :
    failing (.error st : Fallible α) = {.status st.addr} := rfl

/-- The values in a table of slots. -/
def slotValues (slots : List (Option Handle)) : Multiset Resource :=
  total (owned Resource.value) slots

namespace NativeOp

/-- What a native call acquires, by its answer. -/
def acquires : (o : NativeOp) → o.Resp → Multiset Resource
  | .malloc _, p | .calloc _ _, p | .strdup _, p => owned .mem p
  | .cString _, p => {.mem p}
  | .dlopen _, p => owned .library p
  | .createEnv, r => fallible .env r
  | .createCpuMemoryInfo, r => fallible .memoryInfo r
  | .createStatus _ _, st => {.status st.addr}
  | .createSessionOptions, r => fallible .sessionOptions r
  | .createCUDAProviderOptions, r => fallible .cudaOptions r
  | .createTensorRTProviderOptions, r => fallible .tensorRTOptions r
  | .createSession _ _ _, r | .createSessionFromArray _ _ _, r => fallible .session r
  | .sessionGetInputName _ _, r | .sessionGetOutputName _ _, r => fallible (.name ·.addr) r
  | .sessionGetInputTypeInfo _ _, r | .sessionGetOutputTypeInfo _ _, r => fallible .typeInfo r
  | .createRunOptions, r => fallible .runOptions r
  | .createTensorWithDataAsOrtValue _ _ _ _ _ _, r => fallible .value r
  | .run _ _ _ _ _ _, reply => owned (.status ·.addr) reply.status + slotValues reply.filled
  | .disableTelemetryEvents _, r | .setIntraOpNumThreads _ _, r | .setInterOpNumThreads _ _, r
  | .setSessionExecutionMode _ _, r | .setSessionGraphOptimizationLevel _ _, r
  | .addSessionConfigEntry _ _ _, r | .updateCUDAProviderOptions _ _ _, r
  | .appendExecutionProviderCUDAV2 _ _, r | .updateTensorRTProviderOptions _ _ _, r
  | .appendExecutionProviderTensorRTV2 _ _, r | .appendExecutionProviderOpenVINOV2 _ _ _, r
  | .appendExecutionProvider _ _ _ _, r | .runOptionsSetTerminate _, r => failing r
  | .getAllocatorWithDefaultOptions, r | .castTypeInfoToTensorInfo _, r
  | .getTensorMemoryInfo _, r => failing r
  | .sessionGetInputCount _, r | .sessionGetOutputCount _, r | .getDimensionsCount _, r
  | .getTensorSizeInBytes _, r | .getTensorMutableData _, r => failing r
  | .getOnnxTypeFromTypeInfo _, r => failing r
  | .getTensorElementType _, r => failing r
  | .getDimensions _ _, r => failing r
  | .getTensorElementTypeAndShapeDataReference _, r => failing r
  | _, _ => 0

/-- What a native call releases. -/
def releases : NativeOp → Multiset Resource
  | .free p => {.mem p}
  | .dlclose h => {.library h}
  | .releaseEnv h => {.env h}
  | .releaseMemoryInfo h => {.memoryInfo h}
  | .releaseStatus st => {.status st.addr}
  | .releaseSessionOptions h => {.sessionOptions h}
  | .releaseCUDAProviderOptions h => {.cudaOptions h}
  | .releaseTensorRTProviderOptions h => {.tensorRTOptions h}
  | .releaseSession h => {.session h}
  | .allocatorFree n => {.name n.addr}
  | .releaseTypeInfo h => {.typeInfo h}
  | .releaseRunOptions h => {.runOptions h}
  | .releaseValue h => {.value h}
  | _ => 0

end NativeOp

/-- What an operation acquires. -/
def Op.acquires : (e : Op) → e.Resp → Multiset Resource
  | .nat o, r => o.acquires r
  | _, _ => 0

/-- What an operation releases. -/
def Op.releases : Op → Multiset Resource
  | .nat o => o.releases
  | _ => 0

/-- What a trace acquires. -/
def acquired (tr : List (Event Op Op.Resp)) : Multiset Resource :=
  total (fun ev => ev.1.acquires ev.2) tr

/-- What a trace releases. -/
def released (tr : List (Event Op Op.Resp)) : Multiset Resource :=
  total (fun ev => ev.1.releases) tr

/-! ## The resources of the C structures -/

/-- What an open runtime owns. -/
def OcRuntime.resources (r : OcRuntime) : Multiset Resource :=
  owned .memoryInfo r.memory + (owned .env r.env + (owned .library r.library + {.mem r.addr}))

/-- What a port owns: its name and its dimensions. -/
def OcPort.resources (p : OcPort) : Multiset Resource :=
  owned (.name ·.addr) p.name + owned (.mem ·.addr) p.shape

/-- What the array of ports owns, itself included. -/
def portsResources (ports : Option (Arr OcPort)) : Multiset Resource :=
  ports.elim 0 fun a => total OcPort.resources a.slots + {.mem a.addr}

/-- What a session owns. The names are the ports'. -/
def OcSession.resources (s : OcSession) : Multiset Resource :=
  owned .session s.handle + (portsResources s.ports + (owned (.mem ·.addr) s.names + {.mem s.addr}))

/-! ## Run options

They are created by `CreateRunOptions` and released by `ReleaseRunOptions`, and by nothing else. -/

section
variable {x : Resource}

theorem singleton_count {y : Resource} (hy : y ≠ x) : ({y} : Multiset Resource).count x = 0 :=
  Multiset.count_eq_zero.2 (mt Multiset.mem_singleton.1 hy.symm)

theorem owned_count {α : Type} {f : α → Resource} {o : Option α} (hf : ∀ a, f a ≠ x) :
    (owned f o).count x = 0 := by
  cases o with
  | none => rfl
  | some a => exact singleton_count (hf a)

theorem fallible_count {α : Type} {f : α → Resource} {r : Fallible α} (hf : ∀ a, f a ≠ x)
    (hs : ∀ a, .status a ≠ x) : (fallible f r).count x = 0 := by
  cases r with
  | error st => exact singleton_count (hs st.addr)
  | ok a => exact singleton_count (hf a)

theorem failing_count {α : Type} {r : Fallible α} (hs : ∀ a, .status a ≠ x) :
    (failing r).count x = 0 := by
  cases r with
  | error st => exact singleton_count (hs st.addr)
  | ok a => rfl

theorem total_count {α : Type} {f : α → Multiset Resource} {l : List α}
    (hf : ∀ a, (f a).count x = 0) : (total f l).count x = 0 := by
  induction l with
  | nil => rfl
  | cons a l ih => rw [total_cons, Multiset.count_add, hf a, ih]

end

variable {h : Handle}

/-- What the two C structures own. -/
def Resource.Lasting : Resource → Prop
  | .mem _ | .library _ | .env _ | .memoryInfo _ | .session _ | .name _ => True
  | _ => False

theorem OcRuntime.resources_count (r : OcRuntime) {x : Resource} (hx : ¬x.Lasting) :
    r.resources.count x = 0 := by
  have hne : ∀ y : Resource, y.Lasting → y ≠ x := fun y hy h => hx (h ▸ hy)
  simp only [resources, Multiset.count_add]
  rw [owned_count fun a => hne (.memoryInfo a) trivial, owned_count fun a => hne (.env a) trivial,
    owned_count fun a => hne (.library a) trivial, singleton_count (hne (.mem r.addr) trivial)]

theorem OcSession.resources_count (s : OcSession) {x : Resource} (hx : ¬x.Lasting) :
    s.resources.count x = 0 := by
  have hne : ∀ y : Resource, y.Lasting → y ≠ x := fun y hy h => hx (h ▸ hy)
  have hmem : ∀ p : Handle, ({.mem p} : Multiset Resource).count x = 0 := fun p =>
    singleton_count (hne (.mem p) trivial)
  have hports : (portsResources s.ports).count x = 0 := by
    cases s.ports with
    | none => rfl
    | some a =>
      simp only [portsResources, Option.elim_some, Multiset.count_add, hmem, add_zero]
      refine total_count fun p => ?_
      rw [OcPort.resources, Multiset.count_add, owned_count fun a : CStr => hne (.name a.addr) trivial,
        owned_count fun a : Arr Int => hne (.mem a.addr) trivial]
  simp only [resources, Multiset.count_add, hports, hmem]
  rw [owned_count fun a => hne (.session a) trivial, owned_count fun a : Arr (Option CStr) => hne (.mem a.addr) trivial]

theorem NativeOp.releases_count {o : NativeOp} (ho : o ≠ .releaseRunOptions h) :
    o.releases.count (.runOptions h) = 0 := by
  cases o with
  | releaseRunOptions h' =>
    refine singleton_count fun heq => ho ?_
    rw [Resource.runOptions.inj heq]
  | _ =>
    unfold releases
    first
      | with_reducible exact Multiset.count_zero _
      | with_reducible exact singleton_count (by simp)

theorem NativeOp.acquires_count {o : NativeOp} (ho : o ≠ .createRunOptions) (a : o.Resp) :
    (o.acquires a).count (.runOptions h) = 0 := by
  cases o with
  | createRunOptions => exact absurd rfl ho
  | run =>
    refine (Multiset.count_add ..).trans ?_
    rw [owned_count (by simp), zero_add]
    exact total_count fun v => owned_count (by simp)
  | _ =>
    unfold acquires
    first
      | with_reducible exact Multiset.count_zero _
      | with_reducible exact failing_count (by simp)
      | with_reducible exact fallible_count (by simp) (by simp)
      | with_reducible exact owned_count (by simp)
      | with_reducible exact singleton_count (by simp)

end Onnxcraft
