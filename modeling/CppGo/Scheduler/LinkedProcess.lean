import CppGo.Lib.Slots
import CppGo.Scheduler.Conservation
import CppGo.Scheduler.LinkedQueues

/-!
# The threads of the Processers on linked queues

What it means that the linked scheduler is a scheduler in its heap, and that the steps of
`Process` and of the threads that create and wake up tasks keep it so.
-/

namespace CppGo.Scheduling

open CppGo.Lib CppGo.Lib.Procedure CppGo.Common

open scoped List

/-! ## The scheduler without its queues -/

def ProcessPc.hollow : ProcessPc → ProcessPc
  | addPush idle _ => addPush idle []
  | pc => pc

def ProcessPc.adding : ProcessPc → Bool
  | addPush _ _ => true
  | _ => false

def Processer.hollow (x : Processer) : Processer :=
  { x with runnableQueue_ := [], newQueue_ := [], pc := x.pc.hollow }

namespace DispatcherPc

def hollow : DispatcherPc → DispatcherPc
  | steal a => steal { a with tasks := [] }
  | stealRunnable a n _ => stealRunnable { a with tasks := [] } n []
  | deal a => deal { a with tasks := [] }
  | addTask a _ => addTask { a with tasks := [] } []
  | left _ => left []
  | d => d

def hasTasks : DispatcherPc → Bool
  | idle | sizeRunnable _ | sizeNew _ _ => false
  | _ => true

def hasSlist : DispatcherPc → Bool
  | stealRunnable _ _ _ | addTask _ _ => true
  | _ => false

end DispatcherPc

namespace Scheduler

def hollow (s : Scheduler) : Scheduler :=
  { s with processers_ := fun p => (s.processers_ p).hollow, dispatcher := s.dispatcher.hollow }

def queue (s : Scheduler) (q : Nat) : TaskQueue :=
  if q % 2 = 0 then (s.processers_ (q / 2)).runnableQueue_ else (s.processers_ (q / 2)).newQueue_

def localList (s : Scheduler) : LocalList → TaskList
  | .elements p => (s.processers_ p).pc.elements
  | .tasks => s.dispatcher.tasks
  | .slist => s.dispatcher.slist

def inScope (s : Scheduler) : LocalList → Bool
  | .elements p => (s.processers_ p).pc.adding
  | .tasks => s.dispatcher.hasTasks
  | .slist => s.dispatcher.hasSlist

end Scheduler

/-- The heap has the `size` queues and the local lists, and no other list holds a task. -/
structure Lays (ls : LocalList → Option Nat) (Q O : List (List Nat)) (size : Nat)
    (queue : Nat → TaskQueue) (c : LocalList → TaskList) (scope : LocalList → Bool) : Prop where
  length : Q.length = size
  queue : ∀ q < size, Q[q]? = some (queue q)
  slots : Slots ls O c
  scope : ∀ k, (ls k).isSome = scope k

namespace Lays

variable {ls : LocalList → Option Nat} {Q O : List (List Nat)} {size q i : Nat}
  {queue : Nat → TaskQueue} {c : LocalList → TaskList} {scope : LocalList → Bool}
  {k : LocalList} {l : TaskList}

theorem setQueue (h : Lays ls Q O size queue c scope) (hq : q < size) (l : TaskQueue) :
    Lays ls (Q.set q l) O size (Function.update queue q l) c scope where
  length := by rw [List.length_set, h.length]
  queue r hr := by
    by_cases hrq : r = q
    · rw [hrq, Function.update_self, List.getElem?_set_self (h.length ▸ hq)]
    · rw [Function.update_of_ne hrq, List.getElem?_set_ne (Ne.symm hrq), h.queue r hr]
  slots := h.slots
  scope := h.scope

theorem setList (h : Lays ls Q O size queue c scope) (hk : ls k = some i) (l : TaskList) :
    Lays ls Q (O.set i l) size queue (Function.update c k l) scope :=
  { h with slots := h.slots.set hk l }

theorem addNil (h : Lays ls Q O size queue c scope) : Lays ls Q (O ++ [[]]) size queue c scope :=
  { h with slots := h.slots.addNil }

theorem enter (h : Lays ls Q O size queue c scope) (hk : scope k = false) (l : TaskList) :
    Lays (Function.update ls k (some O.length)) Q (O ++ [l]) size queue (Function.update c k l)
      (Function.update scope k true) where
  length := h.length
  queue := h.queue
  slots := by
    apply h.slots.new
    rw [← Option.not_isSome_iff_eq_none, h.scope, hk]
    exact Bool.false_ne_true
  scope m := by
    by_cases hmk : m = k
    · rw [hmk, Function.update_self, Function.update_self]
      rfl
    · rw [Function.update_of_ne hmk, Function.update_of_ne hmk, h.scope]

theorem leave (h : Lays ls Q O size queue c scope) (hk : c k = []) :
    Lays (Function.update ls k none) Q O size queue c (Function.update scope k false) where
  length := h.length
  queue := h.queue
  slots := h.slots.drop hk
  scope m := by
    by_cases hmk : m = k
    · rw [hmk, Function.update_self, Function.update_self]
      rfl
    · rw [Function.update_of_ne hmk, Function.update_of_ne hmk, h.scope]

theorem number (h : Lays ls Q O size queue c scope) (hk : scope k = true) :
    ∃ i, ls k = some i ∧ O[i]? = some (c k) := by
  obtain ⟨i, hi⟩ := Option.isSome_iff_exists.mp ((h.scope k).trans hk)
  exact ⟨i, hi, h.slots.object hi⟩

end Lays

namespace LinkedScheduler

/-- The linked scheduler is the scheduler `s` in its heap. -/
def Holds (L : LinkedScheduler) (s : Scheduler) : Prop :=
  L.control = s.hollow ∧ ∃ Q O, Stores L.heap Q O ∧
    Lays L.lists Q O (2 * s.size) s.queue s.localList s.inScope

variable {L : LinkedScheduler} {s t : Scheduler} {p : Nat} {x : Processer} {tk : TaskPtr}
  {d : DispatcherPc} {ls : LocalList → Option Nat} {Q O : List (List Nat)} {α : Type}

section Views

theorem queue_setProcesser (q : Nat) : (s.setProcesser p x).queue q =
    if q / 2 = p then if q % 2 = 0 then x.runnableQueue_ else x.newQueue_ else s.queue q := by
  unfold Scheduler.queue
  show (if q % 2 = 0 then (Function.update s.processers_ p x (q / 2)).runnableQueue_
    else (Function.update s.processers_ p x (q / 2)).newQueue_) = _
  rw [Function.update_apply]
  by_cases hq : q / 2 = p
  · simp only [if_pos hq]
  · simp only [if_neg hq]

theorem queue_of_same (hrun : x.runnableQueue_ = (s.processers_ p).runnableQueue_)
    (hnew : x.newQueue_ = (s.processers_ p).newQueue_) : (s.setProcesser p x).queue = s.queue := by
  ext1 q
  rw [queue_setProcesser, hrun, hnew]
  split
  · rename_i hq
    rw [← hq]
    rfl
  · rfl

theorem queue_runnable : s.queue (runnableQueue_ p) = (s.processers_ p).runnableQueue_ := by
  have hdiv : runnableQueue_ p / 2 = p := by
    unfold runnableQueue_
    omega
  have hmod : runnableQueue_ p % 2 = 0 := by
    unfold runnableQueue_
    omega
  rw [Scheduler.queue, if_pos hmod, hdiv]

theorem queue_new : s.queue (newQueue_ p) = (s.processers_ p).newQueue_ := by
  have hdiv : newQueue_ p / 2 = p := by
    unfold newQueue_
    omega
  have hmod : ¬ newQueue_ p % 2 = 0 := by
    unfold newQueue_
    omega
  rw [Scheduler.queue, if_neg hmod, hdiv]

theorem queue_of_runnable (hnew : x.newQueue_ = (s.processers_ p).newQueue_) :
    (s.setProcesser p x).queue = Function.update s.queue (runnableQueue_ p) x.runnableQueue_ := by
  ext1 q
  rw [queue_setProcesser, Function.update_apply, hnew]
  unfold runnableQueue_ Scheduler.queue
  by_cases hq : q = 2 * p
  · have hdiv : q / 2 = p := by omega
    have hmod : q % 2 = 0 := by omega
    rw [if_pos hdiv, if_pos hmod, if_pos hq]
  · rw [if_neg hq]
    split
    · rename_i hdiv
      have hmod : ¬ q % 2 = 0 := by omega
      rw [if_neg hmod, if_neg hmod, hdiv]
    · rfl

theorem queue_of_new (hrun : x.runnableQueue_ = (s.processers_ p).runnableQueue_) :
    (s.setProcesser p x).queue = Function.update s.queue (newQueue_ p) x.newQueue_ := by
  ext1 q
  rw [queue_setProcesser, Function.update_apply, hrun]
  unfold newQueue_ Scheduler.queue
  by_cases hq : q = 2 * p + 1
  · have hdiv : q / 2 = p := by omega
    have hmod : ¬ q % 2 = 0 := by omega
    rw [if_pos hdiv, if_neg hmod, if_pos hq]
  · rw [if_neg hq]
    split
    · rename_i hdiv
      have hmod : q % 2 = 0 := by omega
      rw [if_pos hmod, if_pos hmod, hdiv]
    · rfl

theorem localList_setProcesser : (s.setProcesser p x).localList =
    Function.update s.localList (.elements p) x.pc.elements := by
  ext1 k
  cases k with
  | elements p' =>
      show (Function.update s.processers_ p x p').pc.elements = _
      by_cases hp : p' = p
      · rw [hp, Function.update_self, Function.update_self]
      · rw [Function.update_of_ne hp, Function.update_of_ne (by simpa using hp)]
        rfl
  | tasks | slist => rfl

theorem inScope_setProcesser : (s.setProcesser p x).inScope =
    Function.update s.inScope (.elements p) x.pc.adding := by
  ext1 k
  cases k with
  | elements p' =>
      show (Function.update s.processers_ p x p').pc.adding = _
      by_cases hp : p' = p
      · rw [hp, Function.update_self, Function.update_self]
      · rw [Function.update_of_ne hp, Function.update_of_ne (by simpa using hp)]
        rfl
  | tasks | slist => rfl

theorem hollow_setProcesser : (s.setProcesser p x).hollow = s.hollow.setProcesser p x.hollow := by
  have hproc : (fun q => (Function.update s.processers_ p x q).hollow) =
      Function.update (fun q => (s.processers_ q).hollow) p x.hollow := by
    ext1 q
    by_cases hq : q = p
    · rw [hq, Function.update_self, Function.update_self]
    · rw [Function.update_of_ne hq, Function.update_of_ne hq]
  unfold Scheduler.hollow Scheduler.setProcesser
  rw [← hproc]

theorem hollow_of_adding {pc : ProcessPc} (h : pc.adding = false) : pc.hollow = pc := by
  cases pc <;> first | rfl | cases h

theorem elements_of_adding {pc : ProcessPc} (h : pc.adding = false) : pc.elements = [] := by
  cases pc <;> first | rfl | cases h

theorem localList_of_same (helem : x.pc.elements = (s.processers_ p).pc.elements) :
    (s.setProcesser p x).localList = s.localList := by
  rw [localList_setProcesser, helem]
  exact Function.update_eq_self _ _

theorem inScope_of_same (hadd : x.pc.adding = (s.processers_ p).pc.adding) :
    (s.setProcesser p x).inScope = s.inScope := by
  rw [inScope_setProcesser, hadd]
  exact Function.update_eq_self _ _

theorem lays_same (helem : x.pc.elements = (s.processers_ p).pc.elements)
    (hadd : x.pc.adding = (s.processers_ p).pc.adding) :
    ∀ queue, Lays ls Q O (2 * s.size) queue s.localList s.inScope →
      Lays ls Q O (2 * (s.setProcesser p x).size) queue (s.setProcesser p x).localList
        (s.setProcesser p x).inScope := by
  intro queue hl
  rw [localList_of_same helem, inScope_of_same hadd]
  exact hl

theorem lays_process (hold : (s.processers_ p).pc.adding = false) (hpc : x.pc.adding = false) :
    ∀ queue, Lays ls Q O (2 * s.size) queue s.localList s.inScope →
      Lays ls Q O (2 * (s.setProcesser p x).size) queue (s.setProcesser p x).localList
        (s.setProcesser p x).inScope :=
  lays_same (by rw [elements_of_adding hpc, elements_of_adding hold]) (by rw [hpc, hold])

section Queues

variable {l : TaskQueue}

theorem hollow_of_same (hx : x.hollow = (s.processers_ p).hollow) :
    (s.setProcesser p x).hollow = s.hollow := by
  have heq : (s.processers_ p).hollow = s.hollow.processers_ p := rfl
  rw [hollow_setProcesser, hx, heq, Scheduler.setProcesser, Function.update_eq_self]

theorem lays_runnable (hl : Lays ls Q O (2 * s.size) s.queue s.localList s.inScope)
    (hp : p < s.size) (hx : x = { s.processers_ p with runnableQueue_ := l }) :
    Lays ls (Q.set (runnableQueue_ p) l) O (2 * s.size) (s.setProcesser p x).queue
      (s.setProcesser p x).localList (s.setProcesser p x).inScope := by
  have hlt : runnableQueue_ p < 2 * s.size := by
    unfold runnableQueue_
    omega
  rw [hx, queue_of_runnable (by rfl)]
  exact lays_same (by rfl) (by rfl) _ (hl.setQueue hlt l)

theorem lays_new (hl : Lays ls Q O (2 * s.size) s.queue s.localList s.inScope)
    (hp : p < s.size) (hx : x = { s.processers_ p with newQueue_ := l }) :
    Lays ls (Q.set (newQueue_ p) l) O (2 * s.size) (s.setProcesser p x).queue
      (s.setProcesser p x).localList (s.setProcesser p x).inScope := by
  have hlt : newQueue_ p < 2 * s.size := by
    unfold newQueue_
    omega
  rw [hx, queue_of_new (by rfl)]
  exact lays_same (by rfl) (by rfl) _ (hl.setQueue hlt l)

end Queues

end Views

section Rules

theorem ensures_heapDo {c : Procedure Heap α} {R : α → Heap → Prop} (h : Ensures L.heap c R) :
    Ensures L (heapDo c) fun a L' => ∃ h', R a h' ∧ L' = { L with heap := h' } := by
  obtain ⟨a, h', hrun, hR⟩ := h
  refine ⟨a, { L with heap := h' }, ?_, h', hR, rfl⟩
  unfold heapDo
  rw [hrun]
  rfl

theorem ensures_getList {k : LocalList} {j : Nat} (hk : L.lists k = some j) :
    Ensures L (getList k) fun i L' => i = j ∧ L' = L :=
  ensures_read hk ⟨rfl, rfl⟩

theorem ensures_enter {k : LocalList} {op : Operation} {R : Nat → Heap → Prop}
    (h : Ensures L.heap (makeList op) R) : Ensures L (enter k op) fun _ L' =>
      ∃ j h', R j h' ∧ L' = { L with heap := h', lists := Function.update L.lists k (some j) } := by
  apply (ensures_heapDo h).bind
  rintro j _ ⟨h', hR, rfl⟩
  exact ⟨(), _, rfl, j, h', hR, rfl⟩

theorem ensures_pushList {k : LocalList} {q j : Nat} {R : Unit → Heap → Prop}
    (hk : L.lists k = some j) (h : Ensures L.heap (operation (.pushAll q j)) R) :
    Ensures L (pushList q k) fun a L' => ∃ h', R a h' ∧ L' = { L with heap := h' } := by
  apply (ensures_getList hk).bind
  rintro _ _ ⟨rfl, rfl⟩
  exact ensures_heapDo h

theorem ensures_appendTmp {i j : Nat} {R : Unit → Heap → Prop} (hk : L.lists .tasks = some i)
    (h : Ensures L.heap (operation (.append i j)) R) :
    Ensures L (appendTmp j) fun a L' => ∃ h', R a h' ∧ L' = { L with heap := h' } := by
  apply (ensures_getList hk).bind
  rintro _ _ ⟨rfl, rfl⟩
  exact ensures_heapDo h

theorem ensures_leave {k : LocalList} {j : Nat} (hk : L.lists k = some j)
    (hst : Stores L.heap Q O) (hj : O[j]? = some []) : Ensures L (leave k) fun _ L' =>
      ∃ h', Stores h' Q O ∧ L' = { L with heap := h', lists := Function.update L.lists k none } := by
  apply (ensures_getList hk).bind
  rintro _ _ ⟨rfl, rfl⟩
  apply (ensures_heapDo (hst.destroy hj)).bind
  rintro _ _ ⟨h', hst', rfl⟩
  exact ⟨(), _, rfl, h', hst', rfl⟩

theorem ensures_setProcesser {Q : Unit → LinkedScheduler → Prop}
    (h : Q () { L with control := L.control.setProcesser p x }) :
    Ensures L (LinkedScheduler.setProcesser p x) Q :=
  ⟨(), _, rfl, h⟩

end Rules

section Process

theorem holds_process {c : Scheduler} {h : Heap} {y : Processer} (hcontrol : c = s.hollow)
    (hst : Stores h Q O) (hl : Lays ls Q O (2 * s.size) s.queue s.localList s.inScope)
    (hold : (s.processers_ p).pc.adding = false) (hpc : x.pc.adding = false)
    (hrun : x.runnableQueue_ = (s.processers_ p).runnableQueue_)
    (hnew : x.newQueue_ = (s.processers_ p).newQueue_)
    (hy : y = { x with runnableQueue_ := [], newQueue_ := [] }) :
    Holds { control := c.setProcesser p y, lists := ls, heap := h } (s.setProcesser p x) := by
  refine ⟨?_, Q, O, hst, ?_⟩
  · rw [hollow_setProcesser, hcontrol, hy, Processer.hollow, hollow_of_adding hpc]
  · rw [queue_of_same hrun hnew]
    exact lays_process hold hpc _ hl

theorem holds_front {pc : ProcessPc} (h : L.Holds s) (hp : p < s.size)
    (hold : (s.processers_ p).pc.adding = false) (hpc : pc.adding = false) :
    Ensures L (do
      let t ← heapDo (front (runnableQueue_ p))
      LinkedScheduler.setProcesser p { s.hollow.processers_ p with
        runningTask_ := t, pc := if t.isSome then .loop else pc }) fun _ L' =>
      L'.Holds (s.setProcesser p { s.processers_ p with
        runningTask_ := (s.processers_ p).runnableQueue_.front
        pc := if (s.processers_ p).runnableQueue_.front.isSome then .loop else pc }) := by
  obtain ⟨hcontrol, Q, O, hst, hl⟩ := h
  have hq := hl.queue (runnableQueue_ p) (by unfold runnableQueue_; omega)
  rw [queue_runnable] at hq
  apply (ensures_heapDo (hst.front hq)).bind
  rintro _ _ ⟨h', ⟨rfl, hst'⟩, rfl⟩
  apply ensures_setProcesser
  have hpc' : (if (s.processers_ p).runnableQueue_.front.isSome then ProcessPc.loop else pc).adding =
      false := by
    split
    · rfl
    · exact hpc
  refine holds_process hcontrol hst' hl hold hpc' rfl rfl ?_
  rfl

theorem holds_addEmpty {idle : Bool} (h : L.Holds s) (hp : p < s.size)
    (hpc : (s.processers_ p).pc = .addEmpty idle) :
    Ensures L (do
      let count ← heapDo (size (newQueue_ p))
      LinkedScheduler.setProcesser p { s.hollow.processers_ p with
        pc := if count = 0 then if idle then .waitLoop else .front else .addPop idle }) fun _ L' =>
      L'.Holds (s.setProcesser p { s.processers_ p with
        pc := if (s.processers_ p).newQueue_.isEmpty then if idle then .waitLoop else .front
          else .addPop idle }) := by
  obtain ⟨hcontrol, Q, O, hst, hl⟩ := h
  have hq := hl.queue (newQueue_ p) (by unfold newQueue_; omega)
  rw [queue_new] at hq
  apply (ensures_heapDo (hst.size hq)).bind
  rintro _ _ ⟨h', ⟨rfl, hst'⟩, rfl⟩
  apply ensures_setProcesser
  refine holds_process hcontrol hst' hl (by rw [hpc]; rfl) ?_ rfl rfl ?_
  · show ProcessPc.adding (if _ then if _ then _ else _ else _) = false
    split
    · split <;> rfl
    · rfl
  · simp only [List.isEmpty_iff_length_eq_zero]
    rfl

theorem holds_addPop {idle : Bool} (h : L.Holds s) (hp : p < s.size)
    (hpc : (s.processers_ p).pc = .addPop idle) :
    Ensures L (do
      enter (.elements p) (.popAll (newQueue_ p))
      LinkedScheduler.setProcesser p { s.hollow.processers_ p with pc := .addPush idle [] })
      fun _ L' => L'.Holds (s.setProcesser p { s.processers_ p with
        newQueue_ := (s.processers_ p).newQueue_.popAllWithoutLock.1
        pc := .addPush idle (s.processers_ p).newQueue_.popAllWithoutLock.2 }) := by
  obtain ⟨hcontrol, Q, O, hst, hl⟩ := h
  have hlt : newQueue_ p < 2 * s.size := by
    unfold newQueue_
    omega
  have hq := hl.queue (newQueue_ p) hlt
  have hscope : s.inScope (.elements p) = false := by
    show (s.processers_ p).pc.adding = false
    rw [hpc]
    rfl
  rw [queue_new] at hq
  apply (ensures_enter (hst.popAll hq)).bind
  rintro _ _ ⟨_, h', ⟨rfl, hst'⟩, rfl⟩
  apply ensures_setProcesser
  refine ⟨?_, _, _, hst', ?_⟩
  · show L.control.setProcesser p _ = _
    rw [hollow_setProcesser, hcontrol]
    rfl
  · rw [queue_of_new (by rfl), localList_setProcesser, inScope_setProcesser]
    exact (hl.setQueue hlt _).enter hscope _

theorem holds_addPush {idle : Bool} {elements : TaskList} (h : L.Holds s) (hp : p < s.size)
    (hpc : (s.processers_ p).pc = .addPush idle elements) :
    Ensures L (do
      pushList (runnableQueue_ p) (.elements p)
      leave (.elements p)
      LinkedScheduler.setProcesser p
        { s.hollow.processers_ p with pc := if idle then .frontAgain else .front }) fun _ L' =>
      L'.Holds (s.setProcesser p { s.processers_ p with
        runnableQueue_ := (s.processers_ p).runnableQueue_.pushWithoutLock elements
        pc := if idle then .frontAgain else .front }) := by
  obtain ⟨hcontrol, Q, O, hst, hl⟩ := h
  have hlt : runnableQueue_ p < 2 * s.size := by
    unfold runnableQueue_
    omega
  have hq := hl.queue (runnableQueue_ p) hlt
  rw [queue_runnable] at hq
  have hscope : s.inScope (.elements p) = true := by
    show (s.processers_ p).pc.adding = true
    rw [hpc]
    rfl
  have hlist : s.localList (.elements p) = elements := by
    show (s.processers_ p).pc.elements = elements
    rw [hpc]
    rfl
  obtain ⟨j, hj, hO⟩ := hl.number hscope
  rw [hlist] at hO
  have hempty : (O.set j [])[j]? = some [] :=
    List.getElem?_set_self (List.getElem?_eq_some_iff.mp hO).1
  apply (ensures_pushList hj (hst.pushAll hq hO)).bind
  rintro _ _ ⟨h', hst', rfl⟩
  apply (ensures_leave (L := { L with heap := h' }) hj hst' hempty).bind
  rintro _ _ ⟨h'', hst'', rfl⟩
  apply ensures_setProcesser
  have hpc' : (if idle then ProcessPc.frontAgain else .front).adding = false := by
    cases idle <;> rfl
  refine ⟨?_, _, _, hst'', ?_⟩
  · show L.control.setProcesser p _ = _
    rw [hollow_setProcesser, hcontrol, Processer.hollow, hollow_of_adding hpc']
    rfl
  · rw [queue_of_runnable (by rfl), localList_setProcesser, inScope_setProcesser,
      elements_of_adding hpc', hpc']
    have hlays := (hl.setQueue hlt ((s.processers_ p).runnableQueue_ ++ elements)).setList hj []
    exact hlays.leave (Function.update_self ..)

theorem place_of_lays (hl : Lays ls Q O (2 * s.size) s.queue s.localList s.inScope)
    (hin : tk ∈ Q.flatten ++ O.flatten) : ∃ i : Place, i.IsList ∧ tk ∈ s.contents i := by
  rcases List.mem_append.mp hin with hin | hin
  · obtain ⟨l, hlQ, htk⟩ := List.mem_flatten.mp hin
    obtain ⟨q, hq⟩ := List.mem_iff_getElem?.mp hlQ
    have hlt : q < 2 * s.size := hl.length ▸ (List.getElem?_eq_some_iff.mp hq).1
    rw [hl.queue q hlt] at hq
    rw [← Option.some.inj hq, Scheduler.queue] at htk
    split at htk
    · exact ⟨.processer (q / 2) .runnable, nofun, htk⟩
    · exact ⟨.processer (q / 2) .new, nofun, htk⟩
  · obtain ⟨k, hk⟩ := hl.slots.exists_of_mem hin
    cases k with
    | elements p => exact ⟨.processer p .adding, nofun, hk⟩
    | tasks => exact ⟨.shared .tasks, .inl rfl, hk⟩
    | slist => exact ⟨.shared .slist, .inr rfl, hk⟩

theorem out_of_lays {i : Place} (hl : Lays ls Q O (2 * s.size) s.queue s.localList s.inScope)
    (htidy : s.Tidy) (hmem : tk ∈ s.contents i) (hi : ¬ i.IsList) : tk ∉ Q.flatten ++ O.flatten := by
  intro hin
  obtain ⟨j, hj, hmem'⟩ := place_of_lays hl hin
  exact hi (htidy.place_unique hmem hmem' ▸ hj)

theorem known_of_running (hl : Lays ls Q O (2 * s.size) s.queue s.localList s.inScope)
    (hcoh : s.Coherent) (hrun : (s.processers_ p).runningTask_ = some tk) :
    tk ∈ (s.processers_ p).runnableQueue_ ∨ tk ∉ Q.flatten ++ O.flatten := by
  rcases hcoh.place hrun with ⟨q, hq, hmem⟩ | ⟨g, hg, hmem⟩
  · rw [List.mem_cons, List.mem_singleton] at hq
    rcases hq with rfl | rfl
    · exact .inl hmem
    · exact .inr (out_of_lays hl hcoh.tidy hmem fun hlist => hlist rfl)
  · have hthere : tk ∈ s.contents (.shared g) := hmem
    rw [List.mem_cons, List.mem_singleton] at hg
    right
    rcases hg with rfl | rfl <;> exact out_of_lays hl hcoh.tidy hthere (by simp [Place.IsList])

theorem holds_suspendErase (h : L.Holds s) (hcoh : s.Coherent) (hp : p < s.size)
    (hpc : (s.processers_ p).pc = .suspending tk) :
    Ensures L (do
      let nextTask ← heapDo (next (runnableQueue_ p) tk)
      let ret ← heapDo (QueueObject.onHeap.eraseTask (runnableQueue_ p) (some tk))
      setControl { (s.hollow.assert ((s.hollow.processers_ p).runningTask_ = some tk &&
          ret)).setProcesser p
        { s.hollow.processers_ p with nextTask_ := nextTask, pc := .suspended tk } with
        suspended := s.hollow.suspended ++ [tk] }) fun _ L' => L'.Holds (s.suspendErase p tk) := by
  obtain ⟨hcontrol, Q, O, hst, hl⟩ := h
  obtain ⟨hrun, hmem, -, -⟩ := hcoh.suspending hpc
  have hlt : runnableQueue_ p < 2 * s.size := by
    unfold runnableQueue_
    omega
  have hq := hl.queue (runnableQueue_ p) hlt
  rw [queue_runnable] at hq
  apply (ensures_heapDo (hst.next hq (.inl hmem))).bind
  rintro _ _ ⟨h', ⟨rfl, hst'⟩, rfl⟩
  apply (ensures_heapDo (L := { L with heap := h' }) (hst'.erase hq hmem)).bind
  rintro _ _ ⟨h'', ⟨rfl, hst''⟩, rfl⟩
  have hassert : (decide ((s.processers_ p).runningTask_ = some tk) && s.owns p (some tk) &&
      ((s.processers_ p).runnableQueue_.eraseWithoutLock tk).2) = true := by
    simp [hrun, Scheduler.owns_of_mem hmem, TaskQueue.erase_of_mem hmem]
  have hassert' : (decide ((s.hollow.processers_ p).runningTask_ = some tk) && true) = true := by
    show (decide ((s.processers_ p).runningTask_ = some tk) && true) = true
    simp [hrun]
  unfold Scheduler.suspendErase
  simp only [hassert, Scheduler.assert_true]
  refine ⟨(), _, rfl, ?_, _, _, hst'', ?_⟩
  · rw [hassert', Scheduler.assert_true]
    have hhollow := hollow_setProcesser (s := s) (p := p) (x := { s.processers_ p with
      nextTask_ := (s.processers_ p).runnableQueue_.nextWithoutLock tk
      runnableQueue_ := ((s.processers_ p).runnableQueue_.eraseWithoutLock tk).1
      pc := .suspended tk })
    exact congrArg (fun c : Scheduler => { c with suspended := s.suspended ++ [tk] }) hhollow.symm
  · have hset := hl.setQueue hlt ((s.processers_ p).runnableQueue_.erase tk)
    have hlays := lays_process (x := { s.processers_ p with
      nextTask_ := (s.processers_ p).runnableQueue_.nextWithoutLock tk
      runnableQueue_ := ((s.processers_ p).runnableQueue_.eraseWithoutLock tk).1
      pc := .suspended tk }) (by rw [hpc]; rfl) rfl _ hset
    have hqueue := queue_of_runnable (s := s) (p := p) (x := { s.processers_ p with
      nextTask_ := (s.processers_ p).runnableQueue_.nextWithoutLock tk
      runnableQueue_ := ((s.processers_ p).runnableQueue_.eraseWithoutLock tk).1
      pc := .suspended tk }) rfl
    rw [TaskQueue.erase_of_mem hmem] at hlays hqueue ⊢
    rw [← hqueue] at hlays
    exact hlays

theorem ensures_runningTask {x : Processer} (hrun : x.runningTask_ = some tk) :
    Ensures L (read fun _ => x.runningTask_) fun t L' => t = tk ∧ L' = L :=
  ensures_read hrun ⟨rfl, rfl⟩

theorem holds_runnable (h : L.Holds s) (hcoh : s.Coherent) (hp : p < s.size)
    (hpc : (s.processers_ p).pc = .runnable) (hrun : (s.processers_ p).runningTask_ = some tk) :
    Ensures L (do
      let t ← read fun _ => (s.hollow.processers_ p).runningTask_
      let n ← heapDo (taskNext t)
      LinkedScheduler.setProcesser p
        { s.hollow.processers_ p with runningTask_ := n, pc := .loop }) fun _ L' =>
      L'.Holds (s.branch p tk) := by
  obtain ⟨hcontrol, Q, O, hst, hl⟩ := h
  have hq := hl.queue (runnableQueue_ p) (by unfold runnableQueue_; omega)
  rw [queue_runnable] at hq
  have howns : s.owns p (some tk) = true := hrun ▸ hcoh.owns_running
  unfold Scheduler.branch
  simp only [hpc, howns, Scheduler.assert_true]
  apply (ensures_runningTask (x := s.hollow.processers_ p) hrun).bind
  rintro _ _ ⟨rfl, rfl⟩
  apply (ensures_heapDo (hst.taskNext hq (known_of_running hl hcoh hrun))).bind
  rintro _ _ ⟨h', ⟨rfl, hst'⟩, rfl⟩
  apply ensures_setProcesser
  exact holds_process hcontrol hst' hl (by rw [hpc]; rfl) rfl rfl rfl rfl

theorem holds_doneNext (h : L.Holds s) (hcoh : s.Coherent) (hp : p < s.size)
    (hpc : (s.processers_ p).pc = .doneNext) (hrun : (s.processers_ p).runningTask_ = some tk) :
    Ensures L (do
      let t ← read fun _ => (s.hollow.processers_ p).runningTask_
      let n ← heapDo (next (runnableQueue_ p) t)
      LinkedScheduler.setProcesser p
        { s.hollow.processers_ p with nextTask_ := n, pc := .doneErase }) fun _ L' =>
      L'.Holds (s.branch p tk) := by
  obtain ⟨hcontrol, Q, O, hst, hl⟩ := h
  obtain ⟨hmem, -, -⟩ := hcoh.ended (.inl hpc) hrun
  have hq := hl.queue (runnableQueue_ p) (by unfold runnableQueue_; omega)
  rw [queue_runnable] at hq
  unfold Scheduler.branch
  simp only [hpc, Scheduler.owns_of_mem hmem, Scheduler.assert_true]
  apply (ensures_runningTask (x := s.hollow.processers_ p) hrun).bind
  rintro _ _ ⟨rfl, rfl⟩
  apply (ensures_heapDo (hst.next hq (.inl hmem))).bind
  rintro _ _ ⟨h', ⟨rfl, hst'⟩, rfl⟩
  apply ensures_setProcesser
  exact holds_process hcontrol hst' hl (by rw [hpc]; rfl) rfl rfl rfl rfl

theorem holds_doneErase (h : L.Holds s) (hcoh : s.Coherent) (hp : p < s.size)
    (hpc : (s.processers_ p).pc = .doneErase) (hrun : (s.processers_ p).runningTask_ = some tk) :
    Ensures L (do
      let t ← read fun _ => (s.hollow.processers_ p).runningTask_
      let _ ← heapDo (QueueObject.onHeap.eraseTask (runnableQueue_ p) (some t))
      LinkedScheduler.setProcesser p { s.hollow.processers_ p with pc := .doneAdvance }) fun _ L' =>
      L'.Holds (s.branch p tk) := by
  obtain ⟨hcontrol, Q, O, hst, hl⟩ := h
  obtain ⟨hmem, -, -⟩ := hcoh.ended (.inr hpc) hrun
  have hlt : runnableQueue_ p < 2 * s.size := by
    unfold runnableQueue_
    omega
  have hq := hl.queue (runnableQueue_ p) hlt
  rw [queue_runnable] at hq
  unfold Scheduler.branch
  simp only [hpc, Scheduler.owns_of_mem hmem, Scheduler.assert_true, TaskQueue.erase_of_mem hmem]
  apply (ensures_runningTask (x := s.hollow.processers_ p) hrun).bind
  rintro _ _ ⟨rfl, rfl⟩
  apply (ensures_heapDo (hst.erase hq hmem)).bind
  rintro _ _ ⟨h', ⟨rfl, hst'⟩, rfl⟩
  apply ensures_setProcesser
  refine ⟨?_, _, _, hst', ?_⟩
  · show Scheduler.setProcesser _ p _ = _
    rw [hollow_setProcesser, hcontrol]
    rfl
  · rw [queue_of_runnable (by rfl)]
    exact lays_process (by rw [hpc]; rfl) rfl _ (hl.setQueue hlt _)

end Process

section Plain

structure Keeps (s t : Scheduler) : Prop where
  queue : t.queue = s.queue
  localList : t.localList = s.localList
  inScope : t.inScope = s.inScope
  size : t.size = s.size

theorem keeps_of (hproc : t.processers_ = s.processers_) (hd : t.dispatcher = s.dispatcher)
    (hsize : t.size = s.size) : Keeps s t where
  queue := by
    unfold Scheduler.queue
    rw [hproc]
  localList := by
    ext1 k
    cases k <;> simp only [Scheduler.localList, hproc, hd]
  inScope := by
    ext1 k
    cases k <;> simp only [Scheduler.inScope, hproc, hd]
  size := hsize

theorem Keeps.setProcesser (h : Keeps s t) (hproc : t.processers_ p = s.processers_ p)
    (hold : (s.processers_ p).pc.adding = false) (hpc : x.pc.adding = false)
    (hrun : x.runnableQueue_ = (s.processers_ p).runnableQueue_)
    (hnew : x.newQueue_ = (s.processers_ p).newQueue_) : Keeps s (t.setProcesser p x) where
  queue := by rw [queue_of_same (by rw [hproc, hrun]) (by rw [hproc, hnew]), h.queue]
  localList := by
    have helem : x.pc.elements = (t.processers_ p).pc.elements := by
      rw [hproc, elements_of_adding hpc, elements_of_adding hold]
    rw [localList_of_same helem, h.localList]
  inScope := by
    rw [inScope_of_same (by rw [hproc, hpc, hold]), h.inScope]
  size := h.size

theorem rel_of_ensures {c : Procedure LinkedScheduler Unit}
    (h : Ensures L c fun _ L' => L'.Holds t) :
    Option.Rel Holds ((c L).map Prod.snd) (some t) := by
  obtain ⟨a, L', hrun, hholds⟩ := h
  rw [hrun]
  exact .some hholds

theorem rel_plain {c o : Option Scheduler} (h : L.Holds s) (hc : c = o.map Scheduler.hollow)
    (hkeeps : ∀ t, o = some t → Keeps s t) :
    Option.Rel Holds ((plain c L).map Prod.snd) o := by
  cases o with
  | none =>
      rw [hc]
      exact .none
  | some t =>
      obtain ⟨-, Q, O, hst, hl⟩ := h
      have hk := hkeeps t rfl
      rw [hc]
      refine .some ⟨rfl, Q, O, hst, ?_⟩
      rw [hk.queue, hk.localList, hk.inScope, hk.size]
      exact hl

theorem hollow_pc {pc : ProcessPc} (hpc : (s.processers_ p).pc = pc) (hadd : pc.adding = false) :
    (s.hollow.processers_ p).pc = pc := by
  show (s.processers_ p).pc.hollow = pc
  rw [hpc, hollow_of_adding hadd]

def Plain : ProcessPc → Prop
  | .waitLoop | .loop | .exec _ | .suspended _ | .switched | .block | .doneAdvance => True
  | _ => False

theorem Plain.adding {pc : ProcessPc} (h : Plain pc) : pc.adding = false := by
  cases pc <;> first | rfl | exact h.elim

theorem keeps_process (hplain : Plain (s.processers_ p).pc) (hs : s.process p = some t) :
    Keeps s t := by
  have hadd := hplain.adding
  have hsame : Keeps s s := keeps_of rfl rfl rfl
  cases Scheduler.processed hs with
  | front hpc | addEmpty hpc | addPop hpc | addPush hpc | frontAgain hpc | suspendErase hpc =>
      rw [hpc] at hplain
      exact hplain.elim
  | waitLoop hpc | loopEnd hpc hrun | suspended hpc =>
      exact hsame.setProcesser rfl hadd rfl rfl rfl
  | swapIn hpc hrun =>
      unfold Scheduler.swapIn
      apply Keeps.setProcesser (keeps_of _ _ _) _ hadd <;> rfl
  | unpicked hpc hrun => exact keeps_of rfl rfl rfl
  | branch hpc hrun =>
      unfold Scheduler.branch
      cases hpc' : (s.processers_ p).pc with
      | switched =>
          simp only [hpc']
          refine hsame.setProcesser rfl hadd ?_ rfl rfl
          cases (s.task _).state_ <;> rfl
      | block =>
          simp only [hpc']
          apply hsame.setProcesser _ hadd <;> rfl
      | doneAdvance =>
          simp only [hpc']
          apply Keeps.setProcesser (keeps_of _ _ _) _ hadd <;> rfl
      | runnable | doneNext | doneErase =>
          rw [hpc'] at hplain
          exact hplain.elim
      | _ =>
          simp only [hpc']
          exact hsame

theorem hollow_process (hplain : Plain (s.processers_ p).pc) :
    s.hollow.process p = (s.process p).map Scheduler.hollow := by
  have hpc' := hollow_pc (s := s) (p := p) rfl hplain.adding
  have hrun' : (s.hollow.processers_ p).runningTask_ = (s.processers_ p).runningTask_ := rfl
  unfold Scheduler.process
  simp only [hpc', hrun']
  cases hpc : (s.processers_ p).pc with
  | waitLoop | suspended tk =>
      rw [Option.map_some, hollow_setProcesser]
      rfl
  | exec tk => rfl
  | loop =>
      cases (s.processers_ p).runningTask_ with
      | none =>
          simp only [Option.map_some]
          rw [hollow_setProcesser]
          rfl
      | some tk =>
          simp only [Option.map_some, Scheduler.swapIn]
          rw [hollow_setProcesser]
          rfl
  | switched | block | doneAdvance =>
      cases (s.processers_ p).runningTask_ with
      | none => rfl
      | some tk =>
          have htask : (s.hollow.task tk).state_ = (s.task tk).state_ := rfl
          simp only [Option.map_some, Scheduler.branch, hpc', hpc, htask]
          rw [hollow_setProcesser]
          cases (s.task tk).state_ <;> rfl
  | _ =>
      rw [hpc] at hplain
      exact hplain.elim

end Plain

section Process

/-- The next step of `Process` is the same one on the linked queues. -/
theorem rel_process (h : L.Holds s) (hcoh : s.Coherent) (hp : p < s.size) :
    Option.Rel Holds ((process L.control p L).map Prod.snd) (s.process p) := by
  rw [h.1]
  cases hpc : (s.processers_ p).pc with
  | front =>
      rw [LinkedScheduler.process]
      simp only [hollow_pc hpc rfl]
      rw [Scheduler.process]
      simp only [hpc]
      exact rel_of_ensures (holds_front h hp (by rw [hpc]; rfl) (by rfl))
  | frontAgain =>
      rw [LinkedScheduler.process]
      simp only [hollow_pc hpc rfl]
      rw [Scheduler.process]
      simp only [hpc]
      exact rel_of_ensures (holds_front h hp (by rw [hpc]; rfl) (by rfl))
  | addEmpty idle =>
      rw [LinkedScheduler.process]
      simp only [hollow_pc hpc rfl]
      rw [Scheduler.process]
      simp only [hpc]
      exact rel_of_ensures (holds_addEmpty h hp hpc)
  | addPop idle =>
      rw [LinkedScheduler.process]
      simp only [hollow_pc hpc rfl]
      rw [Scheduler.process]
      simp only [hpc]
      exact rel_of_ensures (holds_addPop h hp hpc)
  | addPush idle elements =>
      have hpc' : (s.hollow.processers_ p).pc = .addPush idle [] := by
        show (s.processers_ p).pc.hollow = _
        rw [hpc]
        rfl
      rw [LinkedScheduler.process]
      simp only [hpc']
      rw [Scheduler.process]
      simp only [hpc]
      exact rel_of_ensures (holds_addPush h hp hpc)
  | suspending tk =>
      rw [LinkedScheduler.process]
      simp only [hollow_pc hpc rfl]
      rw [Scheduler.process]
      simp only [hpc]
      exact rel_of_ensures (holds_suspendErase h hcoh hp hpc)
  | runnable | doneNext | doneErase =>
      have hout : (s.processers_ p).pc.SwappedOut := by
        rw [hpc]
        trivial
      obtain ⟨tk, hrun⟩ := Option.ne_none_iff_exists'.mp (hcoh.running hout)
      rw [LinkedScheduler.process]
      simp only [hollow_pc hpc rfl]
      rw [Scheduler.process]
      simp only [hpc, hrun]
      first
        | exact rel_of_ensures (holds_runnable h hcoh hp hpc hrun)
        | exact rel_of_ensures (holds_doneNext h hcoh hp hpc hrun)
        | exact rel_of_ensures (holds_doneErase h hcoh hp hpc hrun)
  | waitLoop | loop | exec tk | suspended tk | switched | block | doneAdvance =>
      have hplain : Plain (s.processers_ p).pc := by
        rw [hpc]
        trivial
      rw [LinkedScheduler.process]
      simp only [hollow_pc hpc rfl]
      exact rel_plain h (hollow_process hplain) fun t => keeps_process hplain

end Process

section Outside

theorem nextActive_hollow (n idx : Nat) : s.hollow.nextActive n idx = s.nextActive n idx := by
  induction n generalizing idx with
  | zero => rfl
  | succ n ih =>
      unfold Scheduler.nextActive
      simp only [ih]
      rfl

theorem addTask_hollow : s.hollow.addTask tk = (s.addTask tk).hollow := by
  have hsize : s.hollow.size = s.size := rfl
  have htask : s.hollow.task = s.task := rfl
  have hlast : s.hollow.lastActive_ = s.lastActive_ := rfl
  have hactive : ∀ p, (s.hollow.processers_ p).active_ = (s.processers_ p).active_ := fun _ => rfl
  unfold Scheduler.addTask
  simp only [nextActive_hollow, hsize, htask, hlast, hactive]
  cases (s.task tk).proc_ with
  | none => rfl
  | some p =>
      by_cases hactive : (s.processers_ p).active_ = true
      · simp only [if_pos hactive]
        rfl
      · simp only [if_neg hactive]
        rfl

theorem createTask_hollow (n : Int) : s.hollow.createTask n = (s.createTask n).hollow := by
  have hmap : s.hollow.free_task_map_ = s.free_task_map_ := rfl
  unfold Scheduler.createTask Scheduler.getFreeTaskList
  rw [hmap]
  cases s.free_task_map_.lowerBound n with
  | none => exact addTask_hollow (s := (s.newTask n).1)
  | some itr =>
      exact addTask_hollow (s := { s with free_task_map_ := s.free_task_map_.erase itr.id })

def Aside : SchedulerStep → Prop
  | .createTask _ | .yield _ | .suspendBySelfIo _ | .runOn _ | .finish _ | .wakeupBySelfIo _ => True
  | _ => False

theorem keeps_aside {e : SchedulerStep} (he : Aside e) (hs : s.step e = some t) : Keeps s t := by
  have hsame : Keeps s s := keeps_of rfl rfl rfl
  cases Scheduler.stepped hs with
  | createTask n =>
      have hcreated := Scheduler.created s n
      generalize s.createTask n = t at hcreated
      cases hcreated with
      | reused hitr p m => exact keeps_of rfl rfl rfl
      | new hnone p m => exact keeps_of rfl rfl rfl
  | yield hpc => apply hsame.setProcesser _ (by rw [hpc]; rfl) <;> rfl
  | suspendBySelfIo hpc =>
      unfold Scheduler.suspendBySelfIo
      apply Keeps.setProcesser (keeps_of _ _ _) _ (by rw [hpc]; rfl) <;> rfl
  | runOn hpc hback => apply hsame.setProcesser _ (by rw [hpc]; rfl) <;> rfl
  | finish hpc =>
      unfold Scheduler.finish
      apply Keeps.setProcesser (keeps_of _ _ _) _ (by rw [hpc]; rfl) <;> rfl
  | wakeupBySelfIo hmem =>
      unfold Scheduler.wakeupBySelfIo
      split
      · exact keeps_of rfl rfl rfl
      · exact keeps_of rfl rfl rfl
  | newProcessThread _ | addTask _ | process _ _ | wakeupPush _ | avgTotalTasks => exact he.elim

theorem hollow_aside {e : SchedulerStep} (he : Aside e) :
    s.hollow.step e = (s.step e).map Scheduler.hollow := by
  cases e with
  | createTask n => exact congrArg some (createTask_hollow n)
  | yield p | suspendBySelfIo p | finish p =>
      have hpc' : (s.hollow.processers_ p).pc = (s.processers_ p).pc.hollow := rfl
      unfold Scheduler.step
      simp only [hpc']
      cases hpc : (s.processers_ p).pc with
      | exec tk =>
          simp only [ProcessPc.hollow, Option.map_some, Scheduler.suspendBySelfIo,
            Scheduler.finish]
          rw [hollow_setProcesser]
          rfl
      | _ => rfl
  | runOn p =>
      have hpc' : (s.hollow.processers_ p).pc = (s.processers_ p).pc.hollow := rfl
      unfold Scheduler.step
      simp only [hpc']
      cases hpc : (s.processers_ p).pc with
      | suspended tk =>
          have hback : (tk ∉ s.hollow.suspended ∧ tk ∉ s.hollow.waking.map Prod.fst) ↔
              (tk ∉ s.suspended ∧ tk ∉ s.waking.map Prod.fst) := Iff.rfl
          simp only [ProcessPc.hollow, hback]
          by_cases hwoken : tk ∉ s.suspended ∧ tk ∉ s.waking.map Prod.fst
          · rw [if_pos hwoken, if_pos hwoken, Option.map_some, hollow_setProcesser]
            rfl
          · rw [if_neg hwoken, if_neg hwoken, Option.map_none]
      | _ => rfl
  | wakeupBySelfIo tk =>
      show (if tk ∈ s.suspended then some (s.hollow.wakeupBySelfIo tk) else none) =
        (if tk ∈ s.suspended then some (s.wakeupBySelfIo tk) else none).map Scheduler.hollow
      have htask : s.hollow.task = s.task := rfl
      have hwakeup : s.hollow.wakeupBySelfIo tk = (s.wakeupBySelfIo tk).hollow := by
        unfold Scheduler.wakeupBySelfIo
        rw [htask]
        cases (s.task tk).proc_ <;> rfl
      rw [hwakeup]
      split <;> rfl
  | newProcessThread | addTask k | process p | wakeupPush k | avgTotalTasks => exact he.elim

theorem ensures_push {q : Nat} {l : TaskQueue} (hst : Stores L.heap Q O) (hq : Q[q]? = some l)
    (htk : tk ∉ Q.flatten ++ O.flatten) : Ensures L (heapDo (operation (.push q tk))) fun _ L' =>
      ∃ h', Stores h' (Q.set q (l ++ [tk])) O ∧ L' = { L with heap := h' } :=
  ensures_heapDo (hst.push hq htk)

theorem holds_addTask {k : Nat} (h : L.Holds s) (hcoh : s.Coherent) (hb : s.Bounded)
    (hk : s.creating[k]? = some (tk, p)) :
    Ensures L (code L.control (.addTask k)) fun _ L' =>
      L'.Holds { (s.assert !s.linked tk).pushNew p [tk] with creating := s.creating.eraseIdx k } := by
  obtain ⟨hcontrol, Q, O, hst, hl⟩ := h
  have hp : p < s.size := hb.creating _ (List.mem_of_getElem? hk)
  have hlt : newQueue_ p < 2 * s.size := by
    unfold newQueue_
    omega
  have hq := hl.queue (newQueue_ p) hlt
  rw [queue_new] at hq
  have hmem : tk ∈ s.contents (.shared .creating) :=
    List.mem_map.mpr ⟨(tk, p), List.mem_of_getElem? hk, rfl⟩
  have hlinked : s.linked tk = false := hcoh.tidy.not_linked hmem (by simp [Place.IsList])
  have hk' : L.control.creating[k]? = some (tk, p) := by
    rw [hcontrol]
    exact hk
  apply (ensures_read (R := fun c L' => c = (tk, p) ∧ L' = L) hk' ⟨rfl, rfl⟩).bind
  rintro _ L' ⟨rfl, rfl⟩
  apply (ensures_push hst hq (out_of_lays hl hcoh.tidy hmem (by simp [Place.IsList]))).bind
  rintro _ _ ⟨h', hst', rfl⟩
  rw [hlinked, Bool.not_false, Scheduler.assert_true]
  refine ⟨(), _, rfl, ?_, _, _, hst', ?_⟩
  · have hhollow : (s.pushNew p [tk]).hollow = s.hollow := hollow_of_same rfl
    show { L'.control with creating := L'.control.creating.eraseIdx k } =
      { (s.pushNew p [tk]).hollow with creating := s.creating.eraseIdx k }
    rw [hhollow, hcontrol]
    rfl
  · exact lays_new hl hp rfl

theorem holds_wakeupPush {k : Nat} (h : L.Holds s) (hcoh : s.Coherent) (hb : s.Bounded)
    (hk : s.waking[k]? = some (tk, p)) :
    Ensures L (code L.control (.wakeupPush k)) fun _ L' => L'.Holds (s.wakeupPush k tk p) := by
  obtain ⟨hcontrol, Q, O, hst, hl⟩ := h
  have hp : p < s.size := hb.waking _ (List.mem_of_getElem? hk)
  have hq := hl.queue (runnableQueue_ p) (by unfold runnableQueue_; omega)
  rw [queue_runnable] at hq
  have hmem : tk ∈ s.contents (.shared .waking) :=
    List.mem_map.mpr ⟨(tk, p), List.mem_of_getElem? hk, rfl⟩
  have hlinked : s.linked tk = false := hcoh.tidy.not_linked hmem (by simp [Place.IsList])
  have hk' : L.control.waking[k]? = some (tk, p) := by
    rw [hcontrol]
    exact hk
  apply (ensures_read (R := fun c L' => c = (tk, p) ∧ L' = L) hk' ⟨rfl, rfl⟩).bind
  rintro _ L' ⟨rfl, rfl⟩
  apply (ensures_push hst hq (out_of_lays hl hcoh.tidy hmem (by simp [Place.IsList]))).bind
  rintro _ _ ⟨h', hst', rfl⟩
  unfold Scheduler.wakeupPush
  simp only [hlinked, Bool.not_false, Scheduler.assert_true]
  refine ⟨(), _, rfl, ?_, _, _, hst', ?_⟩
  · have hhollow := hollow_of_same (s := s) (p := p) (x := { s.processers_ p with
      runnableQueue_ := (s.processers_ p).runnableQueue_.pushWithoutLock [tk] }) rfl
    show { L'.control with waking := L'.control.waking.eraseIdx k } = _
    rw [hcontrol, ← hhollow]
    rfl
  · exact lays_runnable hl hp rfl

theorem lays_newProcesser (hl : Lays ls Q O (2 * s.size) s.queue s.localList s.inScope)
    (hb : s.Bounded) : Lays ls (Q ++ [[]] ++ [[]]) O (2 * (s.size + 1)) s.queue s.localList
      s.inScope := by
  have hmake := hb.processers s.size (Nat.le_refl _)
  have hrunnable : s.queue (runnableQueue_ s.size) = [] := by
    rw [queue_runnable, hmake]
    rfl
  have hnew : s.queue (newQueue_ s.size) = [] := by
    rw [queue_new, hmake]
    rfl
  refine { hl with length := ?_, queue := ?_ }
  · simp only [List.length_append, List.length_singleton, hl.length]
    omega
  · intro q hq
    rw [List.append_assoc]
    by_cases hlt : q < 2 * s.size
    · rw [List.getElem?_append_left (hl.length ▸ hlt), hl.queue q hlt]
    · have hcase : q = runnableQueue_ s.size ∨ q = newQueue_ s.size := by
        unfold runnableQueue_ newQueue_
        omega
      rw [List.getElem?_append_right (by rw [hl.length]; omega), hl.length]
      rcases hcase with rfl | rfl
      · rw [hrunnable, runnableQueue_, Nat.sub_self]
        rfl
      · rw [hnew, newQueue_, Nat.add_sub_cancel_left]
        rfl

theorem rel_newProcessThread (h : L.Holds s) (hb : s.Bounded) :
    Option.Rel Holds ((code L.control .newProcessThread L).map Prod.snd)
      (s.step .newProcessThread) := by
  obtain ⟨hcontrol, Q, O, hst, hl⟩ := h
  by_cases hidle : s.dispatcher = .idle
  · have hstep : s.step .newProcessThread = some { s with size := s.size + 1 } := if_pos hidle
    have hstep' : L.control.step .newProcessThread = some { s with size := s.size + 1 }.hollow := by
      rw [hcontrol]
      exact if_pos (congrArg DispatcherPc.hollow hidle)
    rw [hstep]
    apply rel_of_ensures
    apply (ensures_heapDo hst.newQueue).bind
    rintro _ _ ⟨h', hst', rfl⟩
    apply (ensures_heapDo (L := { L with heap := h' }) hst'.newQueue).bind
    rintro _ _ ⟨h'', hst'', rfl⟩
    rw [hstep']
    exact ⟨(), _, rfl, rfl, _, _, hst'', lays_newProcesser hl hb⟩
  · have hstep : s.step .newProcessThread = none := if_neg hidle
    have hstep' : L.control.step .newProcessThread = none := by
      rw [hcontrol]
      apply if_neg
      intro hhollow
      change s.dispatcher.hollow = .idle at hhollow
      apply hidle
      cases hd : s.dispatcher <;> rw [hd] at hhollow <;> first | rfl | cases hhollow
    have hstuck : code L.control .newProcessThread = stuck := by
      show newProcessThread L.control = _
      unfold newProcessThread
      rw [hstep']
      exact (congrArg _ (funext fun _ => bind_stuck)).trans bind_stuck
    rw [hstep, hstuck]
    exact .none

end Outside

end LinkedScheduler

end CppGo.Scheduling
