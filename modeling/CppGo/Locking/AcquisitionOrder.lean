import CppGo.Lib.LockOrder
import CppGo.Locking.LockSequences

/-!
# The order of acquisition

The locks of channels, mutexes and timer handles come first, then the timer maps, then the
queues of the Processers, and last the map of free tasks.
-/

namespace CppGo.Locking

open CppGo.Lib CppGo.Lib.LockCode

def LFLock.rank : LFLock → Fin 4
  | channel _ => 0
  | mutex _ => 0
  | timer _ => 0
  | map _ => 1
  | runnableQueue _ => 2
  | newQueue _ => 2
  | freeTaskMap _ => 3

open LFLock (rank)

variable {timeout : Int} {h h' : List LFLock} {a b : Code}

/-! ## Queues, timers and tasks

These may be called under the locks before them in the order. -/

theorem guarded_keeps (l : LFLock) : Keeps rank (rank l) (guarded l .skip) := Keeps.guarded_skip

theorem wakeup_keeps : Keeps rank 2 wakeup :=
  Keeps.choose fun p => guarded_keeps (.runnableQueue p)

theorem suspendBySelfIo_keeps : Keeps rank 2 (.choose Processer.suspendBySelfIo) :=
  Keeps.choose fun p => guarded_keeps (.runnableQueue p)

theorem addTask_keeps (p : Nat) : Keeps rank 2 (Processer.addTask p) :=
  guarded_keeps (.newQueue p)

theorem addTimer_keeps (p : Nat) : Keeps rank 1 (TimerManager.addTimer p) := by
  intro h hh
  exact .block_cons (.acquire hh) (.block_one .release)

theorem createMilliTimer_keeps : Keeps rank 1 Scheduler.createMilliTimer :=
  Keeps.choose addTimer_keeps

theorem stopTimer_keeps (id : Nat) : Keeps rank 0 (Scheduler.stopTimer id) := by
  have hmanager : ∀ p, Keeps rank 1 (Processer.stopTimer p) :=
    fun p => guarded_keeps (.map p)
  have hbody : Keeps rank 1 (opt (.choose Processer.stopTimer)) := (Keeps.choose hmanager).opt
  exact (Keeps.guarded (l := LFLock.timer id) (by simp [rank]) hbody).opt

theorem stopTimer_choose_keeps : Keeps rank 0 (.choose Scheduler.stopTimer) :=
  Keeps.choose stopTimer_keeps

theorem createTask_keeps (s : Nat) : Keeps rank 2 (Scheduler.createTask s) := by
  have hfree : Keeps rank 3 (Scheduler.getFreeTaskList s) :=
    guarded_keeps (.freeTaskMap s)
  apply Keeps.block
  rw [List.forall_mem_cons, List.forall_mem_singleton]
  exact ⟨hfree.mono (by decide), Keeps.choose addTask_keeps⟩

/-! ## Channels -/

namespace FastChannelImpl

variable {c : Nat}

theorem notifyOne_takes (hh : ∀ m ∈ h, rank m < 2) (ha : a.Takes rank h h')
    (hb : b.Takes rank h h') : (notifyOne a b).Takes rank h h' :=
  .alt (.block_cons (wakeup_keeps h hh) (.block_one ha)) hb

theorem notifyAll_keeps : Keeps rank 2 notifyAll := by
  intro h hh
  have hloop : (LockCode.loop (notifyOne .skip .skip)).Takes rank h h :=
    .loop (notifyOne_takes hh .skip .skip)
  exact .block_cons hloop (.block_one hloop)

/-- The lock of the channel is released before the task switches out. -/
theorem waite_takes : (waite c timeout).Takes rank [.channel c] [] :=
  .block_cons ((createMilliTimer_keeps.ite Keeps.skip).takes_one (by simp [rank])) <|
  .block_cons (suspendBySelfIo_keeps.takes_one (by simp [rank])) <|
  .block_cons .release <|
  .block_cons .switch <|
  .block_one (stopTimer_choose_keeps.opt.ite Keeps.skip).takes_nil

theorem wait_takes :
    (if timeout = 0 then .release (.channel c) else waite c timeout : Code).Takes rank
      [.channel c] [] := by
  split
  · exact .release
  · exact waite_takes

theorem notifyOne_takes_nil (ha : a.Takes rank [.channel c] []) (hb : b.Takes rank [.channel c] []) :
    (notifyOne a b).Takes rank [.channel c] [] := by
  apply notifyOne_takes ?_ ha hb
  simp [rank]

theorem push_takes (c : Nat) (timeout : Int) : (push c timeout).Takes rank [] [] := by
  have hret : (LockCode.release (.channel c)).Takes rank [.channel c] [] := .release
  have hbuffer := (notifyOne_takes_nil hret hret).alt hret
  refine .block_cons (.acquire fun _ hm => absurd hm List.not_mem_nil) (.block_one ?_)
  exact .alt hret (.alt (notifyOne_takes_nil hret wait_takes) (.alt hbuffer wait_takes))

theorem pop_takes (c : Nat) (timeout : Int) : (pop c timeout).Takes rank [] [] := by
  have hret : (LockCode.release (.channel c)).Takes rank [.channel c] [] := .release
  have hbuffer := (notifyOne_takes_nil hret hret).alt hret
  refine .block_cons (.acquire fun _ hm => absurd hm List.not_mem_nil) (.block_one ?_)
  exact .alt hret (.alt (.alt hbuffer wait_takes) (notifyOne_takes_nil hret wait_takes))

theorem close_takes (c : Nat) : (close c).Takes rank [] [] := by
  have hret : (LockCode.release (.channel c)).Takes rank [.channel c] [] := .release
  refine .block_cons (.acquire fun _ hm => absurd hm List.not_mem_nil) (.block_one ?_)
  exact .alt hret (.block_cons (notifyAll_keeps.takes_one (by simp [rank])) (.block_one hret))

end FastChannelImpl

/-! ## Mutexes and condition variables -/

namespace CoMutex

theorem acquire_takes (m : Nat) : (.acquire (.mutex m) : Code).Takes rank [] [.mutex m] :=
  .acquire fun _ hm => absurd hm List.not_mem_nil

theorem lockWait_takes (m : Nat) : (lockWait m).Takes rank [] [] := by
  apply Takes.choose
  intro p
  have hqueue : Keeps rank 2 (guarded (.runnableQueue p) .skip) := guarded_keeps (.runnableQueue p)
  refine .block_cons hqueue.takes_nil (.block_cons (acquire_takes m) (.block_one (.alt ?_ ?_)))
  · exact .block_cons (hqueue.takes_one (by simp [rank])) (.block_one .release)
  · exact .block_cons .release (.block_one .switch)

theorem lock_takes (m : Nat) : (lock m).Takes rank [] [] := by
  have hretry := lockWait_takes m
  have hfound : (block [.release (.mutex m), lockWait m]).Takes rank [.mutex m] [] :=
    .block_cons .release (.block_one hretry)
  refine .block_cons (acquire_takes m) (.block_one (.alt .release ?_))
  exact .block_cons .release
    (.block_cons .switch (.block_one (.tryAcquire (.alt .release hfound) hretry)))

theorem tryLock_takes (m : Nat) : (tryLock m).Takes rank [] [] := (guarded_keeps _).takes_nil

theorem unlock_takes (m : Nat) : (unlock m).Takes rank [] [] := by
  refine .block_cons (acquire_takes m) (.block_one (.alt ?_ .release))
  exact .block_cons .release (.block_one wakeup_keeps.takes_nil)

end CoMutex

namespace CoConditionVariable

theorem wait_takes (m : Nat) (timeout : Int) : (wait m timeout).Takes rank [] [] :=
  .block_cons (createMilliTimer_keeps.ite Keeps.skip).takes_nil <|
  .block_cons suspendBySelfIo_keeps.takes_nil <|
  .block_cons (CoMutex.unlock_takes m) <|
  .block_cons .switch <|
  .block_cons (CoMutex.lock_takes m) <|
  .block_one (stopTimer_choose_keeps.opt.ite Keeps.skip).takes_nil

theorem notifyOne_takes : notifyOne.Takes rank [] [] := wakeup_keeps.opt.takes_nil

theorem notifyAll_takes : notifyAll.Takes rank [] [] := wakeup_keeps.loop.takes_nil

end CoConditionVariable

/-! ## The work of a Processer -/

theorem callback_takes : callback.Takes rank [] [] := by
  apply Takes.loop
  apply Takes.oneOf
  simp only [List.forall_mem_cons, List.not_mem_nil, false_implies, implies_true, and_true]
  refine ⟨wakeup_keeps.takes_nil, createMilliTimer_keeps.takes_nil,
    stopTimer_choose_keeps.takes_nil, (Keeps.choose createTask_keeps).takes_nil, ?_, ?_, ?_⟩
  · exact .choose fun c => FastChannelImpl.push_takes c 0
  · exact .choose fun c => FastChannelImpl.pop_takes c 0
  · exact .choose FastChannelImpl.close_takes

/-- The lock of the map is given up around a callback, and tasks are woken up under it. -/
theorem wakeupTimers_takes (p : Nat) : (TimerManager.wakeupTimers p).Takes rank [] [] := by
  have hacquire : (LockCode.acquire (.map p)).Takes rank [] [.map p] :=
    .acquire fun _ hm => absurd hm List.not_mem_nil
  refine .block_cons hacquire (.block_one (.alt .release ?_))
  refine .block_cons (.loop (.alt ?_ (wakeup_keeps.takes_one (by simp [rank]))))
    (.block_one .release)
  exact .block_cons .release (.block_cons callback_takes (.block_one hacquire))

namespace Processer

variable (p : Nat)

theorem waitLoop_takes : waitLoop.Takes rank [] [] :=
  .loop (.block_cons wakeup_keeps.takes_nil (.block_one stopTimer_choose_keeps.opt.takes_nil))

theorem addNewTasks_takes (ha : a.Takes rank [] []) (hb : b.Takes rank [] []) :
    (addNewTasks p a b).Takes rank [] [] := by
  have hnew : (guarded (.newQueue p) .skip : Code).Takes rank [] [] := (guarded_keeps _).takes_nil
  have hrunnable : (guarded (.runnableQueue p) .skip : Code).Takes rank [] [] :=
    (guarded_keeps _).takes_nil
  refine .block_cons hnew (.block_one (.alt hb ?_))
  exact .block_cons hnew.opt (.block_cons hrunnable.opt (.block_one ha))

/-- The ended task goes into the cache under the lock of the queue. -/
theorem doneTask_takes : (doneTask p).Takes rank [] [] := by
  have hqueue : (guarded (.runnableQueue p) .skip : Code).Takes rank [] [] :=
    (guarded_keeps _).takes_nil
  have hcache : Keeps rank 3 (Scheduler.add2FreeTaskList 0) := guarded_keeps (.freeTaskMap 0)
  have hadd : Keeps rank 2 (guarded (.runnableQueue p) (Scheduler.add2FreeTaskList 0)) :=
    hcache.guarded (l := LFLock.runnableQueue p) (by simp [rank])
  exact .block_cons hqueue (.block_cons hqueue (.block_one hadd.takes_nil))

theorem runTask_takes : (runTask p).Takes rank [] [] := by
  refine .block_cons .switch (.block_one (.oneOf ?_))
  simp only [List.forall_mem_cons, List.not_mem_nil, false_implies, implies_true, and_true]
  exact ⟨(guarded_keeps _).takes_nil, (guarded_keeps _).takes_nil, doneTask_takes p⟩

theorem runTasks_takes : (runTasks p).Takes rank [] [] :=
  .block_cons (.loop (runTask_takes p)) (.block_one (.opt (addNewTasks_takes p .skip .skip)))

theorem idle_takes : (idle p).Takes rank [] [] :=
  .block_cons (guarded_keeps _).takes_nil <|
  .block_cons waitLoop_takes <|
  .block_one (wakeupTimers_takes p)

theorem releaseTask_takes : (releaseTask p).Takes rank [] [] := by
  have hnew : (guarded (.newQueue p) .skip : Code).Takes rank [] [] := (guarded_keeps _).takes_nil
  have hrunnable : (guarded (.runnableQueue p) .skip : Code).Takes rank [] [] :=
    (guarded_keeps _).takes_nil
  exact .block_cons (.loop (.block_cons hrunnable (.block_one hrunnable.opt))) <|
    .block_cons hrunnable <|
    .block_cons (.loop (.block_cons hnew (.block_one hnew.opt))) <|
    .block_one hnew

theorem process_takes : (process p).Takes rank [] [] := by
  have hfront : (TSQueue.front (.runnableQueue p)).Takes rank [] [] := (guarded_keeps _).takes_nil
  have hrun := runTasks_takes p
  have hadded : (block [TSQueue.front (.runnableQueue p), alt (runTasks p) (idle p)]).Takes rank
      [] [] := .block_cons hfront (.block_one (.alt hrun (idle_takes p)))
  refine .block_cons (.loop ?_) (.block_one (releaseTask_takes p))
  exact .block_cons hfront (.block_one (.alt hrun (addNewTasks_takes p hadded (idle_takes p))))

theorem runnableSize_takes : (runnableSize p).Takes rank [] [] :=
  .block_cons (guarded_keeps _).takes_nil (.block_one (guarded_keeps _).takes_nil)

theorem steal_takes (n : Nat) : (steal p n).Takes rank [] [] := by
  unfold steal
  split
  · exact .block_cons (guarded_keeps _).opt.takes_nil
      (.block_one (guarded_keeps _).opt.takes_nil)
  · exact .block_cons (guarded_keeps _).opt.takes_nil (.block_one (guarded_keeps _).takes_nil)

theorem sleep_takes (milliseconds : Int) : (sleep milliseconds).Takes rank [] [] := by
  refine .block_cons ?_ (.block_one .switch)
  split
  · exact .choose fun p => .block_cons (guarded_keeps _).takes_nil
      (.block_one (addTimer_keeps p).takes_nil)
  · exact .skip

end Processer

theorem avgTotalTasks_takes (processers_ : List Nat) :
    (Scheduler.avgTotalTasks processers_).Takes rank [] [] := by
  have hsizes : (block (processers_.map Processer.runnableSize)).Takes rank [] [] :=
    .block (List.forall_mem_map.mpr fun p _ => Processer.runnableSize_takes p)
  have hsteal : ∀ p, (opt (.choose (Processer.steal p))).Takes rank [] [] :=
    fun p => .opt (.choose (Processer.steal_takes p))
  have hadd : ∀ p, (opt (Processer.addTask p)).Takes rank [] [] :=
    fun p => (addTask_keeps p).opt.takes_nil
  unfold Scheduler.avgTotalTasks
  simp only
  split
  · exact .skip
  · refine .block_cons hsizes (.block_one (.opt ?_))
    exact .block_cons (.block (List.forall_mem_map.mpr fun p _ => hsteal p)) <|
      .block_cons (.block (List.forall_mem_map.mpr fun p _ => hadd p)) <|
      .block_cons (hadd _) <|
      .block_one hsizes

theorem poll_takes (timeout : Int) : (InnerIoWait.poll timeout).Takes rank [] [] :=
  .opt <|
  .block_cons (createMilliTimer_keeps.ite Keeps.skip).takes_nil <|
  .block_cons suspendBySelfIo_keeps.takes_nil <|
  .block_one .switch

/-! ## The calls -/

theorem Call.takes (a : Call) : a.code.Takes rank [] [] := by
  cases a with
  | push c timeout => exact FastChannelImpl.push_takes c timeout
  | pop c timeout => exact FastChannelImpl.pop_takes c timeout
  | close c => exact FastChannelImpl.close_takes c
  | lock m => exact CoMutex.lock_takes m
  | tryLock m => exact CoMutex.tryLock_takes m
  | unlock m => exact CoMutex.unlock_takes m
  | wait m timeout => exact CoConditionVariable.wait_takes m timeout
  | notifyOne => exact CoConditionVariable.notifyOne_takes
  | notifyAll => exact CoConditionVariable.notifyAll_takes
  | createMilliTimer => exact createMilliTimer_keeps.takes_nil
  | stopTimer id => exact (stopTimer_keeps id).takes_nil
  | sleep milliseconds => exact Processer.sleep_takes milliseconds
  | coYield => exact .switch
  | poll timeout => exact poll_takes timeout
  | createTask s => exact (createTask_keeps s).takes_nil
  | finish => exact .switch

theorem ThreadCall.takes (b : ThreadCall) : b.code.Takes rank [] [] := by
  cases b with
  | process p => exact Processer.process_takes p
  | avgTotalTasks processers_ => exact avgTotalTasks_takes processers_
  | createTask s => exact (createTask_keeps s).takes_nil
  | createMilliTimer => exact createMilliTimer_keeps.takes_nil
  | stopTimer id => exact (stopTimer_keeps id).takes_nil
  | tryPush c => exact FastChannelImpl.push_takes c 0
  | tryPop c => exact FastChannelImpl.pop_takes c 0
  | close c => exact FastChannelImpl.close_takes c

end CppGo.Locking
