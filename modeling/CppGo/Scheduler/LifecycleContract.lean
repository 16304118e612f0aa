import CppGo.Lib.Machine
import CppGo.Scheduler.Lifecycle

/-!
# Whom `Stop` waits for

If `stop_` is set when `Start` has come to the main Processer, then a call of `Stop` waits
only for Processers that another thread runs, and the wait can come to its end.
-/

namespace CppGo.Scheduling

open CppGo.Lib CppGo.Lib.Machine

namespace Lifecycle

variable {S T : Lifecycle} {c : Caller} {e : LifecycleStep} {i k n : Nat}

/-! ## The threads -/

def Before : StartPc → Prop
  | .process | .returned => False
  | _ => True

inductive Main : StartPc → ProcessCall → Prop
  | before {pc : StartPc} (h : Before pc) : Main pc .notCalled
  | running : Main .process .running
  | releasing : Main .process .releasing
  | returned : Main .returned .returned

theorem Main.notCalled {pc : StartPc} {call : ProcessCall} (h : Main pc call) (hpc : Before pc) :
    call = .notCalled := by
  cases h with
  | before => rfl
  | running | releasing | returned => exact hpc.elim

/-- The number of Processers that are there, with the one that `NewProcessThread` is at. -/
def created (S : Lifecycle) : Nat :=
  match S.start with
  | .pushBack _ _ => S.size + 1
  | _ => S.size

/-- The threads that `Start` creates, and those in `Start` and in `Process`. -/
structure Threads (S : Lifecycle) : Prop where
  main : Main S.start (S.process 0)
  started : S.started_ = none → S.start = .notCalled
  size_pos : 0 < S.size
  processes : ∀ i, 0 < i → i < S.created → S.process i ≠ .notCalled
  joinable : S.stop_ = false → ∀ i, 0 < i → i < S.created → S.joinable i = true
  quiet : S.stop_ = false → ∀ i, S.process i = .notCalled ∨ S.process i = .running
  busy : ∀ k, S.inStart k = true → S.inStop (.user k) = false

theorem threads_make : make.Threads where
  main := .before trivial
  started _ := rfl
  size_pos := Nat.one_pos
  processes _ hi hlt := absurd hlt (Nat.not_lt.mpr hi)
  joinable _ _ hi hlt := absurd hlt (Nat.not_lt.mpr hi)
  quiet _ _ := .inl rfl
  busy _ _ := rfl

theorem Threads.same (h : S.Threads) (hstarted : T.started_ = S.started_)
    (hstart : T.start = S.start) (hsize : T.size = S.size) (hprocess : T.process = S.process)
    (hstop : T.stop_ = false → S.stop_ = false ∧ T.joinable = S.joinable)
    (hin : ∀ k, S.inStart k = true → T.inStop (.user k) = true → S.inStop (.user k) = true) :
    T.Threads := by
  have hcreated : T.created = S.created := by
    unfold created
    rw [hstart, hsize]
  have hinStart : ∀ k, T.inStart k = S.inStart k := by
    intro k
    unfold inStart
    rw [hstarted, hstart]
  constructor
  case main =>
    rw [hstart, hprocess]
    exact h.main
  case started =>
    rw [hstarted, hstart]
    exact h.started
  case size_pos =>
    rw [hsize]
    exact h.size_pos
  case processes =>
    rw [hcreated, hprocess]
    exact h.processes
  case joinable =>
    intro hT
    rw [hcreated, (hstop hT).2]
    exact h.joinable (hstop hT).1
  case quiet =>
    intro hT
    rw [hprocess]
    exact h.quiet (hstop hT).1
  case busy =>
    intro k hk
    rw [hinStart] at hk
    cases hbusy : T.inStop (.user k)
    · rfl
    · have hfree := h.busy k hk
      rw [hin k hk hbusy] at hfree
      cases hfree

theorem Threads.callStart {numbers : Int × Int} (h : S.Threads)
    (hfree : S.inStop (.user k) = false) : (S.callStart k numbers).Threads := by
  unfold Lifecycle.callStart
  split
  case h_1 => exact h
  case h_2 hnone =>
    have hstart := h.started hnone
    have hcreated : S.created = S.size := by
      unfold created
      rw [hstart]
    constructor
    case main =>
      have hmain := h.main
      rw [hstart] at hmain
      show Main _ (S.process 0)
      rw [hmain.notCalled trivial]
      exact .before trivial
    case started => exact nofun
    case size_pos => exact h.size_pos
    case processes => exact hcreated ▸ h.processes
    case joinable => exact hcreated ▸ h.joinable
    case quiet => exact h.quiet
    case busy =>
      intro k' hk'
      simp only [inStart, Bool.and_eq_true, decide_eq_true_eq, Option.some.injEq] at hk'
      exact hk'.1 ▸ hfree

theorem inStop_congr (hstop : T.stop = S.stop) (hblocked : T.blocked = S.blocked) :
    T.inStop c = S.inStop c := by
  unfold inStop
  rw [hstop, hblocked]

theorem inStart_of_before (hpc : Before S.start) (hstarted : S.started_ = some k) :
    S.inStart k = true := by
  unfold inStart
  cases hstart : S.start with
  | returned => exact (hstart ▸ hpc : Before .returned).elim
  | _ => simp [hstarted]

/-- A step of `Start` before `mainProc->Process()`, which may create a thread. -/
theorem Threads.advance (h : S.Threads) (hS : Before S.start) (hcalled : S.start ≠ .notCalled)
    (hT : Before T.start) (hsize : 0 < T.size) (hstarted : T.started_ = S.started_)
    (hstop_ : T.stop_ = S.stop_) (hstop : T.stop = S.stop) (hblocked : T.blocked = S.blocked)
    (hmain : T.process 0 = S.process 0)
    (hthread : ∀ i, T.process i = S.process i ∧ T.joinable i = S.joinable i ∧
        (i < T.created → i < S.created) ∨
      T.process i = .running ∧ T.joinable i = true) : T.Threads := by
  have hnone : S.started_ ≠ none := fun hnone => hcalled (h.started hnone)
  constructor
  case main =>
    rw [hmain, h.main.notCalled hS]
    exact .before hT
  case started =>
    intro hnone'
    exact absurd (hstarted ▸ hnone') hnone
  case size_pos => exact hsize
  case processes =>
    intro i hi hlt
    rcases hthread i with ⟨hprocess, -, hcreated⟩ | ⟨hprocess, -⟩
    · rw [hprocess]
      exact h.processes i hi (hcreated hlt)
    · rw [hprocess]
      exact nofun
  case joinable =>
    intro hfalse i hi hlt
    rcases hthread i with ⟨-, hjoinable, hcreated⟩ | ⟨-, hjoinable⟩
    · rw [hjoinable]
      exact h.joinable (hstop_ ▸ hfalse) i hi (hcreated hlt)
    · exact hjoinable
  case quiet =>
    intro hfalse i
    rcases hthread i with ⟨hprocess, -⟩ | ⟨hprocess, -⟩
    · rw [hprocess]
      exact h.quiet (hstop_ ▸ hfalse) i
    · exact .inr hprocess
  case busy =>
    intro k hk
    rw [inStop_congr hstop hblocked]
    apply h.busy k
    apply inStart_of_before hS
    simp only [inStart, Bool.and_eq_true, decide_eq_true_eq] at hk
    rw [← hstarted]
    exact hk.1

theorem Threads.goOn (h : S.Threads) (hS : Before S.start) (hcalled : S.start ≠ .notCalled)
    (hT : Before T.start) (hsize : 0 < T.size) (hstarted : T.started_ = S.started_)
    (hstop_ : T.stop_ = S.stop_) (hstop : T.stop = S.stop) (hblocked : T.blocked = S.blocked)
    (hprocess : T.process = S.process) (hjoinable : T.joinable = S.joinable)
    (hcreated : T.created ≤ S.created) : T.Threads := by
  apply h.advance hS hcalled hT hsize hstarted hstop_ hstop hblocked (congrFun hprocess 0)
  intro i
  exact .inl ⟨congrFun hprocess i, congrFun hjoinable i, fun hlt => by omega⟩

theorem Threads.mainProc (h : S.Threads) (hpc : S.start = .mainProc) :
    ({ S with process := Function.update S.process 0 .running, start := .process } :
      Lifecycle).Threads := by
  have hprocess : ∀ i, 0 < i → Function.update S.process 0 .running i = S.process i :=
    fun i hi => Function.update_of_ne (Nat.ne_of_gt hi) ..
  have hcreated : S.created = S.size := by
    unfold created
    rw [hpc]
  have hbefore : Before S.start := by
    rw [hpc]
    trivial
  constructor
  case main =>
    show Main _ (Function.update S.process 0 .running 0)
    rw [Function.update_self]
    exact .running
  case started =>
    intro hnone
    have hstart := h.started hnone
    rw [hpc] at hstart
    cases hstart
  case size_pos => exact h.size_pos
  case processes =>
    intro i hi hlt
    show Function.update S.process 0 .running i ≠ _
    rw [hprocess i hi]
    exact h.processes i hi (hcreated ▸ hlt)
  case joinable => exact fun hfalse i hi hlt => h.joinable hfalse i hi (hcreated ▸ hlt)
  case quiet =>
    intro hfalse i
    show Function.update S.process 0 .running i = _ ∨ Function.update S.process 0 .running i = _
    rcases Nat.eq_zero_or_pos i with rfl | hi
    · exact .inr (Function.update_self ..)
    · rw [hprocess i hi]
      exact h.quiet hfalse i
  case busy =>
    intro k hk
    apply h.busy k
    apply inStart_of_before hbefore
    simp only [inStart, Bool.and_eq_true, decide_eq_true_eq] at hk
    exact hk.1

theorem Threads.start (h : S.Threads) (hs : S.startStep = some T) : T.Threads := by
  have hpos := h.size_pos
  have hprior : ∀ pc, S.start = pc → Before pc → pc ≠ .notCalled →
      Before S.start ∧ S.start ≠ .notCalled := by
    rintro pc rfl hbefore hcalled
    exact ⟨hbefore, hcalled⟩
  unfold startStep at hs
  split at hs
  case h_1 n d hpc =>
    cases hs
    obtain ⟨hbefore, hcalled⟩ := hprior _ hpc trivial nofun
    refine h.advance hbefore hcalled trivial hpos rfl rfl rfl rfl
      (Function.update_of_ne (Nat.ne_of_lt hpos) ..) ?_
    intro i
    by_cases hi : i = S.size
    · subst hi
      exact .inr ⟨Function.update_self .., Function.update_self ..⟩
    · refine .inl ⟨Function.update_of_ne hi .., Function.update_of_ne hi .., ?_⟩
      simp only [created, hpc]
      omega
  case h_2 n d hpc =>
    cases hs
    obtain ⟨hbefore, hcalled⟩ := hprior _ hpc trivial nofun
    refine h.goOn hbefore hcalled trivial (Nat.succ_pos _) rfl rfl rfl rfl rfl rfl ?_
    simp only [created, hpc]
    omega
  case h_3 d hpc =>
    cases hs
    obtain ⟨hbefore, hcalled⟩ := hprior _ hpc trivial nofun
    refine h.goOn hbefore hcalled trivial hpos rfl rfl rfl rfl rfl rfl ?_
    simp only [created, hpc]
    omega
  case h_4 d hpc =>
    cases hs
    obtain ⟨hbefore, hcalled⟩ := hprior _ hpc trivial nofun
    refine h.goOn hbefore hcalled trivial hpos rfl rfl rfl rfl rfl rfl ?_
    simp only [created, hpc]
    omega
  case h_5 hpc =>
    cases hs
    exact h.mainProc hpc
  all_goals cases hs

theorem Threads.setProcess {call : ProcessCall} (h : S.Threads) (hstop_ : S.stop_ = true)
    (hprocess : T.process = Function.update S.process i call) (hcall : call ≠ .notCalled)
    (hmain : Main T.start (T.process 0)) (hstarted : T.started_ = S.started_)
    (hcalled : S.started_ = none → T.start = .notCalled) (hsize : T.size = S.size)
    (hcreated : T.created = S.created) (hstop : T.stop_ = S.stop_)
    (hin : ∀ k, T.inStart k = true → S.inStart k = true)
    (hinStop : ∀ c, T.inStop c = S.inStop c) : T.Threads := by
  have htrue : T.stop_ = true := hstop.trans hstop_
  constructor
  case main => exact hmain
  case started =>
    rw [hstarted]
    exact hcalled
  case size_pos =>
    rw [hsize]
    exact h.size_pos
  case processes =>
    intro j hj hlt
    rw [hprocess]
    by_cases hji : j = i
    · rw [hji, Function.update_self]
      exact hcall
    · rw [Function.update_of_ne hji]
      exact h.processes j hj (hcreated ▸ hlt)
  case joinable =>
    intro hfalse
    rw [htrue] at hfalse
    cases hfalse
  case quiet =>
    intro hfalse
    rw [htrue] at hfalse
    cases hfalse
  case busy =>
    intro k hk
    rw [hinStop]
    exact h.busy k (hin k hk)

theorem Threads.isStop (h : S.Threads) (hrunning : S.process i = .running) :
    (S.isStop i).Threads := by
  unfold Lifecycle.isStop
  split
  case isFalse => exact h
  case isTrue hstop_ =>
    refine h.setProcess hstop_ rfl ProcessCall.noConfusion ?_ rfl h.started rfl rfl rfl
      (fun _ hk => hk) (fun _ => rfl)
    show Main S.start (Function.update S.process i .releasing 0)
    have hmain := h.main
    by_cases hi : 0 = i
    · subst hi
      rw [hrunning] at hmain
      rw [Function.update_self]
      generalize S.start = pc at hmain
      cases hmain
      exact .releasing
    · rw [Function.update_of_ne hi]
      exact hmain

/-- While `stop_` is not set, `Process` goes on. -/
theorem Threads.stop_of_releasing (h : S.Threads) (hreleasing : S.process i = .releasing) :
    S.stop_ = true := by
  cases hstop_ : S.stop_ with
  | true => rfl
  | false => rcases h.quiet hstop_ i with hi | hi <;> rw [hreleasing] at hi <;> cases hi

theorem Threads.returnProcess (h : S.Threads) (hreleasing : S.process i = .releasing) :
    (S.returnProcess i).Threads := by
  have hstop_ := h.stop_of_releasing hreleasing
  have hmain := h.main
  by_cases hi : i = 0
  · subst hi
    rw [hreleasing] at hmain
    have hstart : S.start = .process := by
      generalize S.start = pc at hmain
      cases hmain
      rfl
    refine h.setProcess hstop_ rfl ProcessCall.noConfusion ?_ rfl ?_ rfl ?_ rfl ?_ (fun _ => rfl)
    · show Main .returned (Function.update S.process 0 .returned 0)
      rw [Function.update_self]
      exact .returned
    · intro hnone
      have hnot := h.started hnone
      rw [hstart] at hnot
      cases hnot
    · unfold created
      rw [hstart]
      rfl
    · intro k hk
      simp [inStart, Lifecycle.returnProcess] at hk
  · have hstart : (S.returnProcess i).start = S.start := if_neg hi
    refine h.setProcess hstop_ rfl ProcessCall.noConfusion ?_ rfl ?_ rfl ?_ rfl ?_ (fun _ => rfl)
    · rw [hstart]
      show Main S.start (Function.update S.process i .returned 0)
      rw [Function.update_of_ne (Ne.symm hi)]
      exact hmain
    · rw [hstart]
      exact h.started
    · unfold created
      rw [hstart]
      rfl
    · intro k hk
      unfold inStart at hk ⊢
      rw [hstart] at hk
      exact hk

/-! ## The call that has set `stop_` -/

def Unjoined (S : Lifecycle) (i : Nat) : Prop :=
  ∀ j, i ≤ j → 0 < j → j < S.size → S.joinable j = true

inductive Stopping (S : Lifecycle) (c : Caller) : HolderPc → Prop
  | dispatcher (h : S.Unjoined 0) : Stopping S c .dispatcher
  | processer {i : Nat} (h : S.Unjoined i) : Stopping S c (.processer i S.size)
  | join {i : Nat} (h : S.Unjoined i) (hpos : 0 < i) (hlt : i < S.size)
      (hself : c ≠ .coroutine i) : Stopping S c (.join i S.size)
  | active (h : S.Unjoined 0) : Stopping S c (.active 0 S.size)

structure Inv (S : Lifecycle) : Prop where
  threads : S.Threads
  called : S.stop_ = true → S.process 0 ≠ .notCalled
  holder : ∀ c pc, S.stop = some (c, pc) → pc ≠ .check →
    S.stop_ = true ∧ S.thread c ≠ S.processThread 0 ∧ Stopping S c pc

theorem inv_make : make.Inv where
  threads := threads_make
  called := nofun
  holder := nofun

theorem Stopping.congr {pc : HolderPc} (h : Stopping S c pc) (hsize : T.size = S.size)
    (hjoinable : T.joinable = S.joinable) : Stopping T c pc := by
  have hunjoined : ∀ {i}, S.Unjoined i → T.Unjoined i := by
    intro i hi j hij hj hlt
    rw [hjoinable]
    exact hi j hij hj (hsize ▸ hlt)
  cases h with
  | dispatcher h => exact .dispatcher (hunjoined h)
  | processer h => exact hsize ▸ .processer (hunjoined h)
  | join h hpos hlt hself => exact hsize ▸ .join (hunjoined h) hpos (hsize.symm ▸ hlt) hself
  | active h => exact hsize ▸ .active (hunjoined h)

theorem thread_congr (hstarted : T.started_ = S.started_) :
    T.thread c = S.thread c ∧ T.processThread i = S.processThread i := by
  have hprocess : ∀ i, T.processThread i = S.processThread i := by
    intro i
    cases i with
    | zero =>
        unfold processThread
        rw [hstarted]
    | succ i => rfl
  constructor
  · cases c with
    | user k => rfl
    | coroutine i => exact hprocess i
  · exact hprocess i

theorem Inv.beside (h : S.Inv) (hT : T.Threads)
    (hprocess : T.process 0 = .notCalled → S.process 0 = .notCalled)
    (hstop_ : T.stop_ = S.stop_) (hstop : T.stop = S.stop)
    (hkeep : S.stop_ = true → T.started_ = S.started_ ∧ T.size = S.size ∧
      T.joinable = S.joinable) : T.Inv where
  threads := hT
  called htrue hnot := h.called (hstop_ ▸ htrue) (hprocess hnot)
  holder c pc hc hpc := by
    obtain ⟨htrue, hapart, hstopping⟩ := h.holder c pc (hstop ▸ hc) hpc
    obtain ⟨hstarted, hsize, hjoinable⟩ := hkeep htrue
    rw [(thread_congr hstarted (c := c) (i := 0)).1, (thread_congr hstarted (c := c) (i := 0)).2]
    exact ⟨hstop_.trans htrue, hapart, hstopping.congr hsize hjoinable⟩

/-- Once `stop_` is set, `Start` is in `Process` or has returned. -/
theorem Inv.not_before (h : S.Inv) (hstop_ : S.stop_ = true) : ¬Before S.start :=
  fun hbefore => h.called hstop_ (h.threads.main.notCalled hbefore)

theorem Inv.started (h : S.Inv) (hstop_ : S.stop_ = true) : ∃ k, S.started_ = some k := by
  apply Option.ne_none_iff_exists'.mp
  intro hnone
  apply h.not_before hstop_
  rw [h.threads.started hnone]
  trivial

theorem Inv.goes {pc pc' : HolderPc} (h : S.Inv) (hcall : S.stop = some (c, pc))
    (hstop : T.stop = some (c, pc')) (hstarted : T.started_ = S.started_)
    (hstart : T.start = S.start) (hsize : T.size = S.size) (hprocess : T.process = S.process)
    (hblocked : T.blocked = S.blocked) (htrue : T.stop_ = true)
    (hcalled : S.process 0 ≠ .notCalled) (hapart : S.thread c ≠ S.processThread 0)
    (hstopping : Stopping T c pc') : T.Inv where
  threads := by
    refine h.threads.same hstarted hstart hsize hprocess ?_ ?_
    · intro hfalse
      rw [htrue] at hfalse
      cases hfalse
    · intro k _ hin
      unfold inStop at hin ⊢
      rw [hstop, hblocked] at hin
      rw [hcall]
      exact hin
  called _ := hprocess ▸ hcalled
  holder c' pc'' hc _ := by
    rw [hstop] at hc
    cases hc
    rw [(thread_congr hstarted (c := c) (i := 0)).1, (thread_congr hstarted (c := c) (i := 0)).2]
    exact ⟨htrue, hapart, hstopping⟩

theorem Inv.leaves (h : S.Inv) : ({ S with stop := none } : Lifecycle).Inv where
  threads := by
    refine h.threads.same rfl rfl rfl rfl (fun hfalse => ⟨hfalse, rfl⟩) ?_
    intro k _ hin
    simp only [inStop, Option.any_none, Bool.or_false] at hin
    unfold inStop
    rw [hin, Bool.true_or]
  called := h.called
  holder := nofun

theorem Inv.apart (h : S.Inv) {pc : HolderPc} (hcall : S.stop = some (c, pc))
    (hfalse : S.stop_ = false) (hcalled : S.process 0 ≠ .notCalled) (hc : c ≠ .coroutine 0) :
    S.thread c ≠ S.processThread 0 := by
  have hrunning := (h.threads.quiet hfalse 0).resolve_left hcalled
  have hmain := h.threads.main
  rw [hrunning] at hmain
  have hstart : S.start = .process := by
    generalize S.start = pc at hmain
    cases hmain
    rfl
  have hin : S.inStop c = true := by
    unfold inStop
    rw [hcall]
    simp
  cases c with
  | user k =>
      intro heq
      have hstarted : S.started_ = some k := by
        unfold thread processThread at heq
        cases hstarted : S.started_ with
        | none =>
            rw [hstarted] at heq
            cases heq
        | some k' =>
            rw [hstarted] at heq
            cases heq
            rfl
      have hbusy := h.threads.busy k (by simp [inStart, hstarted, hstart])
      rw [hin] at hbusy
      cases hbusy
  | coroutine i =>
      cases i with
      | zero => exact absurd rfl hc
      | succ i =>
          unfold thread processThread
          cases S.started_ <;> exact nofun

theorem Inv.processerStop (h : S.Inv) (hcall : S.stop = some (c, .processer i S.size))
    (hlt : i < S.size) : (S.processerStop c i S.size).Inv := by
  obtain ⟨htrue, hapart, hstopping⟩ := h.holder c _ hcall nofun
  have hcalled := h.called htrue
  cases hstopping with
  | processer hunjoined =>
      unfold Lifecycle.processerStop
      split
      case isTrue hthread =>
        split
        case isTrue => exact h.leaves
        case isFalse hself =>
          exact h.goes hcall rfl rfl rfl rfl rfl rfl htrue hcalled hapart
            (.join hunjoined hthread.1 hlt hself)
      case isFalse hthread =>
        have hmain : i = 0 := by
          by_contra hi
          have hpos := Nat.pos_of_ne_zero hi
          exact hthread ⟨hpos, hunjoined i (Nat.le_refl i) hpos hlt⟩
        subst hmain
        split
        case isTrue =>
          exact h.goes hcall rfl rfl rfl rfl rfl rfl htrue hcalled hapart (.active hunjoined)
        case isFalse =>
          refine h.goes hcall rfl rfl rfl rfl rfl rfl htrue hcalled hapart ?_
          exact .processer fun j _ => hunjoined j (Nat.zero_le j)

theorem Inv.stopStep {pc : HolderPc} (h : S.Inv) (hcall : S.stop = some (c, pc))
    (hset : pc = .check → S.stop_ = false → S.process 0 ≠ .notCalled ∧ c ≠ .coroutine 0)
    (hs : S.stopStep c pc = some T) : T.Inv := by
  have hholder := h.holder c pc hcall
  cases pc with
  | check =>
      simp only [Lifecycle.stopStep] at hs
      split at hs <;> cases hs
      · exact h.leaves
      · rename_i hfalse
        have hfalse := Bool.eq_false_iff.mpr hfalse
        obtain ⟨hcalled, hc⟩ := hset rfl hfalse
        refine h.goes hcall rfl rfl rfl rfl rfl rfl rfl hcalled (h.apart hcall hfalse hcalled hc) ?_
        apply Stopping.dispatcher
        intro j _ hj hlt
        apply h.threads.joinable hfalse j hj
        unfold created
        split
        · exact Nat.lt_succ_of_lt hlt
        · exact hlt
  | dispatcher =>
      obtain ⟨htrue, hapart, hstopping⟩ := hholder nofun
      cases hstopping with
      | dispatcher hunjoined =>
          simp only [Lifecycle.stopStep] at hs
          split at hs <;> cases hs <;>
            exact h.goes hcall rfl rfl rfl rfl rfl rfl htrue (h.called htrue) hapart
              (.processer hunjoined)
  | processer i n =>
      obtain ⟨htrue, hapart, hstopping⟩ := hholder nofun
      cases hstopping with
      | processer hunjoined =>
          simp only [Lifecycle.stopStep] at hs
          split at hs <;> cases hs
          · rename_i hlt
            exact h.processerStop hcall hlt
          · exact h.leaves
  | join i n =>
      obtain ⟨htrue, hapart, hstopping⟩ := hholder nofun
      cases hstopping with
      | join hunjoined hpos hlt hself =>
          simp only [Lifecycle.stopStep] at hs
          split at hs <;> cases hs
          refine h.goes hcall rfl rfl rfl rfl rfl rfl htrue (h.called htrue) hapart ?_
          apply Stopping.processer
          intro j hij hj hlt'
          show Function.update S.joinable i false j = true
          rw [Function.update_of_ne (Nat.ne_of_gt hij)]
          exact hunjoined j (Nat.le_of_lt hij) hj hlt'
  | active i n =>
      obtain ⟨htrue, hapart, hstopping⟩ := hholder nofun
      cases hstopping with
      | active hunjoined =>
          simp only [Lifecycle.stopStep] at hs
          split at hs <;> cases hs
          · exact h
          · refine h.goes hcall rfl rfl rfl rfl rfl rfl htrue (h.called htrue) hapart ?_
            exact .processer fun j _ => hunjoined j (Nat.zero_le j)

/-! ## Every step -/

theorem mem_setter_iff : c ∈ S.setter ↔ S.stop = some (c, .check) ∧ S.stop_ = false := by
  unfold setter
  cases S.stop_ with
  | true => simp
  | false =>
      cases S.stop with
      | none => simp
      | some call =>
          obtain ⟨c', pc⟩ := call
          by_cases hpc : pc = .check <;> simp [hpc, Option.filter]

theorem startStep_spec (hs : S.startStep = some T) :
    Before S.start ∧ T.stop_ = S.stop_ ∧ T.stop = S.stop := by
  unfold startStep at hs
  split at hs
  case h_6 | h_7 | h_8 => cases hs
  all_goals
    rename_i hpc
    cases hs
    rw [hpc]
    exact ⟨trivial, rfl, rfl⟩

theorem update_ne_notCalled {call : ProcessCall} (hcall : call ≠ .notCalled)
    (hnot : Function.update S.process i call 0 = .notCalled) : S.process 0 = .notCalled := by
  by_cases hi : 0 = i
  · subst hi
    rw [Function.update_self] at hnot
    exact absurd hnot hcall
  · rwa [Function.update_of_ne hi] at hnot

theorem Inv.callStart {numbers : Int × Int} (h : S.Inv) (hfree : S.inStop (.user k) = false) :
    (S.callStart k numbers).Inv := by
  have hT : (S.callStart k numbers).Threads := h.threads.callStart hfree
  unfold Lifecycle.callStart at hT ⊢
  split at hT
  case h_1 => exact h
  case h_2 hnone =>
    refine h.beside hT id rfl rfl ?_
    intro htrue
    obtain ⟨k', hstarted⟩ := h.started htrue
    rw [hnone] at hstarted
    cases hstarted

theorem Inv.start (h : S.Inv) (hs : S.startStep = some T) : T.Inv := by
  obtain ⟨hbefore, hstop_, hstop⟩ := startStep_spec hs
  apply h.beside (h.threads.start hs) _ hstop_ hstop
  · intro htrue
    exact absurd hbefore (h.not_before htrue)
  · intro _
    exact h.threads.main.notCalled hbefore

theorem Inv.isStop (h : S.Inv) (hrunning : S.process i = .running) : (S.isStop i).Inv := by
  have hT := h.threads.isStop hrunning
  unfold Lifecycle.isStop at hT ⊢
  by_cases hstop_ : S.stop_ = true
  · rw [if_pos hstop_] at hT ⊢
    exact h.beside hT (update_ne_notCalled ProcessCall.noConfusion) rfl rfl fun _ =>
      ⟨rfl, rfl, rfl⟩
  · rw [if_neg hstop_]
    exact h

theorem Inv.callStop (h : S.Inv) (hfree : ∀ k, c = .user k → S.inStart k = false) :
    ({ S with blocked := S.blocked ++ [c] } : Lifecycle).Inv := by
  refine h.beside ?_ id rfl rfl fun _ => ⟨rfl, rfl, rfl⟩
  refine h.threads.same rfl rfl rfl rfl (fun hfalse => ⟨hfalse, rfl⟩) ?_
  intro k hk hin
  simp only [inStop, Bool.or_eq_true, decide_eq_true_eq, List.mem_append, List.mem_singleton]
    at hin ⊢
  rcases hin with (hin | hin) | hin
  · exact .inl hin
  · rw [hfree k hin.symm] at hk
    cases hk
  · exact .inr hin

theorem Inv.lock (h : S.Inv) (hmem : c ∈ S.blocked) :
    ({ S with blocked := S.blocked.erase c, stop := some (c, .check) } : Lifecycle).Inv where
  threads := by
    refine h.threads.same rfl rfl rfl rfl (fun hfalse => ⟨hfalse, rfl⟩) ?_
    intro k _ hin
    simp only [inStop, Bool.or_eq_true, decide_eq_true_eq, Option.any_some] at hin ⊢
    rcases hin with hin | hin
    · exact .inl (List.mem_of_mem_erase hin)
    · exact .inl (hin ▸ hmem)
  called := h.called
  holder c' pc hc hpc := by
    cases hc
    exact absurd rfl hpc

theorem Inv.step (h : S.Inv) (hcond : S.StopsRunning e) (hs : S.step e = some T) : T.Inv := by
  cases e with
  | callStart k minThreadNumber maxThreadNumber cores =>
      simp only [Lifecycle.step, Option.ite_none_left_eq_some, not_or] at hs
      obtain ⟨⟨hfree, -⟩, hs⟩ := hs
      cases hs
      exact h.callStart (Bool.eq_false_iff.mpr hfree)
  | start => exact h.start hs
  | isStop i =>
      obtain ⟨⟨hrunning, -⟩, hs⟩ := Option.ite_none_right_eq_some.mp hs
      cases hs
      exact h.isStop hrunning
  | returnProcess i =>
      obtain ⟨hreleasing, hs⟩ := Option.ite_none_right_eq_some.mp hs
      cases hs
      exact h.beside (h.threads.returnProcess hreleasing)
        (update_ne_notCalled ProcessCall.noConfusion) rfl rfl fun _ => ⟨rfl, rfl, rfl⟩
  | dispatcherExit =>
      obtain ⟨-, hs⟩ := Option.ite_none_right_eq_some.mp hs
      cases hs
      have hT := h.threads.same (T := { S with dispatchThread_ := .exited }) rfl rfl rfl rfl
        (fun hfalse => ⟨hfalse, rfl⟩) (fun _ _ hin => hin)
      exact h.beside hT id rfl rfl fun _ => ⟨rfl, rfl, rfl⟩
  | callStop c =>
      obtain ⟨-, hs⟩ := Option.ite_none_left_eq_some.mp hs
      cases c with
      | user k =>
          obtain ⟨hfree, hs⟩ := Option.ite_none_left_eq_some.mp hs
          cases hs
          apply h.callStop
          rintro k' ⟨⟩
          exact Bool.eq_false_iff.mpr hfree
      | coroutine i =>
          obtain ⟨-, hs⟩ := Option.ite_none_right_eq_some.mp hs
          cases hs
          exact h.callStop nofun
  | lock c =>
      obtain ⟨⟨hmem, -⟩, hs⟩ := Option.ite_none_right_eq_some.mp hs
      cases hs
      exact h.lock hmem
  | stop =>
      obtain ⟨⟨c, pc⟩, hcall, hs⟩ := Option.bind_eq_some_iff.mp hs
      refine h.stopStep hcall ?_ hs
      rintro rfl hfalse
      exact hcond c (mem_setter_iff.mpr ⟨hcall, hfalse⟩)

/-! ## What the loop on `active_` reads -/

structure Activity (S : Lifecycle) : Prop where
  returned : ∀ i, S.process i = .returned → S.active_ i = false
  main : S.process 0 ≠ .returned → S.active_ 0 = true

theorem activity_make : make.Activity where
  returned _ := nofun
  main _ := rfl

theorem Activity.congr (h : S.Activity) (hprocess : T.process = S.process)
    (hactive : T.active_ = S.active_) : T.Activity where
  returned := by
    rw [hprocess, hactive]
    exact h.returned
  main := by
    rw [hprocess, hactive]
    exact h.main

theorem Activity.setProcess {call : ProcessCall} (h : S.Activity)
    (hprocess : T.process = Function.update S.process i call) (hactive : T.active_ = S.active_)
    (hcall : call ≠ .returned) (hmain : S.process 0 ≠ .returned ∨ i ≠ 0) : T.Activity where
  returned j hj := by
    rw [hprocess] at hj
    rw [hactive]
    by_cases hji : j = i
    · rw [hji, Function.update_self] at hj
      exact absurd hj hcall
    · rw [Function.update_of_ne hji] at hj
      exact h.returned j hj
  main hnot := by
    rw [hactive]
    apply h.main
    rcases hmain with hmain | hi
    · exact hmain
    · rwa [hprocess, Function.update_of_ne (Ne.symm hi)] at hnot

theorem Activity.returnProcess (h : S.Activity) (i : Nat) : (S.returnProcess i).Activity where
  returned j hj := by
    unfold Lifecycle.returnProcess at hj ⊢
    by_cases hji : j = i
    · rw [hji]
      exact Function.update_self ..
    · simp only [Function.update_of_ne hji] at hj ⊢
      exact h.returned j hj
  main hnot := by
    unfold Lifecycle.returnProcess at hnot ⊢
    by_cases hi : 0 = i
    · subst hi
      simp at hnot
    · simp only [Function.update_of_ne hi] at hnot ⊢
      exact h.main hnot

theorem Activity.start (h : S.Activity) (hthreads : S.Threads) (hs : S.startStep = some T) :
    T.Activity := by
  unfold startStep at hs
  have hpos := hthreads.size_pos
  split at hs
  case h_1 =>
    cases hs
    exact h.setProcess rfl rfl ProcessCall.noConfusion (.inr (Nat.ne_of_gt hpos))
  case h_5 hpc =>
    have hmain := hthreads.main
    rw [hpc] at hmain
    cases hs
    refine h.setProcess rfl rfl ProcessCall.noConfusion (.inl ?_)
    rw [hmain.notCalled trivial]
    exact nofun
  case h_6 | h_7 | h_8 => cases hs
  all_goals
    cases hs
    exact h.congr rfl rfl

theorem stopStep_spec {pc : HolderPc} (hs : S.stopStep c pc = some T) :
    T.process = S.process ∧ T.active_ = S.active_ := by
  cases pc with
  | processer i n =>
      simp only [stopStep, processerStop] at hs
      split at hs <;> cases hs
      · split
        · split <;> exact ⟨rfl, rfl⟩
        · split <;> exact ⟨rfl, rfl⟩
      · exact ⟨rfl, rfl⟩
  | check | dispatcher | join | active =>
      simp only [stopStep] at hs
      split at hs <;> cases hs <;> exact ⟨rfl, rfl⟩

theorem Activity.step (h : S.Activity) (hthreads : S.Threads) (hs : S.step e = some T) :
    T.Activity := by
  cases e with
  | callStart k minThreadNumber maxThreadNumber cores =>
      obtain ⟨-, hs⟩ := Option.ite_none_left_eq_some.mp hs
      cases hs
      unfold Lifecycle.callStart
      split
      · exact h
      · exact h.congr rfl rfl
  | start => exact h.start hthreads hs
  | isStop i =>
      obtain ⟨⟨hrunning, -⟩, hs⟩ := Option.ite_none_right_eq_some.mp hs
      cases hs
      unfold Lifecycle.isStop
      split
      · refine h.setProcess rfl rfl ProcessCall.noConfusion ?_
        by_cases hi : i = 0
        · subst hi
          rw [hrunning]
          exact .inl nofun
        · exact .inr hi
      · exact h
  | returnProcess i =>
      obtain ⟨-, hs⟩ := Option.ite_none_right_eq_some.mp hs
      cases hs
      exact h.returnProcess i
  | dispatcherExit =>
      obtain ⟨-, hs⟩ := Option.ite_none_right_eq_some.mp hs
      cases hs
      exact h.congr rfl rfl
  | callStop c =>
      obtain ⟨-, hs⟩ := Option.ite_none_left_eq_some.mp hs
      cases c with
      | user k =>
          obtain ⟨-, hs⟩ := Option.ite_none_left_eq_some.mp hs
          cases hs
          exact h.congr rfl rfl
      | coroutine i =>
          obtain ⟨-, hs⟩ := Option.ite_none_right_eq_some.mp hs
          cases hs
          exact h.congr rfl rfl
  | lock c =>
      obtain ⟨-, hs⟩ := Option.ite_none_right_eq_some.mp hs
      cases hs
      exact h.congr rfl rfl
  | stop =>
      obtain ⟨call, -, hs⟩ := Option.bind_eq_some_iff.mp hs
      obtain ⟨hprocess, hactive⟩ := stopStep_spec hs
      exact h.congr hprocess hactive

/-! ## Tasks that call `Stop` -/

/-- A task that is in `Stop` keeps `Process` of its Processer where it is. -/
def Inside (S : Lifecycle) : Prop := ∀ i, S.inStop (.coroutine i) = true → S.process i = .running

theorem inside_make : make.Inside := nofun

theorem running_of_inStop (hrunning : S.process i = .running)
    (hin : S.inStop (.coroutine i) = true) (hs : S.step e = some T) : T.process i = .running := by
  cases e with
  | callStart k minThreadNumber maxThreadNumber cores =>
      obtain ⟨-, hs⟩ := Option.ite_none_left_eq_some.mp hs
      cases hs
      unfold Lifecycle.callStart
      split <;> exact hrunning
  | start =>
      have hupdate : ∀ j, Function.update S.process j .running i = .running := by
        intro j
        by_cases hij : i = j
        · rw [hij, Function.update_self]
        · rwa [Function.update_of_ne hij]
      have hs : S.startStep = some T := hs
      unfold startStep at hs
      split at hs <;> cases hs
      · exact hupdate _
      · exact hrunning
      · exact hrunning
      · exact hrunning
      · exact hupdate 0
  | isStop j =>
      obtain ⟨⟨-, hfree⟩, hs⟩ := Option.ite_none_right_eq_some.mp hs
      have hij : i ≠ j := by
        rintro rfl
        rw [hin] at hfree
        cases hfree
      cases hs
      unfold Lifecycle.isStop
      split
      · exact (Function.update_of_ne hij ..).trans hrunning
      · exact hrunning
  | returnProcess j =>
      obtain ⟨hreleasing, hs⟩ := Option.ite_none_right_eq_some.mp hs
      have hij : i ≠ j := by
        rintro rfl
        rw [hrunning] at hreleasing
        cases hreleasing
      cases hs
      exact (Function.update_of_ne hij ..).trans hrunning
  | dispatcherExit =>
      obtain ⟨-, hs⟩ := Option.ite_none_right_eq_some.mp hs
      cases hs
      exact hrunning
  | callStop c =>
      obtain ⟨-, hs⟩ := Option.ite_none_left_eq_some.mp hs
      cases c with
      | user k =>
          obtain ⟨-, hs⟩ := Option.ite_none_left_eq_some.mp hs
          cases hs
          exact hrunning
      | coroutine j =>
          obtain ⟨-, hs⟩ := Option.ite_none_right_eq_some.mp hs
          cases hs
          exact hrunning
  | lock c =>
      obtain ⟨-, hs⟩ := Option.ite_none_right_eq_some.mp hs
      cases hs
      exact hrunning
  | stop =>
      obtain ⟨call, -, hs⟩ := Option.bind_eq_some_iff.mp hs
      rw [(stopStep_spec hs).1]
      exact hrunning

theorem stopStep_inStop {pc : HolderPc} (hcall : S.stop = some (c, pc))
    (hs : S.stopStep c pc = some T) {c' : Caller} (hin : T.inStop c' = true) :
    S.inStop c' = true := by
  have hkeep : T.blocked = S.blocked ∧ ∀ call ∈ T.stop, call.1 = c := by
    cases pc with
    | processer i n =>
        simp only [stopStep, processerStop] at hs
        split_ifs at hs <;> cases hs <;> exact ⟨rfl, by simp⟩
    | active i n =>
        simp only [stopStep] at hs
        split at hs <;> cases hs
        · exact ⟨rfl, by simp [hcall]⟩
        · exact ⟨rfl, by simp⟩
    | check | dispatcher | join =>
        simp only [stopStep] at hs
        split at hs <;> cases hs <;> exact ⟨rfl, by simp⟩
  unfold inStop at hin ⊢
  rw [hkeep.1, Bool.or_eq_true] at hin
  rw [hcall, Bool.or_eq_true]
  refine hin.imp_right fun hin => ?_
  obtain ⟨call, hmem, heq⟩ := (Option.any_eq_true ..).mp hin
  rw [← of_decide_eq_true heq, hkeep.2 call hmem]
  simp

/-- Only a task that runs comes into `Stop`. -/
theorem inStop_step (hs : S.step e = some T) (hin : T.inStop (.coroutine i) = true) :
    S.inStop (.coroutine i) = true ∨ S.process i = .running ∧ T.process i = .running := by
  cases e with
  | callStart k minThreadNumber maxThreadNumber cores =>
      obtain ⟨-, hs⟩ := Option.ite_none_left_eq_some.mp hs
      cases hs
      unfold Lifecycle.callStart at hin
      split at hin <;> exact .inl hin
  | start =>
      have hs : S.startStep = some T := hs
      unfold startStep at hs
      split at hs <;> cases hs <;> exact .inl hin
  | isStop j =>
      obtain ⟨-, hs⟩ := Option.ite_none_right_eq_some.mp hs
      cases hs
      unfold Lifecycle.isStop at hin
      split at hin <;> exact .inl hin
  | returnProcess j =>
      obtain ⟨-, hs⟩ := Option.ite_none_right_eq_some.mp hs
      cases hs
      exact .inl hin
  | dispatcherExit =>
      obtain ⟨-, hs⟩ := Option.ite_none_right_eq_some.mp hs
      cases hs
      exact .inl hin
  | callStop c =>
      obtain ⟨-, hs⟩ := Option.ite_none_left_eq_some.mp hs
      have hold : ∀ c', ({ S with blocked := S.blocked ++ [c'] } : Lifecycle).inStop
          (.coroutine i) = true → S.inStop (.coroutine i) = true ∨ .coroutine i = c' := by
        intro c' hin
        simp only [inStop, Bool.or_eq_true, decide_eq_true_eq, List.mem_append,
          List.mem_singleton] at hin ⊢
        tauto
      cases c with
      | user k =>
          obtain ⟨-, hs⟩ := Option.ite_none_left_eq_some.mp hs
          cases hs
          exact .inl ((hold _ hin).resolve_right nofun)
      | coroutine j =>
          obtain ⟨hrunning, hs⟩ := Option.ite_none_right_eq_some.mp hs
          cases hs
          rcases hold _ hin with hin | heq
          · exact .inl hin
          · cases heq
            exact .inr ⟨hrunning, hrunning⟩
  | lock c =>
      obtain ⟨⟨hmem, -⟩, hs⟩ := Option.ite_none_right_eq_some.mp hs
      cases hs
      simp only [inStop, Bool.or_eq_true, decide_eq_true_eq, Option.any_some] at hin ⊢
      rcases hin with hin | hin
      · exact .inl (.inl (List.mem_of_mem_erase hin))
      · exact .inl (.inl (hin ▸ hmem))
  | stop =>
      obtain ⟨⟨c, pc⟩, hcall, hs⟩ := Option.bind_eq_some_iff.mp hs
      exact .inl (stopStep_inStop hcall hs hin)

theorem Inside.step (h : S.Inside) (hs : S.step e = some T) : T.Inside := by
  intro i hin
  rcases inStop_step hs hin with hold | ⟨-, hrunning⟩
  · exact running_of_inStop (h i hold) hold hs
  · exact hrunning

/-! ## The waits -/

/-- Another thread than the one of the caller executes `Process` of the Processer, or has
executed it. -/
def Served (S : Lifecycle) (c : Caller) (i : Nat) : Prop :=
  ∃ t, S.Executes t i ∧ S.thread c ≠ some t

/-- The call can go on to the next Processer. -/
def CanEnd (S : Lifecycle) (c : Caller) (i : Nat) : Prop :=
  ∃ T n, Reach step Free S T ∧ T.stop = some (c, .processer (i + 1) n)

theorem Inv.served (h : S.Inv) (hw : S.Waits c i) : S.Served c i := by
  obtain ⟨pc, hcall, hpc⟩ := hw
  obtain ⟨htrue, hapart, hstopping⟩ := h.holder c pc hcall (by rintro rfl; cases hpc)
  cases hstopping with
  | dispatcher | processer => cases hpc
  | @join j hunjoined hpos hlt hself =>
      cases hpc
      obtain ⟨j, rfl⟩ := Nat.exists_eq_succ_of_ne_zero (Nat.ne_of_gt hpos)
      have hcreated : S.size ≤ S.created := by
        unfold created
        split <;> omega
      refine ⟨.processer (j + 1), ⟨rfl, ?_⟩, ?_⟩
      · exact h.threads.processes (j + 1) hpos (Nat.lt_of_lt_of_le hlt hcreated)
      · cases c with
        | user k => exact nofun
        | coroutine j' =>
            cases j' with
            | zero => exact absurd rfl hapart
            | succ j' =>
                intro heq
                cases heq
                exact hself rfl
  | active hunjoined =>
      cases hpc
      obtain ⟨k, hstarted⟩ := h.started htrue
      have hmain : S.processThread 0 = some (.user k) := by
        unfold processThread
        rw [hstarted]
        rfl
      exact ⟨.user k, ⟨hmain, h.called htrue⟩, hmain ▸ hapart⟩

theorem Activity.canEnd_of_returned {pc : HolderPc} (h : S.Activity) (hcall : S.stop = some (c, pc))
    (hpc : pc.waitsFor = some i) (hreturned : S.process i = .returned) : S.CanEnd c i := by
  cases pc with
  | check | dispatcher | processer => cases hpc
  | join j n =>
      cases hpc
      have hs : S.step .stop = some { S with
          joinable := Function.update S.joinable i false
          stop := some (c, .processer (i + 1) n) } := by
        simp only [Lifecycle.step, hcall, Option.bind_some, Lifecycle.stopStep, hreturned, if_true]
      exact ⟨_, n, .tail .refl trivial hs, rfl⟩
  | active j n =>
      cases hpc
      have hs : S.step .stop = some { S with stop := some (c, .processer (i + 1) n) } := by
        simp only [Lifecycle.step, hcall, Option.bind_some, Lifecycle.stopStep,
          h.returned i hreturned, Bool.false_eq_true, if_false]
      exact ⟨_, n, .tail .refl trivial hs, rfl⟩

theorem Activity.canEnd_of_releasing {pc : HolderPc} (h : S.Activity) (hcall : S.stop = some (c, pc))
    (hpc : pc.waitsFor = some i) (hreleasing : S.process i = .releasing) : S.CanEnd c i := by
  have hs : S.step (.returnProcess i) = some (S.returnProcess i) := if_pos hreleasing
  obtain ⟨T, n, hreach, hT⟩ := (h.returnProcess i).canEnd_of_returned (c := c) hcall hpc
    (Function.update_self ..)
  exact ⟨T, n, hreach.head trivial hs, hT⟩

theorem Inv.canEnd (h : S.Inv) (hactivity : S.Activity) (hw : S.Waits c i)
    (hfree : S.inStop (.coroutine i) = false) : S.CanEnd c i := by
  obtain ⟨t, ⟨-, hcalled⟩, -⟩ := h.served hw
  obtain ⟨pc, hcall, hpc⟩ := hw
  have htrue : S.stop_ = true := (h.holder c pc hcall (by rintro rfl; cases hpc)).1
  cases hprocess : S.process i with
  | notCalled => exact absurd hprocess hcalled
  | running =>
      have hs : S.step (.isStop i) = some { S with
          process := Function.update S.process i .releasing } := by
        simp only [Lifecycle.step, hprocess, hfree, Lifecycle.isStop, htrue, and_self, if_true]
      have hnext := hactivity.step h.threads hs
      obtain ⟨T, n, hreach, hT⟩ := hnext.canEnd_of_releasing (c := c) hcall hpc
        (Function.update_self ..)
      exact ⟨T, n, hreach.head trivial hs, hT⟩
  | releasing => exact hactivity.canEnd_of_releasing hcall hpc hprocess
  | returned => exact hactivity.canEnd_of_returned hcall hpc hprocess

/-- A call of `Stop` waits for a Processer whose task is behind it in the queue for
`stopMtx_`. -/
structure Stuck (S : Lifecycle) (c : Caller) (i : Nat) : Prop where
  waits : ∃ pc, S.stop = some (c, pc) ∧ pc.waitsFor = some i ∧
    ∀ n, pc = .active i n → S.active_ i = true
  blocked : .coroutine i ∈ S.blocked
  running : S.process i = .running

theorem Stuck.inStop (h : S.Stuck c i) : S.inStop (.coroutine i) = true := by
  unfold Lifecycle.inStop
  rw [decide_eq_true h.blocked, Bool.true_or]

theorem Stuck.beside (h : S.Stuck c i) (hstop : T.stop = S.stop)
    (hblocked : .coroutine i ∈ T.blocked) (hactive : S.active_ i = true → T.active_ i = true)
    (hrunning : T.process i = .running) : T.Stuck c i := by
  obtain ⟨pc, hcall, hpc, hon⟩ := h.waits
  exact ⟨⟨pc, hstop.trans hcall, hpc, fun n hn => hactive (hon n hn)⟩, hblocked, hrunning⟩

theorem Stuck.step (h : S.Stuck c i) (hs : S.step e = some T) : T.Stuck c i := by
  have hrunning := running_of_inStop h.running h.inStop hs
  obtain ⟨pc, hcall, hpc, hon⟩ := h.waits
  cases e with
  | callStart k minThreadNumber maxThreadNumber cores =>
      obtain ⟨-, hs⟩ := Option.ite_none_left_eq_some.mp hs
      cases hs
      unfold Lifecycle.callStart at hrunning ⊢
      split
      · exact h
      · exact h.beside rfl h.blocked id h.running
  | start =>
      have hs : S.startStep = some T := hs
      unfold startStep at hs
      split at hs <;> cases hs <;> exact h.beside rfl h.blocked id hrunning
  | isStop j =>
      obtain ⟨-, hs⟩ := Option.ite_none_right_eq_some.mp hs
      cases hs
      unfold Lifecycle.isStop at hrunning ⊢
      split at hrunning
      · rename_i htrue
        rw [if_pos htrue]
        exact h.beside rfl h.blocked id hrunning
      · rename_i hfalse
        rw [if_neg hfalse]
        exact h
  | returnProcess j =>
      obtain ⟨hreleasing, hs⟩ := Option.ite_none_right_eq_some.mp hs
      have hij : i ≠ j := by
        rintro rfl
        rw [h.running] at hreleasing
        cases hreleasing
      cases hs
      refine h.beside rfl h.blocked (fun hactive => ?_) hrunning
      exact (Function.update_of_ne hij ..).trans hactive
  | dispatcherExit =>
      obtain ⟨-, hs⟩ := Option.ite_none_right_eq_some.mp hs
      cases hs
      exact h.beside rfl h.blocked id h.running
  | callStop c' =>
      obtain ⟨-, hs⟩ := Option.ite_none_left_eq_some.mp hs
      cases c' with
      | user k =>
          obtain ⟨-, hs⟩ := Option.ite_none_left_eq_some.mp hs
          cases hs
          exact h.beside rfl (List.mem_append_left _ h.blocked) id h.running
      | coroutine j =>
          obtain ⟨-, hs⟩ := Option.ite_none_right_eq_some.mp hs
          cases hs
          exact h.beside rfl (List.mem_append_left _ h.blocked) id h.running
  | lock c' =>
      -- `stopMtx_` is held
      obtain ⟨⟨-, hnone⟩, -⟩ := Option.ite_none_right_eq_some.mp hs
      rw [hcall] at hnone
      cases hnone
  | stop =>
      simp only [Lifecycle.step, hcall, Option.bind_some] at hs
      cases pc with
      | check | dispatcher | processer => cases hpc
      | join j n =>
          cases hpc
          simp only [Lifecycle.stopStep, h.running] at hs
          cases hs
      | active j n =>
          cases hpc
          simp only [Lifecycle.stopStep, hon n rfl, if_true] at hs
          cases hs
          exact h

/-- Exactly a task that is itself in `Stop` can keep the wait for its Processer from ending. -/
theorem Inv.canEnd_iff (h : S.Inv) (hactivity : S.Activity) (hinside : S.Inside)
    (hw : S.Waits c i) : S.CanEnd c i ↔ S.inStop (.coroutine i) = false := by
  refine ⟨?_, h.canEnd hactivity hw⟩
  rintro ⟨T, n, hreach, hT⟩
  by_contra hin
  have hin : S.inStop (.coroutine i) = true := eq_true_of_ne_false hin
  have hself : c ≠ .coroutine i := by
    rintro rfl
    obtain ⟨t, ⟨hthread, -⟩, hother⟩ := h.served hw
    exact hother hthread
  obtain ⟨pc, hcall, hpc⟩ := hw
  have hstuck : S.Stuck c i := by
    refine ⟨⟨pc, hcall, hpc, ?_⟩, ?_, hinside i hin⟩
    · rintro n rfl
      obtain ⟨-, -, hstopping⟩ := h.holder c _ hcall nofun
      cases hstopping
      apply hactivity.main
      rw [hinside 0 hin]
      exact nofun
    · simpa [inStop, hcall, hself] using hin
  have hlast : T.Stuck c i :=
    hreach.invariant (I := fun T => T.Stuck c i) hstuck fun _ _ _ hS _ hs => hS.step hs
  obtain ⟨pc', hcall', hpc', -⟩ := hlast.waits
  rw [hT] at hcall'
  cases hcall'
  cases hpc'

/-! ## When `stop_` is set too early -/

/-- A run can go on from here to a wait for a Processer that no other thread has run. -/
def CanHang (S : Lifecycle) : Prop :=
  ∃ T c i, Reach step Free S T ∧ T.Waits c i ∧ ¬T.Served c i

theorem CanHang.head (hs : S.step e = some T) (h : T.CanHang) : S.CanHang := by
  obtain ⟨U, c, i, hreach, hhang⟩ := h
  exact ⟨U, c, i, hreach.head trivial hs, hhang⟩

theorem not_served (hbad : S.process 0 = .notCalled ∨ c = .coroutine 0) : ¬S.Served c 0 := by
  rintro ⟨t, ⟨hthread, hcalled⟩, hother⟩
  rcases hbad with hnot | rfl
  · exact hcalled hnot
  · exact hother hthread

/-- Behind the thread of the dispatcher, `Stop` comes to the main Processer. -/
theorem canHang_of_processer (hcall : S.stop = some (c, .processer 0 n)) (hn : 0 < n)
    (hactive : S.active_ 0 = true) (hbad : S.process 0 = .notCalled ∨ c = .coroutine 0) :
    S.CanHang := by
  have hs : S.step .stop = some { S with stop := some (c, .active 0 n) } := by
    simp only [step, hcall, Option.bind_some, stopStep, hn, if_true, processerStop,
      Nat.lt_irrefl, false_and, if_false, hactive]
  exact ⟨_, c, 0, .tail .refl trivial hs, ⟨_, rfl, rfl⟩, not_served hbad⟩

theorem canHang_of_dispatcher (hcall : S.stop = some (c, .dispatcher)) (hstop_ : S.stop_ = true)
    (hsize : 0 < S.size) (hactive : S.active_ 0 = true)
    (hbad : S.process 0 = .notCalled ∨ c = .coroutine 0) : S.CanHang := by
  cases hdispatcher : S.dispatchThread_ with
  | absent | joined =>
      have hs : S.step .stop = some { S with stop := some (c, .processer 0 S.size) } := by
        simp only [step, hcall, Option.bind_some, stopStep, hdispatcher]
      exact .head hs (canHang_of_processer rfl hsize hactive hbad)
  | exited =>
      have hs : S.step .stop = some { S with
          dispatchThread_ := .joined
          stop := some (c, .processer 0 S.size) } := by
        simp only [step, hcall, Option.bind_some, stopStep, hdispatcher]
      exact .head hs (canHang_of_processer rfl hsize hactive hbad)
  | running =>
      have hexit : S.step .dispatcherExit = some { S with dispatchThread_ := .exited } := by
        simp only [step, hdispatcher, hstop_, and_self, if_true]
      have hs : ({ S with dispatchThread_ := .exited } : Lifecycle).step .stop = some { S with
          dispatchThread_ := .joined
          stop := some (c, .processer 0 S.size) } := by
        simp only [step, hcall, Option.bind_some, stopStep]
      exact .head hexit (.head hs (canHang_of_processer rfl hsize hactive hbad))

theorem Inv.canHang (h : S.Inv) (hactivity : S.Activity) (hbad : ¬S.StopsRunning e) :
    S.CanHang := by
  cases e with
  | stop =>
      simp only [StopsRunning, not_forall] at hbad
      obtain ⟨c, hsetter, hbad⟩ := hbad
      obtain ⟨hcall, hfalse⟩ := mem_setter_iff.mp hsetter
      have hs : S.step .stop = some { S with stop_ := true, stop := some (c, .dispatcher) } := by
        simp only [Lifecycle.step, hcall, Option.bind_some, Lifecycle.stopStep, hfalse,
          Bool.false_eq_true, if_false]
      have hactive : S.active_ 0 = true := by
        apply hactivity.main
        rcases h.threads.quiet hfalse 0 with hprocess | hprocess <;> rw [hprocess] <;> exact nofun
      apply CanHang.head hs
      refine canHang_of_dispatcher rfl rfl h.threads.size_pos hactive ?_
      rcases not_and_or.mp hbad with hnot | hself
      · exact .inl (not_not.mp hnot)
      · exact .inr (not_not.mp hself)
  | _ => exact absurd trivial hbad

/-! ## Every run -/

/-- As long as `stop_` is set neither before `Start` has come to the main Processer nor by a
task of that Processer, `Stop` waits only for Processers that another thread runs, and the
wait can come to its end exactly if no task of that Processer is itself in a call of `Stop`.
Where the condition fails for the first time, a run can go on to a wait for a Processer that
no other thread runs. -/
theorem served_of_reach (h : Reach step StopsRunning make S) :
    (∀ c i, S.Waits c i →
      S.Served c i ∧ (S.CanEnd c i ↔ S.inStop (.coroutine i) = false)) ∧
      ∀ e, ¬S.StopsRunning e → S.CanHang := by
  have hinv : S.Inv ∧ S.Activity ∧ S.Inside := by
    apply h.invariant (I := fun S => S.Inv ∧ S.Activity ∧ S.Inside)
    · exact ⟨inv_make, activity_make, inside_make⟩
    · intro S e T hS hcond hs
      exact ⟨hS.1.step hcond hs, hS.2.1.step hS.1.threads hs, hS.2.2.step hs⟩
  obtain ⟨hinv, hactivity, hinside⟩ := hinv
  exact ⟨fun c i hw => ⟨hinv.served hw, hinv.canEnd_iff hactivity hinside hw⟩,
    fun e hbad => hinv.canHang hactivity hbad⟩

/-- The thread 0 calls `Start(2)`, and the thread 1 `Stop`, which comes to the second
Processer. -/
def startAndStop : List LifecycleStep :=
  [.callStart 0 2 0 4] ++ .replicate 5 .start ++
    [.callStop (.user 1), .lock (.user 1), .stop, .dispatcherExit, .stop, .isStop 0,
      .returnProcess 0, .stop, .stop]

theorem served_startAndStop : ∃ S : Lifecycle, S.stop = some (.user 1, .join 1 2) ∧
    (∀ c i, S.Waits c i →
      S.Served c i ∧ (S.CanEnd c i ↔ S.inStop (.coroutine i) = false)) ∧
      ∀ e, ¬S.StopsRunning e → S.CanHang := by
  have hrun : ∃ S, run step StopsRunning make startAndStop = some S ∧
      S.stop = some (.user 1, .join 1 2) :=
    exists_of_run (by decide +kernel)
  obtain ⟨S, hS, hcall⟩ := hrun
  exact ⟨S, hcall, served_of_reach (reach_of_run _ hS)⟩

/-- `Stop` of a scheduler that has not been started. -/
theorem not_served_unstarted :
    ¬∀ S, Reach step Free make S → ∀ c i, S.Waits c i → S.Served c i := by
  intro h
  have hrun : ∃ S, run step Free make
      [.callStop (.user 0), .lock (.user 0), .stop, .stop, .stop] = some S ∧
      S.stop = some (.user 0, .active 0 1) ∧ S.process 0 = .notCalled :=
    exists_of_run (by decide +kernel)
  obtain ⟨S, hS, hcall, hnot⟩ := hrun
  have hserved := h S (reach_of_run _ hS) (.user 0) 0 ⟨_, hcall, rfl⟩
  exact not_served (.inl hnot) hserved

end Lifecycle

end CppGo.Scheduling
