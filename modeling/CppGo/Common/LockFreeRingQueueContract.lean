import CppGo.Common.LockFreeRingQueue

/-!
# When `LockFreeRingQueue` is safe

The calls of `Push` and those of `Pop` draw tickets with their first compare-exchange and
give them back with the second one.  While a compare-exchange that succeeds is one of the
call whose turn it is, every slot is used by one call at a time.
-/

namespace CppGo.Common

open CppGo.Lib CppGo.Lib.Machine

namespace RingSize

variable {z : RingSize}

theorem two_le_capacity_ : 2 ≤ z.capacity_ := Nat.succ_le_succ z.pos

theorem mod_succ (k : Nat) : z.mod (k % z.capacity_ + 1) = (k + 1) % z.capacity_ := by
  have hlt : k % z.capacity_ < z.capacity_ := Nat.mod_lt k (Nat.succ_pos _)
  have hwidth : z.capacity_ ≤ 2 ^ z.bits := z.fits
  have hsucc : (k + 1) % z.capacity_ = (k % z.capacity_ + 1) % z.capacity_ :=
    (Nat.mod_add_mod k z.capacity_ 1).symm
  rw [mod, hsucc]
  generalize k % z.capacity_ = m at hlt
  by_cases h : m + 1 = 2 ^ z.bits
  · have hfull : z.capacity_ = 2 ^ z.bits := by omega
    rw [hfull, h, Nat.mod_self, Nat.zero_mod]
  · rw [Nat.mod_eq_of_lt (b := 2 ^ z.bits) (by omega)]

end RingSize

def PushPc.phase : PushPc → Phase
  | .construct write _ => .working write
  | .loadReadable slot _ _ | .exchangeReadable slot _ _ _ => .ending slot
  | .done result => if result.success then .done else .waiting
  | _ => .waiting

def PopPc.phase {α : Type} : PopPc α → Phase
  | .move read => .working read
  | .exchangeWritable read _ _ => .ending read
  | .loadNotify _ _ => .done
  | .done result _ => if result.success then .done else .waiting
  | _ => .waiting

theorem PopPc.eq_move {α : Type} {qc : PopPc α} {slot : Nat} (h : qc.phase = .working slot) :
    qc = .move slot := by
  cases qc with
  | move read =>
      injection h with heq
      rw [heq]
  | done result t =>
      have hne : (if result.success then Phase.done else .waiting) ≠ .working slot := by
        split <;> exact Phase.noConfusion
      exact absurd h hne
  | loadRead | loadReadable read | exchangeRead read readable | exchangeWritable read check t
  | loadNotify read t => cases h

namespace RingCall

variable {α : Type}

def pushPhase : RingCall α → Phase
  | .push _ pc => pc.phase
  | .pop _ => .waiting

def popPhase : RingCall α → Phase
  | .push _ _ => .waiting
  | .pop pc => pc.phase

def value : RingCall α → Option α
  | .push v _ => some v
  | .pop _ => none

end RingCall

namespace LockFreeRingQueue

variable {α : Type} {z : RingSize} {s t : LockFreeRingQueue α} {c : Nat}

/-- If the next step of the call is a compare-exchange that succeeds, it finds the counters as
they have to be: there is room for a `Push`, there is an element for a `Pop`, and the second
one of a call moves its counter from the call's own slot to the next one. -/
def InTurn (z : RingSize) (s : LockFreeRingQueue α) (spurious : Bool) : RingCall α → Prop
  | .push _ (.exchangeWrite write _) =>
      Exchanges s.write_ write spurious → s.write_ ≠ s.writable_
  | .push _ (.exchangeReadable slot write _ readable) =>
      Exchanges s.readable_ write spurious → write = slot ∧ readable = slot
  | .pop (.exchangeRead read _) => Exchanges s.read_ read spurious → s.read_ ≠ s.readable_
  | .pop (.exchangeWritable read check _) =>
      Exchanges s.writable_ check spurious → check = (read + z.capacity_ - 1) % z.capacity_
  | _ => True

instance (s : LockFreeRingQueue α) (spurious : Bool) : ∀ call, Decidable (s.InTurn z spurious call)
  | .push _ (.exchangeWrite ..) | .push _ (.exchangeReadable ..) | .pop (.exchangeRead ..)
  | .pop (.exchangeWritable ..) => inferInstanceAs (Decidable (_ → _))
  | .push _ .loadWrite | .push _ (.loadWritable _) | .push _ (.construct ..)
  | .push _ (.loadReadable ..) | .push _ (.done _) | .pop .loadRead | .pop (.loadReadable _)
  | .pop (.move _) | .pop (.loadNotify ..) | .pop (.done ..) => .isTrue trivial

def InOrder (z : RingSize) (s : LockFreeRingQueue α) : RingStep α → Prop
  | .next c spurious => ∀ call ∈ s.calls[c]?, s.InTurn z spurious call
  | _ => True

instance (s : LockFreeRingQueue α) : ∀ a, Decidable (s.InOrder z a)
  | .next c spurious => inferInstanceAs (Decidable (∀ call ∈ s.calls[c]?, s.InTurn z spurious call))
  | .push _ | .pop => .isTrue trivial

def pushPhase (s : LockFreeRingQueue α) (c : Nat) : Phase :=
  (s.calls[c]?.map RingCall.pushPhase).getD .waiting

def popPhase (s : LockFreeRingQueue α) (c : Nat) : Phase :=
  (s.calls[c]?.map RingCall.popPhase).getD .waiting

def element (s : LockFreeRingQueue α) (c : Nat) : Option (Element α) :=
  (s.calls[c]?.bind RingCall.value).map (Element.mk c)

/-- The element of the ticket `k`, when the calls of `Push` have drawn `producers`. -/
def item (s : LockFreeRingQueue α) (producers : Tickets) (k : Nat) : Option (Element α) :=
  producers.holders[k]?.bind s.element

/-- The calls of `Push` hold the tickets `producers` and those of `Pop` hold `consumers`. -/
structure Booked (z : RingSize) (s : LockFreeRingQueue α) (producers consumers : Tickets) :
    Prop where
  pushes : producers.Keeps z.capacity_ s.pushPhase
  pops : consumers.Keeps z.capacity_ s.popPhase
  order : consumers.drawn ≤ producers.ended
  room : producers.drawn < consumers.ended + z.capacity_
  write_ : s.write_ = producers.drawn % z.capacity_
  readable_ : s.readable_ = producers.ended % z.capacity_
  read_ : s.read_ = consumers.drawn % z.capacity_
  writable_ : s.writable_ = (consumers.ended + z.capacity_ - 1) % z.capacity_
  slots : ∀ k, consumers.ended ≤ k → k < consumers.ended + z.capacity_ →
    s.buffer_ (k % z.capacity_) =
      if producers.worked k && !consumers.worked k then s.item producers k else none
  taken : ∀ k p, consumers.holders[k]? = some p → consumers.worked k = true →
    s.moved p = s.item producers k

section Calls

variable {call old : RingCall α} {v : α} {pc pc' : PushPc} {qc qc' : PopPc α} {P : Tickets}
  {k : Nat}

theorem get_set {β : Type} (f : Option (RingCall α) → β) (hc : s.calls[c]? = some old)
    (ht : t.calls = s.calls.set c call) :
    (fun c' : Nat => f t.calls[c']?) =
      Function.update (fun c' : Nat => f s.calls[c']?) c (f (some call)) := by
  have hlt := (List.getElem?_eq_some_iff.mp hc).1
  ext1 c'
  rw [ht]
  by_cases h : c' = c
  · rw [h, List.getElem?_set_self hlt, Function.update_self]
  · rw [List.getElem?_set_ne (Ne.symm h), Function.update_of_ne h]

theorem get_set_same {β : Type} (f : Option (RingCall α) → β) (hc : s.calls[c]? = some old)
    (ht : t.calls = s.calls.set c call) (h : f (some call) = f (some old)) :
    (fun c' : Nat => f t.calls[c']?) = fun c' : Nat => f s.calls[c']? := by
  rw [get_set f hc ht, h, ← hc, Function.update_eq_self]

theorem element_set (hc : s.calls[c]? = some old) (ht : t.calls = s.calls.set c call)
    (h : call.value = old.value) : t.element = s.element := by
  have hvalue := get_set_same (fun call => call.bind RingCall.value) hc ht h
  ext1 c'
  rw [element, element, congrFun hvalue c']

theorem item_eq (h : t.element = s.element) : t.item P k = s.item P k := by
  rw [item, item, h]

theorem set_push (hc : s.calls[c]? = some (.push v pc))
    (ht : t.calls = s.calls.set c (.push v pc')) :
    t.pushPhase = Function.update s.pushPhase c pc'.phase ∧ t.popPhase = s.popPhase ∧
      t.element = s.element ∧ t.moved = s.moved :=
  ⟨get_set (fun call => (call.map RingCall.pushPhase).getD .waiting) hc ht,
    get_set_same (fun call => (call.map RingCall.popPhase).getD .waiting) hc ht rfl,
    element_set hc ht rfl, get_set_same (fun call => call.bind RingCall.moved) hc ht rfl⟩

theorem set_pop (hc : s.calls[c]? = some (.pop qc)) (ht : t.calls = s.calls.set c (.pop qc')) :
    t.pushPhase = s.pushPhase ∧ t.popPhase = Function.update s.popPhase c qc'.phase ∧
      t.element = s.element ∧ t.moved = Function.update s.moved c (RingCall.pop qc').moved :=
  ⟨get_set_same (fun call => (call.map RingCall.pushPhase).getD .waiting) hc ht rfl,
    get_set (fun call => (call.map RingCall.popPhase).getD .waiting) hc ht,
    element_set hc ht rfl, get_set (fun call => call.bind RingCall.moved) hc ht⟩

theorem pushPhase_eq (hc : s.calls[c]? = some (.push v pc)) : s.pushPhase c = pc.phase := by
  rw [pushPhase, hc]
  rfl

theorem popPhase_eq (hc : s.calls[c]? = some (.pop qc)) : s.popPhase c = qc.phase := by
  rw [popPhase, hc]
  rfl

theorem moved_eq (hc : s.calls[c]? = some (.pop qc)) : s.moved c = (RingCall.pop qc).moved := by
  rw [moved, hc]
  rfl

end Calls

namespace Booked

variable {P Q : Tickets} {call old : RingCall α} {k slot : Nat}

theorem ended_le (h : Booked z s P Q) : Q.ended ≤ P.ended := h.pops.ended_le.trans h.order

theorem inWindow (h : Booked z s P Q) (hlt : k < P.drawn) : k < Q.ended + z.capacity_ :=
  hlt.trans h.room

/-- Nobody has moved out an element that has not been published. -/
theorem not_moved (h : Booked z s P Q) (hk : P.ended ≤ k) : Q.worked k = false :=
  h.pops.not_worked k (h.order.trans hk)

theorem slot_inj (h : Booked z s P Q) {k' : Nat} (hle : Q.ended ≤ k) (hlt : k < P.drawn)
    (hle' : Q.ended ≤ k') (hlt' : k' < Q.ended + z.capacity_)
    (heq : k' % z.capacity_ = k % z.capacity_) : k' = k :=
  Tickets.eq_of_mod_eq hle' hlt' hle (h.inWindow hlt) heq

theorem exists_push (h : Booked z s P Q) (hc : P.holders[k]? = some c) :
    ∃ v pc, s.calls[c]? = some (.push v pc) ∧ P.Stands z.capacity_ k pc.phase := by
  have hstands := h.pushes.stands k c hc
  unfold pushPhase at hstands
  cases hcall : s.calls[c]? with
  | none =>
      rw [hcall] at hstands
      exact hstands.elim
  | some call =>
      rw [hcall] at hstands
      cases call with
      | push v pc => exact ⟨v, pc, rfl, hstands⟩
      | pop pc => exact hstands.elim

theorem exists_pop (h : Booked z s P Q) (hc : Q.holders[k]? = some c) :
    ∃ pc, s.calls[c]? = some (.pop pc) ∧ Q.Stands z.capacity_ k pc.phase := by
  have hstands := h.pops.stands k c hc
  unfold popPhase at hstands
  cases hcall : s.calls[c]? with
  | none =>
      rw [hcall] at hstands
      exact hstands.elim
  | some call =>
      rw [hcall] at hstands
      cases call with
      | push v pc => exact hstands.elim
      | pop pc => exact ⟨pc, rfl, hstands⟩

theorem element_of_push {v : α} {pc : PushPc} (hc : s.calls[c]? = some (.push v pc)) :
    s.element c = some ⟨c, v⟩ := by
  rw [element, hc]
  rfl

theorem item_of_holder {v : α} {pc : PushPc} (hk : P.holders[k]? = some c)
    (hc : s.calls[c]? = some (.push v pc)) : s.item P k = some ⟨c, v⟩ := by
  rw [item, hk]
  exact element_of_push hc

section Push

variable {v : α} {pc pc' : PushPc}

/-- A step of a `Push` that stays in its phase and leaves the counters and the slots alone. -/
theorem stayPush (h : Booked z s P Q) (hc : s.calls[c]? = some (.push v pc))
    (hpc : pc'.phase = pc.phase) : Booked z (s.setCall c (.push v pc')) P Q := by
  generalize ht : s.setCall c (.push v pc') = t
  obtain ⟨hpush, hpop, helement, hmoved⟩ := set_push hc (congrArg calls ht.symm)
  rw [hpc, ← pushPhase_eq hc, Function.update_eq_self] at hpush
  subst ht
  constructor
  case pushes =>
    rw [hpush]
    exact h.pushes
  case pops =>
    rw [hpop]
    exact h.pops
  case order => exact h.order
  case room => exact h.room
  case write_ => exact h.write_
  case readable_ => exact h.readable_
  case read_ => exact h.read_
  case writable_ => exact h.writable_
  case slots =>
    intro k hk hk'
    rw [item_eq helement]
    exact h.slots k hk hk'
  case taken =>
    intro k p hp hworked
    rw [hmoved, item_eq helement]
    exact h.taken k p hp hworked

/-- The first compare-exchange of a `Push`, when there is room. -/
theorem drawPush (h : Booked z s P Q) (hc : s.calls[c]? = some (.push v pc))
    (hpc : pc.phase = .waiting) (hpc' : pc'.phase = .working s.write_)
    (hroom : s.write_ ≠ s.writable_) :
    Booked z ({ s with write_ := z.mod (s.write_ + 1) }.setCall c (.push v pc')) (P.draw c) Q := by
  have hle := h.ended_le
  have hle' := h.pushes.ended_le
  have hlt := h.room
  have hfree : P.drawn ≠ Q.ended + z.capacity_ - 1 := by
    intro heq
    rw [h.write_, h.writable_, heq] at hroom
    exact hroom rfl
  have hitem : ∀ k < P.drawn, s.item (P.draw c) k = s.item P k := by
    intro k hk
    rw [item, item, Tickets.draw, List.getElem?_append_left hk]
  generalize ht : { s with write_ := z.mod (s.write_ + 1) }.setCall c (.push v pc') = t
  obtain ⟨hpush, hpop, helement, hmoved⟩ := set_push hc (congrArg calls ht.symm)
  subst ht
  constructor
  case pushes =>
    rw [hpush, hpc', h.write_]
    exact h.pushes.draw ((pushPhase_eq hc).trans hpc) (by omega)
  case pops =>
    rw [hpop]
    exact h.pops
  case order => exact h.order
  case room =>
    rw [Tickets.drawn_draw]
    omega
  case write_ =>
    show z.mod (s.write_ + 1) = _
    rw [h.write_, RingSize.mod_succ, Tickets.drawn_draw]
  case readable_ => exact h.readable_
  case read_ => exact h.read_
  case writable_ => exact h.writable_
  case slots =>
    intro k hk hk'
    rw [item_eq helement]
    have hslot := h.slots k hk hk'
    by_cases hworked : P.worked k = true
    · rw [hitem k (h.pushes.lt_of_worked hworked)]
      exact hslot
    · rw [Bool.not_eq_true] at hworked
      rw [hworked] at hslot
      exact hslot.trans (if_neg (by rw [Tickets.draw, hworked]; exact Bool.false_ne_true)).symm
  case taken =>
    intro k p hp hworked
    have hk := h.pops.lt_of_worked hworked
    have horder := h.order
    rw [hmoved, item_eq helement, hitem k (by omega)]
    exact h.taken k p hp hworked

theorem workPush (h : Booked z s P Q) (hc : s.calls[c]? = some (.push v pc))
    (hpc : pc.phase = .working slot) (hpc' : pc'.phase = .ending slot) :
    ∃ k, Booked z ({ s with
      buffer_ := Function.update s.buffer_ slot (some ⟨c, v⟩) }.setCall c (.push v pc'))
      (P.work k) Q := by
  have hphase : s.pushPhase c = .working slot := (pushPhase_eq hc).trans hpc
  obtain ⟨k, hk, hstands⟩ := h.pushes.exists_ticket (c := c)
    (by rw [hphase]; exact Phase.noConfusion)
  rw [hphase] at hstands
  obtain ⟨hended, -, hslot⟩ := hstands
  have hlt := Tickets.lt_drawn hk
  have hle := h.ended_le
  refine ⟨k, ?_⟩
  generalize ht : { s with
    buffer_ := Function.update s.buffer_ slot (some ⟨c, v⟩) }.setCall c (.push v pc') = t
  obtain ⟨hpush, hpop, helement, hmoved⟩ := set_push hc (congrArg calls ht.symm)
  subst ht
  constructor
  case pushes =>
    rw [hpush, hpc']
    exact h.pushes.work hphase hk
  case pops =>
    rw [hpop]
    exact h.pops
  case order => exact h.order
  case room => exact h.room
  case write_ => exact h.write_
  case readable_ => exact h.readable_
  case read_ => exact h.read_
  case writable_ => exact h.writable_
  case slots =>
    intro k' hk' hlt'
    rw [item_eq helement]
    show Function.update s.buffer_ slot _ (k' % z.capacity_) =
      if Function.update P.worked k true k' && !Q.worked k' then s.item P k' else none
    by_cases heq : k' = k
    · subst heq
      rw [hslot, Function.update_self, Function.update_self, h.not_moved hended]
      exact (item_of_holder hk hc).symm
    · have hne : k' % z.capacity_ ≠ slot := by
        rw [hslot]
        exact fun hmod => heq (h.slot_inj (hle.trans hended) hlt hk' hlt' hmod)
      rw [Function.update_of_ne hne, Function.update_of_ne heq]
      exact h.slots k' hk' hlt'
  case taken =>
    intro k' p hp hworked
    rw [hmoved, item_eq helement]
    exact h.taken k' p hp hworked

/-- The second compare-exchange of a `Push`, when it is its turn. -/
theorem giveBackPush (h : Booked z s P Q) (hc : s.calls[c]? = some (.push v pc))
    (hpc : pc.phase = .ending slot) (hpc' : pc'.phase = .done) (hturn : s.readable_ = slot) :
    Booked z ({ s with readable_ := z.mod (slot + 1) }.setCall c (.push v pc')) P.giveBack Q := by
  have hphase : s.pushPhase c = .ending slot := (pushPhase_eq hc).trans hpc
  have hslot : slot = P.ended % z.capacity_ := hturn.symm.trans h.readable_
  generalize ht : { s with readable_ := z.mod (slot + 1) }.setCall c (.push v pc') = t
  obtain ⟨hpush, hpop, helement, hmoved⟩ := set_push hc (congrArg calls ht.symm)
  subst ht
  constructor
  case pushes =>
    rw [hpush, hpc']
    exact h.pushes.giveBack hphase hslot
  case pops =>
    rw [hpop]
    exact h.pops
  case order => exact Nat.le_succ_of_le h.order
  case room => exact h.room
  case write_ => exact h.write_
  case readable_ =>
    show z.mod (slot + 1) = _
    rw [hslot, RingSize.mod_succ]
    rfl
  case read_ => exact h.read_
  case writable_ => exact h.writable_
  case slots =>
    intro k hk hk'
    rw [item_eq helement]
    exact h.slots k hk hk'
  case taken =>
    intro k p hp hworked
    rw [hmoved, item_eq helement]
    exact h.taken k p hp hworked

end Push

section Pop

variable {qc qc' : PopPc α}

theorem stayPop (h : Booked z s P Q) (hc : s.calls[c]? = some (.pop qc))
    (hqc : qc'.phase = qc.phase) (hsame : (RingCall.pop qc').moved = (RingCall.pop qc).moved) :
    Booked z (s.setCall c (.pop qc')) P Q := by
  generalize ht : s.setCall c (.pop qc') = t
  obtain ⟨hpush, hpop, helement, hmoved⟩ := set_pop hc (congrArg calls ht.symm)
  rw [hqc, ← popPhase_eq hc, Function.update_eq_self] at hpop
  rw [hsame, ← moved_eq hc, Function.update_eq_self] at hmoved
  subst ht
  constructor
  case pushes =>
    rw [hpush]
    exact h.pushes
  case pops =>
    rw [hpop]
    exact h.pops
  case order => exact h.order
  case room => exact h.room
  case write_ => exact h.write_
  case readable_ => exact h.readable_
  case read_ => exact h.read_
  case writable_ => exact h.writable_
  case slots =>
    intro k hk hk'
    rw [item_eq helement]
    exact h.slots k hk hk'
  case taken =>
    intro k p hp hworked
    rw [hmoved, item_eq helement]
    exact h.taken k p hp hworked

/-- The first compare-exchange of a `Pop`, when there is an element. -/
theorem drawPop (h : Booked z s P Q) (hc : s.calls[c]? = some (.pop qc))
    (hqc : qc.phase = .waiting) (hqc' : qc'.phase = .working s.read_)
    (hsame : (RingCall.pop qc').moved = (RingCall.pop qc).moved) (hnonempty : s.read_ ≠ s.readable_) :
    Booked z ({ s with read_ := z.mod (s.read_ + 1) }.setCall c (.pop qc')) P (Q.draw c) := by
  have horder := h.order
  have hpublished := h.pushes.ended_le
  have hroom := h.room
  have hsome : Q.drawn ≠ P.ended := by
    intro heq
    rw [h.read_, h.readable_, heq] at hnonempty
    exact hnonempty rfl
  generalize ht : { s with read_ := z.mod (s.read_ + 1) }.setCall c (.pop qc') = t
  obtain ⟨hpush, hpop, helement, hmoved⟩ := set_pop hc (congrArg calls ht.symm)
  rw [hsame, ← moved_eq hc, Function.update_eq_self] at hmoved
  subst ht
  constructor
  case pushes =>
    rw [hpush]
    exact h.pushes
  case pops =>
    rw [hpop, hqc', h.read_]
    exact h.pops.draw ((popPhase_eq hc).trans hqc) (by omega)
  case order =>
    rw [Tickets.drawn_draw]
    omega
  case room => exact h.room
  case write_ => exact h.write_
  case readable_ => exact h.readable_
  case read_ =>
    show z.mod (s.read_ + 1) = _
    rw [h.read_, RingSize.mod_succ, Tickets.drawn_draw]
  case writable_ => exact h.writable_
  case slots =>
    intro k hk hk'
    rw [item_eq helement]
    exact h.slots k hk hk'
  case taken =>
    intro k p hp hworked
    have hlt := h.pops.lt_of_worked hworked
    rw [hmoved, item_eq helement]
    apply h.taken k p ?_ hworked
    rw [← hp]
    exact (List.getElem?_append_left hlt).symm

theorem workPop (h : Booked z s P Q) (hc : s.calls[c]? = some (.pop qc))
    (hqc : qc.phase = .working slot) (hqc' : qc'.phase = .ending slot)
    (hmove : (RingCall.pop qc').moved = s.buffer_ slot) :
    ∃ k, Booked z ({ s with
      buffer_ := Function.update s.buffer_ slot none }.setCall c (.pop qc')) P (Q.work k) := by
  have hphase : s.popPhase c = .working slot := (popPhase_eq hc).trans hqc
  obtain ⟨k, hk, hstands⟩ := h.pops.exists_ticket (c := c)
    (by rw [hphase]; exact Phase.noConfusion)
  rw [hphase] at hstands
  obtain ⟨hended, hfresh, hslot⟩ := hstands
  have hlt := Tickets.lt_drawn hk
  have horder := h.order
  have hpublished := h.pushes.ended_le
  have hitem : s.buffer_ slot = s.item P k := by
    rw [hslot, h.slots k hended (h.inWindow (by omega)), hfresh,
      h.pushes.worked_of_lt k (by omega)]
    rfl
  refine ⟨k, ?_⟩
  generalize ht : { s with
    buffer_ := Function.update s.buffer_ slot none }.setCall c (.pop qc') = t
  obtain ⟨hpush, hpop, helement, hmoved⟩ := set_pop hc (congrArg calls ht.symm)
  subst ht
  constructor
  case pushes =>
    rw [hpush]
    exact h.pushes
  case pops =>
    rw [hpop, hqc']
    exact h.pops.work hphase hk
  case order => exact h.order
  case room => exact h.room
  case write_ => exact h.write_
  case readable_ => exact h.readable_
  case read_ => exact h.read_
  case writable_ => exact h.writable_
  case slots =>
    intro k' hk' hlt'
    rw [item_eq helement]
    show Function.update s.buffer_ slot none (k' % z.capacity_) =
      if P.worked k' && !Function.update Q.worked k true k' then s.item P k' else none
    by_cases heq : k' = k
    · subst heq
      rw [hslot, Function.update_self, Function.update_self, Bool.not_true, Bool.and_false]
      rfl
    · have hne : k' % z.capacity_ ≠ slot := by
        rw [hslot]
        exact fun hmod => heq (h.slot_inj hended (by omega) hk' hlt' hmod)
      rw [Function.update_of_ne hne, Function.update_of_ne heq]
      exact h.slots k' hk' hlt'
  case taken =>
    intro k' p hp hworked
    rw [hmoved, item_eq helement]
    by_cases heq : p = c
    · subst heq
      obtain rfl := h.pops.holder_unique hk hp
      rw [Function.update_self, hmove, hitem]
    · have hne : k' ≠ k := by
        rintro rfl
        exact heq (Option.some.inj (hp.symm.trans hk))
      have hworked' : Q.worked k' = true := by
        rw [← hworked]
        exact (Function.update_of_ne hne ..).symm
      rw [Function.update_of_ne heq]
      exact h.taken k' p hp hworked'

/-- The second compare-exchange of a `Pop`, when it is its turn. -/
theorem giveBackPop (h : Booked z s P Q) (hc : s.calls[c]? = some (.pop qc))
    (hqc : qc.phase = .ending slot) (hqc' : qc'.phase = .done)
    (hsame : (RingCall.pop qc').moved = (RingCall.pop qc).moved)
    (hturn : s.writable_ = (slot + z.capacity_ - 1) % z.capacity_) :
    Booked z ({ s with writable_ := slot }.setCall c (.pop qc')) P Q.giveBack := by
  have hphase : s.popPhase c = .ending slot := (popPhase_eq hc).trans hqc
  obtain ⟨k, hk, hstands⟩ := h.pops.exists_ticket (c := c)
    (by rw [hphase]; exact Phase.noConfusion)
  rw [hphase] at hstands
  obtain ⟨hended, -, hslot⟩ := hstands
  have hlt := Tickets.lt_drawn hk
  have horder := h.order
  have hpublished := h.pushes.ended_le
  have hroom := h.room
  have hpos := RingSize.two_le_capacity_ (z := z)
  have hmod : (Q.ended + z.capacity_ - 1) % z.capacity_ = (k + z.capacity_ - 1) % z.capacity_ := by
    rw [← h.writable_, hturn, hslot, Nat.add_sub_assoc (by omega), Nat.mod_add_mod,
      Nat.add_sub_assoc (by omega)]
  have hnext := Tickets.eq_of_mod_eq (a := Q.ended + z.capacity_ - 1) (Nat.le_refl _) (by omega)
    (by omega) (by omega) hmod
  obtain rfl : k = Q.ended := by omega
  obtain ⟨-, hworked⟩ := h.pops.holder_of_slot hphase hslot
  generalize ht : { s with writable_ := slot }.setCall c (.pop qc') = t
  obtain ⟨hpush, hpop, helement, hmoved⟩ := set_pop hc (congrArg calls ht.symm)
  rw [hsame, ← moved_eq hc, Function.update_eq_self] at hmoved
  subst ht
  constructor
  case pushes =>
    rw [hpush]
    exact h.pushes
  case pops =>
    rw [hpop, hqc']
    exact h.pops.giveBack hphase hslot
  case order => exact h.order
  case room =>
    show P.drawn < Q.ended + 1 + z.capacity_
    omega
  case write_ => exact h.write_
  case readable_ => exact h.readable_
  case read_ => exact h.read_
  case writable_ =>
    show slot = (Q.ended + 1 + z.capacity_ - 1) % z.capacity_
    have hsucc : Q.ended + 1 + z.capacity_ - 1 = Q.ended + z.capacity_ := by omega
    rw [hsucc, Nat.add_mod_right, hslot]
  case slots =>
    intro k hk hk'
    have hk : Q.ended + 1 ≤ k := hk
    have hk' : k < Q.ended + 1 + z.capacity_ := hk'
    rw [item_eq helement]
    show s.buffer_ (k % z.capacity_) = if P.worked k && !Q.worked k then s.item P k else none
    by_cases hlast : k = Q.ended + z.capacity_
    · -- the slot that is free now
      have hfree := h.slots Q.ended (Nat.le_refl _) (by omega)
      rw [hworked, Bool.not_true, Bool.and_false] at hfree
      rw [hlast, Nat.add_mod_right, h.pushes.not_worked _ (by omega)]
      exact hfree
    · exact h.slots k (by omega) (by omega)
  case taken =>
    intro k p hp hk
    rw [hmoved, item_eq helement]
    exact h.taken k p hp hk

end Pop

section NewCall

variable {call : RingCall α}

theorem newCall (h : Booked z s P Q) (hpush : call.pushPhase = .waiting)
    (hpop : call.popPhase = .waiting) (hmoved : call.moved = none) :
    Booked z { s with calls := s.calls ++ [call] } P Q := by
  have hget : ∀ {β : Type} (f : Option (RingCall α) → β), f (some call) = f none →
      (fun c : Nat => f (s.calls ++ [call])[c]?) = fun c : Nat => f s.calls[c]? := by
    intro β f hf
    ext1 c
    by_cases hlt : c < s.calls.length
    · rw [List.getElem?_append_left hlt]
    · have hnone : s.calls[c]? = none := List.getElem?_eq_none (Nat.le_of_not_lt hlt)
      rw [hnone, List.getElem?_append_right (Nat.le_of_not_lt hlt)]
      cases c - s.calls.length with
      | zero => exact hf
      | succ n => rfl
  generalize ht : { s with calls := s.calls ++ [call] } = t
  have hcalls : t.calls = s.calls ++ [call] := congrArg calls ht.symm
  have hpushes : t.pushPhase = s.pushPhase := by
    unfold pushPhase
    rw [hcalls]
    exact hget (fun call => (call.map RingCall.pushPhase).getD .waiting) hpush
  have hpops : t.popPhase = s.popPhase := by
    unfold popPhase
    rw [hcalls]
    exact hget (fun call => (call.map RingCall.popPhase).getD .waiting) hpop
  have hmoves : t.moved = s.moved := by
    unfold moved
    rw [hcalls]
    exact hget (fun call => call.bind RingCall.moved) hmoved
  have hitem : ∀ k, t.item P k = s.item P k := by
    intro k
    cases hk : P.holders[k]? with
    | none => rw [item, item, hk, Option.bind_none, Option.bind_none]
    | some c =>
        obtain ⟨v, pc, hc, -⟩ := h.exists_push hk
        have hc' : t.calls[c]? = some (.push v pc) := by
          rw [hcalls, List.getElem?_append_left (List.getElem?_eq_some_iff.mp hc).1]
          exact hc
        rw [item_of_holder hk hc, item_of_holder hk hc']
  subst ht
  constructor
  case pushes =>
    rw [hpushes]
    exact h.pushes
  case pops =>
    rw [hpops]
    exact h.pops
  case order => exact h.order
  case room => exact h.room
  case write_ => exact h.write_
  case readable_ => exact h.readable_
  case read_ => exact h.read_
  case writable_ => exact h.writable_
  case slots =>
    intro k hk hk'
    rw [hitem k]
    exact h.slots k hk hk'
  case taken =>
    intro k p hp hworked
    rw [hmoves, hitem k]
    exact h.taken k p hp hworked

end NewCall

section Step

theorem make_booked : Booked z (make z : LockFreeRingQueue α) .fresh .fresh where
  pushes := Tickets.keeps_fresh _
  pops := Tickets.keeps_fresh _
  order := Nat.le_refl 0
  room := Nat.lt_add_left 0 (Nat.succ_pos _)
  write_ := (Nat.zero_mod _).symm
  readable_ := (Nat.zero_mod _).symm
  read_ := (Nat.zero_mod _).symm
  writable_ := by
    show z.capacity_ - 1 = (0 + z.capacity_ - 1) % z.capacity_
    have hpos := RingSize.two_le_capacity_ (z := z)
    rw [Nat.zero_add, Nat.mod_eq_of_lt (by omega)]
  slots _ _ _ := rfl
  taken _ _ _ hworked := absurd hworked Bool.false_ne_true

theorem push_step (h : Booked z s P Q) {v : α} {pc : PushPc} {spurious : Bool}
    (hc : s.calls[c]? = some (.push v pc)) (hin : s.InTurn z spurious (.push v pc))
    (ht : s.push z c v spurious pc = some t) : ∃ P' Q', Booked z t P' Q' := by
  cases pc with
  | loadWrite =>
      cases ht
      exact ⟨P, Q, h.stayPush hc rfl⟩
  | loadWritable write =>
      cases ht
      refine ⟨P, Q, h.stayPush hc ?_⟩
      split <;> rfl
  | exchangeWrite write writable =>
      by_cases hex : Exchanges s.write_ write spurious
      · cases ht.symm.trans (if_pos hex)
        obtain rfl := hex.1
        exact ⟨_, Q, h.drawPush hc rfl rfl (hin hex)⟩
      · cases ht.symm.trans (if_neg hex)
        exact ⟨P, Q, h.stayPush hc rfl⟩
  | construct write writable =>
      cases ht
      have hphase : (PushPc.loadReadable write write writable).phase = .ending write := rfl
      obtain ⟨k, hk⟩ := h.workPush hc rfl hphase
      exact ⟨_, Q, hk⟩
  | loadReadable slot write writable =>
      cases ht
      exact ⟨P, Q, h.stayPush hc rfl⟩
  | exchangeReadable slot write writable readable =>
      by_cases hex : Exchanges s.readable_ write spurious
      · cases ht.symm.trans (if_pos hex)
        obtain ⟨rfl, rfl⟩ := hin hex
        exact ⟨_, Q, h.giveBackPush hc rfl rfl hex.1⟩
      · cases ht.symm.trans (if_neg hex)
        exact ⟨P, Q, h.stayPush hc rfl⟩
  | done result => cases ht

theorem pop_step (h : Booked z s P Q) {qc : PopPc α} {spurious : Bool}
    (hc : s.calls[c]? = some (.pop qc)) (hin : s.InTurn z spurious (.pop qc))
    (ht : s.pop z c spurious qc = some t) : ∃ P' Q', Booked z t P' Q' := by
  cases qc with
  | loadRead =>
      cases ht
      exact ⟨P, Q, h.stayPop hc rfl rfl⟩
  | loadReadable read =>
      cases ht
      refine ⟨P, Q, h.stayPop hc ?_ ?_⟩ <;> split <;> rfl
  | exchangeRead read readable =>
      by_cases hex : Exchanges s.read_ read spurious
      · cases ht.symm.trans (if_pos hex)
        obtain rfl := hex.1
        exact ⟨P, _, h.drawPop hc rfl rfl rfl (hin hex)⟩
      · cases ht.symm.trans (if_neg hex)
        exact ⟨P, Q, h.stayPop hc rfl rfl⟩
  | move read =>
      cases ht
      have hphase : (PopPc.exchangeWritable read (z.mod (read + z.capacity_ - 1))
        (s.buffer_ read)).phase = .ending read := rfl
      obtain ⟨k, hk⟩ := h.workPop hc rfl hphase rfl
      exact ⟨P, _, hk⟩
  | exchangeWritable read check e =>
      by_cases hex : Exchanges s.writable_ check spurious
      · cases ht.symm.trans (if_pos hex)
        have hturn := hin hex
        exact ⟨P, _, h.giveBackPop hc rfl rfl rfl (hex.1.trans hturn)⟩
      · cases ht.symm.trans (if_neg hex)
        exact ⟨P, Q, h.stayPop hc rfl rfl⟩
  | loadNotify read e =>
      cases ht
      exact ⟨P, Q, h.stayPop hc rfl rfl⟩
  | done result e => cases ht

theorem step (h : Booked z s P Q) {a : RingStep α} (hin : s.InOrder z a)
    (ht : s.step z a = some t) : ∃ P' Q', Booked z t P' Q' := by
  cases a with
  | push v =>
      cases ht
      exact ⟨P, Q, h.newCall rfl rfl rfl⟩
  | pop =>
      cases ht
      exact ⟨P, Q, h.newCall rfl rfl rfl⟩
  | next c spurious =>
      obtain ⟨call, hc, hnext⟩ := Option.bind_eq_some_iff.mp ht
      have hturn := hin call hc
      cases call with
      | push v pc => exact h.push_step hc hturn hnext
      | pop qc => exact h.pop_step hc hturn hnext

end Step

end Booked

theorem booked_of_reach (h : Reach (step z) (InOrder z) (make z : LockFreeRingQueue α) s) :
    ∃ P Q, Booked z s P Q :=
  h.invariant (I := fun s => ∃ P Q, Booked z s P Q) ⟨_, _, Booked.make_booked⟩
    fun _ _ _ ⟨_, _, hs⟩ hin ht => hs.step hin ht

section Safety

structure Safe (z : RingSize) (s : LockFreeRingQueue α) : Prop where
  construct : ∀ (c : Nat) v write writable,
    s.calls[c]? = some (.push v (.construct write writable)) → s.buffer_ write = none
  move : ∀ (c read : Nat), s.calls[c]? = some (.pop (.move read)) → ∃ e, s.buffer_ read = some e
  returned : ∀ p e, s.moved p = some e → ∃ pc, s.calls[e.push]? = some (.push e.value pc)
  once : ∀ p p' e e', s.moved p = some e → s.moved p' = some e' → e.push = e'.push → p = p'
  stored : ∀ (c : Nat) v result, s.calls[c]? = some (.push v (.done result)) → result.success = true →
    (∃ p, s.moved p = some ⟨c, v⟩) ∨ ∃ i, s.buffer_ i = some ⟨c, v⟩ ∧
      (s.Stores z i ∨ ∃ p : Nat, s.calls[p]? = some (.pop (.move i)))

theorem mod_sub {n a x : Nat} (hle : a ≤ x) (hlt : x < a + n) : (x % n + n - a % n) % n = x - a := by
  obtain ⟨d, rfl⟩ := Nat.exists_eq_add_of_le hle
  have hpos : 0 < n := by omega
  have ha := Nat.mod_lt a hpos
  have hsum : (a + d) % n = (a % n + d) % n := (Nat.mod_add_mod a n d).symm
  rw [hsum, Nat.add_sub_cancel_left]
  generalize a % n = r at ha
  by_cases hwrap : r + d < n
  · have hdist : r + d + n - r = d + n := by omega
    rw [Nat.mod_eq_of_lt hwrap, hdist, Nat.add_mod_right, Nat.mod_eq_of_lt (by omega)]
  · have hback : (r + d) % n = r + d - n := by
      rw [Nat.mod_eq_sub_mod (by omega), Nat.mod_eq_of_lt (by omega)]
    have hdist : r + d - n + n - r = d := by omega
    rw [hback, hdist, Nat.mod_eq_of_lt (by omega)]

namespace Booked

variable {P Q : Tickets} {k p : Nat} {e : Element α}

theorem ticket_of_moved (h : Booked z s P Q) (hp : s.moved p = some e) :
    ∃ k, Q.holders[k]? = some p ∧ s.item P k = some e := by
  have hworked : ∃ k, Q.holders[k]? = some p ∧ Q.worked k = true := by
    obtain ⟨call, hc, hcall⟩ := Option.bind_eq_some_iff.mp hp
    cases call with
    | push v pc => cases hcall
    | pop qc =>
        have hphase := popPhase_eq hc
        cases qc with
        | loadRead | loadReadable read | exchangeRead read readable | move read => cases hcall
        | exchangeWritable read check t =>
            obtain ⟨k, hk, hstands⟩ := h.pops.exists_ticket (c := p)
              (by rw [hphase]; exact Phase.noConfusion)
            rw [hphase] at hstands
            exact ⟨k, hk, hstands.2.1⟩
        | loadNotify read t =>
            obtain ⟨k, hk, hstands⟩ := h.pops.exists_ticket (c := p)
              (by rw [hphase]; exact Phase.noConfusion)
            rw [hphase] at hstands
            exact ⟨k, hk, h.pops.worked_of_lt k hstands⟩
        | done result t =>
            have hsuccess : result.success = true := by
              by_contra hfail
              cases hcall.symm.trans (if_neg hfail)
            have hdone : s.popPhase p = .done := hphase.trans (if_pos hsuccess)
            obtain ⟨k, hk, hstands⟩ := h.pops.exists_ticket (c := p)
              (by rw [hdone]; exact Phase.noConfusion)
            rw [hdone] at hstands
            exact ⟨k, hk, h.pops.worked_of_lt k hstands⟩
  obtain ⟨k, hk, hworked⟩ := hworked
  exact ⟨k, hk, (h.taken k p hk hworked).symm.trans hp⟩

theorem holder_of_item (h : Booked z s P Q) (hk : s.item P k = some e) :
    P.holders[k]? = some e.push ∧ ∃ pc, s.calls[e.push]? = some (.push e.value pc) := by
  obtain ⟨c, hc, helement⟩ := Option.bind_eq_some_iff.mp hk
  obtain ⟨v, pc, hcall, -⟩ := h.exists_push hc
  rw [element_of_push hcall] at helement
  cases helement
  exact ⟨hc, pc, hcall⟩

theorem stored_of_published (h : Booked z s P Q) (hk : k < P.ended) (hmoved : Q.worked k = false)
    (hitem : s.item P k = some e) : ∃ i, s.buffer_ i = some e ∧
      (s.Stores z i ∨ ∃ p : Nat, s.calls[p]? = some (.pop (.move i))) := by
  have hpublished := h.pushes.ended_le
  have hroom := h.room
  have hended : Q.ended ≤ k := by
    by_contra hlt
    rw [h.pops.worked_of_lt k (Nat.lt_of_not_le hlt)] at hmoved
    exact Bool.false_ne_true hmoved.symm
  have hslot := h.slots k hended (by omega)
  rw [h.pushes.worked_of_lt k hk, hmoved] at hslot
  refine ⟨k % z.capacity_, hslot.trans hitem, ?_⟩
  by_cases hdrawn : k < Q.drawn
  · right
    obtain ⟨p, hp⟩ : ∃ p, Q.holders[k]? = some p := ⟨_, List.getElem?_eq_getElem hdrawn⟩
    obtain ⟨qc, hc, hstands⟩ := h.exists_pop hp
    rw [PopPc.eq_move (hstands.working hended hmoved)] at hc
    exact ⟨p, hc⟩
  · left
    have hle := h.pops.ended_le
    unfold Stores
    rw [h.read_, h.write_, mod_sub (Nat.le_of_not_lt hdrawn) (by omega), mod_sub (by omega) (by omega)]
    omega

theorem safe (h : Booked z s P Q) : Safe z s where
  construct c v write writable hc := by
    have hphase := pushPhase_eq hc
    obtain ⟨k, hk, hstands⟩ := h.pushes.exists_ticket (c := c)
      (by rw [hphase]; exact Phase.noConfusion)
    rw [hphase] at hstands
    obtain ⟨hended, hworked, hslot⟩ := hstands
    rw [hslot, h.slots k (h.ended_le.trans hended) (h.inWindow (Tickets.lt_drawn hk)), hworked]
    rfl
  move c read hc := by
    have hphase := popPhase_eq hc
    obtain ⟨k, hk, hstands⟩ := h.pops.exists_ticket (c := c)
      (by rw [hphase]; exact Phase.noConfusion)
    rw [hphase] at hstands
    obtain ⟨hended, hworked, hslot⟩ := hstands
    have hlt : k < P.ended := (Tickets.lt_drawn hk).trans_le h.order
    have hdrawn : k < P.drawn := hlt.trans_le h.pushes.ended_le
    obtain ⟨a, ha⟩ : ∃ a, P.holders[k]? = some a := ⟨_, List.getElem?_eq_getElem hdrawn⟩
    obtain ⟨v, pc, hcall, -⟩ := h.exists_push ha
    refine ⟨⟨a, v⟩, ?_⟩
    rw [hslot, h.slots k hended (h.inWindow hdrawn), hworked, h.pushes.worked_of_lt k hlt]
    exact item_of_holder ha hcall
  returned p e hp := by
    obtain ⟨k, -, hk⟩ := h.ticket_of_moved hp
    exact (h.holder_of_item hk).2
  once p p' e e' hp hp' heq := by
    obtain ⟨k, hk, hitem⟩ := h.ticket_of_moved hp
    obtain ⟨k', hk', hitem'⟩ := h.ticket_of_moved hp'
    have hholder := (h.holder_of_item hitem').1
    rw [← heq] at hholder
    obtain rfl := h.pushes.holder_unique (h.holder_of_item hitem).1 hholder
    exact Option.some.inj (hk.symm.trans hk')
  stored c v result hc hsuccess := by
    have hphase : s.pushPhase c = .done := (pushPhase_eq hc).trans (if_pos hsuccess)
    obtain ⟨k, hk, hstands⟩ := h.pushes.exists_ticket (c := c)
      (by rw [hphase]; exact Phase.noConfusion)
    rw [hphase] at hstands
    have hitem := item_of_holder hk hc
    by_cases hmoved : Q.worked k = true
    · left
      obtain ⟨p, hp⟩ : ∃ p, Q.holders[k]? = some p :=
        ⟨_, List.getElem?_eq_getElem (h.pops.lt_of_worked hmoved)⟩
      exact ⟨p, (h.taken k p hp hmoved).trans hitem⟩
    · right
      exact h.stored_of_published hstands (Bool.eq_false_of_not_eq_true hmoved) hitem

end Booked

/-- In a run whose compare-exchanges come in order, a slot is read only when it holds an element
and written only when it holds none, and no element is lost or returned twice. -/
theorem safe_of_inOrder (h : Reach (step z) (InOrder z) (make z : LockFreeRingQueue α) s) :
    Safe z s := by
  obtain ⟨P, Q, hs⟩ := booked_of_reach h
  exact hs.safe

/-- `LockFreeRingQueue<int>(2)` -/
def two : RingSize where
  capacity := 2
  bits := 64
  pos := by decide
  fits := by decide

def steps (c n : Nat) : List (RingStep Nat) := List.replicate n (.next c false)

/-- Two calls of `Push` overlap and finish in order, and a `Pop` takes the first element. -/
def overlapping : List (RingStep Nat) :=
  [.push 10, .push 11, .pop] ++ steps 0 3 ++ steps 1 4 ++ steps 0 3 ++ steps 1 2 ++ steps 2 6

theorem safe_of_inOrder_overlapping : ∃ s, run (step two) (InOrder two) (make two) overlapping =
    some s ∧ s.moved 2 = some ⟨0, 10⟩ ∧ Safe two s :=
  ⟨_, rfl, rfl, safe_of_inOrder (reach_of_run overlapping rfl)⟩

/-- The second of two calls of `Push` is first at `readable_`, fails, and publishes the slot of
the other one, in which nothing is constructed when a `Pop` reads it. -/
theorem publishes_other_slot :
    ¬ ∀ (z : RingSize) (s : LockFreeRingQueue Nat), Reach (step z) Free (make z) s → Safe z s := by
  intro hall
  obtain ⟨s, hrun, hmove, hslot⟩ : ∃ s, run (step two) Free (make two)
      ([.push 10, .push 11, .pop] ++ steps 0 3 ++ steps 1 8 ++ steps 2 3) = some s ∧
      s.calls[2]? = some (.pop (.move 0)) ∧ s.buffer_ 0 = none :=
    ⟨_, rfl, rfl, rfl⟩
  obtain ⟨e, he⟩ := (hall two s (reach_of_run _ hrun)).move 2 0 hmove
  cases hslot.symm.trans he

end Safety

end LockFreeRingQueue

end CppGo.Common
