import CppGo.Netio.Transfers

/-!
# What `inner_send` sends

`inner_send` counts what is left but passes `buf` itself to every `send`.  So it sends
the buffer exactly if not more than one `send` of the call accepts bytes.
-/

namespace CppGo.Netio

open CppGo.Lib

def accepting : Request × Reply → Bool
  | (.send _ _ _ _, r) => 0 < r.ret
  | _ => false

/-- The bytes sent are a prefix of the buffer, and all of it when the call says so. -/
structure SendsBuffer (buf count : Nat) (p : SendPc ⊕ Exit) (sent : List Nat) : Prop where
  isPrefix : sent <+: List.range' buf count
  complete : ∀ ret : Int, 0 ≤ ret → p = .inr (.returned ret) →
    ret = count ∧ sent = List.range' buf count

def SendAt (count offset : Nat) : SendPc ⊕ Exit → Prop
  | .inl (.send o c) | .inl (.poll o c) => o = offset ∧ o + c = count
  | .inr e => e = .returned (-1) ∨ e = .returned count ∧ offset = count

structure SendState (buf count : Nat) (p : SendPc ⊕ Exit) (xs : List (Request × Reply))
    (offset : Nat) : Prop where
  place : SendAt count offset p
  bound : offset ≤ count
  none : xs.countP accepting = 0 → offset = 0 ∧ transferred xs = []
  one : xs.countP accepting = 1 → 0 < offset ∧ transferred xs = List.range' buf offset
  more : 2 ≤ xs.countP accepting → ¬ transferred xs <+: List.range' buf count

/-- Two ranges from one address are no prefix of a range from there. -/
theorem not_prefix_of_twice {buf count a b : Nat} (ha : 0 < a) (hb : 0 < b) :
    ¬ List.range' buf a ++ List.range' buf b <+: List.range' buf count := by
  intro h
  have hat := h.getElem (i := a) (by simp; omega)
  simp at hat
  omega

namespace SendState

variable {buf count offset : Nat} {p q : SendPc ⊕ Exit} {xs : List (Request × Reply)}
  {req : Request} {r : Reply}

theorem idle (h : SendState buf count p xs offset) (hplace : SendAt count offset q)
    (haccepting : accepting (req, r) = false)
    (htransferred : transferred (xs ++ [(req, r)]) = transferred xs) :
    SendState buf count q (xs ++ [(req, r)]) offset := by
  have hcount : (xs ++ [(req, r)]).countP accepting = xs.countP accepting := by
    simp [haccepting]
  constructor
  case place => exact hplace
  case bound => exact h.bound
  case none =>
    rw [hcount, htransferred]
    exact h.none
  case one =>
    rw [hcount, htransferred]
    exact h.one
  case more =>
    rw [hcount, htransferred]
    exact h.more

theorem accept (h : SendState buf count p xs offset) {fd flags : Int} {c n : Nat}
    (hn : 0 < n) (hle : n ≤ c) (hc : offset + c = count) (hret : r.ret = n)
    (hplace : SendAt count (offset + n) q) :
    SendState buf count q (xs ++ [(.send fd buf c flags, r)]) (offset + n) := by
  have hcount : (xs ++ [(Request.send fd buf c flags, r)]).countP accepting =
      xs.countP accepting + 1 := by
    simp [accepting, hret, hn]
  have hsent : transferred (xs ++ [(Request.send fd buf c flags, r)]) =
      transferred xs ++ List.range' buf n := by
    rw [transferred_concat, Request.region, hret, Int.toNat_natCast,
      List.take_range'_of_length_ge hle]
  constructor
  case place => exact hplace
  case bound => omega
  case none =>
    intro hzero
    omega
  case one =>
    intro hone
    obtain ⟨rfl, hnil⟩ := h.none (by omega)
    rw [hsent, hnil, Nat.zero_add]
    exact ⟨hn, rfl⟩
  case more =>
    intro hmore
    rw [hsent]
    by_cases hone : xs.countP accepting = 1
    · obtain ⟨hpos, hrange⟩ := h.one hone
      rw [hrange]
      exact not_prefix_of_twice hpos hn
    · intro hinit
      exact h.more (by omega) ((List.prefix_append _ _).trans hinit)

end SendState

section Send

variable {fd flags timeout : Int} {buf count : Nat}

theorem sendState_step (htimeout : timeout ≠ 0) {offset : Nat} {s : SendPc}
    {xs : List (Request × Reply)} {r : Reply} (h : SendState buf count (.inl s) xs offset)
    (hfit : ((innerSend fd buf count flags timeout).ask s).Moves r) :
    ∃ offset', SendState buf count ((innerSend fd buf count flags timeout).hear s r)
      (xs ++ [((innerSend fd buf count flags timeout).ask s, r)]) offset' := by
  cases s with
  | poll o c =>
      refine ⟨offset, h.idle ?_ rfl (transferred_poll _ _ _ _ _)⟩
      obtain ⟨rfl, hplace⟩ := h.place
      simp only [innerSend]
      split
      · exact .inl rfl
      · exact ⟨rfl, hplace⟩
  | send o c =>
      obtain ⟨rfl, hplace⟩ := h.place
      simp only [innerSend, if_neg htimeout]
      split
      · rename_i hret
        refine ⟨o, h.idle ?_ (by simp [accepting]; omega) (transferred_failed hret _ _)⟩
        simp only [refused, if_neg htimeout]
        split_ifs
        · exact ⟨rfl, hplace⟩
        · exact .inl rfl
        · exact ⟨rfl, hplace⟩
      · rename_i hret
        obtain ⟨n, hn⟩ := Int.eq_ofNat_of_zero_le (not_lt.mp hret)
        have hle : n ≤ c := by
          have := hfit c rfl
          omega
        rw [hn, Int.toNat_natCast]
        by_cases hzero : n = 0
        · subst hzero
          refine ⟨o, h.idle ?_ (by simp [accepting, hn]) ?_⟩
          · split
            · exact .inr ⟨by simp; omega, by omega⟩
            · exact ⟨rfl, by simpa using hplace⟩
          · rw [transferred_concat, hn]
            simp
        · refine ⟨o + n, h.accept (by omega) hle hplace hn ?_⟩
          split
          · exact .inr ⟨by congr 1; omega, by omega⟩
          · exact ⟨rfl, by omega⟩

theorem sendState (htimeout : timeout ≠ 0) {rs : List Reply}
    (hfits : (innerSend fd buf count flags timeout).Fits Request.Moves
      (innerSend fd buf count flags timeout).start rs) :
    ∃ offset, SendState buf count
      ((innerSend fd buf count flags timeout).after
        (innerSend fd buf count flags timeout).start rs)
      ((innerSend fd buf count flags timeout).exchanges
        (innerSend fd buf count flags timeout).start rs) offset := by
  have hstart : SendState buf count (innerSend fd buf count flags timeout).start [] 0 := by
    constructor <;> simp [innerSend, SendAt]
  exact Client.after_invariant (J := fun p xs => ∃ offset, SendState buf count p xs offset) hfits
    ⟨0, hstart⟩ fun _ _ _ ⟨_, h⟩ hfit => sendState_step htimeout h hfit

end Send

theorem SendState.sendsBuffer_iff {buf count offset : Nat} {p : SendPc ⊕ Exit}
    {xs : List (Request × Reply)} (h : SendState buf count p xs offset) :
    SendsBuffer buf count p (transferred xs) ↔ xs.countP accepting ≤ 1 := by
  constructor
  · intro hsends
    by_contra hmany
    exact h.more (by omega) hsends.isPrefix
  · intro hone
    have hrange : transferred xs = List.range' buf offset := by
      rcases Nat.le_one_iff_eq_zero_or_eq_one.mp hone with hk | hk
      · obtain ⟨rfl, hnil⟩ := h.none hk
        exact hnil
      · exact (h.one hk).2
    rw [hrange]
    constructor
    · have hsplit := List.range'_append_1 (s := buf) (m := offset) (n := count - offset)
      rw [Nat.add_sub_cancel' h.bound] at hsplit
      exact ⟨_, hsplit⟩
    · rintro ret hret rfl
      rcases h.place with hfailed | ⟨hall, rfl⟩
      · cases hfailed
        omega
      · exact ⟨Exit.returned.inj hall, rfl⟩

/-- `inner_send` sends the buffer faithfully exactly if at most one of its sends accepts
bytes. -/
theorem innerSend_sendsBuffer_iff {fd flags timeout : Int} {buf count : Nat} {rs : List Reply}
    (htimeout : timeout ≠ 0) (_hcount : count < 2 ^ 31)
    (hfits : (innerSend fd buf count flags timeout).Fits Request.Moves
      (innerSend fd buf count flags timeout).start rs) :
    let call := innerSend fd buf count flags timeout
    SendsBuffer buf count (call.after call.start rs) (transferred (call.exchanges call.start rs)) ↔
      (call.exchanges call.start rs).countP accepting ≤ 1 := by
  obtain ⟨offset, h⟩ := sendState htimeout hfits
  exact h.sendsBuffer_iff

theorem innerSend_sendsBuffer_whole :
    let call := innerSend 5 100 10 0 (-1)
    SendsBuffer 100 10 (call.after call.start [⟨-1, EAGAIN, 0⟩, ⟨0, 0, 0⟩, ⟨10, 0, 0⟩])
      (transferred (call.exchanges call.start [⟨-1, EAGAIN, 0⟩, ⟨0, 0, 0⟩, ⟨10, 0, 0⟩])) :=
  (innerSend_sendsBuffer_iff (by decide) (by decide) (by decide)).mpr (by decide)

/-- Ten bytes at 100 of which the first `send` accepts four: the second one sends the
first six again, and the call says that all are sent. -/
theorem innerSend_sends_twice :
    let call := innerSend 5 100 10 0 (-1)
    let rs : List Reply := [⟨4, 0, 0⟩, ⟨0, 0, 0⟩, ⟨6, 0, 0⟩]
    call.Fits Request.Moves call.start rs ∧ call.after call.start rs = .inr (.returned 10) ∧
      transferred (call.exchanges call.start rs) =
        [100, 101, 102, 103, 100, 101, 102, 103, 104, 105] ∧
      ¬ SendsBuffer 100 10 (call.after call.start rs)
        (transferred (call.exchanges call.start rs)) := by
  refine ⟨by decide, by decide, by decide, ?_⟩
  intro h
  have hinit := h.isPrefix
  revert hinit
  decide

end CppGo.Netio
