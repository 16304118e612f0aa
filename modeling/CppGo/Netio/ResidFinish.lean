import CppGo.Netio.ResidContract

/-!
# The end of a whole transfer

When `st_readv_resid` and `st_writev_resid` return after the last byte, and when they wait
once more.
-/

namespace CppGo.Netio

open CppGo.Lib

section Arrays

variable {v : Iovec} {iov rest : List Iovec} {n k : Nat}

def EndsFull (iov : List Iovec) : Prop := ∀ v, iov.getLast? = some v → 0 < v.iov_len

instance (iov : List Iovec) : Decidable (EndsFull iov) :=
  decidable_of_iff ((iov.getLast?.all fun v => 0 < v.iov_len) = true) (by
    simp [EndsFull, Option.all_eq_true])

theorem endsFull_nil : EndsFull [] := by
  intro v hv
  cases hv

theorem EndsFull.tail (h : EndsFull (v :: iov)) : EndsFull iov := by
  cases iov with
  | nil => exact endsFull_nil
  | cons w iov =>
      intro u hu
      apply h
      rw [List.getLast?_cons_cons]
      exact hu

theorem EndsFull.cons (h : EndsFull iov) (hv : iov = [] → 0 < v.iov_len) :
    EndsFull (v :: iov) := by
  cases iov with
  | nil =>
      intro u hu
      rw [List.getLast?_singleton, Option.some.injEq] at hu
      exact hu ▸ hv rfl
  | cons w iov =>
      intro u hu
      rw [List.getLast?_cons_cons] at hu
      exact h u hu

theorem EndsFull.totalLen_pos (h : EndsFull iov) (hne : iov ≠ []) : 0 < totalLen iov := by
  have hlast := h _ (List.getLast?_eq_some_getLast hne)
  have hle := len_le_totalLen (List.getLast_mem hne)
  omega

theorem EndsFull.advance (h : EndsFull iov) (hadvance : advance n iov = some (k, rest)) :
    EndsFull (remaining k rest) := by
  induction iov generalizing n with
  | nil => cases hadvance
  | cons v iov ih =>
      rw [Netio.advance] at hadvance
      split at hadvance
      · split at hadvance
        · cases hadvance
          cases rest with
          | nil => exact endsFull_nil
          | cons w rest => exact h.tail
        · exact ih h.tail hadvance
      · rename_i hlt
        cases hadvance
        refine h.tail.cons fun _ => ?_
        show 0 < v.iov_len - k
        omega

/-- The loop over the elements stops at the last byte, in front of the empty elements. -/
theorem advance_whole (hpos : 0 < totalLen iov) (hlast : ¬ EndsFull iov) :
    ∃ k v rest, Netio.advance (totalLen iov) iov = some (k, v :: rest) := by
  have hne : iov ≠ [] := by
    rintro rfl
    exact absurd hpos (Nat.lt_irrefl 0)
  obtain ⟨k, rest, hadvance, hrest⟩ := advance_spec (Nat.le_refl _) hne
  cases rest with
  | cons v rest => exact ⟨k, v, rest, hadvance⟩
  | nil =>
      obtain ⟨-, hone | hfull⟩ := hrest.mp rfl
      · -- a single element that holds something is not empty
        obtain ⟨v, rfl⟩ := List.length_eq_one_iff.mp hone
        have hv : 0 < v.iov_len := by simpa using hpos
        exact absurd (EndsFull.cons (fun _ hw => by cases hw) fun _ => hv) hlast
      · exact absurd hfull hlast

end Arrays

section Ends

variable {iov rest : List Iovec} {p : ResidPc ⊕ Exit × List Iovec} {n : Nat}

/-- Where the array ends with an element that is not empty, it does so until nothing is left,
and then 0 is returned. -/
structure Ends (p : ResidPc ⊕ Exit × List Iovec) : Prop where
  full : EndsFull (ResidPc.left p)
  pending : ∀ s, p = .inl s → ResidPc.left p ≠ []
  returned : ∀ e, p = .inr (e, []) → e = .returned 0 ∨ e = .overrun

theorem Ends.of_left (h : EndsFull rest) (hleft : ResidPc.left p = rest) (hne : rest ≠ []) :
    Ends p := by
  refine ⟨hleft ▸ h, fun _ _ => hleft ▸ hne, ?_⟩
  rintro e rfl
  exact absurd hleft.symm hne

theorem Ends.of_empty {e : Exit} (he : e = .returned 0 ∨ e = .overrun) : Ends (.inr (e, [])) := by
  refine ⟨endsFull_nil, nofun, ?_⟩
  rintro e' heq
  cases heq
  exact he

theorem Ends.enter (h : EndsFull iov) : Ends (ResidPc.enter iov) := by
  cases iov with
  | nil => exact .of_empty (.inl rfl)
  | cons v iov => exact .of_left h rfl (List.cons_ne_nil _ _)

theorem Ends.failed (h : EndsFull rest) (hne : rest ≠ []) (errno : Nat) (timeout : Int) :
    Ends (ResidPc.failed rest errno timeout) := by
  apply Ends.of_left h ?_ hne
  unfold ResidPc.failed refused
  split_ifs <;> rfl

theorem Ends.polled (h : EndsFull rest) (hne : rest ≠ []) (ret : Int) :
    Ends (ResidPc.polled rest ret) := by
  apply Ends.of_left h ?_ hne
  unfold ResidPc.polled
  split_ifs <;> rfl

theorem Ends.moved (h : EndsFull rest) (hne : rest ≠ []) : Ends (ResidPc.moved rest n) := by
  unfold ResidPc.moved
  cases hadvance : advance n rest with
  | none => exact .of_left h rfl hne
  | some r =>
      obtain ⟨k, left⟩ := r
      cases left with
      | nil => exact .of_empty (.inl rfl)
      | cons v left => exact .of_left (h.advance hadvance) rfl (List.cons_ne_nil _ _)

variable {fd timeout : Int} {rs : List Reply}

theorem ends_stReadvResid (h : EndsFull iov)
    (hfits : (stReadvResid fd iov timeout).Fits Request.Moves
      (stReadvResid fd iov timeout).start rs) :
    Ends ((stReadvResid fd iov timeout).after (stReadvResid fd iov timeout).start rs) := by
  refine @Client.after_invariant _ _ _ _ _ _ (fun p _ => Ends p) _ [] _ hfits (Ends.enter h) ?_
  intro s r _ hends _
  have hne := hends.pending s rfl
  cases s with
  | poll rest => exact Ends.polled hends.full hne r.ret
  | call rest =>
      unfold stReadvResid
      simp only
      split_ifs
      · exact Ends.failed hends.full hne r.errno timeout
      · exact Ends.of_left hends.full rfl hne
      · exact Ends.moved hends.full hne

theorem ends_stWritevResid (h : EndsFull iov)
    (hfits : (stWritevResid fd iov timeout).Fits Request.Moves
      (stWritevResid fd iov timeout).start rs) :
    Ends ((stWritevResid fd iov timeout).after (stWritevResid fd iov timeout).start rs) := by
  refine @Client.after_invariant _ _ _ _ _ _ (fun p _ => Ends p) _ [] _ hfits (Ends.enter h) ?_
  intro s r _ hends _
  have hne := hends.pending s rfl
  cases s with
  | poll rest => exact Ends.polled hends.full hne r.ret
  | call rest =>
      unfold stWritevResid
      simp only
      split_ifs
      · exact Ends.failed hends.full hne r.errno timeout
      · exact Ends.moved hends.full hne

theorem Ends.returns {size : Nat} {xs : List (Request × Reply)} (h : Ends p)
    (hcursor : Cursor (bytes iov) size p xs) (hall : (transferred xs).length = totalLen iov) :
    p = .inr (.returned 0, []) := by
  have hlength := congrArg List.length hcursor.split
  rw [List.length_append, length_bytes, length_bytes, hall] at hlength
  have hleft : ResidPc.left p = [] := by
    by_contra hne
    have hpos := h.full.totalLen_pos hne
    omega
  cases p with
  | inl s => exact absurd hleft (h.pending s rfl)
  | inr r =>
      obtain ⟨e, rest⟩ := r
      obtain rfl : rest = [] := hleft
      rcases h.returned e rfl with rfl | rfl
      · rfl
      · exact absurd rfl (hcursor.inside [])

end Ends

section Contract

/-- As soon as all bytes have been moved, the call has returned 0. -/
def Finishes (c : Client ResidPc Request Reply (Exit × List Iovec)) (iov : List Iovec) : Prop :=
  ∀ rs, c.Fits Request.Moves c.start rs →
    (transferred (c.exchanges c.start rs)).length = totalLen iov →
    ∃ rest, c.after c.start rs = .inr (.returned 0, rest)

variable {iov : List Iovec} {c : Client ResidPc Request Reply (Exit × List Iovec)}

/-- With an empty element at the end, one system call that moves all bytes leads to `Poll`. -/
theorem not_finishes (hlast : ¬ EndsFull iov) (hstart : c.start = ResidPc.enter iov)
    (hask : (c.ask (.call iov)).region = bytes iov ∧
      (c.ask (.call iov)).size = some (totalLen iov))
    (hhear : ∀ r : Reply, 0 < r.ret → c.hear (.call iov) r = ResidPc.moved iov r.ret.toNat) :
    ¬ Finishes c iov := by
  intro h
  have hcall : c.start = .inl (.call iov) := by
    rw [hstart]
    cases iov with
    | nil => exact absurd (fun _ hv => by cases hv) hlast
    | cons v iov => rfl
  by_cases hpos : 0 < totalLen iov
  · obtain ⟨k, v, rest, hadvance⟩ := advance_whole hpos hlast
    have hmoved : c.hear (.call iov) { ret := totalLen iov, errno := 0, value := 0 } =
        .inl (.poll (v.drop k :: rest)) := by
      rw [hhear _ (by simpa using hpos), ResidPc.moved, Int.toNat_natCast, hadvance]
    have hfits : c.Fits Request.Moves c.start [{ ret := totalLen iov, errno := 0, value := 0 }] := by
      rw [hcall]
      refine ⟨fun n hn => ?_, hmoved ▸ trivial⟩
      rw [hask.2, Option.some.injEq] at hn
      exact Int.ofNat_le.mpr (Nat.le_of_eq hn)
    have hall : (transferred (c.exchanges c.start
        [{ ret := totalLen iov, errno := 0, value := 0 }])).length = totalLen iov := by
      rw [hcall, Client.exchanges, hmoved, Client.exchanges, transferred]
      simp [hask.1, List.take_of_length_le]
    obtain ⟨_, hreturned⟩ := h _ hfits hall
    rw [hcall, Client.after, hmoved] at hreturned
    cases hreturned
  · have hall : (transferred (c.exchanges c.start [])).length = totalLen iov := by
      rw [Client.exchanges_nil]
      show 0 = totalLen iov
      omega
    obtain ⟨_, hreturned⟩ := h [] (hcall ▸ trivial) hall
    rw [hcall] at hreturned
    cases hreturned

/-- Exactly where the array does not end with an empty element. -/
theorem resid_calls_finish_iff (fd : Int) (iov : List Iovec) (timeout : Int) :
    (Finishes (stReadvResid fd iov timeout) iov ↔ EndsFull iov) ∧
      (Finishes (stWritevResid fd iov timeout) iov ↔ EndsFull iov) := by
  constructor
  · constructor
    · intro h
      by_contra hlast
      refine not_finishes hlast rfl (ask_readv fd iov timeout iov) (fun r hr => ?_) h
      unfold stReadvResid
      simp only
      rw [if_neg (by omega), if_neg (by omega)]
    · intro hfull rs hfits hall
      exact ⟨[], (ends_stReadvResid hfull hfits).returns (cursor_stReadvResid hfits) hall⟩
  · constructor
    · intro h
      by_contra hlast
      refine not_finishes hlast rfl (ask_writev fd iov timeout iov) (fun r hr => ?_) h
      unfold stWritevResid
      simp only
      rw [if_neg (by omega)]
    · intro hfull rs hfits hall
      exact ⟨[], (ends_stWritevResid hfull hfits).returns (cursor_stWritevResid hfits) hall⟩

/-- A reader that has its four bytes waits for the empty buffer behind them. -/
theorem readv_waits_after_whole :
    (stReadvResid 3 [{ iov_base := 0, iov_len := 4 }, { iov_base := 8, iov_len := 0 }] (-1)).after
        (stReadvResid 3 [{ iov_base := 0, iov_len := 4 }, { iov_base := 8, iov_len := 0 }] (-1)).start
        [{ ret := 4, errno := 0, value := 0 }] =
      .inl (.poll [{ iov_base := 8, iov_len := 0 }]) ∧
    ¬ Finishes
      (stReadvResid 3 [{ iov_base := 0, iov_len := 4 }, { iov_base := 8, iov_len := 0 }] (-1))
      [{ iov_base := 0, iov_len := 4 }, { iov_base := 8, iov_len := 0 }] := by
  refine ⟨rfl, fun h => ?_⟩
  obtain ⟨rest, hreturned⟩ := h [{ ret := 4, errno := 0, value := 0 }] (by decide) rfl
  cases hreturned

end Contract

end CppGo.Netio
