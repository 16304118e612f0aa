import CppGo.Netio.IoCallsPrompt
import CppGo.Netio.Transfers

/-!
# The cursor of the resumable calls

`st_readv_resid` and `st_writev_resid` advance the caller's array.  At every moment the
bytes that have been moved, followed by what the array still describes, are the buffers
of the call.
-/

namespace CppGo.Netio

open CppGo.Lib

@[simp] theorem length_bytes (iov : List Iovec) : (bytes iov).length = totalLen iov := by
  induction iov with
  | nil => rfl
  | cons v iov ih => rw [bytes_cons, List.length_append, length_bytes_iovec, ih, totalLen_cons]

theorem Iovec.bytes_drop (v : Iovec) (n : Nat) : (v.drop n).bytes = v.bytes.drop n := by
  rw [Iovec.bytes, Iovec.bytes, List.drop_range', Nat.mul_one]
  rfl

def remaining (k : Nat) : List Iovec → List Iovec
  | [] => []
  | v :: rest => v.drop k :: rest

theorem bytes_remaining {k : Nat} {v : Iovec} {rest : List Iovec} (hk : k ≤ v.iov_len) :
    bytes (remaining k (v :: rest)) = (bytes (v :: rest)).drop k := by
  rw [remaining, bytes_cons, bytes_cons, Iovec.bytes_drop,
    List.drop_append_of_le_length (by simpa using hk)]

theorem drop_bytes_cons {n : Nat} {v : Iovec} (hle : v.iov_len ≤ n) (iov : List Iovec) :
    (bytes (v :: iov)).drop n = (bytes iov).drop (n - v.iov_len) := by
  have hlen := length_bytes_iovec v
  rw [bytes_cons, List.drop_append, List.drop_of_length_le (by omega), hlen, List.nil_append]

/-- What the loop over the elements leaves are the bytes behind the first `n`. -/
theorem advance_bytes {n k : Nat} {iov rest : List Iovec} (h : advance n iov = some (k, rest)) :
    bytes (remaining k rest) = (bytes iov).drop n := by
  induction iov generalizing n with
  | nil => cases h
  | cons v iov ih =>
      rw [advance] at h
      split at h
      · rename_i hle
        have hdrop := drop_bytes_cons hle iov
        split at h
        · rename_i hzero
          cases h
          rw [hdrop, hzero, List.drop_zero]
          cases rest with
          | nil => rfl
          | cons w rest => rw [bytes_remaining (Nat.zero_le _), List.drop_zero]
        · rw [hdrop, ih h]
      · cases h
        rw [bytes_remaining (by omega)]

theorem advance_length {n k : Nat} {iov rest : List Iovec} (h : advance n iov = some (k, rest)) :
    rest.length ≤ iov.length := by
  induction iov generalizing n with
  | nil => cases h
  | cons v iov ih =>
      rw [List.length_cons]
      rw [advance] at h
      split at h
      · split at h
        · cases h
          omega
        · have := ih h
          omega
      · cases h
        rw [List.length_cons]

/-- The array that is left, at a call of the system, in `Poll` or at the return. -/
def ResidPc.left : ResidPc ⊕ Exit × List Iovec → List Iovec
  | .inl (.call iov) | .inl (.poll iov) | .inr (_, iov) => iov

/-- After the exchanges `xs` a call that began with the bytes `whole` in `size` elements is
at `p`. -/
structure Cursor (whole : List Nat) (size : Nat) (p : ResidPc ⊕ Exit × List Iovec)
    (xs : List (Request × Reply)) : Prop where
  /-- nothing is skipped and nothing is moved twice -/
  split : transferred xs ++ bytes (ResidPc.left p) = whole
  /-- no element behind the array is read -/
  inside : ∀ rest, p ≠ .inr (.overrun, rest)
  pending : ∀ s, p = .inl s → ResidPc.left p ≠ []
  shorter : (ResidPc.left p).length ≤ size

structure ExactCursor (iov : List Iovec) (p : ResidPc ⊕ Exit × List Iovec)
    (xs : List (Request × Reply)) : Prop where
  split : transferred xs ++ bytes (ResidPc.left p) = bytes iov
  inside : ∀ rest, p ≠ .inr (.overrun, rest)
  complete : ∀ e, p = .inr (e, []) → transferred xs = bytes iov

theorem firstLen_eq {rest : List Iovec} (h : rest.length ≤ 1) : firstLen rest = totalLen rest := by
  rcases rest with _ | ⟨v, _ | ⟨w, rest⟩⟩
  · rfl
  · simp [firstLen]
  · simp at h

namespace Cursor

variable {whole : List Nat} {size : Nat} {rest : List Iovec} {xs : List (Request × Reply)}
  {q : Request} {r : Reply}

theorem start (iov : List Iovec) : Cursor (bytes iov) iov.length (ResidPc.enter iov) [] := by
  cases iov <;> constructor <;> simp [ResidPc.enter, ResidPc.left]

theorem same {p p' : ResidPc ⊕ Exit × List Iovec} (h : Cursor whole size p xs)
    (hmoved : transferred (xs ++ [(q, r)]) = transferred xs)
    (hleft : ResidPc.left p' = ResidPc.left p) (hne : ResidPc.left p ≠ [])
    (hinside : ∀ rest, p' ≠ .inr (.overrun, rest)) : Cursor whole size p' (xs ++ [(q, r)]) := by
  constructor
  · rw [hmoved, hleft]
    exact h.split
  · exact hinside
  · intro _ _
    rw [hleft]
    exact hne
  · rw [hleft]
    exact h.shorter

theorem failed (h : Cursor whole size (.inl (.call rest)) xs) (hret : r.ret < 0) (timeout : Int) :
    Cursor whole size (ResidPc.failed rest r.errno timeout) (xs ++ [(q, r)]) := by
  have hne : rest ≠ [] := h.pending _ rfl
  unfold ResidPc.failed refused
  split_ifs
  all_goals exact h.same (transferred_failed hret xs q) rfl hne (by simp)

theorem polled (h : Cursor whole size (.inl (.poll rest)) xs) (fd : Int) (events : BitVec 32)
    (timeout : Int) :
    Cursor whole size (ResidPc.polled rest r.ret) (xs ++ [(.poll fd events timeout, r)]) := by
  have hne : rest ≠ [] := h.pending _ rfl
  unfold ResidPc.polled
  split_ifs
  all_goals exact h.same (transferred_poll xs fd events timeout r) rfl hne (by simp)

theorem ended (h : Cursor whole size (.inl (.call rest)) xs) (hret : r.ret = 0) :
    Cursor whole size (.inr (.returned 0, rest)) (xs ++ [(q, r)]) := by
  have hmoved : transferred (xs ++ [(q, r)]) = transferred xs := by
    rw [transferred_concat, hret]
    simp
  exact h.same hmoved rfl (h.pending _ rfl) (by simp)

theorem moved (h : Cursor whole size (.inl (.call rest)) xs) (hregion : q.region = bytes rest)
    (hle : r.ret ≤ totalLen rest) (hret : 0 ≤ r.ret) :
    Cursor whole size (ResidPc.moved rest r.ret.toNat) (xs ++ [(q, r)]) := by
  have hne : rest ≠ [] := h.pending _ rfl
  obtain ⟨k, rest', hadvance, -⟩ := advance_spec (n := r.ret.toNat) (by omega) hne
  have hbytes := advance_bytes hadvance
  have hsplit : transferred (xs ++ [(q, r)]) ++ bytes (remaining k rest') = whole := by
    calc transferred (xs ++ [(q, r)]) ++ bytes (remaining k rest')
        = transferred xs ++
            ((bytes rest).take r.ret.toNat ++ (bytes rest).drop r.ret.toNat) := by
          rw [transferred_concat, hregion, hbytes, List.append_assoc]
      _ = transferred xs ++ bytes rest := by rw [List.take_append_drop]
      _ = whole := h.split
  have hlength : rest'.length ≤ size := (advance_length hadvance).trans h.shorter
  rw [ResidPc.moved, hadvance]
  cases rest' with
  | nil => exact ⟨hsplit, by simp, by simp, by simp [ResidPc.left]⟩
  | cons v rest' => exact ⟨hsplit, by simp, by simp [ResidPc.left], hlength⟩

theorem exact {iov : List Iovec} {p : ResidPc ⊕ Exit × List Iovec}
    (h : Cursor (bytes iov) size p xs) : ExactCursor iov p xs := by
  refine ⟨h.split, h.inside, ?_⟩
  rintro e rfl
  have := h.split
  rwa [ResidPc.left, bytes_nil, List.append_nil] at this

theorem resid {v : Iovec} {e : Exit} (h : Cursor v.bytes 1 (.inr (e, rest)) xs) :
    transferred xs = v.bytes.take (v.iov_len - firstLen rest) ∧ firstLen rest ≤ v.iov_len := by
  have hsplit := h.split
  have hlen : firstLen rest = totalLen rest := firstLen_eq h.shorter
  rw [ResidPc.left] at hsplit
  have htotal := congrArg List.length hsplit
  rw [List.length_append, length_bytes, ← hlen, length_bytes_iovec] at htotal
  refine ⟨?_, by omega⟩
  rw [← hsplit, List.take_left' (by omega)]

end Cursor

section Resid

variable {fd : Int} {iov rest : List Iovec} {timeout : Int} {r : Reply} {rs : List Reply}

theorem ask_writev (fd : Int) (iov : List Iovec) (timeout : Int) (rest : List Iovec) :
    ((stWritevResid fd iov timeout).ask (.call rest)).region = bytes rest ∧
      ((stWritevResid fd iov timeout).ask (.call rest)).size = some (totalLen rest) := by
  rcases rest with _ | ⟨v, _ | ⟨w, rest⟩⟩
  all_goals simp [stWritevResid, Request.region, Request.size]

theorem ask_readv (fd : Int) (iov : List Iovec) (timeout : Int) (rest : List Iovec) :
    ((stReadvResid fd iov timeout).ask (.call rest)).region = bytes rest ∧
      ((stReadvResid fd iov timeout).ask (.call rest)).size = some (totalLen rest) := by
  rcases rest with _ | ⟨v, _ | ⟨w, rest⟩⟩
  all_goals simp [stReadvResid, Request.region, Request.size]

theorem cursor_stWritevResid
    (hfits : (stWritevResid fd iov timeout).Fits Request.Moves
      (stWritevResid fd iov timeout).start rs) :
    Cursor (bytes iov) iov.length
      ((stWritevResid fd iov timeout).after (stWritevResid fd iov timeout).start rs)
      ((stWritevResid fd iov timeout).exchanges (stWritevResid fd iov timeout).start rs) := by
  refine Client.after_invariant (J := Cursor (bytes iov) iov.length) hfits (Cursor.start iov) ?_
  intro s r xs h hfit
  cases s with
  | poll rest => exact h.polled fd POLLOUT timeout
  | call rest =>
      obtain ⟨hregion, hsize⟩ := ask_writev fd iov timeout rest
      by_cases hret : r.ret < 0
      · have := h.failed (q := (stWritevResid fd iov timeout).ask (.call rest)) hret timeout
        simpa only [stWritevResid, if_pos hret] using this
      · have := h.moved hregion (hfit _ hsize) (not_lt.mp hret)
        simpa only [stWritevResid, if_neg hret] using this

theorem cursor_stReadvResid
    (hfits : (stReadvResid fd iov timeout).Fits Request.Moves
      (stReadvResid fd iov timeout).start rs) :
    Cursor (bytes iov) iov.length
      ((stReadvResid fd iov timeout).after (stReadvResid fd iov timeout).start rs)
      ((stReadvResid fd iov timeout).exchanges (stReadvResid fd iov timeout).start rs) := by
  refine Client.after_invariant (J := Cursor (bytes iov) iov.length) hfits (Cursor.start iov) ?_
  intro s r xs h hfit
  cases s with
  | poll rest => exact h.polled fd POLLIN timeout
  | call rest =>
      obtain ⟨hregion, hsize⟩ := ask_readv fd iov timeout rest
      by_cases hret : r.ret < 0
      · have := h.failed (q := (stReadvResid fd iov timeout).ask (.call rest)) hret timeout
        simpa only [stReadvResid, if_pos hret] using this
      · by_cases hzero : r.ret = 0
        · have := h.ended (q := (stReadvResid fd iov timeout).ask (.call rest)) hzero
          simpa only [stReadvResid, if_neg hret, if_pos hzero] using this
        · have := h.moved hregion (hfit _ hsize) (not_lt.mp hret)
          simpa only [stReadvResid, if_neg hret, if_neg hzero] using this

theorem resid_stWriteResid {buf count resid : Nat} {e : Exit}
    (hfits : (stWriteResid fd buf count timeout).Fits Request.Moves
      (stWriteResid fd buf count timeout).start rs)
    (hret : (stWriteResid fd buf count timeout).after (stWriteResid fd buf count timeout).start rs =
      .inr (e, resid)) :
    transferred ((stWriteResid fd buf count timeout).exchanges
      (stWriteResid fd buf count timeout).start rs) = List.range' buf (count - resid) ∧
        resid ≤ count := by
  have hcursor := cursor_stWritevResid ((Client.fits_start_map _ _).mp hfits)
  obtain ⟨⟨e', rest⟩, hafter, heq⟩ := (Client.after_start_map_eq_inr _ _).mp hret
  obtain ⟨rfl, rfl⟩ := Prod.mk.inj heq
  rw [hafter, bytes_cons, bytes_nil, List.append_nil] at hcursor
  obtain ⟨hmoved, hle⟩ := hcursor.resid
  rw [Iovec.bytes, List.take_range'_of_length_ge (Nat.sub_le _ _)] at hmoved
  exact ⟨(congrArg transferred (Client.exchanges_start_map _ _)).trans hmoved, hle⟩

theorem toInt_of_lt {n : Nat} (hn : n < 2 ^ 31) : toInt n = n := by
  have hmod : n % 2 ^ 32 = n := Nat.mod_eq_of_lt (by omega)
  rw [toInt, BitVec.toInt_eq_toNat_of_lt, BitVec.toNat_ofNat, hmod]
  rw [BitVec.toNat_ofNat, hmod]
  omega

theorem complete_stWrite {buf count : Nat} (hcount : count < 2 ^ 31)
    (hfits : (stWrite fd buf count timeout).Fits Request.Moves
      (stWrite fd buf count timeout).start rs)
    (hret : (stWrite fd buf count timeout).after (stWrite fd buf count timeout).start rs =
      .inr (.returned count)) :
    transferred ((stWrite fd buf count timeout).exchanges
      (stWrite fd buf count timeout).start rs) = List.range' buf count := by
  have hfits' := (Client.fits_start_map _ _).mp hfits
  obtain ⟨⟨e, resid⟩, hafter, heq⟩ := (Client.after_start_map_eq_inr _ _).mp hret
  obtain ⟨hmoved, hle⟩ := resid_stWriteResid hfits' hafter
  have hresid : resid = 0 := by
    cases e with
    | returned rv =>
        rw [writeRet, Exit.returned.injEq] at heq
        split at heq
        · rw [toInt_of_lt (by omega)] at heq
          omega
        · omega
    | aborted | overrun => cases heq
  rw [hresid, Nat.sub_zero] at hmoved
  exact (congrArg transferred (Client.exchanges_start_map _ _)).trans hmoved

end Resid

/-- The resumable calls keep an exact cursor, so `st_write_resid` counts exactly what is not
sent, and `st_write` returns `count` only if everything is. -/
theorem resid_calls_exact (fd timeout : Int) (rs : List Reply) :
    (∀ iov, let call := stReadvResid fd iov timeout
      call.Fits Request.Moves call.start rs →
        ExactCursor iov (call.after call.start rs) (call.exchanges call.start rs)) ∧
    (∀ iov, let call := stWritevResid fd iov timeout
      call.Fits Request.Moves call.start rs →
        ExactCursor iov (call.after call.start rs) (call.exchanges call.start rs)) ∧
    (∀ buf count, count < 2 ^ 31 → let call := stWriteResid fd buf count timeout
      call.Fits Request.Moves call.start rs →
        ∀ e resid, call.after call.start rs = .inr (e, resid) →
          (transferred (call.exchanges call.start rs)).length + resid = count) ∧
    (∀ buf count, count < 2 ^ 31 → let call := stWrite fd buf count timeout
      call.Fits Request.Moves call.start rs →
        call.after call.start rs = .inr (.returned count) →
          transferred (call.exchanges call.start rs) = List.range' buf count) := by
  refine ⟨?_, ?_, ?_, ?_⟩
  · intro iov call hfits
    exact (cursor_stReadvResid hfits).exact
  · intro iov call hfits
    exact (cursor_stWritevResid hfits).exact
  · intro buf count _ call hfits e resid hret
    obtain ⟨hmoved, hle⟩ := resid_stWriteResid hfits hret
    rw [hmoved, List.length_range']
    omega
  · intro buf count hcount call hfits hret
    exact complete_stWrite hcount hfits hret

/-- A partial transfer that ends before an empty element, and an interruption. -/
theorem resid_calls_exact_four :
    let iov : List Iovec := [⟨100, 2⟩, ⟨200, 3⟩, ⟨300, 0⟩, ⟨400, 4⟩]
    let rs : List Reply := [⟨5, 0, 0⟩, ⟨0, 0, 0⟩, ⟨-1, EINTR, 0⟩, ⟨1, 0, 0⟩]
    let call := stWritevResid 5 iov (-1)
    call.after call.start rs = .inl (.poll [⟨401, 3⟩]) ∧
      ExactCursor iov (call.after call.start rs) (call.exchanges call.start rs) :=
  ⟨by decide, (resid_calls_exact 5 (-1) _).2.1 _ (by decide)⟩

end CppGo.Netio
