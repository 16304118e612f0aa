import CppGo.Lib.ByteStream
import CppGo.Netio.ResidFinish
import CppGo.Netio.WritevArrays

/-!
# From `st_writev` to `st_readv_resid`

One task sends its buffers through a connection, and another one fills its own at the other end.
The kernel moves as many bytes as it likes, refuses and interrupts the calls, and lets them wait
in `Poll` in any order.
-/

namespace CppGo.Netio

open CppGo.Lib CppGo.Lib.Machine

def moves : Transfer Request Reply where
  region := Request.region
  moved r := r.ret.toNat

/-- `st_writev` of `iov`, and `st_readv_resid` of `iov'`. -/
abbrev Connection (β : Type*) :=
  ByteStream FramePc ResidPc (Exit × WritevFrame) (Exit × List Iovec) Request Reply β

/-- A call that is asked for bytes moves none only at the end of the stream: the other side does
not send any more, and everything is taken. -/
def EndOfStream {β : Type*} (s : Connection β) (q : Request) (r : Reply) : Prop :=
  ∀ n : Nat, q.size = some n → 0 < n → r.ret = 0 → s.writer.isRight = true ∧ s.pipe = []

section Connection

variable {β : Type*} {fd fd' timeout timeout' : Int} {iov iov' : List Iovec} {stack : Nat → Iovec}
  {alloc : Bool} {content memory : Nat → β} {s : Connection β}

/-- `m` bytes of the sender's buffers have been sent, and `k` are in the receiver's. -/
structure Arrived (iov iov' : List Iovec) (timeout' : Int) (content memory : Nat → β)
    (s : Connection β) (m k : Nat) : Prop where
  order : k ≤ m
  sent : m ≤ totalLen iov
  received : k ≤ totalLen iov'
  stored : ((bytes iov').take k).map s.memory = ((bytes iov).take k).map content
  inTransit : s.pipe = (((bytes iov).take m).drop k).map content
  outside : ∀ x ∉ (bytes iov').take k, s.memory x = memory x
  /-- `st_writev` returns the total when it has sent it -/
  whole : ∀ ret f, s.writer = .inr (.returned ret, f) → totalLen iov ≠ 0 →
    (ret = totalLen iov ↔ m = totalLen iov)
  /-- `st_readv_resid` leaves no element when it has filled all -/
  filled : ∀ e, s.reader = .inr (e, []) → k = totalLen iov'
  /-- and returns 0 before only when nothing comes any more -/
  ended : ∀ rest, s.reader = .inr (.returned 0, rest) → rest ≠ [] → timeout' ≠ 0 → EndsFull iov' →
    s.writer.isRight = true ∧ k = m

theorem take_of_split {α : Type*} {l l' whole : List α} (h : l ++ l' = whole) :
    whole.take l.length = l := by
  rw [← h, List.take_left' rfl]

theorem nodup_transferred {rs : List Reply} (hnodup : (bytes iov').Nodup)
    (hfits : (stReadvResid fd' iov' timeout').Fits Request.Moves
      (stReadvResid fd' iov' timeout').start rs) :
    (moves.total ((stReadvResid fd' iov' timeout').exchanges
      (stReadvResid fd' iov' timeout').start rs)).Nodup := by
  have hsplit := (cursor_stReadvResid hfits).split
  exact hnodup.sublist (List.IsPrefix.sublist ⟨_, hsplit⟩)

theorem hear_returned (sockfd : Int) (array : List Iovec) {r : ResidPc} {a : Reply}
    {rest : List Iovec} (hne : rest ≠ []) (htimeout : timeout ≠ 0)
    (h : (stReadvResid sockfd array timeout).hear r a = .inr (.returned 0, rest)) :
    ∃ left, r = .call left ∧ rest = left ∧ a.ret = 0 := by
  cases r with
  | poll left =>
      simp only [stReadvResid, ResidPc.polled] at h
      split at h
      · simp at h
      · simp at h
  | call left =>
      simp only [stReadvResid] at h
      split at h
      · simp only [ResidPc.failed, refused] at h
        split_ifs at h
        simp at h
      split at h
      · rename_i hzero
        simp only [Sum.inr.injEq, Prod.mk.injEq, true_and] at h
        exact ⟨left, rfl, h.symm, hzero⟩
      · unfold ResidPc.moved at h
        split at h
        · simp at h
        · simp only [Sum.inr.injEq, Prod.mk.injEq, true_and] at h
          exact absurd h.symm hne
        · simp at h

theorem ended_of_reach {rest : List Iovec} (hnodup : (bytes iov').Nodup) (hfull : EndsFull iov')
    (htimeout : timeout' ≠ 0)
    (h : Reach (ByteStream.step moves (stWritevArrays fd iov stack alloc timeout)
        (stReadvResid fd' iov' timeout') content)
      (ByteStream.Answers Request.Moves (stWritevArrays fd iov stack alloc timeout)
        (stReadvResid fd' iov' timeout') EndOfStream)
      (ByteStream.make (stWritevArrays fd iov stack alloc timeout)
        (stReadvResid fd' iov' timeout') memory) s)
    (hreader : s.reader = .inr (.returned 0, rest)) (hne : rest ≠ []) :
    s.writer.isRight = true ∧ s.pipe = [] := by
  induction h with
  | refl =>
      have hstart : ResidPc.enter iov' = .inr (.returned 0, rest) := hreader
      cases iov' with
      | nil =>
          cases hstart
          exact absurd rfl hne
      | cons v iov' => cases hstart
  | @tail u v a hreach hanswers hs ih =>
      obtain ⟨b, w, rfl, hw, rfl⟩ | ⟨b, r, rfl, hr, hlength, rfl⟩ := ByteStream.step_cases hs
      · -- the writer has ended before
        have hright := (ih hreader).1
        rw [hw] at hright
        cases hright
      · obtain ⟨left, rfl, rfl, hzero⟩ := hear_returned fd' iov' hne htimeout hreader
        obtain ⟨-, hplays, -⟩ := ByteStream.delivers_of_reach
          (fun _ => nodup_transferred hnodup) hreach
        obtain ⟨bs, hfits, hafter, -⟩ := hplays.answers
        have hends := ends_stReadvResid hfull hfits
        rw [← hafter, hr] at hends
        obtain ⟨hregion, hsize⟩ := ask_readv fd' iov' timeout' rest
        have hend := (hanswers _ hr).2 _ hsize (hends.full.totalLen_pos hne) hzero
        refine ⟨hend.1, ?_⟩
        show u.pipe.drop _ = []
        rw [hend.2, List.drop_nil]

/-- In every run, what has come is a prefix of what was sent, in its place, and nothing is lost on
the way: when the sender has sent everything and the receiver has filled its buffers, of the same
length, they have the same bytes in the same order. -/
theorem arrived_of_reach (hlong : totalLen iov < 2 ^ 31) (hnodup : (bytes iov').Nodup)
    (h : Reach (ByteStream.step moves (stWritevArrays fd iov stack alloc timeout)
        (stReadvResid fd' iov' timeout') content)
      (ByteStream.Answers Request.Moves (stWritevArrays fd iov stack alloc timeout)
        (stReadvResid fd' iov' timeout') EndOfStream)
      (ByteStream.make (stWritevArrays fd iov stack alloc timeout)
        (stReadvResid fd' iov' timeout') memory) s) :
    ∃ m k, Arrived iov iov' timeout' content memory s m k := by
  obtain ⟨hwriter, hreader, hdelivers⟩ := ByteStream.delivers_of_reach
    (fun _ => nodup_transferred hnodup) h
  obtain ⟨as, hfits, hafter, hsent⟩ := hwriter.answers
  obtain ⟨bs, hfits', hafter', hreceived⟩ := hreader.answers
  obtain ⟨-, hside, hat⟩ := stWritevArrays_refines hlong hfits
  rw [← hsent] at hat
  rw [← hafter] at hside
  have hcursor := cursor_stReadvResid hfits'
  rw [← hreceived, ← hafter'] at hcursor
  obtain ⟨left, hprefix⟩ := hat.isPrefix
  have hm := congrArg List.length hprefix
  have hk := congrArg List.length hcursor.split
  rw [List.length_append, length_bytes] at hm
  rw [List.length_append, length_bytes, length_bytes] at hk
  have htake : (bytes iov).take (transferred s.sent).length = transferred s.sent :=
    take_of_split hprefix
  have htake' : (bytes iov').take (transferred s.received).length = transferred s.received :=
    take_of_split hcursor.split
  have hsplit : (transferred s.sent).map content =
      (transferred s.received).map s.memory ++ s.pipe := hdelivers.split
  have horder : (transferred s.received).length ≤ (transferred s.sent).length := by
    have hlength := congrArg List.length hsplit
    rw [List.length_append, List.length_map, List.length_map] at hlength
    omega
  have hpipe : s.pipe = ((transferred s.sent).drop (transferred s.received).length).map content := by
    rw [List.map_drop, hsplit, List.drop_left' (List.length_map _)]
  refine ⟨(transferred s.sent).length, (transferred s.received).length, ?_⟩
  constructor
  case order => exact horder
  case sent => omega
  case received => omega
  case stored =>
    calc ((bytes iov').take (transferred s.received).length).map s.memory
        = (transferred s.received).map s.memory := by rw [htake']
      _ = ((transferred s.sent).map content).take (transferred s.received).length := by
          rw [hsplit, List.take_left' (List.length_map _)]
      _ = ((bytes iov).take (transferred s.received).length).map content := by
          rw [← List.map_take, ← htake, List.take_take, Nat.min_eq_left horder]
  case inTransit => rw [htake, hpipe]
  case outside =>
    rw [htake']
    exact hdelivers.outside
  case whole =>
    intro ret f hret hne
    rw [hret] at hside
    revert hside hat
    generalize (stWritev fd iov alloc timeout).after (stWritev fd iov alloc timeout).start as = q
    intro hat hside
    cases q with
    | inl t => exact hside.elim
    | inr e =>
        obtain ⟨rfl, -⟩ := hside
        rw [hat.2.2 ret rfl hne]
        constructor
        · intro heq
          rw [heq, length_bytes]
        · intro hlength
          rw [← htake, hlength, ← length_bytes, List.take_length]
  case filled =>
    intro e he
    rw [he] at hk
    simpa [ResidPc.left] using hk
  case ended =>
    intro rest hret hne htimeout hfull
    obtain ⟨hright, hempty⟩ := ended_of_reach hnodup hfull htimeout h hret hne
    refine ⟨hright, ?_⟩
    rw [hpipe, List.map_eq_nil_iff, List.drop_eq_nil_iff] at hempty
    omega

def threeAndTwo : Client FramePc Request Reply (Exit × WritevFrame) :=
  stWritevArrays 5 [⟨100, 3⟩, ⟨200, 2⟩] (fun _ => ⟨0, 0⟩) false 1000

def oneAndFour : Client ResidPc Request Reply (Exit × List Iovec) :=
  stReadvResid 6 [⟨300, 1⟩, ⟨400, 4⟩] 1000

theorem arrived_five_bytes :
    ∃ s : Connection Nat, s.writer.isRight = true ∧ s.reader = .inr (.returned 0, []) ∧
      [300, 400, 401, 402, 403].map s.memory = [100, 101, 102, 200, 201] ∧
      ∃ m k, Arrived [⟨100, 3⟩, ⟨200, 2⟩] [⟨300, 1⟩, ⟨400, 4⟩] 1000 id (fun _ => 0) s m k := by
  have hstart : Reach (ByteStream.step moves threeAndTwo oneAndFour id)
      (ByteStream.Answers Request.Moves threeAndTwo oneAndFour EndOfStream)
      (ByteStream.make threeAndTwo oneAndFour fun _ => 0)
      (ByteStream.make threeAndTwo oneAndFour fun _ => 0) := .refl
  -- `writev` takes four bytes, and `readv` two of them
  have hfour := hstart.tail (a := StreamStep.write ⟨4, 0, 0⟩) (by rintro w ⟨⟩; decide) rfl
  have htwo := hfour.tail (a := StreamStep.read ⟨2, 0, 0⟩)
    (by rintro r ⟨⟩; exact ⟨by decide, fun _ _ _ h => absurd h (by decide)⟩) rfl
  have hpolled := htwo.tail (a := StreamStep.write ⟨1, 0, 0⟩) (by rintro w ⟨⟩; decide) rfl
  have hsent := hpolled.tail (a := StreamStep.write ⟨1, 0, 0⟩) (by rintro w ⟨⟩; decide) rfl
  have hwoken := hsent.tail (a := StreamStep.read ⟨1, 0, 0⟩)
    (by rintro r ⟨⟩; exact ⟨by decide, fun _ _ _ h => absurd h (by decide)⟩) rfl
  have hfilled := hwoken.tail (a := StreamStep.read ⟨3, 0, 0⟩)
    (by rintro r ⟨⟩; exact ⟨by decide, fun _ _ _ h => absurd h (by decide)⟩) rfl
  exact ⟨_, rfl, rfl, by decide, arrived_of_reach (by decide) (by decide) hfilled⟩

end Connection

end CppGo.Netio
